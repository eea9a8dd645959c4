import FlowLock.Main
import FlowLock.Proofs.Checkout.Current
import FlowLock.Proofs.Checkout.Overview
import FlowLock.Proofs.Checkout.Steps
import FlowLock.Proofs.Compile.Independent
import FlowLock.Proofs.Compile.Order
import FlowLock.Proofs.Compile.Relocate
import FlowLock.Proofs.Compile.Strict
import FlowLock.Proofs.Compile.Uses
import FlowLock.Proofs.Document
import FlowLock.Proofs.Engine.Coverage
import FlowLock.Proofs.Import.Cycle
import FlowLock.Proofs.Import.Transparent
import FlowLock.Proofs.Markdown
import FlowLock.Proofs.Mcp.Describe
import FlowLock.Proofs.Memory
import FlowLock.Proofs.Network.Wrap
import FlowLock.Proofs.Prompt.Heredoc
import FlowLock.Proofs.Prompt.Plain
import FlowLock.Proofs.SafeOutput.Limit
import FlowLock.Proofs.Workflow.AppToken
import FlowLock.Proofs.Workflow.CallOutputs
import FlowLock.Proofs.Workflow.Permissions
