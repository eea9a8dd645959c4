import FlowLock.Text.Line
import FlowLock.Yaml.Writer

/-!
# The text of a lock file

A lock file is a header of comment lines and the workflow as a YAML document.  It
is byte-stable: equal workflows with equal headers give equal texts.
-/

namespace FlowLock.LockFile

/-- What the header of a lock file says.  Empty fields are left out, except the
hash and the version. -/
structure Header where
  hash : String
  version : String
  source : String := ""
  description : String := ""
  workflowVersion : String := ""
deriving Repr, DecidableEq

def commentLine (line : String) : String := Text.trimEnd ("# " ++ line)

def Header.lines (h : Header) : List String :=
  ["# This file was automatically generated by awc (agentic-workflow-compiler " ++ h.version ++
      "). DO NOT EDIT.",
   "#",
   "# To update this file, edit the source workflow and run:",
   "#   awc compile"] ++
  (if h.description.isEmpty then []
   else "#" :: (Text.wideLines (Text.trim h.description)).map commentLine) ++
  (if h.source.isEmpty then [] else ["#", "# Source: " ++ h.source]) ++
  (if h.workflowVersion.isEmpty then [] else ["# Workflow version: " ++ h.workflowVersion]) ++
  ["#", "# frontmatter-hash: " ++ h.hash, ""]

def Header.text (h : Header) : String := Text.unlines h.lines ++ "\n"

def render (h : Header) (workflow : Value) : String :=
  h.text ++ Yaml.dump workflow

end FlowLock.LockFile
