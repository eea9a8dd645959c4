import FlowLock.Permission
import FlowLock.SafeOutput.Field

/-!
# Safe-output types

A safe output is something that an agent may ask for and that a separate job with
more permissions carries out.  This module lists the types: what each is called,
which settings it takes, what it needs, and what it tells the rest of the
workflow.

A type is described by data, so that reading its settings, writing its handler
configuration and everything else is one function for all types.
-/

namespace FlowLock.SafeOutput

inductive Setting where
  | text (s : String)
  | texts (xs : List String)
  | flag (b : Bool)
  | switch (s : Option String)
  | number (n : Int)
  | filters (f : Filters)
  | choices (c : Choices)
deriving Repr, DecidableEq, Inhabited

/-- What a setting may be, with its default. -/
inductive FieldKind where
  | text (default : String)
  /-- A text or a number, kept as text. -/
  | category
  | texts (default : List String)
  | flag (default : Bool)
  | switch
  /-- True when the setting is there and not false. -/
  | allowance
  /-- One word of a list; an empty one counts as not given. -/
  | word (words : List String) (default : String)
  | hours
  | kilobytes (default : Int)
  | filters (discussions : Bool)
  | choices (allowedKey : String)
deriving Repr, DecidableEq

def FieldKind.default : FieldKind → Setting
  | .text d => .text d
  | .category => .text ""
  | .texts d => .texts d
  | .flag d => .flag d
  | .switch => .switch none
  | .allowance => .flag false
  | .word _ d => .text d
  | .hours => .number 0
  | .kilobytes d => .number d
  | .filters _ => .filters {}
  | .choices _ => .choices {}

def FieldKind.isSize : FieldKind → Bool
  | .kilobytes _ => true
  | _ => false

/-- A setting of a type: its name in records, its key in front matter, and what it
may be. -/
structure Field where
  name : String
  key : String
  kind : FieldKind
deriving Repr, DecidableEq

def FieldKind.parse (kind : FieldKind) (es : Entries) (owner key : String) : Outcome Setting :=
  match kind with
  | .text d => do .ok (.text (← textField es owner key d))
  | .category =>
    match Entries.getD es key with
    | .int n => .ok (.text (toString n))
    | _ => do .ok (.text (← textField es owner key ""))
  | .texts d => do
    let xs ← textsField es owner key
    .ok (.texts (if xs.isEmpty then d else xs))
  | .flag d => do .ok (.flag ((← flagField es owner key).getD d))
  | .switch => do .ok (.switch (← switchField es owner key))
  | .allowance => .ok (.flag (allowed es key))
  | .word words d => do
    let word ← choiceField es owner key words
    .ok (.text (if word.isEmpty then d else word))
  | .hours => do .ok (.number (← parseExpiry (Entries.getD es key) owner))
  | .kilobytes d => do .ok (.number (← kilobytesField es owner key d))
  | .filters discussions => do .ok (.filters (← parseFilters es owner discussions))
  | .choices allowedKey => do .ok (.choices (← parseChoices es owner allowedKey))

/-- The types of safe outputs, in the order in which they are written. -/
inductive Kind where
  | createIssue
  | createDiscussion
  | addComment
  | hideComment
  | closeIssue
  | closeDiscussion
  | closePullRequest
  | updateIssue
  | updateDiscussion
  | updatePullRequest
  | updateRelease
  | uploadAsset
  | addLabels
  | removeLabels
  | addReviewer
  | assignMilestone
  | assignToAgent
  | assignToUser
  | unassignFromUser
  | linkSubIssue
  | setIssueType
  | createPullRequest
  | pushToPullRequestBranch
  | createPullRequestReviewComment
  | submitPullRequestReview
  | replyToPullRequestReviewComment
  | resolvePullRequestReviewThread
  | markPullRequestAsReadyForReview
  | dispatchWorkflow
  | createProject
  | updateProject
  | createProjectStatusUpdate
  | createCodeScanningAlert
  | autofixCodeScanningAlert
  | createAgentSession
  | noop
  | missingTool
  | missingData
deriving Repr, DecidableEq, Inhabited

structure Spec where
  key : String
  /-- How many items there may be when the workflow does not say; zero is no limit. -/
  defaultMax : Int := 1
  /-- The outputs of the job that carries out the type, with their descriptions. -/
  exposes : List (String × String) := []
  /-- Whether the target repository may be a star. -/
  anyRepository : Bool := false
  /-- The access that carrying out the type takes. -/
  bundle : List (Scope × Level) := [(.contents, .read), (.issues, .write)]
  /-- What the names of its environment variables start with. -/
  variableStem : String := ""
  fields : List Field := []
deriving Repr, DecidableEq

namespace Kind

def all : List Kind :=
  [.createIssue, .createDiscussion, .addComment, .hideComment, .closeIssue, .closeDiscussion,
   .closePullRequest, .updateIssue, .updateDiscussion, .updatePullRequest, .updateRelease,
   .uploadAsset, .addLabels, .removeLabels, .addReviewer, .assignMilestone, .assignToAgent,
   .assignToUser, .unassignFromUser, .linkSubIssue, .setIssueType, .createPullRequest,
   .pushToPullRequestBranch, .createPullRequestReviewComment, .submitPullRequestReview,
   .replyToPullRequestReviewComment, .resolvePullRequestReviewThread,
   .markPullRequestAsReadyForReview, .dispatchWorkflow, .createProject, .updateProject,
   .createProjectStatusUpdate, .createCodeScanningAlert, .autofixCodeScanningAlert,
   .createAgentSession, .noop, .missingTool, .missingData]

/-! ### Settings that several types have -/

def text (name key : String) : Field := ⟨name, key, .text ""⟩

def texts (name key : String) : Field := ⟨name, key, .texts []⟩

def switch (name key : String) : Field := ⟨name, key, .switch⟩

def titleStart : Field := text "title_prefix" "title-prefix"

def labels : Field := texts "labels" "labels"

def allowedLabels : Field := texts "allowed_labels" "allowed-labels"

def footer : Field := switch "footer" "footer"

def expires : Field := ⟨"expires", "expires", .hours⟩

def filters (discussions : Bool) : Field := ⟨"filters", "filters", .filters discussions⟩

def choices (allowedKey : String) : Field := ⟨"values", "values", .choices allowedKey⟩

def ifNoChanges : Field :=
  ⟨"if_no_changes", "if-no-changes", .word ["warn", "error", "ignore"] ""⟩

def allowance (name key : String) : Field := ⟨name, key, .allowance⟩

def commitToken : Field :=
  text "github_token_for_extra_empty_commit" "github-token-for-extra-empty-commit"

/-! ### Access that several types need -/

def pullRequestAccess : List (Scope × Level) := [(.contents, .read), (.pullRequests, .write)]

def itemAccess : List (Scope × Level) :=
  [(.contents, .read), (.issues, .write), (.pullRequests, .write)]

def discussionAccess : List (Scope × Level) := [(.contents, .read), (.discussions, .write)]

def conversationAccess : List (Scope × Level) :=
  [(.contents, .read), (.issues, .write), (.discussions, .write)]

def projectAccess : List (Scope × Level) := [(.contents, .read), (.repositoryProjects, .write)]

/-- The settings of a report that the agent lacked something. -/
def reportFields (title : String) : List Field :=
  [⟨"create_issue", "create-issue", .flag true⟩, ⟨"title_prefix", "title-prefix", .text title⟩,
   labels]

def spec : Kind → Spec
  | .createIssue =>
    { key := "create-issue"
      exposes :=
        [("created_issue_number", "Number of the first created issue"),
         ("created_issue_url", "URL of the first created issue")]
      fields :=
        [titleStart, labels, allowedLabels, texts "assignees" "assignees",
         switch "close_older_issues" "close-older-issues", expires, switch "group" "group",
         footer] }
  | .createDiscussion =>
    { key := "create-discussion"
      bundle := conversationAccess
      fields :=
        [titleStart, ⟨"category", "category", .category⟩, labels, allowedLabels,
         switch "close_older_discussions" "close-older-discussions", expires, footer,
         ⟨"fallback_to_issue", "fallback-to-issue", .flag true⟩] }
  | .addComment =>
    { key := "add-comment"
      exposes :=
        [("comment_id", "ID of the first added comment"),
         ("comment_url", "URL of the first added comment")]
      fields :=
        [⟨"discussions", "discussions", .flag true⟩,
         switch "hide_older_comments" "hide-older-comments", footer] }
  | .hideComment =>
    { key := "hide-comment"
      defaultMax := 5
      fields :=
        [⟨"discussions", "discussions", .flag true⟩,
         texts "allowed_reasons" "allowed-reasons"] }
  | .closeIssue =>
    { key := "close-issue"
      variableStem := "GH_AW_CLOSE_ISSUE"
      fields :=
        [filters false,
         ⟨"state_reason", "state-reason", .word ["completed", "not_planned", "duplicate"] ""⟩] }
  | .closeDiscussion =>
    { key := "close-discussion"
      bundle := discussionAccess
      variableStem := "GH_AW_CLOSE_DISCUSSION"
      fields := [filters true] }
  | .closePullRequest =>
    { key := "close-pull-request"
      bundle := pullRequestAccess
      variableStem := "GH_AW_CLOSE_PR"
      fields := [filters false] }
  | .updateIssue =>
    { key := "update-issue"
      fields :=
        [allowance "allow_status" "status", allowance "allow_title" "title",
         allowance "allow_body" "body", footer] }
  | .updateDiscussion =>
    { key := "update-discussion"
      bundle := discussionAccess
      fields :=
        [allowance "allow_title" "title", allowance "allow_body" "body",
         allowance "allow_labels" "labels", allowedLabels] }
  | .updatePullRequest =>
    { key := "update-pull-request"
      bundle := pullRequestAccess
      fields :=
        [⟨"allow_title", "title", .flag true⟩, ⟨"allow_body", "body", .flag true⟩,
         ⟨"operation", "operation", .word ["append", "prepend", "replace"] ""⟩] }
  | .updateRelease =>
    { key := "update-release", bundle := [(.contents, .write)] }
  | .uploadAsset =>
    { key := "upload-asset"
      defaultMax := 10
      bundle := [(.contents, .write)]
      fields :=
        [⟨"branch", "branch", .text "assets/$\x7b\x7b github.workflow \x7d\x7d"⟩,
         ⟨"max_size_kb", "max-size", .kilobytes 10240⟩,
         ⟨"allowed_exts", "allowed-exts", .texts [".png", ".jpg", ".jpeg"]⟩] }
  | .addLabels =>
    { key := "add-labels"
      defaultMax := 3
      bundle := itemAccess
      variableStem := "GH_AW_LABELS"
      fields := [choices "allowed"] }
  | .removeLabels =>
    { key := "remove-labels"
      defaultMax := 3
      bundle := itemAccess
      variableStem := "GH_AW_REMOVE_LABELS"
      fields := [choices "allowed"] }
  | .addReviewer =>
    { key := "add-reviewer"
      defaultMax := 3
      bundle := pullRequestAccess
      variableStem := "GH_AW_REVIEWERS"
      fields := [choices "reviewers"] }
  | .assignMilestone =>
    { key := "assign-milestone", variableStem := "GH_AW_MILESTONE", fields := [choices "allowed"] }
  | .assignToAgent =>
    { key := "assign-to-agent"
      variableStem := "GH_AW_AGENT"
      fields := [choices "allowed", ⟨"name", "name", .text "copilot"⟩] }
  | .assignToUser =>
    { key := "assign-to-user", variableStem := "GH_AW_ASSIGNEES", fields := [choices "allowed"] }
  | .unassignFromUser =>
    { key := "unassign-from-user", variableStem := "GH_AW_UNASSIGNEES"
      fields := [choices "allowed"] }
  | .linkSubIssue =>
    { key := "link-sub-issue"
      fields :=
        [texts "parent_required_labels" "parent-required-labels",
         text "parent_title_prefix" "parent-title-prefix",
         texts "sub_required_labels" "sub-required-labels",
         text "sub_title_prefix" "sub-title-prefix"] }
  | .setIssueType =>
    { key := "set-issue-type"
      anyRepository := true
      variableStem := "GH_AW_ISSUE_TYPE"
      fields := [choices "allowed"] }
  | .createPullRequest =>
    { key := "create-pull-request"
      exposes :=
        [("created_pr_number", "Number of the created pull request"),
         ("created_pr_url", "URL of the created pull request")]
      fields :=
        [titleStart, labels, allowedLabels, texts "reviewers" "reviewers",
         switch "draft" "draft", ifNoChanges, switch "allow_empty" "allow-empty", expires,
         switch "auto_merge" "auto-merge", text "base_branch" "base-branch", footer,
         ⟨"fallback_as_issue", "fallback-as-issue", .flag true⟩, commitToken] }
  | .pushToPullRequestBranch =>
    { key := "push-to-pull-request-branch"
      exposes :=
        [("push_commit_sha", "SHA of the pushed commit"),
         ("push_commit_url", "URL of the pushed commit")]
      bundle := [(.contents, .write), (.pullRequests, .write)]
      fields :=
        [titleStart, labels, ifNoChanges, text "commit_title_suffix" "commit-title-suffix",
         commitToken] }
  | .createPullRequestReviewComment =>
    { key := "create-pull-request-review-comment"
      defaultMax := 10
      bundle := pullRequestAccess
      fields := [⟨"side", "side", .word ["LEFT", "RIGHT"] "RIGHT"⟩] }
  | .submitPullRequestReview =>
    { key := "submit-pull-request-review", bundle := pullRequestAccess, fields := [footer] }
  | .replyToPullRequestReviewComment =>
    { key := "reply-to-pull-request-review-comment", defaultMax := 10
      bundle := pullRequestAccess }
  | .resolvePullRequestReviewThread =>
    { key := "resolve-pull-request-review-thread"
      defaultMax := 10
      anyRepository := true
      bundle := pullRequestAccess }
  | .markPullRequestAsReadyForReview =>
    { key := "mark-pull-request-as-ready-for-review"
      bundle := pullRequestAccess
      fields := [filters false] }
  | .dispatchWorkflow =>
    { key := "dispatch-workflow"
      bundle := [(.actions, .write)]
      fields := [texts "workflows" "workflows"] }
  | .createProject =>
    { key := "create-project"
      bundle := projectAccess
      fields := [text "target_owner" "target-owner"] }
  | .updateProject =>
    { key := "update-project"
      defaultMax := 10
      bundle := projectAccess
      fields := [text "project" "project"] }
  | .createProjectStatusUpdate =>
    { key := "create-project-status-update"
      bundle := projectAccess
      fields := [text "project" "project"] }
  | .createCodeScanningAlert =>
    { key := "create-code-scanning-alert"
      defaultMax := 0
      bundle := [(.contents, .read), (.securityEvents, .write)]
      fields := [text "driver" "driver"] }
  | .autofixCodeScanningAlert =>
    { key := "autofix-code-scanning-alert"
      defaultMax := 10
      bundle := [(.contents, .read), (.securityEvents, .write), (.actions, .read)] }
  | .createAgentSession =>
    { key := "create-agent-session", fields := [text "base" "base"] }
  | .noop => { key := "noop", bundle := [] }
  | .missingTool =>
    { key := "missing-tool"
      defaultMax := 0
      bundle := [(.contents, .read)]
      variableStem := "GH_AW_MISSING_TOOL"
      fields := reportFields "[missing tool]" }
  | .missingData =>
    { key := "missing-data"
      defaultMax := 0
      bundle := [(.contents, .read)]
      variableStem := "GH_AW_MISSING_DATA"
      fields := reportFields "[missing data]" }

def key (k : Kind) : String := k.spec.key

def handlerKey (k : Kind) : String := Text.replaceChar k.key '-' '_'

def ofKey? (key : String) : Option Kind := all.find? fun k => k.key == key

/-- Whether a type is a report, which has a job of its own. -/
def isReport : Kind → Bool
  | .missingTool | .missingData => true
  | _ => false

def isProject : Kind → Bool
  | .createProject | .updateProject | .createProjectStatusUpdate => true
  | _ => false

def isPush : Kind → Bool
  | .createPullRequest | .pushToPullRequestBranch => true
  | _ => false

end Kind

end FlowLock.SafeOutput
