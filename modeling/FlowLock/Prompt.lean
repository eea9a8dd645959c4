import FlowLock.Engine.Command
import FlowLock.Memory

/-!
# The prompt

What the agent is told: the imported texts, the body of the workflow, and what is to
be known about checkouts, memory and safe outputs.

The prompt is written to a file by a shell command that takes it word for word.
Expressions must not stand in such a command, so each is replaced by a placeholder,
and its value is put in at run time.
-/

namespace FlowLock.Prompt

open Text Template

/-! ## Placeholders -/

def isPath (expression : String) : Bool :=
  match expression.toList with
  | [] => false
  | c :: cs =>
    (isAsciiLetter c || c == '_') && cs.all fun c =>
      isAsciiLetter c || isAsciiDigit c || c == '_' || c == '.' || c == '-'

def nameChar (c : Char) : Char :=
  if ('A' ≤ c && c ≤ 'Z') || isAsciiDigit c then c else '_'

def placeholder (expression : String) : String :=
  if isPath expression then
    "GH_AW_" ++ String.ofList ((upper expression).toList.map nameChar)
  else
    "GH_AW_EXPR_" ++
    String.ofList ((upper (Sha256.hexOfText expression)).toList.take 8)

/-- What stands before the first occurrence of a piece, and what stands after it. -/
def breakOn (piece : List Char) : List Char → Option (List Char × List Char)
  | [] => if piece.isEmpty then some ([], []) else none
  | c :: cs =>
    if piece.isPrefixOf (c :: cs) then some ([], (c :: cs).drop piece.length)
    else (breakOn piece cs).map fun (before, after) => (c :: before, after)

/-- The expression at the start of a list of characters, without the blanks around it,
and what stands after it. -/
def expressionAt? (cs : List Char) : Option (String × List Char) :=
  if opening.toList.isPrefixOf cs then
    (breakOn closing.toList (cs.drop opening.length)).map
      fun (inner, after) => (trim (String.ofList inner), after)
  else none

/-- A list of characters with its expressions replaced, and the expressions by their
placeholders.  `skip` counts the characters still covered by the expression last
replaced. -/
def extractList : Nat → List Char → Table String → List Char × Table String
  | _, [], found => ([], found)
  | skip + 1, _ :: cs, found => extractList skip cs found
  | 0, c :: cs, found =>
    match expressionAt? (c :: cs) with
    | none =>
      let (rest, found) := extractList 0 cs found
      (c :: rest, found)
    | some (expression, after) =>
      let name := placeholder expression
      let (rest, found) := extractList (cs.length - after.length) cs
        (found.setNew name (Step.expression expression))
      (("__" ++ name ++ "__").toList ++ rest, found)

/-- A text with its expressions replaced by placeholders, and the expressions by their
placeholders in the order of their first occurrence. -/
def extract (text : String) : String × Table String :=
  let (rest, found) := extractList 0 text.toList []
  (String.ofList rest, found)

/-! ## Sections -/

def importLines (w : Workflow) : List String :=
  ((w.imports.atRunTime.filter fun entry => some entry != w.agentFile) ++
    w.imports.repositories).map fun entry => "\x7b\x7b#runtime-import " ++ entry ++ "\x7d\x7d"

def cacheSection (w : Workflow) : String :=
  if w.tools.caches.isEmpty then ""
  else
    unlines
      (["## Cache Memory", ""] ++
       (w.tools.caches.map fun c =>
        let mode :=
          if c.restoreOnly then "read-only, restored from cache" else "persisted across runs"
        s!"- `{c.folder}/` ({mode})") ++
       ["", "Store notes and intermediate results as files in these folders to reuse them " ++
        "in later runs of this workflow."]) ++ "\n"

def branchSection (w : Workflow) : String :=
  match w.tools.repoMemory with
  | none => ""
  | some m =>
    "## Repo Memory\n\n" ++
    s!"Files written to `{Memory.branchDirectory}/` are committed to the " ++
    s!"`{m.branch}` branch after the run and restored on the next run.\n"

def outputsSection (w : Workflow) : String :=
  match w.safeOutputs with
  | none => ""
  | some s =>
    if s.outputs.isEmpty then ""
    else
      "## Safe Outputs\n\n" ++
      "You do not have write access to GitHub. To create or modify GitHub resources, " ++
      "call the tools of the `safeoutputs` MCP server; each call is recorded and " ++
      "applied after you finish.\n\n" ++
      "Available tools: " ++
      ", ".intercalate (s.outputs.map fun o => s!"`{o.kind.handlerKey}`") ++ "\n"

/-- What the prompt says about checkouts, when there are several. -/
def checkoutSection (w : Workflow) : String :=
  if w.checkouts.length > 1 then Checkout.overview w.checkouts else ""

def withoutBreaks (text : String) : String := trimWhere (· == '\n') text

def text (w : Workflow) : String :=
  let lines := importLines w
  let body := withoutBreaks w.body
  let known := [checkoutSection w, cacheSection w, branchSection w, outputsSection w].filter
    fun part => !part.isEmpty
  unlines
    ((if w.imports.inlined.isEmpty then [] else [withoutBreaks w.imports.inlined ++ "\n"]) ++
     (if lines.isEmpty then [] else [unlines lines ++ "\n"]) ++
     (if body.isEmpty then [] else [body ++ "\n"]) ++
     (if known.isEmpty then [] else "---\n" :: known))

/-! ## Steps -/

def directory : String := (Path.ofText Engine.promptPath).parent.text

/-- The steps that write the prompt, put in the values of its expressions and the
texts that are imported at run time, and show it. -/
def steps (w : Workflow) (ctx : Context) : Outcome (List Value) := do
  let (written, expressions) := extract (text w)
  let here : Table Value := [("GH_AW_PROMPT", .str Engine.promptPath)]
  let create : Value := .obj
    [("name", .str "Create prompt"),
     ("env", .obj here),
     ("run", .str (s!"mkdir -p {directory}\n" ++
       Step.heredoc Engine.promptPath written "GH_AW_PROMPT_EOF"))]
  let substitute ←
    if expressions.isEmpty then Except.ok []
    else do
      .ok [← Step.script ctx
        { name := "Substitute placeholders"
          handler := "substitute_placeholders"
          environment := Table.update here (expressions.map fun e => (e.1, .str e.2)) }]
  let interpolate ←
    if (importLines w).isEmpty then Except.ok []
    else do
      .ok [← Step.script ctx
        { name := "Interpolate variables and render templates"
          handler := "interpolate_prompt"
          environment := here }]
  let print : Value := .obj
    [("name", .str "Print prompt"),
     ("env", .obj here),
     ("run", .str "cat \"$GH_AW_PROMPT\" >> \"$GITHUB_STEP_SUMMARY\"\n")]
  .ok ([create] ++ substitute ++ interpolate ++ [print])

end FlowLock.Prompt
