import FlowLock.Import.Cache
import FlowLock.Import.Entry
import FlowLock.Import.Merge
import FlowLock.Markdown
import FlowLock.Permission
import FlowLock.Template

/-!
# Resolving imports

The documents that a document imports, and those that these import, are visited
depth first and from left to right, each of them once.  What they declare is put
together as it is met, so an earlier declaration counts before a later one.

A document is either inlined, and its text is taken now, or left to be taken at run
time; agent files and documents of other repositories are always left.
-/

namespace FlowLock

open Text Entries Template

namespace Import

structure File where
  entry : Entry
  path : Path
  shown : String
  digest : String
  settings : Entries
  body : String
  isAgent : Bool
  isInlined : Bool
deriving Inhabited

/-! ## Inputs -/

def isInputChar (c : Char) : Bool :=
  isAsciiLetter c || isAsciiDigit c || c == '_' || c == '-'

def after? (piece : List Char) (cs : List Char) : Option (List Char) :=
  if piece.isPrefixOf cs then some (cs.drop piece.length) else none

/-- The name in a reference to an input at the start of a list of characters, with
what follows the reference. -/
def inputReference? (cs : List Char) : Option (String × List Char) := do
  let cs ← after? opening.toList cs
  let cs ← after? "github.aw.inputs.".toList (cs.dropWhile isBlank)
  let name := cs.takeWhile isInputChar
  let cs ← after? closing.toList ((cs.dropWhile isInputChar).dropWhile isBlank)
  if name.isEmpty then none else some (String.ofList name, cs)

def inputText : Value → String
  | .bool b => ofBool b
  | v => v.plain

/-- A list of characters with the references to known inputs replaced.  `skip`
counts the characters still covered by the reference last replaced. -/
def substituteList (inputs : Table Value) : Nat → List Char → List Char
  | _, [] => []
  | skip + 1, _ :: cs => substituteList inputs skip cs
  | 0, c :: cs =>
    match inputReference? (c :: cs) with
    | none => c :: substituteList inputs 0 cs
    | some (name, rest) =>
      match inputs.get? name with
      | none => c :: substituteList inputs 0 cs
      | some v => (inputText v).toList ++ substituteList inputs (cs.length - rest.length) cs

def substitute (text : String) (inputs : Table Value) : String :=
  String.ofList (substituteList inputs 0 text.toList)

end Import

/-- Everything that the imports of a document declare, in the order of the visit. -/
structure Imports where
  files : List Import.File := []
  repositories : List String := []
  remotes : List String := []
  atRunTime : List String := []
  inlined : String := ""
  agentFile : Option String := none
  agentEntry : Option String := none
  tools : Entries := []
  servers : Table Value := []
  safeOutputs : Table Value := []
  steps : List Value := []
  domains : List String := []
  /-- Levels by the names of their scopes. -/
  permissions : Entries := []
  features : Table Value := []
  engines : List Value := []
deriving Inhabited

namespace Imports

open Import

def paths (i : Imports) : List String := i.files.map fun f => f.path.text

/-! ## Declarations -/

/-- A table with the entries of a mapping whose names it does not have yet. -/
def firstDeclared (t : Table Value) (v : Value) : Table Value :=
  match v.entries? with
  | some es => es.foldl (fun t e => t.setNew e.1.plain e.2) t
  | none => t

def addTexts (texts : List String) (values : List Value) : List String :=
  values.foldl (fun texts v =>
    match v with
    | .str s => if texts.contains s then texts else texts ++ [s]
    | _ => texts) texts

def allowedDomains (network : Value) : List Value :=
  match network.entries? with
  | some es => ((getD es "allowed").items?).getD []
  | none => []

/-- Levels by the names of their scopes, with those of a permissions section. -/
def joinPermissions (levels : Entries) : Value → Outcome Entries
  | .null => .ok levels
  | v => do
    let before ← Permissions.parse (.map levels)
    let more ← Permissions.parse v
    .ok (before.join more).entries

def declare (i : Imports) (settings : Entries) : Outcome Imports := do
  let permissions ← joinPermissions i.permissions (getD settings "permissions")
  .ok { i with
    permissions
    tools :=
      (match (getD settings "tools").entries? with
        | some es => merge i.tools es
        | none => i.tools)
    servers := firstDeclared i.servers (getD settings "mcp-servers")
    safeOutputs := firstDeclared i.safeOutputs (getD settings "safe-outputs")
    steps := i.steps ++ ((getD settings "steps").items?).getD []
    domains := addTexts i.domains (allowedDomains (getD settings "network"))
    features := firstDeclared i.features (getD settings "features")
    engines := i.engines ++
      (match getD settings "engine" with
        | .null => []
        | v => [v]) }

/-! ## Texts -/

/-- The imports with a text taken now; a blank text is left out. -/
def inline (i : Imports) (text : String) : Imports :=
  if isAllBlank text then i
  else { i with inlined := i.inlined ++ trimWhere (· == '\n') text ++ "\n\n" }

def defer (i : Imports) (reference : String) : Imports :=
  { i with atRunTime := i.atRunTime ++ [reference] }

def addFile (i : Imports) (file : File) : Imports := { i with files := i.files ++ [file] }

/-- The imports with an agent file, of which there is at most one; `stack` leads to
the importer. -/
def addAgent (i : Imports) (inlining : Bool) (stack : List Path) (file : File) :
    Outcome Imports :=
  if inlining then
    .error (.imports (stack.map (·.text) ++ [file.path.text]) (.agentInlined file.shown))
  else
    match i.agentFile with
    | some other =>
      .error (.ofMessage
        (s!"multiple agent files found in imports: '{other}' and '{file.shown}'. " ++
          "Only one agent file is allowed per workflow"))
    | none =>
      let i := { i with agentFile := some file.shown, agentEntry := some file.entry.shown }
      if file.entry.inputs.isEmpty then .ok ((i.addFile file).defer file.shown)
      else .ok ((i.addFile { file with isInlined := true }).inline file.body)

def addDocument (i : Imports) (inlining : Bool) (file : File) : Outcome Imports := do
  let i ← i.declare file.settings
  if inlining || !file.entry.inputs.isEmpty then
    .ok ((i.addFile { file with isInlined := true }).inline file.body)
  else
    let reference := match file.entry.heading with
      | some heading => s!"{file.shown}#{heading}"
      | none => file.shown
    .ok ((i.addFile file).defer reference)

/-! ## The visit -/

structure Visit where
  cache : Cache
  visited : List Path
  imports : Imports

def target (tree : FileTree) (importer : Path) (stack : List Path) (entry : Entry) :
    Outcome Path := do
  if endsWith (lower entry.path) ".lock.yml" then
    .error (.schema "imports" (.importOfLockFile entry.shown))
  else
    let candidate := importer.parent.join (Path.ofText entry.path)
    let chain := stack.map (·.text)
    if ← tree.isFile candidate then .ok (Path.resolve tree.workdir candidate)
    else
      .error (.imports (chain ++ [candidate.text])
        (.notFound entry.shown candidate.text chain))

/-- The part of a body that an entry asks for: the section under its heading, or all of it. -/
def importedText (stack : List Path) (path : Path) (body : String) (entry : Entry) :
    Outcome String :=
  match entry.heading with
  | none => .ok body
  | some heading =>
    match Markdown.section? body heading with
    | some text => .ok text
    | none => .error (.imports (stack.map (·.text) ++ [path.text]) (.noSection heading path.text))

def loadFile (tree : FileTree) (base : Path) (stack : List Path) (cache : Cache) (path : Path)
    (entry : Entry) : Outcome (File × Cache) := do
  let (outcome, cache) := cache.read tree path
  let cached ← outcome
  let text ← importedText stack path cached.document.body entry
  .ok
    ({ entry
       path
       shown := shownPath tree.workdir path (some base)
       digest := cached.digest
       settings := cached.document.settings
       body := substitute text entry.inputTable
       isAgent := isAgentFile path.text
       isInlined := false }, cache)

/-- The visit with an import from elsewhere, which is left to be taken at run time;
`none` when the entry is a file of this repository. -/
def visitElsewhere? (v : Visit) (entry : Entry) : Option Visit :=
  let i := v.imports
  if isRepository entry.path then
    some { v with imports :=
      if i.repositories.contains entry.path then i
      else { i with repositories := i.repositories ++ [entry.path] } }
  else if isRemote entry.path then
    some { v with imports :=
      if i.remotes.contains entry.written then i
      else { i with remotes := i.remotes ++ [entry.written] }.defer entry.written }
  else none

def cycle (stack : List Path) (path : Path) : Error :=
  let loop := stack.dropWhile (· != path)
  .imports (stack.map (·.text) ++ [path.text]) (.cycle (loop.map (·.name) ++ [path.name]))

inductive Move where
  /-- There is nothing to visit below the entry. -/
  | stay (v : Visit)
  | descend (path : Path) (entries : List Entry) (v : Visit)

/-- What an entry of a document adds to the visit.  `stack` holds the documents on the
way, the main document first. -/
def move (tree : FileTree) (base : Path) (inlining : Bool) (importer : Path)
    (stack : List Path) (v : Visit) (entry : Entry) : Outcome Move :=
  match visitElsewhere? v entry with
  | some v => .ok (.stay v)
  | none => do
    let path ← target tree importer stack entry
    if stack.contains path then .error (cycle stack path)
    else if v.visited.contains path then .ok (.stay v)
    else
      let (file, cache) ← loadFile tree base stack v.cache path entry
      let visited := v.visited ++ [path]
      if file.isAgent then
        let imports ← v.imports.addAgent inlining stack file
        .ok (.stay { cache, visited, imports })
      else
        let imports ← v.imports.addDocument inlining file
        let nested ← Entry.parseAll (getD file.settings "imports")
        .ok (.descend path nested { cache, visited, imports })

/-- The visit of entries from left to right, where `below` visits the entries of the
documents they add. -/
def visitEach (move : Visit → Entry → Outcome Move)
    (below : Path → List Entry → Visit → Option (Outcome Visit)) :
    List Entry → Visit → Option (Outcome Visit)
  | [], v => some (.ok v)
  | entry :: entries, v =>
    match move v entry with
    | .error e => some (.error e)
    | .ok (.stay v) => visitEach move below entries v
    | .ok (.descend path nested v) =>
      match below path nested v with
      | some (.ok v) => visitEach move below entries v
      | stopped => stopped

/-- The visit of the entries of a document and of everything below them.  It is cut
off, and there is no outcome, when documents import each other more than `depth` deep. -/
def visit (tree : FileTree) (base : Path) (inlining : Bool) :
    Nat → Path → List Path → List Entry → Visit → Option (Outcome Visit)
  | 0, _, _, _, _ => none
  | depth + 1, importer, stack, entries, v =>
    visitEach (move tree base inlining importer stack)
      (fun path nested v => visit tree base inlining depth path (stack ++ [path]) nested v)
      entries v

structure Resolution where
  imports : Imports
  cache : Cache

/-- The cache that a visit works with.  An empty cache is taken as none: the visit then
has a cache of its own. -/
def workingCache (given : Cache) : Cache := if given.size == 0 then .empty else given

/-- The imports of the document at `source` with the given settings, cut off where
documents import each other more than `depth` deep. -/
def resolveWithin (depth : Nat) (tree : FileTree) (cache : Cache) (inlining : Bool)
    (source : Path) (settings : Entries) : Option (Outcome Resolution) :=
  let root := Path.resolve tree.workdir source
  match Entry.parseAll (getD settings "imports") with
  | .error e => some (.error e)
  | .ok entries =>
    let start : Visit := { cache := workingCache cache, visited := [], imports := {} }
    (visit tree root.parent inlining depth root [root] entries start).map
      (·.map fun v => { imports := v.imports, cache := v.cache })

/-- The imports of the document at `source` with the given settings.  A visit goes down
from one document of the tree to another that is not on the way yet, so it need not go
deeper than the number of documents and one. -/
def resolve (tree : FileTree) (cache : Cache) (inlining : Bool) (source : Path)
    (settings : Entries) : Outcome Resolution :=
  (resolveWithin (tree.nodes.length + 1) tree cache inlining source settings).getD
    (.error .fatal)

/-- The cache of the caller after resolving: a cache that was empty still is. -/
def Resolution.callerCache (r : Resolution) (given : Cache) : Cache :=
  if given.size == 0 then given else r.cache

/-! ## Digest -/

/-- What the digest of a document covers: the settings, the body, and the imports
with their digests. -/
def payload (settings : Entries) (imports : Option Imports) (body : String) : Value :=
  .obj ([("frontmatter", .map settings), ("markdown", .str body)] ++
    match imports with
    | none => []
    | some i =>
      [("imports", .list (i.files.map fun f => .list [.str f.shown, .str f.digest])),
       ("remote", .strs (i.remotes ++ i.repositories))])

/-- The digest of a document with its imports.  It does not depend on the order of
keys. -/
def digest (settings : Entries) (imports : Option Imports) (body : String) : Outcome String :=
  orFatal ((Json.encode? Json.canonical (payload settings imports body)).map Sha256.hexOfText)

end Imports

end FlowLock
