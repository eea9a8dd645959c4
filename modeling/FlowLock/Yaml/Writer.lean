import FlowLock.Decimal.Shortest
import FlowLock.Text.Base64
import FlowLock.Value.Basic
import FlowLock.Yaml.Schema
import FlowLock.Yaml.Writer.Sheet

/-!
# Values as YAML text

Block style throughout: one entry a line, two blanks a level, sequences indented
below their key.  Only empty collections are written between brackets.  Texts with
line feeds become literal blocks, other texts are plain where they read back as
texts and quoted where they would not.  Lines are never folded.

The values of an `env` mapping are written in double quotes, so that numbers and
flags stay texts; expressions are left as they are.
-/

namespace FlowLock.Yaml

open Text

/-- The forms in which a scalar can be written. -/
inductive ScalarStyle where
  | plain
  | single
  | double
  | literal
deriving Repr, DecidableEq

/-- A scalar to be written: its text, the name of its standard tag, and the form
asked for. -/
structure Written where
  text : List Char
  tag : String
  wanted : Option ScalarStyle

namespace Written

def doubleFormat : Double.DecimalFormat :=
  { Double.standard with infinity := ".inf", notANumber := ".nan" }

def withPoint (s : String) : String :=
  if !hasChar s '.' && hasChar s 'e' then replaceAll s "e" ".0e" else s

def isQuotedInEnv (s : String) : Bool :=
  !hasChar s '\n' && !startsWith s "$\x7b\x7b"

def ofText (env : Bool) (s : String) : Written :=
  { text := s.toList, tag := "str",
    wanted :=
      if env && isQuotedInEnv s then some .double
      else if hasChar s '\n' then some .literal else none }

def ofValue? (env : Bool) : Value → Option Written
  | .null => some { text := [], tag := "null", wanted := none }
  | .bool b => some { text := (if b then "true" else "false").toList, tag := "bool", wanted := none }
  | .int n => some { text := (toString n).toList, tag := "int", wanted := none }
  | .float x =>
    some { text := (withPoint (x.text doubleFormat)).toList, tag := "float", wanted := none }
  | .str s => some (ofText env s)
  | .date d => some { text := d.text.toList, tag := "timestamp", wanted := none }
  | .moment t => some { text := t.text.toList, tag := "timestamp", wanted := none }
  | .bytes bs =>
    some { text := Base64.encodeLines bs, tag := "binary", wanted := some .literal }
  | _ => none

/-- Whether a plain scalar with this text reads back with its own tag. -/
def resolves (w : Written) : Bool :=
  Schema.workflow.resolve (String.ofList w.text) == Tag.standard w.tag

def form (w : Written) (key : Bool) : ScalarStyle :=
  let analysis := Analysis.of w.text
  if w.wanted == some .double then .double
  else if w.wanted == none && w.resolves && !(key && (analysis.empty || analysis.multiline)) &&
      analysis.plain then .plain
  else if w.wanted == some .literal && !key && analysis.block then .literal
  else if w.wanted == none && analysis.single && !(key && analysis.multiline) then .single
  else .double

def needsTag (w : Written) (kind : ScalarStyle) : Bool :=
  if kind == .plain then !w.resolves else w.tag != "str"

/-- Whether a scalar can be a key on one line with its value: not empty, no line
break, and short. -/
def isSimpleKey (w : Written) : Bool :=
  let analysis := Analysis.of w.text
  w.text.length + w.tag.length + 2 < 128 && !analysis.empty && !analysis.multiline

def write (w : Written) (key : Bool) (indent : Nat) (s : Sheet) : Sheet :=
  let kind := w.form key
  let s := if w.needsTag kind then s.indicator ("!!" ++ w.tag) true false false else s
  match kind with
  | .plain => s.plain w.text
  | .single => s.single indent w.text
  | .double => s.double w.text
  | .literal => s.literal indent w.text

end Written

inductive Mode where
  /-- As part of a workflow, where `env` mappings are special. -/
  | workflow
  | env
  | raw
deriving Repr, DecidableEq

namespace Mode

def below (mode : Mode) (key value : Value) : Mode :=
  match mode with
  | .workflow => if key.isStr "env" && value.entries?.isSome then .env else .workflow
  | _ => .raw

def item (mode : Mode) : Mode :=
  match mode with
  | .workflow => .workflow
  | _ => .raw

end Mode

/-- The indentation of a collection inside one with the given indentation. -/
def deeper : Option Nat → Nat
  | none => 0
  | some n => n + 2

def scalarIndent : Option Nat → Nat
  | none => 2
  | some n => n + 2

def writeKey (indent : Nat) (w : Written) (s : Sheet) : Sheet :=
  let s := s.toIndent indent
  if w.isSimpleKey then (w.write true (indent + 2) s).indicator ":" false false false
  else
    let s := w.write false (indent + 2) (s.indicator "?" true false true)
    (s.toIndent indent).indicator ":" true false true

def writeEmpty (opening closing : String) (s : Sheet) : Sheet :=
  (s.indicator opening true true false).indicator closing false false false

/-- An item of a set: a key without a value. -/
def writeMembers (indent : Nat) : List Value → Sheet → Sheet
  | [], s => s
  | v :: vs, s =>
    let s := match Written.ofValue? false v with
      | some w => writeKey indent w s
      | none => s
    writeMembers indent vs s

def writeScalar (quoted : Bool) (indent : Option Nat) (v : Value) (s : Sheet) : Sheet :=
  match Written.ofValue? quoted v with
  | some w => w.write false (scalarIndent indent) s
  | none => s

mutual

/-- A value written.  `quoted` says that a text is a value of an `env` mapping. -/
def writeValue (mode : Mode) (quoted : Bool) (indent : Option Nat) : Value → Sheet → Sheet
  | .list [], s => writeEmpty "[" "]" s
  | .list (x :: xs), s => writeItems mode.item (deeper indent) (x :: xs) s
  | .map [], s => writeEmpty "\x7b" "\x7d" s
  | .map (e :: es), s => writeEntries mode (deeper indent) (e :: es) s
  | .pair k v, s =>
    let depth := deeper indent
    let s := (s.toIndent depth).indicator "-" true false true
    let s := writeValue .raw false (some depth) k s
    let s := (s.toIndent depth).indicator "-" true false true
    writeValue .raw false (some depth) v s
  | .set [], s => writeEmpty "\x7b" "\x7d" (s.indicator "!!set" true false false)
  | .set (x :: xs), s =>
    writeMembers (deeper indent) (x :: xs) (s.indicator "!!set" true false false)
  | .knot _ _, s => s
  | .null, s => writeScalar quoted indent .null s
  | .bool b, s => writeScalar quoted indent (.bool b) s
  | .int n, s => writeScalar quoted indent (.int n) s
  | .float x, s => writeScalar quoted indent (.float x) s
  | .str t, s => writeScalar quoted indent (.str t) s
  | .date d, s => writeScalar quoted indent (.date d) s
  | .moment t, s => writeScalar quoted indent (.moment t) s
  | .bytes bs, s => writeScalar quoted indent (.bytes bs) s
termination_by structural v => v

def writeItems (mode : Mode) (indent : Nat) : List Value → Sheet → Sheet
  | [], s => s
  | x :: xs, s =>
    let s := (s.toIndent indent).indicator "-" true false true
    writeItems mode indent xs (writeValue mode false (some indent) x s)
termination_by structural xs => xs

def writeEntries (mode : Mode) (indent : Nat) : List (Value × Value) → Sheet → Sheet
  | [], s => s
  | e :: es, s => writeEntries mode indent es (writeEntry mode indent e s)
termination_by structural es => es

def writeEntry (mode : Mode) (indent : Nat) : Value × Value → Sheet → Sheet
  | (k, v), s =>
    let s := match Written.ofValue? false k with
      | some w => writeKey indent w s
      | none => s
    writeValue (mode.below k v) (mode == .env) (some indent) v s
termination_by structural e => e

end

/-- The text of a document.  The value has to be finite: a knot has no text. -/
def dump (v : Value) : String :=
  let s := (writeValue .workflow false none v Sheet.blank).toIndent 0
  let s := if s.openEnded then (s.indicator "..." true false false).toIndent 0 else s
  s.text

end FlowLock.Yaml
