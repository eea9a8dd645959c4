import FlowLock.Network.Firewall
import FlowLock.Proofs.Text

/-!
# The words of a wrapped command

A shell splits a command line into words at blanks, and takes away the marks that quote.  The
command of the agent is quoted as a whole and comes back as one word.  The domains and the level
of the log stand in the line as they are, so they are words of their own making.
-/

namespace FlowLock

open List Text

namespace Shell

inductive Mode
  | plain
  | single
  | double
  | escape
  | escapeInDouble
deriving DecidableEq

/-- What is no part of a word where it is not quoted: operators, expansions, ends of commands. -/
def isSpecial (c : Char) : Bool := "|&;<>()$\x60\n".toList.contains c

/-- The words of a command line, given the word that has begun.  There are none if a quote stays
open, or if something else than words stands in the line.  Expansions in double quotes are kept as
they are written. -/
def wordsFrom : Mode → Option (List Char) → List Char → Option (List (List Char))
  | .plain, word, [] => some word.toList
  | _, _, [] => none
  | .plain, word, c :: cs =>
    if c = ' ' ∨ c = '\t' then (wordsFrom .plain none cs).map (word.toList ++ ·)
    else if c = '\'' then wordsFrom .single (some (word.getD [])) cs
    else if c = '"' then wordsFrom .double (some (word.getD [])) cs
    else if c = '\\' then wordsFrom .escape word cs
    else if isSpecial c ∨ c = '#' ∧ word = none then none
    else wordsFrom .plain (some (word.getD [] ++ [c])) cs
  | .single, word, c :: cs =>
    if c = '\'' then wordsFrom .plain word cs
    else wordsFrom .single (some (word.getD [] ++ [c])) cs
  | .double, word, c :: cs =>
    if c = '"' then wordsFrom .plain word cs
    else if c = '\\' then wordsFrom .escapeInDouble word cs
    else wordsFrom .double (some (word.getD [] ++ [c])) cs
  | .escape, word, c :: cs =>
    if c = '\n' then wordsFrom .plain word cs
    else wordsFrom .plain (some (word.getD [] ++ [c])) cs
  | .escapeInDouble, word, c :: cs =>
    if c = '\n' then wordsFrom .double word cs
    else if "$\x60\"\\".toList.contains c then wordsFrom .double (some (word.getD [] ++ [c])) cs
    else wordsFrom .double (some (word.getD [] ++ ['\\', c])) cs

def words? (line : String) : Option (List String) :=
  (wordsFrom .plain none line.toList).map (map String.ofList)

variable {word : Option (List Char)} {cs : List Char}

theorem wordsFrom_append {mode : Mode} {ws : List (List Char)}
    (h : wordsFrom mode word cs = some ws) (ds : List Char) :
    wordsFrom mode word (cs ++ ' ' :: ds) = (wordsFrom .plain none ds).map (ws ++ ·) := by
  fun_induction wordsFrom mode word cs generalizing ws with
  | case3 word c cs hblank ih =>
    obtain ⟨us, hus, rfl⟩ := Option.map_eq_some_iff.mp h
    simp [wordsFrom, hblank, ih hus, Function.comp_def]
  | _ => simp_all [wordsFrom]

variable {line s t : String} {ws us : List String}

theorem words?_append (hline : line = s ++ " ") (hs : words? s = some ws)
    (ht : words? t = some us) : words? (line ++ t) = some (ws ++ us) := by
  obtain ⟨as, has, rfl⟩ := Option.map_eq_some_iff.mp hs
  obtain ⟨bs, hbs, rfl⟩ := Option.map_eq_some_iff.mp ht
  have hchars : (line ++ t).toList = s.toList ++ ' ' :: t.toList := by simp [hline]
  rw [words?, hchars, wordsFrom_append has, hbs]
  simp

theorem words?_intercalate {lines : List String} {wss : List (List String)}
    (h : Forall₂ (fun line ws => words? line = some ws) lines wss) (ht : words? t = some us) :
    words? (" ".intercalate lines ++ " " ++ t) = some (wss.flatten ++ us) := by
  induction h with
  | nil => exact words?_append (by simp) (by decide : words? "" = some []) ht
  | @cons line ws lines wss hline hlines ih =>
    cases hlines with
    | nil => simpa using words?_append rfl hline ht
    | cons =>
      simpa [String.intercalate_cons_cons, String.append_assoc] using words?_append rfl hline ih

theorem wordsFrom_safe (h : ∀ c ∈ cs, isShellSafe c) (hword : word ≠ none ∨ cs ≠ []) :
    wordsFrom .plain word cs = some [word.getD [] ++ cs] := by
  have hmarks : ∀ c ∈ " \t'\"\\#|&;<>()$\x60\n".toList, isShellSafe c = false := by decide
  induction cs generalizing word with
  | nil => cases word <;> simp_all [wordsFrom]
  | cons c cs ih =>
    obtain ⟨hc, hcs⟩ := forall_mem_cons.mp h
    have hmark : c ∉ " \t'\"\\#|&;<>()$\x60\n".toList := fun hmem => by
      rw [hmarks c hmem] at hc
      cases hc
    simp_all [wordsFrom, isSpecial]

theorem wordsFrom_quoted (cs word : List Char) :
    wordsFrom .single (some word) (cs.flatMap shellChar ++ ['\'']) = some [word ++ cs] := by
  induction cs generalizing word with
  | nil => simp [wordsFrom]
  | cons c cs ih =>
    by_cases hc : c = '\''
    · have hquote : shellChar '\'' = ['\'', '"', '\'', '"', '\''] := by decide
      simp [hc, hquote, wordsFrom, ih]
    · simp [hc, shellChar, wordsFrom, ih]

theorem words?_shellWord (s : String) : words? (shellWord s) = some [s] := by
  rw [shellWord]
  split
  · next hempty =>
    rw [String.isEmpty_iff.mp hempty]
    decide
  · split
    · next hne hsafe =>
      rw [words?, wordsFrom_safe (all_eq_true.mp hsafe) (.inr (by simpa using hne))]
      simp
    · have hquoted := wordsFrom_quoted s.toList []
      simp [words?, wordsFrom, hquoted]

end Shell

namespace Network

/-- The words of a wrapped command, given those of the domains and of the level. -/
def wrappedWords (domains level : List String) (command : String) : List String :=
  [["sudo", "-E", "awf"], ["--env-all"], ["--container-workdir", "$\x7bGITHUB_WORKSPACE\x7d"],
   ["--mount", "/tmp:/tmp:rw"],
   ["--mount", "$\x7bGITHUB_WORKSPACE\x7d:$\x7bGITHUB_WORKSPACE\x7d:rw"],
   "--allow-domains" :: domains, "--log-level" :: level,
   ["--proxy-logs-dir", logsDirectory]].flatten ++ ["--", command]

def shownLevel (level : String) : String := if level.isEmpty then "info" else level

theorem words?_logOption : Shell.words? "--log-level" = some ["--log-level"] := by decide

theorem words?_wrapCommand (command : String) {domains : List String} {level : String}
    {ds ls : List String} (hdomains : Shell.words? (",".intercalate domains) = some ds)
    (hlevel : Shell.words? (shownLevel level) = some ls) :
    Shell.words? (wrapCommand command domains level) = some (wrappedWords ds ls command) := by
  have hcommand : Shell.words? ("\\\n  -- " ++ shellWord command) = some ["--", command] :=
    Shell.words?_append (by decide) (by decide : Shell.words? "\\\n  --" = some ["--"])
      (Shell.words?_shellWord command)
  have hallow : Shell.words? ("--allow-domains " ++ ",".intercalate domains) =
      some ("--allow-domains" :: ds) :=
    have hname : Shell.words? "--allow-domains" = some ["--allow-domains"] := by decide
    Shell.words?_append (by decide) hname hdomains
  have hlog : Shell.words? ("--log-level " ++ shownLevel level) = some ("--log-level" :: ls) :=
    Shell.words?_append (by decide) words?_logOption hlevel
  have hbreak : " \\\n  -- " = " " ++ "\\\n  -- " := by decide
  rw [wrapCommand, hbreak, ← String.append_assoc, String.append_assoc]
  exact Shell.words?_intercalate (.cons (by decide) (.cons (by decide) (.cons (by decide)
    (.cons (by decide) (.cons (by decide) (.cons hallow (.cons hlog (.cons (by decide)
      .nil)))))))) hcommand

/-- **A wrapped command has the words that its domains and its level make**, between options that
are always the same, and the command of the agent as its last word.  So the domains and the level
are one word each just when both are words that need no quotes. -/
theorem wrapped_command_words (command : String) {domains : List String} {level : String}
    {ds ls : List String} (hdomains : Shell.words? (",".intercalate domains) = some ds)
    (hlevel : Shell.words? (shownLevel level) = some ls) :
    Shell.words? (wrapCommand command domains level) = some (wrappedWords ds ls command) ∧
    (wrappedWords ds ls command =
        wrappedWords [",".intercalate domains] [shownLevel level] command ↔
      ds = [",".intercalate domains] ∧ ls = [shownLevel level]) := by
  refine ⟨words?_wrapCommand command hdomains hlevel, fun h => ?_,
    fun ⟨hds, hls⟩ => by rw [hds, hls]⟩
  have hmiddle : ds ++ "--log-level" :: ls =
      [",".intercalate domains, "--log-level", shownLevel level] := by
    refine append_cancel_right (?_ : _ ++ ["--proxy-logs-dir", logsDirectory, "--", command] = _)
    simpa [wrappedWords] using h
  -- The option between them is a word of its own, so it is neither the domains nor the level.
  rcases ds with _ | ⟨d, _ | ⟨d', ds⟩⟩
  · rw [← (cons.inj hmiddle).1, words?_logOption] at hdomains
    cases hdomains
  · simpa using hmiddle
  · have hlength := congrArg length hmiddle
    simp only [length_append, length_cons, length_nil] at hlength
    obtain rfl : ds = [] := length_eq_zero_iff.mp (by omega)
    obtain rfl : ls = [] := length_eq_zero_iff.mp (by omega)
    obtain ⟨-, -, hlast⟩ : _ ∧ _ ∧ "--log-level" = shownLevel level := by simpa using hmiddle
    rw [← hlast, words?_logOption] at hlevel
    cases hlevel

theorem wrapped_command_words_sample :
    Shell.words? (wrapCommand "copilot --prompt 'it''s'" ["*.io", "b.io"] "") =
      some (wrappedWords ["*.io,b.io"] ["info"] "copilot --prompt 'it''s'") :=
  (wrapped_command_words _ (by decide : Shell.words? (",".intercalate ["*.io", "b.io"]) = some _)
    (by decide : Shell.words? (shownLevel "") = some _)).1

/-- A domain with an operator in it ends the command of the firewall. -/
theorem domain_runs_command :
    Shell.words? (wrapCommand "agent" ["a.io;id"] "") = none ∧
      Shell.words? (wrapCommand "agent" ["a.io --help"] "") =
        some (wrappedWords ["a.io", "--help"] ["info"] "agent") := by
  refine ⟨by decide +kernel, words?_wrapCommand _ ?_ ?_⟩ <;> decide

end Network

end FlowLock
