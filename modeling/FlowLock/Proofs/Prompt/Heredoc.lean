import FlowLock.Proofs.Import.Shown

/-!
# What a shell reads of the prompt

The prompt stands in a script as the document of a command.  A shell reads the document up to the
first line that equals its delimiter, and takes what follows for commands.  So the prompt reaches
its file as a whole unless one of its lines is the delimiter; then it is cut there, and the shell
carries out the rest.
-/

namespace FlowLock

open List Text Step

/-! ## Reading scripts -/

namespace Shell

/-- A command of a script: its line, and the lines of the document that it is given. -/
structure Command where
  line : String
  document : List String
deriving DecidableEq

/-- The word in quotes that ends the document of a line, where the line has one. -/
def delimiter? (line : String) : Option String :=
  (Prompt.breakOn "<< '".toList line.toList).map fun parts =>
    String.ofList (parts.2.takeWhile (· != '\''))

/-- The commands of some lines.  `reading` is a command whose document is being read, with the
delimiter; outside of documents, every line that is not empty is a command. -/
def commandsFrom (reading : Option (Command × String)) : List String → List Command
  | [] => (reading.map (·.1)).toList
  | line :: lines =>
    match reading with
    | some (command, delimiter) =>
      if line = delimiter then command :: commandsFrom none lines
      else
        commandsFrom
          (some ({ command with document := command.document ++ [line] }, delimiter)) lines
    | none =>
      match delimiter? line with
      | some delimiter => commandsFrom (some (⟨line, []⟩, delimiter)) lines
      | none =>
        if line = "" then commandsFrom none lines else ⟨line, []⟩ :: commandsFrom none lines

def commands (script : String) : List Command := commandsFrom none (lines script)

/-- A document ends at the first line that equals its delimiter. -/
theorem commandsFrom_append {delimiter : String} {lines : List String} (h : delimiter ∉ lines)
    (command : Command) (rest : List String) :
    commandsFrom (some (command, delimiter)) (lines ++ delimiter :: rest) =
      { command with document := command.document ++ lines } :: commandsFrom none rest := by
  induction lines generalizing command with
  | nil => rw [nil_append, commandsFrom, if_pos rfl, append_nil]
  | cons line lines ih =>
    obtain ⟨hne, hlines⟩ := not_or.mp (mt mem_cons.mpr h)
    rw [cons_append, commandsFrom, if_neg (Ne.symm hne), ih hlines, append_assoc, singleton_append]

end Shell

/-! ## Texts that a command writes -/

namespace Step

def ended (text : String) : String := if endsWith text "\n" then text else text ++ "\n"

def writtenLines (text : String) : List String :=
  if endsWith text "\n" then (lines text).dropLast else lines text

def heredocLine (path delimiter : String) : String := 
  "cat << '" ++ delimiter ++ "' > \"" ++ path ++ "\""

theorem lines_of_not_mem {s : String} (h : '\n' ∉ s.toList) : lines s = [s] := by
  rw [Text.lines, Text.splitOn, Text.splitList_of_not_mem h, map_singleton, String.ofList_toList]

theorem exists_ended (text : String) :
    ∃ s, ended text = s ++ "\n" ∧ writtenLines text = lines s ∧
      (lines text = lines s ∨ lines text = lines s ++ [""]) := by
  cases hend : endsWith text "\n" with
  | false => exact ⟨text, by simp [ended, hend], by simp [writtenLines, hend], .inl rfl⟩
  | true =>
    obtain ⟨s, rfl⟩ := endsWith_iff.mp hend
    have hlines : lines (s ++ "\n") = lines s ++ [""] := by
      rw [← @String.append_empty (s ++ "\n"), lines_append]
      rfl
    refine ⟨s, by simp [ended, hend], ?_, .inr hlines⟩
    rw [writtenLines, if_pos hend, hlines, dropLast_concat]

/-- **The lines that are written make the text.** -/
theorem join_writtenLines (text : String) :
    String.join ((writtenLines text).map (· ++ "\n")) = ended text := by
  obtain ⟨s, hended, hlines, -⟩ := exists_ended text
  rw [hended, hlines, ← String.toList_inj, String.toList_join, Text.lines, Text.splitOn,
    map_map, flatMap_map, String.toList_append]
  simpa using flatMap_splitList '\n' s.toList

theorem mem_writtenLines {line text : String} (h : line ≠ "") :
    line ∈ writtenLines text ↔ line ∈ lines text := by
  obtain ⟨s, -, hwritten, hlines | hlines⟩ := exists_ended text <;> simp [hwritten, hlines, h]

/-- What is read of a command that writes a text: its line, and then the lines of the text. -/
theorem commands_heredoc {path delimiter : String} (hpath : '\n' ∉ path.toList)
    (hline : '\n' ∉ delimiter.toList) (hquote : '\'' ∉ delimiter.toList) (text : String) :
    Shell.commands (heredoc path text delimiter) =
      Shell.commandsFrom (some (⟨heredocLine path delimiter, []⟩, delimiter))
        (writtenLines text ++ [delimiter, ""]) := by
  obtain ⟨s, hended, hwritten, -⟩ := exists_ended text
  have hscript : heredoc path text delimiter =
      heredocLine path delimiter ++ "\n" ++ (s ++ "\n" ++ (delimiter ++ "\n" ++ "")) := by
    have hparts : heredoc path text delimiter =
        "cat << '" ++ delimiter ++ "' > \"" ++ path ++ "\"\n" ++ ended text ++ delimiter ++
          "\n" := rfl
    rw [hparts, hended, heredocLine, ← String.toList_inj]
    simp
  have hcommand : '\n' ∉ (heredocLine path delimiter).toList := by
    simp [heredocLine, hpath, hline]
  have hword : Shell.delimiter? (heredocLine path delimiter) = some delimiter := by
    have hafter : Prompt.breakOn "<< '".toList (heredocLine path delimiter).toList =
        some ("cat ".toList, delimiter.toList ++ '\'' :: (" > \"" ++ path ++ "\"").toList) := by
      simp [heredocLine, Prompt.breakOn, isPrefixOf]
    rw [Shell.delimiter?, hafter, Option.map_some, takeWhile_append_cons hquote,
      String.ofList_toList]
  rw [Shell.commands, hscript, lines_append, lines_append, lines_append, lines_of_not_mem hcommand,
    lines_of_not_mem hline, hwritten, singleton_append, Shell.commandsFrom, hword]
  rfl

/-- **What is read of a text.**  Without the delimiter among its lines, the text is the document
of the command, and nothing is left; otherwise it is cut there, and the rest are commands. -/
theorem exists_commands_heredoc {path delimiter : String} (hpath : '\n' ∉ path.toList)
    (hline : '\n' ∉ delimiter.toList) (hquote : '\'' ∉ delimiter.toList) (hne : delimiter ≠ "")
    (text : String) :
    ∃ document rest, Shell.commands (heredoc path text delimiter) =
        ⟨heredocLine path delimiter, document⟩ :: rest ∧
      (String.join (document.map (· ++ "\n")) = ended text ∧ rest = [] ↔
        delimiter ∉ lines text) ∧
      ∀ before after, writtenLines text = before ++ delimiter :: after → delimiter ∉ before →
        document = before ∧ rest = Shell.commandsFrom none (after ++ [delimiter, ""]) := by
  have hcut : ∀ {document rest}, Shell.commands (heredoc path text delimiter) =
      ⟨heredocLine path delimiter, document⟩ :: rest →
      ∀ before after, writtenLines text = before ++ delimiter :: after → delimiter ∉ before →
        document = before ∧ rest = Shell.commandsFrom none (after ++ [delimiter, ""]) := by
    intro document rest h before after hlines hfirst
    rw [commands_heredoc hpath hline hquote, hlines, append_assoc, cons_append,
      Shell.commandsFrom_append hfirst] at h
    cases h
    exact ⟨rfl, rfl⟩
  by_cases hmem : delimiter ∈ writtenLines text
  · obtain ⟨before, after, hlines, hfirst⟩ := eq_append_cons_of_mem hmem
    have hcommands : Shell.commands (heredoc path text delimiter) =
        ⟨heredocLine path delimiter, before⟩ ::
          Shell.commandsFrom none (after ++ [delimiter, ""]) := by
      rw [commands_heredoc hpath hline hquote, hlines, append_assoc, cons_append,
        Shell.commandsFrom_append hfirst, nil_append]
    refine ⟨_, _, hcommands, iff_of_false ?_ (not_not.mpr ((mem_writtenLines hne).mp hmem)),
      hcut hcommands⟩
    rintro ⟨hjoin, -⟩
    -- The lines from the delimiter on would have to be empty.
    rw [← join_writtenLines, hlines, map_append, String.join_append, map_cons] at hjoin
    have hlength := congrArg String.length hjoin
    simp [String.length_append] at hlength
  · have hcommands : Shell.commands (heredoc path text delimiter) =
        [⟨heredocLine path delimiter, writtenLines text⟩] := by
      rw [commands_heredoc hpath hline hquote, Shell.commandsFrom_append hmem, nil_append]
      rfl
    exact ⟨_, _, hcommands, iff_of_true ⟨join_writtenLines text, rfl⟩
      (mt (mem_writtenLines hne).mpr hmem), hcut hcommands⟩

end Step

/-! ## The prompt -/

namespace Prompt

open Outcome

theorem steps_eq_cons {w : Workflow} {ctx : Context} {steps : List Value}
    (h : Prompt.steps w ctx = .ok steps) :
    ∃ others, steps = .obj [("name", .str "Create prompt"),
      ("env", .obj [("GH_AW_PROMPT", .str Engine.promptPath)]),
      ("run", .str (s!"mkdir -p {directory}\n" ++
        heredoc Engine.promptPath (extract (text w)).1 "GH_AW_PROMPT_EOF"))] :: others := by
  refine (?_ : Gives (fun steps => ∃ others, steps = _ :: others) (Prompt.steps w ctx)) steps h
  unfold Prompt.steps
  dsimp only
  split
  · refine .bind_any _ fun substitute => ?_
    split
    · exact .bind_any _ fun _ => .ok ⟨_, rfl⟩
    · exact .bind_any _ fun _ => .bind_any _ fun _ => .ok ⟨_, rfl⟩
  · refine .bind_any _ fun _ => .bind_any _ fun substitute => ?_
    split
    · exact .bind_any _ fun _ => .ok ⟨_, rfl⟩
    · exact .bind_any _ fun _ => .bind_any _ fun _ => .ok ⟨_, rfl⟩

/-- **When the prompt reaches its file.**  A shell reads two commands of the script that creates
the prompt, and the second writes the whole prompt, unless a line of the prompt is the delimiter.
Then the prompt is cut there, and the shell carries out the lines after it. -/
theorem prompt_reaches_file (w : Workflow) (ctx : Context) (steps : List Value)
    (h : Prompt.steps w ctx = .ok steps) :
    let written := (extract (text w)).1
    ∃ script others document rest,
      steps = .obj [("name", .str "Create prompt"),
        ("env", .obj [("GH_AW_PROMPT", .str "/tmp/gh-aw/aw-prompts/prompt.txt")]),
        ("run", .str script)] :: others ∧
      Shell.commands script =
        [⟨"mkdir -p /tmp/gh-aw/aw-prompts", []⟩,
         ⟨"cat << 'GH_AW_PROMPT_EOF' > \"/tmp/gh-aw/aw-prompts/prompt.txt\"", document⟩] ++ rest ∧
      (String.join (document.map (· ++ "\n")) = ended written ∧ rest = [] ↔
        "GH_AW_PROMPT_EOF" ∉ lines written) ∧
      ∀ before after, writtenLines written = before ++ "GH_AW_PROMPT_EOF" :: after →
        "GH_AW_PROMPT_EOF" ∉ before →
        document = before ∧ rest = Shell.commandsFrom none (after ++ ["GH_AW_PROMPT_EOF", ""]) := by
  intro written
  obtain ⟨others, rfl⟩ := steps_eq_cons h
  obtain ⟨document, rest, hcommands, hwhole, hcut⟩ := exists_commands_heredoc
    (by decide : '\n' ∉ Engine.promptPath.toList)
    (by decide : '\n' ∉ "GH_AW_PROMPT_EOF".toList) (by decide) (by decide) written
  refine ⟨_, others, document, rest, rfl, ?_, hwhole, hcut⟩
  have hmkdir : s!"mkdir -p {directory}\n" = "mkdir -p /tmp/gh-aw/aw-prompts" ++ "\n" := by
    decide +kernel
  have hcat : heredocLine Engine.promptPath "GH_AW_PROMPT_EOF" =
      "cat << 'GH_AW_PROMPT_EOF' > \"/tmp/gh-aw/aw-prompts/prompt.txt\"" := by
    decide +kernel
  have hplain : Shell.delimiter? "mkdir -p /tmp/gh-aw/aw-prompts" = none := by decide +kernel
  rw [Shell.commands, hcat] at hcommands
  rw [hmkdir, Shell.commands, lines_append,
    lines_of_not_mem (s := "mkdir -p /tmp/gh-aw/aw-prompts") (by decide),
    List.singleton_append, Shell.commandsFrom, hplain]
  dsimp only
  rw [if_neg (by decide), hcommands]
  rfl

def saying (body : String) : Workflow :=
  { name := "sample", source := Path.ofText "sample.md", body, on := [], engine := {}, tools := {}
    network := {}, permissions := .empty, checkouts := [], safeOutputs := none, imports := {} }

theorem prompt_reaches_file_sample :
    ∃ steps script others, Prompt.steps (saying "GH_AW_PROMPT_EOF1\n\nIt's $HOME") {} = .ok steps ∧
      steps = .obj [("name", .str "Create prompt"),
        ("env", .obj [("GH_AW_PROMPT", .str "/tmp/gh-aw/aw-prompts/prompt.txt")]),
        ("run", .str script)] :: others ∧
      ∃ document, Shell.commands script =
        [⟨"mkdir -p /tmp/gh-aw/aw-prompts", []⟩,
         ⟨"cat << 'GH_AW_PROMPT_EOF' > \"/tmp/gh-aw/aw-prompts/prompt.txt\"", document⟩] ∧
        String.join (document.map (· ++ "\n")) = "GH_AW_PROMPT_EOF1\n\nIt's $HOME\n" := by
  obtain ⟨steps, hsteps⟩ : ∃ steps,
      Prompt.steps (saying "GH_AW_PROMPT_EOF1\n\nIt's $HOME") {} = .ok steps := by decide +kernel
  obtain ⟨script, others, document, rest, hfirst, hcommands, hwhole, -⟩ :=
    prompt_reaches_file _ _ steps hsteps
  obtain ⟨hjoin, rfl⟩ := hwhole.mpr (by decide +kernel)
  refine ⟨steps, script, others, hsteps, hfirst, document, hcommands, hjoin.trans ?_⟩
  decide +kernel

/-- A prompt with the delimiter among its lines, of which the shell carries out a part. -/
theorem prompt_cut_short :
    ∃ steps script others,
      Prompt.steps (saying "One\nGH_AW_PROMPT_EOF\necho two\n") {} = .ok steps ∧
      steps = .obj [("name", .str "Create prompt"),
        ("env", .obj [("GH_AW_PROMPT", .str "/tmp/gh-aw/aw-prompts/prompt.txt")]),
        ("run", .str script)] :: others ∧
      Shell.commands script =
        [⟨"mkdir -p /tmp/gh-aw/aw-prompts", []⟩,
         ⟨"cat << 'GH_AW_PROMPT_EOF' > \"/tmp/gh-aw/aw-prompts/prompt.txt\"", ["One"]⟩,
         ⟨"echo two", []⟩, ⟨"GH_AW_PROMPT_EOF", []⟩] := by
  obtain ⟨steps, hsteps⟩ : ∃ steps,
      Prompt.steps (saying "One\nGH_AW_PROMPT_EOF\necho two\n") {} = .ok steps := by decide +kernel
  obtain ⟨others, rfl⟩ := steps_eq_cons hsteps
  exact ⟨_, _, others, hsteps, rfl, by decide +kernel⟩

end Prompt

end FlowLock
