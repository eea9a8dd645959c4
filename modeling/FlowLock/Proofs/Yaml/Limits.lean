import FlowLock.Proofs.Yaml.RoundTrip

/-!
# What a document does not keep

Three limits of documents.  A key on one line with its value is not found when it is too
wide; an integer of too many digits is not read; collections that are nested too deep are
not read.  The texts are written all the same.
-/

namespace FlowLock.Yaml

open List Nat

variable {lines : List (List Char)} {key text : String}

/-! ## Keys that are too wide -/

namespace Lexer

open Relation (ReflTransGen)

variable {l r : Lexer} {plain : Bool} {written cs ys : List Char} {kinds : List TokenKind}
  {indent : Int} {outer : List Int} {n : Nat}

theorem run_of_failure {l' : Lexer} {failure : Failure} (hsteps : ReflTransGen Step l l')
    (hfetch : l'.fetch = .error failure) (hn : l.cursor.rest.length < n) :
    run n l = (l'.tokens.reverse.take l'.settled, some failure) := by
  obtain ⟨n, hlt, hrun⟩ := run_of_steps hsteps hn
  rcases n with _ | n
  · cases hlt
  rw [hrun, run, hfetch]

theorem fetch_value (hflow : l.flowLevel = 0) (hpending : l.pending = [])
    (hallowed : l.keyAllowed = false) (hindent : l.indent ≤ l.column)
    (hrest : l.cursor.rest = ':' :: ys) (hys : isBlankOrEnd (ys.headD endChar)) :
    l.fetch = .error (.problem .valueNotAllowed l.cursor.mark) := by
  have hnext : l.toNext = l := @toNext_spaces l 0 _ hrest (by rintro y ⟨⟩; decide)
  rw [fetch_eq, hnext, dropStale_of_nil hpending]
  change l.readToken = _
  rw [readToken, unwind_of_le hindent, (token_mark hys).2.2 hrest, value, hpending]
  dsimp only [lookup]
  rw [openHere, inFlow_eq hflow, if_neg Bool.false_ne_true, hallowed]
  rfl

/-- A scalar that is too wide to be a key is read as one that is none, and the mark after it
has no key. -/
theorem Reaches.wideKey (hreach : Reaches l r) (hreads : ReadsAs plain written cs)
    (h : Stands r kinds indent outer n (written ++ ':' :: ys))
    (hys : isBlankOrEnd (ys.headD endChar)) (hwritten : 1024 < written.length)
    (hindent : r.indent < r.column) :
    ∃ l', ReflTransGen Step l l' ∧ l'.fetch = .error (.problem .valueNotAllowed l'.cursor.mark) ∧
      l'.tokens.reverse.take l'.settled = l'.tokens.reverse ∧
      l'.kindsRead = kinds ++ [.scalar (String.ofList cs) plain] := by
  obtain ⟨s, hread, hmore, hshorter, hs⟩ := h.pends hreads hys (Int.le_of_lt hindent)
  have hdrop : s.dropStale = .ok { s with pending := [] } := by
    refine dropStale_of_stale fun e he => ?_
    rw [hs.pending] at he
    rw [mem_singleton.mp he, isStale_keyHere hs.cursor]
    exact ⟨beq_eq_false_iff_ne.mpr (Int.ne_of_lt hindent), decide_eq_true hwritten⟩
  refine ⟨{ s with pending := [] }, hreach.step (hread.trans hdrop) hmore hshorter,
    fetch_value hs.flow rfl hs.notAllowed hs.inside hs.rest hys, take_of_length_le ?_, hs.kinds⟩
  rw [length_reverse]
  exact le_of_eq hs.count.symm

end Lexer

theorem load_of_unread {tokens : List Token} {failure : Option Failure}
    (htokens : tokenize text.toList = (tokens, failure))
    (h : (Graph.ofTokens Schema.workflow tokens failure).isOk = false) :
    (load Schema.workflow text).isOk = false := by
  rw [load, htokens]
  dsimp only
  cases hgraph : Graph.ofTokens Schema.workflow tokens failure with
  | error problem => rfl
  | ok g =>
    rw [hgraph] at h
    cases h

/-- A document that breaks off after a scalar is not read. -/
theorem Graph.ofTokens_unfinished {plain : Bool} {tokens : List Token} {failure : Option Failure}
    (h : tokens.map (·.kind) = [.streamStart, .scalar text plain]) :
    (Graph.ofTokens Schema.workflow tokens failure).isOk = false := by
  simp only [map_eq_cons_iff, map_eq_nil_iff] at h
  repeat obtain ⟨⟨_, _, _⟩, _, rfl, rfl, h⟩ := h
  rfl

/-- A text with a character that can only be escaped is written in double quotes. -/
theorem Written.form_of_special {env asKey : Bool} {c : Char} (hc : c ∈ text.toList)
    (hspecial : Analysis.isSpecial c) : (ofText env text).form asKey = .double := by
  have hnone : ¬ ∀ c ∈ text.toList, Analysis.isSpecial c = false := fun hall =>
    absurd (hall c hc) (by rw [hspecial]; decide)
  have hcases := form_cases (ofText env text) asKey
  cases hform : (ofText env text).form asKey with
  | double => rfl
  | plain => exact absurd (not_special_of_analysis (.inl (hcases.1 hform).2)) hnone
  | single => exact absurd (not_special_of_analysis (.inr (.inl (hcases.2.2 hform).2))) hnone
  | literal => exact absurd (not_special_of_analysis (.inr (.inr (hcases.2.1 hform).1))) hnone

theorem load_wideKey (hlines : ∀ line ∈ lines, IsRemark line) (hkey : isNarrow key)
    (hsimple : (Written.ofText false key).isSimpleKey)
    (hwide : 1024 < ((Written.ofText false key).write true 0 Sheet.blank).text.length)
    (htext : text.toList = lineText lines ++ (dump (.map [(.str key, .null)])).toList) :
    (load Schema.workflow text).isOk = false := by
  obtain ⟨plain, written, hreads, hwrites, hacceptable, -⟩ :=
    exists_simpleKey (isWideBreak_of_isNarrow hkey)
  obtain ⟨cs, hcs, hscans, hwrite⟩ := lays_null false 0 false
  -- The text: the key, the mark of the value, and what follows.
  have hat : Sheet.At ((writeValue .workflow false none (.map [(.str key, .null)])
      Sheet.blank).toIndent 0) 0 (written ++ ':' :: cs) := by
    have hmarked := blank_at.simpleKey (hwrites 2 _)
    have hended := hwrite hmarked 0 (Nat.le_refl 0)
    have hwritten : writeValue .workflow false none (.map [(.str key, .null)]) Sheet.blank =
        writeScalar false (some 0) .null (((Written.ofText false key).write true 2
          (Sheet.blank.toIndent 0)).indicator ":" false false false) := by
      change writeScalar false (some 0) .null (writeKey 0 (Written.ofText false key) Sheet.blank) = _
      rw [writeKey, if_pos hsimple]
    rw [hwritten]
    simpa only [nil_append, append_assoc, cons_append, replicate_zero, append_nil] using hended
  obtain ⟨tail, ends, hclosing, hdump⟩ := exists_closing hat
  have hlength : 1024 < written.length := by
    have hblank : _ = written := (hwrites 0 Sheet.blank).text
    rwa [← hblank, String.length_toList]
  obtain ⟨r, hreach, hr⟩ := Lexer.reaches_start hlines
    (@Lexer.startsToken_append written (':' :: (cs ++ tail)) hreads.starts)
  have hindent : r.indent < r.column := by rw [hr.indent, Lexer.column, hr.column]; decide
  obtain ⟨l, hsteps, hfetch, htake, hkinds⟩ :=
    hreach.wideKey hreads hr (hscans.headD tail) hlength hindent
  have hall : ∀ c ∈ lineText lines ++ (written ++ ':' :: (cs ++ tail)), isAcceptable c := by
    rw [forall_mem_append, forall_mem_append, forall_mem_cons, forall_mem_append]
    refine ⟨isAcceptable_lineText hlines, hacceptable, by decide, hcs, ?_⟩
    cases hclosing <;> decide
  have htokens : tokenize text.toList =
      (l.tokens.reverse, some (.problem .valueNotAllowed l.cursor.mark)) := by
    have hrun := Lexer.run_of_failure hsteps hfetch
      (Nat.lt_add_of_pos_right (by decide) : _ < (_ : List Char).length + 2)
    rw [htake] at hrun
    have hbody : (dump (.map [(.str key, .null)])).toList = written ++ ':' :: (cs ++ tail) := by
      refine hdump.trans ?_
      rw [append_assoc, cons_append]
    rw [htext, hbody, tokenize, firstForbidden?_eq_none hall]
    exact hrun
  exact load_of_unread htokens (Graph.ofTokens_unfinished hkinds)

/-! ## Documents with one entry -/

variable {v : Value} {ks : List TokenKind}

theorem exists_laysRoot_entry (hkey : keyFits key)
    (h : Lays (writeValue (Mode.below .workflow (.str key) v) false (some 0) v) 0 ks) :
    ∃ plain, scalarTag plain key = Tag.str ∧ LaysRoot [(.str key, v)]
      (.blockMappingStart :: .key :: .scalar key plain :: .value :: (ks ++ [.blockEnd])) := by
  obtain ⟨plain, htag, hblock⟩ := @laysBlock_writeEntry 0 ks key v .workflow hkey h
  have hwrite : writeEntries .workflow 0 [(.str key, v)] = writeEntry .workflow 0 (.str key, v) := by
    funext s
    rw [writeEntries, writeEntries]
  exact ⟨plain, htag, LaysBlock.root (hwrite ▸ hblock)⟩

/-! ## Integers that are too long -/

namespace Graph

variable {plain plain' : Bool}

def entry (marks : Mark × Mark × Mark) (key keyTag text tag : String) : Graph :=
  ⟨#[⟨marks.1, Tag.map, .mapping [(1, 2)]⟩, ⟨marks.2.1, keyTag, .scalar key⟩,
    ⟨marks.2.2, tag, .scalar text⟩]⟩

theorem ofTokens_entry {tokens : List Token} {tail : List Char} {ends : List TokenKind}
    (hclosing : Closing tail ends)
    (h : tokens.map (·.kind) = .streamStart :: (.blockMappingStart :: .key :: .scalar key plain ::
      .value :: ([.scalar text plain'] ++ [.blockEnd]) ++ ends ++ [.streamEnd])) :
    ∃ marks, ofTokens Schema.workflow tokens none = .ok (some
      (entry marks key (scalarTag plain key) text (scalarTag plain' text), 0)) := by
  cases hclosing <;> simp only [cons_append, nil_append, map_eq_cons_iff, map_eq_nil_iff] at h
  all_goals
    repeat obtain ⟨⟨_, _, _⟩, _, rfl, rfl, h⟩ := h
    exact ⟨(_, _, _), rfl⟩

end Graph

namespace Loading

open Steps (bind_ok bind_error)

/-- A mapping with an integer that cannot be read cannot be made. -/
theorem makeAll_entry {marks : Mark × Mark × Mark} {problem : Failure}
    (h : scalarValue .int marks.2.2 text = .error problem) :
    makeAll 0 (start (Graph.entry marks key Tag.str text Tag.int)) = .error problem := by
  have hmake : ∀ {s : Loading}, s.graph = Graph.entry marks key Tag.str text Tag.int →
      s.made? 2 = none → make 2 s = .error problem := by
    intro s hgraph hnone
    rw [make_scalar hgraph hnone rfl (by decide : _ = some Maker.int) rfl, h]
    rfl
  rw [makeAll]
  refine (bind_ok rfl).trans ((bind_ok rfl).trans ((bind_ok rfl).trans ?_))
  rw [fillAll]
  refine bind_error (bind_error ((fill_map rfl rfl).trans (bind_error ?_)))
  refine (fillMapping_eq rfl rfl ?_).trans (bind_error (bind_error ?_))
  · rw [forall_mem_singleton]
    exact ⟨_, _, rfl⟩
  · exact (bind_ok rfl).trans (hmake rfl rfl)

end Loading

/-- An integer of too many digits is written but not read. -/
theorem load_longInt {k : Int} (hlines : ∀ line ∈ lines, IsRemark line)
    (hkey : keyFits key) (hk : Text.maxDecimalDigits < digitCount k)
    (htext : text.toList = lineText lines ++ (dump (.map [(.str key, .int k)])).toList) :
    (load Schema.workflow text).isOk = false := by
  obtain ⟨plain, htag, hroot⟩ := @exists_laysRoot_entry key (.int k) _ hkey
    (lays_int false k 0)
  obtain ⟨tokens, tail, ends, htokenize, hclosing, hkinds⟩ := hroot.tokenize hlines htext
  obtain ⟨marks, hgraph⟩ := Graph.ofTokens_entry hclosing hkinds
  have hvalue : ∀ mark, scalarValue .int mark (toString k) = .error .fatal := by
    intro mark
    have hread := (numeral_toString k).readInt?
    rw [String.ofList_toList, withinDigits, if_pos hk] at hread
    rw [scalarValue, hread]
    rfl
  rw [htag, scalarTag_int k] at hgraph
  rw [load, htokenize]
  dsimp only
  rw [hgraph]
  change (Loading.makeAll 0 (Loading.start _) >>= fun p => pure (p.2.value 0)).isOk = _
  rw [Loading.makeAll_entry (hvalue _)]
  rfl

/-! ## Collections that are nested too deep -/

def nested : Nat → Value
  | 0 => .list []
  | m + 1 => .list [nested m]

def nestedTokens : Nat → List TokenKind
  | 0 => [.flowSequenceStart, .flowSequenceEnd]
  | m + 1 => .blockSequenceStart :: .blockEntry :: (nestedTokens m ++ [.blockEnd])

theorem lays_nested (m : Nat) (mode : Mode) (quoted : Bool) (n : Nat) :
    Lays (writeValue mode quoted (some n) (nested m)) n (nestedTokens m) := by
  induction m generalizing mode quoted n with
  | zero => exact lays_empty .list rfl rfl n
  | succ m ih =>
    have hitem := @laysBlock_entry _ (n + 2) _ _ _ "-" '-' .item (by decide)
      (ih mode.item false (n + 2))
    have hwrite : writeValue mode quoted (some n) (nested (m + 1)) = fun s =>
        writeValue mode.item false (some (n + 2)) (nested m)
          ((s.toIndent (n + 2)).indicator "-" true false true) := by
      funext s
      rw [nested, writeValue, writeItems, writeItems]
      rfl
    rw [hwrite]
    exact hitem.lays

namespace Reader

open Steps (bind_ok bind_error map_error)

variable {r : Reader} {rest : List TokenKind} {depth n m : Nat} {g : Graph} {tag : String}
  {empty : Content} {content : Reading Content} {mark : Mark}

/-- A collection is not read where it is too deep or what it holds is not read. -/
theorem Has.collection_fatal (h : Has r ks depth g)
    (hcontent : depth < maxDepth → ∀ {r' g'}, Has r' ks (depth + 1) g' →
      content r' = .error .fatal) :
    Reader.collection noProperties mark tag empty content r = .error .fatal := by
  rw [Reader.collection]
  refine (bind_ok rfl).trans ((bind_ok rfl).trans ?_)
  by_cases hdeep : r.depth ≥ maxDepth
  · rw [if_pos hdeep]
    rfl
  · rw [if_neg hdeep]
    obtain ⟨r₁, hfresh, hr₁⟩ := h.fresh mark tag empty
    have hshallow : depth < maxDepth := h.depth ▸ not_le.mp hdeep
    refine (bind_ok hfresh).trans ((bind_ok rfl).trans ((bind_ok rfl).trans (bind_error ?_)))
    exact hcontent hshallow ⟨hr₁.tokens, hr₁.schema, congrArg (· + 1) hr₁.depth, hr₁.graph⟩

theorem exists_nestedTokens (m : Nat) : ∃ k ks, nestedTokens m = k :: ks ∧ isOpening k := by
  cases m <;> exact ⟨_, _, rfl, rfl⟩

theorem Has.orAbsent_nested {ends : List TokenKind} {node : Reading NodeId} {problem : Failure}
    (hends : ∀ k ∈ ends, isOpening k = false) (h : Has r (nestedTokens m ++ rest) depth g)
    (hnode : node r = .error problem) : Reader.orAbsent ends mark node r = .error problem := by
  obtain ⟨k, ks, hks, hopen⟩ := exists_nestedTokens m
  have hnot : ¬ ends.contains k := by
    intro hmem
    rw [hends k (contains_iff_mem.mp hmem)] at hopen
    cases hopen
  rw [hks] at h
  rw [Reader.orAbsent, bind_ok (Has.peekKind h), if_neg hnot]
  exact hnode

/-- Lists that are nested too deep are not read. -/
theorem Has.node_nested {indentless : Bool} (h : Has r (nestedTokens m ++ rest) depth g)
    (hdepth : maxDepth ≤ depth + m) : Reader.node n true indentless r = .error .fatal := by
  induction m generalizing n r rest depth g indentless with
  | zero =>
    cases n with
    | zero => rfl
    | succ n =>
      obtain ⟨mark, r', hnode, hr'⟩ := @Has.starts _ _ _ depth n g indentless _ _ _ .flowList h
      rw [hnode]
      exact hr'.collection_fatal fun hshallow => absurd hshallow (not_lt.mpr hdepth)
  | succ m ih =>
    cases n with
    | zero => rfl
    | succ n =>
      obtain ⟨mark, r', hnode, hr'⟩ := @Has.starts _ _ _ depth n g indentless _ _ _ .list h
      rw [hnode]
      refine hr'.collection_fatal fun _ r₁ g₁ hr₁ => map_error ?_
      cases n with
      | zero => rfl
      | succ n =>
        obtain ⟨t, r₂, -, htake, hr₂⟩ := Has.take hr₁
        have hr₂ : Has r₂ (nestedTokens m ++ ([.blockEnd] ++ rest)) (depth + 1) g₁ :=
          append_assoc _ _ _ ▸ hr₂
        rw [Reader.blockItems]
        refine (bind_ok (Has.peekKind hr₁)).trans ((bind_ok htake).trans (bind_error ?_))
        exact hr₂.orAbsent_nested (by decide) (ih hr₂ (by omega))

theorem Has.stream_nested {plain : Bool} (hm : maxDepth ≤ m + 1)
    (h : Has r (.streamStart :: .blockMappingStart :: .key :: .scalar key plain :: .value ::
      (nestedTokens m ++ rest)) 0 g) : Reader.stream (n + 4) r = .error .fatal := by
  obtain ⟨_, r₁, -, htake, hr₁⟩ := h.take
  obtain ⟨mark, r₂, hnode, hr₂⟩ := @Has.starts _ _ _ 0 (n + 3) g false _ _ _ .map hr₁
  have hfatal : node (n + 4) true false r₁ = .error .fatal := by
    rw [hnode]
    refine hr₂.collection_fatal fun _ r₃ g₃ hr₃ => map_error ?_
    obtain ⟨_, r₄, g₄, hr₄, -, -, hkey⟩ := @Has.blockKey _ _ _ (n + 1) _ _ _ hr₃
    obtain ⟨t, hkind, hpeek⟩ := hr₄.peek
    obtain ⟨_, r₅, -, htake₅, hr₅⟩ := hr₄.take
    rw [hkey]
    refine bind_error ?_
    rw [Reader.blockValue, bind_ok hpeek, hkind]
    exact (bind_ok htake₅).trans
      (hr₅.orAbsent_nested (by decide) (hr₅.node_nested (by omega)))
  rw [Reader.stream]
  exact (bind_ok htake).trans ((bind_ok hr₁.peekKind).trans (bind_error hfatal))

end Reader

/-- Collections that are nested too deep are written but not read. -/
theorem load_nested {m : Nat} (hlines : ∀ line ∈ lines, IsRemark line)
    (hkey : keyFits key) (hm : Reader.maxDepth ≤ m + 1)
    (htext : text.toList = lineText lines ++ (dump (.map [(.str key, nested m)])).toList) :
    (load Schema.workflow text).isOk = false := by
  obtain ⟨plain, -, hroot⟩ := exists_laysRoot_entry hkey (lays_nested m _ false 0)
  obtain ⟨tokens, tail, ends, htokenize, -, hkinds⟩ := hroot.tokenize hlines htext
  have hstart : Reader.Has (Reader.start Schema.workflow tokens none) _ 0 {} :=
    ⟨hkinds, rfl, rfl, rfl⟩
  simp only [cons_append, append_assoc] at hstart
  exact load_of_unread htokenize
    (congrArg (fun read => (Except.map _ read).isOk) (hstart.stream_nested hm))

end FlowLock.Yaml
