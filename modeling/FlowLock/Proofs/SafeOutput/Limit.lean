import FlowLock.Proofs.Json.Payload
import FlowLock.Proofs.SafeOutput.Precedence
import FlowLock.Proofs.SafeOutput.Settings

/-!
# Limits

A limit is accepted when it is an expression, or minus signs and then digits of any kind.  It is
read as a number only when there is at most one sign, the digits have place values, and they are
not too many.  Where the two differ, reading a limit that was accepted is fatal.  A limit that is
read is the same number wherever it is told.
-/

namespace FlowLock

open List Outcome Text Template Bool Value

namespace Text

variable {c : Char} {cs : List Char} {d n : Nat}

theorem lt_of_decimalValue? (h : decimalValue? c = some d) : d < 10 := by
  obtain ⟨range, hfind, rfl⟩ := Option.map_eq_some_iff.mp h
  obtain ⟨first, -, rfl⟩ := mem_map.mp (mem_of_find?_eq_some hfind)
  have hrange := find?_some hfind
  simp only [and_eq_true, decide_eq_true_eq] at hrange
  omega

theorem digitValue?_decimal : digitValue? c = some d ∧ d < 10 ↔ decimalValue? c = some d := by
  refine ⟨fun ⟨hvalue, hlt⟩ => ?_, fun h => ⟨by rw [digitValue?, h]; rfl, lt_of_decimalValue? h⟩⟩
  rw [digitValue?] at hvalue
  cases hdecimal : decimalValue? c with
  | some e => rw [hdecimal] at hvalue; exact hvalue
  | none =>
    -- The letters are no digits below ten, and the digits next to them are decimal.
    rw [hdecimal, Option.none_or, hexValue?] at hvalue
    split at hvalue
    · next hascii =>
      have hnone := find?_eq_none.mp (Option.map_eq_none_iff.mp hdecimal) (48, 57) (by decide)
      simp only [and_eq_true, decide_eq_true_eq] at hascii hnone
      exact absurd hascii hnone
    · split at hvalue
      · obtain rfl := Option.some.inj hvalue
        omega
      · split at hvalue <;> cases hvalue
        omega

/-- Characters are the decimal digits with given values. -/
def Spells (cs : List Char) (ds : List Nat) : Prop :=
  Forall₂ (fun c d => decimalValue? c = some d) cs ds

theorem groupedDigits?_eq_some (hmark : '_' ∉ cs) {last : Bool} {m : Nat} :
    groupedDigits? 10 last m cs = some n ↔ (last = true ∨ cs ≠ []) ∧
      ∃ ds, Spells cs ds ∧ n = ds.foldl (fun n d => n * 10 + d) m := by
  induction cs generalizing last m with
  | nil => cases last <;> simp [groupedDigits?, Spells, eq_comm]
  | cons c cs ih =>
    obtain ⟨hne, hrest⟩ := not_or.mp (mt mem_cons.mpr hmark)
    have hstep : groupedDigits? 10 last m (c :: cs) = some n ↔
        ∃ d, decimalValue? c = some d ∧ groupedDigits? 10 true (m * 10 + d) cs = some n := by
      rw [groupedDigits?, if_neg (by simpa using Ne.symm hne)]
      simp only [← digitValue?_decimal]
      cases digitValue? c with
      | none => simp
      | some d => by_cases hd : d < 10 <;> simp [hd]
    simp only [hstep, ih hrest, Spells, forall₂_cons_left_iff]
    constructor
    · rintro ⟨d, hd, -, ds, hds, hn⟩
      exact ⟨.inr (cons_ne_nil _ _), d :: ds, ⟨d, ds, hd, hds, rfl⟩, hn⟩
    · rintro ⟨-, _, ⟨d, ds, hd, hds, rfl⟩, hn⟩
      exact ⟨d, hd, .inl trivial, ds, hds, hn⟩

theorem unsigned_eq_some (hmark : '_' ∉ cs) {f : Nat → Int} {n : Int} :
    (if 10 == 10 && ((withoutMarker 10 cs).filter (· != '_')).length > maxDecimalDigits then none
      else (groupedDigits? 10 false 0 (withoutMarker 10 cs)).map f) = some n ↔
      ∃ ds, Spells cs ds ∧ ds ≠ [] ∧ ds.length ≤ maxDecimalDigits ∧ n = f (ofDigits 10 ds) := by
  have hfilter : cs.filter (· != '_') = cs :=
    filter_eq_self.mpr fun c hc => bne_iff_ne.mpr fun heq => hmark (heq ▸ hc)
  rw [Yaml.withoutMarker_ten, hfilter]
  simp only [beq_self_eq_true, Bool.true_and, decide_eq_true_eq, Option.ite_none_left_eq_some,
    Option.map_eq_some_iff, groupedDigits?_eq_some hmark, Nat.not_lt]
  constructor
  · rintro ⟨hlength, _, ⟨hne, ds, hds, rfl⟩, rfl⟩
    have hcs := hne.resolve_left Bool.false_ne_true
    have hnil : ds ≠ [] := fun hnil => hcs (forall₂_nil_right_iff.mp (hnil ▸ hds))
    exact ⟨ds, hds, hnil, hds.length_eq ▸ hlength, rfl⟩
  · rintro ⟨ds, hds, hne, hlength, rfl⟩
    have hcs : cs ≠ [] := fun hnil => hne (forall₂_nil_left_iff.mp (hnil ▸ hds))
    exact ⟨hds.length_eq ▸ hlength, _, ⟨.inr hcs, ds, hds, rfl⟩, rfl⟩

theorem isDigit_of_spells {ds : List Nat} (h : Spells cs ds) : ∀ c ∈ cs, isDigit c = true := by
  induction h with
  | nil => nofun
  | cons hd _ ih =>
    refine forall_mem_cons.mpr ⟨?_, ih⟩
    rw [isDigit, isDecimal, hd]
    rfl

end Text

namespace Template

/-- A text writes a number: at most one minus sign, and decimal digits after it which are not too
many. -/
def Writes (s : String) (n : Int) : Prop :=
  ∃ cs ds, Spells cs ds ∧ ds ≠ [] ∧ ds.length ≤ maxDecimalDigits ∧
    (s.toList = cs ∧ n = ofDigits 10 ds ∨ s.toList = '-' :: cs ∧ n = -ofDigits 10 ds)

variable {s : String} {n default : Int}

/-- A numeral is read as the number that it writes, and as no other. -/
theorem readInt?_numeral (h : isNumeral s = true) : readInt? 10 s = some n ↔ Writes s n := by
  have hchars := minus_or_digit_of_isNumeral h
  have hmark : '_' ∉ s.toList := fun hmem => absurd (hchars _ hmem) (by decide)
  rw [readInt?, trim_of_isNumeral h, Writes]
  dsimp only
  split
  · next rest hs =>
    rw [hs] at hmark
    have hrest := unsigned_eq_some (fun hmem => hmark (mem_cons_of_mem _ hmem))
      (f := fun n => -Int.ofNat n) (n := n)
    refine hrest.trans ⟨?_, ?_⟩
    · rintro ⟨ds, hds, hne, hlength, hn⟩
      exact ⟨rest, ds, hds, hne, hlength, .inr ⟨hs, hn⟩⟩
    · rintro ⟨cs, ds, hds, hne, hlength, ⟨hcs, -⟩ | ⟨hcs, hn⟩⟩
      · have hminus := isDigit_of_spells hds '-' (by rw [← hcs, hs]; exact mem_cons_self)
        exact absurd hminus (by decide)
      · obtain rfl := (cons.inj (hs.symm.trans hcs)).2
        exact ⟨ds, hds, hne, hlength, hn⟩
  · next rest hs =>
    have := hchars '+' (hs ▸ mem_cons_self)
    exact absurd this (by decide)
  · next cs hminus hplus =>
    refine Iff.trans (unsigned_eq_some hmark (f := Int.ofNat)) ⟨?_, ?_⟩
    · rintro ⟨ds, hds, hne, hlength, hn⟩
      exact ⟨s.toList, ds, hds, hne, hlength, .inl ⟨rfl, hn⟩⟩
    · rintro ⟨cs, ds, hds, hne, hlength, ⟨rfl, hn⟩ | ⟨hcs, -⟩⟩
      · exact ⟨ds, hds, hne, hlength, hn⟩
      · exact absurd hcs (hminus cs)

theorem intOr_numeral (h : isNumeral s = true) : intOr (some s) default = .ok n ↔ Writes s n := by
  rw [intOr, trim_of_isNumeral h, if_pos h, ← readInt?_numeral h]
  cases readInt? 10 s <;> simp [orFatal]

theorem intOr_numeral_fatal (h : isNumeral s = true) :
    intOr (some s) default = .error .fatal ↔ ∀ n, ¬Writes s n := by
  simp only [← readInt?_numeral h]
  rw [intOr, trim_of_isNumeral h, if_pos h]
  cases readInt? 10 s <;> simp [orFatal]

theorem intOr_expression (h : isExpression s = true) : intOr (some s) default = .ok default := by
  have hnot : isNumeral (trim s) = false := by
    rw [← not_eq_true]
    intro hnumeral
    rw [isExpression, and_eq_true, and_eq_true, startsWith,
      isPrefixOf_iff_prefix] at h
    have hopening : '$' ∈ (trim s).toList := h.1.1.subset (by decide)
    exact absurd (minus_or_digit_of_isNumeral hnumeral _ hopening) (by decide)
  rw [intOr, hnot]
  rfl

theorem writes_toString (h : Yaml.digitCount n ≤ maxDecimalDigits) :
    Writes (toString n) n := by
  obtain ⟨ds, hlt, hhead, hcount, hspelt⟩ := (Yaml.numeral_toString n).spelt
  have htable : ∀ d < 10, decimalValue? (Nat.digitChar d) = some d := by decide
  have hspells : Spells (ds.map Nat.digitChar) ds :=
    forall₂_map_left_iff.mpr (forall₂_same.mpr fun d hd => htable d (hlt d hd))
  have hne : ds ≠ [] := by
    obtain rfl | ⟨d, rest, rfl, -⟩ := hhead <;> exact cons_ne_nil _ _
  exact ⟨_, ds, hspells, hne, hcount ▸ h, hspelt⟩

end Template

namespace SafeOutput

variable {es : Entries} {o : Output} {kind : Kind} {limit : Option String} {n : Int}
  {setting : Value}

/-- The number that a limit stands for: the default without one and for an expression, and else
the number that it writes. -/
def Counts (limit : Option String) (default n : Int) : Prop :=
  match limit with
  | none => n = default
  | some s => if isExpression s then n = default else Writes s n

theorem intOr_eq_ok {default : Int}
    (h : ∀ s, limit = some s → isExpression s = true ∨ isNumeral s = true) :
    intOr limit default = .ok n ↔ Counts limit default n := by
  cases limit with
  | none => simp [intOr, Counts, eq_comm]
  | some s =>
    rw [Counts]
    cases hexpression : isExpression s with
    | true => simp [intOr_expression hexpression, eq_comm]
    | false =>
      have hnumeral := (h s rfl).resolve_left (by simp [hexpression])
      simpa using intOr_numeral hnumeral

theorem writes_of_template {s : String} (h : (int n).template = .ok (some s)) : Writes s n := by
  rw [template, Json.intText?_eq] at h
  split at h
  · cases h
  · next hcount =>
    obtain rfl := Option.some.inj (Except.ok.inj h)
    exact writes_toString (Nat.not_lt.mp hcount)

theorem limit_of_parse (h : Output.parse kind setting = .ok o) :
    ∀ s, o.max = some s → isExpression s = true ∨ isNumeral s = true := by
  cases hkind : kind.isReport with
  | false =>
    intro s hs
    obtain ⟨text, htext, hread⟩ := (wellRead_of_parse hkind h).max
    exact Option.some.inj (hs.symm.trans htext) ▸ hread
  | true =>
    have hreport : ∀ {es}, Output.reportOfEntries kind es = .ok o → ∀ s, o.max = some s →
        isExpression s = true ∨ isNumeral s = true := by
      intro es h s hs
      obtain ⟨settings, -, h⟩ := bind_eq_ok.mp h
      obtain ⟨max, hmax, h⟩ := bind_eq_ok.mp h
      obtain ⟨token, -, h⟩ := bind_eq_ok.mp h
      cases h
      exact (templatedField_eq_ok (hmax.trans (congrArg Except.ok hs))).2
    unfold Output.parse at h
    simp only [hkind, if_true] at h
    split at h
    · exact hreport h
    · exact hreport h
    · exact hreport h
    · cases h

theorem exists_handlerSettings :
    (∃ t, o.handlerSettings = .ok t) ↔ ∃ max, Output.maxEntries o.max = .ok max := by
  constructor
  · rintro ⟨t, ht⟩
    obtain ⟨max, hmax, -⟩ := bind_eq_ok.mp ht
    exact ⟨max, hmax⟩
  · rintro ⟨max, hmax⟩
    exact ⟨_, bind_eq_ok.mpr ⟨max, hmax, rfl⟩⟩

theorem exists_maxEntries (default : Int)
    (h : ∀ s, limit = some s → isExpression s = true ∨ isNumeral s = true) :
    (∃ max, Output.maxEntries limit = .ok max) ↔ ∃ n, Counts limit default n := by
  cases limit with
  | none => exact ⟨fun _ => ⟨default, rfl⟩, fun _ => ⟨_, rfl⟩⟩
  | some s =>
    rw [Output.maxEntries, Output.limitValue]
    simp only [Counts]
    cases hexpression : isExpression s with
    | true => exact ⟨fun _ => ⟨default, rfl⟩, fun _ => ⟨_, rfl⟩⟩
    | false =>
      have hnumeral := (h s rfl).resolve_left (by simp [hexpression])
      have hread : ∀ n, intOr (some s) 0 = .ok n ↔ Writes s n :=
        fun n => intOr_numeral hnumeral
      simp only [false_eq_true, if_false, ← hread]
      cases intOr (some s) 0 with
      | error e => exact ⟨nofun, nofun⟩
      | ok n => exact ⟨fun _ => ⟨n, rfl⟩, fun _ => ⟨_, rfl⟩⟩

/-- **A limit that is accepted is read just when it writes a number**, and else reading it is
fatal.  A number always writes itself.  So the limit of a configured type can be counted with, and
its handler be told, just when it is not such a text. -/
theorem limit_read_iff_written (es : Entries) (owner key : String) (kind : Kind) (setting : Value) :
    (∀ s, limitField es owner key = .ok (some s) → isExpression s = false →
      (∀ default n, intOr (some s) default = .ok n ↔ Writes s n) ∧
      (∀ default, intOr (some s) default = .error .fatal ↔ ∀ n, ¬Writes s n) ∧
      ∀ n, Entries.getD es key = .int n → Writes s n) ∧
    ∀ o, Output.parse kind setting = .ok o →
      (∀ n, o.maxCount = .ok n ↔ Counts o.max kind.spec.defaultMax n) ∧
      ((∃ t, o.handlerSettings = .ok t) ↔ ∃ n, Counts o.max kind.spec.defaultMax n) := by
  constructor
  · intro s haccepted hliteral
    obtain ⟨htemplate, hread⟩ := templatedField_eq_ok haccepted
    have hnumeral := hread.resolve_left (by simp [hliteral])
    refine ⟨fun _ _ => intOr_numeral hnumeral,
      fun _ => intOr_numeral_fatal hnumeral, fun n hn => ?_⟩
    exact writes_of_template (hn ▸ htemplate)
  · intro o hparse
    have hlimit := limit_of_parse hparse
    refine ⟨fun n => ?_, exists_handlerSettings.trans (exists_maxEntries _ hlimit)⟩
    rw [Output.maxCount, Output.kind_of_parse hparse]
    exact intOr_eq_ok hlimit

theorem accepted_limit_fatal :
    limitField [(.str "max", .str "²")] "create-issue" "max" = .ok (some "²") ∧
    isExpression "²" = false ∧ intOr (some "²") 0 = .error .fatal ∧
    ∃ o, Output.parse .createIssue (.map [(.str "max", .str "²")]) = .ok o ∧
      o.maxCount = .error .fatal ∧ o.handlerSettings = .error .fatal :=
  ⟨rfl, rfl, rfl, _, rfl, rfl, rfl⟩

/-- A limit in digits of another script, and a number. -/
theorem limit_read_iff_written_scripts :
    (∃ o, Output.parse .createIssue (.obj [("max", .str "-٣٤")]) = .ok o ∧
      o.maxCount = .ok (-34) ∧ ∃ t, o.handlerSettings = .ok t) ∧
    limitField [(.str "max", .int (-7))] "add-comment" "max" = .ok (some "-7") ∧
    Writes "-7" (-7) := by
  have hwrites : Writes "-٣٤" (-34) :=
    ⟨['٣', '٤'], [3, 4], .cons rfl (.cons rfl .nil), by decide, by decide, .inr ⟨by decide, rfl⟩⟩
  obtain ⟨o, ho, hmax⟩ : ∃ o, Output.parse .createIssue (.obj [("max", .str "-٣٤")]) = .ok o ∧
      o.max = some "-٣٤" := by decide
  have hcounts : Counts o.max Kind.createIssue.spec.defaultMax (-34) := by
    rw [hmax, Counts, if_neg (by decide)]
    exact hwrites
  have haccepted : limitField [(.str "max", .int (-7))] "add-comment" "max" = .ok (some "-7") := rfl
  obtain ⟨hread, hparse⟩ := limit_read_iff_written [(.str "max", .int (-7))] "add-comment" "max"
    .createIssue (.obj [("max", .str "-٣٤")])
  obtain ⟨hcount, htold⟩ := hparse o ho
  exact ⟨⟨o, ho, (hcount _).mpr hcounts, htold.mpr ⟨_, hcounts⟩⟩, haccepted,
    (hread _ haccepted (by decide)).2.2 _ rfl⟩

/-! ## Where limits are told -/

/-- The limit that the setting of a type declares, and null when it declares none. -/
def declaredLimit (setting : Value) : Value := Entries.getD (setting.entries?.getD []) "max"

/-- A declared value makes the limit of a type: by its text, and by the default when it is null. -/
def Declares (kind : Kind) (v : Value) (limit : String) : Prop :=
  v = .null ∧ limit = toString kind.spec.defaultMax ∨ v.template = .ok (some limit)

theorem exists_declares (hkind : kind.isReport = false) (h : Output.parse kind setting = .ok o) :
    ∃ limit, o.max = some limit ∧ Declares kind (declaredLimit setting) limit := by
  obtain ⟨max, hmax, h⟩ := bind_eq_ok.mp (ofEntries_of_parse hkind h)
  obtain ⟨token, -, h⟩ := bind_eq_ok.mp h
  obtain ⟨target, -, h⟩ := bind_eq_ok.mp h
  obtain ⟨settings, -, h⟩ := bind_eq_ok.mp h
  cases h
  refine ⟨_, rfl, ?_⟩
  cases max with
  | some s => exact .inr (templatedField_eq_ok hmax).1
  | none =>
    rw [limitField, templatedField] at hmax
    split at hmax
    · next hnull => exact .inl ⟨hnull, rfl⟩
    · obtain ⟨text, -, hmax⟩ := bind_eq_ok.mp hmax
      split at hmax
      · split at hmax <;> cases hmax
      · cases hmax

theorem writes_defaultMax (kind : Kind) :
    Writes (toString kind.spec.defaultMax) kind.spec.defaultMax :=
  writes_toString (by cases kind <;> decide)

theorem Declares.eq_of_writes {v : Value} {limit : String} (h : Declares kind v limit)
    (hn : ∀ {m}, Writes limit m → n = m) :
    (v = .null → n = kind.spec.defaultMax) ∧ ∀ m, v = .int m → n = m := by
  obtain ⟨rfl, rfl⟩ | htemplate := h
  · exact ⟨fun _ => hn (writes_defaultMax kind), nofun⟩
  · constructor
    · rintro rfl
      cases htemplate
    · rintro m rfl
      exact hn (writes_of_template htemplate)

def FieldKind.isChoices : FieldKind → Bool
  | .choices _ => true
  | _ => false

/-- A type with values that the agent may choose from. -/
def Kind.isList (kind : Kind) : Bool := kind.spec.fields.any fun field => field.kind.isChoices

theorem exists_choices (ho : o.WellRead) (hlist : o.kind.isList = true) :
    ∃ c, o.choices? = some c := by
  have hname : ∀ kind ∈ Kind.all, ∀ field ∈ kind.spec.fields, field.kind.isChoices = true →
      field.name = "values" := by decide
  obtain ⟨field, hfield, hchoices⟩ := any_eq_true.mp hlist
  obtain ⟨setting, hsetting, hadmits⟩ := ho.settings field hfield
  rw [hname _ (Kind.mem_all _) field hfield hchoices] at hsetting
  unfold FieldKind.isChoices at hchoices
  split at hchoices
  · next hkind =>
    rw [hkind] at hadmits
    cases setting with
    | choices c => exact ⟨c, by rw [Output.choices?, hsetting]⟩
    | _ => exact hadmits.elim
  · cases hchoices

/-- The limit of a list type is in a variable that no other type and nothing else sets. -/
theorem Kind.maxCount_told : ∀ kind ∈ Kind.all, kind.isList = true →
    kind.spec.variableStem.isEmpty = false ∧ kind.spec.variableStem ++ "_MAX_COUNT" ∉
      ["GH_AW_WORKFLOW_NAME", "GH_AW_WORKFLOW_ID", "GH_AW_TRACKER_ID"] ∧
    ∀ other ∈ Kind.all, ∀ suffix ∈ SafeOutputs.variableSuffixes,
      kind.spec.variableStem ++ "_MAX_COUNT" = other.spec.variableStem ++ suffix →
      other = kind := by decide +kernel

theorem mem_environment_iff {t : Table String} {text : String} {c : Choices}
    (hchoices : o.choices? = some c) (hstem : o.kind.spec.variableStem.isEmpty = false)
    (h : o.environment = .ok t) :
    (o.kind.spec.variableStem ++ "_MAX_COUNT", text) ∈ t ↔ o.maxVariable = .ok text := by
  unfold Output.environment at h
  simp only [hstem, hchoices, false_eq_true, if_false] at h
  obtain ⟨limit, hlimit, h⟩ := bind_eq_ok.mp h
  cases h
  have htarget : (o.kind.spec.variableStem ++ "_MAX_COUNT", text) ∉ o.targetVariable := by
    unfold Output.targetVariable
    split <;> simp
  simp [hlimit, htarget, eq_comm]

end SafeOutput

namespace SafeOutputs

open SafeOutput Table

variable {v : Value} {imported : Table Value} {s : SafeOutputs} {o : Output}

theorem ofEntries_of_parse (h : parse v imported = .ok (some s)) :
    ofEntries (v.entries?.getD []) imported = .ok s := by
  unfold parse at h
  split at h
  · split at h
    · cases h
    · obtain ⟨s', hs, h⟩ := bind_eq_ok.mp h
      cases h
      exact hs
  · obtain ⟨s', hs, h⟩ := bind_eq_ok.mp h
    cases h
    exact hs
  · cases h

/-- Where each type has an entry at its key, the entry of a type is found there. -/
theorem get?_of_mapM {os : List Output} (hos : (os.map (·.kind)).Nodup) (ho : o ∈ os)
    {f : Output → Outcome (String × Value)} (hf : ∀ {o e}, f o = .ok e → e.1 = o.kind.handlerKey)
    {t : Table Value} (h : os.mapM f = .ok t) :
    ∃ w, f o = .ok (o.kind.handlerKey, w) ∧ t.get? o.kind.handlerKey = some w := by
  have hkeys : Table.keys t = (os.map (·.kind)).map Kind.handlerKey := by
    rw [map_map]
    exact map_of_mapM hf h
  have hnodup : (Table.keys t).Nodup :=
    hkeys ▸ hos.map fun _ _ => Kind.handlerKey_injective
  obtain ⟨⟨key, w⟩, he, hread⟩ := exists_mem_of_mapM h ho
  obtain rfl : key = o.kind.handlerKey := hf hread
  exact ⟨w, hread, get?_of_mem hnodup he⟩

/-- The handlers are told a limit of a type, and its scripts a text for it if it is a list type. -/
structure TellsLimit (s : SafeOutputs) (kind : Kind) (limit : Value) (text : String) : Prop where
  handler : ∀ config, s.handlerConfig = .ok config →
    config.at? [.key kind.handlerKey, .key "max"] = some limit
  script : kind.isList = true → ∀ environment, s.processingEnvironment = .ok environment →
    ∀ name id tracker, (update environment (identity name id tracker)).get?
      (kind.spec.variableStem ++ "_MAX_COUNT") = some text

theorem tellsLimit (ho : o ∈ s.handled) (hread : o.WellRead) {limit text : String} {w : Value}
    (hmax : o.max = some limit) (hvalue : Output.limitValue limit = .ok w)
    (htext : o.maxVariable = .ok text) : s.TellsLimit o.kind w text := by
  have hnodup : (s.handled.map (·.kind)).Nodup := s.nodup_kinds.sublist (filter_sublist.map _)
  constructor
  · intro config hconfig
    obtain ⟨entries, hentries, h⟩ := bind_eq_ok.mp hconfig
    cases h
    obtain ⟨_, hentry, hget⟩ := get?_of_mapM hnodup ho
      (fun {o e} h => (gives_handlerEntry s.footer o e h).1) hentries
    obtain ⟨settings, hsettings, hentry⟩ := bind_eq_ok.mp hentry
    obtain ⟨max, hmaximum, hsettings⟩ := bind_eq_ok.mp hsettings
    rw [hmax, Output.maxEntries, hvalue] at hmaximum
    cases hmaximum
    cases hsettings
    cases hentry
    rw [at?_obj, hget, Option.bind_some, at?_obj_key]
    split
    · split <;> rfl
    · rfl
  · intro hlist environment henvironment name id tracker
    obtain ⟨hstem, hidentity, hunique⟩ := Kind.maxCount_told _ (Kind.mem_all o.kind) hlist
    obtain ⟨c, hchoices⟩ := exists_choices hread hlist
    simp only [processingEnvironment, bind_eq_ok] at henvironment
    obtain ⟨config, -, written, -, messages, -, contributed, hcontributed, h⟩ := henvironment
    cases h
    obtain ⟨t, ht, hown⟩ := exists_mem_of_mapM hcontributed ho
    have hmem := mem_flatten.mpr ⟨t, ht, (mem_environment_iff hchoices hstem hown).mpr htext⟩
    obtain ⟨found, hfound⟩ := Option.ne_none_iff_exists'.mp
      (mt last?_eq_none_iff.mp (not_not.mpr (mem_keys_of_mem hmem)))
    obtain ⟨other, hother, t', ht', he⟩ :=
      exists_mem_of_contributed hcontributed (mem_of_last? hfound)
    obtain ⟨suffix, hsuffix, hname⟩ := exists_suffix_of_environment ht' (mem_keys_of_mem he)
    obtain rfl := inj_on_of_nodup_map hnodup hother ho
      (hunique _ (Kind.mem_all _) suffix hsuffix hname)
    have hsame := (mem_environment_iff hchoices hstem ht').mp he
    obtain rfl := Except.ok.inj (htext.symm.trans hsame)
    rw [get?_update, last?_eq_none_iff.mpr (not_mem_identity hidentity name id tracker),
      Option.none_or, get?_update, hfound, Option.some_or]

theorem at?_outputLimits {n : Int} (ho : o ∈ s.outputs) (hcount : o.maxCount = .ok n)
    {limits : Value} (h : Workflow.outputLimits s = .ok limits) :
    limits.at? [.key o.kind.handlerKey, .key "max"] = some (.int n) := by
  obtain ⟨entries, hentries, h⟩ := bind_eq_ok.mp h
  cases h
  have hkey : ∀ {o : Output} {e : String × Value},
      (do .ok (o.kind.handlerKey, obj [("max", .int (← o.maxCount))])) = Except.ok e →
      e.1 = o.kind.handlerKey := by
    intro o e h
    obtain ⟨n, -, h⟩ := bind_eq_ok.mp h
    cases h
    rfl
  obtain ⟨_, hentry, hget⟩ := get?_of_mapM s.nodup_kinds ho hkey hentries
  rw [hcount] at hentry
  cases hentry
  rw [at?_obj, hget, Option.bind_some, at?_obj_key]
  rfl

/-- **All renderings of a limit agree.**  A type that is no report has the limit that the section
or its imports declare, or its default.  An expression is told unchanged to the handlers and to the
scripts of a list type.  Any other limit that can be counted with is the same number for them and
in the limits of the agent: the declared one, or the default when none is declared. -/
theorem limit_renderings_agree {kind : Kind} (h : parse v imported = .ok (some s))
    (hkind : kind.isReport = false) (ho : s.get? kind = some o) :
    ∃ setting limit, setting? v imported kind = some setting ∧ o.max = some limit ∧
      Declares kind (declaredLimit setting) limit ∧
      (isExpression limit = true → s.TellsLimit kind (.str limit) limit) ∧
      (isExpression limit = false → ∀ n, o.maxCount = .ok n →
        s.TellsLimit kind (.int n) (toString n) ∧
        (∀ limits, Workflow.outputLimits s = .ok limits →
          limits.at? [.key kind.handlerKey, .key "max"] = some (.int n)) ∧
        Writes limit n ∧ (declaredLimit setting = .null → n = kind.spec.defaultMax) ∧
        ∀ m, declaredLimit setting = .int m → n = m) := by
  have hmem := mem_of_find?_eq_some ho
  obtain ⟨setting, hsetting, -, hparse⟩ :=
    ((types_of_ofEntries (ofEntries_of_parse h)).1 kind o).mp ho
  obtain rfl := Output.kind_of_parse hparse
  have hhandled : o ∈ s.handled := mem_filter.mpr ⟨hmem, by simp [hkind]⟩
  have hread := wellRead_of_parse hkind hparse
  obtain ⟨limit, hmax, hdeclares⟩ := exists_declares hkind hparse
  refine ⟨setting, limit, hsetting, hmax, hdeclares, fun hexpression => ?_,
    fun hliteral n hcount => ?_⟩
  · refine tellsLimit hhandled hread hmax ?_ ?_
    · rw [Output.limitValue, if_pos hexpression]
    · rw [Output.maxVariable, hmax]
      exact if_pos hexpression
  · have hnumeral := (limit_of_parse hparse limit hmax).resolve_left (by simp [hliteral])
    have hn : ∀ {m}, Writes limit m ↔ n = m := by
      intro m
      rw [← intOr_numeral hnumeral, ← hmax, ← Output.maxCount, hcount]
      simp
    refine ⟨tellsLimit hhandled hread hmax ?_ ?_, fun _ => at?_outputLimits hmem hcount,
      hn.mpr rfl, hdeclares.eq_of_writes hn.mp⟩
    · rw [Output.limitValue, hliteral, (intOr_numeral hnumeral).mpr (hn.mpr rfl)]
      rfl
    · simp [Output.maxVariable, hmax, hliteral, hcount]

/-- A list type that the imports limit by a text with blanks. -/
theorem limit_renderings_agree_labels :
    ∃ s, parse (.obj [("staged", .bool true)]) [("add-labels", .obj [("max", .str " 07 ")])] =
        .ok (some s) ∧ s.TellsLimit .addLabels (.int 7) "7" ∧
      (∃ config, s.handlerConfig = .ok config) ∧
      ∃ environment, s.processingEnvironment = .ok environment := by
  obtain ⟨_, hparse, s, rfl, ⟨o, ho, hmax, hcount⟩, htold⟩ : ∃ found,
      parse (.obj [("staged", .bool true)]) [("add-labels", .obj [("max", .str " 07 ")])] =
        .ok found ∧ ∃ s ∈ found,
      (∃ o ∈ s.get? .addLabels, o.max = some "07" ∧ o.maxCount = .ok 7) ∧
      (∃ config, s.handlerConfig = .ok config) ∧
      ∃ environment, s.processingEnvironment = .ok environment := by decide +kernel
  obtain ⟨setting, limit, -, hlimit, -, -, hagree⟩ := limit_renderings_agree hparse rfl ho
  obtain rfl := Option.some.inj (hlimit.symm.trans hmax)
  exact ⟨s, hparse, (hagree (by decide) _ hcount).1, htold⟩

end SafeOutputs

end FlowLock
