import FlowLock.Proofs.Outcome
import FlowLock.Proofs.Text.Blank
import FlowLock.Proofs.Value
import FlowLock.SafeOutput.Output
import Mathlib.Data.List.Flatten
import Mathlib.Data.List.Nodup

/-!
# What a handler is told determines a safe output

The handler of a type is told a table of settings.  The table is put together from
*sources*: the limit, the token, the parts of the target, and the settings of the type,
of which the groups bring in several keys each.  A source that has its default writes
nothing.  No key belongs to two sources, so each source can be read off the table, and
with it the setting that it was written from.
-/

namespace FlowLock

open List Outcome Template Value Text Table

/-! ## Tables put together from sources -/

namespace Table

variable {α : Type}

/-- A table together with the keys that it may hold. -/
structure Source (α : Type) where
  keys : List String
  table : Table α

def ofSources (sources : List (Source α)) : Table α := sources.flatMap (·.table)

/-- A source keeps to its keys and writes none of them twice. -/
def Source.Keeps (s : Source α) : Prop := (Table.keys s.table).Sublist s.keys

theorem keys_ofSources_sublist {sources : List (Source α)} (h : ∀ s ∈ sources, s.Keeps) :
    (keys (ofSources sources)).Sublist (sources.flatMap (·.keys)) := by
  induction sources with
  | nil => exact List.Sublist.refl _
  | cons s rest ih =>
    rw [forall_mem_cons] at h
    rw [ofSources, flatMap_cons, flatMap_cons, keys_append]
    exact h.1.append (ih h.2)

/-- Tables of sources with the same keys, none of them in two sources, have the same
values exactly when the sources have. -/
theorem forall₂_sameAt {sources sources' : List (Source Value)}
    (hkeys : Forall₂ (fun s s' => s.keys = s'.keys) sources sources')
    (hkeeps : ∀ s ∈ sources, s.Keeps) (hkeeps' : ∀ s ∈ sources', s.Keeps)
    (hnodup : (sources.flatMap (·.keys)).Nodup)
    (h : ∀ key ∈ sources.flatMap (·.keys),
      Value.SameAt (ofSources sources) (ofSources sources') key) :
    Forall₂ (fun s s' => ∀ key ∈ s.keys, Value.SameAt s.table s'.table key)
      sources sources' := by
  induction hkeys with
  | nil => exact .nil
  | @cons s s' rest rest' hs hrest ih =>
    rw [forall_mem_cons] at hkeeps hkeeps'
    rw [flatMap_cons, nodup_append] at hnodup
    obtain ⟨-, hrestNodup, hdisjoint⟩ := hnodup
    have hsame : rest'.flatMap (·.keys) = rest.flatMap (·.keys) :=
      congrArg flatten (map_eq_of_forall₂ (fun _ _ hkeys => hkeys.symm) hrest)
    -- What the first source may write is in no other, and the other way round.
    have hfirst : ∀ key ∈ s.keys, get? (ofSources rest) key = none ∧
        get? (ofSources rest') key = none := by
      intro key hkey
      constructor <;> rw [get?_eq_none_iff] <;> intro hmem
      · exact hdisjoint _ hkey _ ((keys_ofSources_sublist hkeeps.2).subset hmem) rfl
      · have hmem := (keys_ofSources_sublist hkeeps'.2).subset hmem
        rw [hsame] at hmem
        exact hdisjoint _ hkey _ hmem rfl
    have hothers : ∀ key ∈ rest.flatMap (·.keys), get? s.table key = none ∧
        get? s'.table key = none := by
      intro key hkey
      constructor <;> rw [get?_eq_none_iff] <;> intro hmem
      · exact hdisjoint _ (hkeeps.1.subset hmem) _ hkey rfl
      · exact hdisjoint _ (hs ▸ hkeeps'.1.subset hmem) _ hkey rfl
    refine .cons ?_ (ih hkeeps.2 hkeeps'.2 hrestNodup ?_)
    · intro key hkey
      have hat := h key (mem_append_left _ hkey)
      rwa [Value.SameAt, ofSources, ofSources, flatMap_cons, flatMap_cons,
        get?_append, get?_append, ← ofSources, ← ofSources, (hfirst key hkey).1,
        (hfirst key hkey).2, Option.or_none, Option.or_none] at hat
    · intro key hkey
      have hat := h key (mem_append_right _ hkey)
      rwa [Value.SameAt, ofSources, ofSources, flatMap_cons, flatMap_cons,
        get?_append, get?_append, ← ofSources, ← ofSources, (hothers key hkey).1,
        (hothers key hkey).2, Option.none_or, Option.none_or] at hat

end Table

/-! ## Numerals -/

namespace Template

/-- A text stands for a number, whatever the default. -/
def Denotes (s : String) (n : Int) : Prop := ∀ default, intOr (some s) default = .ok n

variable {s : String}

theorem minus_or_digit_of_isNumeral (h : isNumeral s) :
    ∀ c ∈ s.toList, c = '-' ∨ isDigit c = true := by
  intro c hc
  rw [isNumeral, isDigits, trimStartWhere, String.toList_ofList, Bool.and_eq_true,
    all_eq_true] at h
  rw [← @takeWhile_append_dropWhile _ (· == '-') s.toList, mem_append] at hc
  refine hc.imp (fun hminus => ?_) (h.2 c)
  exact beq_iff_eq.mp (all_eq_true.mp (@all_takeWhile _ _ s.toList) c hminus)

theorem trim_of_isNumeral (h : isNumeral s) : trim s = s := by
  apply trim_eq_self
  intro c hc
  obtain rfl | hdigit := minus_or_digit_of_isNumeral h c hc
  · decide
  · exact isBlank_of_isDigit hdigit

theorem denotes_of_isNumeral {n d : Int} (hs : isNumeral s) (h : intOr (some s) d = .ok n) :
    Denotes s n := by
  intro d'
  rw [intOr, trim_of_isNumeral hs, if_pos hs] at h ⊢
  exact h

end Template

namespace SafeOutput

/-! ## Settings as they are read -/

/-- The values that reading a setting can give. -/
def FieldKind.Admits : FieldKind → Setting → Prop
  | .text _, .text _ => True
  | .category, .text _ => True
  | .texts _, .texts _ => True
  | .flag _, .flag _ => True
  | .switch, .switch none => True
  | .switch, .switch (some s) => isExpression s = true ∨ isSwitch s = true
  | .allowance, .flag _ => True
  | .word _ _, .text _ => True
  | .hours, .number _ => True
  | .kilobytes _, .number _ => True
  | .filters _, .filters _ => True
  | .choices _, .choices _ => True
  | _, _ => False

variable {es : Entries}

theorem templatedField_eq_ok {kind key : String} {expected : Expectation}
    {isLiteral : String → Bool} {s : String}
    (h : templatedField es kind key expected isLiteral = .ok (some s)) :
    (Entries.getD es key).template = .ok (some s) ∧ (isExpression s ∨ isLiteral s) := by
  unfold templatedField at h
  split at h
  · cases h
  · obtain ⟨text, htext, h⟩ := bind_eq_ok.mp h
    split at h
    · split at h
      case isTrue htest =>
        obtain rfl := Option.some.inj (Except.ok.inj h)
        exact ⟨htext, by simpa using htest⟩
      case isFalse => cases h
    · cases h

variable {s : Setting} {owner : String}

theorem FieldKind.admits_of_parse {kind : FieldKind} {key : String}
    (h : kind.parse es owner key = .ok s) : kind.Admits s := by
  cases kind with
  | switch =>
    obtain ⟨a, ha, h⟩ := bind_eq_ok.mp h
    cases h
    cases a with
    | none => trivial
    | some text => exact (templatedField_eq_ok ha).2
  | category =>
    rw [FieldKind.parse] at h
    split at h
    · cases h
      trivial
    · obtain ⟨a, -, h⟩ := bind_eq_ok.mp h
      cases h
      trivial
  | allowance =>
    cases h
    trivial
  | _ =>
    obtain ⟨a, -, h⟩ := bind_eq_ok.mp h
    cases h
    trivial

/-! ## Settings as they are written -/

/-- The keys under which a setting may be written. -/
def Field.keys (f : Field) : List String :=
  match f.kind with
  | .filters _ => ["required_labels", "required_title_prefix", "required_category"]
  | .choices _ => ["allowed", "blocked"]
  | _ => [f.name]

/-- The entries of a setting with a value: none for the default and for the token of the
empty commit. -/
def Field.written (f : Field) (s : Setting) : Table Value :=
  if s == f.kind.default || f == Kind.commitToken then [] else Output.settingEntries f.name s

variable {f : Field}

theorem fieldEntries_eq {settings : Table Setting} (h : settings.get? f.name = some s) :
    Output.fieldEntries settings f = f.written s := by
  rw [Output.fieldEntries, h]
  rfl

def textSource (name text : String) : Source Value := ⟨[name], Output.textEntry name text⟩

def textsSource (name : String) (xs : List String) : Source Value :=
  ⟨[name], Output.textsEntry name xs⟩

def Filters.sources (f : Filters) : List (Source Value) :=
  [textsSource "required_labels" f.requiredLabels,
   textSource "required_title_prefix" f.requiredTitleStart,
   textSource "required_category" f.requiredCategory]

def Choices.sources (c : Choices) : List (Source Value) :=
  [textsSource "allowed" c.allowed, textsSource "blocked" c.blocked]

theorem keeps_entry {c : Prop} [Decidable c] (name : String) (v : Value) :
    Source.Keeps ⟨[name], if c then [] else [(name, v)]⟩ := by
  rw [Source.Keeps]
  split
  · exact nil_sublist _
  · exact Sublist.refl _

theorem Filters.keeps_sources (f : Filters) : ∀ s ∈ f.sources, s.Keeps := by
  simp only [Filters.sources, forall_mem_cons]
  exact ⟨keeps_entry _ _, keeps_entry _ _, keeps_entry _ _, by simp⟩

theorem Choices.keeps_sources (c : Choices) : ∀ s ∈ c.sources, s.Keeps := by
  simp only [Choices.sources, forall_mem_cons]
  exact ⟨keeps_entry _ _, keeps_entry _ _, by simp⟩

theorem settingEntries_filters (name : String) (f : Filters) :
    Output.settingEntries name (.filters f) = ofSources f.sources := by
  simp [Output.settingEntries, Filters.sources, ofSources, textSource, textsSource]

theorem settingEntries_choices (name : String) (c : Choices) :
    Output.settingEntries name (.choices c) = ofSources c.sources := by
  simp [Output.settingEntries, Choices.sources, ofSources, textsSource]

theorem Field.keys_written_sublist (h : f.kind.Admits s) :
    (Table.keys (f.written s)).Sublist f.keys := by
  rw [Field.written]
  split
  · exact nil_sublist _
  · obtain ⟨name, key, kind⟩ := f
    cases kind <;> cases s <;> simp only [FieldKind.Admits] at h
    case filters.filters g _ =>
      rw [settingEntries_filters]
      exact Table.keys_ofSources_sublist g.keeps_sources
    case choices.choices c _ =>
      rw [settingEntries_choices]
      exact Table.keys_ofSources_sublist c.keeps_sources
    case switch.switch o _ => cases o <;> simp [Output.settingEntries, Table.keys, Field.keys]
    all_goals exact List.Sublist.refl _

/-- A value that is left out when it is the default is determined by what stands at its
key. -/
theorem eq_of_sameAt_unless_default {β : Type} [DecidableEq β] {name : String} {d a a' : β}
    {v v' : Value} (hvalue : v.same v' → a = a')
    (h : Value.SameAt (if a = d then [] else [(name, v)]) (if a' = d then [] else [(name, v')])
      name) : a = a' := by
  by_cases ha : a = d <;> by_cases ha' : a' = d
  · rw [ha, ha']
  · simp [Value.SameAt, ha, ha', get?] at h
  · simp [Value.SameAt, ha, ha', get?] at h
  · simp only [Value.SameAt, if_neg ha, if_neg ha', get?_cons, if_true,
      Option.rel_some_some] at h
    exact hvalue h

variable {s' : String} {v : Value}

theorem eq_of_same_switchValue {s : String}
    (hs : isExpression s ∨ isSwitch s)
    (hs' : isExpression s' ∨ isSwitch s')
    (h : (Output.switchValue s).same (Output.switchValue s')) : s = s' := by
  have hliteral : ∀ {s}, isExpression s ∨ isSwitch s →
      ¬ isExpression s → s = "true" ∨ s = "false" := by
    intro s hs hexpr
    simpa [isSwitch] using hs.resolve_left hexpr
  rw [Output.switchValue, Output.switchValue] at h
  split at h <;> split at h
  case isTrue.isTrue => exact (same_str _ _).mp h
  case isTrue.isFalse => simp [same] at h
  case isFalse.isTrue => simp [same, number?, sameNumber?] at h
  case isFalse.isFalse he he' =>
    have hbool := (same_bool _ _).mp h
    rcases hliteral hs he with rfl | rfl <;> rcases hliteral hs' he' with rfl | rfl
    · rfl
    · exact absurd hbool (by decide)
    · exact absurd hbool (by decide)
    · rfl

theorem eq_of_sameAt_textEntry {name s : String}
    (h : Value.SameAt (Output.textEntry name s) (Output.textEntry name s') name) : s = s' := by
  refine @eq_of_sameAt_unless_default _ _ name "" _ _ _ _ (same_str s s').mp ?_
  simpa [Output.textEntry] using h

theorem eq_of_sameAt_textsEntry {name : String} {xs xs' : List String}
    (h : Value.SameAt (Output.textsEntry name xs) (Output.textsEntry name xs') name) :
    xs = xs' := by
  refine @eq_of_sameAt_unless_default _ _ name [] _ _ _ _ (same_strs xs xs').mp ?_
  simpa [Output.textsEntry] using h

theorem Filters.eq_of_sameAt {f f' : Filters}
    (h : ∀ key ∈ f.sources.flatMap (·.keys),
      Value.SameAt (ofSources f.sources) (ofSources f'.sources) key) : f = f' := by
  have hnodup : (f.sources.flatMap (·.keys)).Nodup := by
    change ["required_labels", "required_title_prefix", "required_category"].Nodup
    decide
  have hkeys : Forall₂ (fun s s' => s.keys = s'.keys) f.sources f'.sources :=
    .cons rfl (.cons rfl (.cons rfl .nil))
  have heach := forall₂_sameAt hkeys f.keeps_sources f'.keeps_sources hnodup h
  simp only [Filters.sources, forall₂_cons, Forall₂.nil, and_true] at heach
  obtain ⟨hlabels, htitle, hcategory⟩ := heach
  obtain ⟨labels, title, category⟩ := f
  rw [Filters.mk.injEq]
  exact ⟨eq_of_sameAt_textsEntry (hlabels _ (.head _)), eq_of_sameAt_textEntry (htitle _ (.head _)),
    eq_of_sameAt_textEntry (hcategory _ (.head _))⟩

theorem Choices.eq_of_sameAt {c c' : Choices}
    (h : ∀ key ∈ c.sources.flatMap (·.keys),
      Value.SameAt (ofSources c.sources) (ofSources c'.sources) key) : c = c' := by
  have hnodup : (c.sources.flatMap (·.keys)).Nodup := by
    change ["allowed", "blocked"].Nodup
    decide
  have hkeys : Forall₂ (fun s s' => s.keys = s'.keys) c.sources c'.sources :=
    .cons rfl (.cons rfl .nil)
  have heach := forall₂_sameAt hkeys c.keeps_sources c'.keeps_sources hnodup h
  simp only [Choices.sources, forall₂_cons, Forall₂.nil, and_true] at heach
  obtain ⟨hallowed, hblocked⟩ := heach
  obtain ⟨allowed, blocked⟩ := c
  rw [Choices.mk.injEq]
  exact ⟨eq_of_sameAt_textsEntry (hallowed _ (.head _)),
    eq_of_sameAt_textsEntry (hblocked _ (.head _))⟩

theorem Field.written_of_ne (hf : f ≠ Kind.commitToken) (s : Setting) :
    f.written s = if s = f.kind.default then [] else Output.settingEntries f.name s := by
  simp [Field.written, hf]

/-- Where the default writes nothing, so is every setting written. -/
theorem Field.written_of_default (hf : f ≠ Kind.commitToken)
    (hdefault : Output.settingEntries f.name f.kind.default = []) (s : Setting) :
    f.written s = Output.settingEntries f.name s := by
  rw [Field.written_of_ne hf]
  split
  · next h => rw [h, hdefault]
  · rfl

/-- A setting is determined by what stands at its keys, unless it is not written at all. -/
theorem Field.eq_of_written {s' : Setting} (hs : f.kind.Admits s) (hs' : f.kind.Admits s')
    (hf : f ≠ Kind.commitToken)
    (h : ∀ key ∈ f.keys, Value.SameAt (f.written s) (f.written s') key) : s = s' := by
  obtain ⟨name, key, kind⟩ := f
  cases kind <;> cases s <;> simp only [FieldKind.Admits] at hs <;> cases s' <;>
    simp only [FieldKind.Admits] at hs'
  case filters.filters.filters =>
    simp only [Field.written_of_default hf rfl, settingEntries_filters] at h
    rw [Filters.eq_of_sameAt h]
  case choices.choices.choices =>
    simp only [Field.written_of_default hf rfl, settingEntries_choices] at h
    rw [Choices.eq_of_sameAt h]
  case switch.switch.switch o o' =>
    have hat := h name (mem_singleton_self _)
    rw [Field.written_of_default hf rfl, Field.written_of_default hf rfl] at hat
    cases o <;> cases o' <;> simp [Value.SameAt, Output.settingEntries, get?] at hat
    case none.none => rfl
    case some.some => rw [eq_of_same_switchValue hs hs' hat]
  -- What is left has one key, and is left out when it is the default.
  all_goals
    have hat := h name (mem_singleton_self _)
    rw [Field.written_of_ne hf, Field.written_of_ne hf] at hat
    exact eq_of_sameAt_unless_default (by simp) hat

/-! ## Limits -/

/-- Two limits mean the same: they have the same text, or are numerals of one number. -/
def SameLimit (m m' : Option String) : Prop :=
  m = m' ∨ ∃ s s' n, m = some s ∧ m' = some s' ∧ Template.Denotes s n ∧ Template.Denotes s' n

theorem sameLimit_of_same {s : String} {v' : Value} (hs : isExpression s ∨ isNumeral s)
    (hs' : isExpression s' ∨ isNumeral s') (hv : Output.limitValue s = .ok v)
    (hv' : Output.limitValue s' = .ok v') (h : v.same v') : SameLimit (some s) (some s') := by
  have hread : ∀ {s v}, isExpression s ∨ isNumeral s →
      Output.limitValue s = .ok v → v = .str s ∨ ∃ n, v = .int n ∧ Template.Denotes s n := by
    intro s v hs hv
    rw [Output.limitValue] at hv
    split at hv
    case isTrue => exact .inl (Except.ok.inj hv).symm
    case isFalse hexpr =>
      obtain ⟨n, hn, hv⟩ := bind_eq_ok.mp hv
      exact .inr ⟨n, (Except.ok.inj hv).symm,
        denotes_of_isNumeral (hs.resolve_left hexpr) hn⟩
  rcases hread hs hv with rfl | ⟨n, rfl, hn⟩ <;> rcases hread hs' hv' with rfl | ⟨n', rfl, hn'⟩
  · exact .inl (congrArg some ((same_str s s').mp h))
  · simp [same] at h
  · simp [same, number?, sameNumber?] at h
  · obtain rfl := (same_int n n').mp h
    exact .inr ⟨s, s', n, rfl, rfl, hn, hn'⟩

/-! ## Outputs -/

/-- What reading a type that is no report gives. -/
structure Output.WellRead (o : Output) : Prop where
  max : ∃ s, o.max = some s ∧ (isExpression s = true ∨ isNumeral s = true)
  names : keys o.settings = o.kind.spec.fields.map (·.name)
  settings : ∀ f ∈ o.kind.spec.fields, ∃ s, o.settings.get? f.name = some s ∧ f.kind.Admits s

theorem isNumeral_defaultMax (kind : Kind) :
    isNumeral (toString kind.spec.defaultMax) := by
  cases kind <;> decide

theorem nodup_names (kind : Kind) : (kind.spec.fields.map (·.name)).Nodup := by
  cases kind <;> decide

theorem parseField_eq_ok {e : String × Setting} (h : parseField es owner f = .ok e) :
    e.1 = f.name ∧ f.kind.Admits e.2 := by
  obtain ⟨s, hs, h⟩ := bind_eq_ok.mp h
  cases h
  exact ⟨rfl, FieldKind.admits_of_parse hs⟩

variable {o : Output} {kind : Kind}

theorem wellRead_of_ofEntries (h : Output.ofEntries kind es = .ok o) : o.WellRead := by
  simp only [Output.ofEntries, bind_eq_ok] at h
  obtain ⟨max, hmax, token, -, target, -, settings, hsettings, h⟩ := h
  cases h
  obtain ⟨-, -, hsettings⟩ := bind_eq_ok.mp hsettings
  have hnames : keys settings = kind.spec.fields.map (·.name) :=
    map_of_mapM (fun h => (parseField_eq_ok h).1) hsettings
  refine ⟨⟨_, rfl, ?_⟩, hnames, ?_⟩
  · cases max with
    | none => exact .inr (isNumeral_defaultMax kind)
    | some s => exact (templatedField_eq_ok hmax).2
  · intro f hf
    obtain ⟨e, he, hread⟩ := exists_mem_of_mapM hsettings hf
    obtain ⟨hname, hadmits⟩ := parseField_eq_ok hread
    refine ⟨e.2, ?_, hadmits⟩
    rw [← hname]
    exact get?_of_mem (hnames ▸ nodup_names kind) he

theorem ofEntries_of_parse (hkind : kind.isReport = false) (h : Output.parse kind v = .ok o) :
    Output.ofEntries kind (v.entries?.getD []) = .ok o := by
  unfold Output.parse at h
  unfold entries?
  simp only [hkind, Bool.false_eq_true, if_false] at h
  split at h
  · next hv => rwa [hv]
  · next hv => rwa [hv]
  · next hv => rwa [hv]
  · cases h

theorem wellRead_of_parse (hkind : kind.isReport = false) (h : Output.parse kind v = .ok o) :
    o.WellRead :=
  wellRead_of_ofEntries (ofEntries_of_parse hkind h)

/-- The sources of what the handler is told; the first is the limit. -/
def Output.sources (o : Output) (max : Table Value) : List (Source Value) :=
  [⟨["max"], max⟩, textSource "github-token" o.token, textSource "target" o.target.target,
   textSource "target-repo" o.target.repository,
   textsSource "allowed_repos" o.target.allowedRepositories] ++
  o.kind.spec.fields.map fun f => ⟨f.keys, Output.fieldEntries o.settings f⟩

variable {t : Table Value}

theorem handlerSettings_eq_ok (h : o.handlerSettings = .ok t) :
    ∃ max, Output.maxEntries o.max = .ok max ∧ t = ofSources (o.sources max) := by
  obtain ⟨max, hmax, h⟩ := bind_eq_ok.mp h
  refine ⟨max, hmax, ?_⟩
  cases h
  simp [Output.sources, ofSources, textSource, textsSource, flatMap_map]

theorem nodup_keys_sources (o : Output) (max : Table Value) :
    ((o.sources max).flatMap (·.keys)).Nodup := by
  have hkeys : (o.sources max).flatMap (·.keys) =
      ["max", "github-token", "target", "target-repo", "allowed_repos"] ++
        o.kind.spec.fields.flatMap Field.keys := by
    simp [Output.sources, textSource, textsSource, flatMap_map]
  rw [hkeys]
  cases o.kind <;> decide

theorem Output.WellRead.keeps_sources (ho : o.WellRead) {max : Table Value}
    (hmax : Output.maxEntries o.max = .ok max) : ∀ s ∈ o.sources max, s.Keeps := by
  have hlimit : (⟨["max"], max⟩ : Table.Source Value).Keeps := by
    obtain ⟨s, hs, -⟩ := ho.max
    rw [hs] at hmax
    obtain ⟨v, -, hmax⟩ := bind_eq_ok.mp hmax
    cases hmax
    exact List.Sublist.refl _
  intro s hs
  rcases mem_append.mp hs with hs | hs
  · simp only [mem_cons, not_mem_nil, or_false] at hs
    rcases hs with rfl | rfl | rfl | rfl | rfl
    · exact hlimit
    all_goals exact keeps_entry _ _
  · obtain ⟨f, hf, rfl⟩ := mem_map.mp hs
    obtain ⟨setting, hsetting, hadmits⟩ := ho.settings f hf
    rw [Table.Source.Keeps, fieldEntries_eq hsetting]
    exact Field.keys_written_sublist hadmits

theorem Output.WellRead.nodup_keys (ho : o.WellRead) (h : o.handlerSettings = .ok t) :
    (keys t).Nodup := by
  obtain ⟨max, hmax, rfl⟩ := handlerSettings_eq_ok h
  exact (nodup_keys_sources o max).sublist
    (keys_ofSources_sublist (ho.keeps_sources hmax))

/-- Two configured types that mean the same to a handler: they agree on everything but
the token for the empty commit, which the handler is not told, and the spelling of a
limit that is a number. -/
structure Output.Agree (o o' : Output) : Prop where
  kind : o.kind = o'.kind
  max : SameLimit o.max o'.max
  token : o.token = o'.token
  target : o.target = o'.target
  settings : ∀ name, name ≠ Kind.commitToken.name → o.settings.get? name = o'.settings.get? name

theorem Output.WellRead.agree {o' : Output} (ho : o.WellRead) (ho' : o'.WellRead)
    (hkind : o.kind = o'.kind) {t' : Table Value} (ht : o.handlerSettings = .ok t)
    (ht' : o'.handlerSettings = .ok t') (h : (obj t).same (.obj t')) : o.Agree o' := by
  have hat := sameAt_of_same_obj (ho.nodup_keys ht) (ho'.nodup_keys ht') h
  obtain ⟨max, hmax, rfl⟩ := handlerSettings_eq_ok ht
  obtain ⟨max', hmax', rfl⟩ := handlerSettings_eq_ok ht'
  have hkeys : Forall₂ (fun s s' => s.keys = s'.keys) (o.sources max) (o'.sources max') := by
    refine .cons rfl (.cons rfl (.cons rfl (.cons rfl (.cons rfl ?_))))
    rw [← hkind]
    simp [forall₂_map_left_iff, forall₂_map_right_iff, forall₂_same]
  have heach := forall₂_sameAt hkeys (ho.keeps_sources hmax) (ho'.keeps_sources hmax')
    (nodup_keys_sources o max) fun key _ => hat key
  simp only [Output.sources, cons_append, nil_append, forall₂_cons, ← hkind,
    forall₂_map_left_iff, forall₂_map_right_iff, forall₂_same] at heach
  obtain ⟨hlimit, htoken, htarget, hrepository, hallowed, hfields⟩ := heach
  refine ⟨hkind, ?_, eq_of_sameAt_textEntry (htoken _ (.head _)), ?_, ?_⟩
  · obtain ⟨s, hs, hform⟩ := ho.max
    obtain ⟨s', hs', hform'⟩ := ho'.max
    rw [hs] at hmax ⊢
    rw [hs'] at hmax' ⊢
    obtain ⟨v, hv, hmax⟩ := bind_eq_ok.mp hmax
    obtain ⟨v', hv', hmax'⟩ := bind_eq_ok.mp hmax'
    cases hmax
    cases hmax'
    have hsame := hlimit "max" (.head _)
    simp only [Value.SameAt, get?_cons, if_true, Option.rel_some_some] at hsame
    exact sameLimit_of_same hform hform' hv hv' hsame
  · have hitem := eq_of_sameAt_textEntry (htarget _ (.head _))
    have hrepo := eq_of_sameAt_textEntry (hrepository _ (.head _))
    have hrepos := eq_of_sameAt_textsEntry (hallowed _ (.head _))
    cases htarget : o.target
    cases htarget' : o'.target
    simp_all
  · intro name hname
    by_cases hmem : name ∈ o.kind.spec.fields.map (·.name)
    · obtain ⟨f, hf, rfl⟩ := mem_map.mp hmem
      obtain ⟨s, hs, hadmits⟩ := ho.settings f hf
      obtain ⟨s', hs', hadmits'⟩ := ho'.settings f (hkind ▸ hf)
      have hwritten := hfields f hf
      rw [fieldEntries_eq hs, fieldEntries_eq hs'] at hwritten
      have hne : f ≠ Kind.commitToken := fun heq => hname (congrArg Field.name heq)
      rw [hs, hs', Field.eq_of_written hadmits hadmits' hne hwritten]
    · rw [← ho.names, ← get?_eq_none_iff] at hmem
      have hmem' := hmem
      rw [get?_eq_none_iff, ho.names, hkind, ← ho'.names, ← get?_eq_none_iff] at hmem'
      rw [hmem, hmem']

/-- **What a handler is told loses no setting.**  A type that is no report, read from front
matter, writes its settings from sources that keep to keys of their own.  When two such
types write equal settings, they agree on every setting but the token for the empty
commit; limits may differ in the spelling of one number. -/
theorem settings_determine_output {kind : Kind} (hkind : kind.isReport = false) {v v' : Value}
    {o o' : Output} (h : Output.parse kind v = .ok o) (h' : Output.parse kind v' = .ok o')
    {t t' : Table Value} (ht : o.handlerSettings = .ok t) (ht' : o'.handlerSettings = .ok t') :
    (∃ max, t = ofSources (o.sources max) ∧ (∀ s ∈ o.sources max, s.Keeps) ∧
      ((o.sources max).flatMap (·.keys)).Nodup) ∧
    ((obj t).same (.obj t') = true → o.Agree o') := by
  have ho := wellRead_of_parse hkind h
  have ho' := wellRead_of_parse hkind h'
  obtain ⟨max, hmax, hsources⟩ := handlerSettings_eq_ok ht
  refine ⟨⟨max, hsources, ho.keeps_sources hmax, nodup_keys_sources o max⟩, ?_⟩
  apply ho.agree ho' _ ht ht'
  rw [Output.kind_of_parse h, Output.kind_of_parse h']

/-- Two ways to ask for three drafts: the limits are spelled differently, and one has a
token for the empty commit. -/
theorem settings_determine_output_drafts :
    ∃ o o' t t', Output.parse .createPullRequest (.obj
        [("max", .int 3), ("draft", .bool true), ("labels", .str "bot")]) = .ok o ∧
      Output.parse .createPullRequest (.obj
        [("labels", .strs ["bot"]), ("draft", .str "true"), ("max", .str "03"),
         (Kind.commitToken.key, .str "app")]) = .ok o' ∧
      o.handlerSettings = .ok t ∧ o'.handlerSettings = .ok t' ∧ o.Agree o' ∧ o ≠ o' ∧
      o.settings.get? "draft" = some (.switch (some "true")) := by
  obtain ⟨o, h, o', h', t, ht, t', ht', hsame, hne, hdraft⟩ :
      ∃ o, Output.parse .createPullRequest (.obj
        [("max", .int 3), ("draft", .bool true), ("labels", .str "bot")]) = .ok o ∧
      ∃ o', Output.parse .createPullRequest (.obj
        [("labels", .strs ["bot"]), ("draft", .str "true"), ("max", .str "03"),
         (Kind.commitToken.key, .str "app")]) = .ok o' ∧
      ∃ t, o.handlerSettings = .ok t ∧ ∃ t', o'.handlerSettings = .ok t' ∧
        (obj t).same (.obj t') ∧ o ≠ o' ∧
          o.settings.get? "draft" = some (.switch (some "true")) := by
    decide
  exact ⟨o, o', t, t', h, h', ht, ht', (settings_determine_output rfl h h' ht ht').2 hsame, hne,
    hdraft⟩

end SafeOutput

end FlowLock
