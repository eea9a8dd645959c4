import FlowLock.Proofs.Json.RoundTrip
import FlowLock.Proofs.Outcome
import FlowLock.SafeOutput.Handler
import Mathlib.Data.List.Nodup

/-!
# The token of a safe-output type

A type that the processing job carries out can have a token of its own.  It goes to the
handler of the type, as one of its settings, and the other settings and handlers stand around
it.  What the handlers are told is written as JSON, from which they read it again.
-/

namespace FlowLock

open Outcome SafeOutput Text Json List Table Output

/-! ## What a handler is told -/

namespace SafeOutput

def IsPlainKey (key : String) : Prop :=
  key ≠ "github-token" ∧ IsAscii key

instance (key : String) : Decidable (IsPlainKey key) := inferInstanceAs (Decidable (_ ∧ _))

def IsPlainEntry (e : String × Value) : Prop := IsPlainKey e.1 ∧ e.2.IsJson

/-- The keys under which a handler is told something, the names of settings and the key of
tokens apart. -/
def toldKeys : List String :=
  ["max", "target", "target-repo", "allowed_repos", "required_labels", "required_title_prefix",
   "required_category", "allowed", "blocked", "footer"]

/-- All keys that handlers are told of are ASCII, those of the handlers are distinct, and within
a handler only the token has the key of tokens. -/
theorem keys_told :
    ((∀ kind ∈ Kind.all, IsAscii kind.handlerKey) ∧ (Kind.all.map Kind.handlerKey).Nodup) ∧
    (∀ kind ∈ Kind.all, ∀ field ∈ kind.spec.fields, IsPlainKey field.name) ∧
    (∀ key ∈ toldKeys, IsPlainKey key) ∧ IsAscii "github-token" := by
  decide +kernel

theorem isPlainKey_told {key : String} (h : key ∈ toldKeys) : IsPlainKey key :=
  keys_told.2.2.1 key h

namespace Kind

theorem mem_all (kind : Kind) : kind ∈ all := by cases kind <;> decide

theorem isAscii_handlerKey (kind : Kind) : IsAscii kind.handlerKey :=
  keys_told.1.1 kind (mem_all kind)

theorem handlerKey_injective {kind other : Kind} (h : kind.handlerKey = other.handlerKey) :
    kind = other :=
  inj_on_of_nodup_map keys_told.1.2 (mem_all kind) (mem_all other) h

theorem isPlainKey_name (kind : Kind) : ∀ field ∈ kind.spec.fields, IsPlainKey field.name :=
  keys_told.2.1 kind (mem_all kind)

end Kind

namespace Output

def withToken (kind : Kind) (token : String) (o : Output) : Output :=
  { o with token := if o.kind = kind then token else o.token }

theorem withToken_of_ne {kind : Kind} {o : Output} (h : o.kind ≠ kind) (token : String) :
    withToken kind token o = o := by
  rw [withToken, if_neg h]

theorem withToken_self (o : Output) : withToken o.kind o.token o = o := by
  rw [withToken, if_pos rfl]

variable {name : String}

theorem forall_plain_singleton (h : IsPlainKey name) {v : Value} (hv : v.IsJson) :
    ∀ e ∈ [(name, v)], IsPlainEntry e :=
  forall_mem_singleton.mpr ⟨h, hv⟩

theorem isJson_strs (xs : List String) : (Value.strs xs).IsJson := by
  refine .list fun v hv => ?_
  obtain ⟨x, -, rfl⟩ := mem_map.mp hv
  exact .str x

theorem isJson_textEntry (name text : String) : ∀ e ∈ textEntry name text, e.2.IsJson := by
  unfold textEntry
  split
  · exact fun _ h => nomatch h
  · exact forall_mem_singleton.mpr (.str text)

theorem isPlainEntry_textEntry (h : IsPlainKey name) (text : String) :
    ∀ e ∈ textEntry name text, IsPlainEntry e := by
  unfold textEntry
  split
  · exact fun _ h => nomatch h
  · exact forall_plain_singleton h (.str text)

theorem isPlainEntry_textsEntry (h : IsPlainKey name) (xs : List String) :
    ∀ e ∈ textsEntry name xs, IsPlainEntry e := by
  unfold textsEntry
  split
  · exact fun _ h => nomatch h
  · exact forall_plain_singleton h (isJson_strs xs)

theorem isJson_switchValue (s : String) : (switchValue s).IsJson := by
  unfold switchValue
  split
  · exact .str s
  · exact .bool _

theorem isJson_limitValue {s : String} {v : Value} (h : limitValue s = .ok v) : v.IsJson := by
  unfold limitValue at h
  split at h
  · cases h
    exact .str s
  · obtain ⟨n, -, h⟩ := bind_eq_ok.mp h
    cases h
    exact .int n

theorem isPlainEntry_settingEntries (h : IsPlainKey name) (setting : Setting) :
    ∀ e ∈ settingEntries name setting, IsPlainEntry e := by
  cases setting with
  | text s => exact forall_plain_singleton h (.str s)
  | texts xs => exact forall_plain_singleton h (isJson_strs xs)
  | flag b => exact forall_plain_singleton h (.bool b)
  | switch s =>
    cases s with
    | none => exact fun _ h => nomatch h
    | some s => exact forall_plain_singleton h (isJson_switchValue s)
  | number n => exact forall_plain_singleton h (.int n)
  | filters f =>
    refine forall_mem_append.mpr ⟨forall_mem_append.mpr ⟨?_, ?_⟩, ?_⟩
    · exact isPlainEntry_textsEntry (isPlainKey_told (by decide)) _
    · exact isPlainEntry_textEntry (isPlainKey_told (by decide)) _
    · exact isPlainEntry_textEntry (isPlainKey_told (by decide)) _
  | choices c =>
    exact forall_mem_append.mpr
      ⟨isPlainEntry_textsEntry (isPlainKey_told (by decide)) _,
        isPlainEntry_textsEntry (isPlainKey_told (by decide)) _⟩

theorem isPlainEntry_fieldEntries {kind : Kind} {field : Field} (h : field ∈ kind.spec.fields)
    (settings : Table Setting) : ∀ e ∈ fieldEntries settings field, IsPlainEntry e := by
  unfold fieldEntries
  split
  · exact fun _ h => nomatch h
  · split
    · exact fun _ h => nomatch h
    · exact isPlainEntry_settingEntries (kind.isPlainKey_name field h) _

theorem exists_handlerSettings {o : Output} {settings : Table Value}
    (h : o.handlerSettings = .ok settings) :
    ∃ before after, (∀ e ∈ before ++ after, IsPlainEntry e) ∧
      ∀ token, (o.withToken o.kind token).handlerSettings =
        .ok (before ++ textEntry "github-token" token ++ after) := by
  obtain ⟨max, hmax, h⟩ := bind_eq_ok.mp h
  refine ⟨max, textEntry "target" o.target.target ++ (textEntry "target-repo" o.target.repository ++
    (textsEntry "allowed_repos" o.target.allowedRepositories ++
      o.kind.spec.fields.flatMap (fieldEntries o.settings))), ?_, fun token => ?_⟩
  · simp only [forall_mem_append]
    refine ⟨?_, isPlainEntry_textEntry (isPlainKey_told (by decide)) _,
      isPlainEntry_textEntry (isPlainKey_told (by decide)) _,
      isPlainEntry_textsEntry (isPlainKey_told (by decide)) _, fun e he => ?_⟩
    · unfold maxEntries at hmax
      split at hmax
      · cases hmax
        exact fun _ h => nomatch h
      · next s _ =>
        obtain ⟨v, hv, hmax⟩ := bind_eq_ok.mp hmax
        cases hmax
        exact forall_plain_singleton (isPlainKey_told (by decide)) (isJson_limitValue hv)
    · obtain ⟨field, hfield, he⟩ := mem_flatMap.mp he
      exact isPlainEntry_fieldEntries hfield o.settings e he
  · refine bind_eq_ok.mpr ⟨max, hmax, ?_⟩
    simp only [withToken, if_true, append_assoc]

end Output

end SafeOutput

namespace SafeOutputs

def withToken (s : SafeOutputs) (kind : Kind) (token : String) : SafeOutputs :=
  { s with
    outputs := s.outputs.map (Output.withToken kind token)
    ordered := by rw [map_map]; exact s.ordered }

theorem handled_withToken (s : SafeOutputs) (kind : Kind) (token : String) :
    (s.withToken kind token).handled = s.handled.map (Output.withToken kind token) :=
  filter_map

theorem nodup_kinds (s : SafeOutputs) : (s.outputs.map (·.kind)).Nodup :=
  s.ordered.nodup (by decide)

variable {s : SafeOutputs} {o : Output}

theorem withToken_self (ho : o ∈ s.outputs) : s.withToken o.kind o.token = s := by
  have houtputs : s.outputs.map (Output.withToken o.kind o.token) = s.outputs := by
    refine (map_congr_left fun other hmem => ?_).trans (map_id _)
    by_cases hkind : other.kind = o.kind
    · obtain rfl := inj_on_of_nodup_map s.nodup_kinds hmem ho hkind
      exact Output.withToken_self other
    · exact Output.withToken_of_ne hkind o.token
  rw [withToken]
  congr

theorem exists_handled (ho : o ∈ s.handled) :
    ∃ earlier later, (∀ other ∈ earlier ++ later, other.kind ≠ o.kind) ∧
      ∀ token, (s.withToken o.kind token).handled =
        earlier ++ o.withToken o.kind token :: later := by
  obtain ⟨earlier, later, hsplit⟩ := append_of_mem ho
  have hnodup : (s.handled.map (·.kind)).Nodup := s.nodup_kinds.sublist (filter_sublist.map _)
  rw [hsplit, map_append, map_cons] at hnodup
  have hother : ∀ other ∈ earlier ++ later, other.kind ≠ o.kind := by
    intro other hmem heq
    refine (nodup_middle.mp hnodup).notMem ?_
    rw [← map_append, ← heq]
    exact mem_map_of_mem hmem
  refine ⟨earlier, later, hother, fun token => ?_⟩
  have hsame : ∀ {part : List Output}, (∀ other ∈ part, other.kind ≠ o.kind) →
      part.map (Output.withToken o.kind token) = part := fun hpart =>
    (map_congr_left fun other h => withToken_of_ne (hpart other h) token).trans
      (map_id _)
  obtain ⟨hearlier, hlater⟩ := forall_mem_append.mp hother
  rw [handled_withToken, hsplit, map_append, map_cons, hsame hearlier, hsame hlater]

/-! ## What all handlers are told -/

/-- What the handlers are told, the token of one type apart. -/
structure Surroundings (kind : Kind) where
  /-- The handlers of the types before this one. -/
  front : Table Value
  back : Table Value
  before : Table Value
  after : Table Value
  key_notMem : kind.handlerKey ∉ Table.keys (front ++ back)
  token_notMem : "github-token" ∉ Table.keys (before ++ after)

namespace Surroundings

variable {kind : Kind}

/-- What the handlers are told when the type has a token; without one, its handler is told
none. -/
def config (around : Surroundings kind) (token : String) : Value :=
  .obj (around.front ++ (kind.handlerKey,
    .obj (around.before ++ textEntry "github-token" token ++ around.after)) :: around.back)

def joined (around : Surroundings kind) : Surroundings kind :=
  have hkeys : ∀ t u : Table Value, Table.keys ((t.map fun e => (e.1, e.2.joined)) ++
      u.map fun e => (e.1, e.2.joined)) = Table.keys (t ++ u) := fun t u => by
    simp only [Table.keys, map_append, map_map, Function.comp_def]
  { front := around.front.map fun e => (e.1, e.2.joined)
    back := around.back.map fun e => (e.1, e.2.joined)
    before := around.before.map fun e => (e.1, e.2.joined)
    after := around.after.map fun e => (e.1, e.2.joined)
    key_notMem := hkeys around.front around.back ▸ around.key_notMem
    token_notMem := hkeys around.before around.after ▸ around.token_notMem }

/-- All that the handlers are told is JSON, under keys that are read as they are. -/
def IsJson (around : Surroundings kind) : Prop :=
  ∀ e ∈ around.front ++ around.back ++ (around.before ++ around.after), IsAscii e.1 ∧ e.2.IsJson

variable {around : Surroundings kind}

theorem isJson_config (h : around.IsJson) (token : String) : (around.config token).IsJson := by
  simp only [IsJson, forall_mem_append] at h
  obtain ⟨⟨hfront, hback⟩, hbefore, hafter⟩ := h
  refine .obj (forall_mem_append.mpr ⟨fun e he => (hfront e he).2,
    forall_mem_cons.mpr ⟨.obj ?_, fun e he => (hback e he).2⟩⟩)
  exact forall_mem_append.mpr ⟨forall_mem_append.mpr ⟨fun e he => (hbefore e he).2,
    isJson_textEntry _ token⟩, fun e he => (hafter e he).2⟩

theorem joined_config (h : around.IsJson) (token : String) :
    (around.config token).joined = around.joined.config (Text.joined token) := by
  simp only [IsJson, forall_mem_append] at h
  obtain ⟨⟨hfront, hback⟩, hbefore, hafter⟩ := h
  have hpart : ∀ {t : Table Value}, (∀ e ∈ t, IsAscii e.1 ∧ e.2.IsJson) →
      (t.map fun e => (Text.joined e.1, e.2.joined)) = t.map fun e => (e.1, e.2.joined) := by
    intro t ht
    exact map_congr_left fun e he => by rw [Text.joined_of_ascii (ht e he).1]
  have htoken : ((textEntry "github-token" token).map
      fun e => (Text.joined e.1, e.2.joined)) =
        textEntry "github-token" (Text.joined token) := by
    rw [textEntry, textEntry, Text.isEmpty_joined]
    split
    · rfl
    · have hname : Text.joined "github-token" = "github-token" :=
        Text.joined_of_ascii keys_told.2.2.2
      rw [map_singleton, Value.joined, hname]
  simp only [config, joined, Value.joined_obj, map_append, map_cons, htoken, hpart hfront,
    hpart hback, hpart hbefore, hpart hafter, Text.joined_of_ascii (Kind.isAscii_handlerKey kind)]

theorem isSome_encode?_config {token : String}
    (h : (encode? compact (around.config token)).isSome) (last : String) :
    (encode? compact (around.config last)).isSome := by
  have hsorted : compact.sorted = false := rfl
  simp only [encode?, config, isSome_encodeAt?_obj hsorted, forall_mem_append,
    forall_mem_cons] at h ⊢
  obtain ⟨hfront, ⟨⟨hbefore, -⟩, hafter⟩, hback⟩ := h
  refine ⟨hfront, ⟨⟨hbefore, ?_⟩, hafter⟩, hback⟩
  unfold textEntry
  split
  · exact fun _ h => nomatch h
  · exact forall_mem_singleton.mpr rfl

/-- **The text for the handlers is read as what they are told**, with the token as it is
read. -/
theorem exists_text (hjson : around.IsJson) {token : String}
    (h : (encode? compact (around.config token)).isSome) (last : String) :
    ∃ text, encode? compact (around.config last) = some text ∧
      Json.decode? text = some (around.joined.config (Text.joined last)) := by
  obtain ⟨text, htext⟩ := Option.isSome_iff_exists.mp (isSome_encode?_config h last)
  refine ⟨text, htext, ?_⟩
  rw [decode?_encode? isSpaced_compact rfl (isJson_config hjson last) htext, joined_config hjson]

end Surroundings

theorem exists_handlerEntry {footer : Option String} {entry : String × Value}
    (h : handlerEntry footer o = .ok entry) :
    ∃ before after, (∀ e ∈ before ++ after, IsPlainEntry e) ∧
      ∀ token, handlerEntry footer (o.withToken o.kind token) = .ok (o.kind.handlerKey,
          .obj (before ++ textEntry "github-token" token ++ after)) := by
  obtain ⟨settings, hsettings, -⟩ := bind_eq_ok.mp h
  obtain ⟨before, after, hplain, hall⟩ := exists_handlerSettings hsettings
  have hfooter : ∀ token, has (before ++ textEntry "github-token" token ++ after)
      "footer" = has (before ++ after) "footer" := by
    intro token
    have hentry : has (textEntry "github-token" token) "footer" = false := by
      unfold textEntry
      split <;> rfl
    rw [has] at hentry
    rw [has, has, any_append, any_append, any_append, hentry, Bool.or_false]
  have hhas : ∀ token, (o.withToken o.kind token).hasFooter = o.hasFooter := fun _ => rfl
  cases footer with
  | none => exact ⟨before, after, hplain, fun token => bind_eq_ok.mpr ⟨_, hall token, rfl⟩⟩
  | some text =>
    cases hneeds : o.hasFooter && !has (before ++ after) "footer" with
    | false =>
      refine ⟨before, after, hplain, fun token => bind_eq_ok.mpr ⟨_, hall token, ?_⟩⟩
      dsimp only
      rw [hfooter, hhas, hneeds, if_neg Bool.false_ne_true]
      rfl
    | true =>
      refine ⟨before, after ++ [("footer", switchValue text)], ?_,
        fun token => bind_eq_ok.mpr ⟨_, hall token, ?_⟩⟩
      · rw [← append_assoc]
        exact forall_mem_append.mpr ⟨hplain,
          forall_plain_singleton (isPlainKey_told (by decide))
            (isJson_switchValue text)⟩
      · dsimp only
        rw [hfooter, hhas, hneeds, if_pos rfl, append_assoc]
        rfl

theorem gives_handlerEntry (footer : Option String) (o : Output) :
    Gives (fun e => e.1 = o.kind.handlerKey ∧ e.2.IsJson) (handlerEntry footer o) := by
  intro entry h
  obtain ⟨before, after, hplain, hall⟩ := exists_handlerEntry h
  have hentry := hall o.token
  rw [Output.withToken_self, h] at hentry
  cases hentry
  simp only [forall_mem_append] at hplain
  refine ⟨rfl, .obj (forall_mem_append.mpr ⟨forall_mem_append.mpr ⟨?_, ?_⟩, ?_⟩)⟩
  · exact fun e he => (hplain.1 e he).2
  · exact isJson_textEntry _ _
  · exact fun e he => (hplain.2 e he).2

theorem exists_handlerConfig (ho : o ∈ s.handled) {config : Value}
    (h : s.handlerConfig = .ok config) :
    ∃ around : Surroundings o.kind, around.IsJson ∧
      ∀ token, (s.withToken o.kind token).handlerConfig = .ok (around.config token) := by
  obtain ⟨earlier, later, hother, hhandled⟩ := exists_handled ho
  have hconfig : ∀ token, (s.withToken o.kind token).handlerConfig = (do
      let front ← earlier.mapM (handlerEntry s.footer)
      let entry ← handlerEntry s.footer (o.withToken o.kind token)
      let back ← later.mapM (handlerEntry s.footer)
      .ok (.obj (front ++ entry :: back))) := by
    intro token
    rw [handlerConfig, hhandled, mapM_append, mapM_cons]
    simp only [bind_assoc]
    rfl
  rw [← withToken_self (mem_of_mem_filter ho), hconfig, Output.withToken_self] at h
  obtain ⟨front, hfront, h⟩ := bind_eq_ok.mp h
  obtain ⟨entry, hentry, h⟩ := bind_eq_ok.mp h
  obtain ⟨back, hback, -⟩ := bind_eq_ok.mp h
  obtain ⟨before, after, hplain, hall⟩ := exists_handlerEntry hentry
  have hpart : ∀ {part : List Output} {entries : List (String × Value)},
      part ⊆ earlier ++ later → part.mapM (handlerEntry s.footer) = .ok entries →
      ∀ e ∈ entries, e.1 ≠ o.kind.handlerKey ∧ IsAscii e.1 ∧ e.2.IsJson := by
    intro part entries hsub hpart
    refine Gives.mapM (fun other hmem entry hentry => ?_) entries hpart
    obtain ⟨hkey, hjson⟩ := gives_handlerEntry s.footer other entry hentry
    rw [hkey]
    exact ⟨fun heq => hother other (hsub hmem) (Kind.handlerKey_injective heq),
      Kind.isAscii_handlerKey other.kind, hjson⟩
  have hentries := forall_mem_append.mpr ⟨hpart (subset_append_left _ _) hfront,
    hpart (subset_append_right _ _) hback⟩
  refine ⟨⟨front, back, before, after, ?_, ?_⟩, ?_, fun token => ?_⟩
  · intro hmem
    obtain ⟨e, he, hkey⟩ := mem_map.mp hmem
    exact (hentries e he).1 hkey
  · intro hmem
    obtain ⟨e, he, hkey⟩ := mem_map.mp hmem
    exact (hplain e he).1.1 hkey
  · exact forall_mem_append.mpr ⟨fun e he => (hentries e he).2,
      fun e he => ⟨(hplain e he).1.2, (hplain e he).2⟩⟩
  · rw [hconfig, hfront, hback, ok_bind, hall]
    rfl

end SafeOutputs

end FlowLock
