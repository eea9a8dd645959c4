import FlowLock.Mcp.Setup
import FlowLock.Proofs.Json
import FlowLock.Proofs.Outcome

/-!
# What the configuration text holds

Both renderings of the servers write every text of a server's settings as a quoted
string, so nothing of the settings is lost on the way to the file.
-/

namespace FlowLock.Mcp

open Text List

/-! ## JSON -/

variable {text s : String} {e : String × Value}

theorem quote_within_renderJson {servers : Table Value} (h : renderJson servers = .ok text)
    (he : e ∈ servers) (hs : e.2.Holds s) : Within (Json.quote s) text := by
  have hall : (Value.obj [("mcpServers", .obj servers)]).Holds s :=
    .obj mem_cons_self (.obj he hs)
  rw [renderJson] at h
  cases hencode : Json.encode? Json.indented (.obj [("mcpServers", .obj servers)]) with
  | none =>
    rw [hencode] at h
    cases h
  | some encoded =>
    rw [hencode] at h
    obtain rfl : encoded = text := Except.ok.inj h
    exact Json.quote_within_encodeAt? rfl hall hencode

/-! ## TOML -/

theorem tomlItems_eq_map (xs : List Value) : tomlItems xs = xs.map tomlValue := by
  induction xs with
  | nil => rfl
  | cons x xs ih => rw [tomlItems, ih, map_cons]

theorem tomlEntries_eq_map (es : List (Value × Value)) : tomlEntries es = es.map tomlEntry := by
  induction es with
  | nil => rfl
  | cons e es ih => rw [tomlEntries, ih, map_cons]

theorem within_tomlList {item : String} {items : List String} (h : item ∈ items) :
    Within item (tomlList items) := by
  have hline : Within item ("  " ++ item ++ ",\n") :=
    ((Within.refl item).append_left _).append_right _
  have hmem : "  " ++ item ++ ",\n" ∈ items.map fun item => "  " ++ item ++ ",\n" :=
    mem_map.mpr ⟨item, h, rfl⟩
  rw [tomlList, isEmpty_eq_false_iff.mpr (ne_nil_of_mem h), if_neg Bool.false_ne_true]
  exact ((hline.trans (Within.join hmem)).append_left _).append_right _

theorem quote_within_tomlValue {v : Value} (hv : v.Holds s) :
    Within (Json.quote s) (tomlValue v) := by
  induction hv with
  | str => exact Within.refl _
  | item hx _ ih =>
    rw [tomlValue, tomlItems_eq_map]
    exact ih.trans (within_tomlList (mem_map_of_mem hx))
  | @entry e es he _ ih =>
    have hentry : Within (Json.quote s) (tomlEntry e) := by
      rw [tomlEntry]
      exact ih.append_left _
    have hall := hentry.trans (Within.intercalate ", " (mem_map_of_mem he))
    rw [tomlValue, tomlEntries_eq_map]
    exact (hall.append_left _).append_right _

variable {lines : List String}

theorem exists_within_nestedLines {server : String} {e : Value × Value}
    (h : nestedLines server e = .ok lines) (hs : e.2.Holds s) (hnested : isNested e) :
    ∃ line ∈ lines, Within (Json.quote s) line := by
  obtain ⟨own, hown, hpure⟩ := Outcome.bind_eq_ok.mp h
  obtain rfl := Except.ok.inj hpure
  obtain ⟨key, value⟩ := e
  have hentries : value.entries?.isSome := (Bool.and_eq_true _ _ ▸ hnested).2
  -- Of the values that hold a text, only mappings have entries.
  cases hs with
  | str => cases hentries
  | item => cases hentries
  | @entry d es hd hs =>
    obtain ⟨line, hline, hwritten⟩ := Outcome.exists_mem_of_mapM hown hd
    refine ⟨line, mem_append_right _ hline, ?_⟩
    rw [nestedLine] at hwritten
    split at hwritten
    · obtain rfl := Except.ok.inj hwritten
      exact (quote_within_tomlValue hs).append_left _
    · cases hwritten

theorem exists_within_serverLines {server : String × Value} (h : serverLines server = .ok lines)
    (hs : server.2.Holds s) : ∃ line ∈ lines, Within (Json.quote s) line := by
  obtain ⟨name, settings⟩ := server
  cases hs with
  | str => cases h
  | item => cases h
  | @entry e es he hs =>
    obtain ⟨nested, hnested, hpure⟩ := Outcome.bind_eq_ok.mp h
    obtain rfl := Except.ok.inj hpure
    by_cases hown : isNested e
    · obtain ⟨table, htable, hlines⟩ :=
        Outcome.exists_mem_of_mapM hnested (mem_filter.mpr ⟨he, hown⟩)
      obtain ⟨line, hline, hwithin⟩ := exists_within_nestedLines hlines hs hown
      exact ⟨line, mem_append_right _ (mem_flatten.mpr ⟨table, htable, hline⟩), hwithin⟩
    · refine ⟨e.1.plain ++ " = " ++ tomlValue e.2, ?_, (quote_within_tomlValue hs).append_left _⟩
      have hkept : e ∈ es.filter fun e => !isNested e := mem_filter.mpr ⟨he, by simpa using hown⟩
      exact mem_append_left _ (mem_append_right _ (mem_map.mpr ⟨e, hkept, rfl⟩))

theorem quote_within_renderToml {servers : Table Value} (h : renderToml servers = .ok text)
    (he : e ∈ servers) (hs : e.2.Holds s) : Within (Json.quote s) text := by
  obtain ⟨tables, htables, hrest⟩ := Outcome.bind_eq_ok.mp h
  obtain ⟨lines, hlines, hserver⟩ := Outcome.exists_mem_of_mapM htables he
  obtain ⟨line, hline, hwithin⟩ := exists_within_serverLines hserver hs
  split at hrest
  · obtain rfl := Except.ok.inj hrest
    have hmem := mem_flatten.mpr ⟨lines, hlines, hline⟩
    exact (hwithin.trans (Within.intercalate _ (mem_append_right _ hmem))).append_right _
  · cases hrest

/-- **Nothing is lost on the way to the file**: every text in the settings of a server
stands in the configuration as a quoted string. -/
theorem quote_within_configText {w : Workflow} {toml typed fetches : Bool}
    (h : configText w toml typed fetches = .ok text) (he : e ∈ servers w typed fetches)
    (hs : e.2.Holds s) : Within (Json.quote s) text := by
  cases toml with
  | false => exact quote_within_renderJson h he hs
  | true => exact quote_within_renderToml h he hs

end FlowLock.Mcp
