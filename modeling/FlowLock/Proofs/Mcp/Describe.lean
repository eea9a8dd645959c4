import FlowLock.Proofs.Mcp.Toml

/-!
# The two forms of the configuration

Agents read their servers from JSON or from TOML.  Both forms describe the same servers when the
names can stand between quotes as they are, since they are written so in TOML.
-/

namespace FlowLock.Mcp

open Toml List Table Value

/-! ## Servers -/

def settingsOf (v : Value) : Table Value :=
  (v.entries?.getD []).filterMap fun e => e.1.str?.map fun key => (key, e.2)

theorem settingsOf_obj (t : Table Value) : settingsOf (.obj t) = t := by
  change (t.map fun e => (str e.1, e.2)).filterMap _ = t
  rw [filterMap_map]
  exact filterMap_some

def hasHeader (e : String × Value) : Bool := isNested (.str e.1, e.2)

theorem eq_obj_of_hasHeader {e : String × Value} (he : e.2.IsToml) (h : hasHeader e) :
    e.2 = .obj (settingsOf e.2) := by
  have hentries : e.2.entries?.isSome := (Bool.and_eq_true _ _ ▸ h).2
  obtain ⟨key, v⟩ := e
  cases he with
  | obj => exact congrArg obj (settingsOf_obj _).symm
  | _ => cases hentries

/-- The settings of a server in the order of its text: those with a header come last. -/
def inOrder (t : Table Value) : Table Value :=
  t.filter (fun e => !hasHeader e) ++ t.filter hasHeader

def serverSections (t : Table Value) : List Section :=
  ([], t.filter fun e => !hasHeader e) :: (t.filter hasHeader).map fun e => ([e.1], settingsOf e.2)

def nestedBlock (name key : String) (t : Table Value) : Block :=
  ⟨s!"[mcp_servers.\"{name}\".{key}]", tomlKey, ["mcp_servers", name, key], t⟩

def serverBlocks (name : String) (t : Table Value) : List Block :=
  ⟨s!"[mcp_servers.\"{name}\"]", id, ["mcp_servers", name], t.filter fun e => !hasHeader e⟩ ::
    (t.filter hasHeader).map fun e => nestedBlock name e.1 (settingsOf e.2)

theorem nestedLines_obj (name key : String) (t : Table Value) :
    nestedLines name (.str key, .obj t) = .ok ("" :: (nestedBlock name key t).lines) := by
  have hlines : (t.map fun e => (str e.1, e.2)).mapM nestedLine =
      .ok (t.map fun e => entryText (tomlKey e.1) e.2) := by
    rw [Outcome.mapM_eq_ok, forall₂_map_left_iff, forall₂_map_right_iff, forall₂_same]
    exact fun _ _ => rfl
  exact congrArg (· >>= _) hlines

theorem serverLines_obj (name : String) {t : Table Value} (ht : ∀ e ∈ t, e.2.IsToml) :
    serverLines (name, .obj t) = .ok ((serverBlocks name t).flatMap fun b => "" :: b.lines) := by
  have hnested : ((t.map fun e => (str e.1, e.2)).filter isNested).mapM (nestedLines name) =
      .ok ((t.filter hasHeader).map fun e => "" :: (nestedBlock name e.1 (settingsOf e.2)).lines) := by
    rw [filter_map, Outcome.mapM_eq_ok, forall₂_map_left_iff, forall₂_map_right_iff]
    refine forall₂_same.mpr fun e he => ?_
    obtain ⟨he, hheader⟩ := mem_filter.mp he
    rw [eq_obj_of_hasHeader (ht e he) hheader, settingsOf_obj, nestedLines_obj]
  have hown : ((t.map fun e => (str e.1, e.2)).filter (fun e => !isNested e)).map
      (fun e => e.1.plain ++ " = " ++ tomlValue e.2) =
      (t.filter fun e => !hasHeader e).map fun e => entryText e.1 e.2 := by
    rw [filter_map, map_map]
    rfl
  refine (congrArg (· >>= _) hnested).trans ?_
  change Except.ok _ = _
  rw [serverBlocks, flatMap_cons, flatMap_map, flatMap_def]
  exact congrArg (fun own => Except.ok (_ ++ own ++ _)) hown

theorem reads_tomlKey {key : String} (h : IsBasic key) :
    Reads readKey (tomlKey key).toList key := by
  unfold tomlKey
  split
  · next hbare => exact reads_bare hbare
  · exact reads_quote h

theorem isWritten_serverBlocks {name : String} (hname : ∀ c ∈ name.toList, isPlain c)
    {t : Table Value} (ht : ∀ e ∈ t, e.2.IsToml) (hkeys : ∀ e ∈ t, isBareKey e.1) :
    ∀ b ∈ serverBlocks name t, b.IsWritten := by
  refine forall_mem_cons.mpr ⟨?_, forall_mem_map.mpr fun e he => ?_⟩
  · refine ⟨⟨_, cons_ne_nil _ _, .cons (reads_bare (by decide))
      (.cons (reads_plain hname) .nil), ?_⟩, fun e he => ?_, fun e he => ?_⟩
    · simp [toString]
    · exact reads_bare (hkeys e (mem_filter.mp he).1)
    · exact ht e (mem_filter.mp he).1
  · obtain ⟨he, hheader⟩ := mem_filter.mp he
    obtain ⟨hbasic, -, hvalues⟩ := (eq_obj_of_hasHeader (ht e he) hheader ▸ ht e he).of_obj
    refine ⟨⟨_, cons_ne_nil _ _, .cons (reads_bare (by decide)) (.cons (reads_plain hname)
      (.cons (reads_bare (hkeys e he)) .nil)), ?_⟩, fun d hd => ?_, hvalues⟩
    · change ("[mcp_servers.\"" ++ name ++ "\"." ++ e.1 ++ "]").toList = _
      simp [intercalate_cons_cons]
    · exact reads_tomlKey (hbasic d hd)

theorem perm_inOrder (t : Table Value) : (inOrder t).Perm t :=
  perm_append_comm.trans (filter_append_perm hasHeader t)

theorem assemble_serverSections {t : Table Value} (hnodup : (keys t).Nodup)
    (ht : ∀ e ∈ t, e.2.IsToml) (n : Nat) :
    assemble (n + 2) (serverSections t) = some (inOrder t) := by
  have hgather : gather ((t.filter hasHeader).map fun e => (e.1, [([], settingsOf e.2)])) =
      (t.filter hasHeader).map fun e => ([e.1], settingsOf e.2) := by
    rw [gather, flatMap_map]
    exact map_eq_flatMap.symm
  rw [serverSections, ← hgather]
  refine assemble_gather (some (t.filter fun e => !hasHeader e)) ?_ ?_ ?_
  · exact forall_mem_map.mpr fun _ _ => cons_ne_nil _ _
  · refine forall₂_map_left_iff.mpr (forall₂_same.mpr fun e he => ⟨rfl, ?_⟩)
    obtain ⟨he, hheader⟩ := mem_filter.mp he
    have heq := eq_obj_of_hasHeader (ht e he) hheader
    have hone := @assemble_gather [] n (some (settingsOf e.2)) (forall_mem_nil _) [] .nil
    simp only [Option.getD_some, append_nil] at hone
    exact (congrArg _ (hone (heq ▸ ht e he).of_obj.2.1)).trans (congrArg some heq.symm)
  · exact ((perm_inOrder t).map _).nodup_iff.mpr hnodup

/-- The servers that both forms can write: names that can stand between quotes as they are, and
settings with bare keys and values that TOML has a form for. -/
structure IsPortable (servers : Table Value) : Prop where
  nodup : (keys servers).Nodup
  plain : ∀ s ∈ servers, ∀ c ∈ s.1.toList, isPlain c = true
  settings : ∀ s ∈ servers, ∃ t : Table Value, s.2 = .obj t ∧ (obj t).IsToml ∧
    ∀ e ∈ t, isBareKey e.1 = true

namespace IsPortable

variable {servers : Table Value}

theorem eq_obj (h : IsPortable servers) {s : String × Value} (hs : s ∈ servers) :
    s.2 = .obj (settingsOf s.2) ∧ (obj (settingsOf s.2)).IsToml ∧
      ∀ e ∈ settingsOf s.2, isBareKey e.1 := by
  obtain ⟨t, heq, ht, hkeys⟩ := h.settings s hs
  rw [heq, settingsOf_obj]
  exact ⟨rfl, ht, hkeys⟩

theorem renderJson_eq (h : IsPortable servers) : ∃ text, renderJson servers = .ok text ∧
      Json.decode? text = some (.obj [("mcpServers", .obj servers)]) := by
  have hservers : (obj servers).IsPayload := by
    refine .obj (fun s hs => IsToml.isWhole_of_code fun c hc => ?_) fun s hs => ?_
    · have hplain := h.plain s hs c hc
      simp only [isPlain, Bool.and_eq_true, beq_iff_eq] at hplain
      exact hplain.2
    · exact (h.eq_obj hs).1 ▸ (h.eq_obj hs).2.1.isPayload
  have hall : (obj [("mcpServers", .obj servers)]).IsPayload :=
    .obj (forall_mem_singleton.mpr (by decide : Text.IsWhole "mcpServers"))
      (forall_mem_singleton.mpr hservers)
  obtain ⟨text, htext, -, hread⟩ := Json.exists_text_of_isPayload hall (.inr (.inl rfl))
  exact ⟨text, by rw [renderJson, htext]; rfl, hread⟩

def written (servers : Table Value) : Table Value :=
  servers.map fun s => (s.1, .obj (inOrder (settingsOf s.2)))

theorem keys_written (servers : Table Value) :
    keys (written servers) = keys servers := map_map

def document (servers : Table Value) : Table Value :=
  ("history", .obj [("persistence", .str "none")]) ::
    if servers.isEmpty then [] else [("mcp_servers", .obj (written servers))]

def writtenSections (servers : Table Value) : List Section :=
  gather (servers.map fun s => (s.1, serverSections (settingsOf s.2)))

def documentSections (servers : Table Value) : Table (List Section) :=
  ("history", [([], [("persistence", .str "none")])]) ::
    if servers.isEmpty then [] else [("mcp_servers", writtenSections servers)]

theorem assemble_eq (h : IsPortable servers) (n : Nat) :
    assemble (n + 4) (gather (documentSections servers)) = some (document servers) := by
  have hservers : assemble (n + 3) (writtenSections servers) = some (written servers) := by
    refine assemble_gather none ?_ ?_ (keys_written servers ▸ h.nodup)
    · exact forall_mem_map.mpr fun _ _ => cons_ne_nil _ _
    · refine forall₂_map_left_iff.mpr (forall₂_map_right_iff.mpr
        (forall₂_same.mpr fun s hs => ⟨rfl, ?_⟩))
      obtain ⟨-, hnodup, ht⟩ := (h.eq_obj hs).2.1.of_obj
      rw [assemble_serverSections hnodup ht]
      rfl
  cases servers with
  | nil => rfl
  | cons s servers =>
    refine @assemble_gather (documentSections (s :: servers)) _ none ?_ (document (s :: servers))
      (.cons ⟨rfl, rfl⟩ (.cons ⟨rfl, ?_⟩ .nil)) ?_
    · simp [documentSections, writtenSections, gather, serverSections, under]
    · exact congrArg (Option.map obj) hservers
    · exact (by decide : ["history", "mcp_servers"].Nodup)

def documentBlocks (servers : Table Value) : List Block :=
  servers.flatMap fun s => serverBlocks s.1 (settingsOf s.2)

theorem isWritten_documentBlocks (h : IsPortable servers) :
    ∀ b ∈ documentBlocks servers, b.IsWritten := by
  intro b hb
  obtain ⟨s, hs, hb⟩ := mem_flatMap.mp hb
  obtain ⟨-, ht, hkeys⟩ := h.eq_obj hs
  exact isWritten_serverBlocks (h.plain s hs) ht.of_obj.2.2 hkeys b hb

def historyBlock : Block := ⟨"[history]", id, ["history"], [("persistence", .str "none")]⟩

theorem isWritten_historyBlock : historyBlock.IsWritten where
  header := ⟨_, cons_ne_nil _ _, .cons (reads_bare (by decide)) .nil, rfl⟩
  keys := forall_mem_singleton.mpr (reads_bare (by decide : isBareKey "persistence"))
  values := forall_mem_singleton.mpr (.str (by decide : IsBasic "none"))

theorem map_toSection (servers : Table Value) :
    (historyBlock :: documentBlocks servers).map Block.toSection =
      gather (documentSections servers) := by
  have hserver : ∀ name t, (serverBlocks name t).map Block.toSection =
      under "mcp_servers" (under name (serverSections t)) := by
    intro name t
    rw [serverBlocks, serverSections, under, under, map_cons, map_cons, map_cons,
      map_map, map_map, map_map]
    rfl
  cases servers <;>
  simp [documentSections, writtenSections, documentBlocks, hserver, historyBlock, gather,
    Block.toSection, map_flatMap, flatMap_map, under]

theorem renderToml_eq (h : IsPortable servers) :
    ∃ text, renderToml servers = .ok text ∧ decode? text = some (document servers) := by
  have hlines : servers.mapM serverLines = .ok (servers.map fun s =>
      (serverBlocks s.1 (settingsOf s.2)).flatMap fun b => "" :: b.lines) := by
    rw [Outcome.mapM_eq_ok, forall₂_map_right_iff]
    refine forall₂_same.mpr fun s hs => ?_
    obtain ⟨heq, ht, -⟩ := h.eq_obj hs
    rw [← serverLines_obj s.1 ht.of_obj.2.2, ← heq]
  have hfinite : (servers.all fun s => s.2.isFinite) :=
    all_eq_true.mpr fun s hs => (h.eq_obj hs).1 ▸ (h.eq_obj hs).2.1.isFinite_eq
  refine ⟨_, by rw [renderToml, hlines]; exact if_pos hfinite, ?_⟩
  have hwritten : ["[history]", "persistence = \"none\""] ++ (servers.map fun s =>
      (serverBlocks s.1 (settingsOf s.2)).flatMap fun b => "" :: b.lines).flatten =
      historyBlock.lines ++ (documentBlocks servers).flatMap fun b => "" :: b.lines := by
    rw [documentBlocks, flatMap_assoc, flatMap_def]
    exact congrArg (· ++ _) (by decide)
  have htext := @LockFile.toList_unlines (historyBlock.lines ++
    (documentBlocks servers).flatMap fun b => "" :: b.lines) (by simp [Block.lines])
  rw [hwritten]
  generalize Text.unlines _ ++ "\n" = text at htext ⊢
  have hread := @Block.readSections_eq historyBlock (documentBlocks servers)
    (forall_mem_cons.mpr ⟨isWritten_historyBlock, h.isWritten_documentBlocks⟩)
    (text.length + 1) (by rw [← htext, String.length_toList]; omega)
  obtain ⟨n, hn⟩ : ∃ n, text.length = n + 4 := by
    refine ⟨text.length - 4, ?_⟩
    have hfirst : historyBlock.header.toList.length = 9 := rfl
    rw [← String.length_toList, htext, Block.lines, cons_append, map_cons,
      Yaml.lineText_cons, length_append]
    omega
  rw [decode?, htext, hread, Option.bind_eq_bind, Option.bind_some, map_toSection, hn,
    h.assemble_eq]

theorem eqUpToOrder_written (h : IsPortable servers) :
    (obj (written servers)).EqUpToOrder (.obj servers) := by
  refine .obj (keys_written servers ▸ h.nodup) h.nodup (fun key => by rw [keys_written]) ?_
  intro key v v' hv hv'
  obtain ⟨heq, ht, -⟩ := h.eq_obj (mem_of_get? hv')
  have hshuffled := Shuffled.of_perm ht.of_obj.2.1 (perm_inOrder (settingsOf v')).symm
  obtain rfl : v = .obj (inOrder (settingsOf v')) := by
    rw [written, get?_map (fun v => obj (inOrder (settingsOf v))), hv'] at hv
    exact (Option.some.inj hv).symm
  dsimp only at heq
  rw [heq, settingsOf_obj]
  refine .obj hshuffled.nodup' hshuffled.nodup (fun key => ((perm_inOrder _).map _).mem_iff) ?_
  intro key v v' hv hv'
  rw [← hshuffled.get?_eq, hv'] at hv
  exact Option.some.inj hv ▸ .same _

end IsPortable

/-- **Both forms of a configuration describe the same servers.**  Both are written, the JSON text
reads as the servers, and so does the part of the TOML text below `mcp_servers`, up to the order
of settings: those with a header of their own come last there. -/
theorem renderings_describe_the_same_servers {servers : Table Value} (h : IsPortable servers) :
    ∃ json toml document, renderJson servers = .ok json ∧ renderToml servers = .ok toml ∧
      Json.decode? json = some (.obj [("mcpServers", .obj servers)]) ∧
      decode? toml = some document ∧
      ((get? document "mcp_servers").getD (.obj [])).EqUpToOrder (.obj servers) := by
  obtain ⟨json, hjson, hjsonRead⟩ := h.renderJson_eq
  obtain ⟨toml, htoml, htomlRead⟩ := h.renderToml_eq
  refine ⟨json, toml, _, hjson, htoml, hjsonRead, htomlRead, ?_⟩
  cases servers with
  | nil => exact .same _
  | cons => exact h.eqUpToOrder_written

def sampleServers : Table Value :=
  [("my server", .obj [("args", .list [.str "-i", .str "\"é\"\n"]),
    ("env", .obj [("TOKEN", .str "C:\\x"), ("a.b", .str "")]), ("timeout", .int (-30)),
    ("guard-policies", .obj [("allow only", .obj [("private", .bool false)])])])]

theorem isPortable_sampleServers : IsPortable sampleServers where
  nodup := by decide
  plain := by decide
  settings := by
    refine forall_mem_singleton.mpr ⟨_, rfl, .obj (by decide) (by decide) ?_, by decide⟩
    simp only [forall_mem_cons]
    refine ⟨.list ?_, .obj (by decide) (by decide) ?_, .int (by decide),
      .obj (by decide) (by decide) (forall_mem_singleton.mpr (.obj (by decide) (by decide)
        (forall_mem_singleton.mpr (.bool false)))), forall_mem_nil _⟩ <;>
    simp only [forall_mem_cons] <;>
    exact ⟨.str (by decide), .str (by decide), forall_mem_nil _⟩

theorem renderings_describe_the_same_servers_sample :
    IsPortable sampleServers ∧ ∃ json toml document, renderJson sampleServers = .ok json ∧
      renderToml sampleServers = .ok toml ∧
      Json.decode? json = some (.obj [("mcpServers", .obj sampleServers)]) ∧
      decode? toml = some document ∧
      ((get? document "mcp_servers").getD (.obj [])).EqUpToOrder (.obj sampleServers) :=
  ⟨isPortable_sampleServers, renderings_describe_the_same_servers isPortable_sampleServers⟩

/-- A backslash in a name is written as it is, and starts an escape where TOML is read: the server
has another name there. -/
theorem backslash_in_name_is_lost :
    ∃ json toml, renderJson [("a\\tb", .obj [("command", .str "x")])] = .ok json ∧
      renderToml [("a\\tb", .obj [("command", .str "x")])] = .ok toml ∧
      Json.decode? json =
        some (.obj [("mcpServers", .obj [("a\\tb", .obj [("command", .str "x")])])]) ∧
      decode? toml = some [("history", .obj [("persistence", .str "none")]),
        ("mcp_servers", .obj [("a\tb", .obj [("command", .str "x")])])] :=
  ⟨_, _, rfl, rfl, rfl, rfl⟩

end FlowLock.Mcp
