import FlowLock.Proofs.Mcp.Servers

/-!
# Which secrets the configuration of the servers tells

Two workflows are *alike* when they differ in nothing but the values that read a secret
in the environments and headers of the servers they declare.  The configuration tells
no secret when alike workflows have the same one.

The environment of a server never tells a secret: a value with an expression is replaced
by the reference to a variable.  The headers of a server that is reached by a URL are
written as they are, and they are the only way by which a secret gets into the text.
-/

namespace FlowLock

open List

/-! ## Texts that read secrets -/

namespace Secret

open Text Template

def Reads (text : String) : Prop := Within (opening ++ " secrets.") text

instance (text : String) : Decidable (Reads text) := decidable_of_iff _ includes_iff

variable {text : String}

theorem hasExpression_of_reads (h : Reads text) : hasExpression text :=
  includes_iff.mpr (((Within.refl opening).append_right _).trans h)

theorem reads_of_quote_within {s : String} (hs : Reads s) (h : Within (Json.quote s) text) :
    Reads text := by
  have hplain : (opening ++ " secrets.").toList.all
      (fun c => decide (Json.IsPlain c)) := by decide
  have hkept := fun c hc => of_decide_eq_true (all_eq_true.mp hplain c hc)
  exact (Json.within_quote hkept hs).trans h

theorem variableChar_ne_blank (c : Char) : variableChar c ≠ ' ' := by
  rw [variableChar]
  split
  case isTrue h =>
    rintro rfl
    revert h
    decide
  case isFalse => decide

theorem blank_not_mem_carrier (server key : String) : ' ' ∉ (carrier server key).toList := by
  rw [carrier, String.toList_ofList, mem_map]
  rintro ⟨c, -, hc⟩
  exact variableChar_ne_blank c hc

/-- The reference to a variable reads no secret, for want of a blank. -/
theorem not_reads_reference {name : String} (hname : ' ' ∉ name.toList) :
    ¬ Reads (reference name) := by
  intro h
  have hneedle : ' ' ∈ (opening ++ " secrets.").toList := by decide
  have hblank : ' ' ∈ (reference name).toList := h.subset hneedle
  rw [reference, String.toList_append, String.toList_append, mem_append, mem_append] at hblank
  have hopening : ' ' ∉ "$\x7b".toList := by decide
  have hclosing : ' ' ∉ "\x7d".toList := by decide
  exact hblank.elim (fun h => h.elim hopening hname) hclosing

/-! ## Values that differ in secrets only -/

/-- Two values that are the same, or that both read a secret. -/
def Alike (v v' : String) : Prop := v = v' ∨ Reads v ∧ Reads v'

/-- Values that read no secret are the same in tables that are alike. -/
theorem eq_of_not_reads {t t' : Table String} (h : Table.Related Alike t t')
    (hnone : ∀ e ∈ t, ¬ Reads e.2) : t' = t := by
  induction h with
  | nil => rfl
  | @cons e e' t t' he _ ih =>
    rw [forall_mem_cons] at hnone
    obtain ⟨hkey, hvalue⟩ := he
    have hsame : e'.2 = e.2 := by
      rcases hvalue with hvalue | ⟨hreads, -⟩
      · exact hvalue.symm
      · exact absurd hreads hnone.1
    rw [ih hnone.2, Prod.ext hkey.symm hsame]

/-- What is made of keys and values is the same for tables that are alike, when all
values that read a secret are treated in one way. -/
theorem map_eq_of_alike {α : Type} {t t' : Table String} (h : Table.Related Alike t t')
    {f : String × String → α}
    (hf : ∀ key v v', Reads v → Reads v' → f (key, v) = f (key, v')) : t.map f = t'.map f := by
  induction h with
  | nil => rfl
  | @cons e e' t t' he _ ih =>
    obtain ⟨key, v⟩ := e
    obtain ⟨key', v'⟩ := e'
    obtain ⟨rfl, hvalue⟩ := he
    have hstep : f (key, v) = f (key, v') := by
      rcases hvalue with rfl | ⟨hv, hv'⟩
      · rfl
      · exact hf key v v' hv hv'
    rw [map_cons, map_cons, hstep, ih]

/-- A value with more characters, if it reads a secret. -/
def lengthen (n : Nat) (v : String) : String :=
  if Reads v then v ++ String.ofList (replicate n 'a') else v

theorem alike_lengthen (n : Nat) (v : String) : Alike v (lengthen n v) := by
  rw [lengthen]
  split
  case isTrue h => exact .inr ⟨h, h.append_right _⟩
  case isFalse => exact .inl rfl

/-- A text that has a lengthened value in it is at least as long as what was added. -/
theorem le_length_of_lengthen {n : Nat} {v : String} (hv : Reads v)
    (h : Within (Json.quote (lengthen n v)) text) : n ≤ text.length := by
  have hadded : Within (String.ofList (replicate n 'a')) (lengthen n v) := by
    rw [lengthen, if_pos hv]
    exact (Within.refl _).append_left v
  have hplain : ∀ c ∈ (String.ofList (replicate n 'a')).toList, Json.IsPlain c := by
    intro c hc
    rw [String.toList_ofList] at hc
    rw [eq_of_mem_replicate hc]
    decide
  have hlength := ((Json.within_quote hplain hadded).trans h).length_le
  rwa [String.length_ofList, length_replicate] at hlength

/-! ## Which entries are kept from the agent -/

/-- A text in which a secret is named, with any blanks after the opening mark. -/
def Names (text : String) : Prop :=
  ∃ blanks c, (∀ b ∈ blanks, isBlank b) ∧ isNameStart c ∧
    opening.toList ++ (blanks ++ ("secrets.".toList ++ [c])) <:+: text.toList

theorem isSome_nameAt?_iff (cs : List Char) : (nameAt? cs).isSome ↔
    ∃ blanks c, (∀ b ∈ blanks, isBlank b) ∧ isNameStart c ∧
      opening.toList ++ (blanks ++ ("secrets.".toList ++ [c])) <+: cs := by
  constructor
  · intro h
    unfold nameAt? at h
    split at h
    · cases h
    next hopening =>
      obtain ⟨inner, rfl⟩ : opening.toList <+: cs := by simpa using hopening
      rw [← String.length_toList, drop_left] at h
      dsimp only at h
      split at h
      · cases h
      next hsecrets =>
        obtain ⟨rest, hrest⟩ : "secrets.".toList <+: inner.dropWhile isBlank := by
          simpa using hsecrets
        rw [← hrest, ← String.length_toList, drop_left] at h
        cases rest with
        | nil => cases h
        | cons c rest =>
          have hstart : isNameStart c := by
            by_contra hother
            simp [hother] at h
          refine ⟨inner.takeWhile isBlank, c, all_eq_true.mp all_takeWhile, hstart, rest, ?_⟩
          conv_rhs => rw [← takeWhile_append_dropWhile (p := isBlank) (l := inner), ← hrest]
          simp
  · rintro ⟨blanks, c, hblanks, hstart, rest, rfl⟩
    have hletter : isBlank 's' = false := by decide
    have hsecrets : "secrets.".toList = 's' :: "ecrets.".toList := by decide
    have hinner : ∀ rest, (blanks ++ ("secrets.".toList ++ rest)).dropWhile isBlank =
        "secrets.".toList ++ rest := fun rest =>
      dropWhile_append_of_head hblanks (by simp [hsecrets, hletter])
    rw [nameAt?, append_assoc, append_assoc, append_assoc]
    rw [if_neg (by simp), ← String.length_toList, drop_left, hinner]
    dsimp only
    rw [if_neg (by simp), ← String.length_toList, drop_left, singleton_append]
    simp [hstart]

theorem isSome_name?_iff : (name? text).isSome ↔ Names text := by
  unfold name? Names
  induction text.toList with
  | nil => simp [nameIn?]
  | cons c cs ih =>
    simp only [infix_cons_iff, and_or_left, exists_or, ← isSome_nameAt?_iff, ← ih]
    rw [nameIn?]
    cases nameAt? (c :: cs) <;> simp

/-- Whether a secret is named in the value of an entry, and neither it nor the entry is allowed. -/
def isForeign (allowed : List String) (e : String × String) : Bool :=
  (name? e.2).any fun secret => !allowed.contains secret && !allowed.contains e.1

/-- **An entry is dropped when its secret is not allowed and the usual spelling occurs in it**; all
others are kept as they are and in order.  So the foreign entries are gone just when all of them
have the usual spelling, which is one of many: any blanks may stand before the name. -/
theorem filter_drops_usual_spelling (environment : Table String) (allowed : List String) :
    (∀ text, (name? text).isSome ↔ Names text) ∧
    filter environment allowed =
      environment.filter (fun e => !(isForeign allowed e && decide (Reads e.2))) ∧
    (filter environment allowed = environment.filter (fun e => !isForeign allowed e) ↔
      ∀ e ∈ environment, isForeign allowed e = true → Reads e.2) := by
  have hfilter : filter environment allowed =
      environment.filter (fun e => !(isForeign allowed e && decide (Reads e.2))) := by
    refine filter_congr fun e _ => ?_
    have hreads : decide (Reads e.2) = includes e.2 (opening ++ " secrets.") :=
      Bool.eq_iff_iff.mpr (decide_eq_true_iff.trans includes_iff.symm)
    rw [hreads, isAllowed, isForeign]
    cases includes e.2 (opening ++ " secrets.") <;> cases name? e.2 <;> simp
  refine ⟨fun _ => isSome_name?_iff, hfilter, fun h e he hforeign => ?_, fun h => ?_⟩
  · by_contra hother
    have hkept : e ∈ filter environment allowed := by simp [hfilter, he, hother]
    simp [h, hforeign] at hkept
  · rw [hfilter]
    refine filter_congr fun e he => ?_
    cases hforeign : isForeign allowed e <;> simp [h e he, hforeign]

/-- A secret without a blank in front of it gets through. -/
theorem unspaced_secret_kept :
    name? "$\x7b\x7bsecrets.PRIVATE\x7d\x7d" = some "PRIVATE" ∧
      filter [("K", "$\x7b\x7bsecrets.PRIVATE\x7d\x7d")] [] =
        [("K", "$\x7b\x7bsecrets.PRIVATE\x7d\x7d")] := by
  decide

end Secret

/-! ## Workflows that differ in secrets only -/

/-- Two servers that differ in environments and headers only, in values that read
secrets. -/
def ToolServer.Alike (s s' : ToolServer) : Prop :=
  ∃ environment headers, Table.Related Secret.Alike s.environment environment ∧
    Table.Related Secret.Alike s.headers headers ∧ s' = { s with environment, headers }

/-- Two workflows that differ in the servers they declare only, and there in values that
read secrets.  The section that the servers were read from may differ as well. -/
def Workflow.Alike (w w' : Workflow) : Prop :=
  ∃ servers declared, Table.Related ToolServer.Alike w.tools.servers servers ∧
    w' = { w with tools := { w.tools with servers, declared } }

namespace Mcp

open Text

def ShowsHeader (w : Workflow) (typed fetches : Bool) : Prop :=
  ∃ name server, Writes w typed fetches name server ∧ server.transport = .http ∧
    ∃ e ∈ server.headers, Secret.Reads e.2

variable {w w' : Workflow} {typed fetches : Bool} {name : String} {server server' : ToolServer}
  {e : String × String}

/-! ### Environments tell nothing -/

theorem serverEnvironment_eq_of_alike {environment headers : Table String}
    (h : Table.Related Secret.Alike server.environment environment) :
    serverEnvironment { server with environment, headers } = serverEnvironment server := by
  refine (Secret.map_eq_of_alike h ?_).symm
  intro key v v' hv hv'
  rw [Secret.hasExpression_of_reads hv, Secret.hasExpression_of_reads hv']
  rfl

/-- Alike servers are written in the same way, unless a header is shown. -/
theorem declared_eq_of_alike (h : server.Alike server')
    (hheaders : server.transport = .http → ∀ e ∈ server.headers, ¬ Secret.Reads e.2) :
    declared typed server' = declared typed server := by
  obtain ⟨environment, headers, henvironment, halike, rfl⟩ := h
  have hreach : reach { server with environment, headers } = reach server := by
    obtain htransport | htransport := transport_cases server
    · rw [reach_of_stdio { server with environment, headers } htransport,
        reach_of_stdio server htransport, serverEnvironment_eq_of_alike henvironment]
    · rw [reach_of_http { server with environment, headers } htransport,
        reach_of_http server htransport, Secret.eq_of_not_reads halike (hheaders htransport)]
  unfold declared
  rw [hreach]

theorem servers_eq_of_alike (h : w.Alike w') (hheaders : ¬ ShowsHeader w typed fetches) :
    servers w' typed fetches = servers w typed fetches := by
  obtain ⟨all, section', halike, rfl⟩ := h
  refine Table.addNew_congr _ _ halike.keys_eq.symm ?_
  intro name server' server hnew hserver' hserver
  refine declared_eq_of_alike (halike.of_get? hserver hserver') ?_
  intro htransport e he hreads
  exact hheaders ⟨name, server, ⟨hnew, hserver⟩, htransport, e, he, hreads⟩

/-! ### References in the place of secrets -/

theorem mem_serverEnvironment_of_reads (he : e ∈ server.environment) (h : Secret.Reads e.2) :
    (e.1, Secret.reference (Secret.carrier server.name e.1)) ∈ serverEnvironment server := by
  refine mem_map.mpr ⟨e, he, ?_⟩
  rw [if_pos (Secret.hasExpression_of_reads h)]

theorem not_reads_of_mem_serverEnvironment (he : e ∈ serverEnvironment server) :
    ¬ Secret.Reads e.2 := by
  obtain ⟨d, -, rfl⟩ := mem_map.mp he
  dsimp only
  split
  case isTrue => exact Secret.not_reads_reference (Secret.blank_not_mem_carrier _ _)
  case isFalse h => exact fun hreads => h (Secret.hasExpression_of_reads hreads)

/-! ### Headers are told -/

/-- A server with longer headers, where they read secrets. -/
def lengthenHeaders (n : Nat) (server : ToolServer) : ToolServer :=
  { server with headers := server.headers.map fun e => (e.1, Secret.lengthen n e.2) }

def lengthened (n : Nat) (w : Workflow) : Workflow :=
  { w with tools := { w.tools with
      servers := w.tools.servers.map fun e => (e.1, lengthenHeaders n e.2) } }

theorem alike_lengthened (n : Nat) (w : Workflow) : w.Alike (lengthened n w) := by
  refine ⟨_, w.tools.declared, Table.related_map ?_ w.tools.servers, rfl⟩
  intro server
  refine ⟨server.environment, _, ?_, Table.related_map (Secret.alike_lengthen n) _, rfl⟩
  exact forall₂_same.mpr fun e _ => ⟨rfl, .inl rfl⟩

theorem Writes.lengthened (n : Nat) (h : Writes w typed fetches name server) :
    Writes (lengthened n w) typed fetches name (lengthenHeaders n server) := by
  refine ⟨h.1, ?_⟩
  exact (Table.get?_map (lengthenHeaders n) w.tools.servers name).trans (by rw [h.2]; rfl)

theorem le_length_of_showsHeader {toml : Bool} {text : String}
    (h : ShowsHeader w typed fetches) (n : Nat)
    (htext : configText (lengthened n w) toml typed fetches = .ok text) : n ≤ text.length := by
  obtain ⟨name, server, hwrites, htransport, e, he, hreads⟩ := h
  have hlonger : (e.1, Secret.lengthen n e.2) ∈ (lengthenHeaders n server).headers :=
    mem_map_of_mem he
  have hhttp : (lengthenHeaders n server).transport = .http := htransport
  have hholds : (declared typed (lengthenHeaders n server)).Holds (Secret.lengthen n e.2) :=
    holds_declared typed (mem_reach_headers hhttp hlonger) (Table.mem_sorted.mpr hlonger)
  exact Secret.le_length_of_lengthen hreads ((hwrites.lengthened n).within_text htext hholds)

/-- **When the configuration tells no secret.**  Alike workflows have the same text
exactly when no header that reads a secret is written.  Headers of a server that is
reached by a URL stand in the text as they are, so that a secret that one of them reads
can be read there.  A server that is started gets a reference to a variable for each
value of its environment that reads a secret, and its written environment reads none. -/
theorem alike_same_text_iff {w : Workflow} {toml typed fetches : Bool} {text : String}
    (h : configText w toml typed fetches = .ok text) :
    ((∀ w', w.Alike w' → configText w' toml typed fetches = .ok text) ↔
      ¬ ShowsHeader w typed fetches) ∧
    (∀ name server, Writes w typed fetches name server → server.transport = .http →
      ∀ e ∈ server.headers, Within (Json.quote e.2) text ∧
        (Secret.Reads e.2 → Secret.Reads text)) ∧
    ∀ name server, Writes w typed fetches name server → server.transport = .stdio →
      ∀ e ∈ server.environment, Secret.Reads e.2 →
        ∃ settings environment, (servers w typed fetches).get? name = some (.obj settings) ∧
          ("env", Step.texts environment) ∈ settings ∧
          (e.1, Secret.reference (Secret.carrier server.name e.1)) ∈ environment ∧
          ∀ d ∈ environment, ¬ Secret.Reads d.2 := by
  refine ⟨⟨?_, ?_⟩, ?_, ?_⟩
  · -- A text of fixed length cannot hold headers of every length.
    intro hsame hshows
    have hlong := le_length_of_showsHeader hshows (text.length + 1)
      (hsame _ (alike_lengthened (text.length + 1) w))
    omega
  · intro hheaders w' halike
    rw [configText, servers_eq_of_alike halike hheaders]
    exact h
  · intro name server hwrites htransport e he
    have hwithin := hwrites.within_text h
      (holds_declared typed (mem_reach_headers htransport he) (Table.mem_sorted.mpr he))
    exact ⟨hwithin, fun hreads => Secret.reads_of_quote_within hreads hwithin⟩
  · intro name server hwrites htransport e he hreads
    have hmem := Table.mem_sorted.mpr (mem_serverEnvironment_of_reads he hreads)
    obtain ⟨settings, hsettings, hsubset⟩ := exists_declared typed server
    refine ⟨settings, Table.sorted (serverEnvironment server), ?_,
      hsubset (mem_reach_environment htransport hmem), hmem, ?_⟩
    · rw [hwrites.get?_servers, hsettings]
    · intro d hd
      exact not_reads_of_mem_serverEnvironment (Table.mem_sorted.mp hd)

def declaring (servers : Table ToolServer) : Workflow :=
  { name := "sample", source := Path.ofText "sample.md", body := "", on := [], engine := {}
    tools := { github := none, servers }, network := {}, permissions := .empty
    checkouts := [], safeOutputs := none, imports := {} }

def startedSample : Workflow :=
  declaring
    [("files", { name := "files", command := "serve"
                 environment := [("token", "$\x7b\x7b secrets.TOKEN \x7d\x7d")] }),
     ("search", { name := "search", transport := .http, url := "https://mcp.example.com"
                  headers := [("Accept", "text/plain")] })]

theorem not_showsHeader_startedSample : ¬ ShowsHeader startedSample false false := by
  rintro ⟨name, server, ⟨-, hserver⟩, htransport, e, he, hreads⟩
  have hmem := Table.mem_of_get? hserver
  simp only [startedSample, declaring, mem_cons, Prod.mk.injEq, not_mem_nil, or_false] at hmem
  obtain ⟨-, rfl⟩ | ⟨-, rfl⟩ := hmem
  · cases htransport
  · obtain rfl := mem_singleton.mp he
    revert hreads
    decide

/-- The text of the sample tells no secret, and its started server has a reference. -/
theorem alike_same_text_started :
    ∃ text, configText startedSample true false false = .ok text ∧
      (∀ w', startedSample.Alike w' → configText w' true false false = .ok text) ∧
      ∃ settings environment,
        (servers startedSample false false).get? "files" = some (.obj settings) ∧
        ("env", Step.texts environment) ∈ settings ∧
        ("token", "$\x7bMCP_FILES_TOKEN\x7d") ∈ environment ∧
        ∀ d ∈ environment, ¬ Secret.Reads d.2 := by
  obtain ⟨text, htext⟩ : ∃ text, configText startedSample true false false = .ok text := by decide
  obtain ⟨hsame, -, hstarted⟩ := alike_same_text_iff htext
  have hcarrier : "$\x7bMCP_FILES_TOKEN\x7d" =
      Secret.reference (Secret.carrier "files" "token") := by decide
  refine ⟨text, htext, hsame.mpr not_showsHeader_startedSample, ?_⟩
  rw [hcarrier]
  exact hstarted "files" _ ⟨by decide, rfl⟩ rfl _ mem_cons_self (by decide)

def reachedSample (value : String) : Workflow :=
  declaring
    [("search", { name := "search", transport := .http, url := "https://mcp.example.com"
                  headers := [("Authorization", value)] })]

theorem alike_reachedSample {v v' : String} (h : Secret.Alike v v') :
    (reachedSample v).Alike (reachedSample v') :=
  ⟨(reachedSample v').tools.servers, [],
    .cons ⟨rfl, [], [("Authorization", v')], .nil, .cons ⟨rfl, h⟩ .nil, rfl⟩ .nil, rfl⟩

/-- The configuration tells which secret a header reads. -/
theorem header_tells_secret :
    (reachedSample "$\x7b\x7b secrets.A \x7d\x7d").Alike
      (reachedSample "$\x7b\x7b secrets.B \x7d\x7d") ∧
    Outcome.okAnd (configText (reachedSample "$\x7b\x7b secrets.A \x7d\x7d") true false false)
      (fun text => includes text "$\x7b\x7b secrets.A \x7d\x7d") = true ∧
    configText (reachedSample "$\x7b\x7b secrets.A \x7d\x7d") true false false ≠
      configText (reachedSample "$\x7b\x7b secrets.B \x7d\x7d") true false false := by
  refine ⟨alike_reachedSample (.inr ⟨?_, ?_⟩), ?_, ?_⟩
  · decide
  · decide
  · decide +kernel
  · decide +kernel

end Mcp

end FlowLock
