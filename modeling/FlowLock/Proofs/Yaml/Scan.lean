import FlowLock.Proofs.Yaml.Token

/-!
# Written pieces and their tokens

A piece of text is described by what the lexer makes of it wherever it stands: a value
after a mark, and the pieces of a block at a column.  What follows a piece stands at most
as far in as the piece itself, and this is all that a piece has to know of its
surroundings.  So pieces are put together as the writer puts them together.
-/

namespace FlowLock.Yaml.Lexer

open List

open Relation (ReflTransGen)

variable {n i : Nat} {entry plain : Bool} {cs cs₁ cs₂ xs : List Char} {ks ks₁ ks₂ : List TokenKind}
  {start : TokenKind}

/-- A text after a mark of a block at column `n` that is read as the given tokens. -/
structure ScansValue (n : Nat) (entry : Bool) (cs : List Char) (ks : List TokenKind) : Prop where
  blank : ∃ x xs, cs = x :: xs ∧ isBlankOrEnd x = true
  scans : ∀ {l p kinds outer m tok}, ReflTransGen Step l p →
    After p kinds n outer entry (cs ++ (replicate m ' ' ++ tok)) → m ≤ n → StartsToken tok →
    ∃ r, Reaches l r ∧ Stands r (kinds ++ ks) n outer m tok

/-- A text at column `i` that is read as the given tokens, in a block that it may open. -/
structure ScansBlock (i : Nat) (start : TokenKind) (cs : List Char) (ks : List TokenKind) :
    Prop where
  starts : StartsToken cs ∧ cs ≠ []
  scans : ∀ {l r kinds indent outer added outer' m tok}, Reaches l r →
    Stands r kinds indent outer i (cs ++ (replicate m ' ' ++ tok)) →
    Opens indent outer i start added outer' → m ≤ i → StartsToken tok →
    ∃ r', Reaches l r' ∧ Stands r' (kinds ++ added ++ ks) i outer' m tok

theorem startsToken_append {ys : List Char} (h : StartsToken cs ∧ cs ≠ []) :
    StartsToken (cs ++ ys) := by
  rw [StartsToken, head?_append_of_ne_nil _ h.2]
  exact h.1

theorem ScansValue.headD (h : ScansValue n entry cs ks) (ys : List Char) :
    isBlankOrEnd ((cs ++ ys).headD endChar) := by
  obtain ⟨x, xs, rfl, hx⟩ := h.blank
  exact hx

/-! ## Values -/

theorem scansValue_null : ScansValue n entry ['\n'] [] where
  blank := ⟨'\n', [], rfl, rfl⟩
  scans := by
    intro l p kinds outer m tok hsteps h _ htok
    rw [append_nil]
    refine Passed.reaches hsteps ⟨h.toHolds, ?_, .inl ⟨h.rest, ?_⟩⟩ htok <;>
    · rw [h.pending]
      simp

theorem scansValue_scalar (h : ReadsAs plain xs cs) :
    ScansValue n entry (' ' :: (xs ++ ['\n'])) [.scalar (String.ofList cs) plain] where
  blank := ⟨' ', _, rfl, rfl⟩
  scans := by
    intro l p kinds outer m tok hsteps hp hm htok
    rw [cons_append, append_assoc, singleton_append] at hp
    obtain ⟨q, hreach, hq⟩ := hp.reaches_within hsteps (startsToken_append h.starts)
    obtain ⟨l', hread, hmore, hshorter, hl'⟩ := hq.scalar h hm htok
    exact hl'.reaches (hreach.step hread hmore hshorter) htok

theorem scansValue_literal (hne : cs ≠ []) (hcs : ∀ x ∈ cs, x ≠ '\n' → Scalar.IsPlainChar x) :
    ScansValue n entry (' ' :: '|' :: ((Sheet.literalHints cs).toList ++
      '\n' :: Scalar.literalText (n + 2) true cs)) [.scalar (String.ofList cs) false] where
  blank := ⟨' ', _, rfl, rfl⟩
  scans := by
    intro l p kinds outer m tok hsteps hp hm htok
    simp only [cons_append, append_assoc] at hp
    obtain ⟨q, hreach, hq⟩ := hp.reaches_within hsteps (by rintro y ⟨⟩; decide)
    obtain ⟨l', hread, hmore, hshorter, hl'⟩ := hq.literal hne hcs hm htok
    exact hl'.reaches (hreach.step hread hmore hshorter) htok

theorem scansValue_empty {opening closing : Char} {close : TokenKind}
    (hbr : Brackets opening closing start close) :
    ScansValue n entry [' ', opening, closing, '\n'] [start, close] where
  blank := ⟨' ', _, rfl, rfl⟩
  scans := by
    intro l p kinds outer m tok hsteps hp _ htok
    have hstarts : StartsToken (opening :: closing :: '\n' :: (replicate m ' ' ++ tok)) := by
      rintro y ⟨⟩
      cases hbr <;> decide
    obtain ⟨q, hreach, hq⟩ := hp.reaches_within hsteps hstarts
    obtain ⟨l', hsteps', hl'⟩ := hq.empty hbr hreach
    exact hl'.reaches hsteps' htok

theorem scansValue_block (h : ScansBlock (n + 2) start cs ks) :
    ScansValue n entry (lead entry n ++ cs) (start :: (ks ++ [.blockEnd])) where
  blank := by
    cases entry
    · exact ⟨'\n', _, rfl, rfl⟩
    · exact ⟨' ', _, rfl, rfl⟩
  scans := by
    intro l p kinds outer m tok hsteps hp hm htok
    rw [append_assoc] at hp
    obtain ⟨r, hreach, hr⟩ := hp.reaches_block hsteps (startsToken_append h.starts)
    obtain ⟨r', hreach', hr'⟩ := h.scans hreach hr (.first (by omega)) (by omega) htok
    obtain ⟨r'', hreach'', hr''⟩ := hreach'.close hr' (by omega)
    refine ⟨r'', hreach'', ?_⟩
    simpa only [append_assoc, cons_append, nil_append] using hr''

/-! ## Blocks -/

theorem ScansBlock.append (h₁ : ScansBlock i start cs₁ ks₁) (h₂ : ScansBlock i start cs₂ ks₂) :
    ScansBlock i start (cs₁ ++ (replicate i ' ' ++ cs₂)) (ks₁ ++ ks₂) where
  starts := ⟨startsToken_append h₁.starts, append_ne_nil_of_left_ne_nil h₁.starts.2 _⟩
  scans := by
    intro l r kinds indent outer added outer' m tok hreach hr hopens hm htok
    simp only [append_assoc] at hr
    obtain ⟨r₁, hreach₁, hr₁⟩ := h₁.scans hreach hr hopens (Nat.le_refl i)
      (startsToken_append h₂.starts)
    obtain ⟨r₂, hreach₂, hr₂⟩ := h₂.scans hreach₁ hr₁ (.later rfl) hm htok
    refine ⟨r₂, hreach₂, ?_⟩
    simpa only [append_assoc, append_nil] using hr₂

theorem scansBlock_entry {ch : Char} {kind : TokenKind} (hmark : EntryMark ch start kind)
    (h : ScansValue i true cs ks) : ScansBlock i start (ch :: cs) (kind :: ks) where
  starts := by
    refine ⟨?_, cons_ne_nil _ _⟩
    rintro y ⟨⟩
    cases hmark <;> decide
  scans := by
    intro l r kinds indent outer added outer' m tok hreach hr hopens hm htok
    obtain ⟨p, hsteps, hp⟩ := hreach.entry hmark hr (h.headD _) hopens
    obtain ⟨r', hreach', hr'⟩ := h.scans hsteps hp hm htok
    refine ⟨r', hreach', ?_⟩
    simpa only [append_assoc, singleton_append] using hr'

theorem scansBlock_simpleKey (hkey : ReadsAs plain xs cs₁) (hlength : xs.length ≤ 1024)
    (h : ScansValue i false cs ks) :
    ScansBlock i .blockMappingStart (xs ++ ':' :: cs)
      (.key :: .scalar (String.ofList cs₁) plain :: .value :: ks) where
  starts := ⟨startsToken_append hkey.starts, append_ne_nil_of_left_ne_nil hkey.starts.2 _⟩
  scans := by
    intro l r kinds indent outer added outer' m tok hreach hr hopens hm htok
    rw [append_assoc, cons_append] at hr
    obtain ⟨p, hsteps, hp⟩ := hreach.simpleKey hkey hr (h.headD _) hlength hopens
    obtain ⟨r', hreach', hr'⟩ := h.scans hsteps hp hm htok
    refine ⟨r', hreach', ?_⟩
    simpa only [append_assoc, cons_append, nil_append] using hr'

end FlowLock.Yaml.Lexer
