import FlowLock.Error
import Mathlib.Data.List.Forall2

/-!
# Taking outcomes apart

A parser or a builder is a chain of steps, each of which may refuse.  It succeeds when
every step does; these lemmas turn a success of the chain into the successes of its
steps, so that no proof has to unfold the chain.
-/

namespace FlowLock

open List

theorem map_eq_of_forall₂ {α β γ : Type} {R : α → β → Prop} {f : α → γ} {g : β → γ} {xs : List α}
    {ys : List β} (hR : ∀ x y, R x y → g y = f x) (h : Forall₂ R xs ys) : ys.map g = xs.map f := by
  induction h with
  | nil => rfl
  | cons hxy _ ih => rw [map_cons, map_cons, hR _ _ hxy, ih]

namespace Outcome

variable {α β : Type} {f : α → Outcome β} {xs : List α} {ys : List β} {x : Outcome α}

theorem bind_eq_error {e : Error} :
    (x >>= f) = .error e ↔ x = .error e ∨ ∃ a, x = .ok a ∧ f a = .error e := by
  cases x with
  | error e' => simp
  | ok a => simp

theorem mapM_eq_ok : xs.mapM f = .ok ys ↔ Forall₂ (fun x y => f x = .ok y) xs ys := by
  induction xs generalizing ys with
  | nil => simp [pure, Except.pure, eq_comm]
  | cons x xs ih => simp [bind_eq_ok, forall₂_cons_left_iff, ← ih, pure, Except.pure, @eq_comm _ ys]

theorem map_of_mapM {γ : Type} {g : β → γ} {k : α → γ} (hstep : ∀ {x y}, f x = .ok y → g y = k x)
    (h : xs.mapM f = .ok ys) : ys.map g = xs.map k :=
  map_eq_of_forall₂ (fun _ _ => hstep) (mapM_eq_ok.mp h)

theorem exists_mem_of_mapM {x : α} (h : xs.mapM f = .ok ys) (hx : x ∈ xs) :
    ∃ y ∈ ys, f x = .ok y := by
  induction mapM_eq_ok.mp h with
  | nil => cases hx
  | @cons x' y' xs ys hstep hrest ih =>
    rcases mem_cons.mp hx with rfl | hx
    · exact ⟨y', mem_cons_self, hstep⟩
    · obtain ⟨y, hy, hf⟩ := ih (mapM_eq_ok.mpr hrest) hx
      exact ⟨y, mem_cons_of_mem _ hy, hf⟩

theorem exists_mapM_ok : (∃ ys, xs.mapM f = .ok ys) ↔ ∀ x ∈ xs, ∃ y, f x = .ok y := by
  induction xs with
  | nil => simp [pure, Except.pure]
  | cons x xs ih =>
    rw [forall_mem_cons, ← ih]
    constructor
    · rintro ⟨ys, h⟩
      obtain ⟨y, ys', hy, hys', -⟩ := forall₂_cons_left_iff.mp (mapM_eq_ok.mp h)
      exact ⟨⟨y, hy⟩, ys', mapM_eq_ok.mpr hys'⟩
    · rintro ⟨⟨y, hy⟩, ys, hys⟩
      exact ⟨y :: ys, mapM_eq_ok.mpr (.cons hy (mapM_eq_ok.mp hys))⟩

/-- Whether an outcome is a success that passes a test; what closed examples evaluate. -/
def okAnd (x : Outcome α) (test : α → Bool) : Bool :=
  match x with
  | .ok a => test a
  | .error _ => false

instance {ε : Type} {P : α → Prop} [DecidablePred P] (x : Except ε α) :
    Decidable (∃ a, x = .ok a ∧ P a) :=
  match x with
  | .ok a => decidable_of_iff (P a) (by simp)
  | .error _ => .isFalse (by simp)

instance {ε : Type} (x : Except ε α) : Decidable (∃ a, x = .ok a) :=
  decidable_of_iff (∃ a, x = .ok a ∧ True) (by simp)

instance {ε : Type} [DecidableEq ε] (x : Except ε α) (e : ε) : Decidable (x = .error e) :=
  match x with
  | .ok _ => .isFalse (by simp)
  | .error e' => decidable_of_iff (e' = e) (by simp)

theorem isOk_iff : x.isOk ↔ ∃ a, x = .ok a := by
  cases x with
  | error e => simp [Except.isOk, Except.toBool]
  | ok a => simp [Except.isOk, Except.toBool]

theorem exists_bind {f : α → Outcome β} (hx : ∃ a, x = .ok a) (hf : ∀ a, ∃ b, f a = .ok b) :
    ∃ b, (x >>= f) = .ok b := by
  obtain ⟨a, ha⟩ := hx
  obtain ⟨b, hb⟩ := hf a
  exact ⟨b, bind_eq_ok.mpr ⟨a, ha, hb⟩⟩

/-- How a computation ends: with a value that has a property, or with such an error. -/
def Ends (P : α → Prop) (Q : Error → Prop) : Outcome α → Prop
  | .ok a => P a
  | .error e => Q e

/-! ## What outcomes give -/

/-- What an outcome gives, where it is a success, has a property. -/
def Gives {α : Type} (P : α → Prop) (x : Outcome α) : Prop := ∀ a, x = .ok a → P a

namespace Gives

variable {α β : Type} {P : α → Prop} {Q : β → Prop} {f : α → Outcome β}

theorem ok {a : α} (h : P a) : Gives P (.ok a) := by
  rintro a' ⟨⟩
  exact h

theorem bind {x : Outcome α} (h : Gives P x) (hf : ∀ a, P a → Gives Q (f a)) :
    Gives Q (x >>= f) := by
  intro b hb
  obtain ⟨a, ha, hb⟩ := bind_eq_ok.mp hb
  exact hf a (h a ha) b hb

theorem bind_any (x : Outcome α) (h : ∀ a, Gives Q (f a)) : Gives Q (x >>= f) := by
  have hany : Gives (fun _ => True) x := fun _ _ => trivial
  exact hany.bind fun a _ => h a

theorem mapM {xs : List α} (h : ∀ a ∈ xs, Gives Q (f a)) :
    Gives (fun ys => ∀ y ∈ ys, Q y) (xs.mapM f) := by
  induction xs with
  | nil => exact .ok fun y hy => nomatch hy
  | cons x xs ih =>
    obtain ⟨hx, hxs⟩ := forall_mem_cons.mp h
    rw [mapM_cons]
    exact hx.bind fun y hy => (ih hxs).bind fun ys hys =>
      .ok (forall_mem_cons.mpr ⟨hy, hys⟩)

end Gives

/-! ## Outcomes side by side -/

/-- Where one outcome is a success, so is the other, and the two are related. -/
def Lifts {α β : Type} (R : α → β → Prop) (x : Outcome α) (y : Outcome β) : Prop :=
  ∀ a, x = .ok a → ∃ b, y = .ok b ∧ R a b

namespace Lifts

variable {α β γ δ : Type} {R : α → β → Prop} {S : γ → δ → Prop} {x : Outcome α} {y : Outcome β}
  {f : α → Outcome γ} {g : α → Outcome δ}

theorem ok {a : α} {b : β} (h : R a b) : Lifts R (.ok a) (.ok b) := by
  rintro a' ⟨⟩
  exact ⟨b, rfl, h⟩

theorem error {e : Error} : Lifts R (.error e) y := by
  rintro a ⟨⟩

theorem refl (x : Outcome α) : Lifts Eq x x := fun a h => ⟨a, h, rfl⟩

theorem same {R : α → α → Prop} (h : ∀ a, x = .ok a → R a a) : Lifts R x x :=
  fun a ha => ⟨a, ha, h a ha⟩

theorem bind {g : β → Outcome δ} (h : Lifts R x y) (hf : ∀ a b, R a b → Lifts S (f a) (g b)) :
    Lifts S (x >>= f) (y >>= g) := by
  intro c hc
  obtain ⟨a, ha, hc⟩ := bind_eq_ok.mp hc
  obtain ⟨b, hb, hab⟩ := h a ha
  obtain ⟨d, hd, hcd⟩ := hf a b hab c hc
  exact ⟨d, bind_eq_ok.mpr ⟨b, hb, hd⟩, hcd⟩

theorem bind_same (x : Outcome α) (h : ∀ a, Lifts S (f a) (g a)) : Lifts S (x >>= f) (x >>= g) := by
  refine (refl x).bind ?_
  rintro a _ rfl
  exact h a

theorem mapM (h : ∀ a, Lifts S (f a) (g a)) (xs : List α) :
    Lifts (Forall₂ S) (xs.mapM f) (xs.mapM g) := by
  induction xs with
  | nil => exact .ok .nil
  | cons x xs ih =>
    rw [mapM_cons, mapM_cons]
    exact (h x).bind fun c d hcd => ih.bind fun cs ds hcds => .ok (.cons hcd hcds)

end Lifts

/-! ## Outcomes that agree -/

/-- Both outcomes are successes, and related, or neither is one. -/
inductive Matches {α β : Type} (R : α → β → Prop) : Outcome α → Outcome β → Prop
  | ok {a : α} {b : β} (h : R a b) : Matches R (.ok a) (.ok b)
  | error (e e' : Error) : Matches R (.error e) (.error e')

namespace Matches

variable {α β γ δ : Type} {R : α → β → Prop} {S : γ → δ → Prop} {x : Outcome α} {y : Outcome β}
  {f : α → Outcome γ}

theorem refl (x : Outcome α) : Matches Eq x x := by
  cases x with
  | ok a => exact .ok rfl
  | error e => exact .error e e

theorem bind {g : β → Outcome δ} (h : Matches R x y)
    (hf : ∀ a b, x = .ok a → y = .ok b → R a b → Matches S (f a) (g b)) :
    Matches S (x >>= f) (y >>= g) := by
  cases h with
  | ok h => exact hf _ _ rfl rfl h
  | error e e' => exact .error e e'

theorem bind_same {g : α → Outcome δ} (x : Outcome α) (h : ∀ a, x = .ok a → Matches S (f a) (g a)) :
    Matches S (x >>= f) (x >>= g) := by
  refine (refl x).bind ?_
  rintro a _ ha - rfl
  exact h a ha

theorem lifts (h : Matches R x y) : Lifts R x y := by
  rintro a rfl
  cases h with
  | ok h => exact ⟨_, rfl, h⟩

end Matches

end Outcome

/-! ## Steps with a state -/

namespace Steps

variable {σ ε α β : Type} {s s' : σ} {a : α} {x : StateT σ (Except ε) α} {f : α → β}

theorem bind_ok {f : α → StateT σ (Except ε) β} (h : x s = .ok (a, s')) : (x >>= f) s = f a s' := by
  change (x s >>= fun p => f p.1 p.2) = _
  rw [h]
  rfl

theorem map_ok (h : x s = .ok (a, s')) : (f <$> x) s = .ok (f a, s') := by
  change (x s >>= fun p => pure (f p.1, p.2)) = _
  rw [h]
  rfl

theorem bind_error {e : ε} {f : α → StateT σ (Except ε) β} (h : x s = .error e) :
    (x >>= f) s = .error e := by
  change (x s >>= fun p => f p.1 p.2) = _
  rw [h]
  rfl

theorem map_error {e : ε} (h : x s = .error e) : (f <$> x) s = .error e := by
  change (x s >>= fun p => pure (f p.1, p.2)) = _
  rw [h]
  rfl

end Steps

end FlowLock
