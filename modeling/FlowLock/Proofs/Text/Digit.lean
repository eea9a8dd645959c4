import FlowLock.Text.Digit
import Mathlib.Data.Nat.Digits.Defs

/-!
# The digits of a number

A number is written by digits below its base, the most significant first.  The lemma
here gives the digits as numbers, so that a reader of them is followed by its fold.
-/

namespace FlowLock.Text

open List

/-- The number that digits write in a base, the most significant first. -/
def ofDigits (base : Nat) (ds : List Nat) : Nat := ds.foldl (fun n d => n * base + d) 0

theorem ofDigits_concat (base : Nat) (ds : List Nat) (d : Nat) :
    ofDigits base (ds ++ [d]) = ofDigits base ds * base + d := by
  rw [ofDigits, foldl_append]
  rfl

theorem ofDigits_zeros (base k : Nat) (ds : List Nat) :
    ofDigits base (replicate k 0 ++ ds) = ofDigits base ds := by
  induction k with
  | zero => rfl
  | succ k ih =>
    rw [← ih, replicate_succ, cons_append, ofDigits, foldl_cons, Nat.zero_mul]
    rfl

theorem exists_toDigits {base : Nat} (hbase : 1 < base) (n : Nat) :
    ∃ ds, Nat.toDigits base n = ds.map Nat.digitChar ∧ (∀ d ∈ ds, d < base) ∧
      ofDigits base ds = n ∧ (n = 0 ∧ ds = [0] ∨ ∃ d rest, ds = d :: rest ∧ 0 < d) := by
  induction n using Nat.strongRecOn with
  | _ n ih =>
  by_cases hn : n < base
  · refine ⟨[n], Nat.toDigits_of_lt_base hn, by simpa using hn, by simp [ofDigits], ?_⟩
    rcases Nat.eq_zero_or_pos n with rfl | hpos
    · exact .inl ⟨rfl, rfl⟩
    · exact .inr ⟨n, [], rfl, hpos⟩
  · have hquotient : 0 < n / base := Nat.div_pos (Nat.le_of_not_lt hn) (by omega)
    have hrest : n % base < base := Nat.mod_lt n (by omega)
    obtain ⟨ds, hds, hlt, hvalue, hhead⟩ := ih (n / base) (Nat.div_lt_self (by omega) hbase)
    refine ⟨ds ++ [n % base], ?_, ?_, ?_, ?_⟩
    · rw [map_append, ← hds, map_singleton, ← Nat.toDigits_of_lt_base hrest,
        Nat.toDigits_append_toDigits hbase hquotient hrest, Nat.div_add_mod]
    · simpa [or_imp, forall_and] using ⟨hlt, hrest⟩
    · rw [ofDigits_concat, hvalue, Nat.mul_comm, Nat.div_add_mod]
    · obtain ⟨hzero, -⟩ | ⟨d, rest, rfl, hd⟩ := hhead
      · omega
      · exact .inr ⟨d, rest ++ [n % base], rfl, hd⟩

theorem exists_hexPadded {width n : Nat} (hwidth : 0 < width) (hn : n < 16 ^ width) :
    ∃ ds : List Nat, (hexPadded width n).toList = ds.map Nat.digitChar ∧ (∀ d ∈ ds, d < 16) ∧
      ofDigits 16 ds = n ∧ ds.length = width := by
  obtain ⟨ds, hds, hlt, hvalue, -⟩ := @exists_toDigits 16 (by decide) n
  have hlength : ds.length ≤ width := by
    have := Nat.toDigits_length 16 n width hwidth hn
    rwa [hds, length_map] at this
  refine ⟨replicate (width - ds.length) 0 ++ ds, ?_, ?_, ?_, ?_⟩
  · rw [hexPadded, natDigits, hds, String.toList_append, String.toList_ofList, String.toList_ofList,
      String.length_ofList, length_map, map_append, map_replicate]
    rfl
  · intro d hd
    rcases mem_append.mp hd with hd | hd
    · rw [eq_of_mem_replicate hd]
      decide
    · exact hlt d hd
  · rw [ofDigits_zeros, hvalue]
  · rw [length_append, length_replicate]
    omega

end FlowLock.Text
