import Mathlib.Data.Set.Card

/-! # Counters that pay for a set

A counter `r` covers a finite set `S` at weight `C` when `C * |S| ≤ r`: every
element is paid for by what the counter holds. Changing one point's
membership keeps the cover when the counter moves at least by the weight of
the change, and an element of a covered set is always affordable. -/

namespace Xdchain.Lib.Potential

variable {α : Type}

/-- `r` pays `C` for each element of the finite set `S`. -/
def Covers (C : ℕ) (S : Set α) (r : ℕ) : Prop := S.Finite ∧ C * S.ncard ≤ r

open Classical in
theorem ncard_eq_sdiff_add {S : Set α} (hS : S.Finite) (p : α) :
    S.ncard = (S \ {p}).ncard + if p ∈ S then 1 else 0 := by
  split
  · rename_i hp
    exact (Set.ncard_sdiff_singleton_add_one hp hS).symm
  · rename_i hp
    rw [Set.sdiff_singleton_eq_self hp, Nat.add_zero]

open Classical in
/-- Sets that agree off `p` differ in size by `p`'s membership alone. -/
theorem ncard_add_of_agree {S S' : Set α} {p : α} (hS : S.Finite) (hagree : ∀ x, x ≠ p → (x ∈ S' ↔ x ∈ S)) :
    S'.Finite ∧ S'.ncard + (if p ∈ S then 1 else 0) = S.ncard + (if p ∈ S' then 1 else 0) := by
  have hS' : S'.Finite := (hS.union (Set.finite_singleton p)).subset fun x hx => by
    by_cases hxp : x = p
    · exact Or.inr hxp
    · exact Or.inl ((hagree x hxp).1 hx)
  have hsdiff : S' \ {p} = S \ {p} := by
    ext x
    simp only [Set.mem_sdiff, Set.mem_singleton_iff]
    exact ⟨fun ⟨h, hx⟩ => ⟨(hagree x hx).1 h, hx⟩, fun ⟨h, hx⟩ => ⟨(hagree x hx).2 h, hx⟩⟩
  refine ⟨hS', ?_⟩
  rw [ncard_eq_sdiff_add hS' p, ncard_eq_sdiff_add hS p, hsdiff]
  omega

open Classical in
/-- **One point changes, the counter follows.** When `p` joins, the counter
rises by `C`; when it leaves, the counter may fall by `C`; otherwise it does
not fall. -/
theorem Covers.update {C r r' : ℕ} {S S' : Set α} {p : α} (hc : Covers C S r)
    (hagree : ∀ x, x ≠ p → (x ∈ S' ↔ x ∈ S))
    (hr : r + (if p ∈ S' then C else 0) ≤ r' + (if p ∈ S then C else 0)) : Covers C S' r' := by
  obtain ⟨hS', hcard⟩ := ncard_add_of_agree hc.1 hagree
  refine ⟨hS', ?_⟩
  -- the sizes, weighted
  have hweight : ∀ (q : Prop) [Decidable q], C * (if q then 1 else 0) = if q then C else 0 := by
    intro q _
    split <;> simp
  have hmul : C * S'.ncard + (if p ∈ S then C else 0) = C * S.ncard + (if p ∈ S' then C else 0) := by
    rw [← hweight, ← hweight, ← Nat.mul_add, ← Nat.mul_add, hcard]
  have hold := hc.2
  omega

theorem Covers.mono {C r r' : ℕ} {S : Set α} (hc : Covers C S r) (hr : r ≤ r') : Covers C S r' :=
  ⟨hc.1, Nat.le_trans hc.2 hr⟩

end Xdchain.Lib.Potential
