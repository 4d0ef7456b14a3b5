import Mathlib.Data.Finset.Card

/-! # Intersections of quorums

Two subsets of a finite set of size `n`, of sizes `a` and `b`, meet in at
least `a + b - n` elements, and nothing more can be asked of a threshold:
some two subsets of size `q` meet in exactly `2q - n`. So every two quorums
of threshold `q` share `k` members exactly when `k ≤ 2q - n`. -/

namespace Xdchain.Lib.Quorum

variable {α : Type} [DecidableEq α]

/-- Every two subsets of `U` of at least `q` elements share at least `k`. -/
def Intersecting (U : Finset α) (q k : ℕ) : Prop :=
  ∀ A ⊆ U, ∀ B ⊆ U, q ≤ A.card → q ≤ B.card → k ≤ (A ∩ B).card

theorem card_add_card_le_card_add_card_inter {U A B : Finset α} (hA : A ⊆ U) (hB : B ⊆ U) :
    A.card + B.card ≤ U.card + (A ∩ B).card := by
  have hunion : (A ∪ B).card ≤ U.card := Finset.card_le_card (Finset.union_subset hA hB)
  have hsum := Finset.card_union_add_card_inter A B
  omega

/-- Two subsets of `U` of size `q` that meet in no more than they must. -/
theorem exists_subsets_card_inter {U : Finset α} {q : ℕ} (hq : q ≤ U.card) :
    ∃ A ⊆ U, ∃ B ⊆ U, A.card = q ∧ B.card = q ∧ (A ∩ B).card = 2 * q - U.card := by
  obtain ⟨A, hAU, hA⟩ := Finset.le_card_iff_exists_subset_card.1 hq
  have hrest : (U \ A).card = U.card - q := by
    rw [Finset.card_sdiff, Finset.inter_eq_left.2 hAU, hA]
  by_cases h2 : U.card ≤ 2 * q
  · -- `B` is all of `U` outside `A`, and `2q - n` elements of `A`
    obtain ⟨C, hCA, hC⟩ :=
      Finset.le_card_iff_exists_subset_card.1 (show 2 * q - U.card ≤ A.card by omega)
    have hdisj : Disjoint (U \ A) C :=
      Finset.disjoint_of_subset_right hCA Finset.sdiff_disjoint
    have hinter : A ∩ ((U \ A) ∪ C) = C := by
      rw [Finset.inter_union_distrib_left, Finset.inter_sdiff_self, Finset.empty_union,
        Finset.inter_eq_right.2 hCA]
    refine ⟨A, hAU, (U \ A) ∪ C, Finset.union_subset Finset.sdiff_subset (hCA.trans hAU), hA,
      ?_, by rw [hinter, hC]⟩
    rw [Finset.card_union_of_disjoint hdisj, hrest, hC]
    omega
  · -- `B` fits in `U` outside `A`
    obtain ⟨B, hBU, hB⟩ :=
      Finset.le_card_iff_exists_subset_card.1 (show q ≤ (U \ A).card by omega)
    have hinter : A ∩ B = ∅ :=
      Finset.disjoint_iff_inter_eq_empty.1
        (Finset.disjoint_of_subset_right hBU Finset.disjoint_sdiff)
    refine ⟨A, hAU, B, hBU.trans Finset.sdiff_subset, hA, hB, ?_⟩
    rw [hinter, Finset.card_empty]
    omega

/-- **The threshold law**: quorums of threshold `q ≤ n` within `U` always
share `k` members exactly when `k ≤ 2q - n`. -/
theorem intersecting_iff {U : Finset α} {q k : ℕ} (hq : q ≤ U.card) :
    Intersecting U q k ↔ k ≤ 2 * q - U.card := by
  constructor
  · intro h
    obtain ⟨A, hAU, B, hBU, hA, hB, hAB⟩ := exists_subsets_card_inter hq
    rw [← hAB]
    exact h A hAU B hBU hA.ge hB.ge
  · intro hk A hAU B hBU hA hB
    have := card_add_card_le_card_add_card_inter hAU hBU
    omega

end Xdchain.Lib.Quorum
