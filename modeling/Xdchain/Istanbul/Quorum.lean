import Xdchain.Lib.Quorum
import Xdchain.Qbft.Node

/-! # Quorum intersection in both engines

Both cores take `QuorumSize()` as `2F()+1` before `Ceil2Nby3Block` and as
`ceil(2N/3)` from it on, with `F() = ceil(N/3) - 1`. The safety of both
engines rests on every two quorums sharing more than `F()` validators.
From `Ceil2Nby3Block` on they do for every `N ≥ 1`; before it they do
exactly when `N mod 3 = 1`, so that three validators have disjoint quorums
of one (`legacy_quorums_disjoint`). -/

namespace Xdchain.Istanbul.Quorum
open Xdchain.Lib.Quorum Xdchain.Istanbul.Validator Xdchain.Qbft

/-- `QuorumSize` of the IBFT core, from `Ceil2Nby3Block`, the sequence of the
current round state (nil before the first) and the validator set. -/
def ibftQuorumSize (ceil2Nby3Block : Option Nat) (sequence : Option Nat)
    (valSet : ValidatorSet) : Nat :=
  match ceil2Nby3Block with
  | none => 2 * valSet.f + 1
  | some block =>
    if sequence.any (· < block) then 2 * valSet.f + 1 else (2 * valSet.size + 2) / 3

/-- The law the engines' safety rests on: every two sets of at least `q`
validators share more than `F()` of them. -/
def QuorumIntersection (valSet : ValidatorSet) (q : Nat) : Prop :=
  Intersecting valSet.validators.toFinset q (valSet.f + 1)

/-- Three validators. -/
def threeValidators : ValidatorSet :=
  { validators := [1, 2, 3], policy := .roundRobin, proposer := some 1 }

/-- Validator 1's backend over three validators, with no `Ceil2Nby3Block`. -/
def legacyBackend : Backend (List UInt8) :=
  { testBackend 1 with validators := threeValidators, ceil2Nby3Block := none }

/-- For distinct validators and a threshold within their number, the law is
one inequality. -/
theorem quorumIntersection_iff {valSet : ValidatorSet} (h : valSet.validators.Nodup) {q : Nat}
    (hq : q ≤ valSet.size) :
    QuorumIntersection valSet q ↔ valSet.f + 1 ≤ 2 * q - valSet.size := by
  have hcard : valSet.validators.toFinset.card = valSet.size := List.toFinset_card_of_nodup h
  unfold QuorumIntersection
  rw [intersecting_iff (hcard ▸ hq), hcard]

/-- **From `Ceil2Nby3Block` on, quorums intersect** for every `N ≥ 1`. -/
theorem quorumIntersection_ceil2Nby3 {valSet : ValidatorSet} (h : valSet.validators.Nodup)
    (hN : 0 < valSet.size) : QuorumIntersection valSet ((2 * valSet.size + 2) / 3) := by
  rw [quorumIntersection_iff h (by omega)]
  unfold ValidatorSet.f
  omega

/-- **Before `Ceil2Nby3Block`, quorums intersect exactly when `N mod 3 = 1`**,
the sizes `3F+1` for which `2F+1` is the BFT quorum. -/
theorem quorumIntersection_twoFPlusOne_iff {valSet : ValidatorSet} (h : valSet.validators.Nodup)
    (hN : 0 < valSet.size) :
    QuorumIntersection valSet (2 * valSet.f + 1) ↔ valSet.size % 3 = 1 := by
  have hle : 2 * valSet.f + 1 ≤ valSet.size := by
    unfold ValidatorSet.f
    omega
  rw [quorumIntersection_iff h hle]
  unfold ValidatorSet.f
  omega

/-- **The law for the QBFT core**: its quorums intersect exactly when it
has reached `Ceil2Nby3Block` or `N mod 3 = 1`. -/
theorem core_quorumIntersection_iff {B : Type} (be : Backend B) (c : Core B)
    (h : c.valSet.validators.Nodup) (hN : 0 < c.valSet.size) :
    QuorumIntersection c.valSet (c.quorumSize be) ↔
      be.ceil2Nby3Block.any (· ≤ c.current.sequence) ∨ c.valSet.size % 3 = 1 := by
  unfold Core.quorumSize
  cases hb : be.ceil2Nby3Block with
  | none => simp [quorumIntersection_twoFPlusOne_iff h hN]
  | some block =>
    by_cases hs : c.current.sequence < block
    · simp [hs, quorumIntersection_twoFPlusOne_iff h hN]
    · simp only [hs, if_false, Option.any_some, decide_eq_true_eq]
      exact iff_of_true (quorumIntersection_ceil2Nby3 h hN) (.inl (by omega))

theorem core_quorumIntersection_iff_at_three :
    (QuorumIntersection (Core.start legacyBackend).valSet ((Core.start legacyBackend).quorumSize legacyBackend) ↔
      legacyBackend.ceil2Nby3Block.any (· ≤ (Core.start legacyBackend).current.sequence) ∨
        (Core.start legacyBackend).valSet.size % 3 = 1) :=
  core_quorumIntersection_iff legacyBackend (Core.start legacyBackend) (by decide) (by decide)

/-- **The law for the IBFT core**: its quorums intersect exactly when its
current sequence (any, before the first round state) has reached
`Ceil2Nby3Block`, or `N mod 3 = 1`. -/
theorem ibftQuorumSize_quorumIntersection_iff (ceil2Nby3Block sequence : Option Nat)
    {valSet : ValidatorSet} (h : valSet.validators.Nodup) (hN : 0 < valSet.size) :
    QuorumIntersection valSet (ibftQuorumSize ceil2Nby3Block sequence valSet) ↔
      ceil2Nby3Block.any (fun block => sequence.all (block ≤ ·)) ∨ valSet.size % 3 = 1 := by
  unfold ibftQuorumSize
  cases ceil2Nby3Block with
  | none => simp [quorumIntersection_twoFPlusOne_iff h hN]
  | some block =>
    by_cases hs : sequence.any (· < block) = true
    · have hnot : sequence.all (block ≤ ·) = false := by
        cases sequence <;> simp_all
      simp [hs, hnot, quorumIntersection_twoFPlusOne_iff h hN]
    · have hall : sequence.all (block ≤ ·) = true := by
        cases sequence <;> simp_all
      simp only [hs, Bool.false_eq_true, if_false, Option.any_some, hall, true_or, iff_true]
      exact quorumIntersection_ceil2Nby3 h hN

theorem ibftQuorumSize_quorumIntersection_iff_at_three :
    (QuorumIntersection threeValidators (ibftQuorumSize (some 10) (some 12) threeValidators) ↔
      (some 10).any (fun block => (some 12).all (block ≤ ·)) ∨ threeValidators.size % 3 = 1) :=
  ibftQuorumSize_quorumIntersection_iff (some 10) (some 12) (by decide) (by decide)

/-- **Before `Ceil2Nby3Block`, three validators have disjoint quorums**:
`F()` is 0, so `QuorumSize()` is 1 in both cores, and validators 1 and 2
are each a quorum. -/
theorem legacy_quorums_disjoint :
    ¬ QuorumIntersection (Core.start legacyBackend).valSet
        ((Core.start legacyBackend).quorumSize legacyBackend) ∧
      ¬ QuorumIntersection threeValidators (ibftQuorumSize none (some 1) threeValidators) := by
  have hval : (Core.start legacyBackend).valSet = threeValidators := by decide
  have hq : (Core.start legacyBackend).quorumSize legacyBackend = 1 := by decide
  have hibft : ibftQuorumSize none (some 1) threeValidators = 1 := by decide
  -- validators 1 and 2 alone
  have hdisjoint : ¬ QuorumIntersection threeValidators 1 := by
    intro h
    have := h {1} (by decide) {2} (by decide) (by decide) (by decide)
    revert this
    decide
  rw [hval, hq, hibft]
  exact ⟨hdisjoint, hdisjoint⟩

end Xdchain.Istanbul.Quorum
