import Xdchain.Qbft.Network

/-! # What an accepted PRE-PREPARE carries

From round 1 on, `handlePreprepareMsg` accepts a PRE-PREPARE from the
round's proposer once `isJustified` accepts its justification, and
`verifySignatures` has checked the signatures of the message and of its
ROUND-CHANGE payloads first (`verifySignatures_eq_ok_iff`,
`handlePreprepareMsg_eq_ok_iff`). Neither asks more: the payloads are counted
with repetition, their sequence and round are not compared with the
message's, and the piggybacked PREPAREs are neither verified nor counted by
signer. `SoundJustification` states what the justification is meant to
carry, and a reachable validator accepts a PRE-PREPARE that has none of it
(`forged_justification_accepted`). -/

namespace Xdchain.Qbft
open Xdchain.Lib Xdchain.Lib.ErrState Xdchain.Istanbul.Validator Xdchain.Qbft.Message
  Xdchain.Qbft.MessageCodec Xdchain.Qbft.RoundChanges

variable {B : Type}

namespace Core

variable (be : Backend B)

/-- **What `verifySignatures` checks**: the message's signer is a validator, and so
is the signer of every justification payload it reads, those `signedPayloads`
lists after the message's own. -/
theorem verifySignatures_eq_ok_iff (c : Core B) (m : QBFTMessage B) (source : Address) :
    c.verifySignatures be m = .ok source ↔
      c.verifySignature be (m.encodePayloadForSigning be.codec) m.signature = .ok source ∧
        ∀ ps ∈ (signedPayloads be.codec m).tail, ∃ a, c.verifySignature be ps.1 ps.2 = .ok a := by
  -- the justification loop, read off as one check per payload
  have hloop : ∀ {α : Type} (l : List α) (data sig : α → List UInt8),
      (∃ u, (forM l fun p => (c.verifySignature be (data p) (sig p)).map fun _ => ()) = .ok u) ↔
        ∀ p ∈ l, ∃ a, c.verifySignature be (data p) (sig p) = .ok a := by
    intro α l data sig
    have hunit : ∀ x : Except CoreError PUnit, (∃ u, x = .ok u) ↔ x = .ok () :=
      fun x => ⟨fun ⟨⟨⟩, h⟩ => h, fun h => ⟨(), h⟩⟩
    rw [hunit, forM_eq_ok]
    refine forall₂_congr fun p _ => ?_
    rw [map_eq_ok]
    simp
  unfold verifySignatures
  rw [bind_eq_ok]
  cases m <;> simp [signedPayloads, bind_eq_ok, hloop, pure, Except.pure]

/-- The accepting branch never fails: once the PRE-PREPARE is stored,
`Subject()` has a proposal to read. -/
theorem acceptPreprepare_eq_ok (c : Core B) (pp : Preprepare B) :
    ∃ c', (acceptPreprepare be pp).run c = .ok () c' := by
  simp [acceptPreprepare, broadcastPrepare, subject, setState, current_processBacklog]

/-- **When `handlePreprepareMsg` returns nil**: the sender is the proposer, the
justification passes `checkJustification` and the proposal verifies. -/
theorem handlePreprepareMsg_eq_ok_iff (c : Core B) (source : Address) (pp : Preprepare B) :
    (∃ c', (handlePreprepareMsg be source pp).run c = .ok () c') ↔
      c.valSet.isProposer source = true ∧ c.checkJustification be pp = true ∧
        be.verify pp.proposal = true := by
  unfold handlePreprepareMsg guardB
  by_cases hp : c.valSet.isProposer source = true
  · by_cases hj : c.checkJustification be pp = true
    · by_cases hv : be.verify pp.proposal = true
      · simp [hp, hj, hv]
        -- accepted in `StateAcceptRequest`, ignored in any other state
        split
        · simpa using acceptPreprepare_eq_ok be c pp
        · exact ⟨c, rfl⟩
      · simp [hp, hj, hv]
    · simp [hp, hj]
  · simp [hp]

/-- The distinct validators of `c` among the signers of `payloads`, each a
signed payload and its signature. -/
def distinctSigners (c : Core B) (payloads : List (List UInt8 × List UInt8)) : List Address :=
  ((payloads.filterMap fun ps => be.recover ps.1 ps.2).filter (· ∈ c.valSet.validators)).dedup

/-- The justification a PRE-PREPARE of a round above 0 is meant to carry:
ROUND-CHANGE payloads of its view from a quorum of distinct validators and,
when it carries PREPAREs, PREPAREs of its sequence, each with a validator's
signature, from a quorum of distinct validators. -/
structure SoundJustification (c : Core B) (pp : Preprepare B) : Prop where
  roundChanges_quorum : c.quorumSize be ≤ (c.distinctSigners be
    (pp.justificationRoundChanges.map fun p => (p.encodePayloadForSigning, p.signature))).length
  roundChanges_view : ∀ p ∈ pp.justificationRoundChanges,
    p.sequence = pp.sequence ∧ p.round = pp.round
  prepares_signed : ∀ p ∈ pp.justificationPrepares,
    (c.verifySignature be p.encodePayloadForSigning p.signature).isOk = true
  prepares_quorum : pp.justificationPrepares ≠ [] → c.quorumSize be ≤ (c.distinctSigners be
    (pp.justificationPrepares.map fun p => (p.encodePayloadForSigning, p.signature))).length
  prepares_sequence : ∀ p ∈ pp.justificationPrepares, p.sequence = pp.sequence

theorem soundJustification_iff (c : Core B) (pp : Preprepare B) :
    c.SoundJustification be pp ↔
      c.quorumSize be ≤ (c.distinctSigners be
        (pp.justificationRoundChanges.map fun p => (p.encodePayloadForSigning, p.signature))).length ∧
      (∀ p ∈ pp.justificationRoundChanges, p.sequence = pp.sequence ∧ p.round = pp.round) ∧
      (∀ p ∈ pp.justificationPrepares,
        (c.verifySignature be p.encodePayloadForSigning p.signature).isOk = true) ∧
      (pp.justificationPrepares ≠ [] → c.quorumSize be ≤ (c.distinctSigners be
        (pp.justificationPrepares.map fun p => (p.encodePayloadForSigning, p.signature))).length) ∧
      (∀ p ∈ pp.justificationPrepares, p.sequence = pp.sequence) := by
  constructor
  · rintro ⟨h1, h2, h3, h4, h5⟩
    exact ⟨h1, h2, h3, h4, h5⟩
  · rintro ⟨h1, h2, h3, h4, h5⟩
    exact ⟨h1, h2, h3, h4, h5⟩

instance (c : Core B) (pp : Preprepare B) : Decidable (c.SoundJustification be pp) :=
  decidable_of_iff _ (soundJustification_iff be c pp).symm

end Core

/-- A ROUND-CHANGE payload of validator 2 for sequence 7 and round 9,
prepared in round 0 for the block `[1, 20]`. -/
def foreignPayload : SignedRoundChangePayload :=
  { code := roundChangeCode, sequence := 7, round := 9, signature := [2], preparedRound := some 0,
    preparedDigest := bytesCodec.hash [1, 20] }

/-- An unsigned PREPARE of sequence 7 and round 0 for `[1, 20]`. -/
def foreignPrepare : Prepare :=
  { code := prepareCode, sequence := 7, round := 0, signature := [], digest := bytesCodec.hash [1, 20] }

/-- Validator 2's PRE-PREPARE of `[1, 20]` for sequence 1 and round 1,
justified by three copies of `foreignPayload` and of `foreignPrepare`. -/
def foreignJustified : Preprepare (List UInt8) :=
  { code := preprepareCode, sequence := 1, round := 1, signature := [2], proposal := [1, 20],
    justificationRoundChanges := List.replicate 3 foreignPayload,
    justificationPrepares := List.replicate 3 foreignPrepare }

/-- **A reachable validator accepts a forged justification.** Validator 3
times out to round 1 of sequence 1, whose proposer is validator 2; validator
2's PRE-PREPARE passes `verifySignatures` and `handlePreprepareMsg` returns
nil, although its ROUND-CHANGE payloads are three copies of one validator's,
for another view, and its PREPAREs are unsigned copies of one PREPARE of
another sequence. -/
theorem forged_justification_accepted :
    ∃ n, Node.Reachable (testBackend 3) n ∧ 0 < foreignJustified.round ∧
      n.core.verifySignatures n.backend (.preprepare foreignJustified) = .ok 2 ∧
      (∃ c', (Core.handlePreprepareMsg n.backend 2 foreignJustified).run n.core = .ok () c') ∧
      ¬ n.core.SoundJustification n.backend foreignJustified := by
  obtain ⟨n, hn, hp⟩ := Node.exists_reachable_of_any (testBackend 3)
    (p := fun n => decide (n.core.verifySignatures n.backend (.preprepare foreignJustified) = .ok 2) &&
      n.core.valSet.isProposer 2 && n.core.checkJustification n.backend foreignJustified &&
      n.backend.verify foreignJustified.proposal &&
      !decide (n.core.SoundJustification n.backend foreignJustified))
    [.event .timeout] (by decide)
  simp only [Bool.and_eq_true, decide_eq_true_eq, Bool.not_eq_true', decide_eq_false_iff_not] at hp
  obtain ⟨⟨⟨⟨hsig, hprop⟩, hjust⟩, hver⟩, hunsound⟩ := hp
  exact ⟨n, hn, by decide, hsig,
    (Core.handlePreprepareMsg_eq_ok_iff _ _ _ _).2 ⟨hprop, hjust, hver⟩, hunsound⟩

end Xdchain.Qbft
