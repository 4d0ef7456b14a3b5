import Xdchain.Lib.KeyMap
import Xdchain.Istanbul.Validator
import Xdchain.Qbft.Message

/-! # Message sets, the round-change set and justifications

`qbftMsgSet` keeps one message per sender; `roundChangeSet` keeps, for each
round, the ROUND-CHANGE messages received for it, and the highest prepared
round and block that a quorum of PREPAREs backs. `isJustified` decides
whether a PRE-PREPARE's proposal is justified by the ROUND-CHANGE payloads
and PREPAREs it carries (`justification.go`).

Unlike a message set, `isJustified` counts the entries of the lists it is
given: it does not ask that they come from distinct senders
(`isJustified_replicate`).

The set's law `Backed` says that a round's highest prepared round comes with
a quorum of PREPAREs of that round for its block. `Add` checks the PREPAREs
against the message's own prepared round but stores the prepared round it is
passed, so the law holds over runs whose calls pass the message's round, as
`handleRoundChange` does (`Call.Sound`), and fails for another round. -/

namespace Xdchain.Qbft.RoundChanges
open Xdchain.Lib Xdchain.Istanbul.Validator Xdchain.Qbft.Message

variable {B : Type}

/-- `qbftMsgSet`: messages keyed by their source, one per sender. -/
abbrev MsgSet (M : Type) := KeyMap Address M

/-- `qbftMsgSet.Add`: `ms.messages[msg.Source()] = msg`. -/
def MsgSet.add {M : Type} (ms : MsgSet M) (source : Address) (msg : M) : MsgSet M :=
  ms.insert source msg

/-- `roundChangeSet`; the maps are keyed by round. A prepared block is kept
as Go keeps the interface value, nil included. -/
structure RoundChangeSet (B : Type) where
  roundChanges : KeyMap Nat (MsgSet (RoundChange B))
  prepareMessages : KeyMap Nat (List Prepare)
  highestPreparedRound : KeyMap Nat Nat
  highestPreparedBlock : KeyMap Nat (Option B)
deriving DecidableEq

def newRoundChangeSet : RoundChangeSet B :=
  { roundChanges := .empty, prepareMessages := .empty, highestPreparedRound := .empty,
    highestPreparedBlock := .empty }

/-! ## Justification -/

def hasMatchingRoundChangeAndPrepares (roundChange : RoundChange B)
    (prepareMessages : List Prepare) (quorumSize : Nat) : Except String Unit :=
  if prepareMessages.length < quorumSize then
    .error "number of prepare messages is less than quorum of messages"
  else go prepareMessages
where
  go : List Prepare → Except String Unit
    | [] => .ok ()
    | spp :: rest =>
      if spp.digest ≠ roundChange.preparedDigest then
        .error "prepared message digest does not match roundchange prepared digest"
      else if some spp.round ≠ roundChange.preparedRound then
        .error "round number in prepared message does not match prepared round in roundchange"
      else go rest

/-- A payload that `hasQuorumOfRoundChangeMessagesForNil` counts: prepared
round nil or 0, and an empty digest. -/
def preparedNil (m : SignedRoundChangePayload) : Bool :=
  (m.preparedRound == none || m.preparedRound == some 0) && emptyHash m.preparedDigest

/-- `hasQuorumOfRoundChangeMessagesForNil`: the loop, with the count so far. -/
def hasQuorumOfRoundChangeMessagesForNil (roundChangeMessages : List SignedRoundChangePayload)
    (quorumSize : Nat) : Except String Unit :=
  go roundChangeMessages 0
where
  go : List SignedRoundChangePayload → Nat → Except String Unit
    | [], _ => .error "quorum of roundchange messages with nil prepared round not found"
    | m :: rest, nilCount =>
      if preparedNil m then
        if nilCount + 1 = quorumSize then .ok () else go rest (nilCount + 1)
      else go rest nilCount

/-- `hasQuorumOfRoundChangeMessagesForPreparedRoundAndBlock`: the loop, with
the count of payloads prepared at most at `preparedRound` and whether one of
them matches the round and the block. -/
def hasQuorumOfRoundChangeMessagesForPreparedRoundAndBlock (c : BlockCodec B)
    (roundChangeMessages : List SignedRoundChangePayload) (preparedRound : Nat)
    (preparedBlock : B) (quorumSize : Nat) : Except String Unit :=
  go roundChangeMessages 0 false
where
  go : List SignedRoundChangePayload → Nat → Bool → Except String Unit
    | [], _, _ => .error "quorum of roundchange messages with prepared round and proposal not found"
    | m :: rest, lowerOrEqualRoundCount, hasMatchingMessage =>
      if m.preparedRound.all (· ≤ preparedRound) then
        let count := lowerOrEqualRoundCount + 1
        let matching := hasMatchingMessage ||
          (m.preparedRound == some preparedRound && m.preparedDigest == c.hash preparedBlock)
        if quorumSize ≤ count && matching then .ok () else go rest count matching
      else go rest lowerOrEqualRoundCount hasMatchingMessage

/-- The check that the PREPAREs share one round and `proposal`'s digest: the
round of the first, or `none` for no PREPAREs. -/
def preparedRoundOf (c : BlockCodec B) (proposal : B) :
    List Prepare → Except String (Option Nat)
  | [] => .ok none
  | first :: rest =>
    if (first :: rest).all fun spp => spp.round == first.round && c.hash proposal == spp.digest then
      .ok (some first.round)
    else .error "prepared messages do not have same round or do not match proposal"

def isJustified (c : BlockCodec B) (proposal : B)
    (roundChangeMessages : List SignedRoundChangePayload) (prepareMessages : List Prepare)
    (quorumSize : Nat) : Except String Unit :=
  if roundChangeMessages.length < quorumSize then
    .error "number of roundchange messages is less than required quorum of messages"
  else if prepareMessages.length ≠ 0 ∧ prepareMessages.length < quorumSize then
    .error "number of prepared messages is less than required quorum of messages"
  else
    match preparedRoundOf c proposal prepareMessages with
    | .error e => .error e
    | .ok none => hasQuorumOfRoundChangeMessagesForNil roundChangeMessages quorumSize
    | .ok (some preparedRound) =>
      hasQuorumOfRoundChangeMessagesForPreparedRoundAndBlock c roundChangeMessages preparedRound
        proposal quorumSize

/-- The loop of `hasQuorumOfRoundChangeMessagesForNil` succeeds exactly when
the payloads it has yet to see hold enough nil ones to reach the quorum. -/
theorem hasQuorumOfRoundChangeMessagesForNil_go_eq_ok_iff {quorumSize : Nat} :
    ∀ (ms : List SignedRoundChangePayload) (nilCount : Nat), nilCount < quorumSize →
      (hasQuorumOfRoundChangeMessagesForNil.go quorumSize ms nilCount = .ok () ↔
        quorumSize ≤ nilCount + (ms.filter preparedNil).length)
  | [], nilCount, hlt => by
    simp only [hasQuorumOfRoundChangeMessagesForNil.go, List.filter_nil, List.length_nil,
      Nat.add_zero, reduceCtorEq, false_iff, Nat.not_le]
    exact hlt
  | m :: rest, nilCount, hlt => by
    unfold hasQuorumOfRoundChangeMessagesForNil.go
    by_cases hm : preparedNil m = true
    · rw [if_pos hm, List.filter_cons_of_pos hm, List.length_cons]
      by_cases hq : nilCount + 1 = quorumSize
      · rw [if_pos hq]
        simp only [true_iff]
        omega
      · rw [if_neg hq, hasQuorumOfRoundChangeMessagesForNil_go_eq_ok_iff rest (nilCount + 1)
          (by omega)]
        omega
    · rw [if_neg hm, List.filter_cons_of_neg hm]
      exact hasQuorumOfRoundChangeMessagesForNil_go_eq_ok_iff rest nilCount hlt

/-- **What `hasQuorumOfRoundChangeMessagesForNil` checks**: at least a quorum
of the entries are nil payloads. -/
theorem hasQuorumOfRoundChangeMessagesForNil_eq_ok_iff (ms : List SignedRoundChangePayload)
    {quorumSize : Nat} (hq : 0 < quorumSize) :
    hasQuorumOfRoundChangeMessagesForNil ms quorumSize = .ok () ↔
      quorumSize ≤ (ms.filter preparedNil).length := by
  unfold hasQuorumOfRoundChangeMessagesForNil
  rw [hasQuorumOfRoundChangeMessagesForNil_go_eq_ok_iff ms 0 hq, Nat.zero_add]

/-- A payload the loop of `hasQuorumOfRoundChangeMessagesForPreparedRoundAndBlock`
counts: prepared round nil or at most `r`. -/
def preparedAtMost (r : Nat) (m : SignedRoundChangePayload) : Bool := m.preparedRound.all (· ≤ r)

/-- A payload prepared in round `r` for the block of digest `d`. -/
def PreparedAt (r : Nat) (d : Hash) (m : SignedRoundChangePayload) : Prop :=
  m.preparedRound = some r ∧ m.preparedDigest = d

instance (r : Nat) (d : Hash) (m : SignedRoundChangePayload) : Decidable (PreparedAt r d m) :=
  inferInstanceAs (Decidable (_ ∧ _))

theorem preparedAtMost_of_preparedAt {r : Nat} {d : Hash} {m : SignedRoundChangePayload}
    (h : PreparedAt r d m) : preparedAtMost r m = true := by
  simp [preparedAtMost, h.1]

/-- The loop succeeds exactly when the payloads still to come bring the count
to the quorum and one matching payload has been or will be seen. The
hypothesis says the loop has not succeeded already. -/
theorem hasQuorumOfRoundChangeMessagesForPreparedRoundAndBlock_go_eq_ok_iff (c : BlockCodec B)
    {preparedRound quorumSize : Nat} {preparedBlock : B} :
    ∀ (ms : List SignedRoundChangePayload) (count : Nat) (matching : Bool),
      ¬ (quorumSize ≤ count ∧ matching = true) →
      (hasQuorumOfRoundChangeMessagesForPreparedRoundAndBlock.go c preparedRound preparedBlock
          quorumSize ms count matching = .ok () ↔
        quorumSize ≤ count + (ms.filter (preparedAtMost preparedRound)).length ∧
          (matching = true ∨ ∃ m ∈ ms, PreparedAt preparedRound (c.hash preparedBlock) m))
  | [], count, matching, hnot => by
    simp only [hasQuorumOfRoundChangeMessagesForPreparedRoundAndBlock.go, List.filter_nil,
      List.length_nil, Nat.add_zero, List.not_mem_nil, false_and, exists_false, or_false,
      reduceCtorEq, false_iff]
    exact hnot
  | m :: rest, count, matching, hnot => by
    unfold hasQuorumOfRoundChangeMessagesForPreparedRoundAndBlock.go
    dsimp only
    have hmatch : (m.preparedRound == some preparedRound && m.preparedDigest == c.hash preparedBlock) =
        true ↔ PreparedAt preparedRound (c.hash preparedBlock) m := by
      simp [PreparedAt]
    by_cases hm : m.preparedRound.all (· ≤ preparedRound) = true
    · rw [if_pos hm, List.filter_cons_of_pos (p := preparedAtMost preparedRound) hm,
        List.length_cons]
      by_cases hdone : quorumSize ≤ count + 1 ∧ (matching ||
          (m.preparedRound == some preparedRound && m.preparedDigest == c.hash preparedBlock)) = true
      · rw [if_pos (by simpa using hdone)]
        simp only [true_iff]
        refine ⟨by omega, ?_⟩
        rcases Bool.or_eq_true_iff.1 hdone.2 with h | h
        · exact .inl h
        · exact .inr ⟨m, List.mem_cons_self, hmatch.1 h⟩
      · rw [if_neg (by simpa using hdone),
          hasQuorumOfRoundChangeMessagesForPreparedRoundAndBlock_go_eq_ok_iff c rest _ _ hdone]
        simp only [Bool.or_eq_true, hmatch, List.mem_cons, exists_eq_or_imp]
        constructor
        · rintro ⟨hq, hor⟩
          exact ⟨by omega, by tauto⟩
        · rintro ⟨hq, hor⟩
          exact ⟨by omega, by tauto⟩
    · have hnm : ¬ PreparedAt preparedRound (c.hash preparedBlock) m :=
        fun h => hm (preparedAtMost_of_preparedAt h)
      rw [if_neg hm, List.filter_cons_of_neg (p := preparedAtMost preparedRound) hm,
        hasQuorumOfRoundChangeMessagesForPreparedRoundAndBlock_go_eq_ok_iff c rest _ _ hnot]
      simp only [List.mem_cons, exists_eq_or_imp, hnm, false_or]

/-- The PREPAREs give no prepared round exactly when there are none. -/
theorem preparedRoundOf_eq_ok_none (c : BlockCodec B) (proposal : B) (ps : List Prepare) :
    preparedRoundOf c proposal ps = .ok none ↔ ps = [] := by
  cases ps with
  | nil => simp [preparedRoundOf]
  | cons first rest =>
    rw [preparedRoundOf]
    split <;> simp

/-- The PREPAREs give round `r` exactly when they are all of round `r` and
for the proposal. -/
theorem preparedRoundOf_eq_ok_some (c : BlockCodec B) (proposal : B) (ps : List Prepare) (r : Nat) :
    preparedRoundOf c proposal ps = .ok (some r) ↔
      ps ≠ [] ∧ ∀ p ∈ ps, p.round = r ∧ p.digest = c.hash proposal := by
  cases ps with
  | nil => simp [preparedRoundOf]
  | cons first rest =>
    rw [preparedRoundOf]
    have hall : ((first :: rest).all fun spp =>
        spp.round == first.round && c.hash proposal == spp.digest) = true ↔
        ∀ p ∈ first :: rest, p.round = first.round ∧ p.digest = c.hash proposal := by
      simp only [List.all_eq_true, Bool.and_eq_true, beq_iff_eq]
      exact forall₂_congr fun p _ => and_congr_right fun _ => eq_comm
    split
    · next h =>
      have hfirst := hall.1 h
      simp only [Except.ok.injEq, Option.some.injEq, ne_eq, reduceCtorEq, not_false_eq_true,
        true_and]
      constructor
      · rintro rfl
        exact hfirst
      · intro hr
        exact (hr first List.mem_cons_self).1
    · next h =>
      simp only [reduceCtorEq, ne_eq, not_false_eq_true, true_and, false_iff]
      intro hr
      have hround : r = first.round := (hr first List.mem_cons_self).1.symm
      exact h (hall.2 fun p hp => ⟨(hr p hp).1.trans hround, (hr p hp).2⟩)

/-- **What `isJustified` accepts**, for a quorum of at least one: a quorum of
ROUND-CHANGE payloads, and either no PREPARE and a quorum of nil payloads,
or a quorum of PREPAREs of one round `r` for the proposal with a quorum of
payloads prepared at most at `r`, one of them at `r` for the proposal. -/
theorem isJustified_eq_ok_iff (c : BlockCodec B) (proposal : B)
    (rcs : List SignedRoundChangePayload) (ps : List Prepare) {quorumSize : Nat}
    (hq : 0 < quorumSize) :
    isJustified c proposal rcs ps quorumSize = .ok () ↔
      quorumSize ≤ rcs.length ∧
        ((ps = [] ∧ quorumSize ≤ (rcs.filter preparedNil).length) ∨
          (quorumSize ≤ ps.length ∧ ∃ r, (∀ p ∈ ps, p.round = r ∧ p.digest = c.hash proposal) ∧
            quorumSize ≤ (rcs.filter (preparedAtMost r)).length ∧
            ∃ m ∈ rcs, m.preparedRound = some r ∧ m.preparedDigest = c.hash proposal)) := by
  unfold isJustified
  by_cases hrc : rcs.length < quorumSize
  · rw [if_pos hrc]
    simp only [reduceCtorEq, false_iff, not_and]
    intro h
    omega
  rw [if_neg hrc]
  by_cases hps : ps.length ≠ 0 ∧ ps.length < quorumSize
  · rw [if_pos hps]
    simp only [reduceCtorEq, false_iff, not_and, not_or]
    intro _
    refine ⟨fun hnil _ => hps.1 (by simp [hnil]), fun hle => ?_⟩
    omega
  rw [if_neg hps]
  -- the PREPAREs decide which of the two counts is asked for
  cases hpr : preparedRoundOf c proposal ps with
  | error e =>
    simp only [reduceCtorEq, false_iff, not_and, not_or]
    intro _
    refine ⟨fun hnil _ => ?_, fun hle ⟨r, hr, _⟩ => ?_⟩
    · rw [(preparedRoundOf_eq_ok_none c proposal ps).2 hnil] at hpr
      cases hpr
    · have hne : ps ≠ [] := by
        rintro rfl
        simp only [List.length_nil] at hle
        omega
      rw [(preparedRoundOf_eq_ok_some c proposal ps r).2 ⟨hne, hr⟩] at hpr
      cases hpr
  | ok o =>
    cases o with
    | none =>
      have hnil := (preparedRoundOf_eq_ok_none c proposal ps).1 hpr
      subst hnil
      dsimp only
      rw [hasQuorumOfRoundChangeMessagesForNil_eq_ok_iff rcs hq]
      simp only [List.length_nil, true_and, Nat.le_zero, Nat.ne_of_gt hq, false_and, or_false]
      exact ⟨fun h => ⟨by omega, h⟩, fun h => h.2⟩
    | some r =>
      obtain ⟨hne, hr⟩ := (preparedRoundOf_eq_ok_some c proposal ps r).1 hpr
      have hlen : quorumSize ≤ ps.length := by
        have : ps.length ≠ 0 := by simpa using hne
        omega
      dsimp only
      unfold hasQuorumOfRoundChangeMessagesForPreparedRoundAndBlock
      rw [hasQuorumOfRoundChangeMessagesForPreparedRoundAndBlock_go_eq_ok_iff c rcs 0 false
        (by simp)]
      simp only [Nat.zero_add, Bool.false_eq_true, false_or, PreparedAt]
      constructor
      · rintro ⟨hcount, hm⟩
        exact ⟨by omega, .inr ⟨hlen, r, hr, hcount, hm⟩⟩
      · rintro ⟨-, ⟨rfl, -⟩ | ⟨-, r', hr', hcount, hm⟩⟩
        · exact absurd rfl hne
        · obtain ⟨p, hp⟩ := List.exists_mem_of_ne_nil ps hne
          have hrr : r' = r := (hr' p hp).1.symm.trans (hr p hp).1
          subst hrr
          exact ⟨hcount, hm⟩

/-- A ROUND-CHANGE payload of round 1 with nothing prepared. -/
def nilPayload : SignedRoundChangePayload :=
  { code := roundChangeCode, sequence := 1, round := 1, signature := [], preparedRound := none,
    preparedDigest := zeroHash }

/-- The codec of a chain of one block, `()`, whose hash is zero. -/
def unitCodec : BlockCodec Unit := ⟨fun _ => .list [], pure (), fun _ => zeroHash⟩

theorem isJustified_eq_ok_iff_at_nilPayload :
    0 < 1 ∧ (isJustified unitCodec () [nilPayload] [] 1 = .ok () ↔
      1 ≤ [nilPayload].length ∧
        ((([] : List Prepare) = [] ∧ 1 ≤ ([nilPayload].filter preparedNil).length) ∨
          (1 ≤ ([] : List Prepare).length ∧ ∃ r, (∀ p ∈ ([] : List Prepare), p.round = r ∧
            p.digest = unitCodec.hash ()) ∧ 1 ≤ ([nilPayload].filter (preparedAtMost r)).length ∧
            ∃ m ∈ [nilPayload], m.preparedRound = some r ∧ m.preparedDigest = unitCodec.hash ()))) :=
  ⟨by decide, isJustified_eq_ok_iff _ _ _ _ (by decide)⟩

/-- **A quorum of copies of one nil payload justifies any proposal**: the
entries are counted, not their signers. -/
theorem isJustified_replicate (c : BlockCodec B) (proposal : B) (p : SignedRoundChangePayload)
    (hp : preparedNil p = true) {quorumSize : Nat} (hq : 0 < quorumSize) :
    isJustified c proposal (List.replicate quorumSize p) [] quorumSize = .ok () := by
  have hnil : hasQuorumOfRoundChangeMessagesForNil (List.replicate quorumSize p) quorumSize =
      .ok () := by
    rw [hasQuorumOfRoundChangeMessagesForNil_eq_ok_iff _ hq, List.filter_replicate, if_pos hp,
      List.length_replicate]
  unfold isJustified
  rw [if_neg (by simp), if_neg (by simp)]
  exact hnil

/-- The loop of `hasMatchingRoundChangeAndPrepares` passes exactly when every
PREPARE is of the message's prepared digest and prepared round. -/
theorem hasMatchingRoundChangeAndPrepares_go_eq_ok_iff (roundChange : RoundChange B) :
    ∀ ps : List Prepare, hasMatchingRoundChangeAndPrepares.go roundChange ps = .ok () ↔
      ∀ p ∈ ps, p.digest = roundChange.preparedDigest ∧ some p.round = roundChange.preparedRound
  | [] => by simp [hasMatchingRoundChangeAndPrepares.go]
  | p :: rest => by
    unfold hasMatchingRoundChangeAndPrepares.go
    rw [List.forall_mem_cons, ← hasMatchingRoundChangeAndPrepares_go_eq_ok_iff roundChange rest]
    by_cases hd : p.digest = roundChange.preparedDigest
    · by_cases hr : some p.round = roundChange.preparedRound <;> simp [hd, hr]
    · simp [hd]

/-- **What `hasMatchingRoundChangeAndPrepares` checks**: a quorum of PREPAREs,
each of the message's prepared digest and round. -/
theorem hasMatchingRoundChangeAndPrepares_eq_ok_iff (roundChange : RoundChange B)
    (ps : List Prepare) (quorumSize : Nat) :
    hasMatchingRoundChangeAndPrepares roundChange ps quorumSize = .ok () ↔
      quorumSize ≤ ps.length ∧
        ∀ p ∈ ps, p.digest = roundChange.preparedDigest ∧ some p.round = roundChange.preparedRound := by
  unfold hasMatchingRoundChangeAndPrepares
  by_cases hlt : ps.length < quorumSize
  · rw [if_pos hlt]
    simp only [reduceCtorEq, false_iff, not_and]
    intro h
    omega
  · rw [if_neg hlt, hasMatchingRoundChangeAndPrepares_go_eq_ok_iff]
    exact ⟨fun h => ⟨by omega, h⟩, fun h => h.2⟩

/-! ## The round-change set -/

namespace RoundChangeSet

/-- `NewRound`: an empty message set and PREPARE list for a round that has none. -/
def newRound (rcs : RoundChangeSet B) (round : Nat) : RoundChangeSet B :=
  { rcs with
    roundChanges :=
      if rcs.roundChanges.find? round = none then rcs.roundChanges.insert round .empty
      else rcs.roundChanges
    prepareMessages :=
      if rcs.prepareMessages.find? round = none then rcs.prepareMessages.insert round []
      else rcs.prepareMessages }

/-- The prepared part of `Add`: a higher prepared round than the round's
highest, backed by a quorum of PREPAREs, becomes the round's highest. -/
def updateHighest (rcs : RoundChangeSet B) (round : Nat) (msg : RoundChange B)
    (preparedRound : Option Nat) (preparedBlock : Option B) (prepareMessages : List Prepare)
    (quorumSize : Nat) : RoundChangeSet B :=
  match preparedRound with
  | none => rcs
  | some pr =>
    if (rcs.highestPreparedRound.find? round).all (· < pr) then
      match hasMatchingRoundChangeAndPrepares msg prepareMessages quorumSize with
      | .ok () =>
        { rcs with
          highestPreparedRound := rcs.highestPreparedRound.insert round pr
          highestPreparedBlock := rcs.highestPreparedBlock.insert round preparedBlock
          prepareMessages := rcs.prepareMessages.insert round prepareMessages }
      | .error _ => rcs
    else rcs

/-- `Add`: the message goes into its round's set, under its source. -/
def add (rcs : RoundChangeSet B) (round : Nat) (source : Address) (msg : RoundChange B)
    (preparedRound : Option Nat) (preparedBlock : Option B) (prepareMessages : List Prepare)
    (quorumSize : Nat) : RoundChangeSet B :=
  let set := (rcs.roundChanges.find? round).getD .empty
  let rcs := { rcs with roundChanges := rcs.roundChanges.insert round (set.add source msg) }
  rcs.updateHighest round msg preparedRound preparedBlock prepareMessages quorumSize

/-- `higherRoundMessages`: the number of validators that sent a ROUND-CHANGE
for a round above `round`. -/
def higherRoundMessages (rcs : RoundChangeSet B) (round : Nat) : Nat :=
  let addresses := rcs.roundChanges.entries.foldl
    (fun (addresses : KeyMap Address Unit) e =>
      if e.1 > round then e.2.keys.foldl (fun a addr => a.insert addr ()) addresses
      else addresses)
    .empty
  addresses.size

def getRCMessagesForGivenRound (rcs : RoundChangeSet B) (round : Nat) : Nat :=
  match rcs.roundChanges.find? round with
  | some rms => rms.size
  | none => 0

/-- `getMinRoundChange`: the least round above `round` with a set, else `round`. -/
def getMinRoundChange (rcs : RoundChangeSet B) (round : Nat) : Nat :=
  ((rcs.roundChanges.keys.filter (· > round)).min?).getD round

/-- `ClearLowerThan`: the rounds below `round`, and those with no message,
are deleted from all four maps. -/
def clearLowerThan (rcs : RoundChangeSet B) (round : Nat) : RoundChangeSet B :=
  let doomed := (rcs.roundChanges.entries.filter fun e =>
    e.2.values.length == 0 || e.1 < round).map Prod.fst
  let keep := fun (k : Nat) => !doomed.contains k
  { roundChanges := rcs.roundChanges.filter fun k _ => keep k
    highestPreparedRound := rcs.highestPreparedRound.filter fun k _ => keep k
    highestPreparedBlock := rcs.highestPreparedBlock.filter fun k _ => keep k
    prepareMessages := rcs.prepareMessages.filter fun k _ => keep k }

/-- `highestPrepared` of the core: the round's highest prepared round and block. -/
def highestPrepared (rcs : RoundChangeSet B) (round : Nat) : Option Nat × Option B :=
  (rcs.highestPreparedRound.find? round, (rcs.highestPreparedBlock.find? round).join)


/-! ## The law of the prepared entries -/

/-- The calls of a round-change set: `Add` with all its arguments, `NewRound`
and `ClearLowerThan`. -/
inductive Call (B : Type) where
  | add (round : Nat) (source : Address) (msg : RoundChange B) (preparedRound : Option Nat)
      (preparedBlock : Option B) (prepareMessages : List Prepare) (quorumSize : Nat)
  | newRound (round : Nat)
  | clearLowerThan (round : Nat)

def apply (rcs : RoundChangeSet B) : Call B → RoundChangeSet B
  | .add round source msg preparedRound preparedBlock prepareMessages quorumSize =>
    rcs.add round source msg preparedRound preparedBlock prepareMessages quorumSize
  | .newRound round => rcs.newRound round
  | .clearLowerThan round => rcs.clearLowerThan round

/-- The set after a sequence of calls. -/
def run (rcs : RoundChangeSet B) (calls : List (Call B)) : RoundChangeSet B :=
  calls.foldl apply rcs

/-- The arguments `handleRoundChange` gives `Add`, at a quorum of at least
`q`: no prepared round, or the message's own prepared round with a block of
the message's prepared digest (`RoundChange.DecodeRLP` checks that hash). -/
def Call.Sound (c : BlockCodec B) (q : Nat) : Call B → Prop
  | .add _ _ msg preparedRound preparedBlock _ quorumSize =>
    q ≤ quorumSize ∧ (preparedRound = none ∨ (preparedRound = msg.preparedRound ∧
      ∃ b, preparedBlock = some b ∧ c.hash b = msg.preparedDigest))
  | .newRound _ => True
  | .clearLowerThan _ => True

/-- The rounds of `m` have a message set in `rcs`. -/
def KeysIn {V : Type} (m : KeyMap Nat V) (rcs : RoundChangeSet B) : Prop :=
  ∀ round, (m.find? round).isSome → (rcs.roundChanges.find? round).isSome

/-- The law of a round-change set at quorum `q`: prepared entries are kept
only for rounds with a message set, and a round's highest prepared round
comes with its block and a quorum of PREPAREs of that round for that block. -/
structure Backed (c : BlockCodec B) (q : Nat) (rcs : RoundChangeSet B) : Prop where
  prepares_keys : KeysIn rcs.prepareMessages rcs
  round_keys : KeysIn rcs.highestPreparedRound rcs
  block_keys : KeysIn rcs.highestPreparedBlock rcs
  backed : ∀ round pr, rcs.highestPreparedRound.find? round = some pr →
    ∃ ps b, rcs.prepareMessages.find? round = some ps ∧
      rcs.highestPreparedBlock.find? round = some (some b) ∧
      q ≤ ps.length ∧ ∀ p ∈ ps, p.round = pr ∧ p.digest = c.hash b

theorem KeysIn.mono {V : Type} {m : KeyMap Nat V} {rcs rcs' : RoundChangeSet B}
    (h : KeysIn m rcs)
    (hk : ∀ round, (rcs.roundChanges.find? round).isSome → (rcs'.roundChanges.find? round).isSome) :
    KeysIn m rcs' :=
  fun round hm => hk round (h round hm)

/-- An entry for a round with a message set keeps the keys within the sets. -/
theorem KeysIn.insert {V : Type} {m : KeyMap Nat V} {rcs : RoundChangeSet B} (h : KeysIn m rcs)
    {round : Nat} (hround : (rcs.roundChanges.find? round).isSome) (v : V) :
    KeysIn (m.insert round v) rcs := by
  intro j hj
  rw [KeyMap.find?_insert] at hj
  by_cases hjr : j = round
  · subst hjr
    exact hround
  · rw [if_neg hjr] at hj
    exact h j hj

theorem backed_newRoundChangeSet (c : BlockCodec B) (q : Nat) :
    Backed c q (newRoundChangeSet : RoundChangeSet B) where
  prepares_keys := fun _ h => by simp [newRoundChangeSet] at h
  round_keys := fun _ h => by simp [newRoundChangeSet] at h
  block_keys := fun _ h => by simp [newRoundChangeSet] at h
  backed := fun _ _ h => by simp [newRoundChangeSet] at h

/-- What the prepared part of `Add` can do: nothing, or make a higher
prepared round whose PREPAREs pass the check the round's highest. -/
theorem updateHighest_cases (rcs : RoundChangeSet B) (round : Nat) (msg : RoundChange B)
    (preparedRound : Option Nat) (preparedBlock : Option B) (ps : List Prepare)
    (quorumSize : Nat) :
    rcs.updateHighest round msg preparedRound preparedBlock ps quorumSize = rcs ∨
      ∃ pr, preparedRound = some pr ∧ (rcs.highestPreparedRound.find? round).all (· < pr) = true ∧
        hasMatchingRoundChangeAndPrepares msg ps quorumSize = .ok () ∧
        rcs.updateHighest round msg preparedRound preparedBlock ps quorumSize =
          { rcs with
            highestPreparedRound := rcs.highestPreparedRound.insert round pr
            highestPreparedBlock := rcs.highestPreparedBlock.insert round preparedBlock
            prepareMessages := rcs.prepareMessages.insert round ps } := by
  unfold updateHighest
  cases preparedRound with
  | none => exact .inl rfl
  | some pr =>
    dsimp only
    by_cases hlt : (rcs.highestPreparedRound.find? round).all (· < pr) = true
    · rw [if_pos hlt]
      cases hm : hasMatchingRoundChangeAndPrepares msg ps quorumSize with
      | error e => exact .inl rfl
      | ok u => exact .inr ⟨pr, rfl, hlt, rfl, rfl⟩
    · rw [if_neg hlt]
      exact .inl rfl


/-- The prepared part of `Add`, for a round with a message set and the
arguments `handleRoundChange` gives, keeps the law. -/
theorem Backed.updateHighest {c : BlockCodec B} {q : Nat} {rcs : RoundChangeSet B}
    (h : Backed c q rcs) {round : Nat} (hround : (rcs.roundChanges.find? round).isSome)
    {source : Address} {msg : RoundChange B} {preparedRound : Option Nat}
    {preparedBlock : Option B} {ps : List Prepare} {quorumSize : Nat}
    (hsound : (Call.add round source msg preparedRound preparedBlock ps quorumSize).Sound c q) :
    Backed c q (rcs.updateHighest round msg preparedRound preparedBlock ps quorumSize) := by
  obtain heq | ⟨pr, rfl, -, hmatch, heq⟩ :=
    updateHighest_cases rcs round msg preparedRound preparedBlock ps quorumSize
  · rw [heq]
    exact h
  rw [heq]
  obtain ⟨hq, hnone | ⟨hpr, b, rfl, hb⟩⟩ := hsound
  · cases hnone
  obtain ⟨hlen, hall⟩ := (hasMatchingRoundChangeAndPrepares_eq_ok_iff msg ps quorumSize).1 hmatch
  refine ⟨h.prepares_keys.insert hround ps, h.round_keys.insert hround pr,
    h.block_keys.insert hround (some b), fun j pr' hj => ?_⟩
  dsimp only at hj ⊢
  rw [KeyMap.find?_insert] at hj
  by_cases hjr : j = round
  · subst hjr
    rw [if_pos rfl, Option.some.injEq] at hj
    subst hj
    refine ⟨ps, b, KeyMap.find?_insert_self _ _ _, KeyMap.find?_insert_self _ _ _, by omega,
      fun p hp => ?_⟩
    obtain ⟨hd, hr⟩ := hall p hp
    exact ⟨Option.some.inj (hr.trans hpr.symm), hd.trans hb.symm⟩
  · rw [if_neg hjr] at hj
    rw [KeyMap.find?_insert_of_ne _ _ hjr, KeyMap.find?_insert_of_ne _ _ hjr]
    exact h.backed j pr' hj

/-- `Add`, with the arguments `handleRoundChange` gives, keeps the law. -/
theorem Backed.add {c : BlockCodec B} {q : Nat} {rcs : RoundChangeSet B} (h : Backed c q rcs)
    {round : Nat} {source : Address} {msg : RoundChange B} {preparedRound : Option Nat}
    {preparedBlock : Option B} {ps : List Prepare} {quorumSize : Nat}
    (hsound : (Call.add round source msg preparedRound preparedBlock ps quorumSize).Sound c q) :
    Backed c q (rcs.add round source msg preparedRound preparedBlock ps quorumSize) := by
  unfold RoundChangeSet.add
  dsimp only
  -- the message set of the round is there before the prepared part runs
  have hgrow : ∀ j, (rcs.roundChanges.find? j).isSome →
      ((rcs.roundChanges.insert round (((rcs.roundChanges.find? round).getD .empty).add source
        msg)).find? j).isSome := by
    intro j hj
    rw [KeyMap.find?_insert]
    split <;> simp_all
  have h1 : Backed c q { rcs with roundChanges := (rcs.roundChanges.insert round
      (((rcs.roundChanges.find? round).getD .empty).add source msg)) } :=
    ⟨h.prepares_keys.mono hgrow, h.round_keys.mono hgrow, h.block_keys.mono hgrow, h.backed⟩
  exact h1.updateHighest (by simp) hsound

/-- Inserting at a round that has no entry keeps every entry there is. -/
theorem find?_ite_insert_of_eq_some {V : Type} {m : KeyMap Nat V} {j : Nat} {w : V}
    (hj : m.find? j = some w) (round : Nat) (v : V) :
    (if m.find? round = none then m.insert round v else m).find? j = some w := by
  split
  · next hnone =>
    have hjr : j ≠ round := by
      rintro rfl
      rw [hj] at hnone
      cases hnone
    rw [KeyMap.find?_insert_of_ne _ _ hjr, hj]
  · exact hj

theorem isSome_find?_ite_insert {V : Type} (m : KeyMap Nat V) (round j : Nat) (v : V) :
    ((if m.find? round = none then m.insert round v else m).find? j).isSome ↔
      j = round ∨ (m.find? j).isSome := by
  split
  · next hnone =>
    rw [KeyMap.find?_insert]
    by_cases hjr : j = round
    · simp [hjr]
    · simp [hjr]
  · next hsome =>
    constructor
    · exact .inr
    · rintro (rfl | h)
      · exact Option.ne_none_iff_isSome.1 hsome
      · exact h

/-- `NewRound` keeps the law: it opens an empty set and PREPARE list together. -/
theorem Backed.newRound {c : BlockCodec B} {q : Nat} {rcs : RoundChangeSet B}
    (h : Backed c q rcs) (round : Nat) : Backed c q (rcs.newRound round) := by
  have hgrow : ∀ j, (rcs.roundChanges.find? j).isSome →
      ((rcs.newRound round).roundChanges.find? j).isSome :=
    fun j hj => (isSome_find?_ite_insert _ round j _).2 (.inr hj)
  refine ⟨fun j hj => ?_, h.round_keys.mono hgrow, h.block_keys.mono hgrow, fun j pr hj => ?_⟩
  · rcases (isSome_find?_ite_insert _ round j _).1 hj with rfl | hj
    · exact (isSome_find?_ite_insert _ j j _).2 (.inl rfl)
    · exact hgrow j (h.prepares_keys j hj)
  · obtain ⟨ps, b, hps, hb, hlen, hall⟩ := h.backed j pr hj
    exact ⟨ps, b, find?_ite_insert_of_eq_some hps round [], hb, hlen, hall⟩

/-- The rounds `ClearLowerThan(round)` keeps: those from `round` on whose set
holds a message. -/
def Kept (rcs : RoundChangeSet B) (round j : Nat) : Prop :=
  ∃ ms, rcs.roundChanges.find? j = some ms ∧ ms.values ≠ [] ∧ round ≤ j

/-- The test `ClearLowerThan` makes of a round with a set: it is kept
exactly when its set holds a message and it is not below `round`. -/
theorem clearLowerThan_keep_iff (rcs : RoundChangeSet B) (round j : Nat)
    {ms : MsgSet (RoundChange B)} (hms : rcs.roundChanges.find? j = some ms) :
    (!((rcs.roundChanges.entries.filter fun e => e.2.values.length == 0 || e.1 < round).map
        Prod.fst).contains j) = true ↔ Kept rcs round j := by
  -- the doomed rounds are the keys of the filtered map
  have hdoomed : (rcs.roundChanges.entries.filter fun e => e.2.values.length == 0 || e.1 < round).map
      Prod.fst = (rcs.roundChanges.filter fun k ms => ms.values.length == 0 || k < round).keys := rfl
  rw [hdoomed, Bool.not_eq_true', Bool.eq_false_iff, ne_eq, List.contains_iff_mem,
    KeyMap.mem_keys_iff, KeyMap.find?_filter, hms]
  simp only [Kept, hms, Option.some.injEq, exists_eq_left', Option.filter, Bool.or_eq_true,
    beq_iff_eq, List.length_eq_zero_iff]
  by_cases hv : ms.values = [] <;> simp [hv]

/-- `rcs'` holds, in each of the four maps, the entries of `rcs` at the
rounds `keep` holds of, and no other. -/
structure Restricts (rcs rcs' : RoundChangeSet B) (keep : Nat → Prop) : Prop where
  roundChanges : ∀ j ms, rcs'.roundChanges.find? j = some ms ↔
    rcs.roundChanges.find? j = some ms ∧ keep j
  prepareMessages : ∀ j ps, rcs'.prepareMessages.find? j = some ps ↔
    rcs.prepareMessages.find? j = some ps ∧ keep j
  highestPreparedRound : ∀ j pr, rcs'.highestPreparedRound.find? j = some pr ↔
    rcs.highestPreparedRound.find? j = some pr ∧ keep j
  highestPreparedBlock : ∀ j pb, rcs'.highestPreparedBlock.find? j = some pb ↔
    rcs.highestPreparedBlock.find? j = some pb ∧ keep j

/-- A map whose rounds have sets loses, under `ClearLowerThan`, exactly the
rounds it does not keep. -/
theorem find?_filter_keep_eq_some_iff {V : Type} {rcs : RoundChangeSet B} {m : KeyMap Nat V}
    (hm : KeysIn m rcs) (round j : Nat) (v : V) :
    (m.filter fun k _ => !((rcs.roundChanges.entries.filter fun e =>
        e.2.values.length == 0 || e.1 < round).map Prod.fst).contains k).find? j = some v ↔
      m.find? j = some v ∧ Kept rcs round j := by
  rw [KeyMap.find?_filter_eq_some_iff]
  refine and_congr_right fun hv => ?_
  obtain ⟨ms, hms⟩ := Option.isSome_iff_exists.1 (hm j (by simp [hv]))
  exact clearLowerThan_keep_iff rcs round j hms

/-- **What `ClearLowerThan` removes**: under the law, exactly the rounds below
`round` and those whose set is empty, from all four maps. -/
theorem Backed.clearLowerThan_restricts {c : BlockCodec B} {q : Nat} {rcs : RoundChangeSet B}
    (h : Backed c q rcs) (round : Nat) :
    Restricts rcs (rcs.clearLowerThan round) (Kept rcs round) where
  roundChanges := find?_filter_keep_eq_some_iff (fun _ h => h) round
  prepareMessages := find?_filter_keep_eq_some_iff h.prepares_keys round
  highestPreparedRound := find?_filter_keep_eq_some_iff h.round_keys round
  highestPreparedBlock := find?_filter_keep_eq_some_iff h.block_keys round

/-- `ClearLowerThan` keeps the law: a round goes from all four maps at once. -/
theorem Backed.clearLowerThan {c : BlockCodec B} {q : Nat} {rcs : RoundChangeSet B}
    (h : Backed c q rcs) (round : Nat) : Backed c q (rcs.clearLowerThan round) := by
  have hr := h.clearLowerThan_restricts round
  -- a kept round keeps its set
  have hkept : ∀ j, Kept rcs round j → ((rcs.clearLowerThan round).roundChanges.find? j).isSome := by
    rintro j ⟨ms, hms, hkj⟩
    rw [(hr.roundChanges j ms).2 ⟨hms, ms, hms, hkj⟩]
    rfl
  refine ⟨fun j hj => ?_, fun j hj => ?_, fun j hj => ?_, fun j pr hj => ?_⟩
  · obtain ⟨ps, hps⟩ := Option.isSome_iff_exists.1 hj
    exact hkept j ((hr.prepareMessages j ps).1 hps).2
  · obtain ⟨pr, hpr⟩ := Option.isSome_iff_exists.1 hj
    exact hkept j ((hr.highestPreparedRound j pr).1 hpr).2
  · obtain ⟨pb, hpb⟩ := Option.isSome_iff_exists.1 hj
    exact hkept j ((hr.highestPreparedBlock j pb).1 hpb).2
  · obtain ⟨hpr, hk⟩ := (hr.highestPreparedRound j pr).1 hj
    obtain ⟨ps, b, hps, hb, hlen, hall⟩ := h.backed j pr hpr
    exact ⟨ps, b, (hr.prepareMessages j ps).2 ⟨hps, hk⟩, (hr.highestPreparedBlock j _).2 ⟨hb, hk⟩,
      hlen, hall⟩

/-- Every call with the arguments `handleRoundChange` gives keeps the law. -/
theorem Backed.apply {c : BlockCodec B} {q : Nat} {rcs : RoundChangeSet B} (h : Backed c q rcs)
    {call : Call B} (hcall : call.Sound c q) : Backed c q (rcs.apply call) := by
  cases call with
  | add round source msg preparedRound preparedBlock ps quorumSize => exact h.add hcall
  | newRound round => exact h.newRound round
  | clearLowerThan round => exact h.clearLowerThan round

/-- Every run of such calls keeps the law. -/
theorem Backed.run {c : BlockCodec B} {q : Nat} (calls : List (Call B)) :
    ∀ {rcs : RoundChangeSet B}, Backed c q rcs → (∀ call ∈ calls, call.Sound c q) →
      Backed c q (rcs.run calls) := by
  induction calls with
  | nil => exact fun h _ => h
  | cons call calls ih =>
    intro rcs h hcalls
    rw [List.forall_mem_cons] at hcalls
    exact ih (h.apply hcalls.1) hcalls.2

/-- Every round's highest prepared round in `rcs` is there in `rcs'`, as high or higher. -/
def HighestLe (rcs rcs' : RoundChangeSet B) : Prop :=
  ∀ j h, rcs.highestPreparedRound.find? j = some h →
    ∃ h', rcs'.highestPreparedRound.find? j = some h' ∧ h ≤ h'

theorem HighestLe.refl (rcs : RoundChangeSet B) : HighestLe rcs rcs :=
  fun _ h hj => ⟨h, hj, Nat.le_refl h⟩

theorem HighestLe.trans {rcs rcs' rcs'' : RoundChangeSet B} (h₁ : HighestLe rcs rcs')
    (h₂ : HighestLe rcs' rcs'') : HighestLe rcs rcs'' := by
  intro j h hj
  obtain ⟨h', hj', hle⟩ := h₁ j h hj
  obtain ⟨h'', hj'', hle'⟩ := h₂ j h' hj'
  exact ⟨h'', hj'', Nat.le_trans hle hle'⟩

/-- `Add` only raises a highest prepared round. -/
theorem highestLe_add (rcs : RoundChangeSet B) (round : Nat) (source : Address)
    (msg : RoundChange B) (preparedRound : Option Nat) (preparedBlock : Option B)
    (ps : List Prepare) (quorumSize : Nat) :
    HighestLe rcs (rcs.add round source msg preparedRound preparedBlock ps quorumSize) := by
  unfold RoundChangeSet.add
  dsimp only
  obtain heq | ⟨pr, rfl, hlt, -, heq⟩ := updateHighest_cases
    { rcs with roundChanges := (rcs.roundChanges.insert round
      (((rcs.roundChanges.find? round).getD .empty).add source msg)) }
    round msg preparedRound preparedBlock ps quorumSize
  · rw [heq]
    exact HighestLe.refl rcs
  rw [heq]
  intro j h hj
  dsimp only
  rw [KeyMap.find?_insert]
  by_cases hjr : j = round
  · subst hjr
    rw [if_pos rfl]
    rw [hj] at hlt
    exact ⟨pr, rfl, Nat.le_of_lt (by simpa using hlt)⟩
  · rw [if_neg hjr]
    exact ⟨h, hj, Nat.le_refl h⟩

/-- **An `Add` at prepared round `p` whose PREPAREs pass the check leaves
the round's highest prepared round at `p` or above.** -/
theorem le_highest_add (rcs : RoundChangeSet B) (round : Nat) (source : Address)
    (msg : RoundChange B) (p : Nat) (preparedBlock : Option B) (ps : List Prepare)
    (quorumSize : Nat) (hmatch : hasMatchingRoundChangeAndPrepares msg ps quorumSize = .ok ()) :
    ∃ h, (rcs.add round source msg (some p) preparedBlock ps quorumSize).highestPreparedRound.find?
      round = some h ∧ p ≤ h := by
  unfold RoundChangeSet.add updateHighest
  dsimp only
  by_cases hlt : (rcs.highestPreparedRound.find? round).all (· < p) = true
  · rw [if_pos hlt, hmatch]
    exact ⟨p, KeyMap.find?_insert_self _ _ _, Nat.le_refl p⟩
  · rw [if_neg hlt]
    cases hj : rcs.highestPreparedRound.find? round with
    | none => simp [hj] at hlt
    | some h =>
      rw [hj] at hlt
      exact ⟨h, rfl, Nat.le_of_not_lt (by simpa using hlt)⟩

/-- `NewRound` leaves the highest prepared rounds alone. -/
theorem highestLe_newRound (rcs : RoundChangeSet B) (round : Nat) :
    HighestLe rcs (rcs.newRound round) :=
  HighestLe.refl rcs

/-- A run with no `ClearLowerThan` only raises highest prepared rounds. -/
theorem highestLe_run (calls : List (Call B)) (hclear : ∀ k, Call.clearLowerThan k ∉ calls) :
    ∀ rcs : RoundChangeSet B, HighestLe rcs (rcs.run calls) := by
  induction calls with
  | nil => exact HighestLe.refl
  | cons call calls ih =>
    intro rcs
    have hrest : ∀ k, Call.clearLowerThan k ∉ calls :=
      fun k hk => hclear k (List.mem_cons_of_mem _ hk)
    refine HighestLe.trans ?_ (ih hrest (rcs.apply call))
    cases call with
    | add round source msg preparedRound preparedBlock ps quorumSize =>
      exact highestLe_add rcs round source msg preparedRound preparedBlock ps quorumSize
    | newRound round => exact highestLe_newRound rcs round
    | clearLowerThan round => exact absurd List.mem_cons_self (hclear round)

/-- Over a run with no `ClearLowerThan`, every `Add` at a prepared round `p`
whose PREPAREs pass the check leaves its round's highest at `p` or above. -/
theorem le_highest_run (calls : List (Call B)) (hclear : ∀ k, Call.clearLowerThan k ∉ calls)
    {round : Nat} {source : Address} {msg : RoundChange B} {p : Nat} {preparedBlock : Option B}
    {ps : List Prepare} {quorumSize : Nat}
    (hmem : Call.add round source msg (some p) preparedBlock ps quorumSize ∈ calls)
    (hmatch : hasMatchingRoundChangeAndPrepares msg ps quorumSize = .ok ()) :
    ∀ rcs : RoundChangeSet B, ∃ h, (rcs.run calls).highestPreparedRound.find? round = some h ∧ p ≤ h := by
  induction calls with
  | nil => cases hmem
  | cons call calls ih =>
    intro rcs
    have hrest : ∀ k, Call.clearLowerThan k ∉ calls :=
      fun k hk => hclear k (List.mem_cons_of_mem _ hk)
    rcases List.mem_cons.1 hmem with rfl | hmem
    · -- the `Add` itself, then the rest of the run only raises it
      obtain ⟨h, hj, hle⟩ := le_highest_add rcs round source msg p preparedBlock ps quorumSize hmatch
      obtain ⟨h', hj', hle'⟩ := highestLe_run calls hrest _ round h hj
      exact ⟨h', hj', Nat.le_trans hle hle'⟩
    · exact ih hrest hmem (rcs.apply call)

/-- A PREPARE of round 1 for the block `()`. -/
def prepareAtOne : Prepare :=
  { code := prepareCode, sequence := 1, round := 1, signature := [], digest := zeroHash }

/-- A ROUND-CHANGE prepared in round 1 for `()`, with its PREPARE. -/
def preparedAtOne : RoundChange Unit where
  toSignedRoundChangePayload := { nilPayload with preparedRound := some 1 }
  preparedBlock := some ()
  justification := [prepareAtOne]

/-- **The law of the round-change set over every run**: from the empty set,
under calls that pass `Add` the message's own prepared round (or none) with
a block of its prepared digest, at quorum at least `q`, every highest
prepared round is backed by a quorum of its PREPAREs for its block; with no
`ClearLowerThan` among the calls, it is at least the prepared round of every
`Add` whose PREPAREs passed the check; and `ClearLowerThan(k)` then removes
exactly the rounds below `k` and those with an empty set, from all four maps. -/
theorem run_newRoundChangeSet_backed (c : BlockCodec B) (q : Nat) (calls : List (Call B))
    (hcalls : ∀ call ∈ calls, call.Sound c q) :
    Backed c q (newRoundChangeSet.run calls) ∧
      ((∀ k, Call.clearLowerThan k ∉ calls) →
        ∀ round source msg p preparedBlock ps quorumSize,
          Call.add round source msg (some p) preparedBlock ps quorumSize ∈ calls →
          hasMatchingRoundChangeAndPrepares msg ps quorumSize = .ok () →
          ∃ h, (newRoundChangeSet.run calls).highestPreparedRound.find? round = some h ∧ p ≤ h) ∧
      ∀ k, Restricts (newRoundChangeSet.run calls) ((newRoundChangeSet.run calls).clearLowerThan k)
        (Kept (newRoundChangeSet.run calls) k) := by
  have hb : Backed c q (newRoundChangeSet.run calls) :=
    Backed.run calls (backed_newRoundChangeSet c q) hcalls
  refine ⟨hb, ?_, hb.clearLowerThan_restricts⟩
  intro hclear round source msg p preparedBlock ps quorumSize hmem hmatch
  exact le_highest_run calls hclear hmem hmatch newRoundChangeSet

/-- The `Add` of `preparedAtOne` that `handleRoundChange` makes. -/
def addAtOne : Call Unit := .add 1 1 preparedAtOne (some 1) (some ()) [prepareAtOne] 1

theorem run_newRoundChangeSet_backed_at_addAtOne :
    (∀ call ∈ [addAtOne], call.Sound unitCodec 1) ∧
      (Backed unitCodec 1 (newRoundChangeSet.run [addAtOne]) ∧
        ((∀ k, Call.clearLowerThan k ∉ [addAtOne]) →
          ∀ round source msg p preparedBlock ps quorumSize,
            Call.add round source msg (some p) preparedBlock ps quorumSize ∈ [addAtOne] →
            hasMatchingRoundChangeAndPrepares msg ps quorumSize = .ok () →
            ∃ h, (newRoundChangeSet.run [addAtOne]).highestPreparedRound.find? round = some h ∧
              p ≤ h) ∧
        ∀ k, Restricts (newRoundChangeSet.run [addAtOne])
          ((newRoundChangeSet.run [addAtOne]).clearLowerThan k)
          (Kept (newRoundChangeSet.run [addAtOne]) k)) := by
  have hsound : ∀ call ∈ [addAtOne], call.Sound unitCodec 1 := by
    intro call hcall
    rw [List.mem_singleton] at hcall
    subst hcall
    exact ⟨Nat.le_refl 1, .inr ⟨rfl, (), rfl, rfl⟩⟩
  exact ⟨hsound, run_newRoundChangeSet_backed unitCodec 1 [addAtOne] hsound⟩

/-- An `Add` of `preparedAtOne` that passes prepared round 2 in place of the
message's own. -/
def addAtOtherRound : Call Unit := .add 1 1 preparedAtOne (some 2) (some ()) [prepareAtOne] 1

/-- **With a prepared round other than the message's, `Add` breaks the law**:
the PREPAREs are checked against the message's round 1 but stored under
round 2, although the block's hash is the message's prepared digest. -/
theorem add_at_other_prepared_round_not_backed :
    ¬ Backed unitCodec 1 (newRoundChangeSet.run [addAtOtherRound]) := by
  intro h
  have hround : (newRoundChangeSet.run [addAtOtherRound]).highestPreparedRound.find? 1 = some 2 := by
    decide
  have hps : (newRoundChangeSet.run [addAtOtherRound]).prepareMessages.find? 1 =
      some [prepareAtOne] := by
    decide
  obtain ⟨ps, b, hps', -, -, hall⟩ := h.backed 1 2 hround
  rw [hps, Option.some.injEq] at hps'
  subst hps'
  have : prepareAtOne.round = 2 := (hall prepareAtOne List.mem_cons_self).1
  cases this

end RoundChangeSet

end Xdchain.Qbft.RoundChanges
