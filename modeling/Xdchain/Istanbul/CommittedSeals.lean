import Xdchain.Istanbul.Quorum
import Xdchain.Istanbul.Validator
import Xdchain.Types.Istanbul

/-! # The committed seals of a synced header

Both engines' `verifyCommittedSeals` recover an address from each committed
seal of the header's extra data (`Signers`), remove each one from a copy of
the parent's validator set, and ask for more than `F()` of them. The QBFT
engine reads the QBFT extra and recovers over the header's hash with its
round; the IBFT engine reads the IBFT extra and recovers over the keccak of
the header's hash and the COMMIT code. Recovering a public key and its
address is a parameter.

An accepted header has distinct committers, each a validator, more than
`F()` of them (`verifyCommittedSealsWith_eq_ok_iff`). That is fewer than
`QuorumSize()`: than `ceil(2N/3)` from two validators on, and than `2F()+1`
from four on (`f_add_one_lt_quorumSize`). With four validators, two seals
pass where the quorum is three (`committedSeals_below_quorum_accepted`). -/

namespace Xdchain.Istanbul.CommittedSeals
open Xdchain.Istanbul.Validator Xdchain.Istanbul.Validator.ValidatorSet Xdchain.Istanbul.Quorum
  Xdchain.Qbft
open Xdchain.Types (Header QBFTExtra IstanbulExtra ExtraError extractQBFTExtra extractIstanbulExtra)

/-- Keccak, and `SigToPub` with `PubkeyToAddress` over a digest. -/
structure Crypto where
  keccak : List UInt8 → Xdchain.Types.Hash
  sigToAddress : List UInt8 → List UInt8 → Option Address

/-- The errors of `verifyCommittedSeals`. -/
inductive SealError where
  | extra (e : ExtraError)
  | emptyCommittedSeals
  | invalidCommittedSeals
  | invalidSignature
deriving DecidableEq

/-- The loop of `Signers`: an address per seal, an error at the first seal
that recovers none. -/
def signersOf (recover : List UInt8 → Option Address) :
    List (List UInt8) → Except SealError (List Address)
  | [] => .ok []
  | sig :: rest =>
    match recover sig with
    | some addr => (signersOf recover rest).map (addr :: ·)
    | none => .error .invalidSignature

/-- The loop of `verifyCommittedSeals`: every committer must still be in the
copy, and is removed from it; the count of valid seals. -/
def removeCommitters (validatorsCpy : ValidatorSet) (validSeal : Nat) :
    List Address → Except SealError Nat
  | [] => .ok validSeal
  | addr :: rest =>
    let (validatorsCpy, removed) := validatorsCpy.removeValidator addr
    if removed then removeCommitters validatorsCpy (validSeal + 1) rest
    else .error .invalidCommittedSeals

/-- `verifyCommittedSeals` of both engines, given how each reads the committed
seals and their signers. `header.Number.Uint64()` keeps the low 64 bits. -/
def verifyCommittedSealsWith (committedSealOf : Header → Except SealError (List (List UInt8)))
    (signers : Header → Except SealError (List Address)) (sortBy : Address → Address → Bool)
    (header : Header) (validators : ValidatorSet) : Except SealError Unit :=
  if header.number % UInt64.size = 0 then .ok ()
  else do
    let committedSeal ← committedSealOf header
    if committedSeal.length = 0 then throw .emptyCommittedSeals
    let validatorsCpy := validators.copy sortBy
    let committers ← signers header
    let validSeal ← removeCommitters validatorsCpy 0 committers
    if validSeal ≤ validators.f then throw .invalidCommittedSeals
    pure ()

def msgCommit : UInt8 := 2

/-- The QBFT engine's `Signers`: over `PrepareCommittedSeal(header, round)`,
the header's hash with the extra's round, with no further hashing. -/
def qbftSigners (crypto : Crypto) (header : Header) : Except SealError (List Address) :=
  match extractQBFTExtra header with
  | .error e => .error (.extra e)
  | .ok extra =>
    let proposalSeal := (header.qbftHashWithRoundNumber crypto.keccak extra.round).toList
    signersOf (crypto.sigToAddress proposalSeal) extra.committedSeal

/-- The IBFT engine's `Signers`: over the keccak of `PrepareCommittedSeal`,
the header's hash and the COMMIT code. -/
def ibftSigners (crypto : Crypto) (header : Header) : Except SealError (List Address) :=
  match extractIstanbulExtra header with
  | .error e => .error (.extra e)
  | .ok extra =>
    let proposalSeal := (header.hash crypto.keccak).toList ++ [msgCommit]
    signersOf (crypto.sigToAddress (crypto.keccak proposalSeal).toList) extra.committedSeal

/-- The QBFT engine's `verifyCommittedSeals`. -/
def qbftVerifyCommittedSeals (crypto : Crypto) (sortBy : Address → Address → Bool) :
    Header → ValidatorSet → Except SealError Unit :=
  verifyCommittedSealsWith
    (fun header => ((extractQBFTExtra header).mapError .extra).map (·.committedSeal))
    (qbftSigners crypto) sortBy

/-- The IBFT engine's `verifyCommittedSeals`. -/
def ibftVerifyCommittedSeals (crypto : Crypto) (sortBy : Address → Address → Bool) :
    Header → ValidatorSet → Except SealError Unit :=
  verifyCommittedSealsWith
    (fun header => ((extractIstanbulExtra header).mapError .extra).map (·.committedSeal))
    (ibftSigners crypto) sortBy

/-! ## What an accepted header carries -/

/-- **The removal loop succeeds exactly on distinct validators**, for a copy of
distinct validators, and counts them. -/
theorem removeCommitters_eq_ok_iff :
    ∀ (committers : List Address) {validatorsCpy : ValidatorSet} (validSeal n : Nat),
      validatorsCpy.validators.Nodup →
      (removeCommitters validatorsCpy validSeal committers = .ok n ↔
        committers.Nodup ∧ (∀ a ∈ committers, a ∈ validatorsCpy.validators) ∧
          n = validSeal + committers.length)
  | [], _, validSeal, n, _ => by
    simp only [removeCommitters, Except.ok.injEq, List.nodup_nil, List.not_mem_nil,
      false_imp_iff, imp_true_iff, List.length_nil, Nat.add_zero, true_and]
    exact eq_comm
  | addr :: rest, validatorsCpy, validSeal, n, hnd => by
    unfold removeCommitters
    by_cases ha : addr ∈ validatorsCpy.validators
    · have hremoved : (validatorsCpy.removeValidator addr).2 = true :=
        (removeValidator_snd_eq_true_iff _ _).2 ha
      simp only [hremoved, if_true]
      rw [removeCommitters_eq_ok_iff rest (validSeal + 1) n (removeValidator_nodup hnd addr),
        validators_removeValidator, List.nodup_cons, List.forall_mem_cons, List.length_cons]
      -- the rest must avoid `addr`, since it has been removed
      have hmem : ∀ b, b ∈ validatorsCpy.validators.erase addr ↔ b ≠ addr ∧ b ∈ validatorsCpy.validators :=
        fun b => hnd.mem_erase_iff
      constructor
      · rintro ⟨hrest, hsub, rfl⟩
        refine ⟨⟨fun hin => ((hmem addr).1 (hsub addr hin)).1 rfl, hrest⟩,
          ⟨ha, fun b hb => ((hmem b).1 (hsub b hb)).2⟩, by omega⟩
      · rintro ⟨⟨hnotin, hrest⟩, ⟨-, hsub⟩, rfl⟩
        refine ⟨hrest, fun b hb => (hmem b).2 ⟨fun hba => hnotin (hba ▸ hb), hsub b hb⟩, by omega⟩
    · have hremoved : (validatorsCpy.removeValidator addr).2 = false := by
        rw [← Bool.not_eq_true, removeValidator_snd_eq_true_iff]
        exact ha
      simp only [hremoved, Bool.false_eq_true, if_false, reduceCtorEq, false_iff, not_and,
        List.forall_mem_cons]
      exact fun _ h => absurd h.1 ha

/-- **What `verifyCommittedSeals` accepts**, for a header of a number whose
low 64 bits are not 0 and a parent set of distinct validators: committed
seals, whose signers are distinct validators, more than `F()` of them. -/
theorem verifyCommittedSealsWith_eq_ok_iff
    (committedSealOf : Header → Except SealError (List (List UInt8)))
    (signers : Header → Except SealError (List Address)) (sortBy : Address → Address → Bool)
    {header : Header} {validators : ValidatorSet} (hnum : header.number % UInt64.size ≠ 0)
    (hnd : validators.validators.Nodup) :
    verifyCommittedSealsWith committedSealOf signers sortBy header validators = .ok () ↔
      (∃ seals, committedSealOf header = .ok seals ∧ seals ≠ []) ∧
        ∃ committers, signers header = .ok committers ∧ committers.Nodup ∧
          (∀ a ∈ committers, a ∈ validators.validators) ∧ validators.f < committers.length := by
  have hcopy := validators_copy_perm validators sortBy
  unfold verifyCommittedSealsWith
  rw [if_neg hnum]
  have hcnd : (validators.copy sortBy).validators.Nodup := hcopy.nodup_iff.2 hnd
  cases hseals : committedSealOf header with
  | error e => simp [bind, Except.bind]
  | ok seals =>
    simp only [bind, Except.bind, Except.ok.injEq, exists_eq_left']
    by_cases hempty : seals.length = 0
    · rw [if_pos hempty]
      simp only [throw, throwThe, MonadExceptOf.throw, reduceCtorEq, false_iff, not_and]
      exact fun hne => absurd (List.length_eq_zero_iff.1 hempty) hne
    rw [if_neg hempty]
    have hne : seals ≠ [] := fun h => hempty (by rw [h]; rfl)
    cases hsig : signers header with
    | error e => simp [hne]
    | ok committers =>
      simp only [Except.ok.injEq, exists_eq_left', hne, true_and, ne_eq, not_false_eq_true]
      -- the copy holds the parent's validators, so the loop checks against them
      have hloop := fun n => removeCommitters_eq_ok_iff committers 0 n hcnd
      simp only [hcopy.mem_iff, Nat.zero_add] at hloop
      cases hrm : removeCommitters (validators.copy sortBy) 0 committers with
      | error e =>
        simp only [reduceCtorEq, false_iff, not_and]
        intro hcnodup hsub
        have := (hloop committers.length).2 ⟨hcnodup, hsub, rfl⟩
        rw [hrm] at this
        cases this
      | ok n =>
        obtain ⟨hcnodup, hsub, rfl⟩ := (hloop n).1 hrm
        dsimp only
        by_cases hf : committers.length ≤ validators.f
        · rw [if_pos hf]
          simp only [throw, throwThe, MonadExceptOf.throw, reduceCtorEq, false_iff, not_and]
          exact fun _ _ hlt => absurd hf (Nat.not_le.2 hlt)
        · rw [if_neg hf]
          simp only [pure, Except.pure, true_iff]
          exact ⟨hcnodup, hsub, by omega⟩

/-- More than `F()` seals can be fewer than `QuorumSize()`: `F()+1` is below
`ceil(2N/3)` from two validators on, and below `2F()+1` from four on. -/
theorem f_add_one_lt_quorumSize (valSet : ValidatorSet) :
    (2 ≤ valSet.size → valSet.f + 1 < (2 * valSet.size + 2) / 3) ∧
      (4 ≤ valSet.size → valSet.f + 1 < 2 * valSet.f + 1) := by
  unfold ValidatorSet.f
  omega

/-- A recovery that reads a signature of one byte as its signer. -/
def oneByteCrypto : Crypto where
  keccak := Xdchain.Types.firstBytes
  sigToAddress _ sig := match sig with
    | [x] => some x.toNat
    | _ => none

/-- A header of number 1 with a QBFT extra of two committed seals, of
validators 1 and 2. -/
def twoSealQbftHeader : Header :=
  { Xdchain.Types.sealedHeader with extra := (⟨[], [], none, 0, [[1], [2]]⟩ : QBFTExtra).encodeRLP.enc }

/-- The same seals in an IBFT extra. -/
def twoSealIbftHeader : Header :=
  { Xdchain.Types.sealedHeader with
    extra := List.replicate 32 0 ++ (⟨[], [], [[1], [2]]⟩ : IstanbulExtra).encodeRLP.enc }

/-- **Both engines accept a header sealed by fewer than a quorum.** Of the
validators 1 to 4, `F()` is 1 and `QuorumSize()` is 3 under both formulas,
but the seals of validators 1 and 2 pass. -/
theorem committedSeals_below_quorum_accepted :
    qbftVerifyCommittedSeals oneByteCrypto (fun a b => decide (a < b)) twoSealQbftHeader
        testValidators = .ok () ∧
      qbftSigners oneByteCrypto twoSealQbftHeader = .ok [1, 2] ∧
      ibftVerifyCommittedSeals oneByteCrypto (fun a b => decide (a < b)) twoSealIbftHeader
        testValidators = .ok () ∧
      ibftSigners oneByteCrypto twoSealIbftHeader = .ok [1, 2] ∧
      (Core.start (testBackend 1)).valSet = testValidators ∧
      [1, 2].length < (Core.start (testBackend 1)).quorumSize (testBackend 1) ∧
      [1, 2].length < ibftQuorumSize none (some 1) testValidators ∧
      [1, 2].length < ibftQuorumSize (some 0) (some 1) testValidators := by
  decide +kernel

end Xdchain.Istanbul.CommittedSeals
