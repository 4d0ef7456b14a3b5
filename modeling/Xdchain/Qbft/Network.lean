import Xdchain.Qbft.Node

/-! # A network of QBFT validators

Every validator runs its own core over its own backend. The honest ones are
`Node`s; the Byzantine ones are not modelled beyond what they send. A
message an honest validator broadcast stays in flight for ever, so that it
can be delivered to any validator, in any order, any number of times or
never. A Byzantine validator sends any message whose checked signatures are
all Byzantine ones: the signature of an honest validator cannot be forged,
and a message it signed is only delivered as it sent it. A validator's chain
head moves to a block some honest validator committed.

Agreement fails with one Byzantine validator out of four
(`byzantine_proposer_breaks_agreement`). Validator 1 commits a block in
round 0 of sequence 1; the Byzantine proposer of round 1 then justifies
another block with three copies of its own ROUND-CHANGE payload for no
prepared block, which `isJustified` counts as three, and validators 3 and 4
prepare and commit that block with it. -/

namespace Xdchain.Qbft
open Xdchain.Istanbul.Validator Xdchain.Qbft.Message Xdchain.Qbft.MessageCodec

variable {B : Type}

/-- The payloads `verifySignatures` checks, each with its signature: the
message's own and those of its justification. -/
def signedPayloads (c : BlockCodec B) (m : QBFTMessage B) : List (List UInt8 × List UInt8) :=
  (m.encodePayloadForSigning c, m.signature) ::
    match m with
    | .roundChange rc => rc.justification.map fun p => (p.encodePayloadForSigning, p.signature)
    | .preprepare pp =>
      pp.justificationRoundChanges.map fun p => (p.encodePayloadForSigning, p.signature)
    | _ => []

/-- The blocks a core committed, with the view of each commit. -/
def commits (log : List (Output B)) : List (B × View) :=
  log.filterMap fun
    | .commit proposal _ view => some (proposal, view)
    | _ => none

/-- The validators, which of them are Byzantine, and each one's backend. -/
structure Config (B : Type) where
  validators : List Address
  byzantine : List Address
  backend : Address → Backend B

namespace Config

def honest (cfg : Config B) : List Address := cfg.validators.filter fun a => a ∉ cfg.byzantine

/-- Every payload `dst` checks of `m` was signed by a Byzantine validator. -/
def ByzantineSigned (cfg : Config B) (dst : Address) (m : QBFTMessage B) : Prop :=
  ∀ ps ∈ signedPayloads (cfg.backend dst).codec m,
    ∃ b ∈ cfg.byzantine, (cfg.backend dst).recover ps.1 ps.2 = some b

instance (cfg : Config B) (dst : Address) (m : QBFTMessage B) :
    Decidable (cfg.ByzantineSigned dst m) := by
  unfold ByzantineSigned; infer_instance

end Config

/-- The honest validators' nodes. -/
structure Network (B : Type) where
  nodes : Address → Node B

/-- What happens next in a run. -/
inductive Action (B : Type) where
  /-- A message reaches validator `dst`. -/
  | deliver (dst : Address) (m : QBFTMessage B)
  /-- Validator `dst` gets an input from its own node. -/
  | input (dst : Address) (i : Input B)

namespace Action

def target : Action B → Address
  | .deliver dst _ => dst
  | .input dst _ => dst

def toInput : Action B → Input B
  | .deliver _ m => .event (.message m)
  | .input _ i => i

end Action

namespace Network

variable (cfg : Config B)

def init : Network B := ⟨fun a => Node.init (cfg.backend a)⟩

/-- The messages in flight: everything honest validators broadcast. -/
def sent (n : Network B) : List (QBFTMessage B) :=
  cfg.honest.flatMap fun a => broadcasts (n.nodes a).log

/-- The blocks honest validators committed. -/
def committed (n : Network B) : List B :=
  cfg.honest.flatMap fun a => (commits (n.nodes a).log).map Prod.fst

/-- When an action can happen. A message is one in flight or one the
Byzantine validators made; an input is a request, a timeout, a
final-committed event, an event the core posted to itself, or a chain head
that honest validators committed. -/
def Allowed (n : Network B) : Action B → Prop
  | .deliver dst m => m ∈ n.sent cfg ∨ cfg.ByzantineSigned dst m
  | .input _ (.event (.message _)) => False
  | .input dst (.event (.backlog source m)) => .post (.backlog source m) ∈ (n.nodes dst).log
  | .input _ (.event _) => True
  | .input _ (.head block proposer) => block ∈ n.committed cfg ∧ proposer ∈ cfg.validators

variable [DecidableEq B]

instance (n : Network B) : ∀ a, Decidable (Allowed cfg n a)
  | .deliver _ _ => inferInstanceAs (Decidable (_ ∨ _))
  | .input _ (.event (.message _)) => inferInstanceAs (Decidable False)
  | .input _ (.event (.backlog _ _)) => inferInstanceAs (Decidable (_ ∈ _))
  | .input _ (.event (.request _)) => inferInstanceAs (Decidable True)
  | .input _ (.event .timeout) => inferInstanceAs (Decidable True)
  | .input _ (.event .finalCommitted) => inferInstanceAs (Decidable True)
  | .input _ (.head _ _) => inferInstanceAs (Decidable (_ ∧ _))

/-- An allowed action at an honest validator; `none` otherwise, or when its
core panicked. -/
def step (n : Network B) (a : Action B) : Option (Network B) :=
  if a.target ∈ cfg.honest ∧ Allowed cfg n a then
    ((n.nodes a.target).step a.toInput).map fun node => ⟨Function.update n.nodes a.target node⟩
  else none

def run (n : Network B) : List (Action B) → Option (Network B)
  | [] => some n
  | a :: as => (n.step cfg a).bind fun n' => n'.run as

def Reachable (n : Network B) : Prop := ∃ actions, (init cfg).run cfg actions = some n

theorem exists_reachable_of_any {p : Network B → Bool} (actions : List (Action B))
    (h : ((init cfg).run cfg actions).any p = true) : ∃ n, Reachable cfg n ∧ p n = true := by
  obtain ⟨n, hrun, hp⟩ := (Option.any_eq_true p _).1 h
  exact ⟨n, ⟨actions, hrun⟩, hp⟩

/-- No two honest validators commit blocks of different hashes for one
sequence. -/
def Agreement (n : Network B) : Prop :=
  ∀ a ∈ cfg.honest, ∀ b ∈ cfg.honest, ∀ p ∈ commits (n.nodes a).log,
    ∀ q ∈ commits (n.nodes b).log, p.2.sequence = q.2.sequence →
      (cfg.backend a).codec.hash p.1 = (cfg.backend b).codec.hash q.1

instance (n : Network B) : Decidable (Agreement cfg n) := by
  unfold Agreement; infer_instance

end Network

/-! ## Agreement with a Byzantine proposer -/

/-- Validators `1` to `4` over `testBackend`, of which validator 2 is Byzantine. -/
def testConfig : Config (List UInt8) :=
  { validators := testValidators.validators, byzantine := [2], backend := testBackend }

/-- The PREPARE validator `a` signs for `block` in round `r` of sequence 1. -/
def testPrepare (a : Address) (r : Nat) (block : List UInt8) : Prepare :=
  { code := prepareCode, sequence := 1, round := r, signature := [UInt8.ofNat a],
    digest := bytesCodec.hash block }

/-- The COMMIT validator `a` signs for `block` in round `r` of sequence 1. -/
def testCommit (a : Address) (r : Nat) (block : List UInt8) : Commit :=
  { code := commitCode, sequence := 1, round := r, signature := [UInt8.ofNat a],
    digest := bytesCodec.hash block, commitSeal := [] }

/-- Validator 1's PRE-PREPARE of its request `[1, 10]` in round 0. -/
def honestPreprepare : Preprepare (List UInt8) :=
  { code := preprepareCode, sequence := 1, round := 0, signature := [1], proposal := [1, 10],
    justificationRoundChanges := [], justificationPrepares := [] }

/-- Validator 2's ROUND-CHANGE payload for round 1 with nothing prepared. -/
def unpreparedPayload : SignedRoundChangePayload :=
  { code := roundChangeCode, sequence := 1, round := 1, signature := [2], preparedRound := none,
    preparedDigest := zeroHash }

/-- Validator 2's PRE-PREPARE of `[1, 20]` in round 1, justified by three
copies of `unpreparedPayload`. -/
def forkingPreprepare : Preprepare (List UInt8) :=
  { code := preprepareCode, sequence := 1, round := 1, signature := [2], proposal := [1, 20],
    justificationRoundChanges := List.replicate 3 unpreparedPayload, justificationPrepares := [] }

/-- Round 0: validators 1 and 3 prepare `[1, 10]` with validator 2, and
validator 1 commits it. Round 1: validators 3 and 4 time out, accept
`forkingPreprepare`, and validator 3 commits `[1, 20]`. -/
def forkActions : List (Action (List UInt8)) :=
  [.input 1 (.event (.request [1, 10])),
   .deliver 1 (.preprepare honestPreprepare), .deliver 3 (.preprepare honestPreprepare)] ++
  ([1, 3].flatMap fun dst => [1, 3, 2].map fun a => .deliver dst (.prepare (testPrepare a 0 [1, 10]))) ++
  ([1, 3, 2].map fun a => .deliver 1 (.commit (testCommit a 0 [1, 10]))) ++
  [.input 3 (.event .timeout), .input 4 (.event .timeout),
   .deliver 3 (.preprepare forkingPreprepare), .deliver 4 (.preprepare forkingPreprepare)] ++
  ([3, 4].flatMap fun dst => [3, 4, 2].map fun a => .deliver dst (.prepare (testPrepare a 1 [1, 20]))) ++
  ([3, 4, 2].map fun a => .deliver 3 (.commit (testCommit a 1 [1, 20])))

/-- **Two honest validators commit different blocks for sequence 1**, with
one Byzantine validator of four and the sequence past `Ceil2Nby3Block`. -/
theorem byzantine_proposer_breaks_agreement :
    testConfig.byzantine.length ≤ testValidators.f ∧
      ∃ n, Network.Reachable testConfig n ∧ ¬ Network.Agreement testConfig n := by
  refine ⟨by decide, ?_⟩
  obtain ⟨n, hn, hfork⟩ := Network.exists_reachable_of_any testConfig
    (p := fun n => !decide (Network.Agreement testConfig n)) forkActions (by decide)
  exact ⟨n, hn, by simpa using hfork⟩

end Xdchain.Qbft
