import Xdchain.Qbft.Core

/-! # One validator's runs

A validator is its core together with the backend the core reads, whose
chain head moves whenever a block is inserted, by this validator's own
commit or by sync. A run hands the core any events in any order and moves
the head at any time; `log` keeps everything the core output.

Two properties the engine is meant to have fail on short runs. A timeout
that arrives once the chain head has reached the current sequence starts
the next sequence but keeps the ROUND-CHANGEs of the old one
(`catchUp_keeps_roundChanges_of_old_sequence`). And a proposer sends a
PRE-PREPARE for every request it is handed in `StateAcceptRequest`, so two
requests for one height give two PRE-PREPAREs for one view
(`handleRequest_sends_two_preprepares`). -/

namespace Xdchain.Qbft
open Xdchain.Istanbul.Validator Xdchain.Qbft.Message Xdchain.Qbft.MessageCodec

variable {B : Type}

/-- What a run hands a validator: an event for its core, or a new chain head. -/
inductive Input (B : Type) where
  | event (e : Event B)
  | head (block : B) (proposer : Address)

/-- A validator: its backend, with the chain head it sees, its core, and
everything the core has output, oldest first. -/
structure Node (B : Type) where
  backend : Backend B
  core : Core B
  log : List (Output B)

namespace Node

def init (be : Backend B) : Node B :=
  { backend := be, core := { Core.start be with outbox := [] }, log := (Core.start be).outbox }

/-- One input; `none` when the core panicked. -/
def step (n : Node B) : Input B → Option (Node B)
  | .event e => (n.core.handleEvent n.backend e).map fun c =>
      { n with core := { c with outbox := [] }, log := n.log ++ c.outbox }
  | .head block proposer =>
    some { n with backend := { n.backend with lastProposal := block, lastProposer := proposer } }

def run (n : Node B) : List (Input B) → Option (Node B)
  | [] => some n
  | i :: is => (n.step i).bind fun n' => n'.run is

/-- The validators reachable from `Start` with backend `be`. -/
def Reachable (be : Backend B) (n : Node B) : Prop := ∃ inputs, (init be).run inputs = some n

/-- A run that ends in a state satisfying `p` reaches one; the theorems
about runs on fixed inputs evaluate the check rather than the state. -/
theorem exists_reachable_of_any (be : Backend B) {p : Node B → Bool} (inputs : List (Input B))
    (h : ((init be).run inputs).any p = true) : ∃ n, Reachable be n ∧ p n = true := by
  obtain ⟨n, hrun, hp⟩ := (Option.any_eq_true p _).1 h
  exact ⟨n, ⟨inputs, hrun⟩, hp⟩

end Node

/-! ## A backend to run the theorems on -/

/-- The validators `1` to `4`, as the genesis snapshot gives them. -/
def testValidators : ValidatorSet :=
  { validators := [1, 2, 3, 4], policy := .roundRobin, proposer := some 1 }

/-- Validator `addr`'s backend over `bytesCodec` blocks at genesis: a block's
first byte is its number, every block verifies, and a signature is the
signer's address. -/
def testBackend (addr : Address) : Backend (List UInt8) :=
  { codec := bytesCodec, number := fun b => (b.headD 0).toNat, address := addr,
    lastProposal := [0], lastProposer := 0, validators := testValidators,
    verify := fun _ => true, commit := fun _ => true, sign := fun _ => [UInt8.ofNat addr],
    commitSeal := fun _ _ => [],
    recover := fun _ sig => match sig with
      | [x] => some x.toNat
      | _ => none,
    ceil2Nby3Block := some 0 }

/-! ## The round-change set across sequences -/

/-- Every ROUND-CHANGE in the round-change set is for the current sequence. -/
def RoundChangesCurrent (c : Core B) : Prop :=
  ∀ ms ∈ c.roundChangeSet.roundChanges.values, ∀ rc ∈ ms.values, rc.sequence = c.current.sequence

instance (c : Core B) : Decidable (RoundChangesCurrent c) := by
  unfold RoundChangesCurrent; infer_instance

/-- The prepared PREPAREs, if any, are a quorum of the current sequence's, at
the current prepared round and for the current prepared block. -/
def PreparedPreparesCurrent (be : Backend B) (c : Core B) : Prop :=
  ∀ ps ∈ c.qbftPreparedPrepares, c.quorumSize be ≤ ps.length ∧
    ∀ p ∈ ps, p.sequence = c.current.sequence ∧ some p.round = c.current.preparedRound ∧
      c.current.preparedBlock.map be.codec.hash = some p.digest

instance (be : Backend B) (c : Core B) : Decidable (PreparedPreparesCurrent be c) := by
  unfold PreparedPreparesCurrent; infer_instance

/-- A timeout in sequence 1, a ROUND-CHANGE from validator 2 for round 2,
block 1 inserted by sync, and a second timeout. -/
def staleInputs : List (Input (List UInt8)) :=
  [.event .timeout,
   .event (.message (.roundChange
     { code := roundChangeCode, sequence := 1, round := 2, signature := [2],
       preparedRound := none, preparedDigest := zeroHash, preparedBlock := none,
       justification := [] })),
   .head [1] 2,
   .event .timeout]

/-- **The catch-up keeps the old sequence's ROUND-CHANGEs.** The second
timeout finds the head at the current sequence and starts sequence 2 at
round 0, but `startNewRound(2)` only clears the rounds below 2: validator
2's ROUND-CHANGE of sequence 1 for round 2 stays. -/
theorem catchUp_keeps_roundChanges_of_old_sequence :
    ∃ n, Node.Reachable (testBackend 1) n ∧ ¬ RoundChangesCurrent n.core := by
  obtain ⟨n, hn, hstale⟩ := Node.exists_reachable_of_any (testBackend 1)
    (p := fun n => !decide (RoundChangesCurrent n.core)) staleInputs (by decide)
  exact ⟨n, hn, by simpa using hstale⟩

/-! ## PRE-PREPAREs per view -/

/-- The messages the core broadcast, oldest first. -/
def broadcasts (log : List (Output B)) : List (QBFTMessage B) :=
  log.filterMap fun
    | .broadcast m => some m
    | _ => none

/-- The PRE-PREPAREs the core broadcast, oldest first. -/
def sentPreprepares (log : List (Output B)) : List (Preprepare B) :=
  (broadcasts log).filterMap fun
    | .preprepare pp => some pp
    | _ => none

/-- **Two requests, two PRE-PREPAREs.** Validator 1 proposes in round 0 of
sequence 1; two requests for blocks of height 1 arrive before its own
PRE-PREPARE comes back, and `handleRequest` sends one for each. -/
theorem handleRequest_sends_two_preprepares :
    ∃ n, Node.Reachable (testBackend 1) n ∧
      ∃ p ∈ sentPreprepares n.log, ∃ q ∈ sentPreprepares n.log,
        p.sequence = q.sequence ∧ p.round = q.round ∧ p.proposal ≠ q.proposal := by
  obtain ⟨n, hn, htwo⟩ := Node.exists_reachable_of_any (testBackend 1)
    (p := fun n => decide (∃ p ∈ sentPreprepares n.log, ∃ q ∈ sentPreprepares n.log,
      p.sequence = q.sequence ∧ p.round = q.round ∧ p.proposal ≠ q.proposal))
    [.event (.request [1, 1]), .event (.request [1, 2])] (by decide)
  exact ⟨n, hn, by simpa using htwo⟩

end Xdchain.Qbft
