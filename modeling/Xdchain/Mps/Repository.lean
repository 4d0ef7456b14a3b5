import Xdchain.State.Copy

/-! # The repository of multiple private states

`core/mps/multiple_psr.go`. A node with multiple private states keeps one
`StateDB` per private state identifier in `managedStates`, and the trie of
private states maps each identifier to the root its state last committed.
`StatePSI` returns the state of an identifier, creating it on first use: an
identifier with no root branches a `Copy` of the empty state, and the empty
identifier or one with a root opens a new state over its committed root.
Callers mutate the returned state in place; here the mutated state is put
back with `setPSI`. The extra-data records of all states live in the one
heap of `Xdchain.State`, as they live in Go's memory.

Committing is left out: the model has no tries, so `CommitAndWrite` and
`Commit`, which write each state's root into the trie of private states,
are not modelled. -/

namespace Xdchain.Mps
open Xdchain.Lib Xdchain.State

abbrev PrivateStateIdentifier := String

def emptyPSI : PrivateStateIdentifier := "empty"

structure MultiplePrivateStateRepository where
  /-- The committed state `state.New` opens at a root. -/
  stateAt : Hash → Database
  /-- `trie.TryGet(psi)`: the root last committed for a private state. -/
  trie : PrivateStateIdentifier → Option Hash
  managedStates : KeyMap PrivateStateIdentifier StateDB

namespace MultiplePrivateStateRepository

/-- The state of an identifier that does not branch: the managed one, else a
new state over its committed root (the zero root when it has none). -/
def openState (mpsr : MultiplePrivateStateRepository) (psi : PrivateStateIdentifier) :
    StateDB × MultiplePrivateStateRepository :=
  match mpsr.managedStates.find? psi with
  | some stateDb => (stateDb, mpsr)
  | none =>
    let stateDB := StateDB.New (mpsr.stateAt ((mpsr.trie psi).getD 0))
    (stateDB, { mpsr with managedStates := mpsr.managedStates.insert psi stateDB })

/-- `DefaultState`, that is `StatePSI(EmptyPrivateStateMetadata.ID)`, which
never branches (`StatePSI_emptyPSI`). -/
def DefaultState (mpsr : MultiplePrivateStateRepository) : StateDB × MultiplePrivateStateRepository :=
  mpsr.openState emptyPSI

/-- `StatePSI`; `none` where copying the empty state panics. -/
def StatePSI (mpsr : MultiplePrivateStateRepository) (psi : PrivateStateIdentifier) :
    Option (StateDB × MultiplePrivateStateRepository) :=
  match mpsr.managedStates.find? psi with
  | some stateDb => some (stateDb, mpsr)
  | none =>
    if mpsr.trie psi = none ∧ psi ≠ emptyPSI then do
      -- the first use of this private state branches from the empty state
      let (emptyState, mpsr) := mpsr.DefaultState
      let stateDB ← emptyState.Copy
      pure (stateDB, { mpsr with managedStates := mpsr.managedStates.insert psi stateDB })
    else pure (mpsr.openState psi)

/-- A state returned by `StatePSI`, mutated through its pointer. -/
def setPSI (mpsr : MultiplePrivateStateRepository) (psi : PrivateStateIdentifier) (stateDb : StateDB) :
    MultiplePrivateStateRepository :=
  { mpsr with managedStates := mpsr.managedStates.insert psi stateDb }

/-- `Reset`: the states branched in this block, which have no root, are
dropped; the others are reset to their root. -/
def Reset (mpsr : MultiplePrivateStateRepository) : MultiplePrivateStateRepository :=
  { mpsr with managedStates := mpsr.managedStates.entries.foldl (fun states e =>
      match mpsr.trie e.1 with
      | none => states.erase e.1
      | some root => states.insert e.1 (e.2.Reset (mpsr.stateAt root))) mpsr.managedStates }

/-- One step of `Reset`'s loop over an entry list: a key of the list stays
exactly when it has a root, the other keys as they were. -/
theorem isSome_find?_foldl_reset (mpsr : MultiplePrivateStateRepository)
    (l : List (PrivateStateIdentifier × StateDB)) (states : KeyMap PrivateStateIdentifier StateDB)
    (psi : PrivateStateIdentifier) :
    ((l.foldl (fun states e =>
        match mpsr.trie e.1 with
        | none => states.erase e.1
        | some root => states.insert e.1 (e.2.Reset (mpsr.stateAt root))) states).find? psi).isSome =
      if psi ∈ l.map Prod.fst then (mpsr.trie psi).isSome else (states.find? psi).isSome := by
  induction l generalizing states with
  | nil => simp
  | cons e l ih =>
    rw [List.foldl_cons, ih]
    by_cases hl : psi ∈ l.map Prod.fst
    · simp [hl]
    · have hstep : ((match mpsr.trie e.1 with
          | none => states.erase e.1
          | some root => states.insert e.1 (e.2.Reset (mpsr.stateAt root))).find? psi).isSome =
          if psi = e.1 then (mpsr.trie psi).isSome else (states.find? psi).isSome := by
        by_cases he : psi = e.1
        · rw [he]
          cases hr : mpsr.trie e.1 with
          | none => simp [KeyMap.find?_erase]
          | some root => simp
        · cases mpsr.trie e.1 <;> simp [KeyMap.find?_erase, KeyMap.find?_insert, he]
      rw [if_neg hl, hstep]
      by_cases he : psi = e.1 <;> simp [he, hl]

/-- `Reset` keeps exactly the managed states that have a committed root. -/
theorem isSome_find?_Reset (mpsr : MultiplePrivateStateRepository) (psi : PrivateStateIdentifier) :
    (mpsr.Reset.managedStates.find? psi).isSome =
      ((mpsr.managedStates.find? psi).isSome && (mpsr.trie psi).isSome) := by
  have hfold := isSome_find?_foldl_reset mpsr mpsr.managedStates.entries mpsr.managedStates psi
  have hkeys : psi ∈ mpsr.managedStates.entries.map Prod.fst ↔ (mpsr.managedStates.find? psi).isSome :=
    KeyMap.mem_keys_iff _ _
  unfold Reset
  rw [hfold]
  by_cases hk : (mpsr.managedStates.find? psi).isSome
  · simp [hkeys.2 hk, hk]
  · simp [mt hkeys.1 hk, hk]

theorem StatePSI_emptyPSI (mpsr : MultiplePrivateStateRepository) :
    mpsr.StatePSI emptyPSI = some mpsr.DefaultState := by
  unfold StatePSI DefaultState openState
  cases mpsr.managedStates.find? emptyPSI <;> simp

end MultiplePrivateStateRepository

open MultiplePrivateStateRepository

/-- A repository with no committed private state. -/
def freshRepository : MultiplePrivateStateRepository :=
  { stateAt := fun _ => emptyDatabase, trie := fun _ => none, managedStates := .empty }

/-- Metadata 1 set on account 1 of the empty state; private states `a` and
`b` used for the first time, both branched from it; metadata 2 set on
account 1 through `a`. What `b` reads for account 1 before and after that
write. -/
def branchReads :
    Option (Except StateError (Option PrivacyMetadata) × Except StateError (Option PrivacyMetadata)) := do
  let (empty, mpsr) := freshRepository.DefaultState
  let (empty, h) := empty.SetPrivacyMetadata emptyHeap 1 (some (testMetadata 1))
  let mpsr := mpsr.setPSI emptyPSI empty
  let (a, mpsr) ← mpsr.StatePSI "a"
  let (_, mpsr) ← mpsr.StatePSI "b"
  let (a, h') := a.SetPrivacyMetadata h 1 (some (testMetadata 2))
  let mpsr := mpsr.setPSI "a" a
  let (b, _) ← mpsr.StatePSI "b"
  pure (b.GetPrivacyMetadata h 1, b.GetPrivacyMetadata h' 1)

/-- **A write through one private state shows in another.** Both states
branched from the empty state by `Copy`, whose `deepCopy` keeps the
extra-data pointer, so they share the record the write goes to. -/
theorem branched_psi_reads_privacyMetadata_of_other_psi :
    branchReads = some (.ok (some (testMetadata 1)), .ok (some (testMetadata 2))) := by
  rfl

end Xdchain.Mps
