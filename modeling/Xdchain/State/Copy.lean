import Xdchain.State.StateDB

/-! # Copies of a state

`Copy` deep-copies the objects it takes over, but `deepCopy` copies the
extra-data pointer, not the record behind it. `SetStatePrivacyMetadata`
writes the record in place, so a copy and its original that share a record
see each other's privacy metadata and managed parties
(`copy_reads_privacyMetadata_of_original`). -/

namespace Xdchain.State
open Xdchain.Lib

/-- A committed state with no accounts and no extra data. -/
def emptyDatabase : Database :=
  { accounts := fun _ => none, storage := fun _ _ => 0, code := fun _ => [],
    accountExtraDataTrie := fun _ => .missing, keccak256 := fun _ => 0 }

def emptyHeap : Heap := ⟨fun _ => ⟨none, []⟩, 0⟩

/-- Privacy metadata for the creation transaction `tx`. -/
def testMetadata (tx : Hash) : PrivacyMetadata := ⟨tx, 1⟩

/-- Metadata 1 set on account 1 of a new state, the state copied, metadata 2
set on the original: what the copy reads for account 1 before and after the
second write. -/
def copyReads :
    Option (Except StateError (Option PrivacyMetadata) × Except StateError (Option PrivacyMetadata)) :=
  let (s, h) := (StateDB.New emptyDatabase).SetPrivacyMetadata emptyHeap 1 (some (testMetadata 1))
  s.Copy.map fun c =>
    let (_, h') := s.SetPrivacyMetadata h 1 (some (testMetadata 2))
    (c.GetPrivacyMetadata h 1, c.GetPrivacyMetadata h' 1)

/-- **A write to the original shows in the copy.** -/
theorem copy_reads_privacyMetadata_of_original :
    copyReads = some (.ok (some (testMetadata 1)), .ok (some (testMetadata 2))) := by
  rfl

end Xdchain.State
