import Xdchain.State.Copy

/-! # Committing a state and opening it again

`StateDB.Commit` and `state.New` over the trie database
(`core/state/statedb.go`), with Quorum's `AccountExtraDataLinker`
(`core/rawdb/database_quorum.go`). A trie is what it holds and its root is
the hash of that, so the trie hashes are parameters (`TrieHasher`) and the
trie database keeps what each committed root holds. A state's `Database`
is its view of its own tries: `IntermediateRoot` writes the pending objects
into it. `Commit` stores the account trie under its root and the extra-data
trie under its own, and `Link` maps the first root to the second; `New`
opens the account trie at a root and the extra-data trie at the root linked
to it. Trie-node reference counting and flushing are left out: the trie
database keeps every committed trie. -/

namespace Xdchain.State
open Xdchain.Lib

/-- The root of a trie as a function of what it holds. -/
structure TrieHasher where
  accountRoot : (Address → Option Account) → Hash
  storageRoot : (Hash → Hash) → Hash
  extraDataRoot : (Address → ExtraDataEntry) → Hash

/-- What each committed root holds, the code by its hash, and the mapping
the linker writes. -/
structure TrieDB where
  accountTries : Hash → Address → Option Account
  storageTries : Hash → Hash → Hash
  extraDataTries : Hash → Address → ExtraDataEntry
  code : Hash → List UInt8
  /-- `rawdb.GetAccountExtraDataRoot`: the zero hash where no mapping is written. -/
  extraDataRoots : Hash → Hash
  keccak256 : List UInt8 → Hash

namespace TrieDB

/-- `Link`: no mapping is written for the empty extra-data root. -/
def Link (db : TrieDB) (stateRoot extraDataRoot : Hash) : TrieDB :=
  if extraDataRoot ≠ emptyRoot then { db with extraDataRoots := Function.update db.extraDataRoots stateRoot extraDataRoot }
  else db

/-- The tries `New` opens at `root`. -/
def openState (db : TrieDB) (root : Hash) : Database :=
  { accounts := db.accountTries root, storage := db.storageTries, code := db.code,
    accountExtraDataTrie := db.extraDataTries (db.extraDataRoots root), keccak256 := db.keccak256 }

/-- Opening a root after `Link`: the extra-data trie is the linked one at the
linked root, unless the extra-data root is empty and nothing was written. -/
theorem openState_Link (db : TrieDB) (root x r : Hash) :
    (db.Link root x).openState r =
      if r = root ∧ x ≠ emptyRoot then { db.openState r with accountExtraDataTrie := db.extraDataTries x }
      else db.openState r := by
  unfold Link
  by_cases hx : x = emptyRoot
  · simp [hx]
  · by_cases hr : r = root
    · simp [hx, hr, openState]
    · simp [hx, hr, openState]

end TrieDB

def New (root : Hash) (db : TrieDB) : StateDB := StateDB.New (db.openState root)

namespace StateObject

def finalise (s : StateObject) : StateObject :=
  { s with pendingStorage := s.dirtyStorage.entries.foldl (fun pending e => pending.insert e.1 e.2) s.pendingStorage,
           dirtyStorage := .empty }

/-- `updateRoot`: the pending storage written into the object's storage
trie, and the object's root set to the new trie's. Gives the new trie and
its root, `none` when nothing is pending. -/
def updateRoot (hasher : TrieHasher) (db : Database) (s : StateObject) :
    StateObject × Option (Hash × (Hash → Hash)) :=
  let s := s.finalise
  if s.pendingStorage.size = 0 then (s, none)
  else
    let storage := fun key => (s.pendingStorage.find? key).getD (db.storage s.data.root key)
    let root := hasher.storageRoot storage
    ({ s with data := { s.data with root },
              originStorage := s.pendingStorage.entries.foldl (fun origin e => origin.insert e.1 e.2) s.originStorage,
              pendingStorage := .empty },
      some (root, storage))

end StateObject

namespace StateDB

def clearJournalAndRefund (s : StateDB) : StateDB :=
  let s := if s.journal.entries = [] then s else { s with journal := Journal.newJournal, refund := 0 }
  { s with validRevisions := [] }

/-- `Finalise`: every object the journal marks dirty becomes pending; a
suicided object, or an empty one when `deleteEmptyObjects`, is marked
deleted, and the others have their dirty storage made pending. -/
def Finalise (s : StateDB) (deleteEmptyObjects : Bool) : StateDB :=
  (s.journal.dirties.keys.foldl (fun s addr =>
    match s.stateObjects.find? addr with
    | none => s
    | some obj =>
      let obj := if obj.suicided || (deleteEmptyObjects && obj.empty s.db) then { obj with deleted := true }
        else obj.finalise
      { s with stateObjects := s.stateObjects.insert addr obj,
               stateObjectsPending := s.stateObjectsPending.insert addr (),
               stateObjectsDirty := s.stateObjectsDirty.insert addr () }) s).clearJournalAndRefund

/-- `deleteStateObject`: the account and its extra data leave the tries. -/
def deleteStateObject (s : StateDB) (addr : Address) : StateDB :=
  { s with db := { s.db with accounts := Function.update s.db.accounts addr none,
                             accountExtraDataTrie := Function.update s.db.accountExtraDataTrie addr .missing } }

/-- `updateStateObject`: the account written, and its extra data when it is
dirty and not nil. -/
def updateStateObject (s : StateDB) (h : Heap) (obj : StateObject) : StateDB :=
  let db := { s.db with accounts := Function.update s.db.accounts obj.address (some obj.data) }
  let db := match obj.dirtyAccountExtraData, obj.accountExtraData with
    | true, some p => { db with accountExtraDataTrie := Function.update db.accountExtraDataTrie obj.address (.value (h.cells p)) }
    | _, _ => db
  { s with db }

/-- `IntermediateRoot`: after `Finalise`, every pending object deleted from
the tries or written to them with its new storage root. Gives the storage
tries written and the root of the account trie. -/
def IntermediateRoot (hasher : TrieHasher) (s : StateDB) (h : Heap) (deleteEmptyObjects : Bool) :
    StateDB × List (Hash × (Hash → Hash)) × Hash :=
  let s := s.Finalise deleteEmptyObjects
  let r := s.stateObjectsPending.keys.foldl (fun (acc : StateDB × List (Hash × (Hash → Hash))) addr =>
    let (s, written) := acc
    match s.stateObjects.find? addr with
    | none => (s, written)
    | some obj =>
      if obj.deleted then (s.deleteStateObject addr, written)
      else
        let (obj, trie) := obj.updateRoot hasher s.db
        let s := match trie with
          | some (root, storage) => { s with db := { s.db with storage := Function.update s.db.storage root storage } }
          | none => s
        ((s.updateStateObject h obj).setStateObject obj, written ++ trie.toList)) (s, [])
  ({ r.1 with stateObjectsPending := .empty }, r.2, hasher.accountRoot r.1.db.accounts)

/-- One address of `Commit`'s code loop: the dirty code of a live object
written under its hash. -/
def writeCodeOf (acc : StateDB × (Hash → List UInt8)) (addr : Address) : StateDB × (Hash → List UInt8) :=
  let (s, code) := acc
  match s.stateObjects.find? addr with
  | some obj =>
    if !obj.deleted && obj.dirtyCode then
      match obj.code with
      | some c => (s.setStateObject { obj with dirtyCode := false }, Function.update code (obj.data.codeHash.getD 0) c)
      | none => (s, code)
    else (s, code)
  | none => (s, code)

/-- The code loop of `Commit`, over the objects marked dirty. -/
def writeDirtyCode (s : StateDB) (code : Hash → List UInt8) : StateDB × (Hash → List UInt8) :=
  s.stateObjectsDirty.keys.foldl writeCodeOf (s, code)

/-- `Commit`: the storage tries and the dirty code written, the account trie
stored under its root and the extra-data trie under its own, and the two
roots linked. -/
def Commit (hasher : TrieHasher) (s : StateDB) (h : Heap) (db : TrieDB) (deleteEmptyObjects : Bool) :
    Hash × StateDB × TrieDB :=
  let r := s.IntermediateRoot hasher h deleteEmptyObjects
  let root := r.2.2
  let w := r.1.writeDirtyCode db.code
  let extraDataRoot := hasher.extraDataRoot w.1.db.accountExtraDataTrie
  let db : TrieDB :=
    { db with accountTries := Function.update db.accountTries root w.1.db.accounts,
              storageTries := r.2.1.foldl (fun tries t => Function.update tries t.1 t.2) db.storageTries,
              extraDataTries := Function.update db.extraDataTries extraDataRoot w.1.db.accountExtraDataTrie,
              code := w.2 }
  (root, { w.1 with stateObjectsDirty := .empty }, db.Link root extraDataRoot)

section Commit
variable (hasher : TrieHasher) (s : StateDB) (h : Heap) (db : TrieDB) (deleteEmptyObjects : Bool)

theorem db_writeCodeOf (acc : StateDB × (Hash → List UInt8)) (addr : Address) :
    (writeCodeOf acc addr).1.db = acc.1.db := by
  obtain ⟨t, code⟩ := acc
  unfold writeCodeOf
  dsimp only
  -- only a live object with dirty code changes the state, by `setStateObject`
  split
  · split_ifs
    · split <;> rfl
    · rfl
  · rfl

/-- The root a commit returns is the root of the account trie alone. -/
theorem Commit_root :
    (s.Commit hasher h db deleteEmptyObjects).1 =
      hasher.accountRoot (s.IntermediateRoot hasher h deleteEmptyObjects).1.db.accounts :=
  rfl

/-- The code loop keeps the state's tries. -/
theorem db_writeDirtyCode (code : Hash → List UInt8) : (s.writeDirtyCode code).1.db = s.db := by
  unfold writeDirtyCode
  generalize s.stateObjectsDirty.keys = addrs
  suffices ∀ acc : StateDB × (Hash → List UInt8), acc.1.db = s.db → (addrs.foldl writeCodeOf acc).1.db = s.db from
    this _ rfl
  induction addrs with
  | nil => exact fun _ hacc => hacc
  | cons addr addrs ih => exact fun acc hacc => ih _ ((db_writeCodeOf acc addr).trans hacc)

/-- Opening the root a commit returns gives the tries the state wrote, over
the storage tries and code of the trie database, when its extra-data trie
is not empty. -/
theorem openState_Commit
    (hx : hasher.extraDataRoot (s.IntermediateRoot hasher h deleteEmptyObjects).1.db.accountExtraDataTrie ≠ emptyRoot) :
    (s.Commit hasher h db deleteEmptyObjects).2.2.openState (s.Commit hasher h db deleteEmptyObjects).1 =
      { (s.IntermediateRoot hasher h deleteEmptyObjects).1.db with
        storage := (s.IntermediateRoot hasher h deleteEmptyObjects).2.1.foldl
          (fun tries t => Function.update tries t.1 t.2) db.storageTries,
        code := ((s.IntermediateRoot hasher h deleteEmptyObjects).1.writeDirtyCode db.code).2,
        keccak256 := db.keccak256 } := by
  unfold Commit
  rw [TrieDB.openState_Link, if_pos ⟨rfl, by rwa [db_writeDirtyCode]⟩]
  simp [TrieDB.openState, db_writeDirtyCode]

end Commit

end StateDB

/-! ## Two commits to one root

A state with metadata 1 on account 1 is committed; the state opened at its
root sets metadata 2 on the same account and is committed too. Its accounts
are the same, so its root is the same, and its `Link` overwrites the first
one's: the root no longer opens to what the first commit wrote. -/

open StateDB

def emptyTrieDB : TrieDB :=
  { accountTries := fun _ _ => none, storageTries := fun _ _ => 0, extraDataTries := fun _ _ => .missing,
    code := fun _ => [], extraDataRoots := fun _ => 0, keccak256 := fun _ => 0 }

/-- Balance 5 and metadata 1 set on account 1 of a new state. -/
def firstState : StateDB × Heap :=
  ((New emptyRoot emptyTrieDB).SetBalance 1 5).SetPrivacyMetadata emptyHeap 1 (some (testMetadata 1))

def firstAccounts : Address → Option Account := Function.update (fun _ => none) 1 (some ⟨0, 5, emptyRoot, some 0⟩)

def firstExtraData : Address → ExtraDataEntry :=
  Function.update (fun _ => .missing) 1 (.value ⟨some (testMetadata 1), []⟩)

def secondExtraData : Address → ExtraDataEntry :=
  Function.update firstExtraData 1 (.value ⟨some (testMetadata 2), []⟩)

/-- The tries the first commit writes, as the first root opens to. -/
def firstDatabase : Database := { emptyDatabase with accounts := firstAccounts, accountExtraDataTrie := firstExtraData }

theorem firstExtraData_ne_missing : firstExtraData ≠ fun _ => .missing := by
  intro h
  have h1 := congrFun h 1
  simp [firstExtraData] at h1

theorem secondExtraData_ne_missing : secondExtraData ≠ fun _ => .missing := by
  intro h
  have h1 := congrFun h 1
  simp [secondExtraData] at h1

section
variable (hasher : TrieHasher)

def firstCommit : Hash × StateDB × TrieDB :=
  firstState.1.Commit hasher firstState.2 emptyTrieDB true

/-- The state committed first opened again, and metadata 2 set on account 1. -/
def secondState : StateDB × Heap :=
  (New (firstCommit hasher).1 (firstCommit hasher).2.2).SetPrivacyMetadata firstState.2 1 (some (testMetadata 2))

def secondCommit : Hash × StateDB × TrieDB :=
  (secondState hasher).1.Commit hasher (secondState hasher).2 (firstCommit hasher).2.2 true

/-- The roots of the two commits, what the first committing state reads for
account 1, and what the first root opens to before and after the second
commit. -/
def linkedReads :
    Hash × Hash × Except StateError (Option PrivacyMetadata) × Except StateError (Option PrivacyMetadata) ×
      Except StateError (Option PrivacyMetadata) :=
  ((firstCommit hasher).1, (secondCommit hasher).1, firstState.1.GetPrivacyMetadata firstState.2 1,
    (New (firstCommit hasher).1 (firstCommit hasher).2.2).GetPrivacyMetadata (secondState hasher).2 1,
    (New (firstCommit hasher).1 (secondCommit hasher).2.2).GetPrivacyMetadata (secondState hasher).2 1)

-- a non-empty extra-data trie has a non-empty root, as Keccak roots have
variable (hne : ∀ extra : Address → ExtraDataEntry, extra ≠ (fun _ => .missing) → hasher.extraDataRoot extra ≠ emptyRoot)
include hne

theorem New_firstCommit : New (firstCommit hasher).1 (firstCommit hasher).2.2 = StateDB.New firstDatabase := by
  have hx : hasher.extraDataRoot (firstState.1.IntermediateRoot hasher firstState.2 true).1.db.accountExtraDataTrie ≠
      emptyRoot := hne _ firstExtraData_ne_missing
  unfold New firstCommit
  rw [openState_Commit _ _ _ _ _ hx]
  rfl

theorem secondState_eq :
    secondState hasher = (StateDB.New firstDatabase).SetPrivacyMetadata firstState.2 1 (some (testMetadata 2)) := by
  unfold secondState
  rw [New_firstCommit hasher hne]

theorem secondCommit_root : (secondCommit hasher).1 = (firstCommit hasher).1 := by
  -- account 1 is written back unchanged
  have hacc : ((secondState hasher).1.IntermediateRoot hasher (secondState hasher).2 true).1.db.accounts =
      firstAccounts := by
    rw [secondState_eq hasher hne]
    exact Function.update_idem _ _ _
  unfold secondCommit
  rw [Commit_root, hacc]
  rfl

/-- After the second commit the first root opens to the second state's extra
data. -/
theorem GetPrivacyMetadata_New_secondCommit :
    (New (firstCommit hasher).1 (secondCommit hasher).2.2).GetPrivacyMetadata (secondState hasher).2 1 =
      .ok (some (testMetadata 2)) := by
  have hx : hasher.extraDataRoot
      ((secondState hasher).1.IntermediateRoot hasher (secondState hasher).2 true).1.db.accountExtraDataTrie ≠
        emptyRoot := by
    rw [secondState_eq hasher hne]
    exact hne _ secondExtraData_ne_missing
  rw [← secondCommit_root hasher hne]
  unfold New secondCommit
  rw [openState_Commit _ _ _ _ _ hx, secondState_eq hasher hne]
  rfl

end

/-- **A later commit to the same root changes what the root opens to.** The
first committing state reads metadata 1, and so does its root opened at
once; after a state with the same accounts and metadata 2 commits to the
same root, the root opens to metadata 2. -/
theorem reopened_root_reads_privacyMetadata_of_later_commit (hasher : TrieHasher)
    (hne : ∀ extra : Address → ExtraDataEntry, extra ≠ (fun _ => .missing) → hasher.extraDataRoot extra ≠ emptyRoot) :
    ∃ root, linkedReads hasher =
      (root, root, .ok (some (testMetadata 1)), .ok (some (testMetadata 1)), .ok (some (testMetadata 2))) := by
  refine ⟨(firstCommit hasher).1, ?_⟩
  unfold linkedReads
  rw [secondCommit_root hasher hne, GetPrivacyMetadata_New_secondCommit hasher hne, New_firstCommit hasher hne]
  rfl

/-- Trie hashes under which every extra-data trie has the root 1. -/
def constantHasher : TrieHasher := ⟨fun _ => 0, fun _ => 0, fun _ => 1⟩

theorem reopened_root_reads_privacyMetadata_of_later_commit_at_constantHasher :
    (∀ extra : Address → ExtraDataEntry, extra ≠ (fun _ => .missing) → constantHasher.extraDataRoot extra ≠ emptyRoot) ∧
    ∃ root, linkedReads constantHasher =
      (root, root, .ok (some (testMetadata 1)), .ok (some (testMetadata 1)), .ok (some (testMetadata 2))) :=
  have hne : ∀ extra : Address → ExtraDataEntry, extra ≠ (fun _ => .missing) →
      constantHasher.extraDataRoot extra ≠ emptyRoot := fun _ _ => (by decide : (1 : Hash) ≠ emptyRoot)
  ⟨hne, reopened_root_reads_privacyMetadata_of_later_commit constantHasher hne⟩

end Xdchain.State
