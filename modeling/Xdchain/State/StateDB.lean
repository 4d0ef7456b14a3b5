import Xdchain.State.Journal
import Xdchain.Lib.Search

/-! # StateDB

The getters and the journaled setters of `core/state`, with `Snapshot`,
`RevertToSnapshot` and `Copy`. A setter takes the account's object from
`GetOrNewStateObject`, journals what it overwrites and writes the object
back; the setters of the extra data also take and give the heap of records,
which they write through. -/

namespace Xdchain.State
open Xdchain.Lib

/-- The precompile whose touch the journal marks dirty on its own. -/
def ripemd : Address := 3

/-! ## Journaled changes to one object -/

namespace StateObject

def touch (obj : StateObject) (s : StateDB) : StateDB :=
  let s := s.append (.touchChange obj.address)
  if obj.address = ripemd then { s with journal := s.journal.dirty obj.address } else s

def SetBalance (obj : StateObject) (amount : Int) (s : StateDB) : StateDB :=
  (s.append (.balanceChange obj.address obj.data.balance)).setStateObject (obj.setBalance amount)

/-- Adding zero only touches, and only an empty account. -/
def AddBalance (obj : StateObject) (amount : Int) (s : StateDB) : StateDB :=
  if amount = 0 then (if obj.empty s.db then obj.touch s else s)
  else obj.SetBalance (obj.data.balance + amount) s

def SubBalance (obj : StateObject) (amount : Int) (s : StateDB) : StateDB :=
  if amount = 0 then s else obj.SetBalance (obj.data.balance - amount) s

def SetNonce (obj : StateObject) (nonce : Nat) (s : StateDB) : StateDB :=
  (s.append (.nonceChange obj.address obj.data.nonce)).setStateObject (obj.setNonce nonce)

def SetCode (obj : StateObject) (codeHash : Hash) (code : List UInt8) (s : StateDB) : StateDB :=
  let prevcode := obj.Code s.db
  (s.append (.codeChange obj.address prevcode obj.data.codeHash)).setStateObject
    (obj.setCode codeHash code)

/-- A fake storage takes the write unjournaled. Otherwise an unchanged value
is not journaled either. -/
def SetState (obj : StateObject) (key value : Hash) (s : StateDB) : StateDB :=
  match obj.fakeStorage with
  | some fake => s.setStateObject { obj with fakeStorage := some (fake.insert key value) }
  | none =>
    let prev := obj.GetState s.db key
    if prev = value then s
    else (s.append (.storageChange obj.address key prev)).setStateObject (obj.setState key value)

def SetStorage (obj : StateObject) (storage : KeyMap Hash Hash) (s : StateDB) : StateDB :=
  let fake := obj.fakeStorage.getD .empty
  s.setStateObject { obj with fakeStorage := some (storage.entries.foldl (fun m kv => m.insert kv.1 kv.2) fake) }

/-- `journalAccountExtraData`: journal a copy of the current record and give
the record to write, a fresh one if there is none. Reading the current
record caches a committed one in a fresh cell. -/
def journalAccountExtraData (obj : StateObject) (s : StateDB) (h : Heap) :
    StateObject × Ptr × StateDB × Heap :=
  let (obj, current, h) : StateObject × Option Ptr × Heap :=
    match obj.accountExtraData with
    | some p => (obj, some p, h)
    | none =>
      match obj.getCommittedAccountExtraData s.db with
      | .ok v =>
        let (p, h) := h.alloc v
        ({ obj with accountExtraData := some p }, some p, h)
      | .error _ => (obj, none, h)
  let (prev, h) := AccountExtraData.copy current h
  let s := s.append (.accountExtraDataChange obj.address prev)
  match current with
  | some p => (obj, p, s, h)
  | none =>
    let (p, h) := h.alloc { privacyMetadata := none, managedParties := [] }
    (obj, p, s, h)

def SetStatePrivacyMetadata (obj : StateObject) (pm : Option State.PrivacyMetadata) (s : StateDB)
    (h : Heap) : StateDB × Heap :=
  let (obj, p, s, h) := obj.journalAccountExtraData s h
  let h := h.write p { h.cells p with privacyMetadata := pm }
  (s.setStateObject (obj.setAccountExtraData (some p)), h)

def SetManagedParties (obj : StateObject) (managedParties : List String) (s : StateDB) (h : Heap) :
    StateDB × Heap :=
  let (obj, p, s, h) := obj.journalAccountExtraData s h
  let h := h.write p { h.cells p with managedParties := managedParties }
  (s.setStateObject (obj.setAccountExtraData (some p)), h)

end StateObject

namespace StateDB

/-- `New`: an empty state over the committed one. -/
def New (db : Database) : StateDB :=
  { db, stateObjects := .empty, stateObjectsPending := .empty, stateObjectsDirty := .empty,
    refund := 0, thash := 0, bhash := 0, txIndex := 0, logs := .empty, logSize := 0,
    preimages := .empty, accessList := AccessList.newAccessList, journal := Journal.newJournal,
    validRevisions := [], nextRevisionId := 0 }

/-- `StateDB.Reset`: the objects, logs and preimages dropped over the
committed state at `root`; the journal and refund cleared when the journal
holds entries. -/
def Reset (s : StateDB) (db : Database) : StateDB :=
  let (journal, refund) := if s.journal.entries = [] then (s.journal, s.refund) else (Journal.newJournal, 0)
  { s with db, stateObjects := .empty, stateObjectsPending := .empty, stateObjectsDirty := .empty,
           thash := 0, bhash := 0, txIndex := 0, logs := .empty, logSize := 0, preimages := .empty,
           journal, refund, validRevisions := [] }

/-! ## Objects -/

/-- A new object for `addr`, journaled as a creation, or as a reset of the
object it replaces, deleted or not. Also gives the replaced object when it
was not deleted. -/
def createObject (s : StateDB) (addr : Address) : StateObject × Option StateObject × StateDB :=
  let prev := s.getDeletedStateObject addr
  let newobj := (newObject s.db addr ⟨0, 0, 0, none⟩).setNonce 0
  let s := match prev with
    | none => s.append (.createObjectChange addr)
    | some prev => s.append (.resetObjectChange prev)
  (newobj, prev.filter (fun prev => !prev.deleted), s.setStateObject newobj)

def GetOrNewStateObject (s : StateDB) (addr : Address) : StateObject × StateDB :=
  match s.getStateObject addr with
  | some obj => (obj, s)
  | none =>
    let (newobj, _, s) := s.createObject addr
    (newobj, s)

/-- A new account keeps the balance of the one it replaces. -/
def CreateAccount (s : StateDB) (addr : Address) : StateDB :=
  let (newObj, prev, s) := s.createObject addr
  match prev with
  | some prev => s.setStateObject (newObj.setBalance prev.data.balance)
  | none => s

/-! ## Getters -/

def Exist (s : StateDB) (addr : Address) : Bool := (s.getStateObject addr).isSome

def Empty (s : StateDB) (addr : Address) : Bool :=
  match s.getStateObject addr with
  | some so => so.empty s.db
  | none => true

def GetBalance (s : StateDB) (addr : Address) : Int :=
  match s.getStateObject addr with
  | some stateObject => stateObject.data.balance
  | none => 0

def GetNonce (s : StateDB) (addr : Address) : Nat :=
  match s.getStateObject addr with
  | some stateObject => stateObject.data.nonce
  | none => 0

def GetCode (s : StateDB) (addr : Address) : List UInt8 :=
  match s.getStateObject addr with
  | some stateObject => stateObject.Code s.db
  | none => []

def GetCodeHash (s : StateDB) (addr : Address) : Hash :=
  match s.getStateObject addr with
  | some stateObject => stateObject.data.codeHash.getD 0
  | none => 0

def GetState (s : StateDB) (addr : Address) (hash : Hash) : Hash :=
  match s.getStateObject addr with
  | some stateObject => stateObject.GetState s.db hash
  | none => 0

def GetCommittedState (s : StateDB) (addr : Address) (hash : Hash) : Hash :=
  match s.getStateObject addr with
  | some stateObject => stateObject.GetCommittedState s.db hash
  | none => 0

def HasSuicided (s : StateDB) (addr : Address) : Bool :=
  match s.getStateObject addr with
  | some stateObject => stateObject.suicided
  | none => false

def GetRefund (s : StateDB) : Nat := s.refund

def GetLogs (s : StateDB) (hash : Hash) : List Log := (s.logs.find? hash).getD []

def Preimages (s : StateDB) : KeyMap Hash (List UInt8) := s.preimages

def AddressInAccessList (s : StateDB) (addr : Address) : Bool := s.accessList.ContainsAddress addr

def SlotInAccessList (s : StateDB) (addr : Address) (slot : Hash) : Option (Bool × Bool) :=
  s.accessList.Contains addr slot

def GetPrivacyMetadata (s : StateDB) (h : Heap) (addr : Address) :
    Except StateError (Option PrivacyMetadata) :=
  match s.getStateObject addr with
  | some stateObject => stateObject.PrivacyMetadata s.db h
  | none => .ok none

def GetManagedParties (s : StateDB) (h : Heap) (addr : Address) : Except StateError (List String) :=
  match s.getStateObject addr with
  | some stateObject => stateObject.ManagedParties s.db h
  | none => .ok []

def TxIndex (s : StateDB) : Nat := s.txIndex

def BlockHash (s : StateDB) : Hash := s.bhash

/-! ## Setters -/

def AddBalance (s : StateDB) (addr : Address) (amount : Int) : StateDB :=
  let (stateObject, s) := s.GetOrNewStateObject addr
  stateObject.AddBalance amount s

def SubBalance (s : StateDB) (addr : Address) (amount : Int) : StateDB :=
  let (stateObject, s) := s.GetOrNewStateObject addr
  stateObject.SubBalance amount s

def SetBalance (s : StateDB) (addr : Address) (amount : Int) : StateDB :=
  let (stateObject, s) := s.GetOrNewStateObject addr
  stateObject.SetBalance amount s

def SetNonce (s : StateDB) (addr : Address) (nonce : Nat) : StateDB :=
  let (stateObject, s) := s.GetOrNewStateObject addr
  stateObject.SetNonce nonce s

def SetCode (s : StateDB) (addr : Address) (code : List UInt8) : StateDB :=
  let (stateObject, s) := s.GetOrNewStateObject addr
  stateObject.SetCode (s.db.keccak256 code) code s

def SetState (s : StateDB) (addr : Address) (key value : Hash) : StateDB :=
  let (stateObject, s) := s.GetOrNewStateObject addr
  stateObject.SetState key value s

def SetStorage (s : StateDB) (addr : Address) (storage : KeyMap Hash Hash) : StateDB :=
  let (stateObject, s) := s.GetOrNewStateObject addr
  stateObject.SetStorage storage s

def SetPrivacyMetadata (s : StateDB) (h : Heap) (addr : Address) (metadata : Option PrivacyMetadata) :
    StateDB × Heap :=
  let (stateObject, s) := s.GetOrNewStateObject addr
  stateObject.SetStatePrivacyMetadata metadata s h

/-- An empty list of parties is not written. -/
def SetManagedParties (s : StateDB) (h : Heap) (addr : Address) (managedParties : List String) :
    StateDB × Heap :=
  let (stateObject, s) := s.GetOrNewStateObject addr
  if 0 < managedParties.length then stateObject.SetManagedParties managedParties s h else (s, h)

/-- Marks the account suicided and empties its balance; `false` for no account. -/
def Suicide (s : StateDB) (addr : Address) : Bool × StateDB :=
  match s.getStateObject addr with
  | none => (false, s)
  | some stateObject =>
    let s := s.append (.suicideChange addr stateObject.suicided stateObject.data.balance)
    (true, s.setStateObject (stateObject.markSuicided.setBalance 0))

/-- The log gets the transaction's hash and index, the block hash and the next
log index. -/
def AddLog (s : StateDB) (log : Log) : StateDB :=
  let s := s.append (.addLogChange s.thash)
  let log := { log with txHash := s.thash, blockHash := s.bhash, txIndex := s.txIndex,
                        index := s.logSize }
  { s with logs := s.logs.insert s.thash ((s.logs.find? s.thash).getD [] ++ [log]),
           logSize := s.logSize + 1 }

/-- Only the first preimage of a hash is kept. -/
def AddPreimage (s : StateDB) (hash : Hash) (preimage : List UInt8) : StateDB :=
  if (s.preimages.find? hash).isNone then
    let s := s.append (.addPreimageChange hash)
    { s with preimages := s.preimages.insert hash preimage }
  else s

def AddRefund (s : StateDB) (gas : Nat) : StateDB :=
  let s := s.append (.refundChange s.refund)
  { s with refund := (s.refund + gas) % 2 ^ 64 }

/-- `none` where the counter would go below zero: the code panics. -/
def SubRefund (s : StateDB) (gas : Nat) : Option StateDB :=
  let s := s.append (.refundChange s.refund)
  if gas > s.refund then none else some { s with refund := s.refund - gas }

def AddAddressToAccessList (s : StateDB) (addr : Address) : StateDB :=
  let (al, added) := s.accessList.AddAddress addr
  let s := { s with accessList := al }
  if added then s.append (.accessListAddAccountChange addr) else s

/-- `none` where `AddSlot` panics. -/
def AddSlotToAccessList (s : StateDB) (addr : Address) (slot : Hash) : Option StateDB :=
  (s.accessList.AddSlot addr slot).map fun (al, addrMod, slotMod) =>
    let s := { s with accessList := al }
    let s := if addrMod then s.append (.accessListAddAccountChange addr) else s
    if slotMod then s.append (.accessListAddSlotChange addr slot) else s

/-- A new transaction: its hashes and index, and an empty access list. -/
def Prepare (s : StateDB) (thash bhash : Hash) (ti : Nat) : StateDB :=
  { s with thash := thash, bhash := bhash, txIndex := ti,
           accessList := AccessList.newAccessList }

/-! ## Snapshots -/

def Snapshot (s : StateDB) : Nat × StateDB :=
  let id := s.nextRevisionId
  (id, { s with nextRevisionId := s.nextRevisionId + 1,
                validRevisions := s.validRevisions ++ [⟨id, s.journal.length⟩] })

/-- Finds the revision by binary search over the revisions, reverts the
journal to its index and drops it with every later one. `none` where the
code panics: an id that is not a valid revision. -/
def RevertToSnapshot (s : StateDB) (revid : Nat) : Option StateDB :=
  let idx := search s.validRevisions.length fun i =>
    decide (revid ≤ (s.validRevisions.getD i ⟨0, 0⟩).id)
  match s.validRevisions[idx]? with
  | none => none
  | some r =>
    if r.id ≠ revid then none
    else (s.revertJournal r.journalIndex).map fun t =>
      { t with validRevisions := s.validRevisions.take idx }

/-! ## Copy -/

/-- `Copy`: the objects of the journal's dirty accounts, and the pending and
dirty objects, deep-copied; the logs, preimages, refund and access list
copied; the transaction's hashes and index, the journal and the revisions
new. `none` where a pending or dirty account has no object: the code
panics. -/
def Copy (s : StateDB) : Option StateDB := do
  let state : StateDB :=
    { db := s.db, stateObjects := .empty, stateObjectsPending := .empty,
      stateObjectsDirty := .empty, refund := s.refund, thash := 0, bhash := 0, txIndex := 0,
      logs := s.logs, logSize := s.logSize, preimages := s.preimages,
      accessList := s.accessList, journal := Journal.newJournal, validRevisions := [],
      nextRevisionId := 0 }
  let state := s.journal.dirties.keys.foldl (fun state addr =>
    match s.stateObjects.find? addr with
    | some object =>
      { state with stateObjects := state.stateObjects.insert addr (object.deepCopy state.db),
                   stateObjectsDirty := state.stateObjectsDirty.insert addr (),
                   stateObjectsPending := state.stateObjectsPending.insert addr () }
    | none => state) state
  let copyMissing (state : StateDB) (addr : Address) : Option StateDB :=
    if (state.stateObjects.find? addr).isSome then some state
    else (s.stateObjects.find? addr).map fun object =>
      { state with stateObjects := state.stateObjects.insert addr (object.deepCopy state.db) }
  let state ← s.stateObjectsPending.keys.foldlM (fun state addr => do
    let state ← copyMissing state addr
    pure { state with stateObjectsPending := state.stateObjectsPending.insert addr () }) state
  s.stateObjectsDirty.keys.foldlM (fun state addr => do
    let state ← copyMissing state addr
    pure { state with stateObjectsDirty := state.stateObjectsDirty.insert addr () }) state

end StateDB

end Xdchain.State
