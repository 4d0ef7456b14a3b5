import Xdchain.State.AccessList
import Xdchain.Lib.Journal

/-! # The state journal

Every journaled change to a `StateDB` appends an entry that records what the
change overwrote; `journal.revert` walks the entries from the newest down to
a snapshot's index, reverting each one and taking back its dirty count. An
entry's revert writes the recorded value back into the object the account
has when the revert runs, which in a revert in order is the object the
change wrote.

The `StateDB` is here with the journal because entries revert on it. -/

namespace Xdchain.State
open Xdchain.Lib

structure Log where
  address : Address
  topics : List Hash
  data : List UInt8
  txHash : Hash
  txIndex : Nat
  blockHash : Hash
  index : Nat
deriving DecidableEq, Repr

inductive JournalEntry where
  | createObjectChange (account : Address)
  | resetObjectChange (prev : StateObject)
  | suicideChange (account : Address) (prev : Bool) (prevbalance : Int)
  | balanceChange (account : Address) (prev : Int)
  | nonceChange (account : Address) (prev : Nat)
  | storageChange (account : Address) (key prevalue : Hash)
  | codeChange (account : Address) (prevcode : List UInt8) (prevhash : Option Hash)
  | accountExtraDataChange (account : Address) (prev : Option Ptr)
  | refundChange (prev : Nat)
  | addLogChange (txhash : Hash)
  | addPreimageChange (hash : Hash)
  | touchChange (account : Address)
  | accessListAddAccountChange (address : Address)
  | accessListAddSlotChange (address : Address) (slot : Hash)
deriving DecidableEq

/-- The account an entry counts as dirty, if any. -/
def JournalEntry.dirtied : JournalEntry → Option Address
  | .createObjectChange account | .suicideChange account _ _ | .balanceChange account _
  | .nonceChange account _ | .storageChange account _ _ | .codeChange account _ _
  | .accountExtraDataChange account _ | .touchChange account => some account
  | _ => none

structure Journal where
  entries : List JournalEntry
  dirties : KeyMap Address Int

namespace Journal

def newJournal : Journal := ⟨[], .empty⟩

def dirty (j : Journal) (addr : Address) : Journal :=
  { j with dirties := j.dirties.insert addr ((j.dirties.find? addr).getD 0 + 1) }

def append (j : Journal) (entry : JournalEntry) : Journal :=
  let j := { j with entries := j.entries ++ [entry] }
  match entry.dirtied with
  | some addr => j.dirty addr
  | none => j

/-- `j.dirties[addr]--`, and the count dropped at zero. -/
def undirty (j : Journal) (addr : Address) : Journal :=
  let n := (j.dirties.find? addr).getD 0 - 1
  { j with dirties := if n = 0 then j.dirties.erase addr else j.dirties.insert addr n }

def length (j : Journal) : Nat := j.entries.length

end Journal

structure Revision where
  id : Nat
  journalIndex : Nat
deriving DecidableEq, Repr

/-- The state during block execution. Left out: the snapshot tree, the
metrics, the database error and the tries' handles. -/
structure StateDB where
  db : Database
  stateObjects : KeyMap Address StateObject
  stateObjectsPending : KeyMap Address Unit
  stateObjectsDirty : KeyMap Address Unit
  refund : Nat
  thash : Hash
  bhash : Hash
  txIndex : Nat
  logs : KeyMap Hash (List Log)
  logSize : Nat
  preimages : KeyMap Hash (List UInt8)
  accessList : AccessList
  journal : Journal
  validRevisions : List Revision
  nextRevisionId : Nat

namespace StateDB

/-- The live object, else the one the account trie holds. The code caches
the loaded object in `stateObjects`; every change writes the object back
below, so reads that do not cache see the same object. -/
def getDeletedStateObject (s : StateDB) (addr : Address) : Option StateObject :=
  match s.stateObjects.find? addr with
  | some obj => some obj
  | none => (s.db.accounts addr).map (newObject s.db addr)

def getStateObject (s : StateDB) (addr : Address) : Option StateObject :=
  (s.getDeletedStateObject addr).filter fun obj => !obj.deleted

def setStateObject (s : StateDB) (object : StateObject) : StateDB :=
  { s with stateObjects := s.stateObjects.insert object.address object }

def append (s : StateDB) (entry : JournalEntry) : StateDB :=
  { s with journal := s.journal.append entry }

/-- `s.getStateObject(addr).f(...)` in a revert; `none` for the nil object. -/
def modifyObject (s : StateDB) (addr : Address) (f : StateObject → StateObject) : Option StateDB :=
  (s.getStateObject addr).map fun obj => s.setStateObject (f obj)

end StateDB

namespace JournalEntry

/-- The entry's `revert`; `none` where it panics. -/
def revert : JournalEntry → StateDB → Option StateDB
  | .createObjectChange account, s =>
    some { s with stateObjects := s.stateObjects.erase account,
                  stateObjectsDirty := s.stateObjectsDirty.erase account }
  | .resetObjectChange prev, s => some (s.setStateObject prev)
  | .suicideChange account prev prevbalance, s =>
    some ((s.modifyObject account fun obj => { obj with suicided := prev }.setBalance prevbalance).getD s)
  | .balanceChange account prev, s => s.modifyObject account fun obj => obj.setBalance prev
  | .nonceChange account prev, s => s.modifyObject account fun obj => obj.setNonce prev
  | .codeChange account prevcode prevhash, s =>
    s.modifyObject account fun obj => obj.setCode (prevhash.getD 0) prevcode
  | .accountExtraDataChange account prev, s =>
    s.modifyObject account fun obj => obj.setAccountExtraData prev
  | .storageChange account key prevalue, s =>
    s.modifyObject account fun obj => obj.setState key prevalue
  | .refundChange prev, s => some { s with refund := prev }
  | .addLogChange txhash, s =>
    let logs := (s.logs.find? txhash).getD []
    if logs.length = 1 then
      some { s with logs := s.logs.erase txhash, logSize := s.logSize - 1 }
    else if logs.length = 0 then none
    else some { s with logs := s.logs.insert txhash (logs.take (logs.length - 1)),
                       logSize := s.logSize - 1 }
  | .addPreimageChange hash, s => some { s with preimages := s.preimages.erase hash }
  | .touchChange _, s => some s
  | .accessListAddAccountChange address, s =>
    some { s with accessList := s.accessList.DeleteAddress address }
  | .accessListAddSlotChange address slot, s =>
    (s.accessList.DeleteSlot address slot).map fun al => { s with accessList := al }

/-- One turn of `journal.revert`'s loop. -/
def revertStep (e : JournalEntry) (s : StateDB) : Option StateDB :=
  (e.revert s).map fun s =>
    match e.dirtied with
    | some addr => { s with journal := s.journal.undirty addr }
    | none => s

end JournalEntry

/-- `s.journal.revert(s, snapshot)`: the entries from the newest down to
`snapshot` reverted, then cut off. -/
def StateDB.revertJournal (s : StateDB) (snapshot : Nat) : Option StateDB :=
  if s.journal.length < snapshot then none
  else (Lib.Journal.undoAll JournalEntry.revertStep (s.journal.entries.drop snapshot) s).map fun t =>
    { t with journal := { t.journal with entries := s.journal.entries.take snapshot } }

end Xdchain.State
