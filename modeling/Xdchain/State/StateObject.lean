import Xdchain.Lib.KeyMap

/-! # State objects

An account as `core/state` holds it while transactions execute: its trie
data, its cached code, its storage in three layers (dirty, pending and
origin) over the committed storage trie, and the Quorum account extra data.

The extra data is the one part of a state object held by reference: the
field is a `*AccountExtraData`, and `SetStatePrivacyMetadata` writes through
it. The model keeps a heap of such records, and the field is the address of
one. The tries under a state are a `Database` of read-only functions: nothing
modelled here commits. -/

namespace Xdchain.State
open Xdchain.Lib

abbrev Address := Nat
abbrev Hash := Nat
/-- A `*AccountExtraData`: the address of a record in the heap. -/
abbrev Ptr := Nat

/-- The root of the empty trie. -/
def emptyRoot : Hash := 0x56e81f171bcc55a6ff8345e692c0f86e5b48e01b996cadc001622fb5e363b421

/-- An account as the account trie stores it. `codeHash` is `none` for the
`Account{}` of a new object. -/
structure Account where
  nonce : Nat
  balance : Int
  root : Hash
  codeHash : Option Hash
deriving DecidableEq, Repr

structure PrivacyMetadata where
  creationTxHash : Hash
  privacyFlag : Nat
deriving DecidableEq, Repr

structure AccountExtraData where
  privacyMetadata : Option PrivacyMetadata
  managedParties : List String
deriving DecidableEq, Repr

/-! ## The heap of extra-data records -/

/-- The records behind `*AccountExtraData` pointers, and the next free address. -/
structure Heap where
  cells : Ptr → AccountExtraData
  next : Ptr

namespace Heap

/-- `&AccountExtraData{...}`: a fresh record. -/
def alloc (h : Heap) (v : AccountExtraData) : Ptr × Heap :=
  (h.next, { cells := Function.update h.cells h.next v, next := h.next + 1 })

/-- A write through a pointer. -/
def write (h : Heap) (p : Ptr) (v : AccountExtraData) : Heap :=
  { h with cells := Function.update h.cells p v }

@[simp] theorem alloc_fst (h : Heap) (v : AccountExtraData) : (h.alloc v).1 = h.next := rfl

@[simp] theorem next_alloc (h : Heap) (v : AccountExtraData) : (h.alloc v).2.next = h.next + 1 :=
  rfl

@[simp] theorem next_write (h : Heap) (p : Ptr) (v : AccountExtraData) : (h.write p v).next = h.next :=
  rfl

theorem cells_alloc (h : Heap) (v : AccountExtraData) (p : Ptr) :
    (h.alloc v).2.cells p = if p = h.next then v else h.cells p := by
  simp [alloc, Function.update_apply]

theorem cells_write (h : Heap) (q : Ptr) (v : AccountExtraData) (p : Ptr) :
    (h.write q v).cells p = if p = q then v else h.cells p := by
  simp [write, Function.update_apply]

end Heap

/-- `qmd.copy()`: a fresh record with the same contents, `nil` for `nil`. -/
def AccountExtraData.copy (qmd : Option Ptr) (h : Heap) : Option Ptr × Heap :=
  match qmd with
  | none => (none, h)
  | some p =>
    let cp := h.cells p
    let (q, h) := h.alloc { privacyMetadata := cp.privacyMetadata, managedParties := cp.managedParties }
    (some q, h)

/-! ## The tries under a state -/

/-- What the extra-data trie holds at an address, as
`getCommittedAccountExtraData` reads it. -/
inductive ExtraDataEntry where
  /-- `TryGet` failed. -/
  | failed
  /-- No value. -/
  | missing
  /-- A value that does not decode. -/
  | undecodable
  | value (v : AccountExtraData)
deriving DecidableEq, Repr

/-- Why `getCommittedAccountExtraData` fails. -/
inductive ExtraDataError where
  | retrieve
  /-- `common.ErrNoAccountExtraData`, for this address. -/
  | noAccountExtraData (addr : Address)
  | decode
deriving DecidableEq, Repr

/-- The committed state: accounts (`none` where the trie has none or it does
not decode), storage by storage root, code by code hash, extra data by
address, and the hash the state hashes code with. -/
structure Database where
  accounts : Address → Option Account
  storage : Hash → Hash → Hash
  code : Hash → List UInt8
  accountExtraDataTrie : Address → ExtraDataEntry
  keccak256 : List UInt8 → Hash

def Database.emptyCodeHash (db : Database) : Hash := db.keccak256 []

/-! ## State objects -/

structure StateObject where
  address : Address
  data : Account
  /-- `nil` until loaded or set. -/
  code : Option (List UInt8)
  originStorage : KeyMap Hash Hash
  pendingStorage : KeyMap Hash Hash
  dirtyStorage : KeyMap Hash Hash
  /-- The storage `SetStorage` overrides the account's with, if any. -/
  fakeStorage : Option (KeyMap Hash Hash)
  dirtyCode : Bool
  suicided : Bool
  deleted : Bool
  accountExtraData : Option Ptr
  dirtyAccountExtraData : Bool
deriving DecidableEq

def newObject (db : Database) (address : Address) (data : Account) : StateObject :=
  let data := { data with
    codeHash := if data.codeHash = none then some db.emptyCodeHash else data.codeHash
    root := if data.root = 0 then emptyRoot else data.root }
  { address, data, code := none, originStorage := .empty, pendingStorage := .empty,
    dirtyStorage := .empty, fakeStorage := none, dirtyCode := false, suicided := false,
    deleted := false, accountExtraData := none, dirtyAccountExtraData := false }

namespace StateObject

variable (db : Database)

def empty (s : StateObject) : Bool :=
  s.data.nonce == 0 && s.data.balance == 0 && s.data.codeHash == some db.emptyCodeHash

def setBalance (s : StateObject) (amount : Int) : StateObject :=
  { s with data := { s.data with balance := amount } }

def setNonce (s : StateObject) (nonce : Nat) : StateObject :=
  { s with data := { s.data with nonce := nonce } }

def setCode (s : StateObject) (codeHash : Hash) (code : List UInt8) : StateObject :=
  { s with code := some code, data := { s.data with codeHash := some codeHash }, dirtyCode := true }

def setState (s : StateObject) (key value : Hash) : StateObject :=
  { s with dirtyStorage := s.dirtyStorage.insert key value }

def markSuicided (s : StateObject) : StateObject := { s with suicided := true }

def setAccountExtraData (s : StateObject) (extraData : Option Ptr) : StateObject :=
  { s with accountExtraData := extraData, dirtyAccountExtraData := true }

/-- The code, loaded by its hash when not cached. -/
def Code (s : StateObject) : List UInt8 :=
  match s.code with
  | some code => code
  | none => if s.data.codeHash = some db.emptyCodeHash then [] else db.code (s.data.codeHash.getD 0)

/-- The value before this transaction: pending, then origin, then the
storage trie under the object's root. A fake storage answers alone. -/
def GetCommittedState (s : StateObject) (key : Hash) : Hash :=
  match s.fakeStorage with
  | some fake => (fake.find? key).getD 0
  | none =>
    match s.pendingStorage.find? key with
    | some value => value
    | none =>
      match s.originStorage.find? key with
      | some value => value
      | none => db.storage s.data.root key

def GetState (s : StateObject) (key : Hash) : Hash :=
  match s.fakeStorage with
  | some fake => (fake.find? key).getD 0
  | none =>
    match s.dirtyStorage.find? key with
    | some value => value
    | none => s.GetCommittedState db key

def getCommittedAccountExtraData (s : StateObject) : Except ExtraDataError State.AccountExtraData :=
  match db.accountExtraDataTrie s.address with
  | .failed => .error .retrieve
  | .missing => .error (.noAccountExtraData s.address)
  | .undecodable => .error .decode
  | .value v => .ok v

/-- The extra data the object points to, else the committed one. The code
caches a committed record in the object; the model reads it again, which
gives the same record. -/
def AccountExtraData (h : Heap) (s : StateObject) : Except ExtraDataError State.AccountExtraData :=
  match s.accountExtraData with
  | some p => .ok (h.cells p)
  | none => s.getCommittedAccountExtraData db

end StateObject

/-- Why a privacy-metadata or managed-parties read fails. -/
inductive StateError where
  | extraData (e : ExtraDataError)
  /-- "no privacy metadata data for contract %s" -/
  | noPrivacyMetadata (addr : Address)
deriving DecidableEq, Repr

namespace StateObject

variable (db : Database)

def PrivacyMetadata (h : Heap) (s : StateObject) : Except StateError (Option State.PrivacyMetadata) :=
  match s.AccountExtraData db h with
  | .error err => .error (.extraData err)
  | .ok extraData =>
    match extraData.privacyMetadata with
    | none => .error (.noPrivacyMetadata s.address)
    | some pm => .ok (some pm)

/-- A missing record is no managed parties. -/
def ManagedParties (h : Heap) (s : StateObject) : Except StateError (List String) :=
  match s.AccountExtraData db h with
  | .error (.noAccountExtraData _) => .ok []
  | .error err => .error (.extraData err)
  | .ok extraData => .ok extraData.managedParties

/-- `deepCopy`: the storage layers are copied, the extra-data pointer is not,
and the fake storage is dropped. -/
def deepCopy (s : StateObject) : StateObject :=
  { newObject db s.address s.data with
    code := s.code
    dirtyStorage := s.dirtyStorage
    originStorage := s.originStorage
    pendingStorage := s.pendingStorage
    suicided := s.suicided
    dirtyCode := s.dirtyCode
    deleted := s.deleted
    accountExtraData := s.accountExtraData
    dirtyAccountExtraData := s.dirtyAccountExtraData }

end StateObject

end Xdchain.State
