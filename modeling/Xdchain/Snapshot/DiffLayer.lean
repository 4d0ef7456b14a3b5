import Xdchain.Lib.KeyMap
import Xdchain.Lib.Bloom

/-! # Diff layers of the state snapshot

`core/state/snapshot/difflayer.go`. A diff layer holds what one block changed
over its parent: the accounts it destructed, the account blobs it wrote and
the storage slots it wrote. A lookup asks the layer, then its parent, down to
the disk layer: an account blob wins, then a destruct marker answers nil; a
slot wins, then a destruct of its account answers nil. Each layer carries a
bloom filter of every key written in it or in a diff layer below it, so that
`AccountRLP` and `Storage` go straight to the disk layer on a miss.
`flatten` merges a chain of diff layers into one layer over the disk layer,
keeping the top layer's filter.

A chain of layers (`Layer`) is `diff dl parent` or the disk layer at
its bottom, whose answers are a parameter. The pointer `origin` is the bottom
of the chain. The offsets the bloom hashers read at are drawn at `init` and
the filter `bloomfilter.New` returns derives its bit indices from random
keys: both are parameters. Left out: the locks, the metrics, the memory
estimate and the sorted key lists, which only iteration reads. -/

namespace Xdchain.Snapshot

open Xdchain.Lib

abbrev Hash := Vector UInt8 32

/-- A slot or account blob; `none` is Go's nil. -/
abbrev Blob := Option (List UInt8)

inductive SnapshotError where
  | snapshotStale
  | notCoveredYet
deriving DecidableEq, Repr

def uint64At (h : Hash) (offset : Nat) : UInt64 :=
  ((h.toList.drop offset).take 8).foldl (fun acc b => acc * 256 + b.toUInt64) 0

/-- `bloomDestructHasherOffset`, `bloomAccountHasherOffset` and
`bloomStorageHasherOffset`. -/
structure BloomOffsets where
  destruct : Nat
  account : Nat
  storage : Nat

section Hashers

variable (o : BloomOffsets)

def destructBloomHasher (h : Hash) : UInt64 := uint64At h o.destruct

def accountBloomHasher (h : Hash) : UInt64 := uint64At h o.account

def storageBloomHasher (accountHash storageHash : Hash) : UInt64 :=
  uint64At accountHash o.storage ^^^ uint64At storageHash o.storage

end Hashers

/-- What the layers read of the disk layer: its answers. -/
structure DiskLayer where
  AccountRLP : Hash → Except SnapshotError Blob
  Storage : Hash → Hash → Except SnapshotError Blob

structure DiffLayer where
  root : Hash
  stale : Bool
  destructSet : KeyMap Hash Unit
  accountData : KeyMap Hash (List UInt8)
  storageData : KeyMap Hash (KeyMap Hash (List UInt8))
  diffed : Bloom.Filter UInt64

/-- A layer of the snapshot tree, Go's interface `snapshot`: a diff layer
over its parent, or the disk layer. -/
inductive Layer where
  | disk (d : DiskLayer)
  | diff (dl : DiffLayer) (parent : Layer)

namespace DiffLayer

def slot (dl : DiffLayer) (accountHash storageHash : Hash) : Option (List UInt8) :=
  (dl.storageData.find? accountHash).bind fun storage => storage.find? storageHash

/-- Whether `dl.destructSet` holds `hash`. -/
def destructed (dl : DiffLayer) (hash : Hash) : Bool := (dl.destructSet.find? hash).isSome

end DiffLayer

namespace Layer

/-- The disk layer at the bottom: the `origin` every diff layer points at. -/
def origin : Layer → DiskLayer
  | disk d => d
  | diff _ parent => parent.origin

/-- `diffLayer.accountRLP(hash, depth)`: the lookup without the filter. -/
def accountRLP : Layer → Hash → Except SnapshotError Blob
  | disk d, hash => d.AccountRLP hash
  | diff dl parent, hash =>
    if dl.stale then .error .snapshotStale
    else match dl.accountData.find? hash with
      | some data => .ok (some data)
      | none => if dl.destructed hash then .ok none else parent.accountRLP hash

def storage : Layer → Hash → Hash → Except SnapshotError Blob
  | disk d, accountHash, storageHash => d.Storage accountHash storageHash
  | diff dl parent, accountHash, storageHash =>
    if dl.stale then .error .snapshotStale
    else match dl.slot accountHash storageHash with
      | some data => .ok (some data)
      | none => if dl.destructed accountHash then .ok none else parent.storage accountHash storageHash

variable (o : BloomOffsets)

/-- `AccountRLP(hash)`: a miss of both the account and the destruct filter
goes to the disk layer. -/
def AccountRLP : Layer → Hash → Except SnapshotError Blob
  | disk d, hash => d.AccountRLP hash
  | diff dl parent, hash =>
    let hit := dl.diffed.Contains (accountBloomHasher o hash) || dl.diffed.Contains (destructBloomHasher o hash)
    if !hit then parent.origin.AccountRLP hash else (diff dl parent).accountRLP hash

def Storage : Layer → Hash → Hash → Except SnapshotError Blob
  | disk d, accountHash, storageHash => d.Storage accountHash storageHash
  | diff dl parent, accountHash, storageHash =>
    let hit := dl.diffed.Contains (storageBloomHasher o accountHash storageHash) ||
      dl.diffed.Contains (destructBloomHasher o accountHash)
    if !hit then parent.origin.Storage accountHash storageHash
    else (diff dl parent).storage accountHash storageHash

/-- `rebloom(origin)`: the parent's filter copied, or a new one over the disk
layer, with the digests of the layer's own keys added. -/
def rebloom (fresh : Bloom.Filter UInt64) (parent : Layer) (destructs : KeyMap Hash Unit)
    (accounts : KeyMap Hash (List UInt8)) (storage : KeyMap Hash (KeyMap Hash (List UInt8))) :
    Bloom.Filter UInt64 :=
  let diffed := match parent with
    | diff pdl _ => pdl.diffed
    | disk _ => fresh
  let diffed := diffed.addAll (destructs.keys.map (destructBloomHasher o))
  let diffed := diffed.addAll (accounts.keys.map (accountBloomHasher o))
  diffed.addAll (storage.entries.flatMap fun e => e.2.keys.map (storageBloomHasher o e.1))

/-- `newDiffLayer(parent, root, destructs, accounts, storage)`, with `fresh`
the filter `bloomfilter.New` returns. Blobs are byte lists, never nil, so
its panics on nil blobs cannot happen here. -/
def newDiffLayer (fresh : Bloom.Filter UInt64) (parent : Layer) (root : Hash)
    (destructs : KeyMap Hash Unit) (accounts : KeyMap Hash (List UInt8))
    (storage : KeyMap Hash (KeyMap Hash (List UInt8))) : Layer :=
  diff ⟨root, false, destructs, accounts, storage, rebloom o fresh parent destructs accounts storage⟩ parent

end Layer

/-! ## Flattening -/

/-- One account of the storage loop of `flatten`: the child's slots are put
into the parent's map of the account, or become it. -/
def mergeStorage (storageData : KeyMap Hash (KeyMap Hash (List UInt8)))
    (e : Hash × KeyMap Hash (List UInt8)) : KeyMap Hash (KeyMap Hash (List UInt8)) :=
  match storageData.find? e.1 with
  | none => storageData.insert e.1 e.2
  | some comboData => storageData.insert e.1 (e.2.entries.foldl (fun c s => c.insert s.1 s.2) comboData)

namespace DiffLayer

/-- The layer `flatten` builds from `dl` and its parent. The destruct loop
writes three independent maps and is written here as one fold per map. -/
def absorb (parent dl : DiffLayer) : DiffLayer :=
  let destructs := dl.destructSet.keys
  { root := dl.root
    stale := false
    destructSet := destructs.foldl (fun s hash => s.insert hash ()) parent.destructSet
    accountData := dl.accountData.entries.foldl (fun m e => m.insert e.1 e.2)
      (destructs.foldl KeyMap.erase parent.accountData)
    storageData := dl.storageData.entries.foldl mergeStorage (destructs.foldl KeyMap.erase parent.storageData)
    diffed := dl.diffed }

end DiffLayer

namespace Layer

/-- `flatten()`: `none` where Go panics, on a parent that is already stale.
A layer over the disk layer is returned as it is, and so is the disk layer. -/
def flatten : Layer → Option Layer
  | disk d => some (disk d)
  | diff dl (disk d) => some (diff dl (disk d))
  | diff dl (diff pdl pp) =>
    match flatten (diff pdl pp) with
    | some (diff parent grand) => if parent.stale then none else some (diff (parent.absorb dl) grand)
    | _ => none

end Layer

end Xdchain.Snapshot
