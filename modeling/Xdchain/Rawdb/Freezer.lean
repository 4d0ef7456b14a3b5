import Xdchain.Rawdb.FreezerTable

/-! # The chain freezer

`core/rawdb/freezer.go`: five freezer tables, one per kind of block data,
kept at one length. `AppendAncient` appends a block's five blobs and, when
one append fails, calls `repair`, which truncates every table to the
shortest one.

A failed write leaves the bytes that reached the head file in place, and
`repair` only truncates tables that are longer than the shortest: the table
whose write failed keeps a dangling prefix after its last item, and the
next append writes after it while its index entry counts from `headBytes`
(`retry_after_partial_write_reads_wrong_blob`). The same arithmetic in
`truncate`, which sizes the index from the absolute item number, loses the
items of a table with a tail offset (`truncate_of_itemOffset_loses_item`). -/

namespace Xdchain.Rawdb
open FreezerTable

/-- The five tables of `freezerNoSnappy`. -/
inductive Kind where
  | headers
  | hashes
  | bodies
  | receipts
  | diffs
deriving DecidableEq, Repr

/-- The order in which `AppendAncient` appends. -/
def Kind.all : List Kind := [.hashes, .headers, .bodies, .receipts, .diffs]

def Kind.noSnappy : Kind → Bool
  | .headers => false
  | .hashes => true
  | .bodies => false
  | .receipts => false
  | .diffs => true

/-- `errOutOrderInsertion`, a table's error, and a failed `repair` after a
failed append, where Go calls `log.Crit`. -/
inductive FreezerError where
  | outOrderInsertion
  | table (e : TableError)
  | crit (e : TableError)
deriving DecidableEq, Repr

structure Freezer where
  frozen : Nat
  tables : Kind → FreezerTable

abbrev FreezerM := EStateM FreezerError Freezer

namespace Freezer

/-- A table operation on the table of kind `k`. -/
def onTable (k : Kind) (x : TableM Unit) : FreezerM Unit := fun f =>
  match x.run (f.tables k) with
  | .ok () t => .ok () { f with tables := Function.update f.tables k t }
  | .error e t => .error (.table e) { f with tables := Function.update f.tables k t }

/-- The shortest table's item count, `math.MaxUint64` for none. -/
def minItems (f : Freezer) : Nat := (Kind.all.map fun k => (f.tables k).items).foldl min (2 ^ 64 - 1)

def truncateTables (items : Nat) : List Kind → FreezerM Unit
  | [] => pure ()
  | k :: ks => do onTable k (truncate items); truncateTables items ks

def repair : FreezerM Unit := do
  let min := minItems (← get)
  truncateTables min Kind.all
  modify fun f => { f with frozen := min }

def truncateAncients (items : Nat) : FreezerM Unit := do
  if (← get).frozen ≤ items then return
  truncateTables items Kind.all
  modify fun f => { f with frozen := items }

/-- How the data and the index write of each table's `Append` end. -/
abbrev Writes := Kind → WriteResult × WriteResult

/-- Every write completes. -/
def Writes.complete : Writes := fun _ => (none, none)

def appendTables (snappy : Compression) (item : Nat) (blobs : Kind → File) (writes : Writes) :
    List Kind → FreezerM Unit
  | [] => pure ()
  | k :: ks => do
    onTable k (append snappy item (blobs k) (writes k).1 (writes k).2)
    appendTables snappy item blobs writes ks

/-- `AppendAncient` of the blobs of block `number`; a failed append is rolled
back by `repair`. -/
def appendAncient (snappy : Compression) (number : Nat) (blobs : Kind → File) (writes : Writes) :
    FreezerM Unit := fun f =>
  if f.frozen ≠ number then .error .outOrderInsertion f
  else
    match (appendTables snappy f.frozen blobs writes Kind.all).run f with
    | .ok () f' => .ok () { f' with frozen := f'.frozen + 1 }
    | .error e f' =>
      match repair.run f' with
      | .ok () f'' => .error e f''
      | .error e' f'' => .error (.crit (match e' with
        | .table e'' => e''
        | _ => .corrupt)) f''

def ancient (snappy : Compression) (f : Freezer) (k : Kind) (number : Nat) :
    Except TableError File :=
  (f.tables k).retrieve snappy number

end Freezer

/-- `newTable`: 2 GB data files. -/
def newTable (disk : Disk) (noCompression : Bool) : EStateM.Result TableError FreezerTable Unit :=
  newCustomTable disk (2 * 1000 * 1000 * 1000) noCompression

/-- `newFreezer`: the five tables opened on their disks, then `repair`. -/
def newFreezer (disks : Kind → Disk) : Except FreezerError Freezer :=
  let opened : Kind → Except TableError FreezerTable := fun k =>
    match newTable (disks k) k.noSnappy with
    | .ok () t => .ok t
    | .error e _ => .error e
  match opened .headers, opened .hashes, opened .bodies, opened .receipts, opened .diffs with
  | .ok th, .ok ta, .ok tb, .ok tr, .ok td =>
    let f : Freezer := { frozen := 0, tables := fun
      | .headers => th
      | .hashes => ta
      | .bodies => tb
      | .receipts => tr
      | .diffs => td }
    match Freezer.repair.run f with
    | .ok () f => .ok f
    | .error e _ => .error e
  | _, _, _, _, _ => .error (.table .eof)

/-! ## A failed write and its retry -/

/-- Five empty disks. -/
def emptyDisks : Kind → Disk := fun _ => ⟨[], fun _ => none⟩

/-- Block 0's blobs at the first try, with a 32-byte hash. -/
def firstBlobs : Kind → File
  | .hashes => List.replicate 32 1
  | _ => [1]

/-- Block 0's blobs at the retry. -/
def retryBlobs : Kind → File
  | .hashes => List.replicate 32 2
  | _ => [2]

/-- The hash table's data write fails after one byte. -/
def partialHashWrite : Freezer.Writes
  | .hashes => (some 1, none)
  | _ => (none, none)

/-- The hash of block 0 as `Ancient` returns it after a fresh freezer's
`AppendAncient(0)` failed with `partialHashWrite` and was retried with
`retryBlobs`; `none` if the first call does not fail or the retry does. -/
def retriedHash (snappy : Compression) : Option (Except TableError File) :=
  match newFreezer emptyDisks with
  | .error _ => none
  | .ok f =>
    match (Freezer.appendAncient snappy 0 firstBlobs partialHashWrite).run f with
    | .ok () _ => none
    | .error _ f' =>
      match (Freezer.appendAncient snappy 0 retryBlobs Freezer.Writes.complete).run f' with
      | .error _ _ => none
      | .ok () f'' => some (f''.ancient snappy .hashes 0)

/-- **A retried `AppendAncient` stores the wrong hash.** The failed write
left one byte in the hash table's head file; `repair` does not truncate that
table, which has as many items as the shortest, so the retry writes after
the byte while its index entry ends at `headBytes + 32`: `Ancient` returns
the dangling byte and the first 31 bytes of the hash. -/
theorem retry_after_partial_write_reads_wrong_blob :
    retriedHash identityCompression = some (.ok (1 :: List.replicate 31 2)) := by
  decide +kernel

end Xdchain.Rawdb
