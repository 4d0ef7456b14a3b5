import Xdchain.Lib.BigEndian
import Xdchain.Lib.ErrState

/-! # Freezer tables

`core/rawdb/freezer_table.go`: an append-only table of blobs kept in data
files of bounded size and an index file of 6-byte entries. Entry `j + 1`
holds the data file and the end offset of the table's `j`-th stored item;
entry 0 holds the first data file and the number of items deleted from
the tail (`itemOffset`).

A file is its bytes. The table writes only at the end of a file, since
every file is positioned at its end once it is opened or truncated, so a
write appends what reached the file. `Append` is told how its two writes
end (`WriteResult`), a write that fails having written a prefix of its
bytes. Snappy is a `Compression` the tables that compress are given. The
open file handles are the numbers in `files`; the head is `headId`'s. -/

namespace Xdchain.Rawdb
open Xdchain.Lib.BigEndian

/-- A file's contents. -/
abbrev File := List UInt8

/-- The errors of a table: `errClosed`, `errOutOfBounds`, the unexpected
item of `Append`, a missing data file, a short read, a negative
`Truncate`, a failed write, and a blob snappy cannot decode. -/
inductive TableError where
  | closed
  | outOfBounds
  | unexpectedItem (want got : Nat)
  | missingDataFile (num : Nat)
  | eof
  | invalidTruncate
  | writeFailed
  | corrupt
deriving DecidableEq, Repr

/-- Snappy's block format, as the tables use it. -/
structure Compression where
  encode : File → File
  decode : File → Option File

/-- How a file write ends: `none` when every byte is written, `some k` when
it fails after `k` of them. -/
abbrev WriteResult := Option Nat

def WriteResult.written (r : WriteResult) (bytes : File) : File :=
  match r with
  | none => bytes
  | some k => bytes.take k

def indexEntrySize : Nat := 6

structure IndexEntry where
  filenum : Nat
  offset : Nat
deriving DecidableEq, Repr

/-- `unmarshalBinary`: a `uint16` file number and a `uint32` offset. -/
def IndexEntry.unmarshalBinary (b : List UInt8) : IndexEntry :=
  { filenum := beValue (b.take 2), offset := beValue ((b.drop 2).take 4) }

def IndexEntry.marshallBinary (i : IndexEntry) : List UInt8 :=
  fixedBytes 2 i.filenum ++ fixedBytes 4 i.offset

@[simp] theorem length_marshallBinary (i : IndexEntry) : i.marshallBinary.length = 6 := by
  simp [IndexEntry.marshallBinary]

theorem unmarshalBinary_marshallBinary (i : IndexEntry) :
    IndexEntry.unmarshalBinary i.marshallBinary = ⟨i.filenum % 2 ^ 16, i.offset % 2 ^ 32⟩ := by
  have h4 : (fixedBytes 4 i.offset).take 4 = fixedBytes 4 i.offset :=
    List.take_of_length_le (by simp)
  simp [IndexEntry.unmarshalBinary, IndexEntry.marshallBinary, h4]

/-! ## Files -/

/-- `truncateFreezerFile`: `Truncate` pads a file it lengthens with zero bytes. -/
def truncateFile (f : File) (size : Nat) : File := f.take size ++ List.replicate (size - f.length) 0

/-- `ReadAt(buffer, off)`: the bytes that are there overwrite the front of
`buffer`, and the read succeeds when it filled it. -/
def readAt (f : File) (buffer : List UInt8) (off : Int) : List UInt8 × Bool :=
  if off < 0 then (buffer, false)
  else
    let bytes := (f.drop off.toNat).take buffer.length
    (bytes ++ buffer.drop bytes.length, bytes.length == buffer.length)

/-- `ReadAt` into a fresh buffer of `len` bytes, `none` when it comes back short. -/
def readBytes (f : File) (off len : Nat) : Option File :=
  if off + len ≤ f.length then some ((f.drop off).take len) else none

/-- The table's files on disk. -/
structure Disk where
  index : File
  data : Nat → Option File

namespace Disk

def setData (d : Disk) (num : Nat) (f : Option File) : Disk :=
  { d with data := Function.update d.data num f }

/-- A data file's contents; a missing one reads as empty. -/
def dataFile (d : Disk) (num : Nat) : File := (d.data num).getD []

end Disk

/-- The three ways `openFile` is called. -/
inductive Opener where
  /-- `openFreezerFileForAppend`: create if missing, keep the contents. -/
  | append
  /-- `openFreezerFileForReadOnly`: fail if missing. -/
  | readOnly
  /-- `openFreezerFileTruncated`: create or empty. -/
  | truncated
deriving DecidableEq

structure FreezerTable where
  items : Nat
  noCompression : Bool
  maxFileSize : Nat
  headId : Nat
  tailId : Nat
  itemOffset : Nat
  headBytes : Nat
  /-- The numbers of the open data files, `t.files`. -/
  files : List Nat
  /-- `t.index == nil || t.head == nil`, as after `Close`. -/
  closed : Bool
  disk : Disk

abbrev TableM := EStateM TableError FreezerTable

namespace FreezerTable

/-- `openFile`: an open file is returned as it is. -/
def openFile (t : FreezerTable) (num : Nat) (opener : Opener) : Except TableError FreezerTable :=
  if num ∈ t.files then .ok t
  else
    match opener, t.disk.data num with
    | .readOnly, none => .error .eof
    | .truncated, _ => .ok { t with files := num :: t.files, disk := t.disk.setData num (some []) }
    | _, f => .ok { t with files := num :: t.files, disk := t.disk.setData num (some (f.getD [])) }

def openFileM (num : Nat) (opener : Opener) : TableM Unit := do
  match (← get).openFile num opener with
  | .ok t => set t
  | .error e => throw e

def releaseFile (num : Nat) (t : FreezerTable) : FreezerTable := { t with files := t.files.erase num }

/-- `releaseFilesAfter`: close the open files numbered above `num`, and delete
them when `remove`. -/
def releaseFilesAfter (num : Nat) (remove : Bool) (t : FreezerTable) : FreezerTable :=
  let after := t.files.filter (· > num)
  { t with
    files := t.files.filter (· ≤ num)
    disk := if remove then { t.disk with data := fun n => if n ∈ after then none else t.disk.data n }
      else t.disk }

def setIndex (f : File) (t : FreezerTable) : FreezerTable := { t with disk := { t.disk with index := f } }

def setDataFile (num : Nat) (f : File) (t : FreezerTable) : FreezerTable :=
  { t with disk := t.disk.setData num (some f) }

/-! ## Append -/

def encodeBlob (snappy : Compression) (t : FreezerTable) (blob : File) : File :=
  if t.noCompression then blob else snappy.encode blob

/-- The rollover of `Append`: a fresh head file after the current one, which
is reopened read-only (an error there is not looked at). -/
def rollover : TableM Unit := do
  let t ← get
  let nextID := t.headId + 1
  openFileM nextID .truncated
  modify (releaseFile t.headId)
  modify fun t' => (t'.openFile t.headId .readOnly).toOption.getD t'
  modify fun t => { t with headBytes := 0, headId := nextID }

def writeHead (blob : File) (w : WriteResult) : TableM Unit := do
  let t ← get
  set (t.setDataFile t.headId (t.disk.dataFile t.headId ++ w.written blob))
  match w with
  | none => pure ()
  | some _ => throw .writeFailed

/-- `t.index.Write(entry)`; `Append` does not look at its error. -/
def writeIndex (entry : File) (w : WriteResult) (t : FreezerTable) : FreezerTable :=
  t.setIndex (t.disk.index ++ w.written entry)

/-- Whether a blob of `bLen` bytes overflows the head file, in `uint32`. -/
def overflows (t : FreezerTable) (bLen : Nat) : Bool :=
  let size := (t.headBytes + bLen) % 2 ^ 32
  size < bLen || t.maxFileSize < size

/-- `Append`, its data write ending as `dataWrite` and its index write as
`indexWrite`. -/
def append (snappy : Compression) (item : Nat) (blob : File) (dataWrite indexWrite : WriteResult) :
    TableM Unit := do
  let t ← get
  if t.closed then throw .closed
  if t.items ≠ item then throw (.unexpectedItem t.items item)
  let blob := t.encodeBlob snappy blob
  let bLen := blob.length % 2 ^ 32
  if t.overflows bLen then rollover
  writeHead blob dataWrite
  modify fun t => { t with headBytes := (t.headBytes + bLen) % 2 ^ 32 }
  modify fun t => writeIndex (IndexEntry.marshallBinary ⟨t.headId, t.headBytes⟩) indexWrite t
  modify fun t => { t with items := t.items + 1 }

/-! ## Retrieve -/

/-- The entry at position `pos` of the index, `none` on a short read. -/
def readEntry (t : FreezerTable) (pos : Nat) : Option IndexEntry :=
  match readAt t.disk.index (List.replicate indexEntrySize 0) (pos * indexEntrySize) with
  | (b, true) => some (IndexEntry.unmarshalBinary b)
  | (_, false) => none

/-- `getBounds`: the start, end and data file of the table's `item`-th stored item. -/
def getBounds (t : FreezerTable) (item : Nat) : Except TableError (Nat × Nat × Nat) :=
  match t.readEntry (item + 1) with
  | none => .error .eof
  | some endIdx =>
    if item = 0 then .ok (0, endIdx.offset, endIdx.filenum)
    else
      match t.readEntry item with
      | none => .error .eof
      | some startIdx =>
        if startIdx.filenum ≠ endIdx.filenum then .ok (0, endIdx.offset, endIdx.filenum)
        else .ok (startIdx.offset, endIdx.offset, endIdx.filenum)

def retrieve (snappy : Compression) (t : FreezerTable) (item : Nat) : Except TableError File := do
  if t.closed then throw .closed
  if t.items ≤ item then throw .outOfBounds
  if t.itemOffset > item then throw .outOfBounds
  let (startOffset, endOffset, filenum) ← t.getBounds (item - t.itemOffset)
  if filenum ∉ t.files then throw (.missingDataFile filenum)
  -- `endOffset-startOffset` is a `uint32` difference
  match readBytes (t.disk.dataFile filenum) startOffset ((endOffset + 2 ^ 32 - startOffset) % 2 ^ 32) with
  | none => throw .eof
  | some blob =>
    if t.noCompression then pure blob
    else match snappy.decode blob with
      | some b => pure b
      | none => throw .corrupt

/-! ## Truncate -/

/-- `truncate`: drop the items from `items` on. -/
def truncate (items : Nat) : TableM Unit := do
  let t ← get
  if t.items ≤ items then return
  modify fun t => t.setIndex (truncateFile t.disk.index ((items + 1) * indexEntrySize))
  match (← get).readEntry items with
  | none => throw .eof
  | some expected =>
    if expected.filenum ≠ t.headId then
      modify (releaseFile expected.filenum)
      openFileM expected.filenum .append
      modify (releaseFilesAfter expected.filenum true)
      modify fun t => { t with headId := expected.filenum }
    modify fun t => t.setDataFile t.headId (truncateFile (t.disk.dataFile t.headId) expected.offset)
    modify fun t => { t with items, headBytes := expected.offset }

/-! ## Repair -/

/-- The loop of `repair` over the index's `n` whole entries, `buffer` holding
the last one read: truncate the head file to the last offset, or drop the
last entry when it points past the head file, until they agree. -/
def repairLoop : Nat → List UInt8 → IndexEntry → Nat → TableM (Nat × IndexEntry × Nat)
  | n, buffer, lastIndex, contentSize =>
    if lastIndex.offset = contentSize then pure (n, lastIndex, contentSize)
    else if lastIndex.offset < contentSize then do
      modify fun t => t.setDataFile lastIndex.filenum
        (truncateFile (t.disk.dataFile lastIndex.filenum) lastIndex.offset)
      pure (n, lastIndex, lastIndex.offset)
    else
      match n with
      -- `Truncate` to a negative size
      | 0 => throw .invalidTruncate
      | n + 1 => do
        modify fun t => t.setIndex (truncateFile t.disk.index (n * indexEntrySize))
        -- a read before the start leaves the buffer as it was
        let buffer := (readAt (← get).disk.index buffer ((n : Int) * indexEntrySize - indexEntrySize)).1
        let newLastIndex := IndexEntry.unmarshalBinary buffer
        if newLastIndex.filenum ≠ lastIndex.filenum then do
          modify (releaseFile lastIndex.filenum)
          openFileM newLastIndex.filenum .append
          let size := ((← get).disk.dataFile newLastIndex.filenum).length
          repairLoop n buffer newLastIndex size
        else repairLoop n buffer newLastIndex contentSize

/-- Open the files `preopen` opens read-only. -/
def openReadOnly : List Nat → TableM Unit
  | [] => pure ()
  | num :: nums => do openFileM num .readOnly; openReadOnly nums

def preopen : TableM Unit := do
  modify (releaseFilesAfter 0 false)
  let t ← get
  openReadOnly (List.range' t.tailId (t.headId - t.tailId))
  openFileM t.headId .append

/-- `repair`: bring the index and the head file in agreement. -/
def repair : TableM Unit := do
  let buffer := List.replicate indexEntrySize 0
  let size := (← get).disk.index.length
  if size = 0 then modify fun t => t.setIndex (t.disk.index ++ buffer)
  if size % indexEntrySize ≠ 0 then
    modify fun t => t.setIndex (truncateFile t.disk.index (size - size % indexEntrySize))
  let offsetsSize := (← get).disk.index.length
  let buffer := (readAt (← get).disk.index buffer 0).1
  let firstIndex := IndexEntry.unmarshalBinary buffer
  modify fun t => { t with tailId := firstIndex.filenum, itemOffset := firstIndex.offset }
  let buffer := (readAt (← get).disk.index buffer ((offsetsSize : Int) - indexEntrySize)).1
  let lastIndex := IndexEntry.unmarshalBinary buffer
  openFileM lastIndex.filenum .append
  let contentSize := ((← get).disk.dataFile lastIndex.filenum).length
  let (n, lastIndex, contentSize) ←
    repairLoop (offsetsSize / indexEntrySize) buffer lastIndex contentSize
  -- `uint64(offsetsSize/indexEntrySize-1)` of an `int64`
  modify fun t => { t with
    items := ((t.itemOffset : Int) + ((n : Int) - 1)).toNat % 2 ^ 64
    headBytes := contentSize % 2 ^ 32
    headId := lastIndex.filenum }
  preopen

/-- `newCustomTable`: a table over `disk`, repaired. -/
def newCustomTable (disk : Disk) (maxFileSize : Nat) (noCompression : Bool) :
    EStateM.Result TableError FreezerTable Unit :=
  repair.run
    { items := 0, noCompression, maxFileSize, headId := 0, tailId := 0, itemOffset := 0,
      headBytes := 0, files := [], closed := false, disk }

def close (t : FreezerTable) : FreezerTable := { t with files := [], closed := true }

/-- The table opened on `disk` after `ops`. -/
def afterOps (disk : Disk) (maxFileSize : Nat) (noCompression : Bool) (ops : TableM Unit) :
    Except TableError FreezerTable :=
  match newCustomTable disk maxFileSize noCompression with
  | .error e _ => .error e
  | .ok () t =>
    match ops.run t with
    | .error e _ => .error e
    | .ok () t => .ok t

end FreezerTable

/-! ## Truncating a table with a tail offset -/

/-- Blobs stored as they are; a table that does not compress never calls it. -/
def identityCompression : Compression := ⟨id, some⟩

/-- A table whose first five items were deleted from the tail: entry 0
records the offset 5, and item 5, the blob `[6]`, is in data file 0. -/
def offsetDisk : Disk :=
  { index := IndexEntry.marshallBinary ⟨0, 5⟩ ++ IndexEntry.marshallBinary ⟨0, 1⟩,
    data := fun n => if n = 0 then some [6] else none }

/-- Items 6 and 7 appended to the table on `offsetDisk`. -/
def appendSixSeven : TableM Unit := do
  FreezerTable.append identityCompression 6 [7] none none
  FreezerTable.append identityCompression 7 [8] none none

/-- **`truncate` counts the index from the absolute item number.**
Truncating to 7 items keeps item 6, the blob of the first `Append`, but
`truncate` sizes the index as `(7+1)` entries where the table has 4,
padding it with zero entries, and reads a zero entry as the new end of the
head file, which it empties. -/
theorem truncate_of_itemOffset_loses_item :
    ((FreezerTable.afterOps offsetDisk 100 true appendSixSeven).bind fun t =>
      t.retrieve identityCompression 6) = .ok [7] ∧
    ((FreezerTable.afterOps offsetDisk 100 true (do appendSixSeven; FreezerTable.truncate 7)).map
      (·.items)) = .ok 7 ∧
    ((FreezerTable.afterOps offsetDisk 100 true (do appendSixSeven; FreezerTable.truncate 7)).bind fun t =>
      t.retrieve identityCompression 6) = .error .eof := by
  decide

end Xdchain.Rawdb
