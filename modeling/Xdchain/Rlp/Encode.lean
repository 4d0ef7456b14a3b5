import Xdchain.Rlp.Item

/-! # The deferred-header encoder of `rlp/encode.go`

`encbuf` keeps the string data of a value in `str` and records every list
header as a `listhead` at an offset of that data, with its size filled in by
`listEnd` once the list's contents are written. The three serialisers
(`toBytes`, `toWriter`, and the reader returned by `EncodeToReader`) splice
the headers into the string data at their offsets. Writing an item with the
source's writers (`writeBytes`, and `makeSliceWriter` over `[]interface{}`)
and serialising it in any of the three ways gives the canonical encoding
`Item.enc`. -/

namespace Xdchain.Rlp.Encode
open Xdchain.Lib.BigEndian

/-- `listhead`: a list header at `offset` in the string data. While the list
is open `size` holds the header bytes written before it (`lhsize`); `listEnd`
replaces it by the size of the list's payload. -/
structure Listhead where
  offset : Nat
  size : Nat
deriving DecidableEq, Repr

/-- `encbuf`, without the scratch buffers `sizebuf` and `bufvalue`. -/
structure Encbuf where
  str : List UInt8
  lheads : List Listhead
  lhsize : Nat
deriving DecidableEq, Repr

def Listhead.encode (head : Listhead) : List UInt8 := puthead 0xC0 0xF7 head.size

namespace Encbuf

def reset (_ : Encbuf) : Encbuf := ⟨[], [], 0⟩

/-- The writer every encoding starts from: a pooled buffer after `reset`. -/
def empty : Encbuf := ⟨[], [], 0⟩

def encodeStringHeader (w : Encbuf) (size : Nat) : Encbuf :=
  if size < 56 then { w with str := w.str ++ [0x80 + UInt8.ofNat size] }
  else { w with str := w.str ++ ((0xB7 + UInt8.ofNat (putint size).length) :: putint size) }

def encodeString (w : Encbuf) (b : List UInt8) : Encbuf :=
  match b with
  | [c] => if c ≤ 0x7F then { w with str := w.str ++ [c] }
    else { w.encodeStringHeader 1 with str := (w.encodeStringHeader 1).str ++ [c] }
  | _ => { w.encodeStringHeader b.length with str := (w.encodeStringHeader b.length).str ++ b }

/-- `list`: records a new header and returns its index. -/
def list (w : Encbuf) : Nat × Encbuf :=
  (w.lheads.length, { w with lheads := w.lheads ++ [⟨w.str.length, w.lhsize⟩] })

def size (w : Encbuf) : Nat := w.str.length + w.lhsize

/-- `listEnd`: the payload is everything written since the header, list
headers closed in between included. An index that `list` did not return
makes Go panic; the model leaves the buffer as it is there. -/
def listEnd (w : Encbuf) (index : Nat) : Encbuf :=
  match w.lheads[index]? with
  | none => w
  | some lh =>
    let sz := w.size - lh.offset - lh.size
    { w with
      lheads := w.lheads.set index { lh with size := sz }
      lhsize := w.lhsize + (if sz < 56 then 1 else 1 + intsize sz) }

mutual
/-- The writers of `makeWriter` for the values `Item` stands for: `writeBytes`
for `[]byte`, and `makeSliceWriter` (without the `tail` tag) over
`[]interface{}`, each element going through `writeInterface`. -/
def writeItem : Item → Encbuf → Encbuf
  | .str b, w => w.encodeString b
  | .list xs, w =>
    let (lh, w) := w.list
    (writeItems xs w).listEnd lh
def writeItems : List Item → Encbuf → Encbuf
  | [], w => w
  | x :: xs, w => writeItems xs (writeItem x w)
end

/-- The copy loop of `toBytes`, before the last string data: for each header
the string data before it, then the header. -/
def toBytesLoop (str : List UInt8) : Nat → List Listhead → List UInt8
  | strpos, [] => str.drop strpos
  | strpos, head :: heads =>
    let n := ((str.drop strpos).take (head.offset - strpos)).length
    (str.drop strpos).take (head.offset - strpos) ++ head.encode ++
      toBytesLoop str (strpos + n) heads

/-- `toBytes`: the loop's bytes copied into a buffer of `w.size()` bytes. -/
def toBytes (w : Encbuf) : List UInt8 := (toBytesLoop w.str 0 w.lheads).take w.size

/-- `toWriter` on a writer that accepts every write, returning what it received. -/
def toWriterLoop (str : List UInt8) : Nat → List Listhead → List UInt8 → List UInt8
  | strpos, [], out => if strpos < str.length then out ++ str.drop strpos else out
  | strpos, head :: heads, out =>
    if head.offset - strpos > 0 then
      let seg := (str.drop strpos).take (head.offset - strpos)
      toWriterLoop str (strpos + seg.length) heads (out ++ seg ++ head.encode)
    else toWriterLoop str strpos heads (out ++ head.encode)

def toWriter (w : Encbuf) (out : List UInt8) : List UInt8 := toWriterLoop w.str 0 w.lheads out

end Encbuf

/-! ## The reader of `EncodeToReader` -/

/-- `encReader`: `buf` is `none` once the reader has reached EOF. -/
structure EncReader where
  buf : Option Encbuf
  lhpos : Nat
  strpos : Nat
  piece : Option (List UInt8)
deriving Repr

namespace EncReader

/-- `next`: the next piece of data to be read, and the reader after it. -/
def next (r : EncReader) : Option (List UInt8) × EncReader :=
  match r.buf with
  | none => (none, r)
  | some w =>
    match r.piece with
    | some p => (some p, r)
    | none =>
      match w.lheads[r.lhpos]? with
      | some head =>
        let sizebefore := head.offset - r.strpos
        if sizebefore > 0 then
          (some ((w.str.drop r.strpos).take (head.offset - r.strpos)),
            { r with strpos := r.strpos + sizebefore })
        else (some head.encode, { r with lhpos := r.lhpos + 1 })
      | none =>
        if r.strpos < w.str.length then
          (some (w.str.drop r.strpos), { r with strpos := w.str.length })
        else (none, r)

/-- The loop of `Read` into a buffer of `k` bytes, `acc` holding what was
copied so far; the result is the bytes read and whether `Read` returned EOF.
The fuel bounds the number of pieces (`readFuel`). -/
def readLoop (k : Nat) : Nat → EncReader → List UInt8 → (List UInt8 × Bool) × EncReader
  | 0, r, acc => ((acc, false), r)
  | fuel + 1, r, acc =>
    match r.next with
    | (none, r) => ((acc, true), { r with piece := none, buf := none })
    | (some piece, r) =>
      let nn := min (k - acc.length) piece.length
      let acc := acc ++ piece.take nn
      if nn < piece.length then ((acc, false), { r with piece := some (piece.drop nn) })
      else readLoop k fuel { r with piece := none } acc

/-- Every `Read` call takes at most this many pieces: two per header left and
the data after the last header, plus the piece in hand. -/
def readFuel (r : EncReader) : Nat :=
  match r.buf with
  | none => 1
  | some w => 2 * (w.lheads.length - r.lhpos) + 3

/-- `Read` into a buffer of `k` bytes: the bytes read and whether it returned EOF. -/
def read (r : EncReader) (k : Nat) : (List UInt8 × Bool) × EncReader :=
  readLoop k (readFuel r) r []

/-- The bytes obtained by reading with the buffer sizes `ks`, one `Read` each. -/
def readAll : EncReader → List Nat → List UInt8
  | _, [] => []
  | r, k :: ks => (r.read k).1.1 ++ readAll (r.read k).2 ks

end EncReader

open Encbuf

def encodeToBytes (t : Item) : List UInt8 := (writeItem t empty).toBytes

/-- `Encode` into a writer that accepts every write: the bytes it received. -/
def encode (t : Item) : List UInt8 := (writeItem t empty).toWriter []

/-- `EncodeToReader`: the size and the reader. -/
def encodeToReader (t : Item) : Nat × EncReader :=
  ((writeItem t empty).size, ⟨some (writeItem t empty), 0, 0, none⟩)

/-! ## What writing an item leaves in the buffer -/

mutual
/-- The string data an item contributes: everything but its list headers. -/
def strData : Item → List UInt8
  | .str b => encString b
  | .list xs => strDataAll xs
def strDataAll : List Item → List UInt8
  | [] => []
  | x :: xs => strData x ++ strDataAll xs
end

mutual
/-- The bytes of all list headers of an item. -/
def hsize : Item → Nat
  | .str _ => 0
  | .list xs => hsizeAll xs + headsize (Item.encAll xs).length
def hsizeAll : List Item → Nat
  | [] => 0
  | x :: xs => hsize x + hsizeAll xs
end

mutual
/-- The closed list headers of an item whose string data starts at offset `o`,
in the order `list` records them. -/
def heads : Item → Nat → List Listhead
  | .str _, _ => []
  | .list xs, o => ⟨o, (Item.encAll xs).length⟩ :: headsAll xs o
def headsAll : List Item → Nat → List Listhead
  | [], _ => []
  | x :: xs, o => heads x o ++ headsAll xs (o + (strData x).length)
end

/-- An item's encoding is its string data and its list headers. -/
theorem length_enc_split (t : Item) : t.enc.length = (strData t).length + hsize t := by
  induction t using Item.rec (motive_2 := fun xs =>
    (Item.encAll xs).length = (strDataAll xs).length + hsizeAll xs) with
  | str b => simp [strData, hsize]
  | list xs ih =>
    simp only [enc_list, List.length_append, strData, hsize, ih]
    rw [length_header]
    omega
  | nil => simp [strDataAll, hsizeAll]
  | cons x xs hx hxs =>
    simp only [encAll_cons, List.length_append, hx, hxs, strDataAll, hsizeAll]
    omega

theorem length_enc_le_encAll {xs : List Item} {x : Item} (hx : x ∈ xs) :
    x.enc.length ≤ (Item.encAll xs).length := by
  induction xs with
  | nil => simp at hx
  | cons y ys ih =>
    simp only [encAll_cons, List.length_append]
    rcases List.mem_cons.mp hx with rfl | hy
    · omega
    · have := ih hy; omega

theorem fits_of_mem {xs : List Item} {x : Item} (h : (Item.list xs).Fits) (hx : x ∈ xs) :
    x.Fits := by
  unfold Item.Fits at *
  have := length_enc_le_encAll hx
  simp only [enc_list, List.length_append] at h
  omega

theorem length_lt_of_fits {b : List UInt8} (h : (Item.str b).Fits) : b.length < 2 ^ 64 := by
  unfold Item.Fits at h
  have : b.length ≤ (encString b).length := by
    unfold encString
    split
    · split <;> simp
    · simp
  simp only [enc_str] at h
  omega

theorem le_7f_iff (c : UInt8) : c ≤ 0x7F ↔ c < 0x80 := by
  rw [UInt8.le_iff_toNat_le, UInt8.lt_iff_toNat_lt]; simp; omega

/-- `encodeStringHeader` appends the string header of every 64-bit size. -/
theorem encodeStringHeader_eq (w : Encbuf) {n : Nat} (hn : n < 2 ^ 64) :
    w.encodeStringHeader n = { w with str := w.str ++ header 0x80 n } := by
  unfold Encbuf.encodeStringHeader
  rw [← puthead_eq_header 0x80 hn]
  unfold puthead
  split <;> rfl

/-- `encodeString` appends the canonical encoding of every 64-bit byte string. -/
theorem encodeString_eq (w : Encbuf) {b : List UInt8} (h : b.length < 2 ^ 64) :
    w.encodeString b = { w with str := w.str ++ encString b } := by
  rcases b with _ | ⟨c, _ | ⟨d, rest⟩⟩
  · -- the empty string is a bare string header
    simp only [Encbuf.encodeString, encString, List.length_nil, List.append_nil]
    rw [encodeStringHeader_eq w (by norm_num)]
  · simp only [Encbuf.encodeString, encString, le_7f_iff]
    split
    · rfl
    · rw [encodeStringHeader_eq w (by norm_num), List.append_assoc]
  · simp only [Encbuf.encodeString, encString]
    rw [encodeStringHeader_eq w h, List.append_assoc]

theorem heads_offsets (t : Item) (o : Nat) :
    ∀ h ∈ heads t o, o ≤ h.offset ∧ h.offset ≤ o + (strData t).length := by
  induction t using Item.rec (motive_2 := fun xs => ∀ o, ∀ h ∈ headsAll xs o,
      o ≤ h.offset ∧ h.offset ≤ o + (strDataAll xs).length) generalizing o with
  | str b => intro h hh; simp [heads] at hh
  | list xs ih =>
    intro h hh
    simp only [heads, List.mem_cons] at hh
    rcases hh with rfl | hh
    · simp
    · exact ih o h hh
  | nil => rename_i o h hh; simp [headsAll] at hh
  | cons x xs hx hxs =>
    rename_i o h hh
    simp only [headsAll, List.mem_append] at hh
    rcases hh with hh | hh
    · obtain ⟨h1, h2⟩ := hx o h hh
      simp only [strDataAll, List.length_append]
      exact ⟨h1, by omega⟩
    · obtain ⟨h1, h2⟩ := hxs (o + (strData x).length) h hh
      simp only [strDataAll, List.length_append]
      exact ⟨by omega, by omega⟩

theorem heads_offsets_all (xs : List Item) (o : Nat) :
    ∀ h ∈ headsAll xs o, o ≤ h.offset ∧ h.offset ≤ o + (strDataAll xs).length := by
  induction xs generalizing o with
  | nil => intro h hh; simp [headsAll] at hh
  | cons x xs ih =>
    intro h hh
    simp only [headsAll, List.mem_append] at hh
    simp only [strDataAll, List.length_append]
    rcases hh with hh | hh
    · obtain ⟨h1, h2⟩ := heads_offsets x o h hh
      exact ⟨h1, by omega⟩
    · obtain ⟨h1, h2⟩ := ih (o + (strData x).length) h hh
      exact ⟨by omega, by omega⟩

/-- **Writing an item.** Whatever the buffer holds, and with lists of the
enclosing value still open, `writeItem` appends the item's string data, its
closed list headers at their offsets, and their sizes to `lhsize`. -/
theorem writeItem_eq (t : Item) (ht : t.Fits) (w : Encbuf) :
    writeItem t w = ⟨w.str ++ strData t, w.lheads ++ heads t w.str.length, w.lhsize + hsize t⟩ := by
  induction t using Item.rec (motive_2 := fun xs => (∀ x ∈ xs, x.Fits) → ∀ w,
      writeItems xs w = ⟨w.str ++ strDataAll xs, w.lheads ++ headsAll xs w.str.length,
        w.lhsize + hsizeAll xs⟩) generalizing w with
  | str b =>
    simp only [writeItem, encodeString_eq w (length_lt_of_fits ht), strData, heads, hsize,
      List.append_nil, Nat.add_zero]
  | list xs ih =>
    have hall : ∀ x ∈ xs, x.Fits := fun x hx => fits_of_mem ht hx
    -- the contents are written after the new header, which `listEnd` then closes
    have hw := ih hall { w with lheads := w.lheads ++ [⟨w.str.length, w.lhsize⟩] }
    simp only [writeItem, Encbuf.list]
    rw [hw]
    have hget : (w.lheads ++ [⟨w.str.length, w.lhsize⟩] ++ headsAll xs w.str.length)[w.lheads.length]?
        = some ⟨w.str.length, w.lhsize⟩ := by
      rw [List.append_assoc, List.getElem?_append_right (Nat.le_refl _)]
      simp
    have hsz : (w.str ++ strDataAll xs).length + (w.lhsize + hsizeAll xs) - w.str.length - w.lhsize
        = (Item.encAll xs).length := by
      have := length_enc_split (.list xs)
      simp only [enc_list, List.length_append, length_header, strData, hsize] at this
      simp only [List.length_append]
      omega
    simp only [Encbuf.listEnd, hget, Encbuf.size, hsz]
    congr 1
    · rw [List.append_assoc, List.set_append_right _ _ (Nat.le_refl _)]
      simp [heads]
    · simp only [hsize, headsize]
      omega
  | nil => simp [writeItems, strDataAll, headsAll, hsizeAll]
  | cons x xs hx hxs =>
    rename_i hall w
    simp only [writeItems]
    rw [hx (hall x (List.mem_cons_self ..)) w,
      hxs (fun y hy => hall y (List.mem_cons_of_mem _ hy))]
    simp only [strDataAll, headsAll, hsizeAll, List.append_assoc, List.length_append]
    congr 1
    omega


/-! ## Splicing the headers back in -/

/-- String data that lies before every remaining header is copied out first. -/
theorem toBytesLoop_peel (S D Q : List UInt8) (o : Nat) (H : List Listhead)
    (hS : S.drop o = D ++ Q) (hH : ∀ h ∈ H, o + D.length ≤ h.offset) :
    toBytesLoop S o H = D ++ toBytesLoop S (o + D.length) H := by
  have hdrop : S.drop (o + D.length) = Q := by
    rw [← List.drop_drop, hS, List.drop_left]
  cases H with
  | nil => simp [toBytesLoop, hS, hdrop]
  | cons h H =>
    have hle := hH h (List.mem_cons_self ..)
    -- the first header's segment starts with `D`
    have hseg : (S.drop o).take (h.offset - o) =
        D ++ (S.drop (o + D.length)).take (h.offset - (o + D.length)) := by
      rw [hS, List.take_append, List.take_of_length_le (by omega), hdrop]
      congr 2
      omega
    simp only [toBytesLoop, hseg, List.length_append, List.append_assoc, Nat.add_assoc]

/-- **The headers of an item land where its encoding needs them.** With the
item's string data at offset `o` of `S`, the copy loop over the item's
headers, followed by any headers beyond the item, emits `t.enc` and goes on
after the item's data. -/
theorem toBytesLoop_item (t : Item) (ht : t.Fits) (S Q : List UInt8) (o : Nat)
    (H : List Listhead) (hS : S.drop o = strData t ++ Q)
    (hH : ∀ h ∈ H, o + (strData t).length ≤ h.offset) :
    toBytesLoop S o (heads t o ++ H) = t.enc ++ toBytesLoop S (o + (strData t).length) H := by
  induction t using Item.rec (motive_2 := fun xs => (∀ x ∈ xs, x.Fits) → ∀ Q o H,
      S.drop o = strDataAll xs ++ Q → (∀ h ∈ H, o + (strDataAll xs).length ≤ h.offset) →
      toBytesLoop S o (headsAll xs o ++ H) =
        Item.encAll xs ++ toBytesLoop S (o + (strDataAll xs).length) H)
    generalizing Q o H with
  | str b =>
    simp only [heads, List.nil_append, enc_str]
    exact toBytesLoop_peel S _ Q o H hS hH
  | list xs ih =>
    have hall : ∀ x ∈ xs, x.Fits := fun x hx => fits_of_mem ht hx
    have hsize : (Item.encAll xs).length < 2 ^ 64 := by
      unfold Item.Fits at ht; simp only [enc_list, List.length_append] at ht; omega
    -- the list's own header has no string data before it
    simp only [heads, List.cons_append, toBytesLoop, Nat.sub_self, List.take_zero,
      List.length_nil, Nat.add_zero, List.nil_append, Listhead.encode]
    rw [show (0xF7 : UInt8) = 0xC0 + 55 from rfl, puthead_eq_header _ hsize,
      ih hall Q o H hS hH, enc_list, List.append_assoc]
    rfl
  | nil =>
    rename_i _ Q o H _ _
    simp [headsAll, strDataAll]
  | cons x xs hx hxs =>
    rename_i hall Q o H hS hH
    have hx' := hall x (List.mem_cons_self ..)
    have hxs' : ∀ y ∈ xs, y.Fits := fun y hy => hall y (List.mem_cons_of_mem _ hy)
    have hSx : S.drop o = strData x ++ (strDataAll xs ++ Q) := by
      rw [hS]; simp [strDataAll]
    have hSxs : S.drop (o + (strData x).length) = strDataAll xs ++ Q := by
      rw [← List.drop_drop, hSx, List.drop_left]
    have hrest : ∀ h ∈ headsAll xs (o + (strData x).length) ++ H,
        o + (strData x).length ≤ h.offset := by
      intro h hh
      rcases List.mem_append.mp hh with hh | hh
      · exact (heads_offsets_all xs _ h hh).1
      · have := hH h hh; simp only [strDataAll, List.length_append] at this; omega
    simp only [headsAll, List.append_assoc]
    rw [hx hx' (strDataAll xs ++ Q) o _ hSx hrest,
      hxs hxs' Q (o + (strData x).length) H hSxs (by
        intro h hh; have := hH h hh; simp only [strDataAll, List.length_append] at this; omega)]
    simp [strDataAll, Nat.add_assoc]

/-- The buffer after writing a whole value. -/
theorem writeItem_empty (t : Item) (ht : t.Fits) :
    writeItem t empty = ⟨strData t, heads t 0, hsize t⟩ := by
  simpa [empty] using writeItem_eq t ht empty

/-- The copy loop over a whole value's buffer emits its encoding. -/
theorem toBytesLoop_value (t : Item) (ht : t.Fits) :
    toBytesLoop (strData t) 0 (heads t 0) = t.enc := by
  have h := toBytesLoop_item t ht (strData t) [] 0 [] (by simp) (by simp)
  simpa [toBytesLoop] using h

/-- **`EncodeToBytes` is the canonical encoding.** -/
theorem encodeToBytes_eq (t : Item) (ht : t.Fits) : encodeToBytes t = t.enc := by
  simp only [encodeToBytes, writeItem_empty t ht, Encbuf.toBytes, Encbuf.size,
    toBytesLoop_value t ht]
  rw [← length_enc_split, List.take_length]

example : encodeToBytes (.list [.str [0x63, 0x61, 0x74], .list []]) =
    [0xC5, 0x83, 0x63, 0x61, 0x74, 0xC0] := by decide

theorem toWriterLoop_eq (S : List UInt8) (strpos : Nat) (H : List Listhead) (out : List UInt8) :
    toWriterLoop S strpos H out = out ++ toBytesLoop S strpos H := by
  induction H generalizing strpos out with
  | nil =>
    simp only [toWriterLoop, toBytesLoop]
    split
    · rfl
    · rw [List.drop_of_length_le (by omega), List.append_nil]
  | cons h H ih =>
    simp only [toWriterLoop, toBytesLoop]
    split
    · rw [ih]; simp
    · rename_i hle
      have h0 : h.offset - strpos = 0 := by omega
      rw [ih]; simp [h0]

/-- **`Encode` writes the canonical encoding.** -/
theorem encode_eq (t : Item) (ht : t.Fits) : encode t = t.enc := by
  simp only [encode, writeItem_empty t ht, Encbuf.toWriter, toWriterLoop_eq, List.nil_append,
    toBytesLoop_value t ht]

/-! ## Reading the encoding in pieces -/

namespace EncReader

/-- The pieces `next` hands out from `strpos` on, over the headers left:
the string data before a header, the header, and at the end the data after
the last header. -/
def pieces (str : List UInt8) : Nat → List Listhead → List (List UInt8)
  | strpos, [] => if strpos < str.length then [str.drop strpos] else []
  | strpos, head :: heads =>
    if head.offset - strpos > 0 then
      (str.drop strpos).take (head.offset - strpos) :: head.encode :: pieces str head.offset heads
    else head.encode :: pieces str strpos heads

/-- The pieces a reader has still to hand out: the one in hand, then those
of its buffer. -/
def queue (r : EncReader) : List (List UInt8) :=
  match r.buf with
  | none => []
  | some w => r.piece.toList ++ pieces w.str r.strpos (w.lheads.drop r.lhpos)

/-- Readers whose pieces are never empty: every header of the buffer lies
within its string data, and the piece in hand is not empty. -/
structure Ok (r : EncReader) : Prop where
  offsets : ∀ w, r.buf = some w → ∀ h ∈ w.lheads, h.offset ≤ w.str.length
  piece : ∀ p, r.piece = some p → p ≠ []

theorem length_pieces (str : List UInt8) (strpos : Nat) (heads : List Listhead) :
    (pieces str strpos heads).length ≤ 2 * heads.length + 1 := by
  induction heads generalizing strpos with
  | nil => simp only [pieces]; split <;> simp
  | cons head heads ih =>
    simp only [pieces]
    split
    · have := ih head.offset; simp only [List.length_cons]; omega
    · have := ih strpos; simp only [List.length_cons]; omega

theorem length_queue_lt (r : EncReader) : (queue r).length < readFuel r := by
  unfold queue readFuel
  split
  · simp
  · rename_i w _
    have hp := length_pieces w.str r.strpos (w.lheads.drop r.lhpos)
    have hq : r.piece.toList.length ≤ 1 := by cases r.piece <;> simp
    simp only [List.length_append, List.length_drop] at hp ⊢
    omega

theorem encode_ne_nil (head : Listhead) : head.encode ≠ [] := by
  unfold Listhead.encode puthead
  split <;> simp

/-- With every header within the string data, no piece is empty. -/
theorem pieces_ne_nil (str : List UInt8) (strpos : Nat) (heads : List Listhead)
    (h : ∀ h ∈ heads, h.offset ≤ str.length) : ∀ p ∈ pieces str strpos heads, p ≠ [] := by
  induction heads generalizing strpos with
  | nil =>
    intro p hp
    simp only [pieces] at hp
    split at hp
    · rename_i hlt
      obtain rfl := List.mem_singleton.mp hp
      simpa using hlt
    · simp at hp
  | cons head heads ih =>
    have hrest : ∀ h ∈ heads, h.offset ≤ str.length := fun h' hh => h h' (List.mem_cons_of_mem _ hh)
    have hhead := h head (List.mem_cons_self ..)
    intro p hp
    simp only [pieces] at hp
    split at hp
    · rename_i hgt
      rcases List.mem_cons.mp hp with rfl | hp
      · simp only [ne_eq, List.take_eq_nil_iff, List.drop_eq_nil_iff, not_or]; omega
      rcases List.mem_cons.mp hp with rfl | hp
      · exact encode_ne_nil head
      · exact ih _ hrest p hp
    · rcases List.mem_cons.mp hp with rfl | hp
      · exact encode_ne_nil head
      · exact ih _ hrest p hp

theorem queue_ne_nil {r : EncReader} (hok : Ok r) : ∀ p ∈ queue r, p ≠ [] := by
  unfold queue
  split
  · simp
  · rename_i w hw
    intro p hp
    rcases List.mem_append.mp hp with hp | hp
    · exact hok.piece p (Option.mem_toList.mp hp)
    · exact pieces_ne_nil _ _ _ (fun h hh => hok.offsets w hw h (List.mem_of_mem_drop hh)) p hp

/-- Each piece `next` hands out is the first one of the queue. -/
theorem next_some {r r' : EncReader} {p : List UInt8} (h : r.next = (some p, r')) :
    r'.buf = r.buf ∧ r.buf.isSome ∧ queue r = p :: queue { r' with piece := none } := by
  obtain ⟨_ | w, lhpos, strpos, _ | q⟩ := r
  · simp [next] at h
  · simp [next] at h
  · simp only [next] at h
    split at h
    · -- before the header at `lhpos`: its string data first, then the header itself
      rename_i head hhead
      obtain ⟨hlt, hget⟩ := List.getElem?_eq_some_iff.mp hhead
      have hdrop : w.lheads.drop lhpos = head :: w.lheads.drop (lhpos + 1) := by
        rw [List.drop_eq_getElem_cons hlt, hget]
      split at h
      · rename_i hgt
        simp only [Prod.mk.injEq, Option.some.injEq] at h
        obtain ⟨rfl, rfl⟩ := h
        have hpos : strpos + (head.offset - strpos) = head.offset := by omega
        simp [queue, hdrop, pieces, hgt, hpos]
      · rename_i hle
        simp only [Prod.mk.injEq, Option.some.injEq] at h
        obtain ⟨rfl, rfl⟩ := h
        simp [queue, hdrop, pieces, hle]
    · -- after the last header
      rename_i hnone
      have hdrop : w.lheads.drop lhpos = [] :=
        List.drop_eq_nil_of_le (List.getElem?_eq_none_iff.mp hnone)
      split at h
      · rename_i hlt
        simp only [Prod.mk.injEq, Option.some.injEq] at h
        obtain ⟨rfl, rfl⟩ := h
        simp [queue, hdrop, pieces, hlt]
      · simp at h
  · simp only [next, Prod.mk.injEq, Option.some.injEq] at h
    obtain ⟨rfl, rfl⟩ := h
    simp [queue]

theorem next_none {r r' : EncReader} (h : r.next = (none, r')) : queue r = [] := by
  obtain ⟨_ | w, lhpos, strpos, _ | q⟩ := r
  · rfl
  · rfl
  · simp only [next] at h
    split at h
    · rename_i head _
      split at h <;> simp at h
    · rename_i hnone
      have hdrop : w.lheads.drop lhpos = [] :=
        List.drop_eq_nil_of_le (List.getElem?_eq_none_iff.mp hnone)
      split at h
      · simp at h
      · rename_i hge
        simp [queue, hdrop, pieces, hge]
  · simp [next] at h

theorem queue_with_piece (r : EncReader) (hr : r.buf.isSome) (q : List UInt8) :
    queue { r with piece := some q } = q :: queue { r with piece := none } := by
  obtain ⟨_ | w, lhpos, strpos, piece⟩ := r
  · simp at hr
  · simp [queue]

/-- **One `Read` call.** Into a buffer with `k - acc.length` bytes left, the
loop copies that many bytes of what is still to come, returns EOF exactly
when that exhausts the encoding, and leaves the rest to be read. -/
theorem readLoop_spec (k : Nat) : ∀ (fuel : Nat) (r : EncReader) (acc : List UInt8),
    acc.length ≤ k → Ok r → (queue r).length < fuel →
    (readLoop k fuel r acc).1.1 = acc ++ (queue r).flatten.take (k - acc.length) ∧
    (readLoop k fuel r acc).1.2 = decide ((queue r).flatten.length ≤ k - acc.length) ∧
    (queue (readLoop k fuel r acc).2).flatten = (queue r).flatten.drop (k - acc.length) ∧
    Ok (readLoop k fuel r acc).2 := by
  intro fuel
  induction fuel with
  | zero => intro r acc _ _ hfuel; omega
  | succ fuel ih =>
    intro r acc hacc hok hfuel
    rcases hn : r.next with ⟨_ | p, r'⟩
    · -- EOF: nothing is left
      have hq := next_none hn
      simp only [readLoop, hn, hq]
      exact ⟨by simp, by simp, by simp [queue], ⟨by simp, by simp⟩⟩
    · obtain ⟨hbuf, hsome, hq⟩ := next_some hn
      have hp : p ≠ [] := queue_ne_nil hok p (by rw [hq]; exact List.mem_cons_self ..)
      have hok' : Ok { r' with piece := none } :=
        ⟨fun w hw => hok.offsets w (hbuf ▸ hw), by simp⟩
      have hsome' : r'.buf.isSome := hbuf ▸ hsome
      simp only [readLoop, hn, hq, List.flatten_cons]
      split
      · -- the piece does not fit: the rest of it stays in hand
        rename_i hpart
        have hm : k - acc.length < p.length := by omega
        have hmin : min (k - acc.length) p.length = k - acc.length := by omega
        rw [queue_with_piece r' hsome', List.flatten_cons, hmin]
        refine ⟨?_, ?_, ?_, ?_⟩
        · dsimp only; rw [List.take_append_of_le_length hm.le]
        · dsimp only; rw [eq_comm, decide_eq_false_iff_not, List.length_append]; omega
        · rw [List.drop_append_of_le_length hm.le]
        · exact ⟨fun w hw => hok.offsets w (hbuf ▸ hw),
            fun q hq' => by
              simp only [Option.some.injEq] at hq'
              subst hq'
              simp only [ne_eq, List.drop_eq_nil_iff, not_le]; omega⟩
      · -- the piece fits: copy it and go on with the next one
        rename_i hfull
        have hm : p.length ≤ k - acc.length := by omega
        have htake : p.take (min (k - acc.length) p.length) = p := List.take_of_length_le (by omega)
        rw [htake]
        obtain ⟨h1, h2, h3, h4⟩ := ih { r' with piece := none } (acc ++ p)
          (by simp; omega) hok' (by simp only [hq, List.length_cons] at hfuel; omega)
        simp only [List.length_append] at h1 h2 h3
        refine ⟨?_, ?_, ?_, h4⟩
        · rw [h1, List.take_append, List.take_of_length_le hm, List.append_assoc]
          congr 3
          omega
        · rw [h2, List.length_append]
          simp only [decide_eq_decide]
          omega
        · rw [h3, List.drop_append, List.drop_eq_nil_of_le hm, List.nil_append]
          congr 1
          omega

theorem read_spec (r : EncReader) (hok : Ok r) (k : Nat) :
    (r.read k).1.1 = (queue r).flatten.take k ∧
    (r.read k).1.2 = decide ((queue r).flatten.length ≤ k) ∧
    (queue (r.read k).2).flatten = (queue r).flatten.drop k ∧ Ok (r.read k).2 := by
  have h := readLoop_spec k (readFuel r) r [] (Nat.zero_le k) hok (length_queue_lt r)
  simpa only [read, List.length_nil, Nat.sub_zero, List.nil_append] using h

/-- Reads with the buffer sizes `ks` return the first `ks.sum` bytes still to come. -/
theorem readAll_eq (r : EncReader) (hok : Ok r) (ks : List Nat) :
    readAll r ks = (queue r).flatten.take ks.sum := by
  induction ks generalizing r with
  | nil => simp [readAll]
  | cons k ks ih =>
    obtain ⟨h1, -, h3, h4⟩ := read_spec r hok k
    rw [readAll, h1, ih _ h4, h3, List.sum_cons, List.take_add]

/-- With the headers within the string data, the pieces are what the copy
loop of `toBytes` produces. -/
theorem flatten_pieces (str : List UInt8) (strpos : Nat) (heads : List Listhead)
    (h : ∀ h ∈ heads, h.offset ≤ str.length) :
    (pieces str strpos heads).flatten = toBytesLoop str strpos heads := by
  induction heads generalizing strpos with
  | nil =>
    simp only [pieces, toBytesLoop]
    split
    · simp
    · rw [List.drop_of_length_le (by omega)]; rfl
  | cons head heads ih =>
    have hrest : ∀ h ∈ heads, h.offset ≤ str.length := fun h' hh => h h' (List.mem_cons_of_mem _ hh)
    have hhead := h head (List.mem_cons_self ..)
    simp only [pieces, toBytesLoop, List.length_take, List.length_drop]
    split
    · rename_i hgt
      have hpos : strpos + min (head.offset - strpos) (str.length - strpos) = head.offset := by
        omega
      simp [hpos, ih _ hrest]
    · rename_i hle
      have hz : head.offset - strpos = 0 := by omega
      simp [hz, ih _ hrest]

end EncReader

open EncReader in
/-- The reader of `EncodeToReader` has the whole encoding to hand out. -/
theorem encodeToReader_queue (t : Item) (ht : t.Fits) :
    Ok (encodeToReader t).2 ∧ (queue (encodeToReader t).2).flatten = t.enc := by
  have hoff : ∀ h ∈ heads t 0, h.offset ≤ (strData t).length := fun h hh => by
    simpa using (heads_offsets t 0 h hh).2
  refine ⟨⟨fun w hw h hh => ?_, by simp [encodeToReader]⟩, ?_⟩
  · simp only [encodeToReader, writeItem_empty t ht, Option.some.injEq] at hw
    subst hw
    exact hoff h hh
  · simp only [encodeToReader, writeItem_empty t ht, queue, Option.toList_none,
      List.nil_append, List.drop_zero]
    rw [flatten_pieces _ _ _ hoff, toBytesLoop_value t ht]

/-- **The three serialisers of `encbuf` agree with the recursive encoding.**
For every item that fits the 64-bit sizes, `EncodeToBytes` and `Encode` give
`t.enc`, `EncodeToReader` reports its length, and reads of its reader with any
buffer sizes return the encoding's first bytes, as many as the buffers hold. -/
theorem encbuf_eq_enc (t : Item) (ht : t.Fits) :
    encodeToBytes t = t.enc ∧ encode t = t.enc ∧ (encodeToReader t).1 = t.enc.length ∧
      ∀ ks : List Nat, EncReader.readAll (encodeToReader t).2 ks = t.enc.take ks.sum := by
  obtain ⟨hok, hq⟩ := encodeToReader_queue t ht
  refine ⟨encodeToBytes_eq t ht, encode_eq t ht, ?_, fun ks => ?_⟩
  · simp only [encodeToReader, writeItem_empty t ht, Encbuf.size]
    exact (length_enc_split t).symm
  · rw [EncReader.readAll_eq _ hok, hq]

/-- A list whose second element is a list, read back two bytes at a time. -/
theorem encbuf_eq_enc_cat :
    (Item.list [.str [0x63, 0x61, 0x74], .list []]).Fits ∧
      encodeToBytes (.list [.str [0x63, 0x61, 0x74], .list []]) =
        (Item.list [.str [0x63, 0x61, 0x74], .list []]).enc ∧
      encode (.list [.str [0x63, 0x61, 0x74], .list []]) =
        (Item.list [.str [0x63, 0x61, 0x74], .list []]).enc ∧
      (encodeToReader (.list [.str [0x63, 0x61, 0x74], .list []])).1 =
        (Item.list [.str [0x63, 0x61, 0x74], .list []]).enc.length ∧
      ∀ ks : List Nat, EncReader.readAll (encodeToReader (.list [.str [0x63, 0x61, 0x74], .list []])).2 ks =
        (Item.list [.str [0x63, 0x61, 0x74], .list []]).enc.take ks.sum :=
  ⟨by decide, encbuf_eq_enc _ (by decide)⟩

example : EncReader.readAll (encodeToReader (.list [.str [0x63, 0x61, 0x74], .list []])).2
    [2, 3, 4] = [0xC5, 0x83, 0x63, 0x61, 0x74, 0xC0] := by decide

end Xdchain.Rlp.Encode
