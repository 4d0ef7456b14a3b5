import Xdchain.Rlp.Canonical

/-! # Decoding into Go types

The decoders `makeDecoder` of `rlp/decode.go` builds for the Go types the
QBFT messages are made of: `*big.Int`, `[]byte`, byte arrays such as
`common.Hash`, structs (a list with one value per field, in order) and slices
(a list of elements). Each is a computation on the `Stream`, built from its
methods. The writers of `rlp/encode.go` for the same types are given as the
item they write, which `EncodeToBytes` then turns into bytes (`encbuf_eq_enc`).

`Reads dec t v` says that `dec` returns `v` having read exactly the encoding
of `t`, wherever that encoding stands and whatever follows it: the form in
which decoders compose, field after field and element after element. -/

namespace Xdchain.Rlp.Typed
open Xdchain.Lib.BigEndian Xdchain.Lib.ErrState Xdchain.Rlp.Decode Xdchain.Rlp.Encode
  Xdchain.Rlp.Canonical

variable {α β : Type}

/-! ## Writers -/

/-- `encodeUint`: zero as the empty string, below `0x80` the byte itself, else
the big-endian bytes after a string header; all three are the string of the
minimal big-endian bytes. -/
def writeUint (i : Nat) : Item := .str (beBytes i)

/-- `writeBigInt` of a non-negative integer: up to 64 bits through
`encodeUint`; beyond, the `(bitlen + 7) / 8` big-endian bytes of its words,
which are again its minimal big-endian bytes. -/
def writeBigInt (i : Nat) : Item := writeUint i

/-- `writeBytes`: `encodeString` of the slice. -/
def writeBytes (b : List UInt8) : Item := .str b

/-- The byte array writer: a string of the array's bytes (for length one the
byte itself below `0x80`, as `encodeString` writes it). -/
def writeByteArray {n : Nat} (v : Vector UInt8 n) : Item := .str v.toList

/-! ## Decoders -/

/-- `decodeBigInt`: the string's bytes as a big-endian integer. -/
def decodeBigInt : StreamM Nat := do
  let b ← bytes
  -- Reject leading zero bytes
  if b.length > 0 ∧ b.headD 0 = 0 then throw .canonInt
  else pure (beValue b)

/-- `decodeByteSlice`: the string's bytes. -/
def decodeByteSlice : StreamM (List UInt8) := bytes

/-- `decodeByteArray` into the array `val`: a string of exactly the array's
length fills it; a single byte can only fill an array of one byte, and then
the error of `Uint` is dropped. -/
def decodeByteArray {n : Nat} (val : Vector UInt8 n) : StreamM (Vector UInt8 n) := do
  let (k, size) ← kind
  match k with
  | .byte =>
    if h0 : n = 0 then throw .inputStringTooLong
    else if 1 < n then throw .inputStringTooShort
    else
      let bv ← attempt (uint 64)
      let bv := match bv with
        | .ok v => v
        | .error _ => 0
      pure (val.set 0 (UInt8.ofNat bv) (Nat.pos_of_ne_zero h0))
  | .string =>
    if n < size then throw .inputStringTooLong
    else if n > size then throw .inputStringTooShort
    else do
      let slice ← readFull n
      -- Reject cases where single byte encoding should have been used.
      if size = 1 ∧ slice.headD 0 < 128 then throw .canonSize
      else pure (Vector.ofFn fun i => slice.getD i 0)
  | .list => throw .expectedString

/-- A field of a struct: `EOL` there means that the struct's list ended
before its fields did. -/
def field (dec : StreamM α) : StreamM α := do
  match ← attempt dec with
  | .ok v => pure v
  | .error .eol => throw .tooFewElements
  | .error err => throw err

/-- The decoder of `makeStructDecoder`, given the decoding of the fields in
order (each through `field`): the fields fill the struct's list exactly. -/
def decodeStruct (fields : StreamM α) : StreamM α := do
  let _ ← list
  let v ← fields
  listEnd
  pure v

/-- The slice decoder of `makeListDecoder`: `decodeListSlice`, with the fuel
the unread input gives (every element takes a byte at least). -/
def decodeSlice (elemdec : StreamM α) : StreamM (List α) := do
  let s ← get
  decodeListSlice elemdec (s.r.length + 1)

/-- The decoder of `makeNilPtrDecoder`, for a pointer field tagged `nil`: an
empty string or list is `nil` when it is of the pointer's nil kind, and an
error when it is of the other; any other value is read by `dec`. -/
def decodeNilPtr (nilKind : Kind) (dec : StreamM α) : StreamM (Option α) := do
  let (k, size) ← kind
  if k ≠ .byte ∧ size = 0 then
    if k ≠ nilKind then throw .wrongNilKind
    modify fun s => { s with kind := none }
    pure none
  else some <$> dec

/-- `DecodeBytes(b, &v)` with `dec` the decoder of `v`'s type: exactly one
value and no trailing data. -/
def decodeBytesAs (dec : StreamM α) (b : List UInt8) : Except Err α :=
  match dec.run (reset b b.length) with
  | .ok v s => if s.r.length > 0 then .error .moreThanOneValue else .ok v
  | .error err _ => .error err

/-! ## Reading encodings back -/

/-- `dec` returns `v` having read exactly the encodings of `ts`, wherever they
stand next in the input with room for them. Go sizes are 64-bit: the
encodings are shorter than `2 ^ 64` bytes. -/
def ReadsSeq (dec : StreamM α) (ts : List Item) (v : α) : Prop :=
  ∀ (s : Stream) (rest : List UInt8), s.kind = none → s.kinderr = none →
    (Item.encAll ts).length < 2 ^ 64 → s.r = Item.encAll ts ++ rest →
    s.Room (Item.encAll ts).length →
    ∃ s', dec.run s = .ok v s' ∧ After s (Item.encAll ts).length s'

/-- `dec` returns `v` having read exactly the encoding of `t`. -/
def Reads (dec : StreamM α) (t : Item) (v : α) : Prop := ReadsSeq dec [t] v

/-- At the end of the innermost list `dec` stops with `EOL`, having read nothing. -/
def StopsAtEOL (dec : StreamM α) : Prop :=
  ∀ s : Stream, s.kind = none → atEOL s = true → dec.run s = .error .eol { s with kinderr := none }

theorem reads_iff {dec : StreamM α} {t : Item} {v : α} :
    Reads dec t v ↔ ∀ (s : Stream) (rest : List UInt8), s.kind = none → s.kinderr = none →
      t.Fits → s.r = t.enc ++ rest → s.Room t.enc.length →
      ∃ s', dec.run s = .ok v s' ∧ After s t.enc.length s' := by
  simp only [Reads, ReadsSeq, Item.Fits, encAll_cons, encAll_nil, List.append_nil]

theorem after_zero_self {s : Stream} (hk : s.kind = none) (he : s.kinderr = none) : After s 0 s := by
  refine ⟨s.size, s.byteval, ?_⟩
  rw [read_zero hk]
  cases s
  simp_all

theorem readsSeq_pure (v : α) : ReadsSeq (pure v) [] v :=
  fun s _ hk he _ _ _ => ⟨s, rfl, after_zero_self hk he⟩

/-- Decoders read one after the other what stands one after the other. -/
theorem ReadsSeq.bind {d : StreamM α} {f : α → StreamM β} {ts us : List Item} {a : α} {b : β}
    (h1 : ReadsSeq d ts a) (h2 : ReadsSeq (f a) us b) : ReadsSeq (d >>= f) (ts ++ us) b := by
  intro s rest hk he hsize hr hroom
  rw [encAll_append, List.length_append] at hsize hroom ⊢
  rw [encAll_append, List.append_assoc] at hr
  obtain ⟨hroom1, hroom2⟩ := Stream.room_add hroom
  obtain ⟨s1, h1', hafter1⟩ := h1 s _ hk he (by omega) hr hroom1
  obtain ⟨s2, h2', hafter2⟩ := h2 s1 rest hafter1.kind_eq hafter1.kinderr_eq (by omega)
    (by rw [hafter1.r_eq, hr, List.drop_left]) (hafter1.room_iff.mpr hroom2)
  exact ⟨s2, by rw [run_bind_of_ok h1', h2'], after_trans hafter1 hafter2⟩

theorem ReadsSeq.map {d : StreamM α} {ts : List Item} {a : α} (f : α → β) (h : ReadsSeq d ts a) :
    ReadsSeq (f <$> d) ts (f a) := by
  intro s rest hk he hsize hr hroom
  obtain ⟨s', h', hafter⟩ := h s rest hk he hsize hr hroom
  exact ⟨s', by rw [run_map_eq, h'], hafter⟩

theorem Reads.bind_pure {d : StreamM α} {f : α → StreamM β} {t : Item} {a : α} {b : β}
    (h1 : Reads d t a) (h2 : f a = pure b) : Reads (d >>= f) t b := by
  have h := ReadsSeq.bind h1 (show ReadsSeq (f a) [] b by rw [h2]; exact readsSeq_pure b)
  rwa [List.append_nil] at h

/-! ### `Kind` at a value -/

/-- `Kind` reads a string or list header and caches what it announces. -/
theorem run_kind_header {s : Stream} {k : Kind} {n : Nat} {rest : List UInt8}
    (hk : s.kind = none) (hkb : k ≠ .byte) (hn : n < 2 ^ 64)
    (hr : s.r = header (headerTag k) n ++ rest) (h : s.Room ((header (headerTag k) n).length + n)) :
    kind.run s = .ok (k, n) { s.read (header (headerTag k) n).length with
      byteval := 0, kind := some k, size := n, kinderr := none } := by
  have hpos : 0 < (header (headerTag k) n).length + n := by
    have := List.length_pos_of_ne_nil (header_ne_nil (headerTag k) n)
    omega
  obtain ⟨hh, hbody⟩ := Stream.room_add h
  have hread := run_readKind_header (s := { s with kinderr := none }) hkb hn hr hh
  exact run_kind_fresh hk (atEOL_false_of_room h hpos) hread (Stream.fits_of_room hbody)

/-- A method that starts with `Kind` runs after `Kind` as it runs before it:
the second `Kind` returns what the first cached. -/
theorem run_kind_bind_cached {g : Kind × Nat → StreamM α} {s s1 : Stream} {r : Kind × Nat}
    (hk : s.kind = none) (h : kind.run s = .ok r s1) :
    (kind >>= g).run s = (kind >>= g).run s1 := by
  obtain ⟨k, n⟩ := r
  obtain ⟨-, s0, -, -, rfl⟩ := kind_eq_ok hk h
  rw [run_bind_of_ok h, run_bind_of_ok (run_kind_cached rfl rfl)]

theorem run_cached_of_kind (dec : StreamM α) {s s1 : Stream} {r : Kind × Nat}
    (hdec : ∃ g, dec = kind >>= g) (hk : s.kind = none) (h : kind.run s = .ok r s1) :
    dec.run s = dec.run s1 := by
  obtain ⟨g, rfl⟩ := hdec
  exact run_kind_bind_cached hk h

/-- **A string is read back by `Bytes`**, as a single byte or after its header. -/
theorem reads_bytes (b : List UInt8) : Reads bytes (.str b) b := by
  rw [reads_iff]
  intro s rest hk _ hb hr h
  rcases encString_cases b with ⟨c, rfl, hc, he⟩ | ⟨he, hcanon⟩
  · -- a single byte below 0x80 stands for itself
    rw [enc_str, he] at hr h ⊢
    have hread := run_readKind_byte (s := { s with kinderr := none }) hr hc h
    have hkind := run_kind_fresh hk (atEOL_false_of_room h (by simp)) hread (fits_zero _)
    rw [run_cached_of_kind bytes ⟨_, rfl⟩ hk hkind, run_bytes_byte rfl rfl]
    exact ⟨_, rfl, 0, c, rfl⟩
  · -- a header, then the bytes
    rw [enc_str, he, List.append_assoc] at hr
    rw [enc_str, he, List.length_append] at h ⊢
    have hkind := run_kind_header (k := .string) hk (by simp) (length_lt_of_fits hb) hr h
    have hr2 : s.r.drop (header 0x80 b.length).length = b ++ rest := by
      rw [hr, List.drop_left]
    rw [run_cached_of_kind bytes ⟨_, rfl⟩ hk hkind,
      run_bytes_string rfl rfl (by simp [hr2]) (Stream.room_add h).2
        (by simpa [hr2] using hcanon)]
    have htake : (s.r.drop (header 0x80 b.length).length).take b.length = b := by
      rw [hr2, List.take_left]
    simp only [Stream.read_r, headerTag_string, htake]
    exact ⟨_, rfl, b.length, 0, by rw [← Stream.read_read]; rfl⟩

theorem reads_decodeBigInt (i : Nat) : Reads decodeBigInt (writeBigInt i) i := by
  -- the minimal big-endian bytes have no leading zero
  have hcanon : ¬ ((beBytes i).length > 0 ∧ (beBytes i).headD 0 = 0) := by
    rintro ⟨hpos, hz⟩
    obtain ⟨c, cs, hcs⟩ := List.exists_cons_of_length_pos hpos
    have := head_beBytes_ne_zero i
    rw [hcs] at hz this
    simp_all
  exact Reads.bind_pure (reads_bytes _) (by rw [if_neg hcanon, beValue_beBytes])

theorem reads_decodeByteSlice (b : List UInt8) : Reads decodeByteSlice (writeBytes b) b :=
  reads_bytes b

theorem ofFn_getD_toList {n : Nat} (v : Vector UInt8 n) :
    Vector.ofFn (fun i : Fin n => v.toList.getD i 0) = v := by
  apply Vector.ext
  intro i hi
  simp [List.getD_eq_getElem?_getD]

/-- An array of any length but one is read back from its string (a one-byte
array holding a byte below `0x80` is written as that byte, which `Uint` reads). -/
theorem reads_decodeByteArray {n : Nat} (val v : Vector UInt8 n) (hn : n ≠ 1) :
    Reads (decodeByteArray val) (writeByteArray v) v := by
  rw [reads_iff]
  intro s rest hk _ h hr hroom
  have hlen : v.toList.length = n := Vector.length_toList
  have he : (writeByteArray v).enc = header 0x80 n ++ v.toList := by
    rcases encString_cases v.toList with ⟨c, hc, -, -⟩ | ⟨he, -⟩
    · exact absurd (by rw [← hlen, hc]; rfl) hn
    · rw [writeByteArray, enc_str, he, hlen]
  have hnb : n < 2 ^ 64 := by
    have : n ≤ (writeByteArray v).enc.length := by rw [he, List.length_append]; omega
    exact Nat.lt_of_le_of_lt this h
  rw [he, List.append_assoc] at hr
  rw [he, List.length_append, hlen] at hroom ⊢
  have hkind := run_kind_header (k := .string) hk (by simp) hnb hr hroom
  have hr2 : s.r.drop (header 0x80 n).length = v.toList ++ rest := by
    rw [hr, List.drop_left]
  unfold decodeByteArray
  rw [run_bind_of_ok hkind]
  simp only [lt_irrefl, if_false, EStateM.run_bind]
  rw [run_readFull (n := n) ?hlen ?hroom]
  · have htake : (s.r.drop (header 0x80 n).length).take n = v.toList := by
      rw [hr2, List.take_left' hlen]
    simp only [Stream.read_r, headerTag_string, htake, hn, false_and, if_false, EStateM.run_pure,
      ofFn_getD_toList]
    exact ⟨_, rfl, n, 0, by rw [← Stream.read_read]; rfl⟩
  case hlen => simp [hr2, hlen]
  case hroom => exact (Stream.room_add hroom).2

theorem readsSeq_field {dec : StreamM α} {ts : List Item} {v : α} (h : ReadsSeq dec ts v) :
    ReadsSeq (field dec) ts v := by
  intro s rest hk he hsize hr hroom
  obtain ⟨s', h', hafter⟩ := h s rest hk he hsize hr hroom
  refine ⟨s', ?_, hafter⟩
  unfold field
  rw [run_bind_of_ok (run_attempt_of_ok h')]
  rfl

theorem reads_field {dec : StreamM α} {t : Item} {v : α} (h : Reads dec t v) :
    Reads (field dec) t v :=
  readsSeq_field h

/-! ### Lists -/

/-- What `List` leaves after a list header: the list open on the stack. -/
theorem run_list_header {s : Stream} {ts : List Item} {rest : List UInt8} (hk : s.kind = none)
    (hsize : (Item.encAll ts).length < 2 ^ 64)
    (hr : s.r = header 0xC0 (Item.encAll ts).length ++ (Item.encAll ts ++ rest))
    (h : s.Room ((header 0xC0 (Item.encAll ts).length).length + (Item.encAll ts).length)) :
    list.run s = .ok (Item.encAll ts).length
      { s.read (header 0xC0 (Item.encAll ts).length).length with
        stack := ⟨0, (Item.encAll ts).length⟩ ::
          (s.read (header 0xC0 (Item.encAll ts).length).length).stack
        kind := none
        size := 0
        byteval := 0
        kinderr := none } := by
  have hkind := run_kind_header (k := .list) hk (by simp) hsize hr h
  rw [run_cached_of_kind list ⟨_, rfl⟩ hk hkind, run_list rfl rfl]
  rfl

theorem length_encAll_lt {ts : List Item} (h : (Item.list ts).Fits) :
    (Item.encAll ts).length < 2 ^ 64 := by
  unfold Item.Fits at h
  rw [enc_list, List.length_append] at h
  omega

/-- **A list is read by `List`, a reading of its contents and `ListEnd`**:
`List` opens the list with room for exactly its contents, and once they are
read, `ListEnd` closes it where the list's encoding ends. -/
theorem list_bracket {s : Stream} {ts : List Item} {rest : List UInt8} (hk : s.kind = none)
    (hfit : (Item.list ts).Fits) (hr : s.r = (Item.list ts).enc ++ rest)
    (h : s.Room (Item.list ts).enc.length) :
    ∃ s1, list.run s = .ok (Item.encAll ts).length s1 ∧ s1.kind = none ∧ s1.kinderr = none ∧
      s1.r = Item.encAll ts ++ rest ∧ s1.Room (Item.encAll ts).length ∧
      (∃ tos others, s1.stack = tos :: others ∧ tos.pos + (Item.encAll ts).length = tos.size) ∧
      ∀ s2, After s1 (Item.encAll ts).length s2 →
        ∃ s3, listEnd.run s2 = .ok () s3 ∧ After s (Item.list ts).enc.length s3 := by
  rw [enc_list, List.append_assoc] at hr
  rw [enc_list, List.length_append] at h ⊢
  have hr2 : s.r.drop (header 0xC0 (Item.encAll ts).length).length = Item.encAll ts ++ rest := by
    rw [hr, List.drop_left]
  refine ⟨_, run_list_header hk (length_encAll_lt hfit) hr h, rfl, rfl, by simpa using hr2,
    ⟨fun tos htos => by simp at htos; subst htos; simp, (Stream.room_add h).2.2⟩,
    ⟨_, _, rfl, by simp⟩, fun s2 hafter => ?_⟩
  have hst2 : s2.stack = ⟨(Item.encAll ts).length, (Item.encAll ts).length⟩ ::
      (s.read (header 0xC0 (Item.encAll ts).length).length).stack := by
    rw [hafter.stack_eq]; simp [Stream.bump]
  obtain ⟨sz, bv, rfl⟩ := hafter
  exact ⟨_, run_listEnd hst2 rfl, 0, bv, by rw [← Stream.read_read]; rfl⟩

/-- **A struct is read back from the list of its fields' encodings.** -/
theorem reads_decodeStruct {fields : StreamM α} {ts : List Item} {v : α}
    (hf : ReadsSeq fields ts v) : Reads (decodeStruct fields) (.list ts) v := by
  rw [reads_iff]
  intro s rest hk _ hfit hr h
  obtain ⟨s1, hlist, hk1, he1, hr1, hroom1, -, hend⟩ := list_bracket hk hfit hr h
  obtain ⟨s2, h2, hafter2⟩ := hf s1 rest hk1 he1 (length_encAll_lt hfit) hr1 hroom1
  obtain ⟨s3, h3, hafter3⟩ := hend s2 hafter2
  unfold decodeStruct
  rw [run_bind_of_ok hlist, run_bind_of_ok h2, run_bind_of_ok h3]
  exact ⟨s3, rfl, hafter3⟩

/-- The elements of a slice are read one after the other, up to the end of
the list, given fuel beyond their number. -/
theorem decodeSliceElems_reads {elemdec : StreamM β} {f : α → Item} {g : α → β}
    (heol : StopsAtEOL elemdec) :
    ∀ (xs : List α) (n : Nat) (s : Stream) (rest : List UInt8),
      (∀ x ∈ xs, Reads elemdec (f x) (g x)) → xs.length < n → s.kind = none →
      s.kinderr = none → (Item.encAll (xs.map f)).length < 2 ^ 64 →
      s.r = Item.encAll (xs.map f) ++ rest → s.Room (Item.encAll (xs.map f)).length →
      (∃ tos others, s.stack = tos :: others ∧
        tos.pos + (Item.encAll (xs.map f)).length = tos.size) →
      ∃ s', (decodeSliceElems elemdec n).run s = .ok (xs.map g) s' ∧
        After s (Item.encAll (xs.map f)).length s'
  | [], n, s, rest, _, hn, hk, he, _, _, _, ⟨tos, others, hst, hend⟩ => by
    -- at the end of the list the element decoder stops with `EOL`
    obtain ⟨m, rfl⟩ : ∃ m, n = m + 1 := ⟨n - 1, by simp at hn; omega⟩
    have hatEOL : atEOL s = true := by simp [atEOL, hst]; simpa using hend
    have hs : ({ s with kinderr := none } : Stream) = s := by
      cases s
      simp_all
    refine ⟨s, ?_, by simpa using after_zero_self hk he⟩
    simp only [decodeSliceElems]
    rw [run_bind_of_ok (run_attempt_of_error (heol s hk hatEOL)), hs]
    rfl
  | x :: xs, n, s, rest, helems, hn, hk, he, hsize, hr, h, ⟨tos, others, hst, hend⟩ => by
    obtain ⟨m, rfl⟩ : ∃ m, n = m + 1 := ⟨n - 1, by simp at hn; omega⟩
    simp only [List.map_cons, encAll_cons, List.length_append] at hsize hr h hend ⊢
    obtain ⟨hroomx, hroomxs⟩ := Stream.room_add h
    -- the element, then the rest of the slice after it
    obtain ⟨s1, h1, hafter1⟩ := (reads_iff.mp (helems x (List.mem_cons_self ..))) s _ hk he
      (by unfold Item.Fits; omega) (by rw [hr, List.append_assoc]) hroomx
    obtain ⟨s2, h2, hafter2⟩ := decodeSliceElems_reads heol xs m s1 rest
      (fun y hy => helems y (List.mem_cons_of_mem _ hy)) (by simpa using hn) hafter1.kind_eq
      hafter1.kinderr_eq (by omega) (by rw [hafter1.r_eq, hr, List.append_assoc, List.drop_left])
      (hafter1.room_iff.mpr hroomxs)
      ⟨_, others, by rw [hafter1.stack_eq, hst]; rfl, by simp; omega⟩
    rw [decodeSliceElems_cons h1]
    simp only [EStateM.run_bind, h2, EStateM.run_pure]
    exact ⟨_, rfl, after_trans hafter1 hafter2⟩

/-- **A slice is read back from the list of its elements' encodings**, given
fuel beyond their number. -/
theorem reads_decodeListSlice {elemdec : StreamM β} {f : α → Item} {g : α → β} {xs : List α}
    {n : Nat} (heol : StopsAtEOL elemdec) (helems : ∀ x ∈ xs, Reads elemdec (f x) (g x))
    (hn : xs.length < n) : Reads (decodeListSlice elemdec n) (.list (xs.map f)) (xs.map g) := by
  rw [reads_iff]
  intro s rest hk _ hfit hr h
  obtain ⟨s1, hlist, hk1, he1, hr1, hroom1, htop, hend⟩ := list_bracket hk hfit hr h
  unfold decodeListSlice
  rw [run_bind_of_ok hlist]
  by_cases hP : (Item.encAll (xs.map f)).length = 0
  · -- the empty list: `ListEnd` right away
    have hnil : xs = [] := by
      have := length_le_encAll (xs.map f)
      exact List.eq_nil_of_length_eq_zero (by simp only [List.length_map] at this; omega)
    subst hnil
    obtain ⟨s3, h3, hafter3⟩ := hend s1 (after_zero_self hk1 he1)
    simp only [List.map_nil, encAll_nil, List.length_nil, if_true, EStateM.run_bind, h3]
    exact ⟨s3, rfl, hafter3⟩
  · -- the elements, read inside the list, then `ListEnd`
    simp only [hP, if_false, EStateM.run_bind]
    obtain ⟨s2, h2, hafter2⟩ := decodeSliceElems_reads heol xs n s1 rest helems hn hk1 he1
      (length_encAll_lt hfit) hr1 hroom1 htop
    obtain ⟨s3, h3, hafter3⟩ := hend s2 hafter2
    simp only [h2, h3]
    exact ⟨s3, rfl, hafter3⟩

theorem reads_decodeSlice {elemdec : StreamM β} {f : α → Item} {g : α → β} {xs : List α}
    (heol : StopsAtEOL elemdec) (helems : ∀ x ∈ xs, Reads elemdec (f x) (g x)) :
    Reads (decodeSlice elemdec) (.list (xs.map f)) (xs.map g) := by
  rw [reads_iff]
  intro s rest hk he hfit hr h
  -- every element takes a byte at least, and the input holds them all
  have hn : xs.length < s.r.length + 1 := by
    have h1 := length_le_encAll (xs.map f)
    have h2 : (Item.encAll (xs.map f)).length ≤ (Item.list (xs.map f)).enc.length := by simp
    rw [hr, List.length_append]
    simp only [List.length_map] at h1
    omega
  unfold decodeSlice
  simp only [EStateM.run_bind, EStateM.run_get]
  exact reads_iff.mp (reads_decodeListSlice heol helems hn) s rest hk he hfit hr h

/-- `Raw` after a string or list header: the header is put back in front of
the content. -/
theorem run_raw_header {s : Stream} {k : Kind} {payload rest : List UInt8} (hk : s.kind = none)
    (hkb : k ≠ .byte) (hn : payload.length < 2 ^ 64)
    (hr : s.r = header (headerTag k) payload.length ++ (payload ++ rest))
    (h : s.Room ((header (headerTag k) payload.length).length + payload.length)) :
    ∃ s', raw.run s = .ok (header (headerTag k) payload.length ++ payload) s' ∧
      After s ((header (headerTag k) payload.length).length + payload.length) s' := by
  have hkind := run_kind_header hk hkb hn hr h
  have hr2 : s.r.drop (header (headerTag k) payload.length).length = payload ++ rest := by
    rw [hr, List.drop_left]
  have htake : (s.r.drop (header (headerTag k) payload.length).length).take payload.length =
      payload := by
    rw [hr2, List.take_left]
  unfold raw
  rw [run_bind_of_ok hkind]
  simp only [hkb, if_false, EStateM.run_bind]
  rw [run_readFull ?hlen ?hroom]
  · simp only [Stream.read_r, htake]
    refine ⟨_, ?_, payload.length, 0, by rw [← Stream.read_read]⟩
    -- `puthead` with the tag of the kind writes the header `Kind` read
    cases k with
    | byte => exact absurd rfl hkb
    | string =>
      rw [if_pos rfl, show (0xB7 : UInt8) = 0x80 + 55 from rfl, puthead_eq_header _ hn]
      rfl
    | list =>
      rw [if_neg (by simp), show (0xF7 : UInt8) = 0xC0 + 55 from rfl, puthead_eq_header _ hn]
      rfl
  case hlen => simp [hr2]
  case hroom => exact (Stream.room_add h).2

/-- **`Raw` gives back the encoding of the value ahead.** -/
theorem reads_raw (t : Item) : Reads raw t t.enc := by
  rw [reads_iff]
  intro s rest hk _ ht hr h
  cases t with
  | str b =>
    rcases encString_cases b with ⟨c, rfl, hc, he⟩ | ⟨he, -⟩
    · -- a single byte is its own encoding
      rw [enc_str, he] at hr h ⊢
      have hread := run_readKind_byte (s := { s with kinderr := none }) hr hc h
      have hkind := run_kind_fresh hk (atEOL_false_of_room h (by simp)) hread (fits_zero _)
      unfold raw
      rw [run_bind_of_ok hkind]
      exact ⟨_, rfl, 0, c, rfl⟩
    · rw [enc_str, he, List.append_assoc] at hr
      rw [enc_str, he, List.length_append] at h ⊢
      exact run_raw_header (k := .string) hk (by simp) (length_lt_of_fits ht) hr h
  | list xs =>
    rw [enc_list, List.append_assoc] at hr
    rw [enc_list, List.length_append] at h ⊢
    exact run_raw_header (k := .list) hk (by simp) (length_encAll_lt ht) hr h

theorem After.length_eq {s s' : Stream} {a b : Nat} (h : After s a s') (hab : a = b) :
    After s b s' :=
  hab ▸ h

/-! ### Decoders written by hand

A `DecodeRLP` method written by hand calls `List`, decoders and `ListEnd` in
turn, nesting its continuation. `Pos s bs rest` says where the stream stands
between two of these calls: at the bytes `bs` still to be read in the open
lists, followed by `rest`. -/

/-- The stream stands at `bs`, followed by `rest`, with room for `bs`. -/
structure Pos (s : Stream) (bs rest : List UInt8) : Prop where
  kind_eq : s.kind = none
  kinderr_eq : s.kinderr = none
  length_lt : bs.length < 2 ^ 64
  r_eq : s.r = bs ++ rest
  room : s.Room bs.length

theorem Pos.after {s s1 : Stream} {bs more rest : List UInt8} (hp : Pos s (bs ++ more) rest)
    (ha : After s bs.length s1) : Pos s1 more rest where
  kind_eq := ha.kind_eq
  kinderr_eq := ha.kinderr_eq
  length_lt := by have := hp.length_lt; rw [List.length_append] at this; omega
  r_eq := by rw [ha.r_eq, hp.r_eq, List.append_assoc, List.drop_left]
  room := by
    have h := hp.room
    rw [List.length_append] at h
    exact ha.room_iff.mpr (Stream.room_add h).2

theorem Pos.readsSeq {d : StreamM α} {ts : List Item} {a : α} {s : Stream}
    {more rest : List UInt8} (h : ReadsSeq d ts a) (hp : Pos s (Item.encAll ts ++ more) rest) :
    ∃ s1, d.run s = .ok a s1 ∧ After s (Item.encAll ts).length s1 ∧ Pos s1 more rest := by
  have hlen := hp.length_lt
  have hroom := hp.room
  rw [List.length_append] at hlen hroom
  obtain ⟨s1, h1, ha⟩ := h s (more ++ rest) hp.kind_eq hp.kinderr_eq (by omega)
    (by rw [hp.r_eq, List.append_assoc]) (Stream.room_add hroom).1
  exact ⟨s1, h1, ha, hp.after ha⟩

theorem Pos.reads {d : StreamM α} {t : Item} {a : α} {s : Stream} {more rest : List UInt8}
    (h : Reads d t a) (hp : Pos s (t.enc ++ more) rest) :
    ∃ s1, d.run s = .ok a s1 ∧ After s t.enc.length s1 ∧ Pos s1 more rest := by
  have h' := Pos.readsSeq (show ReadsSeq d [t] a from h)
    (show Pos s (Item.encAll [t] ++ more) rest by simpa using hp)
  simpa using h'

/-- `List` at a list: inside, the stream stands at the contents; once they
are read, `ListEnd` leaves it after the list. -/
theorem Pos.list {s : Stream} {ts : List Item} {more rest : List UInt8}
    (hp : Pos s ((Item.list ts).enc ++ more) rest) :
    ∃ s1, list.run s = .ok (Item.encAll ts).length s1 ∧ Pos s1 (Item.encAll ts) (more ++ rest) ∧
      (∃ tos others, s1.stack = tos :: others ∧ tos.pos + (Item.encAll ts).length = tos.size) ∧
      ∀ s2, After s1 (Item.encAll ts).length s2 →
        ∃ s3, listEnd.run s2 = .ok () s3 ∧ After s (Item.list ts).enc.length s3 ∧
          Pos s3 more rest := by
  have hlen := hp.length_lt
  have hroom := hp.room
  rw [List.length_append] at hlen hroom
  obtain ⟨s1, hlist, hk1, he1, hr1, hroom1, htop, hend⟩ := list_bracket hp.kind_eq
    (by unfold Item.Fits; omega) (by rw [hp.r_eq, List.append_assoc]) (Stream.room_add hroom).1
  refine ⟨s1, hlist, ⟨hk1, he1, length_encAll_lt (by unfold Item.Fits; omega), hr1, hroom1⟩,
    htop, fun s2 ha2 => ?_⟩
  obtain ⟨s3, h3, ha3⟩ := hend s2 ha2
  exact ⟨s3, h3, ha3, hp.after ha3⟩

/-- `Kind` at a list, before a method that starts with `Kind` again. -/
theorem Pos.kind_list {s : Stream} {ts : List Item} {more rest : List UInt8}
    (hp : Pos s ((Item.list ts).enc ++ more) rest) :
    ∃ s1, kind.run s = .ok (.list, (Item.encAll ts).length) s1 ∧
      s1.r = Item.encAll ts ++ (more ++ rest) ∧
      ∀ {γ : Type} (dec : StreamM γ), (∃ g, dec = kind >>= g) → dec.run s1 = dec.run s := by
  have hlen := hp.length_lt
  have hroom := hp.room
  rw [List.length_append, enc_list, List.length_append] at hlen hroom
  have hr := hp.r_eq
  rw [enc_list, List.append_assoc, List.append_assoc] at hr
  have hkind := run_kind_header (k := .list) hp.kind_eq (by simp) (by omega) hr
    (Stream.room_add hroom).1
  exact ⟨_, hkind, by simp [hr],
    fun dec hdec => (run_cached_of_kind dec hdec hp.kind_eq hkind).symm⟩

theorem pos_reset {b : List UInt8} (h : b.length < 2 ^ 64) (inputLimit : Nat)
    (hlim : inputLimit = 0 ∨ inputLimit = b.length) : Pos (reset b inputLimit) b [] where
  kind_eq := rfl
  kinderr_eq := rfl
  length_lt := h
  r_eq := (List.append_nil b).symm
  room := ⟨fun _ htos => by simp [reset] at htos, fun _ => by rcases hlim with rfl | rfl <;> simp [reset]⟩

/-- **`DecodeBytes` reads back an encoding**: the value and nothing after it. -/
theorem decodeBytesAs_enc {dec : StreamM α} {t : Item} {v : α} (h : Reads dec t v)
    (ht : t.Fits) : decodeBytesAs dec t.enc = .ok v := by
  obtain ⟨s', hrun, hafter, -⟩ := Pos.reads h
    (show Pos _ (t.enc ++ []) [] by simpa using pos_reset (b := t.enc) ht t.enc.length (.inr rfl))
  have hr : s'.r = [] := by rw [hafter.r_eq]; simp [reset]
  simp [decodeBytesAs, hrun, hr]

theorem decodeStruct_startsWithKind (fields : StreamM α) : ∃ g, decodeStruct fields = kind >>= g :=
  ⟨_, by unfold decodeStruct list; rw [bind_assoc]⟩

theorem decodeListSlice_startsWithKind (elemdec : StreamM α) (n : Nat) :
    ∃ g, decodeListSlice elemdec n = kind >>= g :=
  ⟨_, by unfold decodeListSlice list; rw [bind_assoc]⟩

theorem stopsAtEOL_kind_bind (g : Kind × Nat → StreamM α) : StopsAtEOL (kind >>= g) :=
  fun _ hk heol => run_bind_of_error (run_kind_eol hk heol)

theorem StopsAtEOL.bind {d : StreamM α} (h : StopsAtEOL d) (f : α → StreamM β) :
    StopsAtEOL (d >>= f) :=
  fun s hk heol => run_bind_of_error (h s hk heol)

theorem stopsAtEOL_list : StopsAtEOL list := by
  unfold list
  exact stopsAtEOL_kind_bind _

theorem stopsAtEOL_bytes : StopsAtEOL bytes := by
  unfold bytes
  exact stopsAtEOL_kind_bind _

theorem stopsAtEOL_decodeStruct (fields : StreamM α) : StopsAtEOL (decodeStruct fields) := by
  unfold decodeStruct
  exact stopsAtEOL_list.bind _

end Xdchain.Rlp.Typed
