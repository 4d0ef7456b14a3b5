import Xdchain.Rlp.Typed

/-! # The slice reader of `rlp/raw.go`

`Split` reads the first value off a byte slice with a `readKind` and a
`readSize` of its own, without a `Stream`, and returns the value's kind, its
content and the bytes after it. Both readers are compared with one
description of a value at the front of the input, `valueEnc k c`: a single
byte below `0x80`, or the canonical header of a string or a list followed
by its content `c`.

`Split` accepts exactly such a value (`split_eq_ok_iff`), and so do `Kind`
and `Raw` of a `Stream` at toplevel (`AtTop.read_value`,
`AtTop.value_of_read`), up to one header shape: a one-byte string below
`0x80`, which `readKind` of `raw.go` rejects with `ErrCanonSize` and which the
`Stream` rejects in `Bytes` and `uint` but not in `Kind` or `Raw`. -/

namespace Xdchain.Rlp.Raw
open Xdchain.Lib.BigEndian Xdchain.Lib.ErrState Xdchain.Rlp.Decode Xdchain.Rlp.Encode
  Xdchain.Rlp.Canonical Xdchain.Rlp.Typed

/-! ## The model -/

/-- `readSize`: a size in the first `slen` bytes of `b`, big-endian; the
switch has cases for one to eight bytes and leaves `0` otherwise. A size
below 56 should have had no size bytes, and one with a leading zero byte is
not minimal: both are `ErrCanonSize`. -/
def readSize (b : List UInt8) (slen : Nat) : Except Err Nat :=
  if slen > b.length then .error .unexpectedEOF
  else
    let s := if slen ≤ 8 then beValue (b.take slen) else 0
    if s < 56 ∨ b.headD 0 = 0 then .error .canonSize else .ok s

/-- The switch of `readKind` on the first byte `b` of a value, `rest` being
the bytes after it: the kind, the size of the type tag and the size of the
content. -/
def readKindTag (b : UInt8) (rest : List UInt8) : Except Err (Kind × Nat × Nat) :=
  if b < 0x80 then .ok (.byte, 0, 1)
  else if b < 0xB8 then
    -- Reject strings that should've been single bytes.
    if (b - 0x80).toNat = 1 ∧ rest.length > 0 ∧ rest.headD 0 < 128 then .error .canonSize
    else .ok (.string, 1, (b - 0x80).toNat)
  else if b < 0xC0 then
    (fun cs => (.string, (b - 0xB7).toNat + 1, cs)) <$> readSize rest (b - 0xB7).toNat
  else if b < 0xF8 then .ok (.list, 1, (b - 0xC0).toNat)
  else (fun cs => (.list, (b - 0xF7).toNat + 1, cs)) <$> readSize rest (b - 0xF7).toNat

/-- `readKind`: the type tag of the first value of `buf`, whose content must
fit in what follows the tag. The tag never reaches past the end of `buf`, so
the source's unsigned subtraction does not wrap. -/
def readKind (buf : List UInt8) : Except Err (Kind × Nat × Nat) :=
  match buf with
  | [] => .error .unexpectedEOF
  | b :: rest => do
    let (k, tagsize, contentsize) ← readKindTag b rest
    -- Reject values larger than the input slice.
    if contentsize > (b :: rest).length - tagsize then .error .valueTooLarge
    else .ok (k, tagsize, contentsize)

/-- `Split`: the kind and content of the first value of `b`, and the bytes
after it. -/
def split (b : List UInt8) : Except Err (Kind × List UInt8 × List UInt8) := do
  let (k, ts, cs) ← readKind b
  pure (k, (b.drop ts).take cs, b.drop (ts + cs))

/-- `SplitString`: the content of a string or a single byte, and the bytes after it. -/
def splitString (b : List UInt8) : Except Err (List UInt8 × List UInt8) := do
  let (k, content, rest) ← split b
  if k = .list then throw .expectedString
  pure (content, rest)

/-- `SplitList`: the content of a list, and the bytes after it. -/
def splitList (b : List UInt8) : Except Err (List UInt8 × List UInt8) := do
  let (k, content, rest) ← split b
  if k ≠ .list then throw .expectedList
  pure (content, rest)

/-- `SplitUint64`: an integer of at most eight bytes at the front of `b`,
with no leading zero byte. -/
def splitUint64 (b : List UInt8) : Except Err (Nat × List UInt8) := do
  let (content, rest) ← splitString b
  if content.length = 0 then pure (0, rest)
  else if content.length = 1 then
    if content.headD 0 = 0 then throw .canonInt
    else pure ((content.headD 0).toNat, rest)
  else if content.length > 8 then throw .uintOverflow
  else
    match readSize content content.length with
    | .ok x => pure (x, rest)
    | .error _ => throw .canonInt

/-- The loop of `CountValues`, `i` values counted so far. Every value takes
a byte at least, so a `fuel` above the input's length is enough. -/
def countValuesLoop : Nat → List UInt8 → Nat → Except Err Nat
  | 0, _, _ => .error .outOfFuel
  | fuel + 1, b, i =>
    if b.length > 0 then do
      let (_, tagsize, size) ← readKind b
      countValuesLoop fuel (b.drop (tagsize + size)) (i + 1)
    else .ok i

/-- `CountValues`: the number of values encoded in `b`. -/
def countValues (b : List UInt8) : Except Err Nat := countValuesLoop (b.length + 1) b 0

/-- `AppendUint64`: the encoding of `i` after `b`. Each case of the switch
writes the tag and the bytes `byte(i>>8(w-1))`, ..., `byte(i)`, which are
`fixedBytes w i`. -/
def appendUint64 (b : List UInt8) (i : UInt64) : List UInt8 :=
  let n := i.toNat
  if n = 0 then b ++ [0x80]
  else if n < 128 then b ++ [UInt8.ofNat n]
  else if n < 2 ^ 8 then b ++ 0x81 :: fixedBytes 1 n
  else if n < 2 ^ 16 then b ++ 0x82 :: fixedBytes 2 n
  else if n < 2 ^ 24 then b ++ 0x83 :: fixedBytes 3 n
  else if n < 2 ^ 32 then b ++ 0x84 :: fixedBytes 4 n
  else if n < 2 ^ 40 then b ++ 0x85 :: fixedBytes 5 n
  else if n < 2 ^ 48 then b ++ 0x86 :: fixedBytes 6 n
  else if n < 2 ^ 56 then b ++ 0x87 :: fixedBytes 7 n
  else b ++ 0x88 :: fixedBytes 8 n

/-! ## `readSize` and the tag switch -/

/-- A size `readSize` accepts is at least 56, in its minimal big-endian bytes. -/
theorem readSize_eq_ok {b : List UInt8} {slen s : Nat} (h : readSize b slen = .ok s) :
    56 ≤ s ∧ (beBytes s).length = slen ∧ b = beBytes s ++ b.drop slen := by
  unfold readSize at h
  by_cases hlen : slen > b.length
  · simp [hlen] at h
  by_cases h8 : slen ≤ 8
  · simp only [hlen, h8, if_true, if_false] at h
    split_ifs at h with hc
    cases h
    rw [not_or, Nat.not_lt] at hc
    -- a leading byte that is not zero starts the size bytes too
    have hhead : (b.take slen).head? ≠ some 0 := by
      cases b with
      | nil => simp
      | cons x xs =>
        cases slen with
        | zero => simp
        | succ k => simpa using hc.2
    rw [beBytes_beValue hhead, List.length_take, List.take_append_drop]
    exact ⟨hc.1, by omega, rfl⟩
  · simp [hlen, h8] at h

theorem readSize_beBytes {s : Nat} (h56 : 56 ≤ s) (h64 : s < 2 ^ 64) (rest : List UInt8) :
    readSize (beBytes s ++ rest) (beBytes s).length = .ok s := by
  have h8 := length_beBytes_le_eight h64
  have hne : beBytes s ≠ [] := fun h => by have := beBytes_eq_nil_iff.mp h; omega
  obtain ⟨x, xs, hx⟩ := List.exists_cons_of_ne_nil hne
  have hx0 : x ≠ 0 := fun h0 => head_beBytes_ne_zero s (by rw [hx, h0]; rfl)
  have hlt : ¬ s < 56 := by omega
  have hhead : ¬ (beBytes s ++ rest).headD 0 = 0 := by rw [hx]; simpa using hx0
  have hle : ¬ (beBytes s).length > (beBytes s ++ rest).length := by simp
  simp only [readSize, hle, h8, if_true, if_false, List.take_left, beValue_beBytes, hlt, hhead,
    or_self]

/-- The tag switch on the byte's number: which range it falls in, and what
it announces there. -/
theorem readKindTag_eq (b : UInt8) (rest : List UInt8) : readKindTag b rest =
    if b.toNat < 0x80 then .ok (.byte, 0, 1)
    else if b.toNat < 0xB8 then
      if b.toNat - 0x80 = 1 ∧ rest.length > 0 ∧ rest.headD 0 < 128 then .error .canonSize
      else .ok (.string, 1, b.toNat - 0x80)
    else if b.toNat < 0xC0 then
      (fun cs => (.string, b.toNat - 0xB7 + 1, cs)) <$> readSize rest (b.toNat - 0xB7)
    else if b.toNat < 0xF8 then .ok (.list, 1, b.toNat - 0xC0)
    else (fun cs => (.list, b.toNat - 0xF7 + 1, cs)) <$> readSize rest (b.toNat - 0xF7) := by
  have hsub : ∀ t : UInt8, t.toNat ≤ b.toNat → (b - t).toNat = b.toNat - t.toNat :=
    fun t ht => UInt8.toNat_sub_of_le _ _ (UInt8.le_iff_toNat_le.mpr ht)
  unfold readKindTag
  simp only [UInt8.lt_iff_toNat_lt, UInt8.reduceToNat]
  by_cases c1 : b.toNat < 128
  · simp only [c1, if_true]
  by_cases c2 : b.toNat < 184
  · simp only [c1, c2, hsub 0x80 (by simp; omega), if_true, if_false, UInt8.reduceToNat]
  by_cases c3 : b.toNat < 192
  · simp only [c1, c2, c3, hsub 0xB7 (by simp; omega), if_true, if_false, UInt8.reduceToNat]
  by_cases c4 : b.toNat < 248
  · simp only [c1, c2, c3, c4, hsub 0xC0 (by simp; omega), if_true, if_false, UInt8.reduceToNat]
  · simp only [c1, c2, c3, c4, hsub 0xF7 (by simp; omega), if_false, UInt8.reduceToNat]

/-! ## Values at the front of the input -/

/-- The bytes of a value of kind `k` with content `c`: a single byte is its
own encoding; a string or a list has the canonical header of its size. -/
def valueEnc : Kind → List UInt8 → List UInt8
  | .byte, c => c
  | .string, c => header 0x80 c.length ++ c
  | .list, c => header 0xC0 c.length ++ c

/-- What a type tag can announce: a single byte below `0x80`, or a string or
a list of a 64-bit size. -/
def Announces : Kind → List UInt8 → Prop
  | .byte, c => c.length = 1 ∧ c.headD 0 < 0x80
  | _, c => c.length < 2 ^ 64

/-- A one-byte string below `0x80`, whose byte should have stood alone. -/
def ShortString (k : Kind) (c : List UInt8) : Prop :=
  k = .string ∧ c.length = 1 ∧ c.headD 0 < 0x80

theorem toNat_headerTag_string : (headerTag .string).toNat = 0x80 := rfl

theorem toNat_headerTag_list : (headerTag .list).toNat = 0xC0 := rfl

theorem valueEnc_of_ne_byte {k : Kind} (hk : k ≠ .byte) (c : List UInt8) :
    valueEnc k c = header (headerTag k) c.length ++ c := by
  cases k with
  | byte => exact absurd rfl hk
  | string | list => rfl

theorem announces_of_ne_byte {k : Kind} (hk : k ≠ .byte) {c : List UInt8} :
    Announces k c ↔ c.length < 2 ^ 64 := by
  cases k with
  | byte => exact absurd rfl hk
  | string | list => exact Iff.rfl

theorem headsize_mono {m n : Nat} (h : m ≤ n) : headsize m ≤ headsize n := by
  have hb : (beBytes m).length ≤ (beBytes n).length :=
    length_beBytes_le_iff.mpr (Nat.lt_of_le_of_lt h (length_beBytes_le_iff.mp le_rfl))
  unfold headsize
  rw [intsize_eq, intsize_eq]
  split_ifs <;> omega

/-- A value's bytes give back its content: the header grows with the size. -/
theorem valueEnc_inj {k : Kind} {c c' : List UInt8} (h : valueEnc k c = valueEnc k c') :
    c = c' := by
  cases k with
  | byte => exact h
  | string | list =>
    simp only [valueEnc] at h
    have hlen := congrArg List.length h
    simp only [List.length_append, length_header] at hlen
    have hn : c.length = c'.length := by
      rcases Nat.lt_trichotomy c.length c'.length with hl | hl | hl
      · have := headsize_mono hl.le; omega
      · exact hl
      · have := headsize_mono hl.le; omega
    rw [hn] at h
    exact List.append_cancel_left h

theorem valueEnc_ne_nil {k : Kind} {c : List UInt8} (ha : Announces k c) : valueEnc k c ≠ [] := by
  cases k with
  | byte =>
    obtain ⟨x, rfl⟩ := List.length_eq_one_iff.mp ha.1
    simp [valueEnc]
  | string | list => simp [valueEnc, header_ne_nil]

/-- A header of `n` bytes of content, and the content taken from what follows. -/
theorem valueEnc_of_header {k : Kind} (hk : k ≠ .byte) {h rest : List UInt8} {n : Nat}
    (hh : header (headerTag k) n = h) (hfit : n ≤ rest.length) :
    h ++ rest = valueEnc k (rest.take n) ++ rest.drop n ∧ (rest.take n).length = n := by
  have hlen : (rest.take n).length = n := by rw [List.length_take]; omega
  refine ⟨?_, hlen⟩
  rw [valueEnc_of_ne_byte hk, hlen, hh, List.append_assoc, List.take_append_drop]

/-! ## What `readKind` accepts -/

theorem readKind_cons_of_tag {b : UInt8} {rest : List UInt8} {k : Kind} {ts cs : Nat}
    (htag : readKindTag b rest = .ok (k, ts, cs)) (hfit : cs ≤ rest.length + 1 - ts) :
    readKind (b :: rest) = .ok (k, ts, cs) := by
  simp only [readKind, htag, ok_bind, List.length_cons]
  rw [if_neg (by omega)]

theorem readKind_byte {x : UInt8} (hx : x < 0x80) (r : List UInt8) :
    readKind (x :: r) = .ok (.byte, 0, 1) := by
  have hx' : x.toNat < 0x80 := UInt8.lt_iff_toNat_lt.mp hx
  exact readKind_cons_of_tag (by rw [readKindTag_eq, if_pos hx']) (by omega)

/-- `readKind` reads the canonical header of every string or list of a 64-bit
size, unless it is a one-byte string below `0x80`. -/
theorem readKind_header {k : Kind} (hk : k ≠ .byte) {c : List UInt8} (hn : c.length < 2 ^ 64)
    (hs : ¬ ShortString k c) (r : List UInt8) :
    readKind (header (headerTag k) c.length ++ c ++ r) =
      .ok (k, (header (headerTag k) c.length).length, c.length) := by
  have htag : (headerTag k).toNat = 0x80 ∨ (headerTag k).toNat = 0xC0 := by
    cases k <;> simp [headerTag] at hk ⊢
  by_cases hshort : c.length < 56
  · -- one byte: the tag plus the size
    have hb : (headerTag k + UInt8.ofNat c.length).toNat = (headerTag k).toNat + c.length :=
      toNat_tag_add (by omega)
    rw [header_short hshort, List.length_singleton, List.singleton_append, List.cons_append]
    refine readKind_cons_of_tag ?_ (by simp)
    rw [readKindTag_eq, hb]
    cases k with
    | byte => exact absurd rfl hk
    | string =>
      -- the one-byte check passes: a lone content byte is at least `0x80`
      have hone : ¬ (0x80 + c.length - 0x80 = 1 ∧ (c ++ r).length > 0 ∧ (c ++ r).headD 0 < 128) := by
        rintro ⟨h1, -, h2⟩
        obtain ⟨x, rfl⟩ : ∃ x, c = [x] := List.length_eq_one_iff.mp (by omega)
        exact hs ⟨rfl, rfl, by simpa using h2⟩
      rw [toNat_headerTag_string, if_neg (by omega), if_pos (by omega),
        if_neg hone, Nat.add_sub_cancel_left]
    | list =>
      rw [toNat_headerTag_list, if_neg (by omega), if_neg (by omega),
        if_neg (by omega), if_pos (by omega), Nat.add_sub_cancel_left]
  · -- the tag gives the number of size bytes that follow
    have h8 := length_beBytes_le_eight hn
    have hb : (headerTag k + 55 + UInt8.ofNat (beBytes c.length).length).toNat =
        (headerTag k).toNat + 55 + (beBytes c.length).length := by
      have h55 : (headerTag k + 55).toNat = (headerTag k).toNat + 55 := toNat_tag_add (m := 55) (by omega)
      rw [toNat_tag_add (by rw [h55]; omega), h55]
    rw [header_long hshort, List.length_cons, List.cons_append, List.cons_append]
    have hL : 0 < (beBytes c.length).length := length_beBytes_pos (by omega)
    refine readKind_cons_of_tag ?_ (by simp)
    rw [readKindTag_eq, hb, List.append_assoc]
    cases k with
    | byte => exact absurd rfl hk
    | string =>
      rw [toNat_headerTag_string, if_neg (by omega), if_neg (by omega),
        if_pos (by omega),
        show 0x80 + 55 + (beBytes c.length).length - 0xB7 = (beBytes c.length).length by omega,
        readSize_beBytes (by omega) hn]
      rfl
    | list =>
      rw [toNat_headerTag_list, if_neg (by omega), if_neg (by omega),
        if_neg (by omega), if_neg (by omega),
        show 0xC0 + 55 + (beBytes c.length).length - 0xF7 = (beBytes c.length).length by omega,
        readSize_beBytes (by omega) hn]
      rfl

theorem readKind_valueEnc {k : Kind} {c : List UInt8} (ha : Announces k c)
    (hs : ¬ ShortString k c) (r : List UInt8) :
    readKind (valueEnc k c ++ r) = .ok (k, (valueEnc k c).length - c.length, c.length) := by
  by_cases hk : k = .byte
  · subst hk
    obtain ⟨x, rfl⟩ := List.length_eq_one_iff.mp ha.1
    exact readKind_byte (by simpa using ha.2) r
  · rw [valueEnc_of_ne_byte hk, List.append_assoc, List.length_append, Nat.add_sub_cancel,
      ← List.append_assoc]
    exact readKind_header hk ((announces_of_ne_byte hk).mp ha) hs r

/-- **What `readKind` accepts**: a value at the front of `buf` that is not a
one-byte string below `0x80`; its tag and content make up its bytes. -/
theorem readKind_eq_ok {buf : List UInt8} {k : Kind} {ts cs : Nat}
    (h : readKind buf = .ok (k, ts, cs)) :
    ∃ c r, buf = valueEnc k c ++ r ∧ Announces k c ∧ ¬ ShortString k c ∧
      ts + cs = (valueEnc k c).length ∧ cs = c.length := by
  cases buf with
  | nil => simp [readKind] at h
  | cons b rest =>
    simp only [readKind, bind_eq_ok] at h
    obtain ⟨⟨k', ts', cs'⟩, htag, hfit⟩ := h
    simp only [List.length_cons] at hfit
    split_ifs at hfit with hbig
    cases hfit
    rw [readKindTag_eq] at htag
    by_cases c1 : b.toNat < 0x80
    · -- a single byte is its own encoding
      rw [if_pos c1] at htag
      cases htag
      exact ⟨[b], rest, rfl, ⟨rfl, UInt8.lt_iff_toNat_lt.mpr c1⟩, (fun h => nomatch h.1), rfl, rfl⟩
    rw [if_neg c1] at htag
    by_cases c2 : b.toNat < 0xB8
    · -- a short string, unless the one-byte check fails
      rw [if_pos c2] at htag
      by_cases c3 : b.toNat - 0x80 = 1 ∧ rest.length > 0 ∧ rest.headD 0 < 128
      · rw [if_pos c3] at htag
        cases htag
      rw [if_neg c3] at htag
      cases htag
      have hh : header (headerTag .string) (b.toNat - 0x80) = [b] :=
        header_eq_of_short (by omega) (by rw [toNat_headerTag_string]; omega)
      obtain ⟨he, hlen⟩ := valueEnc_of_header (by simp) hh (show _ ≤ rest.length by omega)
      refine ⟨_, _, he, (announces_of_ne_byte (by simp)).mpr (by omega), ?_, ?_, hlen.symm⟩
      · -- the one-byte check saw the content's byte
        rintro ⟨-, h1, h2⟩
        apply c3
        have hn : b.toNat - 0x80 = 1 := by rw [← hlen, h1]
        obtain ⟨x, xs, rfl⟩ := List.exists_cons_of_length_pos
          (show 0 < rest.length by have := List.length_take_le (b.toNat - 0x80) rest; omega)
        rw [hn] at h2
        exact ⟨hn, by simp, by simpa using h2⟩
      · rw [valueEnc_of_ne_byte (by simp), List.length_append, hlen, hh]; rfl
    rw [if_neg c2] at htag
    by_cases c4 : b.toNat < 0xC0
    · -- a long string: the tag says how many size bytes follow
      rw [if_pos c4] at htag
      obtain ⟨a, ha, heq⟩ := map_eq_ok.mp htag
      simp only [Prod.mk.injEq] at heq
      obtain ⟨rfl, rfl, rfl⟩ := heq
      obtain ⟨h56, hlen8, hrest⟩ := readSize_eq_ok ha
      have hh : header (headerTag .string) a = b :: beBytes a :=
        header_eq_of_long (by omega) (by omega) (by rw [toNat_headerTag_string]; omega)
          (by rw [toNat_headerTag_string]; omega)
      have hdrop : (rest.drop (b.toNat - 0xB7)).length = rest.length - (b.toNat - 0xB7) := by simp
      obtain ⟨he, hlen⟩ := valueEnc_of_header (by simp) hh
        (show _ ≤ (rest.drop (b.toNat - 0xB7)).length by omega)
      refine ⟨_, _, by rw [← he, List.cons_append, ← hrest],
        (announces_of_ne_byte (by simp)).mpr (by rw [hlen]; exact lt_of_length_beBytes_le (by omega)),
        (fun h => by have := h.2.1; omega), ?_, hlen.symm⟩
      rw [valueEnc_of_ne_byte (by simp), List.length_append, hlen, hh]; simp; omega
    rw [if_neg c4] at htag
    by_cases c5 : b.toNat < 0xF8
    · -- a short list
      rw [if_pos c5] at htag
      cases htag
      have hh : header (headerTag .list) (b.toNat - 0xC0) = [b] :=
        header_eq_of_short (by omega) (by rw [toNat_headerTag_list]; omega)
      obtain ⟨he, hlen⟩ := valueEnc_of_header (by simp) hh (show _ ≤ rest.length by omega)
      refine ⟨_, _, he, (announces_of_ne_byte (by simp)).mpr (by omega), (fun h => nomatch h.1),
        ?_, hlen.symm⟩
      rw [valueEnc_of_ne_byte (by simp), List.length_append, hlen, hh]; rfl
    · -- a long list
      rw [if_neg c5] at htag
      obtain ⟨a, ha, heq⟩ := map_eq_ok.mp htag
      simp only [Prod.mk.injEq] at heq
      obtain ⟨rfl, rfl, rfl⟩ := heq
      obtain ⟨h56, hlen8, hrest⟩ := readSize_eq_ok ha
      have hb8 := UInt8.toNat_lt b
      have hh : header (headerTag .list) a = b :: beBytes a :=
        header_eq_of_long (by omega) (by omega) (by rw [toNat_headerTag_list]; omega)
          (by rw [toNat_headerTag_list]; omega)
      have hdrop : (rest.drop (b.toNat - 0xF7)).length = rest.length - (b.toNat - 0xF7) := by simp
      obtain ⟨he, hlen⟩ := valueEnc_of_header (by simp) hh
        (show _ ≤ (rest.drop (b.toNat - 0xF7)).length by omega)
      refine ⟨_, _, by rw [← he, List.cons_append, ← hrest],
        (announces_of_ne_byte (by simp)).mpr (by rw [hlen]; exact lt_of_length_beBytes_le (by omega)),
        (fun h => nomatch h.1), ?_, hlen.symm⟩
      rw [valueEnc_of_ne_byte (by simp), List.length_append, hlen, hh]; simp; omega

/-! ## `Split` and its kin -/

theorem valueEnc_eq_append (k : Kind) (c : List UInt8) : ∃ h, valueEnc k c = h ++ c := by
  cases k with
  | byte => exact ⟨[], rfl⟩
  | string | list => exact ⟨_, rfl⟩

/-- **What `Split` accepts**: a value at the front of the input that is not
a one-byte string below `0x80`; it returns the value's content and what follows it. -/
theorem split_eq_ok_iff {b : List UInt8} {k : Kind} {c r : List UInt8} :
    split b = .ok (k, c, r) ↔ b = valueEnc k c ++ r ∧ Announces k c ∧ ¬ ShortString k c := by
  constructor
  · intro h
    simp only [split, bind_eq_ok] at h
    obtain ⟨⟨k', ts, cs⟩, hkind, hres⟩ := h
    obtain ⟨c', r', hb, ha, hs, hlen, rfl⟩ := readKind_eq_ok hkind
    obtain ⟨hd, hv⟩ := valueEnc_eq_append k' c'
    have hts : ts = hd.length := by rw [hv, List.length_append] at hlen; omega
    subst hts
    rw [hv, List.append_assoc] at hb
    simp only [pure, Except.pure, Except.ok.injEq, Prod.mk.injEq] at hres
    obtain ⟨rfl, rfl, rfl⟩ := hres
    have hdrop : (b.drop hd.length).take c'.length = c' := by rw [hb, List.drop_left, List.take_left]
    have hrest : b.drop (hd.length + c'.length) = r' := by
      rw [hb, ← List.append_assoc, ← List.length_append, List.drop_left]
    rw [hdrop, hrest, hv, List.append_assoc]
    exact ⟨hb, ha, hs⟩
  · rintro ⟨rfl, ha, hs⟩
    obtain ⟨hd, hv⟩ := valueEnc_eq_append k c
    have hts : (valueEnc k c).length - c.length = hd.length := by rw [hv, List.length_append]; omega
    simp only [split, readKind_valueEnc ha hs r, ok_bind, hts]
    rw [hv, List.append_assoc, List.drop_left, List.take_left, ← List.append_assoc,
      ← List.length_append, List.drop_left]
    rfl

theorem splitString_eq_ok_iff {b c r : List UInt8} :
    splitString b = .ok (c, r) ↔ ∃ k, k ≠ .list ∧ split b = .ok (k, c, r) := by
  simp only [splitString, bind_eq_ok]
  constructor
  · rintro ⟨⟨k, c', r'⟩, hs, hres⟩
    by_cases hk : k = .list
    · simp [hk, throw, throwThe, MonadExceptOf.throw, Functor.map, Except.map] at hres
    · simp only [hk, if_false, pure, Except.pure, Except.ok.injEq, Prod.mk.injEq] at hres
      obtain ⟨rfl, rfl⟩ := hres
      exact ⟨k, hk, hs⟩
  · rintro ⟨k, hk, hs⟩
    exact ⟨(k, c, r), hs, by simp [hk, pure, Except.pure]⟩

theorem splitList_eq_ok_iff {b c r : List UInt8} :
    splitList b = .ok (c, r) ↔ split b = .ok (.list, c, r) := by
  simp only [splitList, bind_eq_ok]
  constructor
  · rintro ⟨⟨k, c', r'⟩, hs, hres⟩
    by_cases hk : k = .list
    · subst hk
      simp only [ne_eq, not_true_eq_false, if_false, pure, Except.pure, Except.ok.injEq,
        Prod.mk.injEq] at hres
      obtain ⟨rfl, rfl⟩ := hres
      exact hs
    · simp [hk, throw, throwThe, MonadExceptOf.throw, Functor.map, Except.map] at hres
  · intro hs
    exact ⟨(.list, c, r), hs, by simp [pure, Except.pure]⟩

/-! ## A `Stream` at toplevel -/

/-- A stream at toplevel over the bytes `b`, its input limit at their end
and no kind cached: where a `Stream` over a byte slice starts, and where it
stands between two toplevel values. -/
structure AtTop (s : Stream) (b : List UInt8) : Prop where
  r_eq : s.r = b
  remaining_eq : s.remaining = b.length
  limited : s.limited = true
  stack_eq : s.stack = []
  kind_eq : s.kind = none
  kinderr_eq : s.kinderr = none

theorem atTop_reset (b : List UInt8) : AtTop (reset b b.length) b where
  r_eq := rfl
  remaining_eq := by simp [reset]
  limited := rfl
  stack_eq := rfl
  kind_eq := rfl
  kinderr_eq := rfl

theorem AtTop.room {s : Stream} {b : List UInt8} (ht : AtTop s b) {n : Nat} (hn : n ≤ b.length) :
    s.Room n :=
  ⟨fun tos htos => by simp [ht.stack_eq] at htos, fun _ => ht.remaining_eq ▸ hn⟩

theorem AtTop.atEOL_eq {s : Stream} {b : List UInt8} (ht : AtTop s b) : atEOL s = false := by
  simp [atEOL, ht.stack_eq]

/-- Having read a value's bytes, the stream stands at toplevel after them. -/
theorem AtTop.after {s s' : Stream} {v r : List UInt8} (ht : AtTop s (v ++ r))
    (ha : After s v.length s') : AtTop s' r := by
  obtain ⟨sz, bv, rfl⟩ := ha
  have hrem := ht.remaining_eq
  rw [List.length_append] at hrem
  exact {
    r_eq := by simp [ht.r_eq]
    remaining_eq := by simp [ht.limited, hrem]
    limited := ht.limited
    stack_eq := by simp [ht.stack_eq, Stream.bump]
    kind_eq := rfl
    kinderr_eq := rfl }

/-- `Raw` after `Kind`: a single byte, or the content with the header put back. -/
theorem raw_eq_ok {s s' : Stream} {k : Kind} {v : List UInt8} (hk : s.kind = some k)
    (he : s.kinderr = none) (hn : s.size < 2 ^ 64) (h : raw.run s = .ok v s') :
    (k = .byte ∧ v = [s.byteval] ∧ s' = { s with kind := none }) ∨
      (k ≠ .byte ∧ s.Room s.size ∧ s.size ≤ s.r.length ∧
        v = header (headerTag k) s.size ++ s.r.take s.size ∧ s' = s.read s.size) := by
  unfold raw at h
  rw [run_bind_of_ok (run_kind_cached hk he)] at h
  by_cases hkb : k = .byte
  · subst hkb
    simp only [if_true, EStateM.run_bind, EStateM.run_modify, EStateM.run_get, EStateM.run_pure,
      EStateM.Result.ok.injEq] at h
    obtain ⟨rfl, rfl⟩ := h
    exact .inl ⟨rfl, rfl, rfl⟩
  · simp only [hkb, if_false, EStateM.run_bind] at h
    split at h
    · rename_i content s1 hread
      obtain ⟨hroom, hlen, rfl, rfl⟩ := readFull_eq_ok hread
      -- `puthead` with the kind's tags writes the header `Kind` read
      have hput : ∀ tag : UInt8, puthead tag (tag + 55) s.size = header tag s.size :=
        fun tag => puthead_eq_header tag hn
      cases k with
      | byte => exact absurd rfl hkb
      | string =>
        simp only [if_true, EStateM.run_pure, EStateM.Result.ok.injEq] at h
        obtain ⟨rfl, rfl⟩ := h
        exact .inr ⟨hkb, hroom, hlen, by rw [← hput]; rfl, rfl⟩
      | list =>
        simp only [reduceCtorEq, if_false, EStateM.run_pure, EStateM.Result.ok.injEq] at h
        obtain ⟨rfl, rfl⟩ := h
        exact .inr ⟨hkb, hroom, hlen, by rw [← hput]; rfl, rfl⟩
    · cases h

/-- `Kind` then `Raw` read every value at the front of the input. -/
theorem AtTop.read_value {s : Stream} {k : Kind} {c r : List UInt8}
    (ht : AtTop s (valueEnc k c ++ r)) (ha : Announces k c) :
    ∃ s1 s2, kind.run s = .ok (k, if k = .byte then 0 else c.length) s1 ∧
      raw.run s1 = .ok (valueEnc k c) s2 ∧ AtTop s2 r := by
  by_cases hkb : k = .byte
  · -- a single byte stands for itself
    subst hkb
    obtain ⟨x, rfl⟩ := List.length_eq_one_iff.mp ha.1
    have hx : x < 0x80 := by simpa using ha.2
    have hr : ({ s with kinderr := none } : Stream).r = x :: r := by
      show s.r = x :: r
      rw [ht.r_eq]
      rfl
    have hread := run_readKind_byte hr hx (ht.room (by simp [valueEnc]))
    have hkind := run_kind_fresh ht.kind_eq ht.atEOL_eq hread (fits_zero _)
    refine ⟨_, ?s2, by rw [if_pos rfl]; exact hkind, ?hraw, ?htop⟩
    case hraw =>
      unfold raw
      rw [run_bind_of_ok (run_kind_cached rfl rfl)]
      rfl
    case htop =>
      exact ht.after ⟨0, x, by simp [Stream.read, Stream.account, ht.kinderr_eq, valueEnc]⟩
  · have hn := (announces_of_ne_byte hkb).mp ha
    have hr : s.r = header (headerTag k) c.length ++ (c ++ r) := by
      rw [ht.r_eq, valueEnc_of_ne_byte hkb, List.append_assoc]
    have hroom : s.Room ((header (headerTag k) c.length).length + c.length) :=
      ht.room (by rw [valueEnc_of_ne_byte hkb]; simp)
    have hkind := run_kind_header ht.kind_eq hkb hn hr hroom
    obtain ⟨s2, hraw, hafter⟩ := run_raw_header ht.kind_eq hkb hn hr hroom
    refine ⟨_, s2, by rw [if_neg hkb]; exact hkind, ?_, ?_⟩
    · rw [← run_cached_of_kind raw ⟨_, rfl⟩ ht.kind_eq hkind, hraw, valueEnc_of_ne_byte hkb]
    · apply ht.after
      rw [valueEnc_of_ne_byte hkb, List.length_append]
      exact hafter

/-- **What `Kind` and `Raw` read** at toplevel: a value at the front of the
input, which `Raw` returns with its header, the stream standing after it. -/
theorem AtTop.value_of_read {s s1 s2 : Stream} {b : List UInt8} {k : Kind} {n : Nat}
    {v : List UInt8} (ht : AtTop s b) (h1 : kind.run s = .ok (k, n) s1)
    (h2 : raw.run s1 = .ok v s2) :
    ∃ c r, b = valueEnc k c ++ r ∧ Announces k c ∧ v = valueEnc k c ∧
      n = (if k = .byte then 0 else c.length) ∧ AtTop s2 r := by
  rcases kind_fresh_eq_ok ht.kind_eq h1 with ⟨rfl, rfl, x, hx, hr, -, rfl⟩ |
    ⟨hkb, hn, hr, hroom, hfit, rfl⟩
  · rcases raw_eq_ok rfl rfl (by simp) h2 with ⟨-, rfl, rfl⟩ | ⟨hkb, -⟩
    · refine ⟨[x], _, by rw [← ht.r_eq, hr]; rfl, ⟨rfl, by simpa using hx⟩, rfl, rfl, ?_⟩
      have hrem := ht.remaining_eq
      rw [← ht.r_eq, hr, List.length_cons] at hrem
      exact {
        r_eq := rfl
        remaining_eq := by simp [ht.limited, hrem]
        limited := ht.limited
        stack_eq := by simp [ht.stack_eq, Stream.bump]
        kind_eq := rfl
        kinderr_eq := rfl }
    · exact absurd rfl hkb
  · rcases raw_eq_ok rfl rfl hn h2 with ⟨hb, -⟩ | ⟨-, hroom2, hlen, rfl, rfl⟩
    · exact absurd hb hkb
    simp only [Stream.read_r] at hlen hr ⊢
    -- the content is what the header announces, taken from after it
    set R := s.r.drop (header (headerTag k) n).length with hR
    have hc : (R.take n).length = n := by rw [List.length_take]; omega
    have hb : b = valueEnc k (R.take n) ++ R.drop n := by
      rw [← ht.r_eq, valueEnc_of_ne_byte hkb, hc, List.append_assoc, List.take_append_drop]
      exact hr
    refine ⟨R.take n, R.drop n, hb, (announces_of_ne_byte hkb).mpr (by omega), ?_,
      by rw [if_neg hkb, hc], ?_⟩
    · rw [valueEnc_of_ne_byte hkb, hc]
    · apply (hb ▸ ht).after
      refine ⟨n, 0, ?_⟩
      rw [valueEnc_of_ne_byte hkb, List.length_append, hc, ← Stream.read_read]
      rfl

/-- A method that starts with `Kind`, run at toplevel, reads a first value
that `Kind` accepted. -/
theorem AtTop.kind_of_run {α : Type} {dec : StreamM α} (hdec : ∃ g, dec = kind >>= g) {s s' : Stream}
    {b : List UInt8} {a : α} (ht : AtTop s b) (h : dec.run s = .ok a s') :
    ∃ k n s1, kind.run s = .ok (k, n) s1 ∧ dec.run s1 = .ok a s' := by
  obtain ⟨g, rfl⟩ := hdec
  obtain ⟨⟨k, n⟩, s1, h1, -⟩ := run_bind_eq_ok h
  exact ⟨k, n, s1, h1, by rw [← run_cached_of_kind _ ⟨g, rfl⟩ ht.kind_eq h1]; exact h⟩

/-- `Bytes` at toplevel reads what `SplitString` splits off. -/
theorem AtTop.bytes_of_splitString {s : Stream} {b c r : List UInt8} (ht : AtTop s b)
    (h : splitString b = .ok (c, r)) : ∃ s', bytes.run s = .ok c s' ∧ AtTop s' r := by
  obtain ⟨k, hkl, hs⟩ := splitString_eq_ok_iff.mp h
  obtain ⟨rfl, ha, hshort⟩ := split_eq_ok_iff.mp hs
  by_cases hkb : k = .byte
  · -- a single byte: `Kind` caches it and `Bytes` hands it out
    subst hkb
    obtain ⟨x, rfl⟩ := List.length_eq_one_iff.mp ha.1
    have hr : ({ s with kinderr := none } : Stream).r = x :: r := by
      show s.r = x :: r
      rw [ht.r_eq]
      rfl
    have hread := run_readKind_byte hr (by simpa using ha.2) (ht.room (by simp [valueEnc]))
    have hkind := run_kind_fresh ht.kind_eq ht.atEOL_eq hread (fits_zero _)
    refine ⟨_, by rw [run_cached_of_kind bytes ⟨_, rfl⟩ ht.kind_eq hkind, run_bytes_byte rfl rfl],
      ht.after ⟨0, x, by simp [Stream.read, Stream.account, ht.kinderr_eq, valueEnc]⟩⟩
  · -- a string: its header, then as many bytes as it announces
    have hks : k = .string := by cases k <;> simp_all
    subst hks
    have hn : c.length < 2 ^ 64 := ha
    have hr : s.r = header (headerTag .string) c.length ++ (c ++ r) := by
      rw [ht.r_eq, valueEnc_of_ne_byte hkb, List.append_assoc]
    have hroom : s.Room ((header (headerTag .string) c.length).length + c.length) :=
      ht.room (by rw [valueEnc_of_ne_byte hkb]; simp)
    have hkind := run_kind_header ht.kind_eq hkb hn hr hroom
    have hr2 : s.r.drop (header (headerTag .string) c.length).length = c ++ r := by
      rw [hr, List.drop_left]
    have htake : (s.r.drop (header (headerTag .string) c.length).length).take c.length = c := by
      rw [hr2, List.take_left]
    have hcanon : ¬ (c.length = 1 ∧
        ((s.r.drop (header (headerTag .string) c.length).length).take c.length).headD 0 < 0x80) := by
      rw [htake]
      exact fun h => hshort ⟨rfl, h⟩
    rw [run_cached_of_kind bytes ⟨_, rfl⟩ ht.kind_eq hkind,
      run_bytes_string rfl rfl
        (show c.length ≤ (s.r.drop (header (headerTag .string) c.length).length).length by
          rw [hr2]; simp)
        (Stream.room_add hroom).2 hcanon]
    refine ⟨?st, ?hrun, ht.after ⟨c.length, 0, ?hafter⟩⟩
    case hrun =>
      show EStateM.Result.ok ((s.r.drop (header (headerTag .string) c.length).length).take c.length) _ = _
      rw [htake]
    case hafter =>
      rw [valueEnc_of_ne_byte hkb, List.length_append, ← Stream.read_read]
      rfl

/-- What `Bytes` reads at toplevel, `SplitString` splits off. -/
theorem AtTop.splitString_of_bytes {s s' : Stream} {b c : List UInt8} (ht : AtTop s b)
    (h : bytes.run s = .ok c s') : splitString b = .ok (c, s'.r) ∧ AtTop s' s'.r := by
  obtain ⟨k, n, s1, h1, h2⟩ := ht.kind_of_run ⟨_, rfl⟩ h
  rcases kind_fresh_eq_ok ht.kind_eq h1 with ⟨rfl, rfl, x, hx, hr, -, rfl⟩ |
    ⟨hkb, hn, hr, -, hfit, rfl⟩
  · rcases bytes_eq_ok rfl rfl h2 with ⟨-, rfl, hs'⟩ | ⟨hk, -⟩
    · subst hs'
      have hb : b = valueEnc .byte [x] ++ (s.r.drop 1) := by rw [← ht.r_eq, hr]; rfl
      refine ⟨splitString_eq_ok_iff.mpr ⟨.byte, by simp, split_eq_ok_iff.mpr
        ⟨hb, ⟨rfl, by simpa using hx⟩, fun h => nomatch h.1⟩⟩, ?_⟩
      exact (hb ▸ ht).after ⟨0, x, by simp [Stream.read, Stream.account, ht.kinderr_eq, valueEnc]⟩
    · cases hk
  · rcases bytes_eq_ok rfl rfl h2 with ⟨hk, -⟩ | ⟨rfl, -, hlen, rfl, hs', hcanon⟩
    · exact absurd hk hkb
    subst hs'
    simp only [Stream.read_r] at hlen hr hcanon ⊢
    set R := s.r.drop (header (headerTag .string) n).length with hR
    have hc : (R.take n).length = n := by rw [List.length_take]; omega
    have hb : b = valueEnc .string (R.take n) ++ R.drop n := by
      rw [← ht.r_eq, valueEnc_of_ne_byte hkb, hc, List.append_assoc, List.take_append_drop]
      exact hr
    refine ⟨splitString_eq_ok_iff.mpr ⟨.string, by simp, split_eq_ok_iff.mpr
      ⟨hb, show (R.take n).length < 2 ^ 64 by omega, fun h => hcanon ⟨by rw [← hc]; exact h.2.1,
        h.2.2⟩⟩⟩, ?_⟩
    apply (hb ▸ ht).after
    refine ⟨n, 0, ?_⟩
    rw [valueEnc_of_ne_byte hkb, List.length_append, hc, ← Stream.read_read]
    rfl

/-- `List` at toplevel enters the list that `SplitList` splits off. -/
theorem AtTop.list_of_splitList {s : Stream} {b c r : List UInt8} (ht : AtTop s b)
    (h : splitList b = .ok (c, r)) :
    ∃ s', list.run s = .ok c.length s' ∧ s'.r = c ++ r ∧ s'.stack = [⟨0, c.length⟩] := by
  obtain ⟨rfl, ha, -⟩ := split_eq_ok_iff.mp (splitList_eq_ok_iff.mp h)
  have hkb : Kind.list ≠ .byte := by simp
  have hr : s.r = header (headerTag .list) c.length ++ (c ++ r) := by
    rw [ht.r_eq, valueEnc_of_ne_byte hkb, List.append_assoc]
  have hroom : s.Room ((header (headerTag .list) c.length).length + c.length) :=
    ht.room (by rw [valueEnc_of_ne_byte hkb]; simp)
  have hkind := run_kind_header ht.kind_eq hkb (show c.length < 2 ^ 64 from ha) hr hroom
  rw [run_cached_of_kind list ⟨_, rfl⟩ ht.kind_eq hkind, run_list rfl rfl]
  exact ⟨_, rfl, by simp [hr], by simp [ht.stack_eq, Stream.bump]⟩

/-- What `List` enters at toplevel, `SplitList` splits off. -/
theorem AtTop.splitList_of_list {s s' : Stream} {b : List UInt8} {n : Nat} (ht : AtTop s b)
    (h : list.run s = .ok n s') :
    splitList b = .ok (s'.r.take n, s'.r.drop n) ∧ s'.stack = [⟨0, n⟩] := by
  obtain ⟨k, m, s1, h1, h2⟩ := ht.kind_of_run ⟨_, rfl⟩ h
  rcases kind_fresh_eq_ok ht.kind_eq h1 with ⟨rfl, rfl, x, -, -, -, rfl⟩ |
    ⟨hkb, hm, hr, -, hfit, rfl⟩
  · exact absurd (list_eq_ok rfl rfl h2).1 (by simp)
  obtain ⟨rfl, hn, hs'⟩ := list_eq_ok rfl rfl h2
  subst hs'
  simp only at hn
  subst hn
  simp only [Stream.read_r] at hr hfit ⊢
  -- `Kind` checked that the content fits in the rest of the input
  have hlen : n ≤ (s.r.drop (header (headerTag .list) n).length).length := by
    have hrem := ht.remaining_eq
    unfold Stream.Fits at hfit
    simp only [Stream.read_stack, ht.stack_eq, Stream.bump, Stream.read_limited, ht.limited,
      Stream.read_remaining, if_true, true_implies] at hfit
    rw [List.length_drop, ht.r_eq]
    omega
  set R := s.r.drop (header (headerTag .list) n).length with hR
  have hc : (R.take n).length = n := by rw [List.length_take]; omega
  refine ⟨splitList_eq_ok_iff.mpr (split_eq_ok_iff.mpr ⟨?_, show (R.take n).length < 2 ^ 64 by omega,
    fun h => absurd h.1 (by decide)⟩), by simp [ht.stack_eq, Stream.bump]⟩
  rw [← ht.r_eq, valueEnc_of_ne_byte hkb, hc, List.append_assoc, List.take_append_drop]
  exact hr

/-! ## Reading values until the end of the input -/

/-- At the end of the input `Kind` reports `io.EOF`. -/
theorem AtTop.kind_eof {s : Stream} (ht : AtTop s []) : ∃ s', kind.run s = .error .eof s' := by
  obtain ⟨r, remaining, limited, k, size, byteval, kinderr, stack⟩ := s
  obtain ⟨hr, hrem, hl, hst, hk, he⟩ := ht
  simp only [List.length_nil] at hr hrem hl hst hk he
  subst hr hrem hl hst hk he
  exact ⟨_, rfl⟩

theorem readLongSize_readErr {s s' : Stream} {k k' : Kind} {lenlen n : Nat} {e : Err}
    (h : (readLongSize k lenlen).run s = .ok (k', n, some e) s') : ReadErr e := by
  unfold readLongSize at h
  obtain ⟨res, s1, h1, h2⟩ := run_bind_eq_ok h
  rcases run_attempt_eq_ok h1 with ⟨v, rfl, -⟩ | ⟨e', rfl, he'⟩
  · simp only [EStateM.run_pure, EStateM.Result.ok.injEq, Prod.mk.injEq] at h2
    split_ifs at h2 with hv
    · exact .inr (.inr (.inr (Option.some.inj h2.1.2.2).symm))
    · simp at h2
  · simp only [EStateM.run_pure, EStateM.Result.ok.injEq, Prod.mk.injEq, Option.some.injEq] at h2
    exact h2.1.2.2 ▸ readUint_readErr he'

/-- Once the type tag is read, `readKind` reports only errors of reading bytes. -/
theorem readKind_readErr {s s' : Stream} {x : UInt8} {rest : List UInt8} {k : Kind} {n : Nat}
    {e : Err} (hr : s.r = x :: rest) (hroom : s.Room 1)
    (h : Decode.readKind.run s = .ok (k, n, some e) s') : ReadErr e := by
  unfold Decode.readKind at h
  rw [run_bind_of_ok (run_attempt_of_ok (run_readByte hr hroom))] at h
  simp only [EStateM.run_bind, EStateM.run_modify] at h
  split_ifs at h
  · simp at h
  · simp at h
  · exact readLongSize_readErr h
  · simp at h
  · exact readLongSize_readErr h

/-- Before the end of the input `Kind` fails only for lack of room or input,
or at a non-canonical size: never with `io.EOF`. -/
theorem AtTop.kind_readErr {s s' : Stream} {x : UInt8} {rest : List UInt8} {e : Err}
    (ht : AtTop s (x :: rest)) (h : kind.run s = .error e s') : ReadErr e := by
  obtain ⟨k, n, err, s1, hread, -⟩ := readKind_eq (s := { s with kind := none, kinderr := none })
  unfold kind at h
  simp only [EStateM.run_bind, EStateM.run_get, ht.kind_eq, EStateM.run_set, ht.atEOL_eq,
    Bool.false_eq_true, if_false, hread] at h
  cases err with
  | some e0 =>
    simp only [Option.some_or, run_throw_error, EStateM.Result.error.injEq] at h
    rw [← h.1]
    exact readKind_readErr (s := { s with kind := none, kinderr := none })
      (by show s.r = _; rw [ht.r_eq]) (ht.room (n := 1) (by simp)) hread
  | none =>
    -- the size check of `Kind` at toplevel: the input limit
    cases hs : sizeErr s1 n with
    | none => simp [hs] at h
    | some e1 =>
      simp only [Option.none_or, hs, run_throw_error, EStateM.Result.error.injEq] at h
      rw [← h.1]
      unfold sizeErr at hs
      split at hs
      · split_ifs at hs
        exact .inr (.inl (Option.some.inj hs).symm)
      · split_ifs at hs
        exact .inl (Option.some.inj hs).symm

theorem readErr_ne_eof : ¬ ReadErr .eof := by simp [ReadErr]

/-- A reader of the toplevel values of a `Stream`: `Raw` after `Raw`, until
`Kind` reports the end of the input. `fuel` bounds the number of values;
a value takes a byte at least, so one more than the input's length is enough. -/
def readRawValues : Nat → StreamM (List (List UInt8))
  | 0 => throw .outOfFuel
  | fuel + 1 => do
    match ← attempt kind with
    | .error .eof => pure []
    | .error err => throw err
    | .ok _ =>
      let v ← raw
      let vs ← readRawValues fuel
      pure (v :: vs)

theorem run_readRawValues_eof {s s0 : Stream} (f : Nat) (h : kind.run s = .error .eof s0) :
    (readRawValues (f + 1)).run s = .ok [] s0 := by
  simp only [readRawValues, EStateM.run_bind, run_attempt, h]
  rfl

theorem run_readRawValues_value {s s1 s2 : Stream} {kn : Kind × Nat} {v : List UInt8} (f : Nat)
    (h1 : kind.run s = .ok kn s1) (h2 : raw.run s1 = .ok v s2) :
    (readRawValues (f + 1)).run s = ((readRawValues f) >>= fun vs => pure (v :: vs)).run s2 := by
  simp only [readRawValues, EStateM.run_bind, run_attempt, h1, h2]

theorem readRawValues_succ_eq_ok {f : Nat} {s s' : Stream} {vs : List (List UInt8)}
    (h : (readRawValues (f + 1)).run s = .ok vs s') :
    (kind.run s = .error .eof s' ∧ vs = []) ∨
      ∃ kn s1 v s2 vs', kind.run s = .ok kn s1 ∧ raw.run s1 = .ok v s2 ∧
        (readRawValues f).run s2 = .ok vs' s' ∧ vs = v :: vs' := by
  simp only [readRawValues] at h
  obtain ⟨res, s0, h0, h1⟩ := run_bind_eq_ok h
  rcases run_attempt_eq_ok h0 with ⟨kn, rfl, hk⟩ | ⟨e, rfl, he⟩
  · obtain ⟨v, s2, hraw, h3⟩ := run_bind_eq_ok h1
    obtain ⟨vs', s3, hrest, h4⟩ := run_bind_eq_ok h3
    simp only [EStateM.run_pure, EStateM.Result.ok.injEq] at h4
    obtain ⟨rfl, rfl⟩ := h4
    exact .inr ⟨kn, s0, v, s2, vs', hk, hraw, hrest, rfl⟩
  · cases e with
    | eof =>
      simp only [EStateM.run_pure, EStateM.Result.ok.injEq] at h1
      obtain ⟨rfl, rfl⟩ := h1
      exact .inl ⟨he, rfl⟩
    | _ => cases h1

/-- The bytes of a one-byte string below `0x80`, header included. -/
def ShortStringValue (v : List UInt8) : Prop := ∃ x : UInt8, x < 0x80 ∧ v = [0x81, x]

theorem shortStringValue_valueEnc {k : Kind} {c : List UInt8} (ha : Announces k c) :
    ShortStringValue (valueEnc k c) ↔ ShortString k c := by
  have hshort : ∀ x : UInt8, valueEnc .string [x] = [0x81, x] := fun x => rfl
  constructor
  · rintro ⟨x, hx, hv⟩
    cases k with
    | byte =>
      have := congrArg List.length hv
      simp [valueEnc, ha.1] at this
    | string =>
      obtain rfl := valueEnc_inj (hv.trans (hshort x).symm)
      exact ⟨rfl, rfl, by simpa using hx⟩
    | list =>
      -- two bytes would be a list of one byte, whose header is `0xC1`
      have hlen := congrArg List.length hv
      simp only [valueEnc, List.length_append, length_header, List.length_cons,
        List.length_nil] at hlen
      have h1 : c.length = 1 := by unfold headsize at hlen; split_ifs at hlen <;> omega
      obtain ⟨y, rfl⟩ := List.length_eq_one_iff.mp h1
      simp [valueEnc, header] at hv
  · rintro ⟨rfl, h1, h2⟩
    obtain ⟨x, rfl⟩ := List.length_eq_one_iff.mp h1
    exact ⟨x, by simpa using h2, hshort x⟩

/-- **`CountValues` counts what a `Stream` reads** with `Raw` until the end
of the input, as long as none of it is a one-byte string below `0x80`. The
induction follows the loop, one value per round; the stream stands at
toplevel after each value. -/
theorem countValuesLoop_eq_ok_iff : ∀ (f : Nat) {s : Stream} {b : List UInt8} (i n : Nat),
    b.length < f → AtTop s b →
    (countValuesLoop f b i = .ok n ↔ ∃ vs s', (readRawValues f).run s = .ok vs s' ∧
      n = i + vs.length ∧ ∀ v ∈ vs, ¬ ShortStringValue v)
  | 0, _, _, _, _, hf, _ => absurd hf (Nat.not_lt_zero _)
  | f + 1, s, b, i, n, hf, ht => by
    cases b with
    | nil =>
      -- at the end of the input both stop
      obtain ⟨s0, heof⟩ := ht.kind_eof
      simp only [countValuesLoop, List.length_nil, Nat.lt_irrefl, if_false, Except.ok.injEq,
        run_readRawValues_eof f heof, EStateM.Result.ok.injEq]
      constructor
      · rintro rfl
        exact ⟨[], s0, ⟨rfl, rfl⟩, rfl, by simp⟩
      · rintro ⟨vs, s', ⟨rfl, rfl⟩, rfl, -⟩
        rfl
    | cons x rest =>
      simp only [countValuesLoop, List.length_cons, Nat.zero_lt_succ, if_true]
      cases hk : readKind (x :: rest) with
      | ok t =>
        obtain ⟨k, ts, cs⟩ := t
        obtain ⟨c, r, hb, ha, hs, hlen, rfl⟩ := readKind_eq_ok hk
        -- one value: `readKind` and the stream agree on it
        have hdrop : (x :: rest).drop (ts + c.length) = r := by rw [hb, hlen, List.drop_left]
        have hr : r.length < f := by
          have := congrArg List.length hb
          simp only [List.length_append, List.length_cons] at this hf
          have := List.length_pos_of_ne_nil (valueEnc_ne_nil ha)
          omega
        obtain ⟨s1, s2, h1, h2, ht2⟩ := (hb ▸ ht).read_value ha
        rw [ok_bind, hdrop, countValuesLoop_eq_ok_iff f (i + 1) n hr ht2]
        constructor
        · rintro ⟨vs, s', hrun, rfl, hall⟩
          have hrun' : (readRawValues (f + 1)).run s = .ok (valueEnc k c :: vs) s' := by
            rw [run_readRawValues_value f h1 h2, run_bind_of_ok hrun]; rfl
          refine ⟨_, s', hrun', by simp; omega, ?_⟩
          intro v hv
          rcases List.mem_cons.mp hv with rfl | hv
          · exact fun hsv => hs ((shortStringValue_valueEnc ha).mp hsv)
          · exact hall v hv
        · rintro ⟨vs, s', hrun, rfl, hall⟩
          rw [run_readRawValues_value f h1 h2] at hrun
          obtain ⟨vs', s3, hrest, h4⟩ := run_bind_eq_ok hrun
          simp only [EStateM.run_pure, EStateM.Result.ok.injEq] at h4
          obtain ⟨rfl, rfl⟩ := h4
          exact ⟨vs', s3, hrest, by simp; omega, fun v hv => hall v (List.mem_cons_of_mem _ hv)⟩
      | error e =>
        -- `readKind` rejects the value: the stream fails, or reads a short string
        simp only [error_bind, reduceCtorEq, false_iff, not_exists, not_and]
        intro vs s' hrun _ hall
        rcases readRawValues_succ_eq_ok hrun with ⟨heof, -⟩ | ⟨⟨k, m⟩, s1, v, s2, vs', h1, h2, -, rfl⟩
        · exact readErr_ne_eof (ht.kind_readErr heof)
        · obtain ⟨c, r, hb, ha, rfl, -, -⟩ := ht.value_of_read h1 h2
          have hs : ShortString k c := by
            by_contra hs
            rw [hb, readKind_valueEnc ha hs] at hk
            cases hk
          exact hall _ (List.mem_cons_self ..) ((shortStringValue_valueEnc ha).mpr hs)

/-! ## Integers -/

/-- A string's canonical encoding is a value: a single byte below `0x80`, or
a string that is not such a byte. -/
theorem encString_eq_valueEnc {k : Kind} {c : List UInt8} (hk : k ≠ .list) (ha : Announces k c)
    (hs : ¬ ShortString k c) : encString c = valueEnc k c := by
  cases k with
  | byte =>
    obtain ⟨x, rfl⟩ := List.length_eq_one_iff.mp ha.1
    simp [encString, show x < 0x80 by simpa using ha.2, valueEnc]
  | string => exact enc_str_of_canon (fun h => hs ⟨rfl, h⟩)
  | list => exact absurd rfl hk

theorem exists_valueEnc_encString {c : List UInt8} (hc : c.length < 2 ^ 64) :
    ∃ k, k ≠ .list ∧ Announces k c ∧ ¬ ShortString k c ∧ encString c = valueEnc k c := by
  rcases encString_cases c with ⟨x, rfl, hx, -⟩ | ⟨-, hcanon⟩
  · have ha : Announces .byte [x] := ⟨rfl, hx⟩
    exact ⟨.byte, by simp, ha, (fun h => nomatch h.1), encString_eq_valueEnc (by simp) ha
      (fun h => nomatch h.1)⟩
  · have ha : Announces .string c := hc
    have hs : ¬ ShortString .string c := fun h => hcanon h.2
    exact ⟨.string, by simp, ha, hs, encString_eq_valueEnc (by simp) ha hs⟩

theorem splitString_encString {c : List UInt8} (hc : c.length < 2 ^ 64) (r : List UInt8) :
    splitString (encString c ++ r) = .ok (c, r) := by
  obtain ⟨k, hk, ha, hs, he⟩ := exists_valueEnc_encString hc
  exact splitString_eq_ok_iff.mpr ⟨k, hk, split_eq_ok_iff.mpr ⟨by rw [he], ha, hs⟩⟩

/-- What `SplitString` splits off is a string's canonical encoding. -/
theorem splitString_eq_ok {b c r : List UInt8} (h : splitString b = .ok (c, r)) :
    b = encString c ++ r := by
  obtain ⟨k, hk, hs⟩ := splitString_eq_ok_iff.mp h
  obtain ⟨hb, ha, hshort⟩ := split_eq_ok_iff.mp hs
  rw [hb, encString_eq_valueEnc hk ha hshort]

/-- **`SplitUint64` reads back every 64-bit integer** from its encoding,
whatever follows it. -/
theorem splitUint64_enc {u : Nat} (hu : u < 2 ^ 64) (r : List UInt8) :
    splitUint64 ((writeUint u).enc ++ r) = .ok (u, r) := by
  have h8 := length_beBytes_le_eight hu
  have hsplit := splitString_encString (c := beBytes u) (by omega) r
  simp only [writeUint, enc_str, splitUint64, hsplit, ok_bind]
  by_cases h0 : u = 0
  · subst h0
    rfl
  have hpos := length_beBytes_pos h0
  by_cases h1 : u < 256
  · -- one byte, the number itself
    rw [beBytes_of_lt h0 h1]
    have hne : ¬ UInt8.ofNat u = 0 := fun h => h0 (by
      have := congrArg UInt8.toNat h
      simpa [Nat.mod_eq_of_lt h1] using this)
    simp [hne, pure, Except.pure, Nat.mod_eq_of_lt h1]
  · -- two to eight bytes: a size that `readSize` accepts
    have h2 : 2 ≤ (beBytes u).length := by
      by_contra hc
      exact h1 (by simpa using length_beBytes_le_iff.mp (show (beBytes u).length ≤ 1 by omega))
    have hread := readSize_beBytes (s := u) (by omega) hu []
    rw [List.append_nil] at hread
    rw [if_neg (by omega), if_neg (by omega), if_neg (by omega), hread]
    rfl

/-- **`SplitUint64` accepts only canonical encodings**: an integer of at most
64 bits in its minimal bytes, so no leading zero byte and no non-canonical size. -/
theorem splitUint64_eq_ok {b r : List UInt8} {u : Nat} (h : splitUint64 b = .ok (u, r)) :
    u < 2 ^ 64 ∧ b = (writeUint u).enc ++ r := by
  simp only [splitUint64, bind_eq_ok] at h
  obtain ⟨⟨c, r'⟩, hs, h⟩ := h
  dsimp only at h
  have hb := splitString_eq_ok hs
  simp only [writeUint, enc_str]
  by_cases h0 : c.length = 0
  · simp only [h0, if_true, pure, Except.pure, Except.ok.injEq, Prod.mk.injEq] at h
    obtain ⟨rfl, rfl⟩ := h
    rw [List.length_eq_zero_iff.mp h0] at hb
    exact ⟨by norm_num, by rw [hb, beBytes_zero]⟩
  by_cases h1 : c.length = 1
  · obtain ⟨y, rfl⟩ := List.length_eq_one_iff.mp h1
    by_cases hy : y = 0
    · simp [hy] at h
    simp only [List.length_singleton, Nat.one_ne_zero, if_false, if_true, List.headD_cons, hy,
      pure, Except.pure, Except.ok.injEq, Prod.mk.injEq] at h
    obtain ⟨rfl, rfl⟩ := h
    have hy0 : y.toNat ≠ 0 := fun h => hy (UInt8.toNat_inj.mp (by simpa using h))
    refine ⟨by have := UInt8.toNat_lt y; omega, ?_⟩
    rw [hb, beBytes_of_lt hy0 (UInt8.toNat_lt y), UInt8.ofNat_toNat]
  rw [if_neg h0, if_neg h1] at h
  by_cases h8 : c.length > 8
  · simp [h8] at h
  rw [if_neg h8] at h
  split at h
  · rename_i x hx
    simp only [pure, Except.pure, Except.ok.injEq, Prod.mk.injEq] at h
    obtain ⟨rfl, rfl⟩ := h
    -- the content is the minimal bytes of the size `readSize` returns
    obtain ⟨-, hlen, hc⟩ := readSize_eq_ok hx
    rw [List.drop_of_length_le (by omega), List.append_nil] at hc
    exact ⟨lt_of_length_beBytes_le (by omega), by rw [hb, hc]⟩
  · cases h

/-- A number from 1 to 127 is its own encoding. -/
theorem encString_beBytes_of_lt_128 {n : Nat} (h0 : n ≠ 0) (h : n < 128) :
    encString (beBytes n) = [UInt8.ofNat n] := by
  rw [beBytes_of_lt h0 (by omega)]
  simp [encString, UInt8.lt_iff_toNat_lt, Nat.mod_eq_of_lt (show n < 256 by omega), h]

/-- The minimal bytes of a number of at least 128 are no single byte below `0x80`. -/
theorem not_short_beBytes {n : Nat} (h128 : 128 ≤ n) :
    ¬ ((beBytes n).length = 1 ∧ (beBytes n).headD 0 < 0x80) := by
  rintro ⟨h1, h2⟩
  have hlt : n < 256 := by simpa using length_beBytes_le_iff.mp h1.le
  rw [beBytes_of_lt (by omega) hlt] at h2
  simp only [List.headD_cons, UInt8.lt_iff_toNat_lt, UInt8.toNat_ofNat', UInt8.reduceToNat] at h2
  omega

/-- An encoding of at least 128 in `w` bytes, `w` below 56: the string header
`0x80 + w`, then the bytes. -/
theorem encString_beBytes_of_length {n w : Nat} (hw : (beBytes n).length = w) (h128 : 128 ≤ n)
    (hw56 : w < 56) : encString (beBytes n) = (0x80 + UInt8.ofNat w) :: beBytes n := by
  have he := enc_str_of_canon (not_short_beBytes h128)
  rw [enc_str, hw, header_short hw56] at he
  exact he

theorem appendUint64_case {b : List UInt8} {n w : Nat} (hw : 1 ≤ w) (hw8 : w ≤ 8) (h128 : 128 ≤ n)
    (hlo : 256 ^ (w - 1) ≤ n) (hhi : n < 256 ^ w) :
    b ++ (0x80 + UInt8.ofNat w) :: fixedBytes w n = b ++ encString (beBytes n) := by
  have hw' : (beBytes n).length = w := by
    have := length_beBytes_eq (w := w - 1) hlo (by rw [Nat.sub_add_cancel hw]; exact hhi)
    omega
  rw [encString_beBytes_of_length hw' h128 (by omega), ← hw', fixedBytes_length_beBytes]

/-- **`AppendUint64` appends the canonical encoding** of the integer. -/
theorem appendUint64_eq (b : List UInt8) (i : UInt64) :
    appendUint64 b i = b ++ (writeUint i.toNat).enc := by
  have hi := UInt64.toNat_lt i
  simp only [writeUint, enc_str]
  unfold appendUint64
  dsimp only
  split_ifs with h0 h1 h2 h3 h4 h5 h6 h7 h8
  · rw [h0]; rfl
  · rw [encString_beBytes_of_lt_128 h0 h1]
  · exact appendUint64_case (w := 1) le_rfl (by norm_num) (by omega) (by norm_num; omega)
      (by norm_num at h2 ⊢; omega)
  · exact appendUint64_case (w := 2) (by norm_num) (by norm_num) (by omega) (by norm_num at h2 ⊢; omega)
      (by norm_num at h3 ⊢; omega)
  · exact appendUint64_case (w := 3) (by norm_num) (by norm_num) (by omega) (by norm_num at h3 ⊢; omega)
      (by norm_num at h4 ⊢; omega)
  · exact appendUint64_case (w := 4) (by norm_num) (by norm_num) (by omega) (by norm_num at h4 ⊢; omega)
      (by norm_num at h5 ⊢; omega)
  · exact appendUint64_case (w := 5) (by norm_num) (by norm_num) (by omega) (by norm_num at h5 ⊢; omega)
      (by norm_num at h6 ⊢; omega)
  · exact appendUint64_case (w := 6) (by norm_num) (by norm_num) (by omega) (by norm_num at h6 ⊢; omega)
      (by norm_num at h7 ⊢; omega)
  · exact appendUint64_case (w := 7) (by norm_num) (by norm_num) (by omega) (by norm_num at h7 ⊢; omega)
      (by norm_num at h8 ⊢; omega)
  · exact appendUint64_case (w := 8) (by norm_num) (by norm_num) (by omega) (by norm_num at h8 ⊢; omega)
      (by norm_num at hi ⊢; omega)

/-! ## The slice reader against the stream -/

theorem split_eq_ok_iff_kind_raw {b : List UInt8} {k : Kind} {c r : List UInt8} :
    split b = .ok (k, c, r) ↔
      (∃ n s1 s2, kind.run (reset b b.length) = .ok (k, n) s1 ∧
        raw.run s1 = .ok (valueEnc k c) s2 ∧ s2.r = r) ∧ ¬ ShortString k c := by
  have ht := atTop_reset b
  constructor
  · intro h
    obtain ⟨rfl, ha, hs⟩ := split_eq_ok_iff.mp h
    obtain ⟨s1, s2, h1, h2, ht2⟩ := ht.read_value ha
    exact ⟨⟨_, s1, s2, h1, h2, ht2.r_eq⟩, hs⟩
  · rintro ⟨⟨n, s1, s2, h1, h2, rfl⟩, hs⟩
    obtain ⟨c', r', hb, ha, hv, -, ht2⟩ := ht.value_of_read h1 h2
    -- `Raw` gave back the value's bytes, which fix its content
    obtain rfl := valueEnc_inj hv
    rw [← ht2.r_eq] at hb
    exact split_eq_ok_iff.mpr ⟨hb, ha, hs⟩

theorem splitString_eq_ok_iff_bytes {b c r : List UInt8} :
    splitString b = .ok (c, r) ↔ ∃ s', bytes.run (reset b b.length) = .ok c s' ∧ s'.r = r := by
  constructor
  · intro h
    obtain ⟨s', h', ht'⟩ := (atTop_reset b).bytes_of_splitString h
    exact ⟨s', h', ht'.r_eq⟩
  · rintro ⟨s', h, rfl⟩
    exact ((atTop_reset b).splitString_of_bytes h).1

theorem splitList_eq_ok_iff_list {b c r : List UInt8} :
    splitList b = .ok (c, r) ↔ ∃ s', list.run (reset b b.length) = .ok c.length s' ∧ s'.r = c ++ r := by
  constructor
  · intro h
    obtain ⟨s', h', hr, -⟩ := (atTop_reset b).list_of_splitList h
    exact ⟨s', h', hr⟩
  · rintro ⟨s', h, hr⟩
    have h' := ((atTop_reset b).splitList_of_list h).1
    rwa [hr, List.take_left, List.drop_left] at h'

theorem countValues_eq_ok_iff {b : List UInt8} {n : Nat} :
    countValues b = .ok n ↔ ∃ vs s', (readRawValues (b.length + 1)).run (reset b b.length) = .ok vs s' ∧
      vs.length = n ∧ ∀ v ∈ vs, ¬ ShortStringValue v := by
  rw [countValues, countValuesLoop_eq_ok_iff _ 0 n (Nat.lt_succ_self _) (atTop_reset b)]
  constructor
  · rintro ⟨vs, s', h, rfl, hall⟩
    exact ⟨vs, s', h, by omega, hall⟩
  · rintro ⟨vs, s', h, rfl, hall⟩
    exact ⟨vs, s', h, by omega, hall⟩

/-- **`Split` against the `Stream`.** On every input, `Split` accepts what
`Kind` and `Raw` of a `Stream` over it read, except a one-byte string below
`0x80`; `SplitString` accepts exactly what `Bytes` reads, and `SplitList`
exactly what `List` enters; `CountValues` counts the values that a `Stream`
reads with `Raw` up to the end of the input, unless one of them is such a
string. -/
theorem split_agrees_with_stream (b : List UInt8) :
    (∀ k c r, split b = .ok (k, c, r) ↔
      (∃ n s1 s2, kind.run (reset b b.length) = .ok (k, n) s1 ∧
        raw.run s1 = .ok (valueEnc k c) s2 ∧ s2.r = r) ∧ ¬ ShortString k c) ∧
    (∀ c r, splitString b = .ok (c, r) ↔
      ∃ s', bytes.run (reset b b.length) = .ok c s' ∧ s'.r = r) ∧
    (∀ c r, splitList b = .ok (c, r) ↔
      ∃ s', list.run (reset b b.length) = .ok c.length s' ∧ s'.r = c ++ r) ∧
    ∀ n, countValues b = .ok n ↔
      ∃ vs s', (readRawValues (b.length + 1)).run (reset b b.length) = .ok vs s' ∧
        vs.length = n ∧ ∀ v ∈ vs, ¬ ShortStringValue v :=
  ⟨fun _ _ _ => split_eq_ok_iff_kind_raw, fun _ _ => splitString_eq_ok_iff_bytes,
    fun _ _ => splitList_eq_ok_iff_list, fun _ => countValues_eq_ok_iff⟩

/-- The run of a `Stream` over a single byte and an empty list, one step at a time. -/
theorem readRawValues_byte_emptyList :
    (readRawValues 3).run (reset [0x05, 0xC0] 2) =
      .ok [[0x05], [0xC0]] ⟨[], 0, true, some .byte, 0, 0, some .eof, []⟩ := by
  have h1 : kind.run (reset [0x05, 0xC0] 2) =
      .ok (.byte, 0) ⟨[0xC0], 1, true, some .byte, 0, 5, none, []⟩ := rfl
  have h2 : raw.run ⟨[0xC0], 1, true, some .byte, 0, 5, none, []⟩ =
      .ok [0x05] ⟨[0xC0], 1, true, none, 0, 5, none, []⟩ := rfl
  have h3 : kind.run ⟨[0xC0], 1, true, none, 0, 5, none, []⟩ =
      .ok (.list, 0) ⟨[], 0, true, some .list, 0, 0, none, []⟩ := rfl
  have h4 : raw.run ⟨[], 0, true, some .list, 0, 0, none, []⟩ =
      .ok [0xC0] ⟨[], 0, true, none, 0, 0, none, []⟩ := rfl
  have h5 : kind.run ⟨[], 0, true, none, 0, 0, none, []⟩ =
      .error .eof ⟨[], 0, true, some .byte, 0, 0, some .eof, []⟩ := rfl
  rw [run_readRawValues_value 2 h1 h2, EStateM.run_bind, run_readRawValues_value 1 h3 h4,
    EStateM.run_bind, run_readRawValues_eof 0 h5]
  rfl

theorem split_agrees_with_stream_at_samples :
    split [0x83, 0x61, 0x62, 0x63] = .ok (.string, [0x61, 0x62, 0x63], []) ∧
      countValues [0x05, 0xC0] = .ok 2 :=
  ⟨((split_agrees_with_stream [0x83, 0x61, 0x62, 0x63]).1 .string [0x61, 0x62, 0x63] []).mpr
      ⟨⟨3, ⟨[0x61, 0x62, 0x63], 3, true, some .string, 3, 0, none, []⟩,
        ⟨[], 0, true, none, 3, 0, none, []⟩, rfl, rfl, rfl⟩, by simp [ShortString]⟩,
    ((split_agrees_with_stream [0x05, 0xC0]).2.2.2 2).mpr
      ⟨[[0x05], [0xC0]], _, readRawValues_byte_emptyList, rfl, by simp [ShortStringValue]⟩⟩

/-- A string header `0x81` before a byte below `0x80`: `Kind` and `Raw` read
a one-byte string, a `Stream` counts one value, and `Split` and `CountValues`
reject it with `ErrCanonSize`. -/
theorem raw_reads_short_string_split_rejects :
    (∃ s1 s2, kind.run (reset [0x81, 0x05] 2) = .ok (.string, 1) s1 ∧
      raw.run s1 = .ok [0x81, 0x05] s2 ∧ s2.r = []) ∧
    (∃ s', (readRawValues 3).run (reset [0x81, 0x05] 2) = .ok [[0x81, 0x05]] s') ∧
    split [0x81, 0x05] = .error .canonSize ∧ countValues [0x81, 0x05] = .error .canonSize :=
  ⟨⟨⟨[0x05], 1, true, some .string, 1, 0, none, []⟩, ⟨[], 0, true, none, 1, 0, none, []⟩,
      rfl, rfl, rfl⟩,
    ⟨⟨[], 0, true, some .byte, 0, 0, some .eof, []⟩, rfl⟩, rfl, rfl⟩

end Xdchain.Rlp.Raw
