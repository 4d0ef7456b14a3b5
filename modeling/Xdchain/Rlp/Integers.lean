import Mathlib.Data.Nat.Size
import Xdchain.Rlp.Raw

/-! The integer writers of `rlp/encode.go` and the integer readers of
`rlp/decode.go` and `rlp/raw.go`.

`encodeUint` writes a 64-bit number through `putint`; `writeBigInt` writes a
`*big.Int` of more than 64 bits from the words of `i.Bits()`, byte by byte
backwards into a zeroed buffer. Both append the minimal big-endian bytes of
the number as a string, the item `Typed.writeBigInt` of the rest of the
development. The three readers (`decodeBigInt` and `Stream.uint` on a
`Stream`, `SplitUint64` on a slice) read those encodings back and accept
nothing else. -/

namespace Xdchain.Rlp.Integers
open Xdchain.Lib.BigEndian Xdchain.Lib.ErrState Xdchain.Rlp.Decode Xdchain.Rlp.Encode
  Xdchain.Rlp.Canonical Xdchain.Rlp.Raw
open Xdchain.Rlp.Typed (writeUint decodeBigInt decodeBytesAs Reads reads_iff reads_decodeBigInt
  decodeBytesAs_enc run_kind_header run_cached_of_kind)

/-! ## The writers -/

/-- `encbuf.encodeUint`: zero as the empty string, a number below 128 as its
own byte, otherwise the `putint` bytes behind a short string header. -/
def encodeUint (w : Encbuf) (i : Nat) : Encbuf :=
  if i = 0 then { w with str := w.str ++ [0x80] }
  else if i < 128 then { w with str := w.str ++ [UInt8.ofNat i] }
  else { w with str := w.str ++ (0x80 + UInt8.ofNat (putint i).length) :: putint i }

/-- `i.Bits()`: the little-endian words of `i`, `wordBytes` bytes each, with
no zero word on top. -/
def bits (wordBytes i : Nat) : List Nat := Nat.digits (256 ^ wordBytes) i

/-- The inner loop of `writeBigInt`: at most `j` more low bytes of the word
`d`, each stored at `index - 1` before `index` moves down, until the front
of the buffer. -/
def putWordBytes : Nat → Nat → Nat → List UInt8 → Nat × List UInt8
  | 0, _, index, buf => (index, buf)
  | j + 1, d, index, buf =>
    if index > 0 then putWordBytes j (d >>> 8) (index - 1) (buf.set (index - 1) (UInt8.ofNat d))
    else (index, buf)

/-- The outer loop of `writeBigInt`, over the words of `i.Bits()`. -/
def putWords (wordBytes : Nat) : List Nat → Nat → List UInt8 → List UInt8
  | [], _, buf => buf
  | d :: ds, index, buf =>
    let (index, buf) := putWordBytes wordBytes d index buf
    putWords wordBytes ds index buf

/-- `writeBigInt` of a non-negative `i` on a platform whose `big.Word` has
`wordBytes` bytes. Up to 64 bits it is `encodeUint`; beyond, a string header
for `((bitlen + 7) & -8) >> 3` bytes, that many zero bytes, and the bytes of
`i.Bits()` written over them from the end. -/
def writeBigInt (wordBytes i : Nat) (w : Encbuf) : Encbuf :=
  let bitlen := i.size
  if bitlen ≤ 64 then encodeUint w i
  else
    let length := (bitlen + 7) / 8
    let w := w.encodeStringHeader length
    { w with str := w.str ++ putWords wordBytes (bits wordBytes i) length (List.replicate length 0) }

/-! ### `encodeUint` -/

theorem encodeUint_eq (w : Encbuf) {i : Nat} (hi : i < 2 ^ 64) :
    encodeUint w i = { w with str := w.str ++ (writeUint i).enc } := by
  simp only [writeUint, enc_str]
  unfold encodeUint
  split_ifs with h0 h1
  · subst h0
    rfl
  · rw [encString_beBytes_of_lt_128 h0 h1]
  · have h8 := length_beBytes_le_eight hi
    rw [putint_eq h0 hi, encString_beBytes_of_length rfl (by omega) (by omega)]

/-! ### The word loops of `writeBigInt` -/

/-- Setting the byte before `index` puts it between the front and the back. -/
theorem set_pred_eq {buf : List UInt8} {index : Nat} (h0 : 0 < index) (h : index ≤ buf.length)
    (x : UInt8) : buf.set (index - 1) x = buf.take (index - 1) ++ x :: buf.drop index := by
  rw [List.set_eq_take_append_cons_drop, if_pos (by omega), Nat.sub_add_cancel h0]

/-- **The inner loop** writes the low bytes of the word below `index`: as many
as it may, and as the front of the buffer leaves room for. -/
theorem putWordBytes_eq : ∀ (j d index : Nat) (buf : List UInt8), index ≤ buf.length →
    putWordBytes j d index buf = (index - min j index,
      buf.take (index - min j index) ++ fixedBytes (min j index) d ++ buf.drop index)
  | 0, d, index, buf, _ => by simp [putWordBytes, fixedBytes]
  | j + 1, d, index, buf, h => by
    unfold putWordBytes
    split_ifs with hi
    · -- the lowest byte goes to `index - 1`, the rest of the word below it
      have hset := set_pred_eq hi h (UInt8.ofNat d)
      have hlen : (buf.set (index - 1) (UInt8.ofNat d)).length = buf.length := List.length_set
      rw [putWordBytes_eq j (d >>> 8) (index - 1) _ (by omega), hset]
      set m := min j (index - 1) with hm
      have hm1 : min (j + 1) index = m + 1 := by omega
      have hidx : index - 1 - m = index - (m + 1) := by omega
      have htake : (buf.take (index - 1) ++ UInt8.ofNat d :: buf.drop index).take (index - 1 - m) =
          buf.take (index - (m + 1)) := by
        rw [List.take_append_of_le_length (by simp; omega), List.take_take, hidx]
        congr 1
        omega
      have hdrop : (buf.take (index - 1) ++ UInt8.ofNat d :: buf.drop index).drop (index - 1) =
          UInt8.ofNat d :: buf.drop index :=
        List.drop_left' (by simp; omega)
      rw [htake, hdrop, hidx, hm1, fixedBytes_add m 1 d, Nat.shiftRight_eq_div_pow]
      simp [fixedBytes]
    · have h0 : index = 0 := by omega
      subst h0
      simp [fixedBytes]

/-- A word below `256 ^ w` under a more significant number `v`: its low `m1`
bytes after `m2` bytes of `v` are the low `m2 + m1` bytes of the whole, when
the word was written whole or nothing of `v` was written. -/
theorem fixedBytes_append_word {w m1 m2 d v : Nat} (hd : d < 256 ^ w) (hm1 : m1 ≤ w)
    (h : m1 = w ∨ m2 = 0) :
    fixedBytes m2 v ++ fixedBytes m1 d = fixedBytes (m2 + m1) (d + 256 ^ w * v) := by
  have hpos : 0 < 256 ^ w := Nat.pow_pos (by decide)
  rcases h with rfl | rfl
  · rw [fixedBytes_add, Nat.add_mul_div_left _ _ hpos, Nat.div_eq_of_lt hd, Nat.zero_add,
      ← fixedBytes_mod m1 (d + _), Nat.add_mul_mod_self_left, fixedBytes_mod]
  · -- the word was cut short at the front, and `256 ^ m1` divides `256 ^ w`
    have hdvd : 256 ^ w = 256 ^ m1 * 256 ^ (w - m1) := by
      rw [← pow_add, Nat.add_sub_cancel' hm1]
    simp only [fixedBytes, List.nil_append, Nat.zero_add]
    rw [← fixedBytes_mod m1 (d + _), hdvd, Nat.mul_assoc, Nat.add_mul_mod_self_left, fixedBytes_mod]

/-- **The outer loop** writes the low bytes of the number the words stand
for, `wordBytes` bytes a word, below `index` and as far as the front. -/
theorem putWords_eq {wordBytes : Nat} : ∀ (ds : List Nat) (index : Nat) (buf : List UInt8),
    index ≤ buf.length → (∀ d ∈ ds, d < 256 ^ wordBytes) →
    putWords wordBytes ds index buf = buf.take (index - min (wordBytes * ds.length) index) ++
      fixedBytes (min (wordBytes * ds.length) index) (Nat.ofDigits (256 ^ wordBytes) ds) ++
        buf.drop index
  | [], index, buf, _, _ => by simp [putWords, fixedBytes]
  | d :: ds, index, buf, h, hds => by
    simp only [putWords]
    rw [putWordBytes_eq wordBytes d index buf h]
    dsimp only
    set m1 := min wordBytes index with hm1
    have hlen : (buf.take (index - m1) ++ fixedBytes m1 d ++ buf.drop index).length =
        buf.length := by
      simp
      omega
    rw [putWords_eq ds (index - m1) _ (by omega) (fun d' hd' => hds d' (List.mem_cons_of_mem d hd'))]
    set m2 := min (wordBytes * ds.length) (index - m1) with hm2
    -- the later words land in front of this one, which stays as written
    have htake : (buf.take (index - m1) ++ fixedBytes m1 d ++ buf.drop index).take (index - m1 - m2) =
        buf.take (index - (m2 + m1)) := by
      rw [List.append_assoc, List.take_append_of_le_length (by simp; omega), List.take_take]
      congr 1
      omega
    have hdrop : (buf.take (index - m1) ++ fixedBytes m1 d ++ buf.drop index).drop (index - m1) =
        fixedBytes m1 d ++ buf.drop index := by
      rw [List.append_assoc]
      exact List.drop_left' (by simp; omega)
    have hm : min (wordBytes * (ds.length + 1)) index = m2 + m1 := by
      rw [Nat.mul_succ]
      omega
    rw [htake, hdrop, List.length_cons, hm, Nat.ofDigits_cons,
      ← fixedBytes_append_word (hds d (by simp)) (by omega) (by omega)]
    simp

/-! ### `writeBigInt` -/

/-- `((bitlen + 7) & -8) >> 3` bytes are the minimal bytes. -/
theorem length_beBytes_eq_size (i : Nat) : (beBytes i).length = (i.size + 7) / 8 := by
  have h : ∀ k, (beBytes i).length ≤ k ↔ (i.size + 7) / 8 ≤ k := by
    intro k
    rw [length_beBytes_le_iff, show (256 : Nat) ^ k = 2 ^ (8 * k) by rw [pow_mul]; norm_num,
      ← Nat.size_le]
    omega
  exact Nat.le_antisymm ((h _).mpr le_rfl) ((h _).mp le_rfl)

/-- The words of `i.Bits()` hold at least the minimal bytes of `i`. -/
theorem length_beBytes_le_bits {wordBytes : Nat} (hw : 0 < wordBytes) (i : Nat) :
    (beBytes i).length ≤ wordBytes * (bits wordBytes i).length := by
  rw [length_beBytes_le_iff, pow_mul]
  exact Nat.lt_base_pow_length_digits (Nat.one_lt_pow hw.ne' (by decide))

/-- **`writeBigInt` writes the minimal bytes as a string**, whatever the
size of a machine word, for every `*big.Int`: its `BitLen()` is an `int`. -/
theorem writeBigInt_eq {wordBytes : Nat} (hw : 0 < wordBytes) (w : Encbuf) {i : Nat}
    (hi : i.size < 2 ^ 63) :
    writeBigInt wordBytes i w = { w with str := w.str ++ (Typed.writeBigInt i).enc } := by
  unfold writeBigInt
  dsimp only
  split_ifs with hsmall
  · exact encodeUint_eq w (Nat.size_le.mp hsmall)
  · -- above 64 bits: the header, then the words fill the zeroed buffer exactly
    have hb : 1 < 256 ^ wordBytes := Nat.one_lt_pow hw.ne' (by decide)
    rw [← length_beBytes_eq_size]
    have hlen : (beBytes i).length < 2 ^ 64 := by rw [length_beBytes_eq_size]; omega
    have hlong : ¬ ((beBytes i).length = 1 ∧ (beBytes i).headD 0 < 0x80) := by
      rw [length_beBytes_eq_size]
      omega
    rw [encodeStringHeader_eq w hlen,
      putWords_eq (bits wordBytes i) _ _ (by simp) (fun d hd => Nat.digits_lt_base hb hd),
      Nat.min_eq_right (length_beBytes_le_bits hw i), bits, Nat.ofDigits_digits,
      fixedBytes_length_beBytes]
    simp [Typed.writeBigInt, writeUint, enc_str_of_canon hlong]

/-! ## The readers -/

/-- The bytes of a buffer that holds no list header are its string buffer. -/
theorem toBytes_str {w : Encbuf} (hl : w.lheads = []) (hs : w.lhsize = 0) : w.toBytes = w.str := by
  simp [Encbuf.toBytes, Encbuf.toBytesLoop, Encbuf.size, hl, hs]

/-- A string of fewer than `2 ^ 63` bytes has an encoding that fits. -/
theorem fits_str {b : List UInt8} (h : b.length < 2 ^ 63) : (Item.str b).Fits := by
  have hh : (header 0x80 b.length).length ≤ 9 := by
    have h8 := length_beBytes_le_eight (n := b.length) (by omega)
    rw [length_header, headsize, intsize_eq]
    split_ifs <;> omega
  unfold Item.Fits
  rcases encString_cases b with ⟨c, rfl, -, he⟩ | ⟨he, -⟩
  · rw [enc_str, he]
    simp
  · rw [enc_str, he, List.length_append]
    omega

/-! ### `Stream.uint` -/

theorem run_readUint_zero (s : Stream) : (readUint 0).run s = .ok 0 { s with kind := none } := rfl

theorem run_uint_byte {s : Stream} (hk : s.kind = some .byte) (he : s.kinderr = none)
    (h0 : s.byteval ≠ 0) (maxbits : Nat) :
    (uint maxbits).run s = .ok s.byteval.toNat { s with kind := none } := by
  unfold uint
  rw [run_bind_of_ok (run_kind_cached hk he)]
  simp [h0]

theorem run_uint_string {s s' : Stream} {maxbits v : Nat} (hk : s.kind = some .string)
    (he : s.kinderr = none) (hsize : s.size ≤ maxbits / 8)
    (hread : (readUint s.size).run s = .ok v s') (hv : ¬ (s.size > 0 ∧ v < 128)) :
    (uint maxbits).run s = .ok v s' := by
  unfold uint
  rw [run_bind_of_ok (run_kind_cached hk he)]
  simp only [EStateM.run_bind, Nat.not_lt.mpr hsize, if_false, run_attempt_of_ok hread]
  simp [hv]

/-- **What `uint` reads** once `Kind` has cached a value: a byte other than
zero, or a string of at most `maxbits / 8` bytes through `readUint`, and no
one-byte string below 128. -/
theorem uint_eq_ok {s s' : Stream} {k : Kind} {maxbits v : Nat} (hk : s.kind = some k)
    (he : s.kinderr = none) (h : (uint maxbits).run s = .ok v s') :
    (k = .byte ∧ s.byteval ≠ 0 ∧ v = s.byteval.toNat ∧ s' = { s with kind := none }) ∨
      (k = .string ∧ s.size ≤ maxbits / 8 ∧ (readUint s.size).run s = .ok v s' ∧
        ¬ (s.size > 0 ∧ v < 128)) := by
  unfold uint at h
  rw [run_bind_of_ok (run_kind_cached hk he)] at h
  cases k with
  | byte =>
    by_cases h0 : s.byteval = 0
    · simp [h0] at h
    · simp only [EStateM.run_bind, EStateM.run_get, h0, if_false, EStateM.run_set,
        EStateM.run_pure, EStateM.Result.ok.injEq] at h
      obtain ⟨rfl, rfl⟩ := h
      exact .inl ⟨rfl, h0, rfl, rfl⟩
  | string =>
    dsimp only at h
    by_cases hsize : s.size > maxbits / 8
    · rw [if_pos hsize] at h
      cases h
    rw [if_neg hsize] at h
    obtain ⟨res, s1, h1, h2⟩ := run_bind_eq_ok h
    rcases run_attempt_eq_ok h1 with ⟨v', rfl, hv'⟩ | ⟨e, rfl, -⟩
    · dsimp only at h2
      by_cases hv : s.size > 0 ∧ v' < 128
      · rw [if_pos hv] at h2
        cases h2
      · simp only [hv, if_false, EStateM.run_pure, EStateM.Result.ok.injEq] at h2
        obtain ⟨rfl, rfl⟩ := h2
        exact .inr ⟨rfl, by omega, hv', hv⟩
    · cases e <;> cases h2
  | list => simp at h

/-- Zero and the numbers from 128 on stand behind a string header. -/
theorem encString_beBytes_of_not_short {v : Nat} (h : v = 0 ∨ 128 ≤ v) :
    encString (beBytes v) = header 0x80 (beBytes v).length ++ beBytes v := by
  rcases h with rfl | h128
  · rfl
  · exact enc_str_of_canon (not_short_beBytes h128)

/-- **A 64-bit number is read back by `uint`**, as a single byte, as the empty
string or after a string header. -/
theorem reads_uint {u : Nat} (hu : u < 2 ^ 64) : Reads (uint 64) (writeUint u) u := by
  rw [reads_iff]
  intro s rest hk _ _ hr h
  simp only [writeUint, enc_str] at hr h ⊢
  by_cases h128 : 0 < u ∧ u < 128
  · -- from 1 to 127: the byte itself
    rw [encString_beBytes_of_lt_128 (by omega) h128.2] at hr h ⊢
    have hc : UInt8.ofNat u < 0x80 := by
      rw [UInt8.lt_iff_toNat_lt, UInt8.toNat_ofNat', Nat.mod_eq_of_lt (by omega)]
      exact h128.2
    have hc0 : UInt8.ofNat u ≠ 0 := fun h0 => by
      have := congrArg UInt8.toNat h0
      rw [UInt8.toNat_ofNat', Nat.mod_eq_of_lt (by omega), UInt8.toNat_zero] at this
      omega
    have hread := run_readKind_byte (s := { s with kinderr := none }) hr hc h
    have hkind := run_kind_fresh hk (atEOL_false_of_room h (by simp)) hread (fits_zero _)
    rw [run_cached_of_kind (uint 64) ⟨_, rfl⟩ hk hkind, run_uint_byte rfl rfl hc0]
    refine ⟨_, ?_, 0, UInt8.ofNat u, rfl⟩
    rw [UInt8.toNat_ofNat', Nat.mod_eq_of_lt (by omega)]
    rfl
  · -- zero or at least 128: a string header, then the minimal bytes
    have h8 := length_beBytes_le_eight hu
    rw [encString_beBytes_of_not_short (by omega)] at hr h ⊢
    rw [List.append_assoc] at hr
    rw [List.length_append] at h ⊢
    have hkind := run_kind_header (k := .string) hk (by simp) (by omega) hr h
    have hr2 : s.r.drop (header 0x80 (beBytes u).length).length = beBytes u ++ rest := by
      rw [hr, List.drop_left]
    rw [run_cached_of_kind (uint 64) ⟨_, rfl⟩ hk hkind]
    by_cases h0 : u = 0
    · subst h0
      rw [run_uint_string rfl rfl (by simp) (run_readUint_zero _) (by simp)]
      refine ⟨_, rfl, 0, 0, ?_⟩
      simp
    · have hread := run_readUint_beBytes (n := u)
        (s := { s.read (header (headerTag .string) (beBytes u).length).length with
          byteval := 0, kind := some .string, size := (beBytes u).length, kinderr := none })
        (by omega) hu (show _ = beBytes u ++ rest by simpa using hr2) (Stream.room_add h).2
      rw [run_uint_string rfl rfl (by simp; omega) hread (by omega)]
      exact ⟨_, rfl, (beBytes u).length, 0, by rw [← Stream.read_read]; rfl⟩

/-! ### Only canonical integers are accepted -/

/-- What `DecodeBytes` accepts: a run of the decoder on the whole input that
leaves nothing behind. -/
theorem decodeBytesAs_eq_ok {α : Type} {dec : StreamM α} {b : List UInt8} {v : α}
    (h : decodeBytesAs dec b = .ok v) : ∃ s', dec.run (reset b b.length) = .ok v s' ∧ s'.r = [] := by
  unfold decodeBytesAs at h
  split at h
  · rename_i v' s' hrun
    split_ifs at h with hlen
    cases h
    exact ⟨s', hrun, List.eq_nil_of_length_eq_zero (by omega)⟩
  · cases h

/-- What `SplitString` splits off has a 64-bit size. -/
theorem length_lt_of_splitString {b c r : List UInt8} (h : splitString b = .ok (c, r)) :
    c.length < 2 ^ 64 := by
  obtain ⟨k, -, hs⟩ := splitString_eq_ok_iff.mp h
  obtain ⟨-, ha, -⟩ := split_eq_ok_iff.mp hs
  cases k with
  | byte =>
    have h1 : c.length = 1 := ha.1
    omega
  | string => exact ha
  | list => exact ha

/-- **`decodeBigInt` accepts only the canonical encoding** of its value. -/
theorem decodeBigInt_canonical {b : List UInt8} {x : Nat}
    (h : decodeBytesAs decodeBigInt b = .ok x) :
    (beBytes x).length < 2 ^ 64 ∧ b = encString (beBytes x) := by
  obtain ⟨s', hrun, hr⟩ := decodeBytesAs_eq_ok h
  obtain ⟨c, s1, hbytes, hrest⟩ := run_bind_eq_ok hrun
  -- past the leading-zero check, the value is the content's
  have hz : ¬ (c.length > 0 ∧ c.headD 0 = 0) := fun hz => by
    rw [if_pos hz] at hrest
    cases hrest
  rw [if_neg hz] at hrest
  obtain ⟨rfl, rfl⟩ : beValue c = x ∧ s1 = s' := by simpa using hrest
  have hsplit := ((atTop_reset b).splitString_of_bytes hbytes).1
  rw [hr] at hsplit
  have hhead : c.head? ≠ some 0 := by
    cases c with
    | nil => simp
    | cons y ys => simpa using hz
  rw [beBytes_beValue hhead]
  exact ⟨length_lt_of_splitString hsplit, by rw [splitString_eq_ok hsplit, List.append_nil]⟩

/-- A string that `uint` accepts and that ends the input holds the minimal
bytes of the value, which is zero or at least 128. -/
theorem uint_string_eq_ok {s s' : Stream} {v : Nat} (hsize : s.size ≤ 8)
    (hread : (readUint s.size).run s = .ok v s') (hv : ¬ (s.size > 0 ∧ v < 128))
    (hr : s'.r = []) : s.r = beBytes v ∧ s.size = (beBytes v).length ∧ (v = 0 ∨ 128 ≤ v) := by
  by_cases hn0 : s.size = 0
  · rw [hn0, run_readUint_zero] at hread
    cases hread
    exact ⟨hr, by simp [hn0], .inl rfl⟩
  · obtain ⟨-, hlen, rfl, hval, hlead⟩ := readUint_eq_ok (by omega) hread
    have hdrop : s.r.drop s.size = [] := hr
    have hall : s.r.take s.size = s.r := List.take_of_length_le (List.drop_eq_nil_iff.mp hdrop)
    rw [hall] at hval hlead
    have h128 : 128 ≤ v := by omega
    have hhead : s.r.head? ≠ some 0 := by
      by_cases h2 : 2 ≤ s.size
      · exact hlead h2
      · -- a single zero byte would be the value zero
        intro h0
        have hlen1 : s.r.length = 1 := by
          have := List.drop_eq_nil_iff.mp hdrop
          omega
        obtain ⟨y, hy⟩ := List.length_eq_one_iff.mp hlen1
        rw [hy] at h0 hval
        simp only [List.head?_cons, Option.some.injEq] at h0
        subst h0
        simp [beValue] at hval
        omega
    have hbe : beBytes v = s.r := by rw [hval]; exact beBytes_beValue hhead
    have hle := List.drop_eq_nil_iff.mp hdrop
    exact ⟨hbe.symm, by rw [hbe]; omega, .inr h128⟩

/-- **`Stream.uint` accepts only the canonical encoding** of a 64-bit number. -/
theorem uint_canonical {b : List UInt8} {v : Nat} (h : decodeBytesAs (uint 64) b = .ok v) :
    v < 2 ^ 64 ∧ b = encString (beBytes v) := by
  obtain ⟨s', hrun, hr⟩ := decodeBytesAs_eq_ok h
  have ht := atTop_reset b
  obtain ⟨k, n, s1, h1, h2⟩ := ht.kind_of_run ⟨_, rfl⟩ hrun
  rcases kind_fresh_eq_ok ht.kind_eq h1 with ⟨rfl, rfl, c, hc, hb, -, rfl⟩ |
    ⟨hkb, -, hb, -, -, hs1⟩
  · -- a single byte below 0x80 that is not zero
    rw [ht.r_eq] at hb
    rcases uint_eq_ok rfl rfl h2 with ⟨-, hc0, rfl, rfl⟩ | ⟨hk, -⟩
    · have hb1 : b = [c] := by rw [hb]; exact congrArg (c :: ·) hr
      have hc0' : c.toNat ≠ 0 := fun h0 => hc0 (UInt8.toNat_inj.mp h0)
      show c.toNat < 2 ^ 64 ∧ b = encString (beBytes c.toNat)
      refine ⟨by have := c.toNat_lt; omega, ?_⟩
      rw [hb1, beBytes_of_lt hc0' c.toNat_lt, UInt8.ofNat_toNat]
      simp [encString, hc]
    · cases hk
  · -- a string of at most eight bytes after its header
    rw [ht.r_eq] at hb
    rcases uint_eq_ok (k := k) (by rw [hs1]) (by rw [hs1]) h2 with ⟨hk, -⟩ |
      ⟨rfl, hsize, hread, hv⟩
    · exact absurd hk hkb
    · have hsz : s1.size = n := by rw [hs1]
      obtain ⟨hr1, hlen, hv0⟩ := uint_string_eq_ok (by simpa using hsize) hread hv hr
      refine ⟨lt_of_length_beBytes_le (by simp at hsize; omega), ?_⟩
      rw [hb, hr1, ← hsz, hlen, encString_beBytes_of_not_short hv0, headerTag_string]

/-- Encodings of strings are prefix-free: `SplitString` reads them apart. -/
theorem encString_append_inj {c d r r' : List UInt8} (hc : c.length < 2 ^ 64)
    (hd : d.length < 2 ^ 64) (h : encString c ++ r = encString d ++ r') : c = d ∧ r = r' := by
  have hsplit := splitString_encString hc r
  rw [h, splitString_encString hd r'] at hsplit
  cases hsplit
  exact ⟨rfl, rfl⟩

/-- A content with a leading zero byte is never the minimal bytes of a number. -/
theorem encString_ne_of_leading_zero {c : List UInt8} (hc : c.length < 2 ^ 64)
    (h0 : c.head? = some 0) {v : Nat} (hv : (beBytes v).length < 2 ^ 64) (r r' : List UInt8) :
    encString c ++ r ≠ encString (beBytes v) ++ r' := fun h =>
  head_beBytes_ne_zero v ((encString_append_inj hc hv h).1 ▸ h0)

/-! ## The integer codecs -/

theorem toBytes_writeBigInt {wordBytes : Nat} (hw : 0 < wordBytes) {x : Nat}
    (hx : x.size < 2 ^ 63) :
    (writeBigInt wordBytes x Encbuf.empty).toBytes = encString (beBytes x) := by
  rw [writeBigInt_eq hw _ hx, toBytes_str rfl rfl]
  simp [Encbuf.empty, Typed.writeBigInt, writeUint]

theorem toBytes_encodeUint (u : UInt64) :
    (encodeUint Encbuf.empty u.toNat).toBytes = (writeUint u.toNat).enc := by
  rw [encodeUint_eq _ u.toNat_lt, toBytes_str rfl rfl]
  simp [Encbuf.empty]

theorem length_beBytes_lt_of_size {x : Nat} (hx : x.size < 2 ^ 63) : (beBytes x).length < 2 ^ 63 := by
  rw [length_beBytes_eq_size]
  omega

/-- **The integer codecs of RLP.** The encoding of every non-negative
`*big.Int` (whose `BitLen()` is an `int`), written from its machine words of
any width, is the string of its minimal big-endian bytes, which have no
leading zero, and `decodeBigInt` reads it back. `uint` reads back the
encoding of every `uint64`, and `SplitUint64` what `AppendUint64` appends.
All three readers accept only canonical encodings, and so reject every
content with a leading zero byte. -/
theorem integer_codecs_canonical :
    (∀ wordBytes x, 0 < wordBytes → x.size < 2 ^ 63 →
      (writeBigInt wordBytes x Encbuf.empty).toBytes = encString (beBytes x) ∧
        (beBytes x).head? ≠ some 0 ∧
        decodeBytesAs decodeBigInt (writeBigInt wordBytes x Encbuf.empty).toBytes = .ok x) ∧
    (∀ u : UInt64, decodeBytesAs (uint 64) (encodeUint Encbuf.empty u.toNat).toBytes = .ok u.toNat) ∧
    (∀ (u : UInt64) (rest : List UInt8),
      splitUint64 (appendUint64 [] u ++ rest) = .ok (u.toNat, rest)) ∧
    (∀ b x, decodeBytesAs decodeBigInt b = .ok x → b = encString (beBytes x)) ∧
    (∀ b v, decodeBytesAs (uint 64) b = .ok v → v < 2 ^ 64 ∧ b = encString (beBytes v)) ∧
    (∀ b v rest, splitUint64 b = .ok (v, rest) →
      v < 2 ^ 64 ∧ b = encString (beBytes v) ++ rest) ∧
    (∀ c : List UInt8, c.length < 2 ^ 64 → c.head? = some 0 →
      (∀ x, decodeBytesAs decodeBigInt (encString c) ≠ .ok x) ∧
      (∀ v, decodeBytesAs (uint 64) (encString c) ≠ .ok v) ∧
      (∀ rest v r, splitUint64 (encString c ++ rest) ≠ .ok (v, r))) := by
  refine ⟨?bigInt, ?uint, ?split, fun b x h => (decodeBigInt_canonical h).2,
    fun b v h => uint_canonical h, fun b v rest h => splitUint64_eq_ok h, ?zero⟩
  case bigInt =>
    intro wordBytes x hw hx
    have hfits := fits_str (length_beBytes_lt_of_size hx)
    rw [toBytes_writeBigInt hw hx]
    exact ⟨rfl, head_beBytes_ne_zero x, decodeBytesAs_enc (reads_decodeBigInt x) hfits⟩
  case uint =>
    intro u
    have hfits := fits_str (b := beBytes u.toNat)
      (by have := length_beBytes_le_eight u.toNat_lt; omega)
    rw [toBytes_encodeUint]
    exact decodeBytesAs_enc (reads_uint u.toNat_lt) hfits
  case split =>
    intro u rest
    rw [appendUint64_eq, List.nil_append]
    exact splitUint64_enc u.toNat_lt rest
  case zero =>
    intro c hc h0
    -- whatever they accept is some number's canonical encoding
    refine ⟨fun x h => ?_, fun v h => ?_, fun rest v r h => ?_⟩
    · obtain ⟨hx, he⟩ := decodeBigInt_canonical h
      exact encString_ne_of_leading_zero hc h0 hx [] [] (by simpa using he)
    · obtain ⟨hv, he⟩ := uint_canonical h
      exact encString_ne_of_leading_zero hc h0 (v := v)
        (by have := length_beBytes_le_eight hv; omega) [] [] (by simpa using he)
    · obtain ⟨hv, he⟩ := splitUint64_eq_ok h
      exact encString_ne_of_leading_zero hc h0 (v := v)
        (by have := length_beBytes_le_eight hv; omega) rest r (by simpa [writeUint] using he)

theorem integer_codecs_canonical_at_two_pow_64 :
    decodeBytesAs decodeBigInt (writeBigInt 8 (2 ^ 64) Encbuf.empty).toBytes = .ok (2 ^ 64) ∧
      [0x82, 0x01, 0x00] = encString (beBytes 256) ∧
      (5 < 2 ^ 64 ∧ [0x05] = encString (beBytes 5)) ∧
      (5 < 2 ^ 64 ∧ [0x05, 0xC0] = encString (beBytes 5) ++ [0xC0]) ∧
      decodeBytesAs decodeBigInt (encString [0x00, 0x01]) ≠ .ok 1 :=
  have hsize : (2 ^ 64 : Nat).size < 2 ^ 63 := by rw [Nat.size_pow]; norm_num
  ⟨(integer_codecs_canonical.1 8 (2 ^ 64) (by decide) hsize).2.2,
    integer_codecs_canonical.2.2.2.1 [0x82, 0x01, 0x00] 256 rfl,
    integer_codecs_canonical.2.2.2.2.1 [0x05] 5 rfl,
    integer_codecs_canonical.2.2.2.2.2.1 [0x05, 0xC0] 5 [0xC0] rfl,
    (integer_codecs_canonical.2.2.2.2.2.2 [0x00, 0x01] (by decide) rfl).1 1⟩

end Xdchain.Rlp.Integers
