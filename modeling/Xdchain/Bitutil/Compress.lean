import Mathlib.Data.Nat.Bitwise
import Xdchain.Lib.ErrState

/-! # Sparse bitset compression

`CompressBytes` and `DecompressBytes` of `common/bitutil/compress.go`. A
string is encoded as the encoding of the bitset of its non-zero bytes (one
bit a byte, the most significant first) followed by those bytes;
`CompressBytes` keeps a copy when that is not shorter. The decoder reads the
bitset back from the same input at the target `(t + 7) / 8` and hands out the
bytes after it, with one pointer for all the levels.

Slices are `List UInt8` and targets `Nat` (a negative target falls to the
first check of `DecompressBytes`). A read out of a slice, where Go panics, is
the error `indexOutOfRange`; the pointer that `bitsetDecodePartialBytes`
returns beside an error is read by no caller and is left out. The round trip
holds for every string, and on any input the decoder gives `t` bytes or one
of its own errors, never a panic (`compress_round_trip_and_decompress_total`). -/

namespace Xdchain.Bitutil.Compress

/-- The errors of `compress.go`, and `indexOutOfRange` for a panic of the Go runtime. -/
inductive Err where
  | missingData
  | unreferencedData
  | exceededTarget
  | zeroContent
  | indexOutOfRange
deriving DecidableEq, Repr

/-- `1 << byte(7-i%8)`, the bit of index `i` in its byte. -/
def mask (i : Nat) : UInt8 := 1 <<< UInt8.ofNat (7 - i % 8)

/-- The loop `for i, b := range data` of `bitsetEncodeBytes` from index `i`,
with the bitset and the non-zero bytes so far. -/
def nonZeroLoop : List UInt8 → Nat → List UInt8 → List UInt8 → List UInt8 × List UInt8
  | [], _, nonZeroBitset, nonZeroBytes => (nonZeroBitset, nonZeroBytes)
  | b :: data, i, nonZeroBitset, nonZeroBytes =>
    if b ≠ 0 then
      nonZeroLoop data (i + 1) (nonZeroBitset.modify (i / 8) (· ||| mask i)) (nonZeroBytes ++ [b])
    else nonZeroLoop data (i + 1) nonZeroBitset nonZeroBytes

theorem length_nonZeroLoop_fst (data : List UInt8) (i : Nat) (bs acc : List UInt8) :
    (nonZeroLoop data i bs acc).1.length = bs.length := by
  induction data generalizing i bs acc with
  | nil => rfl
  | cons b data ih =>
    unfold nonZeroLoop
    split_ifs
    · rw [ih, List.length_modify]
    · exact ih ..

/-- `bitsetEncodeBytes`: nothing for zeros, a single byte for itself, and
otherwise the encoding of the bitset before the non-zero bytes. -/
def bitsetEncodeBytes (data : List UInt8) : List UInt8 :=
  if h0 : data.length = 0 then []
  else if h1 : data.length = 1 then
    if data[0] = 0 then [] else data
  else
    let r := nonZeroLoop data 0 (List.replicate ((data.length + 7) / 8) 0) []
    if r.2.length = 0 then []
    else bitsetEncodeBytes r.1 ++ r.2
termination_by data.length
decreasing_by
  rw [length_nonZeroLoop_fst, List.length_replicate]
  omega

/-- `CompressBytes`: the encoding if it is shorter, else a copy. -/
def CompressBytes (data : List UInt8) : List UInt8 :=
  let out := bitsetEncodeBytes data
  if out.length < data.length then out else data

/-- The loop `for i := 0; i < 8*len(nonZeroBitset); i++` of
`bitsetDecodePartialBytes` from index `i`, `n` rounds left: each raised bit
takes the byte at `ptr`. -/
def distributeLoop (data nonZeroBitset : List UInt8) :
    Nat → Nat → List UInt8 → Nat → Except Err (List UInt8 × Nat)
  | 0, _, decomp, ptr => .ok (decomp, ptr)
  | n + 1, i, decomp, ptr =>
    match nonZeroBitset[i / 8]? with
    | none => .error .indexOutOfRange
    | some byte =>
      if byte &&& mask i ≠ 0 then
        if ptr ≥ data.length then .error .missingData
        else if i ≥ decomp.length then .error .exceededTarget
        else
          match data[ptr]? with
          | none => .error .indexOutOfRange
          | some b =>
            if b = 0 then .error .zeroContent
            else distributeLoop data nonZeroBitset n (i + 1) (decomp.set i b) (ptr + 1)
      else distributeLoop data nonZeroBitset n (i + 1) decomp ptr

/-- `bitsetDecodePartialBytes`: `target` bytes, and how much of the input they took. -/
def bitsetDecodePartialBytes (data : List UInt8) (target : Nat) : Except Err (List UInt8 × Nat) :=
  if target = 0 then .ok ([], 0)
  else
    let decomp := List.replicate target 0
    if data.length = 0 then .ok (decomp, 0)
    else if target = 1 then
      match data[0]? with
      | none => .error .indexOutOfRange
      | some b => if b ≠ 0 then .ok (decomp.set 0 b, 1) else .ok (decomp.set 0 b, 0)
    else do
      let (nonZeroBitset, ptr) ← bitsetDecodePartialBytes data ((target + 7) / 8)
      distributeLoop data nonZeroBitset (8 * nonZeroBitset.length) 0 decomp ptr
termination_by target
decreasing_by omega

/-- `bitsetDecodeBytes`: the decoding must take the whole input. -/
def bitsetDecodeBytes (data : List UInt8) (target : Nat) : Except Err (List UInt8) := do
  let (out, size) ← bitsetDecodePartialBytes data target
  if size ≠ data.length then throw .unreferencedData
  pure out

/-- `DecompressBytes`: an input as long as the target is a copy. -/
def DecompressBytes (data : List UInt8) (target : Nat) : Except Err (List UInt8) :=
  if data.length > target then .error .exceededTarget
  else if data.length = target then .ok data
  else bitsetDecodeBytes data target

/-! ## What the decoder may return, and bits -/

/-- What `bitsetDecodePartialBytes` may give back: `target` bytes and a
pointer into the input, or an error of its own, never a panic. -/
def Returns (target len : Nat) : Except Err (List UInt8 × Nat) → Prop
  | .ok r => r.1.length = target ∧ r.2 ≤ len
  | .error e => e ≠ .indexOutOfRange

/-- Bit `i` of a bitset, the most significant first; missing bytes read as zero. -/
def bitAt (bs : List UInt8) (i : Nat) : Bool := (bs.getD (i / 8) 0).toNat.testBit (7 - i % 8)

/-! ## Bits -/

theorem toNat_mask (i : Nat) : (mask i).toNat = 2 ^ (7 - i % 8) := by
  have hk : i % 8 < 8 := Nat.mod_lt _ (by decide)
  have h : ∀ k < 8, ((1 : UInt8) <<< UInt8.ofNat (7 - k)).toNat = 2 ^ (7 - k) := by decide
  exact h _ hk

theorem and_mask_ne_zero (b : UInt8) (i : Nat) :
    b &&& mask i ≠ 0 ↔ b.toNat.testBit (7 - i % 8) = true := by
  rw [ne_eq, ← UInt8.toNat_inj, UInt8.toNat_and, toNat_mask, Nat.and_two_pow]
  cases b.toNat.testBit (7 - i % 8) <;> simp

theorem bitAt_modify {bs : List UInt8} {i : Nat} (hi : i / 8 < bs.length) (j : Nat) :
    bitAt (bs.modify (i / 8) (· ||| mask i)) j = (bitAt bs j || decide (j = i)) := by
  unfold bitAt
  simp only [List.getD_eq_getElem?_getD, List.getElem?_modify]
  by_cases hj : i / 8 = j / 8
  · have hlt : j / 8 < bs.length := hj ▸ hi
    simp only [hj, if_true, List.getElem?_eq_getElem hlt, Option.map_eq_map, Option.map_some,
      Option.getD_some]
    rw [UInt8.toNat_or, Nat.testBit_or, toNat_mask, Nat.testBit_two_pow]
    congr 1
    apply decide_eq_decide.mpr
    omega
  · have hne : j ≠ i := fun h => hj (by rw [h])
    simp only [hj, if_false, hne, decide_false, Bool.or_false]
    cases bs[j / 8]? <;> rfl

theorem bitAt_replicate (n j : Nat) : bitAt (List.replicate n 0) j = false := by
  unfold bitAt
  rw [List.getD_eq_getElem?_getD, List.getElem?_replicate]
  split <;> simp

theorem getD_ne_zero_of_bitAt {bs : List UInt8} {j : Nat} (h : bitAt bs j = true) :
    bs.getD (j / 8) 0 ≠ 0 := by
  intro h0
  rw [bitAt, h0] at h
  exact absurd h (by simp)


/-! ## The encoder -/

theorem getD_cons_ne_zero_iff (b : UInt8) (data : List UInt8) (i j : Nat) :
    (i ≤ j ∧ (b :: data).getD (j - i) 0 ≠ 0) ↔
      (j = i ∧ b ≠ 0) ∨ (i + 1 ≤ j ∧ data.getD (j - (i + 1)) 0 ≠ 0) := by
  constructor
  · rintro ⟨hij, h⟩
    rcases Nat.eq_or_lt_of_le hij with rfl | hlt
    · exact .inl ⟨rfl, by simpa using h⟩
    · obtain ⟨k, hk⟩ : ∃ k, j - i = k + 1 := ⟨j - i - 1, by omega⟩
      rw [hk, List.getD_cons_succ] at h
      exact .inr ⟨hlt, by rwa [show j - (i + 1) = k by omega]⟩
  · rintro (⟨rfl, hb⟩ | ⟨hlt, h⟩)
    · exact ⟨le_refl _, by simpa using hb⟩
    · refine ⟨by omega, ?_⟩
      rw [show j - i = j - (i + 1) + 1 by omega, List.getD_cons_succ]
      exact h

/-- **The loop of `bitsetEncodeBytes`** from index `i` gathers the non-zero
bytes after `acc` and raises the bit of each of their indices. -/
theorem nonZeroLoop_spec (data : List UInt8) : ∀ (i : Nat) (bs acc : List UInt8),
    i + data.length ≤ 8 * bs.length →
      (nonZeroLoop data i bs acc).2 = acc ++ data.filter (· ≠ 0) ∧
        ∀ j, bitAt (nonZeroLoop data i bs acc).1 j =
          (bitAt bs j || decide (i ≤ j ∧ data.getD (j - i) 0 ≠ 0)) := by
  induction data with
  | nil =>
    intro i bs acc _
    refine ⟨by simp [nonZeroLoop], fun j => ?_⟩
    simp [nonZeroLoop]
  | cons b data ih =>
    intro i bs acc hroom
    rw [List.length_cons] at hroom
    by_cases hb : b ≠ 0
    · have hi : i / 8 < bs.length := by omega
      obtain ⟨h2, h1⟩ := ih (i + 1) (bs.modify (i / 8) (· ||| mask i)) (acc ++ [b])
        (by rw [List.length_modify]; omega)
      rw [nonZeroLoop, if_pos hb]
      refine ⟨?_, fun j => ?_⟩
      · rw [h2, List.filter_cons_of_pos (by simpa using hb), List.append_assoc, List.singleton_append]
      · rw [h1, bitAt_modify hi, Bool.or_assoc, ← Bool.decide_or]
        congr 1
        apply decide_eq_decide.mpr
        rw [getD_cons_ne_zero_iff, and_iff_left hb]
    · obtain ⟨h2, h1⟩ := ih (i + 1) bs acc (by omega)
      rw [nonZeroLoop, if_neg hb]
      refine ⟨?_, fun j => ?_⟩
      · rw [h2, List.filter_cons_of_neg (by simpa using hb)]
      · rw [h1]
        congr 1
        apply decide_eq_decide.mpr
        rw [getD_cons_ne_zero_iff]
        simp only [not_not] at hb
        simp [hb]

/-- `nonZeroBitset(data)`: the bitset of the non-zero bytes, `(len(data) + 7) / 8` bytes long. -/
def nonZeroBitset (data : List UInt8) : List UInt8 :=
  (nonZeroLoop data 0 (List.replicate ((data.length + 7) / 8) 0) []).1

theorem nonZeroLoop_eq (data : List UInt8) :
    nonZeroLoop data 0 (List.replicate ((data.length + 7) / 8) 0) [] =
      (nonZeroBitset data, data.filter (· ≠ 0)) := by
  have h := nonZeroLoop_spec data 0 (List.replicate ((data.length + 7) / 8) 0) []
    (by rw [List.length_replicate]; omega)
  rw [List.nil_append] at h
  exact Prod.ext rfl h.1

theorem length_nonZeroBitset (data : List UInt8) :
    (nonZeroBitset data).length = (data.length + 7) / 8 := by
  rw [nonZeroBitset, length_nonZeroLoop_fst, List.length_replicate]

/-- The bits of `nonZeroBitset` mark the non-zero bytes. -/
theorem bitAt_nonZeroBitset (data : List UInt8) (j : Nat) :
    bitAt (nonZeroBitset data) j = decide (data.getD j 0 ≠ 0) := by
  have h := (nonZeroLoop_spec data 0 (List.replicate ((data.length + 7) / 8) 0) []
    (by rw [List.length_replicate]; omega)).2 j
  rw [← nonZeroBitset, bitAt_replicate, Bool.false_or, Nat.sub_zero] at h
  rw [h]
  simp


theorem filter_ne_nil_iff (l : List UInt8) : l.filter (· ≠ 0) ≠ [] ↔ ∃ j, l.getD j 0 ≠ 0 := by
  constructor
  · intro h
    obtain ⟨b, hb⟩ := List.exists_mem_of_ne_nil _ h
    rw [List.mem_filter] at hb
    obtain ⟨j, hj, rfl⟩ := List.getElem_of_mem hb.1
    exact ⟨j, by rw [List.getD_eq_getElem _ _ hj]; simpa using hb.2⟩
  · rintro ⟨j, hj⟩
    have hlt : j < l.length := by
      by_contra h
      exact hj (List.getD_eq_default _ _ (by omega))
    rw [List.getD_eq_getElem _ _ hlt] at hj
    exact List.ne_nil_of_mem (List.mem_filter.mpr ⟨List.getElem_mem hlt, by simpa using hj⟩)

/-- A bitset of a string with a non-zero byte has a non-zero byte. -/
theorem filter_nonZeroBitset_ne_nil {data : List UInt8} (h : data.filter (· ≠ 0) ≠ []) :
    (nonZeroBitset data).filter (· ≠ 0) ≠ [] := by
  rw [filter_ne_nil_iff] at h ⊢
  obtain ⟨j, hj⟩ := h
  exact ⟨j / 8, getD_ne_zero_of_bitAt (by rw [bitAt_nonZeroBitset]; simpa using hj)⟩

theorem bitsetEncodeBytes_of_two_le {data : List UInt8} (h2 : 2 ≤ data.length)
    (hz : data.filter (· ≠ 0) ≠ []) :
    bitsetEncodeBytes data = bitsetEncodeBytes (nonZeroBitset data) ++ data.filter (· ≠ 0) := by
  rw [bitsetEncodeBytes, dif_neg (by omega), dif_neg (by omega)]
  simp only [nonZeroLoop_eq]
  rw [if_neg (by simpa using hz)]

/-- A string of zeros encodes to nothing. -/
theorem bitsetEncodeBytes_of_filter_eq_nil {data : List UInt8} (hz : data.filter (· ≠ 0) = []) :
    bitsetEncodeBytes data = [] := by
  rw [bitsetEncodeBytes]
  split_ifs with h0 h1 hb
  · rfl
  · rfl
  · obtain ⟨b, rfl⟩ := List.length_eq_one_iff.mp h1
    simp only [List.filter_cons, List.filter_nil] at hz
    simp only [List.getElem_cons_zero] at hb
    simp [hb] at hz
  · simp only [nonZeroLoop_eq]
    rw [if_pos (by rw [hz]; rfl)]


/-! ## The decoder on an encoding -/

theorem take_append_replicate_succ {x : List UInt8} {i : Nat} (h : x.getD i 0 = 0) :
    x.take i ++ List.replicate (x.length - i) 0 =
      x.take (i + 1) ++ List.replicate (x.length - (i + 1)) 0 := by
  by_cases hi : i < x.length
  · have hx : x[i] = 0 := by rwa [List.getD_eq_getElem _ _ hi] at h
    rw [List.take_add_one, List.getElem?_eq_getElem hi, hx,
      show x.length - i = x.length - (i + 1) + 1 by omega, List.replicate_succ]
    simp
  · rw [List.take_of_length_le (by omega), List.take_of_length_le (by omega),
      show x.length - i = 0 by omega, show x.length - (i + 1) = 0 by omega]

theorem set_take_append_replicate {x : List UInt8} {i : Nat} (hi : i < x.length) :
    (x.take i ++ List.replicate (x.length - i) 0).set i x[i] =
      x.take (i + 1) ++ List.replicate (x.length - (i + 1)) 0 := by
  have hlen : (x.take i).length = i := by rw [List.length_take]; omega
  rw [List.set_append, if_neg (by omega), hlen, Nat.sub_self,
    show x.length - i = x.length - (i + 1) + 1 by omega, List.replicate_succ, List.set_cons_zero,
    List.take_add_one, List.getElem?_eq_getElem hi, Option.toList_some, List.append_assoc,
    List.singleton_append]

theorem length_filter_take_succ (x : List UInt8) (i : Nat) :
    ((x.take (i + 1)).filter (· ≠ 0)).length =
      ((x.take i).filter (· ≠ 0)).length + if x.getD i 0 ≠ 0 then 1 else 0 := by
  rw [List.take_add_one, List.filter_append, List.length_append]
  by_cases hi : i < x.length
  · rw [List.getElem?_eq_getElem hi, List.getD_eq_getElem _ _ hi]
    by_cases hx : x[i] = 0 <;> simp [hx]
  · rw [List.getElem?_eq_none (by omega), List.getD_eq_default _ _ (by omega)]
    simp

/-- The non-zero byte at `i` is the one of `nonZeroBytes` after those before `i`. -/
theorem getElem?_filter_take {x : List UInt8} {i : Nat} (hi : i < x.length) (h : x[i] ≠ 0) :
    (x.filter (· ≠ 0))[((x.take i).filter (· ≠ 0)).length]? = some x[i] := by
  have hx : x.take i ++ x[i] :: x.drop (i + 1) = x := by
    rw [← List.drop_eq_getElem_cons hi, List.take_append_drop]
  calc (x.filter (· ≠ 0))[((x.take i).filter (· ≠ 0)).length]?
      = ((x.take i ++ x[i] :: x.drop (i + 1)).filter (· ≠ 0))[((x.take i).filter (· ≠ 0)).length]? := by
        rw [hx]
    _ = some x[i] := by
        rw [List.filter_append, List.filter_cons_of_pos (by simpa using h),
          List.getElem?_append_right (le_refl _), Nat.sub_self]
        rfl

/-- **The distribution loop on an encoding.** With the bitset of `x` and its
non-zero bytes after `pre` in the input, the loop fills in `x` from index `i`
on: `decomp` holds the first `i` bytes of `x` and zeros, and the pointer
stands after the non-zero bytes among them. -/
theorem distributeLoop_spec {x bs : List UInt8} (pre rest : List UInt8)
    (hbit : ∀ j, bitAt bs j = decide (x.getD j 0 ≠ 0)) (hlen : x.length ≤ 8 * bs.length) :
    ∀ m i, i + m = 8 * bs.length →
      distributeLoop (pre ++ x.filter (· ≠ 0) ++ rest) bs m i
          (x.take i ++ List.replicate (x.length - i) 0) (pre.length + ((x.take i).filter (· ≠ 0)).length) =
        .ok (x, pre.length + (x.filter (· ≠ 0)).length) := by
  intro m
  induction m with
  | zero =>
    intro i hi
    rw [List.take_of_length_le (by omega), show x.length - i = 0 by omega, List.replicate_zero,
      List.append_nil]
    rfl
  | succ m ih =>
    intro i hi
    have hb : i / 8 < bs.length := by omega
    have hbyte := hbit i
    rw [bitAt, List.getD_eq_getElem _ _ hb] at hbyte
    rw [distributeLoop, List.getElem?_eq_getElem hb]
    dsimp only
    by_cases hx : x.getD i 0 = 0
    · -- a zero byte: its bit is clear and `decomp` keeps its zero
      rw [if_neg (by rw [and_mask_ne_zero, hbyte, hx]; decide), take_append_replicate_succ hx,
        show ((x.take i).filter (· ≠ 0)).length = ((x.take (i + 1)).filter (· ≠ 0)).length by
          rw [length_filter_take_succ, if_neg (not_not.mpr hx), Nat.add_zero]]
      exact ih (i + 1) (by omega)
    · -- a non-zero byte: the next byte of the input goes to index `i`
      have hi : i < x.length := by
        by_contra h
        exact hx (List.getD_eq_default _ _ (by omega))
      rw [List.getD_eq_getElem _ _ hi] at hx hbyte
      have hsucc := length_filter_take_succ x i
      rw [List.getD_eq_getElem _ _ hi, if_pos hx] at hsucc
      have hcount : ((x.take (i + 1)).filter (· ≠ 0)).length ≤ (x.filter (· ≠ 0)).length :=
        ((List.take_sublist _ _).filter _).length_le
      have hdata : (pre ++ x.filter (· ≠ 0) ++ rest)[pre.length + ((x.take i).filter (· ≠ 0)).length]? =
          some x[i] := by
        rw [List.append_assoc, List.getElem?_append_right (by omega), Nat.add_sub_cancel_left,
          List.getElem?_append_left (by omega), getElem?_filter_take hi hx]
      have hdec : i < (x.take i ++ List.replicate (x.length - i) 0).length := by
        simp only [List.length_append, List.length_take, List.length_replicate]
        omega
      rw [if_pos (by rw [and_mask_ne_zero, hbyte]; exact decide_eq_true hx),
        if_neg (by simp only [List.length_append]; omega), if_neg (by omega), hdata]
      dsimp only
      rw [if_neg hx, set_take_append_replicate hi, Nat.add_assoc, ← hsucc]
      exact ih (i + 1) (by omega)


/-- **The decoder reads an encoding back** at the string's length, whatever
bytes follow it, and stops right after it. The induction follows the
encoder's: the bitset is decoded from the same input by the hypothesis, and
the distribution loop fills in the string. -/
theorem decode_encode_append : ∀ x : List UInt8, x.filter (· ≠ 0) ≠ [] → ∀ rest : List UInt8,
    bitsetDecodePartialBytes (bitsetEncodeBytes x ++ rest) x.length =
      .ok (x, (bitsetEncodeBytes x).length) := by
  intro x
  induction x using bitsetEncodeBytes.induct with
  | case1 x h0 =>
    intro hz
    rw [List.length_eq_zero_iff.mp h0] at hz
    exact absurd rfl hz
  | case2 x _ h1 hb =>
    intro hz
    obtain ⟨b, rfl⟩ := List.length_eq_one_iff.mp h1
    simp only [List.getElem_cons_zero] at hb
    simp [hb] at hz
  | case3 x h0 h1 hb =>
    intro _ rest
    obtain ⟨b, rfl⟩ := List.length_eq_one_iff.mp h1
    simp only [List.getElem_cons_zero] at hb
    have henc : bitsetEncodeBytes [b] = [b] := by
      rw [bitsetEncodeBytes, dif_neg h0, dif_pos h1, List.getElem_cons_zero, if_neg hb]
    rw [henc, bitsetDecodePartialBytes]
    simp [hb]
  | case4 x h0 h1 r hr =>
    intro hz
    simp only [r, nonZeroLoop_eq] at hr
    exact absurd (List.length_eq_zero_iff.mp hr) hz
  | case5 x h0 h1 r _ ih =>
    intro hz rest
    simp only [r, nonZeroLoop_eq] at ih
    have hbits := ih (filter_nonZeroBitset_ne_nil hz) (x.filter (· ≠ 0) ++ rest)
    have hlen := length_nonZeroBitset x
    have hloop := distributeLoop_spec (bitsetEncodeBytes (nonZeroBitset x)) rest
      (bitAt_nonZeroBitset x) (by omega) (8 * (nonZeroBitset x).length) 0 (by omega)
    rw [List.take_zero, List.nil_append, Nat.sub_zero, List.filter_nil, List.length_nil,
      Nat.add_zero, List.append_assoc] at hloop
    rw [bitsetEncodeBytes_of_two_le (by omega) hz, List.append_assoc, bitsetDecodePartialBytes,
      if_neg (by omega)]
    dsimp only
    rw [if_neg (by simp only [List.length_append]; have := List.length_pos_iff.mpr hz; omega),
      if_neg h1, ← hlen, hbits]
    rw [List.length_append]
    exact hloop

/-! ## The decoder on any input -/

theorem distributeLoop_returns (data bs : List UInt8) :
    ∀ m i decomp ptr, i + m = 8 * bs.length → ptr ≤ data.length →
      Returns decomp.length data.length (distributeLoop data bs m i decomp ptr) := by
  intro m
  induction m with
  | zero =>
    intro i decomp ptr _ hptr
    exact ⟨rfl, hptr⟩
  | succ m ih =>
    intro i decomp ptr hi hptr
    have hb : i / 8 < bs.length := by omega
    rw [distributeLoop, List.getElem?_eq_getElem hb]
    dsimp only
    by_cases hbit : bs[i / 8] &&& mask i ≠ 0
    · rw [if_pos hbit]
      by_cases hp : ptr ≥ data.length
      · rw [if_pos hp]
        exact Err.noConfusion
      rw [if_neg hp]
      by_cases hd : i ≥ decomp.length
      · rw [if_pos hd]
        exact Err.noConfusion
      rw [if_neg hd, List.getElem?_eq_getElem (by omega)]
      dsimp only
      by_cases h0 : data[ptr] = 0
      · rw [if_pos h0]
        exact Err.noConfusion
      rw [if_neg h0]
      have h := ih (i + 1) (decomp.set i data[ptr]) (ptr + 1) (by omega) (by omega)
      rwa [List.length_set] at h
    · rw [if_neg hbit]
      exact ih (i + 1) decomp ptr (by omega) hptr

/-- **`bitsetDecodePartialBytes` never panics**: it gives back `target`
bytes and a pointer into the input, or one of its own errors. -/
theorem bitsetDecodePartialBytes_returns (data : List UInt8) (target : Nat) :
    Returns target data.length (bitsetDecodePartialBytes data target) := by
  induction target using bitsetDecodePartialBytes.induct data with
  | case1 =>
    rw [bitsetDecodePartialBytes, if_pos rfl]
    exact ⟨rfl, Nat.zero_le _⟩
  | case2 t ht h0 =>
    rw [bitsetDecodePartialBytes, if_neg ht]
    dsimp only
    rw [if_pos h0]
    exact ⟨List.length_replicate .., Nat.zero_le _⟩
  | case3 h0 hnone _ =>
    exact absurd hnone (by rw [List.getElem?_eq_getElem (by omega)]; simp)
  | case4 h0 b hb hne _ =>
    rw [bitsetDecodePartialBytes, if_neg (by decide)]
    dsimp only
    rw [if_neg h0, if_pos rfl, hb]
    dsimp only
    rw [if_pos hne]
    exact ⟨by simp, by omega⟩
  | case5 h0 b hb hne _ =>
    rw [bitsetDecodePartialBytes, if_neg (by decide)]
    dsimp only
    rw [if_neg h0, if_pos rfl, hb]
    dsimp only
    rw [if_neg hne]
    exact ⟨by simp, Nat.zero_le _⟩
  | case6 t ht h0 h1 ih =>
    rw [bitsetDecodePartialBytes, if_neg ht]
    dsimp only
    rw [if_neg h0, if_neg h1]
    revert ih
    cases bitsetDecodePartialBytes data ((t + 7) / 8) with
    | error e =>
      intro ih
      exact ih
    | ok r =>
      intro ih
      obtain ⟨bs, ptr⟩ := r
      have h := distributeLoop_returns data bs (8 * bs.length) 0 (List.replicate t 0) ptr
        (by omega) ih.2
      rwa [List.length_replicate] at h

/-! ## Compression and decompression -/

theorem eq_replicate_of_filter_eq_nil {d : List UInt8} (hz : d.filter (· ≠ 0) = []) :
    List.replicate d.length 0 = d := by
  rw [List.filter_eq_nil_iff] at hz
  exact (List.eq_replicate_iff.mpr ⟨rfl, fun b hb => by simpa using hz b hb⟩).symm

/-- `DecompressBytes(CompressBytes(d), len(d))` is `d`. -/
theorem DecompressBytes_CompressBytes (d : List UInt8) :
    DecompressBytes (CompressBytes d) d.length = .ok d := by
  unfold CompressBytes
  dsimp only
  split_ifs with hlt
  · -- the encoding is shorter, so it is decoded
    rw [DecompressBytes, if_neg (by omega), if_neg (by omega), bitsetDecodeBytes]
    by_cases hz : d.filter (· ≠ 0) = []
    · rw [bitsetEncodeBytes_of_filter_eq_nil hz] at hlt ⊢
      rw [bitsetDecodePartialBytes, if_neg (by simp at hlt; omega)]
      dsimp only
      rw [if_pos List.length_nil]
      simp [eq_replicate_of_filter_eq_nil hz, pure, Except.pure]
    · have h := decode_encode_append d hz []
      rw [List.append_nil] at h
      rw [h]
      simp [pure, Except.pure]
  · rw [DecompressBytes, if_neg (lt_irrefl _), if_pos rfl]

/-- On any input `DecompressBytes` gives `t` bytes or one of its own errors. -/
theorem DecompressBytes_returns (c : List UInt8) (t : Nat) :
    (∃ out, DecompressBytes c t = .ok out ∧ out.length = t) ∨
      ∃ e, DecompressBytes c t = .error e ∧ e ≠ .indexOutOfRange := by
  unfold DecompressBytes
  split_ifs with hgt heq
  · exact .inr ⟨_, rfl, Err.noConfusion⟩
  · exact .inl ⟨c, rfl, heq⟩
  · have h := bitsetDecodePartialBytes_returns c t
    unfold bitsetDecodeBytes
    revert h
    cases bitsetDecodePartialBytes c t with
    | error e =>
      intro h
      exact .inr ⟨e, rfl, h⟩
    | ok r =>
      obtain ⟨out, size⟩ := r
      intro h
      by_cases hs : size = c.length
      · exact .inl ⟨out, by simp [hs, pure, Except.pure], h.1⟩
      · exact .inr ⟨.unreferencedData, by simp [hs, throw, throwThe, MonadExceptOf.throw], Err.noConfusion⟩

theorem compress_round_trip_and_decompress_total :
    (∀ d : List UInt8, DecompressBytes (CompressBytes d) d.length = .ok d) ∧
      ∀ (c : List UInt8) (t : Nat), (∃ out, DecompressBytes c t = .ok out ∧ out.length = t) ∨
        ∃ e, DecompressBytes c t = .error e ∧ e ≠ .indexOutOfRange :=
  ⟨DecompressBytes_CompressBytes, DecompressBytes_returns⟩

end Xdchain.Bitutil.Compress
