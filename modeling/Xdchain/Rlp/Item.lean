import Xdchain.Lib.BigEndian

/-! # RLP item trees and their canonical encoding

An RLP value is a byte string or a list of values. `Item.enc` is the
recursive canonical encoding of the RLP definition: a string is its bytes
behind a string header, except that a single byte below `0x80` stands for
itself, and a list is the concatenation of its elements' encodings behind a
list header. The header arithmetic of `rlp/encode.go` (`putint`, `intsize`,
`headsize`, `puthead`) is modelled here as the source computes it, and
shown to agree with the abstract `header` for every 64-bit size. -/

namespace Xdchain.Rlp
open Xdchain.Lib.BigEndian

/-- An RLP item: the values `DecodeBytes` produces into an `interface{}`,
`[]byte` for strings and `[]interface{}` for lists. -/
inductive Item where
  | str (b : List UInt8)
  | list (xs : List Item)
deriving Repr

mutual
def Item.decEq : (a b : Item) → Decidable (a = b)
  | .str x, .str y =>
    if h : x = y then isTrue (h ▸ rfl) else isFalse (fun e => h (Item.str.inj e))
  | .list xs, .list ys =>
    match Item.decEqList xs ys with
    | isTrue h => isTrue (h ▸ rfl)
    | isFalse h => isFalse (fun e => h (Item.list.inj e))
  | .str _, .list _ => isFalse nofun
  | .list _, .str _ => isFalse nofun
def Item.decEqList : (a b : List Item) → Decidable (a = b)
  | [], [] => isTrue rfl
  | x :: xs, y :: ys =>
    match Item.decEq x y, Item.decEqList xs ys with
    | isTrue h, isTrue h' => isTrue (h ▸ h' ▸ rfl)
    | isFalse h, _ => isFalse (fun e => h (List.cons.inj e).1)
    | _, isFalse h' => isFalse (fun e => h' (List.cons.inj e).2)
  | [], _ :: _ => isFalse nofun
  | _ :: _, [] => isFalse nofun
end

instance : DecidableEq Item := Item.decEq

/-- Induction over items with a hypothesis for every element of a list. -/
theorem Item.ind {P : Item → Prop} (str : ∀ b, P (.str b))
    (list : ∀ xs, (∀ x ∈ xs, P x) → P (.list xs)) : ∀ t, P t := by
  intro t
  induction t using Item.rec (motive_2 := fun xs => ∀ x ∈ xs, P x) with
  | str b => exact str b
  | list xs ih => exact list xs ih
  | nil => rename_i y hy; exact absurd hy List.not_mem_nil
  | cons x xs hx hxs =>
    rename_i y hy
    exact (List.mem_cons.mp hy).elim (fun e => e ▸ hx) (hxs y)

/-! ## The abstract encoding -/

/-- The header of a payload of `n` bytes: one byte `tag + n` below 56,
otherwise `tag + 55 + k` followed by the `k` big-endian bytes of `n`. -/
def header (tag : UInt8) (n : Nat) : List UInt8 :=
  if n < 56 then [tag + UInt8.ofNat n]
  else (tag + 55 + UInt8.ofNat (beBytes n).length) :: beBytes n

/-- A byte string's encoding: a lone byte below `0x80` is its own encoding. -/
def encString : List UInt8 → List UInt8
  | [c] => if c < 0x80 then [c] else header 0x80 1 ++ [c]
  | b => header 0x80 b.length ++ b

mutual
/-- The canonical RLP encoding of an item. -/
def Item.enc : Item → List UInt8
  | .str b => encString b
  | .list xs => header 0xC0 (Item.encAll xs).length ++ Item.encAll xs
/-- The concatenated encodings of a list's elements: the list's payload. -/
def Item.encAll : List Item → List UInt8
  | [] => []
  | x :: xs => x.enc ++ Item.encAll xs
end

/-- Items that Go can hold: every length fits the 64-bit sizes of the format. -/
def Item.Fits (t : Item) : Prop := t.enc.length < 2 ^ 64

instance (t : Item) : Decidable t.Fits := inferInstanceAs (Decidable (_ < _))

@[simp] theorem encAll_nil : Item.encAll [] = [] := rfl

@[simp] theorem encAll_cons (x : Item) (xs : List Item) :
    Item.encAll (x :: xs) = x.enc ++ Item.encAll xs := rfl

@[simp] theorem encAll_append (xs ys : List Item) :
    Item.encAll (xs ++ ys) = Item.encAll xs ++ Item.encAll ys := by
  induction xs with
  | nil => rfl
  | cons x xs ih => simp [ih]

@[simp] theorem enc_list (xs : List Item) :
    (Item.list xs).enc = header 0xC0 (Item.encAll xs).length ++ Item.encAll xs := rfl

@[simp] theorem enc_str (b : List UInt8) : (Item.str b).enc = encString b := rfl

theorem header_ne_nil (tag : UInt8) (n : Nat) : header tag n ≠ [] := by
  unfold header
  split <;> simp

theorem length_enc_pos (t : Item) : 0 < t.enc.length := by
  cases t with
  | str b =>
    simp only [enc_str, encString]
    split
    · split <;> simp
    · simp [List.length_pos_iff, header_ne_nil]
  | list xs => simp [List.length_pos_iff, header_ne_nil]

/-- Every element takes at least one byte of the payload. -/
theorem length_le_encAll (xs : List Item) : xs.length ≤ (Item.encAll xs).length := by
  induction xs with
  | nil => simp
  | cons x xs ih =>
    have := length_enc_pos x
    simp only [List.length_cons, encAll_cons, List.length_append]
    omega

example : (Item.list [.str [0x63, 0x61, 0x74], .str [0x05]]).enc =
    [0xC5, 0x83, 0x63, 0x61, 0x74, 0x05] := by decide

/-! ## Header arithmetic of `encode.go` -/

/-- `putint`: the big-endian bytes of `i`, using the least number of bytes
needed (one byte for zero), for `i` below `2 ^ 64`. -/
def putint (i : Nat) : List UInt8 :=
  if i < 2 ^ 8 then [UInt8.ofNat i]
  else if i < 2 ^ 16 then [UInt8.ofNat (i >>> 8), UInt8.ofNat i]
  else if i < 2 ^ 24 then [UInt8.ofNat (i >>> 16), UInt8.ofNat (i >>> 8), UInt8.ofNat i]
  else if i < 2 ^ 32 then
    [UInt8.ofNat (i >>> 24), UInt8.ofNat (i >>> 16), UInt8.ofNat (i >>> 8), UInt8.ofNat i]
  else if i < 2 ^ 40 then
    [UInt8.ofNat (i >>> 32), UInt8.ofNat (i >>> 24), UInt8.ofNat (i >>> 16),
      UInt8.ofNat (i >>> 8), UInt8.ofNat i]
  else if i < 2 ^ 48 then
    [UInt8.ofNat (i >>> 40), UInt8.ofNat (i >>> 32), UInt8.ofNat (i >>> 24),
      UInt8.ofNat (i >>> 16), UInt8.ofNat (i >>> 8), UInt8.ofNat i]
  else if i < 2 ^ 56 then
    [UInt8.ofNat (i >>> 48), UInt8.ofNat (i >>> 40), UInt8.ofNat (i >>> 32),
      UInt8.ofNat (i >>> 24), UInt8.ofNat (i >>> 16), UInt8.ofNat (i >>> 8), UInt8.ofNat i]
  else
    [UInt8.ofNat (i >>> 56), UInt8.ofNat (i >>> 48), UInt8.ofNat (i >>> 40),
      UInt8.ofNat (i >>> 32), UInt8.ofNat (i >>> 24), UInt8.ofNat (i >>> 16),
      UInt8.ofNat (i >>> 8), UInt8.ofNat i]

/-- `intsize`: the minimum number of bytes required to store `i`. -/
def intsize (i : Nat) : Nat :=
  if i >>> 8 = 0 then 1 else intsize (i >>> 8) + 1
termination_by i
decreasing_by rw [Nat.shiftRight_eq_div_pow] at *; omega

/-- `headsize`: the size of a list or string header for a payload of `size` bytes. -/
def headsize (size : Nat) : Nat :=
  if size < 56 then 1 else 1 + intsize size

/-- `puthead`: the header bytes written for a payload of `size` bytes. -/
def puthead (smalltag largetag : UInt8) (size : Nat) : List UInt8 :=
  if size < 56 then [smalltag + UInt8.ofNat size]
  else (largetag + UInt8.ofNat (putint size).length) :: putint size

/-- Below `256 ^ (k + 1)` and from `256 ^ k` on, the minimal bytes are the
right shifts of the number by `k`, `k - 1`, ..., `0` whole bytes. -/
theorem beBytes_eq_shifts (k : Nat) : ∀ i, 256 ^ k ≤ i → i < 256 ^ (k + 1) →
    beBytes i = (List.range (k + 1)).map fun j => UInt8.ofNat (i >>> (8 * (k - j))) := by
  induction k with
  | zero =>
    intro i hlo hhi
    simp only [pow_zero, zero_add, pow_one] at hlo hhi
    rw [beBytes_of_lt (by omega) hhi]
    simp
  | succ k ih =>
    intro i hlo hhi
    have hq : 256 ^ k ≤ i / 256 ∧ i / 256 < 256 ^ (k + 1) := by
      constructor
      · exact (Nat.le_div_iff_mul_le (by decide)).mpr (by rw [← pow_succ]; exact hlo)
      · exact (Nat.div_lt_iff_lt_mul (by decide)).mpr (by rw [← pow_succ]; exact hhi)
    have hi0 : i ≠ 0 := by have := Nat.one_le_pow (k + 1) 256 (by decide); omega
    rw [beBytes_of_ne_zero hi0, ih (i / 256) hq.1 hq.2, List.range_succ (n := k + 1),
      List.map_append]
    congr 1
    · -- every byte of the quotient is one more byte of shift on the number
      apply List.map_congr_left
      intro j hj
      have hjk : j ≤ k := Nat.lt_succ_iff.mp (List.mem_range.mp hj)
      simp only [Nat.shiftRight_eq_div_pow, Nat.div_div_eq_div_mul]
      congr 2
      rw [show 8 * (k + 1 - j) = 8 * (k - j) + 8 by omega, pow_add]; ring
    · simp

/-- `putint` writes the minimal big-endian bytes of every nonzero 64-bit number. -/
theorem putint_eq {i : Nat} (h0 : i ≠ 0) (h : i < 2 ^ 64) : putint i = beBytes i := by
  have hk : ∀ k, 256 ^ k ≤ i → i < 256 ^ (k + 1) →
      beBytes i = (List.range (k + 1)).map fun j => UInt8.ofNat (i >>> (8 * (k - j))) :=
    fun k => beBytes_eq_shifts k i
  unfold putint
  split_ifs with h1 h2 h3 h4 h5 h6 h7
  · rw [hk 0 (by simp; omega) (by simpa using h1)]; simp
  · rw [hk 1 (by simp; omega) (by simpa using h2)]; simp [List.range_succ]
  · rw [hk 2 (by simp; omega) (by simpa using h3)]; simp [List.range_succ]
  · rw [hk 3 (by simp; omega) (by simpa using h4)]; simp [List.range_succ]
  · rw [hk 4 (by simp; omega) (by simpa using h5)]; simp [List.range_succ]
  · rw [hk 5 (by simp; omega) (by simpa using h6)]; simp [List.range_succ]
  · rw [hk 6 (by simp; omega) (by simpa using h7)]; simp [List.range_succ]
  · rw [hk 7 (by simp; omega) (by simpa using h)]; simp [List.range_succ]

theorem intsize_eq (i : Nat) : intsize i = max 1 (beBytes i).length := by
  induction i using Nat.strongRecOn with
  | ind i ih =>
    rw [intsize]
    split
    · rename_i hs
      rw [Nat.shiftRight_eq_div_pow] at hs
      by_cases hi : i = 0
      · simp [hi]
      · rw [beBytes_of_lt hi (by simpa using hs)]; rfl
    · rename_i hs
      have h256 : (2 : Nat) ^ 8 = 256 := by norm_num
      rw [Nat.shiftRight_eq_div_pow, h256] at hs ⊢
      have hi : i ≠ 0 := by intro h; simp [h] at hs
      have hne : (beBytes (i / 256)).length ≠ 0 := by
        simpa [List.length_eq_zero_iff, beBytes_eq_nil_iff] using hs
      rw [ih (i / 256) (by omega), beBytes_of_ne_zero hi, List.length_append,
        List.length_singleton]
      omega

/-- For every 64-bit size, `puthead` writes the abstract header. -/
theorem puthead_eq_header (tag : UInt8) {size : Nat} (h : size < 2 ^ 64) :
    puthead tag (tag + 55) size = header tag size := by
  unfold puthead header
  split
  · rfl
  · rw [putint_eq (by omega) h]

theorem length_header (tag : UInt8) (n : Nat) : (header tag n).length = headsize n := by
  unfold header headsize
  split
  · rfl
  · rw [intsize_eq, List.length_cons, Nat.add_comm]
    have : (beBytes n).length ≠ 0 := by
      simpa [List.length_eq_zero_iff, beBytes_eq_nil_iff] using (by omega : n ≠ 0)
    omega

end Xdchain.Rlp
