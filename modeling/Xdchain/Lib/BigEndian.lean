import Mathlib.Data.Nat.Digits.Lemmas

/-! # Minimal big-endian byte strings

The base-256 digits of a natural number, most significant first, with no
leading zero byte. Length prefixes and integer payloads of byte formats are
written this way. `beValue` reads any byte string back as a number, and the
two functions are inverse on byte strings that do not start with a zero.

Fixed-width fields, such as the `uint16` and `uint32` of a file index, are
the low bytes of a number padded to the width (`fixedBytes`); `beValue`
reads them back modulo the width's range. -/

namespace Xdchain.Lib.BigEndian

/-- The minimal big-endian bytes of `n`; empty for zero. -/
def beBytes (n : Nat) : List UInt8 := ((Nat.digits 256 n).map UInt8.ofNat).reverse

/-- The number a big-endian byte string denotes. -/
def beValue (l : List UInt8) : Nat := Nat.ofDigits 256 (l.reverse.map UInt8.toNat)

private theorem digits_lt {n d : Nat} (h : d ∈ Nat.digits 256 n) : d < 256 :=
  Nat.digits_lt_base (by decide) h

private theorem toNat_ofNat_digits (n : Nat) :
    (Nat.digits 256 n).map (fun d => (UInt8.ofNat d).toNat) = Nat.digits 256 n := by
  conv => rhs; rw [← List.map_id (Nat.digits 256 n)]
  apply List.map_congr_left
  intro d hd
  simpa using Nat.mod_eq_of_lt (digits_lt hd)

@[simp] theorem beValue_beBytes (n : Nat) : beValue (beBytes n) = n := by
  simp only [beValue, beBytes, List.reverse_reverse, List.map_map, Function.comp_def,
    toNat_ofNat_digits, Nat.ofDigits_digits]

@[simp] theorem beBytes_zero : beBytes 0 = [] := by simp [beBytes]

theorem beBytes_eq_nil_iff {n : Nat} : beBytes n = [] ↔ n = 0 := by
  simp [beBytes, Nat.digits_eq_nil_iff_eq_zero]

theorem length_beBytes_le_iff {n k : Nat} : (beBytes n).length ≤ k ↔ n < 256 ^ k := by
  simpa [beBytes] using Nat.digits_length_le_iff (b := 256) (k := k) (by decide) n

theorem beValue_append_singleton (l : List UInt8) (b : UInt8) :
    beValue (l ++ [b]) = b.toNat + 256 * beValue l := by
  simp [beValue, Nat.ofDigits_cons]

@[simp] theorem beValue_nil : beValue [] = 0 := rfl

theorem beValue_lt (l : List UInt8) : beValue l < 256 ^ l.length := by
  have h := Nat.ofDigits_lt_base_pow_length (b := 256) (l := l.reverse.map UInt8.toNat)
    (by decide) (by
      intro d hd
      obtain ⟨b, _, rfl⟩ := List.mem_map.mp hd
      exact UInt8.toNat_lt b)
  simpa [beValue] using h

/-- Dropping the last byte divides by the base; the last byte is the low digit. -/
theorem beBytes_of_ne_zero {n : Nat} (h : n ≠ 0) :
    beBytes n = beBytes (n / 256) ++ [UInt8.ofNat n] := by
  have hd : Nat.digits 256 n = (n % 256) :: Nat.digits 256 (n / 256) :=
    Nat.digits_def' (by decide) (Nat.pos_of_ne_zero h)
  simp only [beBytes, hd, List.map_cons, List.reverse_cons]
  congr 2
  apply UInt8.toNat_inj.mp
  simp

theorem beBytes_of_lt {n : Nat} (h0 : n ≠ 0) (h : n < 256) : beBytes n = [UInt8.ofNat n] := by
  rw [beBytes_of_ne_zero h0, Nat.div_eq_of_lt h]; rfl

/-- A minimal encoding never starts with a zero byte. -/
theorem head_beBytes_ne_zero (n : Nat) : (beBytes n).head? ≠ some 0 := by
  induction n using Nat.strongRecOn with
  | ind n ih =>
    by_cases hn : n = 0
    · simp [hn]
    by_cases hsmall : n < 256
    · rw [beBytes_of_lt hn hsmall]
      intro h
      apply hn
      have := congrArg UInt8.toNat (Option.some.inj h)
      simp only [UInt8.toNat_ofNat] at this
      simpa [Nat.mod_eq_of_lt hsmall] using this
    · -- the leading byte is the leading byte of the quotient's encoding
      have hq : n / 256 ≠ 0 := by omega
      have hne : beBytes (n / 256) ≠ [] := fun h => hq (beBytes_eq_nil_iff.mp h)
      rw [beBytes_of_ne_zero hn, List.head?_append_of_ne_nil _ hne]
      exact ih (n / 256) (by omega)

/-- Byte strings without a leading zero are minimal encodings of their value. -/
theorem beBytes_beValue {l : List UInt8} (h : l.head? ≠ some 0) : beBytes (beValue l) = l := by
  have hdig : Nat.digits 256 (beValue l) = l.reverse.map UInt8.toNat := by
    apply Nat.digits_ofDigits 256 (by decide)
    · intro d hd
      obtain ⟨b, _, rfl⟩ := List.mem_map.mp hd
      exact UInt8.toNat_lt b
    · intro hne
      cases l with
      | nil => simp at hne
      | cons b rest =>
        simp only [List.reverse_cons, List.map_append, List.map_cons, List.map_nil]
        intro hb
        apply h
        simp only [List.head?_cons, Option.some.injEq]
        exact UInt8.toNat_inj.mp (by simpa using hb)
  simp only [beBytes, hdig, List.map_map, Function.comp_def, UInt8.ofNat_toNat,
    List.map_id', List.reverse_reverse]

/-! ## Fixed width -/

/-- The low `w` bytes of `n`, most significant first: `PutUint16`,
`PutUint32` and their kin. -/
def fixedBytes : Nat → Nat → List UInt8
  | 0, _ => []
  | w + 1, n => UInt8.ofNat (n / 256 ^ w) :: fixedBytes w n

@[simp] theorem length_fixedBytes (w n : Nat) : (fixedBytes w n).length = w := by
  induction w with
  | zero => rfl
  | succ w ih => simp [fixedBytes, ih]

theorem beValue_cons (b : UInt8) (l : List UInt8) :
    beValue (b :: l) = b.toNat * 256 ^ l.length + beValue l := by
  simp only [beValue, List.reverse_cons, List.map_append, List.map_reverse, List.map_cons,
    List.map_nil, Nat.ofDigits_append, Nat.ofDigits_singleton, List.length_reverse,
    List.length_map]
  ring

@[simp] theorem beValue_fixedBytes (w n : Nat) : beValue (fixedBytes w n) = n % 256 ^ w := by
  induction w with
  | zero => simp [fixedBytes, Nat.mod_one]
  | succ w ih =>
    have hbyte : (UInt8.ofNat (n / 256 ^ w)).toNat = n / 256 ^ w % 256 := UInt8.toNat_ofNat'
    rw [fixedBytes, beValue_cons, ih, length_fixedBytes, hbyte, Nat.mod_pow_succ]
    ring

/-- Only the low `w` bytes of a number count. -/
theorem fixedBytes_mod (w n : Nat) : fixedBytes w (n % 256 ^ w) = fixedBytes w n := by
  induction w generalizing n with
  | zero => rfl
  | succ w ih =>
    have hhead : UInt8.ofNat (n % 256 ^ (w + 1) / 256 ^ w) = UInt8.ofNat (n / 256 ^ w) := by
      apply UInt8.toNat_inj.mp
      rw [UInt8.toNat_ofNat', UInt8.toNat_ofNat', pow_succ, Nat.mod_mul_right_div_self, Nat.mod_mod]
    -- the lower bytes see the number modulo `256 ^ w` either way
    have htail : fixedBytes w (n % 256 ^ (w + 1)) = fixedBytes w n := by
      rw [← ih (n % 256 ^ (w + 1)), Nat.mod_mod_of_dvd _ (pow_dvd_pow 256 (Nat.le_succ w)), ih]
    simp only [fixedBytes, hhead, htail]

/-- The low `a + b` bytes are the low `a` bytes of the quotient above the low `b` bytes. -/
theorem fixedBytes_add (a b n : Nat) :
    fixedBytes (a + b) n = fixedBytes a (n / 256 ^ b) ++ fixedBytes b n := by
  induction a with
  | zero => simp [fixedBytes]
  | succ a ih =>
    rw [show a + 1 + b = (a + b) + 1 by omega, fixedBytes, ih, fixedBytes, Nat.div_div_eq_div_mul,
      ← pow_add, Nat.add_comm b a, List.cons_append]

/-- A byte string is the fixed-width bytes of its value, at its own width. -/
theorem fixedBytes_beValue (l : List UInt8) : fixedBytes l.length (beValue l) = l := by
  induction l with
  | nil => rfl
  | cons x l ih =>
    have hlt := beValue_lt l
    have hpos : 0 < 256 ^ l.length := Nat.pow_pos (by decide)
    have hdiv : beValue (x :: l) / 256 ^ l.length = x.toNat := by
      rw [beValue_cons, Nat.add_comm, Nat.add_mul_div_right _ _ hpos, Nat.div_eq_of_lt hlt,
        Nat.zero_add]
    have hmod : beValue (x :: l) % 256 ^ l.length = beValue l := by
      rw [beValue_cons, Nat.mul_add_mod_self_right, Nat.mod_eq_of_lt hlt]
    rw [List.length_cons, fixedBytes, hdiv, UInt8.ofNat_toNat, ← fixedBytes_mod, hmod, ih]

/-- At its own width a number's fixed-width bytes are its minimal bytes. -/
theorem fixedBytes_length_beBytes (n : Nat) : fixedBytes (beBytes n).length n = beBytes n := by
  have h := fixedBytes_beValue (beBytes n)
  rwa [beValue_beBytes] at h

theorem length_beBytes_eq {n w : Nat} (hlo : 256 ^ w ≤ n) (hhi : n < 256 ^ (w + 1)) :
    (beBytes n).length = w + 1 := by
  have hle := length_beBytes_le_iff.mpr hhi
  have hgt : ¬ (beBytes n).length ≤ w := fun h => absurd (length_beBytes_le_iff.mp h) (by omega)
  omega

/-- Between byte strings of one length the leading byte decides. -/
theorem beValue_cons_lt_cons {x y : UInt8} {xs ys : List UInt8} (hlen : xs.length = ys.length)
    (hxy : x.toNat < y.toNat) : beValue (x :: xs) < beValue (y :: ys) := by
  have hX := beValue_lt xs
  have hstep : (x.toNat + 1) * 256 ^ ys.length ≤ y.toNat * 256 ^ ys.length := Nat.mul_le_mul_right _ hxy
  rw [Nat.add_mul, Nat.one_mul] at hstep
  rw [beValue_cons, beValue_cons, hlen]
  rw [hlen] at hX
  omega

/-- With equal leading bytes the rest decides. -/
theorem beValue_cons_lt_cons_iff (x : UInt8) {xs ys : List UInt8} (hlen : xs.length = ys.length) :
    beValue (x :: xs) < beValue (x :: ys) ↔ beValue xs < beValue ys := by
  rw [beValue_cons, beValue_cons, hlen]
  omega

end Xdchain.Lib.BigEndian
