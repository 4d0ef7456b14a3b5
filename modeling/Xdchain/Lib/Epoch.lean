import Mathlib.Data.Nat.Init

/-! # Blocks in epochs

With epochs of `e` blocks, the epoch of block `n` starts at `n - n % e`. The
next block is in the same epoch unless it starts a new one; over `uint64`
numbers, such a block also follows its predecessor without wrapping. -/

namespace Xdchain.Lib.Epoch

/-- A block that does not start an epoch is in the epoch of the one before. -/
theorem succ_sub_mod_of_ne_zero {a e : Nat} (h : (a + 1) % e ≠ 0) : (a + 1) - (a + 1) % e = a - a % e := by
  have hnd : ¬ e ∣ a + 1 := fun hd => h (Nat.mod_eq_zero_of_dvd hd)
  have hq : (a + 1) / e = a / e := by rw [Nat.succ_div, if_neg hnd, Nat.add_zero]
  have h1 := Nat.div_add_mod a e
  have h2 := Nat.div_add_mod (a + 1) e
  rw [hq] at h2
  omega

/-- The same over `uint64`: a block that does not start an epoch follows its
predecessor without wrapping, in the same epoch. -/
theorem uint64_succ_sub_mod_of_ne_zero {n e : UInt64} (h : (n + 1) % e ≠ 0) :
    n ≤ n + 1 ∧ (n + 1) - (n + 1) % e = n - n % e := by
  have hwrap : n.toNat + 1 < 2 ^ 64 := by
    refine Nat.lt_of_not_le fun hc => ?_
    have h0 : n + 1 = 0 := by
      apply UInt64.toNat.inj
      rw [UInt64.toNat_add]
      have := n.toNat_lt
      simp
      omega
    exact h (by rw [h0]; rfl)
  have hsucc : (n + 1).toNat = n.toNat + 1 := by
    rw [UInt64.toNat_add]
    simp
    omega
  have hm : (n.toNat + 1) % e.toNat ≠ 0 := by
    intro hm
    apply h
    apply UInt64.toNat.inj
    rw [UInt64.toNat_mod, hsucc, hm]
    rfl
  have hle : ∀ a : UInt64, a % e ≤ a := fun a =>
    UInt64.le_iff_toNat_le.2 (by rw [UInt64.toNat_mod]; exact Nat.mod_le _ _)
  refine ⟨UInt64.le_iff_toNat_le.2 (by rw [hsucc]; exact Nat.le_succ _), UInt64.toNat.inj ?_⟩
  rw [UInt64.toNat_sub_of_le _ _ (hle _), UInt64.toNat_sub_of_le _ _ (hle _),
    UInt64.toNat_mod, UInt64.toNat_mod, hsucc]
  exact succ_sub_mod_of_ne_zero hm

/-- The first block of an epoch is at most any block of it. -/
theorem uint64_sub_mod_le (n e : UInt64) : n - n % e ≤ n := by
  have hle : n % e ≤ n := UInt64.le_iff_toNat_le.2 (by rw [UInt64.toNat_mod]; exact Nat.mod_le _ _)
  rw [UInt64.le_iff_toNat_le, UInt64.toNat_sub_of_le _ _ hle]
  exact Nat.sub_le _ _

end Xdchain.Lib.Epoch
