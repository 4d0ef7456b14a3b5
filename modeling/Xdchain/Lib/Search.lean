import Mathlib.Tactic.Cases

/-! # Binary search

Go's `sort.Search(n, f)`: bisect `[0, n)` for the first index where `f`
holds, for an `f` that is false up to some index and true from there on.
Under that assumption the result is exactly that index (`search_spec`); the
first index whose revision id reaches a wanted one, in a list of revisions
sorted by id, is the case the state journal uses. -/

namespace Xdchain.Lib

def search (n : Nat) (f : Nat → Bool) : Nat := go 0 n
where
  go (i j : Nat) : Nat :=
    if i < j then
      let h := (i + j) / 2
      if !f h then go (h + 1) j else go i h
    else i
  termination_by j - i

section

variable {n : Nat} {f : Nat → Bool}

/-- The bisection keeps `f` false below `i` and true from `j` on. -/
theorem search_go_spec (hmono : ∀ a b, a ≤ b → b < n → f a = true → f b = true) (i j : Nat)
    (hij : i ≤ j) (hjn : j ≤ n) (hlow : ∀ k < i, f k = false)
    (hhigh : ∀ k, j ≤ k → k < n → f k = true) :
    i ≤ search.go f i j ∧ search.go f i j ≤ j ∧ (∀ k < search.go f i j, f k = false) ∧
      ∀ k, search.go f i j ≤ k → k < n → f k = true := by
  rw [search.go]
  split
  · rename_i hlt
    dsimp only
    split
    · -- `f` fails at the midpoint, and so everywhere below it
      rename_i hmid
      have hfalse : f ((i + j) / 2) = false := by simpa using hmid
      have hlow' : ∀ k < (i + j) / 2 + 1, f k = false := by
        intro k hk
        by_cases hki : k < i
        · exact hlow k hki
        · cases hfk : f k with
          | false => rfl
          | true =>
            have := hmono k ((i + j) / 2) (by omega) (by omega) hfk
            rw [hfalse] at this
            cases this
      obtain ⟨h1, h2, h3, h4⟩ := search_go_spec hmono ((i + j) / 2 + 1) j (by omega) hjn hlow' hhigh
      exact ⟨by omega, h2, h3, h4⟩
    · -- `f` holds at the midpoint, and so everywhere from it on
      rename_i hmid
      have htrue : f ((i + j) / 2) = true := by simpa using hmid
      obtain ⟨h1, h2, h3, h4⟩ := search_go_spec hmono i ((i + j) / 2) (by omega) (by omega) hlow
        (fun k hk hkn => hmono _ k hk hkn htrue)
      exact ⟨h1, by omega, h3, h4⟩
  · rename_i hge
    exact ⟨Nat.le_refl i, hij, hlow, fun k hk hkn => hhigh k (by omega) hkn⟩
termination_by j - i

/-- `sort.Search` finds where `f` turns true, `n` if it never does. -/
theorem search_spec (hmono : ∀ a b, a ≤ b → b < n → f a = true → f b = true) :
    search n f ≤ n ∧ (∀ k < search n f, f k = false) ∧
      ∀ k, search n f ≤ k → k < n → f k = true := by
  obtain ⟨-, h2, h3, h4⟩ := search_go_spec hmono 0 n (Nat.zero_le n) (Nat.le_refl n)
    (fun k hk => absurd hk (Nat.not_lt_zero k)) (fun k hk hkn => absurd hkn (by omega))
  exact ⟨h2, h3, h4⟩

end

end Xdchain.Lib
