import Mathlib.Data.List.Perm.Basic
import Mathlib.Order.Defs.Unbundled

/-! # Go's insertion sort over a comparator

`sort.Sort` with a `Less` comparator, as `insertionSort` of Go's `sort`
package runs it: each element in turn moves left past every element it is
less than. The sorted prefix is kept reversed, nearest element first, so one
pass is a walk down a list.

For any comparator the result is a permutation of the input. For a strict
total order on distinct elements it is strictly sorted, and it is the only
strictly sorted permutation, so that any other sorting algorithm gives the
same list (`eq_insertionSort`). -/

namespace Xdchain.Lib.InsertionSort

variable {α : Type} (lt : α → α → Bool)

/-- One pass: `x`, appended after the reversed sorted prefix, swaps with its
left neighbour while it is less than it. -/
def insertRev (x : α) : List α → List α
  | [] => [x]
  | y :: ys => if lt x y then y :: insertRev x ys else x :: y :: ys

/-- `insertionSort` over the whole slice. -/
def insertionSort (l : List α) : List α :=
  (l.foldl (fun acc x => insertRev lt x acc) []).reverse

theorem insertRev_perm (x : α) : ∀ r : List α, (insertRev lt x r).Perm (x :: r)
  | [] => List.Perm.refl _
  | y :: ys => by
    unfold insertRev
    split
    · exact ((insertRev_perm x ys).cons y).trans (List.Perm.swap x y ys)
    · exact List.Perm.refl _

theorem foldl_insertRev_perm : ∀ (l acc : List α),
    (l.foldl (fun acc x => insertRev lt x acc) acc).Perm (l.reverse ++ acc)
  | [], acc => List.Perm.refl _
  | x :: xs, acc => by
    rw [List.foldl_cons, List.reverse_cons, List.append_assoc, List.singleton_append]
    exact (foldl_insertRev_perm xs _).trans ((insertRev_perm lt x acc).append_left _)

/-- **The sort permutes its input**, whatever the comparator. -/
theorem insertionSort_perm (l : List α) : (insertionSort lt l).Perm l := by
  unfold insertionSort
  exact (List.reverse_perm _).trans ((foldl_insertRev_perm lt l []).trans (by simp))

section StrictTotal

variable [IsStrictTotalOrder α (fun a b => lt a b = true)]

/-- Inserting a new element keeps the reversed prefix strictly descending. -/
theorem insertRev_pairwise (x : α) :
    ∀ r : List α, x ∉ r → r.Pairwise (fun a b => lt b a = true) →
      (insertRev lt x r).Pairwise (fun a b => lt b a = true)
  | [], _, _ => List.pairwise_singleton _ x
  | y :: ys, hx, hr => by
    rw [List.mem_cons, not_or] at hx
    rw [List.pairwise_cons] at hr
    unfold insertRev
    split
    · next hxy =>
      -- `x` moves on past `y`, which stays above everything after it
      refine List.pairwise_cons.2 ⟨fun z hz => ?_, insertRev_pairwise x ys hx.2 hr.2⟩
      rcases List.mem_cons.1 ((insertRev_perm lt x ys).mem_iff.1 hz) with rfl | hz
      · exact hxy
      · exact hr.1 z hz
    · next hxy =>
      -- `x` stops: it is above `y`, so above everything after `y` too
      have hyx : lt y x = true := by
        rcases trichotomous (r := fun a b => lt a b = true) x y with h | h | h
        · exact absurd h hxy
        · exact absurd h hx.1
        · exact h
      refine List.pairwise_cons.2 ⟨fun z hz => ?_, List.pairwise_cons.2 hr⟩
      rcases List.mem_cons.1 hz with rfl | hz
      · exact hyx
      · exact IsTrans.trans (r := fun a b => lt a b = true) z y x (hr.1 z hz) hyx

theorem foldl_insertRev_pairwise : ∀ (l acc : List α), (l.reverse ++ acc).Nodup →
    acc.Pairwise (fun a b => lt b a = true) →
    (l.foldl (fun acc x => insertRev lt x acc) acc).Pairwise (fun a b => lt b a = true)
  | [], _, _, hacc => hacc
  | x :: xs, acc, hnd, hacc => by
    rw [List.reverse_cons, List.append_assoc, List.singleton_append] at hnd
    have hx : x ∉ acc := (List.nodup_cons.1 (List.nodup_append.1 hnd).2.1).1
    have hnd' : (xs.reverse ++ insertRev lt x acc).Nodup :=
      ((insertRev_perm lt x acc).append_left xs.reverse).nodup_iff.2 hnd
    exact foldl_insertRev_pairwise xs _ hnd' (insertRev_pairwise lt x acc hx hacc)

/-- **The sort of distinct elements is strictly sorted.** -/
theorem insertionSort_pairwise {l : List α} (hl : l.Nodup) :
    (insertionSort lt l).Pairwise (fun a b => lt a b = true) := by
  unfold insertionSort
  rw [List.pairwise_reverse]
  exact foldl_insertRev_pairwise lt l [] (by simpa using (List.reverse_perm l).nodup_iff.2 hl)
    List.Pairwise.nil

/-- **Any strictly sorted permutation is the sort**, so that the algorithm
`sort.Sort` runs does not matter for a strict total order. -/
theorem eq_insertionSort {l l' : List α} (hl : l.Nodup) (hperm : l'.Perm l)
    (hsorted : l'.Pairwise (fun a b => lt a b = true)) : l' = insertionSort lt l :=
  hperm.trans (insertionSort_perm lt l).symm |>.eq_of_pairwise
    (fun a b _ _ hab hba =>
      absurd (IsTrans.trans (r := fun a b => lt a b = true) a b a hab hba)
        (irrefl (r := fun a b => lt a b = true) a))
    hsorted (insertionSort_pairwise lt hl)

end StrictTotal

end Xdchain.Lib.InsertionSort
