import Mathlib.Data.List.Sort

/-! # Stable insertion by a key

A list kept sorted by a key, each new element inserted after every element
whose key is not above its own (`List.orderedInsert` with the strict order
of keys). Inserting the elements of a list one by one sorts it stably:
elements of equal key stay in the order they came. Cutting the list to its
first `m` elements before or after an insertion gives the same first `m`,
which is what a bounded list of the `m` smallest relies on. -/

namespace Xdchain.Lib.KeyedInsert

variable {α κ : Type} [LinearOrder κ] (key : α → κ)

/-- The elements of `l` inserted one by one, first to last. -/
def sortByKey (l : List α) : List α :=
  l.foldl (fun acc x => acc.orderedInsert (fun a b => key a < key b) x) []

theorem orderedInsert_sorted {l : List α} (hs : l.Pairwise (fun a b => key a ≤ key b)) (x : α) :
    (l.orderedInsert (fun a b => key a < key b) x).Pairwise (fun a b => key a ≤ key b) := by
  induction l with
  | nil => simp
  | cons y ys ih =>
    have hy := List.pairwise_cons.1 hs
    rw [List.orderedInsert_cons]
    split
    · -- `x` goes first: below `y`, so below the rest
      rename_i hlt
      refine List.Pairwise.cons (fun z hz => ?_) hs
      rcases List.mem_cons.1 hz with rfl | hz
      · exact le_of_lt hlt
      · exact le_trans (le_of_lt hlt) (hy.1 z hz)
    · rename_i hge
      refine List.Pairwise.cons (fun z hz => ?_) (ih hy.2)
      rcases List.mem_cons.1 ((List.perm_orderedInsert _ x ys).mem_iff.1 hz) with rfl | hz
      · exact not_lt.1 hge
      · exact hy.1 z hz

/-- Elements of one key keep their order: a new element of that key comes
after the old ones. -/
theorem filter_orderedInsert {l : List α} (hs : l.Pairwise (fun a b => key a ≤ key b)) (x : α) (d : κ) :
    (l.orderedInsert (fun a b => key a < key b) x).filter (fun y => key y = d) =
      l.filter (fun y => key y = d) ++ [x].filter (fun y => key y = d) := by
  induction l with
  | nil => simp
  | cons y ys ih =>
    have hy := List.pairwise_cons.1 hs
    rw [List.orderedInsert_cons]
    split
    · -- every old element from `y` on is above `x`'s key
      rename_i hlt
      have habove : ∀ z ∈ y :: ys, key x < key z := fun z hz => by
        rcases List.mem_cons.1 hz with rfl | hz
        · exact hlt
        · exact lt_of_lt_of_le hlt (hy.1 z hz)
      by_cases hd : key x = d
      · have hnone : (y :: ys).filter (fun y => key y = d) = [] :=
          List.filter_eq_nil_iff.2 fun z hz => by
            have := habove z hz
            simp only [decide_eq_true_eq]
            intro hz'
            rw [hz', ← hd] at this
            exact lt_irrefl _ this
        rw [List.filter_cons_of_pos (by simpa using hd), hnone]
        simp [hd]
      · rw [List.filter_cons_of_neg (by simpa using hd)]
        simp [hd]
    · rw [List.filter_cons, List.filter_cons, ih hy.2]
      split <;> simp

/-- A list cut to `m` before an insertion agrees on its first `m` with the
whole list after it. -/
theorem take_orderedInsert_take (x : α) :
    ∀ (l : List α) (m : Nat), ((l.take m).orderedInsert (fun a b => key a < key b) x).take m =
      (l.orderedInsert (fun a b => key a < key b) x).take m
  | [], m => by simp
  | _ :: _, 0 => by simp
  | y :: ys, m + 1 => by
    rw [List.take_succ_cons, List.orderedInsert_cons, List.orderedInsert_cons]
    split
    · -- `x` comes first in both; after it, `y` and the cut rest
      cases m with
      | zero => simp
      | succ m => simp [List.take_take]
    · rw [List.take_succ_cons, List.take_succ_cons, take_orderedInsert_take x ys m]

theorem sortByKey_append (l : List α) (x : α) :
    sortByKey key (l ++ [x]) = (sortByKey key l).orderedInsert (fun a b => key a < key b) x := by
  simp [sortByKey, List.foldl_append]

/-- What the list built so far says of the elements inserted so far `p`. -/
def StableSorted (acc p : List α) : Prop :=
  acc.Pairwise (fun a b => key a ≤ key b) ∧ acc.Perm p ∧
    ∀ d, acc.filter (fun y => key y = d) = p.filter (fun y => key y = d)

theorem stableSorted_orderedInsert {acc p : List α} (h : StableSorted key acc p) (x : α) :
    StableSorted key (acc.orderedInsert (fun a b => key a < key b) x) (p ++ [x]) := by
  obtain ⟨hs, hp, hf⟩ := h
  refine ⟨orderedInsert_sorted key hs x, ?_, fun d => ?_⟩
  · exact (List.perm_orderedInsert _ x _).trans ((hp.cons x).trans (List.perm_append_singleton x p).symm)
  · rw [filter_orderedInsert key hs x d, hf d, List.filter_append]

theorem stableSorted_foldl : ∀ (l : List α) {acc p : List α}, StableSorted key acc p →
    StableSorted key (l.foldl (fun acc x => acc.orderedInsert (fun a b => key a < key b) x) acc) (p ++ l)
  | [], _, _, h => by simpa using h
  | x :: l, _, p, h => by
    rw [List.foldl_cons, show p ++ x :: l = (p ++ [x]) ++ l by simp]
    exact stableSorted_foldl l (stableSorted_orderedInsert key h x)

/-- **Inserting one by one sorts stably**: a sorted permutation in which
the elements of each key come in their order in the input. -/
theorem sortByKey_spec (l : List α) :
    (sortByKey key l).Pairwise (fun a b => key a ≤ key b) ∧ (sortByKey key l).Perm l ∧
      ∀ d, (sortByKey key l).filter (fun y => key y = d) = l.filter (fun y => key y = d) := by
  have hnil : StableSorted key [] [] := ⟨List.Pairwise.nil, List.Perm.refl _, fun _ => rfl⟩
  have h := stableSorted_foldl key l hnil
  rw [List.nil_append] at h
  exact h

/-- The insertion lands at `ix` when the keys before `ix` are not above the
new one and those from `ix` on are. -/
theorem orderedInsert_eq_take_drop_of_index {x : α} :
    ∀ {l : List α} {ix : Nat} (hix : ix ≤ l.length),
      (∀ k (hk : k < ix), ¬key x < key l[k]) →
      (∀ k (hk : k < l.length), ix ≤ k → key x < key l[k]) →
      l.orderedInsert (fun a b => key a < key b) x = l.take ix ++ x :: l.drop ix
  | [], ix, hix, _, _ => by
    obtain rfl : ix = 0 := by simpa using hix
    rfl
  | y :: ys, 0, _, _, hhigh => by
    have hfirst : key x < key y := hhigh 0 (by simp) (Nat.le_refl 0)
    rw [List.orderedInsert_cons, if_pos hfirst]
    rfl
  | y :: ys, ix + 1, hix, hlow, hhigh => by
    have hfirst : ¬key x < key y := hlow 0 (by omega)
    rw [List.orderedInsert_cons, if_neg hfirst,
      orderedInsert_eq_take_drop_of_index (show ix ≤ ys.length by simpa using hix)
        (fun k hk => hlow (k + 1) (by omega)) (fun k hk hle => hhigh (k + 1) (by simpa using hk) (by omega))]
    rfl

end Xdchain.Lib.KeyedInsert
