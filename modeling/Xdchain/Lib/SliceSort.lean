import Mathlib.Data.List.Perm.Basic
import Mathlib.Order.Lattice

/-! # Sorting and deduplicating a slice in place

Two loops Go code runs over a slice. The exchange sort takes each position
`i` from the front and swaps into it every later element that is smaller;
the removal of adjacent duplicates walks a sorted slice and, after each
removal, looks at the same index again. The sort leaves a sorted
permutation of its input; the removal leaves the same elements, strictly
sorted. -/

namespace Xdchain.Lib.SliceSort

variable {α : Type} [LinearOrder α]

/-! ## The exchange sort -/

def exchange (l : List α) (i j : Nat) : List α :=
  if h : i < l.length ∧ j < l.length then
    if l[i] > l[j] then (l.set i l[j]).set j l[i] else l
  else l

/-- Pass `i` after its comparisons with `i + 1, …, i + m`. -/
def passUpTo (l : List α) (i : Nat) : Nat → List α
  | 0 => l
  | m + 1 => exchange (passUpTo l i m) i (i + m + 1)

def exchangePass (l : List α) (i : Nat) : List α := passUpTo l i (l.length - (i + 1))

/-- The first `i` passes of the outer loop. -/
def sortUpTo (l : List α) : Nat → List α
  | 0 => l
  | i + 1 => exchangePass (sortUpTo l i) i

def exchangeSort (l : List α) : List α := sortUpTo l l.length

theorem exchange_of_lt {l : List α} {i j : Nat} (hi : i < l.length) (hj : j < l.length) :
    exchange l i j = if l[i] > l[j] then (l.set i l[j]).set j l[i] else l := by
  simp [exchange, hi, hj]

@[simp] theorem length_exchange (l : List α) (i j : Nat) : (exchange l i j).length = l.length := by
  unfold exchange
  split
  · split <;> simp
  · rfl

theorem exchange_perm (l : List α) (i j : Nat) : (exchange l i j).Perm l := by
  unfold exchange
  split
  · rename_i h
    split
    · exact List.set_set_perm h.1 h.2
    · exact List.Perm.refl l
  · exact List.Perm.refl l

/-- A swap at `i` and a later `j` leaves the front before `i` alone. -/
theorem take_exchange (l : List α) {i j : Nat} (hij : i ≤ j) : (exchange l i j).take i = l.take i := by
  unfold exchange
  split
  · split
    · rw [List.take_set_of_le hij, List.take_set_of_le (Nat.le_refl i)]
    · rfl
  · rfl

theorem getElem_exchange_of_ne {l : List α} {i j k : Nat} (hi : i < l.length) (hj : j < l.length)
    (hk : k < l.length) (hk' : k < (exchange l i j).length) (hki : k ≠ i) (hkj : k ≠ j) :
    (exchange l i j)[k] = l[k] := by
  simp only [exchange_of_lt hi hj]
  split
  · simp [Ne.symm hki, Ne.symm hkj]
  · rfl

/-- After the comparison, position `i` holds the smaller of the two. -/
theorem exchange_getElem_le {l : List α} {i j : Nat} (hi : i < l.length) (hj : j < l.length)
    (hi' : i < (exchange l i j).length) (hj' : j < (exchange l i j).length) (hij : i ≠ j) :
    (exchange l i j)[i] ≤ l[i] ∧ (exchange l i j)[i] ≤ (exchange l i j)[j] := by
  simp only [exchange_of_lt hi hj]
  split
  · rename_i hgt
    simp only [List.getElem_set, hij, if_false, if_true, Ne.symm hij]
    exact ⟨le_of_lt hgt, le_of_lt hgt⟩
  · rename_i hle
    exact ⟨le_refl _, not_lt.1 hle⟩

/-- A permutation that keeps the front keeps the back up to order. -/
theorem drop_perm_of_take_eq {β : Type} {l l' : List β} (i : Nat) (hp : l'.Perm l) (ht : l'.take i = l.take i) :
    (l'.drop i).Perm (l.drop i) := by
  have hsplit : (l.take i ++ l'.drop i).Perm (l.take i ++ l.drop i) := by
    rw [← ht, List.take_append_drop, ht, List.take_append_drop]
    exact hp
  exact (List.perm_append_left_iff _).1 hsplit

@[simp] theorem length_passUpTo (l : List α) (i m : Nat) : (passUpTo l i m).length = l.length := by
  induction m with
  | zero => rfl
  | succ m ih => rw [passUpTo, length_exchange, ih]

theorem passUpTo_perm (l : List α) (i m : Nat) : (passUpTo l i m).Perm l := by
  induction m with
  | zero => exact List.Perm.refl l
  | succ m ih => exact (exchange_perm _ _ _).trans ih

theorem take_passUpTo (l : List α) (i m : Nat) : (passUpTo l i m).take i = l.take i := by
  induction m with
  | zero => rfl
  | succ m ih => rw [passUpTo, take_exchange _ (by omega), ih]

/-- **The running minimum**: after the comparisons with `i + 1, …, i + m`,
position `i` holds the least of positions `i, …, i + m`. -/
theorem passUpTo_min (l : List α) {i : Nat} :
    ∀ m, (hm : i + m < (passUpTo l i m).length) → ∀ t, (ht : t ≤ m) →
      (passUpTo l i m)[i] ≤ (passUpTo l i m)[i + t]
  | 0, _, t, ht => by
    obtain rfl : t = 0 := by omega
    exact le_refl _
  | m + 1, hm, t, ht => by
    have hlen := length_passUpTo l i m
    have hm' : i + (m + 1) < l.length := by simpa using hm
    obtain ⟨hdown, hpair⟩ := exchange_getElem_le (l := passUpTo l i m) (i := i) (j := i + m + 1)
      (by omega) (by omega) (by simp; omega) (by simp; omega) (by omega)
    simp only [passUpTo]
    rcases Nat.lt_or_ge t (m + 1) with hlt | hge
    · rcases Nat.eq_zero_or_pos t with rfl | htpos
      · exact le_refl _
      -- positions between `i` and the new one are untouched
      · rw [getElem_exchange_of_ne (l := passUpTo l i m) (i := i) (j := i + m + 1) (k := i + t)
          (by omega) (by omega) (by omega) (by simp; omega) (by omega) (by omega)]
        exact le_trans hdown (passUpTo_min l m (by simp; omega) t (by omega))
    · obtain rfl : t = m + 1 := by omega
      simpa only [Nat.add_assoc] using hpair

/-- The invariant of the outer loop after `i` passes: the front is sorted
and no element of it exceeds an element of the back. -/
def SortedFront (l : List α) (i : Nat) : Prop :=
  (l.take i).Pairwise (· ≤ ·) ∧ ∀ x ∈ l.take i, ∀ y ∈ l.drop i, x ≤ y

theorem exchangePass_sortedFront {l : List α} {i : Nat} (hi : i < l.length) (hs : SortedFront l i) :
    SortedFront (exchangePass l i) (i + 1) := by
  set l' := exchangePass l i with hl'
  have hlen : l'.length = l.length := length_passUpTo _ _ _
  have htake : l'.take i = l.take i := take_passUpTo _ _ _
  have hback : (l'.drop i).Perm (l.drop i) := drop_perm_of_take_eq i (passUpTo_perm _ _ _) htake
  -- the new element of the front is the least of the back
  have hmin : ∀ y ∈ l'.drop (i + 1), l'[i] ≤ y := by
    intro y hy
    obtain ⟨k, hk, rfl⟩ := List.mem_iff_getElem.1 hy
    rw [List.getElem_drop]
    have hk' : k + 1 ≤ l.length - (i + 1) := by simp at hk; omega
    have h := passUpTo_min l (i := i) (l.length - (i + 1)) (by simp; omega) (k + 1) hk'
    simp only [show i + 1 + k = i + (k + 1) by omega]
    exact h
  have hmem : l'[i] ∈ l.drop i :=
    hback.mem_iff.1 (List.mem_iff_getElem.2 ⟨0, by simp; omega, by simp⟩)
  have hfront : l'.take (i + 1) = l.take i ++ [l'[i]] := by
    rw [List.take_add_one, htake, List.getElem?_eq_getElem (by omega)]
    rfl
  refine ⟨?_, ?_⟩
  · rw [hfront, List.pairwise_append]
    exact ⟨hs.1, List.pairwise_singleton _ _, fun x hx y hy => by
      rw [List.mem_singleton.1 hy]
      exact hs.2 x hx _ hmem⟩
  · intro x hx y hy
    rw [hfront, List.mem_append, List.mem_singleton] at hx
    rcases hx with hx | rfl
    · have hy' : y ∈ l.drop i := by
        rw [← hback.mem_iff, List.drop_eq_getElem_cons (by omega : i < l'.length)]
        exact List.mem_cons_of_mem _ hy
      exact hs.2 x hx y hy'
    · exact hmin y hy

theorem length_sortUpTo (l : List α) (i : Nat) : (sortUpTo l i).length = l.length := by
  induction i with
  | zero => rfl
  | succ i ih => rw [sortUpTo, exchangePass, length_passUpTo, ih]

theorem sortUpTo_perm (l : List α) (i : Nat) : (sortUpTo l i).Perm l := by
  induction i with
  | zero => exact List.Perm.refl l
  | succ i ih => exact (passUpTo_perm _ _ _).trans ih

theorem sortUpTo_sortedFront (l : List α) : ∀ i, i ≤ l.length → SortedFront (sortUpTo l i) i
  | 0, _ => ⟨by simp, by simp⟩
  | i + 1, hi => exchangePass_sortedFront (by rw [length_sortUpTo]; omega) (sortUpTo_sortedFront l i (by omega))

/-- **The exchange sort sorts**: a sorted permutation of its input. -/
theorem exchangeSort_spec (l : List α) :
    (exchangeSort l).Pairwise (· ≤ ·) ∧ (exchangeSort l).Perm l := by
  have hs := (sortUpTo_sortedFront l l.length (Nat.le_refl _)).1
  rw [List.take_of_length_le (Nat.le_of_eq (length_sortUpTo l l.length))] at hs
  exact ⟨hs, sortUpTo_perm l l.length⟩

/-! ## Removing adjacent duplicates -/

/-- `for i := 1; i < len(s); i++ { if s[i] == s[i-1] { s = append(s[:i], s[i+1:]...); i-- } }`,
with `fuel` bounding the turns. -/
def dedupLoop : Nat → List α → Nat → List α
  | 0, l, _ => l
  | fuel + 1, l, i =>
    if h : i < l.length then
      have hprev : i - 1 < l.length := Nat.lt_of_le_of_lt (Nat.sub_le i 1) h
      if l[i] = l[i - 1] then dedupLoop fuel (l.eraseIdx i) i
      else dedupLoop fuel l (i + 1)
    else l

/-- The loop from index 1; each turn removes an element or moves on, so a
turn per element is enough. -/
def dedupSorted (l : List α) : List α := dedupLoop l.length l 1

/-- Removing an element equal to its left neighbour keeps the elements. -/
theorem mem_eraseIdx_of_eq_prev {β : Type} {l : List β} {i : Nat} (hi : i < l.length) (hpos : 1 ≤ i)
    (heq : l[i] = l[i - 1]) (x : β) : x ∈ l.eraseIdx i ↔ x ∈ l := by
  refine ⟨fun hx => (List.eraseIdx_sublist l i).subset hx, fun hx => ?_⟩
  obtain ⟨a, ha, rfl⟩ := List.mem_iff_getElem.1 hx
  rw [List.mem_eraseIdx_iff_getElem]
  by_cases hai : a = i
  · subst hai
    exact ⟨a - 1, by omega, by omega, heq.symm⟩
  · exact ⟨a, ha, hai, rfl⟩

theorem mem_dedupLoop : ∀ (fuel : Nat) (l : List α) (i : Nat), 1 ≤ i → ∀ x, x ∈ dedupLoop fuel l i ↔ x ∈ l
  | 0, _, _, _, _ => Iff.rfl
  | fuel + 1, l, i, hi, x => by
    rw [dedupLoop]
    split
    · rename_i hlt
      dsimp only
      split
      · rename_i heq
        rw [mem_dedupLoop fuel _ i hi x, mem_eraseIdx_of_eq_prev hlt hi heq]
      · exact mem_dedupLoop fuel l (i + 1) (by omega) x
    · exact Iff.rfl

/-- The front a turn has checked is strictly sorted; it grows by an element
larger than its last one, or the element after it is removed. -/
theorem dedupLoop_strict : ∀ (fuel : Nat) (l : List α) (i : Nat), l.length - i ≤ fuel → 1 ≤ i →
    l.Pairwise (· ≤ ·) → (l.take i).Pairwise (· < ·) → (dedupLoop fuel l i).Pairwise (· < ·)
  | 0, l, i, hfuel, _, _, hfront => by
    rw [dedupLoop, ← List.take_of_length_le (l := l) (i := i) (by omega)]
    exact hfront
  | fuel + 1, l, i, hfuel, hi, hsorted, hfront => by
    rw [dedupLoop]
    split
    · rename_i hlt
      dsimp only
      split
      · -- a duplicate: the front stays, the back loses one element
        have hlen : (l.eraseIdx i).length = l.length - 1 := List.length_eraseIdx_of_lt hlt
        refine dedupLoop_strict fuel _ i (by omega) hi (hsorted.sublist (List.eraseIdx_sublist l i)) ?_
        rw [List.take_eraseIdx_eq_take_of_le l i i (Nat.le_refl i)]
        exact hfront
      · -- a new element, larger than every one of the front
        rename_i hne
        have hprev : l[i - 1] < l[i] :=
          lt_of_le_of_ne (List.pairwise_iff_getElem.1 hsorted (i - 1) i (by omega) hlt (by omega)) (Ne.symm hne)
        have hbelow : ∀ x ∈ l.take i, x < l[i] := by
          intro x hx
          obtain ⟨a, ha, rfl⟩ := List.mem_iff_getElem.1 hx
          rw [List.getElem_take]
          have ha' : a < i := by simp at ha; omega
          rcases Nat.lt_or_ge a (i - 1) with hlt' | hge
          · exact lt_of_le_of_lt (List.pairwise_iff_getElem.1 hsorted a (i - 1) (by omega) (by omega) hlt') hprev
          · obtain rfl : a = i - 1 := by omega
            exact hprev
        refine dedupLoop_strict fuel l (i + 1) (by omega) (by omega) hsorted ?_
        rw [List.take_add_one, List.getElem?_eq_getElem hlt, Option.toList_some, List.pairwise_append]
        exact ⟨hfront, List.pairwise_singleton _ _, fun x hx y hy => by
          rw [List.mem_singleton.1 hy]
          exact hbelow x hx⟩
    · rename_i hge
      rw [← List.take_of_length_le (l := l) (i := i) (by omega)]
      exact hfront

/-- **A sorted slice loses exactly its repeats**: the same elements,
strictly sorted. -/
theorem dedupSorted_spec {l : List α} (hsorted : l.Pairwise (· ≤ ·)) :
    (dedupSorted l).Pairwise (· < ·) ∧ ∀ x, x ∈ dedupSorted l ↔ x ∈ l := by
  have hone : (l.take 1).Pairwise (· < ·) := by
    cases l with
    | nil => exact List.Pairwise.nil
    | cons a t => simp
  exact ⟨dedupLoop_strict l.length l 1 (by omega) (Nat.le_refl 1) hsorted hone, mem_dedupLoop l.length l 1 (Nat.le_refl 1)⟩

end Xdchain.Lib.SliceSort
