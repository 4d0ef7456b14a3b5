import Mathlib.Data.List.Perm.Basic

/-! # Binary heaps over a list

Go's `container/heap` over a slice: `Push` appends and sifts the new element
up, `Pop` swaps the root with the last element, sifts the new root down over
the rest and takes the last element off, and `Init` sifts down every inner
node from the last one to the root. The order is a `less` function on the
elements, as a `heap.Interface`'s `Less(i, j)` reads the elements at two
indices.

Each sift loop runs on explicit fuel. Sifting up, the index falls with every
swap; sifting down, it rises and stays below the bound: the fuel `up` and
`down` give is the number of indices left, and more fuel changes nothing
(`upLoop_add_fuel`, `downLoop_add_fuel`). What a user of the heap needs here
is its multiset: each operation permutes its list, with the element it
pushes or pops added or taken away. -/

namespace Xdchain.Lib.Heap

variable {α : Type} (less : α → α → Bool)

/-- `h.Less(i, j)`; false outside the list, which no loop below reads. -/
def lessAt (h : List α) (i j : Nat) : Bool :=
  match h[i]?, h[j]? with
  | some x, some y => less x y
  | _, _ => false

/-- The loop of `up`, for at most `fuel` rounds. -/
def upLoop : Nat → List α → Nat → List α
  | 0, h, _ => h
  | fuel + 1, h, j =>
    let i := (j - 1) / 2
    if i = j ∨ lessAt less h j i = false then h else upLoop fuel (h.swap i j) i

def up (h : List α) (j : Nat) : List α := upLoop less (j + 1) h j

/-- The child of `i` that `down` compares `i` with: the right one where it
is less than the left. -/
def child (n : Nat) (h : List α) (i : Nat) : Nat :=
  let j1 := 2 * i + 1
  if j1 + 1 < n ∧ lessAt less h (j1 + 1) j1 = true then j1 + 1 else j1

/-- The loop of `down(h, i0, n)`, for at most `fuel` rounds. -/
def downLoop (n : Nat) : Nat → List α → Nat → List α
  | 0, h, _ => h
  | fuel + 1, h, i =>
    if n ≤ 2 * i + 1 then h
    else
      let j := child less n h i
      if lessAt less h j i = false then h else downLoop n fuel (h.swap i j) j

/-- `down(h, i0, n)`; its result, whether the element moved, is `downMoved`. -/
def down (h : List α) (i0 n : Nat) : List α := downLoop less n (n - i0) h i0

/-- The index the loop of `down(h, i0, n)` stops at. -/
def downLoopIndex (n : Nat) : Nat → List α → Nat → Nat
  | 0, _, i => i
  | fuel + 1, h, i =>
    if n ≤ 2 * i + 1 then i
    else
      let j := child less n h i
      if lessAt less h j i = false then i else downLoopIndex n fuel (h.swap i j) j

/-- The result of `down(h, i0, n)`: `i > i0`, whether the element moved. -/
def downMoved (h : List α) (i0 n : Nat) : Bool := decide (i0 < downLoopIndex less n (n - i0) h i0)

def push (h : List α) (x : α) : List α := up less (h ++ [x]) h.length

/-- `heap.Pop(h)`: the least element and the heap without it; `none` on an
empty heap, where Go's `Swap(0, -1)` panics. -/
def pop (h : List α) : Option (α × List α) :=
  let n := h.length - 1
  let h := down less (h.swap 0 n) 0 n
  h.getLast?.map fun x => (x, h.dropLast)

/-- `heap.Init(h)`: `down` from index `n/2 - 1` to `0`. -/
def init (h : List α) : List α :=
  let n := h.length
  (List.range (n / 2)).reverse.foldl (fun h i => down less h i n) h

/-- The list `heap.Remove(h, i)` pops its last element from: off the last
index, the last element is swapped in and sifted down, or up where `down`
did not move it. -/
def removeSift (h : List α) (i : Nat) : List α :=
  let n := h.length - 1
  if n ≠ i then
    let h := h.swap i n
    if downMoved less h i n then down less h i n else up less (down less h i n) i
  else h

/-- `heap.Remove(h, i)`: the element at `i` and the heap without it. -/
def remove (h : List α) (i : Nat) : Option (α × List α) :=
  let h := removeSift less h i
  h.getLast?.map fun x => (x, h.dropLast)

/-! ## Fuel -/

theorem child_bounds (n : Nat) (h : List α) (i : Nat) (hn : ¬ n ≤ 2 * i + 1) :
    i < child less n h i ∧ child less n h i < n := by
  dsimp only [child]
  split <;> omega

theorem upLoop_add_fuel (k : Nat) : ∀ (fuel : Nat) (h : List α) (j : Nat), j < fuel →
    upLoop less (fuel + k) h j = upLoop less fuel h j
  | 0, _, _, hj => absurd hj (Nat.not_lt_zero _)
  | fuel + 1, h, j, hj => by
    rw [Nat.add_right_comm]
    simp only [upLoop]
    split
    · rfl
    · -- a swap happens only off the root, where the parent index is smaller
      rename_i hstop
      have hi : (j - 1) / 2 < fuel := by omega
      exact upLoop_add_fuel k fuel _ _ hi

theorem downLoop_add_fuel (n k : Nat) : ∀ (fuel : Nat) (h : List α) (i : Nat), n - i ≤ fuel →
    downLoop less n (fuel + k) h i = downLoop less n fuel h i
  | 0, h, i, hi => by
    cases k with
    | zero => rfl
    | succ k =>
      have hn : n ≤ 2 * i + 1 := by omega
      simp [downLoop, hn]
  | fuel + 1, h, i, hi => by
    rw [Nat.add_right_comm]
    simp only [downLoop]
    split
    · rfl
    · rename_i hn
      split
      · rfl
      · -- the child index is above `i`, so fewer indices are left
        have hj := child_bounds less n h i hn
        exact downLoop_add_fuel n k fuel _ _ (by omega)

/-! ## What each operation keeps -/

theorem upLoop_perm : ∀ (fuel : Nat) (h : List α) (j : Nat), (upLoop less fuel h j).Perm h
  | 0, _, _ => .refl _
  | fuel + 1, h, j => by
    simp only [upLoop]
    split
    · exact .refl _
    · exact (upLoop_perm fuel _ _).trans (List.swap_perm h _ _)

theorem downLoop_perm (n : Nat) : ∀ (fuel : Nat) (h : List α) (i : Nat), (downLoop less n fuel h i).Perm h
  | 0, _, _ => .refl _
  | fuel + 1, h, i => by
    simp only [downLoop]
    split
    · exact .refl _
    · split
      · exact .refl _
      · exact (downLoop_perm n fuel _ _).trans (List.swap_perm h _ _)

theorem up_perm (h : List α) (j : Nat) : (up less h j).Perm h := upLoop_perm less _ h j

theorem down_perm (h : List α) (i0 n : Nat) : (down less h i0 n).Perm h := downLoop_perm less n _ h i0

theorem push_perm (h : List α) (x : α) : (push less h x).Perm (x :: h) :=
  (up_perm less _ _).trans (List.perm_append_singleton x h)

/-- The list `pop` takes its last element from: a permutation of the heap. -/
theorem pop_sifted_perm (h : List α) :
    (down less (h.swap 0 (h.length - 1)) 0 (h.length - 1)).Perm h :=
  (down_perm less _ 0 _).trans (List.swap_perm h _ _)

theorem pop_eq_none_iff (h : List α) : pop less h = none ↔ h = [] := by
  have hperm := pop_sifted_perm less h
  simp only [pop, Option.map_eq_none_iff, List.getLast?_eq_none_iff]
  constructor
  · intro he
    rw [he] at hperm
    exact hperm.symm.eq_nil
  · intro he
    subst he
    exact hperm.eq_nil

theorem pop_perm {h h' : List α} {x : α} (hp : pop less h = some (x, h')) : (x :: h').Perm h := by
  simp only [pop, Option.map_eq_some_iff, Prod.mk.injEq] at hp
  obtain ⟨y, hlast, rfl, rfl⟩ := hp
  obtain ⟨ys, hys⟩ := List.getLast?_eq_some_iff.mp hlast
  have hperm := pop_sifted_perm less h
  rw [hys] at hperm ⊢
  rw [List.dropLast_concat]
  exact (List.perm_append_singleton _ _).symm.trans hperm

theorem foldl_down_perm (n : Nat) : ∀ (is : List Nat) (h : List α),
    (is.foldl (fun h i => down less h i n) h).Perm h
  | [], _ => .refl _
  | i :: is, h => (foldl_down_perm n is _).trans (down_perm less h i n)

theorem init_perm (h : List α) : (init less h).Perm h := foldl_down_perm less _ _ h

theorem removeSift_perm (h : List α) (i : Nat) : (removeSift less h i).Perm h := by
  dsimp only [removeSift]
  split
  · have hswap := List.swap_perm h i (h.length - 1)
    split
    · exact (down_perm less _ i _).trans hswap
    · exact ((up_perm less _ i).trans (down_perm less _ i _)).trans hswap
  · exact .refl h

theorem remove_perm {h h' : List α} {i : Nat} {x : α} (hr : remove less h i = some (x, h')) :
    (x :: h').Perm h := by
  simp only [remove, Option.map_eq_some_iff, Prod.mk.injEq] at hr
  obtain ⟨y, hlast, rfl, rfl⟩ := hr
  obtain ⟨ys, hys⟩ := List.getLast?_eq_some_iff.mp hlast
  have hperm := removeSift_perm less h i
  rw [hys] at hperm ⊢
  rw [List.dropLast_concat]
  exact (List.perm_append_singleton _ _).symm.trans hperm

theorem length_push (h : List α) (x : α) : (push less h x).length = h.length + 1 :=
  (push_perm less h x).length_eq

theorem length_pop {h h' : List α} {x : α} (hp : pop less h = some (x, h')) : h'.length + 1 = h.length :=
  (pop_perm less hp).length_eq

end Xdchain.Lib.Heap
