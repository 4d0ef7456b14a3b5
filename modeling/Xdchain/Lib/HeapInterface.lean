import Xdchain.Lib.HeapOrder

/-! # `container/heap` over a `heap.Interface`

Go's `container/heap` works on any `heap.Interface`: it reads `Len` and
`Less(i, j)`, and changes the collection only through `Swap(i, j)`, `Push`
and `Pop`. Here an interface is a record of those five functions on a state
`σ`, and `up`, `down`, `Push`, `Pop` and `Remove` are the package's loops over
it, on the fuel of `Lib.Heap`.

A relation `S` between states and lists under which `Len`, `Less` and `Swap`
act on a state as on its list is `Sifts`: the sifts of related states and
lists are then related. Given what `Push` and `Pop` do to a related state,
the package's operations on states are those of `Lib.Heap` on lists
(`push_sim`, `pop_sim`, `remove_sim`), so every fact about the list heap holds
of the states, and any property that `S` carries is kept by the sifts. -/

namespace Xdchain.Lib.Heap

/-- `heap.Interface` on states `σ` holding elements `α`; `Pop` is `none`
where the implementation panics. -/
structure Interface (σ α : Type) where
  Len : σ → Nat
  Less : σ → Nat → Nat → Bool
  Swap : σ → Nat → Nat → σ
  Push : σ → α → σ
  Pop : σ → Option (σ × α)

namespace Interface

variable {σ α : Type} (I : Interface σ α)

/-- The loop of `up(h, j)`, for at most `fuel` rounds. -/
def upLoop : Nat → σ → Nat → σ
  | 0, h, _ => h
  | fuel + 1, h, j =>
    let i := (j - 1) / 2
    if i = j ∨ I.Less h j i = false then h else upLoop fuel (I.Swap h i j) i

def up (h : σ) (j : Nat) : σ := I.upLoop (j + 1) h j

/-- The child of `i` that `down` compares `i` with. -/
def child (n : Nat) (h : σ) (i : Nat) : Nat :=
  let j1 := 2 * i + 1
  if j1 + 1 < n ∧ I.Less h (j1 + 1) j1 = true then j1 + 1 else j1

/-- The loop of `down(h, i0, n)`, for at most `fuel` rounds, with the index
it stops at. -/
def downLoop (n : Nat) : Nat → σ → Nat → σ × Nat
  | 0, h, i => (h, i)
  | fuel + 1, h, i =>
    if n ≤ 2 * i + 1 then (h, i)
    else
      let j := I.child n h i
      if I.Less h j i = false then (h, i) else downLoop n fuel (I.Swap h i j) j

/-- `down(h, i0, n)`: the state, and `i > i0`, whether the element moved. -/
def down (h : σ) (i0 n : Nat) : σ × Bool :=
  let r := I.downLoop n (n - i0) h i0
  (r.1, decide (i0 < r.2))

def push (h : σ) (x : α) : σ :=
  let h := I.Push h x
  I.up h (I.Len h - 1)

/-- `heap.Pop(h)`; `none` on an empty heap, where `Swap(0, -1)` reads
index -1. -/
def pop (h : σ) : Option (σ × α) :=
  if I.Len h = 0 then none
  else
    let n := I.Len h - 1
    I.Pop (I.down (I.Swap h 0 n) 0 n).1

/-- The state `heap.Remove(h, i)` pops from: off the last index, the last
element is swapped in and sifted down, or up where `down` did not move it. -/
def removeSift (h : σ) (i : Nat) : σ :=
  let n := I.Len h - 1
  if n ≠ i then
    let r := I.down (I.Swap h i n) i n
    if r.2 then r.1 else I.up r.1 i
  else h

/-- `heap.Remove(h, i)`; `none` for an index past the elements, which `Swap`
would read. -/
def remove (h : σ) (i : Nat) : Option (σ × α) :=
  if i < I.Len h then I.Pop (I.removeSift h i) else none

/-! ## Simulating the list heap -/

variable (less : α → α → Bool)

/-- Under `S`, `Len`, `Less` and `Swap` act on a state as on its list. -/
structure Sifts (S : σ → List α → Prop) : Prop where
  len_eq : ∀ {h l}, S h l → I.Len h = l.length
  less_eq : ∀ {h l i j}, S h l → i < l.length → j < l.length → I.Less h i j = lessAt less l i j
  swap : ∀ {h l i j}, S h l → i < l.length → j < l.length → S (I.Swap h i j) (l.swap i j)

variable {I less} {S : σ → List α → Prop}

theorem Sifts.upLoop_sim (hs : Sifts I less S) : ∀ (fuel : Nat) {h : σ} {l : List α} {j : Nat},
    S h l → j < l.length → S (I.upLoop fuel h j) (Heap.upLoop less fuel l j)
  | 0, _, _, _, hr, _ => hr
  | fuel + 1, h, l, j, hr, hj => by
    have hi : (j - 1) / 2 < l.length := by omega
    simp only [Interface.upLoop, Heap.upLoop, hs.less_eq hr hj hi]
    split
    · exact hr
    · exact hs.upLoop_sim fuel (hs.swap hr hi hj) (by rw [List.length_swap]; exact hi)

theorem Sifts.up_sim (hs : Sifts I less S) {h : σ} {l : List α} {j : Nat} (hr : S h l) (hj : j < l.length) :
    S (I.up h j) (Heap.up less l j) :=
  hs.upLoop_sim (j + 1) hr hj

theorem Sifts.child_eq (hs : Sifts I less S) {h : σ} {l : List α} {n i : Nat} (hr : S h l) (hn : n ≤ l.length) :
    I.child n h i = Heap.child less n l i := by
  simp only [Interface.child, Heap.child]
  by_cases hright : 2 * i + 1 + 1 < n
  · rw [hs.less_eq hr (by omega) (by omega)]
  · simp [hright]

theorem Sifts.downLoop_sim (hs : Sifts I less S) {n : Nat} : ∀ (fuel : Nat) {h : σ} {l : List α} {i : Nat},
    S h l → n ≤ l.length →
      S (I.downLoop n fuel h i).1 (Heap.downLoop less n fuel l i) ∧
        (I.downLoop n fuel h i).2 = downLoopIndex less n fuel l i
  | 0, _, _, _, hr, _ => ⟨hr, rfl⟩
  | fuel + 1, h, l, i, hr, hn => by
    simp only [Interface.downLoop, Heap.downLoop, downLoopIndex]
    by_cases hleaf : n ≤ 2 * i + 1
    · simp only [if_pos hleaf, and_true]
      exact hr
    · -- the child is inside the first `n`, and so is `i`
      have hc := child_bounds less n l i hleaf
      simp only [if_neg hleaf, hs.child_eq hr hn, hs.less_eq hr (by omega : Heap.child less n l i < l.length)
        (by omega : i < l.length)]
      by_cases hstop : lessAt less l (Heap.child less n l i) i = false
      · simp only [if_pos hstop, and_true]
        exact hr
      · simp only [if_neg hstop]
        exact hs.downLoop_sim fuel (hs.swap hr (by omega) (by omega)) (by rw [List.length_swap]; exact hn)

theorem Sifts.down_sim (hs : Sifts I less S) {h : σ} {l : List α} (i0 n : Nat) (hr : S h l) (hn : n ≤ l.length) :
    S (I.down h i0 n).1 (Heap.down less l i0 n) ∧ (I.down h i0 n).2 = downMoved less l i0 n := by
  obtain ⟨hrel, hidx⟩ := hs.downLoop_sim (n - i0) (i := i0) hr hn
  exact ⟨hrel, by simp only [Interface.down, downMoved, hidx]⟩

/-- `heap.Push` on a state is `push` on its list, given that the interface's
`Push` appends. -/
theorem Sifts.push_sim (hs : Sifts I less S) {h : σ} {l : List α} {x : α}
    (hpush : S (I.Push h x) (l ++ [x])) : S (I.push h x) (Heap.push less l x) := by
  have hlen : I.Len (I.Push h x) - 1 = l.length := by
    rw [hs.len_eq hpush, List.length_append, List.length_singleton, Nat.add_sub_cancel]
  simp only [Interface.push, Heap.push, hlen]
  exact hs.up_sim hpush (by simp)

/-- A result read through `f` is related as the result was. -/
theorem option_rel_map {γ β : Type} {r : σ × α → β → Prop} {r' : γ → β → Prop} (f : σ × α → γ)
    {a : Option (σ × α)} {b : Option β} (h : Option.Rel r a b) (hf : ∀ x y, r x y → r' (f x) y) :
    Option.Rel r' (a.map f) b := by
  cases h with
  | none => exact .none
  | some hr => exact .some (hf _ _ hr)

/-- Results read through `f` and `g` are related as the results were. -/
theorem option_rel_map_both {γ δ ε ζ : Type} {r : γ → δ → Prop} {r' : ε → ζ → Prop} (f : γ → ε) (g : δ → ζ)
    {a : Option γ} {b : Option δ} (h : Option.Rel r a b) (hf : ∀ x y, r x y → r' (f x) (g y)) :
    Option.Rel r' (a.map f) (b.map g) := by
  cases h with
  | none => exact .none
  | some hr => exact .some (hf _ _ hr)

theorem option_rel_some {γ δ : Type} {r : γ → δ → Prop} {a : γ} {b : Option δ} (h : Option.Rel r (some a) b) :
    ∃ b', b = some b' ∧ r a b' := by
  cases h with
  | some hr => exact ⟨_, rfl, hr⟩

theorem option_rel_some_right {γ δ : Type} {r : γ → δ → Prop} {a : Option γ} {b : δ} (h : Option.Rel r a (some b)) :
    ∃ a', a = some a' ∧ r a' b := by
  cases h with
  | some hr => exact ⟨_, rfl, hr⟩

/-- What the interface's `Pop` must do: take off the last element. -/
def PopsLast (I : Interface σ α) (S : σ → List α → Prop) : Prop :=
  ∀ {h l}, S h l → (hl : l ≠ []) → ∃ h', I.Pop h = some (h', l.getLast hl) ∧ S h' l.dropLast

theorem popsLast_rel {h : σ} {l : List α} (hpop : PopsLast I S) (hr : S h l) (hl : l ≠ []) :
    Option.Rel (fun a b => a.2 = b.1 ∧ S a.1 b.2) (I.Pop h) (l.getLast?.map fun x => (x, l.dropLast)) := by
  obtain ⟨h', hp, hr'⟩ := hpop hr hl
  rw [hp, List.getLast?_eq_some_getLast hl, Option.map_some]
  exact .some ⟨rfl, hr'⟩

/-- `heap.Pop` on a state is `pop` on its list. -/
theorem Sifts.pop_sim (hs : Sifts I less S) (hpop : PopsLast I S) {h : σ} {l : List α} (hr : S h l) :
    Option.Rel (fun a b => a.2 = b.1 ∧ S a.1 b.2) (I.pop h) (Heap.pop less l) := by
  have hlen := hs.len_eq hr
  cases l with
  | nil =>
    simp only [Interface.pop, hlen, List.length_nil, if_true]
    exact .none
  | cons x xs =>
    have hlast : (x :: xs).length - 1 < (x :: xs).length := by simp
    -- the root swapped with the last element and sifted down over the rest
    obtain ⟨hd, -⟩ := hs.down_sim 0 ((x :: xs).length - 1) (hs.swap hr (show 0 < (x :: xs).length by simp) hlast)
      (by rw [List.length_swap]; omega)
    have hne : Heap.down less ((x :: xs).swap 0 ((x :: xs).length - 1)) 0 ((x :: xs).length - 1) ≠ [] := by
      apply List.ne_nil_of_length_pos
      rw [(down_perm less _ _ _).length_eq, List.length_swap]
      simp
    simp only [Interface.pop, hlen, List.length_cons, Nat.add_one_ne_zero, if_false, Heap.pop]
    exact popsLast_rel hpop hd hne

theorem Sifts.removeSift_sim (hs : Sifts I less S) {h : σ} {l : List α} {i : Nat} (hr : S h l) (hi : i < l.length) :
    S (I.removeSift h i) (Heap.removeSift less l i) := by
  have hlen := hs.len_eq hr
  simp only [Interface.removeSift, Heap.removeSift, hlen]
  split
  · have hn : l.length - 1 < l.length := by omega
    have hsw := hs.swap hr hi hn
    obtain ⟨hd, hmoved⟩ := hs.down_sim i (l.length - 1) hsw (by rw [List.length_swap]; omega)
    rw [hmoved]
    split
    · exact hd
    · exact hs.up_sim hd (by rw [(down_perm less _ _ _).length_eq, List.length_swap]; exact hi)
  · exact hr

/-- `heap.Remove` on a state is `remove` on its list, at every index of the
heap. -/
theorem Sifts.remove_sim (hs : Sifts I less S) (hpop : PopsLast I S) {h : σ} {l : List α} {i : Nat}
    (hr : S h l) (hi : i < l.length) :
    Option.Rel (fun a b => a.2 = b.1 ∧ S a.1 b.2) (I.remove h i) (Heap.remove less l i) := by
  have hne : Heap.removeSift less l i ≠ [] := by
    apply List.ne_nil_of_length_pos
    rw [(removeSift_perm less l i).length_eq]
    omega
  simp only [Interface.remove, hs.len_eq hr, if_pos hi, Heap.remove]
  exact popsLast_rel hpop (hs.removeSift_sim hr hi) hne

end Interface

end Xdchain.Lib.Heap
