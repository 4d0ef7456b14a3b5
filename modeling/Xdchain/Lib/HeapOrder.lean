import Mathlib.Logic.Equiv.Basic
import Mathlib.Order.RelClasses
import Xdchain.Lib.Heap

/-! # Heap order

What `container/heap` keeps of a heap: no element is less than its parent.
`OrderedFrom less h n lo` says so of the edges into the indices below `n`
whose parent is at `lo` or above, read through `lessAt`; a heap is
`Ordered`, every edge in order. `up` restores the order when only the edge
into one index may be wrong, `down` when only the edges out of one index may
be: their loop invariants are `UpOrder` and `DownOrder`, each with the
condition on the hole's grandparent that lets the hole move. From them
`push`, `pop`, `remove` and `init` keep a heap a heap, and the root of a heap
is its least element.

`less` is a strict weak order, as `sort.Interface` asks of `Less`:
asymmetric and order-connected, Mathlib's `Std.Asymm` and `IsOrderConnected`
of the relation `less a b = true`. -/

namespace Xdchain.Lib.Heap

variable {α : Type} (less : α → α → Bool)

/-- The edges into the indices below `n` whose parent is at `lo` or above are
in order: no child is less than its parent. -/
def OrderedFrom (h : List α) (n lo : Nat) : Prop :=
  ∀ c, 0 < c → c < n → lo ≤ (c - 1) / 2 → lessAt less h c ((c - 1) / 2) = false

/-- `h` is a heap. -/
def Ordered (h : List α) : Prop := OrderedFrom less h h.length 0

/-- What `up` needs at the hole `j`: every edge but the one into `j` is in
order, and the children of `j` are not less than its parent. -/
structure UpOrder (h : List α) (n j : Nat) : Prop where
  except : ∀ c, 0 < c → c < n → c ≠ j → lessAt less h c ((c - 1) / 2) = false
  grand : ∀ c, 0 < c → c < n → (c - 1) / 2 = j → 0 < j → lessAt less h c ((j - 1) / 2) = false

/-- What `down` needs at the hole `i`: every edge from `lo` on but those out of
`i` is in order, and the children of `i` are not less than its parent. -/
structure DownOrder (h : List α) (n lo i : Nat) : Prop where
  except : ∀ c, 0 < c → c < n → lo ≤ (c - 1) / 2 → (c - 1) / 2 ≠ i →
    lessAt less h c ((c - 1) / 2) = false
  grand : ∀ c, 0 < c → c < n → (c - 1) / 2 = i → 0 < i → lo ≤ (i - 1) / 2 →
    lessAt less h c ((i - 1) / 2) = false

/-! ## Indices -/

theorem lessAt_eq (h : List α) {i j : Nat} (hi : i < h.length) (hj : j < h.length) :
    lessAt less h i j = less h[i] h[j] := by
  simp [lessAt, List.getElem?_eq_getElem hi, List.getElem?_eq_getElem hj]

theorem lessAt_of_length_le (h : List α) {i j : Nat} (hi : h.length ≤ i ∨ h.length ≤ j) :
    lessAt less h i j = false := by
  unfold lessAt
  rcases hi with hi | hj
  · rw [List.getElem?_eq_none hi]
  · rw [List.getElem?_eq_none hj]
    split <;> simp_all

theorem getElem?_swap {h : List α} {i j : Nat} (hi : i < h.length) (hj : j < h.length) (k : Nat) :
    (h.swap i j)[k]? = h[Equiv.swap i j k]? := by
  by_cases hk : k < h.length
  · have hk' : k < (h.swap i j).length := by rw [List.length_swap]; exact hk
    rw [List.getElem?_eq_getElem hk', List.getElem_swap, Equiv.swap_apply_def]
    by_cases hki : k = i
    · simp [hki, hj]
    · by_cases hkj : k = j
      · subst hkj
        simp [hki, hi]
      · simp [hki, hkj]
  · have hki : k ≠ i := by omega
    have hkj : k ≠ j := by omega
    rw [List.getElem?_eq_none (by rw [List.length_swap]; omega),
      Equiv.swap_apply_of_ne_of_ne hki hkj, List.getElem?_eq_none (by omega)]

/-- A swap moves the comparison to the indices the two elements came from. -/
theorem lessAt_swap {h : List α} {i j : Nat} (hi : i < h.length) (hj : j < h.length) (a b : Nat) :
    lessAt less (h.swap i j) a b = lessAt less h (Equiv.swap i j a) (Equiv.swap i j b) := by
  simp only [lessAt, getElem?_swap hi hj]

theorem child_parent (n : Nat) (h : List α) (i : Nat) : (child less n h i - 1) / 2 = i := by
  dsimp only [child]
  split <;> omega

theorem length_downLoop (n fuel : Nat) (h : List α) (i : Nat) :
    (downLoop less n fuel h i).length = h.length :=
  (downLoop_perm less n fuel h i).length_eq

/-- A swap only happens between two indices of the list. -/
theorem lt_length_of_lessAt {h : List α} {i j : Nat} (hl : lessAt less h i j = true) :
    i < h.length ∧ j < h.length := by
  by_contra hout
  rw [lessAt_of_length_le less h (by omega)] at hl
  exact Bool.false_ne_true hl

/-- `up` only swaps an index with its parent, so nothing past the start moves. -/
theorem getElem?_upLoop_of_lt : ∀ (fuel : Nat) (h : List α) {j k : Nat}, j < k →
    (upLoop less fuel h j)[k]? = h[k]?
  | 0, _, _, _, _ => rfl
  | fuel + 1, h, j, k, hjk => by
    simp only [upLoop]
    split
    · rfl
    · rename_i hstop
      have hlen := lt_length_of_lessAt less (h := h) (i := j) (j := (j - 1) / 2) (by
        by_contra hl
        exact hstop (Or.inr (by simpa using hl)))
      rw [getElem?_upLoop_of_lt fuel _ (show (j - 1) / 2 < k by omega),
        getElem?_swap hlen.2 hlen.1, Equiv.swap_apply_of_ne_of_ne (by omega) (by omega)]

/-- `down(h, i, n)` only swaps indices below `n`. -/
theorem getElem?_downLoop_of_le (n : Nat) : ∀ (fuel : Nat) (h : List α) (i : Nat) {k : Nat},
    n ≤ k → (downLoop less n fuel h i)[k]? = h[k]?
  | 0, _, _, _, _ => rfl
  | fuel + 1, h, i, k, hk => by
    simp only [downLoop]
    split
    · rfl
    · rename_i hleaf
      split
      · rfl
      · rename_i hswap
        have hj := child_bounds less n h i hleaf
        have hlen := lt_length_of_lessAt less (Bool.not_eq_false _ ▸ hswap)
        rw [getElem?_downLoop_of_le n fuel _ _ hk, getElem?_swap hlen.2 hlen.1,
          Equiv.swap_apply_of_ne_of_ne (by omega) (by omega)]

theorem lessAt_append_singleton {h : List α} (x : α) {a b : Nat} (ha : a < h.length) (hb : b < h.length) :
    lessAt less (h ++ [x]) a b = lessAt less h a b := by
  simp only [lessAt, List.getElem?_append_left ha, List.getElem?_append_left hb]

theorem lessAt_dropLast {h : List α} {a b : Nat} (ha : a < h.length - 1) (hb : b < h.length - 1) :
    lessAt less h.dropLast a b = lessAt less h a b := by
  simp only [lessAt, List.getElem?_dropLast, if_pos ha, if_pos hb]

/-- A bound on the heap's length can be lowered. -/
theorem OrderedFrom.mono {h : List α} {n m lo : Nat} (o : OrderedFrom less h n lo) (hm : m ≤ n) :
    OrderedFrom less h m lo :=
  fun c hc0 hcm hlo => o c hc0 (by omega) hlo

theorem OrderedFrom.dropLast {h : List α} (o : OrderedFrom less h (h.length - 1) 0) :
    Ordered less h.dropLast := by
  intro c hc0 hcn _
  rw [List.length_dropLast] at hcn
  rw [lessAt_dropLast less hcn (by omega)]
  exact o c hc0 hcn (Nat.zero_le _)

/-- `pop` takes off the root. -/
theorem pop_cons (x : α) (xs : List α) :
    pop less (x :: xs) = some (x, (down less ((x :: xs).swap 0 xs.length) 0 xs.length).dropLast) := by
  have hswap := getElem?_swap (h := x :: xs) (i := 0) (j := xs.length) (by simp) (by simp) xs.length
  rw [Equiv.swap_apply_right] at hswap
  have hlen : (down less ((x :: xs).swap 0 xs.length) 0 xs.length).length = xs.length + 1 := by
    rw [down, length_downLoop, List.length_swap, List.length_cons]
  have hlast : (down less ((x :: xs).swap 0 xs.length) 0 xs.length).getLast? = some x := by
    rw [List.getLast?_eq_getElem?, hlen, Nat.add_sub_cancel, down,
      getElem?_downLoop_of_le less _ _ _ _ (Nat.le_refl _), hswap]
    rfl
  simp only [pop, List.length_cons, Nat.add_sub_cancel, hlast, Option.map_some]

theorem getElem?_removeSift {h : List α} {i : Nat} (hi : i < h.length) :
    (removeSift less h i)[h.length - 1]? = h[i]? := by
  have hs := getElem?_swap (h := h) hi (show h.length - 1 < h.length by omega) (h.length - 1)
  rw [Equiv.swap_apply_right] at hs
  dsimp only [removeSift]
  split
  · split
    · rw [down, getElem?_downLoop_of_le less _ _ _ _ (Nat.le_refl _), hs]
    · rw [up, getElem?_upLoop_of_lt less _ _ (by omega), down,
        getElem?_downLoop_of_le less _ _ _ _ (Nat.le_refl _), hs]
  · rename_i hni
    rw [show h.length - 1 = i by omega]

/-- `remove` takes off the element at `i`. -/
theorem remove_eq {h : List α} {i : Nat} (hi : i < h.length) :
    remove less h i = some (h[i], (removeSift less h i).dropLast) := by
  have hlen : (removeSift less h i).length = h.length := (removeSift_perm less h i).length_eq
  simp only [remove, List.getLast?_eq_getElem?, hlen, getElem?_removeSift less hi,
    List.getElem?_eq_getElem hi, Option.map_some]

variable {less} in
theorem UpOrder.ordered {h : List α} {n j : Nat} (o : UpOrder less h n j)
    (hstop : j = 0 ∨ lessAt less h j ((j - 1) / 2) = false) : OrderedFrom less h n 0 := by
  intro c hc0 hcn _
  by_cases hcj : c = j
  · subst hcj
    exact hstop.resolve_left (by omega)
  · exact o.except c hc0 hcn hcj

/-- Where `down` stops at once it changes nothing and does not move. -/
theorem downLoop_of_stop {n fuel : Nat} (hf : 0 < fuel) {h : List α} {i : Nat}
    (hstop : n ≤ 2 * i + 1 ∨ lessAt less h (child less n h i) i = false) :
    downLoop less n fuel h i = h ∧ downLoopIndex less n fuel h i = i := by
  cases fuel with
  | zero => omega
  | succ fuel =>
    simp only [downLoop, downLoopIndex]
    by_cases hleaf : n ≤ 2 * i + 1
    · simp [hleaf]
    · simp [hleaf, hstop.resolve_left hleaf]

variable {less} in
/-- At a leaf the hole has no edges out. -/
theorem DownOrder.ordered_leaf {h : List α} {n lo i : Nat} (o : DownOrder less h n lo i)
    (hleaf : n ≤ 2 * i + 1) : OrderedFrom less h n lo :=
  fun c hc0 hcn hlo => o.except c hc0 hcn hlo (by omega)

/-! ## Strict weak orders -/

section StrictWeak

variable {less}

section Asymm

variable [Std.Asymm fun a b : α => less a b = true]

theorem less_asymm {a b : α} (hab : less a b = true) : less b a = false := by
  simpa using Std.Asymm.asymm (r := fun a b : α => less a b = true) a b hab

theorem less_irrefl (a : α) : less a a = false := by
  cases hself : less a a
  · rfl
  · simpa [hself] using less_asymm hself

theorem lessAt_asymm {h : List α} {a b : Nat} (hab : lessAt less h a b = true) :
    lessAt less h b a = false := by
  obtain ⟨ha, hb⟩ := lt_length_of_lessAt less hab
  rw [lessAt_eq less h ha hb] at hab
  rw [lessAt_eq less h hb ha]
  exact less_asymm hab

theorem lessAt_self (h : List α) (a : Nat) : lessAt less h a a = false := by
  by_cases ha : a < h.length
  · rw [lessAt_eq less h ha ha]
    exact less_irrefl _
  · exact lessAt_of_length_le less h (by omega)

/-- The child `down` picks is not greater than the other one. -/
theorem lessAt_child {n : Nat} {h : List α} {i c : Nat} (hc0 : 0 < c) (hcn : c < n)
    (hpc : (c - 1) / 2 = i) : lessAt less h c (child less n h i) = false := by
  dsimp only [child]
  split
  · rename_i hright
    by_cases hcr : c = 2 * i + 1 + 1
    · rw [hcr]
      exact lessAt_self h _
    · obtain rfl : c = 2 * i + 1 := by omega
      exact lessAt_asymm hright.2
  · rename_i hleft
    by_cases hcl : c = 2 * i + 1
    · rw [hcl]
      exact lessAt_self h _
    · obtain rfl : c = 2 * i + 1 + 1 := by omega
      simpa [hcn] using hleft

end Asymm

section Connected

variable [IsOrderConnected α fun a b : α => less a b = true]

/-- Not less is transitive: from `a ≤ b` and `b ≤ c`, `a ≤ c`. -/
theorem not_less_trans {a b c : α} (hab : less b a = false) (hbc : less c b = false) :
    less c a = false := by
  have := IsOrderConnected.neg_trans (r := fun a b : α => less a b = true) (a := c) (b := b) (c := a)
    (by simp [hbc]) (by simp [hab])
  simpa using this

theorem lessAt_not_trans {h : List α} {a b c : Nat} (hb : b < h.length)
    (hab : lessAt less h b a = false) (hbc : lessAt less h c b = false) : lessAt less h c a = false := by
  by_cases hin : a < h.length ∧ c < h.length
  · rw [lessAt_eq less h hb hin.1] at hab
    rw [lessAt_eq less h hin.2 hb] at hbc
    rw [lessAt_eq less h hin.2 hin.1]
    exact not_less_trans hab hbc
  · exact lessAt_of_length_le less h (by omega)

/-- A heap is ready for `up` at any index. -/
theorem OrderedFrom.upOrder {h : List α} {n j : Nat} (o : OrderedFrom less h n 0) (hj : j < n)
    (hn : n ≤ h.length) : UpOrder less h n j where
  except c hc0 hcn _ := o c hc0 hcn (Nat.zero_le _)
  grand c hc0 hcn hpc hj0 := by
    have hchild := o c hc0 hcn (Nat.zero_le _)
    rw [hpc] at hchild
    exact lessAt_not_trans (by omega) (o j hj0 hj (Nat.zero_le _)) hchild

end Connected

variable [Std.Asymm fun a b : α => less a b = true] [IsOrderConnected α fun a b : α => less a b = true]

/-- From `a < b` and `b ≤ c`, `a ≤ c`. -/
theorem not_less_of_less_of_not_less {a b c : α} (hab : less a b = true) (hcb : less c b = false) :
    less c a = false := by
  cases hca : less c a
  · rfl
  · rcases @IsOrderConnected.conn α (fun a b : α => less a b = true) _ c b a hca with hcb' | hba
    · simp [hcb] at hcb'
    · simp [less_asymm hab] at hba

theorem lessAt_not_of_less_of_not {h : List α} {a b c : Nat} (hab : lessAt less h a b = true)
    (hcb : lessAt less h c b = false) : lessAt less h c a = false := by
  obtain ⟨ha, hb⟩ := lt_length_of_lessAt less hab
  by_cases hc : c < h.length
  · rw [lessAt_eq less h ha hb] at hab
    rw [lessAt_eq less h hc hb] at hcb
    rw [lessAt_eq less h hc ha]
    exact not_less_of_less_of_not_less hab hcb
  · exact lessAt_of_length_le less h (by omega)

/-- The root of a heap is not greater than any element. -/
theorem Ordered.root_le {h : List α} (o : Ordered less h) (k : Nat) : lessAt less h k 0 = false := by
  induction k using Nat.strongRecOn with
  | ind k ih =>
    by_cases hk0 : k = 0
    · subst hk0
      exact lessAt_self h 0
    · by_cases hk : k < h.length
      · -- up the parent chain: the edge into `k`, then the parent's bound
        exact lessAt_not_trans (by omega) (ih _ (by omega)) (o k (by omega) hk (Nat.zero_le _))
      · exact lessAt_of_length_le less h (by omega)

/-! ## Sifting up -/

theorem UpOrder.move {h : List α} {n j : Nat} (o : UpOrder less h n j) (hj0 : 0 < j)
    (hlt : lessAt less h j ((j - 1) / 2) = true) :
    UpOrder less (h.swap ((j - 1) / 2) j) n ((j - 1) / 2) := by
  obtain ⟨hjl, hil⟩ := lt_length_of_lessAt less hlt
  constructor
  · intro c hc0 hcn hci
    rw [lessAt_swap less hil hjl]
    by_cases hcj : c = j
    · -- the new edge into `j`: the old parent sits below the child that was less
      subst hcj
      rw [Equiv.swap_apply_right, Equiv.swap_apply_left]
      exact lessAt_asymm hlt
    · rw [Equiv.swap_apply_of_ne_of_ne hci hcj]
      by_cases hpj : (c - 1) / 2 = j
      · rw [hpj, Equiv.swap_apply_right]
        exact o.grand c hc0 hcn hpj hj0
      · by_cases hpi : (c - 1) / 2 = (j - 1) / 2
        · -- a sibling of `j`, not less than the old parent, which was above `h[j]`
          have hsib := o.except c hc0 hcn hcj
          rw [hpi] at hsib ⊢
          rw [Equiv.swap_apply_left]
          exact lessAt_not_of_less_of_not hlt hsib
        · rw [Equiv.swap_apply_of_ne_of_ne hpi hpj]
          exact o.except c hc0 hcn hcj
  · intro c hc0 hcn hpc hi0
    rw [lessAt_swap less hil hjl, Equiv.swap_apply_of_ne_of_ne (x := ((j - 1) / 2 - 1) / 2) (by omega) (by omega)]
    have hedge : lessAt less h ((j - 1) / 2) (((j - 1) / 2 - 1) / 2) = false :=
      o.except _ hi0 (by omega) (by omega)
    by_cases hcj : c = j
    · subst hcj
      rw [Equiv.swap_apply_right]
      exact hedge
    · have hchild := o.except c hc0 hcn hcj
      rw [hpc] at hchild
      rw [Equiv.swap_apply_of_ne_of_ne (by omega) hcj]
      exact lessAt_not_trans hil hedge hchild

theorem upLoop_ordered : ∀ (fuel : Nat) (h : List α) {n j : Nat}, j < fuel → UpOrder less h n j →
    OrderedFrom less (upLoop less fuel h j) n 0
  | 0, _, _, _, hj, _ => absurd hj (Nat.not_lt_zero _)
  | fuel + 1, h, n, j, hj, o => by
    simp only [upLoop]
    split
    · rename_i hstop
      exact o.ordered (hstop.imp (fun h => by omega) id)
    · rename_i hstop
      -- off the root and less than its parent: the hole moves up to the parent
      have hlt : lessAt less h j ((j - 1) / 2) = true := by simpa using (not_or.1 hstop).2
      exact upLoop_ordered fuel _ (by omega) (o.move (by omega) hlt)

theorem up_ordered {h : List α} {n j : Nat} (o : UpOrder less h n j) :
    OrderedFrom less (up less h j) n 0 :=
  upLoop_ordered (j + 1) h (Nat.lt_succ_self j) o

/-! ## Sifting down -/

omit [IsOrderConnected α fun a b : α => less a b = true] in
theorem DownOrder.move {h : List α} {n lo i : Nat} (o : DownOrder less h n lo i)
    (hleaf : ¬ n ≤ 2 * i + 1) (hlt : lessAt less h (child less n h i) i = true) :
    DownOrder less (h.swap i (child less n h i)) n lo (child less n h i) := by
  obtain ⟨hjl, hil⟩ := lt_length_of_lessAt less hlt
  obtain ⟨hij, hjn⟩ := child_bounds less n h i hleaf
  have hpj := child_parent less n h i
  have hmin : ∀ c, 0 < c → c < n → (c - 1) / 2 = i → lessAt less h c (child less n h i) = false :=
    fun c hc0 hcn hpc => lessAt_child hc0 hcn hpc
  generalize child less n h i = j at hjl hij hjn hpj hlt hmin ⊢
  constructor
  · intro c hc0 hcn hlo hpc
    rw [lessAt_swap less hil hjl]
    by_cases hcj : c = j
    · -- the new edge into `j`: the old parent sits below the child that was less
      subst hcj
      rw [hpj, Equiv.swap_apply_right, Equiv.swap_apply_left]
      exact lessAt_asymm hlt
    · by_cases hci : c = i
      · -- the edge into the hole, now holding the child
        subst hci
        rw [Equiv.swap_apply_left, Equiv.swap_apply_of_ne_of_ne (by omega) (by omega)]
        exact o.grand j (by omega) hjn hpj hc0 hlo
      · rw [Equiv.swap_apply_of_ne_of_ne hci hcj]
        by_cases hpi : (c - 1) / 2 = i
        · -- the other child, not less than the one picked
          rw [hpi, Equiv.swap_apply_left]
          exact hmin c hc0 hcn hpi
        · rw [Equiv.swap_apply_of_ne_of_ne hpi hpc]
          exact o.except c hc0 hcn hlo hpi
  · intro c hc0 hcn hpc hj0 hlo
    rw [hpj] at hlo ⊢
    rw [lessAt_swap less hil hjl, Equiv.swap_apply_of_ne_of_ne (by omega) (by omega),
      Equiv.swap_apply_left]
    have hchild := o.except c hc0 hcn (by omega) (by omega)
    rwa [hpc] at hchild

/-- The hole is not greater than the child `down` picks, so not greater than
either child. -/
theorem DownOrder.ordered_stop {h : List α} {n lo i : Nat} (o : DownOrder less h n lo i)
    (hn : n ≤ h.length) (hleaf : ¬ n ≤ 2 * i + 1) (hstop : lessAt less h (child less n h i) i = false) :
    OrderedFrom less h n lo := by
  intro c hc0 hcn hlo
  by_cases hpc : (c - 1) / 2 = i
  · have hj := child_bounds less n h i hleaf
    rw [hpc]
    exact lessAt_not_trans (by omega) hstop (lessAt_child hc0 hcn hpc)
  · exact o.except c hc0 hcn hlo hpc

theorem downLoop_ordered {n lo : Nat} : ∀ (fuel : Nat) (h : List α) (i : Nat), n ≤ h.length →
    n - i ≤ fuel → DownOrder less h n lo i → OrderedFrom less (downLoop less n fuel h i) n lo
  | 0, _, _, _, hf, o => o.ordered_leaf (by omega)
  | fuel + 1, h, i, hn, hf, o => by
    simp only [downLoop]
    split
    · rename_i hleaf
      exact o.ordered_leaf hleaf
    · rename_i hleaf
      split
      · rename_i hstop
        exact o.ordered_stop hn hleaf hstop
      · rename_i hswap
        -- the picked child is less than the hole: the hole moves down to it
        have hj := child_bounds less n h i hleaf
        exact downLoop_ordered fuel _ _ (by rw [List.length_swap]; exact hn) (by omega)
          (o.move hleaf (by simpa using hswap))

theorem down_ordered {h : List α} {n lo i : Nat} (hn : n ≤ h.length) (o : DownOrder less h n lo i) :
    OrderedFrom less (down less h i n) n lo :=
  downLoop_ordered (n - i) h i hn (Nat.le_refl _) o

/-! ## The operations keep a heap -/

theorem push_ordered {h : List α} (o : Ordered less h) (x : α) : Ordered less (push less h x) := by
  have hup : UpOrder less (h ++ [x]) (h.length + 1) h.length := by
    constructor
    · intro c hc0 hcn hcj
      -- below the new last index nothing changed
      rw [lessAt_append_singleton less x (by omega) (by omega)]
      exact o c hc0 (by omega) (Nat.zero_le _)
    · intro c hc0 hcn hpc _
      omega
  unfold Ordered
  rw [length_push less h x]
  exact up_ordered hup

theorem pop_ordered {h h' : List α} {x : α} (o : Ordered less h) (hp : pop less h = some (x, h')) :
    Ordered less h' := by
  cases h with
  | nil => exact absurd ((pop_eq_none_iff less []).2 rfl) (by rw [hp]; exact Option.some_ne_none _)
  | cons y ys =>
    rw [pop_cons] at hp
    obtain ⟨-, rfl⟩ := Prod.mk.inj (Option.some.inj hp)
    have hlen : ((y :: ys).swap 0 ys.length).length = ys.length + 1 := by simp
    -- the last element at the root, every other edge as it was
    have hdown : DownOrder less ((y :: ys).swap 0 ys.length) ys.length 0 0 := by
      constructor
      · intro c hc0 hcn _ hpc
        rw [lessAt_swap less (by simp) (by simp), Equiv.swap_apply_of_ne_of_ne (by omega) (by omega),
          Equiv.swap_apply_of_ne_of_ne hpc (by omega)]
        exact o c hc0 (by simp; omega) (Nat.zero_le _)
      · intro c _ _ _ h0
        omega
    apply OrderedFrom.dropLast
    rw [down, length_downLoop, hlen, Nat.add_sub_cancel]
    exact down_ordered (by omega) hdown

theorem removeSift_ordered {h : List α} {i : Nat} (o : Ordered less h) (hi : i < h.length) :
    OrderedFrom less (removeSift less h i) (h.length - 1) 0 := by
  dsimp only [removeSift]
  split
  · rename_i hni
    have hn : h.length - 1 < h.length := by omega
    have hlen : (h.swap i (h.length - 1)).length = h.length := List.length_swap
    -- the children of `i` are not less than the parent of `i`
    have hgrand : ∀ c, 0 < c → c < h.length → (c - 1) / 2 = i → 0 < i →
        lessAt less h c ((i - 1) / 2) = false := by
      intro c hc0 hcl hpc hi0
      have hchild := o c hc0 hcl (Nat.zero_le _)
      rw [hpc] at hchild
      exact lessAt_not_trans hi (o i hi0 hi (Nat.zero_le _)) hchild
    by_cases hup : 0 < i ∧ lessAt less (h.swap i (h.length - 1)) i ((i - 1) / 2) = true
    · -- the last element is less than the parent of `i`: `down` leaves it, `up` moves it
      have hx : lessAt less h (h.length - 1) ((i - 1) / 2) = true := by
        have := hup.2
        rwa [lessAt_swap less hi hn, Equiv.swap_apply_left,
          Equiv.swap_apply_of_ne_of_ne (by omega) (by omega)] at this
      have hlast : ∀ c, 0 < c → c < h.length - 1 → (c - 1) / 2 = i →
          lessAt less (h.swap i (h.length - 1)) c i = false := by
        intro c hc0 hcn hpc
        rw [lessAt_swap less hi hn, Equiv.swap_apply_of_ne_of_ne (by omega) (by omega),
          Equiv.swap_apply_left]
        exact lessAt_not_of_less_of_not hx (hgrand c hc0 (by omega) hpc hup.1)
      have hstay := downLoop_of_stop less (n := h.length - 1) (show 0 < h.length - 1 - i by omega)
        (h := h.swap i (h.length - 1)) (i := i) (by
          by_cases hleaf : h.length - 1 ≤ 2 * i + 1
          · exact Or.inl hleaf
          · have hj := child_bounds less _ (h.swap i (h.length - 1)) i hleaf
            exact Or.inr (hlast _ (by omega) hj.2 (child_parent less _ _ i)))
      have hmoved : downMoved less (h.swap i (h.length - 1)) i (h.length - 1) = false := by
        simp [downMoved, hstay.2]
      have hupo : UpOrder less (h.swap i (h.length - 1)) (h.length - 1) i := by
        constructor
        · intro c hc0 hcn hci
          by_cases hpc : (c - 1) / 2 = i
          · rw [hpc]
            exact hlast c hc0 hcn hpc
          · rw [lessAt_swap less hi hn, Equiv.swap_apply_of_ne_of_ne hci (by omega),
              Equiv.swap_apply_of_ne_of_ne hpc (by omega)]
            exact o c hc0 (by omega) (Nat.zero_le _)
        · intro c hc0 hcn hpc hi0
          rw [lessAt_swap less hi hn, Equiv.swap_apply_of_ne_of_ne (by omega) (by omega),
            Equiv.swap_apply_of_ne_of_ne (by omega) (by omega)]
          exact hgrand c hc0 (by omega) hpc hi0
      rw [hmoved, down, hstay.1]
      exact up_ordered hupo
    · -- the last element is not less than the parent of `i`: `down` sifts it, `up` finds a heap
      have hdown : DownOrder less (h.swap i (h.length - 1)) (h.length - 1) 0 i := by
        constructor
        · intro c hc0 hcn _ hpc
          by_cases hci : c = i
          · subst hci
            simpa [hc0] using hup
          · rw [lessAt_swap less hi hn, Equiv.swap_apply_of_ne_of_ne hci (by omega),
              Equiv.swap_apply_of_ne_of_ne hpc (by omega)]
            exact o c hc0 (by omega) (Nat.zero_le _)
        · intro c hc0 hcn hpc hi0 _
          rw [lessAt_swap less hi hn, Equiv.swap_apply_of_ne_of_ne (by omega) (by omega),
            Equiv.swap_apply_of_ne_of_ne (by omega) (by omega)]
          exact hgrand c hc0 (by omega) hpc hi0
      have hd := down_ordered (by rw [hlen]; omega) hdown
      split
      · exact hd
      · exact up_ordered (hd.upOrder (by omega) (by rw [down, length_downLoop, hlen]; omega))
  · exact OrderedFrom.mono less o (by omega)

theorem remove_ordered {h h' : List α} {i : Nat} {x : α} (o : Ordered less h) (hi : i < h.length)
    (hr : remove less h i = some (x, h')) : Ordered less h' := by
  rw [remove_eq less hi] at hr
  obtain ⟨-, rfl⟩ := Prod.mk.inj (Option.some.inj hr)
  apply OrderedFrom.dropLast
  rw [(removeSift_perm less h i).length_eq]
  exact removeSift_ordered o hi

theorem foldl_down_ordered (n : Nat) : ∀ (k : Nat) (h : List α), h.length = n → OrderedFrom less h n k →
    OrderedFrom less ((List.range k).reverse.foldl (fun h i => down less h i n) h) n 0
  | 0, _, _, o => o
  | k + 1, h, hn, o => by
    rw [List.range_succ, List.reverse_append, List.reverse_singleton, List.singleton_append,
      List.foldl_cons]
    apply foldl_down_ordered n k _ (by rw [down, length_downLoop, hn])
    -- `down` at `k` makes the subtree at `k` a heap, those below it being heaps
    apply down_ordered (by omega)
    constructor
    · intro c hc0 hcn hlo hpc
      exact o c hc0 hcn (by omega)
    · intro c _ _ _ hk0 hlo
      omega

theorem init_ordered (h : List α) : Ordered less (init less h) := by
  have hlen : (init less h).length = h.length := (init_perm less h).length_eq
  unfold Ordered
  rw [hlen]
  exact foldl_down_ordered h.length (h.length / 2) h rfl fun c hc0 hcn hlo => by omega

/-- The root of a heap is not greater than any other element. -/
theorem Ordered.head_le {x : α} {xs : List α} (o : Ordered less (x :: xs)) {y : α} (hy : y ∈ xs) :
    less y x = false := by
  obtain ⟨k, hk, rfl⟩ := List.getElem_of_mem hy
  have := o.root_le (k + 1)
  rwa [lessAt_eq less _ (by simp; omega) (by simp), List.getElem_cons_succ, List.getElem_cons_zero] at this

end StrictWeak


/-! ## Heaps of images

A heap over `less` pulled back along `f` is, read through `f`, a heap over
`less`: `lessAt` makes the same comparisons, so each operation commutes with
`List.map f`. With `f` the inclusion of a subtype this lets an order that is a
strict weak order only on the elements a heap holds use the lemmas above. -/

section Map

variable {β : Type} (f : β → α)

theorem lessAt_map (l : List β) (i j : Nat) :
    lessAt (fun a b => less (f a) (f b)) l i j = lessAt less (l.map f) i j := by
  simp only [lessAt, List.getElem?_map]
  cases l[i]? <;> cases l[j]? <;> rfl

theorem map_swap (l : List β) (i j : Nat) : (l.swap i j).map f = (l.map f).swap i j := by
  apply List.ext_getElem (by simp [List.length_swap])
  intro k _ _
  simp only [List.getElem_map, List.getElem_swap, List.length_map]
  split
  · rfl
  · split <;> rfl

theorem upLoop_map : ∀ (fuel : Nat) (l : List β) (j : Nat),
    (upLoop (fun a b => less (f a) (f b)) fuel l j).map f = upLoop less fuel (l.map f) j
  | 0, _, _ => rfl
  | fuel + 1, l, j => by
    simp only [upLoop, lessAt_map]
    by_cases hstop : (j - 1) / 2 = j ∨ lessAt less (l.map f) j ((j - 1) / 2) = false
    · rw [if_pos hstop, if_pos hstop]
    · rw [if_neg hstop, if_neg hstop, upLoop_map fuel, map_swap]

theorem child_map (n : Nat) (l : List β) (i : Nat) :
    child (fun a b => less (f a) (f b)) n l i = child less n (l.map f) i := by
  simp only [child, lessAt_map]

theorem downLoop_map (n : Nat) : ∀ (fuel : Nat) (l : List β) (i : Nat),
    (downLoop (fun a b => less (f a) (f b)) n fuel l i).map f = downLoop less n fuel (l.map f) i ∧
      downLoopIndex (fun a b => less (f a) (f b)) n fuel l i = downLoopIndex less n fuel (l.map f) i
  | 0, _, _ => ⟨rfl, rfl⟩
  | fuel + 1, l, i => by
    simp only [downLoop, downLoopIndex, child_map, lessAt_map]
    by_cases hleaf : n ≤ 2 * i + 1
    · simp [hleaf]
    · by_cases hstop : lessAt less (l.map f) (child less n (l.map f) i) i = false
      · simp [hleaf, hstop]
      · simp only [hleaf, hstop, if_false]
        have hrec := downLoop_map n fuel (l.swap i (child less n (l.map f) i)) (child less n (l.map f) i)
        rwa [map_swap] at hrec

theorem down_map (l : List β) (i0 n : Nat) :
    (down (fun a b => less (f a) (f b)) l i0 n).map f = down less (l.map f) i0 n :=
  (downLoop_map less f n (n - i0) l i0).1

theorem downMoved_map (l : List β) (i0 n : Nat) :
    downMoved (fun a b => less (f a) (f b)) l i0 n = downMoved less (l.map f) i0 n := by
  simp only [downMoved, (downLoop_map less f n (n - i0) l i0).2]

theorem up_map (l : List β) (j : Nat) :
    (up (fun a b => less (f a) (f b)) l j).map f = up less (l.map f) j :=
  upLoop_map less f (j + 1) l j

theorem push_map (l : List β) (x : β) :
    (push (fun a b => less (f a) (f b)) l x).map f = push less (l.map f) (f x) := by
  simp only [push, up_map, List.map_append, List.map_singleton, List.length_map]

theorem pop_map (l : List β) :
    (pop (fun a b => less (f a) (f b)) l).map (fun r => (f r.1, r.2.map f)) = pop less (l.map f) := by
  simp only [pop, List.length_map, ← map_swap, ← down_map, List.getLast?_map, Option.map_map,
    ← List.map_dropLast]
  rfl

theorem removeSift_map (l : List β) (i : Nat) :
    (removeSift (fun a b => less (f a) (f b)) l i).map f = removeSift less (l.map f) i := by
  simp only [removeSift, List.length_map, ← map_swap, ← downMoved_map, ← down_map, ← up_map]
  split_ifs <;> rfl

theorem remove_map (l : List β) (i : Nat) :
    (remove (fun a b => less (f a) (f b)) l i).map (fun r => (f r.1, r.2.map f)) = remove less (l.map f) i := by
  simp only [remove, ← removeSift_map, List.getLast?_map, Option.map_map, ← List.map_dropLast]
  rfl

theorem ordered_map_iff (l : List β) :
    Ordered (fun a b => less (f a) (f b)) l ↔ Ordered less (l.map f) := by
  simp only [Ordered, OrderedFrom, lessAt_map, List.length_map]

end Map

/-! ## Orders that are strict weak on the elements held -/

/-- `less` is a strict weak order on the elements `P` holds of. -/
structure StrictWeakOn (P : α → Prop) : Prop where
  asymm : ∀ a b, P a → P b → less a b = true → less b a = false
  conn : ∀ a b c, P a → P b → P c → less a c = true → less a b = true ∨ less b c = true

section StrictWeakOn

variable {less} {P : α → Prop}

theorem StrictWeakOn.asymm_subtype (hw : StrictWeakOn less P) :
    Std.Asymm fun a b : Subtype P => less a.1 b.1 = true where
  asymm a b hab := by simp [hw.asymm a.1 b.1 a.2 b.2 hab]

theorem StrictWeakOn.conn_subtype (hw : StrictWeakOn less P) :
    IsOrderConnected (Subtype P) fun a b => less a.1 b.1 = true where
  conn a b c hac := hw.conn a.1 b.1 c.1 a.2 b.2 c.2 hac

theorem push_ordered_on (hw : StrictWeakOn less P) {l : List α} (hl : ∀ y ∈ l, P y) {x : α} (hx : P x)
    (o : Ordered less l) : Ordered less (push less l x) := by
  have := hw.asymm_subtype
  have := hw.conn_subtype
  have hval : (l.attachWith P hl).map Subtype.val = l := by simp
  have o' : Ordered (fun a b : Subtype P => less a.1 b.1) (l.attachWith P hl) := by
    rw [ordered_map_iff, hval]
    exact o
  have hpush := (ordered_map_iff less Subtype.val _).1 (push_ordered o' ⟨x, hx⟩)
  rwa [push_map, hval] at hpush

theorem pop_ordered_on (hw : StrictWeakOn less P) {l l' : List α} (hl : ∀ y ∈ l, P y) {x : α}
    (o : Ordered less l) (hp : pop less l = some (x, l')) : Ordered less l' := by
  have := hw.asymm_subtype
  have := hw.conn_subtype
  have hval : (l.attachWith P hl).map Subtype.val = l := by simp
  have o' : Ordered (fun a b : Subtype P => less a.1 b.1) (l.attachWith P hl) := by
    rw [ordered_map_iff, hval]
    exact o
  have hmap := pop_map less Subtype.val (l.attachWith P hl)
  rw [hval, hp] at hmap
  -- the pop of the subtype heap is the pop read through the inclusion
  obtain ⟨⟨x', l''⟩, hp', hr⟩ := Option.map_eq_some_iff.1 hmap
  obtain ⟨-, rfl⟩ := Prod.mk.inj hr
  exact (ordered_map_iff less Subtype.val l'').1 (pop_ordered o' hp')

theorem remove_ordered_on (hw : StrictWeakOn less P) {l l' : List α} (hl : ∀ y ∈ l, P y) {i : Nat} {x : α}
    (o : Ordered less l) (hi : i < l.length) (hr : remove less l i = some (x, l')) : Ordered less l' := by
  have := hw.asymm_subtype
  have := hw.conn_subtype
  have hval : (l.attachWith P hl).map Subtype.val = l := by simp
  have o' : Ordered (fun a b : Subtype P => less a.1 b.1) (l.attachWith P hl) := by
    rw [ordered_map_iff, hval]
    exact o
  have hmap := remove_map less Subtype.val (l.attachWith P hl) i
  rw [hval, hr] at hmap
  obtain ⟨⟨x', l''⟩, hr', hxl⟩ := Option.map_eq_some_iff.1 hmap
  obtain ⟨-, rfl⟩ := Prod.mk.inj hxl
  exact (ordered_map_iff less Subtype.val l'').1 (remove_ordered o' (by simpa using hi) hr')

theorem Ordered.head_le_on (hw : StrictWeakOn less P) {x : α} {xs : List α} (hl : ∀ y ∈ x :: xs, P y)
    (o : Ordered less (x :: xs)) {y : α} (hy : y ∈ xs) : less y x = false := by
  have := hw.asymm_subtype
  have := hw.conn_subtype
  have hval : ((x :: xs).attachWith P hl).map Subtype.val = x :: xs := by simp
  have o' : Ordered (fun a b : Subtype P => less a.1 b.1) ((x :: xs).attachWith P hl) := by
    rw [ordered_map_iff, hval]
    exact o
  rw [List.attachWith_cons] at o'
  exact Ordered.head_le o' (y := ⟨y, hl y (List.mem_cons_of_mem x hy)⟩) (by simpa using hy)

end StrictWeakOn

end Xdchain.Lib.Heap
