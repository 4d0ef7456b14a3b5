import Xdchain.Common.Prque

/-! # Runs of `Prque`

A run applies `Push`, `Pop`, `PopItem`, `Peek` and `Remove` to a queue from
`New`. Every queue a run reaches stores a heap array (`Reachable.holds`), and
each operation is the list heap's (`apply_sim`).

Wrapping subtraction orders priorities only inside a window of `2^63` of
them: there `before` is a strict weak order, and where the priorities held
span less than `2^63` at every moment the heap array stays a heap, so the
item `Pop` returns is first, by wrapping subtraction, among those held.

The callback's reports follow the heap array as long as no value is pushed
while an equal one is held; a value held twice has two indices, and the pop
of one copy tells the callback -1 for both. -/

namespace Xdchain.Common.Prque

set_option linter.dupNamespace false

open Xdchain.Lib.Heap (Interface Ordered OrderedFrom StrictWeakOn)

variable {β : Type} [DecidableEq β]

/-! ## Wrapping order inside a window -/

/-- `p` lies in the window of `2^63` priorities from `b`: `p - b`, wrapping,
is not negative. -/
def InWindow (b p : Int64) : Prop := 0 ≤ (p - b).toInt

/-- One window holds every priority of `l`: they span less than `2^63`. -/
def Spanned (l : List (Item β)) : Prop := ∃ b, ∀ x ∈ l, InWindow b x.priority

theorem toInt_sub_of_inWindow {b p q : Int64} (hp : InWindow b p) (hq : InWindow b q) :
    (p - q).toInt = (p - b).toInt - (q - b).toInt := by
  have hsplit : p - q = (p - b) - (q - b) := by grind
  have hpb := Int64.toInt_lt (p - b)
  have hqb := Int64.toInt_lt (q - b)
  unfold InWindow at hp hq
  rw [hsplit, Int64.toInt_sub]
  exact Int.bmod_eq_of_le (by omega) (by omega)

omit [DecidableEq β] in
theorem before_eq_true_iff {b : Int64} {x y : Item β} (hx : InWindow b x.priority) (hy : InWindow b y.priority) :
    before x y = true ↔ (y.priority - b).toInt < (x.priority - b).toInt := by
  rw [before, decide_eq_true_iff, gt_iff_lt, Int64.lt_iff_toInt_lt, Int64.toInt_zero,
    toInt_sub_of_inWindow hx hy]
  omega

omit [DecidableEq β] in
/-- Inside a window, `before` compares the offsets from the window's start. -/
theorem strictWeakOn_window (b : Int64) : StrictWeakOn (before (β := β)) fun x => InWindow b x.priority where
  asymm x y hx hy hxy := by
    rw [before_eq_true_iff hx hy] at hxy
    cases hyx : before y x
    · rfl
    · rw [before_eq_true_iff hy hx] at hyx
      omega
  conn x y z hx hy hz hxz := by
    rw [before_eq_true_iff hx hz] at hxz
    rw [before_eq_true_iff hx hy, before_eq_true_iff hy hz]
    omega

omit [DecidableEq β] in
/-- An item not after `x` in the window has a priority that `x`'s exceeds by
a non-negative wrapping difference. -/
theorem sub_nonneg_of_not_before {b : Int64} {x y : Item β} (hx : InWindow b x.priority)
    (hy : InWindow b y.priority) (h : before y x = false) : 0 ≤ x.priority - y.priority := by
  have hnot : ¬before y x = true := by simp [h]
  rw [before_eq_true_iff hy hx] at hnot
  rw [Int64.le_iff_toInt_le, Int64.toInt_zero, toInt_sub_of_inWindow hx hy]
  omega

/-! ## Runs -/

/-- The operations of a run. -/
inductive Op (β : Type) where
  | push (data : β) (priority : Int64)
  | pop
  | popItem
  | peek
  | remove (i : Int)

namespace Prque

/-- The queue after an operation; `none` where it panics. -/
def apply (p : Prque β) : Op β → Option (Prque β)
  | .push data priority => some (p.Push data priority)
  | .pop => p.Pop.map (·.1)
  | .popItem => p.PopItem.map (·.1)
  | .peek => p.Peek.map fun _ => p
  | .remove i => (p.Remove i).map (·.1)

/-- The priorities stored below `size` span less than `2^63`. -/
def Spans (p : Prque β) : Prop :=
  ∃ b, ∀ k x, k < p.cont.size → slot p.cont.blocks k = some x → InWindow b x.priority

/-- `v` is the value of an item stored below `size`. -/
def Held (p : Prque β) (v : β) : Prop := ∃ k x, k < p.cont.size ∧ slot p.cont.blocks k = some x ∧ x.value = v

end Prque

/-- A push of a value that the queue does not hold. -/
def Op.Fresh (p : Prque β) : Op β → Prop
  | .push data _ => ¬p.Held data
  | _ => True

/-- The queues that runs from `New` reach when every step satisfies `ok`,
of the queue before, the operation and the queue after. -/
inductive Reachable (ok : Prque β → Op β → Prque β → Prop) : Prque β → Prop
  | new : Reachable ok New
  | step {p p' : Prque β} {op : Op β} : Reachable ok p → p.apply op = some p' → ok p op p' → Reachable ok p'

/-- The operations on the heap array, as the list heap runs them. -/
def heapApply (l : List (Item β)) : Op β → Option (List (Item β))
  | .push data priority => some (Lib.Heap.push before l ⟨data, priority⟩)
  | .pop => (Lib.Heap.pop before l).map (·.2)
  | .popItem => (Lib.Heap.pop before l).map (·.2)
  | .peek => l.head?.map fun _ => l
  | .remove i =>
    if i < 0 then some l
    else if i.toNat < l.length then (Lib.Heap.remove before l i.toNat).map (·.2) else none

/-! ## Each operation is the list heap's -/

section Sim

variable {S : Sstack β → List (Item β) → Prop}

/-- Under a relation that `sstack`'s methods keep and that gives the heap
array, every operation of a run is the list heap's. -/
theorem apply_sim (hs : Interface.Sifts sstack before S) (hpop : Interface.PopsLast sstack S)
    (hholds : ∀ {s l}, S s l → Sstack.Holds s l) {p : Prque β} {l : List (Item β)} (h : S p.cont l) (op : Op β)
    (hpush : ∀ data priority, op = .push data priority →
      S (p.cont.Push ⟨data, priority⟩) (l ++ [⟨data, priority⟩])) :
    Option.Rel (fun p' l' => S p'.cont l') (p.apply op) (heapApply l op) := by
  cases op with
  | push data priority => exact .some (Prque.push_sim hs (hpush data priority rfl))
  | pop => exact Interface.option_rel_map_both _ _ (Prque.pop_sim hs hpop h) fun _ _ hr => hr.2
  | popItem =>
    rw [Prque.apply, Prque.PopItem_eq, Option.map_map]
    exact Interface.option_rel_map_both _ _ (Prque.pop_sim hs hpop h) fun _ _ hr => hr.2
  | peek =>
    rw [Prque.apply, heapApply, Prque.Holds.peek (hholds h), Option.map_map]
    cases l with
    | nil => exact .none
    | cons x xs => exact .some h
  | remove i =>
    simp only [Prque.apply, heapApply]
    by_cases hneg : i < 0
    · rw [if_pos hneg, Prque.Remove, if_pos hneg]
      exact .some h
    · obtain ⟨n, rfl⟩ := Int.eq_ofNat_of_zero_le (by omega : 0 ≤ i)
      rw [if_neg hneg, Int.toNat_natCast]
      by_cases hlt : n < l.length
      · rw [if_pos hlt]
        exact Interface.option_rel_map_both _ _ (Prque.remove_sim hs hpop h hlt) fun _ _ hr => hr.2
      · -- an index past the elements: `Swap` would read a nil item
        rw [if_neg hlt, Prque.Remove, if_neg hneg, Int.toNat_natCast]
        simp only [Interface.remove, sstack, Sstack.Len, ← (hholds h).length_eq, if_neg hlt, Option.map_none]
        exact .none

end Sim

omit [DecidableEq β] in
theorem holds_new : (New : Prque β).cont.Holds [] where
  sized b hb := by
    rw [List.mem_singleton.1 hb, List.length_replicate]
  capacity_eq := rfl
  active_lt := Nat.zero_lt_one
  offset_le := Nat.zero_le _
  size_eq := rfl
  length_eq := rfl
  slot_eq k := by
    simp only [New, newSstack, slot, List.getElem?_nil]
    rcases Nat.eq_zero_or_pos (k / blockSize) with h0 | hpos
    · rw [h0, List.getElem?_cons_zero, Option.bind_some, List.getElem?_replicate]
      split <;> rfl
    · rw [List.getElem?_eq_none (by simp; omega)]
      rfl

omit [DecidableEq β] in
theorem reported_new : (New : Prque β).cont.Reported [] where
  nodup := List.nodup_nil
  held _ hk := absurd hk (Nat.not_lt_zero _)
  released _ _ hv := absurd rfl hv

/-- Every queue a run reaches stores a heap array. -/
theorem Reachable.holds {ok : Prque β → Op β → Prque β → Prop} {p : Prque β} (hr : Reachable ok p) :
    ∃ l, p.cont.Holds l := by
  induction hr with
  | new => exact ⟨[], holds_new⟩
  | @step p p' op _ hap _ ih =>
    obtain ⟨l, h⟩ := ih
    have hrel := apply_sim sifts_holds popsLast_holds id h op fun _ _ _ => (h.push _).1
    rw [hap] at hrel
    obtain ⟨l', -, h'⟩ := Interface.option_rel_some hrel
    exact ⟨l', h'⟩

/-! ## The order kept while the priorities span less than `2^63` -/

omit [DecidableEq β] in
theorem mem_of_holds {s : Sstack β} {l : List (Item β)} (h : s.Holds l) {x : Item β} :
    x ∈ l ↔ ∃ k, k < s.size ∧ slot s.blocks k = some x := by
  rw [List.mem_iff_getElem?]
  constructor
  · rintro ⟨k, hk⟩
    have hlt : k < l.length := (List.getElem?_eq_some_iff.1 hk).1
    exact ⟨k, h.length_eq ▸ hlt, by rw [h.slot_eq, hk]⟩
  · rintro ⟨k, -, hk⟩
    exact ⟨k, by rw [← h.slot_eq, hk]⟩

omit [DecidableEq β] in
theorem spans_iff {p : Prque β} {l : List (Item β)} (h : p.cont.Holds l) : p.Spans ↔ Spanned l := by
  unfold Prque.Spans Spanned
  constructor
  · rintro ⟨b, hb⟩
    refine ⟨b, fun x hx => ?_⟩
    obtain ⟨k, hk, hslot⟩ := (mem_of_holds h).1 hx
    exact hb k x hk hslot
  · rintro ⟨b, hb⟩
    exact ⟨b, fun k x hk hslot => hb x ((mem_of_holds h).2 ⟨k, hk, hslot⟩)⟩

omit [DecidableEq β] in
/-- A step of the list heap keeps a heap a heap, the priorities spanning less
than `2^63` before and after. -/
theorem heapApply_ordered {l l' : List (Item β)} {op : Op β} (o : Ordered before l) (hs : Spanned l)
    (hs' : Spanned l') (happ : heapApply l op = some l') : Ordered before l' := by
  obtain ⟨b, hb⟩ := hs
  cases op with
  | push data priority =>
    obtain rfl := Option.some.inj happ
    obtain ⟨b', hb'⟩ := hs'
    -- the window after the push holds the new item and the old ones
    have hperm := Lib.Heap.push_perm before l ⟨data, priority⟩
    have hin : ∀ y ∈ l, InWindow b' y.priority := fun y hy =>
      hb' y (hperm.mem_iff.2 (List.mem_cons_of_mem _ hy))
    exact Lib.Heap.push_ordered_on (strictWeakOn_window b') hin (hb' _ (hperm.mem_iff.2 List.mem_cons_self)) o
  | pop =>
    obtain ⟨⟨x, l''⟩, hp, rfl⟩ := Option.map_eq_some_iff.1 happ
    exact Lib.Heap.pop_ordered_on (strictWeakOn_window b) hb o hp
  | popItem =>
    obtain ⟨⟨x, l''⟩, hp, rfl⟩ := Option.map_eq_some_iff.1 happ
    exact Lib.Heap.pop_ordered_on (strictWeakOn_window b) hb o hp
  | peek =>
    obtain ⟨_, -, rfl⟩ := Option.map_eq_some_iff.1 happ
    exact o
  | remove i =>
    simp only [heapApply] at happ
    split at happ
    · obtain rfl := Option.some.inj happ
      exact o
    · split at happ
      · rename_i hlt
        obtain ⟨⟨x, l''⟩, hrm, rfl⟩ := Option.map_eq_some_iff.1 happ
        exact Lib.Heap.remove_ordered_on (strictWeakOn_window b) hb o hlt hrm
      · exact absurd happ (by simp)

/-- The runs along which the priorities held span less than `2^63` at every
moment keep a heap. -/
theorem Reachable.ordered {p : Prque β} (hr : Reachable (fun _ _ p' => p'.Spans) p) :
    ∃ l, p.cont.Holds l ∧ Ordered before l ∧ Spanned l := by
  induction hr with
  | new => exact ⟨[], holds_new, fun c hc0 hcn _ => absurd hcn (by simp), ⟨0, fun _ hx => absurd hx (by simp)⟩⟩
  | @step p p' op _ hap hspan ih =>
    obtain ⟨l, h, o, hs⟩ := ih
    have hrel := apply_sim sifts_holds popsLast_holds id h op fun _ _ _ => (h.push _).1
    rw [hap] at hrel
    obtain ⟨l', happ, h'⟩ := Interface.option_rel_some hrel
    have hs' := (spans_iff h').1 hspan
    exact ⟨l', h', heapApply_ordered o hs hs' happ, hs'⟩

/-- The item `Pop` returns comes first, by wrapping subtraction, among the
items left. -/
theorem Reachable.pop_first {p p' : Prque β} {v : β} {q : Int64} (hr : Reachable (fun _ _ p' => p'.Spans) p)
    (hp : p.Pop = some (p', v, q)) :
    ∀ k x, k < p'.cont.size → slot p'.cont.blocks k = some x → 0 ≤ q - x.priority := by
  obtain ⟨l, h, o, b, hb⟩ := hr.ordered
  have hrel := Prque.pop_sim sifts_holds popsLast_holds h
  rw [hp] at hrel
  obtain ⟨⟨x, l'⟩, hpop, hvq, h'⟩ := Interface.option_rel_some hrel
  cases l with
  | nil => exact absurd hpop (by simp [(Lib.Heap.pop_eq_none_iff before []).2 rfl])
  | cons y ys =>
    -- the root comes off, and the items left are the others
    have hroot : x = y := by
      rw [Lib.Heap.pop_cons] at hpop
      exact (Prod.mk.inj (Option.some.inj hpop)).1.symm
    subst hroot
    have hrest : l'.Perm ys := (Lib.Heap.pop_perm before hpop).cons_inv
    have hq : q = x.priority := (Prod.mk.inj hvq).2
    intro k z hk hslot
    have hz : z ∈ ys := hrest.mem_iff.1 ((mem_of_holds h').2 ⟨k, hk, hslot⟩)
    rw [hq]
    exact sub_nonneg_of_not_before (hb x List.mem_cons_self) (hb z (List.mem_cons_of_mem x hz))
      (Lib.Heap.Ordered.head_le_on (strictWeakOn_window b) hb o hz)

/-- `Remove(i)` at an index of the heap returns the item there and leaves the
others. -/
theorem Reachable.remove_at {ok : Prque β → Op β → Prque β → Prop} {p : Prque β} (hr : Reachable ok p) {i : Nat}
    (hi : i < p.cont.size) :
    ∃ p' x, p.Remove i = some (p', some x) ∧ slot p.cont.blocks i = some x ∧
      ∃ l l', p.cont.Holds l ∧ p'.cont.Holds l' ∧ (x :: l').Perm l := by
  obtain ⟨l, h⟩ := hr.holds
  have hil : i < l.length := h.length_eq ▸ hi
  have hrel := Prque.remove_sim sifts_holds popsLast_holds h hil
  rw [Lib.Heap.remove_eq before hil] at hrel
  obtain ⟨⟨p', r⟩, hrm, hr', h'⟩ := Interface.option_rel_some_right hrel
  refine ⟨p', l[i], ?_, ?_, l, _, h, h', Lib.Heap.remove_perm before (Lib.Heap.remove_eq before hil)⟩
  · rw [hrm]
    exact congrArg (fun r => some (p', r)) hr'
  · rw [h.slot_eq]
    exact List.getElem?_eq_getElem hil

/-! ## What the callback is told -/

/-- Along runs that push no value the queue holds, the callback's reports
follow the heap array. -/
theorem Reachable.reported {p : Prque β} (hr : Reachable (fun p op _ => op.Fresh p) p) :
    ∃ l, p.cont.Holds l ∧ p.cont.Reported l := by
  induction hr with
  | new => exact ⟨[], holds_new, reported_new⟩
  | @step p p' op _ hap hfresh ih =>
    obtain ⟨l, h⟩ := ih
    have hpush : ∀ data priority, op = .push data priority →
        HoldsReported (p.cont.Push ⟨data, priority⟩) (l ++ [⟨data, priority⟩]) := by
      intro data priority hop
      subst hop
      -- the value pushed is held by no item of the array
      have hnot : data ∉ l.map Item.value := by
        intro hmem
        obtain ⟨x, hx, rfl⟩ := List.mem_map.1 hmem
        obtain ⟨k, hk, hslot⟩ := (mem_of_holds h.1).1 hx
        exact hfresh ⟨k, x, hk, hslot, rfl⟩
      exact ⟨(h.1.push _).1, h.2.push h.1 _ hnot⟩
    have hrel := apply_sim sifts_holdsReported popsLast_holdsReported (fun h => h.1) h op hpush
    rw [hap] at hrel
    obtain ⟨l', -, h'⟩ := Interface.option_rel_some hrel
    exact ⟨l', h'⟩

theorem Reachable.reported_indices {p : Prque β} (hr : Reachable (fun p op _ => op.Fresh p) p) :
    (∀ k x, k < p.cont.size → slot p.cont.blocks k = some x → p.cont.reported x.value = some (k : Int)) ∧
      ∀ v, ¬p.Held v → p.cont.reported v ≠ none → p.cont.reported v = some (-1) := by
  obtain ⟨l, h, r⟩ := hr.reported
  constructor
  · intro k x hk hslot
    have hkl : k < l.length := h.length_eq ▸ hk
    rw [h.slot_eq, List.getElem?_eq_getElem hkl] at hslot
    rw [← Option.some.inj hslot]
    exact r.held k hkl
  · intro v hv
    apply r.released v
    intro hmem
    obtain ⟨x, hx, rfl⟩ := List.mem_map.1 hmem
    obtain ⟨k, hk, hslot⟩ := (mem_of_holds h).1 hx
    exact hv ⟨k, x, hk, hslot, rfl⟩

/-! ## The queue over its runs -/

theorem prque_runs_spec :
    (∀ (ok : Prque β → Op β → Prque β → Prop) (p : Prque β), Reachable ok p → ∃ l, p.cont.Holds l) ∧
    (∀ (p : Prque β) (l : List (Item β)) (op : Op β), p.cont.Holds l →
      Option.Rel (fun p' l' => p'.cont.Holds l') (p.apply op) (heapApply l op)) ∧
    (∀ (p p' : Prque β) (v : β) (q : Int64), Reachable (fun _ _ p' => p'.Spans) p → p.Pop = some (p', v, q) →
      ∀ k x, k < p'.cont.size → slot p'.cont.blocks k = some x → 0 ≤ q - x.priority) ∧
    (∀ (p p' : Prque β) (v : β), Reachable (fun _ _ p' => p'.Spans) p → p.PopItem = some (p', v) →
      ∃ q, p.Pop = some (p', v, q) ∧ ∀ k x, k < p'.cont.size → slot p'.cont.blocks k = some x → 0 ≤ q - x.priority) ∧
    (∀ (ok : Prque β → Op β → Prque β → Prop) (p : Prque β) (i : Nat), Reachable ok p → i < p.cont.size →
      ∃ p' x, p.Remove i = some (p', some x) ∧ slot p.cont.blocks i = some x ∧
        ∃ l l', p.cont.Holds l ∧ p'.cont.Holds l' ∧ (x :: l').Perm l) ∧
    (∀ p : Prque β, Reachable (fun p op _ => op.Fresh p) p →
      (∀ k x, k < p.cont.size → slot p.cont.blocks k = some x → p.cont.reported x.value = some (k : Int)) ∧
      ∀ v, ¬p.Held v → p.cont.reported v ≠ none → p.cont.reported v = some (-1)) := by
  refine ⟨fun _ _ hr => hr.holds, fun p l op h => ?_, fun _ _ _ _ hr hp => hr.pop_first hp, ?_,
    fun _ _ _ hr hi => hr.remove_at hi, fun _ hr => hr.reported_indices⟩
  · exact apply_sim sifts_holds popsLast_holds id h op fun _ _ _ => (h.push _).1
  · intro p p' v hr hp
    rw [Prque.PopItem_eq] at hp
    obtain ⟨⟨p'', v', q⟩, hpop, hr'⟩ := Option.map_eq_some_iff.1 hp
    obtain ⟨rfl, rfl⟩ := Prod.mk.inj hr'
    exact ⟨q, hpop, hr.pop_first hpop⟩

/-- Three pushes, the second of the highest priority: it is sifted to the
root, and `Remove(1)` takes out the first, which the sift left at index 1. -/
theorem prque_runs_spec_at_three_pushes :
    ∃ p' x, ((((New : Prque Nat).Push 1 3).Push 2 7).Push 3 5).Remove ((1 : Nat) : Int) = some (p', some x) ∧
      slot ((((New : Prque Nat).Push 1 3).Push 2 7).Push 3 5).cont.blocks 1 = some x ∧
      ∃ l l', ((((New : Prque Nat).Push 1 3).Push 2 7).Push 3 5).cont.Holds l ∧ p'.cont.Holds l' ∧
        (x :: l').Perm l := by
  have h1 := Prque.push_sim sifts_holds ((holds_new (β := Nat)).push ⟨1, 3⟩).1
  have h2 := Prque.push_sim sifts_holds (h1.push ⟨2, 7⟩).1
  have h3 := Prque.push_sim sifts_holds (h2.push ⟨3, 5⟩).1
  -- each push is an `apply` of its operation
  have s1 : (New : Prque Nat).apply (.push 1 3) = some ((New : Prque Nat).Push 1 3) := rfl
  have s2 : ((New : Prque Nat).Push 1 3).apply (.push 2 7) = some (((New : Prque Nat).Push 1 3).Push 2 7) := rfl
  have s3 : (((New : Prque Nat).Push 1 3).Push 2 7).apply (.push 3 5) =
      some ((((New : Prque Nat).Push 1 3).Push 2 7).Push 3 5) := rfl
  have hr : Reachable (fun _ _ _ => True) ((((New : Prque Nat).Push 1 3).Push 2 7).Push 3 5) :=
    .step (.step (.step .new s1 trivial) s2 trivial) s3 trivial
  exact prque_runs_spec.2.2.2.2.1 (fun _ _ _ => True) _ 1 hr (by rw [← h3.length_eq]; decide)

/-- A value pushed twice is held twice: after the pop of one copy the callback
was last told -1 for a value the queue still holds. -/
theorem prque_reports_released_value_still_held :
    ∃ p' : Prque Nat, (((New : Prque Nat).Push 7 1).Push 7 2).Pop = some (p', 7, 2) ∧ p'.Held 7 ∧
      p'.cont.reported 7 = some (-1) := by
  have h1 := Prque.push_sim sifts_holds ((holds_new (β := Nat)).push ⟨7, 1⟩).1
  have h2 := Prque.push_sim sifts_holds (h1.push ⟨7, 2⟩).1
  -- the second copy comes first and is popped; the first stays at index 0
  have hheap : Lib.Heap.push before (Lib.Heap.push before [] (⟨7, 1⟩ : Item Nat)) ⟨7, 2⟩ = [⟨7, 2⟩, ⟨7, 1⟩] := rfl
  have hpop : Lib.Heap.pop before ([⟨7, 2⟩, ⟨7, 1⟩] : List (Item Nat)) = some (⟨7, 2⟩, [⟨7, 1⟩]) := rfl
  rw [hheap] at h2
  have hrel := Prque.pop_sim sifts_holds popsLast_holds h2
  rw [hpop] at hrel
  obtain ⟨⟨p', v, q⟩, hp, hvq, h'⟩ := Interface.option_rel_some_right hrel
  obtain ⟨rfl, rfl⟩ := Prod.mk.inj hvq
  refine ⟨p', hp, ⟨0, ⟨7, 1⟩, ?_, ?_, rfl⟩, Prque.Holds.pop_reported h2 hp⟩
  · rw [← h'.length_eq]
    exact Nat.zero_lt_one
  · rw [h'.slot_eq]
    rfl

end Xdchain.Common.Prque
