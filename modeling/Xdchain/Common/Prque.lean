import Xdchain.Lib.HeapInterface

/-! # `common/prque`: a priority queue on a block-based stack

`Prque` runs `container/heap` over `sstack`, a stack of items kept in blocks
of `blockSize` slots: item `i` sits at `blocks[i/blockSize][i%blockSize]`,
and a cursor (`active`, `offset`) points at the slot after the last one.
`Push` opens a new block when the stack is at capacity and moves to the next
block when the active one is full; `Pop` steps back to the previous block
when the offset would go below zero. Items compare by wrapping subtraction of
their `int64` priorities, the higher first, and every move of an item is
reported to a `SetIndexCallback`.

The model keeps the blocks as lists, the active block by its index (Go's
`active` aliases that block), and the callback by what it was last told of
each value. `Holds` says that the slots read back as a list, the heap array;
under it the five methods of `sstack` act as `Lib.Heap` does on the list, so
`Prque`'s operations are those of the list heap (`Holds.push`, `Holds.pop`,
`Holds.remove`). -/

namespace Xdchain.Common.Prque

set_option linter.dupNamespace false

open Xdchain.Lib.Heap (Interface lessAt Ordered StrictWeakOn)

/-- The size of a block of data. -/
def blockSize : Nat := 4096

/-- A prioritized item in the sorted stack. -/
structure Item (β : Type) where
  value : β
  priority : Int64

/-- `Less`: `a` comes before `b` when `a.priority - b.priority > 0`, the
subtraction wrapping. -/
def before {β : Type} (a b : Item β) : Bool := decide (a.priority - b.priority > 0)

/-- The blocks of data, one list of `blockSize` slots each; a slot is nil or
an item. -/
abbrev Blocks (β : Type) := List (List (Option (Item β)))

/-- `blocks[k/blockSize][k%blockSize]`; `none` for a nil slot or one outside
the blocks. -/
def slot {β : Type} (blocks : Blocks β) (k : Nat) : Option (Item β) :=
  (blocks[k / blockSize]?.bind fun b => b[k % blockSize]?).join

def setSlot {β : Type} (blocks : Blocks β) (k : Nat) (x : Option (Item β)) : Blocks β :=
  blocks.modify (k / blockSize) (·.set (k % blockSize) x)

/-- The sorted stack; `reported` is what the `SetIndexCallback` was last told
of each value. -/
structure Sstack (β : Type) where
  size : Nat
  capacity : Nat
  offset : Nat
  blocks : Blocks β
  /-- The block `active` aliases, by its index in `blocks`. -/
  active : Nat
  reported : β → Option Int

variable {β : Type}

/-! ## Slots -/

section Slots

variable {blocks : Blocks β}

theorem blockSize_pos : 0 < blockSize := by decide

/-- Every block has `blockSize` slots. -/
def Sized (blocks : Blocks β) : Prop := ∀ b ∈ blocks, b.length = blockSize

/-- The read at block `a`, offset `o` is the slot of index `blockSize * a + o`. -/
theorem read_eq_slot {a o k : Nat} (hk : blockSize * a + o = k) (ho : o < blockSize) :
    (blocks[a]?.bind fun b => b[o]?).join = slot blocks k := by
  have ha : k / blockSize = a := by unfold blockSize at *; omega
  have hko : k % blockSize = o := by unfold blockSize at *; omega
  rw [slot, ha, hko]

/-- The write at block `a`, offset `o` is the write of index `blockSize * a + o`. -/
theorem modify_eq_setSlot {a o k : Nat} (x : Option (Item β)) (hk : blockSize * a + o = k) (ho : o < blockSize) :
    blocks.modify a (·.set o x) = setSlot blocks k x := by
  have ha : k / blockSize = a := by unfold blockSize at *; omega
  have hko : k % blockSize = o := by unfold blockSize at *; omega
  rw [setSlot, ha, hko]

theorem slot_setSlot (hsized : Sized blocks) {k : Nat} (hk : k / blockSize < blocks.length) (x : Option (Item β))
    (k' : Nat) : slot (setSlot blocks k x) k' = if k = k' then x else slot blocks k' := by
  unfold slot setSlot
  rw [List.getElem?_modify]
  by_cases hblk : k / blockSize = k' / blockSize
  · -- the block written: the slot read is the one set exactly when the offsets agree
    have hlen := hsized _ (List.getElem_mem hk)
    have hmod : k % blockSize < blockSize := Nat.mod_lt _ (by decide)
    have hiff : k = k' ↔ k % blockSize = k' % blockSize := by unfold blockSize at *; omega
    rw [← hblk, List.getElem?_eq_getElem hk]
    simp only [Option.map_eq_map, Option.map_some, if_true, Option.bind_some, List.getElem?_set, hlen, hmod,
      if_true]
    by_cases hoff : k % blockSize = k' % blockSize
    · simp [hiff.2 hoff]
    · have hne : k ≠ k' := fun h => hoff (hiff.1 h)
      simp [hoff, hne]
  · have hne : k ≠ k' := fun h => hblk (congrArg (· / blockSize) h)
    simp only [hblk, if_false, hne]
    cases blocks[k' / blockSize]? <;> rfl

theorem slot_append_fresh (k : Nat) :
    slot (blocks ++ [List.replicate blockSize none]) k = slot blocks k := by
  unfold slot
  by_cases hk : k / blockSize < blocks.length
  · rw [List.getElem?_append_left hk]
  · rw [List.getElem?_append_right (by omega), List.getElem?_eq_none (l := blocks) (by omega)]
    rcases Nat.lt_or_ge (k / blockSize - blocks.length) 1 with h1 | h1
    · -- the new block: every slot nil
      simp only [show k / blockSize - blocks.length = 0 by omega, List.getElem?_cons_zero, Option.bind_some,
        List.getElem?_replicate]
      split <;> rfl
    · rw [List.getElem?_eq_none (by simp; omega)]

theorem sized_setSlot (hsized : Sized blocks) (k : Nat) (x : Option (Item β)) : Sized (setSlot blocks k x) := by
  intro b hb
  unfold setSlot at hb
  obtain ⟨a, ha, rfl⟩ := List.getElem_of_mem hb
  rw [List.getElem_modify]
  split
  · rw [List.length_set]
    exact hsized _ (List.getElem_mem _)
  · exact hsized _ (List.getElem_mem _)

theorem Sized.append_fresh (hsized : Sized blocks) : Sized (blocks ++ [List.replicate blockSize none]) := by
  intro b hb
  rcases List.mem_append.1 hb with hb | hb
  · exact hsized b hb
  · rw [List.mem_singleton.1 hb, List.length_replicate]

end Slots

variable [DecidableEq β]

/-- `newSstack`: one empty block. -/
def newSstack : Sstack β :=
  { size := 0, capacity := blockSize, offset := 0, blocks := [List.replicate blockSize none], active := 0,
    reported := fun _ => none }

namespace Sstack

def setIndex (s : Sstack β) (v : β) (i : Int) : Sstack β :=
  { s with reported := Function.update s.reported v (some i) }

/-- The first half of `Push`: a new block at capacity, the next block when
the active one is full. -/
def nextSlot (s : Sstack β) : Sstack β :=
  if s.size = s.capacity then
    { s with
      blocks := s.blocks ++ [List.replicate blockSize none], active := s.blocks.length,
      capacity := s.capacity + blockSize, offset := 0 }
  else if s.offset = blockSize then { s with active := s.size / blockSize, offset := 0 }
  else s

def Push (s : Sstack β) (data : Item β) : Sstack β :=
  let s' := (s.nextSlot).setIndex data.value s.size
  { s' with
    blocks := s'.blocks.modify s'.active (·.set s'.offset (some data)), offset := s'.offset + 1,
    size := s'.size + 1 }

/-- `Pop`; `none` where Go reads a nil item (an empty stack, at index -1). -/
def Pop (s : Sstack β) : Option (Sstack β × Item β) :=
  if s.size = 0 then none
  else
    let size := s.size - 1
    let offset := if s.offset = 0 then blockSize - 1 else s.offset - 1
    let active := if s.offset = 0 then size / blockSize else s.active
    match (s.blocks[active]?.bind fun b => b[offset]?).join with
    | none => none
    | some res =>
      some (({ s with size, offset, active, blocks := s.blocks.modify active (·.set offset none) }).setIndex
        res.value (-1), res)

def Len (s : Sstack β) : Nat := s.size

def Less (s : Sstack β) (i j : Nat) : Bool :=
  match slot s.blocks i, slot s.blocks j with
  | some a, some b => before a b
  | _, _ => false

/-- The callback told of an item moved to `i`; a nil slot, which no index
below `size` holds, is passed over. -/
def report (s : Sstack β) : Option (Item β) → Int → Sstack β
  | some x, i => s.setIndex x.value i
  | none, _ => s

def Swap (s : Sstack β) (i j : Nat) : Sstack β :=
  let a := slot s.blocks j
  let b := slot s.blocks i
  let s' := (s.report a i).report b j
  { s' with blocks := setSlot (setSlot s'.blocks i a) j b }

end Sstack


/-! ## The stack holds a list -/

namespace Sstack

/-- The cursor: `active` and `offset` point at index `size`, and `capacity`
counts the slots of the blocks. -/
structure Cursor (s : Sstack β) : Prop where
  sized : Sized s.blocks
  capacity_eq : s.capacity = blockSize * s.blocks.length
  active_lt : s.active < s.blocks.length
  offset_le : s.offset ≤ blockSize
  size_eq : s.size = blockSize * s.active + s.offset

/-- `s` stores the heap array `l`: item `k` of `l` at index `k`, and nil
past the last one. -/
structure Holds (s : Sstack β) (l : List (Item β)) : Prop extends s.Cursor where
  length_eq : l.length = s.size
  slot_eq : ∀ k, slot s.blocks k = l[k]?

/-- What `nextSlot` leaves: the same items and size, with the cursor on a
slot of the blocks. -/
structure AtFreeSlot (s s' : Sstack β) : Prop where
  size_eq : s'.size = s.size
  reported_eq : s'.reported = s.reported
  sized : Sized s'.blocks
  capacity_eq : s'.capacity = blockSize * s'.blocks.length
  active_lt : s'.active < s'.blocks.length
  offset_lt : s'.offset < blockSize
  cursor_eq : s.size = blockSize * s'.active + s'.offset
  slot_eq : ∀ k, slot s'.blocks k = slot s.blocks k

omit [DecidableEq β] in
theorem Cursor.nextSlot {s : Sstack β} (c : s.Cursor) : AtFreeSlot s s.nextSlot := by
  have hsize := c.size_eq
  have hcap := c.capacity_eq
  have hactive := c.active_lt
  have hoffset := c.offset_le
  unfold Sstack.nextSlot
  split
  · -- at capacity the active block is the last one and full: a new block opens
    rename_i hfull
    have hlast : s.active + 1 = s.blocks.length ∧ s.offset = blockSize := by
      unfold blockSize at *
      omega
    refine ⟨rfl, rfl, c.sized.append_fresh, ?_, ?_, blockSize_pos, ?_, slot_append_fresh⟩
    · simp only [List.length_append, List.length_singleton, hcap, Nat.mul_add, Nat.mul_one]
    · simp
    · rw [hsize, hlast.2, ← hlast.1, Nat.mul_add, Nat.mul_one, Nat.add_zero]
  · rename_i hroom
    split
    · -- the active block is full: the next one is already there
      rename_i hfull
      have hnext : s.size / blockSize = s.active + 1 := by
        rw [hsize, hfull]
        unfold blockSize
        omega
      have hlt : s.active + 1 < s.blocks.length := by
        rw [hfull] at hsize
        unfold blockSize at *
        omega
      refine ⟨rfl, rfl, c.sized, hcap, ?_, blockSize_pos, ?_, fun _ => rfl⟩
      · simpa only [hnext] using hlt
      · show s.size = blockSize * (s.size / blockSize) + 0
        rw [hnext, hsize, hfull, Nat.mul_add, Nat.mul_one, Nat.add_zero]
    · rename_i hfull
      exact ⟨rfl, rfl, c.sized, hcap, hactive, by omega, hsize, fun _ => rfl⟩

omit [DecidableEq β] in
theorem Cursor.prev {s : Sstack β} (c : s.Cursor) (hs : s.size ≠ 0) :
    blockSize * (if s.offset = 0 then (s.size - 1) / blockSize else s.active) +
        (if s.offset = 0 then blockSize - 1 else s.offset - 1) = s.size - 1 ∧
      (if s.offset = 0 then blockSize - 1 else s.offset - 1) < blockSize ∧
      (if s.offset = 0 then (s.size - 1) / blockSize else s.active) < s.blocks.length := by
  have hsize := c.size_eq
  have hactive := c.active_lt
  have hoffset := c.offset_le
  split
  · -- an empty active block: the last item is the last slot of the block before
    unfold blockSize at *
    omega
  · unfold blockSize at *
    omega

@[simp] theorem setIndex_blocks (s : Sstack β) (v : β) (i : Int) : (s.setIndex v i).blocks = s.blocks := rfl
@[simp] theorem setIndex_size (s : Sstack β) (v : β) (i : Int) : (s.setIndex v i).size = s.size := rfl
@[simp] theorem setIndex_active (s : Sstack β) (v : β) (i : Int) : (s.setIndex v i).active = s.active := rfl
@[simp] theorem setIndex_offset (s : Sstack β) (v : β) (i : Int) : (s.setIndex v i).offset = s.offset := rfl
@[simp] theorem setIndex_capacity (s : Sstack β) (v : β) (i : Int) : (s.setIndex v i).capacity = s.capacity := rfl
@[simp] theorem setIndex_reported (s : Sstack β) (v : β) (i : Int) :
    (s.setIndex v i).reported = Function.update s.reported v (some i) := rfl

@[simp] theorem report_blocks (s : Sstack β) (x : Option (Item β)) (i : Int) : (s.report x i).blocks = s.blocks := by
  cases x <;> rfl

@[simp] theorem report_size (s : Sstack β) (x : Option (Item β)) (i : Int) : (s.report x i).size = s.size := by
  cases x <;> rfl

@[simp] theorem report_offset (s : Sstack β) (x : Option (Item β)) (i : Int) :
    (s.report x i).offset = s.offset := by
  cases x <;> rfl

@[simp] theorem report_active (s : Sstack β) (x : Option (Item β)) (i : Int) :
    (s.report x i).active = s.active := by
  cases x <;> rfl

@[simp] theorem report_capacity (s : Sstack β) (x : Option (Item β)) (i : Int) :
    (s.report x i).capacity = s.capacity := by
  cases x <;> rfl

@[simp] theorem Swap_size (s : Sstack β) (i j : Nat) : (s.Swap i j).size = s.size := by
  simp [Sstack.Swap]

@[simp] theorem Swap_offset (s : Sstack β) (i j : Nat) : (s.Swap i j).offset = s.offset := by
  simp [Sstack.Swap]

@[simp] theorem Swap_active (s : Sstack β) (i j : Nat) : (s.Swap i j).active = s.active := by
  simp [Sstack.Swap]

@[simp] theorem Swap_capacity (s : Sstack β) (i j : Nat) : (s.Swap i j).capacity = s.capacity := by
  simp [Sstack.Swap]

omit [DecidableEq β] in
theorem Holds.less {s : Sstack β} {l : List (Item β)} (h : s.Holds l) (i j : Nat) :
    s.Less i j = lessAt before l i j := by
  simp only [Sstack.Less, lessAt, h.slot_eq]
  cases l[i]? <;> cases l[j]? <;> rfl

theorem getElem?_append_singleton {α : Type} (l : List α) (x : α) (k : Nat) :
    (l ++ [x])[k]? = if l.length = k then some x else l[k]? := by
  split
  · rename_i hk
    subst hk
    exact List.getElem?_concat_length
  · rename_i hk
    rcases Nat.lt_or_ge k l.length with hlt | hge
    · exact List.getElem?_append_left hlt
    · rw [List.getElem?_eq_none (by simp; omega), List.getElem?_eq_none (by omega)]

/-- `Push` stores the item at index `size` and tells the callback so. -/
theorem Holds.push {s : Sstack β} {l : List (Item β)} (h : s.Holds l) (x : Item β) :
    (s.Push x).Holds (l ++ [x]) ∧ (s.Push x).reported = Function.update s.reported x.value (some s.size) := by
  have f := h.toCursor.nextSlot
  have hwrite : s.nextSlot.blocks.modify s.nextSlot.active (·.set s.nextSlot.offset (some x)) =
      setSlot s.nextSlot.blocks s.size (some x) :=
    modify_eq_setSlot (some x) f.cursor_eq.symm f.offset_lt
  have hblock : s.size / blockSize < s.nextSlot.blocks.length := by
    rw [f.cursor_eq, Nat.mul_add_div blockSize_pos, Nat.div_eq_of_lt f.offset_lt, Nat.add_zero]
    exact f.active_lt
  refine ⟨⟨⟨?_, ?_, ?_, ?_, ?_⟩, ?_, ?_⟩, ?_⟩
  · simp only [Sstack.Push, setIndex_blocks, setIndex_active, setIndex_offset, hwrite]
    exact sized_setSlot f.sized _ _
  · simp only [Sstack.Push, setIndex_blocks, setIndex_capacity, setIndex_active, List.length_modify]
    exact f.capacity_eq
  · simp only [Sstack.Push, setIndex_blocks, setIndex_active, List.length_modify]
    exact f.active_lt
  · exact f.offset_lt
  · show s.nextSlot.size + 1 = blockSize * s.nextSlot.active + (s.nextSlot.offset + 1)
    rw [f.size_eq, f.cursor_eq, Nat.add_assoc]
  · simp only [Sstack.Push, setIndex_size, List.length_append, List.length_singleton, h.length_eq, f.size_eq]
  · intro k
    simp only [Sstack.Push, setIndex_blocks, setIndex_active, setIndex_offset, hwrite]
    rw [slot_setSlot f.sized hblock, f.slot_eq, h.slot_eq, getElem?_append_singleton, h.length_eq]
  · simp only [Sstack.Push, setIndex_reported, f.reported_eq]

/-- `Pop` takes the item at the last index, clears its slot and tells the
callback -1. -/
theorem Holds.pop {s : Sstack β} {l : List (Item β)} (h : s.Holds l) (hl : l ≠ []) :
    ∃ s', s.Pop = some (s', l.getLast hl) ∧ s'.Holds l.dropLast ∧
      s'.reported = Function.update s.reported (l.getLast hl).value (some (-1)) := by
  have hs : s.size ≠ 0 := by
    rw [← h.length_eq]
    exact fun h0 => hl (List.eq_nil_of_length_eq_zero h0)
  obtain ⟨hpos, hlt, hact⟩ := h.toCursor.prev hs
  have hlast : slot s.blocks (s.size - 1) = some (l.getLast hl) := by
    rw [h.slot_eq, List.getLast_eq_getElem, ← h.length_eq]
    exact List.getElem?_eq_getElem _
  have hclear : s.blocks.modify _ (·.set _ none) = setSlot s.blocks _ none :=
    modify_eq_setSlot none hpos hlt
  have hblock : (s.size - 1) / blockSize < s.blocks.length := by
    rw [← hpos, Nat.mul_add_div blockSize_pos, Nat.div_eq_of_lt hlt, Nat.add_zero]
    exact hact
  unfold Sstack.Pop
  simp only [if_neg hs, read_eq_slot hpos hlt, hlast, hclear]
  refine ⟨_, rfl, ⟨⟨?_, ?_, ?_, ?_, ?_⟩, ?_, ?_⟩, rfl⟩
  · exact sized_setSlot h.sized _ _
  · simp only [setIndex_blocks, setSlot, List.length_modify]
    exact h.capacity_eq
  · simp only [setIndex_blocks, setSlot, List.length_modify]
    exact hact
  · exact Nat.le_of_lt hlt
  · exact hpos.symm
  · simp only [setIndex_size, List.length_dropLast, h.length_eq]
  · intro k
    simp only [setIndex_blocks]
    rw [slot_setSlot h.sized hblock, h.slot_eq, List.getElem?_dropLast, h.length_eq]
    by_cases hk : s.size - 1 = k
    · rw [if_pos hk, if_neg (by omega)]
    · rw [if_neg hk]
      split
      · rfl
      · rw [List.getElem?_eq_none (by rw [h.length_eq]; omega)]

/-- `Swap` exchanges the items at `i` and `j` and tells the callback their
new indices. -/
theorem Holds.swap {s : Sstack β} {l : List (Item β)} (h : s.Holds l) {i j : Nat} (hi : i < l.length)
    (hj : j < l.length) :
    (s.Swap i j).Holds (l.swap i j) ∧
      (s.Swap i j).reported = Function.update (Function.update s.reported l[j].value (some i)) l[i].value (some j) := by
  have hai : slot s.blocks j = some l[j] := by rw [h.slot_eq]; exact List.getElem?_eq_getElem hj
  have hbj : slot s.blocks i = some l[i] := by rw [h.slot_eq]; exact List.getElem?_eq_getElem hi
  have hbi : i / blockSize < s.blocks.length := by
    have := h.size_eq; have := h.length_eq; have := h.active_lt; have := h.offset_le
    unfold blockSize at *
    omega
  have hbj' : j / blockSize < (setSlot s.blocks i (some l[j])).length := by
    have := h.size_eq; have := h.length_eq; have := h.active_lt; have := h.offset_le
    rw [setSlot, List.length_modify]
    unfold blockSize at *
    omega
  refine ⟨⟨⟨?_, ?_, ?_, by simpa using h.offset_le, by simpa using h.size_eq⟩,
    by rw [List.length_swap, Swap_size]; exact h.length_eq, ?_⟩, ?_⟩
  · simp only [Sstack.Swap, hai, hbj, report_blocks]
    exact sized_setSlot (sized_setSlot h.sized _ _) _ _
  · simp only [Sstack.Swap, hai, hbj, report_blocks, setSlot, List.length_modify]
    exact h.capacity_eq
  · simp only [Sstack.Swap, hai, hbj, report_blocks, setSlot, List.length_modify]
    exact h.active_lt
  · intro k
    simp only [Sstack.Swap, hai, hbj, report_blocks]
    rw [slot_setSlot (sized_setSlot h.sized _ _) hbj', slot_setSlot h.sized hbi, h.slot_eq,
      Xdchain.Lib.Heap.getElem?_swap hi hj, Equiv.swap_apply_def]
    by_cases hkj : j = k
    · subst hkj
      by_cases hij : j = i
      · subst hij
        simp [List.getElem?_eq_getElem hi]
      · simp [hij, List.getElem?_eq_getElem hi]
    · by_cases hki : i = k
      · subst hki
        simp [hkj, List.getElem?_eq_getElem hj]
      · simp [hkj, hki, Ne.symm hkj, Ne.symm hki]
  · simp only [Sstack.Swap, hai, hbj, report, setIndex_reported]

end Sstack

/-- `sstack` as a `heap.Interface`. -/
def sstack : Interface (Sstack β) (Item β) :=
  ⟨Sstack.Len, Sstack.Less, Sstack.Swap, Sstack.Push, Sstack.Pop⟩

/-- Priority queue data structure. -/
structure Prque (β : Type) where
  cont : Sstack β

def New : Prque β := ⟨newSstack⟩

namespace Prque

def Push (p : Prque β) (data : β) (priority : Int64) : Prque β := ⟨sstack.push p.cont ⟨data, priority⟩⟩

/-- `Peek` reads `blocks[0][0]`; `none` where that is nil. -/
def Peek (p : Prque β) : Option (β × Int64) := (slot p.cont.blocks 0).map fun it => (it.value, it.priority)

def Pop (p : Prque β) : Option (Prque β × β × Int64) :=
  (sstack.pop p.cont).map fun r => (⟨r.1⟩, r.2.value, r.2.priority)

def PopItem (p : Prque β) : Option (Prque β × β) := (sstack.pop p.cont).map fun r => (⟨r.1⟩, r.2.value)

/-- `Remove`: nil for a negative index, else the item `heap.Remove` pops. -/
def Remove (p : Prque β) (i : Int) : Option (Prque β × Option (Item β)) :=
  if i < 0 then some (p, none) else (sstack.remove p.cont i.toNat).map fun r => (⟨r.1⟩, some r.2)

def Empty (p : Prque β) : Bool := p.cont.Len == 0

def Size (p : Prque β) : Nat := p.cont.Len

/-- `Reset`: a new stack with the same callback. -/
def Reset (p : Prque β) : Prque β := ⟨{ newSstack with reported := p.cont.reported }⟩

end Prque

/-! ## What the callback was told -/

namespace Sstack

/-- What the callback was last told agrees with the heap array `l`: each
held value was told its index, and a value not held that was told anything
was told -1. The values held are distinct, or one of them has two indices. -/
structure Reported (s : Sstack β) (l : List (Item β)) : Prop where
  nodup : (l.map Item.value).Nodup
  held : ∀ k (hk : k < l.length), s.reported l[k].value = some (k : Int)
  released : ∀ v, v ∉ l.map Item.value → s.reported v ≠ none → s.reported v = some (-1)

omit [DecidableEq β] in
theorem value_ne_of_ne {l : List (Item β)} (hnd : (l.map Item.value).Nodup) {k k' : Nat} (hk : k < l.length)
    (hk' : k' < l.length) (hne : k ≠ k') : l[k].value ≠ l[k'].value := by
  intro heq
  have hmap : (l.map Item.value)[k]? = (l.map Item.value)[k']? := by
    rw [List.getElem?_map, List.getElem?_map, List.getElem?_eq_getElem hk, List.getElem?_eq_getElem hk',
      Option.map_some, Option.map_some, heq]
  exact hne ((List.getElem?_inj (by simpa using hk) hnd).1 hmap)

theorem Reported.swap {s : Sstack β} {l : List (Item β)} (h : s.Holds l) (r : s.Reported l) {i j : Nat}
    (hi : i < l.length) (hj : j < l.length) : (s.Swap i j).Reported (l.swap i j) := by
  have hperm : ((l.swap i j).map Item.value).Perm (l.map Item.value) := (List.swap_perm l i j).map _
  have hrep := (h.swap hi hj).2
  refine ⟨hperm.nodup_iff.2 r.nodup, ?_, ?_⟩
  · intro k hk
    have hk' : k < l.length := by simpa using hk
    rw [hrep, List.getElem_swap]
    by_cases hki : k = i
    · -- the item from `j` now at `i`
      subst hki
      simp only [hj, and_true, dite_true]
      by_cases hkj : k = j
      · subst hkj
        simp
      · rw [Function.update_of_ne (value_ne_of_ne r.nodup hj hk' (Ne.symm hkj)), Function.update_self]
    · by_cases hkj : k = j
      · subst hkj
        simp [hki, hi]
      · simp only [hki, hkj, false_and, dite_false]
        rw [Function.update_of_ne (value_ne_of_ne r.nodup hk' hi hki),
          Function.update_of_ne (value_ne_of_ne r.nodup hk' hj hkj)]
        exact r.held k hk'
  · intro v hv
    have hv' : v ∉ l.map Item.value := fun hmem => hv (hperm.mem_iff.2 hmem)
    have hvi : v ≠ l[i].value := fun heq => hv' (heq ▸ List.mem_map_of_mem (List.getElem_mem hi))
    have hvj : v ≠ l[j].value := fun heq => hv' (heq ▸ List.mem_map_of_mem (List.getElem_mem hj))
    rw [hrep, Function.update_of_ne hvi, Function.update_of_ne hvj]
    exact r.released v hv'

theorem Reported.pop {s s' : Sstack β} {l : List (Item β)} (r : s.Reported l) (hl : l ≠ [])
    (hrep : s'.reported = Function.update s.reported (l.getLast hl).value (some (-1))) :
    s'.Reported l.dropLast := by
  have hlen : l.length - 1 < l.length := by have := List.length_pos_of_ne_nil hl; omega
  have hlast : l.getLast hl = l[l.length - 1] := List.getLast_eq_getElem hl
  refine ⟨?_, ?_, ?_⟩
  · exact r.nodup.sublist ((List.dropLast_sublist l).map _)
  · intro k hk
    have hk' : k < l.length - 1 := by simpa using hk
    rw [hrep, List.getElem_dropLast, hlast,
      Function.update_of_ne (value_ne_of_ne r.nodup (by omega) (by omega) (by omega))]
    exact r.held k (by omega)
  · intro v hv
    rw [hrep]
    by_cases hvx : v = (l.getLast hl).value
    · intro _
      rw [hvx, Function.update_self]
    · rw [Function.update_of_ne hvx]
      apply r.released v
      rw [← List.dropLast_append_getLast hl, List.map_append, List.mem_append, List.map_singleton,
        List.mem_singleton]
      exact fun hmem => hmem.elim hv hvx

theorem Reported.push {s : Sstack β} {l : List (Item β)} (h : s.Holds l) (r : s.Reported l) (x : Item β)
    (hfresh : x.value ∉ l.map Item.value) : (s.Push x).Reported (l ++ [x]) := by
  have hrep : (s.Push x).reported = Function.update s.reported x.value (some l.length) := by
    rw [(h.push x).2, h.length_eq]
  refine ⟨?_, ?_, ?_⟩
  · rw [List.map_append, List.map_singleton]
    refine List.nodup_append.2 ⟨r.nodup, by simp, fun a ha b hb => ?_⟩
    rw [List.mem_singleton.1 hb]
    exact fun heq => hfresh (heq ▸ ha)
  · intro k hk
    have hk' : k < l.length + 1 := by simpa using hk
    rcases Nat.lt_or_ge k l.length with hlt | hge
    · have hne : l[k].value ≠ x.value := fun heq => hfresh (heq ▸ List.mem_map_of_mem (List.getElem_mem hlt))
      rw [hrep, List.getElem_append_left hlt, Function.update_of_ne hne]
      exact r.held k hlt
    · obtain rfl : k = l.length := by omega
      simp [hrep]
  · intro v hv
    have hvx : v ≠ x.value := fun heq => hv (by simp [heq])
    rw [hrep, Function.update_of_ne hvx]
    exact r.released v fun hmem => hv (by simp [hmem])

end Sstack

/-- The heap array and the callback's reports together. -/
def HoldsReported (s : Sstack β) (l : List (Item β)) : Prop := s.Holds l ∧ s.Reported l

theorem sifts_holdsReported : Interface.Sifts (sstack (β := β)) before HoldsReported where
  len_eq h := h.1.length_eq.symm
  less_eq h _ _ := h.1.less _ _
  swap h hi hj := ⟨(h.1.swap hi hj).1, h.2.swap h.1 hi hj⟩

theorem popsLast_holdsReported : Interface.PopsLast (sstack (β := β)) HoldsReported := by
  intro s l h hl
  obtain ⟨s', hp, hs', hrep⟩ := h.1.pop hl
  exact ⟨s', hp, hs', h.2.pop hl hrep⟩

/-! ## `Prque` runs the list heap -/

/-- Under `Holds`, `sstack`'s `Len`, `Less` and `Swap` act on the heap array. -/
theorem sifts_holds : Interface.Sifts (sstack (β := β)) before Sstack.Holds where
  len_eq h := h.length_eq.symm
  less_eq h _ _ := h.less _ _
  swap h hi hj := (h.swap hi hj).1

theorem popsLast_holds : Interface.PopsLast (sstack (β := β)) Sstack.Holds := by
  intro s l h hl
  obtain ⟨s', hp, hs', -⟩ := h.pop hl
  exact ⟨s', hp, hs'⟩

namespace Prque

section Sim

/-! Each operation of `Prque` is that of the list heap, under any relation
`S` that `sstack`'s methods keep: `Holds`, or `Holds` with the reports. -/

variable {S : Sstack β → List (Item β) → Prop}

theorem push_sim (hs : Interface.Sifts sstack before S) {p : Prque β} {l : List (Item β)} {data : β}
    {priority : Int64} (hpush : S (p.cont.Push ⟨data, priority⟩) (l ++ [⟨data, priority⟩])) :
    S (p.Push data priority).cont (Lib.Heap.push before l ⟨data, priority⟩) :=
  hs.push_sim hpush

theorem pop_sim (hs : Interface.Sifts sstack before S) (hpop : Interface.PopsLast sstack S) {p : Prque β}
    {l : List (Item β)} (h : S p.cont l) :
    Option.Rel (fun a b => a.2 = (b.1.value, b.1.priority) ∧ S a.1.cont b.2) p.Pop (Lib.Heap.pop before l) := by
  unfold Prque.Pop
  exact Interface.option_rel_map _ (hs.pop_sim hpop h) fun _ _ hr => ⟨by rw [hr.1], hr.2⟩

theorem remove_sim (hs : Interface.Sifts sstack before S) (hpop : Interface.PopsLast sstack S) {p : Prque β}
    {l : List (Item β)} (h : S p.cont l) {i : Nat} (hi : i < l.length) :
    Option.Rel (fun a b => a.2 = some b.1 ∧ S a.1.cont b.2) (p.Remove i) (Lib.Heap.remove before l i) := by
  unfold Prque.Remove
  rw [if_neg (by omega), Int.toNat_natCast]
  exact Interface.option_rel_map _ (hs.remove_sim hpop h hi) fun _ _ hr => ⟨by rw [hr.1], hr.2⟩

end Sim

/-- `Pop` tells the callback -1 for the value it returns. -/
theorem Holds.pop_reported {p p' : Prque β} {l : List (Item β)} {v : β} {q : Int64} (h : p.cont.Holds l)
    (hp : p.Pop = some (p', v, q)) : p'.cont.reported v = some (-1) := by
  unfold Prque.Pop Interface.pop at hp
  by_cases h0 : sstack.Len p.cont = 0
  · rw [if_pos h0] at hp
    exact absurd hp (by simp)
  · rw [if_neg h0] at hp
    have hlen : sstack.Len p.cont = l.length := h.length_eq.symm
    have hn : l.length - 1 < l.length := by omega
    -- the state `sstack.Pop` runs on holds the sifted array
    obtain ⟨hd, -⟩ := sifts_holds.down_sim 0 (l.length - 1)
      (sifts_holds.swap h (show 0 < l.length by omega) hn) (by rw [List.length_swap]; omega)
    have hne : Lib.Heap.down before (l.swap 0 (l.length - 1)) 0 (l.length - 1) ≠ [] := by
      apply List.ne_nil_of_length_pos
      rw [(Lib.Heap.down_perm before _ _ _).length_eq, List.length_swap]
      omega
    obtain ⟨s', hpop, -, hrep⟩ := hd.pop hne
    have hpop' : sstack.Pop (sstack.down (sstack.Swap p.cont 0 (l.length - 1)) 0 (l.length - 1)).1 =
        some (s', _) := hpop
    simp only [hlen] at hp
    rw [hpop', Option.map_some] at hp
    obtain ⟨rfl, hvq⟩ := Prod.mk.inj (Option.some.inj hp)
    rw [← (Prod.mk.inj hvq).1, hrep, Function.update_self]

theorem PopItem_eq (p : Prque β) : p.PopItem = p.Pop.map fun r => (r.1, r.2.1) := by
  unfold Prque.PopItem Prque.Pop
  cases sstack.pop p.cont <;> rfl

omit [DecidableEq β] in
theorem Holds.peek {p : Prque β} {l : List (Item β)} (h : p.cont.Holds l) :
    p.Peek = l.head?.map fun x => (x.value, x.priority) := by
  rw [Prque.Peek, h.slot_eq, List.head?_eq_getElem?]

end Prque

end Xdchain.Common.Prque
