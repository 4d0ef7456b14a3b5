import Xdchain.State.StateObject

/-! # The EIP-2930 access list

Addresses map to `-1`, or to the index of their slot set in `slots`. A slot
set is made when an address gets its first slot, at the end of `slots`, and
taken away only when the revert of that first slot empties it, which cuts
`slots` at its index. That cut is right only when the set is the last one:
reverts come in the reverse order of the additions, and the undo lemmas
below take each addition back exactly, so the journal never cuts a set that
another address still uses. -/

namespace Xdchain.State
open Xdchain.Lib

structure AccessList where
  addresses : KeyMap Address Int
  slots : List (KeyMap Hash Unit)
deriving DecidableEq

namespace AccessList

def newAccessList : AccessList := ⟨.empty, []⟩

/-- `al.slots[idx]`; `none` where the code panics. -/
def slotAt (al : AccessList) (idx : Int) : Option (KeyMap Hash Unit) :=
  if idx < 0 then none else al.slots[idx.toNat]?

def ContainsAddress (al : AccessList) (address : Address) : Bool :=
  (al.addresses.find? address).isSome

/-- Whether the address and the slot are present; `none` where the code panics. -/
def Contains (al : AccessList) (address : Address) (slot : Hash) : Option (Bool × Bool) :=
  match al.addresses.find? address with
  | none => some (false, false)
  | some idx =>
    if idx = -1 then some (true, false)
    else (al.slotAt idx).map fun slotmap => (true, (slotmap.find? slot).isSome)

/-- Adds the address; whether it was new. -/
def AddAddress (al : AccessList) (address : Address) : AccessList × Bool :=
  if (al.addresses.find? address).isSome then (al, false)
  else ({ al with addresses := al.addresses.insert address (-1) }, true)

/-- Adds the slot, and the address with it; whether each was new. -/
def AddSlot (al : AccessList) (address : Address) (slot : Hash) :
    Option (AccessList × Bool × Bool) :=
  let found := al.addresses.find? address
  if found = none ∨ found = some (-1) then
    some ({ addresses := al.addresses.insert address al.slots.length,
            slots := al.slots ++ [KeyMap.empty.insert slot ()] }, found.isNone, true)
  else
    let idx := found.getD 0
    (al.slotAt idx).map fun slotmap =>
      if (slotmap.find? slot).isNone then
        ({ al with slots := al.slots.set idx.toNat (slotmap.insert slot ()) }, false, true)
      else (al, false, false)

/-- Removes the slot; a set left empty is cut from `slots` with all after it,
and the address goes back to `-1`. `none` where the code panics. -/
def DeleteSlot (al : AccessList) (address : Address) (slot : Hash) : Option AccessList := do
  let idx ← al.addresses.find? address
  let slotmap ← al.slotAt idx
  let slotmap := slotmap.erase slot
  if slotmap.size = 0 then
    some { addresses := al.addresses.insert address (-1), slots := al.slots.take idx.toNat }
  else
    some { al with slots := al.slots.set idx.toNat slotmap }

def DeleteAddress (al : AccessList) (address : Address) : AccessList :=
  { al with addresses := al.addresses.erase address }

/-- Every address maps to `-1` or to a slot set that is there and not empty. -/
def WellFormed (al : AccessList) : Prop :=
  ∀ a idx, al.addresses.find? a = some idx → idx = -1 ∨ ∃ m, al.slotAt idx = some m ∧ 0 < m.size

theorem wellFormed_newAccessList : newAccessList.WellFormed := by
  intro a idx h
  simp [newAccessList] at h

/-! ## Each addition, and its undo -/

theorem slotAt_append_length (addresses : KeyMap Address Int) (slots : List (KeyMap Hash Unit))
    (m : KeyMap Hash Unit) : ({ addresses, slots := slots ++ [m] } : AccessList).slotAt slots.length = some m := by
  simp [slotAt]

theorem slotAt_append_of_slotAt {al : AccessList} {idx : Int} {m : KeyMap Hash Unit}
    (h : al.slotAt idx = some m) (m' : KeyMap Hash Unit) (addresses : KeyMap Address Int) :
    ({ addresses, slots := al.slots ++ [m'] } : AccessList).slotAt idx = some m := by
  unfold slotAt at h ⊢
  split at h
  · cases h
  · rw [if_neg (by assumption)]
    exact List.getElem?_append_left (List.getElem?_eq_some_iff.1 h).1 ▸ h

theorem size_singleton (slot : Hash) : (KeyMap.empty.insert slot () : KeyMap Hash Unit).size = 1 := by
  simp [KeyMap.size, KeyMap.entries_insert, KeyMap.empty, KeyMap.keys]

theorem AddAddress_undo {al : AccessList} {address : Address} (h : (al.AddAddress address).2 = true) :
    (al.AddAddress address).1.DeleteAddress address = al := by
  by_cases hnew : (al.addresses.find? address).isSome
  · simp [AddAddress, hnew] at h
  · simp only [AddAddress, hnew, DeleteAddress]
    rw [if_neg (by simp), KeyMap.erase_insert_of_find?_eq_none (by simpa using hnew)]

theorem AddAddress_wellFormed {al : AccessList} (hal : al.WellFormed) (address : Address) :
    (al.AddAddress address).1.WellFormed := by
  unfold AddAddress
  split
  · exact hal
  · intro a idx h
    rw [KeyMap.find?_insert] at h
    split at h
    · cases h
      exact Or.inl rfl
    · exact hal a idx h

theorem slotAt_set_of_slotAt {al : AccessList} {idx : Int} {m : KeyMap Hash Unit}
    (h : al.slotAt idx = some m) (m' : KeyMap Hash Unit) :
    ({ al with slots := al.slots.set idx.toNat m' } : AccessList).slotAt idx = some m' := by
  unfold slotAt at h ⊢
  split at h
  · cases h
  · rw [if_neg (by assumption)]
    exact List.getElem?_set_self (List.getElem?_eq_some_iff.1 h).1

theorem slotAt_set_of_ne {al : AccessList} {idx idx' : Int} (h : idx' ≠ idx) (hidx : 0 ≤ idx)
    (m' : KeyMap Hash Unit) :
    ({ al with slots := al.slots.set idx.toNat m' } : AccessList).slotAt idx' = al.slotAt idx' := by
  unfold slotAt
  split
  · rfl
  · exact List.getElem?_set_ne (by omega)

theorem DeleteSlot_of_slotAt {al : AccessList} {address : Address} {idx : Int}
    {m : KeyMap Hash Unit} (ha : al.addresses.find? address = some idx) (hm : al.slotAt idx = some m)
    (slot : Hash) :
    al.DeleteSlot address slot = some (if (m.erase slot).size = 0 then
      { addresses := al.addresses.insert address (-1), slots := al.slots.take idx.toNat }
    else { al with slots := al.slots.set idx.toNat (m.erase slot) }) := by
  simp only [DeleteSlot, ha, hm, Option.bind_eq_bind, Option.bind_some]
  split <;> rfl

/-- The undo of an `AddSlot`: the slot's entry is reverted first, then the
address's, if there are such entries. -/
theorem AddSlot_undo {al al' : AccessList} {address : Address} {slot : Hash}
    {addrMod slotMod : Bool} (hal : al.WellFormed)
    (h : al.AddSlot address slot = some (al', addrMod, slotMod)) :
    (if slotMod then al'.DeleteSlot address slot else some al').map
      (fun al'' => if addrMod then al''.DeleteAddress address else al'') = some al := by
  dsimp only [AddSlot] at h
  split at h
  · -- a new slot set at the end of `slots`
    rename_i hfound
    cases h
    have hnew : (⟨al.addresses.insert address al.slots.length,
        al.slots ++ [KeyMap.empty.insert slot ()]⟩ : AccessList).addresses.find? address =
        some (al.slots.length : Int) := KeyMap.find?_insert_self _ _ _
    rw [if_pos rfl, DeleteSlot_of_slotAt hnew (slotAt_append_length _ _ _) slot,
      KeyMap.erase_insert_of_find?_eq_none (KeyMap.find?_empty _)]
    simp only [KeyMap.size_empty, ↓reduceIte, Int.toNat_natCast, List.take_left,
      KeyMap.insert_insert]
    rcases hfound with hnone | hneg
    · simp [hnone, DeleteAddress, KeyMap.erase_insert_of_find?_eq_none hnone]
    · simp [hneg, KeyMap.insert_of_find?_eq_some hneg]
  · -- an existing slot set
    rename_i hfound
    generalize hi : (al.addresses.find? address).getD 0 = idx at h
    obtain ⟨slotmap, hat, hres⟩ := Option.map_eq_some_iff.1 h
    have hidx : al.addresses.find? address = some idx := by
      cases hf : al.addresses.find? address with
      | none => exact absurd (Or.inl hf) hfound
      | some idx' => rw [hf] at hi; exact congrArg some hi
    split at hres
    · rename_i hslot
      cases hres
      obtain hneg | ⟨m, hm, hpos⟩ := hal address _ hidx
      · exact absurd (Or.inr (hneg ▸ hidx)) hfound
      · rw [hat] at hm
        cases hm
        have hnonneg : ¬ idx < 0 := by
          intro hlt
          simp [slotAt, hlt] at hat
        have hget : al.slots[idx.toNat]? = some slotmap := by simpa [slotAt, hnonneg] using hat
        have hidx' : ({ al with slots := al.slots.set idx.toNat (slotmap.insert slot ()) } :
            AccessList).addresses.find? address = some idx := hidx
        rw [if_pos rfl, DeleteSlot_of_slotAt hidx' (slotAt_set_of_slotAt hat _) slot,
          KeyMap.erase_insert_of_find?_eq_none (by simpa using hslot),
          if_neg (by omega : ¬ slotmap.size = 0), List.set_set]
        simp only [Option.map_some, Bool.false_eq_true, if_false]
        rw [← (List.getElem?_eq_some_iff.1 hget).2, List.set_getElem_self]
    · simp only [Prod.mk.injEq] at hres
      obtain ⟨rfl, rfl, rfl⟩ := hres
      rfl

theorem AddSlot_wellFormed {al al' : AccessList} {address : Address} {slot : Hash}
    {addrMod slotMod : Bool} (hal : al.WellFormed)
    (h : al.AddSlot address slot = some (al', addrMod, slotMod)) : al'.WellFormed := by
  dsimp only [AddSlot] at h
  split at h
  · cases h
    intro a idx ha
    rw [KeyMap.find?_insert] at ha
    split at ha
    · cases ha
      exact Or.inr ⟨_, slotAt_append_length _ _ _, by simp [size_singleton]⟩
    · rcases hal a idx ha with hneg | ⟨m, hm, hpos⟩
      · exact Or.inl hneg
      · exact Or.inr ⟨m, slotAt_append_of_slotAt hm _ _, hpos⟩
  · obtain ⟨slotmap, hat, hres⟩ := Option.map_eq_some_iff.1 h
    have hnonneg : 0 ≤ (al.addresses.find? address).getD 0 := by
      by_contra hlt
      simp [slotAt, show (al.addresses.find? address).getD 0 < 0 by omega] at hat
    split at hres
    · cases hres
      intro a idx ha
      rcases hal a idx ha with hneg | ⟨m, hm, hpos⟩
      · exact Or.inl hneg
      · by_cases hi : idx = (al.addresses.find? address).getD 0
        · subst hi
          rw [hat] at hm
          cases hm
          refine Or.inr ⟨_, slotAt_set_of_slotAt hat _, ?_⟩
          rw [KeyMap.size_insert]
          split <;> omega
        · exact Or.inr ⟨m, (slotAt_set_of_ne hi hnonneg _).trans hm, hpos⟩
    · cases hres
      exact hal

end AccessList

end Xdchain.State
