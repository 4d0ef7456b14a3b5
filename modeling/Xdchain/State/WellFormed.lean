import Xdchain.State.Congruence

/-! # Well-formed states

What every state the code builds has, and the revert proof needs. Objects
sit under their own address. The records objects point to are allocated and
each belongs to one account. The records that journal entries keep are
allocated, distinct, and no object points to them: a write through an
object's pointer never reaches a record a revert will put back. The access
list is well formed, and every visible account has a code hash and no fake
storage.

The first two parts are kept by every revert (`Ptrs.undoAll`); the last two
are read off the view, so they pass from a state to any state with the same
view (`ViewGood.of_sameView`). -/

namespace Xdchain.State
open Xdchain.Lib

namespace StateDB

/-- The record the object at `a` points to. -/
def ptrOf (s : StateDB) (a : Address) : Option Ptr :=
  (s.stateObjects.find? a).bind StateObject.accountExtraData

def KeysMatch (s : StateDB) : Prop := ∀ a o, s.stateObjects.find? a = some o → o.address = a

/-- The heap records of the objects, and those the entries `es` keep. -/
structure PtrWF (s : StateDB) (h : Heap) (es : List JournalEntry) : Prop where
  live_lt : ∀ a p, s.ptrOf a = some p → p < h.next
  live_inj : ∀ a b p, s.ptrOf a = some p → s.ptrOf b = some p → a = b
  frozen_lt : ∀ e ∈ es, ∀ p, e.frozen = some p → p < h.next
  frozen_not_live : ∀ e ∈ es, ∀ p, e.frozen = some p → ∀ a, s.ptrOf a ≠ some p
  frozen_nodup : (es.filterMap JournalEntry.frozen).Nodup

/-- The parts kept by reverts. -/
structure Ptrs (s : StateDB) (h : Heap) (es : List JournalEntry) : Prop where
  keys : s.KeysMatch
  ptrs : s.PtrWF h es

/-- The parts read off the view. -/
structure ViewGood (s : StateDB) : Prop where
  noFake : ∀ a o, s.getStateObject a = some o → o.fakeStorage = none
  codeHash : ∀ a o, s.getStateObject a = some o → o.data.codeHash.isSome
  accessList : s.accessList.WellFormed

variable {s x x' : StateDB} {h : Heap} {es : List JournalEntry}

theorem ptrOf_setStateObject (s : StateDB) (o : StateObject) (b : Address) :
    (s.setStateObject o).ptrOf b = if b = o.address then o.accountExtraData else s.ptrOf b := by
  unfold ptrOf setStateObject
  rw [KeyMap.find?_insert]
  split <;> rfl

theorem keysMatch_setStateObject (hk : s.KeysMatch) (o : StateObject) : (s.setStateObject o).KeysMatch := by
  intro a o' ha
  unfold setStateObject at ha
  rw [KeyMap.find?_insert] at ha
  split at ha
  · rename_i hkey
    cases ha
    exact hkey.symm
  · exact hk a o' ha

/-- The object `getStateObject` gives points where the account does. -/
theorem ptrOf_of_getStateObject (hk : s.KeysMatch) {a : Address} {o : StateObject}
    (ho : s.getStateObject a = some o) : o.accountExtraData = s.ptrOf a ∧ o.address = a := by
  unfold getStateObject getDeletedStateObject at ho
  rw [Option.filter_eq_some_iff] at ho
  unfold ptrOf
  cases hf : s.stateObjects.find? a with
  | some o' =>
    rw [hf] at ho
    cases ho.1
    exact ⟨rfl, hk a o hf⟩
  | none =>
    rw [hf] at ho
    obtain ⟨d, -, rfl⟩ := Option.map_eq_some_iff.1 ho.1
    exact ⟨rfl, rfl⟩

theorem PtrWF.mono {es fs : List JournalEntry} (hp : s.PtrWF h fs) (hsub : es.Sublist fs) :
    s.PtrWF h es where
  live_lt := hp.live_lt
  live_inj := hp.live_inj
  frozen_lt e he := hp.frozen_lt e (hsub.subset he)
  frozen_not_live e he := hp.frozen_not_live e (hsub.subset he)
  frozen_nodup := hp.frozen_nodup.sublist (hsub.filterMap _)

/-- Writing an object whose record is allocated, is no other account's, and
is kept by none of `es`. -/
theorem PtrWF.setStateObject (hp : s.PtrWF h es) (o : StateObject)
    (ho : ∀ q, o.accountExtraData = some q →
      q < h.next ∧ (∀ b, s.ptrOf b = some q → b = o.address) ∧ ∀ e ∈ es, e.frozen ≠ some q) :
    (s.setStateObject o).PtrWF h es where
  live_lt a p hap := by
    rw [ptrOf_setStateObject] at hap
    split at hap
    · exact (ho p hap).1
    · exact hp.live_lt a p hap
  live_inj a b p hap hbp := by
    rw [ptrOf_setStateObject] at hap hbp
    split at hap <;> split at hbp
    · rename_i ha hb
      rw [ha, hb]
    · rename_i ha hb
      exact absurd ((ho p hap).2.1 b hbp) hb
    · rename_i ha hb
      exact absurd ((ho p hbp).2.1 a hap) ha
    · exact hp.live_inj a b p hap hbp
  frozen_lt := hp.frozen_lt
  frozen_not_live e he p hep a hap := by
    rw [ptrOf_setStateObject] at hap
    split at hap
    · exact (ho p hap).2.2 e he hep
    · exact hp.frozen_not_live e he p hep a hap
  frozen_nodup := hp.frozen_nodup

theorem PtrWF.of_stateObjects (hp : s.PtrWF h es) (heq : x.stateObjects = s.stateObjects) :
    x.PtrWF h es := by
  have hptr : x.ptrOf = s.ptrOf := by
    funext a
    unfold ptrOf
    rw [heq]
  exact { live_lt := hptr ▸ hp.live_lt, live_inj := hptr ▸ hp.live_inj, frozen_lt := hp.frozen_lt,
          frozen_not_live := hptr ▸ hp.frozen_not_live, frozen_nodup := hp.frozen_nodup }

theorem PtrWF.erase (hp : s.PtrWF h es) (a : Address) (d : KeyMap Address Unit) :
    ({ s with stateObjects := s.stateObjects.erase a, stateObjectsDirty := d } : StateDB).PtrWF h es := by
  have hptr : ∀ b, ({ s with stateObjects := s.stateObjects.erase a, stateObjectsDirty := d } :
      StateDB).ptrOf b = if b = a then none else s.ptrOf b := by
    intro b
    unfold ptrOf
    rw [KeyMap.find?_erase]
    split <;> rfl
  refine { live_lt := fun b p hbp => ?_, live_inj := fun b c p hbp hcp => ?_,
           frozen_lt := hp.frozen_lt, frozen_not_live := fun e he p hep b hbp => ?_,
           frozen_nodup := hp.frozen_nodup }
  all_goals rw [hptr] at hbp; split at hbp
  · cases hbp
  · exact hp.live_lt b p hbp
  · cases hbp
  · rw [hptr] at hcp
    split at hcp
    · cases hcp
    · exact hp.live_inj b c p hbp hcp
  · cases hbp
  · exact hp.frozen_not_live e he p hep b hbp

theorem keysMatch_erase (hk : s.KeysMatch) (a : Address) (d : KeyMap Address Unit) :
    ({ s with stateObjects := s.stateObjects.erase a, stateObjectsDirty := d } : StateDB).KeysMatch := by
  intro b o hb
  have := KeyMap.find?_erase s.stateObjects a b
  simp only at hb
  rw [this] at hb
  split at hb
  · cases hb
  · exact hk b o hb

/-- A revert that writes the account's object without moving its pointer. -/
theorem Ptrs.modifyObject (hg : x.Ptrs h es) {a : Address} {f : StateObject → StateObject}
    (hf : ∀ o, (f o).accountExtraData = o.accountExtraData ∧ (f o).address = o.address)
    (hx' : x.modifyObject a f = some x') : x'.Ptrs h es := by
  obtain ⟨o, ho, rfl⟩ := Option.map_eq_some_iff.1 hx'
  obtain ⟨hptr, haddr⟩ := ptrOf_of_getStateObject hg.keys ho
  refine ⟨keysMatch_setStateObject hg.keys _, hg.ptrs.setStateObject _ fun q hq => ?_⟩
  rw [(hf o).1, hptr] at hq
  refine ⟨hg.ptrs.live_lt a q hq, fun b hb => ?_, fun e he hep => hg.ptrs.frozen_not_live e he q hep a hq⟩
  rw [(hf o).2, haddr]
  exact hg.ptrs.live_inj b a q hb hq

/-- A revert that puts back the record its entry kept. -/
theorem Ptrs.restore (hg : x.Ptrs h (es ++ [e])) {o : StateObject} (he : o.accountExtraData = e.frozen) :
    (x.setStateObject o).Ptrs h es := by
  have hp := hg.ptrs
  refine ⟨keysMatch_setStateObject hg.keys _, (hp.mono (List.sublist_append_left es [e])).setStateObject
    _ fun q hq => ?_⟩
  rw [he] at hq
  have hmem : e ∈ es ++ [e] := List.mem_append_right es (List.mem_singleton_self e)
  refine ⟨hp.frozen_lt e hmem q hq, fun b hb => absurd hb (hp.frozen_not_live e hmem q hq b),
    fun e' he' he'q => ?_⟩
  have hnodup := hp.frozen_nodup
  rw [List.filterMap_append, List.nodup_append] at hnodup
  exact hnodup.2.2 q ((List.mem_filterMap).2 ⟨e', he', he'q⟩) q (by simp [hq]) rfl

/-- **Every revert keeps the keys and the pointers**, and the entry it
reverts no longer counts. -/
theorem Ptrs.revert (hg : x.Ptrs h (es ++ [e])) (hx' : e.revert x = some x') : x'.Ptrs h es := by
  have hg' : x.Ptrs h es := ⟨hg.keys, hg.ptrs.mono (List.sublist_append_left es [e])⟩
  cases e with
  | createObjectChange account =>
    cases hx'
    exact ⟨keysMatch_erase hg.keys _ _, hg'.ptrs.erase _ _⟩
  | resetObjectChange prev =>
    cases hx'
    exact hg.restore rfl
  | suicideChange account prev prevbalance =>
    cases hx'
    cases hm : x.modifyObject account (fun obj => { obj with suicided := prev }.setBalance prevbalance) with
    | none => exact hg'
    | some x'' =>
      exact hg'.modifyObject (f := fun obj => { obj with suicided := prev }.setBalance prevbalance)
        (fun _ => ⟨rfl, rfl⟩) hm
  | balanceChange account prev =>
    exact hg'.modifyObject (f := fun obj => obj.setBalance prev) (fun _ => ⟨rfl, rfl⟩) hx'
  | nonceChange account prev =>
    exact hg'.modifyObject (f := fun obj => obj.setNonce prev) (fun _ => ⟨rfl, rfl⟩) hx'
  | codeChange account prevcode prevhash =>
    exact hg'.modifyObject (f := fun obj => obj.setCode (prevhash.getD 0) prevcode)
      (fun _ => ⟨rfl, rfl⟩) hx'
  | accountExtraDataChange account prev =>
    obtain ⟨o, ho, rfl⟩ := Option.map_eq_some_iff.1 hx'
    exact hg.restore (o := o.setAccountExtraData prev) rfl
  | storageChange account key prevalue =>
    exact hg'.modifyObject (f := fun obj => obj.setState key prevalue) (fun _ => ⟨rfl, rfl⟩) hx'
  | refundChange prev =>
    cases hx'
    exact ⟨hg'.keys, hg'.ptrs.of_stateObjects rfl⟩
  | addLogChange txhash =>
    simp only [JournalEntry.revert] at hx'
    split at hx'
    · cases hx'
      exact ⟨hg'.keys, hg'.ptrs.of_stateObjects rfl⟩
    · split at hx'
      · cases hx'
      · cases hx'
        exact ⟨hg'.keys, hg'.ptrs.of_stateObjects rfl⟩
  | addPreimageChange hash =>
    cases hx'
    exact ⟨hg'.keys, hg'.ptrs.of_stateObjects rfl⟩
  | touchChange account =>
    cases hx'
    exact hg'
  | accessListAddAccountChange address =>
    cases hx'
    exact ⟨hg'.keys, hg'.ptrs.of_stateObjects rfl⟩
  | accessListAddSlotChange address slot =>
    obtain ⟨al, -, rfl⟩ := Option.map_eq_some_iff.1 hx'
    exact ⟨hg'.keys, hg'.ptrs.of_stateObjects rfl⟩

theorem Ptrs.revertStep (hg : x.Ptrs h (es ++ [e])) (hx' : e.revertStep x = some x') : x'.Ptrs h es := by
  obtain ⟨x'', hx'', rfl⟩ := Option.map_eq_some_iff.1 hx'
  have := hg.revert hx''
  cases e.dirtied with
  | none => exact this
  | some a => exact ⟨this.keys, this.ptrs.of_stateObjects rfl⟩

/-- Undoing `fs` from the end keeps the keys and pointers, with the entries
before `fs` still counted. -/
theorem Ptrs.undoAll {fs : List JournalEntry} (hg : x.Ptrs h (es ++ fs))
    (hx' : Journal.undoAll JournalEntry.revertStep fs x = some x') : x'.Ptrs h es := by
  induction fs generalizing es x' with
  | nil =>
    cases hx'
    simpa using hg
  | cons e fs ih =>
    rw [Journal.undoAll_cons, Option.bind_eq_some_iff] at hx'
    obtain ⟨x1, hx1, hx'⟩ := hx'
    have h1 : x1.Ptrs h (es ++ [e]) := ih (by simpa using hg) hx1
    exact h1.revertStep hx'

/-- The object the right state shows has one with its view on the left. -/
theorem SameView.getStateObject_of_right {h' : Heap} {y : StateDB} (hxy : SameView h h' x y) {a : Address}
    {oy : StateObject} (hoy : y.getStateObject a = some oy) :
    ∃ ox, x.getStateObject a = some ox ∧ ox.view x.db h = oy.view y.db h' := by
  cases hox : x.getStateObject a with
  | none => exact absurd hoy (by rw [hxy.getStateObject_none hox]; simp)
  | some ox =>
    obtain ⟨oy', hoy', hv⟩ := hxy.getStateObject_some hox
    rw [hoy] at hoy'
    cases hoy'
    exact ⟨ox, rfl, hv⟩

/-- **The view-read parts pass to any state with the same view.** -/
theorem ViewGood.of_sameView {h' : Heap} {y : StateDB} (hg : x.ViewGood) (hxy : SameView h h' x y) :
    y.ViewGood where
  noFake a oy hoy := by
    obtain ⟨ox, hox, hv⟩ := hxy.getStateObject_of_right hoy
    have hfake := congrArg AccountView.fake hv
    simp only [StateObject.view, hg.noFake a ox hox, Option.isSome_none] at hfake
    cases hf : oy.fakeStorage with
    | none => rfl
    | some _ => simp [hf] at hfake
  codeHash a oy hoy := by
    obtain ⟨ox, hox, hv⟩ := hxy.getStateObject_of_right hoy
    have hcode := congrArg AccountView.codeHash hv
    simp only [StateObject.view] at hcode
    rw [← hcode]
    exact hg.codeHash a ox hox
  accessList := hxy.accessList ▸ hg.accessList

end StateDB

end Xdchain.State
