import Xdchain.State.Undo

/-! # Every journaled setter is undoable

Each setter of `StateDB` that the journal records is an `Undoable` change:
the object setters through the shapes of `Xdchain.State.Undo`, the account
setters as `GetOrNewStateObject` followed by the object's setter, and the
setters of the logs, preimages, refund and access list as changes that leave
the objects alone. What the setters need of the state is what `Undoable`
keeps: objects under their own addresses with records of their own, a well
formed access list, and visible objects with a code hash and no fake
storage. -/

namespace Xdchain.State
open Xdchain.Lib

@[simp] theorem Journal.entries_dirty (j : Journal) (addr : Address) : (j.dirty addr).entries = j.entries :=
  rfl

theorem AccessList.AddAddress_of_not_added {al : AccessList} {address : Address}
    (h : (al.AddAddress address).2 = false) : (al.AddAddress address).1 = al := by
  unfold AccessList.AddAddress at h ⊢
  split
  · rfl
  · next hnew => simp [hnew] at h

open StateDB

variable {s : StateDB} {h : Heap} {a : Address} {obj : StateObject}

/-! ## The object's setters -/

namespace StateObject

section

variable (hg : s.Ptrs h s.journal.entries) (hv : s.ViewGood) (ho : s.getStateObject a = some obj)
include hg hv ho

theorem undoable_SetBalance (amount : Int) : Undoable s h (obj.SetBalance amount s) h := by
  obtain ⟨-, rfl⟩ := ptrOf_of_getStateObject hg.keys ho
  refine undoable_modify hg hv ho (by rfl) ⟨rfl, rfl, rfl, rfl⟩ (hv.codeHash _ obj ho) obj (fun t ht => ?_)
    ⟨rfl, rfl, rfl⟩
  simp only [JournalEntry.revert, modifyObject, ht, Option.map_some]
  rfl

theorem undoable_SetNonce (nonce : Nat) : Undoable s h (obj.SetNonce nonce s) h := by
  obtain ⟨-, rfl⟩ := ptrOf_of_getStateObject hg.keys ho
  refine undoable_modify hg hv ho (by rfl) ⟨rfl, rfl, rfl, rfl⟩ (hv.codeHash _ obj ho) obj (fun t ht => ?_)
    ⟨rfl, rfl, rfl⟩
  simp only [JournalEntry.revert, modifyObject, ht, Option.map_some]
  rfl

/-- The revert writes the old code and hash back; the hash is the one the
object had, since every visible object has one. -/
theorem undoable_SetCode (codeHash : Hash) (code : List UInt8) :
    Undoable s h (obj.SetCode codeHash code s) h := by
  obtain ⟨-, rfl⟩ := ptrOf_of_getStateObject hg.keys ho
  obtain ⟨c, hc⟩ := Option.isSome_iff_exists.1 (hv.codeHash _ obj ho)
  refine undoable_modify hg hv ho (by rfl) ⟨rfl, rfl, rfl, rfl⟩ (by rfl)
    ((obj.setCode codeHash code).setCode (obj.data.codeHash.getD 0) (obj.Code s.db))
    (fun t ht => by simp only [JournalEntry.revert, modifyObject, ht, Option.map_some]) ⟨rfl, rfl, ?_⟩
  rw [view_setCode, view_setCode]
  simp only [view, hc, Option.getD_some]

/-- Without a fake storage a write is journaled unless it changes nothing. -/
theorem undoable_SetState (key value : Hash) : Undoable s h (obj.SetState key value s) h := by
  obtain ⟨-, rfl⟩ := ptrOf_of_getStateObject hg.keys ho
  have hfake := hv.noFake _ obj ho
  unfold SetState
  rw [hfake]
  dsimp only
  split
  · exact Undoable.refl hg hv
  · refine undoable_modify hg hv ho (by rfl) ⟨rfl, rfl, rfl, rfl⟩ (hv.codeHash _ obj ho)
      ((obj.setState key value).setState key (obj.GetState s.db key))
      (fun t ht => by simp only [JournalEntry.revert, modifyObject, ht, Option.map_some]) ⟨rfl, rfl, ?_⟩
    rw [view_setState, view_setState]
    simp [view, hfake]

omit ho in
theorem undoable_touch : Undoable s h (obj.touch s) h := by
  have hundo : ∀ t : StateDB, t.stateObjects = s.stateObjects → t.db = s.db → t.refund = s.refund →
      t.logs = s.logs → t.logSize = s.logSize → t.preimages = s.preimages → t.accessList = s.accessList →
      ∃ x', Journal.undoAll JournalEntry.revertStep [.touchChange obj.address] t = some x' ∧ SameView h h x' s :=
    fun t hso hdb hr hl hsz hp hal => ⟨_, rfl, sameView_of_eq hdb hso hr hl hsz hp hal⟩
  unfold touch
  split
  · exact undoable_of_stateObjects hg hv [_] (by simp) (by simp [JournalEntry.frozen]) rfl rfl rfl rfl
      hv.accessList (hundo _ rfl rfl rfl rfl rfl rfl rfl)
  · exact undoable_of_stateObjects hg hv [_] (by simp) (by simp [JournalEntry.frozen]) rfl rfl rfl rfl
      hv.accessList (hundo _ rfl rfl rfl rfl rfl rfl rfl)

theorem undoable_AddBalance (amount : Int) : Undoable s h (obj.AddBalance amount s) h := by
  unfold AddBalance
  split
  · split
    · exact undoable_touch hg hv
    · exact Undoable.refl hg hv
  · exact undoable_SetBalance hg hv ho _

theorem undoable_SubBalance (amount : Int) : Undoable s h (obj.SubBalance amount s) h := by
  unfold SubBalance
  split
  · exact Undoable.refl hg hv
  · exact undoable_SetBalance hg hv ho _

/-- The write through the record `journalAccountExtraData` gives, in each of
its three cases: the object's own record with a copy journaled, a committed
record cached in a new cell with a copy journaled, or a new record with
nothing to copy. -/
theorem undoable_writeExtraData {o1 : StateObject} {p : Ptr} {s1 : StateDB} {h1 : Heap}
    (hr : obj.journalAccountExtraData s h = (o1, p, s1, h1))
    (upd : State.AccountExtraData → State.AccountExtraData) :
    Undoable s h (s1.setStateObject (o1.setAccountExtraData (some p))) (h1.write p (upd (h1.cells p))) := by
  obtain ⟨hptrA, rfl⟩ := ptrOf_of_getStateObject hg.keys ho
  unfold journalAccountExtraData at hr
  cases hA : obj.accountExtraData with
  | some p0 =>
    simp only [hA, AccountExtraData.copy, Prod.mk.injEq] at hr
    obtain ⟨rfl, rfl, rfl, rfl⟩ := hr
    have hlt : p0 < h.next := hg.ptrs.live_lt _ p0 (hptrA ▸ hA)
    refine undoable_extraData hg hv ho (by simp) (by simpa using Nat.lt_succ_of_lt hlt) (Or.inl hA)
      (fun q hq => ?_) (fun q hq hqp => ?_) ?_
    · cases hq
      simpa using Nat.ne_of_gt hlt
    · rw [Heap.cells_write, if_neg hqp, Heap.cells_alloc, if_neg (Nat.ne_of_lt hq)]
    · simp [AccountExtraData, setAccountExtraData, hA, Heap.cells_write, Heap.cells_alloc, Nat.ne_of_gt hlt]
  | none =>
    cases hc : obj.getCommittedAccountExtraData s.db with
    | ok v =>
      -- the committed record is cached in a new cell, and a copy of it journaled
      simp only [hA, hc, AccountExtraData.copy, Prod.mk.injEq] at hr
      obtain ⟨rfl, rfl, rfl, rfl⟩ := hr
      refine undoable_extraData hg hv ho (p := h.next) (Nat.le_add_right h.next 2)
        (Nat.lt_add_of_pos_right Nat.zero_lt_two) (Or.inr (Nat.le_refl _))
        (fun q hq => by cases hq; simp) (fun q hq hqp => ?_) ?_
      · simp only [Heap.alloc_fst] at hqp ⊢
        rw [Heap.cells_write, if_neg hqp, Heap.cells_alloc, Heap.next_alloc,
          if_neg (Nat.ne_of_lt (Nat.lt_succ_of_lt hq)), Heap.cells_alloc, if_neg hqp]
      · simp [AccountExtraData, setAccountExtraData, hA, hc, Heap.cells_write, Heap.cells_alloc]
    | error err =>
      -- no record to copy: the entry keeps none, and a new record is written
      simp only [hA, hc, AccountExtraData.copy, Prod.mk.injEq] at hr
      obtain ⟨rfl, rfl, rfl, rfl⟩ := hr
      refine undoable_extraData hg hv ho (p := h.next) (by simp) (by simp) (Or.inr (Nat.le_refl _))
        (fun q hq => by cases hq) (fun q hq hqp => ?_) ?_
      · simp only [Heap.alloc_fst] at hqp ⊢
        rw [Heap.cells_write, if_neg hqp, Heap.cells_alloc, if_neg hqp]
      · simp only [AccountExtraData, setAccountExtraData, hA]
        rfl

theorem undoable_SetStatePrivacyMetadata (pm : Option State.PrivacyMetadata) :
    Undoable s h (obj.SetStatePrivacyMetadata pm s h).1 (obj.SetStatePrivacyMetadata pm s h).2 := by
  obtain ⟨⟨o1, p, s1, h1⟩, hr⟩ : ∃ r, obj.journalAccountExtraData s h = r := ⟨_, rfl⟩
  unfold SetStatePrivacyMetadata
  rw [hr]
  exact undoable_writeExtraData hg hv ho hr fun c => { c with privacyMetadata := pm }

theorem undoable_SetManagedParties (managedParties : List String) :
    Undoable s h (obj.SetManagedParties managedParties s h).1 (obj.SetManagedParties managedParties s h).2 := by
  obtain ⟨⟨o1, p, s1, h1⟩, hr⟩ : ∃ r, obj.journalAccountExtraData s h = r := ⟨_, rfl⟩
  unfold SetManagedParties
  rw [hr]
  exact undoable_writeExtraData hg hv ho hr fun c => { c with managedParties := managedParties }

end

end StateObject

/-! ## The state's setters -/

namespace StateDB

theorem getStateObject_GetOrNewStateObject (s : StateDB) (addr : Address) :
    (s.GetOrNewStateObject addr).2.getStateObject addr = some (s.GetOrNewStateObject addr).1 := by
  unfold GetOrNewStateObject
  cases ho : s.getStateObject addr with
  | some obj => exact ho
  | none =>
    obtain ⟨e, he, -⟩ := createObject_snd_snd s addr
    obtain ⟨ha, -, -, -, hdel⟩ := createObject_fst s addr
    show (s.createObject addr).2.2.getStateObject addr = some (s.createObject addr).1
    rw [he, getStateObject_setStateObject, if_pos ha.symm, hdel]
    rfl

section

variable (hg : s.Ptrs h s.journal.entries) (hv : s.ViewGood)
include hg hv

theorem undoable_GetOrNewStateObject (addr : Address) : Undoable s h (s.GetOrNewStateObject addr).2 h := by
  unfold GetOrNewStateObject
  cases s.getStateObject addr with
  | some obj => exact Undoable.refl hg hv
  | none => exact undoable_createObject hg hv addr

theorem undoable_AddBalance (addr : Address) (amount : Int) : Undoable s h (s.AddBalance addr amount) h :=
  have hu := undoable_GetOrNewStateObject hg hv addr
  hu.trans (StateObject.undoable_AddBalance hu.ptrs hu.good (getStateObject_GetOrNewStateObject s addr) amount)

theorem undoable_SubBalance (addr : Address) (amount : Int) : Undoable s h (s.SubBalance addr amount) h :=
  have hu := undoable_GetOrNewStateObject hg hv addr
  hu.trans (StateObject.undoable_SubBalance hu.ptrs hu.good (getStateObject_GetOrNewStateObject s addr) amount)

theorem undoable_SetBalance (addr : Address) (amount : Int) : Undoable s h (s.SetBalance addr amount) h :=
  have hu := undoable_GetOrNewStateObject hg hv addr
  hu.trans (StateObject.undoable_SetBalance hu.ptrs hu.good (getStateObject_GetOrNewStateObject s addr) amount)

theorem undoable_SetNonce (addr : Address) (nonce : Nat) : Undoable s h (s.SetNonce addr nonce) h :=
  have hu := undoable_GetOrNewStateObject hg hv addr
  hu.trans (StateObject.undoable_SetNonce hu.ptrs hu.good (getStateObject_GetOrNewStateObject s addr) nonce)

theorem undoable_SetCode (addr : Address) (code : List UInt8) : Undoable s h (s.SetCode addr code) h :=
  have hu := undoable_GetOrNewStateObject hg hv addr
  hu.trans (StateObject.undoable_SetCode hu.ptrs hu.good (getStateObject_GetOrNewStateObject s addr) _ code)

theorem undoable_SetState (addr : Address) (key value : Hash) : Undoable s h (s.SetState addr key value) h :=
  have hu := undoable_GetOrNewStateObject hg hv addr
  hu.trans (StateObject.undoable_SetState hu.ptrs hu.good (getStateObject_GetOrNewStateObject s addr) key value)

theorem undoable_SetPrivacyMetadata (addr : Address) (metadata : Option PrivacyMetadata) :
    Undoable s h (s.SetPrivacyMetadata h addr metadata).1 (s.SetPrivacyMetadata h addr metadata).2 :=
  have hu := undoable_GetOrNewStateObject hg hv addr
  hu.trans (StateObject.undoable_SetStatePrivacyMetadata hu.ptrs hu.good
    (getStateObject_GetOrNewStateObject s addr) metadata)

theorem undoable_SetManagedParties (addr : Address) (managedParties : List String) :
    Undoable s h (s.SetManagedParties h addr managedParties).1 (s.SetManagedParties h addr managedParties).2 := by
  have hu := undoable_GetOrNewStateObject hg hv addr
  show Undoable s h (if 0 < managedParties.length then
      (s.GetOrNewStateObject addr).1.SetManagedParties managedParties (s.GetOrNewStateObject addr).2 h
    else ((s.GetOrNewStateObject addr).2, h)).1 (if 0 < managedParties.length then
      (s.GetOrNewStateObject addr).1.SetManagedParties managedParties (s.GetOrNewStateObject addr).2 h
    else ((s.GetOrNewStateObject addr).2, h)).2
  split
  · exact hu.trans (StateObject.undoable_SetManagedParties hu.ptrs hu.good
      (getStateObject_GetOrNewStateObject s addr) managedParties)
  · exact hu

theorem undoable_Suicide (addr : Address) : Undoable s h (s.Suicide addr).2 h := by
  unfold Suicide
  cases ho : s.getStateObject addr with
  | none => exact Undoable.refl hg hv
  | some so =>
    obtain ⟨-, rfl⟩ := ptrOf_of_getStateObject hg.keys ho
    refine undoable_modify hg hv ho (by rfl) ⟨rfl, rfl, rfl, rfl⟩ (hv.codeHash _ so ho) so (fun t ht => ?_)
      ⟨rfl, rfl, rfl⟩
    simp only [JournalEntry.revert, modifyObject, ht, Option.map_some, Option.getD_some]
    rfl

/-- A new account keeps the balance of the one it replaces: an unjournaled
write of the new object, which the creation's revert takes back with it. -/
theorem undoable_CreateAccount (addr : Address) : Undoable s h (s.CreateAccount addr) h := by
  unfold CreateAccount
  rcases hco : s.createObject addr with ⟨newObj, _ | prev, s'⟩
  · have hkeep := undoable_createObject hg hv addr
    rw [hco] at hkeep
    exact hkeep
  · obtain ⟨ha, hptr, hfake, hcode, -⟩ := createObject_fst s addr
    rw [hco] at ha hptr hfake hcode
    have hnew := undoable_createObject_setStateObject hg hv addr (o := newObj.setBalance prev.data.balance)
      ha hptr hfake hcode
    rw [hco] at hnew
    exact hnew

theorem undoable_AddRefund (gas : Nat) : Undoable s h (s.AddRefund gas) h :=
  undoable_of_stateObjects hg hv [.refundChange s.refund] (by simp [AddRefund]) (by simp [JournalEntry.frozen])
    rfl rfl rfl rfl hv.accessList ⟨_, rfl, sameView_of_eq rfl rfl rfl rfl rfl rfl rfl⟩

theorem undoable_SubRefund {gas : Nat} {y : StateDB} (hs : s.SubRefund gas = some y) : Undoable s h y h := by
  dsimp only [SubRefund] at hs
  split at hs
  · cases hs
  · cases hs
    exact undoable_of_stateObjects hg hv [.refundChange s.refund] (by simp) (by simp [JournalEntry.frozen])
      rfl rfl rfl rfl hv.accessList ⟨_, rfl, sameView_of_eq rfl rfl rfl rfl rfl rfl rfl⟩

/-- Only the first preimage of a hash is journaled, and its revert erases it. -/
theorem undoable_AddPreimage (hash : Hash) (preimage : List UInt8) :
    Undoable s h (s.AddPreimage hash preimage) h := by
  unfold AddPreimage
  split
  · next hnone =>
    exact undoable_of_stateObjects hg hv [.addPreimageChange hash] (by simp) (by simp [JournalEntry.frozen])
      rfl rfl rfl rfl hv.accessList ⟨_, rfl, sameView_of_eq rfl rfl rfl rfl rfl
        (KeyMap.erase_insert_of_find?_eq_none (Option.isNone_iff_eq_none.1 hnone) _) rfl⟩
  · exact Undoable.refl hg hv

theorem undoable_AddAddressToAccessList (addr : Address) : Undoable s h (s.AddAddressToAccessList addr) h := by
  show Undoable s h (if (s.accessList.AddAddress addr).2 then
      ({ s with accessList := (s.accessList.AddAddress addr).1 } : StateDB).append (.accessListAddAccountChange addr)
    else { s with accessList := (s.accessList.AddAddress addr).1 }) h
  have hwf := AccessList.AddAddress_wellFormed hv.accessList addr
  cases hadd : (s.accessList.AddAddress addr).2 with
  | true =>
    exact undoable_of_stateObjects hg hv [.accessListAddAccountChange addr] (by simp)
      (by simp [JournalEntry.frozen]) rfl rfl rfl rfl hwf
      ⟨_, rfl, sameView_of_eq rfl rfl rfl rfl rfl rfl (AccessList.AddAddress_undo hadd)⟩
  | false =>
    exact undoable_of_stateObjects hg hv [] (by simp) (by simp) rfl rfl rfl rfl hwf
      ⟨_, rfl, sameView_of_eq rfl rfl rfl rfl rfl rfl (AccessList.AddAddress_of_not_added hadd)⟩

/-- A log goes after the transaction's others; its revert takes it off, and
the transaction's entry with it when it was the first. -/
theorem undoable_AddLog (log : Log) : Undoable s h (s.AddLog log) h := by
  refine undoable_of_stateObjects hg hv [.addLogChange s.thash] (by simp [AddLog])
    (by simp [JournalEntry.frozen]) rfl rfl rfl rfl hv.accessList ?_
  rw [Journal.undoAll_singleton]
  have hlogs : ((s.AddLog log).logs.find? s.thash).getD [] = s.GetLogs s.thash ++
      [{ log with txHash := s.thash, blockHash := s.bhash, txIndex := s.txIndex, index := s.logSize }] := by
    simp [AddLog, GetLogs, StateDB.append]
  have hget : ∀ k, k ≠ s.thash → (s.AddLog log).GetLogs k = s.GetLogs k := fun k hk => by
    simp [AddLog, GetLogs, StateDB.append, KeyMap.find?_insert_of_ne _ _ hk]
  have hsize : (s.AddLog log).logSize - 1 = s.logSize := by simp [AddLog, StateDB.append]
  by_cases h0 : s.GetLogs s.thash = []
  · have hrev : (JournalEntry.addLogChange s.thash).revert (s.AddLog log) = some
        { s.AddLog log with logs := (s.AddLog log).logs.erase s.thash, logSize := (s.AddLog log).logSize - 1 } := by
      simp [JournalEntry.revert, hlogs, h0]
    obtain ⟨x', hx', hsame⟩ := sameView_revertStep (h := h) hrev
    refine ⟨x', hx', hsame.trans (sameView_of rfl (fun _ => rfl) rfl (funext fun k => ?_) hsize rfl rfl)⟩
    refine (GetLogs_erase _ _ k).trans ?_
    by_cases hk : k = s.thash
    · rw [if_pos hk, hk, h0]
    · rw [if_neg hk, hget k hk]
  · -- the revert keeps the logs before the added one
    have hlen : (s.GetLogs s.thash).length ≠ 0 := fun hl => h0 (List.length_eq_zero_iff.1 hl)
    have hrev : (JournalEntry.addLogChange s.thash).revert (s.AddLog log) = some
        { s.AddLog log with logs := (s.AddLog log).logs.insert s.thash (s.GetLogs s.thash),
                            logSize := (s.AddLog log).logSize - 1 } := by
      simp [JournalEntry.revert, hlogs, hlen]
    obtain ⟨x', hx', hsame⟩ := sameView_revertStep (h := h) hrev
    refine ⟨x', hx', hsame.trans (sameView_of rfl (fun _ => rfl) rfl (funext fun k => ?_) hsize rfl rfl)⟩
    refine (GetLogs_insert _ _ _ k).trans ?_
    by_cases hk : k = s.thash
    · rw [if_pos hk, hk]
    · rw [if_neg hk, hget k hk]

/-- The address's entry, if it was new, and the slot's, if it was new: undone
slot first, as `AddSlot_undo` has them. -/
theorem undoable_AddSlotToAccessList {addr : Address} {slot : Hash} {y : StateDB}
    (hs : s.AddSlotToAccessList addr slot = some y) : Undoable s h y h := by
  obtain ⟨⟨al, addrMod, slotMod⟩, hslot, rfl⟩ := Option.map_eq_some_iff.1 hs
  have hundo := AccessList.AddSlot_undo hv.accessList hslot
  have hwf := AccessList.AddSlot_wellFormed hv.accessList hslot
  -- the state the reverts give back: the old list, the journal aside
  have hback : ∀ t : StateDB, t.stateObjects = s.stateObjects → t.db = s.db → t.refund = s.refund →
      t.logs = s.logs → t.logSize = s.logSize → t.preimages = s.preimages →
      SameView h h { t with accessList := s.accessList } s :=
    fun t hso hdb hr hl hsz hp => sameView_of_eq hdb hso hr hl hsz hp rfl
  cases addrMod <;> cases slotMod
  · simp at hundo
    exact undoable_of_stateObjects hg hv [] (by simp) (by simp) rfl rfl rfl rfl hwf
      ⟨_, rfl, sameView_of_eq rfl rfl rfl rfl rfl rfl hundo⟩
  · simp at hundo
    refine undoable_of_stateObjects hg hv [.accessListAddSlotChange addr slot] (by simp)
      (by simp [JournalEntry.frozen]) rfl rfl rfl rfl hwf ?_
    have hrev : (JournalEntry.accessListAddSlotChange addr slot).revert
        (({ s with accessList := al } : StateDB).append (.accessListAddSlotChange addr slot)) =
        some { ({ s with accessList := al } : StateDB).append (.accessListAddSlotChange addr slot) with
          accessList := s.accessList } := by
      simp [JournalEntry.revert, hundo]
    obtain ⟨x', hx', hsame⟩ := sameView_revertStep (h := h) hrev
    exact ⟨x', by rw [Journal.undoAll_singleton]; exact hx', hsame.trans (hback _ rfl rfl rfl rfl rfl rfl)⟩
  · simp at hundo
    refine undoable_of_stateObjects hg hv [.accessListAddAccountChange addr] (by simp)
      (by simp [JournalEntry.frozen]) rfl rfl rfl rfl hwf ⟨_, rfl, ?_⟩
    exact sameView_of_eq rfl rfl rfl rfl rfl rfl hundo
  · simp only [if_true, Option.map_eq_some_iff] at hundo
    obtain ⟨al', hdel, hdelAddr⟩ := hundo
    refine undoable_of_stateObjects hg hv [.accessListAddAccountChange addr, .accessListAddSlotChange addr slot]
      (by simp) (by simp [JournalEntry.frozen]) rfl rfl rfl rfl hwf ?_
    refine ⟨{ ((({ s with accessList := al } : StateDB).append (.accessListAddAccountChange addr)).append
      (.accessListAddSlotChange addr slot)) with accessList := s.accessList }, ?_, hback _ rfl rfl rfl rfl rfl rfl⟩
    simp [Journal.undoAll_cons, JournalEntry.revertStep, JournalEntry.revert, JournalEntry.dirtied, hdel,
      hdelAddr]

end

end StateDB

end Xdchain.State
