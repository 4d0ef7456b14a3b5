import Xdchain.State.View

/-! # Reverts read only the view

Every entry's revert, run on two states with the same view, gives two states
with the same view again: it writes the account of its entry from what the
view shows of it, or from what the entry recorded. The one thing an entry
reads outside the view is the heap record it keeps (`JournalEntry.frozen`),
so two heaps must agree there. `carries_revertStep` puts this in the form
the journal library's simulation lemma takes. -/

namespace Xdchain.State
open Xdchain.Lib

/-- The heap record an entry keeps for its revert: the copy an extra-data
change journaled, or the record of the object a reset replaced. -/
def JournalEntry.frozen : JournalEntry → Option Ptr
  | .accountExtraDataChange _ prev => prev
  | .resetObjectChange prev => prev.accountExtraData
  | _ => none

/-! ## What each setter does to a view -/

namespace StateObject

variable (db : Database) (h : Heap) (o : StateObject)

theorem view_setBalance (v : Int) : (o.setBalance v).view db h = { o.view db h with balance := v } :=
  rfl

theorem view_setNonce (n : Nat) : (o.setNonce n).view db h = { o.view db h with nonce := n } := rfl

theorem view_setCode (codeHash : Hash) (code : List UInt8) :
    (o.setCode codeHash code).view db h =
      { o.view db h with codeHash := some codeHash, code := code } := rfl

theorem view_suicided (prev : Bool) (prevbalance : Int) :
    ({ o with suicided := prev }.setBalance prevbalance).view db h =
      { o.view db h with suicided := prev, balance := prevbalance } := rfl

/-- A write to the dirty storage shows unless a fake storage answers. -/
theorem GetState_setState (key value : Hash) :
    (o.setState key value).GetState db =
      if o.fakeStorage.isSome then o.GetState db else Function.update (o.GetState db) key value := by
  funext k
  obtain ⟨address, data, code, origin, pending, dirty, fake, dirtyCode, suicided, deleted,
    extra, dirtyExtra⟩ := o
  cases fake with
  | some fake => simp [GetState, setState]
  | none =>
    by_cases hk : k = key
    · subst hk
      simp [GetState, setState]
    · simp [GetState, setState, KeyMap.find?_insert_of_ne _ _ hk, hk, GetCommittedState]

theorem view_setState (key value : Hash) :
    (o.setState key value).view db h =
      { o.view db h with storage := if (o.view db h).fake then (o.view db h).storage
                                    else Function.update (o.view db h).storage key value } := by
  simp only [view, GetState_setState]
  rfl

theorem view_setAccountExtraData (p : Option Ptr) :
    (o.setAccountExtraData p).view db h =
      { o.view db h with extraData := match p with
                                      | some q => .ok (h.cells q)
                                      | none => o.getCommittedAccountExtraData db } := by
  cases p <;> rfl

theorem deleted_of_getStateObject {s : StateDB} {a : Address} {o : StateObject}
    (ho : s.getStateObject a = some o) : o.deleted = false := by
  unfold StateDB.getStateObject at ho
  rw [Option.filter_eq_some_iff] at ho
  simpa using ho.2

end StateObject

namespace StateDB

/-- Same committed state, and the same view under the heaps `hx` and `hy`. -/
def SameView (hx hy : Heap) (x y : StateDB) : Prop := x.db = y.db ∧ x.view hx = y.view hy

variable {hx hy : Heap} {x y : StateDB}

theorem SameView.symm (hxy : SameView hx hy x y) : SameView hy hx y x := ⟨hxy.1.symm, hxy.2.symm⟩

theorem SameView.trans {hz : Heap} {z : StateDB} (hxy : SameView hx hy x y) (hyz : SameView hy hz y z) :
    SameView hx hz x z := ⟨hxy.1.trans hyz.1, hxy.2.trans hyz.2⟩

theorem sameView_of (hdb : x.db = y.db)
    (hacc : ∀ a, (x.getStateObject a).map (StateObject.view x.db hx) =
      (y.getStateObject a).map (StateObject.view y.db hy))
    (hrefund : x.refund = y.refund) (hlogs : x.GetLogs = y.GetLogs) (hsize : x.logSize = y.logSize)
    (hpre : x.preimages.find? = y.preimages.find?) (hal : x.accessList = y.accessList) :
    SameView hx hy x y :=
  ⟨hdb, View.ext (funext hacc) hrefund hlogs hsize hpre hal⟩

theorem SameView.refund (hxy : SameView hx hy x y) : x.refund = y.refund :=
  congrArg View.refund hxy.2

theorem SameView.logs (hxy : SameView hx hy x y) : x.GetLogs = y.GetLogs := congrArg View.logs hxy.2

theorem SameView.logSize (hxy : SameView hx hy x y) : x.logSize = y.logSize :=
  congrArg View.logSize hxy.2

theorem SameView.preimages (hxy : SameView hx hy x y) : x.preimages.find? = y.preimages.find? :=
  congrArg View.preimages hxy.2

theorem SameView.accessList (hxy : SameView hx hy x y) : x.accessList = y.accessList :=
  congrArg View.accessList hxy.2

theorem SameView.accounts (hxy : SameView hx hy x y) (a : Address) :
    (x.getStateObject a).map (StateObject.view x.db hx) =
      (y.getStateObject a).map (StateObject.view y.db hy) :=
  congrFun (congrArg View.accounts hxy.2) a

theorem SameView.getStateObject_none (hxy : SameView hx hy x y) {a : Address}
    (hx0 : x.getStateObject a = none) : y.getStateObject a = none := by
  have := hxy.accounts a
  rw [hx0, Option.map_none] at this
  exact Option.map_eq_none_iff.1 this.symm

theorem SameView.getStateObject_some (hxy : SameView hx hy x y) {a : Address} {ox : StateObject}
    (hox : x.getStateObject a = some ox) :
    ∃ oy, y.getStateObject a = some oy ∧ ox.view x.db hx = oy.view y.db hy := by
  have := hxy.accounts a
  rw [hox, Option.map_some] at this
  obtain ⟨oy, hoy, hv⟩ := Option.map_eq_some_iff.1 this.symm
  exact ⟨oy, hoy, hv.symm⟩

/-- Writing objects with the same view into states with the same view. -/
theorem SameView.setStateObject (hxy : SameView hx hy x y) {ox oy : StateObject}
    (hv : ox.view x.db hx = oy.view y.db hy) (hdel : ox.deleted = oy.deleted) :
    SameView hx hy (x.setStateObject ox) (y.setStateObject oy) := by
  have haddr : ox.address = oy.address := congrArg AccountView.address hv
  refine sameView_of hxy.1 (fun b => ?_) hxy.refund hxy.logs hxy.logSize hxy.preimages hxy.accessList
  rw [getStateObject_setStateObject, getStateObject_setStateObject, haddr, hdel]
  split
  · split
    · rfl
    · exact congrArg some hv
  · exact hxy.accounts b

theorem modifyObject_eq_none_iff (s : StateDB) (a : Address) (f : StateObject → StateObject) :
    s.modifyObject a f = none ↔ s.getStateObject a = none := by
  simp [modifyObject]

/-- A revert that writes the account from its own view. -/
theorem SameView.modifyObject (hxy : SameView hx hy x y) {a : Address} {f : StateObject → StateObject}
    (hf : ∀ o o', o.view x.db hx = o'.view y.db hy → (f o).view x.db hx = (f o').view y.db hy)
    (hdel : ∀ o, (f o).deleted = o.deleted) {x' : StateDB} (hx' : x.modifyObject a f = some x') :
    ∃ y', y.modifyObject a f = some y' ∧ SameView hx hy x' y' := by
  obtain ⟨ox, hox, rfl⟩ := Option.map_eq_some_iff.1 hx'
  obtain ⟨oy, hoy, hv⟩ := hxy.getStateObject_some hox
  refine ⟨y.setStateObject (f oy), by simp [StateDB.modifyObject, hoy], hxy.setStateObject (hf _ _ hv) ?_⟩
  rw [hdel, hdel, StateObject.deleted_of_getStateObject hox, StateObject.deleted_of_getStateObject hoy]

theorem SameView.setStateObject_frozen (hxy : SameView hx hy x y) (o : StateObject)
    (hp : ∀ p, o.accountExtraData = some p → hx.cells p = hy.cells p) :
    SameView hx hy (x.setStateObject o) (y.setStateObject o) :=
  hxy.setStateObject (by rw [hxy.1]; exact view_heap_congr _ o hp) rfl

theorem GetLogs_erase (s : StateDB) (txhash : Hash) (k : Hash) :
    ({ s with logs := s.logs.erase txhash } : StateDB).GetLogs k = if k = txhash then [] else s.GetLogs k := by
  unfold GetLogs
  rw [KeyMap.find?_erase]
  split <;> rfl

theorem GetLogs_insert (s : StateDB) (txhash : Hash) (l : List Log) (k : Hash) :
    ({ s with logs := s.logs.insert txhash l } : StateDB).GetLogs k =
      if k = txhash then l else s.GetLogs k := by
  unfold GetLogs
  rw [KeyMap.find?_insert]
  split <;> rfl

/-- **Every entry's revert reads only the view**, and the heap at the
record the entry keeps. -/
theorem SameView.revert (hxy : SameView hx hy x y) (e : JournalEntry)
    (hfrozen : ∀ p, e.frozen = some p → hx.cells p = hy.cells p) {x' : StateDB}
    (hx' : e.revert x = some x') : ∃ y', e.revert y = some y' ∧ SameView hx hy x' y' := by
  cases e with
  | createObjectChange account =>
    cases hx'
    refine ⟨_, rfl, sameView_of hxy.1 (fun b => ?_) hxy.refund hxy.logs hxy.logSize hxy.preimages
      hxy.accessList⟩
    rw [getStateObject_erase, getStateObject_erase]
    split
    · -- the account is the trie's again, which has no record in the heap
      show Option.map (StateObject.view x.db hx) ((x.db.accounts account).map (newObject x.db account)) =
        Option.map (StateObject.view y.db hy) ((y.db.accounts account).map (newObject y.db account))
      rw [hxy.1]
      cases y.db.accounts account with
      | none => rfl
      | some d => exact congrArg some (view_heap_congr _ _ fun p hp => by cases hp)
    · exact hxy.accounts b
  | resetObjectChange prev =>
    cases hx'
    exact ⟨_, rfl, hxy.setStateObject_frozen prev hfrozen⟩
  | suicideChange account prev prevbalance =>
    cases hx'
    cases hm : x.modifyObject account (fun obj => { obj with suicided := prev }.setBalance prevbalance) with
    | none =>
      have hy0 := hxy.getStateObject_none ((modifyObject_eq_none_iff _ _ _).1 hm)
      refine ⟨y, ?_, by simpa [Option.getD] using hxy⟩
      simp [JournalEntry.revert, (modifyObject_eq_none_iff y _ _).2 hy0]
    | some x'' =>
      obtain ⟨y'', hy'', hs⟩ := hxy.modifyObject
        (f := fun obj => { obj with suicided := prev }.setBalance prevbalance)
        (fun o o' hv => by simp only [StateObject.view_suicided, hv]) (fun _ => rfl) hm
      exact ⟨y'', by simp [JournalEntry.revert, hy''], hs⟩
  | balanceChange account prev =>
    exact hxy.modifyObject (f := fun obj => obj.setBalance prev)
      (fun o o' hv => by simp only [StateObject.view_setBalance, hv]) (fun _ => rfl) hx'
  | nonceChange account prev =>
    exact hxy.modifyObject (f := fun obj => obj.setNonce prev)
      (fun o o' hv => by simp only [StateObject.view_setNonce, hv]) (fun _ => rfl) hx'
  | codeChange account prevcode prevhash =>
    exact hxy.modifyObject (f := fun obj => obj.setCode (prevhash.getD 0) prevcode)
      (fun o o' hv => by simp only [StateObject.view_setCode, hv]) (fun _ => rfl) hx'
  | accountExtraDataChange account prev =>
    refine hxy.modifyObject (f := fun obj => obj.setAccountExtraData prev)
      (fun o o' hv => ?_) (fun _ => rfl) hx'
    simp only [StateObject.view_setAccountExtraData, hv]
    have ha : o.address = o'.address := congrArg AccountView.address hv
    cases prev with
    | none => simp [StateObject.getCommittedAccountExtraData, ha, hxy.1]
    | some q => simp [hfrozen q rfl]
  | storageChange account key prevalue =>
    exact hxy.modifyObject (f := fun obj => obj.setState key prevalue)
      (fun o o' hv => by simp only [StateObject.view_setState, hv]) (fun _ => rfl) hx'
  | refundChange prev =>
    cases hx'
    exact ⟨_, rfl, sameView_of hxy.1 hxy.accounts rfl hxy.logs hxy.logSize hxy.preimages
      hxy.accessList⟩
  | addLogChange txhash =>
    have hl : (x.logs.find? txhash).getD [] = (y.logs.find? txhash).getD [] :=
      congrFun hxy.logs txhash
    have hsize : x.logSize - 1 = y.logSize - 1 := congrArg (· - 1) hxy.logSize
    simp only [JournalEntry.revert, hl] at hx' ⊢
    by_cases h1 : ((y.logs.find? txhash).getD []).length = 1
    · -- the transaction's only log: its entry goes
      rw [if_pos h1] at hx' ⊢
      cases hx'
      refine ⟨_, rfl, sameView_of hxy.1 hxy.accounts hxy.refund (funext fun k => ?_) hsize
        hxy.preimages hxy.accessList⟩
      show ({ x with logs := x.logs.erase txhash } : StateDB).GetLogs k =
        ({ y with logs := y.logs.erase txhash } : StateDB).GetLogs k
      rw [GetLogs_erase, GetLogs_erase, hxy.logs]
    · rw [if_neg h1] at hx' ⊢
      by_cases h0 : ((y.logs.find? txhash).getD []).length = 0
      · rw [if_pos h0] at hx'
        cases hx'
      · rw [if_neg h0] at hx' ⊢
        cases hx'
        refine ⟨_, rfl, sameView_of hxy.1 hxy.accounts hxy.refund (funext fun k => ?_) hsize
          hxy.preimages hxy.accessList⟩
        show ({ x with logs := x.logs.insert txhash _ } : StateDB).GetLogs k =
          ({ y with logs := y.logs.insert txhash _ } : StateDB).GetLogs k
        rw [GetLogs_insert, GetLogs_insert, hxy.logs]
  | addPreimageChange hash =>
    cases hx'
    refine ⟨_, rfl, sameView_of hxy.1 hxy.accounts hxy.refund hxy.logs hxy.logSize
      (funext fun k => ?_) hxy.accessList⟩
    show (x.preimages.erase hash).find? k = (y.preimages.erase hash).find? k
    rw [KeyMap.find?_erase, KeyMap.find?_erase, hxy.preimages]
  | touchChange account =>
    cases hx'
    exact ⟨y, rfl, hxy⟩
  | accessListAddAccountChange address =>
    cases hx'
    exact ⟨_, rfl, sameView_of hxy.1 hxy.accounts hxy.refund hxy.logs hxy.logSize hxy.preimages
      (congrArg (fun al => AccessList.DeleteAddress al address) hxy.accessList)⟩
  | accessListAddSlotChange address slot =>
    obtain ⟨al, hal', rfl⟩ := Option.map_eq_some_iff.1 hx'
    refine ⟨{ y with accessList := al }, by simp [JournalEntry.revert, ← hxy.accessList, hal'], ?_⟩
    exact sameView_of hxy.1 hxy.accounts hxy.refund hxy.logs hxy.logSize hxy.preimages rfl

theorem SameView.revertStep (hxy : SameView hx hy x y) (e : JournalEntry)
    (hfrozen : ∀ p, e.frozen = some p → hx.cells p = hy.cells p) {x' : StateDB}
    (hx' : e.revertStep x = some x') : ∃ y', e.revertStep y = some y' ∧ SameView hx hy x' y' := by
  obtain ⟨x'', hx'', rfl⟩ := Option.map_eq_some_iff.1 hx'
  obtain ⟨y'', hy'', hs⟩ := hxy.revert e hfrozen hx''
  refine ⟨_, by rw [JournalEntry.revertStep, hy'', Option.map_some], ?_⟩
  -- the dirty counts are in the journal, which the view does not read
  cases e.dirtied with
  | none => exact hs
  | some a => exact ⟨hs.1, hs.2⟩

/-- Heaps that agree at the records a journal keeps let its reverts carry
`SameView`. -/
theorem carries_revertStep {es : List JournalEntry}
    (hfrozen : ∀ e ∈ es, ∀ p, e.frozen = some p → hx.cells p = hy.cells p) :
    Journal.Carries JournalEntry.revertStep (SameView hx hy) es :=
  fun e he _ _ hxy _ hx' => hxy.revertStep e (hfrozen e he) hx'

end StateDB

end Xdchain.State
