import Xdchain.State.StateDB

/-! # What the getters see

`observe` is every getter of a state at once. `view` is what they read,
per account and for the transaction-wide data, with the access list as it
stands: a revert of a slot acts on the list's layout, not only on what
`Contains` answers. Two states over one committed state with the same view
answer every getter alike (`observe_eq_of_view_eq`).

The frame lemmas say how a write to one object, a journal append or a heap
write moves the view. -/

namespace Xdchain.State
open Xdchain.Lib

/-- Every getter of a state. -/
structure Observation where
  balance : Address → Int
  nonce : Address → Nat
  code : Address → List UInt8
  codeHash : Address → Hash
  state : Address → Hash → Hash
  suicided : Address → Bool
  exist : Address → Bool
  empty : Address → Bool
  refund : Nat
  logs : Hash → List Log
  preimages : Hash → Option (List UInt8)
  addressInAccessList : Address → Bool
  slotInAccessList : Address → Hash → Option (Bool × Bool)
  privacyMetadata : Address → Except StateError (Option PrivacyMetadata)
  managedParties : Address → Except StateError (List String)

def StateDB.observe (s : StateDB) (h : Heap) : Observation :=
  { balance := s.GetBalance, nonce := s.GetNonce, code := s.GetCode, codeHash := s.GetCodeHash,
    state := s.GetState, suicided := s.HasSuicided, exist := s.Exist, empty := s.Empty,
    refund := s.GetRefund, logs := s.GetLogs, preimages := s.Preimages.find?,
    addressInAccessList := s.AddressInAccessList, slotInAccessList := s.SlotInAccessList,
    privacyMetadata := s.GetPrivacyMetadata h, managedParties := s.GetManagedParties h }

/-- What the getters read of one account. -/
structure AccountView where
  address : Address
  nonce : Nat
  balance : Int
  codeHash : Option Hash
  code : List UInt8
  fake : Bool
  storage : Hash → Hash
  suicided : Bool
  extraData : Except ExtraDataError AccountExtraData

def StateObject.view (db : Database) (h : Heap) (o : StateObject) : AccountView :=
  { address := o.address, nonce := o.data.nonce, balance := o.data.balance,
    codeHash := o.data.codeHash, code := o.Code db, fake := o.fakeStorage.isSome,
    storage := o.GetState db, suicided := o.suicided, extraData := o.AccountExtraData db h }

@[ext] structure View where
  accounts : Address → Option AccountView
  refund : Nat
  logs : Hash → List Log
  logSize : Nat
  preimages : Hash → Option (List UInt8)
  accessList : AccessList

def StateDB.view (s : StateDB) (h : Heap) : View :=
  { accounts := fun a => (s.getStateObject a).map (StateObject.view s.db h), refund := s.refund,
    logs := s.GetLogs, logSize := s.logSize, preimages := s.preimages.find?,
    accessList := s.accessList }

namespace StateDB

variable {s t : StateDB} {h h' : Heap}

theorem accounts_view (s : StateDB) (h : Heap) (a : Address) :
    (s.view h).accounts a = (s.getStateObject a).map (StateObject.view s.db h) := rfl

/-- A getter that reads the account's object reads it only through its view. -/
theorem match_getStateObject_eq {a : Address} {α : Type}
    (hacc : (s.getStateObject a).map (StateObject.view s.db h) =
      (t.getStateObject a).map (StateObject.view t.db h'))
    (f g : StateObject → α) (d : α) (hf : ∀ o o', o.view s.db h = o'.view t.db h' → f o = g o') :
    (match s.getStateObject a with | some o => f o | none => d) =
      (match t.getStateObject a with | some o => g o | none => d) := by
  cases hs : s.getStateObject a with
  | none =>
    cases ht : t.getStateObject a with
    | none => rfl
    | some o' =>
      rw [hs, ht] at hacc
      cases hacc
  | some o =>
    cases ht : t.getStateObject a with
    | none =>
      rw [hs, ht] at hacc
      cases hacc
    | some o' =>
      rw [hs, ht] at hacc
      exact hf o o' (Option.some.inj hacc)

/-- **The getters read only the view.** -/
theorem observe_eq_of_view_eq (hdb : s.db = t.db) (hv : s.view h = t.view h') :
    s.observe h = t.observe h' := by
  have hacc : ∀ a, (s.getStateObject a).map (StateObject.view s.db h) =
      (t.getStateObject a).map (StateObject.view t.db h') := fun a => congrFun (congrArg View.accounts hv) a
  have hrefund : s.refund = t.refund := congrArg View.refund hv
  have hlogs : s.GetLogs = t.GetLogs := congrArg View.logs hv
  have hpre : s.preimages.find? = t.preimages.find? := congrArg View.preimages hv
  have hal : s.accessList = t.accessList := congrArg View.accessList hv
  simp only [observe, Observation.mk.injEq]
  refine ⟨?_, ?_, ?_, ?_, ?_, ?_, ?_, ?_, hrefund, hlogs, hpre, ?_, ?_, ?_, ?_⟩
  · funext a
    exact match_getStateObject_eq (hacc a) _ _ _ fun o o' hv => congrArg AccountView.balance hv
  · funext a
    exact match_getStateObject_eq (hacc a) _ _ _ fun o o' hv => congrArg AccountView.nonce hv
  · funext a
    exact match_getStateObject_eq (hacc a) _ _ _ fun o o' hv => congrArg AccountView.code hv
  · funext a
    exact match_getStateObject_eq (hacc a) _ _ _ fun o o' hv =>
      congrArg (fun h => Option.getD h 0) (congrArg AccountView.codeHash hv)
  · funext a k
    exact match_getStateObject_eq (hacc a) _ _ _ fun o o' hv => congrFun (congrArg AccountView.storage hv) k
  · funext a
    exact match_getStateObject_eq (hacc a) _ _ _ fun o o' hv => congrArg AccountView.suicided hv
  · funext a
    have := congrArg Option.isSome (hacc a)
    simpa [Exist] using this
  · funext a
    refine match_getStateObject_eq (hacc a) _ _ _ fun o o' hv => ?_
    have hn := congrArg AccountView.nonce hv
    have hb := congrArg AccountView.balance hv
    have hc := congrArg AccountView.codeHash hv
    simp only [StateObject.view] at hn hb hc
    simp only [StateObject.empty, hn, hb, hc, hdb]
  · funext a
    simp only [AddressInAccessList, hal]
  · funext a k
    simp only [SlotInAccessList, hal]
  · funext a
    refine match_getStateObject_eq (hacc a) _ _ _ fun o o' hv => ?_
    have he := congrArg AccountView.extraData hv
    have ha := congrArg AccountView.address hv
    simp only [StateObject.view] at he ha
    simp only [StateObject.PrivacyMetadata, he, ha]
  · funext a
    refine match_getStateObject_eq (hacc a) _ _ _ fun o o' hv => ?_
    have he := congrArg AccountView.extraData hv
    simp only [StateObject.view] at he
    simp only [StateObject.ManagedParties, he]

/-! ## Frame lemmas -/

theorem getStateObject_setStateObject (s : StateDB) (o : StateObject) (b : Address) :
    (s.setStateObject o).getStateObject b =
      if b = o.address then (if o.deleted then none else some o) else s.getStateObject b := by
  unfold getStateObject getDeletedStateObject setStateObject
  by_cases hb : b = o.address
  · subst hb
    rw [KeyMap.find?_insert_self, if_pos rfl]
    cases hd : o.deleted <;> simp [Option.filter, hd]
  · rw [KeyMap.find?_insert_of_ne _ _ hb, if_neg hb]

theorem accounts_view_setStateObject (s : StateDB) (o : StateObject) (h : Heap) (b : Address) :
    ((s.setStateObject o).view h).accounts b =
      if b = o.address then (if o.deleted then none else some (o.view s.db h))
      else (s.view h).accounts b := by
  rw [accounts_view, getStateObject_setStateObject]
  split
  · split <;> rfl
  · rfl

/-- After a creation is reverted the account is the one the trie holds. -/
theorem getStateObject_erase (s : StateDB) (a b : Address) (d : KeyMap Address Unit) :
    ({ s with stateObjects := s.stateObjects.erase a, stateObjectsDirty := d } : StateDB).getStateObject b =
      if b = a then (s.db.accounts a).map (newObject s.db a) else s.getStateObject b := by
  unfold getStateObject getDeletedStateObject
  simp only [KeyMap.erase, KeyMap.find?_filter]
  by_cases hb : b = a
  · subst hb
    rw [if_pos rfl]
    cases s.stateObjects.find? b <;> cases s.db.accounts b <;> simp [Option.filter, newObject]
  · rw [if_neg hb]
    cases s.stateObjects.find? b <;> simp [Option.filter, hb]

/-- A view reads the heap only at the object's own record. -/
theorem view_heap_congr (db : Database) (o : StateObject) {h h' : Heap}
    (hp : ∀ p, o.accountExtraData = some p → h.cells p = h'.cells p) :
    o.view db h = o.view db h' := by
  unfold StateObject.view StateObject.AccountExtraData
  cases hq : o.accountExtraData with
  | none => rfl
  | some p => simp only [hp p hq]

end StateDB

end Xdchain.State
