import Xdchain.State.WellFormed

/-! # Changes the journal undoes

`Undoable x hx y hy`: the state `y`, under the heap `hy`, is reached from
`x`, under `hx`, by changes whose journal entries give back `x`'s view when
they are undone. The heap is written only at records that `x`'s objects point
to or that are new, no older record becomes an object's, and `y` is well
formed again. Such changes compose (`Undoable.trans`), and a revert of `x`
to any mark of its journal carries over to `y` (`Undoable.undoAll_drop`).

The setters are built from four shapes of change, each proved here once: one
that leaves the objects alone, a write to an account's object, the creation
of an object, and a write to its extra data. -/

namespace Xdchain.State
open Xdchain.Lib

theorem Journal.entries_append (j : Journal) (e : JournalEntry) :
    (j.append e).entries = j.entries ++ [e] := by
  unfold Journal.append
  cases e.dirtied <;> rfl

namespace StateDB

variable {s x y z : StateDB} {h hx hy hz : Heap} {es : List JournalEntry}

@[simp] theorem entries_append (s : StateDB) (e : JournalEntry) :
    (s.append e).journal.entries = s.journal.entries ++ [e] :=
  Journal.entries_append _ _

@[simp] theorem journal_setStateObject (s : StateDB) (o : StateObject) :
    (s.setStateObject o).journal = s.journal := rfl

@[simp] theorem ptrOf_append (s : StateDB) (e : JournalEntry) : (s.append e).ptrOf = s.ptrOf := rfl

@[simp] theorem getStateObject_append (s : StateDB) (e : JournalEntry) :
    (s.append e).getStateObject = s.getStateObject := rfl

@[simp] theorem db_setStateObject (s : StateDB) (o : StateObject) : (s.setStateObject o).db = s.db := rfl

@[simp] theorem db_append (s : StateDB) (e : JournalEntry) : (s.append e).db = s.db := rfl

@[simp] theorem accessList_append (s : StateDB) (e : JournalEntry) :
    (s.append e).accessList = s.accessList := rfl

/-! ## Reads of changed states -/

theorem getDeletedStateObject_of_getStateObject {a : Address} {o : StateObject}
    (ho : s.getStateObject a = some o) : s.getDeletedStateObject a = some o :=
  (Option.filter_eq_some_iff.1 ho).1

/-- Writing back the object an account has, or the one it would load, changes
no read. -/
theorem getStateObject_setStateObject_of_getDeleted {a : Address} {o : StateObject}
    (ho : s.getDeletedStateObject a = some o) (ha : o.address = a) (b : Address) :
    (s.setStateObject o).getStateObject b = s.getStateObject b := by
  rw [getStateObject_setStateObject, ha]
  by_cases hb : b = a
  · subst hb
    rw [if_pos rfl]
    unfold getStateObject
    rw [ho]
    cases hd : o.deleted <;> simp [Option.filter, hd]
  · rw [if_neg hb]

theorem getDeletedStateObject_eq_none {a : Address} (hd : s.getDeletedStateObject a = none) :
    s.stateObjects.find? a = none ∧ s.db.accounts a = none := by
  unfold getDeletedStateObject at hd
  cases hf : s.stateObjects.find? a with
  | some o => rw [hf] at hd; cases hd
  | none =>
    rw [hf, Option.map_eq_none_iff] at hd
    exact ⟨rfl, hd⟩

/-- The object an account has or would load sits at its address and points
where the account does. -/
theorem ptrOf_of_getDeletedStateObject (hk : s.KeysMatch) {a : Address} {o : StateObject}
    (hd : s.getDeletedStateObject a = some o) : o.accountExtraData = s.ptrOf a ∧ o.address = a := by
  unfold getDeletedStateObject at hd
  unfold ptrOf
  cases hf : s.stateObjects.find? a with
  | some o' =>
    rw [hf] at hd
    cases hd
    exact ⟨rfl, hk a o hf⟩
  | none =>
    rw [hf] at hd
    obtain ⟨d, -, rfl⟩ := Option.map_eq_some_iff.1 hd
    exact ⟨rfl, rfl⟩

theorem setStateObject_setStateObject (s : StateDB) {o o' : StateObject} (ha : o'.address = o.address) :
    (s.setStateObject o).setStateObject o' = s.setStateObject o' := by
  unfold setStateObject
  rw [ha, KeyMap.insert_insert]

/-- States that differ only where no getter reads. -/
theorem sameView_of_eq (hdb : x.db = y.db) (hso : x.stateObjects = y.stateObjects)
    (hrefund : x.refund = y.refund) (hlogs : x.logs = y.logs) (hsize : x.logSize = y.logSize)
    (hpre : x.preimages = y.preimages) (hal : x.accessList = y.accessList) : SameView h h x y := by
  have hget : x.getStateObject = y.getStateObject := by
    funext a
    unfold getStateObject getDeletedStateObject
    rw [hso, hdb]
  refine ⟨hdb, ?_⟩
  unfold view GetLogs
  rw [hget, hdb, hrefund, hlogs, hsize, hpre, hal]

theorem sameView_setStateObject_of_getDeleted {a : Address} {o : StateObject}
    (hd : s.getDeletedStateObject a = some o) (ha : o.address = a) : SameView h h (s.setStateObject o) s :=
  sameView_of rfl (fun b => by rw [getStateObject_setStateObject_of_getDeleted hd ha]; rfl) rfl rfl rfl rfl rfl

/-- An entry's revert and its turn of the journal's loop give the same view. -/
theorem sameView_revertStep {e : JournalEntry} (he : e.revert y = some z) :
    ∃ x', e.revertStep y = some x' ∧ SameView h h x' z := by
  refine ⟨_, by rw [JournalEntry.revertStep, he, Option.map_some], ?_⟩
  cases e.dirtied with
  | none => exact ⟨rfl, rfl⟩
  | some a => exact ⟨rfl, rfl⟩

/-- Writing an account's object with one that reads as the old one did, where
the other accounts' records read in `h'` as in `h`. -/
theorem sameView_setStateObject (hk : s.KeysMatch) {a : Address} {o o' : StateObject}
    (ho : s.getStateObject a = some o) (ha : o'.address = a) (hdel : o'.deleted = false)
    {h' : Heap} (hv : o'.view s.db h' = o.view s.db h)
    (hcells : ∀ b p, b ≠ a → s.ptrOf b = some p → h'.cells p = h.cells p) :
    SameView h' h (s.setStateObject o') s := by
  refine sameView_of rfl (fun b => ?_) rfl rfl rfl rfl rfl
  rw [getStateObject_setStateObject, ha, hdel]
  by_cases hb : b = a
  · subst hb
    simp only [if_pos, ho, Option.map_some, Bool.false_eq_true, if_false]
    exact congrArg some hv
  · rw [if_neg hb]
    cases hob : s.getStateObject b with
    | none => rfl
    | some ob =>
      obtain ⟨hptr, -⟩ := ptrOf_of_getStateObject hk hob
      exact congrArg some (view_heap_congr _ _ fun p hp => hcells b p hb (hptr ▸ hp))

theorem StateObject.view_setAccountExtraData_of (o : StateObject) (p : Option Ptr) {db : Database}
    {h h' : Heap} (he : (o.setAccountExtraData p).AccountExtraData db h' = o.AccountExtraData db h) :
    (o.setAccountExtraData p).view db h' = o.view db h := by
  unfold StateObject.view
  rw [he]
  rfl

/-! ## Pointers and view facts of changed states -/

theorem PtrWF.of_ptrOf {t : StateDB} (hp : s.PtrWF h es) (heq : t.ptrOf = s.ptrOf) : t.PtrWF h es where
  live_lt := heq ▸ hp.live_lt
  live_inj := heq ▸ hp.live_inj
  frozen_lt := hp.frozen_lt
  frozen_not_live := heq ▸ hp.frozen_not_live
  frozen_nodup := hp.frozen_nodup

theorem PtrWF.next_le (hp : s.PtrWF h es) {h' : Heap} (hle : h.next ≤ h'.next) : s.PtrWF h' es where
  live_lt a p hap := Nat.lt_of_lt_of_le (hp.live_lt a p hap) hle
  live_inj := hp.live_inj
  frozen_lt e he p hep := Nat.lt_of_lt_of_le (hp.frozen_lt e he p hep) hle
  frozen_not_live := hp.frozen_not_live
  frozen_nodup := hp.frozen_nodup

/-- Entries that keep no record. -/
theorem PtrWF.append_unfrozen (hp : s.PtrWF h es) (fs : List JournalEntry)
    (hfz : ∀ e ∈ fs, e.frozen = none) : s.PtrWF h (es ++ fs) := by
  have hfs : fs.filterMap JournalEntry.frozen = [] := List.filterMap_eq_nil_iff.2 hfz
  refine ⟨hp.live_lt, hp.live_inj, fun e he p hep => ?_, fun e he p hep => ?_, ?_⟩
  · rcases List.mem_append.1 he with he | he
    · exact hp.frozen_lt e he p hep
    · rw [hfz e he] at hep
      cases hep
  · rcases List.mem_append.1 he with he | he
    · exact hp.frozen_not_live e he p hep
    · rw [hfz e he] at hep
      cases hep
  · rw [List.filterMap_append, hfs, List.append_nil]
    exact hp.frozen_nodup

/-- An entry whose kept record is allocated, is no object's and is kept by no
other entry. -/
theorem PtrWF.append (hp : s.PtrWF h es) {e : JournalEntry}
    (he : ∀ q, e.frozen = some q → q < h.next ∧ (∀ a, s.ptrOf a ≠ some q) ∧ ∀ e' ∈ es, e'.frozen ≠ some q) :
    s.PtrWF h (es ++ [e]) := by
  refine ⟨hp.live_lt, hp.live_inj, fun e' he' p hep => ?_, fun e' he' p hep => ?_, ?_⟩
  · rcases List.mem_append.1 he' with he' | he'
    · exact hp.frozen_lt e' he' p hep
    · rw [List.mem_singleton.1 he'] at hep
      exact (he p hep).1
  · rcases List.mem_append.1 he' with he' | he'
    · exact hp.frozen_not_live e' he' p hep
    · rw [List.mem_singleton.1 he'] at hep
      exact (he p hep).2.1
  · rw [List.filterMap_append, List.nodup_append]
    refine ⟨hp.frozen_nodup, ?_, fun q hq q' hq' hqq' => ?_⟩
    · cases hf : e.frozen <;> simp [hf]
    · obtain ⟨e', he', he'q⟩ := List.mem_filterMap.1 hq
      have hq'e : e.frozen = some q' := by simpa using hq'
      exact (he q' hq'e).2.2 e' he' (hqq' ▸ he'q)

theorem ViewGood.of_getStateObject {t : StateDB} (hv : s.ViewGood)
    (hget : ∀ a, t.getStateObject a = s.getStateObject a) (hal : t.accessList.WellFormed) : t.ViewGood where
  noFake a o ho := hv.noFake a o (hget a ▸ ho)
  codeHash a o ho := hv.codeHash a o (hget a ▸ ho)
  accessList := hal

theorem eq_or_getStateObject_of_setStateObject {o o' : StateObject} {a : Address}
    (ho' : (s.setStateObject o).getStateObject a = some o') : o' = o ∨ s.getStateObject a = some o' := by
  rw [getStateObject_setStateObject] at ho'
  split at ho'
  · split at ho'
    · cases ho'
    · cases ho'
      exact Or.inl rfl
  · exact Or.inr ho'

theorem ViewGood.append (hv : s.ViewGood) (e : JournalEntry) : (s.append e).ViewGood :=
  ⟨hv.noFake, hv.codeHash, hv.accessList⟩

theorem ViewGood.setStateObject (hv : s.ViewGood) {o : StateObject} (hfake : o.fakeStorage = none)
    (hcode : o.data.codeHash.isSome) : (s.setStateObject o).ViewGood where
  noFake a o' ho' := by
    rcases eq_or_getStateObject_of_setStateObject ho' with rfl | ho'
    · exact hfake
    · exact hv.noFake a o' ho'
  codeHash a o' ho' := by
    rcases eq_or_getStateObject_of_setStateObject ho' with rfl | ho'
    · exact hcode
    · exact hv.codeHash a o' ho'
  accessList := hv.accessList

/-! ## Undoable changes -/

/-- `y` under `hy` is reached from `x` under `hx` by changes that the journal
entries they append undo, up to the view. -/
structure Undoable (x : StateDB) (hx : Heap) (y : StateDB) (hy : Heap) : Prop where
  undo : ∃ es, y.journal.entries = x.journal.entries ++ es ∧
    ∃ x', Journal.undoAll JournalEntry.revertStep es y = some x' ∧ SameView hy hx x' x
  next_le : hx.next ≤ hy.next
  frame : ∀ p < hx.next, (∀ a, x.ptrOf a ≠ some p) → hy.cells p = hx.cells p
  live : ∀ a p, y.ptrOf a = some p → p < hx.next → ∃ b, x.ptrOf b = some p
  validRevisions : y.validRevisions = x.validRevisions
  nextRevisionId : y.nextRevisionId = x.nextRevisionId
  ptrs : y.Ptrs hy y.journal.entries
  good : y.ViewGood

theorem Undoable.refl (hg : x.Ptrs hx x.journal.entries) (hv : x.ViewGood) : Undoable x hx x hx where
  undo := ⟨[], (List.append_nil _).symm, x, rfl, ⟨rfl, rfl⟩⟩
  next_le := Nat.le_refl _
  frame _ _ _ := rfl
  live a _ hp _ := ⟨a, hp⟩
  validRevisions := rfl
  nextRevisionId := rfl
  ptrs := hg
  good := hv

/-- A change keeps the records that the entries of `x` keep. -/
theorem Undoable.cells_frozen (hu : Undoable x hx y hy) (hp : x.PtrWF hx es) :
    ∀ e ∈ es, ∀ p, e.frozen = some p → hx.cells p = hy.cells p :=
  fun e he p hep => (hu.frame p (hp.frozen_lt e he p hep) (hp.frozen_not_live e he p hep)).symm

/-- **A revert of `x` to a mark of its journal carries over to `y`**: from the
same mark it gives the same view. -/
theorem Undoable.undoAll_drop (hu : Undoable x hx y hy) (hg : x.PtrWF hx x.journal.entries) {k : Nat}
    (hk : k ≤ x.journal.entries.length) {b : StateDB}
    (hb : Journal.undoAll JournalEntry.revertStep (x.journal.entries.drop k) x = some b) :
    ∃ b', Journal.undoAll JournalEntry.revertStep (y.journal.entries.drop k) y = some b' ∧
      SameView hy hx b' b := by
  obtain ⟨es, hes, x', hx', hsame⟩ := hu.undo
  -- `x'` shows what `x` shows, and the records the older entries keep are intact
  have hcarry : Journal.Carries JournalEntry.revertStep (SameView hx hy) (x.journal.entries.drop k) :=
    carries_revertStep fun e he => hu.cells_frozen hg e (List.mem_of_mem_drop he)
  obtain ⟨b', hb', hbb'⟩ := Journal.undoAll_sim _ hcarry hsame.symm hb
  refine ⟨b', ?_, hbb'.symm⟩
  rw [hes, List.drop_append_of_le_length hk, Journal.undoAll_append, hx', Option.bind_some]
  exact hb'

theorem Undoable.trans (h1 : Undoable x hx y hy) (h2 : Undoable y hy z hz) : Undoable x hx z hz where
  undo := by
    obtain ⟨es, hes, x', hx', hsame⟩ := h1.undo
    obtain ⟨fs, hfs, -⟩ := h2.undo
    have hlen : x.journal.entries.length ≤ y.journal.entries.length := by simp [hes]
    have hdrop : y.journal.entries.drop x.journal.entries.length = es := by simp [hes]
    obtain ⟨b, hb, hsame'⟩ := h2.undoAll_drop h1.ptrs.ptrs hlen (by rw [hdrop]; exact hx')
    refine ⟨es ++ fs, by rw [hfs, hes, List.append_assoc], b, ?_, hsame'.trans hsame⟩
    rwa [hfs, hes, List.append_assoc, List.drop_left] at hb
  next_le := Nat.le_trans h1.next_le h2.next_le
  frame p hp hnl := by
    have hnl' : ∀ a, y.ptrOf a ≠ some p := fun a ha => by
      obtain ⟨b, hb⟩ := h1.live a p ha hp
      exact hnl b hb
    rw [h2.frame p (Nat.lt_of_lt_of_le hp h1.next_le) hnl', h1.frame p hp hnl]
  live a p ha hp := by
    obtain ⟨b, hb⟩ := h2.live a p ha (Nat.lt_of_lt_of_le hp h1.next_le)
    exact h1.live b p hb hp
  validRevisions := h2.validRevisions.trans h1.validRevisions
  nextRevisionId := h2.nextRevisionId.trans h1.nextRevisionId
  ptrs := h2.ptrs
  good := h2.good

/-! ## The shapes of change -/

/-- A change that leaves the objects and the heap alone. -/
theorem undoable_of_stateObjects (hg : x.Ptrs hx x.journal.entries) (hv : x.ViewGood)
    (es : List JournalEntry) (hes : y.journal.entries = x.journal.entries ++ es)
    (hfz : ∀ e ∈ es, e.frozen = none) (hso : y.stateObjects = x.stateObjects) (hdb : y.db = x.db)
    (hrevs : y.validRevisions = x.validRevisions) (hid : y.nextRevisionId = x.nextRevisionId)
    (hal : y.accessList.WellFormed)
    (hundo : ∃ x', Journal.undoAll JournalEntry.revertStep es y = some x' ∧ SameView hx hx x' x) :
    Undoable x hx y hx := by
  have hptr : y.ptrOf = x.ptrOf := by
    funext a
    unfold ptrOf
    rw [hso]
  have hget : ∀ a, y.getStateObject a = x.getStateObject a := fun a => by
    unfold getStateObject getDeletedStateObject
    rw [hso, hdb]
  refine ⟨⟨es, hes, hundo⟩, Nat.le_refl _, fun _ _ _ => rfl, fun a _ hp _ => ⟨a, hptr ▸ hp⟩, hrevs, hid,
    ⟨fun a o ho => hg.keys a o (hso ▸ ho), ?_⟩, hv.of_getStateObject hget hal⟩
  rw [hes]
  exact (hg.ptrs.append_unfrozen es hfz).of_ptrOf hptr

/-- One entry and a write of the account's object that keeps its address,
record, deletion and fake storage, where the entry's revert writes back an
object that reads as the old one. -/
theorem undoable_modify (hg : x.Ptrs hx x.journal.entries) (hv : x.ViewGood) {a : Address}
    {o : StateObject} (ho : x.getStateObject a = some o) {e : JournalEntry} (hfz : e.frozen = none)
    {o' : StateObject} (hkeep : o'.address = o.address ∧ o'.accountExtraData = o.accountExtraData ∧
      o'.deleted = o.deleted ∧ o'.fakeStorage = o.fakeStorage) (hcode : o'.data.codeHash.isSome)
    (o'' : StateObject)
    (hrev : ∀ t : StateDB, t.getStateObject a = some o' → e.revert t = some (t.setStateObject o''))
    (hback : o''.address = o.address ∧ o''.deleted = o.deleted ∧ o''.view x.db hx = o.view x.db hx) :
    Undoable x hx ((x.append e).setStateObject o') hx := by
  obtain ⟨haddr, hptr, hdel, hfake⟩ := hkeep
  obtain ⟨hptrA, rfl⟩ := ptrOf_of_getStateObject hg.keys ho
  have hdel0 := StateObject.deleted_of_getStateObject ho
  have hy : ((x.append e).setStateObject o').getStateObject o.address = some o' := by
    rw [getStateObject_setStateObject, if_pos haddr.symm]
    simp [hdel, hdel0]
  have hptrs : ((x.append e).setStateObject o').ptrOf = x.ptrOf := by
    funext b
    rw [ptrOf_setStateObject]
    split
    · next hb => rw [hptr, hptrA, hb, haddr]
    · rfl
  refine ⟨⟨[e], by simp, ?_⟩, Nat.le_refl _, fun _ _ _ => rfl, fun b _ hp _ => ⟨b, hptrs ▸ hp⟩, rfl, rfl,
    ⟨keysMatch_setStateObject hg.keys _, ?_⟩,
    (hv.append e).setStateObject (hfake.trans (hv.noFake _ o ho)) hcode⟩
  · obtain ⟨x', hx', hsame⟩ := sameView_revertStep (h := hx) (hrev _ hy)
    -- the revert's write replaces the change's
    rw [setStateObject_setStateObject _ (hback.1.trans haddr.symm)] at hsame
    have happend : SameView hx hx ((x.append e).setStateObject o'') (x.setStateObject o'') :=
      sameView_of_eq rfl rfl rfl rfl rfl rfl rfl
    refine ⟨x', by rw [Journal.undoAll_singleton]; exact hx', hsame.trans (happend.trans ?_)⟩
    exact sameView_setStateObject hg.keys ho hback.1 (hback.2.1.trans hdel0) hback.2.2
      fun _ _ _ _ => rfl
  · simp only [journal_setStateObject, entries_append]
    exact (hg.ptrs.append_unfrozen [e] (by simpa using hfz)).of_ptrOf hptrs

theorem createObject_fst (s : StateDB) (addr : Address) :
    (s.createObject addr).1.address = addr ∧ (s.createObject addr).1.accountExtraData = none ∧
      (s.createObject addr).1.fakeStorage = none ∧ (s.createObject addr).1.data.codeHash.isSome ∧
      (s.createObject addr).1.deleted = false := by
  simp [createObject, newObject, StateObject.setNonce]

/-- The state `createObject` gives: the entry, and the new object written. -/
theorem createObject_snd_snd (s : StateDB) (addr : Address) :
    ∃ e, (s.createObject addr).2.2 = (s.append e).setStateObject (s.createObject addr).1 ∧
      (s.getDeletedStateObject addr = none ∧ e = .createObjectChange addr ∨
        ∃ prev, s.getDeletedStateObject addr = some prev ∧ e = .resetObjectChange prev) := by
  unfold createObject
  cases hd : s.getDeletedStateObject addr with
  | none => exact ⟨_, rfl, Or.inl ⟨rfl, rfl⟩⟩
  | some prev => exact ⟨_, rfl, Or.inr ⟨prev, rfl, rfl⟩⟩

/-- The creation of an account's object, and any unjournaled write of a new
object with no record in its place: the creation's entry takes both back. -/
theorem undoable_createObject_setStateObject (hg : s.Ptrs h s.journal.entries) (hv : s.ViewGood)
    (addr : Address) {o : StateObject} (ha : o.address = addr) (hptr : o.accountExtraData = none)
    (hfake : o.fakeStorage = none) (hcode : o.data.codeHash.isSome) :
    Undoable s h ((s.createObject addr).2.2.setStateObject o) h := by
  obtain ⟨e, he, hcases⟩ := createObject_snd_snd s addr
  rw [he, setStateObject_setStateObject _ (ha.trans (createObject_fst s addr).1.symm)]
  have hptrs : ∀ b, ((s.append e).setStateObject o).ptrOf b = if b = addr then none else s.ptrOf b := by
    intro b
    rw [ptrOf_setStateObject, ha, hptr]
    rfl
  have hundo : ∃ x', Journal.undoAll JournalEntry.revertStep [e] ((s.append e).setStateObject o) = some x' ∧
      SameView h h x' s := by
    rw [Journal.undoAll_singleton]
    rcases hcases with ⟨hd, rfl⟩ | ⟨prev, hd, rfl⟩
    · -- a creation: the account is the trie's again, and the trie has none
      obtain ⟨hf, hacc⟩ := getDeletedStateObject_eq_none hd
      obtain ⟨x', hx', hsame⟩ := sameView_revertStep (h := h) (e := .createObjectChange addr) rfl
      refine ⟨x', hx', hsame.trans (sameView_of rfl (fun b => ?_) rfl rfl rfl rfl rfl)⟩
      rw [getStateObject_erase]
      split
      · next hb =>
        subst hb
        have hnone : s.getStateObject b = none := by
          unfold getStateObject
          rw [hd]
          rfl
        simp [hacc, hnone]
      · next hb =>
        rw [getStateObject_setStateObject, if_neg (ha ▸ hb)]
        rfl
    · -- a reset: the replaced object is written back
      obtain ⟨-, hpa⟩ := ptrOf_of_getDeletedStateObject hg.keys hd
      obtain ⟨x', hx', hsame⟩ := sameView_revertStep (h := h) (e := .resetObjectChange prev) rfl
      rw [setStateObject_setStateObject _ (hpa.trans ha.symm)] at hsame
      exact ⟨x', hx', hsame.trans ((sameView_of_eq rfl rfl rfl rfl rfl rfl rfl).trans
        (sameView_setStateObject_of_getDeleted hd hpa))⟩
  refine ⟨⟨[e], by simp, hundo⟩, Nat.le_refl _, fun _ _ _ => rfl, fun b q hq _ => ?_, rfl, rfl,
    ⟨keysMatch_setStateObject hg.keys _, ?_⟩, (hv.append e).setStateObject hfake hcode⟩
  · rw [hptrs] at hq
    split at hq
    · cases hq
    · exact ⟨b, hq⟩
  · simp only [journal_setStateObject, entries_append]
    have hp0 : (s.setStateObject o).PtrWF h s.journal.entries :=
      hg.ptrs.setStateObject o fun q hq => by rw [hptr] at hq; cases hq
    refine PtrWF.of_ptrOf (s := s.setStateObject o) ?_ (funext fun _ => rfl)
    rcases hcases with ⟨-, rfl⟩ | ⟨prev, hd, rfl⟩
    · exact hp0.append_unfrozen [_] (by simp [JournalEntry.frozen])
    · -- the replaced object's record moves from the account to the entry
      obtain ⟨hpp, hpa⟩ := ptrOf_of_getDeletedStateObject hg.keys hd
      refine hp0.append fun q hq => ?_
      have hq' : s.ptrOf addr = some q := hpp ▸ hq
      refine ⟨hg.ptrs.live_lt addr q hq', fun b hb => ?_,
        fun e' he' he'q => hg.ptrs.frozen_not_live e' he' q he'q addr hq'⟩
      rw [ptrOf_setStateObject, ha, hptr] at hb
      split at hb
      · cases hb
      · next hne => exact hne (hg.ptrs.live_inj b addr q hb hq')

theorem undoable_createObject (hg : s.Ptrs h s.journal.entries) (hv : s.ViewGood) (addr : Address) :
    Undoable s h (s.createObject addr).2.2 h := by
  obtain ⟨ha, hptr, hfake, hcode, -⟩ := createObject_fst s addr
  have hu := undoable_createObject_setStateObject hg hv addr ha hptr hfake hcode
  obtain ⟨e, he, -⟩ := createObject_snd_snd s addr
  rwa [he, setStateObject_setStateObject _ rfl, ← he] at hu

/-- A write of the account's record through `p`, its own record or a new one,
journaled with `c`, a new copy or none, where the pointer the revert restores
reads as the old record did. -/
theorem undoable_extraData (hg : s.Ptrs h s.journal.entries) (hv : s.ViewGood) {a : Address}
    {obj : StateObject} (ho : s.getStateObject a = some obj) {p : Ptr} {c : Option Ptr} {k : Heap}
    (hnext : h.next ≤ k.next) (hp : p < k.next) (hown : obj.accountExtraData = some p ∨ h.next ≤ p)
    (hcopy : ∀ q, c = some q → h.next ≤ q ∧ q < k.next ∧ q ≠ p)
    (hcells : ∀ q < h.next, q ≠ p → k.cells q = h.cells q)
    (hread : (obj.setAccountExtraData c).AccountExtraData s.db k = obj.AccountExtraData s.db h) :
    Undoable s h ((s.append (.accountExtraDataChange obj.address c)).setStateObject
      (obj.setAccountExtraData (some p))) k := by
  obtain ⟨hptrA, rfl⟩ := ptrOf_of_getStateObject hg.keys ho
  have hdel0 := StateObject.deleted_of_getStateObject ho
  -- `p` is no other account's record
  have hnot : ∀ b q, b ≠ obj.address → s.ptrOf b = some q → q ≠ p := by
    intro b q hb hq hqp
    subst hqp
    rcases hown with hown | hown
    · exact hb (hg.ptrs.live_inj b obj.address q hq (hptrA ▸ hown))
    · exact absurd (hg.ptrs.live_lt b q hq) (Nat.not_lt.2 hown)
  have hy : ((s.append (.accountExtraDataChange obj.address c)).setStateObject
      (obj.setAccountExtraData (some p))).getStateObject obj.address = some (obj.setAccountExtraData (some p)) := by
    simp [getStateObject_setStateObject, StateObject.setAccountExtraData, hdel0]
  refine ⟨⟨[.accountExtraDataChange obj.address c], by simp, ?_⟩, hnext, fun q hq hnl => hcells q hq ?_,
    fun b q hbq hq => ?_, rfl, rfl, ⟨keysMatch_setStateObject hg.keys _, ?_⟩,
    (hv.append _).setStateObject (hv.noFake _ obj ho) (hv.codeHash _ obj ho)⟩
  · have hrev : (JournalEntry.accountExtraDataChange obj.address c).revert
        ((s.append (.accountExtraDataChange obj.address c)).setStateObject (obj.setAccountExtraData (some p))) =
        some (((s.append (.accountExtraDataChange obj.address c)).setStateObject
          (obj.setAccountExtraData (some p))).setStateObject (obj.setAccountExtraData c)) := by
      simp only [JournalEntry.revert, modifyObject, hy, Option.map_some]
      rfl
    obtain ⟨x', hx', hsame⟩ := sameView_revertStep (h := k) hrev
    rw [setStateObject_setStateObject _ (show (obj.setAccountExtraData c).address =
      (obj.setAccountExtraData (some p)).address from rfl)] at hsame
    -- the restored pointer reads as the old record, and no other account's record was written
    have hback : SameView k h (s.setStateObject (obj.setAccountExtraData c)) s :=
      sameView_setStateObject hg.keys ho (show (obj.setAccountExtraData c).address = obj.address from rfl)
        hdel0 (StateObject.view_setAccountExtraData_of _ _ hread)
        fun b q hb hq => hcells q (hg.ptrs.live_lt b q hq) (hnot b q hb hq)
    exact ⟨x', by rw [Journal.undoAll_singleton]; exact hx', hsame.trans
      ((sameView_of_eq rfl rfl rfl rfl rfl rfl rfl).trans hback)⟩
  · -- a record no object points to is not `p`
    rintro rfl
    rcases hown with hown | hown
    · exact hnl obj.address (hptrA ▸ hown)
    · exact absurd hq (Nat.not_lt.2 hown)
  · rw [ptrOf_setStateObject] at hbq
    split at hbq
    · cases hbq
      rcases hown with hown | hown
      · exact ⟨obj.address, hptrA ▸ hown⟩
      · exact absurd hq (Nat.not_lt.2 hown)
    · exact ⟨b, hbq⟩
  · simp only [journal_setStateObject, entries_append]
    have h1 : s.PtrWF k (s.journal.entries ++ [.accountExtraDataChange obj.address c]) :=
      (hg.ptrs.next_le hnext).append fun q hq =>
        ⟨(hcopy q hq).2.1, fun b hb => absurd (hg.ptrs.live_lt b q hb) (Nat.not_lt.2 (hcopy q hq).1),
          fun e' he' he'q => absurd (hg.ptrs.frozen_lt e' he' q he'q) (Nat.not_lt.2 (hcopy q hq).1)⟩
    refine PtrWF.of_ptrOf (s := s.setStateObject (obj.setAccountExtraData (some p)))
      (h1.setStateObject _ fun q hq => ?_) (funext fun _ => rfl)
    cases hq
    refine ⟨hp, fun b hb => Classical.byContradiction fun hne => hnot b p hne hb rfl, fun e' he' he'p => ?_⟩
    rcases List.mem_append.1 he' with he' | he'
    · rcases hown with hown | hown
      · exact hg.ptrs.frozen_not_live e' he' p he'p obj.address (hptrA ▸ hown)
      · exact absurd (hg.ptrs.frozen_lt e' he' p he'p) (Nat.not_lt.2 hown)
    · rw [List.mem_singleton.1 he'] at he'p
      exact (hcopy p he'p).2.2 rfl

end StateDB

end Xdchain.State
