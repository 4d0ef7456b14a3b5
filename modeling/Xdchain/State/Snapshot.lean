import Xdchain.State.Setters
import Xdchain.State.Copy

/-! # Snapshots revert exactly

`Snapshot` marks the journal and `RevertToSnapshot(id)` undoes every entry
after the mark, then drops the revision with every later one. Take a well
formed state, call `Snapshot()`, and run any journaled setters, snapshots and
reverts to snapshots taken since: `RevertToSnapshot` to the first snapshot
succeeds, every getter answers as it did at `Snapshot()`, and the valid
revisions are those from before it (`revertToSnapshot_restores_observe`).
The snapshot's own id is no longer valid after the revert, and a fake
storage's writes are not journaled at all
(`revertToSnapshot_keeps_fakeStorage_write_and_drops_own_id`).

The run keeps `RunInv`: undoing the journal from the first snapshot's mark
gives that snapshot's view, and undoing it from the mark of a snapshot taken
since gives a state whose view-read invariants hold. A setter keeps it since
it is `Undoable`; a revert to a later snapshot is itself such an undo, and
the journal's `undoAll_drop` splits the first snapshot's undo at its mark. -/

namespace Xdchain.State
open Xdchain.Lib

/-! ## Runs of setters, snapshots and reverts -/

/-- The journaled setters, with their arguments. -/
inductive Mutation where
  | addBalance (addr : Address) (amount : Int)
  | subBalance (addr : Address) (amount : Int)
  | setBalance (addr : Address) (amount : Int)
  | setNonce (addr : Address) (nonce : Nat)
  | setCode (addr : Address) (code : List UInt8)
  | setState (addr : Address) (key value : Hash)
  | suicide (addr : Address)
  | createAccount (addr : Address)
  | addLog (log : Log)
  | addRefund (gas : Nat)
  | subRefund (gas : Nat)
  | addPreimage (hash : Hash) (preimage : List UInt8)
  | addAddressToAccessList (addr : Address)
  | addSlotToAccessList (addr : Address) (slot : Hash)
  | setPrivacyMetadata (addr : Address) (metadata : Option PrivacyMetadata)
  | setManagedParties (addr : Address) (managedParties : List String)

/-- The setter's call; `none` where it panics. -/
def Mutation.apply : Mutation → StateDB → Heap → Option (StateDB × Heap)
  | .addBalance addr amount, s, h => some (s.AddBalance addr amount, h)
  | .subBalance addr amount, s, h => some (s.SubBalance addr amount, h)
  | .setBalance addr amount, s, h => some (s.SetBalance addr amount, h)
  | .setNonce addr nonce, s, h => some (s.SetNonce addr nonce, h)
  | .setCode addr code, s, h => some (s.SetCode addr code, h)
  | .setState addr key value, s, h => some (s.SetState addr key value, h)
  | .suicide addr, s, h => some ((s.Suicide addr).2, h)
  | .createAccount addr, s, h => some (s.CreateAccount addr, h)
  | .addLog log, s, h => some (s.AddLog log, h)
  | .addRefund gas, s, h => some (s.AddRefund gas, h)
  | .subRefund gas, s, h => (s.SubRefund gas).map fun s => (s, h)
  | .addPreimage hash preimage, s, h => some (s.AddPreimage hash preimage, h)
  | .addAddressToAccessList addr, s, h => some (s.AddAddressToAccessList addr, h)
  | .addSlotToAccessList addr slot, s, h => (s.AddSlotToAccessList addr slot).map fun s => (s, h)
  | .setPrivacyMetadata addr metadata, s, h => some (s.SetPrivacyMetadata h addr metadata)
  | .setManagedParties addr managedParties, s, h => some (s.SetManagedParties h addr managedParties)

inductive Op where
  | mutate (m : Mutation)
  | snapshot
  | revertToSnapshot (revid : Nat)

def Op.apply : Op → StateDB × Heap → Option (StateDB × Heap)
  | .mutate m, (s, h) => m.apply s h
  | .snapshot, (s, h) => some (s.Snapshot.2, h)
  | .revertToSnapshot revid, (s, h) => (s.RevertToSnapshot revid).map fun s => (s, h)

/-- The calls one after another; `none` where one panics. -/
def run : List Op → StateDB × Heap → Option (StateDB × Heap)
  | [], sh => some sh
  | op :: ops, sh => (op.apply sh).bind (run ops)

namespace StateDB

variable {s s0 x y : StateDB} {h h0 hx : Heap}

theorem Mutation.undoable (hg : s.Ptrs h s.journal.entries) (hv : s.ViewGood) {m : Mutation}
    {t : StateDB} {k : Heap} (hm : m.apply s h = some (t, k)) : Undoable s h t k := by
  cases m with
  | addBalance addr amount => cases hm; exact undoable_AddBalance hg hv addr amount
  | subBalance addr amount => cases hm; exact undoable_SubBalance hg hv addr amount
  | setBalance addr amount => cases hm; exact undoable_SetBalance hg hv addr amount
  | setNonce addr nonce => cases hm; exact undoable_SetNonce hg hv addr nonce
  | setCode addr code => cases hm; exact undoable_SetCode hg hv addr code
  | setState addr key value => cases hm; exact undoable_SetState hg hv addr key value
  | suicide addr => cases hm; exact undoable_Suicide hg hv addr
  | createAccount addr => cases hm; exact undoable_CreateAccount hg hv addr
  | addLog log => cases hm; exact undoable_AddLog hg hv log
  | addRefund gas => cases hm; exact undoable_AddRefund hg hv gas
  | subRefund gas =>
    obtain ⟨y, hy, hyt⟩ := Option.map_eq_some_iff.1 hm
    cases hyt
    exact undoable_SubRefund hg hv hy
  | addPreimage hash preimage => cases hm; exact undoable_AddPreimage hg hv hash preimage
  | addAddressToAccessList addr => cases hm; exact undoable_AddAddressToAccessList hg hv addr
  | addSlotToAccessList addr slot =>
    obtain ⟨y, hy, hyt⟩ := Option.map_eq_some_iff.1 hm
    cases hyt
    exact undoable_AddSlotToAccessList hg hv hy
  | setPrivacyMetadata addr metadata =>
    have hu := undoable_SetPrivacyMetadata hg hv addr metadata
    rw [Option.some.inj hm] at hu
    exact hu
  | setManagedParties addr managedParties =>
    have hu := undoable_SetManagedParties hg hv addr managedParties
    rw [Option.some.inj hm] at hu
    exact hu

/-! ## Reverts and the revisions -/

/-- Reverts leave the revisions alone. -/
theorem revisions_revert {e : JournalEntry} (he : e.revert x = some y) :
    y.validRevisions = x.validRevisions ∧ y.nextRevisionId = x.nextRevisionId := by
  have hmod : ∀ {a : Address} {f : StateObject → StateObject} {z : StateDB}, x.modifyObject a f = some z →
      z.validRevisions = x.validRevisions ∧ z.nextRevisionId = x.nextRevisionId := fun hm => by
    obtain ⟨o, -, rfl⟩ := Option.map_eq_some_iff.1 hm
    exact ⟨rfl, rfl⟩
  cases e with
  | suicideChange account prev prevbalance =>
    cases he
    cases hm : x.modifyObject account (fun obj => { obj with suicided := prev }.setBalance prevbalance) with
    | none => exact ⟨rfl, rfl⟩
    | some x'' => exact hmod hm
  | balanceChange => exact hmod he
  | nonceChange => exact hmod he
  | codeChange => exact hmod he
  | accountExtraDataChange => exact hmod he
  | storageChange => exact hmod he
  | addLogChange txhash =>
    simp only [JournalEntry.revert] at he
    split at he
    · cases he
      exact ⟨rfl, rfl⟩
    · split at he
      · cases he
      · cases he
        exact ⟨rfl, rfl⟩
  | accessListAddSlotChange =>
    obtain ⟨al, -, rfl⟩ := Option.map_eq_some_iff.1 he
    exact ⟨rfl, rfl⟩
  | _ =>
    cases he
    exact ⟨rfl, rfl⟩

theorem revisions_undoAll {es : List JournalEntry}
    (hu : Journal.undoAll JournalEntry.revertStep es x = some y) :
    y.validRevisions = x.validRevisions ∧ y.nextRevisionId = x.nextRevisionId := by
  induction es generalizing y with
  | nil =>
    cases hu
    exact ⟨rfl, rfl⟩
  | cons e es ih =>
    rw [Journal.undoAll_cons, Option.bind_eq_some_iff] at hu
    obtain ⟨z, hz, hy⟩ := hu
    obtain ⟨y', hy', rfl⟩ := Option.map_eq_some_iff.1 hy
    obtain ⟨h1, h2⟩ := revisions_revert hy'
    have := ih hz
    -- the dirty counts are in the journal
    cases e.dirtied <;> exact ⟨h1.trans this.1, h2.trans this.2⟩

/-- Undoing the same entries from states with the same view, under one heap. -/
theorem undoAll_of_sameView {es : List JournalEntry} (hxy : SameView h h x y) {b : StateDB}
    (hb : Journal.undoAll JournalEntry.revertStep es x = some b) :
    ∃ b', Journal.undoAll JournalEntry.revertStep es y = some b' ∧ SameView h h b b' :=
  Journal.undoAll_sim _ (carries_revertStep fun _ _ _ _ => rfl) hxy hb

/-- After a revert to mark `j`, undoing from an earlier mark `k` gives what it
gave before. -/
theorem undoAll_after_revert {t0 : StateDB} {k j : Nat} (hkj : k ≤ j) (hj : j ≤ x.journal.entries.length)
    (ht0 : Journal.undoAll JournalEntry.revertStep (x.journal.entries.drop j) x = some t0)
    (vs : List Revision) {b : StateDB}
    (hb : Journal.undoAll JournalEntry.revertStep (x.journal.entries.drop k) x = some b) :
    ∃ b', Journal.undoAll JournalEntry.revertStep ((x.journal.entries.take j).drop k)
      { t0 with journal := { t0.journal with entries := x.journal.entries.take j }, validRevisions := vs } =
        some b' ∧ SameView h h b b' := by
  rw [Journal.undoAll_drop _ _ hkj hj, ht0, Option.bind_some] at hb
  refine undoAll_of_sameView ?_ hb
  exact ⟨rfl, rfl⟩

/-- `RevertToSnapshot`'s search, over ids that increase, finds the revision
with the id. -/
theorem search_revision {rs : List Revision} (hids : rs.Pairwise fun r r' => r.id < r'.id) {i : Nat}
    {r : Revision} (hr : rs[i]? = some r) :
    search rs.length (fun j => decide (r.id ≤ (rs.getD j ⟨0, 0⟩).id)) = i := by
  obtain ⟨hi, rfl⟩ := List.getElem?_eq_some_iff.1 hr
  have hlt : ∀ a b (ha : a < rs.length) (hb : b < rs.length), a < b → rs[a].id < rs[b].id :=
    fun a b ha hb hab => List.pairwise_iff_getElem.1 hids a b ha hb hab
  have hgetD : ∀ j (hj : j < rs.length), rs.getD j ⟨0, 0⟩ = rs[j] := fun j hj => by
    simp [List.getD_eq_getElem?_getD, hj]
  have hmono : ∀ a b, a ≤ b → b < rs.length → decide (rs[i].id ≤ (rs.getD a ⟨0, 0⟩).id) = true →
      decide (rs[i].id ≤ (rs.getD b ⟨0, 0⟩).id) = true := by
    intro a b hab hb ha
    rw [hgetD a (Nat.lt_of_le_of_lt hab hb), decide_eq_true_eq] at ha
    rw [hgetD b hb, decide_eq_true_eq]
    rcases Nat.lt_or_eq_of_le hab with hab | rfl
    · exact Nat.le_trans ha (Nat.le_of_lt (hlt a b _ hb hab))
    · exact ha
  obtain ⟨-, hbelow, habove⟩ := search_spec hmono
  -- the ids before `i` are below its id, and from `i` on they reach it
  apply Nat.le_antisymm
  · apply Nat.le_of_not_lt
    intro hgt
    have := hbelow i hgt
    rw [hgetD i hi] at this
    simp at this
  · apply Nat.le_of_not_lt
    intro hlt'
    have := habove _ (Nat.le_refl _) (Nat.lt_trans hlt' hi)
    rw [hgetD _ (Nat.lt_trans hlt' hi), decide_eq_true_eq] at this
    exact absurd this (Nat.not_le.2 (hlt _ i _ hi hlt'))

/-- What a revert to a snapshot does: the revision the search finds has the
id, its mark is in the journal, the journal is undone from it, and it is
dropped with every later revision. -/
theorem RevertToSnapshot_eq_some {revid : Nat} {x' : StateDB} (hx' : x.RevertToSnapshot revid = some x') :
    ∃ idx r t0, x.validRevisions[idx]? = some r ∧ r.id = revid ∧ r.journalIndex ≤ x.journal.length ∧
      Journal.undoAll JournalEntry.revertStep (x.journal.entries.drop r.journalIndex) x = some t0 ∧
      x' = { t0 with journal := { t0.journal with entries := x.journal.entries.take r.journalIndex },
                     validRevisions := x.validRevisions.take idx } := by
  unfold RevertToSnapshot at hx'
  dsimp only at hx'
  split at hx'
  · cases hx'
  · next r hr =>
    split at hx'
    · cases hx'
    · next hid =>
      obtain ⟨t, ht, rfl⟩ := Option.map_eq_some_iff.1 hx'
      unfold revertJournal at ht
      split at ht
      · cases ht
      · next hle =>
        obtain ⟨t0, ht0, rfl⟩ := Option.map_eq_some_iff.1 ht
        exact ⟨_, r, t0, hr, Classical.not_not.1 hid, Nat.le_of_not_lt hle, ht0, rfl⟩

/-- A revert to the id of the revision at `i`, where the ids increase: the
journal undone from its mark, and the revision dropped with every later one. -/
theorem RevertToSnapshot_of_getElem? (hids : x.validRevisions.Pairwise fun r r' => r.id < r'.id) {i : Nat}
    {r : Revision} (hr : x.validRevisions[i]? = some r) (hle : r.journalIndex ≤ x.journal.length) :
    x.RevertToSnapshot r.id =
      (Journal.undoAll JournalEntry.revertStep (x.journal.entries.drop r.journalIndex) x).map fun t =>
        { t with journal := { t.journal with entries := x.journal.entries.take r.journalIndex },
                 validRevisions := x.validRevisions.take i } := by
  unfold RevertToSnapshot
  dsimp only
  rw [search_revision hids hr, hr]
  simp [revertJournal, Nat.not_lt.2 hle]
  rfl

/-- A revert to an id no valid revision has panics. -/
theorem RevertToSnapshot_eq_none {revid : Nat} (hno : ∀ r ∈ x.validRevisions, r.id ≠ revid) :
    x.RevertToSnapshot revid = none := by
  unfold RevertToSnapshot
  dsimp only
  split
  · rfl
  · next r hr => rw [if_pos (hno r (List.mem_of_getElem? hr))]

/-! ## Well-formed states and runs -/

/-- The revisions: ids increasing and below the next one, marks in order and
within the journal. -/
structure RevisionsWF (s : StateDB) : Prop where
  ids : s.validRevisions.Pairwise fun r r' => r.id < r'.id
  marks : s.validRevisions.Pairwise fun r r' => r.journalIndex ≤ r'.journalIndex
  mark_le : ∀ r ∈ s.validRevisions, r.journalIndex ≤ s.journal.length
  id_lt : ∀ r ∈ s.validRevisions, r.id < s.nextRevisionId

/-- What the code keeps of the states it builds, and a revert needs. -/
structure WellFormed (s : StateDB) (h : Heap) : Prop where
  ptrs : s.Ptrs h s.journal.entries
  good : s.ViewGood
  revisions : s.RevisionsWF

theorem newObject_codeHash_isSome (db : Database) (a : Address) (d : Account) :
    (newObject db a d).data.codeHash.isSome := by
  cases hc : d.codeHash <;> simp [newObject, hc]

/-- A new state over any committed one is well formed. -/
theorem wellFormed_New (db : Database) (h : Heap) : (New db).WellFormed h := by
  have hget : ∀ a o, (New db).getStateObject a = some o → ∃ d, o = newObject db a d := by
    intro a o ho
    unfold getStateObject getDeletedStateObject at ho
    simp only [New, KeyMap.find?_empty, Option.filter_eq_some_iff, Option.map_eq_some_iff] at ho
    obtain ⟨⟨d, -, rfl⟩, -⟩ := ho
    exact ⟨d, rfl⟩
  refine ⟨⟨fun a o ho => (by cases ho), ⟨fun a p hp => (by cases hp), fun a b p hp => (by cases hp),
    fun e he => (by cases he), fun e he => (by cases he), List.nodup_nil⟩⟩,
    ⟨fun a o ho => ?_, fun a o ho => ?_, AccessList.wellFormed_newAccessList⟩,
    ⟨List.Pairwise.nil, List.Pairwise.nil, fun r hr => (by cases hr), fun r hr => (by cases hr)⟩⟩
  · obtain ⟨d, rfl⟩ := hget a o ho
    rfl
  · obtain ⟨d, rfl⟩ := hget a o ho
    exact newObject_codeHash_isSome db a d

theorem RevisionsWF.snapshot (hr : s.RevisionsWF) : s.Snapshot.2.RevisionsWF where
  ids := List.pairwise_append.2 ⟨hr.ids, List.pairwise_singleton _ _, fun r hr' r' hr'' => by
    rw [List.mem_singleton.1 hr'']
    exact hr.id_lt r hr'⟩
  marks := List.pairwise_append.2 ⟨hr.marks, List.pairwise_singleton _ _, fun r hr' r' hr'' => by
    rw [List.mem_singleton.1 hr'']
    exact hr.mark_le r hr'⟩
  mark_le r hr' := by
    rcases List.mem_append.1 hr' with hr' | hr'
    · exact hr.mark_le r hr'
    · rw [List.mem_singleton.1 hr']
      exact Nat.le_refl _
  id_lt r hr' := by
    rcases List.mem_append.1 hr' with hr' | hr'
    · exact Nat.lt_succ_of_lt (hr.id_lt r hr')
    · rw [List.mem_singleton.1 hr']
      exact Nat.lt_succ_self _

theorem WellFormed.snapshot (hwf : s.WellFormed h) : s.Snapshot.2.WellFormed h :=
  ⟨⟨hwf.ptrs.keys, hwf.ptrs.ptrs.of_ptrOf rfl⟩, ⟨hwf.good.noFake, hwf.good.codeHash, hwf.good.accessList⟩,
    hwf.revisions.snapshot⟩

theorem sameView_snapshot (s : StateDB) (h : Heap) : SameView h h s.Snapshot.2 s := ⟨rfl, rfl⟩

/-- Along a run from `Snapshot()` on `s0`: the state is well formed, the
snapshot's revision follows `s0`'s, undoing the journal from its mark gives
`s0`'s view, and undoing it from the mark of a revision taken since gives a
state whose view-read parts hold. -/
structure RunInv (s0 : StateDB) (h0 : Heap) (x : StateDB) (hx : Heap) : Prop where
  wf : x.WellFormed hx
  base : ∃ rest, x.validRevisions = s0.validRevisions ++ ⟨s0.nextRevisionId, s0.journal.length⟩ :: rest
  undo_base : ∃ b, Journal.undoAll JournalEntry.revertStep (x.journal.entries.drop s0.journal.length) x =
    some b ∧ SameView hx h0 b s0
  undo_later : ∀ r ∈ x.validRevisions, s0.nextRevisionId < r.id →
    ∃ b, Journal.undoAll JournalEntry.revertStep (x.journal.entries.drop r.journalIndex) x = some b ∧
      b.ViewGood

theorem runInv_snapshot (hwf : s0.WellFormed h0) : RunInv s0 h0 s0.Snapshot.2 h0 where
  wf := hwf.snapshot
  base := ⟨[], rfl⟩
  undo_base := ⟨s0.Snapshot.2, by simp [Snapshot, Journal.length], sameView_snapshot s0 h0⟩
  undo_later r hr hlt := by
    rcases List.mem_append.1 hr with hr | hr
    · exact absurd (hwf.revisions.id_lt r hr) (Nat.not_lt.2 (Nat.le_of_lt hlt))
    · rw [List.mem_singleton.1 hr] at hlt
      exact absurd hlt (Nat.lt_irrefl _)

theorem RunInv.mutate (hi : RunInv s0 h0 x hx) {m : Mutation} {y : StateDB} {hy : Heap}
    (hm : m.apply x hx = some (y, hy)) : RunInv s0 h0 y hy := by
  have hu := Mutation.undoable hi.wf.ptrs hi.wf.good hm
  obtain ⟨es, hes, -⟩ := hu.undo
  have hlen : x.journal.length ≤ y.journal.length := by
    simp only [Journal.length, hes, List.length_append]
    exact Nat.le_add_right _ _
  have hrevs := hi.wf.revisions
  obtain ⟨rest, hbase⟩ := hi.base
  refine ⟨⟨hu.ptrs, hu.good, ?_⟩, ⟨rest, hu.validRevisions ▸ hbase⟩, ?_, fun r hr hlt => ?_⟩
  · -- the journal only grows, and the revisions are the same
    refine ⟨by rw [hu.validRevisions]; exact hrevs.ids, by rw [hu.validRevisions]; exact hrevs.marks,
      fun r hr => ?_, fun r hr => ?_⟩
    · rw [hu.validRevisions] at hr
      exact Nat.le_trans (hrevs.mark_le r hr) hlen
    · rw [hu.validRevisions] at hr
      rw [hu.nextRevisionId]
      exact hrevs.id_lt r hr
  · obtain ⟨b, hb, hsame⟩ := hi.undo_base
    have hmem : (⟨s0.nextRevisionId, s0.journal.length⟩ : Revision) ∈ x.validRevisions := by simp [hbase]
    obtain ⟨b', hb', hsame'⟩ := hu.undoAll_drop hi.wf.ptrs.ptrs (hrevs.mark_le _ hmem) hb
    exact ⟨b', hb', hsame'.trans hsame⟩
  · have hr' : r ∈ x.validRevisions := hu.validRevisions ▸ hr
    obtain ⟨b, hb, hgood⟩ := hi.undo_later r hr' hlt
    obtain ⟨b', hb', hsame'⟩ := hu.undoAll_drop hi.wf.ptrs.ptrs (hrevs.mark_le r hr') hb
    exact ⟨b', hb', hgood.of_sameView hsame'.symm⟩

theorem RunInv.snapshot (hi : RunInv s0 h0 x hx) : RunInv s0 h0 x.Snapshot.2 hx := by
  obtain ⟨rest, hbase⟩ := hi.base
  refine ⟨hi.wf.snapshot, ⟨rest ++ [⟨x.nextRevisionId, x.journal.length⟩], by simp [Snapshot, hbase]⟩, ?_,
    fun r hr hlt => ?_⟩
  · obtain ⟨b, hb, hsame⟩ := hi.undo_base
    obtain ⟨b', hb', hsame'⟩ := undoAll_of_sameView (sameView_snapshot x hx).symm hb
    exact ⟨b', hb', hsame'.symm.trans hsame⟩
  · rcases List.mem_append.1 hr with hr | hr
    · obtain ⟨b, hb, hgood⟩ := hi.undo_later r hr hlt
      obtain ⟨b', hb', hsame'⟩ := undoAll_of_sameView (sameView_snapshot x hx).symm hb
      exact ⟨b', hb', hgood.of_sameView hsame'⟩
    · -- the new revision marks the end of the journal: nothing to undo
      rw [List.mem_singleton.1 hr]
      exact ⟨x.Snapshot.2, by simp [Snapshot, Journal.length], hi.wf.snapshot.good⟩

/-- A revert to a snapshot taken during the run. -/
theorem RunInv.revert (hi : RunInv s0 h0 x hx) {revid : Nat} (hlt : s0.nextRevisionId < revid) {x' : StateDB}
    (hx' : x.RevertToSnapshot revid = some x') : RunInv s0 h0 x' hx := by
  obtain ⟨idx, r, t0, hr, hid, hle, ht0, rfl⟩ := RevertToSnapshot_eq_some hx'
  obtain ⟨rest, hbase⟩ := hi.base
  have hrevs := hi.wf.revisions
  obtain ⟨hidx, rfl⟩ := List.getElem?_eq_some_iff.1 hr
  have hbase_lt : s0.validRevisions.length < x.validRevisions.length := by rw [hbase]; simp
  have hbase_at : x.validRevisions[s0.validRevisions.length] =
      ⟨s0.nextRevisionId, s0.journal.length⟩ := by simp [hbase]
  -- the revision reverted to comes after the snapshot's, whose id is smaller
  have hpos : s0.validRevisions.length < idx := by
    apply Nat.lt_of_not_le
    intro hle'
    rcases Nat.lt_or_eq_of_le hle' with hlt' | heq
    · have := List.pairwise_iff_getElem.1 hrevs.ids idx s0.validRevisions.length hidx
        (by rw [hbase]; simp) hlt'
      rw [hbase_at] at this
      exact absurd (Nat.lt_trans hlt (hid ▸ this)) (Nat.lt_irrefl _)
    · subst heq
      rw [hbase_at] at hid
      exact absurd (hid ▸ hlt) (Nat.lt_irrefl _)
  obtain ⟨n, hn⟩ : ∃ n, idx = s0.validRevisions.length + (n + 1) := ⟨idx - s0.validRevisions.length - 1, by omega⟩
  have htake : x.validRevisions.take idx =
      s0.validRevisions ++ ⟨s0.nextRevisionId, s0.journal.length⟩ :: rest.take n := by
    rw [hbase, hn, List.take_append, List.take_of_length_le (by omega), Nat.add_sub_cancel_left,
      List.take_succ_cons]
  -- every revision kept is marked no later than the one reverted to
  have hmarks : ∀ r' ∈ x.validRevisions.take idx, r'.journalIndex ≤ x.validRevisions[idx].journalIndex := by
    intro r' hr'
    obtain ⟨i, hi', rfl⟩ := List.getElem_of_mem hr'
    rw [List.getElem_take]
    rw [List.length_take] at hi'
    exact List.pairwise_iff_getElem.1 hrevs.marks i idx (by omega) hidx (by omega)
  have hbase_le := hmarks ⟨s0.nextRevisionId, s0.journal.length⟩ (by rw [htake]; simp)
  have hlen : (x.journal.entries.take x.validRevisions[idx].journalIndex).length =
      x.validRevisions[idx].journalIndex := List.length_take_of_le hle
  have hptrs := hi.wf.ptrs
  rw [← List.take_append_drop x.validRevisions[idx].journalIndex x.journal.entries] at hptrs
  have ht0ptrs := hptrs.undoAll ht0
  -- the state reverted to has the view-read invariants: it is the later revision's undo
  obtain ⟨b0, hb0, hgood0⟩ := hi.undo_later _ (List.getElem_mem hidx) (hid ▸ hlt)
  rw [ht0] at hb0
  cases hb0
  refine ⟨⟨⟨ht0ptrs.keys, ht0ptrs.ptrs.of_ptrOf rfl⟩, hgood0.of_getStateObject (fun _ => rfl) hgood0.accessList,
    ⟨hrevs.ids.sublist (List.take_sublist _ _), hrevs.marks.sublist (List.take_sublist _ _),
      fun r' hr' => ?_, fun r' hr' => ?_⟩⟩, ⟨rest.take n, htake⟩, ?_, fun r' hr' hlt' => ?_⟩
  · show r'.journalIndex ≤ (x.journal.entries.take x.validRevisions[idx].journalIndex).length
    rw [hlen]
    exact hmarks r' hr'
  · show r'.id < t0.nextRevisionId
    rw [(revisions_undoAll ht0).2]
    exact hrevs.id_lt r' (List.mem_of_mem_take hr')
  · obtain ⟨b, hb, hsame⟩ := hi.undo_base
    obtain ⟨b', hb', hsame'⟩ := undoAll_after_revert (h := hx) hbase_le hle ht0 _ hb
    exact ⟨b', hb', hsame'.symm.trans hsame⟩
  · obtain ⟨b, hb, hgood⟩ := hi.undo_later r' (List.mem_of_mem_take hr') hlt'
    obtain ⟨b', hb', hsame'⟩ := undoAll_after_revert (h := hx) (hmarks r' hr') hle ht0 _ hb
    exact ⟨b', hb', hgood.of_sameView hsame'⟩

theorem RunInv.run (hi : RunInv s0 h0 x hx) {ops : List Op}
    (hnested : ∀ revid, Op.revertToSnapshot revid ∈ ops → s0.nextRevisionId < revid)
    {t : StateDB} {k : Heap} (hrun : run ops (x, hx) = some (t, k)) : RunInv s0 h0 t k := by
  induction ops generalizing x hx with
  | nil =>
    cases hrun
    exact hi
  | cons op ops ih =>
    rw [run, Option.bind_eq_some_iff] at hrun
    obtain ⟨⟨y, hy⟩, hop, hrun⟩ := hrun
    have hnested' : ∀ revid, Op.revertToSnapshot revid ∈ ops → s0.nextRevisionId < revid :=
      fun revid hr => hnested revid (List.mem_cons_of_mem _ hr)
    refine ih ?_ hnested' hrun
    cases op with
    | mutate m => exact hi.mutate hop
    | snapshot =>
      cases hop
      exact hi.snapshot
    | revertToSnapshot revid =>
      obtain ⟨x', hx', hxy⟩ := Option.map_eq_some_iff.1 hop
      cases hxy
      exact hi.revert (hnested revid List.mem_cons_self) hx'

/-- The revert to the first snapshot finds it, undoes the journal from its
mark and drops it with every later revision. -/
theorem RunInv.revertToSnapshot (hi : RunInv s0 h0 x hx) :
    ∃ u, x.RevertToSnapshot s0.nextRevisionId = some u ∧ SameView hx h0 u s0 ∧
      u.validRevisions = s0.validRevisions := by
  obtain ⟨rest, hbase⟩ := hi.base
  obtain ⟨b, hb, hsame⟩ := hi.undo_base
  have hat : x.validRevisions[s0.validRevisions.length]? = some ⟨s0.nextRevisionId, s0.journal.length⟩ := by
    simp [hbase]
  have hle : s0.journal.length ≤ x.journal.length :=
    hi.wf.revisions.mark_le _ (List.mem_of_getElem? hat)
  refine ⟨{ b with journal := { b.journal with entries := x.journal.entries.take s0.journal.length },
                   validRevisions := x.validRevisions.take s0.validRevisions.length }, ?_,
    (show SameView hx hx _ b from ⟨rfl, rfl⟩).trans hsame, by simp [hbase]⟩
  rw [RevertToSnapshot_of_getElem? hi.wf.revisions.ids hat hle, hb, Option.map_some]

/-! ## Reverting to a snapshot -/

/-- **`RevertToSnapshot` restores every getter.** From a well-formed state,
`Snapshot()` and then any run of journaled setters, snapshots and reverts to
snapshots taken since: reverting to the snapshot succeeds, every getter
answers as at the snapshot, and the valid revisions are the ones from before
it, so the snapshot's own id is invalidated with the later ones. -/
theorem revertToSnapshot_restores_observe {s : StateDB} {h : Heap} (hwf : s.WellFormed h) {ops : List Op}
    (hnested : ∀ revid, Op.revertToSnapshot revid ∈ ops → s.Snapshot.1 < revid)
    {t : StateDB} {k : Heap} (hrun : run ops (s.Snapshot.2, h) = some (t, k)) :
    ∃ u, t.RevertToSnapshot s.Snapshot.1 = some u ∧ u.observe k = s.observe h ∧
      u.validRevisions = s.validRevisions := by
  have hi := (runInv_snapshot hwf).run hnested hrun
  obtain ⟨u, hu, hsame, hrevs⟩ := hi.revertToSnapshot
  exact ⟨u, hu, observe_eq_of_view_eq hsame.1 hsame.2, hrevs⟩

/-- A balance added, a snapshot, and a storage write, then the revert to the
first snapshot. -/
theorem revertToSnapshot_restores_observe_of_New :
    (New emptyDatabase).WellFormed emptyHeap ∧
      run [.mutate (.addBalance 1 5), .snapshot, .mutate (.setState 1 2 3)]
        ((New emptyDatabase).Snapshot.2, emptyHeap) =
        some (((New emptyDatabase).Snapshot.2.AddBalance 1 5).Snapshot.2.SetState 1 2 3, emptyHeap) ∧
      ∃ u, (((New emptyDatabase).Snapshot.2.AddBalance 1 5).Snapshot.2.SetState 1 2 3).RevertToSnapshot
          (New emptyDatabase).Snapshot.1 = some u ∧
        u.observe emptyHeap = (New emptyDatabase).observe emptyHeap ∧
        u.validRevisions = (New emptyDatabase).validRevisions :=
  ⟨wellFormed_New _ _, rfl,
    @revertToSnapshot_restores_observe _ _ (wellFormed_New _ _)
      [.mutate (.addBalance 1 5), .snapshot, .mutate (.setState 1 2 3)] (fun revid hr => by simp at hr) _ _ rfl⟩

/-- A revert does not restore a state with a fake storage, whose writes are
not journaled, and it invalidates the snapshot's own id, not only the later
ones: account 1 with an empty fake storage, a snapshot, a write of 7 at
key 5, and the revert; and a snapshot of a new state reverted twice. -/
theorem revertToSnapshot_keeps_fakeStorage_write_and_drops_own_id :
    (((New emptyDatabase).SetStorage 1 .empty).GetState 1 5 = 0 ∧
      ((((New emptyDatabase).SetStorage 1 .empty).Snapshot.2.SetState 1 5 7).RevertToSnapshot 0).map
        (fun u => u.GetState 1 5) = some 7) ∧
    ((New emptyDatabase).Snapshot.2.RevertToSnapshot 0).bind (fun u => u.RevertToSnapshot 0) = none := by
  refine ⟨⟨rfl, ?_⟩, ?_⟩
  · rw [RevertToSnapshot_of_getElem? (i := 0) (r := ⟨0, 1⟩) (by decide) rfl (by decide)]
    rfl
  · rw [RevertToSnapshot_of_getElem? (i := 0) (r := ⟨0, 0⟩) (by decide) rfl (by decide)]
    refine Option.bind_eq_none_iff.2 fun u hu => ?_
    obtain ⟨t, -, rfl⟩ := Option.map_eq_some_iff.1 hu
    exact RevertToSnapshot_eq_none fun r hr => by simp at hr

end StateDB

end Xdchain.State
