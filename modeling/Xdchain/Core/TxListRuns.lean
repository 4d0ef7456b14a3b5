import Xdchain.Core.TxSortedMap

/-! # Runs of a `txList`

A `txList` only ever lowers its cost and gas caps in `Filter`, to the limits
whose excess it has just removed, and raises them in `Add` to the
transaction it puts in: so along every run from `newTxList` the caps bound
every transaction (`Capped`), and `Filter`'s short cut skips no transaction
over a limit. Of a strict list, `Filter` then removes exactly the
transactions over either limit and invalidates exactly those above the
least nonce removed, and `Remove` invalidates exactly the transactions above
the nonce it removes. -/

namespace Xdchain.Core.Heaped

open Xdchain.Lib

/-! ## The run `Ready` takes -/

/-- `run` is the longest front of `xs` whose nonces run on from `next`
without a gap. -/
def ReadyRun (next : UInt64) (xs run : List Transaction) : Prop :=
  ∃ rest, xs = run ++ rest ∧ (∀ i (h : i < run.length), run[i].nonce = next + UInt64.ofNat i) ∧
    ∀ tx ∈ rest.head?, tx.nonce ≠ next + UInt64.ofNat run.length

theorem add_one_add_ofNat (n : UInt64) (i : Nat) : n + 1 + UInt64.ofNat i = n + UInt64.ofNat (i + 1) := by
  rw [UInt64.ofNat_add, show UInt64.ofNat 1 = 1 from rfl, add_comm (UInt64.ofNat i) 1, add_assoc]

theorem consecutiveFrom_readyRun : ∀ (next : UInt64) (xs : List Transaction),
    ReadyRun next xs (Core.TxSortedMap.consecutiveFrom next xs)
  | _, [] => ⟨[], rfl, fun _ h => absurd h (Nat.not_lt_zero _), fun _ h => by simp at h⟩
  | next, tx :: txs => by
    unfold Core.TxSortedMap.consecutiveFrom
    split
    · rename_i hnonce
      obtain ⟨rest, hxs, hrun, hstop⟩ := consecutiveFrom_readyRun (next + 1) txs
      refine ⟨rest, by rw [List.cons_append]; exact congrArg (tx :: ·) hxs, ?_, ?_⟩
      · intro i hi
        cases i with
        | zero => simpa using hnonce
        | succ i =>
          rw [List.getElem_cons_succ, hrun i, add_one_add_ofNat]
      · intro tx' htx'
        rw [List.length_cons, ← add_one_add_ofNat]
        exact hstop tx' htx'
    · rename_i hnonce
      refine ⟨tx :: txs, rfl, fun _ h => absurd h (Nat.not_lt_zero _), fun tx' htx' => ?_⟩
      rw [List.head?_cons, Option.mem_some_iff] at htx'
      subst htx'
      simpa using hnonce

namespace TxSortedMap

/-- `Ready(start)` returns nothing when the least nonce is above `start`,
and otherwise returns and deletes the run of consecutive nonces from the
least. -/
theorem Ready_spec {m : TxSortedMap} (hm : Inv m) (start : UInt64) :
    (sortedOf m.items = [] → (m.Ready start).1 = []) ∧
      (∀ first ∈ (sortedOf m.items).head?, start < first.nonce →
        (m.Ready start).1 = [] ∧ (m.Ready start).2.items = m.items) ∧
      (∀ first ∈ (sortedOf m.items).head?, first.nonce ≤ start →
        ReadyRun first.nonce (sortedOf m.items) (m.Ready start).1 ∧
          (m.Ready start).2.items = m.items.filter fun nonce _ => nonce ∉ (m.Ready start).1.map Transaction.nonce) := by
  obtain ⟨hout, hmap⟩ := Ready_refines hm start
  have hitems : (m.Ready start).2.items = (m.toSortedMap.Ready start).2.items := congrArg Core.TxSortedMap.items hmap
  rw [hout, hitems]
  unfold Core.TxSortedMap.Ready
  rw [toSortedMap_sorted]
  cases hs : sortedOf m.items with
  | nil => exact ⟨fun _ => rfl, fun _ h => by simp at h, fun _ h => by simp at h⟩
  | cons first rest =>
    dsimp only
    refine ⟨fun h => absurd h (List.cons_ne_nil _ _), ?_, ?_⟩
    · intro f hf hlt
      rw [List.head?_cons, Option.mem_some_iff] at hf
      subst hf
      rw [if_pos hlt]
      exact ⟨rfl, rfl⟩
    · intro f hf hle
      rw [List.head?_cons, Option.mem_some_iff] at hf
      subst hf
      split
      · rename_i hlt
        exact absurd hlt (UInt64.not_lt.2 hle)
      · exact ⟨consecutiveFrom_readyRun _ _, rfl⟩

/-- `Cap(threshold)` returns as many transactions as the map holds above
`threshold`, none if it holds fewer. -/
theorem Cap_length {m : TxSortedMap} (hm : Inv m) (threshold : Nat) :
    (m.Cap threshold).1.length = m.items.size - threshold := by
  rw [(Cap_spec hm threshold).1, List.length_reverse, List.length_drop, toSortedMap_sorted,
    (Keyed.perm_sortedOf m.items).length_eq, KeyMap.values, List.length_map]
  rfl

/-- `Flatten` returns the transactions of the map by increasing nonce. -/
theorem Flatten_sorted {m : TxSortedMap} (hm : Inv m) :
    m.Flatten.1.Perm m.items.values ∧ m.Flatten.1.Pairwise fun a b => a.nonce < b.nonce := by
  rw [(Flatten_refines hm).1]
  exact ⟨Keyed.perm_sortedOf m.items, hm.keyed.sortedOf_pairwise⟩

end TxSortedMap

end Xdchain.Core.Heaped

namespace Xdchain.Core.TxList

open Xdchain.Lib Xdchain.Core.Heaped

/-! ## Runs -/

inductive Op
  | add (tx : Transaction) (priceBump : Nat)
  | forward (threshold : UInt64)
  | filter (costLimit : Int) (gasLimit : UInt64)
  | cap (threshold : Nat)
  | remove (tx : Transaction)
  | ready (start : UInt64)

def step (l : TxList) : Op → TxList
  | .add tx priceBump => (l.Add tx priceBump).2.2
  | .forward threshold => (l.Forward threshold).2
  | .filter costLimit gasLimit => (l.Filter costLimit gasLimit).2.2
  | .cap threshold => (l.Cap threshold).2
  | .remove tx => (l.Remove tx).2.2
  | .ready start => (l.Ready start).2

inductive Reachable (strict : Bool) : TxList → Prop
  | new : Reachable strict (newTxList strict)
  | step {l : TxList} (op : Op) : Reachable strict l → Reachable strict (l.step op)

/-- What `Filter`'s short cut relies on: every transaction under its nonce,
and within both caps. -/
structure Capped (l : TxList) : Prop where
  keyed : Keyed l.txs.items
  bounded : ∀ tx ∈ l.txs.items.values, tx.Cost ≤ l.costcap ∧ tx.gas ≤ l.gascap

theorem without_items (m : Core.TxSortedMap) (txs : List Transaction) :
    (m.without txs).items = m.items.filter fun nonce _ => nonce ∉ txs.map Transaction.nonce := rfl

/-- A list whose map is a part of a capped one's, under caps no lower, is capped. -/
theorem Capped.of_filter {l l' : TxList} (hc : Capped l) {q : UInt64 → Transaction → Bool}
    (hitems : l'.txs.items = l.txs.items.filter q) (hcost : l.costcap ≤ l'.costcap)
    (hgas : l.gascap ≤ l'.gascap) : Capped l' where
  keyed := hitems ▸ hc.keyed.filter q
  bounded tx htx := by
    rw [hitems] at htx
    obtain ⟨h1, h2⟩ := hc.bounded tx (KeyMap.mem_values_filter htx)
    exact ⟨le_trans h1 hcost, UInt64.le_trans h2 hgas⟩

theorem le_max_left_uint64 (a b : UInt64) : a ≤ max a b := by
  show a ≤ if a ≤ b then b else a
  split
  · assumption
  · exact UInt64.le_refl a

theorem le_max_right_uint64 (a b : UInt64) : b ≤ max a b := by
  show b ≤ if a ≤ b then b else a
  split
  · exact UInt64.le_refl b
  · rename_i h
    exact UInt64.le_of_lt (UInt64.not_le.1 h)

/-- `put` raises the caps to the transaction it puts in. -/
theorem Capped.put {l : TxList} (hc : Capped l) (tx : Transaction) : Capped (l.put tx) where
  keyed := hc.keyed.insert tx
  bounded t ht := by
    rcases List.mem_cons.1 ((KeyMap.values_perm_insert _ _ _).mem_iff.1 ht) with rfl | ht
    · exact ⟨le_max_right _ _, le_max_right_uint64 _ _⟩
    · obtain ⟨h1, h2⟩ := hc.bounded t (KeyMap.mem_values_filter ht)
      exact ⟨le_trans h1 (le_max_left _ _), UInt64.le_trans h2 (le_max_left_uint64 _ _)⟩

/-- Over either limit: the test `Filter` removes by. -/
def overLimits (costLimit : Int) (gasLimit : UInt64) (tx : Transaction) : Bool :=
  tx.gas > gasLimit || decide (tx.Cost > costLimit)

theorem over_eq_false {tx : Transaction} {costLimit : Int} {gasLimit : UInt64} :
    overLimits costLimit gasLimit tx = false ↔ tx.Cost ≤ costLimit ∧ tx.gas ≤ gasLimit := by
  simp only [overLimits, Bool.or_eq_false_iff, decide_eq_false_iff_not, gt_iff_lt, UInt64.not_lt, not_lt]
  exact And.comm

/-- `Filter` lowers the caps only to limits no transaction left exceeds. -/
theorem Capped.filter {l : TxList} (hc : Capped l) (costLimit : Int) (gasLimit : UInt64) :
    Capped (l.Filter costLimit gasLimit).2.2 := by
  unfold TxList.Filter
  split
  · exact hc
  · dsimp only
    split
    · -- nothing is over the limits: the caps fall, the transactions stay
      rename_i hnil
      refine ⟨hc.keyed, fun tx htx => over_eq_false.1 ?_⟩
      have h := List.filter_eq_nil_iff.1 hnil tx htx
      simpa [overLimits] using h
    · split <;> simp only [Core.TxSortedMap.Filter, Core.TxSortedMap.filter]
      · refine ⟨(hc.keyed.filter _).filter _, fun tx htx => over_eq_false.1 ?_⟩
        have htx' := KeyMap.mem_values_filter htx
        obtain ⟨nonce, hf⟩ := (KeyMap.mem_values_iff _ _).1 htx'
        simpa [overLimits] using ((KeyMap.find?_filter_eq_some_iff _ _ _ _).1 hf).2
      · refine ⟨hc.keyed.filter _, fun tx htx => over_eq_false.1 ?_⟩
        obtain ⟨nonce, hf⟩ := (KeyMap.mem_values_iff _ _).1 htx
        simpa [overLimits] using ((KeyMap.find?_filter_eq_some_iff _ _ _ _).1 hf).2

theorem Capped.step {l : TxList} (hc : Capped l) : ∀ op, Capped (l.step op)
  | .add tx priceBump => by
    simp only [TxList.step, TxList.Add]
    split
    · split
      · exact hc
      · exact hc.put tx
    · exact hc.put tx
  | .forward threshold => by
    simp only [TxList.step, TxList.Forward, Core.TxSortedMap.Forward]
    exact hc.of_filter (without_items _ _) (le_refl _) (UInt64.le_refl _)
  | .filter costLimit gasLimit => hc.filter costLimit gasLimit
  | .cap threshold => by
    simp only [TxList.step, TxList.Cap, Core.TxSortedMap.Cap]
    split
    · exact hc
    · exact hc.of_filter (without_items _ _) (le_refl _) (UInt64.le_refl _)
  | .remove tx => by
    simp only [TxList.step, TxList.Remove, Core.TxSortedMap.Remove, Core.TxSortedMap.Filter,
      Core.TxSortedMap.filter]
    cases l.txs.items.find? tx.nonce with
    | none => exact hc
    | some _ =>
      dsimp only
      split <;> dsimp only
      · have h := KeyMap.erase_filter l.txs.items tx.nonce fun _ tx' => !decide (tx'.nonce > tx.nonce)
        exact hc.of_filter h (le_refl _) (UInt64.le_refl _)
      · exact hc.of_filter (q := fun k _ => decide (k ≠ tx.nonce)) rfl (le_refl _) (UInt64.le_refl _)
  | .ready start => by
    simp only [TxList.step, TxList.Ready, Core.TxSortedMap.Ready]
    split
    · exact hc
    · split
      · exact hc
      · exact hc.of_filter (without_items _ _) (le_refl _) (UInt64.le_refl _)

/-- Every operation keeps the list strict or not. -/
theorem strict_step (l : TxList) : ∀ op, (l.step op).strict = l.strict
  | .add tx priceBump => by
    simp only [TxList.step, TxList.Add]
    split
    · split <;> rfl
    · rfl
  | .forward _ => rfl
  | .filter costLimit gasLimit => by
    simp only [TxList.step, TxList.Filter]
    split
    · rfl
    · split
      · rfl
      · split <;> rfl
  | .cap _ => rfl
  | .remove tx => by
    simp only [TxList.step, TxList.Remove]
    split
    · rfl
    · split <;> rfl
  | .ready _ => rfl

theorem Reachable.strict_eq {strict : Bool} {l : TxList} (hl : Reachable strict l) : l.strict = strict := by
  induction hl with
  | new => rfl
  | step op _ ih => rw [strict_step, ih]

theorem capped_newTxList (strict : Bool) : Capped (newTxList strict) where
  keyed := fun _ _ h => by simp [newTxList, Core.TxSortedMap.newTxSortedMap] at h
  bounded := fun _ h => by simp [newTxList, Core.TxSortedMap.newTxSortedMap, KeyMap.values, KeyMap.empty] at h

theorem Reachable.capped {strict : Bool} {l : TxList} (hl : Reachable strict l) : Capped l := by
  induction hl with
  | new => exact capped_newTxList strict
  | step op _ ih => exact ih.step op

/-! ## The least nonce removed -/

/-- One step of `lowestNonce`'s fold keeps the lesser nonce. -/
theorem lowest_step_lt_iff (lowest nonce n : UInt64) :
    (if lowest > nonce then nonce else lowest) < n ↔ lowest < n ∨ nonce < n := by
  by_cases hlt : lowest > nonce
  · simp only [if_pos hlt]
    constructor
    · exact Or.inr
    · rintro (h | h)
      · exact UInt64.lt_trans hlt h
      · exact h
  · simp only [if_neg hlt]
    constructor
    · exact Or.inl
    · rintro (h | h)
      · exact h
      · exact UInt64.lt_of_le_of_lt (UInt64.not_lt.1 hlt) h

theorem foldl_lowest_lt_iff (n : UInt64) : ∀ (txs : List Transaction) (lowest : UInt64),
    txs.foldl (fun lowest tx => if lowest > tx.nonce then tx.nonce else lowest) lowest < n ↔
      lowest < n ∨ ∃ tx ∈ txs, tx.nonce < n
  | [], lowest => by simp
  | tx :: txs, lowest => by
    rw [List.foldl_cons, foldl_lowest_lt_iff n txs, lowest_step_lt_iff]
    simp only [List.mem_cons, exists_eq_or_imp, or_assoc]

/-- The least nonce of `txs` is below `n` exactly when one of them is:
`math.MaxUint64`, the start of the fold, is below none. -/
theorem lowestNonce_lt_iff (txs : List Transaction) (n : UInt64) :
    lowestNonce txs < n ↔ ∃ tx ∈ txs, tx.nonce < n := by
  have hmax : ¬ UInt64.ofNat (2 ^ 64 - 1) < n := by
    rw [UInt64.lt_iff_toNat_lt]
    have := n.toNat_lt
    simp
    omega
  rw [lowestNonce, foldl_lowest_lt_iff, or_iff_right hmax]

/-! ## Filter and Remove of a strict list -/

/-- Of a capped strict list, `Filter` removes exactly the transactions over
either limit and invalidates exactly those of the rest above a nonce it
removed. -/
theorem Filter_strict_spec {l : TxList} (hc : Capped l) (hs : l.strict = true) (costLimit : Int)
    (gasLimit : UInt64) :
    (l.Filter costLimit gasLimit).1 = l.txs.items.values.filter (overLimits costLimit gasLimit) ∧
      (l.Filter costLimit gasLimit).2.1 =
        (l.txs.items.values.filter fun tx => !overLimits costLimit gasLimit tx).filter fun tx =>
          decide (∃ r ∈ l.txs.items.values.filter (overLimits costLimit gasLimit), r.nonce < tx.nonce) := by
  unfold TxList.Filter
  split
  · -- under the caps: the short cut, which skips nothing
    rename_i hcap
    have hnil : l.txs.items.values.filter (overLimits costLimit gasLimit) = [] :=
      List.filter_eq_nil_iff.2 fun tx htx => by
        obtain ⟨h1, h2⟩ := hc.bounded tx htx
        have h := over_eq_false.2 ⟨le_trans h1 hcap.1, UInt64.le_trans h2 hcap.2⟩
        simp [h]
    rw [hnil]
    simp
  · dsimp only
    split
    · rename_i hnil
      have hnil' : l.txs.items.values.filter (overLimits costLimit gasLimit) = [] := hnil
      rw [hnil']
      simp
    · -- strict: `split` has taken the branch by `hs`
      simp only [Core.TxSortedMap.Filter, Core.TxSortedMap.filter, KeyMap.values_filter_snd]
      refine ⟨rfl, List.filter_congr fun tx _ => ?_⟩
      apply decide_eq_decide.2
      exact lowestNonce_lt_iff _ _

/-- Of a strict list whose transactions sit under their nonces, `Remove(tx)`
finds `tx`'s nonce or not, and when it does it also returns every
transaction of a higher nonce. -/
theorem Remove_strict_spec {l : TxList} (hk : Keyed l.txs.items) (hs : l.strict = true) (tx : Transaction) :
    (l.Remove tx).1 = (l.txs.Get tx.nonce).isSome ∧
      ((l.Remove tx).1 = true →
        (l.Remove tx).2.1 = l.txs.items.values.filter fun t => decide (t.nonce > tx.nonce)) := by
  simp only [TxList.Remove, Core.TxSortedMap.Remove, Core.TxSortedMap.Get]
  cases hf : l.txs.items.find? tx.nonce with
  | none => exact ⟨rfl, fun h => absurd h Bool.false_ne_true⟩
  | some old =>
    dsimp only
    simp only [hs, if_true, Core.TxSortedMap.Filter, Core.TxSortedMap.filter]
    refine ⟨rfl, fun _ => KeyMap.values_filter_erase _ fun v hv => ?_⟩
    -- the transaction at the nonce removed is not above it
    have hv' : v.nonce = tx.nonce := hk _ _ hv
    simp [hv']

/-! ## Runs of both -/

/-- **Runs of a `txSortedMap` and of a strict `txList`.** Along every run of
a map from `newTxSortedMap` the index is a heap of exactly the keys and the
cache is nil or the sort, and `Forward`, `Cap`, `Ready` and `Flatten` return
and delete what they are for; along every run of a strict list from
`newTxList`, `Filter` and `Remove` return exactly what they are for. -/
theorem sortedMap_strictList_runs_spec {m : Heaped.TxSortedMap} {l : TxList}
    (hm : Heaped.TxSortedMap.Reachable m) (hl : Reachable true l) :
    (m.index.Perm m.items.keys ∧ m.index.Nodup ∧ Heap.Ordered nonceLess m.index) ∧
      (m.cache = none ∨ m.cache = some (sortedOf m.items)) ∧
      (∀ threshold, (m.Forward threshold).1 = (sortedOf m.items).filter (fun tx => tx.nonce < threshold) ∧
        (m.Forward threshold).2.items = m.items.filter fun _ tx => !decide (tx.nonce < threshold)) ∧
      (∀ threshold, (m.Cap threshold).1 = ((sortedOf m.items).drop threshold).reverse ∧
        (m.Cap threshold).1.length = m.items.size - threshold ∧
        (m.Cap threshold).2.items = m.items.filter fun _ tx => decide (tx ∉ (sortedOf m.items).drop threshold)) ∧
      (∀ start, (sortedOf m.items = [] → (m.Ready start).1 = []) ∧
        (∀ first ∈ (sortedOf m.items).head?, start < first.nonce →
          (m.Ready start).1 = [] ∧ (m.Ready start).2.items = m.items) ∧
        (∀ first ∈ (sortedOf m.items).head?, first.nonce ≤ start →
          ReadyRun first.nonce (sortedOf m.items) (m.Ready start).1 ∧
            (m.Ready start).2.items = m.items.filter fun nonce _ => nonce ∉ (m.Ready start).1.map Transaction.nonce)) ∧
      (m.Flatten.1.Perm m.items.values ∧ m.Flatten.1.Pairwise fun a b => a.nonce < b.nonce) ∧
      (∀ costLimit gasLimit,
        (l.Filter costLimit gasLimit).1 = l.txs.items.values.filter (overLimits costLimit gasLimit) ∧
          (l.Filter costLimit gasLimit).2.1 =
            (l.txs.items.values.filter fun tx => !overLimits costLimit gasLimit tx).filter fun tx =>
              decide (∃ r ∈ l.txs.items.values.filter (overLimits costLimit gasLimit), r.nonce < tx.nonce)) ∧
      (∀ tx, (l.Remove tx).1 = (l.txs.Get tx.nonce).isSome ∧
        ((l.Remove tx).1 = true →
          (l.Remove tx).2.1 = l.txs.items.values.filter fun t => decide (t.nonce > tx.nonce))) := by
  have hi := hm.inv
  have hc := hl.capped
  have hs := hl.strict_eq
  refine ⟨⟨hi.perm, hi.nodup, hi.heap⟩, hi.cache, Heaped.TxSortedMap.Forward_spec hi, fun threshold => ?_,
    Heaped.TxSortedMap.Ready_spec hi, Heaped.TxSortedMap.Flatten_sorted hi, Filter_strict_spec hc hs,
    Remove_strict_spec hc.keyed hs⟩
  obtain ⟨hout, hitems⟩ := Heaped.TxSortedMap.Cap_spec hi threshold
  exact ⟨hout, Heaped.TxSortedMap.Cap_length hi threshold, hitems⟩

/-- A transaction of the given nonce and gas, at a gas price of 1. -/
def txAt (nonce gas : UInt64) : Transaction := ⟨nonce.toNat, nonce, 1, gas, 0, false, [], 0, false, none⟩

/-- Three transactions put out of nonce order: forwarding past nonce 2 returns
nonces 0 and 1 in order, and a cap of one returns the two others, the highest
first. Three added to a strict list, the second over a gas limit of 30000:
`Filter` removes it and invalidates the third. -/
theorem sortedMap_strictList_runs_at_three :
    let m := ((Heaped.TxSortedMap.newTxSortedMap.step (.put (txAt 2 21000))).step
      (.put (txAt 0 21000))).step (.put (txAt 1 21000))
    let l := (((newTxList true).step (.add (txAt 0 21000) 10)).step (.add (txAt 1 50000) 10)).step
      (.add (txAt 2 21000) 10)
    (m.Forward 2).1 = [txAt 0 21000, txAt 1 21000] ∧ (m.Cap 1).1 = [txAt 2 21000, txAt 1 21000] ∧
      (l.Filter 100000 30000).1 = [txAt 1 50000] ∧ (l.Filter 100000 30000).2.1 = [txAt 2 21000] := by
  intro m l
  obtain ⟨-, -, hforward, hcap, -, -, hfilter, -⟩ := sortedMap_strictList_runs_spec (m := m) (l := l)
    (.step _ (.step _ (.step _ .new))) (.step _ (.step _ (.step _ .new)))
  exact ⟨(hforward 2).1.trans (by decide), (hcap 1).1.trans (by decide),
    (hfilter 100000 30000).1.trans (by decide), (hfilter 100000 30000).2.trans (by decide)⟩

end Xdchain.Core.TxList
