import Xdchain.Lib.HeapOrder
import Xdchain.Lib.InsertionSort
import Xdchain.Core.TxList

/-! # The nonce heap and the sorted cache of a `txSortedMap`

`core/tx_list.go` keeps beside the map of transactions by nonce a heap of the
nonces, `index`, and the transactions sorted by nonce, `cache`, nil when it is
stale. `Core.TxSortedMap` keeps the map alone; here the three fields are
modelled as the code updates them. Every run from `newTxSortedMap` keeps them
coherent (`Inv`): the index is a heap of exactly the keys, each once, and the
cache is nil or the transactions by nonce. Under `Inv` each operation returns
and leaves what the map-only model does (`Forward_refines` and the others), so
that model is sound for the code.

Go appends `m.items[nonce]`, nil for a nonce not in the map, and indexes the
heap and the cache where the code assumes they are long enough; the model
appends the entry it finds and stops where Go would index out of range. Under
`Inv` neither happens. `sort.Sort` of the index is Go's insertion sort over
the nonces (`Lib.InsertionSort`), and of the cache the map's `sorted`: on
distinct nonces every sort gives the one sorted list. -/

namespace Xdchain.Core.Heaped

open Xdchain.Lib

/-- `nonceHeap.Less(i, j)`: `h[i] < h[j]`. -/
def nonceLess (a b : UInt64) : Bool := decide (a < b)

instance : IsStrictTotalOrder UInt64 (fun a b => nonceLess a b = true) where
  trichotomous a b hab hba := by
    simp only [nonceLess, decide_eq_true_eq] at hab hba
    exact UInt64.le_antisymm (UInt64.not_lt.1 hba) (UInt64.not_lt.1 hab)
  irrefl a h := by simp [nonceLess] at h
  trans a b c hab hbc := by
    simp only [nonceLess, decide_eq_true_eq] at hab hbc ⊢
    exact UInt64.lt_trans hab hbc

structure TxSortedMap where
  items : KeyMap UInt64 Transaction
  index : List UInt64
  /-- The transactions sorted by nonce; `none` for nil. -/
  cache : Option (List Transaction)

namespace TxSortedMap

def newTxSortedMap : TxSortedMap := ⟨.empty, [], none⟩

/-- The map alone. -/
def toSortedMap (m : TxSortedMap) : Core.TxSortedMap := ⟨m.items⟩

def Get (m : TxSortedMap) (nonce : UInt64) : Option Transaction := m.items.find? nonce

/-- `Put(tx)`: a new nonce is pushed onto the index. -/
def Put (m : TxSortedMap) (tx : Transaction) : TxSortedMap :=
  let nonce := tx.nonce
  let index := if m.items.find? nonce = none then Heap.push nonceLess m.index nonce else m.index
  ⟨m.items.insert nonce tx, index, none⟩

/-- The loop of `Forward`: pop the least nonce while it is below `threshold`,
for at most `fuel` rounds. -/
def forwardLoop (threshold : UInt64) : Nat → TxSortedMap → List Transaction → TxSortedMap × List Transaction
  | 0, m, removed => (m, removed)
  | fuel + 1, m, removed =>
    match m.index with
    | [] => (m, removed)
    | first :: _ =>
      if first < threshold then
        match Heap.pop nonceLess m.index with
        | some (nonce, index) =>
          forwardLoop threshold fuel ⟨m.items.erase nonce, index, m.cache⟩
            (removed ++ (m.items.find? nonce).toList)
        | none => (m, removed)
      else (m, removed)

/-- `Forward(threshold)`: the cache loses as many transactions at its front
as were removed. -/
def Forward (m : TxSortedMap) (threshold : UInt64) : List Transaction × TxSortedMap :=
  let r := forwardLoop threshold m.index.length m []
  (r.2, { r.1 with cache := r.1.cache.map fun cache => cache.drop r.2.length })

/-- `filter`: the transactions `p` holds of deleted from the map, the index
left as it is. -/
def filter (m : TxSortedMap) (p : Transaction → Bool) : List Transaction × TxSortedMap :=
  let removed := m.items.values.filter p
  (removed, ⟨m.items.filter fun _ tx => !p tx, m.index, if 0 < removed.length then none else m.cache⟩)

/-- `reheap`: the index rebuilt from the map's keys. -/
def reheap (m : TxSortedMap) : TxSortedMap := ⟨m.items, Heap.init nonceLess m.items.keys, none⟩

/-- `Filter`: `filter`, then `reheap` if anything was removed. -/
def Filter (m : TxSortedMap) (p : Transaction → Bool) : List Transaction × TxSortedMap :=
  let r := m.filter p
  (r.1, if 0 < r.1.length then r.2.reheap else r.2)

/-- The loop of `Cap` over the sorted index: the entry at `size - 1` is
dropped while `size` is above `threshold`. -/
def capLoop (index : List UInt64) (threshold : Nat) :
    Nat → KeyMap UInt64 Transaction → List Transaction → KeyMap UInt64 Transaction × List Transaction
  | 0, items, drops => (items, drops)
  | size + 1, items, drops =>
    if threshold < size + 1 then
      match index[size]? with
      | some nonce => capLoop index threshold size (items.erase nonce) (drops ++ (items.find? nonce).toList)
      | none => (items, drops)
    else (items, drops)

/-- `Cap(threshold)`: the index sorted in place, the highest nonces dropped,
the index cut to `threshold` and re-heaped, the cache cut at its back. -/
def Cap (m : TxSortedMap) (threshold : Nat) : List Transaction × TxSortedMap :=
  if m.items.size ≤ threshold then ([], m)
  else
    let index := InsertionSort.insertionSort nonceLess m.index
    let r := capLoop index threshold m.items.size m.items []
    let drops := r.2
    (drops, ⟨r.1, Heap.init nonceLess (index.take threshold),
      m.cache.map fun cache => cache.take (cache.length - drops.length)⟩)

/-- `Remove(nonce)`: the first index entry holding `nonce` is removed with
`heap.Remove`. -/
def Remove (m : TxSortedMap) (nonce : UInt64) : Bool × TxSortedMap :=
  match m.items.find? nonce with
  | none => (false, m)
  | some _ =>
    let index := match m.index.idxOf? nonce with
      | some i =>
        match Heap.remove nonceLess m.index i with
        | some (_, index) => index
        | none => m.index
      | none => m.index
    (true, ⟨m.items.erase nonce, index, none⟩)

/-- `heap.Pop(m.index)`, its result dropped. -/
def popIndex (index : List UInt64) : List UInt64 :=
  match Heap.pop nonceLess index with
  | some (_, index) => index
  | none => index

/-- The loop of `Ready`: while the least nonce is `next`, its transaction is
taken and `next` goes on by one, for at most `fuel` rounds. -/
def readyLoop : Nat → UInt64 → TxSortedMap → List Transaction → TxSortedMap × List Transaction
  | 0, _, m, ready => (m, ready)
  | fuel + 1, next, m, ready =>
    match m.index with
    | [] => (m, ready)
    | first :: _ =>
      if first = next then
        readyLoop fuel (next + 1) ⟨m.items.erase next, popIndex m.index, m.cache⟩
          (ready ++ (m.items.find? next).toList)
      else (m, ready)

/-- `Ready(start)`: nothing if the least nonce is above `start`; otherwise
the run of consecutive nonces from the least, and the cache cleared. -/
def Ready (m : TxSortedMap) (start : UInt64) : List Transaction × TxSortedMap :=
  match m.index with
  | [] => ([], m)
  | first :: _ =>
    if first > start then ([], m)
    else
      let r := readyLoop m.index.length first m []
      (r.2, { r.1 with cache := none })

def Len (m : TxSortedMap) : Nat := m.items.size

/-- `flatten`: the cache, sorted anew from the map if it is nil. -/
def flatten (m : TxSortedMap) : List Transaction × TxSortedMap :=
  match m.cache with
  | some cache => (cache, m)
  | none =>
    let cache := m.toSortedMap.sorted
    (cache, { m with cache := some cache })

/-- `Flatten`: a copy of `flatten`'s list, the same list. -/
def Flatten (m : TxSortedMap) : List Transaction × TxSortedMap := m.flatten

/-- `LastElement`: `none` where Go indexes an empty cache. -/
def LastElement (m : TxSortedMap) : Option Transaction × TxSortedMap :=
  let r := m.flatten
  (r.1.getLast?, r.2)

/-! ## Runs -/

/-- The operations of a `txSortedMap`; `filterReheap` is `filter` followed by
`reheap`, as `txList.Filter` calls them. -/
inductive Op
  | put (tx : Transaction)
  | forward (threshold : UInt64)
  | filter (p : Transaction → Bool)
  | filterReheap (p : Transaction → Bool)
  | cap (threshold : Nat)
  | remove (nonce : UInt64)
  | ready (start : UInt64)
  | flatten

def step (m : TxSortedMap) : Op → TxSortedMap
  | .put tx => m.Put tx
  | .forward threshold => (m.Forward threshold).2
  | .filter p => (m.Filter p).2
  | .filterReheap p => (m.filter p).2.reheap
  | .cap threshold => (m.Cap threshold).2
  | .remove nonce => (m.Remove nonce).2
  | .ready start => (m.Ready start).2
  | .flatten => m.flatten.2

inductive Reachable : TxSortedMap → Prop
  | new : Reachable newTxSortedMap
  | step {m : TxSortedMap} (op : Op) : Reachable m → Reachable (m.step op)

end TxSortedMap

/-! ## Maps keyed by nonce -/

instance : Std.Total fun a b : Transaction => a.nonce ≤ b.nonce := ⟨fun a b => UInt64.le_total a.nonce b.nonce⟩

instance : IsTrans Transaction fun a b => a.nonce ≤ b.nonce := ⟨fun _ _ _ => UInt64.le_trans⟩

/-- The transactions of a map by nonce, `sorted` of the map-only model. -/
abbrev sortedOf (items : KeyMap UInt64 Transaction) : List Transaction := (Core.TxSortedMap.mk items).sorted

/-- Every transaction is under its own nonce, as `Put` keeps it. -/
def Keyed (items : KeyMap UInt64 Transaction) : Prop :=
  ∀ nonce tx, items.find? nonce = some tx → tx.nonce = nonce

namespace Keyed

variable {items : KeyMap UInt64 Transaction}

theorem find?_nonce (hk : Keyed items) {tx : Transaction} (htx : tx ∈ items.values) :
    items.find? tx.nonce = some tx := by
  obtain ⟨nonce, hn⟩ := (KeyMap.mem_values_iff items tx).1 htx
  rwa [hk nonce tx hn]

theorem eq_of_nonce_eq (hk : Keyed items) {a b : Transaction} (ha : a ∈ items.values) (hb : b ∈ items.values)
    (hab : a.nonce = b.nonce) : a = b := by
  have hfa := hk.find?_nonce ha
  rw [hab, hk.find?_nonce hb] at hfa
  exact (Option.some.inj hfa).symm

theorem map_nonce_values (hk : Keyed items) : items.values.map Transaction.nonce = items.keys := by
  simp only [KeyMap.values, KeyMap.keys, List.map_map]
  exact List.map_congr_left fun e he => hk e.1 e.2 (KeyMap.find?_of_mem_entries he)

theorem filter (hk : Keyed items) (p : UInt64 → Transaction → Bool) : Keyed (items.filter p) :=
  fun nonce tx h => hk nonce tx ((KeyMap.find?_filter_eq_some_iff p items nonce tx).1 h).1

theorem erase (hk : Keyed items) (nonce : UInt64) : Keyed (items.erase nonce) := hk.filter _

theorem insert (hk : Keyed items) (tx : Transaction) : Keyed (items.insert tx.nonce tx) := by
  intro nonce tx' h
  rw [KeyMap.find?_insert] at h
  split at h
  · rename_i he
    cases h
    exact he.symm
  · exact hk nonce tx' h

theorem nodup_map_nonce (hk : Keyed items) : (items.values.map Transaction.nonce).Nodup := by
  rw [hk.map_nonce_values]
  exact items.keys_nodup

/-- The map's sort is its one list of its transactions with strictly rising
nonces. -/
theorem sortedOf_eq (hk : Keyed items) {l : List Transaction} (hp : l.Perm items.values)
    (hs : l.Pairwise fun a b => a.nonce < b.nonce) : sortedOf items = l := by
  have hperm : (sortedOf items).Perm items.values := List.perm_insertionSort _ _
  refine @List.Perm.eq_of_pairwise _ (fun a b => a.nonce ≤ b.nonce) _ _ (fun a b ha hb hab hba => ?_)
    (List.pairwise_insertionSort _ _) (hs.imp UInt64.le_of_lt) (hperm.trans hp.symm)
  exact hk.eq_of_nonce_eq (hperm.mem_iff.1 ha) (hp.mem_iff.1 hb) (UInt64.le_antisymm hab hba)

theorem perm_sortedOf (items : KeyMap UInt64 Transaction) : (sortedOf items).Perm items.values :=
  List.perm_insertionSort _ _

theorem sortedOf_pairwise (hk : Keyed items) : (sortedOf items).Pairwise fun a b => a.nonce < b.nonce := by
  have hle : (sortedOf items).Pairwise fun a b => a.nonce ≤ b.nonce := List.pairwise_insertionSort _ _
  have hne : (sortedOf items).Pairwise fun a b => a.nonce ≠ b.nonce :=
    List.pairwise_map.1 (((perm_sortedOf items).map _).nodup_iff.2 hk.nodup_map_nonce)
  exact (hle.and hne).imp fun h => UInt64.lt_of_le_of_ne h.1 h.2

/-- The transaction at the least nonce heads the sort, before the sort of
the rest. -/
theorem sortedOf_eq_cons (hk : Keyed items) {nonce : UInt64} {tx : Transaction}
    (hf : items.find? nonce = some tx) (hmin : ∀ k ∈ items.keys, nonce ≤ k) :
    sortedOf items = tx :: sortedOf (items.erase nonce) := by
  have hke := hk.erase nonce
  refine hk.sortedOf_eq (((perm_sortedOf _).cons tx).trans (KeyMap.values_perm_erase hf).symm) ?_
  refine List.pairwise_cons.2 ⟨fun b hb => ?_, hke.sortedOf_pairwise⟩
  have hbv := (perm_sortedOf _).mem_iff.1 hb
  have hbf := hke.find?_nonce hbv
  rw [KeyMap.find?_erase] at hbf
  have hne : b.nonce ≠ nonce := fun h => by simp [h] at hbf
  rw [if_neg hne] at hbf
  have hbk : b.nonce ∈ items.keys := (KeyMap.mem_keys_iff items _).2 (by simp [hbf])
  rw [hk nonce tx hf]
  exact UInt64.lt_of_le_of_ne (hmin _ hbk) (Ne.symm hne)

theorem nonce_mem_keys (hk : Keyed items) {tx : Transaction} (htx : tx ∈ sortedOf items) :
    tx.nonce ∈ items.keys := by
  rw [← hk.map_nonce_values]
  exact List.mem_map_of_mem ((perm_sortedOf items).mem_iff.1 htx)

/-- Among transactions of the map, a key is a nonce of a list exactly when its
transaction is in it. -/
theorem nonce_mem_map_iff (hk : Keyed items) {l : List Transaction} (hl : ∀ tx ∈ l, tx ∈ items.values)
    {nonce : UInt64} {tx : Transaction} (hf : items.find? nonce = some tx) :
    nonce ∈ l.map Transaction.nonce ↔ tx ∈ l := by
  have htx : tx ∈ items.values := (KeyMap.mem_values_iff items tx).2 ⟨nonce, hf⟩
  have hn : tx.nonce = nonce := hk nonce tx hf
  constructor
  · intro h
    obtain ⟨w, hw, hwn⟩ := List.mem_map.1 h
    rwa [← hk.eq_of_nonce_eq (hl w hw) htx (hwn.trans hn.symm)]
  · intro h
    exact hn ▸ List.mem_map_of_mem h

/-- Deleting the nonces of transactions of the map deletes those transactions. -/
theorem filter_not_mem_nonces (hk : Keyed items) {l : List Transaction} (hl : ∀ tx ∈ l, tx ∈ items.values) :
    items.filter (fun nonce _ => nonce ∉ l.map Transaction.nonce) = items.filter fun _ tx => decide (tx ∉ l) :=
  KeyMap.filter_congr fun _ _ hf => by simp [hk.nonce_mem_map_iff hl hf]

/-- Deleting the nonces of the sorted transactions `p` holds of deletes the
transactions `p` holds of. -/
theorem filter_not_mem_sortedOf (hk : Keyed items) (p : Transaction → Bool) :
    items.filter (fun nonce _ => nonce ∉ ((sortedOf items).filter p).map Transaction.nonce) =
      items.filter fun _ tx => !p tx := by
  rw [hk.filter_not_mem_nonces fun tx htx => (perm_sortedOf items).mem_iff.1 (List.mem_filter.1 htx).1]
  refine KeyMap.filter_congr fun nonce tx hf => ?_
  have htx : tx ∈ sortedOf items :=
    (perm_sortedOf items).mem_iff.2 ((KeyMap.mem_values_iff items tx).2 ⟨nonce, hf⟩)
  simp [List.mem_filter, htx]

/-- Sorting commutes with deleting the transactions a test rejects. -/
theorem sortedOf_filter (hk : Keyed items) (q : Transaction → Bool) :
    sortedOf (items.filter fun _ tx => q tx) = (sortedOf items).filter q := by
  refine (hk.filter _).sortedOf_eq ?_ (hk.sortedOf_pairwise.filter q)
  rw [KeyMap.values_filter_snd]
  exact (perm_sortedOf items).filter q

/-- The transactions of a list of the map, read back through their nonces. -/
theorem filterMap_find?_nonce (hk : Keyed items) :
    ∀ {l : List Transaction}, (∀ tx ∈ l, tx ∈ items.values) → (l.map Transaction.nonce).filterMap items.find? = l
  | [], _ => rfl
  | tx :: l, hl => by
    rw [List.map_cons, List.filterMap_cons, hk.find?_nonce (hl tx (List.mem_cons_self ..))]
    exact congrArg (tx :: ·) (filterMap_find?_nonce hk fun t ht => hl t (List.mem_cons_of_mem _ ht))

theorem sortedOf_nodup (hk : Keyed items) : (sortedOf items).Nodup :=
  hk.sortedOf_pairwise.imp fun h heq => by rw [heq] at h; exact UInt64.lt_irrefl _ h

end Keyed

/-! ## The index -/

/-- What the heap loops keep: the map keyed by nonce, the index a heap of
exactly its keys. -/
structure Indexed (items : KeyMap UInt64 Transaction) (index : List UInt64) : Prop where
  keyed : Keyed items
  perm : index.Perm items.keys
  heap : Heap.Ordered nonceLess index

namespace Indexed

variable {items : KeyMap UInt64 Transaction} {index : List UInt64}

theorem nodup (hi : Indexed items index) : index.Nodup := hi.perm.nodup_iff.2 items.keys_nodup

theorem sortedOf_eq_nil (hi : Indexed items []) : sortedOf items = [] := by
  have hkeys : items.keys = [] := hi.perm.symm.eq_nil
  have hvals : items.values = [] := by
    rw [← List.length_eq_zero_iff, KeyMap.length_values, KeyMap.size_eq_length_keys, hkeys]
    rfl
  exact List.Perm.eq_nil ((Keyed.perm_sortedOf items).trans (by rw [hvals]))

/-- The head of the index is the least key. -/
theorem head_le (hi : Indexed items index) {first : UInt64} {rest : List UInt64}
    (hidx : index = first :: rest) : ∀ k ∈ items.keys, first ≤ k := by
  intro k hk
  have hk' := hi.perm.symm.mem_iff.1 hk
  rw [hidx] at hk'
  rcases List.mem_cons.1 hk' with rfl | hk'
  · exact UInt64.le_refl _
  · have hh := hi.heap
    rw [hidx] at hh
    have := hh.head_le hk'
    simpa [nonceLess] using this

/-- **One pop of the index**: it takes off the least key, whose transaction
heads the sort, and leaves the index of the rest. -/
theorem pop (hi : Indexed items index) {first : UInt64} {rest : List UInt64}
    (hidx : index = first :: rest) :
    ∃ tx index', Heap.pop nonceLess index = some (first, index') ∧ items.find? first = some tx ∧
      Indexed (items.erase first) index' ∧ sortedOf items = tx :: sortedOf (items.erase first) := by
  have hpop := Heap.pop_cons nonceLess first rest
  rw [← hidx] at hpop
  have hmem : first ∈ items.keys := hi.perm.mem_iff.1 (by simp [hidx])
  obtain ⟨tx, htx⟩ := Option.isSome_iff_exists.1 ((KeyMap.mem_keys_iff items first).1 hmem)
  refine ⟨tx, _, hpop, htx, ⟨hi.keyed.erase first, ?_, Heap.pop_ordered hi.heap hpop⟩,
    hi.keyed.sortedOf_eq_cons htx (hi.head_le hidx)⟩
  have hperm := (Heap.pop_perm nonceLess hpop).trans hi.perm
  rw [KeyMap.keys_erase]
  simpa using hperm.erase first

/-- Go's sort of the index gives the nonces of the map's sort. -/
theorem insertionSort_index (hi : Indexed items index) :
    InsertionSort.insertionSort nonceLess index = (sortedOf items).map Transaction.nonce := by
  symm
  refine InsertionSort.eq_insertionSort nonceLess hi.nodup ?_ ?_
  · have hvals := (Keyed.perm_sortedOf items).map Transaction.nonce
    rw [hi.keyed.map_nonce_values] at hvals
    exact hvals.trans hi.perm.symm
  · exact List.pairwise_map.2 (hi.keyed.sortedOf_pairwise.imp fun h => by simpa [nonceLess] using h)

end Indexed

/-- Of a list without repeats, what is not past its first `n` is its first `n`. -/
theorem filter_not_mem_drop {α : Type} [DecidableEq α] {l : List α} (hnd : l.Nodup) (n : Nat) :
    l.filter (fun x => decide (x ∉ l.drop n)) = l.take n := by
  have hdrop : (l.drop n).filter (fun x => decide (x ∉ l.drop n)) = [] :=
    List.filter_eq_nil_iff.2 fun x hx => by simp [hx]
  have htake : (l.take n).filter (fun x => decide (x ∉ l.drop n)) = l.take n :=
    List.filter_eq_self.2 fun x hx => by
      simpa using fun hd => List.disjoint_take_drop hnd (Nat.le_refl n) hx hd
  conv_lhs => arg 2; rw [← List.take_append_drop n l]
  rw [List.filter_append, hdrop, htake, List.append_nil]

namespace TxSortedMap

/-- **The coherence of the three fields**: the index is a heap of exactly
the keys, and the cache is nil or the transactions by nonce. -/
structure Inv (m : TxSortedMap) : Prop extends Indexed m.items m.index where
  cache : m.cache = none ∨ m.cache = some (sortedOf m.items)

theorem inv_newTxSortedMap : Inv newTxSortedMap where
  keyed := fun _ _ h => by simp [newTxSortedMap] at h
  perm := .refl _
  heap := fun c _ hcn _ => absurd hcn (Nat.not_lt_zero c)
  cache := .inl rfl

/-! ## Forward -/

/-- **The loop of `Forward`** pops the transactions below the threshold, a
prefix of the sort, and deletes exactly them. -/
theorem forwardLoop_spec (threshold : UInt64) : ∀ (fuel : Nat) (m : TxSortedMap) (removed : List Transaction)
    {m' : TxSortedMap} {out : List Transaction}, Indexed m.items m.index → m.index.length ≤ fuel →
    forwardLoop threshold fuel m removed = (m', out) →
    out = removed ++ (sortedOf m.items).filter (fun tx => tx.nonce < threshold) ∧
      sortedOf m.items = (sortedOf m.items).filter (fun tx => tx.nonce < threshold) ++ sortedOf m'.items ∧
      m'.items = m.items.filter (fun nonce _ =>
        nonce ∉ ((sortedOf m.items).filter fun tx => tx.nonce < threshold).map Transaction.nonce) ∧
      Indexed m'.items m'.index ∧ m'.cache = m.cache := by
  intro fuel
  induction fuel with
  | zero =>
    intro m removed m' out hi hlen hr
    obtain ⟨rfl, rfl⟩ := Prod.mk.inj hr
    have hidx : m.index = [] := List.length_eq_zero_iff.1 (by omega)
    rw [(hidx ▸ hi : Indexed m.items []).sortedOf_eq_nil]
    exact ⟨by simp, by simp, by simp [KeyMap.filter_true], hi, rfl⟩
  | succ fuel ih =>
    intro m removed m' out hi hlen hr
    cases hidx : m.index with
    | nil =>
      simp only [forwardLoop, hidx] at hr
      obtain ⟨rfl, rfl⟩ := Prod.mk.inj hr
      rw [(hidx ▸ hi : Indexed m.items []).sortedOf_eq_nil]
      exact ⟨by simp, by simp, by simp [KeyMap.filter_true], hi, rfl⟩
    | cons first rest =>
      obtain ⟨tx, index', hpop, htx, hi', hsorted⟩ := hi.pop hidx
      rw [hidx] at hpop
      simp only [forwardLoop, hidx] at hr
      by_cases hlt : first < threshold
      · -- the least nonce is below the threshold: popped, and the loop goes on
        rw [if_pos hlt, hpop] at hr
        have hlen' : index'.length ≤ fuel := by
          have := Heap.length_pop nonceLess hpop
          rw [hidx] at hlen
          simp at hlen this
          omega
        obtain ⟨hout, hsplit, hitems, hi'', hcache⟩ := ih _ _ hi' hlen' hr
        have hnonce : tx.nonce = first := hi.keyed first tx htx
        have hfilter : (sortedOf m.items).filter (fun tx => tx.nonce < threshold) =
            tx :: (sortedOf (m.items.erase first)).filter fun tx => tx.nonce < threshold := by
          rw [hsorted, List.filter_cons_of_pos (by simpa [hnonce] using hlt)]
        rw [hfilter]
        refine ⟨?_, ?_, ?_, hi'', hcache⟩
        · rw [hout, htx]
          simp
        · rw [hsorted, List.cons_append, ← hsplit]
        · rw [hitems, List.map_cons, hnonce, KeyMap.erase_filter_not_mem]
      · -- the least nonce is at the threshold or above, and so is every other
        rw [if_neg hlt] at hr
        obtain ⟨rfl, rfl⟩ := Prod.mk.inj hr
        have hnil : (sortedOf m.items).filter (fun tx => tx.nonce < threshold) = [] := by
          refine List.filter_eq_nil_iff.2 fun tx' htx' => ?_
          have hle := hi.head_le hidx _ (hi.keyed.nonce_mem_keys htx')
          simp only [decide_eq_true_eq]
          exact fun hlt' => hlt (UInt64.lt_of_le_of_lt hle hlt')
        rw [hnil]
        exact ⟨by simp, by simp, by simp [KeyMap.filter_true], hi, rfl⟩

theorem toSortedMap_sorted (m : TxSortedMap) : m.toSortedMap.sorted = sortedOf m.items := rfl

theorem Inv.forward {m : TxSortedMap} (hm : Inv m) (threshold : UInt64) : Inv (m.Forward threshold).2 := by
  obtain ⟨hout, hsplit, _, hi, hcache⟩ := forwardLoop_spec threshold _ m [] hm.toIndexed (Nat.le_refl _) rfl
  refine ⟨hi, ?_⟩
  simp only [Forward, hcache]
  rcases hm.cache with h | h
  · exact .inl (by rw [h]; rfl)
  · -- the removed transactions are the front of the cache
    have hdrop := congrArg (List.drop ((sortedOf m.items).filter fun tx => tx.nonce < threshold).length) hsplit
    rw [List.drop_left] at hdrop
    refine .inr ?_
    rw [h, Option.map_some, hout, List.nil_append, hdrop]

/-- **`Forward` refines the map-only model.** -/
theorem Forward_refines {m : TxSortedMap} (hm : Inv m) (threshold : UInt64) :
    (m.Forward threshold).1 = (m.toSortedMap.Forward threshold).1 ∧
      (m.Forward threshold).2.toSortedMap = (m.toSortedMap.Forward threshold).2 := by
  obtain ⟨hout, _, hitems, _, _⟩ := forwardLoop_spec threshold _ m [] hm.toIndexed (Nat.le_refl _) rfl
  exact ⟨hout.trans (List.nil_append _), congrArg Core.TxSortedMap.mk hitems⟩

/-- `Forward(t)` returns the transactions below `t` by nonce and deletes
exactly them. -/
theorem Forward_spec {m : TxSortedMap} (hm : Inv m) (threshold : UInt64) :
    (m.Forward threshold).1 = m.toSortedMap.sorted.filter (fun tx => tx.nonce < threshold) ∧
      (m.Forward threshold).2.items = m.items.filter fun _ tx => !decide (tx.nonce < threshold) := by
  obtain ⟨hout, _, hitems, _, _⟩ := forwardLoop_spec threshold _ m [] hm.toIndexed (Nat.le_refl _) rfl
  exact ⟨hout.trans (List.nil_append _), hitems.trans (hm.keyed.filter_not_mem_sortedOf _)⟩

/-! ## Ready -/

/-- **The loop of `Ready`** takes the run of consecutive nonces from `next`
at the front of the sort and deletes exactly it. -/
theorem readyLoop_spec : ∀ (fuel : Nat) (next : UInt64) (m : TxSortedMap) (ready : List Transaction)
    {m' : TxSortedMap} {out : List Transaction}, Indexed m.items m.index → m.index.length ≤ fuel →
    readyLoop fuel next m ready = (m', out) →
    out = ready ++ Core.TxSortedMap.consecutiveFrom next (sortedOf m.items) ∧
      m'.items = m.items.filter (fun nonce _ =>
        nonce ∉ (Core.TxSortedMap.consecutiveFrom next (sortedOf m.items)).map Transaction.nonce) ∧
      Indexed m'.items m'.index ∧ m'.cache = m.cache := by
  intro fuel
  induction fuel with
  | zero =>
    intro next m ready m' out hi hlen hr
    obtain ⟨rfl, rfl⟩ := Prod.mk.inj hr
    have hidx : m.index = [] := List.length_eq_zero_iff.1 (by omega)
    rw [(hidx ▸ hi : Indexed m.items []).sortedOf_eq_nil]
    exact ⟨by simp [Core.TxSortedMap.consecutiveFrom], by simp [Core.TxSortedMap.consecutiveFrom, KeyMap.filter_true], hi, rfl⟩
  | succ fuel ih =>
    intro next m ready m' out hi hlen hr
    cases hidx : m.index with
    | nil =>
      simp only [readyLoop, hidx] at hr
      obtain ⟨rfl, rfl⟩ := Prod.mk.inj hr
      rw [(hidx ▸ hi : Indexed m.items []).sortedOf_eq_nil]
      exact ⟨by simp [Core.TxSortedMap.consecutiveFrom], by simp [Core.TxSortedMap.consecutiveFrom, KeyMap.filter_true], hi, rfl⟩
    | cons first rest =>
      obtain ⟨tx, index', hpop, htx, hi', hsorted⟩ := hi.pop hidx
      have hnonce : tx.nonce = first := hi.keyed first tx htx
      simp only [readyLoop, hidx] at hr
      by_cases hnext : first = next
      · -- the least nonce is `next`: taken, and the loop goes on from `next + 1`
        subst hnext
        rw [if_pos rfl] at hr
        have hpopIndex : popIndex (first :: rest) = index' := by
          rw [hidx] at hpop
          simp [popIndex, hpop]
        rw [hpopIndex] at hr
        have hlen' : index'.length ≤ fuel := by
          have := Heap.length_pop nonceLess hpop
          rw [hidx] at hlen this
          simp at hlen this
          omega
        obtain ⟨hout, hitems, hi'', hcache⟩ := ih _ _ _ hi' hlen' hr
        have hrun : Core.TxSortedMap.consecutiveFrom first (sortedOf m.items) =
            tx :: Core.TxSortedMap.consecutiveFrom (first + 1) (sortedOf (m.items.erase first)) := by
          rw [hsorted, Core.TxSortedMap.consecutiveFrom, if_pos hnonce]
        rw [hrun]
        refine ⟨?_, ?_, hi'', hcache⟩
        · rw [hout, htx]
          simp
        · rw [hitems, List.map_cons, hnonce, KeyMap.erase_filter_not_mem]
      · -- the least nonce is not `next`: the run is empty
        rw [if_neg hnext] at hr
        obtain ⟨rfl, rfl⟩ := Prod.mk.inj hr
        have hrun : Core.TxSortedMap.consecutiveFrom next (sortedOf m.items) = [] := by
          rw [hsorted, Core.TxSortedMap.consecutiveFrom, if_neg (by rw [hnonce]; exact hnext)]
        rw [hrun]
        exact ⟨by simp, by simp [KeyMap.filter_true], hi, rfl⟩

/-- The least nonce, read off the index, heads the sort. -/
theorem sortedOf_eq_cons_of_index {items : KeyMap UInt64 Transaction} {index : List UInt64}
    (hi : Indexed items index) {first : UInt64} {rest : List UInt64} (hidx : index = first :: rest) :
    ∃ tx rest', sortedOf items = tx :: rest' ∧ tx.nonce = first := by
  obtain ⟨tx, _, _, htx, _, hsorted⟩ := hi.pop hidx
  exact ⟨tx, _, hsorted, hi.keyed first tx htx⟩

theorem Inv.ready {m : TxSortedMap} (hm : Inv m) (start : UInt64) : Inv (m.Ready start).2 := by
  unfold Ready
  split
  · exact hm
  · split
    · exact hm
    · obtain ⟨_, _, hi, _⟩ := readyLoop_spec _ _ m [] hm.toIndexed (Nat.le_refl _) rfl
      exact ⟨hi, .inl rfl⟩

/-- **`Ready` refines the map-only model.** -/
theorem Ready_refines {m : TxSortedMap} (hm : Inv m) (start : UInt64) :
    (m.Ready start).1 = (m.toSortedMap.Ready start).1 ∧
      (m.Ready start).2.toSortedMap = (m.toSortedMap.Ready start).2 := by
  unfold Ready Core.TxSortedMap.Ready
  rw [toSortedMap_sorted]
  split
  · rename_i hidx
    rw [(hidx ▸ hm.toIndexed : Indexed m.items []).sortedOf_eq_nil]
    exact ⟨rfl, rfl⟩
  · rename_i first rest hidx
    obtain ⟨tx, rest', hsorted, hnonce⟩ := sortedOf_eq_cons_of_index hm.toIndexed hidx
    rw [hsorted]
    dsimp only
    rw [hnonce]
    split
    · exact ⟨rfl, rfl⟩
    · obtain ⟨hout, hitems, _, _⟩ := readyLoop_spec _ _ m [] hm.toIndexed (Nat.le_refl _) rfl
      rw [hsorted] at hout hitems
      exact ⟨hout.trans (List.nil_append _), congrArg Core.TxSortedMap.mk hitems⟩

/-! ## Cap -/

/-- **The loop of `Cap`** deletes the entries of the index from `threshold`
to `size` and returns their transactions, the highest first. -/
theorem capLoop_eq (index : List UInt64) (hnd : index.Nodup) (threshold : Nat) :
    ∀ (size : Nat) (items : KeyMap UInt64 Transaction) (drops : List Transaction), size ≤ index.length →
      capLoop index threshold size items drops =
        (items.filter (fun nonce _ => nonce ∉ (index.take size).drop threshold),
          drops ++ ((index.take size).drop threshold).reverse.filterMap items.find?)
  | 0, items, drops, _ => by simp [capLoop, KeyMap.filter_true]
  | size + 1, items, drops, hsize => by
    simp only [capLoop]
    split
    · rename_i hthr
      have hs : size < index.length := by omega
      rw [List.getElem?_eq_getElem hs]
      dsimp only
      rw [capLoop_eq index hnd threshold size _ _ (by omega)]
      -- the entry at `size` is new to the deleted range, and not in it yet
      have hrange : (index.take (size + 1)).drop threshold = (index.take size).drop threshold ++ [index[size]] := by
        rw [List.take_add_one, List.getElem?_eq_getElem hs, Option.toList_some,
          List.drop_append_of_le_length (by simp; omega)]
      have hnotin : index[size] ∉ (index.take size).drop threshold := by
        have htake := hnd.sublist (List.take_sublist (size + 1) index)
        rw [List.take_add_one, List.getElem?_eq_getElem hs, Option.toList_some] at htake
        exact fun h => (List.nodup_append.1 htake).2.2 _ (List.mem_of_mem_drop h) _ (List.mem_singleton_self _) rfl
      have hfind : ((index.take size).drop threshold).reverse.filterMap (items.erase index[size]).find? =
          ((index.take size).drop threshold).reverse.filterMap items.find? :=
        List.filterMap_congr fun k hk => by
          rw [KeyMap.find?_erase, if_neg fun h : k = index[size] => hnotin (h ▸ List.mem_reverse.1 hk)]
      rw [hrange, List.reverse_append, List.reverse_singleton, List.singleton_append, List.filterMap_cons,
        KeyMap.erase_filter_not_mem, hfind]
      refine Prod.ext ?_ ?_ <;> dsimp only
      · exact KeyMap.filter_congr fun k _ _ => by simp [or_comm]
      · cases items.find? index[size] <;> simp
    · rename_i hthr
      have hnil : (index.take (size + 1)).drop threshold = [] := List.drop_eq_nil_of_le (by simp; omega)
      rw [hnil]
      simp [KeyMap.filter_true]

/-- What `Cap` does past its short cut, read off the map's sort. -/
theorem Cap_of_lt {m : TxSortedMap} (hi : Indexed m.items m.index) {threshold : Nat}
    (hlt : ¬ m.items.size ≤ threshold) :
    (m.Cap threshold).1 = ((sortedOf m.items).drop threshold).reverse ∧
      (m.Cap threshold).2.items = m.items.filter (fun nonce _ =>
        nonce ∉ ((sortedOf m.items).drop threshold).map Transaction.nonce) ∧
      (m.Cap threshold).2.index =
        Heap.init nonceLess (((sortedOf m.items).map Transaction.nonce).take threshold) ∧
      (m.Cap threshold).2.cache =
        m.cache.map fun cache => cache.take (cache.length - (m.Cap threshold).1.length) := by
  have hsort := hi.insertionSort_index
  have hlen : ((sortedOf m.items).map Transaction.nonce).length = m.items.size := by
    rw [List.length_map, (Keyed.perm_sortedOf m.items).length_eq, KeyMap.length_values]
  have hnd : ((sortedOf m.items).map Transaction.nonce).Nodup := by
    rw [← hsort]
    exact (InsertionSort.insertionSort_perm nonceLess m.index).nodup_iff.2 hi.nodup
  have hloop := capLoop_eq _ hnd threshold m.items.size m.items [] (by rw [hlen])
  have htake : ((sortedOf m.items).map Transaction.nonce).take m.items.size =
      (sortedOf m.items).map Transaction.nonce := by
    rw [← hlen]
    exact List.take_length
  rw [htake, ← List.map_drop] at hloop
  have hsub : ∀ tx ∈ ((sortedOf m.items).drop threshold).reverse, tx ∈ m.items.values :=
    fun tx htx => (Keyed.perm_sortedOf m.items).mem_iff.1 (List.mem_of_mem_drop (List.mem_reverse.1 htx))
  refine ⟨?_, ?_, ?_, ?_⟩ <;> simp only [Cap, if_neg hlt, hsort, hloop]
  rw [List.nil_append, ← List.map_reverse, hi.keyed.filterMap_find?_nonce hsub]

theorem sortedOf_drop_subset (items : KeyMap UInt64 Transaction) (n : Nat) :
    ∀ tx ∈ (sortedOf items).drop n, tx ∈ items.values :=
  fun _ htx => (Keyed.perm_sortedOf items).mem_iff.1 (List.mem_of_mem_drop htx)

theorem Inv.cap {m : TxSortedMap} (hm : Inv m) (threshold : Nat) : Inv (m.Cap threshold).2 := by
  by_cases hle : m.items.size ≤ threshold
  · simp only [Cap, if_pos hle]
    exact hm
  · obtain ⟨hdrops, hitems, hindex, hcache⟩ := Cap_of_lt hm.toIndexed hle
    have hlen : (sortedOf m.items).length = m.items.size := by
      rw [(Keyed.perm_sortedOf m.items).length_eq, KeyMap.length_values]
    refine ⟨⟨?_, ?_, ?_⟩, ?_⟩
    · rw [hitems]
      exact hm.keyed.filter _
    · -- the index cut to `threshold` is the keys the map keeps
      rw [hindex, hitems, KeyMap.keys_filter_fst]
      refine (Heap.init_perm nonceLess _).trans ?_
      have hnonces := (Keyed.perm_sortedOf m.items).map Transaction.nonce
      rw [hm.keyed.map_nonce_values] at hnonces
      rw [← filter_not_mem_drop (hnonces.nodup_iff.2 m.items.keys_nodup), List.map_drop]
      exact hnonces.filter _
    · rw [hindex]
      exact Heap.init_ordered _
    · -- the cache loses its last `size - threshold` transactions
      rcases hm.cache with h | h
      · exact .inl (by rw [hcache, h]; rfl)
      · refine .inr ?_
        rw [hcache, h, hdrops, hitems, hm.keyed.filter_not_mem_nonces (sortedOf_drop_subset _ _),
          hm.keyed.sortedOf_filter, filter_not_mem_drop hm.keyed.sortedOf_nodup, List.length_reverse,
          List.length_drop]
        exact congrArg (some ∘ (sortedOf m.items).take) (by omega)

/-- **`Cap` refines the map-only model.** -/
theorem Cap_refines {m : TxSortedMap} (hm : Inv m) (threshold : Nat) :
    (m.Cap threshold).1 = (m.toSortedMap.Cap threshold).1 ∧
      (m.Cap threshold).2.toSortedMap = (m.toSortedMap.Cap threshold).2 := by
  by_cases hle : m.items.size ≤ threshold
  · have hle' : m.toSortedMap.items.size ≤ threshold := hle
    rw [Core.TxSortedMap.Cap, if_pos hle', Cap, if_pos hle]
    exact ⟨rfl, rfl⟩
  · obtain ⟨hdrops, hitems, _, _⟩ := Cap_of_lt hm.toIndexed hle
    have hle' : ¬ m.toSortedMap.items.size ≤ threshold := hle
    rw [Core.TxSortedMap.Cap, if_neg hle']
    refine ⟨hdrops, ?_⟩
    show Core.TxSortedMap.mk (m.Cap threshold).2.items = Core.TxSortedMap.mk _
    rw [hitems]
    exact congrArg Core.TxSortedMap.mk (KeyMap.filter_congr fun _ _ _ => by simp [toSortedMap_sorted])

/-- `Cap(k)` returns the transactions past the `k` least nonces, the highest
first, and deletes exactly them. -/
theorem Cap_spec {m : TxSortedMap} (hm : Inv m) (threshold : Nat) :
    (m.Cap threshold).1 = (m.toSortedMap.sorted.drop threshold).reverse ∧
      (m.Cap threshold).2.items =
        m.items.filter fun _ tx => decide (tx ∉ m.toSortedMap.sorted.drop threshold) := by
  by_cases hle : m.items.size ≤ threshold
  · have hnil : m.toSortedMap.sorted.drop threshold = [] := by
      rw [List.drop_eq_nil_iff, toSortedMap_sorted, (Keyed.perm_sortedOf m.items).length_eq,
        KeyMap.length_values]
      exact hle
    simp only [Cap, if_pos hle, hnil]
    exact ⟨rfl, by simp [KeyMap.filter_true]⟩
  · obtain ⟨hdrops, hitems, _, _⟩ := Cap_of_lt hm.toIndexed hle
    exact ⟨hdrops, hitems.trans (hm.keyed.filter_not_mem_nonces (sortedOf_drop_subset _ _))⟩

/-! ## Put, Remove, Filter and flatten -/

theorem Inv.put {m : TxSortedMap} (hm : Inv m) (tx : Transaction) : Inv (m.Put tx) := by
  refine ⟨⟨hm.keyed.insert tx, ?_, ?_⟩, .inl rfl⟩
  · dsimp only [Put]
    rw [KeyMap.keys_insert]
    split
    · -- a new nonce: pushed onto the index and appended to the keys
      rename_i hnone
      have hk : tx.nonce ∉ m.items.keys := by simp [KeyMap.mem_keys_iff, hnone]
      rw [if_neg hk]
      exact (Heap.push_perm nonceLess _ _).trans ((hm.perm.cons _).trans (List.perm_append_singleton _ _).symm)
    · rename_i hsome
      have hk : tx.nonce ∈ m.items.keys := by
        rw [KeyMap.mem_keys_iff]
        exact Option.isSome_iff_ne_none.2 hsome
      rw [if_pos hk]
      exact hm.perm
  · dsimp only [Put]
    split
    · exact Heap.push_ordered hm.heap _
    · exact hm.heap

theorem Put_refines (m : TxSortedMap) (tx : Transaction) : (m.Put tx).toSortedMap = m.toSortedMap.Put tx := rfl

/-- `Remove` finds the nonce in the index and `heap.Remove` takes exactly it off. -/
theorem Inv.remove {m : TxSortedMap} (hm : Inv m) (nonce : UInt64) : Inv (m.Remove nonce).2 := by
  unfold Remove
  split
  · exact hm
  · rename_i tx hf
    have hmem : nonce ∈ m.index := hm.perm.mem_iff.2 ((KeyMap.mem_keys_iff _ _).2 (by simp [hf]))
    obtain ⟨i, hi⟩ := Option.isSome_iff_exists.1
      (Option.isSome_iff_ne_none.2 fun h => List.idxOf?_eq_none_iff.1 h hmem)
    obtain ⟨hlt, hat, _⟩ := List.idxOf?_eq_some_iff.1 hi
    have hrem := Heap.remove_eq nonceLess hlt
    rw [hat] at hrem
    simp only [hi, hrem]
    refine ⟨⟨hm.keyed.erase nonce, ?_, Heap.remove_ordered hm.heap hlt (hat ▸ hrem)⟩, .inl rfl⟩
    have hperm := (Heap.remove_perm nonceLess hrem).trans hm.perm
    rw [KeyMap.keys_erase]
    simpa using hperm.erase nonce

theorem Remove_refines (m : TxSortedMap) (nonce : UInt64) :
    (m.Remove nonce).1 = (m.toSortedMap.Remove nonce).1 ∧
      (m.Remove nonce).2.toSortedMap = (m.toSortedMap.Remove nonce).2 := by
  have hitems : m.toSortedMap.items = m.items := rfl
  unfold Remove Core.TxSortedMap.Remove
  rw [hitems]
  cases m.items.find? nonce <;> exact ⟨rfl, rfl⟩

theorem Inv.reheap {m : TxSortedMap} (hk : Keyed m.items) : Inv m.reheap :=
  ⟨⟨hk, Heap.init_perm nonceLess _, Heap.init_ordered _⟩, .inl rfl⟩

theorem Inv.filterReheap {m : TxSortedMap} (hm : Inv m) (p : Transaction → Bool) : Inv (m.filter p).2.reheap :=
  Inv.reheap (hm.keyed.filter _)

/-- A `filter` that removes nothing leaves the map as it is. -/
theorem filter_of_eq_nil {m : TxSortedMap} {p : Transaction → Bool} (hnil : m.items.values.filter p = []) :
    (m.filter p).2 = m := by
  have hitems : m.items.filter (fun _ tx => !p tx) = m.items := by
    refine (KeyMap.filter_congr fun nonce tx hf => ?_).trans (KeyMap.filter_true m.items)
    have htx : tx ∈ m.items.values := (KeyMap.mem_values_iff _ _).2 ⟨nonce, hf⟩
    simpa using List.filter_eq_nil_iff.1 hnil tx htx
  simp only [filter, hnil, List.length_nil, Nat.lt_irrefl, if_false, hitems]

theorem Inv.Filter {m : TxSortedMap} (hm : Inv m) (p : Transaction → Bool) : Inv (m.Filter p).2 := by
  unfold TxSortedMap.Filter
  dsimp only
  split
  · exact hm.filterReheap p
  · rename_i hnil
    have hnil' : m.items.values.filter p = [] := List.eq_nil_of_length_eq_zero (Nat.eq_zero_of_not_pos hnil)
    rw [filter_of_eq_nil hnil']
    exact hm

theorem Filter_refines (m : TxSortedMap) (p : Transaction → Bool) :
    (m.Filter p).1 = (m.toSortedMap.Filter p).1 ∧
      (m.Filter p).2.toSortedMap = (m.toSortedMap.Filter p).2 := by
  unfold Filter
  dsimp only
  split <;> exact ⟨rfl, rfl⟩

theorem filter_refines (m : TxSortedMap) (p : Transaction → Bool) :
    (m.filter p).1 = (m.toSortedMap.filter p).1 ∧
      (m.filter p).2.reheap.toSortedMap = (m.toSortedMap.filter p).2 := ⟨rfl, rfl⟩

theorem Inv.flatten {m : TxSortedMap} (hm : Inv m) : Inv m.flatten.2 := by
  unfold TxSortedMap.flatten
  split
  · exact hm
  · exact ⟨hm.toIndexed, .inr rfl⟩

/-- `Flatten` returns the transactions by nonce, from the cache or sorted
anew. -/
theorem Flatten_refines {m : TxSortedMap} (hm : Inv m) :
    m.Flatten.1 = m.toSortedMap.Flatten ∧ m.Flatten.2.toSortedMap = m.toSortedMap := by
  unfold Flatten TxSortedMap.flatten Core.TxSortedMap.Flatten
  split
  · rename_i cache hcache
    refine ⟨?_, rfl⟩
    rcases hm.cache with h | h <;> rw [hcache] at h
    · cases h
    · exact (Option.some.inj h).trans (toSortedMap_sorted m).symm
  · exact ⟨rfl, rfl⟩

/-! ## Runs -/

/-- **Every operation keeps the fields coherent.** -/
theorem Inv.step {m : TxSortedMap} (hm : Inv m) : ∀ op, Inv (m.step op)
  | .put tx => hm.put tx
  | .forward threshold => hm.forward threshold
  | .filter p => hm.Filter p
  | .filterReheap p => hm.filterReheap p
  | .cap threshold => hm.cap threshold
  | .remove nonce => hm.remove nonce
  | .ready start => hm.ready start
  | .flatten => hm.flatten

theorem Reachable.inv {m : TxSortedMap} (hm : Reachable m) : Inv m := by
  induction hm with
  | new => exact inv_newTxSortedMap
  | step op _ ih => exact ih.step op

/-! ## The map-only model refines the code -/

/-- What an operation leaves of the map-only model `Core.TxSortedMap`. -/
def stepItems (m : Core.TxSortedMap) : Op → Core.TxSortedMap
  | .put tx => m.Put tx
  | .forward threshold => (m.Forward threshold).2
  | .filter p => (m.Filter p).2
  | .filterReheap p => (m.filter p).2
  | .cap threshold => (m.Cap threshold).2
  | .remove nonce => (m.Remove nonce).2
  | .ready start => (m.Ready start).2
  | .flatten => m

/-- One operation on coherent fields leaves the map the map-only model
leaves. -/
theorem step_refines {m : TxSortedMap} (hm : Inv m) : ∀ op, (m.step op).toSortedMap = stepItems m.toSortedMap op
  | .put tx => Put_refines m tx
  | .forward threshold => (Forward_refines hm threshold).2
  | .filter p => (Filter_refines m p).2
  | .filterReheap p => (filter_refines m p).2
  | .cap threshold => (Cap_refines hm threshold).2
  | .remove nonce => (Remove_refines m nonce).2
  | .ready start => (Ready_refines hm start).2
  | .flatten => (Flatten_refines hm).2

theorem reachable_foldl_step : ∀ (ops : List Op) {m : TxSortedMap}, Reachable m → Reachable (ops.foldl step m)
  | [], _, hm => hm
  | op :: ops, _, hm => reachable_foldl_step ops (.step op hm)

/-- A run on coherent fields leaves the map the map-only run leaves. By
induction on the operations, `Inv` carrying each step. -/
theorem foldl_step_refines : ∀ (ops : List Op) {m : TxSortedMap}, Inv m →
    (ops.foldl step m).toSortedMap = ops.foldl stepItems m.toSortedMap
  | [], _, _ => rfl
  | op :: ops, m, hm => by
    rw [List.foldl_cons, List.foldl_cons, ← step_refines hm op]
    exact foldl_step_refines ops (hm.step op)

/-- **The heap and the cache change nothing the map-only model sees.** After
any run of the code from `newTxSortedMap`, the transactions are those the
map-only model holds after the same run, and every operation returns what
the map-only model returns from them. -/
theorem run_refines (ops : List Op) :
    let m := ops.foldl step newTxSortedMap
    m.toSortedMap = ops.foldl stepItems Core.TxSortedMap.newTxSortedMap ∧
      (∀ threshold, (m.Forward threshold).1 = (m.toSortedMap.Forward threshold).1) ∧
      (∀ p, (m.Filter p).1 = (m.toSortedMap.Filter p).1) ∧
      (∀ p, (m.filter p).1 = (m.toSortedMap.filter p).1) ∧
      (∀ threshold, (m.Cap threshold).1 = (m.toSortedMap.Cap threshold).1) ∧
      (∀ nonce, (m.Remove nonce).1 = (m.toSortedMap.Remove nonce).1) ∧
      (∀ start, (m.Ready start).1 = (m.toSortedMap.Ready start).1) ∧
      m.Flatten.1 = m.toSortedMap.Flatten := by
  intro m
  -- the run keeps the fields coherent, and each operation's result is read off the map
  have hi : Inv m := (reachable_foldl_step ops .new).inv
  exact ⟨foldl_step_refines ops inv_newTxSortedMap, fun t => (Forward_refines hi t).1,
    fun p => (Filter_refines m p).1, fun p => (filter_refines m p).1, fun t => (Cap_refines hi t).1,
    fun n => (Remove_refines m n).1, fun s => (Ready_refines hi s).1, (Flatten_refines hi).1⟩

end TxSortedMap

end Xdchain.Core.Heaped
