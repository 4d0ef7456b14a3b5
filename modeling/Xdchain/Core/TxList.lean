import Mathlib.Data.List.Sort
import Xdchain.Lib.KeyMap
import Xdchain.Lib.Heap
import Xdchain.Core.BlockChain

/-! # The transaction lists of the pool

`core/tx_list.go` and the lookup of `core/tx_pool.go`. A `txSortedMap` holds
the transactions of one account by nonce; a `txList` adds the cost and gas
caps that let `Filter` skip accounts whose balance did not fall. A
`txLookup` is the pool's map of every transaction by hash with a count of
the slots they take, and a `txPricedList` is a heap of transactions by price
with a count of the entries that are no longer in the lookup.

The nonce heap of a `txSortedMap` holds exactly the keys of `items`: `Put`
pushes a nonce only when it is new, and every removal pops it or re-heaps the
index. So the model keeps `items` alone and reads the order the heap pops
nonces in as the order of the keys (`sorted`); the sorted cache is left out,
since it only memoises `sorted`. Go iterates `items` in no fixed order where
`filter` deletes from it; the model takes the order of its entries. The
price heap is modelled as it is, with `Xdchain.Lib.Heap`: which of two
transactions of equal price and nonce a `Pop` returns depends on the heap's
shape. -/

namespace Xdchain.Core

open Xdchain.Lib

abbrev Address := Nat

/-- What the pool reads of a transaction. `sender` stands for
`types.Sender(pool.signer, tx)`, the recovered signer, `none` where the
signature does not recover. -/
structure Transaction where
  hash : Hash
  nonce : UInt64
  gasPrice : Nat
  gas : UInt64
  value : Int
  /-- `tx.To() == nil`. -/
  contractCreation : Bool
  data : List UInt8
  /-- `tx.Size()`: the length of the transaction's encoding. -/
  size : Nat
  /-- `tx.IsPrivate()`. -/
  isPrivate : Bool
  sender : Option Address
deriving DecidableEq, Repr

namespace Transaction

/-- `tx.Cost()`: `gasPrice * gas + value`. -/
def Cost (tx : Transaction) : Int := tx.gasPrice * tx.gas.toNat + tx.value

end Transaction

def txSlotSize : Nat := 32 * 1024

def numSlots (tx : Transaction) : Nat := (tx.size + txSlotSize - 1) / txSlotSize

/-! ## txSortedMap -/

structure TxSortedMap where
  items : KeyMap UInt64 Transaction

namespace TxSortedMap

def newTxSortedMap : TxSortedMap := ⟨.empty⟩

def Get (m : TxSortedMap) (nonce : UInt64) : Option Transaction := m.items.find? nonce

def Put (m : TxSortedMap) (tx : Transaction) : TxSortedMap := ⟨m.items.insert tx.nonce tx⟩

/-- The transactions in the order the nonce heap pops them: by nonce. -/
def sorted (m : TxSortedMap) : List Transaction :=
  m.items.values.insertionSort fun a b => a.nonce ≤ b.nonce

/-- The entries whose nonce is not among those of `txs`. -/
def without (m : TxSortedMap) (txs : List Transaction) : TxSortedMap :=
  ⟨m.items.filter fun nonce _ => nonce ∉ txs.map Transaction.nonce⟩

/-- `Forward(threshold)`: the heap is popped while its least nonce is below
`threshold`, which removes exactly the nonces below it, least first. -/
def Forward (m : TxSortedMap) (threshold : UInt64) : List Transaction × TxSortedMap :=
  let removed := m.sorted.filter fun tx => tx.nonce < threshold
  (removed, m.without removed)

/-- `filter`: every transaction the predicate holds of, deleted from `items`. -/
def filter (m : TxSortedMap) (p : Transaction → Bool) : List Transaction × TxSortedMap :=
  (m.items.values.filter p, ⟨m.items.filter fun _ tx => !p tx⟩)

/-- `Filter`: `filter`, then a re-heap of the index. -/
def Filter (m : TxSortedMap) (p : Transaction → Bool) : List Transaction × TxSortedMap :=
  m.filter p

/-- `Cap(threshold)`: the transactions above the `threshold` least nonces,
highest first. -/
def Cap (m : TxSortedMap) (threshold : Nat) : List Transaction × TxSortedMap :=
  if m.items.size ≤ threshold then ([], m)
  else
    let drops := (m.sorted.drop threshold).reverse
    (drops, m.without drops)

def Remove (m : TxSortedMap) (nonce : UInt64) : Bool × TxSortedMap :=
  match m.items.find? nonce with
  | none => (false, m)
  | some _ => (true, ⟨m.items.erase nonce⟩)

/-- The transactions at the front of a nonce-sorted list whose nonces run
on from `next` without a gap. -/
def consecutiveFrom : UInt64 → List Transaction → List Transaction
  | _, [] => []
  | next, tx :: txs => if tx.nonce = next then tx :: consecutiveFrom (next + 1) txs else []

/-- `Ready(start)`: the run of consecutive nonces from the least, if the
least is at most `start`. -/
def Ready (m : TxSortedMap) (start : UInt64) : List Transaction × TxSortedMap :=
  match m.sorted with
  | [] => ([], m)
  | first :: _ =>
    if first.nonce > start then ([], m)
    else
      let ready := consecutiveFrom first.nonce m.sorted
      (ready, m.without ready)

def Len (m : TxSortedMap) : Nat := m.items.size

/-- `Flatten`: the transactions by nonce. -/
def Flatten (m : TxSortedMap) : List Transaction := m.sorted

/-- `LastElement`: `none` on an empty map, where Go indexes out of range. -/
def LastElement (m : TxSortedMap) : Option Transaction := m.sorted.getLast?

end TxSortedMap

/-! ## txList -/

structure TxList where
  strict : Bool
  txs : TxSortedMap
  costcap : Int
  gascap : UInt64

namespace TxList

def newTxList (strict : Bool) : TxList := ⟨strict, TxSortedMap.newTxSortedMap, 0, 0⟩

def Overlaps (l : TxList) (tx : Transaction) : Bool := (l.txs.Get tx.nonce).isSome

/-- The list with `tx` put in and the caps raised to its cost and gas. -/
def put (l : TxList) (tx : Transaction) : TxList :=
  { l with txs := l.txs.Put tx, costcap := max l.costcap tx.Cost, gascap := max l.gascap tx.gas }

/-- `Add(tx, priceBump)`: whether `tx` went in, and the transaction it
replaced. A transaction at a taken nonce goes in only if its price is above
the old one's and at least `priceBump` percent above it. -/
def Add (l : TxList) (tx : Transaction) (priceBump : Nat) : Bool × Option Transaction × TxList :=
  match l.txs.Get tx.nonce with
  | some old =>
    let threshold := (100 + priceBump) * old.gasPrice / 100
    if old.gasPrice ≥ tx.gasPrice ∨ tx.gasPrice < threshold then (false, none, l)
    else (true, some old, l.put tx)
  | none => (true, none, l.put tx)

def Forward (l : TxList) (threshold : UInt64) : List Transaction × TxList :=
  let r := l.txs.Forward threshold
  (r.1, { l with txs := r.2 })

/-- The least nonce of a list of transactions, `math.MaxUint64` for none. -/
def lowestNonce (txs : List Transaction) : UInt64 :=
  txs.foldl (fun lowest tx => if lowest > tx.nonce then tx.nonce else lowest)
    (UInt64.ofNat (2 ^ 64 - 1))

/-- `Filter(costLimit, gasLimit)`: the transactions over either limit, and
in strict mode the ones above the least nonce removed, which can no longer
run. The caps fall to the limits whenever either is exceeded. -/
def Filter (l : TxList) (costLimit : Int) (gasLimit : UInt64) :
    List Transaction × List Transaction × TxList :=
  if l.costcap ≤ costLimit ∧ l.gascap ≤ gasLimit then ([], [], l)
  else
    let l := { l with costcap := costLimit, gascap := gasLimit }
    let r := l.txs.Filter fun tx => tx.gas > gasLimit || decide (tx.Cost > costLimit)
    let removed := r.1
    if removed = [] then ([], [], l)
    else if l.strict then
      let lowest := lowestNonce removed
      let i := r.2.filter fun tx => tx.nonce > lowest
      (removed, i.1, { l with txs := i.2 })
    else (removed, [], { l with txs := r.2 })

def Cap (l : TxList) (threshold : Nat) : List Transaction × TxList :=
  let r := l.txs.Cap threshold
  (r.1, { l with txs := r.2 })

/-- `Remove(tx)`: removes the transaction at `tx`'s nonce; in strict mode
the ones above it are removed too and returned. -/
def Remove (l : TxList) (tx : Transaction) : Bool × List Transaction × TxList :=
  let nonce := tx.nonce
  match l.txs.Remove nonce with
  | (false, _) => (false, [], l)
  | (true, txs) =>
    if l.strict then
      let r := txs.Filter fun tx => tx.nonce > nonce
      (true, r.1, { l with txs := r.2 })
    else (true, [], { l with txs := txs })

def Ready (l : TxList) (start : UInt64) : List Transaction × TxList :=
  let r := l.txs.Ready start
  (r.1, { l with txs := r.2 })

def Len (l : TxList) : Nat := l.txs.Len

def Empty (l : TxList) : Bool := l.Len = 0

def Flatten (l : TxList) : List Transaction := l.txs.Flatten

def LastElement (l : TxList) : Option Transaction := l.txs.LastElement

end TxList

/-! ## accountSet -/

/-- `accountSet`, the accounts in the order they were added. `containsTx`
reads the sender a transaction recovers to. -/
structure AccountSet where
  accounts : List Address

namespace AccountSet

def newAccountSet (addrs : List Address) : AccountSet := ⟨addrs.dedup⟩

def contains (as : AccountSet) (addr : Address) : Bool := addr ∈ as.accounts

def empty (as : AccountSet) : Bool := as.accounts.isEmpty

def containsTx (as : AccountSet) (tx : Transaction) : Bool :=
  match tx.sender with
  | some addr => as.contains addr
  | none => false

def add (as : AccountSet) (addr : Address) : AccountSet :=
  if as.contains addr then as else ⟨as.accounts ++ [addr]⟩

def addTx (as : AccountSet) (tx : Transaction) : AccountSet :=
  match tx.sender with
  | some addr => as.add addr
  | none => as

def flatten (as : AccountSet) : List Address := as.accounts

end AccountSet

/-! ## txLookup -/

/-- `txLookup`: every transaction under its own hash, which `Add` keeps by
construction. -/
structure TxLookup where
  all : KeyMap Hash Transaction
  slots : Int
  hash_key : ∀ hash tx, all.find? hash = some tx → tx.hash = hash

namespace TxLookup

def newTxLookup : TxLookup := ⟨.empty, 0, fun _ _ h => by simp at h⟩

def Get (t : TxLookup) (hash : Hash) : Option Transaction := t.all.find? hash

def Count (t : TxLookup) : Nat := t.all.size

def Slots (t : TxLookup) : Int := t.slots

/-- `Range`: the transactions, in the order of the map's entries. -/
def values (t : TxLookup) : List Transaction := t.all.values

theorem find?_insert_hash (t : TxLookup) (tx : Transaction) :
    ∀ hash tx', (t.all.insert tx.hash tx).find? hash = some tx' → tx'.hash = hash := by
  intro hash tx' h
  rw [KeyMap.find?_insert] at h
  split at h
  · rename_i he
    cases h
    exact he.symm
  · exact t.hash_key hash tx' h

/-- `Add(tx)`: the slots grow by `tx`'s whether or not its hash was there. -/
def Add (t : TxLookup) (tx : Transaction) : TxLookup :=
  ⟨t.all.insert tx.hash tx, t.slots + numSlots tx, find?_insert_hash t tx⟩

theorem find?_erase_hash (t : TxLookup) (hash : Hash) :
    ∀ hash' tx, (t.all.erase hash).find? hash' = some tx → tx.hash = hash' := by
  intro hash' tx h
  rw [KeyMap.find?_erase] at h
  split at h
  · cases h
  · exact t.hash_key hash' tx h

/-- `Remove(hash)`. Go reads the slots of `t.all[hash]`, which is nil for a
hash that is not there and panics; the model leaves the count as it is
there. -/
def Remove (t : TxLookup) (hash : Hash) : TxLookup :=
  ⟨t.all.erase hash, t.slots - (((t.all.find? hash).map numSlots).getD 0), find?_erase_hash t hash⟩

end TxLookup

/-! ## txPricedList -/

/-- `priceHeap.Less`: the cheaper first, and of equal prices the higher
nonce. -/
def priceLess (a b : Transaction) : Bool :=
  if a.gasPrice < b.gasPrice then true
  else if b.gasPrice < a.gasPrice then false
  else a.nonce > b.nonce

/-- `txPricedList`; its pointer to the pool's lookup is passed to each method. -/
structure TxPricedList where
  items : List Transaction
  stales : Int

namespace TxPricedList

def newTxPricedList : TxPricedList := ⟨[], 0⟩

def Put (l : TxPricedList) (tx : Transaction) : TxPricedList :=
  { l with items := Heap.push priceLess l.items tx }

/-- `Removed(count)`: the stale counter grows by `count`; once it is above a
quarter of the heap, the heap is rebuilt from the lookup. -/
def Removed (l : TxPricedList) (all : TxLookup) (count : Nat) : TxPricedList :=
  let stales := l.stales + count
  if stales ≤ (l.items.length / 4 : Nat) then { l with stales := stales }
  else ⟨Heap.init priceLess all.values, 0⟩

/-- The loop of `Cap`: the drops, the saved transactions and the heap, for at
most `fuel` pops. -/
def capLoop (all : TxLookup) (threshold : Nat) (locals : AccountSet) :
    Nat → TxPricedList → List Transaction → List Transaction →
      List Transaction × List Transaction × TxPricedList
  | 0, l, drop, save => (drop, save, l)
  | fuel + 1, l, drop, save =>
    match Heap.pop priceLess l.items with
    | none => (drop, save, l)
    | some (tx, items) =>
      let l := { l with items := items }
      if (all.Get tx.hash).isNone then capLoop all threshold locals fuel { l with stales := l.stales - 1 } drop save
      else if tx.gasPrice ≥ threshold then (drop, save ++ [tx], l)
      else if locals.containsTx tx then capLoop all threshold locals fuel l drop (save ++ [tx])
      else capLoop all threshold locals fuel l (drop ++ [tx]) save

/-- `Cap(threshold, local)`: the remote transactions below the price
threshold, popped from the heap; the local ones popped are pushed back. -/
def Cap (l : TxPricedList) (all : TxLookup) (threshold : Nat) (locals : AccountSet) :
    List Transaction × TxPricedList :=
  let r := capLoop all threshold locals l.items.length l [] []
  (r.1, { r.2.2 with items := r.2.1.foldl (Heap.push priceLess) r.2.2.items })

/-- The loop of `Underpriced` that pops stale heads. -/
def dropStaleHeads (all : TxLookup) : Nat → TxPricedList → TxPricedList
  | 0, l => l
  | fuel + 1, l =>
    match l.items with
    | [] => l
    | head :: _ =>
      if (all.Get head.hash).isNone then
        match Heap.pop priceLess l.items with
        | some (_, items) => dropStaleHeads all fuel ⟨items, l.stales - 1⟩
        | none => l
      else l

/-- `Underpriced(tx, local)`: whether `tx` is at most as cheap as the cheapest
transaction in the pool, after the stale heads are dropped. -/
def Underpriced (l : TxPricedList) (all : TxLookup) (tx : Transaction) (locals : AccountSet) :
    Bool × TxPricedList :=
  if locals.containsTx tx then (false, l)
  else
    let l := dropStaleHeads all l.items.length l
    match l.items with
    | [] => (false, l)
    | cheapest :: _ => (cheapest.gasPrice ≥ tx.gasPrice, l)

/-- The count of `Discard`'s first loop: the remote transactions, stopped as
soon as there are `slots` of them. -/
def discardable (locals : AccountSet) (slots : Int) : List Transaction → Int → Int
  | [], d => d
  | tx :: txs, d =>
    let d := if !locals.containsTx tx then d + 1 else d
    if d ≥ slots then d else discardable locals slots txs d

/-- The loop of `Discard`: the drops, the saved transactions and the heap,
for at most `fuel` pops. -/
def discardLoop (all : TxLookup) (locals : AccountSet) :
    Nat → Int → TxPricedList → List Transaction → List Transaction →
      List Transaction × List Transaction × TxPricedList
  | 0, _, l, drop, save => (drop, save, l)
  | fuel + 1, slots, l, drop, save =>
    if slots ≤ 0 then (drop, save, l)
    else
      match Heap.pop priceLess l.items with
      | none => (drop, save, l)
      | some (tx, items) =>
        let l := { l with items := items }
        if (all.Get tx.hash).isNone then discardLoop all locals fuel slots { l with stales := l.stales - 1 } drop save
        else if locals.containsTx tx then discardLoop all locals fuel slots l drop (save ++ [tx])
        else discardLoop all locals fuel (slots - numSlots tx) l (drop ++ [tx]) save

/-- `Discard(slots, local)`: the cheapest remote transactions that free
`slots` slots, popped from the heap. -/
def Discard (l : TxPricedList) (all : TxLookup) (slots : Int) (locals : AccountSet) :
    List Transaction × TxPricedList :=
  let slots := if !locals.empty then
      let d := discardable locals slots l.items 0
      if slots > d then d else slots
    else slots
  if slots = 0 then ([], l)
  else
    let r := discardLoop all locals l.items.length slots l [] []
    (r.1, { r.2.2 with items := r.2.1.foldl (Heap.push priceLess) r.2.2.items })

end TxPricedList

end Xdchain.Core
