import Xdchain.Core.TxPool

/-! # What the pool's bookkeeping should keep

The law every method of `Xdchain.Core.TxPool` should keep: `all` holds
exactly the transactions of the pending and queued lists, each filed under
its sender at its nonce, with no nonce both pending and queued for one
account; `all.slots` is the sum of their slots; and every transaction of
`all` has an entry in the price heap, whose `stales` counts the entries that
have left `all`.

A pool fresh from `NewTxPool` keeps the law (`NewTxPool_accounted`). On a
chain that is not Quorum, `promoteExecutables` drops the queued
transactions the balance no longer pays for through an inner `drops` that
shadows the one it counts: they leave `all` but not `stales`
(`promoteExecutables_undercounts_dropped_stales`). -/

namespace Xdchain.Core

open Xdchain.Lib Xdchain.Lib.ErrState

namespace TxPool

/-- Every transaction of the pending and queued lists, with the account it is
filed under. -/
def listed (pool : TxPool) : List (Address × Transaction) :=
  (pool.pending.entries ++ pool.queue.entries).flatMap fun e =>
    e.2.txs.items.values.map fun tx => (e.1, tx)

/-- The nonces queued for an account. -/
def queuedNonces (pool : TxPool) (addr : Address) : List UInt64 :=
  ((pool.queue.find? addr).map fun l => l.txs.items.keys).getD []

/-- The entries of the price heap whose transaction is no longer in `all`. -/
def staleItems (pool : TxPool) : List Transaction :=
  pool.priced.items.filter fun tx => (pool.all.Get tx.hash).isNone

structure Accounted (pool : TxPool) : Prop where
  all_perm : pool.all.values.Perm (pool.listed.map Prod.snd)
  filed : ∀ p ∈ pool.listed, p.2.sender = some p.1
  keyed : ∀ e ∈ pool.pending.entries ++ pool.queue.entries, ∀ n ∈ e.2.txs.items.entries, n.2.nonce = n.1
  disjoint : ∀ e ∈ pool.pending.entries, ∀ n ∈ e.2.txs.items.keys, n ∉ pool.queuedNonces e.1
  slots_eq : pool.all.slots = ((pool.all.values.map numSlots).sum : Nat)
  priced_mem : ∀ tx ∈ pool.all.values, tx ∈ pool.priced.items
  stales_eq : pool.priced.stales = (pool.staleItems.length : Nat)

theorem accounted_iff (pool : TxPool) :
    pool.Accounted ↔
      pool.all.values.Perm (pool.listed.map Prod.snd) ∧
      (∀ p ∈ pool.listed, p.2.sender = some p.1) ∧
      (∀ e ∈ pool.pending.entries ++ pool.queue.entries, ∀ n ∈ e.2.txs.items.entries, n.2.nonce = n.1) ∧
      (∀ e ∈ pool.pending.entries, ∀ n ∈ e.2.txs.items.keys, n ∉ pool.queuedNonces e.1) ∧
      pool.all.slots = ((pool.all.values.map numSlots).sum : Nat) ∧
      (∀ tx ∈ pool.all.values, tx ∈ pool.priced.items) ∧
      pool.priced.stales = (pool.staleItems.length : Nat) := by
  constructor
  · intro h
    exact ⟨h.all_perm, h.filed, h.keyed, h.disjoint, h.slots_eq, h.priced_mem, h.stales_eq⟩
  · rintro ⟨h1, h2, h3, h4, h5, h6, h7⟩
    exact ⟨h1, h2, h3, h4, h5, h6, h7⟩

instance (pool : TxPool) : Decidable pool.Accounted := decidable_of_iff _ (accounted_iff pool).symm

/-- A pool with no transaction keeps the law. -/
theorem accounted_of_empty (pool : TxPool) (hp : pool.pending = .empty) (hq : pool.queue = .empty)
    (ha : pool.all.all = .empty) (hs : pool.all.slots = 0) (hi : pool.priced = TxPricedList.newTxPricedList) :
    pool.Accounted where
  all_perm := by simp [listed, TxLookup.values, KeyMap.values, hp, hq, ha, KeyMap.empty]
  filed := by simp [listed, hp, hq, KeyMap.empty]
  keyed := by simp [hp, hq, KeyMap.empty]
  disjoint := by simp [hp, KeyMap.empty]
  slots_eq := by simp [TxLookup.values, KeyMap.values, ha, hs, KeyMap.empty]
  priced_mem := by simp [TxLookup.values, ha]
  stales_eq := by simp [staleItems, hi, TxPricedList.newTxPricedList]

end TxPool

/-- The pool `NewTxPool` builds holds no transaction: the `reset` it runs
reinjects none. -/
theorem NewTxPool_accounted (config : TxPoolConfig) (chainconfig : ChainConfig)
    (isTransactionAllowed : Transaction → Bool) (statedb : HeadState) (gasLimit : UInt64) (istanbul : Bool) :
    (NewTxPool config chainconfig isTransactionAllowed statedb gasLimit istanbul).Accounted := by
  apply TxPool.accounted_of_empty <;> rfl

/-! ## The drops `promoteExecutables` does not count -/

/-- The account of the run. -/
def shadowedSender : Address := 1

/-- A transfer of `shadowedSender` that costs 21000 wei. -/
def shadowedTransfer : Transaction :=
  { hash := 7, nonce := 0, gasPrice := 1, gas := 21000, value := 0, contractCreation := false,
    data := [], size := 100, isPrivate := false, sender := some shadowedSender }

/-- The head state before: `shadowedSender` can pay for the transfer. -/
def fundedState : HeadState := ⟨fun _ => 0, fun addr => if addr = shadowedSender then 21000 else 0⟩

/-- The head state after: no balance left. -/
def drainedState : HeadState := ⟨fun _ => 0, fun _ => 0⟩

/-- A chain that is not Quorum. -/
def ethereumChain : ChainConfig := ⟨false, 64⟩

def shadowedStart : TxPool :=
  NewTxPool DefaultTxPoolConfig ethereumChain (fun _ => true) fundedState 8000000 true

/-- The transfer is added: it is queued, as its nonce is not yet pending. -/
def shadowedAdded : TxPool := stateOf ((TxPool.add shadowedTransfer false).run shadowedStart)

/-- A new head leaves the account with no balance. -/
def shadowedReset : TxPool := stateOf ((TxPool.reset drainedState 8000000 [] true).run shadowedAdded)

/-- The account's queue is promoted: `Filter` drops the transfer. -/
def shadowedPromoted : TxPool :=
  stateOf ((TxPool.promoteExecutables [shadowedSender]).run shadowedReset)

/-- **The stale count misses the dropped transaction.** The law holds from
the empty pool through the add and the reset; after `promoteExecutables` the
transfer has left `all` and its queue but still sits in the price heap, and
`stales` is still zero. -/
theorem promoteExecutables_undercounts_dropped_stales :
    shadowedStart.Accounted ∧ shadowedAdded.Accounted ∧ shadowedReset.Accounted ∧
      ¬ shadowedPromoted.Accounted ∧
      shadowedPromoted.staleItems = [shadowedTransfer] ∧ shadowedPromoted.priced.stales = 0 := by
  decide

end Xdchain.Core
