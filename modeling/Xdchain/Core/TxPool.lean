import Xdchain.Core.TxList
import Xdchain.Lib.ErrState

/-! # The transaction pool

`core/tx_pool.go`: `add` validates a transaction and files it in the queue of
its sender, or replaces a pending one at the same nonce; `promoteExecutables`
moves the transactions that became executable from the queue to the pending
lists and drops those too old, too costly or over the account's queue limit;
`demoteUnexecutables` drops the pending transactions the new head made
invalid and queues back those behind them; `removeTx` and `SetGasPrice`
evict. Every method keeps `all`, the map of every transaction, and `priced`,
the heap by price whose `stales` counts the entries that have left `all`.

A method runs under `pool.mu`, so it is a computation on the whole pool.
`reset` is modelled from the point where the new head's state is opened: the
reorg walk that collects the transactions to reinject reads the chain, and
its result is an argument. Left out: the heartbeats and `truncateQueue`,
which orders accounts by them, `truncatePending`, the journal and the event
feed, the permission contract (`isTransactionAllowed` stands for it), and
the inner transaction of a privacy marker, which the private transaction
manager holds. -/

namespace Xdchain.Core

open Xdchain.Lib Xdchain.Lib.ErrState

inductive TxPoolError where
  | alreadyKnown
  | invalidSender
  | underpriced
  | replaceUnderpriced
  | gasLimit
  | negativeValue
  | oversizedData
  | nonceTooLow
  | insufficientFunds
  | intrinsicGas
  | gasUintOverflow
  | invalidGasPrice
  | etherValueUnsupported
  /-- The error `pcore.CheckAccountPermission` returns. -/
  | accountPermission
deriving DecidableEq, Repr

structure TxPoolConfig where
  Locals : List Address
  PriceLimit : Nat
  PriceBump : Nat
  AccountSlots : Nat
  GlobalSlots : Nat
  AccountQueue : Nat
  GlobalQueue : Nat

def DefaultTxPoolConfig : TxPoolConfig :=
  { Locals := [], PriceLimit := 1, PriceBump := 10, AccountSlots := 16, GlobalSlots := 4096,
    AccountQueue := 64, GlobalQueue := 1024 }

/-- `sanitize`: a limit below one is set to its default. -/
def TxPoolConfig.sanitize (config : TxPoolConfig) : TxPoolConfig :=
  let orDefault (v d : Nat) := if v < 1 then d else v
  { config with
    PriceLimit := orDefault config.PriceLimit DefaultTxPoolConfig.PriceLimit
    PriceBump := orDefault config.PriceBump DefaultTxPoolConfig.PriceBump
    AccountSlots := orDefault config.AccountSlots DefaultTxPoolConfig.AccountSlots
    GlobalSlots := orDefault config.GlobalSlots DefaultTxPoolConfig.GlobalSlots
    AccountQueue := orDefault config.AccountQueue DefaultTxPoolConfig.AccountQueue
    GlobalQueue := orDefault config.GlobalQueue DefaultTxPoolConfig.GlobalQueue }

/-- What the pool reads of `params.ChainConfig`. -/
structure ChainConfig where
  IsQuorum : Bool
  /-- In KB; zero means the default of 64. -/
  TransactionSizeLimit : Nat

/-- What the pool reads of the state of the head block. -/
structure HeadState where
  GetNonce : Address → UInt64
  GetBalance : Address → Int

/-- `txNoncer`: the pending nonces, read from the head state until set. Go's
`get` stores the nonce it reads from the state, which a later `get` would read
again: the model leaves the cache out. -/
structure TxNoncer where
  fallback : HeadState
  nonces : KeyMap Address UInt64

namespace TxNoncer

def newTxNoncer (statedb : HeadState) : TxNoncer := ⟨statedb, .empty⟩

def get (txn : TxNoncer) (addr : Address) : UInt64 :=
  (txn.nonces.find? addr).getD (txn.fallback.GetNonce addr)

def set (txn : TxNoncer) (addr : Address) (nonce : UInt64) : TxNoncer :=
  { txn with nonces := txn.nonces.insert addr nonce }

def setIfLower (txn : TxNoncer) (addr : Address) (nonce : UInt64) : TxNoncer :=
  if txn.get addr ≤ nonce then txn else txn.set addr nonce

end TxNoncer

structure TxPool where
  config : TxPoolConfig
  chainconfig : ChainConfig
  /-- The permission contract's verdict on a transaction. -/
  isTransactionAllowed : Transaction → Bool
  gasPrice : Nat
  istanbul : Bool
  currentState : HeadState
  pendingNonces : TxNoncer
  currentMaxGas : UInt64
  locals : AccountSet
  pending : KeyMap Address TxList
  queue : KeyMap Address TxList
  all : TxLookup
  priced : TxPricedList

abbrev PoolM := EStateM TxPoolError TxPool

/-! ## Validation -/

def TxGas : UInt64 := 21000

def TxGasContractCreation : UInt64 := 53000

def TxDataZeroGas : UInt64 := 4

def TxDataNonZeroGasFrontier : UInt64 := 68

def TxDataNonZeroGasEIP2028 : UInt64 := 16

/-- `IntrinsicGas(data, contractCreation, isHomestead, isEIP2028)`, with its
overflow checks in 64 bits. -/
def IntrinsicGas (data : List UInt8) (contractCreation isHomestead isEIP2028 : Bool) :
    Except TxPoolError UInt64 := do
  let gas := if contractCreation ∧ isHomestead then TxGasContractCreation else TxGas
  if data.isEmpty then return gas
  let nz := (data.filter (· ≠ 0)).length.toUInt64
  let nonZeroGas := if isEIP2028 then TxDataNonZeroGasEIP2028 else TxDataNonZeroGasFrontier
  if (UInt64.ofNat (2 ^ 64 - 1) - gas) / nonZeroGas < nz then throw .gasUintOverflow
  let gas := gas + nz * nonZeroGas
  let z := data.length.toUInt64 - nz
  if (UInt64.ofNat (2 ^ 64 - 1) - gas) / TxDataZeroGas < z then throw .gasUintOverflow
  return gas + z * TxDataZeroGas

namespace TxPool

def validateTx (pool : TxPool) (tx : Transaction) (isLocal : Bool) : Except TxPoolError Unit := do
  let sizeLimit :=
    if pool.chainconfig.TransactionSizeLimit = 0 then 64 else pool.chainconfig.TransactionSizeLimit
  if tx.size > sizeLimit * 1024 then throw .oversizedData
  if tx.value < 0 then throw .negativeValue
  if pool.currentMaxGas < tx.gas then throw .gasLimit
  let some addr := tx.sender | throw .invalidSender
  if pool.chainconfig.IsQuorum then
    if tx.gasPrice ≠ 0 then throw .invalidGasPrice
    if tx.isPrivate ∧ (tx.data.isEmpty ∨ tx.value ≠ 0) then throw .etherValueUnsupported
    if !pool.isTransactionAllowed tx then throw .accountPermission
  else
    -- an account may be local even if the transaction arrived from the network
    let isLocal := isLocal || pool.locals.contains addr
    if !isLocal ∧ tx.gasPrice < pool.gasPrice then throw .underpriced
  if pool.currentState.GetNonce addr > tx.nonce then throw .nonceTooLow
  if pool.currentState.GetBalance addr < tx.Cost then throw .insufficientFunds
  let intrGas ← IntrinsicGas tx.data tx.contractCreation true pool.istanbul
  if tx.gas < intrGas then throw .intrinsicGas

/-! ## Bookkeeping of `all` and `priced` -/

/-- `pool.all.Remove` of each transaction. -/
def removeAll (txs : List Transaction) : PoolM Unit :=
  modify fun pool => { pool with all := txs.foldl (fun all tx => all.Remove tx.hash) pool.all }

/-- `pool.priced.Removed(count)`, against the pool's lookup as it is now. -/
def pricedRemoved (count : Nat) : PoolM Unit :=
  modify fun pool => { pool with priced := pool.priced.Removed pool.all count }

def addAll (tx : Transaction) : PoolM Unit :=
  modify fun pool => { pool with all := pool.all.Add tx, priced := pool.priced.Put tx }

/-- `enqueueTx(hash, tx)`: `tx` into its sender's queue; whether it replaced
a queued transaction. -/
def enqueueTx (hash : Hash) (tx : Transaction) : PoolM Bool := do
  let addr := tx.sender.getD 0
  let pool ← get
  let list := match pool.queue.find? addr with
    | some list => list
    | none => TxList.newTxList false
  set { pool with queue := pool.queue.insert addr list }
  let (inserted, old, list) := list.Add tx pool.config.PriceBump
  if !inserted then throw .replaceUnderpriced
  modify fun pool => { pool with queue := pool.queue.insert addr list }
  if let some old := old then
    removeAll [old]
    pricedRemoved 1
  if ((← get).all.Get hash).isNone then addAll tx
  return old.isSome

/-- `promoteTx(addr, hash, tx)`: `tx` into the pending list of `addr`;
whether it went in. -/
def promoteTx (addr : Address) (hash : Hash) (tx : Transaction) : PoolM Bool := do
  let pool ← get
  let list := match pool.pending.find? addr with
    | some list => list
    | none => TxList.newTxList true
  let (inserted, old, list) := list.Add tx pool.config.PriceBump
  set { pool with pending := pool.pending.insert addr list }
  if !inserted then
    removeAll [tx]
    pricedRemoved 1
    return false
  if let some old := old then
    removeAll [old]
    pricedRemoved 1
  if ((← get).all.Get hash).isNone then addAll tx
  modify fun pool => { pool with pendingNonces := pool.pendingNonces.set addr (tx.nonce + 1) }
  return true

/-- `removeTx(hash, outofbound)`: the transaction leaves `all` and its list;
a pending one takes the ones behind it back to the queue. -/
def removeTx (hash : Hash) (outofbound : Bool) : PoolM Unit := do
  let pool ← get
  let some tx := pool.all.Get hash | return
  let addr := tx.sender.getD 0
  removeAll [tx]
  if outofbound then pricedRemoved 1
  if let some pending := pool.pending.find? addr then
    let (removed, invalids, pending) := pending.Remove tx
    if removed then
      modify fun pool => { pool with
        pending := if pending.Empty then pool.pending.erase addr else pool.pending.insert addr pending }
      invalids.forM fun tx => do
        let _ ← attempt (enqueueTx tx.hash tx)
      modify fun pool => { pool with pendingNonces := pool.pendingNonces.setIfLower addr tx.nonce }
      return
  if let some future := pool.queue.find? addr then
    let (_, _, future) := future.Remove tx
    modify fun pool => { pool with
      queue := if future.Empty then pool.queue.erase addr else pool.queue.insert addr future }

/-! ## Adding -/

/-- `add(tx, local)`: whether `tx` replaced a transaction. -/
def add (tx : Transaction) (isLocal : Bool) : PoolM Bool := do
  let pool ← get
  if (pool.all.Get tx.hash).isSome then throw .alreadyKnown
  match pool.validateTx tx isLocal with
  | .error e => throw e
  | .ok () => pure ()
  if pool.all.Count ≥ pool.config.GlobalSlots + pool.config.GlobalQueue then
    if !pool.chainconfig.IsQuorum ∧ !isLocal then
      let (underpriced, priced) := pool.priced.Underpriced pool.all tx pool.locals
      set { pool with priced := priced }
      if underpriced then throw .underpriced
    let pool ← get
    let slots := pool.all.Slots - (pool.config.GlobalSlots + pool.config.GlobalQueue : Nat) + numSlots tx
    let (drop, priced) := pool.priced.Discard pool.all slots pool.locals
    set { pool with priced := priced }
    drop.forM fun tx => removeTx tx.hash false
  let pool ← get
  let addr := tx.sender.getD 0
  match pool.pending.find? addr with
  | some list =>
    if list.Overlaps tx then
      -- the nonce is pending: replace the pending transaction if the price bump is met
      let (inserted, old, list) := list.Add tx pool.config.PriceBump
      if !inserted then throw .replaceUnderpriced
      set { pool with pending := pool.pending.insert addr list }
      if let some old := old then
        removeAll [old]
        pricedRemoved 1
      addAll tx
      return old.isSome
  | none => pure ()
  let replaced ← enqueueTx tx.hash tx
  if isLocal then
    modify fun pool => { pool with locals := pool.locals.add addr }
  return replaced

/-- `addTxsLocked(txs, local)`: each transaction's error, and the accounts of
those added without replacing one. -/
def addTxsLocked (txs : List Transaction) (isLocal : Bool) : PoolM (List (Option TxPoolError) × AccountSet) :=
  txs.foldlM (fun (acc : List (Option TxPoolError) × AccountSet) tx => do
    match ← attempt (add tx isLocal) with
    | .ok replaced => pure (acc.1 ++ [none], if !replaced then acc.2.addTx tx else acc.2)
    | .error e => pure (acc.1 ++ [some e], acc.2)) ([], AccountSet.newAccountSet [])

/-! ## Reorganisation -/

/-- `reset(oldHead, newHead)` from the opening of the new head's state: its
state and gas limit, the transactions the reorg walk reinjects, and whether
the next block is in Istanbul. -/
def reset (statedb : HeadState) (gasLimit : UInt64) (reinject : List Transaction) (istanbul : Bool) :
    PoolM Unit := do
  modify fun pool => { pool with
    currentState := statedb, pendingNonces := TxNoncer.newTxNoncer statedb, currentMaxGas := gasLimit }
  let _ ← addTxsLocked reinject false
  modify fun pool => { pool with istanbul := istanbul }

/-- One account of `promoteExecutables`' loop: the transactions it promoted. -/
def promoteAccount (addr : Address) : PoolM (List Transaction) := do
  let pool ← get
  let some list := pool.queue.find? addr | return []
  let isQuorum := pool.chainconfig.IsQuorum
  -- drop all transactions that are deemed too old (low nonce)
  let (forwards, list) := list.Forward (pool.currentState.GetNonce addr)
  removeAll forwards
  let drops : List Transaction := []
  let list ← if !isQuorum then do
      -- Go's `drops, _ := list.Filter(...)` declares a new `drops` in this
      -- block: the transactions go, the outer `drops` stays empty
      let pool ← get
      let (drops, _, list) := list.Filter (pool.currentState.GetBalance addr) pool.currentMaxGas
      removeAll drops
      pure list
    else pure list
  -- the list is `pool.queue[addr]` by pointer
  modify fun pool => { pool with queue := pool.queue.insert addr list }
  let pool ← get
  let (readies, list) := list.Ready (pool.pendingNonces.get addr)
  modify fun pool => { pool with queue := pool.queue.insert addr list }
  let promoted ← readies.filterM fun tx => promoteTx addr tx.hash tx
  let pool ← get
  let (caps, list) := if !pool.locals.contains addr then list.Cap pool.config.AccountQueue else ([], list)
  removeAll caps
  pricedRemoved (forwards.length + drops.length + caps.length)
  modify fun pool => { pool with
    queue := if list.Empty then pool.queue.erase addr else pool.queue.insert addr list }
  return promoted

/-- `promoteExecutables(accounts)`. The delayed `reset` of a Quorum pool with
no pending nonces never runs here: a pool is built by `NewTxPool`, which
resets it. -/
def promoteExecutables (accounts : List Address) : PoolM (List Transaction) :=
  accounts.foldlM (fun promoted addr => do return promoted ++ (← promoteAccount addr)) []

/-- One account of `demoteUnexecutables`' loop. -/
def demoteAccount (addr : Address) (list : TxList) : PoolM Unit := do
  let pool ← get
  let nonce := pool.currentState.GetNonce addr
  -- drop all transactions that are deemed too old (low nonce)
  let (olds, list) := list.Forward nonce
  removeAll olds
  let pool ← get
  -- drop the unpayable ones and queue back the ones behind them
  let (drops, invalids, list) := list.Filter (pool.currentState.GetBalance addr) pool.currentMaxGas
  removeAll drops
  pricedRemoved (olds.length + drops.length)
  modify fun pool => { pool with pending := pool.pending.insert addr list }
  invalids.forM fun tx => do
    let _ ← attempt (enqueueTx tx.hash tx)
  -- a gap in front postpones every transaction of the account
  let list ← if list.Len > 0 ∧ (list.txs.Get nonce).isNone then do
      let (gapped, list) := list.Cap 0
      modify fun pool => { pool with pending := pool.pending.insert addr list }
      gapped.forM fun tx => do
        let _ ← attempt (enqueueTx tx.hash tx)
      pure list
    else pure list
  if list.Empty then modify fun pool => { pool with pending := pool.pending.erase addr }

def demoteUnexecutables : PoolM Unit := do
  (← get).pending.entries.forM fun e => demoteAccount e.1 e.2

/-- `SetGasPrice(price)`: the remote transactions below the new price are
evicted. -/
def SetGasPrice (price : Nat) : PoolM Unit := do
  modify fun pool => { pool with gasPrice := price }
  let pool ← get
  let (drop, priced) := pool.priced.Cap pool.all price pool.locals
  set { pool with priced := priced }
  drop.forM fun tx => removeTx tx.hash false

end TxPool

/-- `NewTxPool(config, chainconfig, chain)` over a head with state `statedb`,
gas limit `gasLimit`, and whether its next block is in Istanbul. -/
def NewTxPool (config : TxPoolConfig) (chainconfig : ChainConfig) (isTransactionAllowed : Transaction → Bool)
    (statedb : HeadState) (gasLimit : UInt64) (istanbul : Bool) : TxPool :=
  let config := config.sanitize
  let pool : TxPool :=
    { config := config, chainconfig := chainconfig, isTransactionAllowed := isTransactionAllowed,
      gasPrice := config.PriceLimit, istanbul := istanbul, currentState := statedb,
      pendingNonces := TxNoncer.newTxNoncer statedb, currentMaxGas := gasLimit,
      locals := AccountSet.newAccountSet config.Locals, pending := .empty, queue := .empty,
      all := TxLookup.newTxLookup, priced := TxPricedList.newTxPricedList }
  stateOf ((TxPool.reset statedb gasLimit [] istanbul).run pool)

end Xdchain.Core
