import Mathlib
import Xdchain.Lib.ErrState

/-! # The canonical index under block insertion

`core/blockchain.go`: `writeBlockWithState` stores a block with its total
difficulty and, when the block wins the fork choice, makes it the head. When
the block does not extend the current head, `reorg` first walks the head and
the block back to their common ancestor, marks the blocks of the new branch
canonical, drops the transaction lookups of the old branch and the canonical
entries above the current block; `writeHeadBlock` then marks the block
itself.

The model keeps the tables these functions read and write (blocks, total
difficulties, the number-to-hash canonical index, the transaction lookups and
the head markers) as maps. A block is what the functions read of it: its hash,
parent, number, difficulty and the hashes of its transactions. -/

namespace Xdchain.Core

open Xdchain.Lib.ErrState (stateOf)

abbrev Hash := Nat

/-- `common.Hash{}`: what `ReadCanonicalHash` returns for a missing entry. -/
def emptyHash : Hash := 0

structure Block where
  hash : Hash
  parentHash : Hash
  number : Nat
  difficulty : Nat
  transactions : List Hash
deriving DecidableEq, Repr

/-- `block.NumberU64()-1`, in `uint64`. -/
def Block.parentNumber (b : Block) : Nat := (b.number + (2 ^ 64 - 1)) % 2 ^ 64

inductive WriteStatus where
  | nonStatTy
  | canonStatTy
  | sideStatTy
deriving DecidableEq, Repr

/-- The errors of `writeBlockWithState` and `reorg`; `missingTd` stands for the
nil dereference in `externTd.Cmp(localTd)`. -/
inductive ChainError where
  | unknownAncestor
  | missingTd
  | invalidOldChain
  | invalidNewChain
deriving DecidableEq, Repr

/-- The database and the in-memory head markers. Blocks and total difficulties
are keyed as in `rawdb`, by number and hash. The database holds finitely many
canonical entries, all below `canonicalEnd`: this is what ends the deletion
loop of `reorg`. -/
structure BlockChain where
  blocks : Nat × Hash → Option Block
  td : Nat × Hash → Option Nat
  canonical : Nat → Option Hash
  canonicalEnd : Nat
  canonical_end : ∀ n, canonicalEnd ≤ n → canonical n = none
  txLookup : Hash → Option Nat
  headBlockHash : Hash
  headHeaderHash : Hash
  headFastBlockHash : Hash
  currentBlock : Block
  currentHeader : Block
  currentFastBlock : Block

abbrev ChainM := EStateM ChainError BlockChain

namespace BlockChain

def getBlock (bc : BlockChain) (hash : Hash) (number : Nat) : Option Block := bc.blocks (number, hash)

def getTd (bc : BlockChain) (hash : Hash) (number : Nat) : Option Nat := bc.td (number, hash)

def readCanonicalHash (bc : BlockChain) (number : Nat) : Hash := (bc.canonical number).getD emptyHash

def writeTd (bc : BlockChain) (hash : Hash) (number td : Nat) : BlockChain :=
  { bc with td := Function.update bc.td (number, hash) (some td) }

def writeBlock (bc : BlockChain) (block : Block) : BlockChain :=
  { bc with blocks := Function.update bc.blocks (block.number, block.hash) (some block) }

def writeCanonicalHash (bc : BlockChain) (hash : Hash) (number : Nat) : BlockChain :=
  { bc with
    canonical := Function.update bc.canonical number (some hash)
    canonicalEnd := max bc.canonicalEnd (number + 1)
    canonical_end := fun n hn => by
      rw [Function.update_of_ne (by omega)]
      exact bc.canonical_end n (by omega) }

def deleteCanonicalHash (bc : BlockChain) (number : Nat) : BlockChain :=
  { bc with
    canonical := Function.update bc.canonical number none
    canonical_end := fun n hn => by
      by_cases h : n = number
      · subst h
        exact Function.update_self ..
      · rw [Function.update_of_ne h]
        exact bc.canonical_end n hn }

def writeTxLookupEntriesByBlock (bc : BlockChain) (block : Block) : BlockChain :=
  { bc with txLookup := block.transactions.foldl (fun l tx => Function.update l tx (some block.number)) bc.txLookup }

def deleteTxLookupEntry (bc : BlockChain) (hash : Hash) : BlockChain :=
  { bc with txLookup := Function.update bc.txLookup hash none }

/-- `writeHeadBlock`: mark the block canonical at its height, index its
transactions and make it the head; the header and fast-block heads follow it
when the block was not already canonical there. -/
def writeHeadBlock (bc : BlockChain) (block : Block) : BlockChain :=
  let updateHeads := bc.readCanonicalHash block.number ≠ block.hash
  let bc := (bc.writeCanonicalHash block.hash block.number).writeTxLookupEntriesByBlock block
  let bc := { bc with headBlockHash := block.hash }
  let bc := if updateHeads then
      { bc with headHeaderHash := block.hash, headFastBlockHash := block.hash, currentHeader := block,
                currentFastBlock := block }
    else bc
  { bc with currentBlock := block }

/-- The first loop of `reorg` when the old head is the higher block: walk it
down to height `number`, collecting the dropped blocks and their
transactions. Each step lowers the height by one, so `fuel` steps with `fuel`
the difference of the heights end where the loop's test does. -/
def reduceOld (bc : BlockChain) (number : Nat) :
    Nat → Option Block → List Block → List Hash → Option Block × List Block × List Hash
  | fuel + 1, some oldBlock, oldChain, deletedTxs =>
    if oldBlock.number ≠ number then
      reduceOld bc number fuel (bc.getBlock oldBlock.parentHash oldBlock.parentNumber) (oldChain ++ [oldBlock])
        (deletedTxs ++ oldBlock.transactions)
    else (some oldBlock, oldChain, deletedTxs)
  | _, oldBlock, oldChain, deletedTxs => (oldBlock, oldChain, deletedTxs)

/-- The first loop of `reorg` when the new block is at least as high. -/
def reduceNew (bc : BlockChain) (number : Nat) : Nat → Option Block → List Block → Option Block × List Block
  | fuel + 1, some newBlock, newChain =>
    if newBlock.number ≠ number then
      reduceNew bc number fuel (bc.getBlock newBlock.parentHash newBlock.parentNumber) (newChain ++ [newBlock])
    else (some newBlock, newChain)
  | _, newBlock, newChain => (newBlock, newChain)

/-- The second loop of `reorg`: step both blocks down together until they
meet. The two start at one height, so `number + 1` steps reach below
genesis, where a parent lookup fails. -/
def findCommon (bc : BlockChain) :
    Nat → Block → Block → List Block → List Hash → List Block →
      Except ChainError (Block × List Block × List Hash × List Block)
  | 0, _, _, _, _, _ => .error .invalidOldChain
  | fuel + 1, oldBlock, newBlock, oldChain, deletedTxs, newChain =>
    if oldBlock.hash = newBlock.hash then .ok (oldBlock, oldChain, deletedTxs, newChain)
    else
      match bc.getBlock oldBlock.parentHash oldBlock.parentNumber with
      | none => .error .invalidOldChain
      | some oldParent =>
        match bc.getBlock newBlock.parentHash newBlock.parentNumber with
        | none => .error .invalidNewChain
        | some newParent =>
          findCommon bc fuel oldParent newParent (oldChain ++ [oldBlock]) (deletedTxs ++ oldBlock.transactions)
            (newChain ++ [newBlock])

/-- The deletion loop of `reorg`: delete the canonical entries from height `i`
on, up to the first missing one. -/
def deleteCanonicalFrom : Nat → BlockChain → Nat → BlockChain
  | 0, bc, _ => bc
  | fuel + 1, bc, i =>
    if bc.readCanonicalHash i = emptyHash then bc
    else deleteCanonicalFrom fuel (bc.deleteCanonicalHash i) (i + 1)

/-- The writes of `reorg` once the two chains are known: the new branch below
the new block becomes canonical (deepest first), the lookups of dropped
transactions go, and so do the canonical entries above the current block. -/
def rewriteCanonical (bc : BlockChain) (newChain : List Block) (deletedTxs : List Hash) : BlockChain :=
  let bc := (newChain.drop 1).reverse.foldl writeHeadBlock bc
  let addedTxs := ((newChain.drop 1).reverse.map Block.transactions).flatten
  let bc := (deletedTxs.filter (· ∉ addedTxs)).foldl deleteTxLookupEntry bc
  let number := bc.currentBlock.number
  deleteCanonicalFrom (bc.canonicalEnd - (number + 1)) bc (number + 1)

end BlockChain

open BlockChain

/-- `reorg`. The loops read the database only; every write comes after them,
so a failed reorg leaves the chain as it was. -/
def reorg (oldBlock newBlock : Block) : ChainM Unit := fun bc =>
  let (oldBlock, oldChain, deletedTxs, newBlock, newChain) :=
    if oldBlock.number > newBlock.number then
      let (oldBlock, oldChain, deletedTxs) :=
        bc.reduceOld newBlock.number (oldBlock.number - newBlock.number) (some oldBlock) [] []
      (oldBlock, oldChain, deletedTxs, some newBlock, [])
    else
      let (newBlock, newChain) := bc.reduceNew oldBlock.number (newBlock.number - oldBlock.number) (some newBlock) []
      (some oldBlock, [], [], newBlock, newChain)
  match oldBlock, newBlock with
  | none, _ => .error .invalidOldChain bc
  | _, none => .error .invalidNewChain bc
  | some oldBlock, some newBlock =>
    match bc.findCommon (oldBlock.number + 1) oldBlock newBlock oldChain deletedTxs newChain with
    | .error e => .error e bc
    | .ok (_, _, deletedTxs, newChain) => .ok () (bc.rewriteCanonical newChain deletedTxs)

/-- The fork choice of `writeBlockWithState`: the higher total difficulty wins;
at equal difficulty the lower block, and at equal height a block the local
miner prefers, or the coin `mrand.Float64() < 0.5`. -/
def forkChoice (shouldPreserve : Option (Block → Bool)) (coin : Bool) (currentBlock block : Block)
    (externTd localTd : Nat) : Bool :=
  if externTd > localTd then true
  else if externTd = localTd then
    if block.number < currentBlock.number then true
    else if block.number = currentBlock.number then
      let (currentPreserve, blockPreserve) := match shouldPreserve with
        | none => (false, false)
        | some preserve => (preserve currentBlock, preserve block)
      !currentPreserve && (blockPreserve || coin)
    else false
  else false

/-- `writeBlockWithState`, without receipts, logs and the state commit. The
block and its total difficulty are stored before the fork choice, and stay
stored when `reorg` fails. -/
def writeBlockWithState (shouldPreserve : Option (Block → Bool)) (coin : Bool) (block : Block) :
    ChainM WriteStatus := fun bc =>
  match bc.getTd block.parentHash block.parentNumber with
  | none => .error .unknownAncestor bc
  | some ptd =>
    let currentBlock := bc.currentBlock
    let localTd := bc.getTd currentBlock.hash currentBlock.number
    let externTd := block.difficulty + ptd
    let bc := (bc.writeTd block.hash block.number externTd).writeBlock block
    match localTd with
    | none => .error .missingTd bc
    | some localTd =>
      if forkChoice shouldPreserve coin currentBlock block externTd localTd then
        let r := if block.parentHash ≠ currentBlock.hash then reorg currentBlock block bc else .ok () bc
        match r with
        | .error e bc => .error e bc
        | .ok () bc => .ok .canonStatTy (bc.writeHeadBlock block)
      else .ok .sideStatTy bc

/-- The database `Genesis.Commit` leaves (it refuses a block at another
height than 0), with the heads `NewBlockChain` loads from it. -/
def genesisChain (genesis : Block) : BlockChain where
  blocks := Function.update (fun _ => none) (genesis.number, genesis.hash) (some genesis)
  td := Function.update (fun _ => none) (genesis.number, genesis.hash) (some genesis.difficulty)
  canonical := Function.update (fun _ => none) genesis.number (some genesis.hash)
  canonicalEnd := genesis.number + 1
  canonical_end := fun n hn => by rw [Function.update_of_ne (by omega)]
  txLookup := fun _ => none
  headBlockHash := genesis.hash
  headHeaderHash := genesis.hash
  headFastBlockHash := genesis.hash
  currentBlock := genesis
  currentHeader := genesis
  currentFastBlock := genesis

section LowerHead

/-! A chain `genesis ← a1 ← a2`, then a heavier sibling `b1` of `a1`. -/

def genesis : Block := ⟨1, 0, 0, 1, []⟩
def a1 : Block := ⟨2, 1, 1, 1, [11]⟩
def a2 : Block := ⟨3, 2, 2, 1, [12]⟩
def b1 : Block := ⟨4, 1, 1, 5, [13]⟩

/-- The three blocks written one after another on the genesis database, with
the tie-break coins `c1`, `c2` and `c3`. -/
def lowerHeadRun (c1 c2 c3 : Bool) : EStateM.Result ChainError BlockChain WriteStatus :=
  (do
    let _ ← writeBlockWithState none c1 a1
    let _ ← writeBlockWithState none c2 a2
    writeBlockWithState none c3 b1).run (genesisChain genesis)

/-- After `b1` replaces `a2` as head, the index still names `a2` at height 2,
above the new head: `reorg` deletes from above the old head. -/
theorem reorg_to_lower_block_keeps_canonical_above_head (c1 c2 c3 : Bool) :
    (lowerHeadRun c1 c2 c3 matches .ok .canonStatTy _) = true ∧
      (stateOf (lowerHeadRun c1 c2 c3)).currentBlock = b1 ∧
      (stateOf (lowerHeadRun c1 c2 c3)).readCanonicalHash 2 = a2.hash := by
  cases c1 <;> cases c2 <;> cases c3 <;> decide

end LowerHead

end Xdchain.Core
