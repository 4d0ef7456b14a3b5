import Mathlib.Data.Finset.Basic
import Mathlib.Data.Finset.Lattice.Lemmas

/-! # The speculative chain of the raft minter

`speculativeChain` of `raft/speculative_chain.go`: the blocks the minter has
minted and raft has not yet applied, oldest first, with the head they build
on, the guard of hashes expected to be ruled invalid, and the transactions
already proposed. `lane.Deque` is a list with its front first (`Shift` takes
the first block, `Pop` the last), the sets are `Finset`s, and a block is seen
through `hash` (`Block.Hash`) and `txHashes` (the hashes of its
transactions), both kept abstract.

The minter drives the chain by `Op`s (`minter.go`): `extend` with a block it
minted on the head, `accept` of a new chain head, `unwindFrom` for an invalid
raft ordering, `setHead` while not minting, `clear`. `Reachable` is every run
of them from `newSpeculativeChain`, `extend` only with a block whose
transactions and hash are fresh, and `Inv` what every such run keeps. -/

namespace Xdchain.Raft

/-- `speculativeChain`. `head` is `nil` before the first block. -/
structure SpeculativeChain (Block Hash TxHash : Type) where
  head : Option Block
  unappliedBlocks : List Block
  expectedInvalidBlockHashes : Finset Hash
  proposedTxes : Finset TxHash

/-- The operations of the minter on its speculative chain. -/
inductive Op (Block Hash : Type) where
  | clear (block : Block)
  | extend (block : Block)
  | setHead (block : Block)
  | accept (block : Block)
  | unwindFrom (invalidHash : Hash) (headBlock : Block)

namespace SpeculativeChain

variable {Block Hash TxHash : Type} [DecidableEq Hash] [DecidableEq TxHash]
variable (hash : Block → Hash) (txHashes : Block → List TxHash)

def newSpeculativeChain : SpeculativeChain Block Hash TxHash := ⟨none, [], ∅, ∅⟩

/-- `clear`: the block is the head, and nothing is speculative. -/
def clear (_ : SpeculativeChain Block Hash TxHash) (block : Block) : SpeculativeChain Block Hash TxHash :=
  ⟨some block, [], ∅, ∅⟩

def recordProposedTransactions (chain : SpeculativeChain Block Hash TxHash) (txes : List TxHash) :
    SpeculativeChain Block Hash TxHash :=
  { chain with proposedTxes := chain.proposedTxes ∪ txes.toFinset }

def removeProposedTxes (chain : SpeculativeChain Block Hash TxHash) (block : Block) :
    SpeculativeChain Block Hash TxHash :=
  { chain with proposedTxes := chain.proposedTxes \ (txHashes block).toFinset }

/-- `extend`: a new speculative block on the head. -/
def extend (chain : SpeculativeChain Block Hash TxHash) (block : Block) : SpeculativeChain Block Hash TxHash :=
  let chain := ({ chain with head := some block } : SpeculativeChain Block Hash TxHash)
  let chain := chain.recordProposedTransactions (txHashes block)
  { chain with unappliedBlocks := chain.unappliedBlocks ++ [block] }

def setHead (chain : SpeculativeChain Block Hash TxHash) (block : Block) : SpeculativeChain Block Hash TxHash :=
  { chain with head := some block }

/-- `accept`: the earliest unapplied block is shifted out; with none the
accepted block is the head, with the same hash its transactions are no
longer proposed, and with another hash the chain is cleared. -/
def accept (chain : SpeculativeChain Block Hash TxHash) (acceptedBlock : Block) :
    SpeculativeChain Block Hash TxHash :=
  match chain.unappliedBlocks with
  | [] => { chain with head := some acceptedBlock }
  | earliestProposed :: rest =>
    let chain := ({ chain with unappliedBlocks := rest } : SpeculativeChain Block Hash TxHash)
    if hash earliestProposed = hash acceptedBlock then chain.removeProposedTxes txHashes acceptedBlock
    else chain.clear acceptedBlock

/-- The loop of `unwindFrom`, for at most `fuel` rounds: the last block is
popped, the head moves to the block before it (or to `headBlock`), its
transactions are no longer proposed, and unless it is the invalid block its
hash is guarded and the loop goes on. -/
def unwindLoop (invalidHash : Hash) (headBlock : Block) :
    Nat → SpeculativeChain Block Hash TxHash → SpeculativeChain Block Hash TxHash
  | 0, chain => chain
  | fuel + 1, chain =>
    match chain.unappliedBlocks.getLast? with
    | none => chain
    | some currBlock =>
      let unapplied := chain.unappliedBlocks.dropLast
      -- `Last()` of the rest when there is one, else the chain's head block
      let chain := ({ chain with unappliedBlocks := unapplied, head := some (unapplied.getLast?.getD headBlock) } :
        SpeculativeChain Block Hash TxHash)
      let chain := chain.removeProposedTxes txHashes currBlock
      if hash currBlock ≠ invalidHash then
        unwindLoop invalidHash headBlock fuel
          { chain with expectedInvalidBlockHashes := insert (hash currBlock) chain.expectedInvalidBlockHashes }
      else chain

/-- `unwindFrom`: a guarded hash is only taken out of the guard; otherwise
blocks are popped up to the invalid one. Each round pops a block, so one
round more than there are blocks is enough. -/
def unwindFrom (chain : SpeculativeChain Block Hash TxHash) (invalidHash : Hash) (headBlock : Block) :
    SpeculativeChain Block Hash TxHash :=
  if invalidHash ∈ chain.expectedInvalidBlockHashes then
    { chain with expectedInvalidBlockHashes := chain.expectedInvalidBlockHashes.erase invalidHash }
  else unwindLoop hash txHashes invalidHash headBlock (chain.unappliedBlocks.length + 1) chain

/-- One operation of the minter. -/
def step (chain : SpeculativeChain Block Hash TxHash) : Op Block Hash → SpeculativeChain Block Hash TxHash
  | .clear block => chain.clear block
  | .extend block => chain.extend txHashes block
  | .setHead block => chain.setHead block
  | .accept block => chain.accept hash txHashes block
  | .unwindFrom invalidHash headBlock => chain.unwindFrom hash txHashes invalidHash headBlock


/-! ## Runs of the minter -/

/-- A block whose transactions are new to the chain: none of them is proposed yet. -/
def TxesFresh (chain : SpeculativeChain Block Hash TxHash) (block : Block) : Prop :=
  ∀ t ∈ txHashes block, t ∉ chain.proposedTxes

/-- A block minted on the head is new: its hash is neither guarded nor that of an unapplied block. -/
def HashFresh (chain : SpeculativeChain Block Hash TxHash) (block : Block) : Prop :=
  hash block ∉ chain.expectedInvalidBlockHashes ∧ ∀ b ∈ chain.unappliedBlocks, hash b ≠ hash block

/-- A block minted on the head: fresh transactions and a fresh hash. -/
def Minted (chain : SpeculativeChain Block Hash TxHash) (block : Block) : Prop :=
  TxesFresh txHashes chain block ∧ HashFresh hash chain block

/-- What the minter may do: `extend` with a block that `fresh` admits, and
`setHead` only with no unapplied block. -/
def Allowed (fresh : SpeculativeChain Block Hash TxHash → Block → Prop)
    (chain : SpeculativeChain Block Hash TxHash) : Op Block Hash → Prop
  | .extend block => fresh chain block
  | .setHead _ => chain.unappliedBlocks = []
  | _ => True

/-- The chains that runs from `newSpeculativeChain` reach. -/
inductive Reachable (fresh : SpeculativeChain Block Hash TxHash → Block → Prop) :
    SpeculativeChain Block Hash TxHash → Prop
  | new : Reachable fresh newSpeculativeChain
  | step {chain : SpeculativeChain Block Hash TxHash} {op : Op Block Hash} :
      Reachable fresh chain → Allowed fresh chain op → Reachable fresh (chain.step hash txHashes op)

instance (chain : SpeculativeChain Block Hash TxHash) (block : Block) :
    Decidable (TxesFresh txHashes chain block) :=
  inferInstanceAs (Decidable (∀ t ∈ txHashes block, t ∉ chain.proposedTxes))

instance (chain : SpeculativeChain Block Hash TxHash) (block : Block) : Decidable (HashFresh hash chain block) :=
  inferInstanceAs (Decidable (_ ∧ ∀ b ∈ chain.unappliedBlocks, hash b ≠ hash block))

instance (chain : SpeculativeChain Block Hash TxHash) (block : Block) :
    Decidable (Minted hash txHashes chain block) :=
  inferInstanceAs (Decidable (_ ∧ _))

/-! ## The invariant -/

/-- The invariant of the speculative chain: the head is the last unapplied
block, the proposed transactions are those of the unapplied blocks, no
unapplied block is guarded; and, for the steps, the unapplied blocks share no
transaction and no hash. -/
structure Inv (chain : SpeculativeChain Block Hash TxHash) : Prop where
  head_last : chain.unappliedBlocks ≠ [] → chain.head = chain.unappliedBlocks.getLast?
  proposed : chain.proposedTxes = (chain.unappliedBlocks.flatMap txHashes).toFinset
  unguarded : ∀ b ∈ chain.unappliedBlocks, hash b ∉ chain.expectedInvalidBlockHashes
  disjoint : chain.unappliedBlocks.Pairwise fun b b' => ∀ t ∈ txHashes b, t ∉ txHashes b'
  nodup : (chain.unappliedBlocks.map hash).Nodup

/-! ## The fields of each operation -/

section

omit [DecidableEq Hash]


@[simp] theorem removeProposedTxes_head (chain : SpeculativeChain Block Hash TxHash) (block : Block) :
    (chain.removeProposedTxes txHashes block).head = chain.head := rfl

@[simp] theorem removeProposedTxes_unappliedBlocks (chain : SpeculativeChain Block Hash TxHash) (block : Block) :
    (chain.removeProposedTxes txHashes block).unappliedBlocks = chain.unappliedBlocks := rfl

@[simp] theorem removeProposedTxes_expectedInvalidBlockHashes (chain : SpeculativeChain Block Hash TxHash)
    (block : Block) :
    (chain.removeProposedTxes txHashes block).expectedInvalidBlockHashes = chain.expectedInvalidBlockHashes :=
  rfl

@[simp] theorem removeProposedTxes_proposedTxes (chain : SpeculativeChain Block Hash TxHash) (block : Block) :
    (chain.removeProposedTxes txHashes block).proposedTxes = chain.proposedTxes \ (txHashes block).toFinset :=
  rfl

/-! ## Sets of transactions -/

theorem toFinset_append_sdiff {A B : List TxHash} (h : ∀ t ∈ A, t ∉ B) :
    (A ++ B).toFinset \ B.toFinset = A.toFinset := by
  ext t
  simp only [Finset.mem_sdiff, List.mem_toFinset, List.mem_append]
  constructor
  · rintro ⟨hA | hB, hn⟩
    · exact hA
    · exact absurd hB hn
  · intro hA
    exact ⟨.inl hA, h t hA⟩

theorem toFinset_append_sdiff_left {A B : List TxHash} (h : ∀ t ∈ A, t ∉ B) :
    (B ++ A).toFinset \ B.toFinset = A.toFinset := by
  rw [List.toFinset_append, Finset.union_comm, ← List.toFinset_append, toFinset_append_sdiff h]

/-! ## One step -/

variable {hash txHashes}

theorem inv_new : Inv hash txHashes (newSpeculativeChain : SpeculativeChain Block Hash TxHash) :=
  ⟨fun h => absurd rfl h, rfl, (fun _ h => nomatch h), .nil, .nil⟩

theorem Inv.clear (chain : SpeculativeChain Block Hash TxHash) (block : Block) :
    Inv hash txHashes (chain.clear block) :=
  ⟨fun h => absurd rfl h, rfl, (fun _ h => nomatch h), .nil, .nil⟩

theorem Inv.extend {chain : SpeculativeChain Block Hash TxHash} {block : Block}
    (h : Inv hash txHashes chain) (htx : TxesFresh txHashes chain block) (hh : HashFresh hash chain block) :
    Inv hash txHashes (chain.extend txHashes block) := by
  obtain ⟨hhead, hprop, hguard, hdisj, hnodup⟩ := h
  have hold : ∀ b ∈ chain.unappliedBlocks, ∀ t ∈ txHashes b, t ∉ txHashes block := by
    intro b hb t ht htb
    apply htx t htb
    rw [hprop, List.mem_toFinset, List.mem_flatMap]
    exact ⟨b, hb, ht⟩
  refine ⟨fun _ => ?_, ?_, ?_, ?_, ?_⟩
  · simp [SpeculativeChain.extend, recordProposedTransactions]
  · simp only [SpeculativeChain.extend, recordProposedTransactions, hprop, List.flatMap_append,
      List.flatMap_singleton, List.toFinset_append]
  · intro b hb
    simp only [SpeculativeChain.extend, recordProposedTransactions, List.mem_append,
      List.mem_singleton] at hb ⊢
    rcases hb with hb | rfl
    · exact hguard b hb
    · exact hh.1
  · simp only [SpeculativeChain.extend, recordProposedTransactions]
    rw [List.pairwise_append]
    refine ⟨hdisj, List.pairwise_singleton _ _, fun b hb b' hb' => ?_⟩
    rw [List.mem_singleton] at hb'
    subst hb'
    exact hold b hb
  · simp only [SpeculativeChain.extend, recordProposedTransactions, List.map_append, List.map_singleton]
    rw [List.nodup_append]
    refine ⟨hnodup, List.nodup_singleton _, fun a ha b hb => ?_⟩
    rw [List.mem_singleton] at hb
    subst hb
    obtain ⟨b', hb', rfl⟩ := List.mem_map.mp ha
    exact hh.2 b' hb'

theorem Inv.setHead {chain : SpeculativeChain Block Hash TxHash} {block : Block}
    (h : Inv hash txHashes chain) (he : chain.unappliedBlocks = []) : Inv hash txHashes (chain.setHead block) :=
  ⟨fun hne => absurd he hne, h.proposed, h.unguarded, h.disjoint, h.nodup⟩

/-- Popping the last block `c` keeps the invariant, with a guard that holds
no hash of the blocks left. -/
theorem Inv.pop {chain : SpeculativeChain Block Hash TxHash} (h : Inv hash txHashes chain)
    {rest : List Block} {c : Block} (hl : chain.unappliedBlocks = rest ++ [c]) (headBlock : Block)
    {guard : Finset Hash} (hg : ∀ b ∈ rest, hash b ∉ guard) :
    Inv hash txHashes ⟨some (rest.getLast?.getD headBlock), rest, guard,
      chain.proposedTxes \ (txHashes c).toFinset⟩ := by
  obtain ⟨_, hprop, _, hdisj, hnodup⟩ := h
  rw [hl] at hprop hdisj hnodup
  rw [List.pairwise_append] at hdisj
  rw [List.map_append, List.nodup_append] at hnodup
  refine ⟨fun hne => ?_, ?_, hg, hdisj.1, hnodup.1⟩
  · obtain ⟨x, hx⟩ := List.getLast?_isSome.mpr hne |> Option.isSome_iff_exists.mp
    simp only [hx, Option.getD_some]
  · -- the popped block shares no transaction with those before it
    have hout : ∀ t ∈ rest.flatMap txHashes, t ∉ txHashes c := by
      intro t ht
      obtain ⟨b, hb, htb⟩ := List.mem_flatMap.mp ht
      exact hdisj.2.2 b hb c (List.mem_singleton_self c) t htb
    rw [hprop, List.flatMap_append, List.flatMap_singleton, toFinset_append_sdiff hout]

end

variable {hash txHashes}

omit [DecidableEq TxHash] in
/-- Every transaction of a later block is outside an earlier one. -/
theorem not_mem_of_pairwise {e : Block} {rest : List Block}
    (h : (e :: rest).Pairwise fun b b' => ∀ t ∈ txHashes b, t ∉ txHashes b') :
    ∀ t ∈ rest.flatMap txHashes, t ∉ txHashes e := by
  intro t ht hte
  obtain ⟨b, hb, htb⟩ := List.mem_flatMap.mp ht
  exact (List.pairwise_cons.mp h).1 b hb t hte htb

theorem Inv.accept (hcommit : ∀ b b', hash b = hash b' → txHashes b = txHashes b')
    {chain : SpeculativeChain Block Hash TxHash} {block : Block} (h : Inv hash txHashes chain) :
    Inv hash txHashes (chain.accept hash txHashes block) := by
  obtain ⟨hhead, hprop, hguard, hdisj, hnodup⟩ := h
  unfold SpeculativeChain.accept
  split
  · -- nothing speculative: the accepted block is the head
    rename_i he
    exact ⟨fun hne => absurd he hne, hprop, hguard, hdisj, hnodup⟩
  · rename_i e rest he
    dsimp only
    split_ifs with hh
    · -- the earliest block is accepted: the rest stays, without its transactions
      rw [he] at hhead hprop hguard hdisj hnodup
      refine ⟨fun hne => ?_, ?_, fun b hb => hguard b (.tail _ hb), (List.pairwise_cons.mp hdisj).2,
        (List.nodup_cons.mp hnodup).2⟩
      · simp only [removeProposedTxes_head, removeProposedTxes_unappliedBlocks] at hne ⊢
        obtain ⟨r, rs, rfl⟩ := List.exists_cons_of_ne_nil hne
        rw [hhead (List.cons_ne_nil _ _), List.getLast?_cons_cons]
      · simp only [removeProposedTxes_proposedTxes, removeProposedTxes_unappliedBlocks]
        rw [hprop, ← hcommit e block hh, List.flatMap_cons, toFinset_append_sdiff_left (not_mem_of_pairwise hdisj)]
    · exact Inv.clear _ _

theorem Inv.unwindLoop (invalidHash : Hash) (headBlock : Block) :
    ∀ (fuel : Nat) (chain : SpeculativeChain Block Hash TxHash), Inv hash txHashes chain →
      Inv hash txHashes (unwindLoop hash txHashes invalidHash headBlock fuel chain) := by
  intro fuel
  induction fuel with
  | zero => exact fun _ h => h
  | succ fuel ih =>
    intro chain h
    unfold SpeculativeChain.unwindLoop
    split
    · exact h
    · rename_i c hc
      have hl : chain.unappliedBlocks = chain.unappliedBlocks.dropLast ++ [c] :=
        (List.dropLast_append_getLast? c hc).symm
      have hnot : ∀ b ∈ chain.unappliedBlocks.dropLast, hash b ≠ hash c := by
        have hn := h.nodup
        rw [hl, List.map_append, List.nodup_append] at hn
        exact fun b hb heq => hn.2.2 _ (List.mem_map_of_mem hb) _ (List.mem_singleton_self _) heq
      dsimp only
      split_ifs
      · exact ih _ (h.pop hl headBlock fun b hb => by
          rw [Finset.mem_insert, not_or]
          exact ⟨hnot b hb, h.unguarded b (hl ▸ List.mem_append_left _ hb)⟩)
      · exact h.pop hl headBlock fun b hb => h.unguarded b (hl ▸ List.mem_append_left _ hb)

theorem Inv.unwindFrom {chain : SpeculativeChain Block Hash TxHash} (h : Inv hash txHashes chain)
    (invalidHash : Hash) (headBlock : Block) :
    Inv hash txHashes (chain.unwindFrom hash txHashes invalidHash headBlock) := by
  unfold SpeculativeChain.unwindFrom
  split_ifs
  · -- only the guard shrinks
    exact ⟨h.head_last, h.proposed, fun b hb hm => h.unguarded b hb (Finset.mem_of_mem_erase hm),
      h.disjoint, h.nodup⟩
  · exact Inv.unwindLoop invalidHash headBlock _ chain h

theorem Inv.step (hcommit : ∀ b b', hash b = hash b' → txHashes b = txHashes b')
    {chain : SpeculativeChain Block Hash TxHash} {op : Op Block Hash} (h : Inv hash txHashes chain)
    (hop : Allowed (Minted hash txHashes) chain op) : Inv hash txHashes (chain.step hash txHashes op) := by
  cases op with
  | clear block => exact Inv.clear chain block
  | extend block => exact h.extend hop.1 hop.2
  | setHead block => exact h.setHead hop
  | accept block => exact h.accept hcommit
  | unwindFrom invalidHash headBlock => exact h.unwindFrom invalidHash headBlock

theorem Reachable.inv (hcommit : ∀ b b', hash b = hash b' → txHashes b = txHashes b')
    {chain : SpeculativeChain Block Hash TxHash} (h : Reachable hash txHashes (Minted hash txHashes) chain) :
    Inv hash txHashes chain := by
  induction h with
  | new => exact inv_new
  | step _ hop ih => exact ih.step hcommit hop

/-! ## Unwinding from an unapplied block -/

/-- **The loop of `unwindFrom` from a block `b`** pops the blocks after it,
guarding their hashes, and then `b` itself. The induction is on the blocks
after `b`, from the last one. -/
theorem unwindLoop_of_suffix {pre : List Block} {b : Block} (headBlock : Block) :
    ∀ (post : List Block) (fuel : Nat) (chain : SpeculativeChain Block Hash TxHash),
      chain.unappliedBlocks = pre ++ b :: post → (∀ c ∈ post, hash c ≠ hash b) → post.length < fuel →
      unwindLoop hash txHashes (hash b) headBlock fuel chain =
        ⟨some (pre.getLast?.getD headBlock), pre,
          chain.expectedInvalidBlockHashes ∪ (post.map hash).toFinset,
          chain.proposedTxes \ ((b :: post).flatMap txHashes).toFinset⟩ := by
  intro post
  induction post using List.reverseRecOn with
  | nil =>
    intro fuel chain hl _ hfuel
    obtain ⟨fuel, rfl⟩ : ∃ f, fuel = f + 1 := ⟨fuel - 1, by simp at hfuel; omega⟩
    have hlast : chain.unappliedBlocks.getLast? = some b := by rw [hl, List.getLast?_concat]
    have hdrop : chain.unappliedBlocks.dropLast = pre := by rw [hl, List.dropLast_concat]
    rw [SpeculativeChain.unwindLoop, hlast]
    dsimp only
    rw [if_neg (not_not.mpr rfl), hdrop]
    simp only [List.map_nil, List.toFinset_nil, Finset.union_empty, List.flatMap_cons, List.flatMap_nil,
      List.append_nil]
    rfl
  | append_singleton post c ih =>
    intro fuel chain hl hpost hfuel
    obtain ⟨fuel, rfl⟩ : ∃ f, fuel = f + 1 := ⟨fuel - 1, by simp at hfuel; omega⟩
    have hl' : chain.unappliedBlocks = (pre ++ b :: post) ++ [c] := by simp [hl]
    have hlast : chain.unappliedBlocks.getLast? = some c := by rw [hl', List.getLast?_concat]
    have hdrop : chain.unappliedBlocks.dropLast = pre ++ b :: post := by
      rw [hl', List.dropLast_concat]
    have hc : hash c ≠ hash b := hpost c (by simp)
    rw [SpeculativeChain.unwindLoop, hlast]
    dsimp only
    rw [if_pos hc, hdrop, ih fuel _ rfl (fun c' hc' => hpost c' (by simp [hc'])) (by simp at hfuel; omega)]
    -- the guard and the proposed transactions, as sets
    simp only [SpeculativeChain.mk.injEq, removeProposedTxes_expectedInvalidBlockHashes,
      removeProposedTxes_proposedTxes, true_and]
    constructor
    · ext h
      simp only [Finset.mem_union, Finset.mem_insert, List.mem_toFinset, List.map_append, List.mem_append,
        List.map_singleton, List.mem_singleton]
      tauto
    · ext t
      simp only [Finset.mem_sdiff, List.mem_toFinset, List.flatMap_cons, List.flatMap_append,
        List.mem_append]
      tauto

/-- **`unwindFrom` from an unapplied block** removes it and every later
block, and guards the later ones. -/
theorem Inv.unwindFrom_of_mem {chain : SpeculativeChain Block Hash TxHash} (h : Inv hash txHashes chain)
    {pre post : List Block} {b : Block} (hl : chain.unappliedBlocks = pre ++ b :: post) (headBlock : Block) :
    chain.unwindFrom hash txHashes (hash b) headBlock =
      ⟨some (pre.getLast?.getD headBlock), pre, chain.expectedInvalidBlockHashes ∪ (post.map hash).toFinset,
        chain.proposedTxes \ ((b :: post).flatMap txHashes).toFinset⟩ := by
  have hb : b ∈ chain.unappliedBlocks := by simp [hl]
  have hpost : ∀ c ∈ post, hash c ≠ hash b := by
    have hn := h.nodup
    rw [hl, List.map_append, List.map_cons, List.nodup_append, List.nodup_cons] at hn
    exact fun c hc heq => hn.2.1.1 (heq ▸ List.mem_map_of_mem hc)
  rw [SpeculativeChain.unwindFrom, if_neg (h.unguarded b hb)]
  exact unwindLoop_of_suffix headBlock post _ chain hl hpost (by simp [hl]; omega)

/-! ## The speculative chain over every run -/

variable (hash txHashes) in
/-- **Every run of the minter keeps the speculative chain**, with blocks
minted on the head and a hash that commits to the block's transactions: the
head is the last unapplied block, the proposed transactions are those of the
unapplied blocks, no unapplied block is guarded, and `unwindFrom` of an
unapplied block removes it and the later blocks and guards the later ones. -/
theorem minted_runs_keep_speculative_chain (hcommit : ∀ b b', hash b = hash b' → txHashes b = txHashes b')
    {chain : SpeculativeChain Block Hash TxHash} (hreach : Reachable hash txHashes (Minted hash txHashes) chain) :
    (chain.unappliedBlocks ≠ [] → chain.head = chain.unappliedBlocks.getLast?) ∧
      chain.proposedTxes = (chain.unappliedBlocks.flatMap txHashes).toFinset ∧
      (∀ b ∈ chain.unappliedBlocks, hash b ∉ chain.expectedInvalidBlockHashes) ∧
      ∀ (pre : List Block) (b : Block) (post : List Block) (headBlock : Block),
        chain.unappliedBlocks = pre ++ b :: post →
        (chain.unwindFrom hash txHashes (hash b) headBlock).unappliedBlocks = pre ∧
          (chain.unwindFrom hash txHashes (hash b) headBlock).expectedInvalidBlockHashes =
            chain.expectedInvalidBlockHashes ∪ (post.map hash).toFinset := by
  have h := hreach.inv hcommit
  refine ⟨h.head_last, h.proposed, h.unguarded, fun pre b post headBlock hl => ?_⟩
  rw [h.unwindFrom_of_mem hl headBlock]
  exact ⟨rfl, rfl⟩

end SpeculativeChain

/-! ## Blocks of one transaction -/

namespace SpeculativeChain

/-- A block numbered `b` whose one transaction is numbered `b` too, its hash being `b`. -/
def oneTx (b : Nat) : List Nat := [b]

/-- Blocks `1` and `2` minted in a row. -/
def twoBlocks : SpeculativeChain Nat Nat Nat :=
  (newSpeculativeChain.step id oneTx (.extend 1)).step id oneTx (.extend 2)

theorem minted_runs_keep_speculative_chain_at_two_blocks :
    (twoBlocks.unwindFrom id oneTx 1 0).unappliedBlocks = [] ∧
      (twoBlocks.unwindFrom id oneTx 1 0).expectedInvalidBlockHashes = {2} := by
  have hreach : Reachable id oneTx (Minted id oneTx) twoBlocks :=
    .step (.step .new (show Minted id oneTx newSpeculativeChain 1 by decide))
      (show Minted id oneTx (newSpeculativeChain.step id oneTx (.extend 1)) 2 by decide)
  obtain ⟨-, -, -, hunwind⟩ :=
    minted_runs_keep_speculative_chain id oneTx (fun _ _ h => congrArg oneTx h) hreach
  obtain ⟨h1, h2⟩ := hunwind [] 1 [2] 0 (by decide)
  exact ⟨h1, h2.trans (by decide)⟩

/-- **A popped block extended again stays guarded.** Blocks `1` and `2` are
minted, `1` is ruled invalid, which guards `2`, and `2` is extended again,
its transaction being no longer proposed: `2` is then unapplied and guarded,
and `unwindFrom` of `2` only takes it out of the guard. -/
theorem reextended_block_stays_guarded :
    ∃ chain : SpeculativeChain Nat Nat Nat, Reachable id oneTx (TxesFresh oneTx) chain ∧
      chain.unappliedBlocks = [2] ∧ 2 ∈ chain.expectedInvalidBlockHashes ∧
      (chain.unwindFrom id oneTx 2 0).unappliedBlocks = [2] := by
  refine ⟨(twoBlocks.step id oneTx (.unwindFrom 1 0)).step id oneTx (.extend 2), ?_, by decide, by decide,
    by decide⟩
  have h1 : TxesFresh oneTx (newSpeculativeChain : SpeculativeChain Nat Nat Nat) 1 := by decide
  have h2 : TxesFresh oneTx (newSpeculativeChain.step id oneTx (.extend 1)) 2 := by decide
  have h4 : TxesFresh oneTx (twoBlocks.step id oneTx (.unwindFrom 1 0)) 2 := by decide
  exact .step (.step (.step (.step .new h1) h2) trivial) h4

end SpeculativeChain

end Xdchain.Raft
