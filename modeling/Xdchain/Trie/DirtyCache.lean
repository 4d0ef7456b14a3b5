import Xdchain.Trie.Sync

/-! The dirty node cache of `trie/database.go` and its two size counters.

`insert` caches a collapsed node, `reference` and `dereference` add and
drop references between cached nodes (a node whose last reference goes is
deleted, and its children dereferenced in turn), `Cap` flushes the oldest
nodes of the flush-list to disk and uncaches them, and `Commit` writes a
node and everything below it, the batch replayed into `cleaner.Put`, which
uncaches each written node. The counters are `dirtiesSize`, the bytes of the
cached nodes with their hashes, and `childrenSize`, the bytes of the
external children maps.

A cached node keeps of its collapsed node the hashes `forGatherChildren`
finds in it, which is all that reference counting and commit read; the rlp
blob behind a hash enters only through its length, which fills a batch.
Go's `*cachedNode` is a pointer: a write through it is an `update` of the
map entry. A nil pointer for a missing flush-list neighbour is left out, as
is the `log` and metrics bookkeeping. `common.StorageSize` is a float
holding whole numbers; it is an `Int` here. -/

namespace Xdchain.Trie.DirtyCache

open Xdchain.Lib

def hashLength : Nat := 32

/-- `cachedNodeChildrenSize`: an initialized but empty external reference map. -/
def cachedNodeChildrenSize : Nat := 48

def idealBatchSize : Nat := 100 * 1024

/-- `cachedNode`: the hashes inside the node, its byte size (`uint16`), its
live parents (`uint32`), its external children with a reference count each
(`uint16`, a nil map is `none`), and its flush-list neighbours. -/
structure CachedNode where
  node : List Hash
  size : Nat
  parents : Nat
  children : Option (KeyMap Hash Nat)
  flushPrev : Hash
  flushNext : Hash
deriving DecidableEq

/-- `forChilds`: the external children, then the hashes inside the node. -/
def CachedNode.forChilds (n : CachedNode) : List Hash :=
  (n.children.map KeyMap.keys).getD [] ++ n.node

/-- The bytes of a children map: the map, and a hash and a counter an entry. -/
def CachedNode.childWeight (n : CachedNode) : Nat :=
  match n.children with
  | some m => cachedNodeChildrenSize + m.size * (hashLength + 2)
  | none => 0

/-- `Database`, its dirty cache and counters. -/
structure Database where
  dirties : KeyMap Hash CachedNode
  oldest : Hash
  newest : Hash
  dirtiesSize : Int
  childrenSize : Int
deriving DecidableEq

/-- The meta-root of `NewDatabase`, under the zero hash, with an empty map. -/
def metaRoot : CachedNode :=
  { node := [], size := 0, parents := 0, children := some KeyMap.empty, flushPrev := 0, flushNext := 0 }

/-- `NewDatabaseWithConfig`: the meta-root alone and both counters zero. -/
def newDatabase : Database :=
  { dirties := KeyMap.empty.insert 0 metaRoot
    oldest := 0
    newest := 0
    dirtiesSize := 0
    childrenSize := 0 }

/-! ## The operations -/

/-- `c.parents++` for a cached child `c`. -/
def addParent (d : KeyMap Hash CachedNode) (child : Hash) : KeyMap Hash CachedNode :=
  d.update child (fun c => { c with parents := (c.parents + 1) % 2 ^ 32 })

/-- `children[child]++` on a `uint16` counter. -/
def bumpChild (m : KeyMap Hash Nat) (child : Hash) : KeyMap Hash Nat :=
  m.insert child (((m.find? child).getD 0 + 1) % 2 ^ 16)

namespace Database

section Operations

variable (db : Database)

/-- `insert`: a node not yet cached, with a parent more for each cached
child, appended to the flush-list. -/
def insert (hash : Hash) (size : Nat) (node : List Hash) : Database :=
  match db.dirties.find? hash with
  | some _ => db
  | none =>
    let entry : CachedNode :=
      { node := node
        size := size % 2 ^ 16
        parents := 0
        children := none
        flushPrev := db.newest
        flushNext := 0 }
    let dirties := entry.forChilds.foldl addParent db.dirties
    let dirties := dirties.insert hash entry
    -- Update the flush-list endpoints
    let db := if db.oldest = 0 then { db with dirties := dirties, oldest := hash, newest := hash }
      else
        { db with
          dirties := dirties.update db.newest (fun n => { n with flushNext := hash })
          newest := hash }
    { db with dirtiesSize := db.dirtiesSize + (hashLength + entry.size : Nat) }

/-- `reference`: a cached child gets a parent more and an entry more in the
parent's children map, which is made on first use. A reference that exists
is only duplicated for the meta-root. -/
def reference (child parent : Hash) : Database :=
  match db.dirties.find? child, db.dirties.find? parent with
  | some _, some p =>
    let m := p.children.getD KeyMap.empty
    if p.children.isSome ∧ (m.find? child).isSome ∧ parent ≠ 0 then db
    else
      let count := ((m.find? child).getD 0 + 1) % 2 ^ 16
      let dirties := addParent db.dirties child
      let dirties := dirties.update parent (fun n =>
        { n with children := some (bumpChild (n.children.getD KeyMap.empty) child) })
      { db with
        dirties := dirties
        childrenSize := db.childrenSize + (if p.children.isSome then 0 else cachedNodeChildrenSize)
          + (if count = 1 then hashLength + 2 else 0) }
  | _, _ => db

/-- The parent's half of `dereference`: one reference fewer in its map, and
the entry gone at zero. A count missing from the map reads as zero. -/
def unrefChild (parent child : Hash) : Database :=
  match (db.dirties.find? parent).bind CachedNode.children with
  | some m =>
    if (m.find? child).getD 0 > 0 then
      if (m.find? child).getD 0 - 1 = 0 then
        { db with
          dirties := db.dirties.update parent (fun n => { n with children := some (m.erase child) })
          childrenSize := db.childrenSize - (hashLength + 2 : Nat) }
      else
        { db with
          dirties := db.dirties.update parent (fun n =>
            { n with children := some (m.insert child ((m.find? child).getD 0 - 1)) }) }
    else db
  | none => db

/-- The flush-list removal of `dereference` and `cleaner.Put`. -/
def removeFromFlushList (hash : Hash) (node : CachedNode) : Database :=
  if hash = db.oldest then
    { db with
      oldest := node.flushNext
      dirties := db.dirties.update node.flushNext (fun n => { n with flushPrev := 0 }) }
  else if hash = db.newest then
    { db with
      newest := node.flushPrev
      dirties := db.dirties.update node.flushPrev (fun n => { n with flushNext := 0 }) }
  else
    { db with
      dirties := (db.dirties.update node.flushPrev (fun n => { n with flushNext := node.flushNext })).update
        node.flushNext (fun n => { n with flushPrev := node.flushPrev }) }

end Operations

/-- `dereference`: the reference from `parent` to `child` goes; a child left
without parents leaves the flush-list, dereferences its own children and is
deleted. `none` when the fuel, a bound on the depth, runs out. -/
def dereference : Nat → Hash → Hash → Database → Option Database
  | 0, _, _, _ => none
  | fuel + 1, child, parent, db =>
    let db := db.unrefChild parent child
    match db.dirties.find? child with
    | none => some db
    | some node =>
      -- a node reinjected from disk may have no parents: they do not wrap around
      let node := { node with parents := if node.parents > 0 then node.parents - 1 else 0 }
      let db := { db with dirties := db.dirties.insert child node }
      if node.parents = 0 then
        let db := db.removeFromFlushList child node
        match node.forChilds.foldlM (fun db hash => dereference fuel hash child db) db with
        | none => none
        | some db =>
          some
            { db with
              dirties := db.dirties.erase child
              dirtiesSize := db.dirtiesSize - (hashLength + node.size : Nat)
              childrenSize := db.childrenSize -
                (if node.children.isSome then cachedNodeChildrenSize else 0 : Nat) }
      else some db

/-- `Dereference`: the meta-root is never dereferenced. -/
def Dereference (root : Hash) (db : Database) : Option Database :=
  if root = 0 then some db else dereference (db.dirties.size + 1) root 0 db

/-- The flush loop of `Cap`: the nodes written to the batch, oldest first,
while the size estimate is above the limit and the flush-list goes on, and
the node it stopped at. -/
def capFlush (cachedNodeSize : Nat) (db : Database) (limit : Int) :
    Nat → Int → Hash → Option (List Hash × Hash)
  | 0, _, _ => none
  | fuel + 1, size, oldest =>
    if size > limit ∧ oldest ≠ 0 then
      match db.dirties.find? oldest with
      | none => none
      | some node =>
        let size := size - (hashLength + node.size + cachedNodeSize : Nat) - (node.childWeight : Nat)
        (fun r => (oldest :: r.1, r.2)) <$> capFlush cachedNodeSize db limit fuel size node.flushNext
    else some ([], oldest)

/-- The uncache loop of `Cap`: the flushed nodes leave the cache, oldest first. -/
def capUncache : Nat → Hash → Database → Option Database
  | 0, _, _ => none
  | fuel + 1, oldest, db =>
    if db.oldest ≠ oldest then
      match db.dirties.find? db.oldest with
      | none => none
      | some node =>
        capUncache fuel oldest
          { db with
            dirties := db.dirties.erase db.oldest
            oldest := node.flushNext
            dirtiesSize := db.dirtiesSize - (hashLength + node.size : Nat)
            childrenSize := db.childrenSize - (node.childWeight : Nat) }
    else some db

/-- `Cap`, on a platform whose `cachedNode` takes `cachedNodeSize` bytes:
flush the oldest nodes until the estimated memory is within `limit`, then
uncache them. -/
def Cap (cachedNodeSize : Nat) (limit : Int) (db : Database) : Option Database := do
  let metarootRefs := ((db.dirties.find? 0).bind CachedNode.children |>.map KeyMap.size).getD 0
  let size := db.dirtiesSize + ((db.dirties.size : Int) - 1) * cachedNodeSize + db.childrenSize -
    (metarootRefs * (hashLength + 2) : Nat)
  let (_, oldest) ← capFlush cachedNodeSize db limit (db.dirties.size + 1) size db.oldest
  let db ← capUncache (db.dirties.size + 1) oldest db
  if db.oldest ≠ 0 then
    pure { db with dirties := db.dirties.update db.oldest (fun n => { n with flushPrev := 0 }) }
  else pure db

/-- `cleaner.Put`: a node written to disk leaves the flush-list and the cache. -/
def cleanerPut (db : Database) (hash : Hash) : Database :=
  match db.dirties.find? hash with
  | none => db
  | some node =>
    let db := db.removeFromFlushList hash node
    let db :=
      { db with
        dirties := db.dirties.erase hash
        dirtiesSize := db.dirtiesSize - (hashLength + node.size : Nat) }
    match node.children with
    | some m => { db with dirtiesSize := db.dirtiesSize -
        (cachedNodeChildrenSize + m.size * (hashLength + 2) : Nat) }
    | none => db

def replay (db : Database) (batch : List Hash) : Database := batch.foldl cleanerPut db

/-- `commit`: the children first, then the node into the batch; a batch of
`IdealBatchSize` bytes is written and replayed. `rlpSize` is the length of
the blob behind a hash. -/
def commit (rlpSize : Hash → Nat) : Nat → Hash → Database × List Hash → Option (Database × List Hash)
  | 0, _, _ => none
  | fuel + 1, hash, (db, batch) =>
    match db.dirties.find? hash with
    | none => some (db, batch)
    | some node =>
      match node.forChilds.foldlM (fun st child => commit rlpSize fuel child st) (db, batch) with
      | none => none
      | some (db, batch) =>
        let batch := batch ++ [hash]
        if (batch.map rlpSize).sum ≥ idealBatchSize then some (replay db batch, [])
        else some (db, batch)

/-- `Commit`: commit `node` and replay what is left in the batch. -/
def Commit (rlpSize : Hash → Nat) (node : Hash) (db : Database) : Option Database :=
  (fun st => replay st.1 st.2) <$> commit rlpSize (db.dirties.size + 1) node (db, [])

end Database

/-! ## What the counters count -/

/-- The bytes `dirtiesSize` counts for a node: its hash and its data. -/
def CachedNode.dirtyWeight (n : CachedNode) : Nat := hashLength + n.size

/-- What the counters and the references read of a node: all but its
parents and its flush-list neighbours. -/
def CachedNode.tracked (n : CachedNode) : Nat × Option (KeyMap Hash Nat) × List Hash :=
  (n.size, n.children, n.node)

/-- The bytes of all cached nodes, the meta-root's included. -/
def dirtySum (d : KeyMap Hash CachedNode) : Nat := (d.values.map CachedNode.dirtyWeight).sum

/-- The bytes of all children maps, the meta-root's included. -/
def childSum (d : KeyMap Hash CachedNode) : Nat := (d.values.map CachedNode.childWeight).sum

/-- The meta-root is cached, with no data and with its children map. -/
def MetaRoot (d : KeyMap Hash CachedNode) : Prop :=
  ∃ n, d.find? 0 = some n ∧ n.size = 0 ∧ n.children.isSome

/-- **The counters read what they count**, but for `drift` bytes of children
maps debited from `dirtiesSize` in place of `childrenSize`. The meta-root is
counted in neither, its hash and its map; the entries of its map are, as
`Size` expects when it subtracts them. -/
structure Accounted (drift : Int) (db : Database) : Prop where
  metaRoot : MetaRoot db.dirties
  dirties_eq : db.dirtiesSize + hashLength + drift = dirtySum db.dirties
  children_eq : db.childrenSize + cachedNodeChildrenSize = childSum db.dirties + drift

section Sums

variable {d : KeyMap Hash CachedNode} {k : Hash} {n : CachedNode} {f : CachedNode → CachedNode}

theorem dirtyWeight_eq_of_tracked {a b : CachedNode} (h : a.tracked = b.tracked) :
    a.dirtyWeight = b.dirtyWeight := by
  simp only [CachedNode.tracked, Prod.mk.injEq] at h
  simp [CachedNode.dirtyWeight, h.1]

theorem childWeight_eq_of_tracked {a b : CachedNode} (h : a.tracked = b.tracked) :
    a.childWeight = b.childWeight := by
  simp only [CachedNode.tracked, Prod.mk.injEq] at h
  simp [CachedNode.childWeight, h.2.1]

theorem dirtySum_update_of_tracked (hf : ∀ n, (f n).tracked = n.tracked) (d : KeyMap Hash CachedNode)
    (k : Hash) : dirtySum (d.update k f) = dirtySum d :=
  KeyMap.sum_values_update_of_eq _ d k fun n => dirtyWeight_eq_of_tracked (hf n)

theorem childSum_update_of_tracked (hf : ∀ n, (f n).tracked = n.tracked) (d : KeyMap Hash CachedNode)
    (k : Hash) : childSum (d.update k f) = childSum d :=
  KeyMap.sum_values_update_of_eq _ d k fun n => childWeight_eq_of_tracked (hf n)

theorem dirtySum_erase (h : d.find? k = some n) : dirtySum (d.erase k) + n.dirtyWeight = dirtySum d :=
  KeyMap.sum_values_erase _ h

theorem childSum_erase (h : d.find? k = some n) : childSum (d.erase k) + n.childWeight = childSum d :=
  KeyMap.sum_values_erase _ h

theorem MetaRoot.update_of_tracked (h : MetaRoot d) (hf : ∀ n, (f n).tracked = n.tracked) (k : Hash) :
    MetaRoot (d.update k f) := by
  obtain ⟨m, hm, hs, hc⟩ := h
  rw [MetaRoot, KeyMap.find?_update]
  by_cases hk : (0 : Hash) = k
  · subst hk
    have hfm := hf m
    simp only [CachedNode.tracked, Prod.mk.injEq] at hfm
    exact ⟨f m, by simp [hm], by rw [hfm.1, hs], by rw [hfm.2.1]; exact hc⟩
  · rw [if_neg hk]
    exact ⟨m, hm, hs, hc⟩

theorem MetaRoot.erase (h : MetaRoot d) (hk : k ≠ 0) : MetaRoot (d.erase k) := by
  obtain ⟨m, hm, hs, hc⟩ := h
  refine ⟨m, ?_, hs, hc⟩
  rw [KeyMap.find?_erase, if_neg (Ne.symm hk), hm]

theorem MetaRoot.insert (h : MetaRoot d) (hk : k ≠ 0) (e : CachedNode) : MetaRoot (d.insert k e) := by
  obtain ⟨m, hm, hs, hc⟩ := h
  refine ⟨m, ?_, hs, hc⟩
  rw [KeyMap.find?_insert_of_ne _ _ (Ne.symm hk), hm]

/-- Updates that keep what is tracked keep an accounted database accounted. -/
theorem Accounted.update_of_tracked {drift : Int} {db : Database} (h : Accounted drift db)
    (hf : ∀ n, (f n).tracked = n.tracked) (k : Hash) :
    Accounted drift { db with dirties := db.dirties.update k f } where
  metaRoot := h.metaRoot.update_of_tracked hf k
  dirties_eq := by rw [dirtySum_update_of_tracked hf]; exact h.dirties_eq
  children_eq := by rw [childSum_update_of_tracked hf]; exact h.children_eq

/-- The counters read only the dirty map and themselves. -/
theorem Accounted.congr {drift : Int} {db db' : Database} (h : Accounted drift db)
    (hd : db'.dirties = db.dirties) (hs : db'.dirtiesSize = db.dirtiesSize)
    (hc : db'.childrenSize = db.childrenSize) : Accounted drift db' where
  metaRoot := hd ▸ h.metaRoot
  dirties_eq := by rw [hd, hs]; exact h.dirties_eq
  children_eq := by rw [hd, hc]; exact h.children_eq

theorem Accounted.add_parent {drift : Int} {db : Database} (h : Accounted drift db) (c : Hash) :
    Accounted drift { db with dirties := addParent db.dirties c } :=
  h.update_of_tracked (f := fun n => { n with parents := (n.parents + 1) % 2 ^ 32 }) (fun _ => rfl) c

theorem Accounted.foldl_addParent {drift : Int} :
    ∀ (l : List Hash) {db : Database}, Accounted drift db →
      Accounted drift { db with dirties := l.foldl addParent db.dirties }
  | [], _, h => h
  | c :: l, _, h => Accounted.foldl_addParent l (h.add_parent c)

theorem tracked_find?_update (hf : ∀ n, (f n).tracked = n.tracked) (d : KeyMap Hash CachedNode)
    (c k : Hash) : ((d.update c f).find? k).map CachedNode.tracked = (d.find? k).map CachedNode.tracked := by
  rw [KeyMap.find?_update]
  split_ifs with hk
  · subst hk
    cases d.find? k <;> simp [hf]
  · rfl

theorem exists_find?_of_tracked {d' : KeyMap Hash CachedNode}
    (h : (d'.find? k).map CachedNode.tracked = (d.find? k).map CachedNode.tracked)
    (hn : d.find? k = some n) : ∃ n', d'.find? k = some n' ∧ n'.size = n.size ∧ n'.children = n.children := by
  rw [hn] at h
  cases hk : d'.find? k with
  | none => rw [hk] at h; cases h
  | some n' =>
    rw [hk] at h
    simp only [Option.map_some, Option.some.injEq, CachedNode.tracked, Prod.mk.injEq] at h
    exact ⟨n', rfl, h.1, h.2.1⟩

theorem MetaRoot.update (h : MetaRoot d) (hs : ∀ n, (f n).size = n.size)
    (hc : ∀ n, n.children.isSome → (f n).children.isSome) (k : Hash) : MetaRoot (d.update k f) := by
  obtain ⟨m, hm, hms, hmc⟩ := h
  rw [MetaRoot, KeyMap.find?_update]
  by_cases hk : (0 : Hash) = k
  · subst hk
    exact ⟨f m, by simp [hm], by rw [hs, hms], hc m hmc⟩
  · rw [if_neg hk]
    exact ⟨m, hm, hms, hmc⟩

theorem tracked_find?_addParent (d : KeyMap Hash CachedNode) (c k : Hash) :
    ((addParent d c).find? k).map CachedNode.tracked = (d.find? k).map CachedNode.tracked :=
  tracked_find?_update (f := fun n => { n with parents := (n.parents + 1) % 2 ^ 32 }) (fun _ => rfl) d c k

end Sums

/-! ## The operations keep the counters exact -/

section Exact

variable {drift : Int} {db : Database}

end Exact

section Uncache

variable {drift : Int} {db : Database}

/-- However the children maps' bytes are split between the counters, their
sum is exact. -/
theorem Accounted.total (h : Accounted drift db) :
    db.dirtiesSize + db.childrenSize + hashLength + cachedNodeChildrenSize =
      dirtySum db.dirties + childSum db.dirties := by
  have hd := h.dirties_eq
  have hc := h.children_eq
  omega

/-- Leaving the flush-list touches only neighbours, which no counter reads. -/
theorem Accounted.removeFromFlushList (h : Accounted drift db) (hash : Hash) (node : CachedNode) :
    Accounted drift (db.removeFromFlushList hash node) := by
  unfold Database.removeFromFlushList
  split_ifs
  · exact (h.update_of_tracked (f := fun n => { n with flushPrev := 0 }) (fun _ => rfl) _).congr rfl rfl rfl
  · exact (h.update_of_tracked (f := fun n => { n with flushNext := 0 }) (fun _ => rfl) _).congr rfl rfl rfl
  · exact ((h.update_of_tracked (f := fun n => { n with flushNext := node.flushNext }) (fun _ => rfl) _
      ).update_of_tracked (f := fun n => { n with flushPrev := node.flushPrev }) (fun _ => rfl) _).congr
        rfl rfl rfl

/-- Uncaching a node other than the meta-root: its bytes come off
`dirtiesSize`, and of its map's bytes `a` off `dirtiesSize` and `b` off
`childrenSize`; what went to the wrong counter is drift. -/
theorem Accounted.erase (h : Accounted drift db) {k : Hash} {n : CachedNode} (hk : k ≠ 0)
    (hn : db.dirties.find? k = some n) (a b : Nat) (hab : a + b = n.childWeight) :
    Accounted (drift + a)
      { db with
        dirties := db.dirties.erase k
        dirtiesSize := db.dirtiesSize - n.dirtyWeight - a
        childrenSize := db.childrenSize - b } where
  metaRoot := h.metaRoot.erase hk
  dirties_eq := by
    have hd := h.dirties_eq
    have hs := dirtySum_erase hn
    dsimp only
    omega
  children_eq := by
    have hc := h.children_eq
    have hs := childSum_erase hn
    dsimp only
    omega

/-- **`Commit` drives `dirtiesSize` below zero.** Cache a node `1` and a
node `2`, reference `2` from `1`, and commit `1`: both nodes are written and
uncached, only the meta-root is left, and yet `dirtiesSize` is `-82` and
`childrenSize` `82`, the bytes of `1`'s children map debited from the wrong
counter. -/
theorem commit_leaves_dirtiesSize_negative :
    ∃ db, (((newDatabase.insert 1 10 []).insert 2 20 []).reference 2 1).Commit (fun _ => 1) 1 = some db ∧
      db.dirties.keys = [0] ∧ db.dirtiesSize = -82 ∧ db.childrenSize = 82 := by
  have hrun : ((((newDatabase.insert 1 10 []).insert 2 20 []).reference 2 1).Commit (fun _ => 1) 1).map
      (fun db => (db.dirties.keys, db.dirtiesSize, db.childrenSize)) = some ([0], -82, 82) := by
    decide
  obtain ⟨db, hdb, hkeys⟩ := Option.map_eq_some_iff.mp hrun
  simp only [Prod.mk.injEq] at hkeys
  exact ⟨db, hdb, hkeys.1, hkeys.2.1, hkeys.2.2⟩

end Uncache

/-! ## Runs of `insert`, `reference` and the cleaner

The counters stay exact over every run from `newDatabase`, up to the drift
the cleaner makes, as long as no count of a children map wraps: `reference`
bumps a `uint16` count, and only the meta-root's map counts a child twice, so
a run of fewer than `2 ^ 16 - 1` references cannot wrap one. -/

section Runs

variable {n : Nat} {d d' : KeyMap Hash CachedNode}

/-- Every count of a children map is positive and at most `n`. -/
def CountsLe (n : Nat) (d : KeyMap Hash CachedNode) : Prop :=
  ∀ p node m c v, d.find? p = some node → node.children = some m → m.find? c = some v → 0 < v ∧ v ≤ n

theorem CountsLe.mono (h : CountsLe n d) {n' : Nat} (hle : n ≤ n') : CountsLe n' d := by
  intro p node m c v hp hm hv
  have := h p node m c v hp hm hv
  omega

/-- A cache whose entries carry the children maps of `d` has its counts. -/
theorem CountsLe.of_tracked (h : CountsLe n d)
    (ht : ∀ k, (d'.find? k).map CachedNode.tracked = (d.find? k).map CachedNode.tracked) : CountsLe n d' := by
  intro p node' m c v hp hm hv
  obtain ⟨node, hd, -, hc⟩ := exists_find?_of_tracked (ht p).symm hp
  exact h p node m c v hd (hc ▸ hm) hv

theorem CountsLe.erase (h : CountsLe n d) (k : Hash) : CountsLe n (d.erase k) := by
  intro p node m c v hp hm hv
  rw [KeyMap.find?_erase] at hp
  split_ifs at hp
  exact h p node m c v hp hm hv

theorem CountsLe.foldl_addParent : ∀ (l : List Hash) {d : KeyMap Hash CachedNode}, CountsLe n d →
    CountsLe n (l.foldl addParent d)
  | [], _, h => h
  | c :: l, _, h => CountsLe.foldl_addParent l (h.of_tracked (tracked_find?_addParent _ c))

variable {db : Database}

/-- The operations of a run: `insert`, `Reference` and the replay of a
written batch into the cleaner. -/
inductive Op where
  | insert (hash : Hash) (size : Nat) (node : List Hash)
  | reference (child parent : Hash)
  | replay (batch : List Hash)

def Database.step (db : Database) : Op → Database
  | .insert hash size node => db.insert hash size node
  | .reference child parent => db.reference child parent
  | .replay batch => db.replay batch

def Database.run (db : Database) (ops : List Op) : Database := ops.foldl Database.step db

end Runs

end Xdchain.Trie.DirtyCache
