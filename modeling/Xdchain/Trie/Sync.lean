import Xdchain.Lib.KeyMap
import Xdchain.Lib.ErrState
import Mathlib.Data.List.Count

/-! # The trie sync scheduler

`trie/sync.go`. A `Sync` downloads a trie top down: `Missing` hands out the
hashes of the nodes and codes still unknown, `Process` takes a node or code
delivered for one of them, and `Commit` flushes what is complete to the
database. A request waits in `nodeReqs` or `codeReqs` until every entry it
references is stored; `deps` counts the references still pending, and a
committed request releases its `parents`, which commit in turn when their
count reaches zero.

Requests are referred to by their hash, as `nodeReqs` keys them; Go holds
pointers, and the two agree because a request is deleted only once nothing
refers to it (`Inv.parents_filled`). The node codec `decodeNode` and the
leaf callback are parameters: the callback of state sync decodes an account
and registers its storage trie and its code, so a callback here returns the
entries it registers, or `none` for its error. The bloom filter is its
`Contains` answers. The priority queue is a list kept in priority order,
first come first served among equal priorities. -/

namespace Xdchain.Trie

open Xdchain.Lib

/-- `common.Hash`; the zero hash stands for "no parent". -/
abbrev Hash := Nat

/-- `emptyRoot`, the root of the empty trie. -/
def emptyRoot : Hash := 0x56e81f171bcc55a6ff8345e692c0f86e5b48e01b996cadc001622fb5e363b421

/-- `emptyState`, the hash of the empty code. -/
def emptyState : Hash := 0xc5d2460186f7233c927e7db2dcc703c0e500b653ca82273b7bfad8045d85a470

def maxFetchesPerDepth : Int := 16384

/-- The node kinds of `trie/node.go`, as `decodeNode` returns them. -/
inductive Node where
  | shortNode (key : List UInt8) (val : Node)
  | fullNode (children : List (Option Node))
  | hashNode (hash : Hash)
  | valueNode (value : List UInt8)

def hasTerm (s : List UInt8) : Bool := s.getLast? == some 16

def decodeNibbles : List UInt8 → List UInt8
  | a :: b :: rest => (a <<< 4 ||| b) :: decodeNibbles rest
  | _ => []

def hexToCompact (hex : List UInt8) : List UInt8 :=
  let terminator : UInt8 := if hasTerm hex then 1 else 0
  let hex := if hasTerm hex then hex.dropLast else hex
  if hex.length % 2 = 1 then
    (terminator <<< 5 ||| (1 : UInt8) <<< 4 ||| hex.headD 0) :: decodeNibbles hex.tail
  else (terminator <<< 5) :: decodeNibbles hex

/-- The panics of the scheduler and of the encoders it calls. -/
inductive Panic where
  | subTrieAncestorNotFound (parent : Hash)
  | rawEntryAncestorNotFound (parent : Hash)
  | unknownNode
  | oddHexKey
  | nilBloom
deriving DecidableEq, Repr

def hexToKeybytes (hex : List UInt8) : Except Panic (List UInt8) :=
  let hex := if hasTerm hex then hex.dropLast else hex
  if hex.length % 2 ≠ 0 then .error .oddHexKey
  else .ok (decodeNibbles hex)

abbrev SyncPath := List (List UInt8)

def newSyncPath (path : List UInt8) : Except Panic SyncPath :=
  if path.length < 64 then .ok [hexToCompact path]
  else do
    let key ← hexToKeybytes (path.take 64)
    pure [key, hexToCompact (path.drop 64)]

/-- The errors `Process` returns. -/
inductive SyncError where
  | notRequested
  | alreadyProcessed
  | decode
  | callback
deriving DecidableEq, Repr

/-- What a leaf callback registers: a storage trie or a contract code. -/
inductive Entry where
  | subTrie (root : Hash)
  | code (hash : Hash)
deriving DecidableEq, Repr

/-- `LeafCallback` on a leaf's path and value: the entries it registers
under the leaf's node, or `none` for its error. -/
abbrev LeafCallback := List UInt8 → List UInt8 → Option (List Entry)

structure Request where
  path : List UInt8
  hash : Hash
  data : Option (List UInt8)
  code : Bool
  parents : List Hash
  deps : Int
  callback : Bool
deriving DecidableEq, Repr

structure SyncResult where
  hash : Hash
  data : List UInt8
deriving DecidableEq, Repr

/-- The persistent database, read through `rawdb.ReadTrieNode` and
`rawdb.ReadCodeWithPrefix`; an absent key reads as the empty blob. -/
structure Database where
  nodes : Hash → List UInt8
  codes : Hash → List UInt8

structure SyncMemBatch where
  nodes : KeyMap Hash (List UInt8)
  codes : KeyMap Hash (List UInt8)
deriving DecidableEq

def newSyncMemBatch : SyncMemBatch := ⟨.empty, .empty⟩

def SyncMemBatch.hasNode (batch : SyncMemBatch) (hash : Hash) : Bool := (batch.nodes.find? hash).isSome

def SyncMemBatch.hasCode (batch : SyncMemBatch) (hash : Hash) : Bool := (batch.codes.find? hash).isSome

structure Sync where
  database : Database
  membatch : SyncMemBatch
  nodeReqs : KeyMap Hash Request
  codeReqs : KeyMap Hash Request
  queue : List (Hash × Int)
  fetches : Int → Int
  bloom : Option (Hash → Bool)

namespace Sync

/-- `s.bloom == nil || s.bloom.Contains(hash)`: the database is asked. -/
def mayContain (s : Sync) (hash : Hash) : Bool := s.bloom.all fun contains => contains hash

/-- The request set of a kind, `codeReqs` or `nodeReqs`. -/
def reqset (s : Sync) (code : Bool) : KeyMap Hash Request := if code then s.codeReqs else s.nodeReqs

def setReqset (s : Sync) (code : Bool) (m : KeyMap Hash Request) : Sync :=
  if code then { s with codeReqs := m } else { s with nodeReqs := m }

def setNodeReq (s : Sync) (hash : Hash) (req : Request) : Sync :=
  { s with nodeReqs := s.nodeReqs.insert hash req }

end Sync

/-- `prque.Push`: after every item of at least the same priority. -/
def push (hash : Hash) (prio : Int) : List (Hash × Int) → List (Hash × Int)
  | [] => [(hash, prio)]
  | item :: queue => if item.2 < prio then (hash, prio) :: item :: queue else item :: push hash prio queue

/-- The priority `schedule` gives a path: its length in the top byte, then
the first fourteen nibbles, each inverted, in `int64`. -/
def prio (path : List UInt8) : Int :=
  Int.bmod ((path.length <<< 56 ||| ((path.take 14).zipIdx.map fun (b, i) => (15 - b).toNat <<< (52 - i * 4)).foldl
    (· ||| ·) 0 : Nat) : Int) (2 ^ 64)

namespace Sync

/-- `schedule`: a second request for a hash only adds its parents to the
first one; a new request is queued. -/
def schedule (s : Sync) (req : Request) : Sync :=
  match (s.reqset req.code).find? req.hash with
  | some old => s.setReqset req.code ((s.reqset req.code).insert req.hash { old with parents := old.parents ++ req.parents })
  | none => { s.setReqset req.code ((s.reqset req.code).insert req.hash req) with queue := push req.hash (prio req.path) s.queue }

def scheduleAll (s : Sync) (requests : List Request) : Sync := requests.foldl schedule s

/-- The body `AddSubTrie` and `AddCodeEntry` share: nothing for an empty or
known entry; otherwise the request counts in its parent's `deps` and is
scheduled. -/
def addEntry (s : Sync) (empty : Hash) (known : Bool) (req : Request) (parent : Hash) (missing : Panic) :
    Except Panic Sync :=
  if req.hash = empty then .ok s
  else if known then .ok s
  else if parent ≠ 0 then
    match s.nodeReqs.find? parent with
    | none => .error missing
    | some ancestor =>
      .ok ((s.setNodeReq parent { ancestor with deps := ancestor.deps + 1 }).schedule { req with parents := [parent] })
  else .ok (s.schedule req)

def AddSubTrie (s : Sync) (root : Hash) (path : List UInt8) (parent : Hash) (callback : Bool) : Except Panic Sync :=
  s.addEntry emptyRoot (s.membatch.hasNode root || (s.mayContain root && !(s.database.nodes root).isEmpty))
    { path, hash := root, data := none, code := false, parents := [], deps := 0, callback } parent
    (.subTrieAncestorNotFound parent)

def AddCodeEntry (s : Sync) (hash : Hash) (path : List UInt8) (parent : Hash) : Except Panic Sync :=
  s.addEntry emptyState (s.membatch.hasCode hash || (s.mayContain hash && !(s.database.codes hash).isEmpty))
    { path, hash, data := none, code := true, parents := [], deps := 0, callback := false } parent
    (.rawEntryAncestorNotFound parent)

/-- The callback's `AddSubTrie` and `AddCodeEntry` calls for one leaf. -/
def register (path : List UInt8) (parent : Hash) : Sync → List Entry → Except Panic Sync
  | s, [] => .ok s
  | s, .subTrie root :: entries => do
    let s ← s.AddSubTrie root path parent false
    register path parent s entries
  | s, .code hash :: entries => do
    let s ← s.AddCodeEntry hash path parent
    register path parent s entries

end Sync

/-- The children `children` gathers, each with its path; `none` for a node
that is neither short nor full, where `children` panics. -/
def childrenOf (path : List UInt8) : Node → Option (List (List UInt8 × Node))
  | .shortNode key val => some [(path ++ (if hasTerm key then key.dropLast else key), val)]
  | .fullNode children =>
    some ((children.take 17).zipIdx.filterMap fun (child, i) => child.map fun node => (path ++ [i.toUInt8], node))
  | _ => none

namespace Sync

section Callback

variable (onLeaf : LeafCallback)

/-- The loop of `children`: a value child goes to the leaf callback, a hash
child that is not stored becomes a request. Returns the requests, or `none`
for the callback's error, with the entries the callback registered. -/
def childrenLoop (req : Request) :
    Sync → List (List UInt8 × Node) → List Request → List Entry →
      Except Panic (Sync × Option (List Request) × List Entry)
  | s, [], requests, regs => .ok (s, some requests, regs)
  | s, (path, node) :: children, requests, regs =>
    match node with
    | .valueNode leaf =>
      if req.callback then
        match onLeaf path leaf with
        | none => .ok (s, none, regs)
        | some entries => do
          let s ← s.register path req.hash entries
          childrenLoop req s children requests (regs ++ entries)
      else childrenLoop req s children requests regs
    | .hashNode hash =>
      if s.membatch.hasNode hash || (s.mayContain hash && !(s.database.nodes hash).isEmpty) then
        childrenLoop req s children requests regs
      else
        childrenLoop req s children
          (requests ++ [{ path, hash, data := none, code := false, parents := [req.hash], deps := 0,
                          callback := req.callback }]) regs
    | _ => childrenLoop req s children requests regs

end Callback

/-- The first half of `commit`: the request's data goes to the membatch and
the request leaves its set. -/
def writeReq (s : Sync) (req : Request) : Sync :=
  let fetches := Function.update s.fetches req.path.length (s.fetches req.path.length - 1)
  if req.code then
    { s with membatch := { s.membatch with codes := s.membatch.codes.insert req.hash (req.data.getD []) },
             codeReqs := s.codeReqs.erase req.hash, fetches }
  else
    { s with membatch := { s.membatch with nodes := s.membatch.nodes.insert req.hash (req.data.getD []) },
             nodeReqs := s.nodeReqs.erase req.hash, fetches }

/-- The second half of `commit`, its loop over the parents, with the
recursive `commit` of a parent whose `deps` reaches zero unrolled: the
parents still to be notified form a stack. `fuel` bounds the iterations;
`commitFuel` is always enough (`releaseParents_fuel`). -/
def releaseParents : Nat → Sync → List Hash → Sync
  | 0, s, _ => s
  | _ + 1, s, [] => s
  | fuel + 1, s, p :: ps =>
    match s.nodeReqs.find? p with
    | none => releaseParents fuel s ps
    | some parent =>
      let parent := { parent with deps := parent.deps - 1 }
      if parent.deps = 0 then releaseParents fuel (s.writeReq parent) (parent.parents ++ ps)
      else releaseParents fuel (s.setNodeReq p parent) ps

/-- A bound on the iterations of `releaseParents`: each one drops a parent
from the stack or a request from `nodeReqs`. -/
def commitFuel (s : Sync) (req : Request) : Nat :=
  req.parents.length + (s.nodeReqs.values.map fun r => r.parents.length + 1).sum

def commit (s : Sync) (req : Request) : Sync :=
  (s.writeReq req).releaseParents (s.commitFuel req) req.parents

section Process

variable (decodeNode : List UInt8 → Option Node) (onLeaf : LeafCallback)

/-- `Process`, with the entries the leaf callback registered on the way. -/
def Process (s : Sync) (result : SyncResult) : Except Panic (Sync × Option SyncError × List Entry) :=
  if s.nodeReqs.find? result.hash = none ∧ s.codeReqs.find? result.hash = none then
    .ok (s, some .notRequested, [])
  else
    -- a pending code request is committed at once
    let (s, filled) : Sync × Bool :=
      match s.codeReqs.find? result.hash with
      | some req => if req.data = none then (s.commit { req with data := some result.data }, true) else (s, false)
      | none => (s, false)
    let unfilled : Option SyncError := if filled then none else some .alreadyProcessed
    match s.nodeReqs.find? result.hash with
    | some req =>
      if req.data = none then
        match decodeNode result.data with
        | none => .ok (s, some .decode, [])
        | some node =>
          let req := { req with data := some result.data }
          match childrenOf req.path node with
          | none => .error .unknownNode
          | some children => do
            let (s, requests, regs) ← childrenLoop onLeaf req (s.setNodeReq result.hash req) children [] []
            match requests with
            | none => pure (s, some .callback, regs)
            | some requests =>
              -- the callback's registrations have raised the stored request's `deps`
              let req := (s.nodeReqs.find? result.hash).getD req
              if requests = [] ∧ req.deps = 0 then pure (s.commit req, none, regs)
              else
                pure ((s.setNodeReq result.hash { req with deps := req.deps + requests.length }).scheduleAll requests,
                  none, regs)
      else .ok (s, unfilled, [])
    | none => .ok (s, unfilled, [])

end Process

/-- The database after a batch of writes. -/
def writeEntries (db : Hash → List UInt8) (m : KeyMap Hash (List UInt8)) : Hash → List UInt8 :=
  m.entries.foldl (fun db e => Function.update db e.1 e.2) db

/-- `Commit`, with the batch written to the database. Without a bloom
filter the first entry's `s.bloom.Add` dereferences nil. -/
def Commit (s : Sync) : Except Panic Sync :=
  match s.bloom with
  | none =>
    if s.membatch.nodes.size = 0 ∧ s.membatch.codes.size = 0 then .ok { s with membatch := newSyncMemBatch }
    else .error .nilBloom
  | some contains =>
    .ok { s with
      database := ⟨writeEntries s.database.nodes s.membatch.nodes, writeEntries s.database.codes s.membatch.codes⟩,
      membatch := newSyncMemBatch,
      bloom := some fun k => k ∈ s.membatch.nodes.keys || k ∈ s.membatch.codes.keys || contains k }

def Pending (s : Sync) : Nat := s.nodeReqs.size + s.codeReqs.size

/-- The loop of `Missing` over the queue, from its head. -/
def missingLoop (s : Sync) (max : Int) :
    List (Hash × Int) → (Int → Int) → List Hash → List SyncPath → List Hash →
      Except Panic (Sync × List Hash × List SyncPath × List Hash)
  | [], fetches, nodes, paths, codes => .ok ({ s with queue := [], fetches }, nodes, paths, codes)
  | (hash, prio) :: queue, fetches, nodes, paths, codes =>
    if max = 0 ∨ ((nodes.length + codes.length : Nat) : Int) < max then
      -- too many pending fetches at this depth throttle the whole loop
      if fetches (prio >>> 56) > maxFetchesPerDepth then
        .ok ({ s with queue := (hash, prio) :: queue, fetches }, nodes, paths, codes)
      else
        let fetches := Function.update fetches (prio >>> 56) (fetches (prio >>> 56) + 1)
        match s.nodeReqs.find? hash with
        | some req => do
          let path ← newSyncPath req.path
          missingLoop s max queue fetches (nodes ++ [hash]) (paths ++ [path]) codes
        | none => missingLoop s max queue fetches nodes paths (codes ++ [hash])
    else .ok ({ s with queue := (hash, prio) :: queue, fetches }, nodes, paths, codes)

def Missing (s : Sync) (max : Int) : Except Panic (Sync × List Hash × List SyncPath × List Hash) :=
  s.missingLoop max s.queue s.fetches [] [] []

end Sync

def NewSync (root : Hash) (database : Database) (callback : Bool) (bloom : Option (Hash → Bool)) :
    Except Panic Sync :=
  let ts : Sync := { database, membatch := newSyncMemBatch, nodeReqs := .empty, codeReqs := .empty, queue := [],
                     fetches := fun _ => 0, bloom }
  ts.AddSubTrie root [] 0 callback

end Xdchain.Trie

namespace Xdchain.Trie

open Xdchain.Lib

namespace Sync

/-- Without the leaf callback, a node with no hash child leaves the
scheduler as it is and asks for nothing. -/
theorem childrenLoop_of_leaves (onLeaf : LeafCallback) {req : Request} (hcb : req.callback = false)
    (s : Sync) (children : List (List UInt8 × Node)) (requests : List Request) (regs : List Entry)
    (hleaf : ∀ c ∈ children, ∀ h, c.2 ≠ .hashNode h) :
    childrenLoop onLeaf req s children requests regs = .ok (s, some requests, regs) := by
  induction children with
  | nil => rfl
  | cons child children ih =>
    obtain ⟨path, node⟩ := child
    have hrest := ih fun c hc => hleaf c (List.mem_cons_of_mem _ hc)
    cases node with
    | valueNode leaf => simpa [childrenLoop, hcb] using hrest
    | hashNode h => exact absurd rfl (hleaf _ List.mem_cons_self h)
    | shortNode key val => simpa [childrenLoop] using hrest
    | fullNode cs => simpa [childrenLoop] using hrest

/-- `Process` of a node request whose node refers to nothing: the request
is filled and committed at once. -/
theorem Process_of_childless (decodeNode : List UInt8 → Option Node) (onLeaf : LeafCallback)
    {s : Sync} {result : SyncResult} {req : Request} {node : Node} {children : List (List UInt8 × Node)}
    (hreq : s.nodeReqs.find? result.hash = some req) (hcode : s.codeReqs.find? result.hash = none)
    (hdata : req.data = none) (hdeps : req.deps = 0) (hcb : req.callback = false)
    (hdec : decodeNode result.data = some node) (hch : childrenOf req.path node = some children)
    (hleaf : ∀ c ∈ children, ∀ h, c.2 ≠ .hashNode h) :
    s.Process decodeNode onLeaf result =
      .ok ((s.setNodeReq result.hash { req with data := some result.data }).commit
        { req with data := some result.data }, none, []) := by
  have hcb' : ({ req with data := some result.data } : Request).callback = false := hcb
  have hloop := childrenLoop_of_leaves onLeaf hcb'
    (s.setNodeReq result.hash { req with data := some result.data }) children [] [] hleaf
  unfold Process
  rw [if_neg (by simp [hreq])]
  simp only [hcode, hreq, hdata, hdec, hch, hloop, ErrState.ok_bind]
  simp [setNodeReq, KeyMap.find?_insert_self, hdeps]
  rfl

end Sync

/-- A database with nothing in it. -/
def emptyDatabase : Database := ⟨fun _ => [], fun _ => []⟩

/-- A leaf node: key `[16]` (the terminator alone), value `0x01`. -/
def leafBlob : List UInt8 := [0xc2, 0x20, 0x01]

/-- Syncing a storage trie of one leaf with no bloom filter: the root is
handed out, delivered and committed to the membatch, nothing is pending,
and the `Commit` that would write it dereferences the nil bloom, so the
database never gets the root. -/
theorem commit_without_bloom_loses_synced_root (decodeNode : List UInt8 → Option Node) (onLeaf : LeafCallback)
    (key value : List UInt8) (hdec : decodeNode leafBlob = some (.shortNode key (.valueNode value))) :
    ∃ s1 s2 s3 path, NewSync 1 emptyDatabase false none = .ok s1 ∧ s1.Missing 0 = .ok (s2, [1], [path], []) ∧
      s2.Process decodeNode onLeaf ⟨1, leafBlob⟩ = .ok (s3, none, []) ∧ s3.Pending = 0 ∧
      s3.Commit = .error .nilBloom ∧ s3.database.nodes 1 = [] := by
  let root : Request := { path := [], hash := 1, data := none, code := false, parents := [], deps := 0, callback := false }
  let s2 : Sync := { database := emptyDatabase, membatch := newSyncMemBatch, nodeReqs := KeyMap.empty.insert 1 root,
                     codeReqs := .empty, queue := [], fetches := Function.update (fun _ => 0) 0 1, bloom := none }
  have hproc := @Sync.Process_of_childless decodeNode onLeaf s2 ⟨1, leafBlob⟩ root _
    [([] ++ (if hasTerm key then key.dropLast else key), .valueNode value)]
    rfl rfl rfl rfl rfl hdec rfl (by simp)
  refine ⟨_, s2, _, [[0]], rfl, rfl, hproc, by decide, rfl, by decide⟩

theorem commit_without_bloom_loses_synced_root_at_leaf :
    (fun _ : List UInt8 => some (Node.shortNode [16] (.valueNode [1]))) leafBlob =
        some (.shortNode [16] (.valueNode [1])) ∧
      ∃ s1 s2 s3 path, NewSync 1 emptyDatabase false none = .ok s1 ∧ s1.Missing 0 = .ok (s2, [1], [path], []) ∧
        s2.Process (fun _ => some (.shortNode [16] (.valueNode [1]))) (fun _ _ => none) ⟨1, leafBlob⟩ =
          .ok (s3, none, []) ∧ s3.Pending = 0 ∧ s3.Commit = .error .nilBloom ∧ s3.database.nodes 1 = [] :=
  ⟨rfl, commit_without_bloom_loses_synced_root _ _ [16] [1] rfl⟩

end Xdchain.Trie
