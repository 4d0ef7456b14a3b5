import Xdchain.Discover.Table
import Xdchain.Netutil.Net

/-! # The bucket table

`p2p/discover/table.go`. The table keeps `nBuckets` buckets of nodes, each a
list of live entries, a list of replacements and a per-bucket
`DistinctNetSet` of their addresses, and one table-wide set over all buckets.
A node lives in the bucket of its log distance to the local node. The
operations are `addSeenNode`, `addVerifiedNode`, `delete` and the locked half
of `doRevalidate`; a run is any sequence of them from `newTable`.

The address sets are kept apart from the nodes: every path calls `addIP` and
`removeIP` itself. `delete` uncounts the address of a node the bucket does not
hold, and a replacement promoted to the entries is counted a second time. -/

namespace Xdchain.Discover.Buckets

open Xdchain.Netutil Xdchain.Discover.Table

def bucketSize : Nat := 16
def maxReplacements : Nat := 10
def hashBits : Nat := 256
def nBuckets : Nat := hashBits / 15
def bucketMinDistance : Nat := hashBits - nBuckets
def bucketIPLimit : Nat := 2
def bucketSubnet : Nat := 24
def tableIPLimit : Nat := 10
def tableSubnet : Nat := 24

instance : NeZero nBuckets := ⟨Nat.succ_ne_zero 16⟩

/-- The bit length of x, one bit at a time. -/
def len8 : Nat → Nat → Nat
  | 0, _ => 0
  | k + 1, x => if x = 0 then 0 else 1 + len8 k (x / 2)

def LeadingZeros8 (x : UInt8) : Nat := 8 - len8 8 x.toNat

/-- The loop of enode.LogDist: the leading zero bits of a ^ b. -/
def lzLoop : List UInt8 → List UInt8 → Nat
  | x :: xs, y :: ys => if x ^^^ y = 0 then 8 + lzLoop xs ys else LeadingZeros8 (x ^^^ y)
  | _, _ => 0

/-- enode.LogDist: the bit length of a ^ b. -/
def LogDist (a b : ID) : Nat := 32 * 8 - lzLoop a.toList b.toList

theorem LogDist_le (a b : ID) : LogDist a b ≤ hashBits := Nat.sub_le _ _

/-- bucketAtDistance, as an index into the buckets. -/
def bucketAtDistance (d : Nat) : Nat :=
  if d ≤ bucketMinDistance then 0 else d - bucketMinDistance - 1

theorem bucketAtDistance_lt {d : Nat} (h : d ≤ hashBits) : bucketAtDistance d < nBuckets := by
  unfold bucketAtDistance bucketMinDistance nBuckets hashBits at *
  split_ifs <;> omega

structure bucket where
  entries : List Node
  replacements : List Node
  ips : DistinctNetSet

/-- What the operations read and write of Table: the local node's ID, the
buckets, the table-wide address set and whether initialisation is done. -/
structure Table where
  self : ID
  buckets : Fin nBuckets → bucket
  ips : DistinctNetSet
  initDone : Bool

namespace Table

/-- Table.bucket: the bucket of an ID, by its log distance to self. -/
def bucket (tab : Table) (id : ID) : Fin nBuckets :=
  ⟨bucketAtDistance (LogDist tab.self id), bucketAtDistance_lt (LogDist_le tab.self id)⟩

/-- Write bucket bi back (the Go code mutates it through its pointer). -/
def setBucket (tab : Table) (bi : Fin nBuckets) (b : Buckets.bucket) : Table :=
  { tab with buckets := Function.update tab.buckets bi b }

/-- addIP: count ip in the table and in bucket bi; a LAN address is let in
uncounted and an empty one refused. -/
def addIP (tab : Table) (bi : Fin nBuckets) (ip : IP) : Bool × Table :=
  if ip.length = 0 then (false, tab)
  else if IsLAN ip then (true, tab)
  else
    let r := tab.ips.Add ip
    if !r.1 then (false, tab)
    else
      let b := tab.buckets bi
      let rb := b.ips.Add ip
      -- over the bucket's limit: take the address out of the table's set again
      if !rb.1 then (false, { tab with ips := r.2.Remove ip })
      else (true, { tab.setBucket bi { b with ips := rb.2 } with ips := r.2 })

def removeIP (tab : Table) (bi : Fin nBuckets) (ip : IP) : Table :=
  if IsLAN ip then tab
  else
    let b := tab.buckets bi
    { tab.setBucket bi { b with ips := b.ips.Remove ip } with ips := tab.ips.Remove ip }

end Table

def contains (ns : List Node) (id : ID) : Bool := ns.any fun n => decide (n.ID = id)

/-- pushNode: n in front, keeping at most max items; the item pushed out, if
any. Go appends a nil slot when there is room and shifts the list over it. -/
def pushNode (list : List Node) (n : Node) (max : Nat) : List Node × Option Node :=
  if list.length < max then (n :: list, none)
  else (n :: list.dropLast, list.getLast?)

/-- deleteNode: drop the first node with n's ID. -/
def deleteNode : List Node → Node → List Node
  | [], _ => []
  | m :: rest, n => if m.ID = n.ID then rest else m :: deleteNode rest n

namespace Table

/-- deleteInBucket: drop n from the entries and uncount its address. -/
def deleteInBucket (tab : Table) (bi : Fin nBuckets) (n : Node) : Table :=
  let b := tab.buckets bi
  (tab.setBucket bi { b with entries := deleteNode b.entries n }).removeIP bi n.IP

def addReplacement (tab : Table) (bi : Fin nBuckets) (n : Node) : Table :=
  if (tab.buckets bi).replacements.any (fun e => decide (e.ID = n.ID)) then tab
  else
    let r := tab.addIP bi n.IP
    if !r.1 then r.2
    else
      let b := r.2.buckets bi
      let p := pushNode b.replacements n maxReplacements
      let tab := r.2.setBucket bi { b with replacements := p.1 }
      match p.2 with
      | some removed => tab.removeIP bi removed.IP
      | none => tab

/-- replace: if last is still the last entry, put a replacement (the one
rand.Intn draws, here the i-th modulo their number) in its place, or delete it
when there is none. -/
def replace (tab : Table) (bi : Fin nBuckets) (last : Node) (i : Nat) : Table × Option Node :=
  let b := tab.buckets bi
  match b.entries.getLast? with
  | none => (tab, none)
  | some e =>
    if e.ID ≠ last.ID then (tab, none)
    else if h : b.replacements.length = 0 then (tab.deleteInBucket bi last, none)
    else
      let r := b.replacements.get ⟨i % b.replacements.length, Nat.mod_lt _ (Nat.pos_of_ne_zero h)⟩
      let tab := tab.setBucket bi
        { b with replacements := deleteNode b.replacements r
                 entries := b.entries.set (b.entries.length - 1) r }
      (tab.removeIP bi last.IP, some r)

/-- bumpInBucket: move the entry with n's ID to the front as n, first moving
its count to n's address when that changed; the move is refused when n's
address does not fit, and the old address is counted again. -/
def bumpInBucket (tab : Table) (bi : Fin nBuckets) (n : Node) : Bool × Table :=
  let b := tab.buckets bi
  match b.entries.findFinIdx? (fun e => decide (e.ID = n.ID)) with
  | none => (false, tab)
  | some i =>
    let e := b.entries.get i
    -- copy(b.entries[1:], b.entries[:i]); b.entries[0] = n
    let front := fun (t : Table) =>
      t.setBucket bi { t.buckets bi with entries := n :: b.entries.eraseIdx i }
    if !Equal n.IP e.IP then
      let t := tab.removeIP bi e.IP
      let r := t.addIP bi n.IP
      if !r.1 then (false, (r.2.addIP bi e.IP).2)
      else (true, front r.2)
    else (true, front tab)

/-- addSeenNode: append n to its bucket if there is room, else offer it as a
replacement. -/
def addSeenNode (tab : Table) (n : Node) : Table :=
  if n.ID = tab.self then tab
  else
    let bi := tab.bucket n.ID
    let b := tab.buckets bi
    if contains b.entries n.ID then tab
    else if b.entries.length ≥ bucketSize then tab.addReplacement bi n
    else
      let r := tab.addIP bi n.IP
      if !r.1 then r.2
      else
        let b := r.2.buckets bi
        r.2.setBucket bi
          { b with entries := b.entries ++ [n], replacements := deleteNode b.replacements n }

/-- addVerifiedNode: move n to the front of its bucket, or push it there if
there is room, else offer it as a replacement. -/
def addVerifiedNode (tab : Table) (n : Node) : Table :=
  if !tab.initDone then tab
  else if n.ID = tab.self then tab
  else
    let bi := tab.bucket n.ID
    let bumped := tab.bumpInBucket bi n
    if bumped.1 then bumped.2
    else
      let tab := bumped.2
      if (tab.buckets bi).entries.length ≥ bucketSize then tab.addReplacement bi n
      else
        let r := tab.addIP bi n.IP
        if !r.1 then r.2
        else
          let b := r.2.buckets bi
          r.2.setBucket bi
            { b with entries := (pushNode b.entries n bucketSize).1
                     replacements := deleteNode b.replacements n }

def delete (tab : Table) (n : Node) : Table := tab.deleteInBucket (tab.bucket n.ID) n

/-- The locked half of doRevalidate, on bucket bi and the node last read from
it: a node that answered the ping (as the newer record it sent, if any) goes
to the front with one more liveness check; one that did not is replaced. -/
def doRevalidate (tab : Table) (bi : Fin nBuckets) (last : Node) (answered : Bool)
    (refreshed : Option IP) (i : Nat) : Table :=
  if answered then
    let last := match refreshed with
      | some ip => { last with IP := ip }
      | none => last
    (tab.bumpInBucket bi { last with livenessChecks := last.livenessChecks + 1 }).2
  else (tab.replace bi last i).1

end Table

/-- newTable: empty buckets, before initialisation is done. -/
def newTable (self : ID) : Table :=
  { self := self
    buckets := fun _ => { entries := [], replacements := [], ips := ⟨bucketSubnet, bucketIPLimit, fun _ => 0⟩ }
    ips := ⟨tableSubnet, tableIPLimit, fun _ => 0⟩
    initDone := false }

/-- The operations of a run. -/
inductive Op
  | addSeenNode (n : Node)
  | addVerifiedNode (n : Node)
  | delete (n : Node)
  | revalidate (bi : Fin nBuckets) (last : Node) (answered : Bool) (refreshed : Option IP) (i : Nat)
  /-- The refresh loop closes tab.initDone. -/
  | initDone

def Table.apply (tab : Table) : Op → Table
  | .addSeenNode n => tab.addSeenNode n
  | .addVerifiedNode n => tab.addVerifiedNode n
  | .delete n => tab.delete n
  | .revalidate bi last answered refreshed i => tab.doRevalidate bi last answered refreshed i
  | .initDone => { tab with initDone := true }

/-- The tables a run reaches. -/
inductive Reachable : Table → Prop
  | new (self : ID) : Reachable (newTable self)
  | step {tab : Table} (op : Op) : Reachable tab → Reachable (tab.apply op)

/-- The nodes a bucket holds. -/
def bucket.held (b : bucket) : List Node := b.entries ++ b.replacements

/-- How many of ns a set should count under key k: their non-LAN addresses
with that key. -/
def countHeld (s : DistinctNetSet) (ns : List Node) (k : List UInt8) : Nat :=
  ns.countP fun n => !IsLAN n.IP && s.key n.IP == k

/-- The address accounting the subnet limits rely on: each bucket's set counts
the addresses of the nodes it holds, and the table's set those of all buckets. -/
def IPsCounted (tab : Table) : Prop :=
  (∀ bi k, (tab.buckets bi).ips.members k = countHeld (tab.buckets bi).ips (tab.buckets bi).held k) ∧
  ∀ k, tab.ips.members k = ((List.finRange nBuckets).map fun bi => countHeld tab.ips (tab.buckets bi).held k).sum

theorem deleteNode_eq_self {n : Node} : ∀ {l : List Node}, (∀ m ∈ l, m.ID ≠ n.ID) → deleteNode l n = l
  | [], _ => rfl
  | m :: rest, h => by
    have hm : m.ID ≠ n.ID := h m List.mem_cons_self
    simp only [deleteNode, if_neg hm, deleteNode_eq_self fun x hx => h x (List.mem_cons_of_mem _ hx)]

@[simp] theorem setBucket_buckets_self {tab : Table} {bi : Fin nBuckets} {b : bucket} :
    (tab.setBucket bi b).buckets bi = b := by
  simp [Table.setBucket]

/-- From any table whose sets count its nodes, deleting a node that its bucket
does not hold, at a non-LAN address of a subnet the bucket counts, uncounts the
address of a node the bucket still holds. -/
theorem delete_absent_breaks_counting {tab : Table} {n : Node} (hc : IPsCounted tab)
    (habsent : ∀ m ∈ (tab.buckets (tab.bucket n.ID)).entries, m.ID ≠ n.ID)
    (hlan : IsLAN n.IP = false)
    (hheld : 0 < countHeld (tab.buckets (tab.bucket n.ID)).ips (tab.buckets (tab.bucket n.ID)).held
      ((tab.buckets (tab.bucket n.ID)).ips.key n.IP)) :
    ¬ IPsCounted (tab.delete n) := by
  intro hc'
  set bi := tab.bucket n.ID
  set b := tab.buckets bi
  -- the delete leaves the bucket's nodes and takes one from its count
  have hb : (tab.delete n).buckets bi = { b with ips := b.ips.Remove n.IP } := by
    simp [Table.delete, Table.deleteInBucket, Table.removeIP, hlan, deleteNode_eq_self habsent,
      Table.setBucket, bi, b]
  have hold : b.ips.members (b.ips.key n.IP) = countHeld b.ips b.held (b.ips.key n.IP) :=
    hc.1 bi _
  have hnew : (b.ips.Remove n.IP).members (b.ips.key n.IP) =
      countHeld (b.ips.Remove n.IP) ({ b with ips := b.ips.Remove n.IP } : bucket).held
        (b.ips.key n.IP) := by
    have h := hc'.1 bi (b.ips.key n.IP)
    rwa [hb] at h
  have hsame : countHeld (b.ips.Remove n.IP) ({ b with ips := b.ips.Remove n.IP } : bucket).held
      (b.ips.key n.IP) = countHeld b.ips b.held (b.ips.key n.IP) := by
    simp [countHeld, bucket.held]
  rw [DistinctNetSet.Remove_members_key, hsame] at hnew
  omega

set_option maxRecDepth 20000 in
/-- Deleting a node the table does not hold uncounts the address of one it
does. After m (1.2.3.4) joins bucket 16 and an absent n (1.2.3.5) of the same
bucket is deleted, the bucket counts no address of 1.2.3.0/24, and two more
nodes of that subnet get in: three against the bucket limit of two. -/
theorem delete_absent_node_breaks_subnet_limit :
    ∃ tab : Table, Reachable tab ∧ ¬ IPsCounted tab ∧
      bucketIPLimit < ((tab.buckets 16).entries.filter fun n =>
        (tab.buckets 16).ips.key n.IP == [52, 1, 2, 3]).length := by
  refine ⟨_, .step (.addSeenNode ⟨(Vector.replicate 32 0).set 0 0x83, [1, 2, 3, 7], 0⟩)
      (.step (.addSeenNode ⟨(Vector.replicate 32 0).set 0 0x82, [1, 2, 3, 6], 0⟩)
      (.step (.delete ⟨(Vector.replicate 32 0).set 0 0x81, [1, 2, 3, 5], 0⟩)
      (.step (.addSeenNode ⟨(Vector.replicate 32 0).set 0 0x80, [1, 2, 3, 4], 0⟩)
      (.new (Vector.replicate 32 0))))), ?_, ?_⟩
  · -- the bucket counts two addresses of the subnet and holds three
    exact fun h => absurd (h.1 16 [52, 1, 2, 3]) (by decide)
  · decide

end Xdchain.Discover.Buckets
