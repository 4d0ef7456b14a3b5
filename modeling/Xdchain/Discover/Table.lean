import Xdchain.Lib.KeyedInsert
import Xdchain.Lib.Search
import Xdchain.Lib.BigEndian

/-! # Nodes by distance

`p2p/discover/table.go` and `p2p/enode`. A node ID is 32 bytes; `DistCmp`
compares the XOR distances of two IDs to a target byte by byte, which is
comparing them as big-endian numbers. `nodesByDistance.push` keeps a list of
at most `maxElems` nodes sorted by distance: it finds with `sort.Search`
the first entry farther than the new node, appends when there is room, and
slides the tail down over the appended slot.

From an empty list, the entries after any pushes are the first `maxElems`
of the pushed nodes sorted stably by distance; `findnodeByID` is that list
over the table's nodes, or over its live ones when asked and there are any. -/

namespace Xdchain.Discover.Table

open Xdchain.Lib Xdchain.Lib.KeyedInsert Xdchain.Lib.BigEndian

abbrev ID := Vector UInt8 32

/-- What the table reads of a `node`: its ID, IP and how often its liveness
was checked. -/
structure Node where
  ID : ID
  IP : List UInt8
  livenessChecks : Nat

/-- The loop of `enode.DistCmp` over the bytes of the target. -/
def distCmpBytes : List UInt8 → List UInt8 → List UInt8 → Int
  | t :: ts, a :: as, b :: bs =>
    let da := a ^^^ t
    let db := b ^^^ t
    if da > db then 1 else if da < db then -1 else distCmpBytes ts as bs
  | _, _, _ => 0

/-- `enode.DistCmp`: the sign of `(a ^ target) - (b ^ target)`. -/
def DistCmp (target a b : ID) : Int := distCmpBytes target.toList a.toList b.toList

/-- The XOR distance of `a` to `target`, as a number. -/
def xorDistance (target a : ID) : Nat := beValue (List.zipWith (· ^^^ ·) a.toList target.toList)

/-- Go's `copy(s[dst:], s[src:])` within one slice: as many elements as the
shorter side holds, read before any is written. -/
def copyWithin {α : Type} (s : List α) (dst src : Nat) : List α :=
  let n := min (s.length - dst) (s.length - src)
  s.take dst ++ (s.drop src).take n ++ s.drop (dst + n)

structure NodesByDistance where
  entries : List Node
  target : ID

def NodesByDistance.push (h : NodesByDistance) (n : Node) (maxElems : Nat) : NodesByDistance :=
  let ix := search h.entries.length fun i =>
    match h.entries[i]? with
    | some e => decide (DistCmp h.target e.ID n.ID > 0)
    | none => false
  let entries := if h.entries.length < maxElems then h.entries ++ [n] else h.entries
  if ix = entries.length then
    -- farther away than all nodes we already have
    { h with entries }
  else
    -- slide existing entries down to make room, over the entry just appended
    { h with entries := (copyWithin entries (ix + 1) ix).set ix n }

/-- The pushes of `ns` in turn, each bounded by `m`. -/
def NodesByDistance.pushAll (h : NodesByDistance) (ns : List Node) (m : Nat) : NodesByDistance :=
  ns.foldl (fun h n => h.push n m) h

/-- `findnodeByID` over the entries of the table's buckets, in order. -/
def findnodeByID (buckets : List (List Node)) (target : ID) (nresults : Nat) (preferLive : Bool) :
    NodesByDistance :=
  let scan := fun (acc : NodesByDistance × NodesByDistance) (n : Node) =>
    (acc.1.push n nresults,
      if preferLive && decide (n.livenessChecks > 0) then acc.2.push n nresults else acc.2)
  let found := buckets.flatten.foldl scan (⟨[], target⟩, ⟨[], target⟩)
  if preferLive && decide (found.2.entries.length > 0) then found.2 else found.1

/-! ## `DistCmp` compares distances -/

/-- The byte loop of `DistCmp` is positive exactly when the first ID is
farther, for IDs as long as the target. -/
theorem distCmpBytes_pos_iff : ∀ (ts as bs : List UInt8), as.length = ts.length → bs.length = ts.length →
    (distCmpBytes ts as bs > 0 ↔
      beValue (List.zipWith (· ^^^ ·) bs ts) < beValue (List.zipWith (· ^^^ ·) as ts))
  | [], as, bs, ha, hb => by
    obtain rfl : as = [] := List.length_eq_zero_iff.1 ha
    obtain rfl : bs = [] := List.length_eq_zero_iff.1 hb
    simp [distCmpBytes]
  | t :: ts, [], _, ha, _ => by simp at ha
  | t :: ts, _ :: _, [], _, hb => by simp at hb
  | t :: ts, a :: as, b :: bs, ha, hb => by
    have ha' : as.length = ts.length := by simpa using ha
    have hb' : bs.length = ts.length := by simpa using hb
    have hlen : (List.zipWith (· ^^^ ·) bs ts).length = (List.zipWith (· ^^^ ·) as ts).length := by
      simp [ha', hb']
    simp only [distCmpBytes, List.zipWith_cons_cons]
    split
    · -- the first differing byte is larger in `a`
      rename_i hgt
      refine ⟨fun _ => beValue_cons_lt_cons hlen hgt, fun _ => by decide⟩
    · split
      · rename_i _ hlt
        refine ⟨fun h => absurd h (by decide), fun h => absurd h ?_⟩
        exact Nat.lt_asymm (beValue_cons_lt_cons hlen.symm hlt)
      · -- equal bytes: the rest decides
        rename_i hngt hnlt
        have heq : a ^^^ t = b ^^^ t := UInt8.toNat_inj.1 (by
          have h1 : ¬(b ^^^ t).toNat < (a ^^^ t).toNat := hngt
          have h2 : ¬(a ^^^ t).toNat < (b ^^^ t).toNat := hnlt
          omega)
        rw [heq, beValue_cons_lt_cons_iff _ hlen]
        exact distCmpBytes_pos_iff ts as bs ha' hb'

/-- **`DistCmp` orders by XOR distance.** -/
theorem DistCmp_pos_iff (target a b : ID) : DistCmp target a b > 0 ↔ xorDistance target b < xorDistance target a :=
  distCmpBytes_pos_iff _ _ _ (by simp) (by simp)

/-! ## One push -/

/-- The distance of a node to the target, the key the entries are sorted by. -/
abbrev distanceTo (target : ID) (n : Node) : Nat := xorDistance target n.ID

/-- Sliding the tail from `ix` down by one and writing `ix` inserts there,
dropping the last element. -/
theorem copyWithin_set {α : Type} (s : List α) {ix : Nat} (hix : ix < s.length) (x : α) :
    (copyWithin s (ix + 1) ix).set ix x = s.take ix ++ x :: (s.drop ix).take (s.length - ix - 1) := by
  have hmin : min (s.length - (ix + 1)) (s.length - ix) = s.length - ix - 1 := by omega
  have hfront : s.take (ix + 1) = s.take ix ++ [s[ix]] := by
    rw [List.take_add_one, List.getElem?_eq_getElem hix]
    rfl
  have hend : s.drop (ix + 1 + (s.length - ix - 1)) = [] := List.drop_of_length_le (by omega)
  have hlen : (s.take ix).length = ix := List.length_take_of_le (by omega)
  simp only [copyWithin, hmin, hfront, hend, List.append_nil, List.append_assoc, List.singleton_append]
  rw [List.set_append_right _ _ (by omega), hlen, Nat.sub_self, List.set_cons_zero]

/-- The list a push leaves, given where the search lands. -/
theorem slide_eq {α : Type} (e : List α) (x : α) {ix m : Nat} (hix : ix ≤ e.length) (hm : e.length ≤ m) :
    (if ix = (if e.length < m then e ++ [x] else e).length then (if e.length < m then e ++ [x] else e)
      else (copyWithin (if e.length < m then e ++ [x] else e) (ix + 1) ix).set ix x) =
      (e.take ix ++ x :: e.drop ix).take m := by
  by_cases hroom : e.length < m
  · -- room left: the node is appended, then slid into place
    have hlen : (e ++ [x]).length = e.length + 1 := by simp
    rw [if_pos hroom, if_neg (by omega), copyWithin_set _ (by omega), hlen,
      List.take_of_length_le (l := e.take ix ++ x :: e.drop ix) (by simp; omega),
      List.take_append_of_le_length hix, List.drop_append_of_le_length hix,
      List.take_left' (by simp; omega)]
  · rw [if_neg hroom]
    obtain rfl : e.length = m := by omega
    by_cases hend : ix = e.length
    · -- farther than every entry: the list stays
      rw [if_pos hend, hend, List.drop_of_length_le (Nat.le_refl _), List.take_append_of_le_length (by simp)]
      simp
    · -- the last entry falls off
      rw [if_neg hend, copyWithin_set _ (by omega), List.take_append,
        List.take_of_length_le (l := e.take ix) (by simp), List.length_take_of_le hix,
        show e.length - ix = (e.length - ix - 1) + 1 by omega, List.take_succ_cons, Nat.add_sub_cancel]

/-- **A push inserts the node after the entries not farther than it, and
keeps the first `maxElems`**, on entries sorted by distance and not over the
bound. -/
theorem push_entries {h : NodesByDistance} (n : Node) {m : Nat}
    (hs : h.entries.Pairwise (fun a b => distanceTo h.target a ≤ distanceTo h.target b))
    (hm : h.entries.length ≤ m) :
    (h.push n m).entries =
        (h.entries.orderedInsert (fun a b => distanceTo h.target a < distanceTo h.target b) n).take m ∧
      (h.push n m).target = h.target := by
  set f : Nat → Bool := fun i => match h.entries[i]? with
    | some e => decide (DistCmp h.target e.ID n.ID > 0)
    | none => false with hf
  -- the search predicate: the entry at `i` is farther than `n`
  have hfi : ∀ i (hi : i < h.entries.length),
      f i = true ↔ distanceTo h.target n < distanceTo h.target h.entries[i] := by
    intro i hi
    simp only [hf, List.getElem?_eq_getElem hi, decide_eq_true_eq, DistCmp_pos_iff]
  have hmono : ∀ a b, a ≤ b → b < h.entries.length → f a = true → f b = true := by
    intro a b hab hb ha
    rw [hfi a (by omega)] at ha
    rw [hfi b hb]
    rcases Nat.eq_or_lt_of_le hab with rfl | hlt
    · exact ha
    · exact lt_of_lt_of_le ha (List.pairwise_iff_getElem.1 hs a b (by omega) hb hlt)
  obtain ⟨hix, hlow, hhigh⟩ := search_spec hmono
  have hins : h.entries.orderedInsert (fun a b => distanceTo h.target a < distanceTo h.target b) n =
      h.entries.take (search h.entries.length f) ++ n :: h.entries.drop (search h.entries.length f) :=
    KeyedInsert.orderedInsert_eq_take_drop_of_index _ hix
      (fun k hk hlt => by
        have hk' := hlow k hk
        rw [← Bool.not_eq_true, hfi k (by omega)] at hk'
        exact hk' hlt)
      (fun k hk hle => (hfi k hk).1 (hhigh k hle hk))
  refine ⟨?_, ?_⟩
  · rw [hins, ← slide_eq h.entries n hix hm]
    unfold NodesByDistance.push
    dsimp only
    rw [apply_ite NodesByDistance.entries]
  · unfold NodesByDistance.push
    dsimp only
    rw [apply_ite NodesByDistance.target, ite_self]

/-! ## Runs of pushes -/

/-- **Pushes keep the first `m` of everything pushed, sorted stably by
distance.** Induction on the pushes, with the entries the first `m` of the
stable sort of the nodes pushed so far. -/
theorem pushAll_entries (m : Nat) : ∀ (ns : List Node) (h : NodesByDistance) (p : List Node),
    h.entries = (sortByKey (distanceTo h.target) p).take m →
      (h.pushAll ns m).entries = (sortByKey (distanceTo h.target) (p ++ ns)).take m ∧
        (h.pushAll ns m).target = h.target
  | [], h, p, he => by simp [NodesByDistance.pushAll, he]
  | n :: ns, h, p, he => by
    obtain ⟨hs, -, -⟩ := sortByKey_spec (distanceTo h.target) p
    have hsorted : h.entries.Pairwise (fun a b => distanceTo h.target a ≤ distanceTo h.target b) := by
      rw [he]
      exact hs.sublist (List.take_sublist _ _)
    have hlen : h.entries.length ≤ m := by
      rw [he]
      exact List.length_take_le _ _
    obtain ⟨hpush, htarget⟩ := push_entries n hsorted hlen
    -- one push is one more insertion into the sorted list, cut to `m`
    have hnext : (h.push n m).entries = (sortByKey (distanceTo (h.push n m).target) (p ++ [n])).take m := by
      rw [hpush, htarget, he, take_orderedInsert_take, sortByKey_append]
    obtain ⟨hrun, htarget'⟩ := pushAll_entries m ns (h.push n m) (p ++ [n]) hnext
    have hfold : h.pushAll (n :: ns) m = (h.push n m).pushAll ns m := rfl
    rw [hfold, hrun, htarget', htarget, List.append_assoc, List.singleton_append]
    exact ⟨rfl, rfl⟩

theorem pushAll_empty_entries (target : ID) (m : Nat) (ns : List Node) :
    ((⟨[], target⟩ : NodesByDistance).pushAll ns m).entries = (sortByKey (distanceTo target) ns).take m := by
  have hstart : (⟨[], target⟩ : NodesByDistance).entries = (sortByKey (distanceTo target) []).take m := by
    simp [sortByKey]
  simpa using (pushAll_entries m ns ⟨[], target⟩ [] hstart).1

/-! ## Looking up the closest nodes -/

/-- The scan of `findnodeByID` pushes every node into one list and the live
ones, when asked for, into the other. -/
theorem foldl_scan (m : Nat) (preferLive : Bool) : ∀ (l : List Node) (h₁ h₂ : NodesByDistance),
    l.foldl (fun (acc : NodesByDistance × NodesByDistance) (n : Node) =>
        (acc.1.push n m, if preferLive && decide (n.livenessChecks > 0) then acc.2.push n m else acc.2))
      (h₁, h₂) =
    (h₁.pushAll l m, if preferLive then h₂.pushAll (l.filter fun n => decide (n.livenessChecks > 0)) m else h₂)
  | [], h₁, h₂ => by
    cases preferLive <;> rfl
  | n :: l, h₁, h₂ => by
    rw [List.foldl_cons, foldl_scan m preferLive l]
    cases preferLive with
    | false => rfl
    | true =>
      by_cases hlive : n.livenessChecks > 0
      · simp only [hlive, List.filter_cons_of_pos, decide_true, Bool.and_self, if_true]
        rfl
      · simp only [hlive, List.filter_cons_of_neg, decide_false, Bool.and_false, Bool.false_eq_true, if_false,
          not_false_eq_true, if_true]
        rfl

/-- **`findnodeByID` returns the `nresults` closest nodes of the table**,
among the live ones when asked for and there are any. -/
theorem findnodeByID_entries (buckets : List (List Node)) (target : ID) (nresults : Nat) (preferLive : Bool) :
    (findnodeByID buckets target nresults preferLive).entries =
      (sortByKey (distanceTo target)
        (if preferLive ∧ ∃ n ∈ buckets.flatten, n.livenessChecks > 0 then
          buckets.flatten.filter (fun n => decide (n.livenessChecks > 0))
        else buckets.flatten)).take nresults := by
  unfold findnodeByID
  dsimp only
  rw [foldl_scan]
  cases preferLive with
  | false => simpa using pushAll_empty_entries target nresults buckets.flatten
  | true =>
    simp only [Bool.true_and, apply_ite NodesByDistance.entries, pushAll_empty_entries, true_and, if_true]
    by_cases hany : ∃ n ∈ buckets.flatten, n.livenessChecks > 0
    · -- some node is live: the live list is empty only when no result is asked for
      rw [if_pos hany]
      obtain ⟨n, hn, hlive⟩ := hany
      have hne : (buckets.flatten.filter fun n => decide (n.livenessChecks > 0)) ≠ [] :=
        List.ne_nil_of_mem (List.mem_filter.2 ⟨hn, by simpa using hlive⟩)
      have hsortNe : sortByKey (distanceTo target) (buckets.flatten.filter fun n => decide (n.livenessChecks > 0)) ≠ [] :=
        fun h => hne (List.Perm.eq_nil ((sortByKey_spec _ _).2.1.symm.trans (by rw [h])))
      cases nresults with
      | zero => simp
      | succ k =>
        have hpos : 0 < ((sortByKey (distanceTo target)
            (buckets.flatten.filter fun n => decide (n.livenessChecks > 0))).take (k + 1)).length := by
          obtain ⟨x, xs, hxs⟩ := List.exists_cons_of_ne_nil hsortNe
          rw [hxs]
          simp
        rw [if_pos (decide_eq_true hpos)]
    · -- no live node: the live list stays empty
      rw [if_neg hany]
      have hnone : (buckets.flatten.filter fun n => decide (n.livenessChecks > 0)) = [] :=
        List.filter_eq_nil_iff.2 fun n hn hlive => hany ⟨n, hn, by simpa using hlive⟩
      simp [hnone, sortByKey]

/-! ## The closest nodes, stably -/

/-- `DistCmp` orders by XOR distance; from an empty list, pushes keep the
first `m` of the pushed nodes sorted by distance, where nodes at one
distance stay in the order they were pushed; and `findnodeByID` is that list
over the table's nodes, or over its live ones when asked and there are any. -/
theorem nodesByDistance_keeps_closest (target : ID) (m : Nat) (pushed : List Node) :
    (∀ a b : ID, DistCmp target a b > 0 ↔ xorDistance target b < xorDistance target a) ∧
      ((⟨[], target⟩ : NodesByDistance).pushAll pushed m).entries =
        (sortByKey (distanceTo target) pushed).take m ∧
      (sortByKey (distanceTo target) pushed).Pairwise (fun a b => distanceTo target a ≤ distanceTo target b) ∧
      (sortByKey (distanceTo target) pushed).Perm pushed ∧
      (∀ d, (sortByKey (distanceTo target) pushed).filter (fun n => distanceTo target n = d) =
        pushed.filter (fun n => distanceTo target n = d)) ∧
      ∀ (buckets : List (List Node)) (nresults : Nat) (preferLive : Bool),
        (findnodeByID buckets target nresults preferLive).entries =
          (sortByKey (distanceTo target)
            (if preferLive ∧ ∃ n ∈ buckets.flatten, n.livenessChecks > 0 then
              buckets.flatten.filter (fun n => decide (n.livenessChecks > 0))
            else buckets.flatten)).take nresults := by
  obtain ⟨hsorted, hperm, hstable⟩ := sortByKey_spec (distanceTo target) pushed
  exact ⟨DistCmp_pos_iff target, pushAll_empty_entries target m pushed, hsorted, hperm, hstable,
    fun buckets => findnodeByID_entries buckets target⟩

end Xdchain.Discover.Table
