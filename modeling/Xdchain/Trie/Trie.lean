import Xdchain.Lib.Prefix
import Xdchain.Trie.Encoding

/-! # Merkle Patricia tries in memory

`trie.go` over the nodes of `node.go` as they stand in memory: a `fullNode`
with seventeen children, the last for a value whose key ends there; a
`shortNode` whose key is a run of nibbles shared by everything below it; a
`valueNode`; and `nil` for nothing. `tryGet`, `insert` and `delete` follow
the key from the root, one nibble at a full node and a whole run at a short
node, and return `none` where Go panics (an index out of range, a failed
type assertion, a node of no known kind). `insert` and `delete` also say
whether they changed anything (`dirty`): if not, the caller keeps its old
node. The keys `TryGet`, `TryUpdate` and `TryDelete` pass down are
`keybytesToHex` of the caller's bytes. -/

namespace Xdchain.Trie.Patricia

open Xdchain.Lib.Prefix Xdchain.Trie.Encoding

set_option linter.dupNamespace false

/-- node: a trie node held in memory. The cache flags of full and short
nodes do not take part in what the trie holds. -/
inductive Node where
  | full (Children : Fin 17 → Node)
  | short (Key : List UInt8) (Val : Node)
  | value (v : List UInt8)
  | nil

namespace Node

/-- Whether a child is `nil`. -/
def isNil : Node → Bool
  | nil => true
  | _ => false

@[simp] theorem isNil_nil : isNil nil = true := rfl
@[simp] theorem isNil_full (cs : Fin 17 → Node) : isNil (full cs) = false := rfl
@[simp] theorem isNil_short (k : List UInt8) (v : Node) : isNil (short k v) = false := rfl
@[simp] theorem isNil_value (v : List UInt8) : isNil (value v) = false := rfl

theorem isNil_eq_true {n : Node} : n.isNil = true ↔ n = nil := by
  cases n <;> simp

theorem isNil_eq_false {n : Node} : n.isNil = false ↔ n ≠ nil := by
  cases n <;> simp

end Node

/-- prefixLen: the length of the common prefix of `a` and `b`. -/
def prefixLen (a b : List UInt8) : Nat := commonPrefixLen a b

/-- tryGet: the value under the rest of the key, `[]` (Go's `nil`) where
there is none. A full node indexes its children by the next nibble. -/
def tryGet : Node → List UInt8 → Option (List UInt8)
  | .nil, _ => some []
  | .value v, _ => some v
  | .short k val, key =>
    if key.length < k.length ∨ k ≠ key.take k.length then some []
    else tryGet val (key.drop k.length)
  | .full cs, key =>
    match key with
    -- key[pos] out of range
    | [] => none
    | b :: rest => if h : b.toNat < 17 then tryGet (cs ⟨b.toNat, h⟩) rest else none

/-- The test of a short node's key against the key, a length check and a
comparison of the bytes, fails exactly when the key does not run through
the node's key. -/
theorem mismatch_iff (k key : List UInt8) :
    (key.length < k.length ∨ k ≠ key.take k.length) ↔ ¬ k <+: key := by
  constructor
  · rintro (hl | hne) h
    · exact absurd h.length_le (by omega)
    · exact hne (List.prefix_iff_eq_take.mp h)
  · intro h
    by_contra hc
    exact h (List.prefix_iff_eq_take.mpr (not_not.mp (not_or.mp hc).2))

theorem tryGet_short (k : List UInt8) (val : Node) (key : List UInt8) :
    tryGet (.short k val) key = if k <+: key then tryGet val (key.drop k.length) else some [] := by
  rw [tryGet, if_congr (mismatch_iff k key) rfl rfl, ite_not]

theorem tryGet_short_append (k : List UInt8) (val : Node) (r : List UInt8) :
    tryGet (.short k val) (k ++ r) = tryGet val r := by
  rw [tryGet_short, if_pos (List.prefix_append k r), List.drop_left]

@[simp] theorem tryGet_nil (key : List UInt8) : tryGet .nil key = some [] := rfl

theorem tryGet_short_outside {k key : List UInt8} (val : Node) (h : ¬ k <+: key) :
    tryGet (.short k val) key = some [] := by
  rw [tryGet_short, if_neg h]

theorem tryGet_short_nil_key (val : Node) (key : List UInt8) : tryGet (.short [] val) key = tryGet val key := by
  rw [tryGet_short, if_pos List.nil_prefix]
  rfl

/-- A short node read after a common front of key and path. -/
theorem tryGet_short_append_left (q s : List UInt8) (val : Node) (r : List UInt8) :
    tryGet (.short (q ++ s) val) (q ++ r) = tryGet (.short s val) r := by
  rw [tryGet_short, tryGet_short]
  simp only [List.prefix_append_right_inj]
  rw [List.length_append, ← List.drop_drop, List.drop_left]

/-- Two short nodes in a row read as one. -/
theorem tryGet_short_short (k ck : List UInt8) (cv : Node) (key : List UInt8) :
    tryGet (.short (k ++ ck) cv) key = tryGet (.short k (.short ck cv)) key := by
  by_cases hk : k <+: key
  · obtain ⟨r, rfl⟩ := hk
    rw [tryGet_short_append_left, tryGet_short_append]
  · rw [tryGet_short_outside _ hk,
      tryGet_short_outside _ fun h => hk ((List.prefix_append k ck).trans h)]

theorem tryGet_full_cons (cs : Fin 17 → Node) (b : UInt8) (rest : List UInt8) :
    tryGet (.full cs) (b :: rest) =
      if h : b.toNat < 17 then tryGet (cs ⟨b.toNat, h⟩) rest else none := rfl

/-- t.insert(nil, prefix, key, value): nothing to descend into, so the value
itself at the end of the key, or a short node leading to it. -/
def insertNil (key : List UInt8) (value : Node) : Bool × Node :=
  if key = [] then (true, value) else (true, .short key value)

theorem tryGet_insertNil (s : List UInt8) (c : Node) (r : List UInt8) :
    tryGet (insertNil s c).2 r = tryGet (.short s c) r := by
  unfold insertNil
  split
  · rename_i hs
    subst hs
    rw [tryGet_short_nil_key]
  · rfl

/-- insert: the node with `value` under the rest of the key, and whether
that changed it. -/
def insert : Node → List UInt8 → Node → Option (Bool × Node)
  | n, [], value =>
    match n, value with
    | .value v, .value w => some (v != w, value)
    -- value.(valueNode) panics
    | .value _, _ => none
    | _, _ => some (true, value)
  | .short k val, key, value =>
    let matchlen := prefixLen key k
    if matchlen = k.length then
      match insert val (key.drop matchlen) value with
      | none => none
      | some (false, _) => some (false, .short k val)
      | some (true, nn) => some (true, .short k nn)
    else
      -- branch out at the index where they differ
      match k[matchlen]?, key[matchlen]? with
      | some i, some j =>
        if hi : i.toNat < 17 then
          if hj : j.toNat < 17 then
            let branch : Fin 17 → Node :=
              Function.update
                (Function.update (fun _ => .nil) ⟨i.toNat, hi⟩ (insertNil (k.drop (matchlen + 1)) val).2)
                ⟨j.toNat, hj⟩ (insertNil (key.drop (matchlen + 1)) value).2
            if matchlen = 0 then some (true, .full branch)
            else some (true, .short (key.take matchlen) (.full branch))
          else none
        else none
      | _, _ => none
  | .full cs, b :: rest, value =>
    if h : b.toNat < 17 then
      match insert (cs ⟨b.toNat, h⟩) rest value with
      | none => none
      | some (false, _) => some (false, .full cs)
      | some (true, nn) => some (true, .full (Function.update cs ⟨b.toNat, h⟩ nn))
    else none
  | .nil, key, value => some (true, .short key value)
  -- a value node is no case of the switch: it panics
  | .value _, _ :: _, _ => none

theorem insert_nil_key (n value : Node) :
    insert n [] value = match n, value with
      | .value v, .value w => some (v != w, value)
      | .value _, _ => none
      | _, _ => some (true, value) := by
  cases n <;> rfl

theorem insert_nil_node {key : List UInt8} (hkey : key ≠ []) (value : Node) :
    insert .nil key value = some (true, .short key value) := by
  obtain ⟨b, r, rfl⟩ := List.exists_cons_of_ne_nil hkey
  rfl

/-- A key that runs through a short node goes on below it. -/
theorem insert_short_through {k key : List UInt8} (hkey : key ≠ []) (val value : Node)
    (hk : k <+: key) :
    insert (.short k val) key value =
      match insert val (key.drop k.length) value with
      | none => none
      | some (false, _) => some (false, .short k val)
      | some (true, nn) => some (true, .short k nn) := by
  obtain ⟨b, r, rfl⟩ := List.exists_cons_of_ne_nil hkey
  have hm : prefixLen (b :: r) k = k.length := by
    rw [prefixLen, commonPrefixLen_comm, commonPrefixLen_eq_length_iff]
    exact hk
  simp only [insert, hm, if_true]

/-- A key that parts from a short node's key splits it: a full node where
they part, below their common front. -/
theorem insert_short_of_lt {k key : List UInt8} (hkey : key ≠ []) (val value : Node)
    (hmk : prefixLen key k < k.length) (hmkey : prefixLen key k < key.length)
    (hi : k[prefixLen key k].toNat < 17) (hj : key[prefixLen key k].toNat < 17) :
    insert (.short k val) key value = some (true,
      let branch : Fin 17 → Node :=
        Function.update
          (Function.update (fun _ => .nil) ⟨_, hi⟩ (insertNil (k.drop (prefixLen key k + 1)) val).2)
          ⟨_, hj⟩ (insertNil (key.drop (prefixLen key k + 1)) value).2
      if prefixLen key k = 0 then .full branch else .short (key.take (prefixLen key k)) (.full branch)) := by
  obtain ⟨b, r, rfl⟩ := List.exists_cons_of_ne_nil hkey
  simp only [insert, Nat.ne_of_lt hmk, if_false, List.getElem?_eq_getElem hmk,
    List.getElem?_eq_getElem hmkey, dif_pos hi, dif_pos hj]
  split <;> rfl

theorem insert_full_cons (cs : Fin 17 → Node) (b : UInt8) (rest : List UInt8) (value : Node) :
    insert (.full cs) (b :: rest) value =
      if h : b.toNat < 17 then
        match insert (cs ⟨b.toNat, h⟩) rest value with
        | none => none
        | some (false, _) => some (false, .full cs)
        | some (true, nn) => some (true, .full (Function.update cs ⟨b.toNat, h⟩ nn))
      else none := rfl

/-- The loop of `delete` over a full node's children: the index of the one
child left, `-1` if there is none, `-2` once a second one turns up. -/
def posLoop : List Node → Nat → Int → Int
  | [], _, pos => pos
  | cld :: rest, i, pos =>
    if !cld.isNil then
      if pos = -1 then posLoop rest (i + 1) i else -2
    else posLoop rest (i + 1) pos

/-- Once a child is found, the loop keeps it if every later child is `nil`,
and says `-2` otherwise. -/
theorem posLoop_found : ∀ (l : List Node) (i : Nat) {p : Int}, 0 ≤ p →
    posLoop l i p = if l.all Node.isNil then p else -2
  | [], _, _, _ => rfl
  | c :: l, i, p, hp => by
    by_cases hc : c.isNil
    · simp [posLoop, hc, posLoop_found l (i + 1) hp]
    · have hp1 : p ≠ -1 := by omega
      simp [posLoop, hc, hp1]

theorem all_isNil_eq_false {l : List Node} {k : Nat} (hk : k < l.length) (h : l[k].isNil = false) :
    l.all Node.isNil = false := by
  rw [Bool.eq_false_iff]
  intro hall
  rw [List.all_eq_true] at hall
  simp [hall l[k] (List.getElem_mem hk)] at h

/-- One child left: the loop finds its index. -/
theorem posLoop_single : ∀ (l : List Node) (i j : Nat) (hj : j < l.length), l[j].isNil = false →
    (∀ k (hk : k < l.length), k ≠ j → l[k].isNil = true) → posLoop l i (-1) = ((i + j : Nat) : Int)
  | [], _, _, hj, _, _ => absurd hj (by simp)
  | c :: l, i, 0, _, hc, hall => by
    simp only [List.getElem_cons_zero] at hc
    have hrest : l.all Node.isNil = true := by
      rw [List.all_eq_true]
      intro x hx
      obtain ⟨k, hk, rfl⟩ := List.getElem_of_mem hx
      exact hall (k + 1) (by simp; omega) (by omega)
    rw [posLoop, if_pos (by simp [hc]), if_pos rfl, posLoop_found l (i + 1) (by omega), if_pos hrest]
    simp
  | c :: l, i, j + 1, hj, hc, hall => by
    have hc0 : c.isNil = true := hall 0 (by simp) (by omega)
    rw [posLoop, if_neg (by simp [hc0]),
      posLoop_single l (i + 1) j (by simpa using hj) hc
        (fun k hk hkj => hall (k + 1) (by simp; omega) (by omega))]
    omega

/-- Two children left: the loop gives up. -/
theorem posLoop_two : ∀ (l : List Node) (i j k : Nat) (hj : j < l.length) (hk : k < l.length),
    j < k → l[j].isNil = false → l[k].isNil = false → posLoop l i (-1) = -2
  | [], _, _, _, hj, _, _, _, _ => absurd hj (by simp)
  | c :: l, i, 0, k + 1, _, hk, _, hc, hk' => by
    simp only [List.getElem_cons_zero, List.getElem_cons_succ] at hc hk'
    rw [posLoop, if_pos (by simp [hc]), if_pos rfl, posLoop_found l (i + 1) (by omega),
      all_isNil_eq_false _ hk']
    rfl
  | c :: l, i, j + 1, k + 1, hj, hk, hjk, hc, hk' => by
    simp only [List.getElem_cons_succ] at hc hk'
    by_cases hc0 : c.isNil
    · rw [posLoop, if_neg (by simp [hc0])]
      exact posLoop_two l (i + 1) j k (by simpa using hj) (by simpa using hk) (by omega) hc hk'
    · rw [posLoop, if_pos (by simp [hc0]), if_pos rfl, posLoop_found l (i + 1) (by omega),
        all_isNil_eq_false _ hk']
      rfl

/-- delete: the node without the value under the rest of the key, reduced
to minimal form on the way up, and whether that changed it. -/
def delete : Node → List UInt8 → Option (Bool × Node)
  | .short k val, key =>
    let matchlen := prefixLen key k
    -- don't replace n on mismatch
    if matchlen < k.length then some (false, .short k val)
    -- remove n entirely for whole matches
    else if matchlen = key.length then some (true, .nil)
    else
      match delete val (key.drop k.length) with
      | none => none
      | some (false, _) => some (false, .short k val)
      -- merge the two short nodes
      | some (true, .short ck cv) => some (true, .short (k ++ ck) cv)
      | some (true, child) => some (true, .short k child)
  | .full cs, key =>
    match key with
    | [] => none
    | b :: rest =>
      if h : b.toNat < 17 then
        match delete (cs ⟨b.toNat, h⟩) rest with
        | none => none
        | some (false, _) => some (false, .full cs)
        | some (true, nn) =>
          let cs' := Function.update cs ⟨b.toNat, h⟩ nn
          let pos := posLoop (List.ofFn cs') 0 (-1)
          if 0 ≤ pos then
            -- one child left: n becomes a short node, merged with that
            -- child if it is a short node below a nibble
            let c := (List.ofFn cs').getD pos.toNat .nil
            if pos ≠ 16 then
              match c with
              | .short ck cv => some (true, .short (UInt8.ofNat pos.toNat :: ck) cv)
              | _ => some (true, .short [UInt8.ofNat pos.toNat] c)
            else some (true, .short [UInt8.ofNat pos.toNat] c)
          else some (true, .full cs')
      else none
  | .value _, _ => some (true, .nil)
  | .nil, _ => some (false, .nil)

theorem getD_ofFn (cs : Fin 17 → Node) (o : Fin 17) : (List.ofFn cs).getD o.val .nil = cs o := by
  rw [List.getD_eq_getElem?_getD, List.getElem?_ofFn]
  simp

/-- A full node with one child left: the loop finds it. -/
theorem posLoop_ofFn_single (cs : Fin 17 → Node) (o : Fin 17) (hne : cs o ≠ .nil)
    (hall : ∀ x, x ≠ o → cs x = .nil) : posLoop (List.ofFn cs) 0 (-1) = (o.val : Int) := by
  have h := posLoop_single (List.ofFn cs) 0 o.val (by simp)
    (by rw [List.getElem_ofFn]; exact Node.isNil_eq_false.mpr hne)
    (fun k hk hko => by
      rw [List.getElem_ofFn, hall ⟨k, by simpa using hk⟩ (fun h => hko (Fin.mk.inj_iff.mp h))]
      rfl)
  simpa using h

/-- A full node with two children left: the loop gives up. -/
theorem posLoop_ofFn_two (cs : Fin 17 → Node) {p q : Fin 17} (hpq : p ≠ q) (hp : cs p ≠ .nil)
    (hq : cs q ≠ .nil) : posLoop (List.ofFn cs) 0 (-1) = -2 := by
  rcases Nat.lt_or_gt_of_ne (fun h => hpq (Fin.ext h)) with hlt | hlt
  · exact posLoop_two _ 0 p.val q.val (by simp) (by simp) hlt
      (by rw [List.getElem_ofFn]; exact Node.isNil_eq_false.mpr hp)
      (by rw [List.getElem_ofFn]; exact Node.isNil_eq_false.mpr hq)
  · exact posLoop_two _ 0 q.val p.val (by simp) (by simp) hlt
      (by rw [List.getElem_ofFn]; exact Node.isNil_eq_false.mpr hq)
      (by rw [List.getElem_ofFn]; exact Node.isNil_eq_false.mpr hp)

theorem delete_short_outside {k key : List UInt8} (val : Node) (h : ¬ k <+: key) :
    delete (.short k val) key = some (false, .short k val) := by
  have hm : prefixLen key k < k.length := by
    refine lt_of_le_of_ne (commonPrefixLen_le_right key k) fun he => h ?_
    rw [← commonPrefixLen_eq_length_iff, commonPrefixLen_comm]
    exact he
  simp only [delete, hm, if_true]

theorem delete_short_self (k : List UInt8) (val : Node) : delete (.short k val) k = some (true, .nil) := by
  have hm : prefixLen k k = k.length := commonPrefixLen_self k
  simp only [delete, hm, lt_irrefl, if_false, if_true]

/-- A key that runs on through a short node deletes below it, merging what
is left with the node. -/
theorem delete_short_of_lt {k key : List UInt8} (val : Node) (hk : k <+: key)
    (hlt : k.length < key.length) :
    delete (.short k val) key =
      match delete val (key.drop k.length) with
      | none => none
      | some (false, _) => some (false, .short k val)
      | some (true, .short ck cv) => some (true, .short (k ++ ck) cv)
      | some (true, child) => some (true, .short k child) := by
  have hm : prefixLen key k = k.length := by
    rw [prefixLen, commonPrefixLen_comm, commonPrefixLen_eq_length_iff]
    exact hk
  simp only [delete, hm, lt_irrefl, if_false, Nat.ne_of_lt hlt]

theorem delete_full_cons (cs : Fin 17 → Node) (b : UInt8) (rest : List UInt8) :
    delete (.full cs) (b :: rest) =
      if h : b.toNat < 17 then
        match delete (cs ⟨b.toNat, h⟩) rest with
        | none => none
        | some (false, _) => some (false, .full cs)
        | some (true, nn) =>
          let cs' := Function.update cs ⟨b.toNat, h⟩ nn
          let pos := posLoop (List.ofFn cs') 0 (-1)
          if 0 ≤ pos then
            let c := (List.ofFn cs').getD pos.toNat .nil
            if pos ≠ 16 then
              match c with
              | .short ck cv => some (true, .short (UInt8.ofNat pos.toNat :: ck) cv)
              | _ => some (true, .short [UInt8.ofNat pos.toNat] c)
            else some (true, .short [UInt8.ofNat pos.toNat] c)
          else some (true, .full cs')
      else none := rfl

/-! ## The trie -/

/-- Trie: its root, and the number of updates since it was last hashed. -/
structure Trie where
  root : Node
  unhashed : Nat

namespace Trie

/-- The zero `Trie`, as `New` makes it for the empty root. -/
def empty : Trie := ⟨.nil, 0⟩

def TryGet (t : Trie) (key : List UInt8) : Option (List UInt8) :=
  tryGet t.root (keybytesToHex key)

/-- TryUpdate: an empty value deletes. -/
def TryUpdate (t : Trie) (key value : List UInt8) : Option Trie :=
  let k := keybytesToHex key
  if value.length ≠ 0 then
    (insert t.root k (.value value)).map fun r => ⟨r.2, t.unhashed + 1⟩
  else
    (delete t.root k).map fun r => ⟨r.2, t.unhashed + 1⟩

def TryDelete (t : Trie) (key : List UInt8) : Option Trie :=
  (delete t.root (keybytesToHex key)).map fun r => ⟨r.2, t.unhashed + 1⟩

end Trie

end Xdchain.Trie.Patricia
