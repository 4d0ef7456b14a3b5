import Xdchain.Trie.Hasher

/-! # The stack trie of trie/stacktrie.go

A stack trie takes its keys in increasing order. Once no later key can reach
a subtree it hashes it, so only the right edge of the trie stays in memory.

* `StackTrie`: a node by its `nodeType` (empty, branch, extension, leaf,
  hashed), with the fields that type uses; a nil child pointer is `none`.
* `insert`, with `getDiffIndex` and the loop that hashes the nearest elder
  sibling of a branch's new child; none where Go panics.
* `hashVal`: the `val` that `hash()` leaves in a node. It is the RLP of the
  node if that is shorter than 32 bytes and its Keccak hash otherwise. A
  branch writes a short child's RLP verbatim (`rawNode`) and a hashed
  child's hash as a byte string (`hashNode`).
* `TryUpdate`, `Hash`, and `updates`, a run of TryUpdate calls.

The node pool, the database writes of `Commit` and the sharing of byte
slices between nodes and callers are left out. -/

namespace Xdchain.Trie.Patricia

open Xdchain.Rlp

/-- A node of a stack trie by its `nodeType`, with the fields that type
uses: the key chunk from `keyOffset` on, the children (one for an
extension), the value of a leaf and the `val` of a hashed node. A nil child
pointer is none. -/
inductive StackTrie where
  | empty (keyOffset : Nat)
  | branch (keyOffset : Nat) (children : Fin 16 → Option StackTrie)
  | ext (keyOffset : Nat) (key : List UInt8) (child : StackTrie)
  | leaf (keyOffset : Nat) (key : List UInt8) (val : List UInt8)
  | hashed (val : List UInt8)

namespace StackTrie

def NewStackTrie : StackTrie := .empty 0

/-- newLeaf(ko, key, val): a leaf with `key[ko:]`. -/
def newLeaf (ko : Nat) (key val : List UInt8) : StackTrie := .leaf ko (key.drop ko) val

/-- newExt(ko, key, child): an extension with `key[ko:]`. -/
def newExt (ko : Nat) (key : List UInt8) (child : StackTrie) : StackTrie := .ext ko (key.drop ko) child

/-- The loop of getDiffIndex over a node's key chunk and the full key from
the node's offset on: the first index where they part, none where the full
key ends first (Go indexes past its end). -/
def diffIndex : List UInt8 → List UInt8 → Option Nat
  | [], _ => some 0
  | _ :: _, [] => none
  | a :: as, b :: bs => if a = b then (diffIndex as bs).map (· + 1) else some 0

/-- Lists that part after `p` part at its length. -/
theorem diffIndex_fork {x y : UInt8} (hxy : x ≠ y) (a b : List UInt8) :
    ∀ p : List UInt8, diffIndex (p ++ x :: a) (p ++ y :: b) = some p.length
  | [] => by simp [diffIndex, hxy]
  | q :: p => by simp [diffIndex, diffIndex_fork hxy a b p]

/-- A chunk that the key runs through ends at its own length. -/
theorem diffIndex_append (rest : List UInt8) : ∀ k : List UInt8, diffIndex k (k ++ rest) = some k.length
  | [] => by simp [diffIndex]
  | q :: k => by simp [diffIndex, diffIndex_append rest k]

/-- getDiffIndex of a node with key chunk `stKey` at `keyOffset`. -/
def getDiffIndex (stKey : List UInt8) (keyOffset : Nat) (key : List UInt8) : Option Nat :=
  diffIndex stKey (key.drop keyOffset)

/-- The empty case of insert, at offset `ko`: the node turns into a leaf with
`key[ko:]`, which panics past the end of the key. -/
def insertEmpty (ko : Nat) (key value : List UInt8) : Option StackTrie :=
  if ko ≤ key.length then some (.leaf ko (key.drop ko) value) else none

/-- The branch a split makes: the old part under `origIdx`, the new leaf
under `newIdx`, in that order. -/
def splitChildren (origIdx newIdx : Fin 16) (n o : StackTrie) : Fin 16 → Option StackTrie :=
  Function.update (Function.update (fun _ => none) origIdx (some n)) newIdx (some o)

/-- The key a leaf writes: hexToCompactInPlace over its chunk and the
terminator, cut to the length it returns. The buffer is never empty, so the
packer never panics and the last case is never taken. -/
def compactKey (buf : List UInt8) : List UInt8 :=
  match Encoding.hexToCompactInPlace buf with
  | some (b, sz) => b.take sz
  | none => []

section Hashing

variable (keccak : List UInt8 → Vector UInt8 32)

/-- The `val` of a hashed node: the RLP below 32 bytes, its hash otherwise. -/
def sealVal (enc : List UInt8) : List UInt8 := if enc.length < 32 then enc else (keccak enc).toList

/-- What a parent writes for a hashed child: its `val` verbatim below 32
bytes (`rawNode`), as a byte string otherwise (`hashNode`). -/
def childPart (val : List UInt8) : List UInt8 := if val.length < 32 then val else encString val

/-- rlp.Encode of a list whose elements are already encoded. -/
def encodeParts (parts : List (List UInt8)) : List UInt8 :=
  header 0xC0 parts.flatten.length ++ parts.flatten

mutual

/-- The `val` that hash() leaves in a node. A leaf is encoded with its key
chunk and the terminator packed by hexToCompactInPlace. -/
def hashVal : StackTrie → List UInt8
  | .empty _ => emptyRoot.toList
  | .branch _ cs =>
    -- slot 16 of the branch is always nilValueNode
    sealVal keccak (encodeParts (List.ofFn fun i : Fin 17 =>
      if h : i.val < 16 then childVal (cs ⟨i.val, h⟩) else encString []))
  | .ext _ key c => sealVal keccak (encodeParts [encString (Encoding.hexToCompact key), childPart (hashVal c)])
  | .leaf _ key val =>
    sealVal keccak (encodeParts [encString (compactKey (key ++ [16])), encString val])
  | .hashed v => v

/-- What a branch writes for a child pointer: nilValueNode for nil. -/
def childVal : Option StackTrie → List UInt8
  | none => encString []
  | some c => childPart (hashVal c)

end

/-- hash(): the node turns into a hashed node holding its `val`. -/
def hash (st : StackTrie) : StackTrie := .hashed (hashVal keccak st)

/-- The loop of insert that "unresolves elder siblings": from `i - 1` down,
the first child that is there is hashed. -/
def unresolve (cs : Fin 16 → Option StackTrie) : Nat → Fin 16 → Option StackTrie
  | 0 => cs
  | i + 1 =>
    if h : i < 16 then
      match cs ⟨i, h⟩ with
      | none => unresolve cs i
      -- a hashed child stays as it is
      | some c => Function.update cs ⟨i, h⟩ (some (hash keccak c))
    else cs

/-- The loop leaves the children from `i` on as they were. -/
theorem unresolve_of_le (cs : Fin 16 → Option StackTrie) :
    ∀ (i : Nat) (j : Fin 16), i ≤ j.val → unresolve keccak cs i j = cs j
  | 0, _, _ => rfl
  | i + 1, j, hij => by
    rw [unresolve]
    split
    · rename_i h
      cases hc : cs ⟨i, h⟩ with
      | none => exact unresolve_of_le cs i j (by omega)
      | some c =>
        show Function.update cs ⟨i, h⟩ (some (hash keccak c)) j = cs j
        exact Function.update_of_ne (fun e => by subst e; simp at hij) _ _
    · rfl

/-- The loop hashes a child or leaves it as it was. -/
theorem unresolve_cases (cs : Fin 16 → Option StackTrie) :
    ∀ (i : Nat) (j : Fin 16),
      unresolve keccak cs i j = cs j ∨ ∃ c, cs j = some c ∧ unresolve keccak cs i j = some (hash keccak c)
  | 0, _ => .inl rfl
  | i + 1, j => by
    rw [unresolve]
    split
    · rename_i h
      cases hc : cs ⟨i, h⟩ with
      | none => exact unresolve_cases cs i j
      | some c =>
        show Function.update cs ⟨i, h⟩ (some (hash keccak c)) j = cs j ∨
          ∃ c', cs j = some c' ∧ Function.update cs ⟨i, h⟩ (some (hash keccak c)) j = some (hash keccak c')
        by_cases hj : j = ⟨i, h⟩
        · subst hj
          exact .inr ⟨c, hc, Function.update_self _ _ _⟩
        · exact .inl (Function.update_of_ne hj _ _)
    · exact .inl rfl

mutual

/-- insert(key, value), for a key given in nibbles without the terminator. -/
def insert : StackTrie → List UInt8 → List UInt8 → Option StackTrie
  | .branch ko cs, key, value =>
    match key[ko]? with
    | none => none
    | some b =>
      if h : b.toNat < 16 then
        (insertChild (ko + 1) (cs ⟨b.toNat, h⟩) key value).map fun c =>
          .branch ko (Function.update (unresolve keccak cs b.toNat) ⟨b.toNat, h⟩ (some c))
      else none
  | .ext ko ek c, key, value =>
    match getDiffIndex ek ko key with
    | none => none
    | some d =>
      if d = ek.length then (insert c key value).map fun c' => .ext ko ek c'
      else
        -- an intermediate extension for what is left of the chunk, or the child itself
        let n := hash keccak (if d < ek.length - 1 then newExt (d + 1) ek c else c)
        let o := newLeaf (ko + d + 1) key value
        match ek[d]?, key[d + ko]? with
        | some i, some j =>
          if hi : i.toNat < 16 then
            if hj : j.toNat < 16 then
              if d = 0 then some (.branch ko (splitChildren ⟨_, hi⟩ ⟨_, hj⟩ n o))
              else some (.ext ko (ek.take d) (.branch (ko + d) (splitChildren ⟨_, hi⟩ ⟨_, hj⟩ n o)))
            else none
          else none
        | _, _ => none
  | .leaf ko lk lv, key, value =>
    match getDiffIndex lk ko key with
    | none => none
    | some d =>
      -- "Trying to insert into existing key"
      if lk.length ≤ d then none
      else
        let pko := if d = 0 then ko else ko + d
        match lk[d]?, key[d + ko]? with
        | some i, some j =>
          if hi : i.toNat < 16 then
            if hj : j.toNat < 16 then
              let children := splitChildren ⟨_, hi⟩ ⟨_, hj⟩
                (hash keccak (newLeaf (d + 1) lk lv)) (newLeaf (pko + 1) key value)
              if d = 0 then some (.branch ko children)
              else some (.ext ko (lk.take d) (.branch pko children))
            else none
          else none
        | _, _ => none
  | .empty ko, key, value => insertEmpty ko key value
  -- "trying to insert into hash"
  | .hashed _, _, _ => none

/-- A branch's insert into its child at `idx`: a nil child is first made an
empty node at the next offset. -/
def insertChild (ko : Nat) : Option StackTrie → List UInt8 → List UInt8 → Option StackTrie
  | none, key, value => insertEmpty ko key value
  | some c, key, value => insert c key value

end

/-! ### What insert does at each kind of node -/

theorem getElem?_of_drop_eq {K p rest : List UInt8} {d : Nat} {b : UInt8} (h : K.drop d = p ++ b :: rest) :
    K[p.length + d]? = some b := by
  rw [Nat.add_comm, ← List.getElem?_drop, h]
  simp

theorem drop_of_drop_eq {K p rest : List UInt8} {d : Nat} (h : K.drop d = p ++ rest) :
    K.drop (d + p.length) = rest := by
  rw [← List.drop_drop, h]
  simp

theorem insertEmpty_eq {ko : Nat} {key : List UInt8} (value : List UInt8) (h : ko ≤ key.length) :
    insertEmpty ko key value = some (.leaf ko (key.drop ko) value) := if_pos h

/-- A key that parts from a leaf's chunk after `p` splits the leaf: the old
leaf, hashed at once, and a new leaf under a branch, below an extension for
`p` unless `p` is empty. -/
theorem insert_leaf_fork {ko : Nat} {p a b K lv v : List UInt8} {x y : UInt8} (hxy : x ≠ y)
    (hx : x.toNat < 16) (hy : y.toNat < 16) (hK : K.drop ko = p ++ y :: b) :
    insert keccak (.leaf ko (p ++ x :: a) lv) K v = some
      (if p.length = 0 then
        .branch ko (splitChildren ⟨_, hx⟩ ⟨_, hy⟩ (hash keccak (.leaf (p.length + 1) a lv))
          (.leaf (ko + p.length + 1) b v))
      else .ext ko p (.branch (ko + p.length) (splitChildren ⟨_, hx⟩ ⟨_, hy⟩
        (hash keccak (.leaf (p.length + 1) a lv)) (.leaf (ko + p.length + 1) b v)))) := by
  have hd : getDiffIndex (p ++ x :: a) ko K = some p.length := by
    rw [getDiffIndex, hK]
    exact diffIndex_fork hxy a b p
  have hlen : ¬ (p ++ x :: a).length ≤ p.length := by simp
  have hi : (p ++ x :: a)[p.length]? = some x := by simp
  have hold : newLeaf (p.length + 1) (p ++ x :: a) lv = .leaf (p.length + 1) a lv := by simp [newLeaf]
  -- the new leaf goes one below the branch, wherever the branch is
  have hnew : newLeaf ((if p.length = 0 then ko else ko + p.length) + 1) K v = .leaf (ko + p.length + 1) b v := by
    have hko : (if p.length = 0 then ko else ko + p.length) + 1 = ko + (p ++ [y]).length := by
      rw [List.length_append, List.length_singleton]
      split <;> omega
    have hdrop : K.drop (ko + (p ++ [y]).length) = b := drop_of_drop_eq (by rw [hK]; simp)
    rw [newLeaf, hko, hdrop, List.length_append, List.length_singleton, Nat.add_assoc]
  rw [insert, hd]
  simp only [if_neg hlen, hi, getElem?_of_drop_eq hK, dif_pos hx, dif_pos hy, hold, hnew, List.take_left' rfl]
  split <;> rfl

/-- A key that parts from an extension's chunk after `p` splits it: what is
left of the chunk after the parting nibble goes to an extension above the old
child, hashed at once, and a new leaf next to it under a branch. -/
theorem insert_ext_fork {ko : Nat} {p a b K v : List UInt8} {x y : UInt8} {c : StackTrie} (hxy : x ≠ y)
    (hx : x.toNat < 16) (hy : y.toNat < 16) (hK : K.drop ko = p ++ y :: b) :
    insert keccak (.ext ko (p ++ x :: a) c) K v = some
      (if p.length = 0 then
        .branch ko (splitChildren ⟨_, hx⟩ ⟨_, hy⟩ (hash keccak (if a = [] then c else .ext (p.length + 1) a c))
          (.leaf (ko + p.length + 1) b v))
      else .ext ko p (.branch (ko + p.length) (splitChildren ⟨_, hx⟩ ⟨_, hy⟩
        (hash keccak (if a = [] then c else .ext (p.length + 1) a c)) (.leaf (ko + p.length + 1) b v)))) := by
  have hd : getDiffIndex (p ++ x :: a) ko K = some p.length := by
    rw [getDiffIndex, hK]
    exact diffIndex_fork hxy a b p
  have hlen : p.length ≠ (p ++ x :: a).length := by simp
  have hi : (p ++ x :: a)[p.length]? = some x := by simp
  have hold : (if p.length < (p ++ x :: a).length - 1 then newExt (p.length + 1) (p ++ x :: a) c else c) =
      if a = [] then c else .ext (p.length + 1) a c := by
    by_cases ha : a = []
    · subst ha
      simp
    · rw [if_pos (by simpa using List.length_pos_of_ne_nil ha), if_neg ha]
      simp [newExt]
  have hnew : newLeaf (ko + p.length + 1) K v = .leaf (ko + p.length + 1) b v := by
    have hdrop : K.drop (ko + (p ++ [y]).length) = b := drop_of_drop_eq (by rw [hK]; simp)
    rw [List.length_append, List.length_singleton, ← Nat.add_assoc] at hdrop
    rw [newLeaf, hdrop]
  rw [insert, hd]
  simp only [if_neg hlen, hi, getElem?_of_drop_eq hK, dif_pos hx, dif_pos hy, hold, hnew, List.take_left' rfl]
  split <;> rfl

/-- A key that runs through an extension's chunk goes on into its child. -/
theorem insert_ext_through {ko : Nat} {k rest K v : List UInt8} {c : StackTrie} (hK : K.drop ko = k ++ rest) :
    insert keccak (.ext ko k c) K v = (insert keccak c K v).map fun c' => .ext ko k c' := by
  have hd : getDiffIndex k ko K = some k.length := by
    rw [getDiffIndex, hK]
    exact diffIndex_append rest k
  rw [insert, hd]
  exact if_pos rfl

/-- At a branch the key goes on into the child at its next nibble, after the
nearest elder sibling is hashed. -/
theorem insert_branch_cons {ko : Nat} {cs : Fin 16 → Option StackTrie} {K v rest : List UInt8} {b : UInt8}
    (hK : K.drop ko = b :: rest) (hb : b.toNat < 16) :
    insert keccak (.branch ko cs) K v = (insertChild keccak (ko + 1) (cs ⟨b.toNat, hb⟩) K v).map fun c =>
      .branch ko (Function.update (unresolve keccak cs b.toNat) ⟨b.toNat, hb⟩ (some c)) := by
  have hk : K[ko]? = some b := by simpa using getElem?_of_drop_eq (p := []) hK
  rw [insert, hk]
  simp only [dif_pos hb]

/-- TryUpdate: deletion is not supported. -/
def TryUpdate (st : StackTrie) (key value : List UInt8) : Option StackTrie :=
  if value.length = 0 then none else insert keccak st (Encoding.keybytesToHex key).dropLast value

/-- Hash: a `val` that is not a 32-byte hash is hashed once more. -/
def Hash (st : StackTrie) : Vector UInt8 32 :=
  let v := hashVal keccak st
  if h : v.length = 32 then ⟨v.toArray, by simpa using h⟩ else keccak v

/-- A run of TryUpdate calls: none when one of them panics. -/
def updates (st : StackTrie) : List (List UInt8 × List UInt8) → Option StackTrie
  | [] => some st
  | (key, value) :: kvs => (TryUpdate keccak st key value).bind fun st' => updates st' kvs

end Hashing

end StackTrie

end Xdchain.Trie.Patricia
