import Xdchain.Trie.StackTrie
import Xdchain.Trie.Proof

/-! # The stack trie computes the trie's hash

A stack trie fed its keys in order builds, step by step, the trie that
`trie.go` would build from the same updates; only the subtrees left of the
key path are already hashed.

* `Sim d st n`: the stack trie node `st` at offset `d` stands for the trie
  node `n`. A leaf stands for a short node to a value and an extension for
  a short node to a full node. A branch stands for a full node with nothing
  in its value slot, and a hashed node for any good node whose sealed
  encoding it holds. Then `hashVal` is the sealed encoding of `n`
  (`hashVal_sim`).
* `Open st`: the right edge of the stack trie is not hashed yet.
* `insert_sim`: a key that comes after every key of `n` goes in on both
  sides alike. The four cases of the stack trie's insert meet the cases of
  the trie's insert: the empty node and a new child of a branch meet the nil
  node, a branch meets a full node, and the split of a leaf or of an
  extension meets the split of a short node.
* `updates_Hash_eq`: for keys in increasing order, no key a prefix of
  another, the stack trie's Hash is the Hash of the trie. -/

namespace Xdchain.Trie.Patricia

namespace StackTrie

open Xdchain.Rlp Xdchain.Lib.Prefix

/-! ## Encodings -/

theorem encAll_eq_flatten (xs : List Item) : Item.encAll xs = (xs.map Item.enc).flatten := by
  induction xs with
  | nil => rfl
  | cons x xs ih => rw [encAll_cons, ih, List.map_cons, List.flatten_cons]

/-- Writing encoded elements under a list header is encoding the list. -/
theorem encodeParts_map_enc (xs : List Item) : encodeParts (xs.map Item.enc) = (Item.list xs).enc := by
  rw [encodeParts, enc_list, encAll_eq_flatten]

/-- The in-place packer gives a leaf the compact key of `hexToCompact`. -/
theorem compactKey_eq (k : List UInt8) :
    compactKey (k ++ [16]) = Encoding.hexToCompact (k ++ [16]) := by
  rw [compactKey, Encoding.hexToCompactInPlace_eq (by simp)]
  exact List.take_left' rfl

section Hashing

variable (keccak : List UInt8 → Vector UInt8 32)

/-- A parent writes a hashed child as the trie's hasher refers to it. -/
theorem childPart_sealVal (e : Item) : childPart (sealVal keccak e.enc) = (ref keccak e).enc := by
  unfold sealVal ref
  by_cases h : e.enc.length < 32
  · rw [if_pos h, if_pos h, childPart, if_pos h]
  · rw [if_neg h, if_neg h, childPart, if_neg (by simp), enc_str]

theorem hashVal_leaf (ko : Nat) (k v : List UInt8) :
    hashVal keccak (.leaf ko k v) = sealVal keccak (encodeNode keccak (.short (k ++ [16]) (.value v))).enc := by
  rw [hashVal, encodeNode_leaf, compactKey_eq, ← encodeParts_map_enc]
  rfl

theorem hashVal_ext (ko : Nat) (k : List UInt8) {c : StackTrie} {ns : Fin 17 → Node}
    (hc : hashVal keccak c = sealVal keccak (encodeNode keccak (.full ns)).enc) :
    hashVal keccak (.ext ko k c) = sealVal keccak (encodeNode keccak (.short k (.full ns))).enc := by
  rw [hashVal, hc, childPart_sealVal, encodeNode_ext, ← encodeParts_map_enc]
  rfl

/-- A branch hashes as the full node whose children it writes. -/
theorem hashVal_branch (ko : Nat) {cs : Fin 16 → Option StackTrie} {ns : Fin 17 → Node}
    (hc : ∀ i : Fin 16, childVal keccak (cs i) =
      (childItem keccak (ns i.castSucc) (encodeNode keccak (ns i.castSucc))).enc)
    (hlast : ns (Fin.last 16) = .nil) :
    hashVal keccak (.branch ko cs) = sealVal keccak (encodeNode keccak (.full ns)).enc := by
  rw [hashVal, encodeNode, ← encodeParts_map_enc, List.map_ofFn]
  congr 3
  funext i
  by_cases hi : i.val < 16
  · rw [dif_pos hi, Function.comp_apply, if_pos hi, hc ⟨i.val, hi⟩]
    rfl
  · have hl : i = Fin.last 16 := Fin.ext (by rw [Fin.val_last]; omega)
    subst hl
    rw [dif_neg hi, Function.comp_apply, if_neg hi, hlast]
    rfl

/-! ## Stack trie nodes that stand for trie nodes -/

/-- `Sim d st n`: the stack trie node `st`, at offset `d` of the key, stands
for the trie node `n`. -/
inductive Sim : Nat → StackTrie → Node → Prop
  | leaf (d : Nat) (k v : List UInt8) : Sim d (.leaf d k v) (.short (k ++ [16]) (.value v))
  | ext {d : Nat} {k : List UInt8} {c : StackTrie} {ns : Fin 17 → Node} (hk : k ≠ [])
      (h : Sim (d + k.length) c (.full ns)) : Sim d (.ext d k c) (.short k (.full ns))
  | branch {d : Nat} {cs : Fin 16 → Option StackTrie} {ns : Fin 17 → Node}
      (hnone : ∀ i, cs i = none → ns i.castSucc = .nil)
      (hsome : ∀ i c, cs i = some c → Sim (d + 1) c (ns i.castSucc))
      (hlast : ns (Fin.last 16) = .nil) : Sim d (.branch d cs) (.full ns)
  | hashed {d : Nat} {n : Node} (hn : Good n) : Sim d (.hashed (sealVal keccak (encodeNode keccak n).enc)) n

variable {keccak}

/-- What a stack trie node stands for is a short or a full node. -/
theorem Sim.shape {d : Nat} {st : StackTrie} {n : Node} (h : Sim keccak d st n) :
    (∃ k c, n = .short k c) ∨ ∃ ns, n = .full ns := by
  cases h with
  | leaf => exact .inl ⟨_, _, rfl⟩
  | ext => exact .inl ⟨_, _, rfl⟩
  | branch => exact .inr ⟨_, rfl⟩
  | hashed hn => exact hn.shape

theorem Sim.ne_nil {d : Nat} {st : StackTrie} {n : Node} (h : Sim keccak d st n) : n ≠ .nil := by
  rcases h.shape with ⟨k, c, rfl⟩ | ⟨ns, rfl⟩ <;> exact fun h => by cases h

/-- A child a branch writes is what the trie's hasher writes for it. -/
theorem childVal_sim {d : Nat} {o : Option StackTrie} {n : Node}
    (hnone : o = none → n = .nil) (hsome : ∀ c, o = some c → Sim keccak d c n ∧
      hashVal keccak c = sealVal keccak (encodeNode keccak n).enc) :
    childVal keccak o = (childItem keccak n (encodeNode keccak n)).enc := by
  cases o with
  | none =>
    rw [hnone rfl]
    rfl
  | some c =>
    obtain ⟨hs, hv⟩ := hsome c rfl
    rw [childVal, hv, childPart_sealVal]
    rcases hs.shape with ⟨k, c', rfl⟩ | ⟨ns, rfl⟩ <;> rfl

/-- **A stack trie node hashes as the node it stands for.** By induction on
the relation; a branch writes each child as the trie's hasher does. -/
theorem hashVal_sim {d : Nat} {st : StackTrie} {n : Node} (h : Sim keccak d st n) :
    hashVal keccak st = sealVal keccak (encodeNode keccak n).enc := by
  induction h with
  | leaf d k v => exact hashVal_leaf keccak d k v
  | ext _ _ ih => exact hashVal_ext keccak _ _ ih
  | branch hnone hsome hlast ih =>
    exact hashVal_branch keccak _
      (fun i => childVal_sim (hnone i) fun c hc => ⟨hsome i c hc, ih i c hc⟩) hlast
  | hashed => rfl

/-- Hashing keeps what a node stands for, at any offset. -/
theorem Sim.hash {d : Nat} {st : StackTrie} {n : Node} (h : Sim keccak d st n) (hg : Good n) (d' : Nat) :
    Sim keccak d' (hash keccak st) n := by
  rw [StackTrie.hash, hashVal_sim h]
  exact .hashed hg

/-! ## The open right edge -/

/-- The right edge of a stack trie is not hashed yet: the child of an
extension and the last child of a branch are open in turn. -/
inductive Open : StackTrie → Prop
  | leaf (ko : Nat) (k v : List UInt8) : Open (.leaf ko k v)
  | ext {ko : Nat} {k : List UInt8} {c : StackTrie} (h : Open c) : Open (.ext ko k c)
  | branch {ko : Nat} {cs : Fin 16 → Option StackTrie}
      (h : ∀ i c, cs i = some c → (∀ j, i < j → cs j = none) → Open c) : Open (.branch ko cs)

theorem Open.child {ko : Nat} {cs : Fin 16 → Option StackTrie} (h : Open (.branch ko cs)) {i : Fin 16}
    {c : StackTrie} (hc : cs i = some c) (hlast : ∀ j, i < j → cs j = none) : Open c := by
  cases h with
  | branch h => exact h i c hc hlast

/-! ## Keys that come before the new one -/

/-- Every key that `n` holds comes before `key` (both without the terminator). -/
def KeysBefore (n : Node) (key : List UInt8) : Prop :=
  ∀ body, Holds n (body ++ [16]) → Before (· < ·) body key

theorem KeysBefore.ne_nil {n : Node} {key : List UInt8} (h : KeysBefore n key) (hg : Good n) : key ≠ [] := by
  obtain ⟨r, hr⟩ := hg.exists_holds
  obtain ⟨body, -, rfl⟩ := hr.1
  rintro rfl
  exact not_before_nil body (h body hr)

theorem KeysBefore.short_through {k rest : List UInt8} {c : Node} (h : KeysBefore (.short k c) (k ++ rest))
    (hn : Nibbles k) : KeysBefore c rest := by
  intro body hbody
  have hB := h (k ++ body) (by rw [List.append_assoc]; exact hbody.short_append hn)
  exact hB.of_append UInt8.lt_irrefl

/-- A child of a full node holds keys under the byte of its index. -/
theorem holds_full_castSucc {ns : Fin 17 → Node} {i : Fin 16} {r : List UInt8} (h : Holds (ns i.castSucc) r) :
    Holds (.full ns) (UInt8.ofNat i.val :: r) :=
  have hlt : UInt8.ofNat i.castSucc.val < 16 := lt_16_iff.mpr (by rw [toNat_ofNat_fin]; exact i.isLt)
  Holds.full_ofNat (hexKey_cons.mpr (.inr ⟨hlt, h.1⟩)) h.2

theorem ofNat_castSucc_toNat (i : Fin 16) : (UInt8.ofNat i.val).toNat = i.val := toNat_ofNat_fin i.castSucc

/-- Keys below the child at `b` come before the rest of the key. -/
theorem KeysBefore.child {ns : Fin 17 → Node} {b : UInt8} {rest : List UInt8}
    (h : KeysBefore (.full ns) (b :: rest)) (hb : b.toNat < 16) :
    KeysBefore (ns (Fin.castSucc ⟨b.toNat, hb⟩)) rest := by
  intro body hbody
  have hB := h (UInt8.ofNat b.toNat :: body) (holds_full_castSucc hbody)
  rw [UInt8.ofNat_toNat] at hB
  rcases Before.cons_iff.mp hB with hlt | ⟨-, h'⟩
  · exact absurd hlt (UInt8.lt_irrefl b)
  · exact h'

/-- No child of a good full node lies right of the byte `b` where the key
goes on. -/
theorem KeysBefore.index_le {ns : Fin 17 → Node} {b : UInt8} {rest : List UInt8}
    (h : KeysBefore (.full ns) (b :: rest)) (hg : Good (.full ns)) {i : Fin 16} (hi : ns i.castSucc ≠ .nil) :
    i.val ≤ b.toNat := by
  have hc : Good (ns i.castSucc) := ((hg.children i.castSucc).nil_or_good (by simp)).resolve_left hi
  obtain ⟨r, hr⟩ := hc.exists_holds
  obtain ⟨body, -, rfl⟩ := hr.1
  have hB := h (UInt8.ofNat i.val :: body) (holds_full_castSucc hr)
  rcases Before.cons_iff.mp hB with hlt | ⟨heq, -⟩
  · have := UInt8.lt_iff_toNat_lt.mp hlt
    rw [ofNat_castSucc_toNat] at this
    exact this.le
  · have := congrArg UInt8.toNat heq
    rw [ofNat_castSucc_toNat] at this
    exact this.le

/-! ## Splitting a short node -/

/-- The trie's insert at a short node whose key parts from the new one after
`p`: a full node with the two parts, below a short node for `p` unless `p` is
empty. -/
theorem insert_short_fork {p a b : List UInt8} {x y : UInt8} (hxy : x ≠ y) (hx : x.toNat < 17)
    (hy : y.toNat < 17) (val value : Node) :
    Patricia.insert (.short (p ++ x :: a) val) (p ++ y :: b) value = some (true,
      if p.length = 0 then
        .full (Function.update (Function.update (fun _ => .nil) ⟨_, hx⟩ (insertNil a val).2) ⟨_, hy⟩
          (insertNil b value).2)
      else .short p (.full (Function.update (Function.update (fun _ => .nil) ⟨_, hx⟩ (insertNil a val).2)
        ⟨_, hy⟩ (insertNil b value).2))) := by
  obtain ⟨c, r, hcr⟩ : ∃ c r, p ++ y :: b = c :: r := List.exists_cons_of_ne_nil (by simp)
  have hlen : prefixLen (c :: r) (p ++ x :: a) = p.length := by
    rw [← hcr, prefixLen, commonPrefixLen_append_self, commonPrefixLen_cons, if_neg (Ne.symm hxy), Nat.add_zero]
  have hk : (p ++ x :: a)[p.length]? = some x := by simp
  have hkey : (c :: r)[p.length]? = some y := by rw [← hcr]; simp
  have hne : p.length ≠ (p ++ x :: a).length := by simp
  have hdk : (p ++ x :: a).drop (p.length + 1) = a := by simp
  have hdkey : (c :: r).drop (p.length + 1) = b := by rw [← hcr]; simp
  have htake : (c :: r).take p.length = p := by rw [← hcr]; simp
  rw [hcr]
  simp only [Patricia.insert, hlen, if_neg hne, hk, hkey, dif_pos hx, dif_pos hy, hdk, hdkey, htake]
  split <;> rfl

/-- The branch a split makes stands for the full node the trie's insert
makes, and its right edge is the new leaf. -/
theorem sim_splitChildren {d : Nat} {x y : UInt8} (hx : x.toNat < 16) (hy : y.toNat < 16)
    (hxy : x.toNat < y.toNat) {old new : StackTrie} {oldN newN : Node}
    (hold : hashVal keccak old = sealVal keccak (encodeNode keccak oldN).enc) (hgold : Good oldN)
    (hnew : Sim keccak (d + 1) new newN) (hopen : Open new) :
    Sim keccak d (.branch d (splitChildren ⟨_, hx⟩ ⟨_, hy⟩ (hash keccak old) new))
        (.full (Function.update (Function.update (fun _ => .nil) ⟨x.toNat, by omega⟩ oldN)
          ⟨y.toNat, by omega⟩ newN)) ∧
      Open (.branch d (splitChildren ⟨_, hx⟩ ⟨_, hy⟩ (hash keccak old) new)) := by
  have hcast : ∀ i : Fin 16, ∀ z : UInt8, ∀ hz : z.toNat < 16,
      (i.castSucc = ⟨z.toNat, by omega⟩ ↔ i = ⟨z.toNat, hz⟩) := fun i z hz => by
    simp [Fin.ext_iff]
  refine ⟨.branch (fun i hi => ?_) (fun i c hc => ?_) ?_, .branch fun i c hc hlast => ?_⟩
  · -- an empty slot of the split is an empty slot of the full node
    simp only [splitChildren, Function.update_apply] at hi
    split_ifs at hi with h1 h2
    rw [Function.update_of_ne (by rwa [Ne, hcast]), Function.update_of_ne (by rwa [Ne, hcast])]
  · simp only [splitChildren, Function.update_apply] at hc
    split_ifs at hc with h1 h2
    · cases hc
      rw [(hcast i y hy).mpr h1, Function.update_self]
      exact hnew
    · cases hc
      rw [(hcast i x hx).mpr h2, Function.update_of_ne (by simp [Fin.ext_iff]; omega), Function.update_self,
        StackTrie.hash, hold]
      exact .hashed hgold
  · rw [Function.update_of_ne (by simp [Fin.ext_iff]; omega), Function.update_of_ne (by simp [Fin.ext_iff]; omega)]
  · -- only the new leaf has nothing to its right
    by_cases hiy : i = ⟨y.toNat, hy⟩
    · subst hiy
      simp only [splitChildren, Function.update_self] at hc
      cases hc
      exact hopen
    · have hix : i = ⟨x.toNat, hx⟩ := by
        by_contra hix
        simp [splitChildren, hiy, hix] at hc
      have hy' := hlast ⟨y.toNat, hy⟩ (by rw [hix]; exact Fin.mk_lt_mk.mpr hxy)
      simp [splitChildren] at hy'

/-- The node a split leaves, with a short node for the common front unless
it is empty. -/
theorem sim_split {d : Nat} {p : List UInt8} {x y : UInt8} (hx : x.toNat < 16) (hy : y.toNat < 16)
    (hxy : x.toNat < y.toNat) {old new : StackTrie} {oldN newN : Node}
    (hold : hashVal keccak old = sealVal keccak (encodeNode keccak oldN).enc) (hgold : Good oldN)
    (hnew : Sim keccak (d + p.length + 1) new newN) (hopen : Open new) :
    Sim keccak d
        (if p.length = 0 then .branch d (splitChildren ⟨_, hx⟩ ⟨_, hy⟩ (hash keccak old) new)
        else .ext d p (.branch (d + p.length) (splitChildren ⟨_, hx⟩ ⟨_, hy⟩ (hash keccak old) new)))
        (if p.length = 0 then
          .full (Function.update (Function.update (fun _ => .nil) ⟨x.toNat, by omega⟩ oldN) ⟨y.toNat, by omega⟩ newN)
        else .short p (.full (Function.update (Function.update (fun _ => .nil) ⟨x.toNat, by omega⟩ oldN)
          ⟨y.toNat, by omega⟩ newN))) ∧
      Open (if p.length = 0 then .branch d (splitChildren ⟨_, hx⟩ ⟨_, hy⟩ (hash keccak old) new)
        else .ext d p (.branch (d + p.length) (splitChildren ⟨_, hx⟩ ⟨_, hy⟩ (hash keccak old) new))) := by
  obtain ⟨hs, ho⟩ := sim_splitChildren (d := d + p.length) hx hy hxy hold hgold hnew hopen
  by_cases hp : p.length = 0
  · rw [if_pos hp, if_pos hp]
    rw [hp, Nat.add_zero] at hs ho
    exact ⟨hs, ho⟩
  · rw [if_neg hp, if_neg hp]
    exact ⟨.ext (List.ne_nil_of_length_pos (by omega)) hs, .ext ho⟩

/-! ## One insert on both sides -/

theorem insertNil_snd_of_ne {key : List UInt8} (h : key ≠ []) (value : Node) :
    (insertNil key value).2 = .short key value := by
  rw [insertNil, if_neg h]

theorem nibble_lt {K : List UInt8} (hK : Nibbles K) {d : Nat} {p b : List UInt8} {y : UInt8}
    (h : K.drop d = p ++ y :: b) : y.toNat < 16 :=
  lt_16_iff.mp (hK y (List.mem_of_mem_drop (by rw [h]; simp)))

/-- What a leaf's insert and the trie's insert at the short node to the
value make: a split where the key parts from the leaf's. -/
theorem insert_sim_leaf {d : Nat} {lk lv : List UInt8} (hg : Good (.short (lk ++ [16]) (.value lv)))
    {K v : List UInt8} (hK : Nibbles K) (hb : KeysBefore (.short (lk ++ [16]) (.value lv)) (K.drop d)) :
    ∃ st' n', insert keccak (.leaf d lk lv) K v = some st' ∧
      Patricia.insert (.short (lk ++ [16]) (.value lv)) (K.drop d ++ [16]) (.value v) = some (true, n') ∧
      Sim keccak d st' n' ∧ Open st' := by
  obtain ⟨hk, hlv⟩ : HexKey (lk ++ [16]) ∧ lv ≠ [] := by
    cases hg with
    | leaf hk hv => exact ⟨hk, hv⟩
  have hlk : Nibbles lk := by
    obtain ⟨body, hbody, he⟩ := hk
    rwa [List.append_cancel_right he]
  -- the leaf's own key comes before the new one, so they part inside the chunk
  obtain ⟨p, x, y, a, b, hxy, rfl, hKd⟩ := hb lk ((holds_leaf hk hlv).mpr rfl)
  have hx : x.toNat < 16 := lt_16_iff.mp (hlk x (by simp))
  have hy : y.toNat < 16 := nibble_lt hK hKd
  have hxy' : x.toNat < y.toNat := UInt8.lt_iff_toNat_lt.mp hxy
  have hna : Nibbles a := fun z hz => hlk z (by simp [hz])
  have hpat := insert_short_fork (p := p) (a := a ++ [16]) (b := b ++ [16]) (UInt8.ne_of_lt hxy)
    (by omega) (by omega) (.value lv) (.value v)
  rw [List.append_assoc, List.cons_append, show K.drop d ++ [16] = p ++ y :: (b ++ [16]) by rw [hKd]; simp]
  refine ⟨_, _, insert_leaf_fork keccak (UInt8.ne_of_lt hxy) hx hy hKd, hpat,
    sim_split hx hy hxy' ?_ ?_ ?_ (.leaf _ _ _)⟩
  · rw [insertNil_snd_of_ne (by simp)]
    exact hashVal_leaf keccak _ a lv
  · rw [insertNil_snd_of_ne (by simp)]
    exact .leaf ⟨a, hna, rfl⟩ hlv
  · rw [insertNil_snd_of_ne (by simp)]
    exact .leaf _ b v

/-- What an extension's insert and the trie's insert at the short node to a
full node make: the child's insert where the key runs through the chunk, a
split where it parts from it. -/
theorem insert_sim_ext {d : Nat} {ek : List UInt8} {c : StackTrie} {ns : Fin 17 → Node} (hk : ek ≠ [])
    (hc : Sim keccak (d + ek.length) c (.full ns))
    (ih : Open c → Good (.full ns) → ∀ {K v : List UInt8}, Nibbles K → v ≠ [] →
      KeysBefore (.full ns) (K.drop (d + ek.length)) →
      ∃ st' n', insert keccak c K v = some st' ∧
        Patricia.insert (.full ns) (K.drop (d + ek.length) ++ [16]) (.value v) = some (true, n') ∧
        Sim keccak (d + ek.length) st' n' ∧ Open st')
    (ho : Open (.ext d ek c)) (hg : Good (.short ek (.full ns))) {K v : List UInt8} (hK : Nibbles K)
    (hv : v ≠ []) (hb : KeysBefore (.short ek (.full ns)) (K.drop d)) :
    ∃ st' n', insert keccak (.ext d ek c) K v = some st' ∧
      Patricia.insert (.short ek (.full ns)) (K.drop d ++ [16]) (.value v) = some (true, n') ∧
      Sim keccak d st' n' ∧ Open st' := by
  obtain ⟨hn, hf⟩ : Nibbles ek ∧ Good (.full ns) := by
    cases hg with
    | ext _ hn hf => exact ⟨hn, hf⟩
  have hoc : Open c := by
    cases ho with
    | ext h => exact h
  by_cases hpre : ek <+: K.drop d
  · -- the key runs through the chunk: insert into the child on both sides
    obtain ⟨rest, hrest⟩ := hpre
    have hdrop : K.drop (d + ek.length) = rest := drop_of_drop_eq hrest.symm
    obtain ⟨st', n', hins, hpat, hsim, hopen⟩ :=
      ih hoc hf hK hv (by rw [hdrop]; rw [← hrest] at hb; exact hb.short_through hn)
    rw [hdrop] at hpat
    obtain ⟨r, l, hr⟩ := List.exists_cons_of_ne_nil (show rest ++ [16] ≠ [] by simp)
    obtain ⟨ns', rfl⟩ := insert_full_shape (show Patricia.insert (.full ns) (r :: l) (.value v) = some (true, n') by
      rw [← hr]
      exact hpat)
    refine ⟨_, _, by rw [insert_ext_through keccak hrest.symm, hins]; rfl, ?_, .ext hk hsim, .ext hopen⟩
    rw [insert_short_through (by simp) _ _ (by rw [← hrest, List.append_assoc]; exact List.prefix_append _ _),
      ← hrest, List.append_assoc, List.drop_left, hpat]
  · -- the keys below part from the new one inside the chunk: a split
    obtain ⟨r, hr⟩ := hf.exists_holds
    obtain ⟨body, -, rfl⟩ := hr.1
    have hB := hb (ek ++ body) (by rw [List.append_assoc]; exact hr.short_append hn)
    have hnp : ¬ K.drop d <+: ek := fun h => hB.not_prefix UInt8.lt_irrefl (h.trans (List.prefix_append _ _))
    obtain ⟨p, x, y, a, b, hxy, rfl, hKd⟩ := exists_fork hpre hnp
    have hlt : x < y := by
      rw [List.append_assoc, List.cons_append, hKd] at hB
      exact hB.rel_of_fork UInt8.lt_irrefl hxy
    have hx : x.toNat < 16 := lt_16_iff.mp (hn x (by simp))
    have hy : y.toNat < 16 := nibble_lt hK hKd
    have hna : Nibbles a := fun z hz => hn z (by simp [hz])
    have hpat := insert_short_fork (p := p) (a := a) (b := b ++ [16]) hxy (by omega) (by omega)
      (.full ns) (.value v)
    rw [show K.drop d ++ [16] = p ++ y :: (b ++ [16]) by rw [hKd]; simp]
    refine ⟨_, _, insert_ext_fork keccak hxy hx hy hKd, hpat,
      sim_split hx hy (UInt8.lt_iff_toNat_lt.mp hlt) ?_ ?_ ?_ (.leaf _ _ _)⟩
    · -- the old part: the child itself, or an extension above it
      by_cases ha : a = []
      · subst ha
        rw [if_pos rfl]
        exact hashVal_sim hc
      · rw [if_neg ha, insertNil_snd_of_ne ha]
        exact hashVal_ext keccak _ a (hashVal_sim hc)
    · by_cases ha : a = []
      · subst ha
        exact hf
      · rw [insertNil_snd_of_ne ha]
        exact .ext ha hna hf
    · rw [insertNil_snd_of_ne (by simp)]
      exact .leaf _ b v

/-- A branch whose child at `b` is replaced, after the loop that hashes the
nearest elder sibling, still stands for the full node updated at `b`. -/
theorem Sim.branch_update {d : Nat} {cs : Fin 16 → Option StackTrie} {ns : Fin 17 → Node}
    (hnone : ∀ i, cs i = none → ns i.castSucc = .nil)
    (hsome : ∀ i c, cs i = some c → Sim keccak (d + 1) c (ns i.castSucc))
    (hlast : ns (Fin.last 16) = .nil) (hgood : ∀ i c, cs i = some c → Good (ns i.castSucc))
    (b : Fin 16) {c' : StackTrie} {n' : Node} (hc' : Sim keccak (d + 1) c' n') :
    Sim keccak d (.branch d (Function.update (unresolve keccak cs b.val) b (some c')))
      (.full (Function.update ns b.castSucc n')) := by
  refine .branch (fun i hi => ?_) (fun i c hc => ?_) ?_
  · by_cases hib : i = b
    · subst hib
      simp at hi
    · rw [Function.update_of_ne hib] at hi
      rw [Function.update_of_ne (by rwa [Ne, Fin.castSucc_inj])]
      rcases unresolve_cases keccak cs b.val i with h | ⟨c, -, h⟩
      · exact hnone i (h ▸ hi)
      · rw [h] at hi
        cases hi
  · by_cases hib : i = b
    · subst hib
      rw [Function.update_self] at hc
      cases hc
      rw [Function.update_self]
      exact hc'
    · rw [Function.update_of_ne hib] at hc
      rw [Function.update_of_ne (by rwa [Ne, Fin.castSucc_inj])]
      rcases unresolve_cases keccak cs b.val i with h | ⟨c₀, hc₀, h⟩
      · exact hsome i c (h ▸ hc)
      · -- the elder sibling the loop hashed
        rw [h] at hc
        cases hc
        exact (hsome i c₀ hc₀).hash (hgood i c₀ hc₀) (d + 1)
  · rw [Function.update_of_ne (Fin.castSucc_lt_last b).ne']
    exact hlast

/-- After the insert, the child at `b` is the last of the branch. -/
theorem Open.branch_update {ko : Nat} {cs : Fin 16 → Option StackTrie} (b : Fin 16)
    (hmax : ∀ i, cs i ≠ none → i.val ≤ b.val) {c' : StackTrie} (hc' : Open c') :
    Open (.branch ko (Function.update (unresolve keccak cs b.val) b (some c'))) := by
  refine .branch fun i c hc hlast => ?_
  by_cases hib : i = b
  · subst hib
    rw [Function.update_self] at hc
    cases hc
    exact hc'
  · rw [Function.update_of_ne hib] at hc
    rcases Nat.lt_or_gt_of_ne (Fin.val_ne_of_ne hib) with hlt | hgt
    · -- an elder sibling has the child at `b` to its right
      have := hlast b hlt
      simp at this
    · -- nothing stands right of `b`
      rw [unresolve_of_le keccak cs b.val i hgt.le] at hc
      have := hmax i (by rw [hc]; simp)
      omega

/-- What a branch's insert and the trie's insert at the full node make: the
child at the key's next nibble takes the key, on both sides. -/
theorem insert_sim_branch {d : Nat} {cs : Fin 16 → Option StackTrie} {ns : Fin 17 → Node}
    (hnone : ∀ i, cs i = none → ns i.castSucc = .nil)
    (hsome : ∀ i c, cs i = some c → Sim keccak (d + 1) c (ns i.castSucc))
    (hlast : ns (Fin.last 16) = .nil)
    (ih : ∀ i c, cs i = some c → Open c → Good (ns i.castSucc) → ∀ {K v : List UInt8}, Nibbles K → v ≠ [] →
      KeysBefore (ns i.castSucc) (K.drop (d + 1)) →
      ∃ st' n', insert keccak c K v = some st' ∧
        Patricia.insert (ns i.castSucc) (K.drop (d + 1) ++ [16]) (.value v) = some (true, n') ∧
        Sim keccak (d + 1) st' n' ∧ Open st')
    (ho : Open (.branch d cs)) (hg : Good (.full ns)) {K v : List UInt8} (hK : Nibbles K) (hv : v ≠ [])
    (hb : KeysBefore (.full ns) (K.drop d)) :
    ∃ st' n', insert keccak (.branch d cs) K v = some st' ∧
      Patricia.insert (.full ns) (K.drop d ++ [16]) (.value v) = some (true, n') ∧
      Sim keccak d st' n' ∧ Open st' := by
  obtain ⟨b, rest, hKd⟩ := List.exists_cons_of_ne_nil (hb.ne_nil hg)
  have hb16 : b.toNat < 16 := nibble_lt hK (p := []) hKd
  have hrest : K.drop (d + 1) = rest := drop_of_drop_eq (p := [b]) hKd
  rw [hKd] at hb
  have hgood : ∀ i c, cs i = some c → Good (ns i.castSucc) := fun i c hc =>
    ((hg.children _).nil_or_good (by simp)).resolve_left (hsome i c hc).ne_nil
  -- no child stands right of the key's nibble
  have hmax : ∀ i, cs i ≠ none → i.val ≤ b.toNat := fun i hi => by
    obtain ⟨c, hc⟩ := Option.ne_none_iff_exists'.mp hi
    exact hb.index_le hg (hsome i c hc).ne_nil
  obtain ⟨c', n', hins, hpat, hsim, hopen⟩ : ∃ c' n', insertChild keccak (d + 1) (cs ⟨b.toNat, hb16⟩) K v = some c' ∧
      Patricia.insert (ns (Fin.castSucc ⟨b.toNat, hb16⟩)) (rest ++ [16]) (.value v) = some (true, n') ∧
      Sim keccak (d + 1) c' n' ∧ Open c' := by
    cases hc : cs ⟨b.toNat, hb16⟩ with
    | none =>
      -- a new leaf under an empty slot
      have hle : d + 1 ≤ K.length := by
        have := congrArg List.length hKd
        simp at this
        omega
      refine ⟨.leaf (d + 1) (K.drop (d + 1)) v, .short (K.drop (d + 1) ++ [16]) (.value v), insertEmpty_eq v hle,
        ?_, .leaf _ _ _, .leaf _ _ _⟩
      rw [hnone _ hc, insert_nil_node (by simp), hrest]
    | some c =>
      -- the child at the nibble is the last one, so it is open
      have hoc : Open c := ho.child hc fun j hj => by
        by_contra hne
        have := hmax j hne
        simp [Fin.lt_def] at hj
        omega
      obtain ⟨st', n', h1, h2, h3, h4⟩ := ih _ c hc hoc (hgood _ c hc) hK hv (by rw [hrest]; exact hb.child hb16)
      rw [hrest] at h2
      exact ⟨st', n', h1, h2, h3, h4⟩
  refine ⟨_, _, by rw [insert_branch_cons keccak hKd hb16, hins]; rfl, ?_,
    Sim.branch_update hnone hsome hlast hgood ⟨b.toNat, hb16⟩ hsim,
    Open.branch_update ⟨b.toNat, hb16⟩ hmax hopen⟩
  rw [hKd, List.cons_append, insert_full_cons, dif_pos (by omega)]
  simp only [Fin.castSucc_mk] at hpat
  rw [hpat]
  rfl

/-- **One insert on both sides.** A stack trie node at offset `d` that
stands for a good node, with its right edge open, takes a key that comes
after every key of the node as the trie's insert does: the two results stand
for each other, and the right edge is still open. By induction on the
relation. -/
theorem insert_sim {d : Nat} {st : StackTrie} {n : Node} (hs : Sim keccak d st n) :
    Open st → Good n → ∀ {K v : List UInt8}, Nibbles K → v ≠ [] → KeysBefore n (K.drop d) →
      ∃ st' n', insert keccak st K v = some st' ∧
        Patricia.insert n (K.drop d ++ [16]) (.value v) = some (true, n') ∧
        Sim keccak d st' n' ∧ Open st' := by
  induction hs with
  | leaf d lk lv => exact fun _ hg _ _ hK _ hb => insert_sim_leaf hg hK hb
  | ext hk hc ih => exact fun ho hg _ _ hK hv hb => insert_sim_ext hk hc ih ho hg hK hv hb
  | branch hnone hsome hlast ih =>
    exact fun ho hg _ _ hK hv hb => insert_sim_branch hnone hsome hlast ih ho hg hK hv hb
  | hashed => exact fun ho => by cases ho

/-! ## Runs of TryUpdate -/

theorem keybytesToHex_eq_dropLast (key : List UInt8) :
    Encoding.keybytesToHex key = (Encoding.keybytesToHex key).dropLast ++ [16] := by
  rw [Encoding.keybytesToHex, List.dropLast_concat]

theorem nibbles_dropLast (key : List UInt8) : Nibbles (Encoding.keybytesToHex key).dropLast := by
  obtain ⟨body, hbody, he⟩ := keybytesToHex_hexKey key
  rw [keybytesToHex_eq_dropLast] at he
  rwa [List.append_cancel_right he]

/-- Byte keys in order give nibble keys in order. -/
theorem before_dropLast {a b : List UInt8} (h : Before (· < ·) a b) :
    Before (· < ·) (Encoding.keybytesToHex a).dropLast (Encoding.keybytesToHex b).dropLast := by
  rw [Encoding.keybytesToHex, Encoding.keybytesToHex, List.dropLast_concat, List.dropLast_concat]
  obtain ⟨p, x, y, a', b', hxy, rfl, rfl⟩ := h
  have hxy' := UInt8.lt_iff_toNat_lt.mp hxy
  simp only [List.flatMap_append, List.flatMap_cons, List.cons_append, List.nil_append]
  by_cases hd : x / 16 = y / 16
  · -- the bytes part at their low nibbles
    refine ⟨p.flatMap (fun c => [c / 16, c % 16]) ++ [x / 16], x % 16, y % 16,
      a'.flatMap (fun c => [c / 16, c % 16]), b'.flatMap (fun c => [c / 16, c % 16]), ?_, by simp, by simp [hd]⟩
    show x % 16 < y % 16
    have := congrArg UInt8.toNat hd
    rw [UInt8.toNat_div, UInt8.toNat_div, show (16 : UInt8).toNat = 16 from rfl] at this
    rw [UInt8.lt_iff_toNat_lt, UInt8.toNat_mod, UInt8.toNat_mod, show (16 : UInt8).toNat = 16 from rfl]
    omega
  · refine ⟨p.flatMap (fun c => [c / 16, c % 16]), x / 16, y / 16, _, _, ?_, rfl, rfl⟩
    show x / 16 < y / 16
    have : (x / 16).toNat ≠ (y / 16).toNat := fun h => hd (UInt8.toNat_inj.mp h)
    rw [UInt8.toNat_div, UInt8.toNat_div, show (16 : UInt8).toNat = 16 from rfl] at this
    rw [UInt8.lt_iff_toNat_lt, UInt8.toNat_div, UInt8.toNat_div, show (16 : UInt8).toNat = 16 from rfl]
    omega

variable (keccak) in
/-- A stack trie and a trie that hold the same updates: both empty, or the
stack trie stands for the trie's root with its right edge open. -/
def Mirrors (st : StackTrie) (t : Trie) : Prop :=
  (st = .empty 0 ∧ t.root = .nil) ∨ (Sim keccak 0 st t.root ∧ Open st)

/-- The keys a trie stores all come before `key`, in nibbles. -/
theorem keysBefore_of_stores {t : Trie} {m : List UInt8 → List UInt8} (hs : t.Stores m) {key : List UInt8}
    (hafter : ∀ k, m k ≠ [] → Before (· < ·) k key) :
    KeysBefore t.root (Encoding.keybytesToHex key).dropLast := by
  intro body hbody
  by_cases hk : ∃ k, body ++ [16] = Encoding.keybytesToHex k
  · obtain ⟨k, hk⟩ := hk
    have hbody' : body = (Encoding.keybytesToHex k).dropLast := by
      rw [← hk, List.dropLast_concat]
    have hm : m k ≠ [] := fun h => hbody.2 (by rw [hk, ← Trie.TryGet, hs.get k, h])
    rw [hbody']
    exact before_dropLast (hafter k hm)
  · exact absurd (hs.other _ hbody.1 fun k h => hk ⟨k, h⟩) hbody.2

/-- **One TryUpdate on both sides.** A stack trie that mirrors a trie
storing `m` takes a key that comes after every key of `m`: both TryUpdate
calls go through, and their results mirror each other. -/
theorem TryUpdate_mirrors {st : StackTrie} {t : Trie} {m : List UInt8 → List UInt8} (h : Mirrors keccak st t)
    (hs : t.Stores m) {key value : List UInt8} (hv : value ≠ [])
    (hafter : ∀ k, m k ≠ [] → Before (· < ·) k key) :
    ∃ st' t', st.TryUpdate keccak key value = some st' ∧ t.TryUpdate key value = some t' ∧
      Mirrors keccak st' t' ∧ t'.Stores (Function.update m key value) := by
  obtain ⟨t'', htry, hs'', -⟩ := hs.tryUpdate key value
  have hlen : value.length ≠ 0 := by simpa using hv
  -- the trie's TryUpdate, from what its insert returns
  have htrie : ∀ n', Patricia.insert t.root ((Encoding.keybytesToHex key).dropLast ++ [16]) (.value value) =
      some (true, n') → t.TryUpdate key value = some ⟨n', t.unhashed + 1⟩ := fun n' hn' => by
    rw [Trie.TryUpdate, if_pos hlen, keybytesToHex_eq_dropLast, hn']
    rfl
  rcases h with ⟨rfl, hroot⟩ | ⟨hsim, hopen⟩
  · -- the first key: a leaf on both sides
    have hins := htrie _ (by rw [hroot]; exact insert_nil_node (by simp) _)
    rw [htry, Option.some_inj] at hins
    subst hins
    refine ⟨.leaf 0 ((Encoding.keybytesToHex key).dropLast.drop 0) value, _, ?_, htry, .inr ⟨?_, .leaf _ _ _⟩, hs''⟩
    · rw [StackTrie.TryUpdate, if_neg hlen, insert, insertEmpty_eq value (Nat.zero_le _)]
    · rw [List.drop_zero]
      exact .leaf _ _ _
  · have hg : Good t.root := hs.good.resolve_left hsim.ne_nil
    obtain ⟨st', n', hins, hpat, hsim', hopen'⟩ :=
      insert_sim hsim hopen hg (nibbles_dropLast key) hv (by rw [List.drop_zero]; exact keysBefore_of_stores hs hafter)
    rw [List.drop_zero] at hpat
    have hins' := htrie n' hpat
    rw [htry, Option.some_inj] at hins'
    subst hins'
    exact ⟨st', _, by rw [StackTrie.TryUpdate, if_neg hlen, hins], htry, .inr ⟨hsim', hopen'⟩, hs''⟩

/-- A run of TryUpdate calls, as the trie takes it. -/
def updateOps (kvs : List (List UInt8 × List UInt8)) : List Trie.Op := kvs.map fun kv => .update kv.1 kv.2

/-- **Runs on both sides.** Keys in increasing order, each after the keys
stored already, keep the stack trie and the trie mirrors of each other; by
induction on the run. -/
theorem updates_mirrors : ∀ (kvs : List (List UInt8 × List UInt8)) {st : StackTrie} {t : Trie}
    {m : List UInt8 → List UInt8}, Mirrors keccak st t → t.Stores m →
    (kvs.map Prod.fst).Pairwise (Before (· < ·)) → (∀ kv ∈ kvs, kv.2 ≠ []) →
    (∀ k, m k ≠ [] → ∀ kv ∈ kvs, Before (· < ·) k kv.1) →
    ∃ st' t', st.updates keccak kvs = some st' ∧ t.run (updateOps kvs) = some t' ∧ Mirrors keccak st' t' ∧
      t'.Stores (Trie.writes m (updateOps kvs))
  | [], st, t, _, h, hs, _, _, _ => ⟨st, t, rfl, rfl, h, hs⟩
  | (key, value) :: kvs, st, t, m, h, hs, hsorted, hval, hall => by
    rw [List.map_cons, List.pairwise_cons] at hsorted
    obtain ⟨st₁, t₁, hst, htr, h₁, hs₁⟩ :=
      TryUpdate_mirrors h hs (hval _ List.mem_cons_self) fun k hk => hall k hk _ List.mem_cons_self
    -- the key written now comes before the rest, and so do the ones before it
    have hall₁ : ∀ k, Function.update m key value k ≠ [] → ∀ kv ∈ kvs, Before (· < ·) k kv.1 := by
      intro k hk kv hkv
      by_cases hkey : k = key
      · subst hkey
        exact hsorted.1 kv.1 (List.mem_map_of_mem hkv)
      · rw [Function.update_of_ne hkey] at hk
        exact hall k hk kv (List.mem_cons_of_mem _ hkv)
    obtain ⟨st', t', hst', htr', h', hs'⟩ :=
      updates_mirrors kvs h₁ hs₁ hsorted.2 (fun kv hkv => hval kv (List.mem_cons_of_mem _ hkv)) hall₁
    exact ⟨st', t', by rw [StackTrie.updates, hst, Option.bind_some, hst'],
      by rw [updateOps, List.map_cons, Trie.run, Trie.apply, htr, Option.bind_some]; exact htr', h', hs'⟩

/-- Hash reads a 32-byte `val` as the hash itself. -/
theorem Hash_of_toList {st : StackTrie} {w : Vector UInt8 32} (h : hashVal keccak st = w.toList) :
    st.Hash keccak = w := by
  rw [StackTrie.Hash]
  simp only [h, Vector.length_toList, dif_pos]
  exact Vector.toList_inj.mp (by simp)

/-- Hash hashes a shorter `val` once more. -/
theorem Hash_of_lt {st : StackTrie} {e : List UInt8} (h : hashVal keccak st = e) (he : e.length < 32) :
    st.Hash keccak = keccak e := by
  rw [StackTrie.Hash]
  simp only [h, dif_neg (Nat.ne_of_lt he)]

/-- Mirrors have the same Hash. -/
theorem Mirrors.Hash_eq {st : StackTrie} {t : Trie} (h : Mirrors keccak st t) (hg : t.root = .nil ∨ Good t.root) :
    t.Hash keccak = some (st.Hash keccak) := by
  rcases h with ⟨rfl, hroot⟩ | ⟨hsim, -⟩
  · rw [Trie.Hash, hroot, Hash_of_toList rfl]
    rfl
  · rw [Trie.Hash, hashRoot_of_good keccak (hg.resolve_left hsim.ne_nil)]
    have hv := hashVal_sim hsim
    unfold sealVal at hv
    split at hv
    · rw [Hash_of_lt hv ‹_›]
    · rw [Hash_of_toList hv]

variable (keccak)

/-- **The stack trie computes the trie's hash.** For updates whose keys come
in increasing order, no key a prefix of another, and whose values are not
empty: TryUpdate on a new stack trie never panics, the same updates on the
empty trie go through, and the two Hash calls agree. -/
theorem updates_Hash_eq (kvs : List (List UInt8 × List UInt8))
    (hsorted : (kvs.map Prod.fst).Pairwise (Before (· < ·))) (hval : ∀ kv ∈ kvs, kv.2 ≠ []) :
    ∃ st t, NewStackTrie.updates keccak kvs = some st ∧ Trie.empty.run (updateOps kvs) = some t ∧
      t.Hash keccak = some (st.Hash keccak) := by
  have h0 : Mirrors keccak NewStackTrie Trie.empty := .inl ⟨rfl, rfl⟩
  obtain ⟨st, t, hst, htr, h, hs⟩ :=
    updates_mirrors kvs h0 Trie.empty_stores hsorted hval fun k hk => absurd rfl hk
  exact ⟨st, t, hst, htr, h.Hash_eq hs.good⟩

theorem updates_Hash_eq_two_keys :
    ∃ st t, NewStackTrie.updates (fun _ => Vector.replicate 32 0) [([1], [7]), ([2], [8])] = some st ∧
      Trie.empty.run (updateOps [([1], [7]), ([2], [8])]) = some t ∧
      t.Hash (fun _ => Vector.replicate 32 0) = some (st.Hash (fun _ => Vector.replicate 32 0)) :=
  updates_Hash_eq (fun _ => Vector.replicate 32 0) _
    (List.pairwise_pair.mpr ⟨[], 1, 2, [], [], by decide, rfl, rfl⟩) (by simp)

end Hashing

end StackTrie

end Xdchain.Trie.Patricia
