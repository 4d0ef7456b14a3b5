import Xdchain.Trie.Trie

/-! # Canonical tries

The shape of every trie that `TryUpdate` and `TryDelete` build (`Good`). A
short node holds a non-empty run of nibbles and leads to a full node, or
holds a key that ends in the terminator and leads to a value; a full node
holds at least two children, good nodes below nibbles and a value below the
terminator. Below a good node every key is a run of nibbles followed by the
terminator (`HexKey`), so a key reaches a value exactly when it is used up.

`insert` and `delete` keep the shape and change the value of their own key
alone (`insert_spec`, `delete_spec`), and they report a change exactly when
they made one, handing back the node they were given otherwise. -/

namespace Xdchain.Trie.Patricia

open Xdchain.Lib.Prefix Xdchain.Trie.Encoding

/-! ## Keys -/

/-- A run of nibbles. -/
def Nibbles (k : List UInt8) : Prop := ∀ x ∈ k, x < 16

/-- A key below a node: nibbles, then the terminator. -/
def HexKey (key : List UInt8) : Prop := ∃ body, Nibbles body ∧ key = body ++ [16]

theorem lt_16_iff {x : UInt8} : x < 16 ↔ x.toNat < 16 := UInt8.lt_iff_toNat_lt

theorem Nibbles.append {p q : List UInt8} (hp : Nibbles p) (hq : Nibbles q) : Nibbles (p ++ q) := by
  intro x hx
  rcases List.mem_append.mp hx with hx | hx
  · exact hp x hx
  · exact hq x hx

theorem Nibbles.take {p : List UInt8} (hp : Nibbles p) (n : Nat) : Nibbles (p.take n) :=
  fun x hx => hp x (List.mem_of_mem_take hx)

theorem Nibbles.drop {p : List UInt8} (hp : Nibbles p) (n : Nat) : Nibbles (p.drop n) :=
  fun x hx => hp x (List.mem_of_mem_drop hx)

theorem HexKey.terminated {key : List UInt8} (h : HexKey key) : Terminated 16 key := by
  obtain ⟨body, hb, rfl⟩ := h
  exact ⟨body, fun hm => absurd (hb 16 hm) (by decide), rfl⟩

theorem HexKey.ne_nil {key : List UInt8} (h : HexKey key) : key ≠ [] := h.terminated.ne_nil

/-- Hex keys are prefix-free. -/
theorem HexKey.eq_of_prefix {a b : List UInt8} (ha : HexKey a) (hb : HexKey b) (h : a <+: b) : a = b :=
  ha.terminated.eq_of_prefix hb.terminated h

theorem HexKey.append {p key : List UInt8} (hp : Nibbles p) (h : HexKey key) : HexKey (p ++ key) := by
  obtain ⟨body, hb, rfl⟩ := h
  exact ⟨p ++ body, hp.append hb, by rw [List.append_assoc]⟩

theorem HexKey.drop {key : List UInt8} (h : HexKey key) {n : Nat} (hn : n < key.length) :
    HexKey (key.drop n) := by
  obtain ⟨body, hb, rfl⟩ := h
  have hle : n ≤ body.length := by
    simp only [List.length_append, List.length_singleton] at hn
    omega
  exact ⟨body.drop n, hb.drop n, List.drop_append_of_le_length hle⟩

/-- What a run of nibbles leaves of a hex key is a hex key. -/
theorem HexKey.of_append {p r : List UInt8} (h : HexKey (p ++ r)) (hp : Nibbles p) : HexKey r := by
  have hr : r ≠ [] := by
    rintro rfl
    obtain ⟨body, -, hbody⟩ := h
    have hlast : 16 ∈ p := by
      rw [List.append_nil] at hbody
      rw [hbody]
      simp
    exact absurd (hp 16 hlast) (by decide)
  have hlen : p.length < (p ++ r).length := by
    rw [List.length_append]
    have := List.length_pos_of_ne_nil hr
    omega
  simpa using h.drop hlen

/-- The first nibble of a hex key: the terminator at the end, a nibble
before more. -/
theorem hexKey_cons {b : UInt8} {r : List UInt8} :
    HexKey (b :: r) ↔ (b = 16 ∧ r = []) ∨ (b < 16 ∧ HexKey r) := by
  constructor
  · rintro ⟨body, hb, hbody⟩
    cases body with
    | nil =>
      simp only [List.nil_append, List.cons.injEq] at hbody
      exact .inl hbody
    | cons x body =>
      simp only [List.cons_append, List.cons.injEq] at hbody
      obtain ⟨rfl, rfl⟩ := hbody
      exact .inr ⟨hb _ List.mem_cons_self, body, fun y hy => hb y (List.mem_cons_of_mem _ hy), rfl⟩
  · rintro (⟨rfl, rfl⟩ | ⟨hb, body, hbody, rfl⟩)
    · exact ⟨[], (fun _ h => by cases h), rfl⟩
    · refine ⟨b :: body, ?_, rfl⟩
      intro x hx
      rcases List.mem_cons.mp hx with rfl | hx
      · exact hb
      · exact hbody x hx

theorem HexKey.head_lt {b : UInt8} {r : List UInt8} (h : HexKey (b :: r)) : b.toNat < 17 := by
  rcases hexKey_cons.mp h with ⟨rfl, -⟩ | ⟨hb, -⟩
  · decide
  · have := lt_16_iff.mp hb
    omega

/-- Every element of a hex key but the last is a nibble. -/
theorem HexKey.getElem_lt {key : List UInt8} (h : HexKey key) {i : Nat} (hi : i + 1 < key.length) :
    key[i] < 16 := by
  obtain ⟨body, hb, rfl⟩ := h
  have hib : i < body.length := by
    simp only [List.length_append, List.length_singleton] at hi
    omega
  rw [List.getElem_append_left hib]
  exact hb _ (List.getElem_mem hib)

theorem HexKey.getElem_last {key : List UInt8} (h : HexKey key) {i : Nat} (hi : i + 1 = key.length) :
    key[i] = 16 := by
  obtain ⟨body, -, rfl⟩ := h
  have hib : i = body.length := by
    simp only [List.length_append, List.length_singleton] at hi
    omega
  subst hib
  simp

theorem HexKey.getElem_toNat_lt {key : List UInt8} (h : HexKey key) {i : Nat} (hi : i < key.length) :
    key[i].toNat < 17 := by
  by_cases hlast : i + 1 < key.length
  · have := lt_16_iff.mp (h.getElem_lt hlast)
    omega
  · rw [h.getElem_last (by omega)]
    decide

/-- `TryGet`, `TryUpdate` and `TryDelete` look up hex keys. -/
theorem keybytesToHex_hexKey (k : List UInt8) : HexKey (keybytesToHex k) := by
  refine ⟨_, ?_, rfl⟩
  intro x hx
  obtain ⟨b, -, hb⟩ := List.mem_flatMap.mp hx
  have h16 : (16 : UInt8).toNat = 16 := rfl
  have hlt := b.toNat_lt
  rcases List.mem_pair.mp hb with rfl | rfl
  · rw [lt_16_iff, UInt8.toNat_div, h16]
    omega
  · rw [lt_16_iff, UInt8.toNat_mod, h16]
    omega

/-! ## The shape -/

mutual

/-- A canonical node below which every key is a hex key. -/
inductive Good : Node → Prop
  | leaf {k v : List UInt8} (hk : HexKey k) (hv : v ≠ []) : Good (.short k (.value v))
  | ext {k : List UInt8} {cs : Fin 17 → Node} (hk : k ≠ []) (hn : Nibbles k) (hf : Good (.full cs)) :
      Good (.short k (.full cs))
  | full {cs : Fin 17 → Node} (hc : ∀ i, ChildOK i (cs i))
      (h2 : ∃ p q : Fin 17, p ≠ q ∧ cs p ≠ .nil ∧ cs q ≠ .nil) : Good (.full cs)

/-- What a full node may hold at index `i`: nothing, a good node below a
nibble, or a value below the terminator. -/
inductive ChildOK : Fin 17 → Node → Prop
  | nil (i : Fin 17) : ChildOK i .nil
  | node {i : Fin 17} {c : Node} (hi : i.val < 16) (hc : Good c) : ChildOK i c
  | value {i : Fin 17} {v : List UInt8} (hi : i.val = 16) (hv : v ≠ []) : ChildOK i (.value v)

end

theorem Good.ne_nil {t : Node} (h : Good t) : t ≠ .nil := by
  cases h <;> simp

theorem Good.children {cs : Fin 17 → Node} (h : Good (.full cs)) : ∀ i, ChildOK i (cs i) := by
  cases h with
  | full hc _ => exact hc

theorem Good.two {cs : Fin 17 → Node} (h : Good (.full cs)) :
    ∃ p q : Fin 17, p ≠ q ∧ cs p ≠ .nil ∧ cs q ≠ .nil := by
  cases h with
  | full _ h2 => exact h2

/-- A good short node keeps its shape when the front of its key is cut. -/
theorem Good.short_drop {k : List UInt8} {c : Node} (h : Good (.short k c)) {n : Nat}
    (hn : n < k.length) : Good (.short (k.drop n) c) := by
  cases h with
  | leaf hk hv => exact .leaf (hk.drop hn) hv
  | ext hk hnib hf =>
    exact .ext (by simpa [List.drop_eq_nil_iff] using hn) (hnib.drop n) hf

/-- Every element of a good short node's key but the last is a nibble, and
the last is one too where the node leads to a full node. -/
theorem Good.getElem_key {k : List UInt8} {c : Node} (h : Good (.short k c)) {i : Nat}
    (hi : i < k.length) : k[i] < 16 ∨ (i + 1 = k.length ∧ k[i] = 16 ∧ ∃ v, c = .value v) := by
  cases h with
  | leaf hk hv =>
    by_cases hlast : i + 1 < k.length
    · exact .inl (hk.getElem_lt hlast)
    · obtain ⟨body, -, rfl⟩ := hk
      have hib : i = body.length := by
        simp only [List.length_append, List.length_singleton] at hi hlast
        omega
      subst hib
      exact .inr ⟨by simp, by simp, _, rfl⟩
  | ext _ hn _ => exact .inl (hn _ (List.getElem_mem hi))

theorem Good.getElem_toNat_lt {k : List UInt8} {c : Node} (h : Good (.short k c)) {i : Nat}
    (hi : i < k.length) : k[i].toNat < 17 := by
  rcases h.getElem_key hi with hlt | ⟨-, heq, -⟩
  · have := lt_16_iff.mp hlt
    omega
  · rw [heq]
    decide

/-- A leaf holds its own key alone. -/
theorem tryGet_leaf {k key : List UInt8} (hk : HexKey k) (hkey : HexKey key) (v : List UInt8) :
    tryGet (.short k (.value v)) key = if key = k then some v else some [] := by
  by_cases hp : k <+: key
  · obtain rfl := hk.eq_of_prefix hkey hp
    rw [tryGet_short, if_pos hp, if_pos rfl]
    rfl
  · have hne : key ≠ k := by
      rintro rfl
      exact hp (List.prefix_refl _)
    rw [tryGet_short_outside _ hp, if_neg hne]

/-- The child a split puts below the nibble where a good short node's key
parts from another key: the rest of the node. -/
theorem childOK_insertNil {k : List UInt8} {c : Node} (h : Good (.short k c)) {n : Nat}
    (hn : n < k.length) :
    ChildOK ⟨k[n].toNat, h.getElem_toNat_lt hn⟩ (insertNil (k.drop (n + 1)) c).2 ∧
      (insertNil (k.drop (n + 1)) c).2 ≠ .nil := by
  by_cases hlast : n + 1 < k.length
  · -- the key goes on: a shorter short node below the nibble
    have hne : k.drop (n + 1) ≠ [] := by
      simp only [ne_eq, List.drop_eq_nil_iff]
      omega
    rw [insertNil, if_neg hne]
    have hlt : k[n] < 16 := by
      rcases h.getElem_key hn with hlt | ⟨hend, -, -⟩
      · exact hlt
      · omega
    exact ⟨.node (lt_16_iff.mp hlt) (h.short_drop hlast), by simp⟩
  · -- the key ends here: the node's own child
    have hnil : k.drop (n + 1) = [] := by
      simp only [List.drop_eq_nil_iff]
      omega
    rw [insertNil, if_pos hnil]
    cases h with
    | leaf hk hv =>
      have h16 : k[n] = 16 := hk.getElem_last (by omega)
      exact ⟨.value (by simp [h16]) hv, by simp⟩
    | ext _ hnib hf =>
      have := lt_16_iff.mp (hnib _ (List.getElem_mem hn))
      exact ⟨.node this hf, hf.ne_nil⟩

/-! ## Insertion -/

/-- **Splitting a short node.** A key that parts from a good short node's
key puts a full node where they part, the rest of the node below one nibble
and the new value below the other, under a short node for their common
front if they have one. -/
theorem insert_split {k : List UInt8} {c : Node} (hg : Good (.short k c)) {key v : List UInt8}
    (hk : HexKey key) (hv : v ≠ []) (hpre : ¬ k <+: key) :
    ∃ t', insert (.short k c) key (.value v) = some (true, t') ∧ Good t' ∧
      ∀ key', HexKey key' →
        tryGet t' key' = if key' = key then some v else tryGet (.short k c) key' := by
  -- where the two keys part
  have hmk : prefixLen key k < k.length := by
    refine lt_of_le_of_ne (commonPrefixLen_le_right key k) fun h => hpre ?_
    rw [← commonPrefixLen_eq_length_iff, commonPrefixLen_comm]
    exact h
  have hmkey : prefixLen key k < key.length := by
    refine lt_of_le_of_ne (commonPrefixLen_le_left key k) fun h => ?_
    have hp : key <+: k := (commonPrefixLen_eq_length_iff key k).mp h
    cases hg with
    | leaf hk' _ =>
      obtain rfl := hk.eq_of_prefix hk' hp
      exact hpre (List.prefix_refl _)
    | ext _ hn _ =>
      obtain ⟨body, -, rfl⟩ := hk
      exact absurd (hn 16 (hp.subset (by simp))) (by decide)
  have hleaf : Good (.short key (.value v)) := .leaf hk hv
  rw [insert_short_of_lt hk.ne_nil c (.value v) hmk hmkey (hg.getElem_toNat_lt hmk)
    (hleaf.getElem_toNat_lt hmkey)]
  set m := prefixLen key k with hm
  set i : Fin 17 := ⟨k[m].toNat, hg.getElem_toNat_lt hmk⟩ with hi
  set j : Fin 17 := ⟨key[m].toNat, hleaf.getElem_toNat_lt hmkey⟩ with hj
  set c1 := (insertNil (k.drop (m + 1)) c).2 with hc1
  set c2 := (insertNil (key.drop (m + 1)) (.value v)).2 with hc2
  dsimp only
  set branch : Fin 17 → Node := Function.update (Function.update (fun _ => .nil) i c1) j c2
    with hbranch
  rw [← hm]
  have hne : key[m] ≠ k[m] := getElem_commonPrefixLen_ne key k hmkey hmk
  have hij : i ≠ j := fun h => hne (UInt8.toNat_inj.mp (Fin.mk.inj_iff.mp h)).symm
  have hnib : Nibbles (key.take m) := by
    intro x hx
    obtain ⟨y, hy, rfl⟩ := List.getElem_of_mem hx
    rw [List.getElem_take]
    exact hk.getElem_lt (by simp only [List.length_take] at hy; omega)
  -- both keys part at `m` after their common front
  have hkey_split : key = key.take m ++ key[m] :: key.drop (m + 1) := by
    rw [← List.drop_eq_getElem_cons hmkey, List.take_append_drop]
  have htake : key.take m = k.take m := take_commonPrefixLen key k
  have hk_split : k = key.take m ++ k[m] :: k.drop (m + 1) := by
    rw [htake, ← List.drop_eq_getElem_cons hmk, List.take_append_drop]
  refine ⟨_, rfl, ?_, ?_⟩
  · -- the full node holds the two children, the rest nothing
    obtain ⟨hci, hni⟩ := childOK_insertNil hg hmk
    obtain ⟨hcj, hnj⟩ := childOK_insertNil hleaf hmkey
    have hfull : Good (.full branch) := by
      refine .full (fun x => ?_) ⟨i, j, hij, ?_, ?_⟩
      · by_cases hxj : x = j
        · rw [hxj, hbranch, Function.update_self]
          exact hcj
        · by_cases hxi : x = i
          · rw [hxi, hbranch, Function.update_of_ne hij, Function.update_self]
            exact hci
          · rw [hbranch, Function.update_of_ne hxj, Function.update_of_ne hxi]
            exact .nil x
      · rw [hbranch, Function.update_of_ne hij, Function.update_self]
        exact hni
      · rw [hbranch, Function.update_self]
        exact hnj
    split
    · exact hfull
    · rename_i h0
      exact .ext (by rw [ne_eq, List.take_eq_nil_iff]; exact fun h => h.elim h0 hk.ne_nil) hnib hfull
  · intro key' hk'
    -- the common front as a short node, of no length where there is none
    have hfront : tryGet (if m = 0 then .full branch else .short (key.take m) (.full branch)) key' =
        tryGet (.short (key.take m) (.full branch)) key' := by
      split
      · rename_i h0
        rw [h0, List.take_zero, tryGet_short_nil_key]
      · rfl
    rw [hfront]
    by_cases hp : key.take m <+: key'
    · obtain ⟨s, rfl⟩ := hp
      have hs : HexKey s := hk'.of_append hnib
      obtain ⟨b', r', rfl⟩ := List.exists_cons_of_ne_nil hs.ne_nil
      rw [tryGet_short_append, tryGet_full_cons, dif_pos hs.head_lt]
      by_cases hbj : (⟨b'.toNat, hs.head_lt⟩ : Fin 17) = j
      · -- below the new key's nibble: the new leaf
        have hb' : b' = key[m] := UInt8.toNat_inj.mp (Fin.mk.inj_iff.mp hbj)
        subst hb'
        rw [hbj, hbranch, Function.update_self, hc2, tryGet_insertNil]
        have hread := tryGet_short_append_left (key.take m ++ [key[m]]) (key.drop (m + 1)) (.value v) r'
        simp only [List.append_assoc, List.singleton_append, ← hkey_split] at hread
        rw [← hread, tryGet_leaf hk hk']
        split_ifs
        · rfl
        · rw [hk_split, tryGet_short_outside _ (not_prefix_of_mismatch (Ne.symm hne))]
      · have hkey' : key.take m ++ b' :: r' ≠ key := by
          intro h
          obtain ⟨hb', -⟩ := List.cons.inj (List.append_cancel_left (h.trans hkey_split))
          exact hbj (Fin.ext (by simp [hj, hb']))
        rw [if_neg hkey']
        by_cases hbi : (⟨b'.toNat, hs.head_lt⟩ : Fin 17) = i
        · -- below the old key's nibble: the rest of the old node
          have hb' : b' = k[m] := UInt8.toNat_inj.mp (Fin.mk.inj_iff.mp hbi)
          subst hb'
          rw [hbi, hbranch, Function.update_of_ne hij, Function.update_self, hc1, tryGet_insertNil]
          have hread := tryGet_short_append_left (key.take m ++ [k[m]]) (k.drop (m + 1)) c r'
          simp only [List.append_assoc, List.singleton_append, ← hk_split] at hread
          exact hread.symm
        · -- below any other nibble: nothing, on both sides
          rw [hbranch, Function.update_of_ne hbj, Function.update_of_ne hbi, tryGet_nil, hk_split,
            tryGet_short_outside]
          exact not_prefix_of_mismatch fun h => hbi (Fin.ext (by simp [hi, h]))
    · have hkey' : key' ≠ key := by
        rintro rfl
        exact hp (List.take_prefix m key')
      have hk' : ¬ k <+: key' := by
        intro h
        have hfront : key.take m <+: k := by
          rw [hk_split]
          exact List.prefix_append _ _
        exact hp (hfront.trans h)
      rw [tryGet_short_outside _ hp, if_neg hkey', tryGet_short_outside _ hk']

/-- What `insert` of `v` under `key` made of `t`: a good node that holds `v`
under `key` and what `t` held elsewhere, marked dirty exactly when `t` did
not hold `v` there already, and `t` itself otherwise. -/
structure Inserted (t : Node) (key v : List UInt8) (d : Bool) (t' : Node) : Prop where
  good : Good t'
  get : ∀ key', HexKey key' → tryGet t' key' = if key' = key then some v else tryGet t key'
  clean : d = false ↔ tryGet t key = some v
  kept : d = false → t' = t

theorem childOK_iff {i : Fin 17} {c : Node} :
    ChildOK i c ↔ c = .nil ∨ (i.val < 16 ∧ Good c) ∨ (i.val = 16 ∧ ∃ v, v ≠ [] ∧ c = .value v) := by
  constructor
  · intro h
    cases h with
    | nil => exact .inl rfl
    | node hi hc => exact .inr (.inl ⟨hi, hc⟩)
    | value hi hv => exact .inr (.inr ⟨hi, _, hv, rfl⟩)
  · rintro (rfl | ⟨hi, hc⟩ | ⟨hi, v, hv, rfl⟩)
    · exact .nil i
    · exact .node hi hc
    · exact .value hi hv

/-- Below a nibble: nothing or a good node. -/
theorem ChildOK.nil_or_good {i : Fin 17} {c : Node} (h : ChildOK i c) (hi : i.val < 16) :
    c = .nil ∨ Good c := by
  rcases childOK_iff.mp h with h | ⟨-, h⟩ | ⟨h16, -⟩
  · exact .inl h
  · exact .inr h
  · omega

/-- Below the terminator: nothing or a value. -/
theorem ChildOK.slot {i : Fin 17} {c : Node} (h : ChildOK i c) (hi : i.val = 16) :
    c = .nil ∨ ∃ w, w ≠ [] ∧ c = .value w := by
  rcases childOK_iff.mp h with h | ⟨hlt, -⟩ | ⟨-, h⟩
  · exact .inl h
  · omega
  · exact .inr h

theorem Good.full_update {cs : Fin 17 → Node} (h : Good (.full cs)) {i : Fin 17} {c : Node}
    (hc : ChildOK i c) (hne : c ≠ .nil) : Good (.full (Function.update cs i c)) := by
  obtain ⟨p, q, hpq, hp, hq⟩ := h.two
  refine .full (fun x => ?_) ⟨p, q, hpq, ?_, ?_⟩
  · by_cases hx : x = i
    · rw [hx, Function.update_self]
      exact hc
    · rw [Function.update_of_ne hx]
      exact h.children x
  all_goals
    rw [Function.update_apply]
    split
    · exact hne
    · assumption

theorem tryGet_full_update (cs : Fin 17 → Node) (i : Fin 17) (c : Node) {b : UInt8} (r : List UInt8)
    (hb : b.toNat < 17) :
    tryGet (.full (Function.update cs i c)) (b :: r) =
      if (⟨b.toNat, hb⟩ : Fin 17) = i then tryGet c r else tryGet (.full cs) (b :: r) := by
  rw [tryGet_full_cons, tryGet_full_cons, dif_pos hb, dif_pos hb, Function.update_apply]
  split <;> rfl

/-- `insert` below a full node gives a full node. -/
theorem insert_full_shape {cs : Fin 17 → Node} {b : UInt8} {r : List UInt8} {value : Node}
    {d : Bool} {t' : Node} (h : insert (.full cs) (b :: r) value = some (d, t')) :
    ∃ cs', t' = .full cs' := by
  rw [insert_full_cons] at h
  split at h
  · split at h
    · cases h
    · cases h
      exact ⟨cs, rfl⟩
    · cases h
      exact ⟨_, rfl⟩
  · cases h

/-- The terminator's slot of a full node: nothing or a value, overwritten. -/
theorem insert_value_slot {c : Node} (hc : c = .nil ∨ ∃ w, c = .value w) {v : List UInt8}
    (hv : v ≠ []) :
    ∃ d, insert c [] (.value v) = some (d, .value v) ∧ (d = false ↔ tryGet c [] = some v) ∧
      (d = false → Node.value v = c) := by
  rcases hc with rfl | ⟨w, rfl⟩
  · refine ⟨true, rfl, ?_, fun h => by cases h⟩
    simp only [Bool.true_eq_false, tryGet_nil, Option.some.injEq, false_iff]
    exact fun h => hv h.symm
  · refine ⟨w != v, rfl, ?_, fun h => ?_⟩
    · simp [tryGet]
    · simp only [bne_eq_false_iff_eq] at h
      rw [h]

/-- **`insert` is a map update** on a good trie: it keeps the shape, puts
`v` under `key` and changes nothing else, and it reports a change exactly
when `v` was not already there, handing back the node it was given
otherwise. -/
theorem insert_spec (t : Node) : ∀ {key v : List UInt8}, (t = .nil ∨ Good t) → HexKey key →
    v ≠ [] → ∃ d t', insert t key (.value v) = some (d, t') ∧ Inserted t key v d t' := by
  induction t with
  | nil =>
    intro key v _ hk hv
    refine ⟨true, _, insert_nil_node hk.ne_nil _, ⟨.leaf hk hv, fun key' hk' => ?_, ?_, ?_⟩⟩
    · rw [tryGet_leaf hk hk', tryGet_nil]
    · simp only [Bool.true_eq_false, tryGet_nil, Option.some.injEq, false_iff]
      exact fun h => hv h.symm
    · intro h
      cases h
  | value w =>
    intro _ _ ht _ _
    exfalso
    rcases ht with h | h
    · cases h
    · cases h
  | short k val ih =>
    intro key v ht hk hv
    have hg : Good (.short k val) := ht.resolve_left (by simp)
    by_cases hpre : k <+: key
    · rw [insert_short_through hk.ne_nil val _ hpre]
      cases hg with
      | leaf hk0 hv0 =>
        -- the leaf's own key: its value is overwritten
        rename_i w
        obtain rfl := hk0.eq_of_prefix hk hpre
        rw [List.drop_length, insert_nil_key]
        dsimp only
        by_cases hwv : w = v
        · subst hwv
          rw [bne_self_eq_false]
          refine ⟨false, _, rfl, ⟨.leaf hk0 hv0, fun key' hk' => ?_, ?_, fun _ => rfl⟩⟩
          · rw [tryGet_leaf hk0 hk']
            split_ifs <;> rfl
          · simp [tryGet_leaf hk0 hk0]
        · rw [bne_iff_ne.mpr hwv]
          refine ⟨true, _, rfl, ⟨.leaf hk0 hv, fun key' hk' => ?_, ?_, fun h => by cases h⟩⟩
          · rw [tryGet_leaf hk0 hk', tryGet_leaf hk0 hk']
            split_ifs <;> rfl
          · simp [tryGet_leaf hk0 hk0, hwv]
      | ext hk0 hn hf =>
        -- a key through the extension: insert below it
        rename_i cs
        obtain ⟨r, rfl⟩ := hpre
        have hr : HexKey r := hk.of_append hn
        rw [List.drop_left]
        obtain ⟨d, t', hrun, hins⟩ := ih (.inr hf) hr hv
        obtain ⟨b, r', rfl⟩ := List.exists_cons_of_ne_nil hr.ne_nil
        obtain ⟨cs', rfl⟩ := insert_full_shape hrun
        refine ⟨d, .short k (.full cs'), ?_, ⟨.ext hk0 hn hins.good, fun key' hk' => ?_, ?_, ?_⟩⟩
        · rw [hrun]
          cases d
          · rw [← hins.kept rfl]
          · rfl
        · by_cases hp : k <+: key'
          · obtain ⟨s', rfl⟩ := hp
            rw [tryGet_short_append, tryGet_short_append, hins.get s' (hk'.of_append hn)]
            simp only [List.append_cancel_left_eq]
          · have hne : key' ≠ k ++ b :: r' := by
              rintro rfl
              exact hp (List.prefix_append _ _)
            rw [tryGet_short_outside _ hp, tryGet_short_outside _ hp, if_neg hne]
        · rw [tryGet_short_append]
          exact hins.clean
        · intro h
          rw [hins.kept h]
    · obtain ⟨t', hrun, hgood, hget⟩ := insert_split hg hk hv hpre
      refine ⟨true, t', hrun, ⟨hgood, hget, ?_, fun h => by cases h⟩⟩
      rw [tryGet_short_outside _ hpre]
      simp only [Bool.true_eq_false, Option.some.injEq, false_iff]
      exact fun h => hv h.symm
  | full cs ih =>
    intro key v ht hk hv
    have hg : Good (.full cs) := ht.resolve_left (by simp)
    obtain ⟨b, r, rfl⟩ := List.exists_cons_of_ne_nil hk.ne_nil
    have hb := hk.head_lt
    set i : Fin 17 := ⟨b.toNat, hb⟩ with hi
    -- insert into the child below the first nibble
    obtain ⟨d, c', hrun, hc', hne, hget, hclean, hkept⟩ : ∃ d c',
        insert (cs i) r (.value v) = some (d, c') ∧ ChildOK i c' ∧ c' ≠ .nil ∧
        (∀ r', HexKey (b :: r') → tryGet c' r' = if r' = r then some v else tryGet (cs i) r') ∧
        (d = false ↔ tryGet (cs i) r = some v) ∧ (d = false → c' = cs i) := by
      rcases hexKey_cons.mp hk with ⟨rfl, rfl⟩ | ⟨hb16, hr⟩
      · -- the terminator's slot holds nothing or a value
        have hi16 : i.val = 16 := by rw [hi]; show UInt8.toNat 16 = 16; decide
        have hslot : cs i = .nil ∨ ∃ w, cs i = .value w := by
          rcases (hg.children i).slot hi16 with h | ⟨w, -, h⟩
          · exact .inl h
          · exact .inr ⟨w, h⟩
        obtain ⟨d, hrun, hclean, hkept⟩ := insert_value_slot hslot hv
        refine ⟨d, _, hrun, .value hi16 hv, by simp,
          fun r' hr' => ?_, hclean, hkept⟩
        obtain rfl : r' = [] := by
          rcases hexKey_cons.mp hr' with ⟨-, h⟩ | ⟨h, -⟩
          · exact h
          · exact absurd h (by decide)
        simp [tryGet]
      · -- a nibble's child is good or nothing
        have hlt : b.toNat < 16 := lt_16_iff.mp hb16
        have hci : cs i = .nil ∨ Good (cs i) := (hg.children i).nil_or_good hlt
        obtain ⟨d, c', hrun, hins⟩ := ih i hci hr hv
        refine ⟨d, c', hrun, .node hlt hins.good, hins.good.ne_nil, fun r' hr' => ?_, hins.clean,
          hins.kept⟩
        rcases hexKey_cons.mp hr' with ⟨h16, -⟩ | ⟨-, hr''⟩
        · exact absurd h16 (by intro h; rw [h] at hlt; exact absurd hlt (by decide))
        · exact hins.get r' hr''
    refine ⟨d, .full (Function.update cs i c'), ?_, ⟨hg.full_update hc' hne, fun key' hk' => ?_, ?_, ?_⟩⟩
    · rw [insert_full_cons, dif_pos hb, hrun]
      cases d
      · dsimp only
        rw [hkept rfl, Function.update_eq_self]
      · rfl
    · obtain ⟨b', r', rfl⟩ := List.exists_cons_of_ne_nil hk'.ne_nil
      rw [tryGet_full_update cs i c' r' hk'.head_lt]
      split
      · rename_i hbi
        obtain rfl : b' = b := UInt8.toNat_inj.mp (Fin.mk.inj_iff.mp hbi)
        rw [hget r' hk', tryGet_full_cons, dif_pos hb]
        simp only [List.cons.injEq, true_and]
        rfl
      · rename_i hbi
        have hne' : b' :: r' ≠ b :: r := by
          intro h
          obtain ⟨rfl, -⟩ := List.cons.inj h
          exact hbi rfl
        rw [if_neg hne']
    · rw [tryGet_full_cons, dif_pos hb]
      exact hclean
    · intro h
      rw [hkept h, Function.update_eq_self]

/-! ## Deletion -/

/-- What `delete` of `key` made of `t`: nothing or a good node, without a
value under `key` and with what `t` held elsewhere, marked dirty exactly
when `t` held a value there, and `t` itself otherwise. -/
structure Deleted (t : Node) (key : List UInt8) (d : Bool) (t' : Node) : Prop where
  good : t' = .nil ∨ Good t'
  get : ∀ key', HexKey key' → tryGet t' key' = if key' = key then some [] else tryGet t key'
  clean : d = false ↔ tryGet t key = some []
  kept : d = false → t' = t

/-- `delete` below a full node gives a full node or a short node. -/
theorem delete_full_shape {cs : Fin 17 → Node} {b : UInt8} {r : List UInt8} {d : Bool} {t' : Node}
    (h : delete (.full cs) (b :: r) = some (d, t')) :
    (∃ cs', t' = .full cs') ∨ ∃ k' c', t' = .short k' c' := by
  rw [delete_full_cons] at h
  split at h
  · split at h
    · cases h
    · cases h
      exact .inl ⟨cs, rfl⟩
    · dsimp only at h
      split_ifs at h
      · split at h <;>
        · cases h
          exact .inr ⟨_, _, rfl⟩
      · cases h
        exact .inr ⟨_, _, rfl⟩
      · cases h
        exact .inl ⟨_, rfl⟩
  · cases h

/-- A good node is a short node or a full node. -/
theorem Good.shape {t : Node} (h : Good t) :
    (∃ k c, t = .short k c) ∨ ∃ cs, t = .full cs := by
  cases h with
  | leaf => exact .inl ⟨_, _, rfl⟩
  | ext => exact .inl ⟨_, _, rfl⟩
  | full => exact .inr ⟨_, rfl⟩

/-- A single nibble, as the byte a collapsed full node puts in front of its child. -/
theorem nibbles_single {n : Nat} (h : n < 16) : Nibbles [UInt8.ofNat n] := by
  intro x hx
  rw [List.mem_singleton.mp hx, lt_16_iff, UInt8.toNat_ofNat', Nat.mod_eq_of_lt (by omega)]
  exact h

/-- Two short nodes merged: the run of nibbles in front of a good short node. -/
theorem Good.merge {k ck : List UInt8} {cv : Node} (hk : k ≠ []) (hn : Nibbles k)
    (hg : Good (.short ck cv)) : Good (.short (k ++ ck) cv) := by
  cases hg with
  | leaf hck hv => exact .leaf (hck.append hn) hv
  | ext hck hcn hf => exact .ext (by simp [hk]) (hn.append hcn) hf

/-- A full node with one child reads as a one-nibble short node. -/
theorem tryGet_full_single {cs : Fin 17 → Node} {o : Fin 17} (hall : ∀ x, x ≠ o → cs x = .nil)
    {key : List UInt8} (hk : HexKey key) :
    tryGet (.full cs) key = tryGet (.short [UInt8.ofNat o.val] (cs o)) key := by
  obtain ⟨b, r, rfl⟩ := List.exists_cons_of_ne_nil hk.ne_nil
  have hb := hk.head_lt
  rw [tryGet_full_cons, dif_pos hb, tryGet_short]
  by_cases hbo : (⟨b.toNat, hb⟩ : Fin 17) = o
  · have hb' : b = UInt8.ofNat o.val := by
      rw [← hbo]
      exact (UInt8.ofNat_toNat).symm
    rw [hbo, if_pos (by rw [hb']; exact List.cons_prefix_cons.mpr ⟨rfl, List.nil_prefix⟩)]
    rfl
  · rw [hall _ hbo, tryGet_nil, if_neg]
    rw [List.cons_prefix_cons]
    rintro ⟨h, -⟩
    apply hbo
    ext
    show b.toNat = o.val
    subst h
    simp only [UInt8.toNat_ofNat', Nat.mod_eq_of_lt (show o.val < 2 ^ 8 by omega)]

/-- **`delete` is a map erase** on a good trie: it leaves nothing or a good
trie, without a value under `key` and with everything else as it was, a
full node left with one child collapsed into a short node; it reports a
change exactly when there was a value to delete, handing back the node it
was given otherwise. -/
theorem delete_spec (t : Node) : ∀ {key : List UInt8}, (t = .nil ∨ Good t) → HexKey key →
    ∃ d t', delete t key = some (d, t') ∧ Deleted t key d t' := by
  induction t with
  | nil =>
    intro key _ _
    refine ⟨false, .nil, rfl, ⟨.inl rfl, fun key' _ => ?_, by simp, fun _ => rfl⟩⟩
    split_ifs <;> rfl
  | value w =>
    intro _ ht _
    exfalso
    rcases ht with h | h
    · cases h
    · cases h
  | short k val ih =>
    intro key ht hk
    have hg : Good (.short k val) := ht.resolve_left (by simp)
    by_cases hpre : k <+: key
    · cases hg with
      | leaf hk0 hv0 =>
        -- the leaf's own key: the leaf goes
        obtain rfl := hk0.eq_of_prefix hk hpre
        refine ⟨true, .nil, delete_short_self k _, ⟨.inl rfl, fun key' hk' => ?_, ?_, fun h => by cases h⟩⟩
        · rw [tryGet_nil, tryGet_leaf hk0 hk']
          split_ifs <;> rfl
        · rw [tryGet_leaf hk0 hk0, if_pos rfl]
          simp [hv0]
      | ext hk0 hn hf =>
        -- a key through the extension: delete below it, then merge what is left
        rename_i cs
        obtain ⟨r, rfl⟩ := hpre
        have hr : HexKey r := hk.of_append hn
        obtain ⟨d, t', hrun, hdel⟩ := ih (.inr hf) hr
        obtain ⟨b, r', rfl⟩ := List.exists_cons_of_ne_nil hr.ne_nil
        have hlt : k.length < (k ++ b :: r').length := by simp
        rw [delete_short_of_lt _ (List.prefix_append _ _) hlt, List.drop_left, hrun]
        cases d with
        | false =>
          obtain rfl := hdel.kept rfl
          refine ⟨false, _, rfl, ⟨.inr (.ext hk0 hn hf), fun key' hk' => ?_, ?_, fun _ => rfl⟩⟩
          · split_ifs with h
            · rw [h, tryGet_short_append]
              exact hdel.clean.mp rfl
            · rfl
          · rw [tryGet_short_append]
            exact hdel.clean
        | true =>
          have hgt : Good t' := hdel.good.resolve_left (by
            rcases delete_full_shape hrun with ⟨_, rfl⟩ | ⟨_, _, rfl⟩ <;> simp)
          have hget : ∀ key', HexKey key' → tryGet (.short k t') key' =
              if key' = k ++ b :: r' then some [] else tryGet (.short k (.full cs)) key' := by
            intro key' hk'
            by_cases hp : k <+: key'
            · obtain ⟨s', rfl⟩ := hp
              rw [tryGet_short_append, tryGet_short_append, hdel.get s' (hk'.of_append hn)]
              simp only [List.append_cancel_left_eq]
            · have hne : key' ≠ k ++ b :: r' := by
                rintro rfl
                exact hp (List.prefix_append _ _)
              rw [tryGet_short_outside _ hp, tryGet_short_outside _ hp, if_neg hne]
          have hclean : (true = false ↔ tryGet (.short k (.full cs)) (k ++ b :: r') = some []) := by
            rw [tryGet_short_append]
            exact hdel.clean
          rcases delete_full_shape hrun with ⟨cs', rfl⟩ | ⟨ck, cv, rfl⟩
          · exact ⟨true, _, rfl, ⟨.inr (.ext hk0 hn hgt), hget, hclean, fun h => by cases h⟩⟩
          · refine ⟨true, _, rfl, ⟨.inr (Good.merge hk0 hn hgt), fun key' hk' => ?_, hclean,
              fun h => by cases h⟩⟩
            rw [tryGet_short_short]
            exact hget key' hk'
    · refine ⟨false, _, delete_short_outside _ hpre, ⟨.inr hg, fun key' _ => ?_, ?_, fun _ => rfl⟩⟩
      · split_ifs with h
        · rw [h, tryGet_short_outside _ hpre]
        · rfl
      · simp [tryGet_short_outside _ hpre]
  | full cs ih =>
    intro key ht hk
    have hg : Good (.full cs) := ht.resolve_left (by simp)
    obtain ⟨b, r, rfl⟩ := List.exists_cons_of_ne_nil hk.ne_nil
    have hb := hk.head_lt
    set i : Fin 17 := ⟨b.toNat, hb⟩ with hi
    -- delete in the child below the first nibble
    obtain ⟨d, c', hrun, hc', hget, hclean, hkept⟩ : ∃ d c',
        delete (cs i) r = some (d, c') ∧ ChildOK i c' ∧
        (∀ r', HexKey (b :: r') → tryGet c' r' = if r' = r then some [] else tryGet (cs i) r') ∧
        (d = false ↔ tryGet (cs i) r = some []) ∧ (d = false → c' = cs i) := by
      rcases hexKey_cons.mp hk with ⟨rfl, rfl⟩ | ⟨hb16, hr⟩
      · -- the terminator's slot: its value goes
        have hend : ∀ r', HexKey ((16 : UInt8) :: r') → r' = [] := fun r' hr' => by
          rcases hexKey_cons.mp hr' with ⟨-, h⟩ | ⟨h, -⟩
          · exact h
          · exact absurd h (by decide)
        rcases (hg.children i).slot (by rw [hi]; show UInt8.toNat 16 = 16; decide) with h | ⟨w, hw, h⟩
        · refine ⟨false, .nil, by rw [h]; rfl, .nil i, fun r' hr' => ?_, by simp [h], fun _ => h.symm⟩
          rw [h]
          split_ifs <;> rfl
        · refine ⟨true, .nil, by rw [h]; rfl, .nil i, fun r' hr' => ?_, ?_, fun h => by cases h⟩
          · rw [hend r' hr']
            rfl
          · rw [h]
            simp [tryGet, hw]
      · -- a nibble's child is good or nothing
        have hlt : b.toNat < 16 := lt_16_iff.mp hb16
        have hci : cs i = .nil ∨ Good (cs i) := (hg.children i).nil_or_good hlt
        obtain ⟨d, c', hrun, hdel⟩ := ih i hci hr
        refine ⟨d, c', hrun, ?_, fun r' hr' => ?_, hdel.clean, hdel.kept⟩
        · rcases hdel.good with h | h
          · rw [h]
            exact .nil i
          · exact .node hlt h
        · rcases hexKey_cons.mp hr' with ⟨h16, -⟩ | ⟨-, hr''⟩
          · exact absurd h16 (by intro h; rw [h] at hlt; exact absurd hlt (by decide))
          · exact hdel.get r' hr''
    rw [delete_full_cons, dif_pos hb, hrun]
    cases d with
    | false =>
      obtain rfl := hkept rfl
      refine ⟨false, .full cs, rfl, ⟨.inr hg, fun key' hk' => ?_, ?_, fun _ => rfl⟩⟩
      · split_ifs with h
        · rw [h, tryGet_full_cons, dif_pos hb]
          exact hclean.mp rfl
        · rfl
      · rw [tryGet_full_cons, dif_pos hb]
        exact hclean
    | true =>
      dsimp only
      set cs' := Function.update cs i c' with hcs'
      have hchildren : ∀ x, ChildOK x (cs' x) := by
        intro x
        by_cases hx : x = i
        · rw [hx, hcs', Function.update_self]
          exact hc'
        · rw [hcs', Function.update_of_ne hx]
          exact hg.children x
      have hget' : ∀ key', HexKey key' →
          tryGet (.full cs') key' = if key' = b :: r then some [] else tryGet (.full cs) key' := by
        intro key' hk'
        obtain ⟨b', r', rfl⟩ := List.exists_cons_of_ne_nil hk'.ne_nil
        rw [hcs', tryGet_full_update cs i c' r' hk'.head_lt]
        split
        · rename_i hbi
          obtain rfl : b' = b := UInt8.toNat_inj.mp (Fin.mk.inj_iff.mp hbi)
          rw [hget r' hk', tryGet_full_cons, dif_pos hb]
          simp only [List.cons.injEq, true_and]
          rfl
        · rename_i hbi
          have hne' : b' :: r' ≠ b :: r := by
            intro h
            obtain ⟨rfl, -⟩ := List.cons.inj h
            exact hbi rfl
          rw [if_neg hne']
      have hclean' : (true = false ↔ tryGet (.full cs) (b :: r) = some []) := by
        rw [tryGet_full_cons, dif_pos hb]
        exact hclean
      by_cases h2 : ∃ p q : Fin 17, p ≠ q ∧ cs' p ≠ .nil ∧ cs' q ≠ .nil
      · -- two children left: the full node stays
        obtain ⟨p, q, hpq, hp, hq⟩ := h2
        rw [posLoop_ofFn_two cs' hpq hp hq]
        exact ⟨true, .full cs', rfl, ⟨.inr (.full hchildren ⟨p, q, hpq, hp, hq⟩), hget', hclean',
          fun h => by cases h⟩⟩
      · -- one child left: the other of the two the node had
        obtain ⟨o, ho, hall⟩ : ∃ o, cs' o ≠ .nil ∧ ∀ x, x ≠ o → cs' x = .nil := by
          obtain ⟨p, q, hpq, hp, hq⟩ := hg.two
          have hother : ∃ o, o ≠ i ∧ cs o ≠ .nil := by
            by_cases hpi : p = i
            · exact ⟨q, fun h => hpq (hpi.trans h.symm), hq⟩
            · exact ⟨p, hpi, hp⟩
          obtain ⟨o, hoi, ho⟩ := hother
          have ho' : cs' o ≠ .nil := by
            rw [hcs', Function.update_of_ne hoi]
            exact ho
          refine ⟨o, ho', fun x hxo => ?_⟩
          by_contra hx
          exact h2 ⟨x, o, hxo, hx, ho'⟩
        rw [posLoop_ofFn_single cs' o ho hall]
        simp only [Int.natCast_nonneg, if_true, Int.toNat_natCast, getD_ofFn]
        have hsingle : ∀ key', HexKey key' →
            tryGet (.short [UInt8.ofNat o.val] (cs' o)) key' =
              if key' = b :: r then some [] else tryGet (.full cs) key' := by
          intro key' hk'
          rw [← tryGet_full_single hall hk']
          exact hget' key' hk'
        have hdel : ∀ t', Good t' → (∀ key', HexKey key' →
            tryGet t' key' = tryGet (.short [UInt8.ofNat o.val] (cs' o)) key') →
            Deleted (.full cs) (b :: r) true t' := fun t' hg' hread =>
          ⟨.inr hg', fun key' hk' => (hread key' hk').trans (hsingle key' hk'), hclean',
            fun h => by cases h⟩
        by_cases h16 : o.val = 16
        · -- the terminator's value alone: a leaf on the terminator
          rw [if_neg (by omega)]
          rcases (hchildren o).slot h16 with h | ⟨w, hw, h⟩
          · exact absurd h ho
          · refine ⟨true, _, rfl, hdel _ ?_ (fun _ _ => rfl)⟩
            rw [h, h16]
            exact .leaf ⟨[], (fun _ h => by cases h), rfl⟩ hw
        · -- a nibble's node: merged under its nibble
          rw [if_pos (by omega)]
          have hn : Nibbles [UInt8.ofNat o.val] := nibbles_single (by omega)
          have hgo : Good (cs' o) := ((hchildren o).nil_or_good (by omega)).resolve_left ho
          rcases hgo.shape with ⟨ck, cv, hck⟩ | ⟨cs'', hfull⟩
          · rw [hck] at hgo ⊢
            refine ⟨true, _, rfl, hdel _ (Good.merge (by simp) hn hgo) (fun key' _ => ?_)⟩
            rw [hck]
            exact tryGet_short_short [UInt8.ofNat o.val] ck cv key'
          · rw [hfull] at hgo ⊢
            exact ⟨true, _, rfl, hdel _ (.ext (by simp) hn hgo) (fun _ _ => by rw [hfull])⟩

/-- **The dirty flag is exact**: on a nil or good trie, the `insert` that
TryUpdate makes of a non-empty value, or the `delete` it makes of the empty
one, reports a change exactly when `key` did not read that value already,
and hands back the node it was given when it reports none. -/
theorem dirty_iff_changed {t : Node} (ht : t = .nil ∨ Good t) {key : List UInt8} (hk : HexKey key)
    (v : List UInt8) :
    ∃ d t', (if v.length ≠ 0 then insert t key (.value v) else delete t key) = some (d, t') ∧
      (d = true ↔ tryGet t key ≠ some v) ∧ (d = false → t' = t) := by
  by_cases hv : v = []
  · subst hv
    obtain ⟨d, t', hrun, hdel⟩ := delete_spec t ht hk
    refine ⟨d, t', by simp [hrun], ?_, hdel.kept⟩
    rw [Ne, ← hdel.clean]
    cases d <;> simp
  · obtain ⟨d, t', hrun, hins⟩ := insert_spec t ht hk hv
    have hlen : v.length ≠ 0 := by simpa using hv
    refine ⟨d, t', by simp [hlen, hrun], ?_, hins.kept⟩
    rw [Ne, ← hins.clean]
    cases d <;> simp

/-- A leaf holding `[7]` under `[1, 16]`, rewritten with `[8]`: the insert is dirty. -/
theorem dirty_iff_changed_at_leaf_rewrite :
    ∃ d t', (if [8].length ≠ 0 then insert (.short [1, 16] (.value [7])) [1, 16] (.value [8])
        else delete (.short [1, 16] (.value [7])) [1, 16]) = some (d, t') ∧
      (d = true ↔ tryGet (.short [1, 16] (.value [7])) [1, 16] ≠ some [8]) ∧
      (d = false → t' = .short [1, 16] (.value [7])) :=
  dirty_iff_changed (.inr (.leaf ⟨[1], by simp [Nibbles], rfl⟩ (by simp))) ⟨[1], by simp [Nibbles], rfl⟩ [8]

end Xdchain.Trie.Patricia
