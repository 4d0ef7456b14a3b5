import Xdchain.Trie.NodeCodec
import Xdchain.Trie.Store

/-! # Merkle proofs

`trie/proof.go`. `Prove` collects the nodes on the path to a key and puts
the encoding of each one that its parent references by hash, and of the
root, into a proof database under its hash. `VerifyProof` starts from a
root hash, looks each hash up in the database, decodes the node and walks
`get` through it and the nodes embedded in it, until it meets a value,
nothing, or the hash of the next node to look up.

A proof that `Prove` writes verifies against the trie's hash, with the
value `TryGet` returns, as long as no two nodes on the path share a hash
(`VerifyProof_Prove`). Conversely, whatever a database holds, a value that
`VerifyProof` accepts is the trie's, as long as the database maps each key
to a preimage and holds no second preimage of a node of the trie
(`VerifyProof_sound`). Go's `VerifyProof` loops until it returns; its model
takes the number of rounds as fuel, and says nothing when it runs out. -/

namespace Xdchain.Trie.Patricia

open Xdchain.Rlp Xdchain.Trie.Encoding

set_option linter.dupNamespace false

/-- A proof database, as `Get` of a key-value reader sees it: nothing for a
missing key. -/
abbrev ProofDb := List UInt8 → Option (List UInt8)

/-- get: the key left and the node reached from `tn` along `key`. With
`skipResolved` it goes on through embedded nodes and stops at a hash node,
a value or nothing; a short node off the key gives nothing. A full node
indexes its children with the first nibble, which panics on an empty key
or one past the seventeen slots. -/
def get : Decoded → List UInt8 → Bool → Option (List UInt8 × Decoded)
  | .short k v, key, skipResolved =>
    if key.length < k.length ∨ k ≠ key.take k.length then some ([], .nil)
    else if skipResolved then get v (key.drop k.length) skipResolved
    else some (key.drop k.length, v)
  | .full cs, key, skipResolved =>
    match key with
    | [] => none
    | b :: rest =>
      if h : b.toNat < 17 then
        if skipResolved then get (cs ⟨b.toNat, h⟩) rest skipResolved else some (rest, cs ⟨b.toNat, h⟩)
      else none
  | .hash h, key, _ => some (key, .hash h)
  | .nil, key, _ => some (key, .nil)
  | .value v, _, _ => some ([], .value v)

/-- copy(wantHash[:], src): the bytes of `src` over the first bytes of the
hash, as far as both go. -/
def copyHash (dst : Vector UInt8 32) (src : List UInt8) : Vector UInt8 32 :=
  Vector.ofFn fun j => src.getD j.val (dst.get j)

/-- The errors of VerifyProof. -/
inductive VerifyError where
  /-- "proof node %d (hash %064x) missing". -/
  | missing (i : Nat) (hash : Vector UInt8 32)
  /-- "bad proof node %d: %v". -/
  | bad (i : Nat) (e : DecodeError)

/-- The loop of VerifyProof from round `i`, for `fuel` rounds at most:
nothing when the fuel runs out or `get` panics. The value is the empty
list where Go returns nil. A type switch with no case for what `get`
returned (never a short or full node) goes round again. -/
def verifyLoop (db : ProofDb) : Nat → Nat → Vector UInt8 32 → List UInt8 →
    Option (Except VerifyError (List UInt8))
  | 0, _, _, _ => none
  | fuel + 1, i, wantHash, key =>
    match db wantHash.toList with
    | none => some (.error (.missing i wantHash))
    | some buf =>
      match decodeNode buf with
      | .error e => some (.error (.bad i e))
      | .ok n =>
        match get n key true with
        | none => none
        | some (keyrest, cld) =>
          match cld with
          | .nil => some (.ok [])
          | .hash h => verifyLoop db fuel (i + 1) (copyHash wantHash h) keyrest
          | .value v => some (.ok v)
          | _ => verifyLoop db fuel (i + 1) wantHash key

/-- VerifyProof, run for `fuel` rounds. -/
def VerifyProof (rootHash : Vector UInt8 32) (key : List UInt8) (proofDb : ProofDb) (fuel : Nat) :
    Option (Except VerifyError (List UInt8)) :=
  verifyLoop proofDb fuel 0 rootHash (keybytesToHex key)

/-- The first loop of Prove: the nodes on the path to `key`, the short node
that leaves the key included. A value met before the key is used up falls
into the default case, which panics. -/
def proveNodes : Node → List UInt8 → Option (List Node)
  | .nil, _ => some []
  | _, [] => some []
  | .short k v, key@(_ :: _) =>
    if key.length < k.length ∨ k ≠ key.take k.length then some [.short k v]
    else (List.cons (.short k v)) <$> proveNodes v (key.drop k.length)
  | .full cs, b :: rest =>
    if h : b.toNat < 17 then (List.cons (.full cs)) <$> proveNodes (cs ⟨b.toNat, h⟩) rest else none
  | .value _, _ :: _ => none

section Prove

variable (keccak : List UInt8 → Vector UInt8 32)

/-- The second loop of Prove, from node `i`: the first `fromLevel` nodes
are skipped; of the others, each whose collapsed form is hashed, and the
first node of the path, goes into the proof under the hash of its encoding. -/
def proveLoop : List Node → Nat → Nat → ProofDb → ProofDb
  | [], _, _, db => db
  | _ :: ns, i, fromLevel + 1, db => proveLoop ns (i + 1) fromLevel db
  | n :: ns, i, 0, db =>
    let enc := (encodeNode keccak n).enc
    proveLoop ns (i + 1) 0
      (if 32 ≤ enc.length ∨ i = 0 then Function.update db (keccak enc).toList (some enc) else db)

/-- Prove, into the database `proofDb`. -/
def Trie.Prove (t : Trie) (key : List UInt8) (fromLevel : Nat) (proofDb : ProofDb) : Option ProofDb :=
  (proveNodes t.root (keybytesToHex key)).map fun nodes => proveLoop keccak nodes 0 fromLevel proofDb

end Prove

/-! ## Paths through a trie -/

/-- `s` is a node of `t`: `t` itself, or a node below one of its children. -/
inductive Sub : Node → Node → Prop
  | refl (t : Node) : Sub t t
  | short {s val : Node} (k : List UInt8) (h : Sub s val) : Sub s (.short k val)
  | full {s : Node} {cs : Fin 17 → Node} (i : Fin 17) (h : Sub s (cs i)) : Sub s (.full cs)

theorem Sub.trans {a b c : Node} (hab : Sub a b) (hbc : Sub b c) : Sub a c := by
  induction hbc with
  | refl => exact hab
  | short k _ ih => exact .short k ih
  | full i _ ih => exact .full i ih

/-- Where the path of `key` from `s` leads: `s'`, with `key'` left of the
key, through short nodes whose key it carries and full nodes' children. -/
inductive Reach : Node → List UInt8 → Node → List UInt8 → Prop
  | refl (s : Node) (key : List UInt8) : Reach s key s key
  | short {k key : List UInt8} {val s' : Node} {key' : List UInt8} (hk : k <+: key)
      (h : Reach val (key.drop k.length) s' key') : Reach (.short k val) key s' key'
  | full {cs : Fin 17 → Node} {b : UInt8} {rest : List UInt8} {s' : Node} {key' : List UInt8}
      (hb : b.toNat < 17) (h : Reach (cs ⟨b.toNat, hb⟩) rest s' key') : Reach (.full cs) (b :: rest) s' key'

theorem Reach.trans {s key s' key' s'' key'' } (h₁ : Reach s key s' key') (h₂ : Reach s' key' s'' key'') :
    Reach s key s'' key'' := by
  induction h₁ with
  | refl => exact h₂
  | short hk _ ih => exact .short hk (ih h₂)
  | full hb _ ih => exact .full hb (ih h₂)

theorem Reach.sub {s key s' key'} (h : Reach s key s' key') : Sub s' s := by
  induction h with
  | refl => exact .refl _
  | short _ _ ih => exact .short _ ih
  | full _ _ ih => exact .full _ ih

/-- Lookups go along the path. -/
theorem Reach.tryGet {s key s' key'} (h : Reach s key s' key') : tryGet s key = tryGet s' key' := by
  induction h with
  | refl => rfl
  | short hk _ ih => rw [tryGet_short, if_pos hk, ih]
  | full hb _ ih => rw [tryGet_full_cons, dif_pos hb, ih]

/-! ## Walking a decoded node -/

theorem get_short (k : List UInt8) (v : Decoded) (key : List UInt8) (skipResolved : Bool) :
    get (.short k v) key skipResolved =
      if k <+: key then
        (if skipResolved then get v (key.drop k.length) skipResolved else some (key.drop k.length, v))
      else some ([], .nil) := by
  rw [get, if_congr (mismatch_iff k key) rfl rfl, ite_not]

theorem get_full_cons (cs : Fin 17 → Decoded) (b : UInt8) (rest : List UInt8) (skipResolved : Bool) :
    get (.full cs) (b :: rest) skipResolved =
      if h : b.toNat < 17 then
        (if skipResolved then get (cs ⟨b.toNat, h⟩) rest skipResolved else some (rest, cs ⟨b.toNat, h⟩))
      else none := rfl

section Walk

variable (keccak : List UInt8 → Vector UInt8 32)

/-- Where `get` stops in the decoded form of `s` along `key`, with `key'`
left: at nothing or at a value, which is what `s` reads under `key`, or at
the hash of a good node further down the path, hashed because its encoding
has 32 bytes or more. -/
def Stops (s : Node) (key key' : List UInt8) : Decoded → Prop
  | .nil => tryGet s key = some []
  | .value v => tryGet s key = some v
  | .hash h => ∃ s', Reach s key s' key' ∧ key'.length < key.length ∧ Good s' ∧ EncFits keccak s' ∧
      HexKey key' ∧ 32 ≤ (encodeNode keccak s').enc.length ∧ h = (keccak (encodeNode keccak s').enc).toList
  | _ => False

/-- Stopping further down the path is stopping from above. -/
theorem Stops.lift {s s₁ : Node} {key key₁ key' : List UInt8} (hr : Reach s key s₁ key₁)
    (hlen : key₁.length ≤ key.length) {d : Decoded} (h : Stops keccak s₁ key₁ key' d) :
    Stops keccak s key key' d := by
  cases d with
  | nil => exact hr.tryGet.trans h
  | value v => exact hr.tryGet.trans h
  | hash hh =>
    obtain ⟨s', hr', hlt, hgs, hfs, hk', h32, rfl⟩ := h
    exact ⟨s', hr.trans hr', by omega, hgs, hfs, hk', h32, rfl⟩
  | full _ => exact h.elim
  | short _ _ => exact h.elim

/-- A child reached from its parent: embedded, `get` walks on into it;
hashed, it stops at its hash. -/
theorem get_childDecoded {c : Node} {key : List UInt8} (hg : Good c)
    (ih : ∃ key' d, get (decoded keccak c) key true = some (key', d) ∧ Stops keccak c key key' d) :
    ∃ key' d, get (childDecoded keccak c (decoded keccak c)) key true = some (key', d) ∧
      (Stops keccak c key key' d ∨
        (key' = key ∧ d = .hash (keccak (encodeNode keccak c).enc).toList ∧
          32 ≤ (encodeNode keccak c).enc.length)) := by
  -- both readings of a good child depend on the size of its encoding alone
  have hsize : childDecoded keccak c (decoded keccak c) =
      if (encodeNode keccak c).enc.length < 32 then decoded keccak c
      else .hash (keccak (encodeNode keccak c).enc).toList := by
    rcases hg.shape with ⟨k, v, rfl⟩ | ⟨cs, rfl⟩ <;> rfl
  rw [hsize]
  by_cases hsmall : (encodeNode keccak c).enc.length < 32
  · rw [if_pos hsmall]
    obtain ⟨key', d, hd, hstop⟩ := ih
    exact ⟨key', d, hd, .inl hstop⟩
  · rw [if_neg hsmall]
    exact ⟨key, _, rfl, .inr ⟨rfl, rfl, by omega⟩⟩

/-- **What `get` finds in the decoded form of a good node**: it walks
through what is embedded and stops at a hash, a value or nothing. By
induction on the node, one case per shape. -/
theorem get_decoded (s : Node) : ∀ {key : List UInt8}, Good s → EncFits keccak s → HexKey key →
    ∃ key' d, get (decoded keccak s) key true = some (key', d) ∧ Stops keccak s key key' d := by
  induction s with
  | short k val ih =>
    intro key hg hfit hk
    by_cases hpre : k <+: key
    · cases hg with
      | leaf hk0 hv =>
        rename_i v
        obtain rfl := hk0.eq_of_prefix hk hpre
        refine ⟨[], .value v, ?_, ?_⟩
        · show get (.short k (.value v)) k true = _
          rw [get_short, if_pos hpre, if_pos rfl]
          rfl
        · show tryGet _ k = some v
          rw [tryGet_leaf hk0 hk0, if_pos rfl]
      | ext hk0 hn hf =>
        -- through the key, to the full node below
        rename_i cs
        obtain ⟨r, rfl⟩ := hpre
        have hr : HexKey r := hk.of_append hn
        have hreach : Reach (.short k (.full cs)) (k ++ r) (.full cs) r :=
          .short (List.prefix_append _ _) (by rw [List.drop_left]; exact .refl _ _)
        obtain ⟨key', d, hd, hstop⟩ := get_childDecoded keccak hf (ih hf hfit.2 hr)
        refine ⟨key', d, ?_, ?_⟩
        · show get (.short k _) (k ++ r) true = _
          rw [get_short, if_pos (List.prefix_append _ _), if_pos rfl, List.drop_left]
          exact hd
        · rcases hstop with hstop | ⟨rfl, rfl, h32⟩
          · exact hstop.lift keccak hreach (by simp)
          · have hlen := List.length_pos_of_ne_nil hk0
            exact ⟨.full cs, hreach, by simp only [List.length_append]; omega, hf, hfit.2, hr, h32, rfl⟩
    · refine ⟨[], .nil, ?_, tryGet_short_outside _ hpre⟩
      show get (.short k _) key true = _
      rw [get_short, if_neg hpre]
  | full cs ih =>
    intro key hg hfit hk
    obtain ⟨b, r, rfl⟩ := List.exists_cons_of_ne_nil hk.ne_nil
    have hb := hk.head_lt
    set i : Fin 17 := ⟨b.toNat, hb⟩ with hi
    have hreach : Reach (.full cs) (b :: r) (cs i) r := .full hb (.refl _ _)
    have hget : get (decoded keccak (.full cs)) (b :: r) true =
        get (childDecoded keccak (cs i) (decoded keccak (cs i))) r true := by
      show get (.full _) (b :: r) true = _
      rw [get_full_cons, dif_pos hb, if_pos rfl]
    rw [hget]
    rcases childOK_iff.mp (hg.children i) with h | ⟨hlt, hgi⟩ | ⟨-, w, -, h⟩
    · -- nothing in the slot
      rw [h]
      refine ⟨r, .nil, rfl, ?_⟩
      show tryGet _ _ = some []
      rw [hreach.tryGet, h]
      rfl
    · -- a good node below a nibble
      have hr : HexKey r := by
        rcases hexKey_cons.mp hk with ⟨rfl, -⟩ | ⟨-, hr⟩
        · exact absurd hlt (by rw [hi]; show ¬ UInt8.toNat 16 < 16; decide)
        · exact hr
      obtain ⟨key', d, hd, hstop⟩ := get_childDecoded keccak hgi (ih i hgi (hfit.2 i) hr)
      refine ⟨key', d, hd, ?_⟩
      rcases hstop with hstop | ⟨rfl, rfl, h32⟩
      · exact hstop.lift keccak hreach (by simp)
      · exact ⟨cs i, hreach, by simp, hgi, hfit.2 i, hr, h32, rfl⟩
    · -- the terminator's value
      rw [h]
      refine ⟨[], .value w, rfl, ?_⟩
      show tryGet _ _ = some w
      rw [hreach.tryGet, h]
      rfl
  | value => intro _ hg; cases hg
  | nil => intro _ hg; cases hg

/-! ## The verification loop -/

theorem copyHash_toList (dst w : Vector UInt8 32) : copyHash dst w.toList = w := by
  ext j hj
  simp [copyHash]

/-- **Soundness of the loop**: a value the loop accepts from the hash of a
good node of `root` is what the node reads under the key, if the database
maps the hash of each good node of `root` to nothing or to that node's
encoding. By induction on the fuel, one looked-up node a round. -/
theorem verifyLoop_sound {root : Node} {db : ProofDb}
    (hdb : ∀ s, Sub s root → Good s → ∀ v, db (keccak (encodeNode keccak s).enc).toList = some v →
      v = (encodeNode keccak s).enc) :
    ∀ fuel i {s : Node} {key v : List UInt8}, Sub s root → Good s → EncFits keccak s → HexKey key →
      verifyLoop db fuel i (keccak (encodeNode keccak s).enc) key = some (.ok v) → tryGet s key = some v := by
  intro fuel
  induction fuel with
  | zero => intro i s key v _ _ _ _ h; cases h
  | succ fuel ih =>
    intro i s key v hsub hg hfit hk h
    rw [verifyLoop] at h
    cases hbuf : db (keccak (encodeNode keccak s).enc).toList with
    | none => rw [hbuf] at h; cases h
    | some buf =>
      -- the database can only hold the node itself
      obtain rfl := hdb s hsub hg buf hbuf
      have hdec := decodeNode_encodeNode keccak s hg hfit []
      rw [List.append_nil] at hdec
      obtain ⟨key', d, hd, hstop⟩ := get_decoded keccak s hg hfit hk
      rw [hbuf] at h
      simp only [hdec, hd] at h
      cases d with
      | nil =>
        simp only [Option.some.injEq, Except.ok.injEq] at h
        rw [← h]
        exact hstop
      | value w =>
        simp only [Option.some.injEq, Except.ok.injEq] at h
        rw [← h]
        exact hstop
      | hash hh =>
        obtain ⟨s', hr, -, hg', hfit', hk', -, rfl⟩ := hstop
        dsimp only at h
        rw [copyHash_toList] at h
        rw [hr.tryGet]
        exact ih (i + 1) (hr.sub.trans hsub) hg' hfit' hk' h
      | full _ => exact hstop.elim
      | short _ _ => exact hstop.elim

/-- The database holds `s` and every hashed good node on the path of `key`
from `s`, each under its hash. -/
def Covers (db : ProofDb) (s : Node) (key : List UInt8) : Prop :=
  db (keccak (encodeNode keccak s).enc).toList = some (encodeNode keccak s).enc ∧
    ∀ s' key', Reach s key s' key' → Good s' → 32 ≤ (encodeNode keccak s').enc.length →
      db (keccak (encodeNode keccak s').enc).toList = some (encodeNode keccak s').enc

/-- **Completeness of the loop**: from the hash of a good node, a database
that covers the path of the key leads the loop, within more rounds than
the key has nibbles, to what the node reads. By induction on the fuel; each
round takes a nibble at least. -/
theorem verifyLoop_complete {db : ProofDb} :
    ∀ fuel i {s : Node} {key : List UInt8}, key.length < fuel → Good s → EncFits keccak s → HexKey key →
      Covers keccak db s key →
        ∃ v, tryGet s key = some v ∧ verifyLoop db fuel i (keccak (encodeNode keccak s).enc) key = some (.ok v) := by
  intro fuel
  induction fuel with
  | zero => intro i s key hlen; omega
  | succ fuel ih =>
    intro i s key hlen hg hfit hk hcov
    have hdec := decodeNode_encodeNode keccak s hg hfit []
    rw [List.append_nil] at hdec
    obtain ⟨key', d, hd, hstop⟩ := get_decoded keccak s hg hfit hk
    rw [verifyLoop, hcov.1]
    simp only [hdec, hd]
    cases d with
    | nil => exact ⟨[], hstop, rfl⟩
    | value w => exact ⟨w, hstop, rfl⟩
    | hash hh =>
      obtain ⟨s', hr, hlt, hg', hfit', hk', h32, rfl⟩ := hstop
      dsimp only
      rw [copyHash_toList, hr.tryGet]
      exact ih (i + 1) (by omega) hg' hfit' hk'
        ⟨hcov.2 s' key' hr hg' h32, fun s'' key'' hr' => hcov.2 s'' key'' (hr.trans hr')⟩
    | full _ => exact hstop.elim
    | short _ _ => exact hstop.elim

/-! ## What Prove writes -/

theorem proveNodes_short {k key : List UInt8} (v : Node) (hkey : key ≠ []) :
    proveNodes (.short k v) key =
      if k <+: key then List.cons (.short k v) <$> proveNodes v (key.drop k.length) else some [.short k v] := by
  obtain ⟨b, r, rfl⟩ := List.exists_cons_of_ne_nil hkey
  rw [proveNodes, if_congr (mismatch_iff k _) rfl rfl, ite_not]

theorem proveNodes_full_cons (cs : Fin 17 → Node) (b : UInt8) (rest : List UInt8) :
    proveNodes (.full cs) (b :: rest) =
      if h : b.toNat < 17 then List.cons (.full cs) <$> proveNodes (cs ⟨b.toNat, h⟩) rest else none := rfl

/-- Nothing good is reached through nothing or a value. -/
theorem Reach.not_good_of_leafish {c s' : Node} {key key' : List UInt8}
    (hc : c = .nil ∨ ∃ w, c = .value w) (h : Reach c key s' key') : ¬ Good s' := by
  rcases hc with rfl | ⟨w, rfl⟩ <;>
  · cases h
    intro hg
    cases hg

/-- The only good node of a leaf is the leaf. -/
theorem Sub.eq_of_good_of_leaf {s : Node} {k v : List UInt8} (h : Sub s (.short k (.value v))) (hg : Good s) :
    s = .short k (.value v) := by
  cases h with
  | refl => rfl
  | short _ h' =>
    -- below the leaf is its value, which is not good
    cases h'
    cases hg

/-- **The path Prove collects** from a good node along a hex key: the node
first, then exactly the good nodes the path reaches. By induction on the
node. -/
theorem proveNodes_spec (s : Node) : ∀ {key : List UInt8}, Good s → HexKey key →
    ∃ ns, proveNodes s key = some ns ∧ ns.head? = some s ∧
      (∀ n ∈ ns, ∃ key', Reach s key n key' ∧ Good n) ∧
      (∀ s' key', Reach s key s' key' → Good s' → s' ∈ ns) := by
  induction s with
  | short k val ih =>
    intro key hg hk
    rw [proveNodes_short val hk.ne_nil]
    by_cases hpre : k <+: key
    · rw [if_pos hpre]
      -- below the key: nothing more for a leaf, the full node's path for an extension
      obtain ⟨ns', hrun, hbelow, hreach⟩ : ∃ ns', proveNodes val (key.drop k.length) = some ns' ∧
          (∀ n ∈ ns', ∃ key', Reach val (key.drop k.length) n key' ∧ Good n) ∧
          (∀ s' key', Reach val (key.drop k.length) s' key' → Good s' → s' ∈ ns') := by
        cases hg with
        | leaf hk0 hv =>
          obtain rfl := hk0.eq_of_prefix hk hpre
          refine ⟨[], by rw [List.drop_length]; rfl, by simp, fun s' key' hr hg' => ?_⟩
          exact absurd hg' (hr.not_good_of_leafish (.inr ⟨_, rfl⟩))
        | ext hk0 hn hf =>
          obtain ⟨r, rfl⟩ := hpre
          rw [List.drop_left]
          obtain ⟨ns', hrun, -, hbelow, hreach⟩ := ih hf (hk.of_append hn)
          exact ⟨ns', hrun, hbelow, hreach⟩
      refine ⟨.short k val :: ns', by rw [hrun]; rfl, rfl, ?_, ?_⟩
      · intro n hn
        rcases List.mem_cons.mp hn with rfl | hn
        · exact ⟨key, .refl _ _, hg⟩
        · obtain ⟨key', hr, hgn⟩ := hbelow n hn
          exact ⟨key', .short hpre hr, hgn⟩
      · intro s' key' hr hg'
        cases hr with
        | refl => exact List.mem_cons_self
        | short _ hr => exact List.mem_cons_of_mem _ (hreach s' key' hr hg')
    · -- off the key: the node alone
      rw [if_neg hpre]
      refine ⟨[.short k val], rfl, rfl, ?_, ?_⟩
      · intro n hn
        rw [List.mem_singleton.mp hn]
        exact ⟨key, .refl _ _, hg⟩
      · intro s' key' hr _
        cases hr with
        | refl => exact List.mem_singleton_self _
        | short hk' _ => exact absurd hk' hpre
  | full cs ih =>
    intro key hg hk
    obtain ⟨b, r, rfl⟩ := List.exists_cons_of_ne_nil hk.ne_nil
    have hb := hk.head_lt
    rw [proveNodes_full_cons, dif_pos hb]
    -- below the nibble: nothing, the terminator's value, or a good node's path
    obtain ⟨ns', hrun, hbelow, hreach⟩ : ∃ ns', proveNodes (cs ⟨b.toNat, hb⟩) r = some ns' ∧
        (∀ n ∈ ns', ∃ key', Reach (cs ⟨b.toNat, hb⟩) r n key' ∧ Good n) ∧
        (∀ s' key', Reach (cs ⟨b.toNat, hb⟩) r s' key' → Good s' → s' ∈ ns') := by
      rcases childOK_iff.mp (hg.children ⟨b.toNat, hb⟩) with h | ⟨hlt, hgi⟩ | ⟨h16, w, -, h⟩
      · refine ⟨[], by rw [h]; rfl, by simp, fun s' key' hr hg' => ?_⟩
        exact absurd hg' (hr.not_good_of_leafish (.inl h))
      · have hr : HexKey r := by
          rcases hexKey_cons.mp hk with ⟨rfl, -⟩ | ⟨-, hr⟩
          · exact absurd hlt (by show ¬ UInt8.toNat 16 < 16; decide)
          · exact hr
        obtain ⟨ns', hrun, -, hbelow, hreach⟩ := ih _ hgi hr
        exact ⟨ns', hrun, hbelow, hreach⟩
      · -- the terminator ends the key
        have hr : r = [] := by
          rcases hexKey_cons.mp hk with ⟨-, hr⟩ | ⟨hb16, -⟩
          · exact hr
          · have hb := lt_16_iff.mp hb16
            exact absurd h16 (by simp only; omega)
        subst hr
        refine ⟨[], by rw [h]; rfl, by simp, fun s' key' hr hg' => ?_⟩
        exact absurd hg' (hr.not_good_of_leafish (.inr ⟨w, h⟩))
    refine ⟨.full cs :: ns', by rw [hrun]; rfl, rfl, ?_, ?_⟩
    · intro n hn
      rcases List.mem_cons.mp hn with rfl | hn
      · exact ⟨b :: r, .refl _ _, hg⟩
      · obtain ⟨key', hr, hgn⟩ := hbelow n hn
        exact ⟨key', .full hb hr, hgn⟩
    · intro s' key' hr hg'
      cases hr with
      | refl => exact List.mem_cons_self
      | full _ hr => exact List.mem_cons_of_mem _ (hreach s' key' hr hg')
  | value => intro _ hg; cases hg
  | nil => intro _ hg; cases hg

theorem proveLoop_cons (n : Node) (ns : List Node) (i : Nat) (db : ProofDb) :
    proveLoop keccak (n :: ns) i 0 db =
      proveLoop keccak ns (i + 1) 0
        (if 32 ≤ (encodeNode keccak n).enc.length ∨ i = 0 then
          Function.update db (keccak (encodeNode keccak n).enc).toList (some (encodeNode keccak n).enc)
        else db) := rfl

/-- The rest of Prove's loop keeps what the database holds under a hash no
later node shares with another encoding. -/
theorem proveLoop_keep (ms : List Node) : ∀ (i : Nat) (db : ProofDb) {k e : List UInt8}, db k = some e →
    (∀ m ∈ ms, (keccak (encodeNode keccak m).enc).toList = k → (encodeNode keccak m).enc = e) →
    proveLoop keccak ms i 0 db k = some e := by
  induction ms with
  | nil => intro i db k e h _; exact h
  | cons m ms ih =>
    intro i db k e h hall
    rw [proveLoop_cons]
    refine ih (i + 1) _ ?_ fun m' hm' hk => hall m' (List.mem_cons_of_mem _ hm') hk
    split_ifs
    · rw [Function.update_apply]
      split_ifs with hk
      · rw [hall m List.mem_cons_self hk.symm]
      · exact h
    · exact h

/-- **Prove's database**: every node of the path that is hashed, and the
first, is in it under its hash, when no two nodes of the path share a hash
with different encodings. By induction on the path. -/
theorem proveLoop_get (ns : List Node)
    (hinj : ∀ m ∈ ns, ∀ m' ∈ ns, keccak (encodeNode keccak m).enc = keccak (encodeNode keccak m').enc →
      (encodeNode keccak m).enc = (encodeNode keccak m').enc) :
    ∀ (i : Nat) (db : ProofDb) {n : Node}, n ∈ ns →
      (32 ≤ (encodeNode keccak n).enc.length ∨ (i = 0 ∧ ns.head? = some n)) →
        proveLoop keccak ns i 0 db (keccak (encodeNode keccak n).enc).toList = some (encodeNode keccak n).enc := by
  induction ns with
  | nil => intro i db n hn; exact absurd hn List.not_mem_nil
  | cons m ms ih =>
    intro i db n hn hstored
    rw [proveLoop_cons]
    by_cases hnm : n = m
    · -- the node is put here, and no later node overwrites it
      subst hnm
      have hput : 32 ≤ (encodeNode keccak n).enc.length ∨ i = 0 := by
        rcases hstored with h | ⟨h, -⟩
        · exact .inl h
        · exact .inr h
      rw [if_pos hput]
      refine proveLoop_keep keccak ms (i + 1) _ (Function.update_self ..) fun m' hm' hk => ?_
      exact hinj m' (List.mem_cons_of_mem _ hm') n List.mem_cons_self (Vector.toList_inj.mp hk)
    · -- the node is further on, and put because it is hashed
      have hn' : n ∈ ms := (List.mem_cons.mp hn).resolve_left hnm
      have h32 : 32 ≤ (encodeNode keccak n).enc.length := by
        rcases hstored with h | ⟨-, h⟩
        · exact h
        · exact absurd (Option.some.inj h).symm hnm
      exact ih (fun m hm m' hm' => hinj m (List.mem_cons_of_mem _ hm) m' (List.mem_cons_of_mem _ hm'))
        (i + 1) _ hn' (.inl h32)

/-! ## A trie of two hashed leaves

A full node with a leaf under nibble 0 and one under nibble 1, each with a
32-byte value, so that each leaf's encoding is long enough to be referenced
by its hash. The key `[0x01]` leads through the full node to the first leaf.
`rollHash`, a byte-wise xor-and-multiply hash in the style of FNV, with a
seed for each of its 32 bytes, stands for keccak: it is no cryptographic
hash, but it gives the three nodes three different hashes. -/

def rollHash (bs : List UInt8) : Vector UInt8 32 :=
  Vector.ofFn fun i => bs.foldl (fun acc b => (acc ^^^ b) * 0x93) (i.val.toUInt8 * 0x3b + 1)

/-- The leaf under a nibble of the full node, with 32 bytes `b`. -/
def hashedLeaf (b : UInt8) : Node := .short [1, 16] (.value (List.replicate 32 b))

def twoLeaves : Node := .full fun i => if i.val = 0 then hashedLeaf 0x0a else if i.val = 1 then hashedLeaf 0x0b else .nil

theorem hashedLeaf_good (b : UInt8) : Good (hashedLeaf b) := .leaf ⟨[1], by simp [Nibbles], rfl⟩ (by simp)

theorem twoLeaves_good : Good twoLeaves := by
  refine .full (fun i => ?_) ⟨0, 1, by decide, by simp [hashedLeaf], by simp [hashedLeaf]⟩
  show ChildOK i (if i.val = 0 then hashedLeaf 0x0a else if i.val = 1 then hashedLeaf 0x0b else .nil)
  by_cases h0 : i.val = 0
  · rw [if_pos h0]
    exact .node (by omega) (hashedLeaf_good _)
  · rw [if_neg h0]
    by_cases h1 : i.val = 1
    · rw [if_pos h1]
      exact .node (by omega) (hashedLeaf_good _)
    · rw [if_neg h1]
      exact .nil i

theorem twoLeaves_encFits : EncFits rollHash twoLeaves := by
  refine ⟨by decide, fun i => ?_⟩
  show EncFits rollHash (if i.val = 0 then hashedLeaf 0x0a else if i.val = 1 then hashedLeaf 0x0b else .nil)
  -- each leaf encodes in 35 bytes, around a value of 32
  split
  · exact ⟨by decide, show (List.replicate 32 (0x0a : UInt8)).length < 2 ^ 64 by decide⟩
  · split
    · exact ⟨by decide, show (List.replicate 32 (0x0b : UInt8)).length < 2 ^ 64 by decide⟩
    · trivial

/-- The good nodes on the path of `[0x01]`: the full node and the first leaf. -/
theorem good_of_reach_twoLeaves {s : Node} {key : List UInt8} (h : Reach twoLeaves [0, 1, 16] s key) (hg : Good s) :
    s = twoLeaves ∨ s = hashedLeaf 0x0a := by
  unfold twoLeaves at h
  cases h with
  | refl => exact .inl rfl
  | full hb h' =>
    -- nibble 0 leads to the first leaf, whose only good node is itself
    change Reach (hashedLeaf 0x0a) _ s key at h'
    exact .inr (Sub.eq_of_good_of_leaf h'.sub hg)

/-- The good nodes of the trie: the full node and its two leaves. -/
theorem good_of_sub_twoLeaves {s : Node} (h : Sub s twoLeaves) (hg : Good s) :
    s = twoLeaves ∨ s = hashedLeaf 0x0a ∨ s = hashedLeaf 0x0b := by
  unfold twoLeaves at h
  cases h with
  | refl => exact .inl rfl
  | full i h' =>
    change Sub s (if i.val = 0 then hashedLeaf 0x0a else if i.val = 1 then hashedLeaf 0x0b else .nil) at h'
    split at h'
    · exact .inr (.inl (Sub.eq_of_good_of_leaf h' hg))
    · split at h'
      · exact .inr (.inr (Sub.eq_of_good_of_leaf h' hg))
      · -- nothing is below an empty child
        cases h'
        cases hg

set_option maxRecDepth 20000 in
theorem rollHash_twoLeaves_ne_first :
    rollHash (encodeNode rollHash twoLeaves).enc ≠ rollHash (encodeNode rollHash (hashedLeaf 0x0a)).enc := by
  decide

set_option maxRecDepth 20000 in
theorem rollHash_twoLeaves_ne_second :
    rollHash (encodeNode rollHash twoLeaves).enc ≠ rollHash (encodeNode rollHash (hashedLeaf 0x0b)).enc := by
  decide

set_option maxRecDepth 20000 in
theorem rollHash_first_ne_second :
    rollHash (encodeNode rollHash (hashedLeaf 0x0a)).enc ≠ rollHash (encodeNode rollHash (hashedLeaf 0x0b)).enc := by
  decide

/-- The proof of `[0x01]`: the full node and the first leaf, each under its
hash. -/
def twoLeavesProof : ProofDb := fun k =>
  if k = (rollHash (encodeNode rollHash twoLeaves).enc).toList then some (encodeNode rollHash twoLeaves).enc
  else if k = (rollHash (encodeNode rollHash (hashedLeaf 0x0a)).enc).toList then
    some (encodeNode rollHash (hashedLeaf 0x0a)).enc
  else none

/-! ## Proofs of a trie -/

theorem hashRoot_of_good {n : Node} (hg : Good n) :
    hashRoot keccak n = some (keccak (encodeNode keccak n).enc) := by
  rcases hg.shape with ⟨k, v, rfl⟩ | ⟨cs, rfl⟩ <;> rfl

/-- **A proof that Prove writes verifies**: for a trie with a good root whose
nodes encode within RLP's sizes, and a key along whose path no two good
nodes share a hash with different encodings, Prove writes into an empty
database a proof that VerifyProof accepts against the trie's hash, within
more rounds than the key has nibbles, with the value TryGet returns. -/
theorem VerifyProof_Prove {t : Trie} (hg : Good t.root) (hfit : EncFits keccak t.root) (key : List UInt8)
    (hinj : ∀ s₁ k₁ s₂ k₂, Reach t.root (keybytesToHex key) s₁ k₁ → Reach t.root (keybytesToHex key) s₂ k₂ →
      Good s₁ → Good s₂ → keccak (encodeNode keccak s₁).enc = keccak (encodeNode keccak s₂).enc →
        (encodeNode keccak s₁).enc = (encodeNode keccak s₂).enc) :
    ∃ db rootHash v, t.Prove keccak key 0 (fun _ => none) = some db ∧ t.Hash keccak = some rootHash ∧
      t.TryGet key = some v ∧
      ∀ fuel, (keybytesToHex key).length < fuel → VerifyProof rootHash key db fuel = some (.ok v) := by
  have hk := keybytesToHex_hexKey key
  obtain ⟨ns, hrun, hhead, hmem, hreach⟩ := proveNodes_spec t.root hg hk
  -- the path's own nodes share no hash
  have hinj' : ∀ m ∈ ns, ∀ m' ∈ ns, keccak (encodeNode keccak m).enc = keccak (encodeNode keccak m').enc →
      (encodeNode keccak m).enc = (encodeNode keccak m').enc := by
    intro m hm m' hm' h
    obtain ⟨k₁, hr₁, hg₁⟩ := hmem m hm
    obtain ⟨k₂, hr₂, hg₂⟩ := hmem m' hm'
    exact hinj _ _ _ _ hr₁ hr₂ hg₁ hg₂ h
  have hcov : Covers keccak (proveLoop keccak ns 0 0 fun _ => none) t.root (keybytesToHex key) :=
    ⟨proveLoop_get keccak ns hinj' 0 _ (List.mem_of_mem_head? hhead) (.inr ⟨rfl, hhead⟩),
      fun s' key' hr hg' h32 => proveLoop_get keccak ns hinj' 0 _ (hreach s' key' hr hg') (.inl h32)⟩
  obtain ⟨v, hv, -⟩ := verifyLoop_complete keccak _ 0 (Nat.lt_succ_self _) hg hfit hk hcov
  refine ⟨_, _, v, by rw [Trie.Prove, hrun]; rfl, hashRoot_of_good keccak hg, hv, fun fuel hfuel => ?_⟩
  obtain ⟨v', hv', hloop⟩ := verifyLoop_complete keccak fuel 0 hfuel hg hfit hk hcov
  rw [hv] at hv'
  rw [Option.some.inj hv']
  exact hloop

theorem VerifyProof_Prove_at_two_leaves :
    ∃ db rootHash v, (⟨twoLeaves, 2⟩ : Trie).Prove rollHash [1] 0 (fun _ => none) = some db ∧
      (⟨twoLeaves, 2⟩ : Trie).Hash rollHash = some rootHash ∧ (⟨twoLeaves, 2⟩ : Trie).TryGet [1] = some v ∧
      ∀ fuel, (keybytesToHex [1]).length < fuel → VerifyProof rootHash [1] db fuel = some (.ok v) :=
  @VerifyProof_Prove rollHash ⟨twoLeaves, 2⟩ twoLeaves_good twoLeaves_encFits [1]
    fun s₁ k₁ s₂ k₂ h₁ h₂ g₁ g₂ hh => by
      -- the full node and the first leaf have different hashes
      rcases good_of_reach_twoLeaves h₁ g₁ with rfl | rfl <;> rcases good_of_reach_twoLeaves h₂ g₂ with rfl | rfl
      · rfl
      · exact absurd hh rollHash_twoLeaves_ne_first
      · exact absurd hh.symm rollHash_twoLeaves_ne_first
      · rfl

/-- **A value VerifyProof accepts is the trie's**: whatever the database
holds, if it maps each key to a preimage and holds no second preimage of the
hash of a good node of the trie, a value VerifyProof accepts against the
trie's hash, in any number of rounds, is the value TryGet returns. -/
theorem VerifyProof_sound {t : Trie} (hg : Good t.root) (hfit : EncFits keccak t.root) {db : ProofDb}
    (hcons : ∀ k v, db k = some v → (keccak v).toList = k)
    (hcoll : ∀ k v, db k = some v → ∀ s, Sub s t.root → Good s →
      keccak v = keccak (encodeNode keccak s).enc → v = (encodeNode keccak s).enc)
    {rootHash : Vector UInt8 32} (hroot : t.Hash keccak = some rootHash) {key v : List UInt8} {fuel : Nat}
    (h : VerifyProof rootHash key db fuel = some (.ok v)) : t.TryGet key = some v := by
  -- the database holds nothing else under the hash of a node of the trie
  have hdb : ∀ s, Sub s t.root → Good s → ∀ w, db (keccak (encodeNode keccak s).enc).toList = some w →
      w = (encodeNode keccak s).enc := fun s hsub hgs w hw =>
    hcoll _ w hw s hsub hgs (Vector.toList_inj.mp (hcons _ w hw))
  rw [Trie.Hash, hashRoot_of_good keccak hg, Option.some_inj] at hroot
  subst hroot
  exact verifyLoop_sound keccak hdb fuel 0 (.refl _) hg hfit (keybytesToHex_hexKey key) h

theorem VerifyProof_sound_at_two_leaves :
    VerifyProof (rollHash (encodeNode rollHash twoLeaves).enc) [1] twoLeavesProof 4 =
        some (.ok (List.replicate 32 0x0a)) ∧
      (⟨twoLeaves, 2⟩ : Trie).TryGet [1] = some (List.replicate 32 0x0a) := by
  -- the proof holds the path of the key: the full node and the first leaf
  have hcov : Covers rollHash twoLeavesProof twoLeaves [0, 1, 16] := by
    refine ⟨if_pos rfl, fun s' key' hr hg' _ => ?_⟩
    rcases good_of_reach_twoLeaves hr hg' with rfl | rfl
    · exact if_pos rfl
    · rw [twoLeavesProof, if_neg fun h => rollHash_twoLeaves_ne_first (Vector.toList_inj.mp h).symm, if_pos rfl]
  have h : VerifyProof (rollHash (encodeNode rollHash twoLeaves).enc) [1] twoLeavesProof 4 =
      some (.ok (List.replicate 32 0x0a)) := by
    obtain ⟨v, hv, hloop⟩ := verifyLoop_complete rollHash 4 0 (by decide) twoLeaves_good twoLeaves_encFits
      (show HexKey [0, 1, 16] from ⟨[0, 1], by simp [Nibbles], rfl⟩) hcov
    have hget : tryGet twoLeaves [0, 1, 16] = some (List.replicate 32 0x0a) := by decide
    rw [hget, Option.some_inj] at hv
    subst hv
    rw [VerifyProof, show keybytesToHex [1] = [0, 1, 16] by decide]
    exact hloop
  refine ⟨h, VerifyProof_sound rollHash twoLeaves_good twoLeaves_encFits ?_ ?_ rfl h⟩
  · -- each entry is stored under its own hash
    intro k v hkv
    unfold twoLeavesProof at hkv
    split at hkv
    · rename_i hk
      rw [hk, ← Option.some.inj hkv]
    · split at hkv
      · rename_i hk
        rw [hk, ← Option.some.inj hkv]
      · cases hkv
  · -- no entry is a second preimage of a good node's hash: the three hashes differ
    intro k v hkv s hsub hgs hh
    unfold twoLeavesProof at hkv
    split at hkv
    · cases hkv
      rcases good_of_sub_twoLeaves hsub hgs with rfl | rfl | rfl
      · rfl
      · exact absurd hh rollHash_twoLeaves_ne_first
      · exact absurd hh rollHash_twoLeaves_ne_second
    · split at hkv
      · cases hkv
        rcases good_of_sub_twoLeaves hsub hgs with rfl | rfl | rfl
        · exact absurd hh.symm rollHash_twoLeaves_ne_first
        · rfl
        · exact absurd hh rollHash_first_ne_second
      · cases hkv

end Walk

end Xdchain.Trie.Patricia
