import Xdchain.Trie.Hasher
import Xdchain.Trie.Canonical
import Xdchain.Rlp.Raw

/-! # Decoding trie nodes

`trie/node.go`. `decodeNode` reads a node back from its RLP encoding with
the slice reader of `rlp/raw.go`: a list of two values is a short node,
whose compact key tells a leaf (the value follows) from an extension (a
reference follows); a list of seventeen is a full node, sixteen references
and a value. A reference is an embedded node (a list, at most 32 bytes), a
32-byte hash, or the empty string for no child. Errors carry the path of
nodes they were met under, innermost first (`decodeError`). The hash that
`decodeNode` stores in the node flags is left out with the flags. -/

namespace Xdchain.Trie.Patricia

open Xdchain.Lib.ErrState Xdchain.Rlp Xdchain.Rlp.Decode Xdchain.Rlp.Raw Xdchain.Rlp.Canonical
  Xdchain.Trie.Encoding

set_option linter.dupNamespace false

/-- A node as `decodeNode` reads it: node.go's four kinds of node, and nil
for an empty child. -/
inductive Decoded where
  | full (Children : Fin 17 → Decoded)
  | short (Key : List UInt8) (Val : Decoded)
  | hash (h : List UInt8)
  | value (v : List UInt8)
  | nil

/-- The errors of `decodeNode` before any decode path is added to them. -/
inductive DecodeFault where
  /-- io.ErrUnexpectedEOF: an empty buffer. -/
  | unexpectedEOF
  /-- "decode error: %v", of SplitList. -/
  | decode (e : Err)
  /-- "invalid number of list elements: %v". -/
  | count (c : Nat)
  /-- An error of SplitString or Split, passed on as it is. -/
  | rlp (e : Err)
  /-- "invalid value node: %v". -/
  | invalidValue (e : Err)
  /-- "oversized embedded node (size is %d bytes, want size < %d)". -/
  | oversized (size : Nat)
  /-- "invalid RLP string size %d (want 0 or 32)". -/
  | stringSize (n : Nat)

/-- decodeError: an error and the decode path it came up through; one that
was never wrapped has an empty path. -/
structure DecodeError where
  what : DecodeFault
  stack : List String

/-- wrapError: the context pushed onto the error's decode path. -/
def wrapError {α : Type} (r : Except DecodeError α) (ctx : String) : Except DecodeError α :=
  r.mapError fun e => { e with stack := e.stack ++ [ctx] }

def hashLen : Nat := 32

/-! ## What the slice reader consumes -/

theorem split_rest_lt {b : List UInt8} {k : Kind} {c r : List UInt8} (h : split b = .ok (k, c, r)) :
    r.length < b.length := by
  obtain ⟨rfl, ha, -⟩ := split_eq_ok_iff.mp h
  have := List.length_pos_of_ne_nil (valueEnc_ne_nil ha)
  simp only [List.length_append]
  omega

theorem splitString_rest_lt {b c r : List UInt8} (h : splitString b = .ok (c, r)) :
    r.length < b.length := by
  obtain ⟨k, -, hs⟩ := splitString_eq_ok_iff.mp h
  exact split_rest_lt hs

theorem splitList_content_lt {b c r : List UInt8} (h : splitList b = .ok (c, r)) :
    c.length < b.length := by
  obtain ⟨rfl, -, -⟩ := split_eq_ok_iff.mp (splitList_eq_ok_iff.mp h)
  have := List.length_pos_of_ne_nil (header_ne_nil 0xC0 c.length)
  simp only [valueEnc, List.length_append]
  omega

/-! ## The decoder -/

mutual

/-- decodeNode. CountValues returns zero with its error, which the switch
then reports as a wrong number of elements. -/
def decodeNode (buf : List UInt8) : Except DecodeError Decoded :=
  if buf.length = 0 then .error ⟨.unexpectedEOF, []⟩
  else
    match _h : splitList buf with
    | .error e => .error ⟨.decode e, []⟩
    | .ok (elems, _) =>
      match (match countValues elems with | .ok c => c | .error _ => 0) with
      | 2 => wrapError (decodeShort elems) "short"
      | 17 => wrapError (decodeFull elems) "full"
      | c => .error ⟨.count c, []⟩
termination_by (buf.length, 0)
decreasing_by
  all_goals exact Prod.Lex.left _ _ (splitList_content_lt _h)

/-- decodeShort: a key with the terminator leads to a value, any other key
to a reference. -/
def decodeShort (elems : List UInt8) : Except DecodeError Decoded :=
  match _h : splitString elems with
  | .error e => .error ⟨.rlp e, []⟩
  | .ok (kbuf, rest) =>
    let key := Encoding.compactToHex kbuf
    if Encoding.hasTerm key then
      match splitString rest with
      | .error e => .error ⟨.invalidValue e, []⟩
      | .ok (val, _) => .ok (.short key (.value val))
    else
      match decodeRef rest with
      | .error e => wrapError (.error e) "val"
      | .ok r => .ok (.short key r.val.1)
termination_by (elems.length, 3)
decreasing_by
  exact Prod.Lex.left _ _ (splitString_rest_lt _h)

/-- decodeFull: sixteen references, then the value, which is set only when
it is not empty. -/
def decodeFull (elems : List UInt8) : Except DecodeError Decoded :=
  match decodeChildren 0 (fun _ => .nil) elems with
  | .error e => .error e
  | .ok (cs, elems) =>
    match splitString elems with
    | .error e => .error ⟨.rlp e, []⟩
    | .ok (val, _) => .ok (.full (if val.length > 0 then Function.update cs 16 (.value val) else cs))
termination_by (elems.length, 3)
decreasing_by
  exact Prod.Lex.right _ (by omega)

/-- The loop of decodeFull: the references of children `i` to 15, each read
off what the one before left. -/
def decodeChildren (i : Nat) (cs : Fin 17 → Decoded) (elems : List UInt8) :
    Except DecodeError ((Fin 17 → Decoded) × List UInt8) :=
  if hi : i < 16 then
    match decodeRef elems with
    | .error e => wrapError (.error e) ("[" ++ toString i ++ "]")
    | .ok r => decodeChildren (i + 1) (Function.update cs ⟨i, by omega⟩ r.val.1) r.val.2
  else .ok (cs, elems)
termination_by (elems.length, 2)
decreasing_by
  · exact Prod.Lex.right _ (by omega)
  · exact Prod.Lex.left _ _ r.property

/-- decodeRef: an embedded node of at most 32 bytes, decoded where it
stands; the empty string for no child; a 32-byte hash. What follows the
reference is shorter than the input, which the result carries. -/
def decodeRef (buf : List UInt8) :
    Except DecodeError {p : Decoded × List UInt8 // p.2.length < buf.length} :=
  match h : split buf with
  | .error e => .error ⟨.rlp e, []⟩
  | .ok (kind, val, rest) =>
    if kind = .list then
      -- an embedded node: its encoding must be smaller than a hash
      if buf.length - rest.length > hashLen then .error ⟨.oversized (buf.length - rest.length), []⟩
      else
        match decodeNode buf with
        | .error e => .error e
        | .ok n => .ok ⟨(n, rest), split_rest_lt h⟩
    else if kind = .string ∧ val.length = 0 then .ok ⟨(.nil, rest), split_rest_lt h⟩
    else if kind = .string ∧ val.length = 32 then .ok ⟨(.hash val, rest), split_rest_lt h⟩
    else .error ⟨.stringSize val.length, []⟩
termination_by (buf.length, 1)
decreasing_by
  exact Prod.Lex.right _ (by omega)

end

/-! ## Items at the front of the input -/

theorem length_enc_le_encAll {x : Item} {xs : List Item} (hx : x ∈ xs) :
    x.enc.length ≤ (Item.encAll xs).length := by
  induction xs with
  | nil => exact absurd hx List.not_mem_nil
  | cons y ys ih =>
    rw [encAll_cons, List.length_append]
    rcases List.mem_cons.mp hx with rfl | hx
    · omega
    · have := ih hx
      omega

theorem length_le_enc_str (b : List UInt8) : b.length ≤ (Item.str b).enc.length := by
  rcases encString_cases b with ⟨c, rfl, -, he⟩ | ⟨he, -⟩
  · rw [enc_str, he]
  · rw [enc_str, he, List.length_append]
    omega

theorem split_enc_str {b : List UInt8} (hb : b.length < 2 ^ 64) (r : List UInt8) :
    ∃ k, k ≠ .list ∧ split ((Item.str b).enc ++ r) = .ok (k, b, r) := by
  obtain ⟨k, hk, ha, hs, he⟩ := exists_valueEnc_encString hb
  exact ⟨k, hk, split_eq_ok_iff.mpr ⟨by rw [enc_str, he], ha, hs⟩⟩

theorem split_enc_list {xs : List Item} (hxs : (Item.encAll xs).length < 2 ^ 64) (r : List UInt8) :
    split ((Item.list xs).enc ++ r) = .ok (.list, Item.encAll xs, r) :=
  split_eq_ok_iff.mpr ⟨rfl, hxs, fun h => absurd h.1 (by decide)⟩

/-- `readKind` takes the whole encoding of an item of a 64-bit size. -/
theorem readKind_enc (x : Item) (hx : x.enc.length < 2 ^ 64) (r : List UInt8) :
    ∃ k ts cs, readKind (x.enc ++ r) = .ok (k, ts, cs) ∧ ts + cs = x.enc.length := by
  obtain ⟨k, c, he, ha, hs⟩ : ∃ k c, x.enc = valueEnc k c ∧ Announces k c ∧ ¬ ShortString k c := by
    cases x with
    | str b =>
      obtain ⟨k, -, ha, hs, he⟩ := exists_valueEnc_encString (c := b)
        (lt_of_le_of_lt (length_le_enc_str b) hx)
      exact ⟨k, b, he, ha, hs⟩
    | list xs =>
      have : (Item.encAll xs).length ≤ (Item.list xs).enc.length := by simp
      exact ⟨.list, _, rfl, show (Item.encAll xs).length < 2 ^ 64 by omega,
        fun h => absurd h.1 (by decide)⟩
  obtain ⟨hd, hv⟩ := valueEnc_eq_append k c
  refine ⟨k, _, _, by rw [he]; exact readKind_valueEnc ha hs r, ?_⟩
  rw [he, hv, List.length_append]
  omega

/-- CountValues counts the items of a list payload. -/
theorem countValuesLoop_encAll : ∀ (xs : List Item) (f i : Nat),
    (∀ x ∈ xs, x.enc.length < 2 ^ 64) → (Item.encAll xs).length < f →
    countValuesLoop f (Item.encAll xs) i = .ok (i + xs.length)
  | [], f + 1, i, _, _ => rfl
  | x :: xs, f + 1, i, hfit, hlen => by
    obtain ⟨k, ts, cs, hk, hsum⟩ := readKind_enc x (hfit x List.mem_cons_self) (Item.encAll xs)
    have hpos := length_enc_pos x
    have hdrop : (x.enc ++ Item.encAll xs).drop (ts + cs) = Item.encAll xs := by
      rw [hsum, List.drop_left]
    rw [encAll_cons] at hlen ⊢
    simp only [countValuesLoop, List.length_append, hk, ok_bind, hdrop]
    rw [if_pos (by omega), countValuesLoop_encAll xs f (i + 1)
      (fun y hy => hfit y (List.mem_cons_of_mem _ hy)) (by simp only [List.length_append] at hlen; omega)]
    simp only [List.length_cons]
    congr 1
    omega
  | _ :: _, 0, _, _, hlen => absurd hlen (Nat.not_lt_zero _)

theorem countValues_encAll (xs : List Item) (hfit : ∀ x ∈ xs, x.enc.length < 2 ^ 64) :
    countValues (Item.encAll xs) = .ok xs.length := by
  rw [countValues, countValuesLoop_encAll xs _ 0 hfit (Nat.lt_succ_self _), Nat.zero_add]

theorem split_enc_str_string {b : List UInt8} (hb : b.length < 2 ^ 64) (h1 : b.length ≠ 1)
    (r : List UInt8) : split ((Item.str b).enc ++ r) = .ok (.string, b, r) := by
  obtain ⟨k, hk, hs⟩ := split_enc_str hb r
  cases k with
  | byte => exact absurd (split_eq_ok_iff.mp hs).2.1.1 h1
  | string => exact hs
  | list => exact absurd rfl hk

/-! ## Reading references -/

/-- decodeRef reads `d` off the front of `buf` and leaves `r`. -/
def RefReads (buf : List UInt8) (d : Decoded) (r : List UInt8) : Prop :=
  ∃ h, decodeRef buf = .ok ⟨(d, r), h⟩

/-- The empty string is no child. -/
theorem refReads_nil (r : List UInt8) : RefReads ((Item.str []).enc ++ r) .nil r := by
  have hs := split_enc_str_string (b := []) (by decide) (by decide) r
  rw [RefReads, decodeRef]
  split
  · rename_i e he
    rw [hs] at he
    cases he
  · rename_i kind val rest he
    rw [hs] at he
    cases he
    exact ⟨split_rest_lt hs, by rw [if_neg (by decide), if_pos ⟨rfl, rfl⟩]⟩

/-- Thirty-two bytes are a hash. -/
theorem refReads_hash (hash : Vector UInt8 32) (r : List UInt8) :
    RefReads ((Item.str hash.toList).enc ++ r) (.hash hash.toList) r := by
  have hs := split_enc_str_string (b := hash.toList) (by simp) (by simp) r
  rw [RefReads, decodeRef]
  split
  · rename_i e he
    rw [hs] at he
    cases he
  · rename_i kind val rest he
    rw [hs] at he
    cases he
    refine ⟨split_rest_lt hs, ?_⟩
    rw [if_neg (by decide), if_neg (by simp), if_pos ⟨rfl, by simp⟩]

/-- A list shorter than a hash is an embedded node, decoded where it stands. -/
theorem refReads_embedded {xs : List Item} (hsmall : (Item.list xs).enc.length < 32) {r : List UInt8}
    {d : Decoded} (hdec : decodeNode ((Item.list xs).enc ++ r) = .ok d) :
    RefReads ((Item.list xs).enc ++ r) d r := by
  have hfit : (Item.encAll xs).length < 2 ^ 64 := by
    simp only [enc_list, List.length_append] at hsmall
    omega
  have hs := split_enc_list hfit r
  rw [RefReads, decodeRef]
  split
  · rename_i e he
    rw [hs] at he
    cases he
  · rename_i kind val rest he
    rw [hs] at he
    cases he
    have hsize : ¬ ((Item.list xs).enc ++ r).length - r.length > hashLen := by
      simp only [List.length_append, hashLen]
      omega
    refine ⟨split_rest_lt hs, ?_⟩
    rw [if_pos rfl, if_neg hsize, hdec]

/-! ## Reading nodes -/

theorem length_lt_of_mem {x : Item} {xs : List Item} (hx : x ∈ xs)
    (hfit : (Item.list xs).enc.length < 2 ^ 64) : x.enc.length < 2 ^ 64 := by
  have h1 := length_enc_le_encAll hx
  have h2 : (Item.encAll xs).length ≤ (Item.list xs).enc.length := by simp
  omega

/-- decodeNode on the encoding of a list, whatever follows it: two items
are read as a short node, seventeen as a full node. -/
theorem decodeNode_list {xs : List Item} (hfit : (Item.list xs).enc.length < 2 ^ 64) (r : List UInt8) :
    decodeNode ((Item.list xs).enc ++ r) =
      if xs.length = 2 then wrapError (decodeShort (Item.encAll xs)) "short"
      else if xs.length = 17 then wrapError (decodeFull (Item.encAll xs)) "full"
      else .error ⟨.count xs.length, []⟩ := by
  have hs : splitList ((Item.list xs).enc ++ r) = .ok (Item.encAll xs, r) :=
    splitList_eq_ok_iff.mpr (split_enc_list (by simp only [enc_list, List.length_append] at hfit; omega) r)
  have hcount := countValues_encAll xs fun x hx => length_lt_of_mem hx hfit
  have hne : ((Item.list xs).enc ++ r).length ≠ 0 := by
    have := length_enc_pos (.list xs)
    rw [List.length_append]
    omega
  rw [decodeNode, if_neg hne]
  split
  · rename_i e he
    rw [hs] at he
    cases he
  · rename_i elems rest he
    rw [hs] at he
    cases he
    simp only [hcount]
    split
    · rename_i hc
      rw [if_pos hc]
    · rename_i hc
      rw [if_neg (by omega), if_pos hc]
    · rename_i c hc2 hc17
      rw [if_neg hc2, if_neg hc17]

/-- decodeShort on a leaf: the key with its terminator, and the value. -/
theorem decodeShort_leaf {k v : List UInt8} (hk : HexKey k) (hkfit : (Encoding.hexToCompact k).length < 2 ^ 64)
    (hvfit : v.length < 2 ^ 64) :
    decodeShort (Item.encAll [.str (Encoding.hexToCompact k), .str v]) = .ok (.short k (.value v)) := by
  obtain ⟨body, hbody, rfl⟩ := hk
  have hkey : Encoding.compactToHex (Encoding.hexToCompact (body ++ [16])) = body ++ [16] := by
    simpa using compactToHex_hexToCompact body hbody true
  have hs : splitString (Item.encAll [.str (Encoding.hexToCompact (body ++ [16])), .str v]) =
      .ok (Encoding.hexToCompact (body ++ [16]), (Item.str v).enc ++ []) := by
    rw [encAll_cons, encAll_cons, encAll_nil]
    exact splitString_encString hkfit _
  rw [decodeShort]
  split
  · rename_i e he
    rw [hs] at he
    cases he
  · rename_i kbuf rest he
    rw [hs] at he
    cases he
    simp only [hkey, hasTerm_append_terminator, if_true]
    rw [enc_str, splitString_encString hvfit]

/-- decodeShort on an extension: the key, and the reference after it. -/
theorem decodeShort_ext {k : List UInt8} (hn : Nibbles k) (hkfit : (Encoding.hexToCompact k).length < 2 ^ 64)
    {ref : Item} {d : Decoded} (href : RefReads (ref.enc ++ []) d []) :
    decodeShort (Item.encAll [.str (Encoding.hexToCompact k), ref]) = .ok (.short k d) := by
  have hkey : Encoding.compactToHex (Encoding.hexToCompact k) = k := by
    simpa using compactToHex_hexToCompact k hn false
  have hs : splitString (Item.encAll [.str (Encoding.hexToCompact k), ref]) =
      .ok (Encoding.hexToCompact k, ref.enc ++ []) := by
    rw [encAll_cons, encAll_cons, encAll_nil]
    exact splitString_encString hkfit _
  obtain ⟨hr, hdr⟩ := href
  rw [decodeShort]
  split
  · rename_i e he
    rw [hs] at he
    cases he
  · rename_i kbuf rest he
    rw [hs] at he
    cases he
    simp only [hkey, hasTerm_of_nibbles hn, Bool.false_eq_true, if_false]
    rw [hdr]

theorem wrapError_ok {α : Type} (a : α) (ctx : String) : wrapError (.ok a) ctx = .ok a := rfl

/-- The loop of decodeFull reads the sixteen references one after the other. -/
theorem decodeChildren_reads (refs : Fin 17 → Item) (ds : Fin 17 → Decoded)
    (hrefs : ∀ j : Fin 17, j.val < 16 → ∀ r, RefReads ((refs j).enc ++ r) (ds j) r) :
    ∀ i, i ≤ 16 → decodeChildren i (fun j => if j.val < i then ds j else .nil)
      (Item.encAll ((List.ofFn refs).drop i)) =
        .ok (fun j => if j.val < 16 then ds j else .nil, Item.encAll ((List.ofFn refs).drop 16)) := by
  intro i hi
  induction h : 16 - i generalizing i with
  | zero =>
    obtain rfl : i = 16 := by omega
    rw [decodeChildren, dif_neg (by omega)]
  | succ m ih =>
    have hlt : i < 17 := by omega
    -- reference `i` at the front, the others after it
    have hdrop : (List.ofFn refs).drop i = refs ⟨i, hlt⟩ :: (List.ofFn refs).drop (i + 1) := by
      rw [List.drop_eq_getElem_cons (by simp; omega), List.getElem_ofFn]
    obtain ⟨hr, hdr⟩ := hrefs ⟨i, hlt⟩ (by show i < 16; omega) (Item.encAll ((List.ofFn refs).drop (i + 1)))
    have hnext : Function.update (fun j : Fin 17 => if j.val < i then ds j else .nil) ⟨i, by omega⟩
        (ds ⟨i, hlt⟩) = fun j => if j.val < i + 1 then ds j else .nil := by
      funext j
      rw [Function.update_apply]
      split
      · rename_i hj
        subst hj
        simp
      · rename_i hj
        have hj' : j.val ≠ i := fun e => hj (Fin.ext e)
        by_cases hji : j.val < i
        · rw [if_pos hji, if_pos (by omega)]
        · rw [if_neg hji, if_neg (by omega)]
    rw [decodeChildren, dif_pos (by omega), hdrop, encAll_cons, hdr]
    dsimp only
    rw [hnext]
    exact ih (i + 1) (by omega) (by omega)

/-- decodeFull reads the sixteen references, then the value in the last
slot, set when it is not empty. -/
theorem decodeFull_reads (refs : Fin 17 → Item) (ds : Fin 17 → Decoded)
    (hrefs : ∀ j : Fin 17, j.val < 16 → ∀ r, RefReads ((refs j).enc ++ r) (ds j) r)
    {v : List UInt8} (hv : refs 16 = .str v) (hvfit : v.length < 2 ^ 64) :
    decodeFull (Item.encAll (List.ofFn refs)) =
      .ok (.full fun j => if j.val < 16 then ds j else if v.length > 0 then .value v else .nil) := by
  have h0 := decodeChildren_reads refs ds hrefs 0 (by omega)
  simp only [Nat.not_lt_zero, if_false, List.drop_zero] at h0
  have hlast : (List.ofFn refs).drop 16 = [refs 16] := by
    rw [List.drop_eq_getElem_cons (by simp), List.getElem_ofFn]
    simp
  rw [decodeFull, h0]
  dsimp only
  rw [hlast, hv, encAll_cons, encAll_nil, enc_str, splitString_encString hvfit]
  dsimp only
  congr 2
  funext j
  split
  · rename_i hpos
    rw [Function.update_apply]
    split
    · rename_i hj
      subst hj
      simp
    · rename_i hj
      have hj' : j.val < 16 := by
        have : j.val ≠ 16 := fun e => hj (Fin.ext e)
        omega
      simp [hj']
  · rename_i hpos
    by_cases hj : j.val < 16
    · simp [hj]
    · simp [hj]

/-! ## Decoding the encoding of a good node -/

section Codec

variable (keccak : List UInt8 → Vector UInt8 32)

/-- How `decodeNode` reads back a child from its parent's encoding: a short
or full node embedded in place, or as the hash node of its encoding; a value
or nothing as it is. -/
def childDecoded (c : Node) (d : Decoded) : Decoded :=
  match c with
  | .short _ _ | .full _ =>
    if (encodeNode keccak c).enc.length < 32 then d else .hash (keccak (encodeNode keccak c).enc).toList
  | _ => d

/-- What `decodeNode` reads back from the encoding of a collapsed node. -/
def decoded : Node → Decoded
  | .short k val => .short k (childDecoded keccak val (decoded val))
  | .full cs => .full fun i => childDecoded keccak (cs i) (decoded (cs i))
  | .value v => .value v
  | .nil => .nil

/-- Every node of a trie encodes within the 64-bit sizes of RLP. -/
def EncFits : Node → Prop
  | .short k val => (encodeNode keccak (.short k val)).enc.length < 2 ^ 64 ∧ EncFits val
  | .full cs => (encodeNode keccak (.full cs)).enc.length < 2 ^ 64 ∧ ∀ i, EncFits (cs i)
  | .value v => v.length < 2 ^ 64
  | .nil => True

/-- A child reads back from its reference in the parent, given that a good
child reads back from its own encoding. -/
theorem refReads_childItem {c : Node} (hc : c = .nil ∨ Good c)
    (ih : Good c → ∀ r, decodeNode ((encodeNode keccak c).enc ++ r) = .ok (decoded keccak c))
    (r : List UInt8) :
    RefReads ((childItem keccak c (encodeNode keccak c)).enc ++ r)
      (childDecoded keccak c (decoded keccak c)) r := by
  rcases hc with rfl | hg
  · exact refReads_nil r
  · have hdec := ih hg
    -- both readings depend on the size of the encoding alone
    have hshape : ∀ xs, encodeNode keccak c = .list xs →
        RefReads ((ref keccak (.list xs)).enc ++ r)
          (if (Item.list xs).enc.length < 32 then decoded keccak c
            else .hash (keccak (Item.list xs).enc).toList) r := by
      intro xs hxs
      unfold ref
      by_cases hsmall : (Item.list xs).enc.length < 32
      · rw [if_pos hsmall, if_pos hsmall]
        exact refReads_embedded hsmall (by rw [← hxs]; exact hdec r)
      · rw [if_neg hsmall, if_neg hsmall]
        exact refReads_hash _ r
    rcases hg.shape with ⟨k, v, rfl⟩ | ⟨cs, rfl⟩
    · exact hshape _ rfl
    · exact hshape _ rfl

/-- **The node codec round-trips**: `decodeNode` reads back from the
encoding of a good node the node itself, with each child as the reference
its parent holds, whatever follows the encoding. -/
theorem decodeNode_encodeNode (n : Node) :
    Good n → EncFits keccak n → ∀ r, decodeNode ((encodeNode keccak n).enc ++ r) = .ok (decoded keccak n) := by
  induction n with
  | short k val ih =>
    intro hg hfit r
    have hfit0 : (encodeNode keccak (.short k val)).enc.length < 2 ^ 64 := hfit.1
    -- the compact key is the first of the two items
    have hkfit : (Encoding.hexToCompact k).length < 2 ^ 64 :=
      lt_of_le_of_lt (length_le_enc_str _) (length_lt_of_mem (by simp) hfit0)
    cases hg with
    | leaf hk hv =>
      rename_i v
      have hvfit : v.length < 2 ^ 64 := hfit.2
      rw [encodeNode_leaf] at hfit0 ⊢
      rw [decodeNode_list hfit0, if_pos (by rfl), decodeShort_leaf hk hkfit hvfit]
      rfl
    | ext hk hn hf =>
      rename_i cs
      have href : RefReads ((ref keccak (encodeNode keccak (.full cs))).enc ++ [])
          (childDecoded keccak (.full cs) (decoded keccak (.full cs))) [] :=
        refReads_childItem keccak (.inr hf) (fun hg' => ih hg' hfit.2) []
      rw [encodeNode_ext] at hfit0 ⊢
      rw [decodeNode_list hfit0, if_pos (by rfl), decodeShort_ext hn hkfit href]
      rfl
  | full cs ih =>
    intro hg hfit r
    have hfit0 : (encodeNode keccak (.full cs)).enc.length < 2 ^ 64 := hfit.1
    set refs : Fin 17 → Item := fun i => if i.val < 16 then childItem keccak (cs i) (encodeNode keccak (cs i))
      else encodeNode keccak (cs i) with hrefs_def
    have hrefs : ∀ j : Fin 17, j.val < 16 → ∀ r, RefReads ((refs j).enc ++ r)
        (childDecoded keccak (cs j) (decoded keccak (cs j))) r := by
      intro j hj r
      rw [hrefs_def]
      dsimp only
      rw [if_pos hj]
      exact refReads_childItem keccak ((hg.children j).nil_or_good hj)
        (fun hgj => ih j hgj (hfit.2 j)) r
    -- the last slot: nothing or a value
    obtain ⟨v, hv, hvfit, hslot⟩ : ∃ v, refs 16 = .str v ∧ v.length < 2 ^ 64 ∧
        (if v.length > 0 then Decoded.value v else .nil) =
          childDecoded keccak (cs 16) (decoded keccak (cs 16)) := by
      rcases (hg.children 16).slot rfl with h | ⟨w, hw, h⟩
      · refine ⟨[], by rw [hrefs_def]; simp [h, encodeNode], by decide, ?_⟩
        rw [h]
        rfl
      · have hwfit : w.length < 2 ^ 64 := by
          have := hfit.2 16
          rw [h] at this
          exact this
        refine ⟨w, by rw [hrefs_def]; simp [h, encodeNode], hwfit, ?_⟩
        rw [h, if_pos (List.length_pos_of_ne_nil hw)]
        rfl
    show decodeNode ((Item.list (List.ofFn refs)).enc ++ r) = _
    rw [decodeNode_list hfit0, List.length_ofFn, if_neg (by decide), if_pos rfl,
      decodeFull_reads refs _ hrefs hv hvfit]
    show Except.ok _ = Except.ok (Decoded.full _)
    congr 2
    funext j
    by_cases hj : j.val < 16
    · rw [if_pos hj]
    · obtain rfl : j = 16 := Fin.ext (by omega)
      rw [if_neg hj, hslot]
  | value => intro hg; cases hg
  | nil => intro hg; cases hg

end Codec

end Xdchain.Trie.Patricia
