import Xdchain.Lib.SortedKeys
import Xdchain.Rlp.Values

/-! # Node records

`p2p/enr/enr.go`. A record is a sequence number, a signature, the bytes of
its encoding and its key/value pairs sorted by key. `Set` puts a pair in its
place through `sort.Search` and, on a signed record, bumps the sequence
number and drops the signature; `Load` finds a key the same way and decodes
its value. `SetSig` checks a signature with an identity scheme and keeps it
with the bytes `encode` makes; `DecodeRLP` reads a record back from the
stream, refusing one over `SizeLimit` bytes or with pairs out of order.

Keys are Go strings, compared as bytes. A value is kept as the raw RLP it
was set or read as; the entry `Set` is given is the item its encoder writes.

As a map, a record with sorted pairs is `lookup` over them: `Set` is
`upsert` and `Load` decodes what `lookup` finds, so after any run of calls
`Load` returns the last value set under a key (`run_Load`). -/

namespace Xdchain.Enr

open Xdchain.Lib Xdchain.Lib.SortedKeys Xdchain.Lib.ErrState Xdchain.Rlp Xdchain.Rlp.Decode
  Xdchain.Rlp.Encode Xdchain.Rlp.Typed

/-- Maximum encoded size of a node record in bytes. -/
def SizeLimit : Nat := 300

/-- The errors of `enr.go`, and the errors of `rlp` it passes on. -/
inductive Err where
  /-- "invalid signature on node record" -/
  | invalidSig
  /-- "record key/value pairs are not sorted by key" -/
  | notSorted
  /-- "record contains duplicate key" -/
  | duplicateKey
  /-- "record contains incomplete k/v pair" -/
  | incompletePair
  /-- "record bigger than 300 bytes" -/
  | tooBig
  /-- "can't encode unsigned record" -/
  | encodeUnsigned
  /-- "no such key in record" -/
  | notFound
  | rlp (e : Decode.Err)
deriving DecidableEq, Repr

/-- KeyError: the key `Load` was asked for, and what went wrong. -/
structure KeyError where
  Key : List UInt8
  Err : Enr.Err
deriving DecidableEq, Repr

/-- pair: a key and its value as raw RLP. -/
structure pair where
  k : List UInt8
  v : List UInt8
deriving DecidableEq, Repr, Inhabited

/-- Record. A nil signature is `none`; a nil `raw` is empty. -/
structure Record where
  seq : UInt64
  signature : Option (List UInt8)
  raw : List UInt8
  pairs : List pair
deriving DecidableEq, Repr

/-- The zero value: an empty record. -/
def Record.empty : Record := ⟨0, none, [], []⟩

/-- IdentityScheme, by the signature check `SetSig` calls. -/
structure IdentityScheme where
  Verify : Record → List UInt8 → Except Err Unit

/-- The values of the list `encode` hands to `rlp.EncodeToBytes`: a byte
slice or a string, a `uint64`, and an `rlp.RawValue`. -/
inductive Elem where
  | bytes (b : List UInt8)
  | uint (n : UInt64)
  | raw (v : List UInt8)

/-- What the encoder writes for each: a string, an integer, and a raw value
as it is. -/
def Elem.enc : Elem → List UInt8
  | .bytes b => (Item.str b).enc
  | .uint n => (writeUint n.toNat).enc
  | .raw v => v

/-- `rlp.EncodeToBytes` of a `[]interface{}`: a list header, then the
elements. -/
def encodeList (list : List Elem) : List UInt8 :=
  header 0xC0 (list.flatMap Elem.enc).length ++ list.flatMap Elem.enc

namespace Record

def Seq (r : Record) : UInt64 := r.seq

/-- SetSeq: a new sequence number, and no signature. -/
def SetSeq (r : Record) (s : UInt64) : Record := { r with signature := none, raw := [], seq := s }

/-- The `sort.Search` of `Load` and `Set`: the first pair whose key is not
below `key`. -/
def searchKey (pairs : List pair) (key : List UInt8) : Nat :=
  search pairs.length fun i => decide ((pairs.getD i default).k ≥ key)

/-- Load: the value of `key`, decoded by the entry's decoder. -/
def Load {α : Type} (r : Record) (key : List UInt8) (dec : StreamM α) : Except KeyError α :=
  let i := searchKey r.pairs key
  if h : i < r.pairs.length then
    if r.pairs[i].k = key then
      match decodeBytesAs dec r.pairs[i].v with
      | .ok x => .ok x
      | .error err => .error ⟨key, .rlp err⟩
    else .error ⟨key, .notFound⟩
  else .error ⟨key, .notFound⟩

/-- invalidate: a signed record's sequence number goes up by one, and the
signature and encoding go. -/
def invalidate (r : Record) : Record :=
  { r with seq := if r.signature.isSome then r.seq + 1 else r.seq, signature := none, raw := [] }

/-- Set: the entry's encoding under `key`, over the pair with that key,
inserted before the first pair above it, or appended. -/
def Set (r : Record) (key : List UInt8) (e : Item) : Record :=
  let blob := encodeToBytes e
  let r := r.invalidate
  let pairs := r.pairs
  let i := searchKey pairs key
  let pairs :=
    if h : i < pairs.length then
      if pairs[i].k = key then pairs.set i { pairs[i] with v := blob }
      else pairs.insertIdx i ⟨key, blob⟩
    else pairs ++ [⟨key, blob⟩]
  { r with pairs }

/-- AppendElements: the sequence number, then each key and value. -/
def AppendElements (r : Record) (list : List Elem) : List Elem :=
  list ++ .uint r.seq :: r.pairs.flatMap fun p => [.bytes p.k, .raw p.v]

/-- encode: the signature, the sequence number and the pairs as one list. -/
def encode (r : Record) (sig : List UInt8) : Except Err (List UInt8) :=
  let raw := encodeList (r.AppendElements [.bytes sig])
  if raw.length > SizeLimit then .error .tooBig else .ok raw

/-- SetSig: a signature the scheme verifies, kept with the encoding; with
neither scheme nor signature, no signature. `none` where it panics. -/
def SetSig (r : Record) (s : Option IdentityScheme) (sig : Option (List UInt8)) :
    Option (Except Err Record) :=
  match s, sig with
  -- "enr: invalid call to SetSig with non-nil signature but nil scheme"
  | none, some _ => none
  -- "enr: invalid call to SetSig with nil signature but non-nil scheme"
  | some _, none => none
  | some s, some sig => some do
    s.Verify r sig
    let raw ← r.encode sig
    pure { r with signature := some sig, raw }
  | none, none => some (.ok { r with signature := none, raw := [] })

/-- EncodeRLP: the bytes of a signed record. -/
def EncodeRLP (r : Record) : Except Err (List UInt8) :=
  if r.signature.isNone then .error .encodeUnsigned else .ok r.raw

end Record

/-! ## Decoding -/

/-- The stream methods with the errors of this package. -/
abbrev DecM := EStateM Err Stream

/-- An `rlp` method, its errors passed on. -/
def rlpM {α : Type} (m : StreamM α) : DecM α := EStateM.adaptExcept Err.rlp m

/-- The check of every pair after the first against the key before it. -/
def checkKey (prevkey : Option (List UInt8)) (k : List UInt8) : Except Err Unit :=
  match prevkey with
  | none => .ok ()
  | some p => if k = p then .error .duplicateKey else if k < p then .error .notSorted else .ok ()

/-- The loop of `decodeRecord` over the pairs, until the list ends (`EOL`).
The fuel bounds the number of pairs. -/
def decodePairs : Nat → Option (List UInt8) → DecM (List pair)
  | 0, _ => throw (.rlp .outOfFuel)
  | fuel + 1, prevkey => do
    match ← rlpM (attempt bytes) with
    | .error .eol => pure []
    | .error err => throw (.rlp err)
    | .ok k =>
      match ← rlpM (attempt raw) with
      | .error .eol => throw .incompletePair
      | .error err => throw (.rlp err)
      | .ok v =>
        match checkKey prevkey k with
        | .error err => throw err
        | .ok () =>
          let pairs ← decodePairs fuel (some k)
          pure (⟨k, v⟩ :: pairs)

/-- The RLP container of `decodeRecord`: the signature, the sequence number
and the pairs, in one list. -/
def decodeContainer (fuel : Nat) : DecM Record := do
  let _ ← rlpM list
  let signature ← rlpM bytes
  let seq ← rlpM (uint 64)
  let pairs ← decodePairs fuel none
  rlpM listEnd
  pure { seq := UInt64.ofNat seq, signature := some signature, raw := [], pairs }

/-- decodeRecord: the record's bytes, within `SizeLimit`, decoded in a
stream of their own. -/
def decodeRecord : DecM (Record × List UInt8) := do
  let raw ← rlpM raw
  if raw.length > SizeLimit then throw .tooBig
  else
    match (decodeContainer raw.length).run (reset raw 0) with
    | .ok dec _ => pure (dec, raw)
    | .error err _ => throw err

/-- Record.DecodeRLP: the decoded record keeps its bytes. -/
def Record.DecodeRLP : DecM Record := do
  let (dec, raw) ← decodeRecord
  pure { dec with raw }

/-- `rlp.DecodeBytes(b, &r)`: a record, and nothing after it. -/
def DecodeBytes (b : List UInt8) : Except Err Record :=
  match Record.DecodeRLP.run (reset b b.length) with
  | .ok r s => if s.r.length > 0 then .error (.rlp .moreThanOneValue) else .ok r
  | .error err _ => .error err

/-! ## Runs of calls -/

/-- The calls that change a record. -/
inductive Op where
  | Set (key : List UInt8) (e : Item)
  | SetSeq (s : UInt64)
  | SetSig (s : Option IdentityScheme) (sig : Option (List UInt8))

namespace Record

/-- One call: `none` where `SetSig` panics; a `SetSig` that fails leaves the
record as it was. -/
def apply (r : Record) : Op → Option Record
  | .Set key e => some (r.Set key e)
  | .SetSeq s => some (r.SetSeq s)
  | .SetSig s sig => (r.SetSig s sig).map fun res =>
    match res with
    | .ok r' => r'
    | .error _ => r

/-- The calls one after the other. -/
def run (r : Record) : List Op → Option Record
  | [] => some r
  | op :: ops => (r.apply op).bind fun r' => r'.run ops

end Record

/-- The entry a call sets under `key`. -/
def Op.setsAt (key : List UInt8) : Op → Option Item
  | .Set k e => if k = key then some e else none
  | _ => none

/-- The entry of the last `Set` of `key` in a run. -/
def lastSet (key : List UInt8) : List Op → Option Item
  | [] => none
  | op :: ops => (lastSet key ops).or (op.setsAt key)

/-! ## A record as a sorted map -/

namespace Record

/-- The keys of the pairs strictly increase. -/
def Sorted (r : Record) : Prop := StrictlySorted pair.k r.pairs

/-- The pair of `key`. -/
def find (r : Record) (key : List UInt8) : Option pair := lookup pair.k key r.pairs

/-- The stored pair of an entry set under `key`. -/
def stored (key : List UInt8) (e : Item) : pair := ⟨key, encodeToBytes e⟩

theorem empty_sorted : Record.empty.Sorted := List.Pairwise.nil

theorem searchKey_split {pairs : List pair} (hs : StrictlySorted pair.k pairs) (key : List UInt8) :
    searchKey pairs key ≤ pairs.length ∧
      (∀ j (hj : j < pairs.length), j < searchKey pairs key → pairs[j].k < key) ∧
      ∀ j (hj : j < pairs.length), searchKey pairs key ≤ j → ¬ pairs[j].k < key :=
  search_split hs fun j hj => by simp [List.getElem?_eq_getElem hj, List.not_lt]

/-- **`Load` decodes the value `find` finds.** -/
theorem Load_eq {α : Type} {r : Record} (hs : r.Sorted) (key : List UInt8) (dec : StreamM α) :
    r.Load key dec =
      match r.find key with
      | some p => (decodeBytesAs dec p.v).mapError fun err => ⟨key, .rlp err⟩
      | none => .error ⟨key, .notFound⟩ := by
  obtain ⟨-, hlow, hhigh⟩ := searchKey_split hs key
  rw [find, lookup_of_split hs hlow hhigh]
  unfold Load
  dsimp only
  split
  · split
    · dsimp only
      cases decodeBytesAs dec r.pairs[searchKey r.pairs key].v <;> rfl
    · rfl
  · rfl

@[simp] theorem Set_seq (r : Record) (key : List UInt8) (e : Item) :
    (r.Set key e).seq = if r.signature.isSome then r.seq + 1 else r.seq := rfl

@[simp] theorem Set_signature (r : Record) (key : List UInt8) (e : Item) :
    (r.Set key e).signature = none := rfl

@[simp] theorem Set_raw (r : Record) (key : List UInt8) (e : Item) : (r.Set key e).raw = [] := rfl

/-- **`Set` is an upsert** of the stored pair. -/
theorem Set_pairs {r : Record} (hs : r.Sorted) (key : List UInt8) (e : Item) :
    (r.Set key e).pairs = upsert pair.k (stored key e) r.pairs := by
  obtain ⟨hle, hlow, hhigh⟩ := searchKey_split hs key
  unfold Set
  dsimp only [invalidate]
  split
  · rename_i hi
    split
    · -- the pair with the key is overwritten
      rename_i heq
      rw [upsert_eq_set hi hlow heq]
      congr 1
      cases h : r.pairs[searchKey r.pairs key]
      simp_all [stored]
    · rename_i hne
      exact (upsert_eq_insertIdx hi hlow (hhigh _ hi (Nat.le_refl _)) hne).symm
  · -- every key is below: the pair goes at the end
    rename_i hi
    exact (upsert_eq_append fun j hj => hlow j hj (by omega)).symm

theorem Set_sorted {r : Record} (hs : r.Sorted) (key : List UInt8) (e : Item) : (r.Set key e).Sorted := by
  unfold Sorted
  rw [Set_pairs hs]
  exact upsert_sorted _ hs

theorem find_Set {r : Record} (hs : r.Sorted) (key k : List UInt8) (e : Item) :
    (r.Set key e).find k = if key = k then some (stored key e) else r.find k := by
  rw [find, Set_pairs hs, lookup_upsert]
  rfl

/-- A successful `SetSig` keeps the pairs and the sequence number: with a
scheme it stores the signature with the encoding, without one it drops both. -/
theorem SetSig_eq_ok {r r' : Record} {s : Option IdentityScheme} {sig : Option (List UInt8)}
    (h : r.SetSig s sig = some (.ok r')) :
    (∃ sch sg, s = some sch ∧ sig = some sg ∧ sch.Verify r sg = .ok () ∧ r.encode sg = .ok r'.raw ∧
      r' = { r with signature := some sg, raw := r'.raw }) ∨
    (s = none ∧ sig = none ∧ r' = { r with signature := none, raw := [] }) := by
  unfold SetSig at h
  split at h
  · cases h
  · cases h
  · rename_i sch sg
    simp only [Option.some.injEq] at h
    obtain ⟨u, hv, h⟩ := bind_eq_ok.mp h
    obtain ⟨raw, he, h⟩ := bind_eq_ok.mp h
    cases h
    exact .inl ⟨sch, sg, rfl, rfl, hv, he, rfl⟩
  · simp only [Option.some.injEq, Except.ok.injEq] at h
    exact .inr ⟨rfl, rfl, h.symm⟩

theorem SetSig_pairs {r r' : Record} {s : Option IdentityScheme} {sig : Option (List UInt8)}
    (h : r.SetSig s sig = some (.ok r')) : r'.pairs = r.pairs := by
  rcases SetSig_eq_ok h with ⟨sch, sg, -, -, -, -, h'⟩ | ⟨-, -, h'⟩
  · rw [h']
  · rw [h']

/-- **One call**: the pairs stay sorted, and the only key whose pair changes
is the key a `Set` sets. -/
theorem apply_find {r r' : Record} {op : Op} (hs : r.Sorted) (h : r.apply op = some r') :
    r'.Sorted ∧ ∀ k, r'.find k = ((op.setsAt k).map (stored k)).or (r.find k) := by
  cases op with
  | Set key e =>
    cases h
    refine ⟨Set_sorted hs key e, fun k => ?_⟩
    rw [find_Set hs]
    by_cases hk : key = k
    · subst hk
      simp [Op.setsAt]
    · simp [Op.setsAt, hk]
  | SetSeq s =>
    cases h
    exact ⟨hs, fun k => by simp [Op.setsAt, find, SetSeq]⟩
  | SetSig s sig =>
    simp only [apply, Option.map_eq_some_iff] at h
    obtain ⟨res, hres, rfl⟩ := h
    cases res with
    | ok r' =>
      have hp := SetSig_pairs hres
      exact ⟨by unfold Sorted; rw [hp]; exact hs, fun k => by simp [Op.setsAt, find, hp]⟩
    | error _ => exact ⟨hs, fun k => by simp [Op.setsAt]⟩

/-- **A run of calls**: the pairs stay sorted, and each key holds what the
last `Set` of it stored, or what it held before. -/
theorem run_find : ∀ {r r' : Record} {ops : List Op}, r.Sorted → r.run ops = some r' →
    r'.Sorted ∧ ∀ k, r'.find k = ((lastSet k ops).map (stored k)).or (r.find k)
  | r, r', [], hs, h => by
    cases h
    exact ⟨hs, fun k => by simp [lastSet]⟩
  | r, r', op :: ops, hs, h => by
    obtain ⟨r1, h1, hrun⟩ := Option.bind_eq_some_iff.mp h
    obtain ⟨hs1, hfind1⟩ := apply_find hs h1
    obtain ⟨hs', hfind'⟩ := run_find hs1 hrun
    refine ⟨hs', fun k => ?_⟩
    rw [hfind', hfind1, lastSet, Option.map_or, Option.or_assoc]

/-- **`Load` after a run** decodes the entry the run last set under the key,
or loads what the record held. -/
theorem run_Load {α : Type} {r r' : Record} {ops : List Op} (hs : r.Sorted) (h : r.run ops = some r')
    (key : List UInt8) (dec : StreamM α) :
    r'.Load key dec =
      match lastSet key ops with
      | some e => (decodeBytesAs dec (encodeToBytes e)).mapError fun err => ⟨key, .rlp err⟩
      | none => r.Load key dec := by
  obtain ⟨hs', hfind⟩ := run_find hs h
  rw [Load_eq hs', hfind, Load_eq hs]
  cases lastSet key ops <;> rfl

end Record

end Xdchain.Enr
