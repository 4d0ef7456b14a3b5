import Xdchain.Rlp.Typed

/-! # Istanbul extra-data and the block hash

`core/types/istanbul.go` and `block.go`: a block sealed by IBFT or QBFT
carries the consensus data in its header's `Extra`. IBFT puts 32 bytes of
vanity before `rlp(IstanbulExtra)`; QBFT's `Extra` is `rlp(QBFTExtra)` as a
whole, the vanity a field of it. When the mix digest is `IstanbulDigest`,
`Header.Hash` hashes the header with the seals that are added after the
proposal removed: `FilteredHeader` reads `Extra` as IBFT if it can and as
QBFT otherwise.

Headers, extras and votes are what the struct writers and decoders of
`rlp` make of them, over the model of `Xdchain.Rlp.Typed`. Keccak is a
parameter: every result holds for whichever hash function hashes the
encodings. -/

namespace Xdchain.Types
open Xdchain.Rlp Xdchain.Rlp.Decode Xdchain.Rlp.Typed

abbrev Hash := Vector UInt8 32
abbrev Address := Vector UInt8 20

/-- `IstanbulDigest`, the mix digest of Istanbul blocks. -/
def istanbulDigest : Hash :=
  #v[0x63, 0x74, 0x69, 0x63, 0x61, 0x6c, 0x20, 0x62, 0x79, 0x7a, 0x61, 0x6e, 0x74, 0x69, 0x6e, 0x65,
    0x20, 0x66, 0x61, 0x75, 0x6c, 0x74, 0x20, 0x74, 0x6f, 0x6c, 0x65, 0x72, 0x61, 0x6e, 0x63, 0x65]

def istanbulExtraVanity : Nat := 32

structure Header where
  parentHash : Hash
  uncleHash : Hash
  coinbase : Address
  root : Hash
  txHash : Hash
  receiptHash : Hash
  bloom : Vector UInt8 256
  difficulty : Nat
  number : Nat
  gasLimit : Nat
  gasUsed : Nat
  time : Nat
  extra : List UInt8
  mixDigest : Hash
  nonce : Vector UInt8 8
deriving DecidableEq, Repr

/-- The struct writer of `Header`, field by field. -/
def Header.encodeRLP (h : Header) : Item :=
  .list [writeByteArray h.parentHash, writeByteArray h.uncleHash, writeByteArray h.coinbase,
    writeByteArray h.root, writeByteArray h.txHash, writeByteArray h.receiptHash, writeByteArray h.bloom,
    writeBigInt h.difficulty, writeBigInt h.number, writeUint h.gasLimit, writeUint h.gasUsed,
    writeUint h.time, writeBytes h.extra, writeByteArray h.mixDigest, writeByteArray h.nonce]

/-- `rlpHash`: keccak over the encoding. -/
def rlpHash (keccak : List UInt8 → Hash) (x : Item) : Hash := keccak x.enc

/-! ## The two extra-data formats -/

structure IstanbulExtra where
  validators : List Address
  «seal» : List UInt8
  committedSeal : List (List UInt8)
deriving DecidableEq, Repr

structure ValidatorVote where
  recipientAddress : Address
  voteType : UInt8
deriving DecidableEq, Repr

structure QBFTExtra where
  vanityData : List UInt8
  validators : List Address
  vote : Option ValidatorVote
  round : UInt32
  committedSeal : List (List UInt8)
deriving DecidableEq, Repr

/-- The decoder of `common.Address`, a byte array, into a zero address. -/
def decodeAddress : StreamM Address := decodeByteArray (Vector.replicate 20 0)

def IstanbulExtra.encodeRLP (ist : IstanbulExtra) : Item :=
  .list [.list (ist.validators.map writeByteArray), writeBytes ist.«seal»,
    .list (ist.committedSeal.map writeBytes)]

/-- `IstanbulExtra.DecodeRLP`: the struct of its three fields. -/
def IstanbulExtra.decodeRLP : StreamM IstanbulExtra :=
  decodeStruct do
    let validators ← field (decodeSlice decodeAddress)
    let «seal» ← field decodeByteSlice
    let committedSeal ← field (decodeSlice decodeByteSlice)
    pure ⟨validators, «seal», committedSeal⟩

def ValidatorVote.encodeRLP (vv : ValidatorVote) : Item :=
  .list [writeByteArray vv.recipientAddress, writeUint vv.voteType.toNat]

def ValidatorVote.decodeRLP : StreamM ValidatorVote :=
  decodeStruct do
    let recipientAddress ← field decodeAddress
    let voteType ← field (uint 8)
    pure ⟨recipientAddress, UInt8.ofNat voteType⟩

/-- `QBFTExtra.EncodeRLP`; a nil vote is written as the empty list, the nil
value of a pointer to a struct. -/
def QBFTExtra.encodeRLP (qst : QBFTExtra) : Item :=
  .list [writeBytes qst.vanityData, .list (qst.validators.map writeByteArray),
    (match qst.vote with
      | none => .list []
      | some vv => vv.encodeRLP),
    writeUint qst.round.toNat, .list (qst.committedSeal.map writeBytes)]

/-- `QBFTExtra.DecodeRLP`: the vote is a pointer tagged `nil`, so the empty
list stands for no vote. -/
def QBFTExtra.decodeRLP : StreamM QBFTExtra :=
  decodeStruct do
    let vanityData ← field decodeByteSlice
    let validators ← field (decodeSlice decodeAddress)
    let vote ← field (decodeNilPtr .list ValidatorVote.decodeRLP)
    let round ← field (uint 32)
    let committedSeal ← field (decodeSlice decodeByteSlice)
    pure ⟨vanityData, validators, vote, UInt32.ofNat round, committedSeal⟩

/-! ## Filtered headers and the hash -/

inductive ExtraError where
  | invalidIstanbulHeaderExtra
  | rlp (err : Err)
deriving DecidableEq, Repr

/-- `ExtractIstanbulExtra`: the IBFT extra after the vanity. -/
def extractIstanbulExtra (h : Header) : Except ExtraError IstanbulExtra :=
  if h.extra.length < istanbulExtraVanity then .error .invalidIstanbulHeaderExtra
  else (decodeBytesAs IstanbulExtra.decodeRLP (h.extra.drop istanbulExtraVanity)).mapError .rlp

/-- `ExtractQBFTExtra`: the whole of `Extra` as a QBFT extra. -/
def extractQBFTExtra (h : Header) : Except ExtraError QBFTExtra :=
  (decodeBytesAs QBFTExtra.decodeRLP h.extra).mapError .rlp

/-- `IstanbulFilteredHeader`: the vanity kept, the committed seals (and the
seal unless `keepSeal`) emptied. `CopyHeader` copies every field, so the
copy is the header itself. -/
def istanbulFilteredHeader (h : Header) (keepSeal : Bool) : Option Header :=
  match extractIstanbulExtra h with
  | .error _ => none
  | .ok istanbulExtra =>
    let istanbulExtra := { istanbulExtra with
      «seal» := if keepSeal then istanbulExtra.«seal» else []
      committedSeal := [] }
    some { h with extra := h.extra.take istanbulExtraVanity ++ istanbulExtra.encodeRLP.enc }

/-- `QBFTFilteredHeaderWithRound`: the committed seals emptied and the round
replaced. -/
def qbftFilteredHeaderWithRound (h : Header) (round : UInt32) : Option Header :=
  match extractQBFTExtra h with
  | .error _ => none
  | .ok qbftExtra => some { h with extra := { qbftExtra with committedSeal := [], round := round }.encodeRLP.enc }

def qbftFilteredHeader (h : Header) : Option Header := qbftFilteredHeaderWithRound h 0

/-- `FilteredHeader`: IBFT when the extra reads as IBFT, QBFT otherwise. -/
def filteredHeader (h : Header) : Option Header :=
  match extractIstanbulExtra h with
  | .error _ => qbftFilteredHeader h
  | .ok _ => istanbulFilteredHeader h true

def Header.hash (keccak : List UInt8 → Hash) (h : Header) : Hash :=
  if h.mixDigest = istanbulDigest then
    match filteredHeader h with
    | some istanbulHeader => rlpHash keccak istanbulHeader.encodeRLP
    | none => rlpHash keccak h.encodeRLP
  else rlpHash keccak h.encodeRLP

/-- `QBFTHashWithRoundNumber`: a nil header is written as the empty list. -/
def Header.qbftHashWithRoundNumber (keccak : List UInt8 → Hash) (h : Header) (round : UInt32) : Hash :=
  match qbftFilteredHeaderWithRound h round with
  | some h' => rlpHash keccak h'.encodeRLP
  | none => rlpHash keccak (.list [])

/-! ## Reading the extras back -/

theorem stopsAtEOL_decodeAddress : StopsAtEOL decodeAddress := by
  unfold decodeAddress decodeByteArray
  exact stopsAtEOL_kind_bind _

theorem reads_decodeAddress (a : Address) : Reads decodeAddress (writeByteArray a) a :=
  reads_decodeByteArray _ a (by decide)

theorem reads_validators (vs : List Address) :
    Reads (decodeSlice decodeAddress) (.list (vs.map writeByteArray)) vs := by
  simpa using reads_decodeSlice (g := fun a => a) stopsAtEOL_decodeAddress fun a _ => reads_decodeAddress a

theorem reads_byteSlices (bs : List (List UInt8)) :
    Reads (decodeSlice decodeByteSlice) (.list (bs.map writeBytes)) bs := by
  have heol : StopsAtEOL decodeByteSlice := stopsAtEOL_bytes
  simpa using reads_decodeSlice (g := fun b => b) heol fun b _ => reads_decodeByteSlice b

/-- `IstanbulExtra.DecodeRLP` reads back what `EncodeRLP` writes. -/
theorem reads_istanbulExtra (ist : IstanbulExtra) : Reads IstanbulExtra.decodeRLP ist.encodeRLP ist := by
  unfold IstanbulExtra.decodeRLP IstanbulExtra.encodeRLP
  apply reads_decodeStruct
  exact (readsSeq_field (reads_validators ist.validators)).bind
    ((readsSeq_field (reads_decodeByteSlice ist.«seal»)).bind
      ((readsSeq_field (reads_byteSlices ist.committedSeal)).bind (readsSeq_pure _)))

/-! ## Reading the hash off the extra -/

theorem filteredHeader_of_extractIstanbulExtra {h : Header} {ist : IstanbulExtra}
    (hx : extractIstanbulExtra h = .ok ist) :
    filteredHeader h =
      some { h with extra := h.extra.take istanbulExtraVanity ++ { ist with committedSeal := [] }.encodeRLP.enc } := by
  simp only [filteredHeader, istanbulFilteredHeader, hx, if_true]

theorem filteredHeader_of_extractIstanbulExtra_error {h : Header} {e : ExtraError}
    (hx : extractIstanbulExtra h = .error e) : filteredHeader h = qbftFilteredHeader h := by
  simp only [filteredHeader, hx]

theorem qbftFilteredHeaderWithRound_of_extractQBFTExtra {h : Header} {qst : QBFTExtra} (round : UInt32)
    (hx : extractQBFTExtra h = .ok qst) :
    qbftFilteredHeaderWithRound h round =
      some { h with extra := { qst with committedSeal := [], round := round }.encodeRLP.enc } := by
  simp only [qbftFilteredHeaderWithRound, hx]

/-- An Istanbul header hashes as its filtered header, when there is one. -/
theorem hash_of_filteredHeader (keccak : List UInt8 → Hash) {h h' : Header}
    (hmix : h.mixDigest = istanbulDigest) (hf : filteredHeader h = some h') :
    h.hash keccak = rlpHash keccak h'.encodeRLP := by
  simp only [Header.hash, hmix, if_true, hf]

/-- An IBFT header hashes as itself with the committed seals emptied, so its
hash is the same whatever seals are added to the proposal. -/
theorem hash_of_istanbulExtra (keccak : List UInt8 → Hash) (h : Header) (vanity : List UInt8)
    (ist : IstanbulExtra) (hv : vanity.length = istanbulExtraVanity) (hmix : h.mixDigest = istanbulDigest)
    (hextra : h.extra = vanity ++ ist.encodeRLP.enc) (hfits : ist.encodeRLP.Fits) :
    h.hash keccak =
      rlpHash keccak { h with extra := vanity ++ { ist with committedSeal := [] }.encodeRLP.enc }.encodeRLP := by
  have hx : extractIstanbulExtra h = .ok ist := by
    have hlen : ¬ h.extra.length < istanbulExtraVanity := by simp [hextra, hv]
    rw [extractIstanbulExtra, if_neg hlen, hextra, List.drop_left' hv,
      decodeBytesAs_enc (reads_istanbulExtra ist) hfits]
    rfl
  apply hash_of_filteredHeader keccak hmix
  rw [filteredHeader_of_extractIstanbulExtra hx, hextra, List.take_left' hv]

/-- A stand-in for keccak: the first 32 bytes of its input. -/
def firstBytes (b : List UInt8) : Hash := Vector.ofFn fun i => b.getD i.val 0

/-- A header with an IBFT extra that carries one committed seal. -/
def sealedHeader : Header :=
  ⟨Vector.replicate 32 0, Vector.replicate 32 0, Vector.replicate 20 0, Vector.replicate 32 0,
    Vector.replicate 32 0, Vector.replicate 32 0, Vector.replicate 256 0, 1, 1, 0, 0, 0,
    List.replicate 32 0 ++ (⟨[], [], [[1]]⟩ : IstanbulExtra).encodeRLP.enc, istanbulDigest, Vector.replicate 8 0⟩

theorem hash_of_istanbulExtra_at_sealedHeader :
    (List.replicate 32 0 : List UInt8).length = istanbulExtraVanity ∧ sealedHeader.mixDigest = istanbulDigest ∧
      sealedHeader.extra = List.replicate 32 0 ++ (⟨[], [], [[1]]⟩ : IstanbulExtra).encodeRLP.enc ∧
      (⟨[], [], [[1]]⟩ : IstanbulExtra).encodeRLP.Fits ∧
      sealedHeader.hash firstBytes = rlpHash firstBytes { sealedHeader with
        extra := List.replicate 32 0 ++ { (⟨[], [], [[1]]⟩ : IstanbulExtra) with committedSeal := [] }.encodeRLP.enc
      }.encodeRLP :=
  ⟨rfl, rfl, rfl, by decide,
    hash_of_istanbulExtra firstBytes sealedHeader (List.replicate 32 0) ⟨[], [], [[1]]⟩ rfl rfl rfl (by decide)⟩

section CraftedVanity

open Xdchain.Lib.ErrState

/-- A vanity whose last three bytes open an IBFT extra: a list of six bytes
holding no validators and a seal of three bytes. -/
def craftedVanity : List UInt8 := List.replicate 30 0 ++ [0xC6, 0xC0, 0x83]

/-- The QBFT extra of a proposal at `round` with that vanity, no validators,
no vote and no committed seals. Its last four bytes are the encoded empty
validators, nil vote, round and empty seals, so after the first 32 bytes
stands an IBFT extra whose seal is the vote, the round and the seals. -/
def craftedExtra (round : UInt32) : QBFTExtra := ⟨craftedVanity, [], none, round, []⟩

theorem extractIstanbulExtra_of_craftedExtra {h : Header} (hextra : h.extra = (craftedExtra 1).encodeRLP.enc) :
    extractIstanbulExtra h = .ok ⟨[], [0xC0, 0xC0, 0x01], []⟩ := by
  unfold extractIstanbulExtra
  rw [hextra]
  decide

theorem extractIstanbulExtra_of_craftedExtra_zero {h : Header} (hextra : h.extra = (craftedExtra 0).encodeRLP.enc) :
    extractIstanbulExtra h = .ok ⟨[], [0xC0, 0xC0, 0x80], []⟩ := by
  unfold extractIstanbulExtra
  rw [hextra]
  decide

theorem extractQBFTExtra_of_craftedExtra {h : Header} (hextra : h.extra = (craftedExtra 1).encodeRLP.enc) :
    extractQBFTExtra h = .ok (craftedExtra 1) := by
  unfold extractQBFTExtra
  rw [hextra]
  decide

/-- Two headers that differ in the extra only, by strings of one encoded
length, have different encodings. -/
theorem encodeRLP_enc_ne_of_extra (h : Header) {e e' : List UInt8}
    (hlen : (encString e).length = (encString e').length) (hne : encString e ≠ encString e') :
    { h with extra := e }.encodeRLP.enc ≠ { h with extra := e' }.encodeRLP.enc := by
  intro heq
  apply hne
  simp only [Header.encodeRLP, enc_list, encAll_cons, encAll_nil, writeBytes, enc_str, List.length_append,
    hlen, List.append_cancel_left_eq, List.append_cancel_right_eq] at heq
  exact heq

/-- A QBFT proposal with the crafted vanity hashes as IBFT: the hash covers the
round, while the QBFT-filtered header (what the committed seals sign at round
0) has the round zeroed. -/
theorem hash_of_crafted_vanity_covers_round (keccak : List UInt8 → Hash) (h : Header)
    (hmix : h.mixDigest = istanbulDigest) (hextra : h.extra = (craftedExtra 1).encodeRLP.enc) :
    h.hash keccak = rlpHash keccak h.encodeRLP ∧
      qbftFilteredHeader h = some { h with extra := (craftedExtra 0).encodeRLP.enc } ∧
      { h with extra := (craftedExtra 0).encodeRLP.enc }.hash keccak =
        rlpHash keccak { h with extra := (craftedExtra 0).encodeRLP.enc }.encodeRLP ∧
      h.encodeRLP.enc ≠ { h with extra := (craftedExtra 0).encodeRLP.enc }.encodeRLP.enc := by
  have hself : h = { h with extra := (craftedExtra 1).encodeRLP.enc } := by rw [← hextra]
  -- read as IBFT, both extras give back themselves
  have hkeep1 : h.extra.take istanbulExtraVanity ++
      ({ (⟨[], [0xC0, 0xC0, 0x01], []⟩ : IstanbulExtra) with committedSeal := [] }).encodeRLP.enc = h.extra := by
    rw [hextra]
    decide
  have hkeep0 : (craftedExtra 0).encodeRLP.enc.take istanbulExtraVanity ++
      ({ (⟨[], [0xC0, 0xC0, 0x80], []⟩ : IstanbulExtra) with committedSeal := [] }).encodeRLP.enc =
        (craftedExtra 0).encodeRLP.enc := by
    decide
  refine ⟨?_, ?_, ?_, ?_⟩
  · apply hash_of_filteredHeader keccak hmix
    rw [filteredHeader_of_extractIstanbulExtra (extractIstanbulExtra_of_craftedExtra hextra), hkeep1]
  · rw [qbftFilteredHeader, qbftFilteredHeaderWithRound_of_extractQBFTExtra 0 (extractQBFTExtra_of_craftedExtra hextra)]
    rfl
  · apply hash_of_filteredHeader keccak (h := { h with extra := (craftedExtra 0).encodeRLP.enc }) hmix
    rw [filteredHeader_of_extractIstanbulExtra (extractIstanbulExtra_of_craftedExtra_zero rfl)]
    simp only [hkeep0]
  · rw [hself]
    exact encodeRLP_enc_ne_of_extra h (by decide) (by decide)

/-- A header of a QBFT proposal at round 1 with the crafted vanity. -/
def craftedHeader : Header :=
  ⟨Vector.replicate 32 0, Vector.replicate 32 0, Vector.replicate 20 0, Vector.replicate 32 0,
    Vector.replicate 32 0, Vector.replicate 32 0, Vector.replicate 256 0, 1, 1, 0, 0, 0,
    (craftedExtra 1).encodeRLP.enc, istanbulDigest, Vector.replicate 8 0⟩

theorem hash_of_crafted_vanity_covers_round_at_craftedHeader :
    craftedHeader.mixDigest = istanbulDigest ∧ craftedHeader.extra = (craftedExtra 1).encodeRLP.enc ∧
      (craftedHeader.hash firstBytes = rlpHash firstBytes craftedHeader.encodeRLP ∧
        qbftFilteredHeader craftedHeader = some { craftedHeader with extra := (craftedExtra 0).encodeRLP.enc } ∧
        { craftedHeader with extra := (craftedExtra 0).encodeRLP.enc }.hash firstBytes =
          rlpHash firstBytes { craftedHeader with extra := (craftedExtra 0).encodeRLP.enc }.encodeRLP ∧
        craftedHeader.encodeRLP.enc ≠ { craftedHeader with extra := (craftedExtra 0).encodeRLP.enc }.encodeRLP.enc) :=
  ⟨rfl, rfl, hash_of_crafted_vanity_covers_round firstBytes craftedHeader rfl rfl⟩

end CraftedVanity

end Xdchain.Types
