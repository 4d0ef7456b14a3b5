import Xdchain.Rlp.Typed
import Xdchain.Istanbul.Common

/-! # The QBFT messages of `qbft/types`

The four messages and the payload of a ROUND-CHANGE, with their hand-written
`EncodeRLP`, `DecodeRLP` and `EncodePayloadForSigning`, and `Decode`, which
picks the decoder by message code. Sequences and rounds are non-negative
`*big.Int`s, so `Nat`; a `common.Hash` is 32 bytes. The sender's address is
not encoded (the receiver recovers it from the signature) and is left out.

A block is what the block codec of `core/types` makes of it: the messages
only write it with its `EncodeRLP`, read it with its `DecodeRLP` and compare
its `Hash`, so the module is generic over a `BlockCodec`. -/

namespace Xdchain.Qbft.Message
open Xdchain.Rlp Xdchain.Rlp.Decode Xdchain.Rlp.Encode Xdchain.Rlp.Typed Xdchain.Istanbul.Common

/-! ## Messages -/

def preprepareCode : Nat := 0x12
def prepareCode : Nat := 0x13
def commitCode : Nat := 0x14
def roundChangeCode : Nat := 0x15

abbrev Hash := Vector UInt8 32

/-- The zero hash `common.Hash{}`. -/
def zeroHash : Hash := Vector.replicate 32 0

def emptyHash (h : Hash) : Bool := h == zeroHash

/-- What `*types.Block` gives the messages. -/
structure BlockCodec (B : Type) where
  encodeRLP : B → Item
  decodeRLP : StreamM B
  hash : B → Hash

/-- `CommonPayload` without the sender. -/
structure CommonPayload where
  code : Nat
  sequence : Nat
  round : Nat
  signature : List UInt8
deriving DecidableEq, Repr

structure Prepare extends CommonPayload where
  digest : Hash
deriving DecidableEq, Repr

structure Commit extends CommonPayload where
  digest : Hash
  commitSeal : List UInt8
deriving DecidableEq, Repr

/-- `SignedRoundChangePayload`; a nil `PreparedRound` is `none`. -/
structure SignedRoundChangePayload extends CommonPayload where
  preparedRound : Option Nat
  preparedDigest : Hash
deriving DecidableEq, Repr

/-- `RoundChange`; a nil `PreparedBlock` is `none`. -/
structure RoundChange (B : Type) extends SignedRoundChangePayload where
  preparedBlock : Option B
  justification : List Prepare
deriving DecidableEq, Repr

structure Preprepare (B : Type) extends CommonPayload where
  proposal : B
  justificationRoundChanges : List SignedRoundChangePayload
  justificationPrepares : List Prepare
deriving DecidableEq, Repr

/-- `QBFTMessage`, one constructor per implementation. -/
inductive QBFTMessage (B : Type) where
  | preprepare (m : Preprepare B)
  | prepare (m : Prepare)
  | commit (m : Commit)
  | roundChange (m : RoundChange B)
deriving DecidableEq, Repr

variable {B : Type}

/-! ## Encoding -/

def Prepare.payload (p : Prepare) : Item :=
  .list [writeBigInt p.sequence, writeBigInt p.round, writeByteArray p.digest]

def Prepare.encodeRLP (p : Prepare) : Item :=
  .list [p.payload, writeBytes p.signature]

def Prepare.encodePayloadForSigning (p : Prepare) : List UInt8 :=
  encodeToBytes (.list [writeUint p.code, p.payload])

def Commit.payload (m : Commit) : Item :=
  .list [writeBigInt m.sequence, writeBigInt m.round, writeByteArray m.digest,
    writeBytes m.commitSeal]

def Commit.encodeRLP (m : Commit) : Item :=
  .list [m.payload, writeBytes m.signature]

def Commit.encodePayloadForSigning (m : Commit) : List UInt8 :=
  encodeToBytes (.list [writeUint m.code, m.payload])

/-- The prepared round and digest of `encodePayloadInternal`: both, or an
empty list when the round is nil or the digest empty. -/
def SignedRoundChangePayload.prepared (p : SignedRoundChangePayload) : List Item :=
  match p.preparedRound with
  | some r => if !emptyHash p.preparedDigest then [writeBigInt r, writeByteArray p.preparedDigest]
    else []
  | none => []

/-- The item `encodePayloadInternal` encodes. -/
def SignedRoundChangePayload.payload (p : SignedRoundChangePayload) : Item :=
  .list [writeBigInt p.sequence, writeBigInt p.round, .list p.prepared]

def SignedRoundChangePayload.encodePayloadInternal (p : SignedRoundChangePayload) : List UInt8 :=
  encodeToBytes p.payload

/-- `EncodeRLP` writes the bytes of `encodePayloadInternal` as a raw value:
they are the encoding of `payload` (`raw_encodePayloadInternal`). -/
def SignedRoundChangePayload.encodeRLP (p : SignedRoundChangePayload) : Item :=
  .list [p.payload, writeBytes p.signature]

def SignedRoundChangePayload.encodePayloadForSigning (p : SignedRoundChangePayload) :
    List UInt8 :=
  encodeToBytes (.list [writeUint p.code, p.payload])

/-- A nil `*types.Block` is written as the empty list, the nil value of a struct. -/
def writeBlock (c : BlockCodec B) : Option B → Item
  | none => .list []
  | some b => c.encodeRLP b

def RoundChange.encodeRLP (c : BlockCodec B) (m : RoundChange B) : Item :=
  .list [.list [m.payload, writeBytes m.signature], writeBlock c m.preparedBlock,
    .list (m.justification.map Prepare.encodeRLP)]

def Preprepare.payload (c : BlockCodec B) (m : Preprepare B) : Item :=
  .list [writeBigInt m.sequence, writeBigInt m.round,
    c.encodeRLP m.proposal]

def Preprepare.encodeRLP (c : BlockCodec B) (m : Preprepare B) : Item :=
  .list [.list [m.payload c, writeBytes m.signature],
    .list [.list (m.justificationRoundChanges.map SignedRoundChangePayload.encodeRLP),
      .list (m.justificationPrepares.map Prepare.encodeRLP)]]

def Preprepare.encodePayloadForSigning (c : BlockCodec B) (m : Preprepare B) : List UInt8 :=
  encodeToBytes (.list [writeUint m.code, m.payload c])

def QBFTMessage.code : QBFTMessage B → Nat
  | .preprepare m => m.code
  | .prepare m => m.code
  | .commit m => m.code
  | .roundChange m => m.code

def QBFTMessage.sequence : QBFTMessage B → Nat
  | .preprepare m => m.sequence
  | .prepare m => m.sequence
  | .commit m => m.sequence
  | .roundChange m => m.sequence

def QBFTMessage.round : QBFTMessage B → Nat
  | .preprepare m => m.round
  | .prepare m => m.round
  | .commit m => m.round
  | .roundChange m => m.round

def QBFTMessage.signature : QBFTMessage B → List UInt8
  | .preprepare m => m.signature
  | .prepare m => m.signature
  | .commit m => m.signature
  | .roundChange m => m.signature

def QBFTMessage.encodeRLP (c : BlockCodec B) : QBFTMessage B → Item
  | .preprepare m => m.encodeRLP c
  | .prepare m => m.encodeRLP
  | .commit m => m.encodeRLP
  | .roundChange m => m.encodeRLP c

/-- A ROUND-CHANGE is signed as its payload. -/
def QBFTMessage.encodePayloadForSigning (c : BlockCodec B) : QBFTMessage B → List UInt8
  | .preprepare m => m.encodePayloadForSigning c
  | .prepare m => m.encodePayloadForSigning
  | .commit m => m.encodePayloadForSigning
  | .roundChange m => m.encodePayloadForSigning

/-! ## Decoding -/

/-- `Prepare.DecodeRLP`: the struct `{Payload {Sequence, Round, Digest}, Signature}`. -/
def Prepare.decodeRLP : StreamM Prepare := do
  let ((sequence, round, digest), signature) ← decodeStruct (do
    let payload ← field (decodeStruct (do
      let sequence ← field decodeBigInt
      let round ← field decodeBigInt
      let digest ← field (decodeByteArray zeroHash)
      pure (sequence, round, digest)))
    let signature ← field decodeByteSlice
    pure (payload, signature))
  pure { code := prepareCode, sequence, round, signature, digest }

/-- `Commit.DecodeRLP`: the struct `{Payload {Sequence, Round, Digest, CommitSeal}, Signature}`. -/
def Commit.decodeRLP : StreamM Commit := do
  let ((sequence, round, digest, commitSeal), signature) ← decodeStruct (do
    let payload ← field (decodeStruct (do
      let sequence ← field decodeBigInt
      let round ← field decodeBigInt
      let digest ← field (decodeByteArray zeroHash)
      let commitSeal ← field decodeByteSlice
      pure (sequence, round, digest, commitSeal)))
    let signature ← field decodeByteSlice
    pure (payload, signature))
  pure { code := commitCode, sequence, round, signature, digest, commitSeal }

/-- The contents of the prepared list, read only when it is not empty; else
the round stays nil and the digest zero. -/
def decodePrepared (size : Nat) : StreamM (Option Nat × Hash) :=
  if size > 0 then do
    let preparedRound ← decodeBigInt
    let preparedDigest ← decodeByteArray zeroHash
    pure (some preparedRound, preparedDigest)
  else pure (none, zeroHash)

/-- The payload of a ROUND-CHANGE, on the stream `DecodeRLP` opens over its
raw bytes: sequence, round, and the prepared list. -/
def decodePayload : StreamM (Nat × Nat × Option Nat × Hash) := do
  let _ ← list
  let sequence ← decodeBigInt
  let round ← decodeBigInt
  -- Prepared
  let size ← list
  let (preparedRound, preparedDigest) ← decodePrepared size
  -- End Prepared
  listEnd
  -- End Payload
  listEnd
  pure (sequence, round, preparedRound, preparedDigest)

def SignedRoundChangePayload.decodeRLP : StreamM SignedRoundChangePayload := do
  -- Signed Payload
  let _ ← list
  let encodedPayload ← raw
  match decodePayload.run (reset encodedPayload 0) with
  | .error err _ => throw err
  | .ok (sequence, round, preparedRound, preparedDigest) _ =>
    let signature ← decodeByteSlice
    -- End SignedPayload
    listEnd
    pure { code := roundChangeCode, sequence, round, signature, preparedRound, preparedDigest }

/-- The prepared block of a ROUND-CHANGE, after `Kind` gave its size: skipped
with `Raw` when empty; a block whose hash is not the prepared digest is refused. -/
def decodePreparedBlock (c : BlockCodec B) (preparedDigest : Hash) (size : Nat) :
    StreamM (Option B) :=
  if size = 0 then do
    let _ ← raw
    pure none
  else do
    let b ← c.decodeRLP
    if c.hash b ≠ preparedDigest then throw .failedDecodePreprepare
    else pure (some b)

/-- The justification of a ROUND-CHANGE, after `Kind` gave its size: skipped
with `Raw` when empty. -/
def decodeJustification (size : Nat) : StreamM (List Prepare) :=
  if size = 0 then do
    let _ ← raw
    pure []
  else decodeSlice Prepare.decodeRLP

/-- `RoundChange.DecodeRLP`: the signed payload as above, then the prepared
block and the justification. -/
def RoundChange.decodeRLP (c : BlockCodec B) : StreamM (RoundChange B) := do
  -- RoundChange Message
  let _ ← list
  -- Signed Payload
  let _ ← list
  let encodedPayload ← raw
  match decodePayload.run (reset encodedPayload 0) with
  | .error err _ => throw err
  | .ok (sequence, round, preparedRound, preparedDigest) _ =>
    let signature ← decodeByteSlice
    -- End SignedPayload
    listEnd
    let (_, size) ← kind
    let preparedBlock ← decodePreparedBlock c preparedDigest size
    let (_, size) ← kind
    let justification ← decodeJustification size
    -- End RoundChange Message
    listEnd
    pure {
      code := roundChangeCode
      sequence
      round
      signature
      preparedRound
      preparedDigest
      preparedBlock
      justification }

/-- The decoder of the struct `Payload {Sequence, Round, Proposal}` inside
the message struct of `Preprepare.DecodeRLP`. -/
def decodeProposalPayload (c : BlockCodec B) : StreamM (Nat × Nat × B) :=
  decodeStruct (do
    let sequence ← field decodeBigInt
    let round ← field decodeBigInt
    let proposal ← field c.decodeRLP
    pure (sequence, round, proposal))

/-- The decoder of the struct `SignedPayload {Payload, Signature}`. -/
def decodeSignedPayload (c : BlockCodec B) : StreamM (Nat × Nat × B × List UInt8) :=
  decodeStruct (do
    let (sequence, round, proposal) ← field (decodeProposalPayload c)
    let signature ← field decodeByteSlice
    pure (sequence, round, proposal, signature))

/-- The decoder of the struct `Justification {RoundChanges, Prepares}`. -/
def decodeJustificationLists : StreamM (List SignedRoundChangePayload × List Prepare) :=
  decodeStruct (do
    let roundChanges ← field (decodeSlice SignedRoundChangePayload.decodeRLP)
    let prepares ← field (decodeSlice Prepare.decodeRLP)
    pure (roundChanges, prepares))

/-- `Preprepare.DecodeRLP`: the struct `{SignedPayload, Justification}`. -/
def Preprepare.decodeRLP (c : BlockCodec B) : StreamM (Preprepare B) := do
  let ((sequence, round, proposal, signature), (roundChanges, prepares)) ← decodeStruct (do
    let signedPayload ← field (decodeSignedPayload c)
    let justification ← field decodeJustificationLists
    pure (signedPayload, justification))
  pure {
    code := preprepareCode
    sequence
    round
    signature
    proposal
    justificationRoundChanges := roundChanges
    justificationPrepares := prepares }

/-- `Decode`: the decoder of the message the code names. A PREPARE that does
not decode is reported as `ErrFailedDecodeCommit`, as in the source. -/
def decode (c : BlockCodec B) (code : Nat) (data : List UInt8) : Except Error (QBFTMessage B) :=
  if code = preprepareCode then
    match decodeBytesAs (Preprepare.decodeRLP c) data with
    | .error _ => .error .failedDecodePreprepare
    | .ok m => .ok (.preprepare { m with code := preprepareCode })
  else if code = prepareCode then
    match decodeBytesAs Prepare.decodeRLP data with
    | .error _ => .error .failedDecodeCommit
    | .ok m => .ok (.prepare { m with code := prepareCode })
  else if code = commitCode then
    match decodeBytesAs Commit.decodeRLP data with
    | .error _ => .error .failedDecodeCommit
    | .ok m => .ok (.commit { m with code := commitCode })
  else if code = roundChangeCode then
    match decodeBytesAs (RoundChange.decodeRLP c) data with
    | .error _ => .error .failedDecodeRoundChange
    | .ok m => .ok (.roundChange { m with code := roundChangeCode })
  else .error .invalidMessage

end Xdchain.Qbft.Message
