import Xdchain.State.Copy
import Xdchain.Lib.BigEndian

/-! # Setting the private state of an extended contract

`extension/privacyExtension/state_setter.go` and `state_set_utilities.go`.
After a private transaction, `checkExtensionAndSetPrivateState` reads its
logs for the `StateShared` event of the extension contract. When the
extended address has no code yet, the state shared through the private
transaction manager is written there, provided this node's tenant sent the
acceptance (`uuidIsOwn`); a write that fails is reverted. When the address
already has code, its privacy metadata (and, with multitenancy, its managed
parties) are updated from the shared payload, once per call, with no such
check: a log of any contract moves the metadata of any contract
(`checkExtension_rewrites_metadata_of_foreign_log`).

The log data is decoded as `accounts/abi` unpacks the event's arguments. The
private transaction manager, JSON decoding and the hex and base-64
conversions are given by their answers (`Env`). A map the code ranges over is
a list, in whatever order Go visits it. -/

namespace Xdchain.Extension
open Xdchain.State
open Xdchain.Lib.BigEndian (fixedBytes beValue beValue_fixedBytes length_fixedBytes)

/-- What the handler reads of a `types.Log`. -/
structure Log where
  address : Address
  topics : List Hash
  data : List UInt8
deriving DecidableEq, Repr

/-- What `ptm.Receive` returns: the sender's key, the managed parties, the
payload (`none` for `nil`), the privacy flag of the extra metadata, and the
error. -/
structure Received where
  senderPublicKey : String
  managedParties : List String
  data : Option (List UInt8)
  privacyFlag : Nat
  err : Option String

/-- The `state.DumpAccount` fields `setState` writes. -/
structure DumpAccount where
  balance : String
  nonce : Nat
  code : String
  storage : List (Hash × String)

/-- The services the handler calls, by their answers: the private
transaction manager (`Receive`, `IsSender`, `DecryptPayload`), the private
state resolver, and the decoding functions of `common`, `json` and `big`. -/
structure Env where
  /-- `common.Base64ToEncryptedPayloadHash`. -/
  base64ToEncryptedPayloadHash : String → Option Hash
  /-- `common.BytesToEncryptedPayloadHash(common.FromHex(uuid))`. -/
  uuidHash : String → Hash
  receive : Hash → Received
  isSender : Hash → Except String Bool
  /-- `psmr.ResolveForManagedParty(key).ID`. -/
  resolveForManagedParty : String → Except String String
  /-- `DecryptPayload` of the JSON-decoded request: the contract details,
  `nil` (the empty list) when a step fails, since those errors are only logged. -/
  decryptPayload : List UInt8 → List UInt8
  /-- `json.Unmarshal` into `map[string]extension.AccountWithMetadata`. -/
  unmarshalAccounts : List UInt8 → Option (List (String × DumpAccount))
  /-- `address.Bytes()`. -/
  addressBytes : Address → List UInt8
  /-- `address.String()`. -/
  addressString : Address → String
  hexToAddress : String → Address
  hexToHash : String → Hash
  hex2Bytes : String → List UInt8
  /-- `new(big.Int).SetString(s, 10)`. -/
  parseBalance : String → Option Int

def stateSharedTopicHash : Hash := 0x67a92539f3cbd7c5a9b36c23c0e2beceb27d2e1b3cd8eda02c623689267ae71e

def privacyFlagStandardPrivate : Nat := 0

/-! ## The `StateShared` log data -/

/-- A head word of the ABI encoding: `n` in 32 big-endian bytes. -/
def abiWord (n : Nat) : List UInt8 := fixedBytes 32 n

/-- The word at byte `index`, as `big.Int.SetBytes` reads it. -/
def wordAt (output : List UInt8) (index : Nat) : Nat := beValue ((output.drop index).take 32)

/-- `lengthPrefixPointsTo`: where the bytes of a dynamic value start and how
many there are, from the offset word at `index` and the length word that it
points to; `none` for each of the code's errors. -/
def lengthPrefixPointsTo (index : Nat) (output : List UInt8) : Option (Nat × Nat) :=
  let offsetEnd := wordAt output index + 32
  if offsetEnd > output.length then none
  -- `BitLen() > 63`
  else if 2 ^ 63 ≤ offsetEnd then none
  else
    let length := wordAt output (offsetEnd - 32)
    if 2 ^ 63 ≤ offsetEnd + length then none
    else if offsetEnd + length > output.length then none
    else some (offsetEnd, length)

/-- `toGoType` for an `address` at `index`: the low 20 bytes of its word,
as `common.BytesToAddress` keeps them. -/
def readAddress (index : Nat) (output : List UInt8) : Option Address :=
  if index + 32 > output.length then none else some (wordAt output index % 2 ^ 160)

/-- `toGoType` for a `string` at `index`. A Lean `String` holds UTF-8 only:
bytes that are not, which Go keeps in its string, read as `none` here. -/
def readString (index : Nat) (output : List UInt8) : Option String :=
  if index + 32 > output.length then none
  else
    match lengthPrefixPointsTo index output with
    | none => none
    | some (start, length) => String.fromUTF8? ⟨((output.drop start).take length).toArray⟩

/-- `UnpackStateSharedLog`: the event's three arguments, none of them
indexed, unpacked from the log data: the extended address, the payload hash
and the uuid. No data at all is an error of `Arguments.Unpack`. -/
def UnpackStateSharedLog (logData : List UInt8) : Option (Address × String × String) :=
  if logData.length = 0 then none
  else do
    let toExtend ← readAddress 0 logData
    let tesserahash ← readString 32 logData
    let uuid ← readString 64 logData
    pure (toExtend, tesserahash, uuid)

/-- A `string` in the tail of an ABI encoding: its length in a word, then its
bytes padded with zeros to a whole word. -/
def abiStringTail (s : String) : List UInt8 :=
  abiWord s.toUTF8.size ++ s.toUTF8.data.toList ++ List.replicate ((32 - s.toUTF8.size % 32) % 32) 0

/-- The data of a `StateShared(toExtend, tesserahash, uuid)` log as the
extension contract emits it: the address and the offsets of the two strings
in the head, the strings in the tail. -/
def encodeStateShared (toExtend : Address) (tesserahash uuid : String) : List UInt8 :=
  abiWord toExtend ++ abiWord 96 ++ abiWord (96 + (abiStringTail tesserahash).length) ++
    abiStringTail tesserahash ++ abiStringTail uuid

/-! ### The decoder reads back the encoding -/

@[simp] theorem length_abiWord (n : Nat) : (abiWord n).length = 32 := length_fixedBytes 32 n

/-- The word read where a word was written, below `2 ^ 256`. -/
theorem wordAt_append_abiWord {l rest : List UInt8} {k : Nat} (hk : l.length = k) (n : Nat) :
    wordAt (l ++ (abiWord n ++ rest)) k = n % 2 ^ 256 := by
  subst hk
  rw [wordAt, List.drop_left, List.take_left' (length_abiWord n), abiWord, beValue_fixedBytes]
  norm_num

@[simp] theorem length_abiStringTail (s : String) :
    (abiStringTail s).length = 32 + s.utf8ByteSize + (32 - s.utf8ByteSize % 32) % 32 := by
  simp [abiStringTail, Nat.add_assoc]

/-- A string's length word read at the start of its tail. -/
theorem wordAt_abiStringTail {l rest : List UInt8} {k : Nat} (hk : l.length = k) (s : String) :
    wordAt (l ++ (abiStringTail s ++ rest)) k = s.utf8ByteSize % 2 ^ 256 := by
  rw [abiStringTail, List.append_assoc, List.append_assoc, wordAt_append_abiWord hk]
  simp

/-- A string's bytes read back from its tail, whatever stands around it. -/
theorem take_drop_abiStringTail {l rest : List UInt8} {k : Nat} (hk : l.length + 32 = k) (s : String) :
    ((l ++ (abiStringTail s ++ rest)).drop k).take s.utf8ByteSize = s.toUTF8.data.toList := by
  subst hk
  rw [← List.drop_drop, List.drop_left, abiStringTail, List.append_assoc, List.append_assoc,
    List.drop_left' (length_abiWord _), List.take_left' (by simp)]

theorem fromUTF8?_toUTF8 (s : String) : String.fromUTF8? ⟨s.toUTF8.data.toList.toArray⟩ = some s := by
  rw [Array.toArray_toList]
  change String.fromUTF8? s.toByteArray = some s
  rw [String.fromUTF8?, dif_pos s.isValidUTF8]
  rfl

section RoundTrip

variable (toExtend : Address) (tesserahash uuid : String)

/-- The data as the head followed by the first string's tail. -/
theorem encodeStateShared_eq_tesserahash :
    encodeStateShared toExtend tesserahash uuid =
      (abiWord toExtend ++ abiWord 96 ++ abiWord (96 + (abiStringTail tesserahash).length)) ++
        (abiStringTail tesserahash ++ abiStringTail uuid) := by
  simp [encodeStateShared]

/-- The data as everything before the second string's tail, then that tail. -/
theorem encodeStateShared_eq_uuid :
    encodeStateShared toExtend tesserahash uuid =
      (abiWord toExtend ++ abiWord 96 ++ abiWord (96 + (abiStringTail tesserahash).length) ++
        abiStringTail tesserahash) ++ (abiStringTail uuid ++ []) := by
  simp [encodeStateShared]

theorem length_encodeStateShared :
    (encodeStateShared toExtend tesserahash uuid).length =
      96 + (abiStringTail tesserahash).length + (abiStringTail uuid).length := by
  simp only [encodeStateShared, List.length_append, length_abiWord]

/-- The address word, the two offsets and the two length words, each read
where it was written. -/
theorem wordAt_encodeStateShared :
    wordAt (encodeStateShared toExtend tesserahash uuid) 0 = toExtend % 2 ^ 256 ∧
      wordAt (encodeStateShared toExtend tesserahash uuid) 32 = 96 ∧
      wordAt (encodeStateShared toExtend tesserahash uuid) 64 =
        (96 + (abiStringTail tesserahash).length) % 2 ^ 256 ∧
      wordAt (encodeStateShared toExtend tesserahash uuid) 96 = tesserahash.utf8ByteSize % 2 ^ 256 ∧
      wordAt (encodeStateShared toExtend tesserahash uuid) (96 + (abiStringTail tesserahash).length) =
        uuid.utf8ByteSize % 2 ^ 256 := by
  have hhead : encodeStateShared toExtend tesserahash uuid =
      abiWord toExtend ++ (abiWord 96 ++ (abiWord (96 + (abiStringTail tesserahash).length) ++
        (abiStringTail tesserahash ++ abiStringTail uuid))) := by
    simp [encodeStateShared]
  refine ⟨?_, ?_, ?_, ?_, ?_⟩
  · rw [hhead]
    exact wordAt_append_abiWord (l := []) rfl _
  · rw [hhead]
    exact (wordAt_append_abiWord (by simp) _).trans (by norm_num)
  · rw [hhead, ← List.append_assoc]
    exact wordAt_append_abiWord (by simp) _
  · rw [encodeStateShared_eq_tesserahash]
    exact wordAt_abiStringTail (by simp) _
  · rw [encodeStateShared_eq_uuid]
    exact wordAt_abiStringTail (by simp; omega) _

/-- The bytes of both strings, where their length words point. -/
theorem take_drop_encodeStateShared :
    ((encodeStateShared toExtend tesserahash uuid).drop 128).take tesserahash.utf8ByteSize =
        tesserahash.toUTF8.data.toList ∧
      ((encodeStateShared toExtend tesserahash uuid).drop (96 + (abiStringTail tesserahash).length + 32)).take
        uuid.utf8ByteSize = uuid.toUTF8.data.toList := by
  constructor
  · rw [encodeStateShared_eq_tesserahash]
    exact take_drop_abiStringTail (by simp) _
  · rw [encodeStateShared_eq_uuid]
    exact take_drop_abiStringTail (by simp; omega) _

/-- How `readString` reads a string: the offset word at `index` points at a
length word, and the bytes after it are the string's. -/
theorem readString_eq {output : List UInt8} {index off : Nat} {s : String}
    (hidx : index + 32 ≤ output.length) (hoff : wordAt output index = off)
    (hlen : wordAt output off = s.utf8ByteSize) (hfit : off + 32 + s.utf8ByteSize ≤ output.length)
    (hsmall : off + 32 + s.utf8ByteSize < 2 ^ 63)
    (hbytes : (output.drop (off + 32)).take s.utf8ByteSize = s.toUTF8.data.toList) :
    readString index output = some s := by
  unfold readString lengthPrefixPointsTo
  rw [if_neg (by omega)]
  simp only [hoff, Nat.add_sub_cancel, hlen]
  -- none of `lengthPrefixPointsTo`'s four errors
  rw [if_neg (by omega), if_neg (by omega), if_neg (by omega), if_neg (by omega)]
  dsimp only
  rw [hbytes, fromUTF8?_toUTF8]

/-- The first string, from the offset in the head's second word. -/
theorem readString_encodeStateShared_tesserahash (hh : tesserahash.utf8ByteSize < 2 ^ 61) :
    readString 32 (encodeStateShared toExtend tesserahash uuid) = some tesserahash := by
  obtain ⟨-, h32, -, h96, -⟩ := wordAt_encodeStateShared toExtend tesserahash uuid
  have hlen := length_encodeStateShared toExtend tesserahash uuid
  have hTh := length_abiStringTail tesserahash
  have hn : tesserahash.utf8ByteSize % 2 ^ 256 = tesserahash.utf8ByteSize := Nat.mod_eq_of_lt (by omega)
  exact readString_eq (by omega) h32 (h96.trans hn) (by omega) (by omega)
    (take_drop_encodeStateShared toExtend tesserahash uuid).1

/-- The second string, from the offset in the head's third word. -/
theorem readString_encodeStateShared_uuid (hh : tesserahash.utf8ByteSize < 2 ^ 61)
    (hu : uuid.utf8ByteSize < 2 ^ 61) :
    readString 64 (encodeStateShared toExtend tesserahash uuid) = some uuid := by
  obtain ⟨-, -, h64, -, ho⟩ := wordAt_encodeStateShared toExtend tesserahash uuid
  have hlen := length_encodeStateShared toExtend tesserahash uuid
  have hTh := length_abiStringTail tesserahash
  have hTu := length_abiStringTail uuid
  have ho' : (96 + (abiStringTail tesserahash).length) % 2 ^ 256 = 96 + (abiStringTail tesserahash).length :=
    Nat.mod_eq_of_lt (by omega)
  have hn : uuid.utf8ByteSize % 2 ^ 256 = uuid.utf8ByteSize := Nat.mod_eq_of_lt (by omega)
  exact readString_eq (by omega) (h64.trans ho') (ho.trans hn) (by omega) (by omega)
    (take_drop_encodeStateShared toExtend tesserahash uuid).2

/-- **The log data round trip**: what the contract emits for an address and
two strings of fewer than `2 ^ 61` bytes, the handler unpacks as the address
(its low 20 bytes) and the two strings. -/
theorem UnpackStateSharedLog_encodeStateShared (hh : tesserahash.utf8ByteSize < 2 ^ 61)
    (hu : uuid.utf8ByteSize < 2 ^ 61) :
    UnpackStateSharedLog (encodeStateShared toExtend tesserahash uuid) =
      some (toExtend % 2 ^ 160, tesserahash, uuid) := by
  obtain ⟨h0, -⟩ := wordAt_encodeStateShared toExtend tesserahash uuid
  have hlen := length_encodeStateShared toExtend tesserahash uuid
  have haddr : readAddress 0 (encodeStateShared toExtend tesserahash uuid) = some (toExtend % 2 ^ 160) := by
    rw [readAddress, if_neg (by omega), h0, Nat.mod_mod_of_dvd _ (by norm_num)]
  simp only [UnpackStateSharedLog, haddr, readString_encodeStateShared_tesserahash toExtend tesserahash uuid hh,
    readString_encodeStateShared_uuid toExtend tesserahash uuid hh hu]
  rw [if_neg (by omega)]
  rfl

end RoundTrip

/-- The private state and the heap of its extra-data records. -/
abbrev PrivateState := StateDB × Heap

/-- `common.AppendSkipDuplicates`: the new elements not already in the slice,
in order; the marks are taken before appending, so a repeated new element
is appended each time. -/
def appendSkipDuplicates (slice elems : List String) : List String :=
  slice ++ elems.filter (· ∉ slice)

section

variable (env : Env)

def logContainsExtensionTopic (receivedLog : Log) : Bool :=
  receivedLog.topics = [stateSharedTopicHash]

/-- `validateAccountsExist`: exactly the expected accounts are in the map. -/
def validateAccountsExist (expectedAccounts : List Address) (actualAccounts : List (String × DumpAccount)) :
    Bool :=
  expectedAccounts.length = actualAccounts.length ∧
    expectedAccounts.all fun account => (actualAccounts.lookup (env.addressString account)).isSome

/-- `setPrivacyMetadata`: a contract that is not standard private gets the
creation hash of the shared payload. Without an object the Go code would
dereference `nil`; the handler only calls it for an address with code. -/
def setPrivacyMetadata (privateState : PrivateState) (address : Address) (hash : String) : PrivateState :=
  match privateState.1.GetPrivacyMetadata privateState.2 address with
  | .error _ => privateState
  | .ok none => privateState
  | .ok (some privacyMetaData) =>
    if privacyMetaData.privacyFlag = privacyFlagStandardPrivate then privateState
    else
      match env.base64ToEncryptedPayloadHash hash with
      | none => privateState
      | some ptmHash =>
        privateState.1.SetPrivacyMetadata privateState.2 address (some ⟨ptmHash, privacyMetaData.privacyFlag⟩)

/-- `setManagedParties`: the parties of the shared payload are added to the
contract's. -/
def setManagedParties (privateState : PrivateState) (address : Address) (hash : String) : PrivateState :=
  match privateState.1.GetManagedParties privateState.2 address with
  | .error _ => privateState
  | .ok existingManagedParties =>
    match env.base64ToEncryptedPayloadHash hash with
    | none => privateState
    | some ptmHash =>
      privateState.1.SetManagedParties privateState.2 address
        (appendSkipDuplicates existingManagedParties (env.receive ptmHash).managedParties)

/-- The writes `setState` makes for one account of the dump, `none` when its
balance does not parse: the account is created before that. -/
def setAccount (privacyMetaData : PrivacyMetadata) (managedParties : Option (List String))
    (privateState : PrivateState) (key : String) (stateDump : DumpAccount) : Option PrivateState :=
  let contractAddress := env.hexToAddress key
  let s := privateState.1.CreateAccount contractAddress
  match env.parseBalance stateDump.balance with
  | none => none
  | some newBalance =>
    let s := s.SetBalance contractAddress newBalance
    let s := s.SetNonce contractAddress stateDump.nonce
    let s := s.SetCode contractAddress (env.hex2Bytes stateDump.code)
    let s := stateDump.storage.foldl (fun s (keyStore, valueStore) =>
      s.SetState contractAddress keyStore (env.hexToHash valueStore)) s
    let st : PrivateState :=
      if privacyMetaData.privacyFlag ≠ privacyFlagStandardPrivate then
        s.SetPrivacyMetadata privateState.2 contractAddress (some privacyMetaData)
      else (s, privateState.2)
    match managedParties with
    | some managedParties => some (st.1.SetManagedParties st.2 contractAddress managedParties)
    | none => some st

/-- `setState`: every account of the dump written; on a balance that does
not parse, the state as it stands then and `false`. -/
def setState (privateState : PrivateState) (privacyMetaData : PrivacyMetadata)
    (managedParties : Option (List String)) : List (String × DumpAccount) → PrivateState × Bool
  | [] => (privateState, true)
  | (key, value) :: accounts =>
    match setAccount env privacyMetaData managedParties privateState key value with
    -- the account created before the balance failed stays created
    | none => ((privateState.1.CreateAccount (env.hexToAddress key), privateState.2), false)
    | some privateState => setState privateState privacyMetaData managedParties accounts

/-- `UuidIsOwn`: this node's tenant `psi` sent the acceptance `uuid` for the
contract `address`. -/
def uuidIsOwn (address : Address) (uuid : String) (psi : String) : Bool :=
  if uuid = "" then false
  else
    let encryptedTxHash := env.uuidHash uuid
    match env.isSender encryptedTxHash with
    | .error _ => false
    | .ok false => false
    | .ok true =>
      let received := env.receive encryptedTxHash
      if received.err.isSome then false
      else
        match env.resolveForManagedParty received.senderPublicKey with
        | .error _ => false
        | .ok senderPsm =>
          if senderPsm ≠ psi then false
          else env.decryptPayload (received.data.getD []) = env.addressBytes address

/-- `FetchDataFromPTM`: the managed parties, the state data and the privacy
metadata of the shared payload. -/
def fetchDataFromPTM (hash : String) : Option (List String × List UInt8 × PrivacyMetadata) :=
  let ptmHash := (env.base64ToEncryptedPayloadHash hash).getD 0
  let received := env.receive ptmHash
  match received.data with
  | none => none
  | some stateData =>
    if received.err.isSome then none
    else some (received.managedParties, stateData, ⟨ptmHash, received.privacyFlag⟩)

/-- `FetchStateData`: the shared state, when this node's tenant sent it. -/
def fetchStateData (address : Address) (hash uuid psi : String) :
    Option (List String × List (String × DumpAccount) × PrivacyMetadata) :=
  if !uuidIsOwn env address uuid psi then none
  else
    match fetchDataFromPTM env hash with
    | none => none
    | some (managedParties, stateData, privacyMetaData) =>
      match env.unmarshalAccounts stateData with
      | none => none
      | some accounts => some (managedParties, accounts, privacyMetaData)

/-- The loop of `CheckExtensionAndSetPrivateState` from one log on, with the
flag that the metadata of an existing contract was updated. `none` where
`RevertToSnapshot` panics. -/
def checkExtensionFrom (isMultitenant : Bool) (psi : String) :
    Bool → PrivateState → List Log → Option PrivateState
  | _, privateState, [] => some privateState
  | extraMetaDataUpdated, privateState, txLog :: txLogs =>
    if !logContainsExtensionTopic txLog then
      checkExtensionFrom isMultitenant psi extraMetaDataUpdated privateState txLogs
    else
      match UnpackStateSharedLog txLog.data with
      | none => checkExtensionFrom isMultitenant psi extraMetaDataUpdated privateState txLogs
      | some (address, hash, uuid) =>
        if privateState.1.GetCode address ≠ [] then
          -- the contract exists: only its metadata, and only once per call
          if extraMetaDataUpdated then
            checkExtensionFrom isMultitenant psi extraMetaDataUpdated privateState txLogs
          else
            let privateState := setPrivacyMetadata env privateState address hash
            let privateState :=
              if isMultitenant then setManagedParties env privateState address hash else privateState
            checkExtensionFrom isMultitenant psi true privateState txLogs
        else
          match fetchStateData env txLog.address hash uuid psi with
          | none => checkExtensionFrom isMultitenant psi extraMetaDataUpdated privateState txLogs
          | some (managedParties, accounts, privacyMetaData) =>
            let managedParties := if isMultitenant then some managedParties else none
            if !validateAccountsExist env [address] accounts then
              checkExtensionFrom isMultitenant psi extraMetaDataUpdated privateState txLogs
            else
              let (snapshotId, s) := privateState.1.Snapshot
              match setState env (s, privateState.2) privacyMetaData managedParties accounts with
              | (privateState, true) =>
                checkExtensionFrom isMultitenant psi extraMetaDataUpdated privateState txLogs
              | (privateState, false) =>
                match privateState.1.RevertToSnapshot snapshotId with
                | none => none
                | some s => checkExtensionFrom isMultitenant psi extraMetaDataUpdated (s, privateState.2) txLogs

def checkExtensionAndSetPrivateState (isMultitenant : Bool) (txLogs : List Log) (privateState : PrivateState)
    (psi : String) : Option PrivateState :=
  checkExtensionFrom env isMultitenant psi false privateState txLogs

end

/-- Contract 1 with code and a party-protection creation hash 7. -/
def extendedContract : PrivateState :=
  ((StateDB.New emptyDatabase).SetCode 1 [0x60]).SetPrivacyMetadata emptyHeap 1 (some ⟨7, 1⟩)

/-- The ABI decoder reads back the log of contract 1, the base-64 payload
hash `Kg==` (the byte 42) and an empty uuid. -/
theorem UnpackStateSharedLog_at_extendedContract :
    UnpackStateSharedLog (encodeStateShared 1 "Kg==" "") = some (1, "Kg==", "") :=
  UnpackStateSharedLog_encodeStateShared 1 "Kg==" "" (by decide) (by decide)

/-- **Any log rewrites an existing contract's metadata.** A `StateShared` log
emitted by contract 99 names contract 1 with an empty uuid, so `uuidIsOwn`
fails whatever the private transaction manager answers; the handler still
gives contract 1 the creation hash of the log's payload. -/
theorem checkExtension_rewrites_metadata_of_foreign_log (env : Env)
    (hbase : env.base64ToEncryptedPayloadHash "Kg==" = some 42) :
    uuidIsOwn env 99 "" "p" = false ∧
      extendedContract.1.GetPrivacyMetadata extendedContract.2 1 = .ok (some ⟨7, 1⟩) ∧
      (checkExtensionAndSetPrivateState env false
          [⟨99, [stateSharedTopicHash], encodeStateShared 1 "Kg==" ""⟩] extendedContract "p").map
        (fun st => st.1.GetPrivacyMetadata st.2 1) = some (.ok (some ⟨42, 1⟩)) := by
  have hcode : extendedContract.1.GetCode 1 ≠ [] := by decide
  have hpm : extendedContract.1.GetPrivacyMetadata extendedContract.2 1 = .ok (some ⟨7, 1⟩) := rfl
  refine ⟨by simp [uuidIsOwn], hpm, ?_⟩
  simp only [checkExtensionAndSetPrivateState, checkExtensionFrom, logContainsExtensionTopic,
    UnpackStateSharedLog_at_extendedContract, decide_true, Bool.not_true, Bool.false_eq_true, ↓reduceIte]
  rw [if_pos hcode]
  simp only [setPrivacyMetadata, hpm, privacyFlagStandardPrivate, hbase, Option.map_some]
  rfl

/-- A private transaction manager that has no payload and is sender of
nothing, with the base-64 decoder's answer for `Kg==`. -/
def silentPTM : Env where
  base64ToEncryptedPayloadHash _ := some 42
  uuidHash _ := 0
  receive _ := ⟨"", [], none, 0, some "not found"⟩
  isSender _ := .ok false
  resolveForManagedParty _ := .error "unknown"
  decryptPayload _ := []
  unmarshalAccounts _ := none
  addressBytes _ := []
  addressString _ := ""
  hexToAddress _ := 0
  hexToHash _ := 0
  hex2Bytes _ := []
  parseBalance _ := none

theorem checkExtension_rewrites_metadata_of_silentPTM :
    silentPTM.base64ToEncryptedPayloadHash "Kg==" = some 42 ∧
      uuidIsOwn silentPTM 99 "" "p" = false ∧
      extendedContract.1.GetPrivacyMetadata extendedContract.2 1 = .ok (some ⟨7, 1⟩) ∧
      (checkExtensionAndSetPrivateState silentPTM false
          [⟨99, [stateSharedTopicHash], encodeStateShared 1 "Kg==" ""⟩] extendedContract "p").map
        (fun st => st.1.GetPrivacyMetadata st.2 1) = some (.ok (some ⟨42, 1⟩)) :=
  ⟨rfl, checkExtension_rewrites_metadata_of_foreign_log silentPTM rfl⟩

end Xdchain.Extension
