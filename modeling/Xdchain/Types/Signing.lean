import Mathlib.Data.Nat.Size
import Mathlib.Tactic.SplitIfs
import Mathlib.Tactic.Ring

/-! # Transaction signers and the private-transaction marker

`core/types/transaction_signing.go` and `transaction_signing_private.go`:
`SignTx` hashes a transaction the signer's way, signs the hash, and the
signer turns the 65-byte signature into `R`, `S` and `V`.
`EIP155Signer` puts `sig[64] + 35 + 2 chainId` in `V`,
`QuorumPrivateTxSigner` puts `sig[64] + 37`. `EIP155Signer.Sender` asks
`IsPrivate` first, which reads the low 64 bits of `V` (`V.Uint64()`), and
recovers a private transaction the Homestead way; there `recoverPlain`
takes the offset `37` when `V` is exactly `37` or `38`.

Keccak, `crypto.Sign` and `crypto.Ecrecover` are parameters (`Crypto`):
signing gives an `R` and `S` that `ValidateSignatureValues` accepts and a
recovery id that `Ecrecover` turns back into the signer's address. A
transaction fresh from `SignTx` caches no sender, so `Sender` is the
signer's `Sender`. The big integers are `Nat`, but for the `V` that
`EIP155Signer.Sender` computes by subtraction, an `Int`.

A signature of `EIP155Signer` reads as private for every chain id `c` with
`2c + 35` congruent to `37` modulo `2 ^ 64`, `c = 2 ^ 63 + 1` among them;
its own `Sender` then rejects it (`eip155_signature_reads_as_private`). -/

namespace Xdchain.Types.Signing

/-- What `rlpHash` is given of a transaction, field by field. -/
inductive HashField where
  | uint (n : Nat)
  | bigInt (n : Nat)
  | recipient (address : Option Nat)
  | payload (data : List UInt8)
deriving DecidableEq

/-- `txdata`: the fields the signers hash, and the signature. -/
structure TxData where
  accountNonce : Nat
  price : Nat
  gasLimit : Nat
  recipient : Option Nat
  amount : Nat
  payload : List UInt8
  v : Nat
  r : Nat
  s : Nat
deriving DecidableEq

/-- `secp256k1N`, the order of the curve. -/
def secp256k1N : Nat := 0xfffffffffffffffffffffffffffffffebaaedce6af48a03bbfd25e8cd0364141

def secp256k1halfN : Nat := secp256k1N / 2

def validateSignatureValues (v : UInt8) (r s : Nat) (homestead : Bool) : Bool :=
  if r < 1 ∨ s < 1 then false
  -- reject upper range of s values (ECDSA malleability)
  else if homestead ∧ s > secp256k1halfN then false
  else r < secp256k1N ∧ s < secp256k1N ∧ (v = 0 ∨ v = 1 ∨ v = 10 ∨ v = 11)

/-- Keccak over the fields, `crypto.Sign` (the `R`, `S` and `sig[64]` of the
signature) and `crypto.Ecrecover` followed by the address of the key it
recovers, taken to be inverse: what `Sign` gives passes
`ValidateSignatureValues` and recovers the signer's address. -/
structure Crypto (Key : Type) where
  rlpHash : List HashField → Nat
  sign : Nat → Key → Nat × Nat × UInt8
  ecrecover : Nat → Nat → Nat → UInt8 → Option Nat
  address : Key → Nat
  sign_recid : ∀ h k, (sign h k).2.2 = 0 ∨ (sign h k).2.2 = 1
  sign_valid : ∀ h k, validateSignatureValues (sign h k).2.2 (sign h k).1 (sign h k).2.1 true = true
  ecrecover_sign : ∀ h k, ecrecover h (sign h k).1 (sign h k).2.1 (sign h k).2.2 = some (address k)

/-- A stand-in for the curve on one-byte keys that meets the primitives'
assumptions: the signature's `S` carries the key and recovery reads it back,
so distinct keys sign and recover distinctly. -/
def byteKeyCrypto : Crypto (Fin 256) where
  rlpHash fields := fields.length
  sign _ k := (1, k.val + 1, 0)
  ecrecover _ _ s _ := some (s + 999)
  address k := k.val + 1000
  sign_recid _ _ := .inl rfl
  sign_valid _ k := by
    -- `R` is 1 and `S` at most 256, far below half the curve's order
    have hk := k.isLt
    have hs : ¬k.val + 1 > secp256k1halfN := by
      simp only [secp256k1halfN, secp256k1N]
      omega
    show validateSignatureValues 0 1 (k.val + 1) true = true
    rw [validateSignatureValues, if_neg (by omega), if_neg (by simpa using hs)]
    simp only [secp256k1N, decide_eq_true_eq]
    exact ⟨by norm_num, by omega, .inl trivial⟩
  ecrecover_sign _ k := congrArg some (Nat.add_assoc k.val 1 999)

/-- The signers of this file. -/
inductive Signer where
  | frontier
  | homestead
  | eip155 (chainId : Nat)
  | quorumPrivate

/-- The six fields of `FrontierSigner.Hash`. -/
def frontierFields (tx : TxData) : List HashField :=
  [.uint tx.accountNonce, .bigInt tx.price, .uint tx.gasLimit, .recipient tx.recipient, .bigInt tx.amount,
    .payload tx.payload]

variable {Key : Type} (C : Crypto Key)

/-- `Hash`: the Homestead and the private signer hash as Frontier does,
`EIP155Signer` adds the chain id and two zeros. -/
def Signer.hash : Signer → TxData → Nat
  | .eip155 chainId, tx => C.rlpHash (frontierFields tx ++ [.bigInt chainId, .uint 0, .uint 0])
  | _, tx => C.rlpHash (frontierFields tx)

/-- `SignatureValues`, from `R`, `S` and `sig[64]`; `sig[64] + 27` and the
like are byte sums. -/
def Signer.signatureValues : Signer → Nat × Nat × UInt8 → Nat × Nat × Nat
  | .eip155 chainId, (r, s, v) => if chainId ≠ 0 then (r, s, (v + 35).toNat + 2 * chainId) else (r, s, (v + 27).toNat)
  | .quorumPrivate, (r, s, v) => (r, s, (v + 37).toNat)
  | _, (r, s, v) => (r, s, (v + 27).toNat)

/-- `SignTx`, through `WithSignature`. -/
def signTx (signer : Signer) (tx : TxData) (prv : Key) : TxData :=
  let rsv := signer.signatureValues (C.sign (signer.hash C tx) prv)
  { tx with r := rsv.1, s := rsv.2.1, v := rsv.2.2 }

/-- `Transaction.IsPrivate`: `V.Uint64()` is `37` or `38`. -/
def TxData.isPrivate (tx : TxData) : Bool := tx.v % 2 ^ 64 = 37 ∨ tx.v % 2 ^ 64 = 38

/-- `isPrivate`: `V` is exactly `37` or `38`. -/
def isPrivate (v : Int) : Bool := v = 37 ∨ v = 38

/-- `isProtectedV`: a `V` of 27 or 28 predates EIP-155. -/
def isProtectedV (v : Nat) : Bool := if v.size ≤ 8 then !(v = 27 ∨ v = 28) else true

/-- `deriveChainId`, with the `uint64` subtraction of its short branch. -/
def deriveChainId (v : Nat) : Nat :=
  if v.size ≤ 64 then (if v = 27 ∨ v = 28 then 0 else (v + (2 ^ 64 - 35)) % 2 ^ 64 / 2)
  else (v - 35) / 2

/-- The errors of the signers. -/
inductive SigError where
  | invalidSig
  | invalidChainId
  | ecrecover
deriving DecidableEq

/-- `recoverPlain`: the recovery id is `V` less `37` for a private `V` and
less `27` otherwise, in `uint64` and then a byte. -/
def recoverPlain (sighash R S : Nat) (Vb : Int) (homestead : Bool) : Except SigError Nat :=
  if Vb.natAbs.size > 8 then .error .invalidSig
  else
    let offset := if isPrivate Vb then 37 else 27
    let V := UInt8.ofNat ((Vb.natAbs % 2 ^ 64 + (2 ^ 64 - offset)) % 2 ^ 64)
    if !validateSignatureValues V R S homestead then .error .invalidSig
    else
      match C.ecrecover sighash R S V with
      | some addr => .ok addr
      | none => .error .ecrecover

/-- `HomesteadSigner.Sender`, which `QuorumPrivateTxSigner.Sender` is. -/
def homesteadSender (tx : TxData) : Except SigError Nat :=
  recoverPlain C (Signer.homestead.hash C tx) tx.r tx.s tx.v true

def eip155Sender (chainId : Nat) (tx : TxData) : Except SigError Nat :=
  if tx.isPrivate then homesteadSender C tx
  else if !isProtectedV tx.v then homesteadSender C tx
  else if deriveChainId tx.v ≠ chainId then .error .invalidChainId
  else recoverPlain C ((Signer.eip155 chainId).hash C tx) tx.r tx.s ((tx.v : Int) - 2 * chainId - 8) true

/-- `Sender` of each signer. -/
def Signer.sender : Signer → TxData → Except SigError Nat
  | .frontier, tx => recoverPlain C (Signer.frontier.hash C tx) tx.r tx.s tx.v false
  | .homestead, tx | .quorumPrivate, tx => homesteadSender C tx
  | .eip155 chainId, tx => eip155Sender C chainId tx

/-! ## What the signers write -/

section Signatures

variable {C}

theorem frontierFields_signTx (signer : Signer) (tx : TxData) (k : Key) :
    frontierFields (signTx C signer tx k) = frontierFields tx := rfl

theorem hash_signTx (signer signer' : Signer) (tx : TxData) (k : Key) :
    signer'.hash C (signTx C signer tx k) = signer'.hash C tx := by
  cases signer' <;> rfl

/-- The `V` of an `EIP155Signer` signature for a chain id other than zero. -/
theorem v_signTx_eip155 {chainId : Nat} (hc : chainId ≠ 0) (tx : TxData) (k : Key) :
    (signTx C (.eip155 chainId) tx k).v = 35 + (C.sign ((Signer.eip155 chainId).hash C tx) k).2.2.toNat + 2 * chainId := by
  have hv := C.sign_recid ((Signer.eip155 chainId).hash C tx) k
  unfold signTx
  simp only [Signer.signatureValues, ne_eq, hc, not_false_eq_true, if_true]
  rcases hv with hv | hv <;> rw [hv] <;> rfl

/-- The `V` of a `QuorumPrivateTxSigner` signature. -/
theorem v_signTx_quorumPrivate (tx : TxData) (k : Key) :
    (signTx C .quorumPrivate tx k).v = 37 + (C.sign (Signer.quorumPrivate.hash C tx) k).2.2.toNat := by
  have hv := C.sign_recid (Signer.quorumPrivate.hash C tx) k
  unfold signTx
  simp only [Signer.signatureValues]
  rcases hv with hv | hv <;> rw [hv] <;> rfl

theorem recid_toNat_le {h : Nat} {k : Key} : (C.sign h k).2.2.toNat ≤ 1 := by
  rcases C.sign_recid h k with hv | hv <;> rw [hv] <;> decide

theorem size_le_eight {n : Nat} (h : n < 2 ^ 8) : n.size ≤ 8 := Nat.size_le.mpr h

/-- `recoverPlain` of what `Sign` gave, with `V` the recovery id plus the
offset it picks. -/
theorem recoverPlain_sign {h : Nat} {k : Key} {Vb : Int} {offset : Nat}
    (hV : Vb = offset + (C.sign h k).2.2.toNat) (hoff : offset = if isPrivate Vb then 37 else 27) :
    recoverPlain C h (C.sign h k).1 (C.sign h k).2.1 Vb true = .ok (C.address k) := by
  have hr := recid_toNat_le (C := C) (h := h) (k := k)
  have hoffs : offset = 37 ∨ offset = 27 := by
    rw [hoff]
    split_ifs <;> simp
  have hnat : Vb.natAbs = offset + (C.sign h k).2.2.toNat := by omega
  have hid : UInt8.ofNat ((Vb.natAbs % 2 ^ 64 + (2 ^ 64 - offset)) % 2 ^ 64) = (C.sign h k).2.2 := by
    have hmod : (Vb.natAbs % 2 ^ 64 + (2 ^ 64 - offset)) % 2 ^ 64 = (C.sign h k).2.2.toNat := by
      rw [hnat]
      omega
    rw [hmod]
    exact UInt8.ofNat_toNat
  unfold recoverPlain
  rw [if_neg (by rw [hnat]; have := size_le_eight (n := offset + (C.sign h k).2.2.toNat) (by omega); omega)]
  dsimp only
  rw [← hoff, hid, C.sign_valid h k]
  simp only [Bool.not_true, Bool.false_eq_true, ↓reduceIte, C.ecrecover_sign]

/-- Every signer keeps the `R` and `S` of the signature. -/
theorem rs_signTx (signer : Signer) (tx : TxData) (k : Key) :
    (signTx C signer tx k).r = (C.sign (signer.hash C tx) k).1 ∧
      (signTx C signer tx k).s = (C.sign (signer.hash C tx) k).2.1 := by
  cases signer with
  | eip155 chainId =>
    unfold signTx
    generalize C.sign ((Signer.eip155 chainId).hash C tx) k = sig
    obtain ⟨r, s, v⟩ := sig
    simp only [Signer.signatureValues]
    split_ifs <;> exact ⟨rfl, rfl⟩
  | _ => exact ⟨rfl, rfl⟩

end Signatures

/-! ## Private signatures and EIP-155 signatures -/

section Senders

variable {C}

/-- **A private signature is recovered whatever the chain id.** It is
private, and `EIP155Signer.Sender` recovers it the Homestead way, with the
offset `37`. -/
theorem sender_signTx_quorumPrivate (chainId : Nat) (tx : TxData) (k : Key) :
    (signTx C .quorumPrivate tx k).isPrivate = true ∧
      (Signer.eip155 chainId).sender C (signTx C .quorumPrivate tx k) = .ok (C.address k) := by
  have hv := v_signTx_quorumPrivate (C := C) tx k
  have hr := recid_toNat_le (C := C) (h := Signer.quorumPrivate.hash C tx) (k := k)
  have hpriv : (signTx C .quorumPrivate tx k).isPrivate = true := by
    simp only [TxData.isPrivate, hv, decide_eq_true_eq]
    omega
  refine ⟨hpriv, ?_⟩
  simp only [Signer.sender, eip155Sender, hpriv, if_true, homesteadSender, hash_signTx]
  rw [(rs_signTx .quorumPrivate tx k).1, (rs_signTx .quorumPrivate tx k).2]
  refine @recoverPlain_sign _ C (Signer.quorumPrivate.hash C tx) k _ 37 (by rw [hv]; rfl) ?_
  rw [if_pos (by simp only [isPrivate, hv, decide_eq_true_eq]; omega)]

/-- An `EIP155Signer` signature reads as private exactly when `2c + 35` is
`37` modulo `2 ^ 64`, that is when `c` is `1` modulo `2 ^ 63`. -/
theorem isPrivate_signTx_eip155 {chainId : Nat} (hc : chainId ≠ 0) (tx : TxData) (k : Key) :
    (signTx C (.eip155 chainId) tx k).isPrivate = decide (chainId % 2 ^ 63 = 1) := by
  have hv := v_signTx_eip155 (C := C) hc tx k
  have hr := recid_toNat_le (C := C) (h := (Signer.eip155 chainId).hash C tx) (k := k)
  simp only [TxData.isPrivate, hv]
  apply decide_eq_decide.mpr
  omega

/-- **An `EIP155Signer` signature is recovered for every chain id but zero
that is not `1` modulo `2 ^ 63`.** It is not private, it is protected, it
derives its chain id, and `recoverPlain` recovers the signer from the `V`
less `2 c + 8`. -/
theorem sender_signTx_eip155 {chainId : Nat} (hc : chainId ≠ 0) (hmod : chainId % 2 ^ 63 ≠ 1) (tx : TxData)
    (k : Key) :
    (signTx C (.eip155 chainId) tx k).isPrivate = false ∧
      (Signer.eip155 chainId).sender C (signTx C (.eip155 chainId) tx k) = .ok (C.address k) := by
  have hv := v_signTx_eip155 (C := C) hc tx k
  have hr := recid_toNat_le (C := C) (h := (Signer.eip155 chainId).hash C tx) (k := k)
  have hpriv : (signTx C (.eip155 chainId) tx k).isPrivate = false := by
    rw [isPrivate_signTx_eip155 hc]
    exact decide_eq_false hmod
  have hprot : isProtectedV (signTx C (.eip155 chainId) tx k).v = true := by
    unfold isProtectedV
    split_ifs
    · simp only [hv, Bool.not_eq_true', decide_eq_false_iff_not]
      omega
    · rfl
  have hchain : deriveChainId (signTx C (.eip155 chainId) tx k).v = chainId := by
    unfold deriveChainId
    split_ifs with hsmall h27
    · omega
    · have hlt : (signTx C (.eip155 chainId) tx k).v < 2 ^ 64 := Nat.size_le.mp hsmall
      rw [hv] at hlt ⊢
      omega
    · rw [hv]
      omega
  refine ⟨hpriv, ?_⟩
  simp only [Signer.sender, eip155Sender, hpriv, hprot, hchain, Bool.false_eq_true, Bool.not_true, if_false,
    ne_eq, not_true_eq_false, hash_signTx]
  rw [(rs_signTx (.eip155 chainId) tx k).1, (rs_signTx (.eip155 chainId) tx k).2]
  refine @recoverPlain_sign _ C ((Signer.eip155 chainId).hash C tx) k _ 27
    (by rw [hv]; push_cast; ring) ?_
  rw [if_neg (by simp only [isPrivate, hv, decide_eq_true_eq]; omega)]

/-- Key 3 signs for chain 10 and is recovered as address 1003. -/
theorem sender_signTx_eip155_at_chain_ten :
    (signTx byteKeyCrypto (.eip155 10) ⟨0, 1, 21000, some 7, 5, [], 0, 0, 0⟩ 3).isPrivate = false ∧
      (Signer.eip155 10).sender byteKeyCrypto
        (signTx byteKeyCrypto (.eip155 10) ⟨0, 1, 21000, some 7, 5, [], 0, 0, 0⟩ 3) = .ok 1003 :=
  sender_signTx_eip155 (C := byteKeyCrypto) (by decide) (by decide) _ 3

/-- **An `EIP155Signer` signature reads as private at the chain id
`2 ^ 63 + 1`.** Its `V` is `2 ^ 64 + 37` or `2 ^ 64 + 38`, whose low 64 bits
`IsPrivate` takes for the private marker; `Sender` then recovers it the
Homestead way and rejects a `V` of more than eight bits. -/
theorem eip155_signature_reads_as_private (tx : TxData) (k : Key) :
    (signTx C (.eip155 (2 ^ 63 + 1)) tx k).isPrivate = true ∧
      (Signer.eip155 (2 ^ 63 + 1)).sender C (signTx C (.eip155 (2 ^ 63 + 1)) tx k) = .error .invalidSig := by
  have hc : (2 ^ 63 + 1 : Nat) ≠ 0 := by omega
  have hv := v_signTx_eip155 (C := C) hc tx k
  have hpriv : (signTx C (.eip155 (2 ^ 63 + 1)) tx k).isPrivate = true := by
    rw [isPrivate_signTx_eip155 hc]
    rfl
  refine ⟨hpriv, ?_⟩
  have hbig : ((signTx C (.eip155 (2 ^ 63 + 1)) tx k).v : Int).natAbs.size > 8 := by
    rw [Int.natAbs_natCast, gt_iff_lt, Nat.lt_size, hv]
    omega
  simp only [Signer.sender, eip155Sender, hpriv, if_true, homesteadSender, recoverPlain, hbig]

end Senders

end Xdchain.Types.Signing
