import Xdchain.Lib.ErrState
import Xdchain.Qbft.RoundChanges
import Xdchain.Qbft.MessageCodec

/-! # The QBFT core

`qbft/core`: the state of one validator's consensus engine and the handlers
of the events its loop receives (`handleEvents`). A handler that can fail is
an `EStateM` computation over the core, as its Go method mutates the core
and returns an error; one that cannot is a function of the core. What the
core sends is appended to `outbox`: its own signed messages, the messages it
gossips, its calls of `backend.Commit` and the events it posts to itself.

The model leaves out the timers: a timeout may be handed to the core at any
time, which includes every time one of its timers can fire. A nil pointer
that Go would dereference makes the handler throw `nilPointer`, and the
event loop stops there, as the Go process does. -/

namespace Xdchain.Qbft
open Xdchain.Lib Xdchain.Lib.ErrState Xdchain.Istanbul.Validator Xdchain.Qbft.Message
  Xdchain.Qbft.RoundChanges

variable {B : Type}

/-! ## State -/

inductive State where
  | acceptRequest
  | preprepared
  | prepared
  | committed
deriving DecidableEq, Repr

def State.toNat : State → Nat
  | .acceptRequest => 0
  | .preprepared => 1
  | .prepared => 2
  | .committed => 3

def State.cmp (s y : State) : Ordering := compare s.toNat y.toNat

/-- `Request`: a proposal and, from a round change, its justification. -/
structure Request (B : Type) where
  proposal : B
  rcMessages : Option (MsgSet (RoundChange B))
  prepareMessages : Option (List Prepare)
deriving DecidableEq

structure RoundState (B : Type) where
  round : Nat
  sequence : Nat
  preprepare : Option (Preprepare B)
  qbftPrepares : MsgSet Prepare
  qbftCommits : MsgSet Commit
  pendingRequest : Option (Request B)
  preparedRound : Option Nat
  preparedBlock : Option B
  preprepareSent : Nat
deriving DecidableEq

def newRoundState (view : View) (preprepare : Option (Preprepare B)) (preparedRound : Option Nat)
    (preparedBlock : Option B) (pendingRequest : Option (Request B)) : RoundState B :=
  { round := view.round, sequence := view.sequence, preprepare, qbftPrepares := .empty,
    qbftCommits := .empty, pendingRequest, preparedRound, preparedBlock, preprepareSent := 0 }

def RoundState.proposal (s : RoundState B) : Option B := s.preprepare.map (·.proposal)

/-- The events of `handleEvents`. A `message` is a `MessageEvent` as
`Decode` gives it back; a `backlog` event carries the source it was
verified from. -/
inductive Event (B : Type) where
  | request (proposal : B)
  | message (m : QBFTMessage B)
  | backlog (source : Address) (m : QBFTMessage B)
  | timeout
  | finalCommitted
deriving DecidableEq

/-- What the core does towards the network, the chain and itself. -/
inductive Output (B : Type) where
  /-- `backend.Broadcast` of a message the core signed. -/
  | broadcast (m : QBFTMessage B)
  /-- `backend.Gossip` of a message it handled. -/
  | gossip (m : QBFTMessage B)
  /-- `backend.Commit(proposal, committedSeals, view.Round)`, made in `view`. -/
  | commit (proposal : B) (committedSeals : List (List UInt8)) (view : View)
  /-- `go c.sendEvent(ev)`. -/
  | post (ev : Event B)
deriving DecidableEq

/-- The errors of the handlers: `errors.go`'s, `backend.Verify`'s, and a nil
dereference. -/
inductive CoreError where
  | notFromProposer
  | futureMessage
  | oldMessage
  | invalidMessage
  | invalidSigner
  | invalidPreparedBlock
  | invalidProposal
  | invalidMessageEventCode
  | decode (e : Istanbul.Common.Error)
  | nilPointer
deriving DecidableEq, Repr

/-- What the core reads of its backend and its configuration. -/
structure Backend (B : Type) where
  /-- `Proposal.Hash()` and the proposal's RLP. -/
  codec : BlockCodec B
  /-- `Proposal.Number()`. -/
  number : B → Nat
  address : Address
  /-- `LastProposal()`: the chain head and its proposer. -/
  lastProposal : B
  lastProposer : Address
  /-- `Validators(lastProposal)`. -/
  validators : ValidatorSet
  /-- `Verify(proposal) == nil`. -/
  verify : B → Bool
  /-- `Commit(...) == nil`. -/
  commit : B → Bool
  sign : List UInt8 → List UInt8
  /-- `SignWithoutHashing(PrepareCommittedSeal(header, round))`. -/
  commitSeal : B → Nat → List UInt8
  /-- `GetSignatureAddress(data, sig)`. -/
  recover : List UInt8 → List UInt8 → Option Address
  /-- `config.Ceil2Nby3Block`. -/
  ceil2Nby3Block : Option Nat

structure Core (B : Type) where
  address : Address
  state : State
  valSet : ValidatorSet
  current : RoundState B
  roundChangeSet : RoundChangeSet B
  qbftPreparedPrepares : Option (List Prepare)
  /-- Per source, the backlogged messages with their priority, lowest first. -/
  backlogs : KeyMap Address (List (Nat × QBFTMessage B))
  /-- The pending requests, lowest proposal number first. -/
  pendingRequests : List (Request B)
  outbox : List (Output B)
deriving DecidableEq

abbrev CoreM (B : Type) := EStateM CoreError (Core B)

namespace Core

variable (be : Backend B)

def emit (o : Output B) (c : Core B) : Core B := { c with outbox := c.outbox ++ [o] }

def currentView (c : Core B) : View := ⟨c.current.round, c.current.sequence⟩

def isProposer (c : Core B) : Bool := c.valSet.isProposer be.address

/-- `QuorumSize`: `2F+1` before `Ceil2Nby3Block`, `ceil(2N/3)` from it on. -/
def quorumSize (c : Core B) : Nat :=
  match be.ceil2Nby3Block with
  | none => 2 * c.valSet.f + 1
  | some block =>
    if c.current.sequence < block then 2 * c.valSet.f + 1 else (2 * c.valSet.size + 2) / 3

/-! ## Requests and the backlog -/

def checkRequestMsg (c : Core B) (request : Request B) : Except CoreError Unit :=
  if c.current.sequence > be.number request.proposal then .error .oldMessage
  else if c.current.sequence < be.number request.proposal then .error .futureMessage
  else .ok ()

/-- The loop of `processPendingRequests`: current requests are posted again,
old ones dropped, and the first future one stops it. -/
def pendingLoop (c : Core B) : List (Request B) → List (Event B) × List (Request B)
  | [] => ([], [])
  | r :: rs =>
    match c.checkRequestMsg be r with
    | .error .futureMessage => ([], r :: rs)
    | .error _ => pendingLoop c rs
    | .ok () =>
      let (events, rest) := pendingLoop c rs
      (.request r.proposal :: events, rest)

def processPendingRequests (c : Core B) : Core B :=
  let (events, rest) := c.pendingLoop be c.pendingRequests
  { c with pendingRequests := rest, outbox := c.outbox ++ events.map .post }

/-- `storeRequestMsg`: the queue pops the lowest proposal number first. -/
def storeRequestMsg (request : Request B) (c : Core B) : Core B :=
  { c with
    pendingRequests := c.pendingRequests.orderedInsert
      (fun r r' => be.number r.proposal ≤ be.number r'.proposal) request }

def checkMessage (c : Core B) (msgCode : Nat) (view : View) : Except CoreError Unit :=
  if msgCode = roundChangeCode then
    if view.sequence > c.current.sequence then .error .futureMessage
    else if view.cmp c.currentView = .lt then .error .oldMessage
    else .ok ()
  else if view.cmp c.currentView = .gt then .error .futureMessage
  else if view.cmp c.currentView = .lt then .error .oldMessage
  else
    match c.state with
    | .acceptRequest => if msgCode > preprepareCode then .error .futureMessage else .ok ()
    | .preprepared =>
      if msgCode < prepareCode then .error .invalidMessage
      else if msgCode > prepareCode then .error .futureMessage
      else .ok ()
    | .prepared => if msgCode < commitCode then .error .invalidMessage else .ok ()
    | .committed => .error .invalidMessage

def viewOf (m : QBFTMessage B) : View := ⟨m.round, m.sequence⟩

def msgPriority (msgCode : Nat) : Nat :=
  if msgCode = preprepareCode then 1
  else if msgCode = commitCode then 2
  else if msgCode = prepareCode then 3
  else 0

/-- `toPriority`, negated: the backlog pops the lowest value first. -/
def toPriority (msgCode : Nat) (view : View) : Nat :=
  if msgCode = roundChangeCode then view.sequence * 1000
  else view.sequence * 1000 + view.round * 10 + msgPriority msgCode

/-- `addToBacklog`: a message from the core itself is not kept. -/
def addToBacklog (source : Address) (m : QBFTMessage B) (c : Core B) : Core B :=
  if source = c.address then c
  else
    let backlog := (c.backlogs.find? source).getD []
    let entry := (toPriority m.code (viewOf m), m)
    { c with
      backlogs := c.backlogs.insert source (backlog.orderedInsert (fun e e' => e.1 ≤ e'.1) entry) }

/-- The loop of `processBacklog` over one source's queue: messages for now are
posted, old and invalid ones dropped, and the first future one stops it. -/
def backlogLoop (c : Core B) (source : Address) :
    List (Nat × QBFTMessage B) → List (Event B) × List (Nat × QBFTMessage B)
  | [] => ([], [])
  | (prio, m) :: rest =>
    match c.checkMessage m.code (viewOf m) with
    | .error .futureMessage => ([], (prio, m) :: rest)
    | .error _ => backlogLoop c source rest
    | .ok () =>
      let (events, rest') := backlogLoop c source rest
      (.backlog source m :: events, rest')

/-- `processBacklog`: the backlog of a source that is no longer a validator is
deleted. -/
def processBacklog (c : Core B) : Core B :=
  c.backlogs.entries.foldl
    (fun c e =>
      if e.1 ∈ c.valSet.validators then
        let (events, rest) := c.backlogLoop e.1 e.2
        { c with backlogs := c.backlogs.insert e.1 rest, outbox := c.outbox ++ events.map .post }
      else { c with backlogs := c.backlogs.erase e.1 })
    c

/-- `processBacklog` only moves messages from the backlogs to the outbox. -/
theorem current_processBacklog (c : Core B) : c.processBacklog.current = c.current := by
  unfold processBacklog
  induction c.backlogs.entries generalizing c with
  | nil => rfl
  | cons e es ih =>
    rw [List.foldl_cons, ih]
    split <;> rfl

/-- `setState`; entering `StateAcceptRequest` processes the pending requests,
and every call processes the backlog. -/
def setState (state : State) (c : Core B) : Core B :=
  let c := { c with state }
  let c := if state = .acceptRequest then c.processPendingRequests be else c
  c.processBacklog

/-! ## Rounds -/

/-- `updateRoundState`: a round change keeps what was prepared and proposed. -/
def updateRoundState (view : View) (roundChange : Bool) (c : Core B) : Core B :=
  { c with
    current :=
      if roundChange then
        newRoundState view c.current.preprepare c.current.preparedRound c.current.preparedBlock
          c.current.pendingRequest
      else newRoundState view none none none none }

/-- Which way `startNewRound` goes: `some false` to catch up with the chain
head, `some true` for a round change in the current sequence, `none` for
the returns. -/
def newRoundKind (c : Core B) (round : Nat) : Option Bool :=
  if be.number be.lastProposal ≥ c.current.sequence then some false
  else if (be.number be.lastProposal : Int) = (c.current.sequence : Int) - 1 then
    if round = 0 then none
    else if round < c.current.round then none
    else some true
  else none

/-- The message sets after entering `round`: a new sequence (`round` 0) drops
them, any other round clears the rounds below it. -/
def resetRoundChanges (round : Nat) (c : Core B) : Core B :=
  let c := if round = 0 then { c with qbftPreparedPrepares := none, roundChangeSet := newRoundChangeSet }
    else { c with roundChangeSet := c.roundChangeSet.clearLowerThan round }
  { c with roundChangeSet := c.roundChangeSet.newRound round }

/-- The part of `startNewRound` after its branch is chosen. -/
def enterRound (newView : View) (roundChange : Bool) (round : Nat) (c : Core B) : Core B :=
  let c := if roundChange then c else { c with valSet := be.validators }
  let c := c.updateRoundState newView roundChange
  let c := { c with valSet := c.valSet.calcProposer be.lastProposer newView.round }
  let c := c.setState be .acceptRequest
  c.resetRoundChanges round

def startNewRound (round : Nat) (c : Core B) : Core B :=
  match c.newRoundKind be round with
  | none => c
  | some true => c.enterRound be ⟨round, c.current.sequence⟩ true round
  | some false => c.enterRound be ⟨0, be.number be.lastProposal + 1⟩ false round

def newRoundChange (sequence round : Nat) (preparedRound : Option Nat)
    (preparedBlock : Option B) : RoundChange B :=
  { code := roundChangeCode, sequence, round, signature := [], preparedRound,
    preparedDigest := (preparedBlock.map be.codec.hash).getD zeroHash, preparedBlock,
    justification := [] }

/-- `broadcastRoundChange`: nothing for a round below the current one. -/
def broadcastRoundChange (round : Nat) (c : Core B) : Core B :=
  if c.currentView.round > round then c
  else
    let rc := newRoundChange be c.current.sequence round c.current.preparedRound
      c.current.preparedBlock
    let rc := { rc with signature := be.sign rc.encodePayloadForSigning }
    let rc := match c.qbftPreparedPrepares with
      | some ps => { rc with justification := ps }
      | none => rc
    c.emit (.broadcast (.roundChange rc))

def broadcastNextRoundChange (c : Core B) : Core B :=
  c.broadcastRoundChange be (c.currentView.round + 1)

def handleTimeoutMsg (c : Core B) : Core B :=
  let nextRound := c.current.round + 1
  (c.startNewRound be nextRound).broadcastRoundChange be nextRound

def handleFinalCommitted (c : Core B) : Core B := c.startNewRound be 0

/-! ## PRE-PREPARE -/

/-- `sendPreprepareMsg`: only the proposer of the current sequence sends. -/
def sendPreprepareMsg (request : Request B) (c : Core B) : Core B :=
  if c.current.sequence = be.number request.proposal ∧ c.isProposer be then
    let curView := c.currentView
    let preprepare : Preprepare B :=
      { code := preprepareCode, sequence := curView.sequence, round := curView.round,
        signature := [], proposal := request.proposal, justificationRoundChanges := [],
        justificationPrepares := [] }
    let preprepare := { preprepare with
      signature := be.sign (preprepare.encodePayloadForSigning be.codec) }
    let preprepare := match request.rcMessages with
      | some ms => { preprepare with
          justificationRoundChanges := ms.values.map (·.toSignedRoundChangePayload) }
      | none => preprepare
    let preprepare := match request.prepareMessages with
      | some ps => { preprepare with justificationPrepares := ps }
      | none => preprepare
    let c := c.emit (.broadcast (.preprepare preprepare))
    { c with current := { c.current with preprepareSent := curView.round } }
  else c

def handleRequest (request : Request B) : CoreM B Unit := do
  let c ← get
  match c.checkRequestMsg be request with
  | .error e => throw e
  | .ok () =>
    let c := { c with current := { c.current with pendingRequest := some request } }
    set (if c.state = .acceptRequest then c.sendPreprepareMsg be request else c)

def guardB (b : Bool) (e : CoreError) : CoreM B Unit := if b then pure () else throw e

/-- `current.Subject()`, a nil dereference without a PRE-PREPARE. -/
def subject (c : Core B) : Except CoreError (View × Hash) :=
  match c.current.preprepare with
  | some preprepare => .ok (c.currentView, be.codec.hash preprepare.proposal)
  | none => .error .nilPointer

def broadcastPrepare : CoreM B Unit := do
  let c ← get
  match c.subject be with
  | .error e => throw e
  | .ok (view, digest) =>
    let prepare : Prepare :=
      { code := prepareCode, sequence := view.sequence, round := view.round, signature := [],
        digest }
    let prepare := { prepare with signature := be.sign prepare.encodePayloadForSigning }
    set (c.emit (.broadcast (.prepare prepare)))

/-- The accepting branch of `handlePreprepareMsg`. -/
def acceptPreprepare (preprepare : Preprepare B) : CoreM B Unit := do
  modify fun c => { c with current := { c.current with preprepare := some preprepare } }
  modify (setState be .preprepared)
  broadcastPrepare be

/-- The check of a PRE-PREPARE's justification, from round 1 on. -/
def checkJustification (c : Core B) (preprepare : Preprepare B) : Bool :=
  preprepare.round = 0 ||
    (isJustified be.codec preprepare.proposal preprepare.justificationRoundChanges
      preprepare.justificationPrepares (c.quorumSize be) matches .ok ())

def handlePreprepareMsg (source : Address) (preprepare : Preprepare B) : CoreM B Unit := do
  let c ← get
  guardB (c.valSet.isProposer source) .notFromProposer
  guardB (c.checkJustification be preprepare) .invalidPreparedBlock
  guardB (be.verify preprepare.proposal) .invalidProposal
  if c.state = .acceptRequest then acceptPreprepare be preprepare else pure ()

/-! ## PREPARE and COMMIT -/

/-- `current.Proposal()` where Go calls a method on it. -/
def proposal (c : Core B) : Except CoreError B :=
  match c.current.proposal with
  | some p => .ok p
  | none => .error .nilPointer

def broadcastCommit : CoreM B Unit := do
  let c ← get
  match c.subject be, c.proposal with
  | .ok (view, digest), .ok proposal =>
    let commit : Commit :=
      { code := commitCode, sequence := view.sequence, round := view.round, signature := [],
        digest, commitSeal := be.commitSeal proposal c.currentView.round }
    let commit := { commit with signature := be.sign commit.encodePayloadForSigning }
    set (c.emit (.broadcast (.commit commit)))
  | _, _ => throw .nilPointer

/-- The quorum branch of `handlePrepare`. -/
def onPrepareQuorum (prepare : Prepare) : CoreM B Unit := do
  modify fun c =>
    let preparedPrepares := c.current.qbftPrepares.entries.map fun e =>
      ({ code := prepareCode, sequence := e.2.sequence, round := e.2.round,
         signature := e.2.signature, digest := e.2.digest } : Prepare)
    let preparedBlock := match c.current.proposal with
      | some p => if be.codec.hash p = prepare.digest then some p else c.current.preparedBlock
      | none => c.current.preparedBlock
    { c with
      current := { c.current with preparedRound := some c.currentView.round, preparedBlock }
      qbftPreparedPrepares := some preparedPrepares }
  modify (setState be .prepared)
  broadcastCommit be

def handlePrepare (source : Address) (prepare : Prepare) : CoreM B Unit := do
  let c ← get
  match c.proposal with
  | .error e => throw e
  | .ok proposal =>
    guardB (prepare.digest == be.codec.hash proposal) .invalidMessage
    let c := { c with current := { c.current with
      qbftPrepares := c.current.qbftPrepares.add source prepare } }
    set c
    if c.current.qbftPrepares.size ≥ c.quorumSize be ∧ c.state.cmp .prepared = .lt then
      onPrepareQuorum be prepare
    else pure ()

/-- `commitQBFT`: a failed commit asks for the next round. -/
def commitQBFT (c : Core B) : Core B :=
  let c := c.setState be .committed
  match c.current.proposal with
  | none => c
  | some proposal =>
    let committedSeals := c.current.qbftCommits.values.map (·.commitSeal)
    let c := c.emit (.commit proposal committedSeals c.currentView)
    if be.commit proposal then c else c.broadcastNextRoundChange be

def handleCommitMsg (source : Address) (commit : Commit) : CoreM B Unit := do
  let c ← get
  match c.proposal with
  | .error e => throw e
  | .ok proposal =>
    guardB (commit.digest == be.codec.hash proposal) .invalidMessage
    let c := { c with current := { c.current with
      qbftCommits := c.current.qbftCommits.add source commit } }
    set (if c.current.qbftCommits.size ≥ c.quorumSize be then c.commitQBFT be else c)

/-! ## ROUND-CHANGE -/

/-- The first part of `handleRoundChange`: a ROUND-CHANGE for the current
round or a later one is added, with its prepared part when it carries a
block and PREPAREs. -/
def addRoundChange (source : Address) (roundChange : RoundChange B) (c : Core B) : Core B :=
  if roundChange.round ≥ c.current.round then
    let prepared := roundChange.preparedRound.isSome && roundChange.preparedBlock.isSome &&
      0 < roundChange.justification.length
    let (prepareMessages, pr, pb) :=
      if prepared then (roundChange.justification, roundChange.preparedRound,
        roundChange.preparedBlock)
      else ([], none, none)
    let rcs := c.roundChangeSet.add roundChange.round source roundChange pr pb prepareMessages
      (c.quorumSize be)
    { c with roundChangeSet := rcs }
  else c

/-- The proposer's branch of `handleRoundChange`: propose the highest
prepared block of the round, or the pending request's. -/
def proposeAfterRoundChange (currentRound : Nat) : CoreM B Unit := do
  let c ← get
  let proposal? : Option B := match (c.roundChangeSet.highestPrepared currentRound).2 with
    | some p => some p
    | none => c.current.pendingRequest.map fun r => r.proposal
  match proposal?, c.roundChangeSet.roundChanges.find? currentRound with
  | some proposal, some roundChangeMessages =>
    let rcSignedPayloads :=
      roundChangeMessages.values.map fun (rc : RoundChange B) => rc.toSignedRoundChangePayload
    let prepareMessages := c.roundChangeSet.prepareMessages.find? currentRound
    match isJustified be.codec proposal rcSignedPayloads (prepareMessages.getD [])
      (c.quorumSize be) with
    | .error _ => pure ()
    | .ok () =>
      set (c.sendPreprepareMsg be
        { proposal, rcMessages := some roundChangeMessages, prepareMessages })
  | _, _ => throw CoreError.nilPointer

def handleRoundChange (source : Address) (roundChange : RoundChange B) : CoreM B Unit := do
  let c ← get
  let currentRound := c.current.round
  let c := c.addRoundChange be source roundChange
  set c
  let num := c.roundChangeSet.higherRoundMessages currentRound
  let currentRoundMessages := c.roundChangeSet.getRCMessagesForGivenRound currentRound
  if num = c.valSet.f + 1 then
    let newRound := c.roundChangeSet.getMinRoundChange currentRound
    set ((c.startNewRound be newRound).broadcastRoundChange be newRound)
  else if currentRoundMessages ≥ c.quorumSize be ∧ c.isProposer be ∧
      c.current.preprepareSent < currentRound then
    proposeAfterRoundChange be currentRound
  else pure ()

/-! ## Messages -/

def deliverMessage (source : Address) : QBFTMessage B → CoreM B Unit
  | .preprepare m => handlePreprepareMsg be source m
  | .prepare m => handlePrepare be source m
  | .commit m => handleCommitMsg be source m
  | .roundChange m => handleRoundChange be source m

/-- `handleDecodedMessage`: a future message goes to the backlog. -/
def handleDecodedMessage (source : Address) (m : QBFTMessage B) : CoreM B Unit := do
  let c ← get
  match c.checkMessage m.code (viewOf m) with
  | .error e =>
    set (if e = .futureMessage then c.addToBacklog source m else c)
    throw e
  | .ok () => deliverMessage be source m

/-- The `verify` of `verifySignatures`: `CheckValidatorSignature` against the
core's validator set. -/
def verifySignature (c : Core B) (payload signature : List UInt8) : Except CoreError Address :=
  match be.recover payload signature with
  | some signer => if signer ∈ c.valSet.validators then .ok signer else .error .invalidSigner
  | none => .error .invalidSigner

/-- `verifySignatures`: the message's signer, once every justification
payload it carries has a validator's signature. -/
def verifySignatures (c : Core B) (m : QBFTMessage B) : Except CoreError Address := do
  let source ← c.verifySignature be (m.encodePayloadForSigning be.codec) m.signature
  match m with
  | .roundChange rc =>
    rc.justification.forM fun p =>
      (c.verifySignature be p.encodePayloadForSigning p.signature).map fun _ => ()
  | .preprepare pp =>
    pp.justificationRoundChanges.forM fun p =>
      (c.verifySignature be p.encodePayloadForSigning p.signature).map fun _ => ()
  | _ => pure ()
  pure source

/-- The part of `handleEncodedMsg` after `Decode`. -/
def handleMessage (m : QBFTMessage B) : CoreM B Unit := do
  let c ← get
  match c.verifySignatures be m with
  | .error e => throw e
  | .ok source => handleDecodedMessage be source m

def handleEncodedMsg (code : Nat) (data : List UInt8) : CoreM B Unit :=
  if code ∉ [preprepareCode, prepareCode, commitCode, roundChangeCode] then
    throw .invalidMessageEventCode
  else
    match decode be.codec code data with
    | .error e => throw (.decode e)
    | .ok m => handleMessage be m

/-- A handler's run as the event loop takes it: its error is dropped, unless
it is a nil dereference, which stops the loop. -/
def finish (r : EStateM.Result CoreError (Core B) Unit) (onOk : Core B → Core B)
    (onError : CoreError → Core B → Core B) : Option (Core B) :=
  match r with
  | .ok () c => some (onOk c)
  | .error .nilPointer _ => none
  | .error e c => some (onError e c)

/-- One turn of `handleEvents`; `none` when the handler panicked. -/
def handleEvent (c : Core B) : Event B → Option (Core B)
  | .request proposal =>
    let request : Request B := { proposal, rcMessages := none, prepareMessages := none }
    finish ((handleRequest be request).run c) id
      fun e c => if e = .futureMessage then c.storeRequestMsg be request else c
  | .message m => finish ((handleMessage be m).run c) (emit (.gossip m)) fun _ c => c
  | .backlog source m =>
    finish ((handleDecodedMessage be source m).run c) (emit (.gossip m)) fun _ c => c
  | .timeout => some (c.handleTimeoutMsg be)
  | .finalCommitted => some (c.handleFinalCommitted be)

/-- `New` and `Start`: `startNewRound(0)` with no round state yet starts the
sequence after the chain head, in the branch that catches up. -/
def start : Core B :=
  let c : Core B :=
    { address := be.address, state := .acceptRequest, valSet := be.validators,
      current := newRoundState ⟨0, 0⟩ none none none none, roundChangeSet := newRoundChangeSet,
      qbftPreparedPrepares := none, backlogs := .empty, pendingRequests := [], outbox := [] }
  c.enterRound be ⟨0, be.number be.lastProposal + 1⟩ false 0

end Core

end Xdchain.Qbft
