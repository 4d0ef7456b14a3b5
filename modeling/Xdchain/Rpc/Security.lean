import Xdchain.Multitenancy.Authorization
import Xdchain.Lib.ErrState
import Mathlib.Data.List.TakeDrop
import Mathlib.Data.List.TakeWhile

/-! # Authorizing an RPC call

`rpc/server.go`, `rpc/security.go` and `rpc/handler.go`. An HTTP request is
authenticated once (`Server.authenticateHttpRequest`): the connection's
security context records the private state the request names, and either
the token the authentication manager returned or the error it gave. Every
call on the connection is then checked against that context (`secureCall`)
before `handleCall` looks its method up. A context is the record of the
values `context.WithValue` put in it; the authentication manager is the
plugin's, given by its answers; `time.Now` is the time `now` of the call.

A call reaches a callback only after the token passed the expiry and access
checks, and, with multitenancy, with the private state of the request or of
the token's single `psi` authority (`handleCall_authorized`). -/

namespace Xdchain.Rpc
open Xdchain.Multitenancy (URL GrantedAuthority Token GrantsPSI isPSIAuthorized)

def defaultPrivateStateIdentifier : String := "private"

def serviceMethodSeparator : String := "_"

/-- The values of a security context: `ctxIsMultitenant`,
`ctxAuthenticationError` (the message of the `securityError`), the
pre-authenticated token, `ctxRequestPrivateStateIdentifier` and
`ctxPrivateStateIdentifier`. -/
structure SecurityContext where
  isMultitenant : Bool
  authenticationError : Option String
  token : Option Token
  requestPSI : Option String
  psi : Option String
deriving DecidableEq, Repr

def background : SecurityContext := ⟨false, none, none, none, none⟩

/-- What the code reads of an `http.Request`: the `Authorization` header, the
private-state header and the private-state query parameter, each `""` when
absent, as `Header.Get` and `Query().Get` return. -/
structure HttpRequest where
  authorization : String
  psiHeader : String
  psiQuery : String
deriving DecidableEq, Repr

/-- The plugin's `security.AuthenticationManager`: its answer to `IsEnabled`
and its answer to `Authenticate` for each token. -/
structure AuthenticationManager where
  isEnabled : Except String Bool
  authenticate : String → Except String Token

structure Server where
  isMultitenant : Bool
  authenticationManager : AuthenticationManager

def extractToken (r : HttpRequest) : Option String :=
  if r.authorization ≠ "" then some r.authorization else none

/-- `extractPSI`: the header, then the query parameter, else the default
private state with the signal that the request named none. -/
def extractPSI (r : HttpRequest) : String × Bool :=
  let psi := if r.psiHeader.length = 0 then r.psiQuery else r.psiHeader
  if psi.length = 0 then (defaultPrivateStateIdentifier, false) else (psi, true)

def authenticateHttpRequest (ctx : SecurityContext) (r : HttpRequest) (authManager : AuthenticationManager) :
    SecurityContext :=
  let (userProvidedPSI, found) := extractPSI r
  let securityContext := if found then { ctx with requestPSI := some userProvidedPSI } else ctx
  match authManager.isEnabled with
  -- a failure of the plugin: no request goes unchecked
  | .error _ => { securityContext with authenticationError := some "internal error" }
  | .ok false => { securityContext with psi := some userProvidedPSI }
  | .ok true =>
    match extractToken r with
    | some token =>
      match authManager.authenticate token with
      | .error err => { securityContext with authenticationError := some err }
      | .ok authToken => { securityContext with token := some authToken }
    | none => { securityContext with authenticationError := some "missing access token" }

/-- `Server.authenticateHttpRequest`: the security context of a connection. -/
def Server.authenticateHttpRequest (s : Server) (r : HttpRequest) : SecurityContext :=
  Rpc.authenticateHttpRequest { background with isMultitenant := s.isMultitenant } r s.authenticationManager

/-- The errors a call can be refused with: a `securityError` by its message,
the invalid timestamp of a token, and the errors of `multitenancy`. -/
inductive CallError where
  | security (message : String)
  | invalidTimestamp
  | multitenancy (err : Multitenancy.Error)
deriving DecidableEq, Repr

/-- `verifyExpiration` of a token. -/
def verifyExpiration (now : Nat) (token : Token) : Except CallError Unit :=
  match token.expiredAt with
  | none => .error .invalidTimestamp
  | some expiredAt => if now < expiredAt then .ok () else .error (.security "token expired")

/-- `verifyAccess`: the first authority that grants the service and the
method, each by name or by `*`. -/
def verifyAccess (service method : String) : List GrantedAuthority → Except CallError Unit
  | [] => .error (.security (service ++ serviceMethodSeparator ++ method ++ " - access denied"))
  | authority :: authorities =>
    if authority.service = "*" ∧ authority.method = "*" then .ok ()
    else if authority.service = "*" ∧ authority.method = method then .ok ()
    else if authority.service = service ∧ authority.method = "*" then .ok ()
    else if authority.service = service ∧ authority.method = method then .ok ()
    else verifyAccess service method authorities

def splitN (method : String) : List String :=
  match method.toList.span (· ≠ '_') with
  | (service, []) => [String.ofList service]
  | (service, _ :: name) => [String.ofList service, String.ofList name]

section

variable (urlParse : String → Option URL) (equalFold : String → String → Bool)

/-- The access check of `SecureCall`: a method without a separator is only
logged. -/
def verifyMethodAccess (method : String) (authToken : Token) : Except CallError Unit :=
  match splitN method with
  | [service, name] => verifyAccess service name authToken.authorities
  | _ => pure ()

/-- The private state `SecureCall` authorizes with multitenancy: the one the
request names if the token grants it, else the token's single one. -/
def authorizedPSI (secCtx : SecurityContext) (authToken : Token) : Except CallError String :=
  match secCtx.requestPSI with
  | none => (Multitenancy.extractPSI urlParse authToken).mapError .multitenancy
  | some requestPSI =>
    if isPSIAuthorized urlParse equalFold authToken requestPSI then pure requestPSI
    else throw (.multitenancy .notAuthorized)

/-- `SecureCall`, given what the connection's resolver returns. -/
def secureCall (now : Nat) (resolved : Option SecurityContext) (method : String) :
    Except CallError SecurityContext :=
  match resolved with
  | none => .ok background
  | some secCtx =>
    match secCtx.authenticationError with
    | some err => .error (.security err)
    | none =>
      match secCtx.token with
      | none => .ok secCtx
      | some authToken => do
        verifyExpiration now authToken
        verifyMethodAccess method authToken
        if secCtx.isMultitenant then
          let psi ← authorizedPSI urlParse equalFold secCtx authToken
          pure { secCtx with psi := some psi }
        else pure secCtx

/-- What the call context `cp.ctx` carries to the method. -/
structure CallContext where
  token : Option Token
  psi : Option String
deriving DecidableEq, Repr

/-- What `handleCall` reads of a `jsonrpcMessage`: the method and the raw ID. -/
structure Message where
  method : String
  id : String
deriving DecidableEq, Repr

def Message.isSubscribe (msg : Message) : Bool := "_subscribe".toList.isSuffixOf msg.method.toList

def Message.isUnsubscribe (msg : Message) : Bool := "_unsubscribe".toList.isSuffixOf msg.method.toList

/-- `decodePSI`: the private state before the `/` of a quoted ID. -/
def decodePSI (id : String) : String :=
  match id.toList with
  | '"' :: rest =>
    if rest.getLast? = some '"' ∧ '/' ∈ rest then String.ofList (rest.takeWhile (· ≠ '/'))
    else defaultPrivateStateIdentifier
  | _ => defaultPrivateStateIdentifier

variable {Callback : Type}

def callback (reg : String → String → Option Callback) (method : String) : Option Callback :=
  match splitN method with
  | [service, name] => reg service name
  | _ => none

/-- Where `handleCall` goes: the security error it answers, `handleSubscribe`,
the callback it runs, or the method-not-found answer. -/
inductive CallOutcome (Callback : Type) where
  | securityError (err : CallError)
  | subscribe (ctx : CallContext)
  | call (callb : Callback) (ctx : CallContext)
  | methodNotFound

/-- The call context after `SecureCall`: its token and private state are
copied in. -/
def enrich (cp : CallContext) (secCtx : SecurityContext) : CallContext :=
  let cp := match secCtx.token with
    | some t => { cp with token := some t }
    | none => cp
  match secCtx.psi with
  | some psi => { cp with psi := some psi }
  | none => cp

/-- `handler.handleCall` up to running the callback: `conn` is what the
connection's `SecurityContextResolver` resolves to, `none` for a connection
that is none. -/
def handleCall (now : Nat) (conn : Option (Option SecurityContext)) (reg : String → String → Option Callback)
    (unsubscribeCb : Callback) (cp : CallContext) (msg : Message) : CallOutcome Callback :=
  let secured : Except CallError CallContext :=
    match conn with
    | none => .ok cp
    | some resolved => (secureCall urlParse equalFold now resolved msg.method).map (enrich cp)
  match secured with
  | .error err => .securityError err
  | .ok cp =>
    -- the private state of the request ID, for the transports that carry it there
    let cp := match cp.psi with
      | some _ => cp
      | none => { cp with psi := some (decodePSI msg.id) }
    if msg.isSubscribe then .subscribe cp
    else
      let callb := if msg.isUnsubscribe then some unsubscribeCb else callback reg msg.method
      match callb with
      | none => .methodNotFound
      | some callb => .call callb cp

end

/-! ## What a call that gets through has passed -/

/-- An authority grants a service's method: each by name or by `*`. -/
def Grants (service method : String) (authority : GrantedAuthority) : Prop :=
  (authority.service = "*" ∨ authority.service = service) ∧ (authority.method = "*" ∨ authority.method = method)

theorem verifyAccess_eq_ok_iff {service method : String} :
    ∀ {authorities : List GrantedAuthority},
      verifyAccess service method authorities = .ok () ↔ ∃ authority ∈ authorities, Grants service method authority
  | [] => by simp [verifyAccess]
  | authority :: authorities => by
    -- the four tests of one authority are the two alternatives of `Grants`
    have hgrants : Grants service method authority ↔
        (authority.service = "*" ∧ authority.method = "*") ∨ (authority.service = "*" ∧ authority.method = method) ∨
          (authority.service = service ∧ authority.method = "*") ∨
            (authority.service = service ∧ authority.method = method) := by
      unfold Grants
      tauto
    rw [verifyAccess, List.exists_mem_cons_iff, ← verifyAccess_eq_ok_iff, hgrants]
    split_ifs with h1 h2 h3 h4
    · exact iff_of_true rfl (.inl (.inl h1))
    · exact iff_of_true rfl (.inl (.inr (.inl h2)))
    · exact iff_of_true rfl (.inl (.inr (.inr (.inl h3))))
    · exact iff_of_true rfl (.inl (.inr (.inr (.inr h4))))
    · simp only [h1, h2, h3, h4, false_or]

theorem verifyExpiration_eq_ok_iff {now : Nat} {token : Token} :
    verifyExpiration now token = .ok () ↔ ∃ expiredAt, token.expiredAt = some expiredAt ∧ now < expiredAt := by
  unfold verifyExpiration
  cases token.expiredAt with
  | none => simp
  | some expiredAt => by_cases h : now < expiredAt <;> simp [h]

/-- A method with a separator splits in two. -/
theorem splitN_of_mem {method : String} (h : '_' ∈ method.toList) :
    ∃ service name, splitN method = [service, name] := by
  have hne : method.toList.dropWhile (· ≠ '_') ≠ [] := by
    intro hnil
    have := List.dropWhile_eq_nil_iff.1 hnil '_' h
    simp at this
  obtain ⟨c, rest, hcr⟩ := List.exists_cons_of_ne_nil hne
  unfold splitN
  rw [List.span_eq_takeWhile_dropWhile, hcr]
  exact ⟨_, _, rfl⟩

theorem mem_of_isSuffixOf {suffix : String} {method : String} (hsep : '_' ∈ suffix.toList)
    (h : suffix.toList.isSuffixOf method.toList = true) : '_' ∈ method.toList :=
  (List.isSuffixOf_iff_suffix.1 h).subset hsep

/-- The subscription methods carry a separator. -/
theorem splitN_of_isSubscribe {msg : Message} (h : msg.isSubscribe = true) :
    ∃ service name, splitN msg.method = [service, name] :=
  splitN_of_mem (mem_of_isSuffixOf (by decide) h)

theorem splitN_of_isUnsubscribe {msg : Message} (h : msg.isUnsubscribe = true) :
    ∃ service name, splitN msg.method = [service, name] :=
  splitN_of_mem (mem_of_isSuffixOf (by decide) h)

theorem splitN_of_callback {Callback : Type} {reg : String → String → Option Callback} {method : String}
    {callb : Callback} (h : callback reg method = some callb) :
    ∃ service name, splitN method = [service, name] ∧ reg service name = some callb := by
  unfold callback at h
  split at h
  · exact ⟨_, _, by assumption, h⟩
  · cases h

section

variable {urlParse : String → Option URL} {equalFold : String → String → Bool}

open Xdchain.Lib.ErrState (bind_eq_ok map_eq_ok mapError_eq_ok)

theorem verifyMethodAccess_eq_ok {method : String} {authToken : Token}
    (h : verifyMethodAccess method authToken = .ok ()) :
    ∀ service name, splitN method = [service, name] → verifyAccess service name authToken.authorities = .ok () := by
  intro service name hsplit
  rw [verifyMethodAccess, hsplit] at h
  exact h

theorem authorizedPSI_eq_ok {secCtx : SecurityContext} {authToken : Token} {psi : String}
    (h : authorizedPSI urlParse equalFold secCtx authToken = .ok psi) :
    (secCtx.requestPSI = some psi ∧ isPSIAuthorized urlParse equalFold authToken psi = true) ∨
      (secCtx.requestPSI = none ∧ Multitenancy.extractPSI urlParse authToken = .ok psi) := by
  unfold authorizedPSI at h
  cases hreq : secCtx.requestPSI with
  | none =>
    rw [hreq] at h
    exact .inr ⟨rfl, mapError_eq_ok.1 h⟩
  | some requestPSI =>
    simp only [hreq] at h
    by_cases hauth : isPSIAuthorized urlParse equalFold authToken requestPSI = true
    · rw [if_pos hauth] at h
      cases h
      exact .inl ⟨rfl, hauth⟩
    · rw [if_neg hauth] at h
      cases h

/-- What `SecureCall` has checked of a context that holds a token when it
lets the call through. -/
theorem secureCall_eq_ok {now : Nat} {secCtx secCtx' : SecurityContext} {method : String} {authToken : Token}
    (hnoerr : secCtx.authenticationError = none) (htoken : secCtx.token = some authToken)
    (h : secureCall urlParse equalFold now (some secCtx) method = .ok secCtx') :
    verifyExpiration now authToken = .ok () ∧
      (∀ service name, splitN method = [service, name] →
        verifyAccess service name authToken.authorities = .ok ()) ∧
      secCtx'.token = some authToken ∧
      (secCtx.isMultitenant = true → ∃ psi, secCtx'.psi = some psi ∧
        ((secCtx.requestPSI = some psi ∧ isPSIAuthorized urlParse equalFold authToken psi = true) ∨
          (secCtx.requestPSI = none ∧ Multitenancy.extractPSI urlParse authToken = .ok psi))) := by
  simp only [secureCall, hnoerr, htoken] at h
  obtain ⟨⟨⟩, hexp, h⟩ := bind_eq_ok.1 h
  obtain ⟨⟨⟩, haccess, h⟩ := bind_eq_ok.1 h
  refine ⟨hexp, verifyMethodAccess_eq_ok haccess, ?_⟩
  cases hmt : secCtx.isMultitenant with
  | false =>
    rw [hmt] at h
    cases h
    exact ⟨htoken, fun h => by cases h⟩
  | true =>
    rw [hmt, if_pos rfl] at h
    obtain ⟨psi, hpsi, h⟩ := bind_eq_ok.1 h
    cases h
    exact ⟨rfl, fun _ => ⟨psi, rfl, authorizedPSI_eq_ok hpsi⟩⟩

/-- `SecureCall` refuses a context that holds an authentication error. -/
theorem authenticationError_of_secureCall {now : Nat} {secCtx secCtx' : SecurityContext} {method : String}
    (h : secureCall urlParse equalFold now (some secCtx) method = .ok secCtx') :
    secCtx.authenticationError = none := by
  simp only [secureCall] at h
  cases hae : secCtx.authenticationError with
  | none => rfl
  | some err =>
    rw [hae] at h
    cases h

theorem token_enrich {cp : CallContext} {secCtx : SecurityContext} {t : Token} (h : secCtx.token = some t) :
    (enrich cp secCtx).token = some t := by
  unfold enrich
  simp only [h]
  split <;> rfl

theorem psi_enrich {cp : CallContext} {secCtx : SecurityContext} {psi : String} (h : secCtx.psi = some psi) :
    (enrich cp secCtx).psi = some psi := by
  unfold enrich
  rw [h]

variable {Callback : Type}

/-- A call `handleCall` lets through passed `SecureCall`, names a service and
a method, and runs with the token and the private state `SecureCall` gave. -/
theorem handleCall_passed {now : Nat} {resolved : Option SecurityContext} {reg : String → String → Option Callback}
    {unsubscribeCb : Callback} {cp cp' : CallContext} {msg : Message}
    (h : handleCall urlParse equalFold now (some resolved) reg unsubscribeCb cp msg = .subscribe cp' ∨
      ∃ callb, handleCall urlParse equalFold now (some resolved) reg unsubscribeCb cp msg = .call callb cp') :
    ∃ secCtx, secureCall urlParse equalFold now resolved msg.method = .ok secCtx ∧
      (∃ service name, splitN msg.method = [service, name]) ∧
      (∀ t, secCtx.token = some t → cp'.token = some t) ∧ (∀ psi, secCtx.psi = some psi → cp'.psi = some psi) := by
  cases hsec : secureCall urlParse equalFold now resolved msg.method with
  | error err =>
    simp only [handleCall, hsec, Except.map] at h
    rcases h with h | ⟨_, h⟩ <;> cases h
  | ok secCtx =>
    -- the fallback to the request ID keeps a private state that is there
    have hkeep : ∀ c : CallContext, (∀ psi, c.psi = some psi →
        (match c.psi with
          | some _ => c
          | none => { c with psi := some (decodePSI msg.id) }).psi = some psi) ∧
        (match c.psi with
          | some _ => c
          | none => { c with psi := some (decodePSI msg.id) }).token = c.token := by
      intro c
      rcases c with ⟨token, _ | psi⟩ <;> simp
    refine ⟨secCtx, rfl, ?_⟩
    simp only [handleCall, hsec, Except.map] at h
    generalize hc : (match (enrich cp secCtx).psi with
      | some _ => enrich cp secCtx
      | none => { enrich cp secCtx with psi := some (decodePSI msg.id) }) = c at h
    have hc' := hkeep (enrich cp secCtx)
    rw [hc] at hc'
    -- `cp'` is `c`, reached through a subscription or a callback
    have hreach : cp' = c ∧ ∃ service name, splitN msg.method = [service, name] := by
      by_cases hsub : msg.isSubscribe = true
      · rw [if_pos hsub] at h
        rcases h with h | ⟨_, h⟩
        · cases h
          exact ⟨rfl, splitN_of_isSubscribe hsub⟩
        · cases h
      · rw [if_neg hsub] at h
        rcases h with h | ⟨callb, h⟩
        · split at h <;> cases h
        · by_cases hunsub : msg.isUnsubscribe = true
          · rw [if_pos hunsub] at h
            cases h
            exact ⟨rfl, splitN_of_isUnsubscribe hunsub⟩
          · rw [if_neg hunsub] at h
            split at h
            · cases h
            · rename_i callb' hcallb
              cases h
              obtain ⟨service, name, hsplit, -⟩ := splitN_of_callback hcallb
              exact ⟨rfl, service, name, hsplit⟩
    obtain ⟨rfl, hsplit⟩ := hreach
    refine ⟨hsplit, fun t ht => ?_, fun psi hpsi => hc'.1 psi (psi_enrich hpsi)⟩
    rw [hc'.2]
    exact token_enrich ht

end

/-- The context of a connection whose authentication manager is enabled:
the request's private state, and the token it authenticated unless an
error is recorded. -/
theorem Server.authenticateHttpRequest_of_enabled {s : Server} {r : HttpRequest}
    (henabled : s.authenticationManager.isEnabled = .ok true) :
    (s.authenticateHttpRequest r).isMultitenant = s.isMultitenant ∧
      (∀ psi, (s.authenticateHttpRequest r).requestPSI = some psi ↔ extractPSI r = (psi, true)) ∧
      ((s.authenticateHttpRequest r).authenticationError = none →
        ∃ token authToken, extractToken r = some token ∧ s.authenticationManager.authenticate token = .ok authToken ∧
          (s.authenticateHttpRequest r).token = some authToken) := by
  unfold Server.authenticateHttpRequest Rpc.authenticateHttpRequest
  rw [henabled]
  obtain ⟨userProvidedPSI, found⟩ := extractPSI r
  dsimp only
  cases extractToken r with
  | none => cases found <;> simp [background]
  | some token =>
    cases hauth : s.authenticationManager.authenticate token with
    | error err => cases found <;> simp [background, hauth]
    | ok authToken => cases found <;> simp [background, hauth]

section

variable {urlParse : String → Option URL} {equalFold : String → String → Bool} {Callback : Type}

/-- A call on a connection whose authentication manager is enabled reaches a
subscription or a callback only with the token the request authenticated,
unexpired and granting the method; with multitenancy, it runs with the
private state the request names, which the token grants up to case, or,
when the request names none, the one private state the token names. -/
theorem handleCall_authorized {s : Server} {r : HttpRequest}
    (henabled : s.authenticationManager.isEnabled = .ok true) {now : Nat}
    {reg : String → String → Option Callback} {unsubscribeCb : Callback} {cp cp' : CallContext} {msg : Message}
    (h : handleCall urlParse equalFold now (some (some (s.authenticateHttpRequest r))) reg unsubscribeCb cp msg =
        .subscribe cp' ∨
      ∃ callb, handleCall urlParse equalFold now (some (some (s.authenticateHttpRequest r))) reg unsubscribeCb cp
        msg = .call callb cp') :
    ∃ token authToken, extractToken r = some token ∧ s.authenticationManager.authenticate token = .ok authToken ∧
      cp'.token = some authToken ∧
      (∃ expiredAt, authToken.expiredAt = some expiredAt ∧ now < expiredAt) ∧
      (∃ service name, splitN msg.method = [service, name] ∧
        ∃ authority ∈ authToken.authorities, Grants service name authority) ∧
      (s.isMultitenant = true → ∃ psi, cp'.psi = some psi ∧
        ((extractPSI r = (psi, true) ∧ isPSIAuthorized urlParse equalFold authToken psi = true) ∨
          ((extractPSI r).2 = false ∧ GrantsPSI urlParse authToken psi))) := by
  obtain ⟨secCtx, hsec, ⟨service, name, hsplit⟩, htok, hpsi⟩ := handleCall_passed h
  obtain ⟨hmt, hreq, hauth⟩ := Server.authenticateHttpRequest_of_enabled (r := r) henabled
  have hnoerr := authenticationError_of_secureCall hsec
  obtain ⟨token, authToken, hextract, hauthenticate, htoken⟩ := hauth hnoerr
  obtain ⟨hexp, haccess, htoken', hpsi'⟩ := secureCall_eq_ok hnoerr htoken hsec
  refine ⟨token, authToken, hextract, hauthenticate, htok _ htoken', verifyExpiration_eq_ok_iff.1 hexp,
    ⟨service, name, hsplit, verifyAccess_eq_ok_iff.1 (haccess service name hsplit)⟩, fun hmulti => ?_⟩
  obtain ⟨psi, hp, hcases⟩ := hpsi' (hmt.trans hmulti)
  refine ⟨psi, hpsi psi hp, ?_⟩
  rcases hcases with ⟨hrq, hok⟩ | ⟨hrq, hext⟩
  · exact .inl ⟨(hreq psi).1 hrq, hok⟩
  · refine .inr ⟨?_, Multitenancy.extractPSI_grants urlParse hext⟩
    -- the context records no requested private state, so the request named none
    cases hfound : (extractPSI r).2 with
    | false => rfl
    | true =>
      have hnamed := (hreq (extractPSI r).1).2 (Prod.ext rfl hfound)
      rw [hrq] at hnamed
      cases hnamed

end

/-- A token granting every method and the private state `ps1`, for a request
that names `PS1` on a server with multitenancy. -/
theorem handleCall_ps1_token_PS1_request {urlParse : String → Option URL} {equalFold : String → String → Bool}
    (hparse : urlParse "psi://ps1" = some ⟨"psi", "ps1"⟩) (hscheme : equalFold "psi" "psi" = true)
    (hfold : equalFold "PS1" "ps1" = true) :
    handleCall urlParse equalFold 0
        (some (some (Server.authenticateHttpRequest
          ⟨true, ⟨.ok true, fun _ => .ok ⟨some 1, [⟨"*", "*", "psi://ps1"⟩]⟩⟩⟩ ⟨"token", "PS1", ""⟩)))
        (fun _ _ => some ()) () ⟨none, none⟩ ⟨"eth_blockNumber", "1"⟩ =
      .call () ⟨some ⟨some 1, [⟨"*", "*", "psi://ps1"⟩]⟩, some "PS1"⟩ := by
  have hsplit : splitN "eth_blockNumber" = ["eth", "blockNumber"] := by decide
  have hsub : (⟨"eth_blockNumber", "1"⟩ : Message).isSubscribe = false := by decide
  have hunsub : (⟨"eth_blockNumber", "1"⟩ : Message).isUnsubscribe = false := by decide
  have hpsi : extractPSI ⟨"token", "PS1", ""⟩ = ("PS1", true) := by decide
  simp [handleCall, secureCall, Server.authenticateHttpRequest, authenticateHttpRequest, hpsi, extractToken,
    verifyExpiration, verifyMethodAccess, hsplit, verifyAccess, authorizedPSI, isPSIAuthorized,
    Multitenancy.matchesPSI, Multitenancy.schemePSI, hparse, hscheme, hfold, enrich, hsub, hunsub, callback,
    background, bind, Except.bind, Except.map, pure, Except.pure]

/-- The string library that `handleCall_ps1_token_PS1_request` assumes: a
parser that reads `psi://ps1` and case folding on ASCII. -/
theorem ascii_library_reads_ps1 :
    (fun raw => if raw = "psi://ps1" then some (⟨"psi", "ps1"⟩ : URL) else none) "psi://ps1" = some ⟨"psi", "ps1"⟩ ∧
      (fun a b : String => a.toList.map Char.toLower == b.toList.map Char.toLower) "psi" "psi" = true ∧
      (fun a b : String => a.toList.map Char.toLower == b.toList.map Char.toLower) "PS1" "ps1" = true :=
  ⟨rfl, by decide, by decide⟩

/-- A token for the private state `ps1` lets a request for `PS1` through, and
the call runs under the spelling of the request, which no authority of the
token names. -/
theorem handleCall_runs_unauthorized_spelling (urlParse : String → Option URL)
    (equalFold : String → String → Bool) (hparse : urlParse "psi://ps1" = some ⟨"psi", "ps1"⟩)
    (hscheme : equalFold "psi" "psi" = true) (hfold : equalFold "PS1" "ps1" = true) :
    handleCall urlParse equalFold 0
        (some (some (Server.authenticateHttpRequest
          ⟨true, ⟨.ok true, fun _ => .ok ⟨some 1, [⟨"*", "*", "psi://ps1"⟩]⟩⟩⟩ ⟨"token", "PS1", ""⟩)))
        (fun _ _ => some ()) () ⟨none, none⟩ ⟨"eth_blockNumber", "1"⟩ =
      .call () ⟨some ⟨some 1, [⟨"*", "*", "psi://ps1"⟩]⟩, some "PS1"⟩ ∧
    ¬ GrantsPSI urlParse ⟨some 1, [⟨"*", "*", "psi://ps1"⟩]⟩ "PS1" := by
  refine ⟨handleCall_ps1_token_PS1_request hparse hscheme hfold, ?_⟩
  simp [GrantsPSI, Multitenancy.schemePSI, hparse]

theorem handleCall_runs_unauthorized_spelling_ascii :
    let urlParse : String → Option URL := fun raw => if raw = "psi://ps1" then some ⟨"psi", "ps1"⟩ else none
    let equalFold : String → String → Bool := fun a b => a.toList.map Char.toLower == b.toList.map Char.toLower
    (urlParse "psi://ps1" = some ⟨"psi", "ps1"⟩ ∧ equalFold "psi" "psi" = true ∧ equalFold "PS1" "ps1" = true) ∧
    handleCall urlParse equalFold 0
        (some (some (Server.authenticateHttpRequest
          ⟨true, ⟨.ok true, fun _ => .ok ⟨some 1, [⟨"*", "*", "psi://ps1"⟩]⟩⟩⟩ ⟨"token", "PS1", ""⟩)))
        (fun _ _ => some ()) () ⟨none, none⟩ ⟨"eth_blockNumber", "1"⟩ =
      .call () ⟨some ⟨some 1, [⟨"*", "*", "psi://ps1"⟩]⟩, some "PS1"⟩ ∧
    ¬ GrantsPSI urlParse ⟨some 1, [⟨"*", "*", "psi://ps1"⟩]⟩ "PS1" :=
  ⟨ascii_library_reads_ps1, handleCall_runs_unauthorized_spelling _ _ ascii_library_reads_ps1.1
    ascii_library_reads_ps1.2.1 ascii_library_reads_ps1.2.2⟩

/-- `handleCall_authorized` on the call above: the request's `PS1` is granted
by the token's `ps1` up to case. -/
theorem handleCall_authorized_of_ps1 :
    let urlParse : String → Option URL := fun raw => if raw = "psi://ps1" then some ⟨"psi", "ps1"⟩ else none
    let equalFold : String → String → Bool := fun a b => a.toList.map Char.toLower == b.toList.map Char.toLower
    let s : Server := ⟨true, ⟨.ok true, fun _ => .ok ⟨some 1, [⟨"*", "*", "psi://ps1"⟩]⟩⟩⟩
    let r : HttpRequest := ⟨"token", "PS1", ""⟩
    let msg : Message := ⟨"eth_blockNumber", "1"⟩
    let cp' : CallContext := ⟨some ⟨some 1, [⟨"*", "*", "psi://ps1"⟩]⟩, some "PS1"⟩
    (s.authenticationManager.isEnabled = .ok true ∧
      ∃ callb, handleCall urlParse equalFold 0 (some (some (s.authenticateHttpRequest r))) (fun _ _ => some ()) ()
        ⟨none, none⟩ msg = .call callb cp') ∧
    ∃ token authToken, extractToken r = some token ∧ s.authenticationManager.authenticate token = .ok authToken ∧
      cp'.token = some authToken ∧
      (∃ expiredAt, authToken.expiredAt = some expiredAt ∧ 0 < expiredAt) ∧
      (∃ service name, splitN msg.method = [service, name] ∧
        ∃ authority ∈ authToken.authorities, Grants service name authority) ∧
      (s.isMultitenant = true → ∃ psi, cp'.psi = some psi ∧
        ((extractPSI r = (psi, true) ∧ isPSIAuthorized urlParse equalFold authToken psi = true) ∨
          ((extractPSI r).2 = false ∧ GrantsPSI urlParse authToken psi))) :=
  have hcall := handleCall_ps1_token_PS1_request ascii_library_reads_ps1.1 ascii_library_reads_ps1.2.1
    ascii_library_reads_ps1.2.2
  ⟨⟨rfl, (), hcall⟩, handleCall_authorized rfl (.inr ⟨(), hcall⟩)⟩

end Xdchain.Rpc
