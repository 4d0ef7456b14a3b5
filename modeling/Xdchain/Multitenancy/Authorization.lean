import Mathlib.Data.List.Basic

/-! # Private-state authorization of a token

`multitenancy/authorization.go`: the authorities of a pre-authenticated
token are URLs, and one of scheme `psi` grants the private state its host
names. `IsPSIAuthorized` compares a requested identifier with those hosts
under `strings.EqualFold`; `ExtractPSI` picks the one identifier a token
grants. `url.Parse` and `strings.EqualFold` belong to the standard library:
the model takes them as parameters (`urlParse` gives the scheme and host the
checks read, `none` for a parse error), so that every result here holds of
whichever functions the library provides. -/

namespace Xdchain.Multitenancy

/-- What the checks read of a parsed `url.URL`. -/
structure URL where
  scheme : String
  host : String
deriving DecidableEq, Repr

structure GrantedAuthority where
  service : String
  method : String
  raw : String
deriving DecidableEq, Repr

/-- `proto.PreAuthenticatedAuthenticationToken`: its expiry, `none` when
`ptypes.Timestamp` rejects it, and its authorities. -/
structure Token where
  expiredAt : Option Nat
  authorities : List GrantedAuthority
deriving DecidableEq, Repr

/-- `ErrNotAuthorized`, `ErrPSIFoundMultiple` and `ErrPSINotFound`. -/
inductive Error where
  | notAuthorized
  | psiFoundMultiple
  | psiNotFound
deriving DecidableEq, Repr

def schemePSI : String := "psi"

section

variable (urlParse : String → Option URL) (equalFold : String → String → Bool)

/-- The test `IsPSIAuthorized` makes of one authority. -/
def matchesPSI (psi : String) (granted : GrantedAuthority) : Bool :=
  match urlParse granted.raw with
  | none => false
  | some grantedValue => equalFold schemePSI grantedValue.scheme && equalFold psi grantedValue.host

/-- `IsPSIAuthorized`: some authority names `psi` up to case. Its error
result is always `nil`. -/
def isPSIAuthorized (authToken : Token) (psi : String) : Bool :=
  authToken.authorities.any (matchesPSI urlParse equalFold psi)

/-- The loop of `ExtractPSI`, with its two accumulators. -/
def extractPSIFrom (found : Bool) (authorizedPSI : String) : List GrantedAuthority → Except Error String
  | [] => if found then .ok authorizedPSI else .error .psiNotFound
  | granted :: rest =>
    match urlParse granted.raw with
    | none => extractPSIFrom found authorizedPSI rest
    | some grantedValue =>
      if grantedValue.scheme ≠ schemePSI then extractPSIFrom found authorizedPSI rest
      -- already captured
      else if grantedValue.host = authorizedPSI then extractPSIFrom found authorizedPSI rest
      else if found then .error .psiFoundMultiple
      else extractPSIFrom true grantedValue.host rest

/-- `ExtractPSI`: the single private state the token grants. -/
def extractPSI (authToken : Token) : Except Error String :=
  extractPSIFrom urlParse false "" authToken.authorities

/-- The token has an authority `psi://psi`: the private state is named by
the host of one of its authorities, byte for byte. -/
def GrantsPSI (authToken : Token) (psi : String) : Prop :=
  ∃ granted ∈ authToken.authorities, urlParse granted.raw = some ⟨schemePSI, psi⟩

instance (authToken : Token) (psi : String) : Decidable (GrantsPSI urlParse authToken psi) :=
  inferInstanceAs (Decidable (∃ granted ∈ authToken.authorities, _))

theorem isPSIAuthorized_iff {authToken : Token} {psi : String} :
    isPSIAuthorized urlParse equalFold authToken psi = true ↔
      ∃ granted ∈ authToken.authorities, ∃ grantedValue, urlParse granted.raw = some grantedValue ∧
        equalFold schemePSI grantedValue.scheme = true ∧ equalFold psi grantedValue.host = true := by
  simp only [isPSIAuthorized, List.any_eq_true]
  refine exists_congr fun granted => and_congr_right fun _ => ?_
  unfold matchesPSI
  cases urlParse granted.raw with
  | none => simp
  | some grantedValue => simp

/-- What `ExtractPSI`'s loop returns is its accumulator, when it had already
found one, or the host of a `psi` authority it reads. -/
theorem extractPSIFrom_sound :
    ∀ {found : Bool} {authorizedPSI psi : String} {rest : List GrantedAuthority},
      extractPSIFrom urlParse found authorizedPSI rest = .ok psi →
        (found = true ∧ psi = authorizedPSI) ∨ ∃ granted ∈ rest, urlParse granted.raw = some ⟨schemePSI, psi⟩
  | found, authorizedPSI, psi, [], h => by
    unfold extractPSIFrom at h
    split at h
    · cases h
      exact .inl ⟨by assumption, rfl⟩
    · cases h
  | found, authorizedPSI, psi, granted :: rest, h => by
    -- a result of the rest of the loop comes from the rest, or is this step's accumulator
    have later : ∀ {found' authorizedPSI'}, extractPSIFrom urlParse found' authorizedPSI' rest = .ok psi →
        (found' = true ∧ psi = authorizedPSI') ∨
          ∃ g ∈ granted :: rest, urlParse g.raw = some ⟨schemePSI, psi⟩ := fun h' =>
      (extractPSIFrom_sound h').imp id fun ⟨g, hg, hu⟩ => ⟨g, List.mem_cons_of_mem _ hg, hu⟩
    unfold extractPSIFrom at h
    split at h
    · exact later h
    · rename_i grantedValue hparse
      split at h
      · exact later h
      · rename_i hscheme
        split at h
        · exact later h
        · split at h
          · cases h
          · rcases later h with ⟨-, rfl⟩ | hfound
            · refine .inr ⟨granted, List.mem_cons_self, ?_⟩
              rw [hparse, ← not_not.1 hscheme]
            · exact .inr hfound

/-- `ExtractPSI` returns a private state the token grants by name. -/
theorem extractPSI_grants {authToken : Token} {psi : String}
    (h : extractPSI urlParse authToken = .ok psi) : GrantsPSI urlParse authToken psi := by
  rcases extractPSIFrom_sound urlParse h with ⟨hfound, -⟩ | hgrant
  · cases hfound
  · exact hgrant

end

end Xdchain.Multitenancy
