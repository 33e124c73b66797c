import Mathlib.Data.Char
import Mathlib.Data.Finset.Sort
import Mathlib.Data.List.Lex
import Eka.Retrieval.Payload

/-!
# Tokens

`identity/infrastructure/jwt.py` and `get_current_identity` of `api/security.py`. The signature,
the times and the issuer are PyJWT's; what it hands back is a JSON object of any shape with the
required claims, and `verify` makes an identity of it.
-/

namespace Eka

open Py

/-- What `json.loads` makes of a value; floating-point numbers are the interpreter's. -/
inductive ClaimValue (F : Type) where
  | none
  | bool (b : Bool)
  | int (n : Int)
  | float (x : F)
  | str (s : Str)
  | list (items : List (ClaimValue F))
  | dict (items : List (Str × ClaimValue F))

/-- The claims of a token. -/
abbrev Claims (F : Type) := Dict Str (ClaimValue F)

/-- What the tokens take from PyJWT and the interpreter: `jwt.decode` with the token, the secret,
    the algorithms, the issuer and the required claims, `none` for an `InvalidTokenError`; what
    `uuid.UUID` and `repr` of a string need; and `repr` of a float. A decoded token has the
    required claims. -/
structure PyJwt (F : Type) where
  decode : Str → Str → List Str → Str → List Str → Option (Claims F)
  codec : JsonCodec
  reprFloat : F → Str
  requires : ∀ {token secret : Str} {algorithms : List Str} {issuer : Str} {required : List Str}
    {claims : Claims F}, decode token secret algorithms issuer required = some claims →
      ∀ claim ∈ required, (claims.get? claim).isSome

namespace ClaimValue

variable {F : Type} (jwt : PyJwt F)

mutual

/-- `repr(value)`. -/
def repr : ClaimValue F → Str
  | .none => "None".toList
  | .bool b => if b then "True".toList else "False".toList
  | .int n => (toString n).toList
  | .float x => jwt.reprFloat x
  | .str s => jwt.codec.repr s
  | .list items => '[' :: join ", ".toList (reprItems items) ++ [']']
  | .dict items => '\x7b' :: join ", ".toList (reprPairs items) ++ ['\x7d']

def reprItems : List (ClaimValue F) → List Str
  | [] => []
  | item :: items => item.repr :: reprItems items

def reprPairs : List (Str × ClaimValue F) → List Str
  | [] => []
  | (key, value) :: items =>
      (jwt.codec.repr key ++ ": ".toList ++ value.repr) :: reprPairs items

end

/-- `str(value)`: the `repr`, but for a string. -/
def toStr : ClaimValue F → Str
  | .str s => s
  | value => value.repr jwt

end ClaimValue

/-- What comes out of `verify` instead of an identity. -/
inductive VerifyError where
  | authenticationError (message : Str)
  | typeError (message : Str)
  | keyError (key : Str)
  | other (error : Error)

/-- `for r in value`: the elements of a list, the characters of a string and the keys of an
    object; everything else raises a `TypeError`. -/
def ClaimValue.iterate {F : Type} : ClaimValue F → Except VerifyError (List (ClaimValue F))
  | .list items => .ok items
  | .str s => .ok (s.map fun c => .str [c])
  | .dict items => .ok (items.map fun item => .str item.1)
  | .none => .error (.typeError "'NoneType' object is not iterable".toList)
  | .bool _ => .error (.typeError "'bool' object is not iterable".toList)
  | .int _ => .error (.typeError "'int' object is not iterable".toList)
  | .float _ => .error (.typeError "'float' object is not iterable".toList)

/-- `AuthenticatedIdentity` (`identity/domain/identity.py:14-21`). -/
structure AuthenticatedIdentity where
  tenantId : UUID
  subject : Str
  roles : Finset Str
  deriving DecidableEq

/-- `_REQUIRED_CLAIMS` (`jwt.py:19`). -/
def requiredClaims : List Str := ["exp".toList, "sub".toList, "tid".toList]

/-- `JwtTokenVerifier` (`jwt.py:22-26`). -/
structure JwtTokenVerifier where
  secret : Str
  algorithm : Str
  issuer : Str

namespace JwtTokenVerifier

variable {F : Type}

/-- The `jwt.decode` of `verify` (`jwt.py:30-36`). -/
def decode (verifier : JwtTokenVerifier) (jwt : PyJwt F) (token : Str) : Option (Claims F) :=
  jwt.decode token verifier.secret [verifier.algorithm] verifier.issuer requiredClaims

/-- `uuid.UUID(str(payload["tid"]))` with its `except` (`jwt.py:40-43`). -/
def tenant (jwt : PyJwt F) (payload : Claims F) : Except VerifyError UUID :=
  match payload.get? "tid".toList with
  | none => .error (.authenticationError "token has no valid tenant claim".toList)
  | some tid =>
      match UUID.ofStr jwt.codec (tid.toStr jwt) with
      | .ok tenantId => .ok tenantId
      | .error (.valueError _) | .error .keyError =>
          .error (.authenticationError "token has no valid tenant claim".toList)
      | .error e => .error (.other e)

/-- `frozenset(str(r) for r in payload.get("roles", []))` (`jwt.py:45`). -/
def roles (jwt : PyJwt F) (payload : Claims F) : Except VerifyError (Finset Str) :=
  (((payload.get? "roles".toList).getD (.list [])).iterate).map fun items =>
    (items.map (·.toStr jwt)).toFinset

/-- `str(payload["sub"])` (`jwt.py:47`). -/
def subject (jwt : PyJwt F) (payload : Claims F) : Except VerifyError Str :=
  match payload.get? "sub".toList with
  | none => .error (.keyError "sub".toList)
  | some sub => .ok (sub.toStr jwt)

/-- `verify` (`jwt.py:28-48`). -/
def verify (verifier : JwtTokenVerifier) (jwt : PyJwt F) (token : Str) :
    Except VerifyError AuthenticatedIdentity :=
  match verifier.decode jwt token with
  | none => .error (.authenticationError "invalid or expired token".toList)
  | some payload => do
      let tenantId ← tenant jwt payload
      let roles ← roles jwt payload
      let subject ← subject jwt payload
      return ⟨tenantId, subject, roles⟩

end JwtTokenVerifier

/-- `get_current_identity` (`api/security.py:43-58`): the bearer token, or else the one of the
    `X-EKA-Token` header. -/
def getCurrentIdentity {F : Type} (verifier : JwtTokenVerifier) (jwt : PyJwt F)
    (bearer header : Option Str) : Except VerifyError AuthenticatedIdentity :=
  match bearer.or header with
  | none | some [] => .error (.authenticationError "missing bearer token".toList)
  | some token => verifier.verify jwt token

/-- `JwtTokenIssuer` (`jwt.py:51-55`). -/
structure JwtTokenIssuer where
  secret : Str
  algorithm : Str
  issuer : Str

/-- The claims that `issue` encodes (`jwt.py:64-72`), the times in seconds as PyJWT writes them. -/
def JwtTokenIssuer.claims {F : Type} (issuer : Str) (tenantId : UUID) (subject : Str)
    (roles : Finset Str) (now ttlSeconds : Nat) : Claims F where
  items := [("iss".toList, .str issuer), ("sub".toList, .str subject),
    ("tid".toList, .str tenantId.str), ("roles".toList, .list ((roles.sort (· ≤ ·)).map .str)),
    ("iat".toList, .int now), ("exp".toList, .int (now + ttlSeconds : Nat))]
  nodup := by
    show (["iss".toList, "sub".toList, "tid".toList, "roles".toList, "iat".toList,
      "exp".toList] : List Str).Nodup
    decide

/-- The first second after `datetime.max`. -/
def datetimeEnd : Nat := 253402300800

/-- `issue` (`jwt.py:57-73`) around `jwt.encode` of the claims, the secret and the algorithm;
    `none` where that raises, or the sum of the times is no `datetime` any more. -/
def JwtTokenIssuer.issue {F : Type} (issuer : JwtTokenIssuer)
    (encode : Claims F → Str → Str → Option Str) (tenantId : UUID) (subject : Str)
    (roles : Finset Str) (ttlSeconds : Nat) (now : Instant) : Option Str :=
  if now + seconds ttlSeconds < seconds datetimeEnd then
    encode (claims issuer.issuer tenantId subject roles (now / 1000000) ttlSeconds) issuer.secret
      issuer.algorithm
  else none

section Issue

variable {F : Type} {issuer : JwtTokenIssuer} {encode : Claims F → Str → Str → Option Str}
  {tenantId : UUID} {subject : Str} {roles : Finset Str} {ttlSeconds : Nat} {now : Instant}

theorem JwtTokenIssuer.issue_late (h : seconds datetimeEnd ≤ now + seconds ttlSeconds) :
    issuer.issue encode tenantId subject roles ttlSeconds now = none :=
  if_neg (Nat.not_lt.mpr h)

theorem JwtTokenIssuer.issue_eq (h : ¬ seconds datetimeEnd ≤ now + seconds ttlSeconds) :
    issuer.issue encode tenantId subject roles ttlSeconds now =
      encode (claims issuer.issuer tenantId subject roles (now / 1000000) ttlSeconds)
        issuer.secret issuer.algorithm :=
  if_pos (Nat.lt_of_not_le h)

end Issue

/-! ## What `verify` makes of the claims -/

/-- `uuid.UUID` of a string raises a `ValueError` and nothing else. -/
theorem UUID.ofStr_error {codec : JsonCodec} {s : Str} {e : Error} (h : ofStr codec s = .error e) :
    ∃ message, e = .valueError message := by
  unfold ofStr at h
  simp only at h
  split at h
  · cases h
    exact ⟨_, rfl⟩
  · split at h
    · cases h
      exact ⟨_, rfl⟩
    · split at h
      · cases h
      · cases h
        exact ⟨_, rfl⟩

namespace JwtTokenVerifier

variable {F : Type} {jwt : PyJwt F} {verifier : JwtTokenVerifier} {token : Str}
  {payload : Claims F} {identity : AuthenticatedIdentity}

/-- The tenant claim is a UUID. -/
def TenantNamed (jwt : PyJwt F) (payload : Claims F) (tenantId : UUID) : Prop :=
  ∃ tid, payload.get? "tid".toList = some tid ∧ UUID.ofStr jwt.codec (tid.toStr jwt) = .ok tenantId

/-- The roles are the elements of a list, or the claim is absent. -/
def RolesListed (payload : Claims F) : Prop :=
  ∀ value, payload.get? "roles".toList = some value → ∃ items, value = .list items

/-- The identity that the claims are about. -/
structure Identifies (jwt : PyJwt F) (payload : Claims F) (identity : AuthenticatedIdentity) :
    Prop where
  tenant : TenantNamed jwt payload identity.tenantId
  roles : (payload.get? "roles".toList = none ∧ identity.roles = ∅) ∨
    ∃ items, payload.get? "roles".toList = some (.list items) ∧
      identity.roles = (items.map (·.toStr jwt)).toFinset

/-- `verify` returns the identity that the claims are about, or raises an
    `AuthenticationError`. -/
def IdentifiesOrRejects (verifier : JwtTokenVerifier) (jwt : PyJwt F) (token : Str) : Prop :=
  (∃ payload identity, verifier.decode jwt token = some payload ∧
    verifier.verify jwt token = .ok identity ∧ Identifies jwt payload identity) ∨
  ∃ message, verifier.verify jwt token = .error (.authenticationError message)

theorem tenant_eq_ok {tenantId : UUID} :
    tenant jwt payload = .ok tenantId ↔ TenantNamed jwt payload tenantId := by
  unfold tenant TenantNamed
  cases htid : payload.get? "tid".toList with
  | none => simp
  | some tid =>
      cases huuid : UUID.ofStr jwt.codec (tid.toStr jwt) with
      | ok u => simp [huuid]
      | error e =>
          obtain ⟨message, rfl⟩ := UUID.ofStr_error huuid
          simp [huuid]

/-- What does not name a tenant is rejected. -/
theorem tenant_error {e : VerifyError} (h : tenant jwt payload = .error e) :
    ∃ message, e = .authenticationError message := by
  unfold tenant at h
  cases htid : payload.get? "tid".toList with
  | none =>
      simp only [htid, Except.error.injEq] at h
      exact ⟨_, h.symm⟩
  | some tid =>
      cases huuid : UUID.ofStr jwt.codec (tid.toStr jwt) with
      | ok u => simp only [htid, huuid, reduceCtorEq] at h
      | error e' =>
          obtain ⟨message, rfl⟩ := UUID.ofStr_error huuid
          simp only [htid, huuid, Except.error.injEq] at h
          exact ⟨_, h.symm⟩

/-- The roles that are made of a value in the place of a list. -/
theorem roles_error {e : VerifyError} (h : roles jwt payload = .error e) :
    ∃ message, e = .typeError message := by
  unfold roles at h
  cases hvalue : (payload.get? "roles".toList).getD (.list []) with
  | none | bool b | int n | float x =>
      simp only [hvalue, ClaimValue.iterate, Except.map, Except.error.injEq] at h
      exact ⟨_, h.symm⟩
  | str s | list items | dict items =>
      simp only [hvalue, ClaimValue.iterate, Except.map, reduceCtorEq] at h

theorem roles_eq_ok (h : RolesListed payload) :
    ∃ set, roles jwt payload = .ok set ∧
      ((payload.get? "roles".toList = none ∧ set = ∅) ∨
        ∃ items, payload.get? "roles".toList = some (.list items) ∧
          set = (items.map (·.toStr jwt)).toFinset) := by
  unfold roles
  cases hroles : payload.get? "roles".toList with
  | none => exact ⟨∅, rfl, .inl ⟨rfl, rfl⟩⟩
  | some value =>
      obtain ⟨items, rfl⟩ := h value hroles
      exact ⟨_, rfl, .inr ⟨items, rfl, rfl⟩⟩

/-- A decoded token has a subject. -/
theorem exists_subject (h : verifier.decode jwt token = some payload) :
    ∃ sub, subject jwt payload = .ok sub := by
  obtain ⟨sub, hsub⟩ := Option.isSome_iff_exists.mp
    (jwt.requires h "sub".toList (by decide))
  exact ⟨sub.toStr jwt, by rw [subject, hsub]⟩

theorem verify_some (h : verifier.decode jwt token = some payload) :
    verifier.verify jwt token = (do
      let tenantId ← tenant jwt payload
      let roles ← roles jwt payload
      let subject ← subject jwt payload
      return ⟨tenantId, subject, roles⟩) := by
  rw [verify, h]

theorem verify_none (h : verifier.decode jwt token = none) :
    ∃ message, verifier.verify jwt token = .error (.authenticationError message) := by
  rw [verify, h]
  exact ⟨_, rfl⟩

/-- One decoded token. -/
theorem identifiesOrRejects_of_decode (h : verifier.decode jwt token = some payload) :
    verifier.IdentifiesOrRejects jwt token ↔
      ((∃ tenantId, TenantNamed jwt payload tenantId) → RolesListed payload) := by
  have hverify := verify_some h
  obtain ⟨sub, hsub⟩ := exists_subject h
  cases htenant : tenant jwt payload with
  | error e =>
      obtain ⟨message, rfl⟩ := tenant_error htenant
      have hnot : ¬ ∃ tenantId, TenantNamed jwt payload tenantId := by
        rintro ⟨tenantId, hnamed⟩
        rw [tenant_eq_ok.mpr hnamed] at htenant
        cases htenant
      refine iff_of_true (.inr ⟨message, ?_⟩) fun hnamed => absurd hnamed hnot
      rw [hverify, htenant]
      rfl
  | ok tenantId =>
      have hnamed := tenant_eq_ok.mp htenant
      constructor
      · rintro (⟨payload', identity, hdecode, -, hidentifies⟩ | ⟨message, hraises⟩) -
        · rw [h, Option.some.injEq] at hdecode
          subst hdecode
          intro value hvalue
          rcases hidentifies.roles with ⟨hnone, -⟩ | ⟨items, hitems, -⟩
          · rw [hnone] at hvalue
            cases hvalue
          · rw [hitems, Option.some.injEq] at hvalue
            exact ⟨items, hvalue.symm⟩
        · cases hroles : roles jwt payload with
          | error e =>
              obtain ⟨message', rfl⟩ := roles_error hroles
              rw [hverify, htenant, hroles] at hraises
              cases hraises
          | ok set =>
              rw [hverify, htenant, hroles, hsub] at hraises
              cases hraises
      · intro hlisted
        obtain ⟨set, hroles, hset⟩ := @roles_eq_ok F jwt payload (hlisted ⟨tenantId, hnamed⟩)
        refine .inl ⟨payload, ⟨tenantId, sub, set⟩, h, ?_, hnamed, hset⟩
        rw [hverify, htenant, hroles, hsub]
        rfl

/-- A token that PyJWT refuses is rejected, and one that it decodes exactly when it names no
    tenant or its roles are a list. -/
theorem identifiesOrRejects_iff : verifier.IdentifiesOrRejects jwt token ↔
    ∀ payload, verifier.decode jwt token = some payload →
      (∃ tenantId, TenantNamed jwt payload tenantId) → RolesListed payload := by
  cases hdecode : verifier.decode jwt token with
  | none => exact iff_of_true (.inr (verify_none hdecode)) fun payload h => nomatch h
  | some payload =>
      rw [identifiesOrRejects_of_decode hdecode]
      constructor
      · intro h payload' heq
        rw [← Option.some.inj heq]
        exact h
      · intro h
        exact h payload rfl

/-- A token that was issued and is decoded to what was encoded names who it was issued for. -/
theorem verify_issued {issuer : Str} {tenantId : UUID} {sub : Str} {roles : Finset Str}
    {now ttlSeconds : Nat} (h : verifier.decode jwt token =
      some (JwtTokenIssuer.claims issuer tenantId sub roles now ttlSeconds)) :
    verifier.verify jwt token = .ok ⟨tenantId, sub, roles⟩ := by
  have hset : (((roles.sort (· ≤ ·)).map ClaimValue.str).map (·.toStr jwt)).toFinset = roles := by
    rw [List.map_map]
    show ((roles.sort (· ≤ ·)).map id).toFinset = roles
    rw [List.map_id, Finset.sort_toFinset]
  have htenant : tenant jwt (JwtTokenIssuer.claims issuer tenantId sub roles now ttlSeconds) =
      .ok tenantId := by
    refine tenant_eq_ok.mpr ⟨.str tenantId.str, rfl, ?_⟩
    exact UUID.ofStr_str jwt.codec tenantId
  have hroles : JwtTokenVerifier.roles jwt
      (JwtTokenIssuer.claims issuer tenantId sub roles now ttlSeconds) = .ok roles := by
    conv_rhs => rw [← hset]
    rfl
  rw [verify_some h, htenant, hroles]
  rfl

theorem verify_ok (h : verifier.verify jwt token = .ok identity) :
    ∃ payload, verifier.decode jwt token = some payload ∧
      TenantNamed jwt payload identity.tenantId := by
  cases hdecode : verifier.decode jwt token with
  | none =>
      obtain ⟨message, hraises⟩ := verify_none hdecode
      rw [hraises] at h
      cases h
  | some payload =>
      rw [verify_some hdecode] at h
      obtain ⟨tenantId, htenant, h⟩ := Fallible.bind_ok.mp h
      obtain ⟨roles, -, h⟩ := Fallible.bind_ok.mp h
      obtain ⟨sub, -, h⟩ := Fallible.bind_ok.mp h
      cases h
      exact ⟨payload, rfl, tenant_eq_ok.mp htenant⟩

/-- A request acts for a tenant only under a token of its own that PyJWT accepts and that names
    the tenant. -/
theorem getCurrentIdentity_ok {bearer header : Option Str}
    (h : getCurrentIdentity verifier jwt bearer header = .ok identity) :
    ∃ token payload, bearer.or header = some token ∧ token ≠ [] ∧
      verifier.decode jwt token = some payload ∧ TenantNamed jwt payload identity.tenantId := by
  unfold getCurrentIdentity at h
  cases htoken : bearer.or header with
  | none =>
      rw [htoken] at h
      cases h
  | some token =>
      rw [htoken] at h
      cases token with
      | nil => cases h
      | cons c cs =>
          obtain ⟨payload, hdecode, hnamed⟩ := verify_ok h
          exact ⟨c :: cs, payload, rfl, List.cons_ne_nil c cs, hdecode, hnamed⟩

end JwtTokenVerifier

/-- For every token, whatever PyJWT makes of it, `verify` returns the identity that its claims are
    about or raises an `AuthenticationError`, if and only if a token that decodes and names a
    tenant has a list of roles or none at all. -/
theorem verify_identifiesOrRejects_iff {F : Type} (jwt : PyJwt F) (verifier : JwtTokenVerifier)
    (token : Str) : verifier.IdentifiesOrRejects jwt token ↔
      ∀ payload, verifier.decode jwt token = some payload →
        (∃ tenantId, JwtTokenVerifier.TenantNamed jwt payload tenantId) →
          JwtTokenVerifier.RolesListed payload :=
  JwtTokenVerifier.identifiesOrRejects_iff

/-! ### Roles that are `null` -/

/-- The claims of a token of another issuer with the same secret. -/
def nullRoles : Claims Unit where
  items := [("exp".toList, .int 4000000000), ("sub".toList, .str "alice".toList),
    ("tid".toList, .str (UUID.str ⟨1⟩)), ("roles".toList, .none)]
  nodup := by
    show (["exp".toList, "sub".toList, "tid".toList, "roles".toList] : List Str).Nodup
    decide

/-- A PyJWT to which every token is one with these claims. -/
def nullRolesJwt : PyJwt Unit where
  decode _ _ _ _ required :=
    if ∀ claim ∈ required, (nullRoles.get? claim).isSome then some nullRoles else none
  codec := ⟨fun _ => [], fun _ => .error .infrastructure, fun _ => none, id, fun _ => none⟩
  reprFloat _ := []
  requires := by
    intro token secret algorithms issuer required claims h
    split at h
    · next hall =>
        cases h
        exact hall
    · cases h

/-- The loop over the roles raises a `TypeError`, which nothing catches. -/
theorem nullRoles_escapes : ¬ ∀ (jwt : PyJwt Unit) (verifier : JwtTokenVerifier) (token : Str),
    verifier.IdentifiesOrRejects jwt token := by
  intro hall
  have h := hall nullRolesJwt ⟨[], [], []⟩ []
  have hdecode : JwtTokenVerifier.decode ⟨[], [], []⟩ nullRolesJwt [] = some nullRoles := by
    have hrequired : ∀ claim ∈ requiredClaims, (nullRoles.get? claim).isSome := by decide
    show (if ∀ claim ∈ requiredClaims, (nullRoles.get? claim).isSome then some nullRoles
      else none) = some nullRoles
    rw [if_pos hrequired]
  have hlisted := (JwtTokenVerifier.identifiesOrRejects_of_decode hdecode).mp h
    ⟨⟨1⟩, .str (UUID.str ⟨1⟩), rfl, UUID.ofStr_str _ _⟩
  obtain ⟨items, hitems⟩ := hlisted .none rfl
  cases hitems

end Eka
