import TsCommons.Foundations.UrlSearchParams

/-!
# The authorization code flow

A client sends its user to the authorization endpoint with a challenge in the
query, and redeems the code that it gets in return at the token endpoint with
the verifier from which the challenge was made.  Queries and bodies are form
data.
-/

namespace TsCommons.Security

open Foundations
open UrlSearchParams

/-! ## Proof keys -/

inductive PkceMethod
  | s256
  | plain
deriving DecidableEq

def PkceMethod.text : PkceMethod → CodeUnits
  | .s256 => Utf16.ofString "S256"
  | .plain => Utf16.ofString "plain"

structure PkceChallenge where
  codeVerifier : CodeUnits
  codeChallenge : CodeUnits
  codeChallengeMethod : PkceMethod
deriving DecidableEq

namespace PkceGenerator

/-- `text.replaceAll(old, new)` for single characters. -/
def replaceAll (text : CodeUnits) (old new : UInt16) : CodeUnits :=
  text.map fun unit => if unit = old then new else unit

def base64UrlEncode (data : Bytes) : CodeUnits :=
  (replaceAll (replaceAll (Base64.encode data) 43 45) 47 95).filter (· ≠ 61)

def sha256Challenge (verifier : CodeUnits) : CodeUnits :=
  base64UrlEncode (Utf8.encode verifier)

/-- `random` are the random bytes. -/
def generateVerifier (random : Bytes) : CodeUnits := base64UrlEncode random

/-- The challenge for a verifier. -/
def expected (verifier : CodeUnits) : PkceMethod → CodeUnits
  | .s256 => sha256Challenge verifier
  | .plain => verifier

def generate (method : PkceMethod) (random : Bytes) : PkceChallenge :=
  let codeVerifier := generateVerifier random
  ⟨codeVerifier, expected codeVerifier method, method⟩

def verify (verifier challenge : CodeUnits) (method : PkceMethod) : Bool :=
  expected verifier method = challenge

variable {data other random : Bytes} {verifier : CodeUnits} {unit : UInt16}

/-- A reader of base64 does not see the difference. -/
theorem value_replaced (unit : UInt16) :
    let replaced :=
      if (if unit = 43 then 45 else unit) = 47 then 95
      else if unit = 43 then 45 else unit
    (if replaced ≠ 61 then Base64.value replaced else none) =
      Base64.value unit := by
  by_cases hplus : unit = 43
  · subst hplus
    rfl
  by_cases hslash : unit = 47
  · subst hslash
    rfl
  by_cases hpadding : unit = 61
  · subst hpadding
    rfl
  simp [hplus, hslash, hpadding]

theorem decode_base64UrlEncode (data : Bytes) :
    Base64.decode (base64UrlEncode data) = data := by
  have hvalues : (base64UrlEncode data).filterMap Base64.value =
      (Base64.encode data).filterMap Base64.value := by
    rw [base64UrlEncode, replaceAll, replaceAll, List.map_map,
      List.filterMap_filter, List.filterMap_map]
    refine List.filterMap_congr fun unit _ => ?_
    simpa using value_replaced unit
  rw [Base64.decode, hvalues]
  exact Base64.decode_encode data

theorem lt_of_mem_base64UrlEncode (hmem : unit ∈ base64UrlEncode data) :
    unit.toNat < 128 := by
  obtain ⟨hreplaced, -⟩ := List.mem_filter.mp hmem
  obtain ⟨middle, hmiddle, rfl⟩ := List.mem_map.mp hreplaced
  obtain ⟨digit, hdigit, rfl⟩ := List.mem_map.mp hmiddle
  have hlt := Base64.lt_of_mem_encode hdigit
  split
  · decide
  split
  · decide
  · exact hlt

theorem toWellFormed_codeVerifier (method : PkceMethod) (random : Bytes) :
    Utf16.toWellFormed (generate method random).codeVerifier =
      (generate method random).codeVerifier :=
  Utf16.toWellFormed_of_lt fun _ hmem => lt_of_mem_base64UrlEncode hmem

theorem toWellFormed_codeChallenge (method : PkceMethod) (random : Bytes) :
    Utf16.toWellFormed (generate method random).codeChallenge =
      (generate method random).codeChallenge := by
  cases method with
  | s256 =>
      exact Utf16.toWellFormed_of_lt fun _ hmem =>
        lt_of_mem_base64UrlEncode hmem
  | plain => exact toWellFormed_codeVerifier .plain random

/-- Only the verifier that was generated fits the challenge. -/
theorem verify_generate_iff (method : PkceMethod) (random : Bytes)
    (hverifier : Utf16.toWellFormed verifier = verifier) :
    verify verifier (generate method random).codeChallenge method = true ↔
      verifier = (generate method random).codeVerifier := by
  have hgenerated := toWellFormed_codeVerifier method random
  rw [verify, decide_eq_true_iff]
  cases method with
  | plain => rfl
  | s256 =>
      constructor
      · intro hexpected
        have hbytes := congrArg Base64.decode hexpected
        simp only [generate, expected, sha256Challenge,
          decode_base64UrlEncode] at hbytes
        have htext := congrArg Utf8.decode hbytes
        rw [Utf8.decode_encode, Utf8.decode_encode, hverifier] at htext
        exact htext.trans hgenerated
      · rintro rfl
        rfl

end PkceGenerator

/-! ## Requests -/

variable {N : Type}

structure OAuthClientConfig where
  clientId : CodeUnits
  clientSecret : Option CodeUnits
  redirectUri : Option CodeUnits
  scopes : Option (List CodeUnits)
  tokenEndpoint : CodeUnits
  authorizationEndpoint : Option CodeUnits
deriving DecidableEq

/-- A POST request with form data. -/
structure TokenRequest where
  url : CodeUnits
  body : CodeUnits
deriving DecidableEq

/-- What a field of an answer holds, where `other` includes no field. -/
inductive JsonField (N : Type)
  | string (text : CodeUnits)
  | number (value : N)
  | other
deriving DecidableEq

/-- `data` is `none` where the body is not JSON. -/
structure FetchResponse (N : Type) where
  ok : Bool
  status : ℕ
  statusText : String
  data : Option (String → JsonField N)

structure TokenResponse (N : Type) where
  accessToken : CodeUnits
  tokenType : CodeUnits
  expiresIn : Option N
  refreshToken : Option CodeUnits
  scope : Option CodeUnits
  idToken : Option CodeUnits
deriving DecidableEq

inductive TokenError
  | unreachable
  | failed (message : String)
  | notJson
deriving DecidableEq

def extractString (data : String → JsonField N) (key : String) :
    Option CodeUnits :=
  match data key with
  | .string text => some text
  | _ => none

def parseTokenResponse (data : String → JsonField N) : TokenResponse N where
  accessToken := (extractString data "access_token").getD []
  tokenType := (extractString data "token_type").getD
    (Utf16.ofString "Bearer")
  expiresIn :=
    match data "expires_in" with
    | .number value => some value
    | _ => none
  refreshToken := extractString data "refresh_token"
  scope := extractString data "scope"
  idToken := extractString data "id_token"

/-- `params.set(name, value)` if there is a value. -/
def setOptional (params : List (CodeUnits × CodeUnits)) (name : String)
    (value : Option CodeUnits) : List (CodeUnits × CodeUnits) :=
  match value with
  | none => params
  | some value => set params (Utf16.ofString name) value

namespace AuthorizationCodeFlow

def authorizationParams (config : OAuthClientConfig) (state : CodeUnits)
    (pkce : Option PkceChallenge) : List (CodeUnits × CodeUnits) :=
  let params :=
    [(Utf16.ofString "response_type", Utf16.ofString "code"),
      (Utf16.ofString "client_id", config.clientId),
      (Utf16.ofString "state", state)]
  let params := setOptional params "redirect_uri" config.redirectUri
  let params := setOptional params "scope"
    (config.scopes.map [32].intercalate)
  let params := setOptional params "code_challenge"
    (pkce.map PkceChallenge.codeChallenge)
  setOptional params "code_challenge_method"
    (pkce.map fun challenge => challenge.codeChallengeMethod.text)

def buildAuthorizationUrl (config : OAuthClientConfig) (state : CodeUnits)
    (pkce : Option PkceChallenge) : Except String CodeUnits :=
  match config.authorizationEndpoint with
  | none =>
      .error "authorizationEndpoint required for Authorization Code flow"
  | some endpoint =>
      .ok (endpoint ++ 63 :: toText (authorizationParams config state pkce))

def exchangeParams (config : OAuthClientConfig) (code : CodeUnits)
    (codeVerifier : Option CodeUnits) : List (CodeUnits × CodeUnits) :=
  let params :=
    [(Utf16.ofString "grant_type", Utf16.ofString "authorization_code"),
      (Utf16.ofString "code", code),
      (Utf16.ofString "client_id", config.clientId)]
  let params := setOptional params "redirect_uri" config.redirectUri
  let params := setOptional params "client_secret" config.clientSecret
  setOptional params "code_verifier" codeVerifier

def refreshParams (config : OAuthClientConfig) (refreshToken : CodeUnits) :
    List (CodeUnits × CodeUnits) :=
  setOptional
    [(Utf16.ofString "grant_type", Utf16.ofString "refresh_token"),
      (Utf16.ofString "refresh_token", refreshToken),
      (Utf16.ofString "client_id", config.clientId)]
    "client_secret" config.clientSecret

def tokenRequest (config : OAuthClientConfig)
    (params : List (CodeUnits × CodeUnits)) : TokenRequest :=
  ⟨config.tokenEndpoint, toText params⟩

/-- `fetch` gives no answer where it rejects. -/
def postToken (fetch : TokenRequest → Option (FetchResponse N))
    (request : TokenRequest) : Except TokenError (TokenResponse N) :=
  match fetch request with
  | none => .error .unreachable
  | some response =>
      if response.ok then
        match response.data with
        | none => .error .notJson
        | some data => .ok (parseTokenResponse data)
      else
        .error (.failed ("Token request failed: " ++
          toString response.status ++ " " ++ response.statusText))

def exchangeCode (config : OAuthClientConfig)
    (fetch : TokenRequest → Option (FetchResponse N)) (code : CodeUnits)
    (codeVerifier : Option CodeUnits) :
    Except TokenError (TokenResponse N) :=
  postToken fetch (tokenRequest config
    (exchangeParams config code codeVerifier))

def refreshToken (config : OAuthClientConfig)
    (fetch : TokenRequest → Option (FetchResponse N)) (token : CodeUnits) :
    Except TokenError (TokenResponse N) :=
  postToken fetch (tokenRequest config (refreshParams config token))

/-! ## What the server reads -/

variable {config : OAuthClientConfig} {endpoint : CodeUnits}
  {params : List (CodeUnits × CodeUnits)} {name : String}
  {value : Option CodeUnits}

theorem namesWellFormed_setOptional (hparams : NamesWellFormed params)
    (name : String) (value : Option CodeUnits) :
    NamesWellFormed (setOptional params name value) := by
  cases value with
  | none => exact hparams
  | some value => exact hparams.set (Utf16.toWellFormed_ofString name) value

theorem namesWellFormed_of_ofString (names : List (String × CodeUnits)) :
    NamesWellFormed (names.map fun entry =>
      (Utf16.ofString entry.1, entry.2)) := by
  intro pair hmem
  obtain ⟨entry, -, rfl⟩ := List.mem_map.mp hmem
  exact Utf16.toWellFormed_ofString entry.1

theorem namesWellFormed_authorizationParams (config : OAuthClientConfig)
    (state : CodeUnits) (pkce : Option PkceChallenge) :
    NamesWellFormed (authorizationParams config state pkce) := by
  have hfirst := namesWellFormed_of_ofString
    [("response_type", Utf16.ofString "code"), ("client_id", config.clientId),
      ("state", state)]
  unfold authorizationParams
  iterate 4 apply namesWellFormed_setOptional
  exact hfirst

theorem namesWellFormed_exchangeParams (config : OAuthClientConfig)
    (code : CodeUnits) (codeVerifier : Option CodeUnits) :
    NamesWellFormed (exchangeParams config code codeVerifier) := by
  have hfirst := namesWellFormed_of_ofString
    [("grant_type", Utf16.ofString "authorization_code"), ("code", code),
      ("client_id", config.clientId)]
  unfold exchangeParams
  iterate 3 apply namesWellFormed_setOptional
  exact hfirst

theorem namesWellFormed_refreshParams (config : OAuthClientConfig)
    (token : CodeUnits) : NamesWellFormed (refreshParams config token) := by
  have hfirst := namesWellFormed_of_ofString
    [("grant_type", Utf16.ofString "refresh_token"), ("refresh_token", token),
      ("client_id", config.clientId)]
  exact namesWellFormed_setOptional hfirst _ _

/-- `params.get(name)`. -/
def field (params : List (CodeUnits × CodeUnits)) (name : String) :
    Option CodeUnits :=
  get params (Utf16.ofString name)

/-- `new URLSearchParams(text).get(name)`. -/
def readField (text : CodeUnits) (name : String) : Option CodeUnits :=
  field (ofText text) name

theorem readField_toText (hparams : NamesWellFormed params) (name : String) :
    readField (toText params) name =
      (field params name).map Utf16.toWellFormed :=
  get_ofText_toText hparams (Utf16.ofString name)

theorem field_nil (name : String) : field [] name = none := rfl

theorem field_cons (name other : String) (value : CodeUnits) :
    field ((Utf16.ofString name, value) :: params) other =
      if name = other then some value else field params other := by
  simp only [field, get_cons, Utf16.ofString_inj]

theorem field_setOptional (params : List (CodeUnits × CodeUnits))
    (name other : String) (value : Option CodeUnits) :
    field (setOptional params name value) other =
      if name = other then value.or (field params other)
      else field params other := by
  cases value with
  | none => exact (ite_self _).symm
  | some value =>
      simp only [field, setOptional, get_set, Utf16.ofString_inj,
        Option.some_or]

/-- What the server can read in the query of an authorization request and in
the body of a token request.  Both name the client and its redirect URI, only
the second has the secret, and the verifier fits the challenge if and only if it
is the one that was generated. -/
structure ProofKeyLaw (config : OAuthClientConfig)
    (state code verifier : CodeUnits) (method : PkceMethod) (random : Bytes)
    (query body : CodeUnits) : Prop where
  client : ∀ text ∈ [query, body], readField text "client_id" =
    some (Utf16.toWellFormed config.clientId)
  redirect : ∀ text ∈ [query, body], readField text "redirect_uri" =
    config.redirectUri.map Utf16.toWellFormed
  secret : readField query "client_secret" = none ∧
    readField body "client_secret" =
      config.clientSecret.map Utf16.toWellFormed
  state : readField query "state" = some (Utf16.toWellFormed state)
  code : readField body "code" = some (Utf16.toWellFormed code)
  challenge : ∃ challenge sent,
    readField query "code_challenge" = some challenge ∧
      readField query "code_challenge_method" = some method.text ∧
      readField body "code_verifier" = some sent ∧
      (PkceGenerator.verify sent challenge method = true ↔
        Utf16.toWellFormed verifier =
          (PkceGenerator.generate method random).codeVerifier)

/-- What the server can read in the body of a refresh request. -/
structure RefreshLaw (config : OAuthClientConfig) (token body : CodeUnits) :
    Prop where
  client : readField body "client_id" =
    some (Utf16.toWellFormed config.clientId)
  secret : readField body "client_secret" =
    config.clientSecret.map Utf16.toWellFormed
  token : readField body "refresh_token" = some (Utf16.toWellFormed token)

theorem field_authorizationParams (config : OAuthClientConfig)
    (state : CodeUnits) (pkce : PkceChallenge) :
    let params := authorizationParams config state (some pkce)
    field params "client_id" = some config.clientId ∧
      field params "redirect_uri" = config.redirectUri ∧
      field params "client_secret" = none ∧
      field params "state" = some state ∧
      field params "code_challenge" = some pkce.codeChallenge ∧
      field params "code_challenge_method" =
        some pkce.codeChallengeMethod.text := by
  simp [authorizationParams, field_setOptional, field_cons, field_nil]

theorem field_exchangeParams (config : OAuthClientConfig)
    (code verifier : CodeUnits) :
    let params := exchangeParams config code (some verifier)
    field params "client_id" = some config.clientId ∧
      field params "redirect_uri" = config.redirectUri ∧
      field params "client_secret" = config.clientSecret ∧
      field params "code" = some code ∧
      field params "code_verifier" = some verifier := by
  simp [exchangeParams, field_setOptional, field_cons, field_nil]

theorem field_refreshParams (config : OAuthClientConfig)
    (token : CodeUnits) :
    let params := refreshParams config token
    field params "client_id" = some config.clientId ∧
      field params "client_secret" = config.clientSecret ∧
      field params "refresh_token" = some token := by
  simp [refreshParams, field_setOptional, field_cons, field_nil]

theorem refreshLaw (config : OAuthClientConfig) (token : CodeUnits) :
    RefreshLaw config token
      (tokenRequest config (refreshParams config token)).body := by
  have hbody := readField_toText (namesWellFormed_refreshParams config token)
  obtain ⟨hclient, hsecret, htoken⟩ := field_refreshParams config token
  constructor
  · simp [tokenRequest, hbody, hclient]
  · simp [tokenRequest, hbody, hsecret]
  · simp [tokenRequest, hbody, htoken]

/-- The endpoint has no query or fragment of its own, so that what stands
behind the question mark is the query of the URL. -/
theorem proofKeyLaw (hendpoint : config.authorizationEndpoint = some endpoint)
    (state code verifier : CodeUnits) (method : PkceMethod) (random : Bytes) :
    ∃ query,
      buildAuthorizationUrl config state
          (some (PkceGenerator.generate method random)) =
        .ok (endpoint ++ 63 :: query) ∧
      ProofKeyLaw config state code verifier method random query
        (tokenRequest config
          (exchangeParams config code (some verifier))).body ∧
      ∀ token, RefreshLaw config token
        (tokenRequest config (refreshParams config token)).body := by
  have hquery := readField_toText (namesWellFormed_authorizationParams config
    state (some (PkceGenerator.generate method random)))
  have hbody := readField_toText (namesWellFormed_exchangeParams config code
    (some verifier))
  obtain ⟨hclient, hredirect, hsecret, hstate, hchallenge, hmethod⟩ :=
    field_authorizationParams config state
      (PkceGenerator.generate method random)
  obtain ⟨hclientSent, hredirectSent, hsecretSent, hcode, hverifier⟩ :=
    field_exchangeParams config code verifier
  have hmethodText : Utf16.toWellFormed method.text = method.text := by
    cases method with
    | s256 => exact Utf16.toWellFormed_ofString _
    | plain => exact Utf16.toWellFormed_ofString _
  refine ⟨_, by rw [buildAuthorizationUrl, hendpoint], ?_, refreshLaw config⟩
  unfold tokenRequest
  constructor
  · simp [hquery, hbody, hclient, hclientSent]
  · simp [hquery, hbody, hredirect, hredirectSent]
  · simp [hquery, hbody, hsecret, hsecretSent]
  · simp [hquery, hstate]
  · simp [hbody, hcode]
  · refine ⟨(PkceGenerator.generate method random).codeChallenge,
      Utf16.toWellFormed verifier, ?_, ?_, ?_, ?_⟩
    · rw [hquery, hchallenge]
      exact congrArg some
        (PkceGenerator.toWellFormed_codeChallenge method random)
    · rw [hquery, hmethod]
      exact congrArg some hmethodText
    · rw [hbody, hverifier]
      rfl
    · exact PkceGenerator.verify_generate_iff method random
        (Utf16.toWellFormed_toWellFormed verifier)

/-- A client whose name, secret and redirect URI have to be encoded. -/
def sampleConfig : OAuthClientConfig where
  clientId := Utf16.ofString "café & co"
  clientSecret := some (Utf16.ofString "a=b&c+d%")
  redirectUri := some (Utf16.ofString "https://app.example.com/cb?x=1")
  scopes := some [Utf16.ofString "openid", Utf16.ofString "profile"]
  tokenEndpoint := Utf16.ofString "https://auth.example.com/token"
  authorizationEndpoint :=
    some (Utf16.ofString "https://auth.example.com/authorize")

theorem proofKeyLaw_of_sampleConfig :
    ∃ query,
      buildAuthorizationUrl sampleConfig (Utf16.ofString "state 1")
          (some (PkceGenerator.generate .s256 [251, 255, 0])) =
        .ok (Utf16.ofString "https://auth.example.com/authorize" ++
          63 :: query) ∧
      ProofKeyLaw sampleConfig (Utf16.ofString "state 1")
        (Utf16.ofString "code") (Utf16.ofString "-_8A") .s256 [251, 255, 0]
        query (tokenRequest sampleConfig (exchangeParams sampleConfig
          (Utf16.ofString "code") (some (Utf16.ofString "-_8A")))).body ∧
      ∀ token, RefreshLaw sampleConfig token
        (tokenRequest sampleConfig (refreshParams sampleConfig token)).body :=
  proofKeyLaw rfl _ _ _ _ _

end AuthorizationCodeFlow

end TsCommons.Security
