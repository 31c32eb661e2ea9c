/-
OAuth grants from the exchange of a code to the last refresh (`ConnectorOAuthBroker.exchange` of `cloud/connector_oauth.py`,
`make_oauth_material` of `cloud/hosted_connectors.py`, `HostedOAuthRefresher.refresh` of
`cloud/hosted_connector_execution.py`).

What a token endpoint answers is an input, as a function of the request that is sent to it.

- `exchange`: the material that the answer to a code is stored as. A grant that is not accepted is revoked.
- `refresh`: the material that the answer to a refresh token is stored as, from the stored one.
-/
import Rally.Cloud.OAuthFlows
import Rally.Cloud.Execution

namespace Rally.Cloud.OAuthGrants

open Py OAuthFlows

/-! ## Libraries -/

/-- `OAuthToken` of the MCP library -/
structure OAuthToken where
  accessToken : String
  tokenType : String
  expiresIn : Option ℤ
  scope : Option String
  refreshToken : Option String
deriving DecidableEq

/-- library calls of the handshake -/
structure GrantLibs extends Libs where
  /-- `OAuthToken.model_validate_json` -/
  validateToken : String → Option OAuthToken
  /-- `resource_url_from_server_url`, `none` where it raises `ValueError` -/
  resourceUrl : String → Option String
  /-- `check_resource_allowed`, of the requested and the configured resource -/
  resourceAllowed : String → String → Option Bool
  quote : String → String

/-! ## Errors -/

/-- the code of a `HostedOAuthError` -/
inductive OAuthCode where
  | codeInvalid
  | tokenExchangeFailed
  | refreshRequired
  | scopeWidened
  | scopeIncomplete
  | revocationFailed
  | providerCleanupRequired
deriving DecidableEq, Repr

def OAuthCode.text : OAuthCode → String
  | .codeInvalid => "oauth_code_invalid"
  | .tokenExchangeFailed => "oauth_token_exchange_failed"
  | .refreshRequired => "oauth_refresh_required"
  | .scopeWidened => "oauth_scope_widened"
  | .scopeIncomplete => "oauth_scope_incomplete"
  | .revocationFailed => "oauth_revocation_failed"
  | .providerCleanupRequired => "oauth_provider_cleanup_required"

inductive Raised where
  | oauth (code : OAuthCode)
  /-- `HostedConnectorError` -/
  | connector (code : String)
  | fault
deriving DecidableEq, Repr

/-- what the catalog raises -/
def fromConnector {α : Type} (x : Except Exn α) : Except Raised α :=
  x.mapError fun
    | .connector code => .connector code.text
    | _ => .fault

/-! ## Token endpoints -/

structure TokenRequest where
  url : String
  data : List (String × String)
  headers : List (String × String)
deriving DecidableEq, Repr

inductive TokenReply where
  | answered (status : ℕ) (content : String)
  /-- an `HTTPError`, or more content than is read -/
  | failed
  /-- any other exception -/
  | fault
deriving DecidableEq, Repr

def callbackUrl : String := "https://rally.agent9.dev/admin/connect/callback"

def maxMetadataBytes : ℕ := 64 * 1024

def maxTokenBytes : ℕ := 24 * 1024

def maxRevocationBytes : ℕ := 4 * 1024

/-- no character below 32 and no 127 -/
def isPrintable (value : String) : Bool := value.toList.all fun c => 32 ≤ c.toNat && c.toNat ≠ 127

/-- a text of 1 to `maximum` bytes without control characters -/
def isBounded (value : String) (maximum : ℕ) : Bool :=
  value ≠ "" && value.utf8ByteSize ≤ maximum && isPrintable value

section Broker

variable (L : GrantLibs)

/-- `_bounded_text` -/
def boundedText (value : String) (maximum : ℕ) (code : OAuthCode) : Except Raised String :=
  if isBounded value maximum then .ok value else .error (.oauth code)

/-- `_bounded_text(value, …) if value else other` -/
def boundedOr (value : Option String) (maximum : ℕ) (code : OAuthCode) (other : Option String) :
    Except Raised (Option String) :=
  if present value then do
    let text ← boundedText (value.getD "") maximum code
    .ok (some text)
  else .ok other

/-- `Basic` credentials -/
def basic (clientId clientSecret : String) : String × String :=
  ("Authorization", "Basic " ++ L.b64encode (L.quote clientId ++ ":" ++ L.quote clientSecret))

/-- a request of a client, with its secret where it has one -/
def clientRequest (url : String) (method : TokenAuthMethod) (clientId : String) (clientSecret : Option String)
    (data : List (String × String)) : TokenRequest :=
  let accept := ("Accept", "application/json")
  match method, present clientSecret with
  | .clientSecretBasic, true => ⟨url, data, [accept, basic L clientId (clientSecret.getD "")]⟩
  | .clientSecretPost, true => ⟨url, data ++ [("client_secret", clientSecret.getD "")], [accept]⟩
  | _, _ => ⟨url, data, [accept]⟩

/-- `HostedConnector`, with the hosts of its OAuth endpoints -/
structure OAuthConnector extends HostedConnector where
  oauthHosts : List String := []

/-- `oauth_hosts` of the catalog -/
def catalogHosts (connectorId : String) : List String :=
  match connectorId with
  | "google-workspace" => ["accounts.google.com", "oauth2.googleapis.com"]
  | "cloudflare" => ["observability.mcp.cloudflare.com"]
  | "stripe" => ["mcp.stripe.com", "access.stripe.com"]
  | "atlassian" => ["mcp.atlassian.com", "auth.atlassian.com"]
  | "hyperagent" => ["hyperagent.com"]
  | _ => []

/-- `hosted_connector` -/
def oauthConnector (connectorId : String) : Except Raised OAuthConnector := do
  let item ← fromConnector (connector connectorId)
  .ok { item with oauthHosts := catalogHosts item.id }

/-- `validate_oauth_url` -/
def validateOauthUrl (item : OAuthConnector) (value endpoint : String) : Except Raised String := do
  let (host, _, canonical) ← fromConnector (canonicalHttps L.toLibs value true)
  let (endpointHost, _, _) ← fromConnector (canonicalHttps L.toLibs endpoint false)
  if (item.oauthHosts ++ [endpointHost]).any (underSuffix host) then .ok canonical
  else .error (.connector "oauth_endpoint_not_allowed")

/-- `_revoke_token` -/
def revokeToken (item : OAuthConnector) (endpoint : String) (revocationEndpoint : Option String) (token hint clientId : String)
    (clientSecret : Option String) (method : TokenAuthMethod) (post : TokenRequest → TokenReply) : Except Raised Bool :=
  if !present revocationEndpoint then .ok false
  else do
    let url ← validateOauthUrl L item (revocationEndpoint.getD "") endpoint
    if token = "" ∨ maxMetadataBytes < token.utf8ByteSize then .error (.oauth .revocationFailed)
    else
      let data := [("token", token), ("token_type_hint", hint), ("client_id", clientId)]
      match post (clientRequest L url method clientId clientSecret data) with
      | .failed => .error (.oauth .revocationFailed)
      | .fault => .error .fault
      | .answered status content =>
        if maxRevocationBytes < content.utf8ByteSize ∨ status ∉ [200, 204] then .error (.oauth .revocationFailed)
        else .ok true

/-- the tokens in a response that Rally does not retain -/
structure RawTokens where
  accessToken : Option String
  refreshToken : Option String

/-- `_reject_unaccepted_grant`: the error that is raised -/
def rejectUnacceptedGrant (flow : OAuthFlow) (code : OAuthCode) (raw : RawTokens) (post : TokenRequest → TokenReply) :
    Raised :=
  match raw.refreshToken.or raw.accessToken with
  | none => .oauth code
  | some token =>
    let hint := if raw.refreshToken.isSome then "refresh_token" else "access_token"
    let revoked : Except Raised Bool := do
      let item ← oauthConnector flow.connectorId
      revokeToken L item flow.endpoint flow.revocationEndpoint token hint flow.clientId flow.clientSecret flow.tokenAuthMethod
        post
    match revoked with
    | .ok true => .oauth code
    | .error .fault => .fault
    | _ => .oauth .providerCleanupRequired

/-! ## Material -/

/-- a text or `None` -/
def optionText : Option String → Value
  | some s => .str s
  | none => .none

def optionInt : Option ℤ → Value
  | some n => .int n
  | none => .none

/-- `json.dumps` of the fields of a grant -/
def printFields (fields : List (String × Value)) : Option String :=
  if dumpable true (.dict fields) then some (dumps L.text compactAscii (.dict fields)) else none

/-- the check of the resource in `make_oauth_material` -/
def checkResource (endpoint resource : String) : Except Raised String :=
  if !isBounded resource 2048 then .error (.connector "oauth_resource_invalid")
  else do
    let (_, _, canonical) ← fromConnector (canonicalHttps L.toLibs resource true)
    match L.resourceUrl endpoint with
    | none => .error (.connector "oauth_resource_invalid")
    | some requested =>
      match L.resourceAllowed requested canonical with
      | none => .error .fault
      | some false => .error (.connector "oauth_resource_mismatch")
      | some true => .ok canonical

/-- a resource, checked where there is one -/
def checkOptional (endpoint : String) : Option String → Except Raised (Option String)
  | none => .ok none
  | some resource => do
    let canonical ← checkResource L endpoint resource
    .ok (some canonical)

/-- the fields of `make_oauth_material` -/
def grantMaterial (now : String) (flow : OAuthFlow) (token : OAuthToken) (accessToken : String)
    (refreshToken scope resource : Option String) : List (String × Value) :=
  [("schema", .str oauthSchema), ("endpoint", .str flow.endpoint), ("access_token", .str accessToken),
    ("refresh_token", optionText refreshToken), ("token_type", .str token.tokenType), ("expires_in", optionInt token.expiresIn),
    ("obtained_at", .str now), ("scope", optionText scope), ("client_id", .str flow.clientId),
    ("client_secret", optionText flow.clientSecret), ("token_endpoint", .str flow.tokenEndpoint),
    ("revocation_endpoint", optionText flow.revocationEndpoint), ("token_auth_method", .str flow.tokenAuthMethod.text),
    ("resource", optionText resource), ("allowed_workflow_ids", .list (flow.allowedWorkflowIds.map .str))]

/-- `make_oauth_material`, of what `exchange` passes to it, before it is printed -/
def makeOauthMaterial (now : String) (flow : OAuthFlow) (token : OAuthToken) (accessToken : String)
    (refreshToken scope : Option String) : Except Raised (List (String × Value)) := do
  let resource ← checkOptional L flow.endpoint flow.resource
  .ok (grantMaterial now flow token accessToken refreshToken scope resource)

/-! ## Exchange -/

/-- `set((scope or "").split())` -/
def scopesOf (scope : Option String) : List String := split (scope.getD "")

/-- `OAuthCompletion` -/
structure OAuthCompletion where
  storedMaterial : String
  accessMaterial : TokenMaterial

/-- the checks on a token, and what is stored of it -/
def checkToken (now : String) (flow : OAuthFlow) (token : OAuthToken) : Except Raised (List (String × Value)) := do
  let accessToken ← boundedText token.accessToken maxTokenBytes .tokenExchangeFailed
  let refreshToken ← boundedOr token.refreshToken maxTokenBytes .tokenExchangeFailed none
  if token.expiresIn.any (· < 300) then .error (.oauth .tokenExchangeFailed)
  else if token.expiresIn.isSome ∧ refreshToken = none then .error (.oauth .refreshRequired)
  else do
    let returned ← boundedOr token.scope 2048 .tokenExchangeFailed flow.scope
    if scopesOf returned ≠ [] ∧ (scopesOf flow.scope = [] ∨ ¬ scopesOf returned ⊆ scopesOf flow.scope) then
      .error (.oauth .scopeWidened)
    else if flow.connectorId = "google-workspace" ∧
        ¬ (scopesOf returned ⊆ scopesOf flow.scope ∧ scopesOf flow.scope ⊆ scopesOf returned) then
      .error (.oauth .scopeIncomplete)
    else makeOauthMaterial L now flow token accessToken refreshToken returned

/-- a token that is accepted -/
def acceptToken (now : String) (flow : OAuthFlow) (token : OAuthToken) : Except Raised OAuthCompletion := do
  let fields ← checkToken L now flow token
  match printFields L fields with
  | some stored => .ok ⟨stored, ⟨token.accessToken, flow.endpoint, "bearer", none⟩⟩
  | none => .error .fault

/-- the request for the token of a code -/
def exchangeRequest (flow : OAuthFlow) (code : String) : TokenRequest :=
  let resource := if present flow.resource then [("resource", flow.resource.getD "")] else []
  clientRequest L flow.tokenEndpoint flow.tokenAuthMethod flow.clientId flow.clientSecret
    ([("grant_type", "authorization_code"), ("code", code), ("redirect_uri", callbackUrl), ("client_id", flow.clientId),
      ("code_verifier", flow.codeVerifier)] ++ resource)

/-- a text that is not empty -/
def nonempty (v : Value) : Option String := (textOf v).filter (· ≠ "")

/-- the tokens of an answer, as far as it can be read -/
def rawTokens : Value → RawTokens
  | .dict fields => ⟨nonempty (field fields "access_token"), nonempty (field fields "refresh_token")⟩
  | _ => ⟨none, none⟩

/-- `exchange` -/
def exchange (now : String) (flow : OAuthFlow) (code : String) (post : TokenRequest → TokenReply) :
    Except Raised OAuthCompletion := do
  let code ← boundedText code 8192 .codeInvalid
  match post (exchangeRequest L flow code) with
  | .failed => .error (.oauth .tokenExchangeFailed)
  | .fault => .error .fault
  | .answered status content =>
    if status ≠ 200 ∨ maxMetadataBytes < content.utf8ByteSize then .error (.oauth .tokenExchangeFailed)
    else
      match L.loads content with
      | .tooDeep => .error .fault
      | .malformed => .error (rejectUnacceptedGrant L flow .tokenExchangeFailed ⟨none, none⟩ post)
      | .value rawToken =>
        match L.validateToken content with
        | none => .error (rejectUnacceptedGrant L flow .tokenExchangeFailed (rawTokens rawToken) post)
        | some token =>
          match acceptToken L now flow token with
          | .error (.oauth code) => .error (rejectUnacceptedGrant L flow code (rawTokens rawToken) post)
          | .error (.connector _) => .error (rejectUnacceptedGrant L flow .tokenExchangeFailed (rawTokens rawToken) post)
          | .error .fault => .error .fault
          | .ok completion => .ok completion

/-! ## Refresh -/

/-- `_bounded_private_text` -/
def boundedPrivateText (value : Value) (maximum : ℕ) : Except RefreshExn String :=
  match value with
  | .str s => if isBounded s maximum then .ok s else .error .refused
  | _ => .error .refused

/-- `except HostedConnectorError` -/
def refusedOr {α : Type} : Except Raised α → Except RefreshExn α
  | .ok a => .ok a
  | .error (.connector _) => .error .refused
  | .error _ => .error (.fault .failed)

/-- `fields.get(k, default)` -/
def getOr (fields : List (String × Value)) (k : String) (default : Value) : Value := (fields.lookup k).getD default

/-- the resource of a stored grant, checked where there is one -/
def storedResource (item : OAuthConnector) (endpoint : String) : Value → Except RefreshExn (Option String)
  | .none => .ok none
  | .str resource =>
    if 2048 < resource.utf8ByteSize then .error .refused
    else do
      let canonical ← refusedOr (validateOauthUrl L item resource endpoint)
      match (L.resourceUrl endpoint).bind fun requested => L.resourceAllowed requested canonical with
      | some true => .ok (some canonical)
      | _ => .error .refused
  | _ => .error .refused

/-- what a refresh needs of the stored grant -/
structure Grant where
  endpoint : String
  tokenEndpoint : String
  refreshToken : String
  request : TokenRequest

/-- the secret of the client, by its method -/
def storedSecret (method : String) (v : Value) : Except RefreshExn (Option String) :=
  if method ≠ "none" then do
    let secret ← boundedPrivateText v 8192
    .ok (some secret)
  else if v ≠ .none ∧ textOf v = none then .error .refused
  else .ok (textOf v)

/-- the method of a stored grant, which is looked up in a set -/
def storedMethod (v : Value) : Except RefreshExn String :=
  match v with
  | .list _ => .error (.fault .failed)
  | .dict _ => .error (.fault .failed)
  | .str method => if method ∈ ["none", "client_secret_basic", "client_secret_post"] then .ok method else .error .refused
  | _ => .error .refused

/-- the request of a refresh -/
def refreshRequest (url method clientId refreshToken : String) (clientSecret resource : Option String) : TokenRequest :=
  let data := [("grant_type", "refresh_token"), ("refresh_token", refreshToken), ("client_id", clientId)] ++
    (resource.map fun r => ("resource", r)).toList
  let accept := ("Accept", "application/json")
  if method = "client_secret_basic" then ⟨url, data, [accept, basic L clientId (clientSecret.getD "")]⟩
  else if method = "client_secret_post" then ⟨url, data ++ [("client_secret", clientSecret.getD "")], [accept]⟩
  else ⟨url, data, [accept]⟩

/-- the first part of `refresh`: the checks of the stored grant -/
def prepareRefresh (item : OAuthConnector) (raw : List (String × Value)) : Except RefreshExn Grant := do
  let refreshToken ← boundedPrivateText (field raw "refresh_token") maxTokenBytes
  let clientId ← boundedPrivateText (field raw "client_id") 4096
  match field raw "endpoint", field raw "token_endpoint" with
  | .str endpoint, .str tokenEndpoint => do
    let endpoint ← refusedOr (fromConnector (resolveEndpoint L.toLibs item.toHostedConnector (some endpoint)))
    let tokenEndpoint ← refusedOr (validateOauthUrl L item tokenEndpoint endpoint)
    let resource ← storedResource L item endpoint (field raw "resource")
    let method ← storedMethod (field raw "token_auth_method")
    let clientSecret ← storedSecret method (field raw "client_secret")
    .ok ⟨endpoint, tokenEndpoint, refreshToken,
      refreshRequest L tokenEndpoint method clientId refreshToken clientSecret resource⟩
  | _, _ => .error .refused

/-- the content of an answer as an object -/
def readReply : TokenReply → Except RefreshExn (List (String × Value))
  | .failed => .error .refused
  | .fault => .error (.fault .fatal)
  | .answered status content =>
    if maxMetadataBytes < content.utf8ByteSize ∨ status ≠ 200 then .error .refused
    else
      match L.loads content with
      | .malformed => .error .refused
      | .tooDeep => .error (.fault .failed)
      | .value (.dict refreshed) => .ok refreshed
      | .value _ => .error .refused

/-- the fields that a refresh changes -/
structure Refreshed where
  accessToken : String
  refreshToken : String
  expiresIn : Option ℤ
  scope : Option String

/-- a text or `None` -/
def optionOf : Value → Except RefreshExn (Option String)
  | .none => .ok none
  | .str s => .ok (some s)
  | _ => .error .refused

/-- `expires_in`: a positive integer or `None` -/
def expiryOf : Value → Except RefreshExn (Option ℤ)
  | .none => .ok none
  | .int n => if n ≤ 0 then .error .refused else .ok (some n)
  | _ => .error .refused

/-- the refresh token of an answer, or the one before -/
def rotatedToken (refreshToken : String) : Value → Except RefreshExn String
  | .none => .ok refreshToken
  | v => boundedPrivateText v maxTokenBytes

/-- the refreshed scope is within the one before, where both are texts -/
def scopeKept (original : Value) (refreshed : Option String) : Bool :=
  match original, refreshed with
  | .str original, some refreshed => split refreshed ⊆ split original
  | _, _ => true

/-- the checks of an answer, against the stored grant -/
def checkRefreshed (raw refreshed : List (String × Value)) (refreshToken : String) : Except RefreshExn Refreshed := do
  let accessToken ← boundedPrivateText (field refreshed "access_token") maxTokenBytes
  match getOr refreshed "token_type" (field raw "token_type") with
  | .str tokenType =>
    if L.casefold tokenType ≠ "bearer" then .error .refused
    else do
      let rotated ← rotatedToken refreshToken (field refreshed "refresh_token")
      let expiresIn ← expiryOf (getOr refreshed "expires_in" (field raw "expires_in"))
      let scope ← optionOf (getOr refreshed "scope" (field raw "scope"))
      if scopeKept (field raw "scope") scope then .ok ⟨accessToken, rotated, expiresIn, scope⟩ else .error .refused
  | _ => .error .refused

/-- `{**raw, …}` -/
def assignAll (raw updates : List (String × Value)) : List (String × Value) :=
  updates.foldl (fun fields p => Dict.upsert fields p.1 fun _ => p.2) raw

/-- the fields that `refresh` writes -/
def updatesOf (now : String) (grant : Grant) (r : Refreshed) : List (String × Value) :=
  [("endpoint", .str grant.endpoint), ("access_token", .str r.accessToken), ("refresh_token", .str r.refreshToken),
    ("token_type", .str "Bearer"), ("expires_in", optionInt r.expiresIn), ("obtained_at", .str now),
    ("scope", optionText r.scope), ("token_endpoint", .str grant.tokenEndpoint)]

/-- `refresh` of an object, before the new one is printed -/
def refreshFields (item : OAuthConnector) (now : String) (post : TokenRequest → TokenReply) (raw : List (String × Value)) :
    Except RefreshExn (List (String × Value)) :=
  if field raw "schema" ≠ .str oauthSchema then .error .refused
  else do
    let grant ← prepareRefresh L item raw
    let refreshed ← readReply L (post grant.request)
    let checked ← checkRefreshed L raw refreshed grant.refreshToken
    .ok (assignAll raw (updatesOf now grant checked))

/-- `HostedOAuthRefresher.refresh` -/
def refresh (item : OAuthConnector) (now : String) (post : TokenRequest → TokenReply) (storedValue : String) :
    Except RefreshExn String :=
  match L.loads storedValue with
  | .malformed => .error .refused
  | .tooDeep => .error (.fault .failed)
  | .value (.dict raw) => do
    let updated ← refreshFields L item now post raw
    match printFields L updated with
    | some text => .ok text
    | none => .error (.fault .failed)
  | .value _ => .error .refused

end Broker

end Rally.Cloud.OAuthGrants
