/-
The return of an OAuth handshake (`_complete_connector_callback` of `cloud/control_plane.py`, over `exchange` and `revoke`
of `ConnectorOAuthBroker` in `cloud/connector_oauth.py`): a code is exchanged for a grant, which is stored, or revoked, or
reported as left behind at the provider.

The procedures leave a trace of what is sent and stored; every answer from outside is an input. Nothing is modelled of a
request that is cancelled.

- `exchange`, `revoke`: the two requests of the broker, as procedures. `completeConnectorCallback`: the callback, with the
  status it computes.
- `acceptToken_cases`: a token is refused with an error that `exchange` handles, or its material is stored as it is read.
- `exchange_agrees`: an exchange ends as the computation of `OAuthGrants` says.
-/
import Rally.Cloud.Scopes

namespace Rally.Cloud.Callback

open Py Proc OAuthFlows OAuthGrants

/-! ## What a callback sees -/

/-- an exception; of an `HTTPException` of 503, the detail -/
inductive Trouble where
  | oauth (code : String)
  /-- `HostedConnectorError` -/
  | connector (code : String)
  | vault (e : VaultError)
  | unavailable (detail : String)
  | fault
deriving DecidableEq

def Trouble.of : Raised → Trouble
  | .oauth code => .oauth code.text
  | .connector code => .connector code
  | .fault => .fault

inductive CallbackStatus where
  | invalidOrExpired
  | cancelled
  | needsAttention
  | disconnectFirst
  | verifying
  | providerCleanupRequired
deriving DecidableEq, Repr

def CallbackStatus.text : CallbackStatus → String
  | .invalidOrExpired => "invalid-or-expired"
  | .cancelled => "cancelled"
  | .needsAttention => "needs-attention"
  | .disconnectFirst => "disconnect-first"
  | .verifying => "verifying"
  | .providerCleanupRequired => "provider-cleanup-required"

/-- what a callback makes visible -/
inductive Ev where
  | posted (request : TokenRequest) (reply : TokenReply)
  /-- `vault.put` -/
  | stored (uid connectorId : String) (secret : ConnectorSecret) (answer : Except Trouble Unit)

structure Locals where
  status : CallbackStatus
  completion : Option OAuthCompletion := none
  persisted : Bool := false

abbrev Step := Proc Ev Trouble Locals

/-- a part of the handshake that sends nothing -/
def given {α : Type} (x : Except Raised α) : Step α := lift (x.mapError Trouble.of)

/-! ## Exchange and revocation -/

section Broker

variable (L : GrantLibs) (post : TokenRequest → TokenReply)

/-- a request, and its answer as `_bounded_response` gives it -/
def send (maximum : ℕ) (code : OAuthCode) (request : TokenRequest) : Step (ℕ × String) := fun s =>
  ⟨[.posted request (post request)], s,
    match post request with
    | .failed => .error (.oauth code.text)
    | .fault => .error .fault
    | .answered status content =>
      if maximum < content.utf8ByteSize then .error (.oauth code.text) else .ok (status, content)⟩

/-- the body of a revocation -/
def revocationData (token hint clientId : String) : List (String × String) :=
  [("token", token), ("token_type_hint", hint), ("client_id", clientId)]

/-- `_revoke_token` -/
def revokeToken (item : OAuthConnector) (endpoint : String) (revocationEndpoint : Option String) (token hint clientId : String)
    (clientSecret : Option String) (method : TokenAuthMethod) : Step Bool :=
  if !present revocationEndpoint then ret false
  else do
    let url ← given (validateOauthUrl L item (revocationEndpoint.getD "") endpoint)
    if token = "" ∨ maxMetadataBytes < token.utf8ByteSize then raise (.oauth OAuthCode.revocationFailed.text)
    else do
      let answer ← send post maxRevocationBytes .revocationFailed
        (clientRequest L url method clientId clientSecret (revocationData token hint clientId))
      if answer.1 ∉ [200, 204] then raise (.oauth OAuthCode.revocationFailed.text) else ret true

/-- `except (HostedConnectorError, HostedOAuthError): revoked = False` -/
def unrevoked : Trouble → Step Bool
  | .connector _ => ret false
  | .oauth _ => ret false
  | e => raise e

/-- `_reject_unaccepted_grant` -/
def rejectUnacceptedGrant (flow : OAuthFlow) (code : OAuthCode) (raw : RawTokens) : Step OAuthCompletion :=
  match raw.refreshToken.or raw.accessToken with
  | none => raise (.oauth code.text)
  | some token => do
    let hint := if raw.refreshToken.isSome then "refresh_token" else "access_token"
    let revoked ← attempt
      (do
        let item ← given (oauthConnector flow.connectorId)
        revokeToken L post item flow.endpoint flow.revocationEndpoint token hint flow.clientId flow.clientSecret
          flow.tokenAuthMethod)
      unrevoked
    if revoked then raise (.oauth code.text) else raise (.oauth OAuthCode.providerCleanupRequired.text)

/-- the part of `exchange` after an answer of 200 -/
def settleGrant (now : String) (flow : OAuthFlow) (content : String) : Step OAuthCompletion :=
  match L.loads content with
  | .tooDeep => raise .fault
  | .malformed => rejectUnacceptedGrant L post flow .tokenExchangeFailed ⟨none, none⟩
  | .value rawToken =>
    match L.validateToken content with
    | none => rejectUnacceptedGrant L post flow .tokenExchangeFailed (rawTokens rawToken)
    | some token =>
      match acceptToken L now flow token with
      | .error (.oauth code) => rejectUnacceptedGrant L post flow code (rawTokens rawToken)
      | .error (.connector _) => rejectUnacceptedGrant L post flow .tokenExchangeFailed (rawTokens rawToken)
      | .error .fault => raise .fault
      | .ok completion => ret completion

/-- `exchange` -/
def exchange (now : String) (flow : OAuthFlow) (code : String) : Step OAuthCompletion := do
  let code ← given (boundedText code 8192 .codeInvalid)
  let answer ← send post maxMetadataBytes .tokenExchangeFailed (exchangeRequest L flow code)
  if answer.1 ≠ 200 then raise (.oauth OAuthCode.tokenExchangeFailed.text) else settleGrant L post now flow answer.2

/-- what is used of stored material -/
structure StoredMaterial where
  endpoint : Option String
  accessToken : Option String
  refreshToken : Option String
  clientId : Option String
  clientSecret : Option String
  revocationEndpoint : Option String
  tokenAuthMethod : TokenAuthMethod

def materialInvalid : Trouble := .oauth "oauth_material_invalid"

/-- `_bounded_text` of a field of stored material; one that is not there is `None` -/
def boundedField (fields : List (String × Value)) (key : String) (maximum : ℕ) : Except Trouble (Option String) :=
  match field fields key with
  | .none => .ok none
  | .str value => if isBounded value maximum then .ok (some value) else .error materialInvalid
  | _ => .error materialInvalid

/-- the fields of `_stored_oauth_material` -/
def boundedFields (fields : List (String × Value)) : Except Trouble StoredMaterial := do
  let endpoint ← boundedField fields "endpoint" 2048
  let accessToken ← boundedField fields "access_token" maxTokenBytes
  let refreshToken ← boundedField fields "refresh_token" maxTokenBytes
  let tokenType ← boundedField fields "token_type" 64
  let clientId ← boundedField fields "client_id" 4096
  let clientSecret ← boundedField fields "client_secret" 8192
  let _ ← boundedField fields "token_endpoint" 2048
  let revocationEndpoint ← boundedField fields "revocation_endpoint" 2048
  let method ← boundedField fields "token_auth_method" 64
  match method.bind TokenAuthMethod.ofText with
  | none => .error materialInvalid
  | some tokenAuthMethod =>
    if L.casefold (tokenType.getD "") ≠ "bearer" then .error materialInvalid
    else .ok ⟨endpoint, accessToken, refreshToken, clientId, clientSecret, revocationEndpoint, tokenAuthMethod⟩

/-- `_stored_oauth_material` -/
def storedOauthMaterial (value : String) : Except Trouble StoredMaterial :=
  match L.loads value with
  | .malformed => .error materialInvalid
  | .tooDeep => .error .fault
  | .value (.dict fields) =>
    if field fields "schema" ≠ .str oauthSchema then .error materialInvalid else boundedFields L fields
  | .value _ => .error materialInvalid

/-- `except HostedConnectorError as exc: raise HostedOAuthError(exc.code)` -/
def asOauth : Raised → Trouble
  | .connector code => .oauth code
  | e => .of e

/-- `revoke` -/
def revoke (item : OAuthConnector) (storedMaterial : String) : Step Bool := do
  let material ← lift (storedOauthMaterial L storedMaterial)
  if !present material.revocationEndpoint then ret false
  else do
    let endpoint := material.endpoint.getD ""
    let url ← lift ((validateOauthUrl L item (material.revocationEndpoint.getD "") endpoint).mapError asOauth)
    let token := (orText material.refreshToken material.accessToken).getD ""
    let hint := if present material.refreshToken then "refresh_token" else "access_token"
    revokeToken L post item endpoint (some url) token hint (material.clientId.getD "") material.clientSecret
      material.tokenAuthMethod

/-- `except HostedOAuthError: return False` -/
def leftBehind : Trouble → Step Bool
  | .oauth _ => ret false
  | e => raise e

/-- `_revoke_callback_completion` -/
def revokeCallbackCompletion (connectorId : String) (completion : OAuthCompletion) : Step Bool :=
  attempt
    (do
      let item ← given (oauthConnector connectorId)
      revoke L post item completion.storedMaterial)
    leftBehind

end Broker

/-! ## The callback -/

/-- the answers that a callback waits for -/
structure World where
  consumed : Except Unit (Option OAuthFlow)
  error : Option String
  code : Option String
  /-- `vault.get_secret` -/
  current : Except VaultError (Option ConnectorSecret)
  post : TokenRequest → TokenReply
  put : Except VaultError Unit
  /-- `auth_store.issue_code` -/
  loginCode : Except Unit String

/-- where the browser is sent: the status, and with a login code the connector -/
structure Redirect where
  status : CallbackStatus
  login : Option (String × String)

section Callback

variable (L : GrantLibs) (now : String) (w : World)

def setStatus (status : CallbackStatus) : Step Unit := set fun u => { u with status := status }

/-- the secret that is stored, or `CredentialVaultError` -/
def secretFor (completion : OAuthCompletion) : Except Trouble ConnectorSecret :=
  match ConnectorSecret.make completion.storedMaterial .oauthRefreshToken with
  | some secret => .ok secret
  | none => .error (.vault .error)

/-- the `try` part: exchange the code and store the grant -/
def storeGrant (flow : OAuthFlow) (code : String) : Step Unit := do
  let current ← lift (w.current.mapError .vault)
  if current.isSome then setStatus .disconnectFirst
  else do
    let completion ← exchange L w.post now flow code
    set fun u => { u with completion := some completion }
    let secret ← lift (secretFor completion)
    await (.stored flow.identity.uid flow.connectorId secret) (w.put.mapError .vault)
    set fun u => { u with persisted := true, status := .verifying }

/-- a grant that could not be stored: the status is `kept` where there is none, or it is revoked -/
def cleanUp (flow : OAuthFlow) (kept : CallbackStatus) : Step Unit := do
  let u ← get
  match u.completion with
  | none => setStatus kept
  | some completion => do
    let revoked ← revokeCallbackCompletion L w.post flow.connectorId completion
    setStatus (if revoked then kept else .providerCleanupRequired)

/-- the `except` parts -/
def handle (flow : OAuthFlow) : Trouble → Step Unit
  | .vault .conflict => cleanUp L w flow .disconnectFirst
  | .oauth code =>
    setStatus (if code = OAuthCode.providerCleanupRequired.text then .providerCleanupRequired else .needsAttention)
  | .vault _ => do
    let u ← get
    if u.persisted then setStatus .needsAttention else cleanUp L w flow .needsAttention
  | e => raise e

/-- `_complete_connector_callback` -/
def completeConnectorCallback : Step Redirect :=
  match w.consumed with
  | .error _ => raise (.unavailable "connector OAuth is unavailable")
  | .ok none => ret ⟨.invalidOrExpired, none⟩
  | .ok (some flow) => do
    setStatus (if w.error = some "access_denied" then .cancelled else .needsAttention)
    match w.error, w.code with
    | none, some code => attempt (storeGrant L now w flow code) (handle L w flow)
    | _, _ => ret ()
    let loginCode ← lift (w.loginCode.mapError fun _ => .unavailable "browser authentication is unavailable")
    let u ← get
    ret ⟨u.status, some (loginCode, flow.connectorId)⟩

end Callback

/-! ## Errors -/

section Errors

variable {L : GrantLibs} {item : OAuthConnector} {flow : OAuthFlow} {token : OAuthToken} {now value endpoint : String}

theorem canonicalHttps_error {L : Libs} {allowQuery : Bool} {e : Exn} (h : canonicalHttps L value allowQuery = .error e) :
    ∃ code, e = .connector code := by
  unfold canonicalHttps at h
  split at h
  · cases h
    exact ⟨_, rfl⟩
  · dsimp only at h
    split_ifs at h
    cases h
    exact ⟨_, rfl⟩

theorem fromConnector_error {α : Type} {x : Except Exn α} {e : Raised} (hx : ∀ e, x = .error e → ∃ code, e = .connector code)
    (h : fromConnector x = .error e) : ∃ code, e = .connector code := by
  cases x with
  | ok a => cases h
  | error e' =>
    obtain ⟨code, rfl⟩ := hx e' rfl
    cases h
    exact ⟨_, rfl⟩

/-- an address that is refused is refused by the catalog -/
theorem validateOauthUrl_error {e : Raised} (h : validateOauthUrl L item value endpoint = .error e) :
    ∃ code, e = .connector code := by
  rw [validateOauthUrl] at h
  cases hvalue : fromConnector (canonicalHttps L.toLibs value true) with
  | error e' =>
    rw [hvalue] at h
    cases h
    exact fromConnector_error (fun _ => canonicalHttps_error) hvalue
  | ok parts =>
    rw [hvalue] at h
    cases hendpoint : fromConnector (canonicalHttps L.toLibs endpoint false) with
    | error e' =>
      simp only [hendpoint, bind, Except.bind] at h
      cases h
      exact fromConnector_error (fun _ => canonicalHttps_error) hendpoint
    | ok parts' =>
      simp only [hendpoint, bind, Except.bind] at h
      split_ifs at h
      cases h
      exact ⟨_, rfl⟩

/-- `check_resource_allowed` returns for the address of a server and a canonical resource -/
def Allows (L : GrantLibs) : Prop := ∀ endpoint requested value host path canonical, L.resourceUrl endpoint = some requested →
  canonicalHttps L.toLibs value true = .ok (host, path, canonical) → L.resourceAllowed requested canonical ≠ none

theorem fromConnector_ok {α : Type} {x : Except Exn α} {a : α} (h : fromConnector x = .ok a) : x = .ok a := by
  cases x with
  | ok b => cases h; rfl
  | error e => cases h

theorem checkResource_error {resource : String} {e : Raised} (hL : Allows L)
    (h : checkResource L endpoint resource = .error e) : ∃ code, e = .connector code := by
  rw [checkResource] at h
  split_ifs at h
  · cases h
    exact ⟨_, rfl⟩
  · cases hcanonical : fromConnector (canonicalHttps L.toLibs resource true) with
    | error e' =>
      rw [hcanonical] at h
      cases h
      exact fromConnector_error (fun _ => canonicalHttps_error) hcanonical
    | ok parts =>
      simp only [hcanonical, bind, Except.bind] at h
      split at h
      · cases h
        exact ⟨_, rfl⟩
      · rename_i requested hrequested
        split at h
        · rename_i hallowed
          exact absurd hallowed (hL _ _ _ _ _ _ hrequested (fromConnector_ok hcanonical))
        · cases h
          exact ⟨_, rfl⟩
        · cases h

/-- what is raised at a token that is not accepted: no code for a cleanup, and only what `exchange` handles -/
def Refusal (e : Raised) : Prop :=
  (∃ code, e = .oauth code ∧ code ≠ .providerCleanupRequired) ∨ ∃ code, e = .connector code

theorem boundedText_error {maximum : ℕ} {code : OAuthCode} {e : Raised} (hcode : code ≠ .providerCleanupRequired)
    (h : boundedText value maximum code = .error e) : Refusal e := by
  rw [boundedText] at h
  split_ifs at h
  cases h
  exact .inl ⟨code, rfl, hcode⟩

theorem boundedOr_error {value other : Option String} {maximum : ℕ} {code : OAuthCode} {e : Raised}
    (hcode : code ≠ .providerCleanupRequired) (h : boundedOr value maximum code other = .error e) : Refusal e := by
  rw [boundedOr] at h
  split_ifs at h
  cases htext : boundedText (value.getD "") maximum code with
  | error e' =>
    rw [htext] at h
    cases h
    exact boundedText_error hcode htext
  | ok text =>
    rw [htext] at h
    cases h

theorem checkToken_error {e : Raised} (hL : Allows L) (h : checkToken L now flow token = .error e) :
    Refusal e := by
  rw [checkToken] at h
  cases haccess : boundedText token.accessToken maxTokenBytes .tokenExchangeFailed with
  | error e' =>
    rw [haccess] at h
    cases h
    exact boundedText_error (by decide) haccess
  | ok accessToken =>
    cases hrefresh : boundedOr token.refreshToken maxTokenBytes .tokenExchangeFailed none with
    | error e' =>
      simp only [haccess, hrefresh, bind, Except.bind] at h
      cases h
      exact boundedOr_error (by decide) hrefresh
    | ok refreshToken =>
      simp only [haccess, hrefresh, bind, Except.bind] at h
      split_ifs at h
      · cases h
        exact .inl ⟨_, rfl, by decide⟩
      · cases h
        exact .inl ⟨_, rfl, by decide⟩
      · cases hscope : boundedOr token.scope 2048 .tokenExchangeFailed flow.scope with
        | error e' =>
          simp only [hscope] at h
          cases h
          exact boundedOr_error (by decide) hscope
        | ok returned =>
          simp only [hscope] at h
          split_ifs at h
          · cases h
            exact .inl ⟨_, rfl, by decide⟩
          · cases h
            exact .inl ⟨_, rfl, by decide⟩
          · rw [makeOauthMaterial] at h
            cases hresource : checkOptional L flow.endpoint flow.resource with
            | ok resource =>
              rw [hresource] at h
              cases h
            | error e' =>
              rw [hresource] at h
              cases h
              cases hflow : flow.resource with
              | none =>
                rw [hflow] at hresource
                cases hresource
              | some resource =>
                rw [hflow, checkOptional] at hresource
                cases hcheck : checkResource L flow.endpoint resource with
                | ok canonical =>
                  rw [hcheck] at hresource
                  cases hresource
                | error e' =>
                  rw [hcheck] at hresource
                  cases hresource
                  exact .inr (checkResource_error hL hcheck)

/-- a text that is there and not empty -/
theorem boundedOr_present {value result : Option String} {maximum : ℕ} {code : OAuthCode}
    (h : boundedOr value maximum code none = .ok result) : result = value.filter (· ≠ "") := by
  rw [boundedOr] at h
  cases value with
  | none => simpa [present] using h.symm
  | some text =>
    by_cases htext : text = ""
    · subst htext
      simpa [present, Option.filter_some] using h.symm
    · simp only [present, Option.getD_some, ne_eq, htext, not_false_eq_true, decide_true, if_true] at h
      obtain ⟨bounded, hbounded, h⟩ := bind_ok h
      cases h
      simp [boundedText_ok hbounded, Option.filter_some, htext]

theorem checkToken_material {fields : List (String × Value)} (h : checkToken L now flow token = .ok fields) :
    token.accessToken ≠ "" ∧ ∃ scope resource,
      fields = grantMaterial now flow token token.accessToken (token.refreshToken.filter (· ≠ "")) scope resource := by
  obtain ⟨accessToken, haccess, h⟩ := bind_ok h
  obtain ⟨refreshToken, hrefresh, h⟩ := bind_ok h
  obtain rfl := boundedText_ok haccess
  obtain rfl := boundedOr_present hrefresh
  split_ifs at h
  obtain ⟨returned, -, h⟩ := bind_ok h
  split_ifs at h
  obtain ⟨resource, -, h⟩ := bind_ok h
  cases h
  refine ⟨?_, returned, resource, rfl⟩
  rw [boundedText, isBounded] at haccess
  split_ifs at haccess with hbounded
  simp only [Bool.and_eq_true, decide_eq_true_eq] at hbounded
  exact hbounded.1.1

theorem dumpable_material {accessToken : String} {refreshToken scope resource : Option String}
    (h : ∀ n ∈ token.expiresIn, printable n = true) :
    dumpable true (.dict (grantMaterial now flow token accessToken refreshToken scope resource)) = true := by
  have htext (s : Option String) : dumpable true (optionText s) = true := by cases s <;> rfl
  have hint : dumpable true (optionInt token.expiresIn) = true := by
    cases hexpires : token.expiresIn with
    | none => rfl
    | some n => simpa [optionInt, dumpable] using h n hexpires
  have hids : dumpable true (.list (flow.allowedWorkflowIds.map .str)) = true := by
    rw [dumpable, dumpableList_eq]
    simp [dumpable]
  have hstr (s : String) : dumpable true (.str s) = true := rfl
  rw [dumpable, dumpableDict_eq]
  simp [grantMaterial, htext, hint, hids, hstr]

/-- **A token is accepted or refused.** Where it is accepted, its material is stored as it is read. -/
theorem acceptToken_cases (hL : Allows L) (hjson : ReadsBack L.toLibs)
    (hprintable : ∀ n ∈ token.expiresIn, printable n = true) :
    (∃ e, acceptToken L now flow token = .error e ∧ Refusal e) ∨
      ∃ done scope resource, acceptToken L now flow token = .ok done ∧ token.accessToken ≠ "" ∧
        L.loads done.storedMaterial = .value (.dict
          (grantMaterial now flow token token.accessToken (token.refreshToken.filter (· ≠ "")) scope resource)) := by
  cases hcheck : checkToken L now flow token with
  | error e =>
    refine .inl ⟨e, ?_, checkToken_error hL hcheck⟩
    rw [acceptToken, hcheck]
    rfl
  | ok fields =>
    obtain ⟨hne, scope, resource, rfl⟩ := checkToken_material hcheck
    have hdumpable := @dumpable_material flow token now token.accessToken (token.refreshToken.filter (· ≠ "")) scope resource
      hprintable
    have hprint : printFields L (grantMaterial now flow token token.accessToken (token.refreshToken.filter (· ≠ "")) scope
        resource) = some (dumps L.text compactAscii (.dict (grantMaterial now flow token token.accessToken
          (token.refreshToken.filter (· ≠ "")) scope resource))) := if_pos hdumpable
    have hfields := grantMaterial_fields (printFields_ok hprint).2
    have haccepted : acceptToken L now flow token = .ok ⟨dumps L.text compactAscii (.dict (grantMaterial now flow token
        token.accessToken (token.refreshToken.filter (· ≠ "")) scope resource)),
          ⟨token.accessToken, flow.endpoint, "bearer", none⟩⟩ := by
      rw [acceptToken, hcheck]
      simp only [bind, Except.bind, hprint]
    exact .inr ⟨_, scope, resource, haccepted, hne, hjson _ hfields⟩

end Errors

/-! ## The outcome of an exchange -/

section Outcome

variable {L : GrantLibs} {post : TokenRequest → TokenReply} {item : OAuthConnector} {flow : OAuthFlow} {s : Locals}
  {now code token hint clientId endpoint : String} {revocationEndpoint clientSecret : Option String} {method : TokenAuthMethod}
  {α β : Type}

/-- a run ends as the computation says -/
def Agrees (r : Run Ev Trouble Locals α) (x : Except Raised α) : Prop := r.out = x.mapError Trouble.of

theorem agrees_given (x : Except Raised α) : Agrees (given x s) x := rfl

theorem agrees_ret (a : α) : Agrees (ret a s) (.ok a) := rfl

theorem agrees_raise (e : Raised) : Agrees (raise (Trouble.of e) s : Run Ev Trouble Locals α) (.error e) := rfl

theorem agrees_bind {p : Step α} {f : α → Step β} {x : Except Raised α} {g : α → Except Raised β} (hp : Agrees (p s) x)
    (hf : ∀ a, x = .ok a → Agrees (f a (p s).mem) (g a)) : Agrees ((p >>= f) s) (x >>= g) := by
  cases x with
  | ok a =>
    rw [run_bind (returns_out hp)]
    exact hf a rfl
  | error e =>
    rw [run_bind_raised (raises_out hp)]
    rfl

theorem agrees_ite {c : Prop} [Decidable c] {p p' : Step α} {x x' : Except Raised α} (h : c → Agrees (p s) x)
    (h' : ¬ c → Agrees (p' s) x') : Agrees ((if c then p else p') s) (if c then x else x') := by
  by_cases hc : c
  · rw [if_pos hc, if_pos hc]
    exact h hc
  · rw [if_neg hc, if_neg hc]
    exact h' hc

/-- what is made of the answer to a request -/
def answeredWith (maximum : ℕ) (oauthCode : OAuthCode) (g : ℕ → String → Except Raised α) : TokenReply → Except Raised α
  | .failed => .error (.oauth oauthCode)
  | .fault => .error .fault
  | .answered status content => if maximum < content.utf8ByteSize then .error (.oauth oauthCode) else g status content

theorem agrees_send {maximum : ℕ} {oauthCode : OAuthCode} {request : TokenRequest} {f : ℕ × String → Step α}
    {g : ℕ → String → Except Raised α} (h : ∀ status content, Agrees (f (status, content) s) (g status content)) :
    Agrees ((send post maximum oauthCode request >>= f) s) (answeredWith maximum oauthCode g (post request)) := by
  have hsend : send post maximum oauthCode request s = ⟨[.posted request (post request)], s,
      (answeredWith maximum oauthCode (fun status content => .ok (status, content)) (post request)).mapError Trouble.of⟩ := by
    unfold send answeredWith
    cases post request with
    | failed => rfl
    | fault => rfl
    | answered status content =>
      dsimp only
      split_ifs <;> rfl
  cases hreply : post request with
  | failed =>
    rw [hreply] at hsend
    rw [run_bind_raised hsend]
    rfl
  | fault =>
    rw [hreply] at hsend
    rw [run_bind_raised hsend]
    rfl
  | answered status content =>
    rw [hreply] at hsend
    unfold answeredWith at hsend ⊢
    by_cases hlong : maximum < content.utf8ByteSize
    · simp only [if_pos hlong] at hsend ⊢
      rw [run_bind_raised hsend]
      rfl
    · simp only [if_neg hlong] at hsend ⊢
      rw [run_bind hsend]
      exact h status content

theorem revokeToken_agrees :
    Agrees (revokeToken L post item endpoint revocationEndpoint token hint clientId clientSecret method s)
      (OAuthGrants.revokeToken L item endpoint revocationEndpoint token hint clientId clientSecret method post) := by
  rw [revokeToken, OAuthGrants.revokeToken]
  refine agrees_ite (fun _ => agrees_ret false) fun _ => agrees_bind (agrees_given _) fun url _ => ?_
  refine agrees_ite (fun _ => agrees_raise (.oauth .revocationFailed)) fun _ => ?_
  have hsend := @agrees_send post s Bool maxRevocationBytes .revocationFailed
    (clientRequest L url method clientId clientSecret (revocationData token hint clientId))
    (fun answer => if answer.1 ∉ [200, 204] then raise (.oauth OAuthCode.revocationFailed.text) else ret true)
    (fun status _ => if status ∉ [200, 204] then .error (.oauth .revocationFailed) else .ok true)
    fun status content => agrees_ite (fun _ => agrees_raise (.oauth .revocationFailed)) fun _ => agrees_ret true
  convert hsend using 1
  · rfl
  unfold answeredWith revocationData
  dsimp only
  cases post (clientRequest L url method clientId clientSecret
    [("token", token), ("token_type_hint", hint), ("client_id", clientId)]) with
  | failed => rfl
  | fault => rfl
  | answered status content =>
    dsimp only
    by_cases hlong : maxRevocationBytes < content.utf8ByteSize
    · rw [if_pos hlong, if_pos (.inl hlong)]
    · rw [if_neg hlong]
      by_cases hstatus : status ∈ [200, 204]
      · rw [if_neg (not_or.2 ⟨hlong, not_not.2 hstatus⟩), if_neg (not_not.2 hstatus)]
      · rw [if_pos (.inr hstatus), if_pos hstatus]

/-- a try whose refusals are handled -/
def tried : Except Raised Bool → Except Raised Bool
  | .ok b => .ok b
  | .error .fault => .error .fault
  | .error _ => .ok false

/-- a handled try, by the computation that is tried -/
theorem agrees_unrevoked {p : Step Bool} {x : Except Raised Bool} (hp : Agrees (p s) x) :
    Agrees (attempt p unrevoked s) (tried x) := by
  unfold Agrees
  cases x with
  | ok b =>
    rw [run_attempt (returns_out hp)]
    rfl
  | error e =>
    rw [run_attempt_raised (raises_out hp)]
    cases e with
    | oauth code => rfl
    | connector code => rfl
    | fault => rfl

theorem reject_agrees {oauthCode : OAuthCode} {raw : RawTokens} :
    Agrees (rejectUnacceptedGrant L post flow oauthCode raw s)
      (.error (OAuthGrants.rejectUnacceptedGrant L flow oauthCode raw post)) := by
  unfold rejectUnacceptedGrant OAuthGrants.rejectUnacceptedGrant
  cases raw.refreshToken.or raw.accessToken with
  | none => exact agrees_raise (.oauth oauthCode)
  | some token =>
    dsimp only
    have htry := agrees_unrevoked (s := s) (agrees_bind (agrees_given (oauthConnector flow.connectorId)) fun item _ =>
      @revokeToken_agrees L post item _ token (if raw.refreshToken.isSome then "refresh_token" else "access_token")
        flow.clientId flow.endpoint flow.revocationEndpoint flow.clientSecret flow.tokenAuthMethod)
    generalize hx : (oauthConnector flow.connectorId >>= fun item => OAuthGrants.revokeToken L item flow.endpoint
      flow.revocationEndpoint token (if raw.refreshToken.isSome then "refresh_token" else "access_token") flow.clientId
      flow.clientSecret flow.tokenAuthMethod post) = x at htry ⊢
    cases x with
    | ok b =>
      unfold Agrees
      rw [run_bind (returns_out htry)]
      cases b with
      | true => rfl
      | false => rfl
    | error e =>
      unfold Agrees
      cases e with
      | fault =>
        rw [run_bind_raised (raises_out htry)]
        rfl
      | oauth code =>
        rw [run_bind (returns_out htry)]
        rfl
      | connector code =>
        rw [run_bind (returns_out htry)]
        rfl

/-- what is made of an answer of 200 -/
def settle (L : GrantLibs) (post : TokenRequest → TokenReply) (now : String) (flow : OAuthFlow) (content : String) :
    Except Raised OAuthCompletion :=
  match L.loads content with
  | .tooDeep => .error .fault
  | .malformed => .error (OAuthGrants.rejectUnacceptedGrant L flow .tokenExchangeFailed ⟨none, none⟩ post)
  | .value rawToken =>
    match L.validateToken content with
    | none => .error (OAuthGrants.rejectUnacceptedGrant L flow .tokenExchangeFailed (rawTokens rawToken) post)
    | some token =>
      match acceptToken L now flow token with
      | .error (.oauth code) => .error (OAuthGrants.rejectUnacceptedGrant L flow code (rawTokens rawToken) post)
      | .error (.connector _) =>
        .error (OAuthGrants.rejectUnacceptedGrant L flow .tokenExchangeFailed (rawTokens rawToken) post)
      | .error .fault => .error .fault
      | .ok completion => .ok completion

/-- **One exchange.** The exchange of a callback ends as the computation of `OAuthGrants` says. -/
theorem exchange_agrees : Agrees (exchange L post now flow code s) (OAuthGrants.exchange L now flow code post) := by
  rw [exchange, OAuthGrants.exchange]
  refine agrees_bind (agrees_given _) fun bounded _ => ?_
  have hsettle (content : String) : Agrees (settleGrant L post now flow content s) (settle L post now flow content) := by
    unfold settleGrant settle
    cases L.loads content with
    | tooDeep => exact agrees_raise .fault
    | malformed => exact reject_agrees
    | value rawToken =>
      dsimp only
      cases L.validateToken content with
      | none => exact reject_agrees
      | some token =>
        dsimp only
        cases acceptToken L now flow token with
        | ok completion => exact agrees_ret completion
        | error e =>
          cases e with
          | oauth code => exact reject_agrees
          | connector code => exact reject_agrees
          | fault => exact agrees_raise .fault
  have hsend := @agrees_send post s OAuthCompletion maxMetadataBytes .tokenExchangeFailed (exchangeRequest L flow bounded)
    (fun answer => if answer.1 ≠ 200 then raise (.oauth OAuthCode.tokenExchangeFailed.text)
      else settleGrant L post now flow answer.2)
    (fun status content => if status ≠ 200 then .error (.oauth .tokenExchangeFailed) else settle L post now flow content)
    fun status content => agrees_ite (fun _ => agrees_raise (.oauth .tokenExchangeFailed)) fun _ => hsettle content
  convert hsend using 1
  · rfl
  unfold answeredWith
  cases post (exchangeRequest L flow bounded) with
  | failed => rfl
  | fault => rfl
  | answered status content =>
    dsimp only
    by_cases hlong : maxMetadataBytes < content.utf8ByteSize
    · rw [if_pos hlong, if_pos (.inr hlong)]
    · rw [if_neg hlong]
      by_cases hstatus : status = 200
      · rw [if_neg (not_or.2 ⟨not_not.2 hstatus, hlong⟩), if_neg (not_not.2 hstatus)]
        rfl
      · rw [if_pos (.inl hstatus), if_pos hstatus]

end Outcome

end Rally.Cloud.Callback
