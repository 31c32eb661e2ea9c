/-
A connection from its credential to its end (`store_connection`, `verify_connector` and `disconnect` of
`cloud/control_plane.py`), over either vault. Any number of requests run in any order, one operation of the vault, one
verification or one revocation at a time, with any other operations of the vault in between.

- `storeConnection`, `verifyConnector`, `disconnect`: the handlers, with what they answer. `publicConnection`: what is shown
  of a record.
- `World`: a vault, and what has happened on it and around it. `exec`: one operation of a handler.
- `Allowed`: what must have happened before an operation ends a verification or deletes. `code_does`: the handlers keep to
  it, whatever happens in between.
-/
import Rally.Core.Calls
import Rally.Cloud.Callback
import Rally.Cloud.Endpoints
import Rally.Cloud.Generations

namespace Rally.Cloud.Connections

open Py Vault Vaults OAuthGrants Callback

/-! ## What is shown of a connection -/

structure ShownCertification where
  schema : Option String
  canaryTool : Option String
  toolSchemaSha256 : Option String
  toolManifestSha256 : Option String
  certifiedAt : Option String
deriving DecidableEq

structure PublicConnection where
  connectorId : String
  credentialKind : String
  status : String
  verified : Bool
  toolCount : ℤ
  verifiedAt : Option String
  errorCode : Option String
  createdAt : String
  updatedAt : String
  certification : Option ShownCertification
deriving DecidableEq

section Shown

variable (L : Libs) (record : ConnectionRecord)

/-- the checks of `public_connection` up to the manifest -/
def ClaimsCertificate : Prop :=
  record.status = "ready" ∧ record.proofVersion = some certificationSchema ∧ present record.canaryTool = true ∧
    present record.toolSchemaSha256 = true ∧ record.credentialGeneration ≠ "" ∧
    record.toolCount = record.certifiedTools.length

instance : Decidable (ClaimsCertificate record) := by unfold ClaimsCertificate; infer_instance

/-- `certified`, which raises where the tools have no manifest -/
def isCertified : Except VaultError Bool :=
  if ¬ ClaimsCertificate record then .ok false
  else do
    let manifest ← certifiedManifestSha256 L record.certifiedTools
    .ok (record.certifiedManifestSha256 = some manifest &&
      record.certifiedTools.reverse.lookup (record.canaryTool.getD "") = record.toolSchemaSha256)

/-- `public_connection` -/
def publicConnection : Except VaultError PublicConnection := do
  let certified ← isCertified L record
  let status := if certified ∨ record.status ≠ "ready" then record.status else "needs_attention"
  .ok {
    connectorId := record.connectorId
    credentialKind := record.credentialKind
    status := status
    verified := certified
    toolCount := record.toolCount
    verifiedAt := record.verifiedAt
    errorCode := if status = record.status then record.errorCode else some "recertification_required"
    createdAt := record.createdAt
    updatedAt := record.updatedAt
    certification :=
      if certified then
        some ⟨record.proofVersion, record.canaryTool, record.toolSchemaSha256, record.certifiedManifestSha256,
          record.verifiedAt⟩
      else none }

end Shown

/-! ## What a handler waits for -/

/-- the material that a verifier gets -/
structure VerificationMaterial where
  credential : Option String
  endpoint : String
  scheme : String
  account : Option String
deriving DecidableEq

/-- how a verification ends -/
inductive Verification where
  | certified (c : Certificate)
  /-- `HostedConnectorError` -/
  | failed (code : String)
  | timeout
  | fault

/-- what a handler waits for: an operation of the vault, the verifier, the broker -/
inductive Ask where
  | vault (key : String × String) (op : Op)
  | verify (item : HostedConnector) (material : VerificationMaterial) (ids : List String)
  | revoke (item : OAuthConnector) (value : String)

abbrev Ask.Answer : Ask → Type
  | .vault _ _ => Reply
  | .verify _ _ _ => Verification
  | .revoke _ _ => Except Callback.Trouble Bool

/-- what a handler answers -/
inductive Response where
  | connection (shown : PublicConnection)
  | disconnected (connectorId : String) (disconnected providerRevoked providerActionRequired : Bool)
  /-- `HTTPException` -/
  | refused (status : ℕ) (detail : String)
  | fault
  /-- what another request does with a reply of the vault -/
  | other (reply : Reply)

abbrev Handler := Call Ask Ask.Answer Response

def refuse (status : ℕ) (detail : String) : Handler := .done (.refused status detail)

section Vault

variable (refusal : VaultError → Response) (key : String × String) (op : Op)

/-- an operation of the vault under `except CredentialVaultError` -/
def onVault (next : Answer → Handler) : Handler :=
  .ask (.vault key op) fun reply =>
    match reply with
    | .ok answer => next answer
    | .error (.vault e) => .done (refusal e)
    | .error _ => .done .fault

def onConnection (next : Option StoredConnection → Handler) : Handler :=
  onVault refusal key op fun answer =>
    match answer with
    | .connection stored => next stored
    | _ => .done .fault

def onRecord (next : Option ConnectionRecord → Handler) : Handler :=
  onVault refusal key op fun answer =>
    match answer with
    | .record record => next record
    | _ => .done .fault

def onSecret (next : Option ConnectorSecret → Handler) : Handler :=
  onVault refusal key op fun answer =>
    match answer with
    | .secret secret => next secret
    | _ => .done .fault

def onDone (next : Bool → Handler) : Handler :=
  onVault refusal key op fun answer =>
    match answer with
    | .done done => next done
    | _ => .done .fault

end Vault

/-- `SUPPORTED_CONNECTORS` -/
def supportedConnectors : List String :=
  ["atlassian", "cloudflare", "github", "google-workspace", "hyperagent", "n8n", "salesforce", "slack", "stripe"]

section Handlers

variable (L : GrantLibs)

/-- a connection that is shown, where an error of the vault is answered so -/
def shown (refusal : VaultError → Response) (record : ConnectionRecord) : Handler :=
  match publicConnection L.toLibs record with
  | .ok connection => .done (.connection connection)
  | .error e => .done (refusal e)

/-- nothing handles an error of the vault any more -/
def unhandled (_ : VaultError) : Response := .fault

/-- a verification that ends with a code -/
def needsAttention (code : String) : Verdict := { status := "needs_attention", errorCode := some code }

/-- a verification that ends with a certificate -/
def certifiedVerdict (c : Certificate) : Verdict := { status := "ready", certificate := c }

/-! ## Verifying a grant -/

/-- `normalize_workflow_ids` of a JSON value; `none` for `HostedConnectorError` and `TypeError` -/
def rawWorkflowIds (item : HostedConnector) (raw : Value) : Option (List String) :=
  if !raw.truthy then (normalizeWorkflowIds item []).toOption
  else if item.id ≠ "n8n" then none
  else
    match raw with
    | .list values => do
      let texts ← values.mapM textOf
      (normalizeWorkflowIds item texts).toOption
    -- a text goes by its characters, an object by its keys
    | .str s => (normalizeWorkflowIds item (s.toList.map fun c => String.ofList [c])).toOption
    | .dict fields => (normalizeWorkflowIds item (fields.map Prod.fst).dedup).toOption
    | _ => none

/-- `oauth_verification_material` -/
def oauthVerificationMaterial (item : HostedConnector) (value : String) :
    Except Callback.Trouble (VerificationMaterial × List String) := do
  let bounded ← storedOauthMaterial L value
  match L.loads value with
  | .value (.dict raw) =>
    match resolveEndpoint L.toLibs item bounded.endpoint, rawWorkflowIds item (field raw "allowed_workflow_ids") with
    | .ok endpoint, some ids => .ok (⟨bounded.accessToken, endpoint, "bearer", none⟩, ids)
    | _, _ => .error materialInvalid
  | _ => .error materialInvalid

def verifyRefusal (_ : VaultError) : Response := .refused 503 "could not verify connection"

/-- why a verification was not begun -/
def notBegun (latest : Option StoredConnection) : Handler :=
  match latest with
  | none => refuse 409 "connection_changed"
  | some stored =>
    if stored.record.errorCode = some "disconnect_pending" then refuse 409 "disconnect_pending"
    else if stored.record.status = "verifying" then refuse 409 "verification_in_progress"
    else refuse 409 "connection_changed"

/-- why a verification was not finished -/
def notFinished (latest : Option StoredConnection) : Handler :=
  match latest with
  | none => refuse 409 "connection_changed"
  | some stored =>
    if stored.record.errorCode = some "disconnect_pending" then refuse 409 "disconnect_pending"
    else refuse 409 "connection_changed"

/-- `verify_connector`, where the stored material is not valid -/
def rejectMaterial (key : String × String) (generation code : String) : Handler :=
  onRecord verifyRefusal key (.beginVerification generation) fun begun =>
    match begun with
    | none => refuse 409 "connection_changed"
    | some failed =>
      onRecord verifyRefusal key
        (.finishVerification generation (failed.executionLease.getD "") (needsAttention code)) fun finished =>
          match finished with
          | none => refuse 409 "connection_changed"
          | some record => shown L verifyRefusal record

/-- the end of a verification -/
def finishGrant (key : String × String) (generation lease : String) (v : Verdict) : Handler :=
  onRecord verifyRefusal key (.finishVerification generation lease v) fun finished =>
    match finished with
    | none => onConnection verifyRefusal key .getConnection notFinished
    | some record => shown L unhandled record

/-- `verify_connector`, with the material of the grant -/
def verifyGrant (key : String × String) (generation : String) (item : HostedConnector)
    (material : VerificationMaterial) (ids : List String) : Handler :=
  onRecord verifyRefusal key (.beginVerification generation) fun begun =>
    match begun with
    | none => onConnection verifyRefusal key .getConnection notBegun
    | some begun =>
      .ask (.verify item material ids) fun verification =>
        let finish := finishGrant L key generation (begun.executionLease.getD "")
        match verification with
        | .certified c => finish (certifiedVerdict c)
        | .failed code => finish (needsAttention code)
        | .timeout => finish (needsAttention "verification_timeout")
        | .fault => .done .fault

/-- `verify_connector`, of the connection as it was read -/
def verifyStored (key : String × String) (stored : StoredConnection) : Handler :=
  if stored.record.status = "ready" then shown L verifyRefusal stored.record
  else if stored.record.errorCode = some "disconnect_pending" then refuse 409 "disconnect_pending"
  else if stored.secret.kind ≠ .oauthRefreshToken then refuse 409 "oauth_verification_required"
  else
    match connector key.2 with
    | .error _ => .done .fault
    | .ok item =>
      match oauthVerificationMaterial L item stored.secret.value with
      | .error (.oauth code) => rejectMaterial L key stored.record.credentialGeneration code
      | .error _ => .done .fault
      | .ok (material, ids) => verifyGrant L key stored.record.credentialGeneration item material ids

/-- `verify_connector` -/
def verifyConnector (uid connectorId : String) : Handler :=
  if connectorId ∉ supportedConnectors then refuse 404 "connector is not available"
  else
    onConnection verifyRefusal (uid, connectorId) .getConnection fun stored =>
      match stored with
      | none => refuse 404 "connection not found"
      | some stored => verifyStored L (uid, connectorId) stored

/-! ## Storing a token -/

def storeRefusal : VaultError → Response
  | .conflict => .refused 409 "disconnect_existing_connection"
  | _ => .refused 503 "could not store connection"

/-- the material of a token, with the workflows it is for -/
def storedToken (item : HostedConnector) (body : CredentialInput) : Except StoreError (Resolved × List String) := do
  let resolved ← storeMaterial L.toLibs item body
  let ids ← normalizeWorkflowIds item body.workflowIds
  .ok (resolved, ids)

/-- what the verifier gets of a token -/
def tokenVerification (body : CredentialInput) (endpoint : String) : VerificationMaterial :=
  ⟨some body.credential, endpoint, body.scheme, body.account⟩

/-- the end of the verification of a token -/
def finishToken (key : String × String) (generation lease : String) (v : Verdict) : Handler :=
  onRecord storeRefusal key (.finishVerification generation lease v) fun finished =>
    match finished with
    | none => refuse 409 "connection_changed"
    | some record => shown L unhandled record

/-- `store_connection`, once the token is stored -/
def verifyToken (key : String × String) (generation : String) (item : HostedConnector)
    (material : VerificationMaterial) (ids : List String) : Handler :=
  onRecord storeRefusal key (.beginVerification generation) fun begun =>
    match begun with
    | none => refuse 409 "connection_changed"
    | some begun =>
      .ask (.verify item material ids) fun verification =>
        let finish := finishToken L key generation (begun.executionLease.getD "")
        match verification with
        | .certified c => finish (certifiedVerdict c)
        | .failed code => finish (needsAttention code)
        | _ => .done .fault

/-- `store_connection`, where there is no connection yet -/
def storeToken (key : String × String) (item : HostedConnector) (body : CredentialInput) : Handler :=
  match storedToken L item body with
  | .error (.hosted code) => refuse 422 code
  | .error .requiresOAuth => refuse 409 "this connector requires OAuth"
  | .ok (resolved, ids) =>
    match ConnectorSecret.make resolved.stored body.kind with
    | none => .done (storeRefusal .error)
    | some secret =>
      onRecord storeRefusal key (.put secret) fun record =>
        match record with
        | none => .done .fault
        | some record =>
          verifyToken L key record.credentialGeneration item (tokenVerification body resolved.endpoint) ids

/-- `store_connection` -/
def storeConnection (uid connectorId : String) (body : CredentialInput) : Handler :=
  if connectorId ∉ supportedConnectors then refuse 404 "connector is not available"
  else
    match connector connectorId with
    | .error _ => .done .fault
    | .ok item =>
      if !tokenReady item then refuse 409 "this connector requires OAuth"
      else
        onSecret storeRefusal (uid, connectorId) .getSecret fun secret =>
          match secret with
          | some _ => refuse 409 "disconnect_existing_connection"
          | none => storeToken L (uid, connectorId) item body

/-! ## Disconnecting -/

def disconnectRefusal : VaultError → Response
  | .busy => .refused 409 "connection_busy"
  | _ => .refused 503 "could not disconnect provider"

/-- `disconnect`, after the provider -/
def removeConnection (key : String × String) (generation : String) (providerRevoked : Bool) : Handler :=
  onDone disconnectRefusal key (.delete (some generation) true) fun deleted =>
    if deleted then .done (.disconnected key.2 true providerRevoked !providerRevoked)
    else refuse 409 "connection_changed"

/-- `disconnect`, of the connection that is being disconnected -/
def disconnectStored (key : String × String) (stored : StoredConnection) : Handler :=
  let remove := removeConnection key stored.record.credentialGeneration
  if stored.secret.kind = .oauthRefreshToken then
    match oauthConnector key.2 with
    | .error _ => .done .fault
    | .ok item =>
      .ask (.revoke item stored.secret.value) fun answer =>
        match answer with
        | .ok providerRevoked => remove providerRevoked
        | .error (.oauth _) =>
          refuse 502 "provider revocation did not complete; the connection remains sealed"
        | .error _ => .done .fault
  else remove false

/-- `disconnect` -/
def disconnect (uid connectorId : String) : Handler :=
  if connectorId ∉ supportedConnectors then refuse 404 "connector is not available"
  else
    onConnection disconnectRefusal (uid, connectorId) .beginDisconnect fun disconnecting =>
      match disconnecting with
      | none => .done (.disconnected connectorId false false false)
      | some stored => disconnectStored (uid, connectorId) stored

/-! ## Requests -/

/-- the operations that other requests make: none but these handlers ends a verification or deletes, and nothing marks -/
def Bystander : Op → Prop
  | .finishVerification _ _ _ => False
  | .delete _ _ => False
  | .mark _ => False
  | _ => True

inductive Request where
  | store (uid connectorId : String) (body : CredentialInput)
  | verify (uid connectorId : String)
  | disconnect (uid connectorId : String)
  /-- an operation of the vault for anything else -/
  | operation (key : String × String) (op : { op : Op // Bystander op })

def code : Request → Handler
  | .store uid connectorId body => storeConnection L uid connectorId body
  | .verify uid connectorId => verifyConnector L uid connectorId
  | .disconnect uid connectorId => disconnect uid connectorId
  | .operation key op => .ask (.vault key op.1) fun reply => .done (.other reply)

end Handlers

/-! ## Runs -/

/-- what happens on a vault and around it -/
inductive Event (σ α : Type) where
  | vault (e : Entry σ α)
  | verified (item : HostedConnector) (material : VerificationMaterial) (ids : List String) (answer : Verification)
  | revoked (item : OAuthConnector) (value : String) (answer : Except Callback.Trouble Bool)

/-- the vault, and what has happened -/
structure World (σ α : Type) where
  now : σ
  past : List (Event σ α)

/-- what the outside does to an operation: the services of the vault, the verifier, the provider -/
structure Outside (δ : Type) where
  services : δ
  verification : Verification
  post : TokenRequest → TokenReply

/-- the steps of the vault among the events -/
def vaultSteps {σ α : Type} (past : List (Event σ α)) : List (Entry σ α) :=
  past.filterMap fun
    | .vault e => some e
    | _ => none

section Runs

variable {σ α κ δ : Type} (S : Served σ α κ δ) (L : GrantLibs)

/-- the step of the vault that an operation makes -/
def stepOf (key : String × String) (op : Op) (services : δ) (s : σ) : Entry σ α :=
  ⟨s, S.act key op services, (S.answer s (S.act key op services)).2⟩

/-- the vault after an operation -/
def World.did (w : World σ α) (key : String × String) (op : Op) (services : δ) : World σ α :=
  let e := stepOf S key op services w.now
  ⟨e.after, w.past ++ [.vault e]⟩

/-- an operation of a handler -/
def exec : (o : Ask) → Outside δ → World σ α → World σ α × o.Answer
  | .vault key op, outside, w =>
    (w.did S key op outside.services, (S.answer w.now (S.act key op outside.services)).1)
  | .verify item material ids, outside, w =>
    (⟨w.now, w.past ++ [.verified item material ids outside.verification]⟩, outside.verification)
  | .revoke item value, outside, w =>
    let answer := (Callback.revoke L outside.post item value { status := .verifying }).out
    (⟨w.now, w.past ++ [.revoked item value answer]⟩, answer)

/-- a run goes on -/
def Evolves (w w' : World σ α) : Prop :=
  ∃ more, w'.past = w.past ++ more ∧ Trace S.step w.now (vaultSteps more) w'.now

/-- a step left the connection with a credential of this generation, which opens to the secret -/
def Held (past : List (Event σ α)) (k : String × String) (generation : String) (secret : ConnectorSecret) : Prop :=
  ∃ e, .vault e ∈ past ∧ S.key e.act = k ∧ (S.seals e.act → S.Has e.after k generation secret)

/-- the material that a secret stands for -/
inductive StandsFor (item : HostedConnector) (secret : ConnectorSecret) : VerificationMaterial → List String → Prop where
  | grant {material : VerificationMaterial} {ids : List String} (kind : secret.kind = .oauthRefreshToken)
    (opened : oauthVerificationMaterial L item secret.value = .ok (material, ids)) : StandsFor item secret material ids
  | token {body : CredentialInput} {resolved : Resolved} {ids : List String} (kind : secret.kind = body.kind)
    (packed : storedToken L item body = .ok (resolved, ids)) (value : secret.value = resolved.stored) :
    StandsFor item secret (tokenVerification body resolved.endpoint) ids

/-- the verifier certified the material of the credential of this generation -/
def Certified (past : List (Event σ α)) (connectorId : String) (secret : ConnectorSecret) (c : Certificate) : Prop :=
  ∃ item material ids, connector connectorId = .ok item ∧ StandsFor L item secret material ids ∧
    .verified item material ids (.certified c) ∈ past

/-- where the credential is an OAuth grant, the provider has been asked to revoke it and has not failed -/
def Released (past : List (Event σ α)) (connectorId : String) (secret : ConnectorSecret) : Prop :=
  secret.kind = .oauthRefreshToken →
    ∃ item providerRevoked, oauthConnector connectorId = .ok item ∧ .revoked item secret.value (.ok providerRevoked) ∈ past

/-- what must have happened before an operation -/
def Allowed (past : List (Event σ α)) (k : String × String) : Op → Prop
  | .finishVerification generation _ v =>
    v.status = "ready" → ∃ secret, Held S past k generation secret ∧ Certified L past k.2 secret v.certificate
  | .delete generation _ =>
    ∃ g secret, generation = some g ∧ Held S past k g secret ∧ Released past k.2 secret
  | .mark _ => False
  | _ => True

/-- each operation of the vault is allowed where it stands -/
def Sanctioned (past : List (Event σ α)) : Prop :=
  ∀ front e back, past = front ++ .vault e :: back → Allowed S L front (S.key e.act) (S.op e.act)

/-! ### What the handlers keep to -/

/-- an operation of the vault that is done now is allowed -/
def Keeps (w w' : World σ α) : Prop :=
  ∀ e, w'.past = w.past ++ [.vault e] → Allowed S L w.past (S.key e.act) (S.op e.act)

variable {S L} {w w' w'' : World σ α} {k key : String × String} {generation : String} {secret : ConnectorSecret}
  {c : Certificate}

theorem vaultSteps_append (past more : List (Event σ α)) :
    vaultSteps (past ++ more) = vaultSteps past ++ vaultSteps more := List.filterMap_append

theorem mem_vaultSteps {past : List (Event σ α)} {e : Entry σ α} : e ∈ vaultSteps past ↔ .vault e ∈ past := by
  unfold vaultSteps
  rw [List.mem_filterMap]
  constructor
  · rintro ⟨event, hevent, he⟩
    cases event with
    | vault e' => cases he; exact hevent
    | verified item material ids answer => cases he
    | revoked item value answer => cases he
  · intro he
    exact ⟨_, he, rfl⟩

theorem evolves_refl (w : World σ α) : Evolves S w w := ⟨[], (List.append_nil _).symm, .nil⟩

theorem evolves_trans (h : Evolves S w w') (h' : Evolves S w' w'') : Evolves S w w'' := by
  obtain ⟨more, hpast, hrun⟩ := h
  obtain ⟨more', hpast', hrun'⟩ := h'
  refine ⟨more ++ more', ?_, ?_⟩
  · rw [hpast', hpast, List.append_assoc]
  · rw [vaultSteps_append]
    exact hrun.append hrun'

theorem Evolves.subset (h : Evolves S w w') : w.past ⊆ w'.past := by
  obtain ⟨more, hpast, -⟩ := h
  rw [hpast]
  exact List.subset_append_left _ _

theorem exec_evolves (o : Ask) (outside : Outside δ) (w : World σ α) : Evolves S w (exec S L o outside w).1 := by
  cases o with
  | vault key op => exact ⟨[_], rfl, Trace.single rfl⟩
  | verify item material ids => exact ⟨[_], rfl, .nil⟩
  | revoke item value => exact ⟨[_], rfl, .nil⟩

theorem Held.mono {past past' : List (Event σ α)} (h : Held S past k generation secret) (hsub : past ⊆ past') :
    Held S past' k generation secret := by
  obtain ⟨e, he, hrest⟩ := h
  exact ⟨e, hsub he, hrest⟩

/-- what handlers may count on -/
def evolution (S : Served σ α κ δ) : Rely (World σ α) Empty := .plain (Evolves S) evolves_refl evolves_trans

/-- a handler in this place keeps to what is allowed, whatever happens in between -/
def Does (S : Served σ α κ δ) (L : GrantLibs) (handler : Handler) (w : World σ α) : Prop :=
  handler.Meets (exec S L) Call.always (evolution S) (Keeps S L) (fun _ _ => True) ∅ w

theorem does_done {r : Response} : Does S L (.done r) w := Call.meets_done fun _ _ => trivial

theorem does_ask {o : Ask} {next : o.Answer → Handler}
    (h : ∀ w', Evolves S w w' → ∀ outside, Keeps S L w' (exec S L o outside w').1 ∧
      Does S L (next (exec S L o outside w').2) (exec S L o outside w').1) : Does S L (.ask o next) w :=
  Call.meets_step fun w' hw _ outside =>
    ⟨exec_evolves o outside w', (h w' hw outside).1, fun x _ => x.elim, (h w' hw outside).2⟩

/-- an allowed operation of the vault -/
theorem does_vault (hS : S.Answers) {op : Op} {next : Reply → Handler}
    (hallowed : ∀ w', Evolves S w w' → Allowed S L w'.past key op)
    (h : ∀ w' services, Evolves S w w' →
      Does S L (next (S.answer w'.now (S.act key op services)).1) (w'.did S key op services)) :
    Does S L (.ask (.vault key op) next) w := by
  refine does_ask fun w' hw outside => ⟨fun e he => ?_, h w' outside.services hw⟩
  obtain rfl : stepOf S key op outside.services w'.now = e := by simpa [exec, World.did] using he
  rw [show (stepOf S key op outside.services w'.now).act = S.act key op outside.services from rfl, hS.key, hS.op]
  exact hallowed w' hw

theorem does_verify {item : HostedConnector} {material : VerificationMaterial} {ids : List String}
    {next : Verification → Handler}
    (h : ∀ w' verification, Evolves S w w' → .verified item material ids verification ∈ w'.past →
      Does S L (next verification) w') : Does S L (.ask (.verify item material ids) next) w := by
  refine does_ask fun w' hw outside => ⟨fun e he => ?_, ?_⟩
  · simp [exec] at he
  · exact h _ _ (evolves_trans hw (exec_evolves (L := L) (.verify item material ids) outside w'))
      (List.mem_append_right _ List.mem_cons_self)

theorem does_revoke {item : OAuthConnector} {value : String} {next : Except Callback.Trouble Bool → Handler}
    (h : ∀ w' answer, Evolves S w w' → .revoked item value answer ∈ w'.past → Does S L (next answer) w') :
    Does S L (.ask (.revoke item value) next) w := by
  refine does_ask fun w' hw outside => ⟨fun e he => ?_, ?_⟩
  · simp [exec] at he
  · exact h _ _ (evolves_trans hw (exec_evolves (L := L) (.revoke item value) outside w'))
      (List.mem_append_right _ List.mem_cons_self)

theorem did_evolves {op : Op} {services : δ} (h : Evolves S w w') : Evolves S w (w'.did S key op services) :=
  evolves_trans h ⟨[_], rfl, Trace.single rfl⟩

/-- an allowed operation under `except CredentialVaultError` -/
theorem does_onVault (hS : S.Answers) {refusal : VaultError → Response} {op : Op} {next : Answer → Handler}
    (hallowed : ∀ w', Evolves S w w' → Allowed S L w'.past key op)
    (h : ∀ w' services answer, Evolves S w w' → (S.answer w'.now (S.act key op services)).1 = .ok answer →
      Does S L (next answer) (w'.did S key op services)) : Does S L (onVault refusal key op next) w := by
  refine does_vault hS hallowed fun w' services hw => ?_
  cases hreply : (S.answer w'.now (S.act key op services)).1 with
  | ok answer => exact h w' services answer hw hreply
  | error raised =>
    cases raised with
    | vault e => exact does_done
    | fault f => exact does_done
    | typeError => exact does_done

theorem does_onConnection (hS : S.Answers) {refusal : VaultError → Response} {op : Op}
    {next : Option StoredConnection → Handler} (hallowed : ∀ w', Evolves S w w' → Allowed S L w'.past key op)
    (h : ∀ w' services stored, Evolves S w w' →
      (S.answer w'.now (S.act key op services)).1 = .ok (.connection stored) →
        Does S L (next stored) (w'.did S key op services)) : Does S L (onConnection refusal key op next) w := by
  refine does_onVault hS hallowed fun w' services answer hw hreply => ?_
  cases answer with
  | connection stored => exact h w' services stored hw hreply
  | _ => exact does_done

theorem does_onRecord (hS : S.Answers) {refusal : VaultError → Response} {op : Op}
    {next : Option ConnectionRecord → Handler} (hallowed : ∀ w', Evolves S w w' → Allowed S L w'.past key op)
    (h : ∀ w' services record, Evolves S w w' →
      (S.answer w'.now (S.act key op services)).1 = .ok (.record record) →
        Does S L (next record) (w'.did S key op services)) : Does S L (onRecord refusal key op next) w := by
  refine does_onVault hS hallowed fun w' services answer hw hreply => ?_
  cases answer with
  | record record => exact h w' services record hw hreply
  | _ => exact does_done

/-! ### The credential that an answer is about -/

/-- what is read, or taken out for a disconnect -/
theorem held_connected (hS : S.Answers) {op : Op} {services : δ} {stored : StoredConnection}
    (hop : op = .getConnection ∨ op = .beginDisconnect)
    (hreply : (S.answer w.now (S.act key op services)).1 = .ok (.connection (some stored))) :
    Held S (w.did S key op services).past key stored.record.credentialGeneration stored.secret := by
  have hhas := hS.connected w.now (S.act key op services) stored (by rwa [hS.op]) hreply
  refine ⟨stepOf S key op services w.now, List.mem_append_right _ List.mem_cons_self, hS.key _ _ _, fun _ => ?_⟩
  rwa [hS.key] at hhas

/-- what is put -/
theorem held_put (hS : S.Answers) {services : δ} {record : ConnectionRecord}
    (hreply : (S.answer w.now (S.act key (.put secret) services)).1 = .ok (.record (some record))) :
    Held S (w.did S key (.put secret) services).past key record.credentialGeneration secret := by
  refine ⟨stepOf S key (.put secret) services w.now, List.mem_append_right _ List.mem_cons_self, hS.key _ _ _,
    fun hseals => ?_⟩
  have hhas := hS.put w.now (S.act key (.put secret) services) secret record (hS.op _ _ _) hseals hreply
  rwa [hS.key] at hhas

theorem Certified.mono {past past' : List (Event σ α)} {connectorId : String} (h : Certified L past connectorId secret c)
    (hsub : past ⊆ past') : Certified L past' connectorId secret c := by
  obtain ⟨item, material, ids, hitem, hstands, hverified⟩ := h
  exact ⟨item, material, ids, hitem, hstands, hsub hverified⟩

/-- a certificate of the verifier ends a verification -/
theorem allowed_certified {lease : String} (hheld : Held S w.past key generation secret)
    (hcertified : Certified L w.past key.2 secret c) :
    ∀ w', Evolves S w w' → Allowed S L w'.past key (.finishVerification generation lease (certifiedVerdict c)) :=
  fun _ hw _ => ⟨secret, hheld.mono hw.subset, hcertified.mono hw.subset⟩

/-- any other end needs nothing -/
theorem allowed_needsAttention {lease detail : String} :
    ∀ w', Evolves S w w' → Allowed S L w'.past key (.finishVerification generation lease (needsAttention detail)) :=
  fun _ _ hready => absurd hready (show "needs_attention" ≠ "ready" by decide)

/-! ### The handlers -/

theorem shown_does {refusal : VaultError → Response} {record : ConnectionRecord} :
    Does S L (shown L refusal record) w := by
  unfold shown
  cases publicConnection L.toLibs record with
  | ok connection => exact does_done
  | error e => exact does_done

theorem notFinished_does {latest : Option StoredConnection} : Does S L (notFinished latest) w := by
  unfold notFinished
  cases latest with
  | none => exact does_done
  | some stored =>
    dsimp only
    split_ifs
    · exact does_done
    · exact does_done

theorem notBegun_does {latest : Option StoredConnection} : Does S L (notBegun latest) w := by
  unfold notBegun
  cases latest with
  | none => exact does_done
  | some stored =>
    dsimp only
    split_ifs
    · exact does_done
    · exact does_done
    · exact does_done

theorem rejectMaterial_does (hS : S.Answers) {detail : String} :
    Does S L (rejectMaterial L key generation detail) w := by
  refine does_onRecord hS (fun _ _ => trivial) fun w₁ services begun _ _ => ?_
  cases begun with
  | none => exact does_done
  | some failed =>
    refine does_onRecord hS allowed_needsAttention fun w₂ services finished _ _ => ?_
    cases finished with
    | none => exact does_done
    | some record => exact shown_does

theorem finishGrant_does (hS : S.Answers) {lease : String} {v : Verdict}
    (hallowed : ∀ w', Evolves S w w' → Allowed S L w'.past key (.finishVerification generation lease v)) :
    Does S L (finishGrant L key generation lease v) w := by
  refine does_onRecord hS hallowed fun w₁ services finished _ _ => ?_
  cases finished with
  | none => exact does_onConnection hS (fun _ _ => trivial) fun _ _ _ _ _ => notFinished_does
  | some record => exact shown_does

theorem verifyGrant_does (hS : S.Answers) {item : HostedConnector} {material : VerificationMaterial} {ids : List String}
    (hheld : Held S w.past key generation secret) (hitem : connector key.2 = .ok item)
    (hstands : StandsFor L item secret material ids) : Does S L (verifyGrant L key generation item material ids) w := by
  refine does_onRecord hS (fun _ _ => trivial) fun w₁ services begun hw₁ _ => ?_
  cases begun with
  | none => exact does_onConnection hS (fun _ _ => trivial) fun _ _ _ _ _ => notBegun_does
  | some begun =>
    refine does_verify fun w₂ verification hw₂ hverified => ?_
    have hheld₂ := hheld.mono (evolves_trans (did_evolves hw₁) hw₂).subset
    cases verification with
    | certified c => exact finishGrant_does hS (allowed_certified hheld₂ ⟨item, material, ids, hitem, hstands, hverified⟩)
    | failed detail => exact finishGrant_does hS allowed_needsAttention
    | timeout => exact finishGrant_does hS allowed_needsAttention
    | fault => exact does_done

theorem verifyStored_does (hS : S.Answers) {stored : StoredConnection}
    (hheld : Held S w.past key stored.record.credentialGeneration stored.secret) :
    Does S L (verifyStored L key stored) w := by
  unfold verifyStored
  split_ifs with hready hpending hkind
  · exact shown_does
  · exact does_done
  · exact does_done
  · cases hitem : connector key.2 with
    | error e => exact does_done
    | ok item =>
      dsimp only
      cases hmaterial : oauthVerificationMaterial L item stored.secret.value with
      | ok opened => exact verifyGrant_does hS hheld hitem (.grant (not_not.1 hkind) hmaterial)
      | error e =>
        cases e with
        | oauth detail => exact rejectMaterial_does hS
        | _ => exact does_done

theorem verifyConnector_does (hS : S.Answers) (uid connectorId : String) :
    Does S L (verifyConnector L uid connectorId) w := by
  unfold verifyConnector
  split_ifs
  · refine does_onConnection hS (fun _ _ => trivial) fun w₁ services stored _ hreply => ?_
    cases stored with
    | none => exact does_done
    | some stored => exact verifyStored_does hS (held_connected hS (.inl rfl) hreply)
  · exact does_done

theorem finishToken_does (hS : S.Answers) {lease : String} {v : Verdict}
    (hallowed : ∀ w', Evolves S w w' → Allowed S L w'.past key (.finishVerification generation lease v)) :
    Does S L (finishToken L key generation lease v) w := by
  refine does_onRecord hS hallowed fun w₁ services finished _ _ => ?_
  cases finished with
  | none => exact does_done
  | some record => exact shown_does

theorem verifyToken_does (hS : S.Answers) {item : HostedConnector} {material : VerificationMaterial} {ids : List String}
    (hheld : Held S w.past key generation secret) (hitem : connector key.2 = .ok item)
    (hstands : StandsFor L item secret material ids) : Does S L (verifyToken L key generation item material ids) w := by
  refine does_onRecord hS (fun _ _ => trivial) fun w₁ services begun hw₁ _ => ?_
  cases begun with
  | none => exact does_done
  | some begun =>
    refine does_verify fun w₂ verification hw₂ hverified => ?_
    have hheld₂ := hheld.mono (evolves_trans (did_evolves hw₁) hw₂).subset
    cases verification with
    | certified c => exact finishToken_does hS (allowed_certified hheld₂ ⟨item, material, ids, hitem, hstands, hverified⟩)
    | failed detail => exact finishToken_does hS allowed_needsAttention
    | timeout => exact does_done
    | fault => exact does_done

theorem storeToken_does (hS : S.Answers) {item : HostedConnector} (hitem : connector key.2 = .ok item)
    (body : CredentialInput) : Does S L (storeToken L key item body) w := by
  unfold storeToken
  cases hpacked : storedToken L item body with
  | error e =>
    cases e with
    | hosted detail => exact does_done
    | requiresOAuth => exact does_done
  | ok packed =>
    cases hsecret : ConnectorSecret.make packed.1.stored body.kind with
    | none =>
      simp only [hsecret]
      exact does_done
    | some secret =>
      simp only [hsecret]
      obtain ⟨hvalue, hkind⟩ := ConnectorSecret.make_eq_some hsecret
      refine does_onRecord hS (fun _ _ => trivial) fun w₁ services record _ hreply => ?_
      cases record with
      | none => exact does_done
      | some record => exact verifyToken_does hS (held_put hS hreply) hitem (.token hkind hpacked hvalue)

theorem storeConnection_does (hS : S.Answers) (uid connectorId : String) (body : CredentialInput) :
    Does S L (storeConnection L uid connectorId body) w := by
  unfold storeConnection
  split_ifs
  · cases hitem : connector connectorId with
    | error e => exact does_done
    | ok item =>
      dsimp only
      split_ifs
      · exact does_done
      · refine does_onVault hS (fun _ _ => trivial) fun w₁ services answer _ _ => ?_
        cases answer with
        | secret secret =>
          cases secret with
          | none => exact storeToken_does hS hitem body
          | some secret => exact does_done
        | _ => exact does_done
  · exact does_done

theorem removeConnection_does (hS : S.Answers) {providerRevoked : Bool} (hheld : Held S w.past key generation secret)
    (hreleased : Released w.past key.2 secret) : Does S L (removeConnection key generation providerRevoked) w := by
  refine does_onVault hS (fun w' hw => ?_) fun w₁ services answer _ _ => ?_
  · refine ⟨generation, secret, rfl, hheld.mono hw.subset, fun hkind => ?_⟩
    obtain ⟨item, revoked, hitem, hevent⟩ := hreleased hkind
    exact ⟨item, revoked, hitem, hw.subset hevent⟩
  · cases answer with
    | done deleted =>
      cases deleted with
      | true => exact does_done
      | false => exact does_done
    | _ => exact does_done

theorem disconnectStored_does (hS : S.Answers) {stored : StoredConnection}
    (hheld : Held S w.past key stored.record.credentialGeneration stored.secret) :
    Does S L (disconnectStored key stored) w := by
  unfold disconnectStored
  dsimp only
  split_ifs with hkind
  · cases hitem : oauthConnector key.2 with
    | error e => exact does_done
    | ok item =>
      refine does_revoke fun w₁ answer hw₁ hrevoked => ?_
      cases answer with
      | ok providerRevoked =>
        exact removeConnection_does hS (hheld.mono hw₁.subset) fun _ => ⟨item, providerRevoked, hitem, hrevoked⟩
      | error e =>
        cases e with
        | oauth detail => exact does_done
        | _ => exact does_done
  · exact removeConnection_does hS hheld fun hgrant => absurd hgrant hkind

theorem disconnect_does (hS : S.Answers) (uid connectorId : String) : Does S L (disconnect uid connectorId) w := by
  unfold disconnect
  split_ifs
  · refine does_onConnection hS (fun _ _ => trivial) fun w₁ services stored _ hreply => ?_
    cases stored with
    | none => exact does_done
    | some stored => exact disconnectStored_does hS (held_connected hS (.inr rfl) hreply)
  · exact does_done

/-- every request keeps to what is allowed, whatever happens in between -/
theorem code_does (hS : S.Answers) (request : Request) : Does S L (code L request) w := by
  cases request with
  | store uid connectorId body => exact storeConnection_does hS uid connectorId body
  | verify uid connectorId => exact verifyConnector_does hS uid connectorId
  | disconnect uid connectorId => exact disconnect_does hS uid connectorId
  | operation key op =>
    obtain ⟨op, hop⟩ := op
    refine does_vault hS (fun _ _ => ?_) fun _ _ _ => does_done
    cases op with
    | finishVerification generation lease v => exact hop.elim
    | delete generation requireDisconnect => exact hop.elim
    | mark v => exact hop.elim
    | _ => trivial

end Runs

end Rally.Cloud.Connections
