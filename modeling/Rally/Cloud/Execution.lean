/-
One hosted connector call (`HostedConnectorExecutor.execute` of `cloud/hosted_connector_execution.py`): the receipts,
the lease, two occasions to refresh the credential, the provider, and the cleanup.

- `World`: every answer from outside, one for each place that waits for one. Nothing is assumed of them.
- `execute`: the procedure, with its local variables, handlers and `finally` part.
-/
import Rally.Cloud.Caller
import Rally.Cloud.Policy
import Rally.Core.Proc

namespace Rally.Cloud

open Py

/-! ## What a call sees -/

/-- an exception of the vault -/
inductive VaultExn where
  | vault (e : VaultError)
  | fault (f : Fault)

def VaultExn.exn : VaultExn → Exn
  | .vault e => .vault e
  | .fault f => .fault f

/-- an exception of the refresher: `HostedExecutionError("credential_refresh_failed")`, or any other -/
inductive RefreshExn where
  | refused
  | fault (f : Fault)

def RefreshExn.exn : RefreshExn → Exn
  | .refused => hosted .credentialRefreshFailed
  | .fault f => .fault f

/-- the answers while a credential is refreshed -/
structure RefreshAnswers where
  refreshed : Except RefreshExn String
  rotated : Except VaultExn (Option ConnectionRecord)
  winner : Except VaultExn (Option StoredConnection)

/-- the answers from outside -/
structure World where
  /-- the clock at the start and at the end, in microseconds since 1970, and the time between -/
  created : ℤ
  completed : ℤ
  elapsedMs : ℤ
  executionId : String
  started : Except Fault Unit
  claimed : Except VaultExn (Option StoredConnection)
  current : Except VaultExn (Option StoredConnection)
  /-- when the claimed grant has expired -/
  early : RefreshAnswers
  provider : Provider
  /-- when the provider does not accept the credential -/
  late : RefreshAnswers
  providerAgain : Provider
  quarantined : Except VaultExn Bool
  released : Except VaultExn Bool
  recorded : Except Fault Unit

structure Request where
  uid : String
  connectorId : String
  toolName : String
  arguments : Obj

structure HostedExecutionResult where
  payload : Obj
  receipt : ExecutionReceipt

/-- a call of the vault with its answer -/
inductive VaultCall where
  | claim (answer : Except Exn (Option StoredConnection))
  | get (answer : Except Exn (Option StoredConnection))
  | rotate (generation lease : String) (expected secret : ConnectorSecret) (answer : Except Exn (Option ConnectionRecord))
  | quarantine (generation lease : String) (expected : ConnectorSecret) (answer : Except Exn Bool)
  | release (lease : String) (answer : Except Exn Bool)

/-- what a call makes visible -/
inductive Ev where
  | receipt (uid : String) (receipt : ExecutionReceipt) (answer : Except Exn Unit)
  | vault (uid connectorId : String) (call : VaultCall)
  | refresh (previous : ConnectorSecret) (answer : Except Exn String)
  | tool (endpoint : String) (headers : List (String × String)) (name : String) (arguments : List (String × Value))
      (schemaSha256 : String) (answer : Except Exn HostedCallResult)

/-- the local variables that outlive an exception -/
structure Locals where
  secret : Option ConnectorSecret := none
  generation : Option String := none
  manifest : Option String := none
  policy : Option String := none
  lease : Option String := none
  called : Option HostedCallResult := none
  resultHash : Option String := none
  resultSize : Option ℕ := none
  resultIsError : Option Bool := none
  failure : Option Code := none
  cancelled : Bool := false

/-- a part of a call -/
abbrev Step (α : Type) := Proc Ev Exn Locals α

open Proc

section Steps

variable (L : Libs) (req : Request)

/-! ## Receipts and the vault -/

/-- `_record` -/
def record (receipt : ExecutionReceipt) (answer : Except Fault Unit) : Step Unit :=
  attempt (await (.receipt req.uid receipt) (answer.mapError .fault)) fun e =>
    if e.isException then raise (hosted .receiptUnavailable) else raise e

/-- wait for the vault -/
def askVault {α : Type} (call : Except Exn α → VaultCall) (answer : Except VaultExn α) : Step α :=
  await (fun a => .vault req.uid req.connectorId (call a)) (answer.mapError VaultExn.exn)

/-- the claim of the connection, and why there is none -/
def claimConnection (w : World) : Step StoredConnection := do
  let claimed ← attempt (askVault req .claim w.claimed) fun
    | .vault .busy => raise (hosted .connectionBusy)
    | e => raise e
  match claimed with
  | some stored => ret stored
  | none => do
    let current ← askVault req .get w.current
    raise (hosted (if current.isNone then .connectionNotFound else .connectionNotReady))

/-- a text that is there and not empty -/
def present (value : Option String) : Bool := value.getD "" ≠ ""

/-- the claimed record is ready and its certification agrees with itself -/
def checkCertification (record : ConnectionRecord) : Except Exn Unit :=
  if record.status ≠ "ready" ∨ record.proofVersion ≠ some certificationSchema ∨ ¬ present record.canaryTool ∨
      ¬ present record.toolSchemaSha256 ∨ record.credentialGeneration = "" ∨ ¬ present record.executionLease ∨
      record.toolCount ≠ record.certifiedTools.length then
    .error (hosted .connectionNotReady)
  else do
    let manifest ← (certifiedManifestSha256 L record.certifiedTools).mapError .vault
    if record.certifiedManifestSha256 ≠ some manifest then .error (hosted .connectionNotReady) else .ok ()

/-! ## Credentials -/

/-- a credential in use -/
structure InUse where
  secret : ConnectorSecret
  material : RuntimeMaterial
  generation : String

/-- the credential that another call has put in place, if it is fit to be used -/
def adoptWinner (item : HostedConnector) (previous : ConnectorSecret) (generation lease : String) (now : ℤ)
    (winner : Option StoredConnection) : Except Exn InUse :=
  match winner with
  | none => .error (hosted .credentialRefreshConflict)
  | some winner =>
    if winner.record.status = "ready" ∧ winner.record.executionLease = some lease ∧
        winner.record.credentialGeneration ≠ generation ∧ winner.secret ≠ previous ∧
        winner.secret.kind = previous.kind then
      match runtimeMaterial L item winner.secret.value now with
      | .ok material => .ok ⟨winner.secret, material, winner.record.credentialGeneration⟩
      | .error (.hosted _ _) => .error (hosted .credentialRefreshConflict)
      | .error e => .error e
    else .error (hosted .credentialRefreshConflict)

/-- `_refresh_runtime_material` -/
def refreshRuntimeMaterial (item : HostedConnector) (previous : ConnectorSecret) (generation lease : String) (now : ℤ)
    (answers : RefreshAnswers) : Step InUse := do
  let value ← await (.refresh previous) (answers.refreshed.mapError RefreshExn.exn)
  match ConnectorSecret.make value previous.kind with
  | none => raise (hosted .credentialRefreshFailed)
  | some refreshed => do
    let rotated ← askVault req (.rotate generation lease previous refreshed) answers.rotated
    match rotated with
    | some record => do
      let material ← lift (runtimeMaterial L item refreshed.value now)
      ret ⟨refreshed, material, record.credentialGeneration⟩
    | none => do
      let winner ← askVault req .get answers.winner
      lift (adoptWinner L item previous generation lease now winner)

/-- refresh, and keep the new credential in the local variables -/
def refresh (item : HostedConnector) (previous : ConnectorSecret) (generation lease : String) (now : ℤ)
    (answers : RefreshAnswers) : Step InUse := do
  let inUse ← refreshRuntimeMaterial L req item previous generation lease now answers
  set fun s => { s with secret := some inUse.secret, generation := some inUse.generation }
  ret inUse

/-- the credential as claimed, refreshed once if it has expired; with whether it was -/
def openCredential (w : World) (item : HostedConnector) (stored : StoredConnection) (lease : String) :
    Step (InUse × Bool) :=
  attempt (do
    let material ← lift (runtimeMaterial L item stored.secret.value w.created)
    ret (⟨stored.secret, material, stored.record.credentialGeneration⟩, false)) fun
    | .hosted .credentialExpired r =>
      if stored.secret.kind = .oauthRefreshToken then do
        let inUse ← refresh L req item stored.secret stored.record.credentialGeneration lease w.created w.early
        ret (inUse, true)
      else raise (.hosted .credentialExpired r)
    | e => raise e

/-! ## The call -/

/-- the tool of the provider, with the headers of a credential -/
def callTool (endpoint name : String) (arguments : List (String × Value)) (schemaSha256 : String)
    (material : RuntimeMaterial) (provider : Provider) : Step HostedCallResult := do
  let called ← await (.tool endpoint material.headers name arguments schemaSha256) (call L provider name schemaSha256)
  set fun s => { s with called := some called }
  ret called

/-- the call, repeated once with a refreshed credential where the provider does not accept the one in use -/
def callProvider (w : World) (item : HostedConnector) (arguments : List (String × Value)) (schemaSha256 lease : String)
    (inUse : InUse) (refreshedOnce : Bool) : Step (HostedCallResult × InUse) := do
  let (endpoint, name) ← lift (route item inUse.material req.toolName)
  attempt (do
    let called ← callTool L endpoint name arguments schemaSha256 inUse.material w.provider
    ret (called, inUse)) fun
    | .hosted .providerAuthenticationFailed r =>
      if inUse.secret.kind = .oauthRefreshToken ∧ refreshedOnce = false then do
        let again ← refresh L req item inUse.secret inUse.generation lease w.created w.late
        let (endpoint, name) ← lift (route item again.material req.toolName)
        let called ← callTool L endpoint name arguments schemaSha256 again.material w.providerAgain
        ret (called, again)
      else raise (.hosted .providerAuthenticationFailed r)
    | e => raise e

/-- `_contains_secret` of a payload that has a text -/
def payloadContains (privateValues : List String) : Obj → Bool
  | .json v => containsSecret privateValues v
  | _ => false

/-- the checks on a result -/
def checkResult (called : HostedCallResult) (material : RuntimeMaterial) (resultCap : ℕ) : Step Unit := do
  let encoded ← lift (canonicalJson L called.payload)
  set fun s =>
    { s with
      resultHash := some (L.sha256 encoded)
      resultSize := some encoded.utf8ByteSize
      resultIsError := some called.isError }
  refuse (resultCap < encoded.utf8ByteSize) (hosted .resultTooLarge)
  refuse (payloadContains material.secretValues called.payload = true) (hosted .secretDetected)
  refuse (called.isError = true) (hosted .providerToolError)

/-- the part of `execute` under the deadline -/
def body (w : World) (arguments : List (String × Value)) (started : ExecutionReceipt) : Step Unit := do
  record req started w.started
  let item ← lift (connector req.connectorId)
  let stored ← claimConnection req w
  set fun s => { s with secret := some stored.secret, lease := stored.record.executionLease }
  lift (checkCertification L stored.record)
  set fun s =>
    { s with
      generation := some stored.record.credentialGeneration
      manifest := stored.record.certifiedManifestSha256 }
  let lease := stored.record.executionLease.getD ""
  let (inUse, refreshedOnce) ← openCredential L req w item stored lease
  let (_, resultCap, policy) ←
    lift (enforceToolPolicy L item req.toolName arguments inUse.material.allowedWorkflowIds)
  set fun s => { s with policy := some policy }
  match stored.record.certifiedTools.reverse.lookup req.toolName with
  | none => raise (hosted .toolNotCertified)
  | some schemaSha256 => do
    let (called, inUse) ← callProvider L req w item arguments schemaSha256 lease inUse refreshedOnce
    checkResult L called inUse.material resultCap

/-! ## Failures and cleanup -/

/-- the body, with what it raises as the failure to report -/
def settle (w : World) (arguments : List (String × Value)) (started : ExecutionReceipt) : Step Unit :=
  attempt (body L req w arguments started) fun e =>
    match failureOf e with
    | some (code, cancelled) => set fun s => { s with failure := some code, cancelled := s.cancelled || cancelled }
    | none => raise e

/-- `_require_reconnect` -/
def requireReconnect (w : World) (expected : ConnectorSecret) (generation lease : String) : Step Unit := do
  let demoted ← attempt (askVault req (.quarantine generation lease expected) w.quarantined) fun
    | .vault _ => raise (hosted .vaultUnavailable)
    | e => raise e
  refuse (demoted = false) (hosted .credentialRefreshConflict)

/-- a credential that turned out unusable is quarantined, which ends its lease -/
def quarantineUnusable (w : World) : Step Unit := do
  let s ← get
  match s.failure, s.secret, s.generation, s.lease with
  | some code, some secret, some generation, some lease =>
    if code ∈ terminalAuthErrors then
      attempt (do
        requireReconnect req w secret generation lease
        set fun s => { s with failure := some .reconnectRequired, lease := none }) fun
        | .fault .timeout => set fun s => { s with failure := some .vaultUnavailable }
        | .hosted code _ => set fun s => { s with failure := some code }
        | e => raise e
    else ret ()
  | _, _, _, _ => ret ()

/-- the `finally` part: a lease that is still held is released -/
def releaseLease (w : World) : Step Unit := do
  let s ← get
  match s.lease with
  | none => ret ()
  | some lease =>
    attempt (do
      let released ← askVault req (.release lease) w.released
      if released then ret () else set fun s => { s with failure := some .credentialRefreshConflict }) fun
      | .vault _ => set fun s => { s with failure := some .vaultUnavailable }
      | .fault .timeout => set fun s => { s with failure := some .vaultUnavailable }
      | e => raise e

/-- the receipt at the end, and the outcome -/
def finish (w : World) (started : ExecutionReceipt) : Step HostedExecutionResult := do
  let s ← get
  let bound :=
    { started with
      credentialGeneration := s.generation
      certifiedManifestSha256 := s.manifest
      policySha256 := s.policy
      completedAt := some (L.iso w.completed)
      resultSha256 := s.resultHash
      resultBytes := s.resultSize
      durationMs := some (max 0 w.elapsedMs).toNat }
  match s.failure, s.called with
  | none, some called => do
    let completed := { bound with decision := .allowed, resultIsError := some false }
    record req completed w.recorded
    ret ⟨called.payload, completed⟩
  | failure, _ => do
    let code := failure.getD .executionFailed
    let failed :=
      { bound with
        decision := if code ∈ denials then .denied else .failed
        resultIsError := s.resultIsError
        errorCode := some code }
    record req failed w.recorded
    raise (if s.cancelled then .fault .cancelled else .hosted code (some failed))

/-- the arguments of a request: a dict with strings for keys -/
def argumentDict : Obj → Except Exn (List (String × Value))
  | .json (.dict arguments) => .ok arguments
  | .tooDeep => .error (.fault .failed)
  | _ => .error (hosted .argumentsInvalid)

/-- the first receipt of a call -/
def startedReceipt (w : World) (encoded : String) : ExecutionReceipt where
  executionId := w.executionId
  connectorId := req.connectorId
  toolName := req.toolName
  decision := .started
  argumentsSha256 := L.sha256 encoded
  argumentBytes := encoded.utf8ByteSize
  createdAt := L.iso w.created

/-- `HostedConnectorExecutor.execute` -/
def execute (w : World) : Step HostedExecutionResult := do
  let arguments ← lift (argumentDict req.arguments)
  let encoded ← lift (canonicalJson L (.json (.dict arguments)))
  let started := startedReceipt L req w encoded
  cleanup (do
    settle L req w arguments started
    quarantineUnusable req w) (releaseLease req w)
  finish L req w started

end Steps

end Rally.Cloud
