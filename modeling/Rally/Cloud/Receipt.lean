/-
The errors of hosted connector calls, and the receipts they leave (`cloud/hosted_connector_execution.py`).

- `Code`: the texts an error can carry. There is no room for a provider's words in one.
- `ExecutionReceipt`: sizes and hashes of arguments and result, never the contents.
- `Exn`: what can be raised while a call runs, and `failureOf`: the failure the call reports for it.
-/
import Rally.Cloud.Record

namespace Rally.Cloud

open Py

/-! ## Codes -/

/-- the code of a `HostedExecutionError` or a `HostedConnectorError` -/
inductive Code where
  | argumentInvalid
  | argumentNotAllowed
  | argumentRequired
  | argumentsInvalid
  | argumentsTooLarge
  | connectionBusy
  | connectionNotFound
  | connectionNotReady
  | connectorNotAvailable
  | credentialExpired
  | credentialInvalid
  | credentialRefreshConflict
  | credentialRefreshFailed
  | endpointInvalid
  | endpointNotAllowed
  | endpointRequired
  | executionCancelled
  | executionFailed
  | executionTimeout
  | humanApprovalRequired
  | policyConfigurationRequired
  | providerAuthenticationFailed
  | providerResultInvalid
  | providerToolError
  | providerUnavailable
  | receiptUnavailable
  | reconnectRequired
  | resultTooLarge
  | safePresetUnavailable
  | secretDetected
  | toolInvalid
  | toolNotAllowed
  | toolNotCertified
  | toolSchemaChanged
  | toolSchemaInvalid
  | toolSchemaTooLarge
  | toolUnavailable
  | vaultUnavailable
deriving DecidableEq, Repr

def Code.text : Code → String
  | .argumentInvalid => "argument_invalid"
  | .argumentNotAllowed => "argument_not_allowed"
  | .argumentRequired => "argument_required"
  | .argumentsInvalid => "arguments_invalid"
  | .argumentsTooLarge => "arguments_too_large"
  | .connectionBusy => "connection_busy"
  | .connectionNotFound => "connection_not_found"
  | .connectionNotReady => "connection_not_ready"
  | .connectorNotAvailable => "connector_not_available"
  | .credentialExpired => "credential_expired"
  | .credentialInvalid => "credential_invalid"
  | .credentialRefreshConflict => "credential_refresh_conflict"
  | .credentialRefreshFailed => "credential_refresh_failed"
  | .endpointInvalid => "endpoint_invalid"
  | .endpointNotAllowed => "endpoint_not_allowed"
  | .endpointRequired => "endpoint_required"
  | .executionCancelled => "execution_cancelled"
  | .executionFailed => "execution_failed"
  | .executionTimeout => "execution_timeout"
  | .humanApprovalRequired => "human_approval_required"
  | .policyConfigurationRequired => "policy_configuration_required"
  | .providerAuthenticationFailed => "provider_authentication_failed"
  | .providerResultInvalid => "provider_result_invalid"
  | .providerToolError => "provider_tool_error"
  | .providerUnavailable => "provider_unavailable"
  | .receiptUnavailable => "receipt_unavailable"
  | .reconnectRequired => "reconnect_required"
  | .resultTooLarge => "result_too_large"
  | .safePresetUnavailable => "safe_preset_unavailable"
  | .secretDetected => "secret_detected"
  | .toolInvalid => "tool_invalid"
  | .toolNotAllowed => "tool_not_allowed"
  | .toolNotCertified => "tool_not_certified"
  | .toolSchemaChanged => "tool_schema_changed"
  | .toolSchemaInvalid => "tool_schema_invalid"
  | .toolSchemaTooLarge => "tool_schema_too_large"
  | .toolUnavailable => "tool_unavailable"
  | .vaultUnavailable => "vault_unavailable"

/-- `_TERMINAL_AUTH_ERRORS` -/
def terminalAuthErrors : List Code :=
  [.credentialExpired, .credentialInvalid, .credentialRefreshFailed, .providerAuthenticationFailed]

/-- the failures that a receipt calls a denial -/
def denials : List Code :=
  [.argumentInvalid, .argumentNotAllowed, .argumentRequired, .argumentsInvalid, .argumentsTooLarge,
    .connectionNotFound, .connectionNotReady, .connectionBusy, .credentialExpired, .humanApprovalRequired,
    .toolInvalid, .toolNotAllowed, .toolNotCertified]

/-! ## Receipts -/

inductive Decision where
  | started
  | allowed
  | denied
  | failed
deriving DecidableEq, Repr

/-- `ExecutionReceipt` -/
structure ExecutionReceipt where
  executionId : String
  connectorId : String
  toolName : String
  decision : Decision
  argumentsSha256 : String
  argumentBytes : ℕ
  createdAt : String
  completedAt : Option String := none
  resultSha256 : Option String := none
  resultBytes : Option ℕ := none
  resultIsError : Option Bool := none
  errorCode : Option Code := none
  durationMs : Option ℕ := none
  credentialGeneration : Option String := none
  certifiedManifestSha256 : Option String := none
  policySha256 : Option String := none
deriving DecidableEq, Repr

/-! ## Exceptions -/

/-- how any awaited call can end without an answer -/
inductive Fault where
  /-- `TimeoutError` -/
  | timeout
  /-- any other `Exception` -/
  | failed
  /-- `CancelledError`: the task is cancelled from outside -/
  | cancelled
  /-- `CancelledError`, sent by the deadline around the call and turned into `TimeoutError` at its edge -/
  | expired
  /-- an exception outside `Exception`, such as `KeyboardInterrupt` -/
  | fatal
deriving DecidableEq, Repr

/-- what can be raised while a hosted call runs -/
inductive Exn where
  /-- `HostedExecutionError`, with the receipt of the call where it ends one -/
  | hosted (code : Code) (receipt : Option ExecutionReceipt)
  /-- `HostedConnectorError` -/
  | connector (code : Code)
  /-- `CredentialVaultError` or a subclass -/
  | vault (e : VaultError)
  | fault (f : Fault)
deriving DecidableEq, Repr

/-- `HostedExecutionError(code)` -/
abbrev hosted (code : Code) : Exn := .hosted code none

theorem mapError_ok {ε ε' α : Type} {x : Except ε α} {f : ε → ε'} {a : α} (h : x.mapError f = .ok a) : x = .ok a := by
  cases x with
  | ok b => cases h; rfl
  | error e => cases h

/-- an exception of a built-in operation -/
def builtin {α : Type} (x : Except Err α) : Except Exn α := x.mapError fun _ => .fault .failed

/-- whether it is an `Exception`, which excludes cancellations -/
def Exn.isException : Exn → Bool
  | .fault .cancelled => false
  | .fault .expired => false
  | .fault .fatal => false
  | _ => true

/-- the failure that the call reports for what its body raised, and whether it was cancelled; `none` where no handler
takes the exception -/
def failureOf : Exn → Option (Code × Bool)
  | .fault .cancelled => some (.executionCancelled, true)
  | .fault .expired => some (.executionTimeout, false)
  | .fault .timeout => some (.executionTimeout, false)
  | .vault _ => some (.vaultUnavailable, false)
  | .connector code => some (code, false)
  | .hosted code _ => some (code, false)
  | .fault .failed => some (.executionFailed, false)
  | .fault .fatal => none

/-! ## Canonical texts -/

/-- an object as `json.dumps` meets it: a JSON value, an object without a text (of another type, or with a lone
surrogate), or one nested too deep -/
inductive Obj where
  | json (v : Value)
  | foreign
  | tooDeep
deriving DecidableEq

/-- `_canonical_json`, before its encoding -/
def canonicalJson (L : Libs) : Obj → Except Exn String
  | .json v =>
    if dumpable false v then .ok (dumps L.text compact (normalize v)) else .error (hosted .argumentsInvalid)
  | .foreign => .error (hosted .argumentsInvalid)
  | .tooDeep => .error (.fault .failed)

theorem canonicalJson_ok {L : Libs} {o : Obj} {text : String} (h : canonicalJson L o = .ok text) :
    ∃ v, o = .json v ∧ text = dumps L.text compact (normalize v) := by
  cases o with
  | json v =>
    simp only [canonicalJson] at h
    split_ifs at h
    cases h
    exact ⟨v, rfl, rfl⟩
  | foreign => cases h
  | tooDeep => cases h

end Rally.Cloud
