/-
One call of a connector through the local gateway (`call_allowed_tool` of `cloud/connector_gateway.py`): the tool's rule, the
arguments, the approval, the call itself, and a receipt of what was decided.

What the provider does, whether a receipt can be written, and the file system of the approval ledger are inputs.

- `ruleOf`, `ruleRefusal`: the rule of a tool, and what it refuses.
- `callAllowedTool`: what comes of the call, the receipts it appends, and the ledger after it.
-/
import Rally.Cloud.Approvals

namespace Rally.Gateway

open Py Approvals

/-! ## Authority -/

inductive Risk where
  | read
  | verifyFirst
  | humanApproval
  | deny
deriving DecidableEq, Repr

/-- the constraint on one argument -/
structure ArgumentRule where
  required : Bool
  allowedValues : Option (List Value)
  maxLength : Option ℕ

/-- the rule of a tool -/
structure Rule where
  risk : Risk
  arguments : List (String × ArgumentRule) := []
  maxArgumentBytes : Option ℕ := none
  maxResultBytes : Option ℕ := none

structure Connector where
  id : String
  /-- the services behind a `tool_prefix`, with their endpoints -/
  services : Option (List (String × String)) := none
  toolPolicy : List (String × Rule)

/-- what a run may do; it has a `receipt_path` -/
structure Authority where
  runId : String
  connectors : List Connector
  approvalPath : Bool
  humanApprovalToolsEnabled : Bool

inductive Decision where
  | denied
  | pendingApproval
  | allowed
  | failed
deriving DecidableEq, Repr

/-- a line of the receipts, without its times -/
structure Receipt where
  connectorId : String
  tool : String
  risk : Risk
  decision : Decision
  argumentsSha256 : String
  argumentBytes : Option ℕ := none
  reason : Option String := none
  approvalId : Option String := none
  resultSha256 : Option String := none
  resultIsError : Option Bool := none
  resultBytes : Option ℕ := none
  errorType : Option String := none
deriving DecidableEq

/-! ## Calls -/

structure Call where
  connectorId : String
  toolName : String
  /-- `arguments or {}` -/
  arguments : Arguments
  approvalId : Option String := none

/-- how the session with the provider ends -/
inductive Remote where
  | answered (payload : Value) (isError : Bool)
  /-- an `Exception` -/
  | raised (type : String)
  /-- an exception that is none, as when the call is cancelled -/
  | broken

/-- what happens around a call -/
structure World where
  remote : Remote
  /-- the class of what writing each receipt raises, if anything -/
  receiptError : ℕ → Option String
  disk : Disk := {}
  now : ℤ
  draws : Draws

/-- what a call raises -/
inductive Raised where
  /-- a `ConnectorGatewayError` -/
  | gateway (text : String)
  /-- what the provider raised -/
  | provider (type : String)
  | broken
  | fault
deriving DecidableEq

def maxArgumentBytes : ℕ := 256 * 1024
def maxResultBytes : ℕ := 1024 * 1024

/-- `connector_by_id` -/
def connectorById (authority : Authority) (connectorId : String) : Option Connector :=
  authority.connectors.find? fun c => c.id = connectorId

/-- `value in allowed_values` -/
def isAmong (value : Value) (values : List Value) : Bool := values.any value.same

/-- `len` of a text, list or dict -/
def lengthOf : Value → Option ℕ
  | .str s => some s.length
  | .list xs => some xs.length
  | .dict kvs => some kvs.length
  | _ => none

/-- `_constraint_failure` for one argument -/
def argumentFailure (a : Arguments) (name : String) (c : ArgumentRule) : Option String :=
  match Dict.get? a.members name with
  | none => if c.required then some "required_argument_missing" else none
  | some value =>
    if c.allowedValues.any fun values => !isAmong value values then some "argument_outside_allowlist"
    else if c.maxLength.any fun limit => (lengthOf value).all fun n => limit < n then some "argument_too_long"
    else none

/-- `_constraint_failure` -/
def constraintFailure (rule : Rule) (a : Arguments) : Option String :=
  rule.arguments.findSome? fun p => argumentFailure a p.1 p.2

/-- `_dispatch_tool`: whether there is a service for the tool -/
def hasRoute (connector : Connector) (toolName : String) : Bool :=
  match connector.services with
  | none => true
  | some services =>
    let service := toolName.toList.takeWhile (· ≠ '.')
    let rest := toolName.toList.drop (service.length + 1)
    '.' ∈ toolName.toList && ((Dict.get? services (.ofList service)).getD "" ≠ "") && rest ≠ []

section Calls

variable (L : Libs)

/-- the text of a value in the receipts, `default=str` and in ASCII -/
def receiptText (v : Value) : String := dumps L.text compactAscii (normalize v)

/-- `_json_hash` -/
def jsonHash (v : Value) : String := L.sha256 (receiptText L v)

/-- the default layout of `json.dumps` -/
def defaultLayout : Layout := ⟨[',', ' '], [':', ' '], true⟩

/-- `len(json.dumps(args, sort_keys=True, default=str).encode())` -/
def argumentBytes (a : Arguments) : ℕ := (dumps L.text defaultLayout (normalize a.value)).utf8ByteSize

/-- whether `json.dumps` has a text for the arguments -/
def printableArguments (a : Arguments) : Bool := !a.tooDeep && dumpable true a.value

/-- the limit of a rule, which is never above that of the gateway -/
def limitOf (given : Option ℕ) (most : ℕ) : ℕ := min (given.getD most) most

/-- what a call ends with, and the receipts it has appended -/
abbrev Ending := Except Raised Value × List Receipt

/-- raising after a receipt, or what writing the receipt raises -/
def refuseWith (w : World) (r : Receipt) (e : Raised) : Ending :=
  if (w.receiptError 0).isNone then (.error e, [r]) else (.error .fault, [])

/-- the rule of the tool, if it has one and is not denied -/
def ruleOf (connector : Connector) (toolName : String) : Option Rule :=
  (Dict.get? connector.toolPolicy toolName).filter fun rule => rule.risk ≠ .deny

/-- the receipt of a call, with what they all have -/
def receiptOf (c : Call) (risk : Risk) (decision : Decision) : Receipt :=
  { connectorId := c.connectorId, tool := c.toolName, risk := risk, decision := decision
    argumentsSha256 := jsonHash L c.arguments.value }

/-- whether a result is within the limit of the rule -/
def fits (rule : Rule) (payload : Value) : Bool :=
  (dumps L.text compactAscii payload).utf8ByteSize ≤ limitOf rule.maxResultBytes maxResultBytes

/-- the receipt of a failure, the `n`th of the call, and what is raised again -/
def failWith (w : World) (c : Call) (rule : Rule) (n : ℕ) (e : Raised) (errorType : String) : Ending :=
  if (w.receiptError n).isNone then (.error e, [{ receiptOf L c rule.risk .failed with errorType := some errorType }])
  else (.error .fault, [])

/-- the call of the provider, from `_dispatch_tool` on -/
def callProvider (w : World) (c : Call) (connector : Connector) (rule : Rule) (approvalId : Option String) : Ending :=
  if !hasRoute connector c.toolName then
    failWith L w c rule 0 (.gateway s!"{connector.id}.{c.toolName} has no pinned service route") "ConnectorGatewayError"
  else
    match w.remote with
    | .broken => (.error .broken, [])
    | .raised type => failWith L w c rule 0 (.provider type) type
    | .answered payload isError =>
      if !dumpable true payload then failWith L w c rule 0 .fault "ValueError"
      else if !fits L rule payload then
        failWith L w c rule 0 (.gateway s!"{c.connectorId}.{c.toolName} result exceeds Rally's size limit")
          "ConnectorGatewayError"
      else
        match w.receiptError 0 with
        | none =>
          (.ok payload,
            [{ receiptOf L c rule.risk .allowed with
                resultSha256 := some (jsonHash L payload), resultIsError := some isError
                argumentBytes := some (argumentBytes L c.arguments)
                resultBytes := some (dumps L.text compactAscii payload).utf8ByteSize
                approvalId := approvalId }])
        | some type => failWith L w c rule 1 .fault type

/-- what the ledger is asked for, and its answer -/
def askLedger (authority : Authority) (w : World) (c : Call) (file : File) :
    Except Approvals.Exn PublicReceipt × File :=
  let scope : Scope := ⟨authority.runId, c.connectorId, c.toolName⟩
  match c.approvalId with
  | none => requestApproval L w.disk w.now defaultTtlSeconds w.draws file scope c.arguments
  | some id => consume L w.disk w.now file id scope c.arguments

/-- the approval of a tool that needs one, and the call -/
def callApproved (authority : Authority) (w : World) (c : Call) (connector : Connector) (rule : Rule) (file : File) :
    Ending × File :=
  if !authority.approvalPath || !authority.humanApprovalToolsEnabled then
    ((.error (.gateway "human approval is not enabled for this run"), []), file)
  else
    let (answer, file) := askLedger L authority w c file
    match answer with
    | .error .fault => ((.error .fault, []), file)
    | .error (.approval kind text) =>
      (refuseWith w { receiptOf L c rule.risk .denied with approvalId := c.approvalId, reason := some kind.name }
        (.gateway s!"{c.connectorId}.{c.toolName} approval was refused: {text}"), file)
    | .ok approval =>
      if c.approvalId = none then
        (refuseWith w
          { receiptOf L c rule.risk .pendingApproval with
              approvalId := some approval.approvalId, reason := some "human_approval_required" }
          (.gateway (s!"{c.connectorId}.{c.toolName} requires human approval {approval.approvalId} " ++ "before execution")),
          file)
      else (callProvider L w c connector rule (some approval.approvalId), file)

/-- the reason for which the rule of a tool refuses a call -/
def ruleRefusal (rule : Rule) (c : Call) : Option String :=
  match constraintFailure rule c.arguments with
  | some reason => some reason
  | none =>
    if limitOf rule.maxArgumentBytes maxArgumentBytes < argumentBytes L c.arguments then some "arguments_too_large" else none

/-- `call_allowed_tool` -/
def callAllowedTool (authority : Authority) (w : World) (c : Call) (file : File) : Ending × File :=
  match connectorById authority c.connectorId with
  | none => ((.error (.gateway s!"connector {c.connectorId} is not enabled for this run"), []), file)
  | some connector =>
    if !printableArguments c.arguments then ((.error .fault, []), file)
    else
      match ruleOf connector c.toolName with
      | none =>
        (refuseWith w { receiptOf L c .deny .denied with reason := some "not_allowlisted" }
          (.gateway s!"{c.connectorId}.{c.toolName} is not on this run's tool allowlist"), file)
      | some rule =>
        match ruleRefusal L rule c with
        | some reason =>
          (refuseWith w
            { receiptOf L c rule.risk .denied with
                argumentBytes := some (argumentBytes L c.arguments), reason := some reason }
            (.gateway s!"{c.connectorId}.{c.toolName} arguments violate Rally policy: {reason}"), file)
        | none =>
          match rule.risk with
          | .verifyFirst =>
            (refuseWith w
              { receiptOf L c rule.risk .denied with reason := some "independent_pre_execution_verifier_unavailable" }
              (.gateway s!"{c.connectorId}.{c.toolName} requires independent pre-execution verification"), file)
          | .humanApproval => callApproved L authority w c connector rule file
          | _ => (callProvider L w c connector rule none, file)

end Calls

end Rally.Gateway
