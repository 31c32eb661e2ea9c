/-
One call of a provider's tool (`HostedMcpCaller` of `cloud/hosted_connector_execution.py`), whatever the provider does.

- `Provider`: what one session shows of the provider: its tools, a result, the exceptions on the way.
- `call`: the result, or one of a few codes that carry nothing of the provider's.
- `call_ok`: a result comes from a tool of that name, whose schema has the expected hash at that time.
-/
import Rally.Cloud.Receipt

namespace Rally.Cloud

/-! ## Providers -/

/-- an exception of the session, as far as the caller looks into it -/
inductive Failure where
  /-- `httpx.HTTPStatusError` -/
  | http (status : ℕ)
  /-- `HostedMcpTransportError` -/
  | transport (status : ℕ)
  /-- an exception with a tuple of others -/
  | group (members : List Failure)
  | other

mutual
/-- `_is_authenticated_401` -/
def Failure.isAuthenticated401 : Failure → Bool
  | .http status => status = 401
  | .transport status => status = 401
  | .group members => anyAuthenticated401 members
  | .other => false
def anyAuthenticated401 : List Failure → Bool
  | [] => false
  | f :: fs => f.isAuthenticated401 || anyAuthenticated401 fs
end

/-- how a step of the session ends without an answer -/
inductive Trouble where
  /-- an `Exception`, a timeout among them -/
  | raised (f : Failure)
  | cancelled
  | expired
  | fatal

/-- a tool as it is listed; `none` where its schema is no dict -/
structure Tool where
  name : String
  inputSchema : Option Obj

/-- `HostedCallResult` -/
structure HostedCallResult where
  payload : Obj
  isError : Bool
deriving DecidableEq

/-- one session with a provider -/
structure Provider where
  /-- opening the session and listing the tools -/
  tools : Except Trouble (List Tool)
  /-- the answer of the tool -/
  result : Except Trouble HostedCallResult
  /-- what leaving the session raises in place of the outcome, if anything -/
  leaving : Option Trouble

/-! ## The call -/

def maxToolSchemaBytes : ℕ := 64 * 1024

/-- the outcome for an exception of the session: nothing of it is passed on but a 401 -/
def suppressed : Trouble → Exn
  | .raised f => hosted (if f.isAuthenticated401 then .providerAuthenticationFailed else .providerUnavailable)
  | .cancelled => .fault .cancelled
  | .expired => .fault .expired
  | .fatal => .fault .fatal

def isDict : Obj → Bool
  | .json (.dict _) => true
  | .json _ => false
  | _ => true

/-- the text of a tool's schema -/
def schemaText (L : Libs) (tool : Tool) : Except Exn String :=
  match tool.inputSchema with
  | none => .error (hosted .toolSchemaInvalid)
  | some schema =>
    if isDict schema = false then .error (hosted .toolSchemaInvalid)
    else
      match canonicalJson L schema with
      | .ok text => if maxToolSchemaBytes < text.utf8ByteSize then .error (hosted .toolSchemaTooLarge) else .ok text
      | .error (.hosted _ _) => .error (hosted .toolSchemaInvalid)
      -- a schema nested too deep raises like any fault of the session
      | .error _ => .error (suppressed (.raised .other))

/-- the session, up to leaving it -/
def inSession (L : Libs) (provider : Provider) (toolName expectedSchemaSha256 : String) :
    Except Exn HostedCallResult := do
  let tools ← provider.tools.mapError suppressed
  match tools.find? fun tool => tool.name = toolName with
  | none => .error (hosted .toolUnavailable)
  | some selected => do
    let text ← schemaText L selected
    if L.sha256 text ≠ expectedSchemaSha256 then .error (hosted .toolSchemaChanged)
    else do
      let result ← provider.result.mapError suppressed
      if isDict result.payload = false then .error (hosted .providerResultInvalid) else .ok result

/-- `HostedMcpCaller.call` -/
def call (L : Libs) (provider : Provider) (toolName expectedSchemaSha256 : String) : Except Exn HostedCallResult :=
  match provider.leaving with
  | some trouble => .error (suppressed trouble)
  | none => inSession L provider toolName expectedSchemaSha256

section Call

variable {L : Libs} {provider : Provider} {toolName expected : String}

theorem schemaText_ok {tool : Tool} {text : String} (h : schemaText L tool = .ok text) :
    ∃ schema, tool.inputSchema = some schema ∧ canonicalJson L schema = .ok text := by
  unfold schemaText at h
  split at h
  · cases h
  · rename_i schema hschema
    split at h
    · cases h
    · split at h
      · rename_i text' htext
        split_ifs at h
        cases h
        exact ⟨schema, hschema, htext⟩
      · cases h
      · cases h

/-- the provider answers with the result, and the schema it shows for the tool has the hash -/
structure Provider.Answers (L : Libs) (provider : Provider) (toolName schemaSha256 : String)
    (result : HostedCallResult) : Prop where
  result : provider.result = .ok result
  schema : ∃ tools tool schema text, provider.tools = .ok tools ∧ tool ∈ tools ∧ tool.name = toolName ∧
    tool.inputSchema = some schema ∧ canonicalJson L schema = .ok text ∧ L.sha256 text = schemaSha256

/-- **A result comes from the expected tool.** -/
theorem call_ok {result : HostedCallResult} (h : call L provider toolName expected = .ok result) :
    provider.Answers L toolName expected result := by
  unfold call at h
  split at h
  · cases h
  · obtain ⟨tools, htools, h⟩ := Py.bind_ok h
    split at h
    · cases h
    · rename_i tool hfind
      obtain ⟨text, htext, h⟩ := Py.bind_ok h
      split at h
      · cases h
      · rename_i hhash
        obtain ⟨answer, hanswer, h⟩ := Py.bind_ok h
        split_ifs at h
        cases h
        obtain ⟨schema, hschema, hcanonical⟩ := schemaText_ok htext
        exact ⟨mapError_ok hanswer, tools, tool, schema, text, mapError_ok htools, List.mem_of_find?_eq_some hfind,
          by simpa using List.find?_some hfind, hschema, hcanonical, not_not.1 hhash⟩

end Call

end Rally.Cloud
