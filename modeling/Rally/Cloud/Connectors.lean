/-
The hosted connectors, the endpoints they may be called at, and the headers of a call (`cloud/hosted_connectors.py`).

- `connector`: the catalog.
- `resolveEndpoint`, `resolveTokenEndpoint`: the endpoints a stored connection may name.
- `unpackSecret`: the material of a pasted token; `unpackSecret_ok`: it is a non-empty text of the stored object.
-/
import Rally.Cloud.Receipt

namespace Rally.Cloud

open Py

/-! ## The catalog -/

/-- `HostedConnector`, with the fields that execution reads -/
structure HostedConnector where
  id : String
  endpoint : Option String
  safePreset : String
  endpointSuffixes : List String := []
  endpointPaths : List String := []
  tokenEndpoint : Option String := none
  serviceEndpoints : List (String × String) := []

/-- `_CONNECTORS` -/
def connectors : List HostedConnector := [
  { id := "google-workspace", endpoint := some "https://people.googleapis.com/mcp/v1", safePreset := "read-minimal"
    serviceEndpoints := [
      ("gmail", "https://gmailmcp.googleapis.com/mcp/v1"), ("drive", "https://drivemcp.googleapis.com/mcp/v1"),
      ("docs", "https://docsmcp.googleapis.com/mcp/v1"), ("sheets", "https://sheetsmcp.googleapis.com/mcp/v1"),
      ("slides", "https://slidesmcp.googleapis.com/mcp/v1"),
      ("calendar", "https://calendarmcp.googleapis.com/mcp/v1"), ("chat", "https://chatmcp.googleapis.com/mcp/v1"),
      ("people", "https://people.googleapis.com/mcp/v1")] },
  { id := "slack", endpoint := some "https://mcp.slack.com/mcp", safePreset := "read-minimal" },
  { id := "github", endpoint := some "https://api.githubcopilot.com/mcp", safePreset := "read-only" },
  { id := "cloudflare", endpoint := some "https://observability.mcp.cloudflare.com/mcp"
    safePreset := "observability" },
  { id := "n8n", endpoint := none, safePreset := "workflow-bounded", endpointSuffixes := ["app.n8n.cloud"]
    endpointPaths := ["/mcp-server/http"] },
  { id := "stripe", endpoint := some "https://mcp.stripe.com", safePreset := "read-minimal" },
  { id := "atlassian", endpoint := some "https://mcp.atlassian.com/v1/mcp/authv2", safePreset := "read-minimal"
    tokenEndpoint := some "https://mcp.atlassian.com/v1/mcp" },
  { id := "salesforce", endpoint := none, safePreset := "sobject-reads" },
  { id := "hyperagent", endpoint := some "https://hyperagent.com/api/mcp", safePreset := "read-minimal" }]

/-- `connector` -/
def connector (connectorId : String) : Except Exn HostedConnector :=
  match connectors.find? fun item => item.id = connectorId with
  | some item => .ok item
  | none => .error (.connector .connectorNotAvailable)

/-! ## Endpoints -/

/-- `s.rstrip(".")` -/
def rstripDots (s : String) : String := String.ofList (s.toList.reverse.dropWhile (· = '.')).reverse

/-- `_canonical_https`: host, path and canonical URL -/
def canonicalHttps (L : Libs) (value : String) (allowQuery : Bool) : Except Exn (String × String × String) :=
  match L.urlsplit value with
  | none => .error (.connector .endpointInvalid)
  | some parsed =>
    let host := L.casefold (rstripDots (parsed.hostname.getD ""))
    let path := if parsed.path = "" then "/" else parsed.path
    if parsed.scheme ≠ "https" ∨ host = "" ∨ parsed.username ≠ none ∨ parsed.password ≠ none ∨ parsed.fragment ≠ "" ∨
        parsed.port ∉ [none, some 443] ∨ (parsed.query ≠ "" ∧ allowQuery = false) then
      .error (.connector .endpointInvalid)
    else
      let query := if allowQuery ∧ parsed.query ≠ "" then "?" ++ parsed.query else ""
      .ok (host, path, "https://" ++ parsed.netloc ++ path ++ query)

/-- the host is the suffix or below it -/
def underSuffix (host suffix : String) : Bool := host = suffix || ("." ++ suffix).toList.isSuffixOf host.toList

/-- `value or other`, for optional texts -/
def orText (value other : Option String) : Option String := if value.getD "" = "" then other else value

/-- `resolve_endpoint` -/
def resolveEndpoint (L : Libs) (item : HostedConnector) (supplied : Option String) : Except Exn String := do
  let value := strip ((orText supplied item.endpoint).getD "")
  if value = "" then .error (.connector .endpointRequired)
  else
    let (host, path, canonical) ← canonicalHttps L value false
    if item.endpoint.getD "" ≠ "" then
      let (expectedHost, expectedPath, expected) ← canonicalHttps L (item.endpoint.getD "") false
      if host ≠ expectedHost ∨ path ≠ expectedPath ∨ canonical ≠ expected then
        .error (.connector .endpointNotAllowed)
      else .ok expected
    else if ¬ item.endpointSuffixes.any (underSuffix host) ∨
        (item.endpointPaths ≠ [] ∧ path ∉ item.endpointPaths) then
      .error (.connector .endpointNotAllowed)
    else .ok canonical

/-- `resolve_token_endpoint` -/
def resolveTokenEndpoint (L : Libs) (item : HostedConnector) (supplied : Option String) : Except Exn String :=
  match item.tokenEndpoint with
  | none => resolveEndpoint L item supplied
  | some alternate =>
    if supplied.getD "" ≠ "" then resolveEndpoint L item supplied
    else do
      let (_, _, canonical) ← canonicalHttps L alternate false
      .ok canonical

/-! ## Material of a pasted token -/

/-- what `unpack_secret` yields -/
structure TokenMaterial where
  credential : String
  endpoint : String
  scheme : String
  account : Option String

/-- `fields.get(k)` -/
def field (fields : List (String × Value)) (k : String) : Value := (fields.lookup k).getD .none

theorem field_eq_str {fields : List (String × Value)} {k s : String} (h : field fields k = .str s) :
    fields.lookup k = some (.str s) := by
  unfold field at h
  cases hlook : fields.lookup k with
  | none => rw [hlook] at h; cases h
  | some v => rw [hlook] at h; exact congrArg some h

/-- a text, or no such value -/
def textOf : Value → Option String
  | .str s => some s
  | _ => none

/-- `unpack_secret` -/
def unpackSecret (L : Libs) (value : String) : Except Exn TokenMaterial :=
  match L.loads value with
  | .malformed => .error (.connector .credentialInvalid)
  | .tooDeep => .error (.fault .failed)
  | .value (.dict material) =>
    if field material "schema" ≠ .str "rally.connection-material/v1" then .error (.connector .credentialInvalid)
    else
      match field material "credential", field material "endpoint" with
      | .str credential, .str endpoint =>
        if credential = "" then .error (.connector .credentialInvalid)
        else do
          -- the scheme is looked up in a set, which hashes it
          let _ ← builtin (field material "scheme").key
          match field material "scheme" with
          | .str scheme =>
            if scheme ∉ ["bearer", "basic"] then .error (.connector .credentialInvalid)
            else if field material "account" ≠ .none ∧ textOf (field material "account") = none then
              .error (.connector .credentialInvalid)
            else .ok ⟨credential, endpoint, scheme, textOf (field material "account")⟩
          | _ => .error (.connector .credentialInvalid)
      | _, _ => .error (.connector .credentialInvalid)
  | .value _ => .error (.connector .credentialInvalid)

/-- `authorization_headers` -/
def authorizationHeaders (L : Libs) (item : HostedConnector) (material : TokenMaterial) : List (String × String) :=
  let authorization :=
    if material.scheme = "basic" then "Basic " ++ L.b64encode (material.account.getD "" ++ ":" ++ material.credential)
    else "Bearer " ++ material.credential
  ("Authorization", authorization) ::
    if item.id = "github" then
      [("X-MCP-Toolsets", "context,repos,issues,pull_requests,users"), ("X-MCP-Readonly", "true"),
        ("X-MCP-Lockdown", "true")]
    else []

/-- the credential is the one in the stored object -/
theorem unpackSecret_ok {L : Libs} {value : String} {material : TokenMaterial}
    (h : unpackSecret L value = .ok material) :
    ∃ fields, L.loads value = .value (.dict fields) ∧
      fields.lookup "schema" = some (.str "rally.connection-material/v1") ∧
      fields.lookup "credential" = some (.str material.credential) := by
  unfold unpackSecret at h
  split at h
  · cases h
  · cases h
  · rename_i fields hloads
    by_cases hschema : field fields "schema" ≠ .str "rally.connection-material/v1"
    · rw [if_pos hschema] at h
      cases h
    · rw [if_neg hschema] at h
      split at h
      · rename_i credential endpoint hcredential hendpoint
        split at h
        · cases h
        · obtain ⟨_, -, h⟩ := bind_ok h
          split at h
          · split_ifs at h
            cases h
            exact ⟨fields, hloads, field_eq_str (not_not.1 hschema), field_eq_str hcredential⟩
          · cases h
      · cases h
  · cases h

end Rally.Cloud
