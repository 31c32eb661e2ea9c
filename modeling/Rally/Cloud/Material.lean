/-
What a sealed credential is used as in a call: an endpoint, headers and the texts that must stay private
(`_runtime_material` of `cloud/hosted_connector_execution.py`).

- `runtimeMaterial`: a pasted token or an OAuth grant, checked, with the expiry of the grant.
- `runtimeMaterial_private`: the texts it keeps out of results are exactly the private texts of the credential.
-/
import Rally.Cloud.Connectors

namespace Rally.Cloud

open Py

/-- `_RuntimeMaterial` -/
structure RuntimeMaterial where
  endpoint : String
  headers : List (String × String)
  allowedWorkflowIds : List String
  secretValues : List String
deriving DecidableEq, Repr

def maxWorkflowIds : ℕ := 64

/-- an identifier of at most 256 characters without blanks and control characters -/
def isWorkflowId (entry : String) : Bool :=
  entry ≠ "" && entry.length ≤ 256 && entry.toList.all fun c => 33 ≤ c.toNat && c.toNat ≠ 127

/-- `_workflow_ids` -/
def workflowIds (value : Value) (item : HostedConnector) : Except Exn (List String) :=
  match value with
  | .none => settle []
  | .list values => settle values
  | _ => .error (hosted .credentialInvalid)
where
  /-- the list, sorted and without repetitions -/
  settle (values : List Value) : Except Exn (List String) :=
    if maxWorkflowIds < values.length ∨ ¬ (values.all fun v => (textOf v).isSome) then
      .error (hosted .credentialInvalid)
    else
      let normalized := (values.filterMap textOf).dedup.insertionSort (· ≤ ·)
      if ¬ normalized.all isWorkflowId then .error (hosted .credentialInvalid)
      else if item.id = "n8n" ∧ normalized = [] then .error (hosted .policyConfigurationRequired)
      else if item.id ≠ "n8n" ∧ normalized ≠ [] then .error (hosted .credentialInvalid)
      else .ok normalized

/-- `_stored_token_endpoint` -/
def storedTokenEndpoint (L : Libs) (item : HostedConnector) (supplied : String) : Except Exn String :=
  match item.tokenEndpoint with
  | none => resolveTokenEndpoint L item (some supplied)
  | some _ => do
    let alternate ← resolveTokenEndpoint L item none
    if supplied = alternate then .ok alternate else resolveTokenEndpoint L item (some supplied)

/-- the last instant of a `datetime`, in microseconds since 1970 -/
def maxInstant : ℤ := 253402300799999999

/-- the first one -/
def minInstant : ℤ := -62135596800000000

/-- an instant, or `OverflowError` -/
def instant (t : ℤ) : Except Exn ℤ := if t < minInstant ∨ maxInstant < t then .error (.fault .failed) else .ok t

/-- `_parse_timestamp` -/
def parseTimestamp (L : Libs) (value : Value) : Except Exn ℤ :=
  match value with
  | .str s =>
    match L.fromisoformat s with
    | some (.aware t) => instant t
    | _ => .error (hosted .credentialInvalid)
  | _ => .error (hosted .credentialInvalid)

/-- the grant is good for more than another 15 seconds -/
def checkExpiry (L : Libs) (fields : List (String × Value)) (now : ℤ) : Except Exn Unit :=
  match field fields "expires_in" with
  | .none => .ok ()
  | .int expiresIn =>
    if expiresIn ≤ 0 then .error (hosted .credentialInvalid)
    else do
      let obtainedAt ← parseTimestamp L (field fields "obtained_at")
      let expiry ← instant (obtainedAt + expiresIn * 1000000)
      if expiry ≤ now + 15 * 1000000 then .error (hosted .credentialExpired) else .ok ()
  | _ => .error (hosted .credentialInvalid)

/-- `except HostedConnectorError as exc: raise HostedExecutionError(exc.code)` -/
def asHosted {α : Type} (x : Except Exn α) : Except Exn α :=
  x.mapError fun
    | .connector code => hosted code
    | e => e

def connectionSchema : String := "rally.connection-material/v1"

def oauthSchema : String := "rally.oauth-material/v1"

/-- the fields of an OAuth grant that are private -/
def grantFields : List String := ["access_token", "refresh_token", "client_secret"]

/-- the private texts of an OAuth grant -/
def grantTexts (fields : List (String × Value)) : List String :=
  (grantFields.filterMap fun k => textOf (field fields k)).filter (· ≠ "")

/-- the material of a pasted token -/
def tokenRuntimeMaterial (L : Libs) (item : HostedConnector) (storedValue : String) (fields : List (String × Value)) :
    Except Exn RuntimeMaterial := do
  let (endpoint, headers, credential) ← asHosted do
    let material ← unpackSecret L storedValue
    let endpoint ← storedTokenEndpoint L item material.endpoint
    .ok (endpoint, authorizationHeaders L item material, material.credential)
  let ids ← workflowIds (field fields "allowed_workflow_ids") item
  .ok ⟨endpoint, headers, ids, [credential]⟩

/-- the material of an OAuth grant -/
def grantRuntimeMaterial (L : Libs) (item : HostedConnector) (fields : List (String × Value)) (now : ℤ) :
    Except Exn RuntimeMaterial :=
  match field fields "access_token", field fields "token_type", field fields "endpoint" with
  | .str accessToken, .str tokenType, .str endpointValue =>
    if accessToken = "" ∨ L.casefold tokenType ≠ "bearer" then .error (hosted .credentialInvalid)
    else do
      let endpoint ← asHosted (resolveEndpoint L item (some endpointValue))
      checkExpiry L fields now
      let ids ← workflowIds (field fields "allowed_workflow_ids") item
      .ok ⟨endpoint, authorizationHeaders L item ⟨accessToken, endpoint, "bearer", none⟩, ids, grantTexts fields⟩
  | _, _, _ => .error (hosted .credentialInvalid)

/-- `_runtime_material` -/
def runtimeMaterial (L : Libs) (item : HostedConnector) (storedValue : String) (now : ℤ) :
    Except Exn RuntimeMaterial :=
  match L.loads storedValue with
  | .malformed => .error (hosted .credentialInvalid)
  | .tooDeep => .error (.fault .failed)
  | .value (.dict fields) =>
    if field fields "schema" = .str connectionSchema then tokenRuntimeMaterial L item storedValue fields
    else if field fields "schema" = .str oauthSchema then grantRuntimeMaterial L item fields now
    else .error (hosted .credentialInvalid)
  | .value _ => .error (hosted .credentialInvalid)

/-! ## Private texts -/

/-- the texts of a stored credential that nobody else may see: a pasted token, or the secrets of an OAuth grant -/
inductive Private (L : Libs) (storedValue : String) : String → Prop where
  | token {fields : List (String × Value)} {t : String} (hloads : L.loads storedValue = .value (.dict fields))
      (hschema : fields.lookup "schema" = some (.str connectionSchema))
      (htext : fields.lookup "credential" = some (.str t)) : Private L storedValue t
  | grant {fields : List (String × Value)} {k t : String} (hloads : L.loads storedValue = .value (.dict fields))
      (hschema : fields.lookup "schema" = some (.str oauthSchema)) (hfield : k ∈ grantFields)
      (htext : fields.lookup k = some (.str t)) (hne : t ≠ "") : Private L storedValue t

section Private

variable {L : Libs} {item : HostedConnector} {storedValue : String} {now : ℤ} {material : RuntimeMaterial}

theorem textOf_eq_some {v : Value} {t : String} : textOf v = some t ↔ v = .str t := by
  cases v <;> simp [textOf]

theorem field_eq {fields : List (String × Value)} {k t : String} :
    field fields k = .str t ↔ fields.lookup k = some (.str t) := by
  refine ⟨field_eq_str, fun h => ?_⟩
  unfold field
  rw [h]
  rfl

theorem mem_grantTexts {fields : List (String × Value)} {t : String} :
    t ∈ grantTexts fields ↔ (∃ k ∈ grantFields, fields.lookup k = some (.str t)) ∧ t ≠ "" := by
  unfold grantTexts
  simp only [List.mem_filter, List.mem_filterMap, textOf_eq_some, field_eq, decide_eq_true_eq]

/-- the two kinds of material have each their schema -/
theorem private_iff {fields : List (String × Value)} (hloads : L.loads storedValue = .value (.dict fields)) (t : String) :
    Private L storedValue t ↔
      (fields.lookup "schema" = some (.str connectionSchema) ∧ fields.lookup "credential" = some (.str t)) ∨
        (fields.lookup "schema" = some (.str oauthSchema) ∧ t ∈ grantTexts fields) := by
  rw [mem_grantTexts]
  constructor
  · intro h
    cases h with
    | token hloads' hschema htext =>
      cases hloads.symm.trans hloads'
      exact .inl ⟨hschema, htext⟩
    | grant hloads' hschema hfield htext hne =>
      cases hloads.symm.trans hloads'
      exact .inr ⟨hschema, ⟨_, hfield, htext⟩, hne⟩
  · rintro (⟨hschema, htext⟩ | ⟨hschema, ⟨k, hfield, htext⟩, hne⟩)
    · exact .token hloads hschema htext
    · exact .grant hloads hschema hfield htext hne

theorem tokenRuntimeMaterial_ok {fields : List (String × Value)}
    (h : tokenRuntimeMaterial L item storedValue fields = .ok material) :
    ∃ token, unpackSecret L storedValue = .ok token ∧ material.secretValues = [token.credential] ∧
      material.headers = authorizationHeaders L item token := by
  obtain ⟨⟨endpoint, headers, credential⟩, hpart, h⟩ := bind_ok h
  obtain ⟨token, hunpack, hpart⟩ := bind_ok (mapError_ok hpart)
  obtain ⟨_, -, hpart⟩ := bind_ok hpart
  obtain ⟨_, -, h⟩ := bind_ok h
  cases hpart
  cases h
  exact ⟨token, hunpack, rfl, rfl⟩

theorem grantRuntimeMaterial_ok {fields : List (String × Value)}
    (h : grantRuntimeMaterial L item fields now = .ok material) : material.secretValues = grantTexts fields := by
  unfold grantRuntimeMaterial at h
  split at h
  · split at h
    · cases h
    · obtain ⟨_, -, h⟩ := bind_ok h
      obtain ⟨_, -, h⟩ := bind_ok h
      obtain ⟨_, -, h⟩ := bind_ok h
      cases h
      rfl
  · cases h

/-- **Nothing private is forgotten.** The texts that the material keeps out of results are the private texts of the
credential. -/
theorem runtimeMaterial_private (h : runtimeMaterial L item storedValue now = .ok material) (t : String) :
    t ∈ material.secretValues ↔ Private L storedValue t := by
  unfold runtimeMaterial at h
  split at h
  · cases h
  · cases h
  · rename_i fields hloads
    rw [private_iff hloads]
    split_ifs at h with htoken hgrant
    · obtain ⟨token, hunpack, hsecret, -⟩ := tokenRuntimeMaterial_ok h
      obtain ⟨fields', hloads', -, hcredential⟩ := unpackSecret_ok hunpack
      cases hloads.symm.trans hloads'
      rw [hsecret, hcredential, field_eq.1 htoken]
      simp [connectionSchema, oauthSchema, eq_comm]
    · rw [grantRuntimeMaterial_ok h, field_eq.1 hgrant]
      simp [connectionSchema, oauthSchema]
  · cases h

end Private

end Rally.Cloud
