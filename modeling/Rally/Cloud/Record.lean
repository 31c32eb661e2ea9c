/-
Connection records and sealed secrets (`cloud/credential_vault.py`), as every vault hands them out, and the manifest of
certified tools.

- A `ConnectorSecret` carries the checks of its constructor.
-/
import Rally.Core.Json

namespace Rally.Cloud

open Py

/-! ## Libraries -/

/-- the parts of a URL, with its port read as a number -/
structure SplitUrl where
  scheme : String
  netloc : String
  path : String
  query : String
  fragment : String
  hostname : Option String
  username : Option String
  password : Option String
  port : Option ℕ

/-- `json.loads` of a text: a value, `ValueError`, or `RecursionError` -/
inductive Loaded where
  | value (v : Value)
  | malformed
  | tooDeep

/-- `datetime.fromisoformat` of a text, in microseconds since 1970 where it names its zone -/
inductive IsoTime where
  | naive
  | aware (t : ℤ)

/-- library calls left open here; no result depends on what they return -/
structure Libs where
  text : Runtime
  /-- hexadecimal digest of the UTF-8 text -/
  sha256 : String → String
  loads : String → Loaded
  /-- `urlsplit`, `none` where it or reading the port raises -/
  urlsplit : String → Option SplitUrl
  casefold : String → String
  /-- base64 of the UTF-8 text -/
  b64encode : String → String
  fromisoformat : String → Option IsoTime
  /-- an instant, without its microseconds, as text -/
  iso : ℤ → String

/-! ## Secrets -/

inductive SecretKind where
  | apiKey
  | bearerToken
  | oauthRefreshToken
deriving DecidableEq, Repr

def maxSecretBytes : ℕ := 64 * 1024

/-- the checks of `ConnectorSecret.__post_init__` on the value -/
def secretText (value : String) : Bool :=
  value ≠ "" && decide (value.utf8ByteSize ≤ maxSecretBytes) &&
    value.toList.all fun c => 32 ≤ c.toNat && c.toNat ≠ 127

/-- a credential that its constructor accepts -/
structure ConnectorSecret where
  value : String
  kind : SecretKind
  sound : secretText value = true
deriving DecidableEq

/-- `ConnectorSecret(value, kind)`, `none` where it raises `CredentialVaultError` -/
def ConnectorSecret.make (value : String) (kind : SecretKind) : Option ConnectorSecret :=
  if h : secretText value = true then some ⟨value, kind, h⟩ else none

theorem ConnectorSecret.make_eq_some {value : String} {kind : SecretKind} {secret : ConnectorSecret}
    (h : ConnectorSecret.make value kind = some secret) : secret.value = value ∧ secret.kind = kind := by
  unfold make at h
  split_ifs at h
  cases h
  exact ⟨rfl, rfl⟩

/-! ## Records -/

/-- `ConnectionRecord`; texts as stored, also the status -/
structure ConnectionRecord where
  connectorId : String
  credentialKind : String
  status : String
  createdAt : String
  updatedAt : String
  toolCount : ℤ := 0
  verifiedAt : Option String := none
  errorCode : Option String := none
  canaryTool : Option String := none
  toolSchemaSha256 : Option String := none
  proofVersion : Option String := none
  credentialGeneration : String := ""
  certifiedTools : List (String × String) := []
  certifiedManifestSha256 : Option String := none
  executionLease : Option String := none
  executionLeaseExpiresAt : Option ℤ := none
deriving DecidableEq, Repr

structure StoredConnection where
  record : ConnectionRecord
  secret : ConnectorSecret
deriving DecidableEq

/-- `CredentialVaultError` and its two subclasses -/
inductive VaultError where
  | error
  | conflict
  | busy
deriving DecidableEq, Repr

def certificationSchema : String := "rally.connection-certification/v1"

/-! ## The certified manifest -/

def isHexLower (c : Char) : Bool := ('a' ≤ c && c ≤ 'f') || c.isDigit

/-- `_SHA256.fullmatch` -/
def isSha256 (s : String) : Bool := s.length = 64 && s.toList.all isHexLower

/-- `_TOOL_NAME.fullmatch` -/
def isToolName (s : String) : Bool :=
  1 ≤ s.length && s.length ≤ 160 && s.toList.all fun c => c.isAlphanum || c ∈ "_.:/-".toList

/-- the order of pairs of texts -/
abbrev ToolLe (p q : String × String) : Prop := p.1 < q.1 ∨ (p.1 = q.1 ∧ p.2 ≤ q.2)

/-- `_normalize_certified_tools` of a list of pairs -/
def normalizeCertifiedTools (tools : List (String × String)) : Except VaultError (List (String × String)) :=
  if 128 < tools.length ∨ ¬ (tools.all fun tool => isToolName tool.1 && isSha256 tool.2) then .error .error
  else
    let normalized := tools.insertionSort ToolLe
    if (normalized.map Prod.fst).Nodup then .ok normalized else .error .error

/-- `certified_manifest_sha256` -/
def certifiedManifestSha256 (L : Libs) (tools : List (String × String)) : Except VaultError String := do
  let normalized ← normalizeCertifiedTools tools
  .ok (L.sha256 (dumps L.text compactAscii (.list (normalized.map fun tool => .list [.str tool.1, .str tool.2]))))

end Rally.Cloud
