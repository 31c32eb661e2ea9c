/-
The endpoint of a pasted token on its way from the request to a call: resolved when it is stored (`store_connection` of
`cloud/control_plane.py`), resolved again by the verifier (`McpConnectionVerifier.verify` of `cloud/hosted_connectors.py`), and
again by each call (`_stored_token_endpoint` of `cloud/hosted_connector_execution.py`).

- `canonicalHttps_again`: a canonical URL is its own canonical URL.
- `endpoints_agree_exact`: the verifier and the calls take the stored endpoint as it is, except where a connector has an
  endpoint of its own for tokens and none is supplied.
-/
import Rally.Core.Url
import Rally.Cloud.Material
import Rally.Cloud.Printed

namespace Rally.Cloud

open Py

/-! ## Addresses -/

/-- `urlsplit`, with the properties of its result that are read -/
def urlsplit (T : Url.Tables) (value : String) : Option SplitUrl :=
  (Url.split T value.toList).bind fun p => (Url.port p.netloc).map fun port =>
    { scheme := .ofList p.scheme, netloc := .ofList p.netloc, path := .ofList p.path, query := .ofList p.query
      fragment := .ofList p.fragment, hostname := (Url.hostname T p.netloc).map .ofList
      username := (Url.username p.netloc).map .ofList, password := (Url.password p.netloc).map .ofList, port := port }

/-! ## Storing a token -/

/-- `CredentialInput` -/
structure CredentialInput where
  credential : String
  kind : SecretKind
  endpoint : Option String := none
  scheme : String := "bearer"
  account : Option String := none
  workflowIds : List String := []

/-- the connectors with `token_ready` -/
def tokenReady (item : HostedConnector) : Bool := item.id ∈ ["github", "cloudflare", "n8n", "stripe", "atlassian"]

/-- `token_scheme`, which no connector changes -/
def tokenScheme : String := "bearer"

def maxCredentialBytes : ℕ := 48 * 1024

/-- why a token is not stored: the code of a `HostedConnectorError`, or an `HTTPException` -/
inductive StoreError where
  | hosted (code : String)
  | requiresOAuth
deriving DecidableEq, Repr

/-- what the catalog raises -/
def fromCatalog {α : Type} (x : Except Exn α) : Except StoreError α :=
  x.mapError fun
    | .connector code => .hosted code.text
    | _ => .hosted "endpoint_invalid"

/-- `normalize_workflow_ids` -/
def normalizeWorkflowIds (item : HostedConnector) (values : List String) : Except StoreError (List String) :=
  if item.id ≠ "n8n" then if values ≠ [] then .error (.hosted "policy_scope_not_allowed") else .ok []
  else if maxWorkflowIds < values.length then .error (.hosted "policy_scope_invalid")
  else
    let normalized := ((values.map strip).filter (· ≠ "")).dedup.insertionSort (· ≤ ·)
    if normalized = [] then .error (.hosted "policy_configuration_required")
    else if ¬ normalized.all isWorkflowId then .error (.hosted "policy_scope_invalid")
    else .ok normalized

/-- the checks of `pack_secret` on the credential -/
def isCredential (credential : String) : Bool :=
  credential ≠ "" && credential.utf8ByteSize ≤ maxCredentialBytes &&
    credential.toList.all fun c => 33 ≤ c.toNat && c.toNat ≠ 127

/-- an account as `basic` needs it -/
def isAccount (account : Option String) : Bool :=
  account.any fun a => a ≠ "" && '@' ∈ a.toList && a.length ≤ 320

/-- the fields of `pack_secret` -/
def secretFields (body : CredentialInput) (endpoint : String) (ids : List String) : List (String × Value) :=
  [("schema", .str connectionSchema), ("credential", .str body.credential), ("endpoint", .str endpoint),
    ("scheme", .str body.scheme), ("account", (body.account.map .str).getD .none),
    ("allowed_workflow_ids", .list (ids.map .str))]

section Store

variable (L : Libs)

/-- `pack_secret` -/
def packSecret (body : CredentialInput) (endpoint : String) (ids : List String) : Except StoreError String :=
  if !isCredential body.credential then .error (.hosted "credential_invalid")
  else if body.scheme = "basic" ∧ isAccount body.account = false then .error (.hosted "account_required")
  else .ok (dumps L.text compactAscii (.dict (secretFields body endpoint ids)))

/-- what is verified and what is stored -/
structure Resolved where
  endpoint : String
  stored : String

/-- `store_connection`, up to the material -/
def storeMaterial (item : HostedConnector) (body : CredentialInput) : Except StoreError Resolved :=
  if !tokenReady item then .error .requiresOAuth
  else if body.scheme ≠ tokenScheme then .error (.hosted "credential_scheme_not_allowed")
  else do
    let endpoint ← fromCatalog (resolveTokenEndpoint L item body.endpoint)
    let ids ← normalizeWorkflowIds item body.workflowIds
    let stored ← packSecret L body endpoint ids
    .ok ⟨endpoint, stored⟩

/-- the verifier and every call take the endpoint as it is -/
structure Agreed (item : HostedConnector) (now : ℤ) (r : Resolved) : Prop where
  verified : resolveEndpoint L item (some r.endpoint) = .ok r.endpoint
  executed : ∃ material, runtimeMaterial L item r.stored now = .ok material ∧ material.endpoint = r.endpoint

end Store

/-! ## Canonical addresses -/

/-- what is relied on of the standard library -/
structure StandardLibs (T : Url.Tables) (L : Libs) : Prop where
  urls : L.urlsplit = urlsplit T
  folds : L.casefold "" = ""
  reads : ReadsBack L

variable {T : Url.Tables} {L : Libs} {item : HostedConnector} {value host path canonical endpoint : String} {now : ℤ}

/-- the host of some parts, as it is compared -/
def hostOf (T : Url.Tables) (L : Libs) (p : Url.Parts) : String :=
  L.casefold (rstripDots (((Url.hostname T p.netloc).map String.ofList).getD ""))

/-- parts of an address that is called -/
structure Callable (T : Url.Tables) (L : Libs) (p : Url.Parts) : Prop where
  scheme : p.scheme = "https".toList
  host : hostOf T L p ≠ ""
  username : Url.username p.netloc = none
  password : Url.password p.netloc = none
  fragment : p.fragment = []
  query : p.query = []
  port : ∃ port, Url.port p.netloc = some port ∧ port ∈ [none, some 443]

theorem toList_rootPath (path : List Char) :
    (if String.ofList path = "" then "/" else String.ofList path).toList = Url.rootPath path := by
  rw [Url.rootPath]
  by_cases h : path = []
  · simp [h]
  · have h' : String.ofList path ≠ "" := fun heq => h (by simpa using congrArg String.toList heq)
    rw [if_neg h', if_neg h, String.toList_ofList]

theorem ofList_eq_iff {cs : List Char} {s : String} : String.ofList cs = s ↔ cs = s.toList :=
  ⟨fun h => by rw [← h, String.toList_ofList], fun h => by rw [h, String.ofList_toList]⟩

/-- what `_canonical_https` takes and yields -/
theorem canonicalHttps_ok (S : StandardLibs T L) : canonicalHttps L value false = .ok (host, path, canonical) ↔
    ∃ p, Url.split T value.toList = some p ∧ Callable T L p ∧ host = hostOf T L p ∧ path.toList = Url.rootPath p.path ∧
      canonical.toList = "https://".toList ++ (p.netloc ++ path.toList) := by
  rw [canonicalHttps, S.urls]
  cases hsplit : Url.split T value.toList with
  | none => simp [urlsplit, hsplit]
  | some p =>
    cases hport : Url.port p.netloc with
    | none =>
      refine iff_of_false (by simp [urlsplit, hsplit, hport]) ?_
      rintro ⟨q, hq, hcallable, -⟩
      obtain ⟨port, hq', -⟩ := hcallable.port
      rw [← Option.some.inj hq, hport] at hq'
      cases hq'
    | some port =>
      simp only [urlsplit, hsplit, hport, Option.bind_some, Option.map_some, Bool.false_eq_true, false_and, if_false,
        and_true]
      have hfold : L.casefold (rstripDots (((Url.hostname T p.netloc).map String.ofList).getD "")) = hostOf T L p := rfl
      rw [hfold]
      have hiff : (¬ (String.ofList p.scheme ≠ "https" ∨ hostOf T L p = "" ∨
          Option.map String.ofList (Url.username p.netloc) ≠ none ∨ Option.map String.ofList (Url.password p.netloc) ≠ none ∨
            String.ofList p.fragment ≠ "" ∨ port ∉ [none, some 443] ∨ String.ofList p.query ≠ "")) ↔ Callable T L p := by
        simp only [not_or, not_not, Option.map_eq_none_iff, ofList_eq_iff]
        constructor
        · rintro ⟨hs, hh, hu, hp, hf, ho, hq⟩
          exact ⟨hs, hh, hu, hp, hf, hq, port, hport, ho⟩
        · rintro ⟨hs, hh, hu, hp, hf, hq, o, ho, hmem⟩
          cases Option.some.inj (hport.symm.trans ho)
          exact ⟨hs, hh, hu, hp, hf, hmem, hq⟩
      by_cases hcallable : Callable T L p
      · rw [if_neg (hiff.2 hcallable)]
        simp only [Except.ok.injEq, Prod.mk.injEq, Option.some.injEq, exists_eq_left']
        constructor
        · rintro ⟨rfl, rfl, rfl⟩
          exact ⟨hcallable, rfl, toList_rootPath _, by simp⟩
        · rintro ⟨-, rfl, hpath, hcanonical⟩
          have heq : (if String.ofList p.path = "" then "/" else String.ofList p.path) = path :=
            String.toList_injective (by rw [toList_rootPath, hpath])
          refine ⟨rfl, heq, String.toList_injective ?_⟩
          rw [heq, hcanonical]
          simp
      · rw [if_pos (not_not.1 fun h => hcallable (hiff.1 h))]
        simp [hcallable]

/-- **Canonical again.** A canonical URL is its own canonical URL. -/
theorem canonicalHttps_again (S : StandardLibs T L) (h : canonicalHttps L value false = .ok (host, path, canonical)) :
    canonicalHttps L canonical false = .ok (host, path, canonical) := by
  obtain ⟨p, hsplit, hcallable, hhost, hpath, hcanonical⟩ := (canonicalHttps_ok S).1 h
  have hnetloc : p.netloc ≠ [] := by
    intro hnil
    apply hcallable.host
    rw [hostOf, hnil]
    exact S.folds
  refine (canonicalHttps_ok S).2 ⟨⟨"https".toList, p.netloc, Url.rootPath p.path, [], []⟩, ?_, ?_, hhost, ?_, hcanonical⟩
  · rw [hcanonical, hpath]
    exact Url.split_join hsplit hnetloc
  · exact ⟨rfl, hcallable.host, hcallable.username, hcallable.password, rfl, rfl, hcallable.port⟩
  · rw [hpath]
    by_cases hnil : p.path = []
    · simp [Url.rootPath, hnil]
    · simp [Url.rootPath, hnil]

/-! ## Resolving again -/

/-- whether a connector is called at a canonical URL -/
def Admits (L : Libs) (item : HostedConnector) (host path canonical : String) : Prop :=
  if item.endpoint.getD "" ≠ "" then canonicalHttps L (item.endpoint.getD "") false = .ok (host, path, canonical)
  else item.endpointSuffixes.any (underSuffix host) = true ∧ (item.endpointPaths = [] ∨ path ∈ item.endpointPaths)

theorem resolveEndpoint_ok {supplied : Option String} (h : resolveEndpoint L item supplied = .ok endpoint) :
    ∃ value host path, canonicalHttps L value false = .ok (host, path, endpoint) ∧ Admits L item host path endpoint := by
  simp only [resolveEndpoint] at h
  split_ifs at h with hempty hpinned
  · obtain ⟨⟨host, path, canonical⟩, hcanonical, h⟩ := bind_ok h
    obtain ⟨⟨expectedHost, expectedPath, expected⟩, hexpected, h⟩ := bind_ok h
    simp only at h
    split_ifs at h with hdiffers
    cases h
    simp only [not_or, not_not] at hdiffers
    obtain ⟨rfl, rfl, rfl⟩ := hdiffers
    exact ⟨_, host, path, hcanonical, by rw [Admits, if_pos hpinned]; exact hexpected⟩
  · obtain ⟨⟨host, path, canonical⟩, hcanonical, h⟩ := bind_ok h
    simp only at h
    split_ifs at h with hoff
    cases h
    simp only [not_or, not_and, not_not] at hoff
    refine ⟨_, host, path, hcanonical, ?_⟩
    rw [Admits, if_neg hpinned]
    exact ⟨hoff.1, or_iff_not_imp_left.2 hoff.2⟩

/-- an admitted canonical URL without blanks at its ends is resolved to itself -/
theorem resolveEndpoint_again (hne : canonical ≠ "") (hstrip : strip canonical = canonical)
    (hcanonical : canonicalHttps L canonical false = .ok (host, path, canonical))
    (hadmits : Admits L item host path canonical) : resolveEndpoint L item (some canonical) = .ok canonical := by
  have hvalue : strip ((orText (some canonical) item.endpoint).getD "") = canonical := by
    rw [orText, if_neg (by simpa using hne)]
    simpa using hstrip
  simp only [resolveEndpoint, hvalue, if_neg hne, hcanonical, bind, Except.bind]
  rw [Admits] at hadmits
  split_ifs at hadmits ⊢ with hpinned hoff
  · simp [hadmits]
  · rcases hoff with hsuffix | ⟨hpaths, hpath⟩
    · exact absurd hadmits.1 hsuffix
    · exact absurd hadmits.2 (not_or.2 ⟨hpaths, hpath⟩)
  · rfl

/-- a path without blanks -/
def Blankless (s : String) : Prop := ∀ c ∈ s.toList, isSpace c = false

instance (s : String) : Decidable (Blankless s) := by unfold Blankless; infer_instance

/-- nothing is stripped from a canonical URL whose path has no blanks -/
theorem strip_canonical {front : List Char} (h : canonical.toList = "https://".toList ++ (front ++ path.toList))
    (hne : path ≠ "") (hpath : Blankless path) : strip canonical = canonical := by
  obtain ⟨init, last, hlast⟩ : ∃ init last, path.toList = init ++ [last] := by
    rcases List.eq_nil_or_concat path.toList with hnil | ⟨init, last, hlast⟩
    · exact absurd (String.toList_injective hnil) hne
    · exact ⟨init, last, by simpa using hlast⟩
  have hspace : isSpace last = false := hpath last (by rw [hlast]; simp)
  have hfront : canonical.toList.dropWhile isSpace = canonical.toList := by
    rw [h]
    rfl
  have hback : canonical.toList.reverse.dropWhile isSpace = canonical.toList.reverse := by
    rw [h, hlast]
    simp [hspace]
  rw [strip, stripChars, hfront, hback, List.reverse_reverse, String.ofList_toList]

/-- a connector whose endpoints have no blanks: a pinned one, or paths under its hosts -/
structure Pinned (item : HostedConnector) : Prop where
  endpoint : Blankless (item.endpoint.getD "")
  paths : ∀ path ∈ item.endpointPaths, Blankless path
  bound : item.endpoint.getD "" = "" → item.endpointPaths ≠ []

instance (item : HostedConnector) : Decidable (Pinned item) :=
  decidable_of_iff (Blankless (item.endpoint.getD "") ∧ (∀ path ∈ item.endpointPaths, Blankless path) ∧
    (item.endpoint.getD "" = "" → item.endpointPaths ≠ []))
    ⟨fun h => ⟨h.1, h.2.1, h.2.2⟩, fun h => ⟨h.endpoint, h.paths, h.bound⟩⟩

/-- the connectors of the catalog that take tokens are such -/
theorem catalog_pinned : ∀ item ∈ connectors, tokenReady item = true → Pinned item := by decide

/-- an admitted path has no blanks -/
theorem admitted_path (S : StandardLibs T L) (hitem : Pinned item) (hadmits : Admits L item host path canonical) :
    Blankless path := by
  rw [Admits] at hadmits
  split_ifs at hadmits with hpinned
  · obtain ⟨p, hsplit, -, -, hpath, -⟩ := (canonicalHttps_ok S).1 hadmits
    intro c hc
    rw [hpath, Url.rootPath] at hc
    split_ifs at hc with hnil
    · cases List.mem_singleton.1 hc
      rfl
    · exact hitem.endpoint c (Url.split_path_subset hsplit hc)
  · rcases hadmits.2 with hnone | hmem
    · exact absurd hnone (hitem.bound (not_not.1 hpinned))
    · exact hitem.paths path hmem

/-- an endpoint that is resolved is resolved to itself -/
theorem resolveEndpoint_idem (S : StandardLibs T L) (hitem : Pinned item) {supplied : Option String}
    (h : resolveEndpoint L item supplied = .ok endpoint) : resolveEndpoint L item (some endpoint) = .ok endpoint := by
  obtain ⟨value, host, path, hcanonical, hadmits⟩ := resolveEndpoint_ok h
  obtain ⟨p, -, -, -, hpath, htext⟩ := (canonicalHttps_ok S).1 hcanonical
  have hne : path ≠ "" := by
    rintro rfl
    rw [Url.rootPath] at hpath
    split_ifs at hpath with hnil
    · cases hpath
    · exact hnil hpath.symm
  have hendpoint : endpoint ≠ "" := by
    rintro rfl
    cases htext
  exact resolveEndpoint_again hendpoint (strip_canonical htext hne (admitted_path S hitem hadmits))
    (canonicalHttps_again S hcanonical) hadmits

/-! ## The endpoint for tokens -/

/-- the two endpoints of the one connector that has an endpoint for tokens -/
def oauthUrl : String := "https://mcp.atlassian.com/v1/mcp/authv2"

def tokenUrl : String := "https://mcp.atlassian.com/v1/mcp"

/-- no other connector has one -/
theorem catalog_tokens : ∀ item ∈ connectors,
    item.tokenEndpoint = none ∨ item.tokenEndpoint = some tokenUrl ∧ item.endpoint = some oauthUrl := by
  decide

/-- the parts of an address at their host -/
def atlassianParts (path : String) : Url.Parts := ⟨"https".toList, "mcp.atlassian.com".toList, path.toList, [], []⟩

theorem split_oauthUrl (T : Url.Tables) : Url.split T oauthUrl.toList = some (atlassianParts "/v1/mcp/authv2") := rfl

theorem split_tokenUrl (T : Url.Tables) : Url.split T tokenUrl.toList = some (atlassianParts "/v1/mcp") := rfl

theorem canonicalHttps_oauthUrl (S : StandardLibs T L) :
    canonicalHttps L oauthUrl false = .ok (host, path, canonical) →
      canonical = oauthUrl ∧ hostOf T L (atlassianParts "/v1/mcp") ≠ "" := by
  rw [canonicalHttps_ok S]
  rintro ⟨p, hp, hcallable, -, hpath, hcanonical⟩
  cases Option.some.inj ((split_oauthUrl T).symm.trans hp)
  refine ⟨String.toList_injective ?_, hcallable.host⟩
  rw [hcanonical, hpath]
  rfl

theorem canonicalHttps_tokenUrl (S : StandardLibs T L) (hhost : hostOf T L (atlassianParts "/v1/mcp") ≠ "") :
    canonicalHttps L tokenUrl false = .ok (hostOf T L (atlassianParts "/v1/mcp"), "/v1/mcp", tokenUrl) :=
  (canonicalHttps_ok S).2 ⟨_, split_tokenUrl T, ⟨rfl, hhost, by decide, by decide, rfl, rfl, none, by decide, by simp⟩, rfl,
    rfl, rfl⟩

theorem canonicalHttps_tokenUrl_ok (S : StandardLibs T L) (h : canonicalHttps L tokenUrl false = .ok (host, path, canonical)) :
    canonical = tokenUrl := by
  obtain ⟨p, hp, -, -, hpath, hcanonical⟩ := (canonicalHttps_ok S).1 h
  cases Option.some.inj ((split_tokenUrl T).symm.trans hp)
  apply String.toList_injective
  rw [hcanonical, hpath]
  rfl

/-- only its own endpoint is resolved for a connector that has one -/
theorem resolveEndpoint_oauth (S : StandardLibs T L) (hitem : item.endpoint = some oauthUrl) {supplied : Option String}
    (h : resolveEndpoint L item supplied = .ok endpoint) :
    endpoint = oauthUrl ∧ hostOf T L (atlassianParts "/v1/mcp") ≠ "" := by
  obtain ⟨_, _, _, -, hadmits⟩ := resolveEndpoint_ok h
  rw [Admits, hitem, if_pos (by decide)] at hadmits
  exact canonicalHttps_oauthUrl S hadmits

/-- the endpoint for tokens, where it is not supplied -/
theorem resolveToken_absent (S : StandardLibs T L) (htoken : item.tokenEndpoint = some tokenUrl) {supplied : Option String}
    (habsent : supplied.getD "" = "") (h : resolveTokenEndpoint L item supplied = .ok endpoint) : endpoint = tokenUrl := by
  rw [resolveTokenEndpoint, htoken] at h
  simp only at h
  rw [if_neg (not_not.2 habsent)] at h
  obtain ⟨⟨_, _, _⟩, hcanonical, h⟩ := bind_ok h
  cases h
  exact canonicalHttps_tokenUrl_ok S hcanonical

theorem resolveToken_supplied {supplied : Option String} (h : item.tokenEndpoint = none ∨ supplied.getD "" ≠ "") :
    resolveTokenEndpoint L item supplied = resolveEndpoint L item supplied := by
  rw [resolveTokenEndpoint]
  rcases h with hnone | hsupplied
  · rw [hnone]
  · cases item.tokenEndpoint with
    | none => rfl
    | some alternate => exact if_pos hsupplied

/-- a call takes the endpoint that was resolved -/
theorem storedTokenEndpoint_again (S : StandardLibs T L) (hitem : item ∈ connectors) (htoken : tokenReady item = true)
    {supplied : Option String} (h : resolveTokenEndpoint L item supplied = .ok endpoint) :
    storedTokenEndpoint L item endpoint = .ok endpoint := by
  have hpinned := catalog_pinned item hitem htoken
  rcases catalog_tokens item hitem with hnone | ⟨halternate, hoauth⟩
  · have hresolved := (resolveToken_supplied (.inl hnone)).symm.trans h
    simp only [storedTokenEndpoint, hnone, resolveTokenEndpoint]
    exact resolveEndpoint_idem S hpinned hresolved
  · by_cases hsupplied : supplied.getD "" = ""
    · -- what was resolved is what is resolved without an endpoint
      have hagain : resolveTokenEndpoint L item none = .ok endpoint := by
        rw [resolveTokenEndpoint, halternate] at h ⊢
        simp only at h ⊢
        rwa [if_neg (not_not.2 hsupplied)] at h
      simp only [storedTokenEndpoint, halternate, hagain, bind, Except.bind, if_true]
    · have hresolved := (resolveToken_supplied (.inr hsupplied)).symm.trans h
      obtain ⟨rfl, hhost⟩ := resolveEndpoint_oauth S hoauth hresolved
      have halt : resolveTokenEndpoint L item none = .ok tokenUrl := by
        rw [resolveTokenEndpoint, halternate]
        simp only [Option.getD_none, ne_eq, not_true_eq_false, if_false, canonicalHttps_tokenUrl S hhost, bind, Except.bind]
      simp only [storedTokenEndpoint, halternate, halt, bind, Except.bind]
      rw [if_neg (by decide), resolveToken_supplied (.inr (by decide))]
      exact resolveEndpoint_idem S hpinned hresolved

/-! ## Material -/

theorem normalizeWorkflowIds_ok {values ids : List String} (h : normalizeWorkflowIds item values = .ok ids) :
    (item.id ≠ "n8n" ∧ ids = []) ∨
      (item.id = "n8n" ∧ ids ≠ [] ∧ ids.length ≤ maxWorkflowIds ∧ ids.all isWorkflowId = true) := by
  rw [normalizeWorkflowIds] at h
  split_ifs at h with hother hsupplied hmany
  · cases h
    exact .inl ⟨hother, rfl⟩
  · simp only at h
    split at h
    · cases h
    split at h
    · cases h
    rename_i hempty hids
    cases h
    refine .inr ⟨not_not.1 hother, hempty, ?_, not_not.1 hids⟩
    rw [List.length_insertionSort]
    calc ((values.map strip).filter (· ≠ "")).dedup.length
        ≤ ((values.map strip).filter (· ≠ "")).length := (List.dedup_sublist _).length_le
      _ ≤ (values.map strip).length := List.length_filter_le _ _
      _ = values.length := List.length_map _
      _ ≤ maxWorkflowIds := not_lt.1 hmany

/-- normalized identifiers are accepted when they are read back -/
theorem workflowIds_again {values ids : List String} (h : normalizeWorkflowIds item values = .ok ids) :
    ∃ read, workflowIds (.list (ids.map .str)) item = .ok read := by
  have htexts : (ids.map Value.str).filterMap textOf = ids := by
    rw [List.filterMap_map]
    exact List.filterMap_some
  have hall : ((ids.map Value.str).all fun v => (textOf v).isSome) = true := by simp [textOf]
  have hsorted : (ids.dedup.insertionSort (· ≤ ·)).all isWorkflowId = true ↔ ids.all isWorkflowId = true := by
    simp [List.all_eq_true, List.mem_insertionSort]
  have hnil : ids.dedup.insertionSort (· ≤ ·) = [] ↔ ids = [] := by
    rw [← List.length_eq_zero_iff, List.length_insertionSort, List.length_eq_zero_iff, List.dedup_eq_nil]
  rw [workflowIds, workflowIds.settle, htexts]
  simp only
  rcases normalizeWorkflowIds_ok h with ⟨hother, rfl⟩ | ⟨hid, hne, hlength, hids⟩
  · exact ⟨[], by simp [hother]⟩
  · refine ⟨ids.dedup.insertionSort (· ≤ ·), ?_⟩
    rw [if_neg (by simp [hall, not_lt.2 hlength]), if_neg (not_not.2 (hsorted.2 hids)), if_neg (fun h => hne (hnil.1 h.2)),
      if_neg (fun h => h.1 hid)]

theorem secretFields_fields (body : CredentialInput) (endpoint : String) (ids : List String) :
    Fields (secretFields body endpoint ids) := by
  refine ⟨by simp [Dict.Ok, secretFields], ?_⟩
  have haccount : Flat ((body.account.map Value.str).getD .none) := by
    cases body.account with
    | none => exact .none
    | some account => exact .text account
  simp only [secretFields, List.forall_mem_cons]
  exact ⟨.text _, .text _, .text _, .text _, haccount, .texts _, by simp⟩

/-- what is stored -/
structure Packed (L : Libs) (item : HostedConnector) (body : CredentialInput) (r : Resolved) : Prop where
  tokenReady : tokenReady item = true
  scheme : body.scheme = tokenScheme
  credential : isCredential body.credential = true
  resolved : resolveTokenEndpoint L item body.endpoint = .ok r.endpoint
  stored : ∃ ids, normalizeWorkflowIds item body.workflowIds = .ok ids ∧
    r.stored = dumps L.text compactAscii (.dict (secretFields body r.endpoint ids))

theorem storeMaterial_ok {body : CredentialInput} {r : Resolved} (h : storeMaterial L item body = .ok r) :
    Packed L item body r := by
  rw [storeMaterial] at h
  split_ifs at h with hready hscheme
  obtain ⟨endpoint, hresolved, h⟩ := bind_ok h
  obtain ⟨ids, hids, h⟩ := bind_ok h
  obtain ⟨stored, hpacked, h⟩ := bind_ok h
  cases h
  rw [packSecret] at hpacked
  split_ifs at hpacked with hcredential haccount
  cases hpacked
  exact ⟨by simpa using hready, not_not.1 hscheme, by simpa using hcredential, mapError_ok hresolved, ids, hids, rfl⟩

/-- the stored credential is read back -/
theorem unpackSecret_packed {body : CredentialInput} {stored : String} {ids : List String} (hscheme : body.scheme = tokenScheme)
    (hcredential : isCredential body.credential = true)
    (hloads : L.loads stored = .value (.dict (secretFields body endpoint ids))) :
    unpackSecret L stored = .ok ⟨body.credential, endpoint, tokenScheme, body.account⟩ := by
  have hne : body.credential ≠ "" := by
    rintro hempty
    rw [hempty] at hcredential
    cases hcredential
  have haccount : textOf ((body.account.map Value.str).getD .none) = body.account ∧
      (body.account = none → (body.account.map Value.str).getD .none = .none) := by
    cases body.account with
    | none => exact ⟨rfl, fun _ => rfl⟩
    | some account => exact ⟨rfl, fun h => by cases h⟩
  simp only [unpackSecret, hloads]
  have hfield : ∀ k v, (secretFields body endpoint ids).lookup k = some v → field (secretFields body endpoint ids) k = v :=
    fun k v h => by rw [field, h]; rfl
  rw [hfield "schema" (.str connectionSchema) rfl, hfield "credential" (.str body.credential) rfl,
    hfield "endpoint" (.str endpoint) rfl, hfield "scheme" (.str body.scheme) rfl, hfield "account" _ rfl, hscheme,
    haccount.1, if_neg (by simp [connectionSchema])]
  simp only [if_neg hne, builtin, Value.key, Except.mapError, bind, Except.bind]
  rw [if_neg (by decide), if_neg (fun h => h.1 (haccount.2 h.2))]
  rfl

/-! ## Agreement -/

variable {body : CredentialInput} {r : Resolved}

/-- every call takes the endpoint that was resolved -/
theorem Packed.executed (S : StandardLibs T L) (hitem : item ∈ connectors) (h : Packed L item body r) (now : ℤ) :
    ∃ material, runtimeMaterial L item r.stored now = .ok material ∧ material.endpoint = r.endpoint := by
  obtain ⟨ids, hids, hstored⟩ := h.stored
  have hloads : L.loads r.stored = .value (.dict (secretFields body r.endpoint ids)) := by
    rw [hstored]
    exact S.reads _ (secretFields_fields body r.endpoint ids)
  have hunpack := unpackSecret_packed h.scheme h.credential hloads
  have hendpoint := storedTokenEndpoint_again S hitem h.tokenReady h.resolved
  obtain ⟨read, hread⟩ := workflowIds_again hids
  have hschema : field (secretFields body r.endpoint ids) "schema" = .str connectionSchema := rfl
  have hlist : field (secretFields body r.endpoint ids) "allowed_workflow_ids" = .list (ids.map .str) := rfl
  refine ⟨⟨r.endpoint, authorizationHeaders L item ⟨body.credential, r.endpoint, tokenScheme, body.account⟩, read,
    [body.credential]⟩, ?_, rfl⟩
  rw [runtimeMaterial, hloads]
  simp only
  rw [if_pos hschema, tokenRuntimeMaterial, hlist]
  simp only [hunpack, hendpoint, hread, asHosted, Except.mapError, bind, Except.bind]

/-- the verifier takes the endpoint, unless it is the one for tokens -/
theorem Packed.verified_iff (S : StandardLibs T L) (hitem : item ∈ connectors) (h : Packed L item body r) :
    resolveEndpoint L item (some r.endpoint) = .ok r.endpoint ↔
      (item.tokenEndpoint = none ∨ body.endpoint.getD "" ≠ "") := by
  constructor
  · intro hverified
    by_contra hnot
    simp only [not_or, not_not] at hnot
    obtain ⟨hsome, habsent⟩ := hnot
    rcases catalog_tokens item hitem with hnone | ⟨htoken, hoauth⟩
    · exact hsome hnone
    · have hurl := resolveToken_absent S htoken habsent h.resolved
      have hsame : tokenUrl = oauthUrl := hurl.symm.trans (resolveEndpoint_oauth S hoauth hverified).1
      exact absurd hsame (by decide)
  · intro hresolver
    exact resolveEndpoint_idem S (catalog_pinned item hitem h.tokenReady)
      ((resolveToken_supplied hresolver).symm.trans h.resolved)

/-- **Endpoints.** The verifier and every call take the endpoint that a token is stored with, exactly where the connector has no
endpoint of its own for tokens, or an endpoint is supplied. -/
theorem endpoints_agree_exact (S : StandardLibs T L) (hitem : item ∈ connectors) (hstore : storeMaterial L item body = .ok r)
    (now : ℤ) : Agreed L item now r ↔ (item.tokenEndpoint = none ∨ body.endpoint.getD "" ≠ "") := by
  have hpacked := storeMaterial_ok hstore
  rw [← hpacked.verified_iff S hitem]
  exact ⟨fun h => h.verified, fun h => ⟨h, hpacked.executed S hitem now⟩⟩

/-! ## A token without an endpoint -/

/-- the tables for ASCII addresses -/
def asciiTables : Url.Tables where
  lower cs := cs.map Char.toLower
  nfkcSafe _ := true
  bracketed _ := false

/-- libraries as they act on ASCII texts -/
def asciiLibs : Libs where
  text := ⟨fun _ => "0.5", id⟩
  sha256 := id
  loads := jsonLoads fun _ => .fin 0
  urlsplit := urlsplit asciiTables
  casefold s := String.ofList (s.toList.map Char.toLower)
  b64encode := id
  fromisoformat _ := none
  iso _ := ""

theorem asciiLibs_standard : StandardLibs asciiTables asciiLibs where
  urls := rfl
  folds := rfl
  reads := jsonLoads_readsBack rfl

def stripe : HostedConnector :=
  { id := "stripe", endpoint := some "https://mcp.stripe.com", safePreset := "read-minimal" }

def atlassian : HostedConnector :=
  { id := "atlassian", endpoint := some oauthUrl, safePreset := "read-minimal", tokenEndpoint := some tokenUrl }

/-- a token without an endpoint -/
def pasted : CredentialInput := ⟨"token", .apiKey, none, "bearer", none, []⟩

theorem stored_of_isOk {ε α : Type} {x : Except ε α} (h : x.isOk = true) : ∃ a, x = .ok a := by
  cases x with
  | error e => cases h
  | ok a => exact ⟨a, rfl⟩

/-- a connector with one endpoint -/
theorem pasted_token_agrees : ∃ r, storeMaterial asciiLibs stripe pasted = .ok r ∧ Agreed asciiLibs stripe 0 r := by
  obtain ⟨r, hr⟩ := stored_of_isOk (show (storeMaterial asciiLibs stripe pasted).isOk = true by decide +kernel)
  exact ⟨r, hr, (endpoints_agree_exact asciiLibs_standard (by simp [connectors, stripe]) hr 0).2 (.inl rfl)⟩

/-- the endpoint for tokens is stored, taken by every call, and refused by the verifier -/
theorem token_endpoint_refused : ∃ r, storeMaterial asciiLibs atlassian pasted = .ok r ∧ r.endpoint = tokenUrl ∧
    resolveEndpoint asciiLibs atlassian (some r.endpoint) = .error (.connector .endpointNotAllowed) ∧
    ∃ material, runtimeMaterial asciiLibs atlassian r.stored 0 = .ok material ∧ material.endpoint = r.endpoint := by
  have hitem : atlassian ∈ connectors := by simp [connectors, atlassian, oauthUrl, tokenUrl]
  obtain ⟨r, hr⟩ := stored_of_isOk (show (storeMaterial asciiLibs atlassian pasted).isOk = true by decide)
  have hpacked := storeMaterial_ok hr
  have hurl : r.endpoint = tokenUrl := resolveToken_absent asciiLibs_standard rfl rfl hpacked.resolved
  have hrefused : (resolveEndpoint asciiLibs atlassian (some tokenUrl)) = .error (.connector .endpointNotAllowed) := by
    decide +kernel
  exact ⟨r, hr, hurl, by rw [hurl, hrefused], hpacked.executed asciiLibs_standard hitem 0⟩

end Rally.Cloud
