/-
Unfinished OAuth handshakes (`MemoryOAuthFlowStore` and `FirestoreOAuthFlowStore` of `cloud/connector_oauth.py`): a flow for
each state value, and a reservation for each user and connector.

In Firestore a flow is sealed in a document under the hash of its state, and the reservation is a document of the same
collection whose name starts with `active-`; the two kinds are kept apart here. A transaction may raise, before or after it
is applied.

- `Moved`: what a call does to the flows of either store. `call_moved`: each call of each store does this.
- `flows_one_use`: a state value yields its flow once, to the browser and the issuer of that flow and before its expiry; a
  wrong browser or issuer changes nothing; a user has one open flow for a connector; cancelling takes away that one alone.
-/
import Rally.Core.Dict
import Rally.Core.Json
import Rally.Core.Trace
import Rally.Cloud.MagicLinks

namespace Rally.Cloud.OAuthFlows

open Py MagicLinks

/-! ## Flows -/

inductive TokenAuthMethod where
  | none
  | clientSecretBasic
  | clientSecretPost
deriving DecidableEq

def TokenAuthMethod.text : TokenAuthMethod → String
  | .none => "none"
  | .clientSecretBasic => "client_secret_basic"
  | .clientSecretPost => "client_secret_post"

def TokenAuthMethod.ofText : String → Option TokenAuthMethod
  | "none" => some .none
  | "client_secret_basic" => some .clientSecretBasic
  | "client_secret_post" => some .clientSecretPost
  | _ => Option.none

structure OAuthFlow where
  identity : UserIdentity
  connectorId : String
  endpoint : String
  authorizationEndpoint : String
  tokenEndpoint : String
  revocationEndpoint : Option String
  clientId : String
  clientSecret : Option String
  tokenAuthMethod : TokenAuthMethod
  codeVerifier : String
  scope : Option String
  resource : Option String
  allowedWorkflowIds : List String
  issuer : String
  browserBindingHash : String
  /-- in microseconds -/
  expiresAt : ℤ
deriving DecidableEq

/-- a sealed payload -/
structure Envelope where
  nonce : String
  ciphertext : String
deriving DecidableEq

/-- a hash as hexadecimal text -/
def isHash (s : String) : Bool := s.length = 64 && s.toList.all fun c => ('a' ≤ c && c ≤ 'f') || c.isDigit

/-- hashes, the texts of numbers, JSON, the texts of times, and KMS -/
structure Platform where
  sha256 : String → String
  hexdigest : ∀ s, isHash (sha256 s) = true
  runtime : Runtime
  loads : String → Option Value
  isoformat : ℤ → String
  fromisoformat : String → Option ℤ
  /-- with a random text, a payload and its associated data -/
  sealText : String → String → String → Envelope
  openText : Envelope → String → Option String

section Texts

variable (P : Platform)

/-- `_STATE.fullmatch` -/
def isState (s : String) : Bool := 32 ≤ s.length && s.length ≤ 128 && s.toList.all isUrlSafe

/-- `_state_hash`, and `_browser_binding_hash` -/
def stateHash (state : String) : Option String := if isState state then some (P.sha256 state) else none

/-- `_flow_associated_data` -/
def flowAssociatedData (hash : String) : String := "rally.connector-oauth-flow/v1\x00" ++ hash

/-- `_flow_active_key_for` -/
def flowActiveKeyFor (uid connectorId : String) : String := "active-" ++ P.sha256 (uid ++ "\x00" ++ connectorId)

/-- `_flow_active_key` -/
def flowActiveKey (flow : OAuthFlow) : String := flowActiveKeyFor P flow.identity.uid flow.connectorId

def optional : Option String → Value
  | some s => .str s
  | none => .none

/-- the record of `_flow_payload` -/
def flowValue (flow : OAuthFlow) : Value :=
  .dict
    [("identity", .dict
        [("uid", .str flow.identity.uid), ("email", .str flow.identity.email), ("name", optional flow.identity.name),
          ("picture", optional flow.identity.picture), ("hosted_domain", optional flow.identity.hostedDomain)]),
      ("connector_id", .str flow.connectorId), ("endpoint", .str flow.endpoint),
      ("authorization_endpoint", .str flow.authorizationEndpoint), ("token_endpoint", .str flow.tokenEndpoint),
      ("revocation_endpoint", optional flow.revocationEndpoint), ("client_id", .str flow.clientId),
      ("client_secret", optional flow.clientSecret), ("token_auth_method", .str flow.tokenAuthMethod.text),
      ("code_verifier", .str flow.codeVerifier), ("scope", optional flow.scope), ("resource", optional flow.resource),
      ("allowed_workflow_ids", .list (flow.allowedWorkflowIds.map .str)), ("issuer", .str flow.issuer),
      ("browser_binding_hash", .str flow.browserBindingHash), ("expires_at", .str (P.isoformat flow.expiresAt))]

/-- `_flow_payload` -/
def flowPayload (flow : OAuthFlow) : String := dumps P.runtime compactAscii (flowValue P flow)

def text (kvs : List (String × Value)) (k : String) : Option String :=
  match kvs.lookup k with
  | some (.str s) => some s
  | _ => none

def optionalText (kvs : List (String × Value)) (k : String) : Option (Option String) :=
  match kvs.lookup k with
  | some (.str s) => some (some s)
  | some .none => some none
  | _ => none

/-- `UserIdentity(**record)`, with defaults for the fields that have one -/
def identityFromValue : Value → Option UserIdentity
  | .dict kvs => do
    let uid ← text kvs "uid"
    let email ← text kvs "email"
    let name ← optionalText (kvs ++ [("name", .none)]) "name"
    let picture ← optionalText (kvs ++ [("picture", .none)]) "picture"
    let hostedDomain ← optionalText (kvs ++ [("hosted_domain", .none)]) "hosted_domain"
    if kvs.all fun kv => kv.1 ∈ ["uid", "email", "name", "picture", "hosted_domain"] then
      some ⟨uid, email, name, picture, hostedDomain⟩
    else none
  | _ => none

/-- the texts of a list of texts -/
def texts : Value → Option (List String)
  | .list xs => xs.mapM fun x => match x with | .str s => some s | _ => none
  | _ => none

/-- `_flow_from_payload` of a decoded payload -/
def flowFromValue : Value → Option OAuthFlow
  | .dict kvs => do
    let identity ← (kvs.lookup "identity").bind identityFromValue
    let expiresAt ← (text kvs "expires_at").bind P.fromisoformat
    let allowedWorkflowIds ← texts ((kvs.lookup "allowed_workflow_ids").getD (.list []))
    let connectorId ← text kvs "connector_id"
    let endpoint ← text kvs "endpoint"
    let authorizationEndpoint ← text kvs "authorization_endpoint"
    let tokenEndpoint ← text kvs "token_endpoint"
    let revocationEndpoint ← optionalText kvs "revocation_endpoint"
    let clientId ← text kvs "client_id"
    let clientSecret ← optionalText kvs "client_secret"
    let tokenAuthMethod ← (text kvs "token_auth_method").bind TokenAuthMethod.ofText
    let codeVerifier ← text kvs "code_verifier"
    let scope ← optionalText kvs "scope"
    let resource ← optionalText kvs "resource"
    let issuer ← text kvs "issuer"
    let browserBindingHash ← text kvs "browser_binding_hash"
    -- an unexpected field is a `TypeError`
    if kvs.all fun kv => kv.1 ∈ ["identity", "connector_id", "endpoint", "authorization_endpoint", "token_endpoint",
        "revocation_endpoint", "client_id", "client_secret", "token_auth_method", "code_verifier", "scope", "resource",
        "allowed_workflow_ids", "issuer", "browser_binding_hash", "expires_at"] then
      some ⟨identity, connectorId, endpoint, authorizationEndpoint, tokenEndpoint, revocationEndpoint, clientId, clientSecret,
        tokenAuthMethod, codeVerifier, scope, resource, allowedWorkflowIds, issuer, browserBindingHash, expiresAt⟩
    else none
  | _ => none

/-- `_flow_from_payload` -/
def flowFromPayload (payload : String) : Option OAuthFlow := (P.loads payload).bind (flowFromValue P)

end Texts

/-- an answer of a store -/
inductive Reply where
  | done
  | flow (flow : Option OAuthFlow)
  | cancelled (b : Bool)
  /-- `HostedOAuthError` with its code -/
  | raised (code : String)
deriving DecidableEq

/-! ## The store in memory -/

/-- `MemoryOAuthFlowStore` -/
structure Memory where
  flows : List (String × OAuthFlow)
  active : List (String × String)

namespace Memory

variable (P : Platform)

/-- the flows without a previous one -/
def forget (flows : List (String × OAuthFlow)) (previousHash : Option String) : List (String × OAuthFlow) :=
  match previousHash with
  | some hash => if hash = "" then flows else Dict.erase flows hash
  | none => flows

/-- `put` -/
def put (clock : ℤ) (state : String) (flow : OAuthFlow) (s : Memory) : Reply × Memory :=
  match stateHash P state with
  | none => (.raised "oauth_state_invalid", s)
  | some hash =>
    let activeKey := flowActiveKey P flow
    let previousHash := Dict.get? s.active activeKey
    let previous := Dict.get? s.flows (previousHash.getD "")
    if (previous.map fun f => decide (clock < f.expiresAt)) = some true then (.raised "oauth_in_progress", s)
    else
      (.done,
        ⟨Dict.upsert (forget s.flows previousHash) hash fun _ => flow, Dict.upsert s.active activeKey fun _ => hash⟩)

/-- `consume`; the clock is read after the lock is given back -/
def consume (clock : ℤ) (state browserBinding : String) (issuer : Option String) (s : Memory) : Reply × Memory :=
  match stateHash P state, stateHash P browserBinding with
  | some hash, some bindingHash =>
    match Dict.get? s.flows hash with
    | none => (.flow none, s)
    | some flow =>
      if flow.browserBindingHash ≠ bindingHash then (.flow none, s)
      else if (issuer.map fun i => decide (flow.issuer = i)) = some false then (.flow none, s)
      else
        let left : Memory := ⟨Dict.erase s.flows hash, Dict.erase s.active (flowActiveKey P flow)⟩
        if flow.expiresAt ≤ clock then (.flow none, left) else (.flow (some flow), left)
  | _, _ => (.flow none, s)

/-- `cancel` -/
def cancel (uid connectorId : String) (s : Memory) : Reply × Memory :=
  let activeKey := flowActiveKeyFor P uid connectorId
  match Dict.get? s.active activeKey with
  | none => (.cancelled false, s)
  | some hash =>
    let left := Dict.erase s.active activeKey
    if ((Dict.get? s.flows hash).map fun f => decide (flowActiveKey P f ≠ activeKey)) = some true then
      (.raised "oauth_store_unavailable", { s with active := Dict.upsert left activeKey fun _ => hash })
    else (.cancelled true, ⟨Dict.erase s.flows hash, left⟩)

end Memory

/-! ## The store in Firestore -/

/-- the document of a flow -/
structure Document where
  envelope : Envelope
  activeKey : String
  browserBindingHash : String
  issuerHash : String
  expiresAt : ℤ

/-- the document of a reservation -/
structure Active where
  stateHash : String
  expiresAt : ℤ

/-- `FirestoreOAuthFlowStore` -/
structure Firestore where
  documents : List (String × Document)
  active : List (String × Active)

/-- how a transaction ends; one that raises may have been applied -/
inductive Commit where
  | done
  | raised (applied : Bool)
deriving DecidableEq

namespace Firestore

variable (P : Platform)

/-- a transaction that answers or raises, under the handlers around it -/
def transact {α : Type} (c : Commit) (s : Firestore) (x : Except String (α × Firestore)) : Except String α × Firestore :=
  match c, x with
  | .done, .ok (a, t) => (.ok a, t)
  | .raised applied, .ok (_, t) => (.error "oauth_store_unavailable", if applied then t else s)
  | .done, .error e => (.error e, s)
  | .raised _, .error _ => (.error "oauth_store_unavailable", s)

/-- `reserve` -/
def reserve (now : ℤ) (hash : String) (envelope : Envelope) (flow : OAuthFlow) (s : Firestore) :
    Except String (Unit × Firestore) :=
  let activeKey := flowActiveKey P flow
  if ((Dict.get? s.active activeKey).map fun a => decide (now < a.expiresAt)) = some true then .error "oauth_in_progress"
  else
    match Dict.get? s.documents hash with
    -- `create` raises
    | some _ => .error "oauth_store_unavailable"
    | none =>
      let document : Document :=
        ⟨envelope, activeKey, flow.browserBindingHash, P.sha256 flow.issuer, flow.expiresAt⟩
      .ok ((), ⟨Dict.upsert s.documents hash fun _ => document,
        Dict.upsert s.active activeKey fun _ => ⟨hash, flow.expiresAt⟩⟩)

/-- `put`: sealing draws a random text, or fails -/
def put (c : Commit) (sealing : Option String) (clock : ℤ) (state : String) (flow : OAuthFlow) (s : Firestore) :
    Reply × Firestore :=
  match stateHash P state, sealing with
  | none, _ => (.raised "oauth_state_invalid", s)
  | some _, none => (.raised "oauth_store_unavailable", s)
  | some hash, some drawn =>
    let envelope := P.sealText drawn (flowPayload P flow) (flowAssociatedData hash)
    match transact c s (reserve P clock hash envelope flow s) with
    | (.ok (), t) => (.done, t)
    | (.error e, t) => (.raised e, t)

/-- `take` -/
def take (hash bindingHash : String) (issuer : Option String) (s : Firestore) : Option Document × Firestore :=
  match Dict.get? s.documents hash with
  | none => (none, s)
  | some record =>
    if record.browserBindingHash ≠ bindingHash then (none, s)
    else if (issuer.map fun i => decide (record.issuerHash = P.sha256 i)) = some false then (none, s)
    else
      let matching :=
        if startsWith record.activeKey "active-" then
          (Dict.get? s.active record.activeKey).map fun a => decide (a.stateHash = hash)
        else none
      (some record, ⟨Dict.erase s.documents hash,
        if matching = some true then Dict.erase s.active record.activeKey else s.active⟩)

/-- `consume`; the clock is read after the transaction, and opening the payload may fail -/
def consume (c : Commit) (opening : Bool) (clock : ℤ) (state browserBinding : String) (issuer : Option String)
    (s : Firestore) : Reply × Firestore :=
  match stateHash P state, stateHash P browserBinding with
  | some hash, some bindingHash =>
    match transact c s (.ok (take P hash bindingHash issuer s)) with
    | (.error e, t) => (.raised e, t)
    | (.ok none, t) => (.flow none, t)
    | (.ok (some record), t) =>
      if record.expiresAt ≤ clock then (.flow none, t)
      else
        match (if opening then P.openText record.envelope (flowAssociatedData hash) else none) with
        | none => (.raised "oauth_store_unavailable", t)
        | some payload => (.flow (flowFromPayload P payload), t)
  | _, _ => (.flow none, s)

/-- `remove` -/
def remove (activeKey : String) (s : Firestore) : Except String (Bool × Firestore) :=
  match Dict.get? s.active activeKey with
  | none => .ok (false, s)
  | some a =>
    if !isHash a.stateHash then .error "oauth_store_unavailable"
    else
      match Dict.get? s.documents a.stateHash with
      | none => .ok (true, { s with active := Dict.erase s.active activeKey })
      | some record =>
        if record.activeKey ≠ activeKey then .error "oauth_store_unavailable"
        else .ok (true, ⟨Dict.erase s.documents a.stateHash, Dict.erase s.active activeKey⟩)

/-- `cancel` -/
def cancel (c : Commit) (uid connectorId : String) (s : Firestore) : Reply × Firestore :=
  match transact c s (remove (flowActiveKeyFor P uid connectorId) s) with
  | (.ok b, t) => (.cancelled b, t)
  | (.error e, t) => (.raised e, t)

end Firestore

/-! ## Either store -/

inductive FlowStore where
  | memory (m : Memory)
  | firestore (f : Firestore)

inductive Call where
  | put (state : String) (flow : OAuthFlow)
  | consume (state browserBinding : String) (issuer : Option String)
  | cancel (uid connectorId : String)

/-- when a call takes effect, the reading of its clock, and what becomes of sealing, the transaction and opening -/
structure Draws where
  moment : ℤ
  clock : ℤ
  commit : Commit
  sealing : Option String
  opening : Bool

def FlowStore.call (P : Platform) (i : Draws) (q : Call) : FlowStore → Reply × FlowStore
  | .memory m =>
    let (reply, m') :=
      match q with
      | .put state flow => m.put P i.clock state flow
      | .consume state browserBinding issuer => m.consume P i.clock state browserBinding issuer
      | .cancel uid connectorId => m.cancel P uid connectorId
    (reply, .memory m')
  | .firestore f =>
    let (reply, f') :=
      match q with
      | .put state flow => f.put P i.commit i.sealing i.clock state flow
      | .consume state browserBinding issuer => f.consume P i.commit i.opening i.clock state browserBinding issuer
      | .cancel uid connectorId => f.cancel P i.commit uid connectorId
    (reply, .firestore f')

/-- the flow in a document -/
def Document.flow (P : Platform) (hash : String) (d : Document) : Option OAuthFlow :=
  (P.openText d.envelope (flowAssociatedData hash)).bind (flowFromPayload P)

/-- the flow under the hash of a state -/
def FlowStore.flowAt (P : Platform) : FlowStore → String → Option OAuthFlow
  | .memory m, hash => Dict.get? m.flows hash
  | .firestore f, hash => (Dict.get? f.documents hash).bind (Document.flow P hash)

/-- a flow that is sealed is found again: opening undoes sealing, decoding undoes encoding -/
structure Recovers (P : Platform) (flow : OAuthFlow) : Prop where
  opens : ∀ drawn a, P.openText (P.sealText drawn (flowPayload P flow) a) a = some (flowPayload P flow)
  loads : P.loads (flowPayload P flow) = some (flowValue P flow)
  times : P.fromisoformat (P.isoformat flow.expiresAt) = some flow.expiresAt

/-- a document shows of its flow what the store looks at -/
structure Shows (P : Platform) (d : Document) (flow : OAuthFlow) : Prop where
  key : d.activeKey = flowActiveKey P flow
  binding : d.browserBindingHash = flow.browserBindingHash
  issuer : d.issuerHash = P.sha256 flow.issuer
  expiry : d.expiresAt = flow.expiresAt

/-- in memory each flow is the reserved one of its user and connector; in Firestore each that has not expired -/
def Inv (P : Platform) (now : ℤ) : FlowStore → Prop
  | .memory m => ∀ hash flow, Dict.get? m.flows hash = some flow →
      hash ≠ "" ∧ Dict.get? m.active (flowActiveKey P flow) = some hash
  | .firestore f => ∀ hash d, Dict.get? f.documents hash = some d →
      (∃ flow, d.flow P hash = some flow ∧ Shows P d flow) ∧
        (d.expiresAt ≤ now ∨ Dict.get? f.active d.activeKey = some ⟨hash, d.expiresAt⟩)

/-- what a call may do to the flows -/
inductive Moved (P : Platform) (l : String → Option OAuthFlow) : Call → (String → Option OAuthFlow) → Prop where
  | unchanged {q : Call} : Moved P l q l
  | put {state hash : String} {flow : OAuthFlow} {l' : String → Option OAuthFlow} (named : stateHash P state = some hash)
      (stored : l' hash = some flow) (others : ∀ h, h ≠ hash → l' h = l h ∨ l' h = none) : Moved P l (.put state flow) l'
  | taken {state hash browserBinding : String} {issuer : Option String} (named : stateHash P state = some hash) :
      Moved P l (.consume state browserBinding issuer) (Function.update l hash none)
  | cancelled {uid connectorId hash : String} (mine : ∀ flow, l hash = some flow →
      flowActiveKey P flow = flowActiveKeyFor P uid connectorId) :
      Moved P l (.cancel uid connectorId) (Function.update l hash none)

section Calls

variable {P : Platform} {now : ℤ} {i : Draws} {m : Memory} {f : Firestore} {flow : OAuthFlow} {hash : String}

@[simp] theorem text_ofText (t : TokenAuthMethod) : TokenAuthMethod.ofText t.text = some t := by cases t <;> rfl

theorem optionalText_optional {kvs : List (String × Value)} {k : String} {o : Option String}
    (h : kvs.lookup k = some (optional o)) : optionalText kvs k = some o := by
  unfold optionalText
  rw [h]
  cases o <;> rfl

theorem texts_map (l : List String) : texts (.list (l.map .str)) = some l := by
  unfold texts
  simp only
  induction l with
  | nil => rfl
  | cons a l ih => simp [List.mapM_cons, ih]

theorem identityFromValue_record (u : UserIdentity) : identityFromValue (.dict
    [("uid", .str u.uid), ("email", .str u.email), ("name", optional u.name), ("picture", optional u.picture),
      ("hosted_domain", optional u.hostedDomain)]) = some u := by
  obtain ⟨uid, email, name, picture, hostedDomain⟩ := u
  cases name <;> cases picture <;> cases hostedDomain <;>
    simp [identityFromValue, optionalText, text, optional, List.lookup_cons]

/-- a flow is read back from its record -/
theorem flowFromValue_flowValue (h : Recovers P flow) : flowFromValue P (flowValue P flow) = some flow := by
  unfold flowValue
  generalize hkvs : ([("identity", _), _, _, _, _, _, _, _, _, _, _, _, _, _, _, _] : List (String × Value)) = kvs
  have hidentity : (kvs.lookup "identity").bind identityFromValue = some flow.identity := by
    rw [← hkvs]
    exact identityFromValue_record flow.identity
  have hexpires : text kvs "expires_at" = some (P.isoformat flow.expiresAt) := by rw [← hkvs]; rfl
  have hworkflows : texts ((kvs.lookup "allowed_workflow_ids").getD (.list [])) = some flow.allowedWorkflowIds := by
    rw [← hkvs]
    exact texts_map flow.allowedWorkflowIds
  have hconnector : text kvs "connector_id" = some flow.connectorId := by rw [← hkvs]; rfl
  have hendpoint : text kvs "endpoint" = some flow.endpoint := by rw [← hkvs]; rfl
  have hauthorization : text kvs "authorization_endpoint" = some flow.authorizationEndpoint := by rw [← hkvs]; rfl
  have htoken : text kvs "token_endpoint" = some flow.tokenEndpoint := by rw [← hkvs]; rfl
  have hrevocation : optionalText kvs "revocation_endpoint" = some flow.revocationEndpoint :=
    optionalText_optional (by rw [← hkvs]; rfl)
  have hclient : text kvs "client_id" = some flow.clientId := by rw [← hkvs]; rfl
  have hsecret : optionalText kvs "client_secret" = some flow.clientSecret := optionalText_optional (by rw [← hkvs]; rfl)
  have hmethod : text kvs "token_auth_method" = some flow.tokenAuthMethod.text := by rw [← hkvs]; rfl
  have hverifier : text kvs "code_verifier" = some flow.codeVerifier := by rw [← hkvs]; rfl
  have hscope : optionalText kvs "scope" = some flow.scope := optionalText_optional (by rw [← hkvs]; rfl)
  have hresource : optionalText kvs "resource" = some flow.resource := optionalText_optional (by rw [← hkvs]; rfl)
  have hissuer : text kvs "issuer" = some flow.issuer := by rw [← hkvs]; rfl
  have hbinding : text kvs "browser_binding_hash" = some flow.browserBindingHash := by rw [← hkvs]; rfl
  have hfields : (kvs.all fun kv => kv.1 ∈ ["identity", "connector_id", "endpoint", "authorization_endpoint",
      "token_endpoint", "revocation_endpoint", "client_id", "client_secret", "token_auth_method", "code_verifier", "scope",
      "resource", "allowed_workflow_ids", "issuer", "browser_binding_hash", "expires_at"]) = true := by
    rw [← hkvs]
    rfl
  simp only [flowFromValue, hidentity, hexpires, hworkflows, hconnector, hendpoint, hauthorization, htoken, hrevocation,
    hclient, hsecret, hmethod, hverifier, hscope, hresource, hissuer, hbinding, hfields, h.times, text_ofText,
    Option.bind_eq_bind, Option.bind_some, if_true]

/-- a document shows the flow that is sealed in it -/
theorem sealed_flow (h : Recovers P flow) (drawn hash : String) :
    (P.openText (P.sealText drawn (flowPayload P flow) (flowAssociatedData hash)) (flowAssociatedData hash)).bind
      (flowFromPayload P) = some flow := by
  rw [h.opens]
  unfold flowFromPayload
  rw [Option.bind_some, h.loads, Option.bind_some, flowFromValue_flowValue h]

theorem stateHash_ne {state : String} (h : stateHash P state = some hash) : hash ≠ "" := by
  rintro rfl
  unfold stateHash at h
  split_ifs at h
  have hhex := P.hexdigest state
  rw [Option.some.inj h] at hhex
  simp [isHash] at hhex

/-! ### In memory -/

section InMemory

variable {state browserBinding uid connectorId : String} {issuer : Option String}

theorem flowAt_erase (hash : String) (a : List (String × String)) :
    (FlowStore.memory ⟨Dict.erase m.flows hash, a⟩).flowAt P = Function.update ((FlowStore.memory m).flowAt P) hash none := by
  funext h
  change Dict.get? (Dict.erase m.flows hash) h = Function.update (Dict.get? m.flows) hash none h
  rw [Dict.get?_erase, Function.update_apply]
  by_cases hh : hash = h
  · rw [if_pos hh, if_pos hh.symm]
  · rw [if_neg hh, if_neg (Ne.symm hh)]

/-- what is left was there, and is not the one that is forgotten -/
theorem get?_forget {flows : List (String × OAuthFlow)} {previous : Option String} {h : String} {f : OAuthFlow}
    (hf : Dict.get? (Memory.forget flows previous) h = some f) :
    Dict.get? flows h = some f ∧ (h ≠ "" → previous ≠ some h) := by
  cases previous with
  | none => exact ⟨hf, fun _ => nofun⟩
  | some prev =>
    simp only [Memory.forget] at hf
    split_ifs at hf with hempty
    · exact ⟨hf, fun hne hprev => hne (by rw [← Option.some.inj hprev, hempty])⟩
    · rw [Dict.get?_erase] at hf
      split_ifs at hf with hh
      exact ⟨hf, fun _ hprev => hh (Option.some.inj hprev)⟩

theorem memory_put (hinv : Inv P now (.memory m)) (clock now' : ℤ) :
    Moved P ((FlowStore.memory m).flowAt P) (.put state flow) ((FlowStore.memory (m.put P clock state flow).2).flowAt P) ∧
      Inv P now' (.memory (m.put P clock state flow).2) := by
  unfold Memory.put
  cases hstate : stateHash P state with
  | none => exact ⟨.unchanged, hinv⟩
  | some hash =>
    simp only
    split_ifs with hbusy
    · exact ⟨.unchanged, hinv⟩
    · refine ⟨.put hstate ((Dict.get?_upsert _ hash hash _).trans (if_pos rfl)) ?_, ?_⟩
      · intro h hh
        simp only [FlowStore.flowAt, Dict.get?_upsert, if_neg (Ne.symm hh)]
        cases hkept : Dict.get? (Memory.forget m.flows (Dict.get? m.active (flowActiveKey P flow))) h with
        | none => exact .inr rfl
        | some f => exact .inl (get?_forget hkept).1.symm
      · intro h f hf
        simp only [Dict.get?_upsert] at hf ⊢
        by_cases hh : hash = h
        · rw [if_pos hh] at hf
          cases hf
          rw [if_pos rfl, hh]
          exact ⟨hh ▸ stateHash_ne hstate, rfl⟩
        · rw [if_neg hh] at hf
          obtain ⟨hold, hother⟩ := get?_forget hf
          obtain ⟨hne, hactive⟩ := hinv h f hold
          refine ⟨hne, ?_⟩
          rw [if_neg, hactive]
          intro hkey
          rw [← hkey] at hactive
          exact hother hne hactive

theorem memory_consume (hinv : Inv P now (.memory m)) (clock now' : ℤ) :
    Moved P ((FlowStore.memory m).flowAt P) (.consume state browserBinding issuer)
        ((FlowStore.memory (m.consume P clock state browserBinding issuer).2).flowAt P) ∧
      Inv P now' (.memory (m.consume P clock state browserBinding issuer).2) := by
  unfold Memory.consume
  split
  · rename_i hash bindingHash hstate hbinding
    cases hflow : Dict.get? m.flows hash with
    | none => exact ⟨.unchanged, hinv⟩
    | some flow =>
      have hleft : Moved P ((FlowStore.memory m).flowAt P) (.consume state browserBinding issuer)
            ((FlowStore.memory ⟨Dict.erase m.flows hash, Dict.erase m.active (flowActiveKey P flow)⟩).flowAt P) ∧
          Inv P now' (.memory ⟨Dict.erase m.flows hash, Dict.erase m.active (flowActiveKey P flow)⟩) := by
        refine ⟨by rw [flowAt_erase]; exact .taken hstate, ?_⟩
        intro h f hf
        simp only [Dict.get?_erase] at hf ⊢
        split_ifs at hf with hh
        obtain ⟨hne, hactive⟩ := hinv h f hf
        refine ⟨hne, ?_⟩
        rw [if_neg, hactive]
        intro hkey
        -- the reservation is the one of the flow that is taken
        have hmine := (hinv hash flow hflow).2
        rw [hkey, hactive] at hmine
        exact hh (Option.some.inj hmine).symm
      simp only
      split_ifs
      · exact ⟨.unchanged, hinv⟩
      · exact ⟨.unchanged, hinv⟩
      · exact hleft
      · exact hleft
  · exact ⟨.unchanged, hinv⟩

theorem memory_cancel (hinv : Inv P now (.memory m)) (now' : ℤ) :
    Moved P ((FlowStore.memory m).flowAt P) (.cancel uid connectorId)
        ((FlowStore.memory (m.cancel P uid connectorId).2).flowAt P) ∧
      Inv P now' (.memory (m.cancel P uid connectorId).2) := by
  unfold Memory.cancel
  cases hactive : Dict.get? m.active (flowActiveKeyFor P uid connectorId) with
  | none =>
    simp only [hactive]
    exact ⟨.unchanged, hinv⟩
  | some hash =>
    simp only [hactive]
    split_ifs with hother
    · refine ⟨.unchanged, ?_⟩
      intro h f hf
      obtain ⟨hne, hreserved⟩ := hinv h f hf
      refine ⟨hne, ?_⟩
      simp only [Dict.get?_upsert, Dict.get?_erase]
      split_ifs with hkey
      · rw [← hkey, hactive] at hreserved
        exact hreserved
      · exact hreserved
    · refine ⟨?_, ?_⟩
      · rw [flowAt_erase]
        refine .cancelled fun flow hflow => ?_
        simp only [FlowStore.flowAt] at hflow
        rw [hflow] at hother
        simpa using hother
      · intro h f hf
        simp only [Dict.get?_erase] at hf ⊢
        split_ifs at hf with hh
        obtain ⟨hne, hreserved⟩ := hinv h f hf
        refine ⟨hne, ?_⟩
        rw [if_neg, hreserved]
        intro hkey
        rw [← hkey, hactive] at hreserved
        exact hh (Option.some.inj hreserved)

end InMemory

/-! ### In Firestore -/

section InFirestore

variable {state browserBinding uid connectorId : String} {issuer : Option String}

/-- a transaction leaves the store or comes to its end -/
theorem transact_state {α : Type} (c : Commit) (s : Firestore) (x : Except String (α × Firestore)) :
    (Firestore.transact c s x).2 = s ∨ ∃ a, x = .ok (a, (Firestore.transact c s x).2) := by
  cases c with
  | done =>
    cases x with
    | ok r => exact .inr ⟨r.1, rfl⟩
    | error e => exact .inl rfl
  | raised applied =>
    cases x with
    | ok r =>
      cases applied with
      | true => exact .inr ⟨r.1, rfl⟩
      | false => exact .inl rfl
    | error e => exact .inl rfl

theorem transact_ok {α : Type} {c : Commit} {s : Firestore} {x : Except String (α × Firestore)} {a : α}
    (h : (Firestore.transact c s x).1 = .ok a) : x = .ok (a, (Firestore.transact c s x).2) := by
  cases c with
  | done =>
    cases x with
    | ok r => cases h; rfl
    | error e => cases h
  | raised applied => cases x <;> cases h

theorem inv_later {s : FlowStore} {now' : ℤ} (h : Inv P now s) (hnow : now ≤ now') : Inv P now' s := by
  cases s with
  | memory m => exact h
  | firestore f =>
    intro hash d hd
    obtain ⟨hshows, hopen⟩ := h hash d hd
    exact ⟨hshows, hopen.imp (fun hle => hle.trans hnow) id⟩

theorem documents_erase (hash : String) (a : List (String × Active)) :
    (FlowStore.firestore ⟨Dict.erase f.documents hash, a⟩).flowAt P =
      Function.update ((FlowStore.firestore f).flowAt P) hash none := by
  funext h
  simp only [FlowStore.flowAt, Dict.get?_erase, Function.update_apply]
  by_cases hh : hash = h
  · rw [if_pos hh, if_pos hh.symm]
    rfl
  · rw [if_neg hh, if_neg (Ne.symm hh)]

theorem firestore_reserve {clock now' : ℤ} {drawn : String} {g : Firestore} (hinv : Inv P now (.firestore f))
    (hclock : clock ≤ now') (hnow : now ≤ now') (hflow : Recovers P flow) (hstate : stateHash P state = some hash)
    (h : Firestore.reserve P clock hash (P.sealText drawn (flowPayload P flow) (flowAssociatedData hash)) flow f =
      .ok ((), g)) :
    Moved P ((FlowStore.firestore f).flowAt P) (.put state flow) ((FlowStore.firestore g).flowAt P) ∧
      Inv P now' (.firestore g) := by
  unfold Firestore.reserve at h
  simp only at h
  split_ifs at h with hbusy
  split at h
  · cases h
  · rename_i hnew
    cases h
    refine ⟨.put hstate ?_ ?_, ?_⟩
    · simp only [FlowStore.flowAt, Dict.get?_upsert, if_true, Option.bind_some, Document.flow]
      exact sealed_flow hflow drawn hash
    · intro h hh
      simp only [FlowStore.flowAt, Dict.get?_upsert, if_neg (Ne.symm hh)]
      exact .inl trivial
    · intro h d hd
      simp only [Dict.get?_upsert] at hd ⊢
      by_cases hh : hash = h
      · rw [if_pos hh] at hd
        cases hd
        refine ⟨⟨flow, ?_, rfl, rfl, rfl, rfl⟩, .inr ?_⟩
        · rw [← hh]
          exact sealed_flow hflow drawn hash
        · rw [if_pos rfl, hh]
      · rw [if_neg hh] at hd
        obtain ⟨hshows, hopen⟩ := hinv h d hd
        refine ⟨hshows, ?_⟩
        rcases hopen with hexpired | hreserved
        · exact .inl (hexpired.trans hnow)
        · by_cases hkey : flowActiveKey P flow = d.activeKey
          · -- its reservation gave way, so it has expired
            rw [hkey, hreserved] at hbusy
            simp only [Option.map_some, Option.some.injEq, decide_eq_true_eq, not_lt] at hbusy
            exact .inl (hbusy.trans hclock)
          · rw [if_neg hkey]
            exact .inr hreserved

theorem firestore_put {clock now' : ℤ} {c : Commit} {sealing : Option String} (hinv : Inv P now (.firestore f))
    (hclock : clock ≤ now') (hnow : now ≤ now') (hflow : Recovers P flow) :
    Moved P ((FlowStore.firestore f).flowAt P) (.put state flow)
        ((FlowStore.firestore (f.put P c sealing clock state flow).2).flowAt P) ∧
      Inv P now' (.firestore (f.put P c sealing clock state flow).2) := by
  unfold Firestore.put
  cases hstate : stateHash P state with
  | none => exact ⟨.unchanged, inv_later hinv hnow⟩
  | some hash =>
    cases sealing with
    | none => exact ⟨.unchanged, inv_later hinv hnow⟩
    | some drawn =>
      simp only
      have hend := transact_state c f (Firestore.reserve P clock hash
        (P.sealText drawn (flowPayload P flow) (flowAssociatedData hash)) flow f)
      have hall : ∀ g, (g = f ∨ ∃ a, Firestore.reserve P clock hash
          (P.sealText drawn (flowPayload P flow) (flowAssociatedData hash)) flow f = .ok (a, g)) →
          Moved P ((FlowStore.firestore f).flowAt P) (.put state flow) ((FlowStore.firestore g).flowAt P) ∧
            Inv P now' (.firestore g) := by
        rintro g (rfl | ⟨⟨⟩, ha⟩)
        · exact ⟨.unchanged, inv_later hinv hnow⟩
        · exact firestore_reserve hinv hclock hnow hflow hstate ha
      split
      · rename_i g hg
        rw [hg] at hend
        exact hall g hend
      · rename_i g hg
        rw [hg] at hend
        exact hall g hend

theorem firestore_take {bindingHash : String} {now' : ℤ} (hinv : Inv P now (.firestore f)) (hnow : now ≤ now')
    (hstate : stateHash P state = some hash) :
    Moved P ((FlowStore.firestore f).flowAt P) (.consume state browserBinding issuer)
        ((FlowStore.firestore (f.take P hash bindingHash issuer).2).flowAt P) ∧
      Inv P now' (.firestore (f.take P hash bindingHash issuer).2) := by
  unfold Firestore.take
  cases hrecord : Dict.get? f.documents hash with
  | none => exact ⟨.unchanged, inv_later hinv hnow⟩
  | some record =>
    simp only
    generalize hmatching : (if startsWith record.activeKey "active-" = true then _ else none : Option Bool) = matching
    -- only the reservation of the flow that is taken goes
    have hkeep : ∀ key r, Dict.get? f.active key = some r → r.stateHash ≠ hash →
        Dict.get? (if matching = some true then Dict.erase f.active record.activeKey else f.active) key = some r := by
      intro key r hr hne
      split_ifs with htrue
      · rw [Dict.get?_erase, if_neg, hr]
        rintro rfl
        rw [htrue, hr] at hmatching
        split_ifs at hmatching
        exact hne (by simpa using hmatching)
      · exact hr
    by_cases hbinding : record.browserBindingHash ≠ bindingHash
    · rw [if_pos hbinding]
      exact ⟨.unchanged, inv_later hinv hnow⟩
    · rw [if_neg hbinding]
      by_cases hissuer : (issuer.map fun x => decide (record.issuerHash = P.sha256 x)) = some false
      · rw [if_pos hissuer]
        exact ⟨.unchanged, inv_later hinv hnow⟩
      · rw [if_neg hissuer]
        refine ⟨by rw [documents_erase]; exact .taken hstate, ?_⟩
        intro h d hd
        simp only [Dict.get?_erase] at hd
        split_ifs at hd with hh
        obtain ⟨hshows, hopen⟩ := hinv h d hd
        exact ⟨hshows, hopen.imp (fun hle => hle.trans hnow) fun hreserved => hkeep d.activeKey _ hreserved (Ne.symm hh)⟩

/-- a record that is taken -/
theorem take_some {bindingHash : String} {record : Document} {g : Firestore}
    (h : Firestore.take P hash bindingHash issuer f = (some record, g)) :
    Dict.get? f.documents hash = some record ∧ record.browserBindingHash = bindingHash ∧
      (∀ x, issuer = some x → record.issuerHash = P.sha256 x) ∧ g.documents = Dict.erase f.documents hash := by
  unfold Firestore.take at h
  cases hrecord : Dict.get? f.documents hash with
  | none => rw [hrecord] at h; cases h
  | some found =>
    rw [hrecord] at h
    simp only at h
    by_cases hbinding : found.browserBindingHash = bindingHash
    · by_cases hissuer : (issuer.map fun x => decide (found.issuerHash = P.sha256 x)) = some false
      · rw [if_neg (not_not.2 hbinding), if_pos hissuer] at h
        cases h
      · rw [if_neg (not_not.2 hbinding), if_neg hissuer] at h
        obtain ⟨hfound, hleft⟩ := Prod.mk.inj h
        cases hfound
        refine ⟨rfl, hbinding, ?_, by rw [← hleft]⟩
        rintro x rfl
        simpa using hissuer
    · rw [if_pos hbinding] at h
      cases h

theorem firestore_consume {c : Commit} {opening : Bool} {clock now' : ℤ} (hinv : Inv P now (.firestore f))
    (hnow : now ≤ now') :
    Moved P ((FlowStore.firestore f).flowAt P) (.consume state browserBinding issuer)
        ((FlowStore.firestore (f.consume P c opening clock state browserBinding issuer).2).flowAt P) ∧
      Inv P now' (.firestore (f.consume P c opening clock state browserBinding issuer).2) := by
  unfold Firestore.consume
  split
  · rename_i hash bindingHash hstate hbinding
    have hend := transact_state c f (.ok (Firestore.take P hash bindingHash issuer f))
    have hall : ∀ g, (g = f ∨ ∃ a, (.ok (Firestore.take P hash bindingHash issuer f) : Except String _) = .ok (a, g)) →
        Moved P ((FlowStore.firestore f).flowAt P) (.consume state browserBinding issuer)
            ((FlowStore.firestore g).flowAt P) ∧ Inv P now' (.firestore g) := by
      rintro g (rfl | ⟨a, ha⟩)
      · exact ⟨.unchanged, inv_later hinv hnow⟩
      · have htake := @firestore_take P now f hash state browserBinding issuer bindingHash now' hinv hnow hstate
        rw [show g = (Firestore.take P hash bindingHash issuer f).2 from by rw [Except.ok.inj ha]]
        exact htake
    split
    · rename_i e g hg
      rw [hg] at hend
      exact hall g hend
    · rename_i g hg
      rw [hg] at hend
      exact hall g hend
    · rename_i record g hg
      rw [hg] at hend
      split_ifs
      · exact hall g hend
      all_goals
        split <;> exact hall g hend
  · exact ⟨.unchanged, inv_later hinv hnow⟩

theorem firestore_cancel {c : Commit} {now' : ℤ} (hinv : Inv P now (.firestore f)) (hnow : now ≤ now') :
    Moved P ((FlowStore.firestore f).flowAt P) (.cancel uid connectorId)
        ((FlowStore.firestore (f.cancel P c uid connectorId).2).flowAt P) ∧
      Inv P now' (.firestore (f.cancel P c uid connectorId).2) := by
  have hremove : ∀ a g, Firestore.remove (flowActiveKeyFor P uid connectorId) f = .ok (a, g) →
      Moved P ((FlowStore.firestore f).flowAt P) (.cancel uid connectorId) ((FlowStore.firestore g).flowAt P) ∧
        Inv P now' (.firestore g) := by
    intro a g h
    unfold Firestore.remove at h
    split at h
    · cases h
      exact ⟨.unchanged, inv_later hinv hnow⟩
    · rename_i reserved hactive
      split_ifs at h with hhash
      have hinv' : ∀ docs, (∀ h d, Dict.get? docs h = some d → h ≠ reserved.stateHash ∧ Dict.get? f.documents h = some d) →
          Inv P now' (.firestore ⟨docs, Dict.erase f.active (flowActiveKeyFor P uid connectorId)⟩) := by
        intro docs hdocs h d hd
        obtain ⟨hh, hold⟩ := hdocs h d hd
        obtain ⟨hshows, hopen⟩ := hinv h d hold
        refine ⟨hshows, hopen.imp (fun hle => hle.trans hnow) fun hreserved => ?_⟩
        simp only [Dict.get?_erase]
        rw [if_neg, hreserved]
        intro hkey
        rw [← hkey, hactive] at hreserved
        exact hh (by rw [Option.some.inj hreserved])
      split at h
      · rename_i hnone
        cases h
        refine ⟨.unchanged, hinv' f.documents fun h d hd => ⟨?_, hd⟩⟩
        rintro rfl
        rw [hnone] at hd
        cases hd
      · rename_i record hrecord
        split_ifs at h with hkey
        cases h
        refine ⟨?_, hinv' _ fun h d hd => ?_⟩
        · rw [documents_erase]
          refine .cancelled fun flow hflow => ?_
          simp only [FlowStore.flowAt, hrecord, Option.bind_some] at hflow
          obtain ⟨shown, hshown, hshows⟩ := (hinv _ _ hrecord).1
          rw [hshown] at hflow
          rw [← Option.some.inj hflow, ← hshows.key]
          exact not_not.1 hkey
        · rw [Dict.get?_erase] at hd
          split_ifs at hd with hh
          exact ⟨Ne.symm hh, hd⟩
  unfold Firestore.cancel
  have hend := transact_state c f (Firestore.remove (flowActiveKeyFor P uid connectorId) f)
  have hall : ∀ g, (g = f ∨ ∃ a, Firestore.remove (flowActiveKeyFor P uid connectorId) f = .ok (a, g)) →
      Moved P ((FlowStore.firestore f).flowAt P) (.cancel uid connectorId) ((FlowStore.firestore g).flowAt P) ∧
        Inv P now' (.firestore g) := by
    rintro g (rfl | ⟨a, ha⟩)
    · exact ⟨.unchanged, inv_later hinv hnow⟩
    · exact hremove a g ha
  split
  · rename_i b g hg
    rw [hg] at hend
    exact hall g hend
  · rename_i e g hg
    rw [hg] at hend
    exact hall g hend

end InFirestore

/-! ### In either -/

section InEither

variable {s : FlowStore} {q : Call} {state browserBinding : String} {issuer : Option String}

/-- one call of either store -/
theorem call_moved (hinv : Inv P now s) (hnow : now ≤ i.moment)
    (hput : ∀ state flow, q = .put state flow → i.clock ≤ i.moment ∧ Recovers P flow) :
    Moved P (s.flowAt P) q ((s.call P i q).2.flowAt P) ∧ Inv P i.moment (s.call P i q).2 := by
  cases s with
  | memory m =>
    cases q with
    | put state flow => exact memory_put hinv i.clock i.moment
    | consume state browserBinding issuer => exact memory_consume hinv i.clock i.moment
    | cancel uid connectorId => exact memory_cancel hinv i.moment
  | firestore f =>
    cases q with
    | put state flow =>
      obtain ⟨hclock, hflow⟩ := hput state flow rfl
      exact firestore_put hinv hclock hnow hflow
    | consume state browserBinding issuer => exact firestore_consume hinv hnow
    | cancel uid connectorId => exact firestore_cancel hinv hnow

/-- a flow that is handed out -/
structure HandsOut (P : Platform) (i : Draws) (l l' : String → Option OAuthFlow) (hash browserBinding : String)
    (issuer : Option String) (flow : OAuthFlow) : Prop where
  found : l hash = some flow
  bound : stateHash P browserBinding = some flow.browserBindingHash
  issued : ∀ x, issuer = some x → P.sha256 x = P.sha256 flow.issuer
  before : i.clock < flow.expiresAt
  gone : l' hash = none

theorem call_handsOut (hinv : Inv P now s)
    (h : (s.call P i (.consume state browserBinding issuer)).1 = .flow (some flow)) :
    ∃ hash, stateHash P state = some hash ∧ HandsOut P i (s.flowAt P)
      ((s.call P i (.consume state browserBinding issuer)).2.flowAt P) hash browserBinding issuer flow := by
  cases s with
  | memory m =>
    simp only [FlowStore.call, Memory.consume] at h ⊢
    split at h
    · rename_i hash bindingHash hstate hbinding
      simp only [hstate]
      cases hflow : Dict.get? m.flows hash with
      | none => rw [hflow] at h; cases h
      | some found =>
        rw [hflow] at h
        simp only at h ⊢
        split_ifs at h ⊢ with hbound hissued hexpired
        · cases h
        · cases h
        · cases h
        · obtain rfl : found = flow := by simpa using h
          refine ⟨hash, rfl, hflow, by rw [hbinding, not_not.1 hbound], ?_, not_le.1 hexpired, ?_⟩
          · rintro x rfl
            have hx : found.issuer = x := by simpa using hissued
            rw [hx]
          · exact (Dict.get?_erase _ _ _).trans (if_pos rfl)
    · cases h
  | firestore f =>
    simp only [FlowStore.call, Firestore.consume] at h ⊢
    split at h
    · rename_i hash bindingHash hstate hbinding
      simp only [hstate]
      refine ⟨hash, rfl, ?_⟩
      generalize hend : Firestore.transact i.commit f (.ok (Firestore.take P hash bindingHash issuer f)) = r at h ⊢
      obtain ⟨answer, g⟩ := r
      cases answer with
      | error e => cases h
      | ok taken =>
        cases taken with
        | none => cases h
        | some record =>
          simp only at h ⊢
          by_cases hexpired : record.expiresAt ≤ i.clock
          · rw [if_pos hexpired] at h
            cases h
          · rw [if_neg hexpired] at h ⊢
            have htake : Firestore.take P hash bindingHash issuer f = (some record, g) := by
              have hok := transact_ok (congrArg Prod.fst hend)
              rw [hend] at hok
              exact Except.ok.inj hok
            obtain ⟨hrecord, hbound, hissued, hleft⟩ := take_some htake
            obtain ⟨⟨shown, hshown, hshows⟩, -⟩ := hinv hash record hrecord
            generalize hopened : (if i.opening = true then P.openText record.envelope (flowAssociatedData hash) else none) =
              opened at h ⊢
            cases opened with
            | none => cases h
            | some payload =>
              -- what is opened is the flow of the record
              obtain rfl : shown = flow := by
                split_ifs at hopened
                unfold Document.flow at hshown
                rw [hopened, Option.bind_some, Reply.flow.inj h] at hshown
                exact (Option.some.inj hshown).symm
              refine ⟨?_, by rw [hbinding, ← hbound, hshows.binding], ?_, ?_, ?_⟩
              · simp only [FlowStore.flowAt, hrecord, Option.bind_some, hshown]
              · intro x hx
                rw [← hissued x hx, hshows.issuer]
              · rw [← hshows.expiry]
                exact not_le.1 hexpired
              · have hgone : Dict.get? g.documents hash = none := by
                  rw [hleft, Dict.get?_erase, if_pos rfl]
                simp [FlowStore.flowAt, hgone]
    · cases h

/-- a browser or an issuer that is not the flow's own changes nothing -/
theorem call_strange {hash : String} (hinv : Inv P now s) (hstate : stateHash P state = some hash)
    (hfound : s.flowAt P hash = some flow)
    (hstrange : stateHash P browserBinding ≠ some flow.browserBindingHash ∨
      ∃ x, issuer = some x ∧ P.sha256 x ≠ P.sha256 flow.issuer) :
    (s.call P i (.consume state browserBinding issuer)).2 = s ∧
      ∀ f, (s.call P i (.consume state browserBinding issuer)).1 ≠ .flow (some f) := by
  cases s with
  | memory m =>
    simp only [FlowStore.call, Memory.consume, hstate]
    cases hbinding : stateHash P browserBinding with
    | none => exact ⟨rfl, fun f hf => by cases hf⟩
    | some bindingHash =>
      have hget : Dict.get? m.flows hash = some flow := hfound
      simp only [hget]
      by_cases hbound : flow.browserBindingHash = bindingHash
      · rcases hstrange with hother | ⟨x, rfl, hx⟩
        · exact absurd (by rw [hbinding, hbound]) hother
        · have hissuer : flow.issuer ≠ x := fun h => hx (by rw [h])
          simp [hbound, hissuer]
      · simp [hbound]
  | firestore f =>
    simp only [FlowStore.call, Firestore.consume, hstate]
    cases hbinding : stateHash P browserBinding with
    | none => exact ⟨rfl, fun f hf => by cases hf⟩
    | some bindingHash =>
      -- nothing is taken, so the transaction writes nothing
      have htake : Firestore.take P hash bindingHash issuer f = (none, f) := by
        unfold Firestore.take
        simp only [FlowStore.flowAt] at hfound
        obtain ⟨record, hrecord, hflow⟩ := Option.bind_eq_some_iff.1 hfound
        obtain ⟨⟨shown, hshown, hshows⟩, -⟩ := hinv hash record hrecord
        obtain rfl : shown = flow := by rw [hflow] at hshown; exact (Option.some.inj hshown).symm
        simp only [hrecord]
        by_cases hbound : record.browserBindingHash = bindingHash
        · rcases hstrange with hother | ⟨x, rfl, hx⟩
          · exact absurd (by rw [hbinding, ← hbound, hshows.binding]) hother
          · have hissuer : record.issuerHash ≠ P.sha256 x := fun h => hx (by rw [← h, hshows.issuer])
            simp [hbound, hissuer]
        · simp [hbound]
      simp only [htake]
      cases i.commit with
      | done => exact ⟨rfl, fun f hf => by cases hf⟩
      | raised applied => cases applied <;> exact ⟨rfl, fun f hf => by cases hf⟩

end InEither

end Calls

/-! ## Runs -/

structure Sys where
  store : FlowStore
  now : ℤ

/-- a store without flows -/
def FlowStore.Empty : FlowStore → Prop
  | .memory m => m = ⟨[], []⟩
  | .firestore f => f = ⟨[], []⟩

structure Act where
  draws : Draws
  call : Call

/-- a call takes effect; time does not go back, a flow is put after its clock is read and taken before -/
structure Steps (P : Platform) (s : Sys) (a : Act) (t : Sys) : Prop where
  later : s.now ≤ a.draws.moment
  putting : ∀ state flow, a.call = .put state flow → a.draws.clock ≤ a.draws.moment
  taking : ∀ state binding issuer, a.call = .consume state binding issuer → a.draws.moment ≤ a.draws.clock
  next : t = ⟨(s.store.call P a.draws a.call).2, a.draws.moment⟩

abbrev Moment := Entry Sys Act

section Observed

variable (P : Platform)

def replyOf (e : Moment) : Reply := (e.before.store.call P e.act.draws e.act.call).1

/-- a call that puts a flow under this state, refused or not -/
def puts (state : String) (e : Moment) : Bool :=
  match e.act.call with
  | .put u _ => u = state
  | _ => false

/-- this state yields a flow -/
def yields (state : String) (e : Moment) : Bool :=
  match e.act.call, replyOf P e with
  | .consume u _ _, .flow (some _) => u = state
  | _, _ => false

def putsAt (hash : String) (e : Moment) : Bool :=
  match e.act.call with
  | .put u _ => stateHash P u = some hash
  | _ => false

def yieldsAt (hash : String) (e : Moment) : Bool :=
  match e.act.call, replyOf P e with
  | .consume u _ _, .flow (some _) => stateHash P u = some hash
  | _, _ => false

def stateOf (e : Moment) : Option String :=
  match e.act.call with
  | .put u _ => some u
  | .consume u _ _ => some u
  | .cancel _ _ => none

/-- the user and the connector of a step -/
def tenantOf (e : Moment) : Option (String × String) :=
  match e.act.call with
  | .put _ flow => some (flow.identity.uid, flow.connectorId)
  | .consume _ _ _ => none
  | .cancel uid connectorId => some (uid, connectorId)

def issuerOf (e : Moment) : Option String :=
  match e.act.call with
  | .put _ flow => some flow.issuer
  | .consume _ _ issuer => issuer
  | .cancel _ _ => none

/-- in this run no two states, no two issuers and no two pairs of a user and a connector have the same hash -/
structure NoCollision (tr : List Moment) : Prop where
  states : ∀ t ∈ tr.filterMap stateOf, ∀ u ∈ tr.filterMap stateOf, P.sha256 t = P.sha256 u → t = u
  tenants : ∀ p ∈ tr.filterMap tenantOf, ∀ q ∈ tr.filterMap tenantOf,
    flowActiveKeyFor P p.1 p.2 = flowActiveKeyFor P q.1 q.2 → p = q
  issuers : ∀ x ∈ tr.filterMap issuerOf, ∀ y ∈ tr.filterMap issuerOf, P.sha256 x = P.sha256 y → x = y

/-- KMS and JSON give back the flows that are put in this run -/
def Works (tr : List Moment) : Prop := ∀ e ∈ tr, ∀ state flow, e.act.call = .put state flow → Recovers P flow

end Observed

section Runs

variable {P : Platform} {s₀ s t : Sys} {a : Act} {tr : List Moment} {e : Moment} {hash : String} {flow : OAuthFlow}

theorem empty_inv {store : FlowStore} (h : store.Empty) (now : ℤ) : Inv P now store := by
  cases store with
  | memory m => rw [show m = ⟨[], []⟩ from h]; exact fun _ _ h => nomatch h
  | firestore f => rw [show f = ⟨[], []⟩ from h]; exact fun _ _ h => nomatch h

theorem empty_flowAt {store : FlowStore} (h : store.Empty) : store.flowAt P hash = none := by
  cases store with
  | memory m => rw [show m = ⟨[], []⟩ from h]; rfl
  | firestore f => rw [show f = ⟨[], []⟩ from h]; rfl

/-- one step of a run -/
theorem step_moved (hinv : Inv P s.now s.store) (hstep : Steps P s a t)
    (hworks : ∀ state flow, a.call = .put state flow → Recovers P flow) :
    Moved P (s.store.flowAt P) a.call (t.store.flowAt P) ∧ Inv P t.now t.store := by
  rw [hstep.next]
  exact call_moved hinv hstep.later fun state flow hput => ⟨hstep.putting state flow hput, hworks state flow hput⟩

theorem Works.front {tr' : List Moment} (h : Works P (tr ++ tr')) : Works P tr :=
  fun e he => h e (List.mem_append_left _ he)

/-- the invariant holds at the end of a run -/
theorem run_inv (hempty : s₀.store.Empty) (run : Trace (Steps P) s₀ tr s) (hworks : Works P tr) : Inv P s.now s.store := by
  induction run with
  | nil => exact empty_inv hempty _
  | @snoc tr s t a _ hnext ih =>
    exact (step_moved (ih hworks.front) hnext (hworks ⟨s, a, t⟩ (by simp))).2

/-- the part of a run before one of its steps -/
theorem run_before {pre post : List Moment} (hempty : s₀.store.Empty) (run : Trace (Steps P) s₀ (pre ++ e :: post) s)
    (hworks : Works P (pre ++ e :: post)) : Trace (Steps P) s₀ pre e.before ∧ Inv P e.before.now e.before.store :=
  ⟨run.before, run_inv hempty run.before hworks.front⟩

/-- a flow that is kept was put under its state -/
theorem flow_put (hempty : s₀.store.Empty) (run : Trace (Steps P) s₀ tr s) (hworks : Works P tr)
    (h : s.store.flowAt P hash = some flow) :
    ∃ e ∈ tr, ∃ state, e.act.call = .put state flow ∧ stateHash P state = some hash := by
  induction run with
  | nil => rw [empty_flowAt hempty] at h; cases h
  | @snoc tr s t a hrun hnext ih =>
    have hlater : s.store.flowAt P hash = some flow →
        ∃ e ∈ tr ++ [⟨s, a, t⟩], ∃ state, e.act.call = .put state flow ∧ stateHash P state = some hash := by
      intro hbefore
      obtain ⟨e, he, state, hput, hstate⟩ := ih hworks.front hbefore
      exact ⟨e, List.mem_append_left _ he, state, hput, hstate⟩
    have hmoved := (step_moved (run_inv hempty hrun hworks.front) hnext (hworks ⟨s, a, t⟩ (by simp))).1
    generalize hcall : a.call = q at hmoved
    generalize t.store.flowAt P = l at hmoved h
    cases hmoved with
    | unchanged => exact hlater h
    | @put state named f l hnamed hstored hothers =>
      by_cases hh : hash = named
      · rw [hh, hstored] at h
        cases h
        exact ⟨⟨s, a, t⟩, by simp, state, hcall, hh ▸ hnamed⟩
      · rcases hothers hash hh with hsame | hnone
        · exact hlater (hsame ▸ h)
        · rw [hnone] at h
          cases h
    | taken _ | cancelled _ =>
      rw [Function.update_apply] at h
      split_ifs at h
      exact hlater h

/-- a flow starts to be kept as it is put, and ends as its state yields it -/
theorem kept_step (hinv : Inv P e.before.now e.before.store) (hstep : Steps P e.before e.act e.after)
    (hworks : ∀ state flow, e.act.call = .put state flow → Recovers P flow) :
    (if (e.after.store.flowAt P hash).isSome then 1 else 0) + (if yieldsAt P hash e then 1 else 0) ≤
      (if (e.before.store.flowAt P hash).isSome then 1 else 0) + if putsAt P hash e then 1 else 0 := by
  obtain ⟨hmoved, -⟩ := step_moved hinv hstep hworks
  cases hyields : yieldsAt P hash e with
  | true =>
    unfold yieldsAt replyOf at hyields
    split at hyields
    · rename_i u binding issuer f hcall hreply
      rw [hcall] at hreply
      obtain ⟨hash', hstate, hout⟩ := call_handsOut hinv hreply
      obtain rfl : hash' = hash := by
        rw [hstate] at hyields
        simpa using hyields
      have hgone : e.after.store.flowAt P hash' = none := by
        rw [hstep.next, hcall]
        exact hout.gone
      simp [hgone, hout.found]
    · cases hyields
  | false =>
    simp only [Bool.false_eq_true, if_false, add_zero]
    generalize hcall : e.act.call = q at hmoved
    generalize e.after.store.flowAt P = l at hmoved
    cases hmoved with
    | unchanged => exact Nat.le_add_right _ _
    | @put state named flow l hnamed hstored hothers =>
      by_cases hh : hash = named
      · have hput : putsAt P hash e = true := by
          unfold putsAt
          rw [hcall]
          simpa [hh] using hnamed
        rw [hput, if_pos rfl]
        split_ifs <;> simp
      · rcases hothers hash hh with hsame | hnone
        · rw [hsame]
          exact Nat.le_add_right _ _
        · simp [hnone]
    | taken _ | cancelled _ =>
      rw [Function.update_apply]
      split_ifs <;> simp_all

/-- a state yields a flow no more often than one is put under it -/
theorem yields_le (hempty : s₀.store.Empty) (run : Trace (Steps P) s₀ tr s) (hworks : Works P tr) :
    tr.countP (yieldsAt P hash) + (if (s.store.flowAt P hash).isSome then 1 else 0) ≤ tr.countP (putsAt P hash) := by
  induction run with
  | nil => simp [empty_flowAt hempty]
  | @snoc tr s t a hrun hnext ih =>
    have hstep := @kept_step _ ⟨s, a, t⟩ hash (run_inv hempty hrun hworks.front) hnext
      (hworks ⟨s, a, t⟩ (by simp))
    have hbefore := ih hworks.front
    simp only at hstep
    rw [List.countP_append, List.countP_append, List.countP_singleton, List.countP_singleton]
    omega

/-- **One-use flows.** In every run of either store, with the calls in any order and time not going back:
a state yields flows no more often than it is asked to put one there; what it yields was put under it, and goes to the browser and
the issuer of that flow, before its expiry; another browser or issuer changes nothing; a user has at most one open flow for
a connector; and cancelling leaves every flow of another user or connector. -/
theorem flows_one_use (hempty : s₀.store.Empty) (run : Trace (Steps P) s₀ tr s) (hworks : Works P tr)
    (hdistinct : NoCollision P tr) :
    (∀ state, tr.countP (yields P state) ≤ tr.countP (puts state)) ∧
    (∀ pre e post state binding issuer flow, tr = pre ++ e :: post → e.act.call = .consume state binding issuer →
      replyOf P e = .flow (some flow) →
        (∃ e' ∈ pre, e'.act.call = .put state flow) ∧ stateHash P binding = some flow.browserBindingHash ∧
          (∀ x, issuer = some x → x = flow.issuer) ∧ e.act.draws.clock < flow.expiresAt) ∧
    (∀ pre e post state binding issuer flow hash, tr = pre ++ e :: post → e.act.call = .consume state binding issuer →
      stateHash P state = some hash → e.before.store.flowAt P hash = some flow →
        (stateHash P binding ≠ some flow.browserBindingHash ∨ ∃ x, issuer = some x ∧ x ≠ flow.issuer) →
          e.after.store = e.before.store ∧ ∀ f, replyOf P e ≠ .flow (some f)) ∧
    (∀ hash hash' flow flow', s.store.flowAt P hash = some flow → s.store.flowAt P hash' = some flow' →
      flow.identity.uid = flow'.identity.uid → flow.connectorId = flow'.connectorId → s.now < flow.expiresAt →
        s.now < flow'.expiresAt → hash = hash') ∧
    ∀ pre e post uid connectorId flow hash, tr = pre ++ e :: post → e.act.call = .cancel uid connectorId →
      e.before.store.flowAt P hash = some flow → (flow.identity.uid, flow.connectorId) ≠ (uid, connectorId) →
        e.after.store.flowAt P hash = some flow := by
  have hput : ∀ {pre : List Moment} {e post} {hash flow}, tr = pre ++ e :: post →
      e.before.store.flowAt P hash = some flow → ∃ e' ∈ pre, ∃ state, e'.act.call = .put state flow ∧
        stateHash P state = some hash := by
    rintro pre e post hash flow rfl hflow
    obtain ⟨hbefore, -⟩ := run_before hempty run hworks
    exact flow_put hempty hbefore hworks.front hflow
  have hstate : ∀ {state hash}, stateHash P state = some hash → P.sha256 state = hash := by
    intro state hash h
    unfold stateHash at h
    split_ifs at h
    exact Option.some.inj h
  have hsame : ∀ {e e' : Moment} {t u hash}, e ∈ tr → e' ∈ tr → stateOf e = some t → stateOf e' = some u →
      stateHash P t = some hash → stateHash P u = some hash → t = u := by
    intro e e' t u hash he he' ht hu htn hun
    exact hdistinct.states t (List.mem_filterMap.2 ⟨e, he, ht⟩) u (List.mem_filterMap.2 ⟨e', he', hu⟩)
      (by rw [hstate htn, hstate hun])
  refine ⟨?_, ?_, ?_, ?_, ?_⟩
  · intro state
    by_cases hany : ∃ e ∈ tr, yields P state e = true
    · obtain ⟨e, he, hyields⟩ := hany
      unfold yields at hyields
      split at hyields
      · rename_i u binding issuer f hcall hreply
        obtain rfl : u = state := by simpa using hyields
        obtain ⟨pre, post, rfl⟩ := List.append_of_mem he
        obtain ⟨-, hinv⟩ := run_before hempty run hworks
        unfold replyOf at hreply
        rw [hcall] at hreply
        obtain ⟨hash, hnamed, -⟩ := call_handsOut hinv hreply
        have hyieldsAt : (pre ++ e :: post).countP (yields P u) ≤ (pre ++ e :: post).countP (yieldsAt P hash) := by
          refine List.countP_mono_left fun m _ hm => ?_
          unfold yields at hm
          unfold yieldsAt
          split at hm
          · rename_i v _ _ _ hcall' hreply'
            obtain rfl : v = u := by simpa using hm
            simpa [hcall', hreply'] using hnamed
          · cases hm
        have hputs : (pre ++ e :: post).countP (putsAt P hash) ≤ (pre ++ e :: post).countP (puts u) := by
          refine List.countP_mono_left fun m hm hputsAt => ?_
          unfold putsAt at hputsAt
          unfold puts
          split at hputsAt
          · rename_i v flow hcall'
            simp only [decide_eq_true_eq] at hputsAt ⊢
            exact hsame hm he (by simp [stateOf, hcall']) (by simp [stateOf, hcall]) hputsAt hnamed
          · cases hputsAt
        have hle := @yields_le _ _ _ _ hash hempty run hworks
        omega
      · cases hyields
    · rw [List.countP_eq_zero.2 fun e he h => hany ⟨e, he, h⟩]
      exact Nat.zero_le _
  · intro pre e post state binding issuer flow htr hcall hreply
    have hinv : Inv P e.before.now e.before.store := by
      subst htr
      exact (run_before hempty run hworks).2
    unfold replyOf at hreply
    rw [hcall] at hreply
    obtain ⟨hash, hnamed, hout⟩ := call_handsOut hinv hreply
    obtain ⟨e', he', u, hput', hu⟩ := hput htr hout.found
    have hmem : e ∈ tr := by rw [htr]; simp
    have hmem' : e' ∈ tr := by rw [htr]; exact List.mem_append_left _ he'
    obtain rfl : u = state := hsame hmem' hmem (by simp [stateOf, hput']) (by simp [stateOf, hcall]) hu hnamed
    refine ⟨⟨e', he', hput'⟩, hout.bound, ?_, hout.before⟩
    intro x hx
    exact hdistinct.issuers x (List.mem_filterMap.2 ⟨e, hmem, by simp [issuerOf, hcall, hx]⟩) flow.issuer
      (List.mem_filterMap.2 ⟨e', hmem', by simp [issuerOf, hput']⟩) (hout.issued x hx)
  · intro pre e post state binding issuer flow hash htr hcall hnamed hfound hstrange
    have hinv : Inv P e.before.now e.before.store := by
      subst htr
      exact (run_before hempty run hworks).2
    have hmem : e ∈ tr := by rw [htr]; simp
    have hstrange' : stateHash P binding ≠ some flow.browserBindingHash ∨
        ∃ x, issuer = some x ∧ P.sha256 x ≠ P.sha256 flow.issuer := by
      refine hstrange.imp id ?_
      rintro ⟨x, hx, hne⟩
      obtain ⟨e', he', u, hput', -⟩ := hput htr hfound
      refine ⟨x, hx, fun hsha => hne ?_⟩
      exact hdistinct.issuers x (List.mem_filterMap.2 ⟨e, hmem, by simp [issuerOf, hcall, hx]⟩) flow.issuer
        (List.mem_filterMap.2 ⟨e', by rw [htr]; exact List.mem_append_left _ he', by simp [issuerOf, hput']⟩) hsha
    obtain ⟨hstore, hreply⟩ := call_strange (i := e.act.draws) hinv hnamed hfound hstrange'
    refine ⟨?_, ?_⟩
    · rw [(run.entry e hmem).next, hcall]
      exact hstore
    · unfold replyOf
      rw [hcall]
      exact hreply
  · intro hash hash' flow flow' hflow hflow' huid hconnector hopen hopen'
    have hkey : flowActiveKey P flow = flowActiveKey P flow' := by
      unfold flowActiveKey
      rw [huid, hconnector]
    have hinv := run_inv hempty run hworks
    cases hstore : s.store with
    | memory m =>
      rw [hstore] at hinv hflow hflow'
      have h1 := (hinv hash flow hflow).2
      have h2 := (hinv hash' flow' hflow').2
      rw [hkey, h2] at h1
      exact (Option.some.inj h1).symm
    | firestore f =>
      rw [hstore] at hinv hflow hflow'
      have hreserved : ∀ {h g}, (FlowStore.firestore f).flowAt P h = some g → s.now < g.expiresAt →
          ∃ r, Dict.get? f.active (flowActiveKey P g) = some r ∧ r.stateHash = h := by
        intro h g hg hbefore
        obtain ⟨d, hd, hdflow⟩ := Option.bind_eq_some_iff.1 hg
        obtain ⟨⟨shown, hshown, hshows⟩, hexpired | hactive⟩ := hinv h d hd
        · rw [hdflow] at hshown
          rw [hshows.expiry, ← Option.some.inj hshown] at hexpired
          omega
        · rw [hdflow] at hshown
          rw [hshows.key, ← Option.some.inj hshown] at hactive
          exact ⟨_, hactive, rfl⟩
      obtain ⟨r, hr, hrh⟩ := hreserved hflow hopen
      obtain ⟨r', hr', hrh'⟩ := hreserved hflow' hopen'
      rw [hkey, hr'] at hr
      rw [← hrh, ← hrh', Option.some.inj hr]
  · intro pre e post uid connectorId flow hash htr hcall hfound hother
    have hmem : e ∈ tr := by rw [htr]; simp
    have hinv : Inv P e.before.now e.before.store := by
      subst htr
      exact (run_before hempty run hworks).2
    obtain ⟨e', he', u, hput', -⟩ := hput htr hfound
    have hmoved := (step_moved hinv (run.entry e hmem) (hworks e hmem)).1
    rw [hcall] at hmoved
    generalize e.after.store.flowAt P = l at hmoved ⊢
    cases hmoved with
    | unchanged => exact hfound
    | cancelled hmine =>
      rw [Function.update_apply]
      split_ifs with hh
      · -- the reservation would be that of another user or connector
        rw [hh] at hfound
        have hpair := hdistinct.tenants (flow.identity.uid, flow.connectorId)
          (List.mem_filterMap.2 ⟨e', by rw [htr]; exact List.mem_append_left _ he', by simp [tenantOf, hput']⟩)
          (uid, connectorId) (List.mem_filterMap.2 ⟨e, hmem, by simp [tenantOf, hcall]⟩) (hmine flow hfound)
        exact absurd hpair hother
      · exact hfound

end Runs

/-! ### A sample run -/

def hexDigit (n : ℕ) : Char := ("0123456789abcdef".toList[n % 16]?).getD '0'

/-- 64 digits of a number made of the text -/
def sampleHash (text : String) : String :=
  let h := text.toList.foldl (fun h c => (h * 16777619 + c.toNat) % 2 ^ 256) 7
  .ofList ((List.range 64).map fun i => hexDigit (h / 16 ^ i))

theorem sampleHash_isHash (text : String) : isHash (sampleHash text) = true := by
  have hdigit : ∀ m, m < 16 → (let c := ("0123456789abcdef".toList[m]?).getD '0'
      ('a' ≤ c && c ≤ 'f') || c.isDigit) = true := by decide
  simp only [isHash, sampleHash, String.length_ofList, String.toList_ofList, List.length_map, List.length_range,
    decide_true, Bool.true_and, List.all_map, List.all_eq_true, Function.comp]
  exact fun i _ => hdigit _ (Nat.mod_lt _ (by norm_num))

def sampleFlow : OAuthFlow :=
  ⟨⟨"email:owner", "owner@example.com", none, none, none⟩, "example", "https://mcp.example.com/mcp",
    "https://example.com/authorize", "https://example.com/token", none, "client", none, .none, "verifier", some "read", none,
    ["review"], "https://example.com", sampleHash "bbbbbbbbbbbbbbbbbbbbbbbbbbbbbbbb", 1700000600 * 1000000⟩

/-- a platform that knows the time of the sample flow -/
def platformWith (loads : String → Option Value) : Platform :=
  ⟨sampleHash, sampleHash_isHash, ⟨fun _ => "", fun s => s⟩, loads, fun _ => "2023-11-14T22:23:20+00:00",
    fun s => if s = "2023-11-14T22:23:20+00:00" then some sampleFlow.expiresAt else none, fun _ p a => ⟨a, p⟩,
    fun e a => if e.nonce = a then some e.ciphertext else none⟩

theorem flowPayload_with (l l' : String → Option Value) (flow : OAuthFlow) :
    flowPayload (platformWith l) flow = flowPayload (platformWith l') flow := rfl

theorem flowValue_with (l l' : String → Option Value) (flow : OAuthFlow) :
    flowValue (platformWith l) flow = flowValue (platformWith l') flow := rfl

theorem recovers_with {loads : String → Option Value} {text : String} {value : Value}
    (htext : flowPayload (platformWith fun _ => none) sampleFlow = text)
    (hvalue : flowValue (platformWith fun _ => none) sampleFlow = value) (h : loads text = some value) :
    Recovers (platformWith loads) sampleFlow := by
  have htime : (platformWith loads).fromisoformat "2023-11-14T22:23:20+00:00" = some sampleFlow.expiresAt := by
    simp [platformWith]
  refine ⟨fun drawn a => if_pos rfl, ?_, htime⟩
  rw [flowPayload_with loads fun _ => none, flowValue_with loads fun _ => none, htext, hvalue]
  exact h

/-- one that decodes the text of the sample flow -/
def samplePlatform : Platform :=
  platformWith fun s =>
    if s = flowPayload (platformWith fun _ => none) sampleFlow then
      some (flowValue (platformWith fun _ => none) sampleFlow)
    else none

theorem sample_recovers : Recovers samplePlatform sampleFlow := by
  unfold samplePlatform
  generalize htext : flowPayload (platformWith fun _ => none) sampleFlow = text
  generalize hvalue : flowValue (platformWith fun _ => none) sampleFlow = value
  exact recovers_with htext hvalue (if_pos rfl)

def sampleSys : Sys := ⟨.memory ⟨[], []⟩, 0⟩

/-- a call that takes effect at this time -/
def sampleAct (t : ℤ) (q : Call) : Act := ⟨⟨t, t, .done, some "nonce", true⟩, q⟩

/-- a flow is put, a strange browser presents its state, then its own does, and again -/
def sampleRun : List Act :=
  [sampleAct 1 (.put "ssssssssssssssssssssssssssssssss" sampleFlow),
    sampleAct 2 (.consume "ssssssssssssssssssssssssssssssss" "xxxxxxxxxxxxxxxxxxxxxxxxxxxxxxxx" none),
    sampleAct 3 (.consume "ssssssssssssssssssssssssssssssss" "bbbbbbbbbbbbbbbbbbbbbbbbbbbbbbbb" (some "https://example.com")),
    sampleAct 4 (.consume "ssssssssssssssssssssssssssssssss" "bbbbbbbbbbbbbbbbbbbbbbbbbbbbbbbb" none)]

def sampleTrace : List Moment :=
  entries (fun s a => ⟨(s.store.call samplePlatform a.draws a.call).2, a.draws.moment⟩) sampleSys sampleRun

theorem sampleTrace_steps : ∀ e ∈ sampleTrace, Steps samplePlatform e.before e.act e.after := by
  intro e he
  have hnext := entries_after e he
  simp only [sampleTrace, sampleRun, entries, List.mem_cons, List.not_mem_nil, or_false] at he
  rcases he with rfl | rfl | rfl | rfl
  all_goals exact ⟨by decide, fun _ _ _ => le_refl _, fun _ _ _ _ => le_refl _, hnext⟩

theorem sampleTrace_works : Works samplePlatform sampleTrace := by
  intro e he state flow hput
  simp only [sampleTrace, sampleRun, entries, List.mem_cons, List.not_mem_nil, or_false] at he
  rcases he with rfl | rfl | rfl | rfl
  · cases hput
    exact sample_recovers
  all_goals cases hput

theorem sampleTrace_distinct : NoCollision samplePlatform sampleTrace :=
  ⟨by decide, by decide, by decide⟩

/-- the state yields its flow, once -/
theorem flows_one_use_sample :
    (∃ e ∈ sampleTrace, replyOf samplePlatform e = .flow (some sampleFlow)) ∧
      sampleTrace.countP (yields samplePlatform "ssssssssssssssssssssssssssssssss") ≤
        sampleTrace.countP (puts "ssssssssssssssssssssssssssssssss") := by
  obtain ⟨s, hrun⟩ := trace_entries (Steps samplePlatform) _ sampleSys sampleRun sampleTrace_steps
  have hempty : sampleSys.store.Empty := rfl
  exact ⟨by decide,
    (flows_one_use hempty hrun sampleTrace_works sampleTrace_distinct).1 "ssssssssssssssssssssssssssssssss"⟩

end Rally.Cloud.OAuthFlows
