/-
The credential vault in Firestore and KMS (`GoogleKmsConnectorVault` of `cloud/credential_vault.py`), as a hosted call uses
it: one document for each connection, changed in transactions, with the credential in a sealed envelope.

- A transaction may raise, also after its commit; KMS may fail; any wait may be cut off. What becomes of each is an input.
- `claimExecution` leaves a lease in the document before it opens the envelope: `claim_answers` says when the caller learns
  the lease, `claim_silent` that it may stay without its holder.
- `leaseOf`: the lease a document is under. `rotate_leaseOf`, `quarantine_leaseOf`, `release_leaseOf`: no other operation
  starts one, and `quarantine_ends`, `release_ends`: two of them end it.
-/
import Rally.Cloud.Execution

namespace Rally.Cloud.Vault

open Py

/-! ## Documents -/

/-- a sealed credential, as `KmsEnvelopeCipher.seal` makes it -/
structure Envelope where
  schema : String
  nonce : String
  ciphertext : String
  wrappedDek : String
  kmsKey : String
deriving DecidableEq

structure Document where
  ownerHash : String
  record : ConnectionRecord
  envelope : Envelope
deriving DecidableEq

/-- the libraries, and what KMS and AES make of an envelope and its associated data -/
structure Platform where
  libs : Libs
  openEnvelope : Envelope → String → Option String

/-- an exception that a handler of `Exception` makes a `CredentialVaultError` -/
def wrapped (f : Fault) : VaultExn :=
  match f with
  | .timeout => .vault .error
  | .failed => .vault .error
  | f => .fault f

/-- how a transaction ends for its caller; one that raises may have been applied -/
inductive Commit where
  | done
  | raised (applied : Bool) (f : Fault)
deriving DecidableEq

/-- whether the document of the transaction is stored -/
def Commit.applied : Commit → Bool
  | .done => true
  | .raised applied _ => applied

/-- the answer of a transaction and the document it leaves -/
def transact {α : Type} (c : Commit) (d : Option Document) (x : Except VaultExn (α × Option Document)) :
    Except VaultExn α × Option Document :=
  match c, x with
  | .done, .ok (a, e) => (.ok a, e)
  | .done, .error e => (.error e, d)
  | .raised applied f, .ok (_, e) => (.error (wrapped f), if applied then e else d)
  | .raised _ f, .error _ => (.error (wrapped f), d)

def isAscii (s : String) : Bool := s.toList.all (·.toNat < 128)

/-- `hmac.compare_digest` of two texts, `none` where it raises `TypeError` -/
def compareDigest (left right : String) : Option Bool :=
  if isAscii left && isAscii right then some (decide (left = right)) else none

/-- `_same_secret`, `none` where it raises -/
def sameSecret (left right : ConnectorSecret) : Option Bool :=
  if left.kind = right.kind then compareDigest left.value right.value else some false

theorem sameSecret_true {left right : ConnectorSecret} (h : sameSecret left right = some true) : left = right := by
  rw [sameSecret] at h
  split_ifs at h with hkind
  · rw [compareDigest] at h
    split_ifs at h
    have hvalue : left.value = right.value := by simpa using h
    cases left
    cases right
    cases hkind
    cases hvalue
    rfl
  · cases h

section Operations

variable (V : Platform) (uid connectorId : String)

/-! ## Opening -/

/-- `_CONNECTOR_ID.fullmatch` -/
def isConnectorId (s : String) : Bool :=
  let first := fun (c : Char) => c.isDigit || ('a' ≤ c && c ≤ 'z')
  (s.toList.head?.map first).getD false && s.length ≤ 64 && s.toList.all fun c => first c || c = '-'

/-- `_associated_data` -/
def associatedData : String := "rally.connector-secret/v1\x00" ++ uid ++ "\x00" ++ connectorId

/-- `_owner_hash` -/
def ownerHash : String := V.libs.sha256 uid

def secretKind : String → Option SecretKind
  | "api_key" => some .apiKey
  | "bearer_token" => some .bearerToken
  | "oauth_refresh_token" => some .oauthRefreshToken
  | _ => none

/-- `ConnectorSecret(value=payload["value"], kind=payload["kind"])` of a text, `none` where it raises -/
def secretOf (plaintext : String) : Option ConnectorSecret :=
  match V.libs.loads plaintext with
  | .value (.dict kvs) =>
    match kvs.reverse.lookup "value", kvs.reverse.lookup "kind" with
    | some (.str value), some (.str kind) => (secretKind kind).bind (ConnectorSecret.make value)
    | _, _ => none
  | _ => none

/-- the credential of a document, `none` where its envelope or text is not as it should be -/
def openSecret (d : Document) : Option ConnectorSecret :=
  (V.openEnvelope d.envelope (associatedData uid connectorId)).bind (secretOf V)

/-- `_public_record`, `none` where it raises -/
def publicRecord (record : ConnectionRecord) : Option ConnectionRecord :=
  if !isConnectorId record.connectorId then none
  else
    match normalizeCertifiedTools record.certifiedTools with
    | .ok tools => some { record with certifiedTools := tools }
    | .error _ => none

/-- the record and the credential of a document -/
def openDocument (d : Document) : Option StoredConnection :=
  match openSecret V uid connectorId d, publicRecord d.record with
  | some secret, some record => some ⟨record, secret⟩
  | _, _ => none

/-! ## Leases -/

/-- `_LEASE.fullmatch` -/
def isLease (s : String) : Bool := s.length = 32 && s.toList.all isHexLower

/-- `_lease_is_active` -/
def leaseIsActive (record : ConnectionRecord) (now : ℤ) : Bool :=
  match record.executionLease, record.executionLeaseExpiresAt with
  | some lease, some expiry => isLease lease && decide (now < expiry)
  | _, _ => false

/-- `_EXECUTION_LEASE_SECONDS`, in microseconds -/
def executionLeaseSeconds : ℤ := 90 * 1000000

/-- the clock at the start and in the transaction, its text, and the random text drawn -/
structure Draw where
  started : ℤ
  now : ℤ
  nowText : String
  fresh : String

/-- a record under a lease -/
def leased (record : ConnectionRecord) (draw : Draw) : ConnectionRecord :=
  { record with
    executionLease := some draw.fresh
    executionLeaseExpiresAt := some (draw.started + executionLeaseSeconds)
    updatedAt := draw.nowText }

/-- a record without a lease -/
def unleased (record : ConnectionRecord) (draw : Draw) : ConnectionRecord :=
  { record with executionLease := none, executionLeaseExpiresAt := none, updatedAt := draw.nowText }

/-- a record that has to be connected again -/
def demoted (record : ConnectionRecord) (errorCode : String) (draw : Draw) : ConnectionRecord :=
  { record with
    status := "needs_attention"
    toolCount := 0
    verifiedAt := none
    errorCode := some errorCode
    canaryTool := none
    toolSchemaSha256 := none
    proofVersion := none
    certifiedTools := []
    certifiedManifestSha256 := none
    executionLease := none
    executionLeaseExpiresAt := none
    updatedAt := draw.nowText }

/-! ## Claiming -/

/-- `claim`: the document as it is claimed -/
def claimTransaction (draw : Draw) (d : Option Document) : Except VaultExn (Option Document × Option Document) :=
  match d with
  | none => .ok (none, none)
  | some doc =>
    if doc.ownerHash ≠ ownerHash V uid then .ok (none, d)
    else if doc.record.status ≠ "ready" then .ok (none, d)
    else if leaseIsActive doc.record draw.now then .error (.vault .busy)
    else
      let claimed := { doc with record := leased doc.record draw }
      .ok (some claimed, some claimed)

/-- what happens to a claim: its transaction, and the opening of the envelope, which may fail -/
structure ClaimInput where
  draw : Draw
  commit : Commit
  opening : Option Fault

/-- `claim_execution` -/
def claimExecution (i : ClaimInput) (d : Option Document) : Except VaultExn (Option StoredConnection) × Option Document :=
  if !isConnectorId connectorId then (.error (.vault .error), d)
  else
    let (answer, e) := transact i.commit d (claimTransaction V uid i.draw d)
    match answer with
    | .error x => (.error x, e)
    | .ok none => (.ok none, e)
    | .ok (some claimed) =>
      match i.opening with
      | some f => (.error (wrapped f), e)
      | none =>
        match openDocument V uid connectorId claimed with
        | some stored => (.ok (some stored), e)
        | none => (.error (.vault .error), e)

/-! ## Using and giving back -/

/-- `get_connection`: reading may fail, and opening -/
structure GetInput where
  reading : Option Fault
  opening : Option Fault

def getConnection (i : GetInput) (d : Option Document) : Except VaultExn (Option StoredConnection) :=
  if !isConnectorId connectorId then .error (.vault .error)
  else
    match i.reading with
    | some f => .error (.fault f)
    | none =>
      match d with
      | none => .ok none
      | some doc =>
        if doc.ownerHash ≠ ownerHash V uid then .ok none
        else
          match i.opening with
          | some f => .error (wrapped f)
          | none =>
            match openDocument V uid connectorId doc with
            | some stored => .ok (some stored)
            | none => .error (.vault .error)

/-- a document presents this generation and lease, and is ready -/
def Presents (doc : Document) (generation lease : String) : Prop :=
  doc.ownerHash = ownerHash V uid ∧ doc.record.status = "ready" ∧ doc.record.credentialGeneration = generation ∧
    doc.record.executionLease = some lease

instance (doc : Document) (generation lease : String) : Decidable (Presents V uid doc generation lease) := by
  unfold Presents
  infer_instance

/-- the document and its credential, where it presents these -/
def presenting (opening : Option Fault) (generation lease : String) (d : Option Document) :
    Except VaultExn (Option (Document × ConnectorSecret)) :=
  match d with
  | none => .ok none
  | some doc =>
    if !Presents V uid doc generation lease then .ok none
    else
      match opening with
      | some f => .error (wrapped f)
      | none =>
        match openSecret V uid connectorId doc with
        | none => .error (.vault .error)
        | some current => .ok (some (doc, current))

/-- what happens to a write under a lease: the sealing of a new credential, the transaction, and opening within it -/
structure WriteInput where
  draw : Draw
  sealing : Except VaultExn Envelope
  commit : Commit
  opening : Option Fault

def kindText : SecretKind → String
  | .apiKey => "api_key"
  | .bearerToken => "bearer_token"
  | .oauthRefreshToken => "oauth_refresh_token"

/-- a document with a new credential -/
def rotated (doc : Document) (secret : ConnectorSecret) (envelope : Envelope) (draw : Draw) : Document :=
  { doc with
    envelope := envelope
    record :=
      { doc.record with
        credentialKind := kindText secret.kind
        credentialGeneration := draw.fresh
        updatedAt := draw.nowText } }

/-- `replace_secret` -/
def rotateTransaction (i : WriteInput) (envelope : Envelope) (generation lease : String)
    (expected secret : ConnectorSecret) (d : Option Document) : Except VaultExn (Option Document × Option Document) :=
  match presenting V uid connectorId i.opening generation lease d with
  | .error x => .error x
  | .ok none => .ok (none, d)
  | .ok (some (doc, current)) =>
    if secret.kind ≠ expected.kind then .ok (none, d)
    else
      match sameSecret current expected with
      | none => .error (.vault .error)
      | some false => .ok (none, d)
      | some true => .ok (some (rotated doc secret envelope i.draw), some (rotated doc secret envelope i.draw))

/-- `rotate` -/
def rotate (i : WriteInput) (generation lease : String) (expected secret : ConnectorSecret) (d : Option Document) :
    Except VaultExn (Option ConnectionRecord) × Option Document :=
  if !isConnectorId connectorId then (.error (.vault .error), d)
  else
    match i.sealing with
    | .error x => (.error x, d)
    | .ok envelope =>
      let (answer, e) :=
        transact i.commit d (rotateTransaction V uid connectorId i envelope generation lease expected secret d)
      match answer with
      | .error x => (.error x, e)
      | .ok none => (.ok none, e)
      | .ok (some doc) =>
        match publicRecord doc.record with
        | some record => (.ok (some record), e)
        | none => (.error (.vault .error), e)

/-- `demote` -/
def quarantineTransaction (i : WriteInput) (generation lease errorCode : String) (expected : ConnectorSecret)
    (d : Option Document) : Except VaultExn (Bool × Option Document) :=
  match presenting V uid connectorId i.opening generation lease d with
  | .error x => .error x
  | .ok none => .ok (false, d)
  | .ok (some (doc, current)) =>
    match sameSecret current expected with
    | none => .error (.vault .error)
    | some false => .ok (false, d)
    | some true => .ok (true, some { doc with record := demoted doc.record errorCode i.draw })

/-- `quarantine` -/
def quarantine (i : WriteInput) (generation lease errorCode : String) (expected : ConnectorSecret)
    (d : Option Document) : Except VaultExn Bool × Option Document :=
  if !isConnectorId connectorId then (.error (.vault .error), d)
  else transact i.commit d (quarantineTransaction V uid connectorId i generation lease errorCode expected d)

/-- `release` -/
def releaseTransaction (draw : Draw) (lease : String) (d : Option Document) : Except VaultExn (Bool × Option Document) :=
  match d with
  | none => .ok (false, none)
  | some doc =>
    if doc.ownerHash ≠ ownerHash V uid ∨ doc.record.executionLease ≠ some lease then .ok (false, d)
    else .ok (true, some { doc with record := unleased doc.record draw })

/-- `release_execution` -/
def releaseExecution (i : WriteInput) (lease : String) (d : Option Document) : Except VaultExn Bool × Option Document :=
  if !isConnectorId connectorId then (.error (.vault .error), d)
  else transact i.commit d (releaseTransaction V uid i.draw lease d)

/-! ## The lease of a document -/

/-- the lease that a document of this owner is under, with its expiry -/
def leaseOf (d : Option Document) : Option (String × Option ℤ) :=
  d.bind fun doc =>
    if doc.ownerHash = ownerHash V uid then doc.record.executionLease.map (·, doc.record.executionLeaseExpiresAt)
    else none

/-- the transaction of a claim is applied to this document -/
structure Committed (i : ClaimInput) (doc : Document) : Prop where
  connector : isConnectorId connectorId = true
  owned : doc.ownerHash = ownerHash V uid
  ready : doc.record.status = "ready"
  free : leaseIsActive doc.record i.draw.now = false
  applied : i.commit.applied = true

/-- the reply of a claim gets through, and the stored credential opens -/
def Replies (i : ClaimInput) (doc : Document) : Prop :=
  i.commit = .done ∧ i.opening = none ∧ (openDocument V uid connectorId doc).isSome = true

end Operations

section Lemmas

variable {V : Platform} {uid connectorId : String} {d e : Option Document}

/-! ## Transactions -/

theorem transact_ok {α : Type} {c : Commit} {x : Except VaultExn (α × Option Document)} {a : α}
    (h : (transact c d x).1 = .ok a) : x = .ok (a, (transact c d x).2) := by
  cases c with
  | done =>
    cases x with
    | ok p => cases h; rfl
    | error e => cases h
  | raised applied f => cases x <;> cases h

/-- a transaction leaves the document or stores the one it comes to -/
theorem transact_doc {α : Type} (c : Commit) (d : Option Document) (x : Except VaultExn (α × Option Document)) :
    (transact c d x).2 = d ∨ ∃ a, x = .ok (a, (transact c d x).2) := by
  cases c with
  | done =>
    cases x with
    | ok p => exact .inr ⟨p.1, rfl⟩
    | error e => exact .inl rfl
  | raised applied f =>
    cases x with
    | ok p =>
      cases applied with
      | true => exact .inr ⟨p.1, rfl⟩
      | false => exact .inl rfl
    | error e => exact .inl rfl

theorem presenting_ok {opening : Option Fault} {generation lease : String} {doc : Document} {current : ConnectorSecret}
    (h : presenting V uid connectorId opening generation lease d = .ok (some (doc, current))) :
    d = some doc ∧ Presents V uid doc generation lease ∧ openSecret V uid connectorId doc = some current := by
  cases d with
  | none => cases h
  | some stored =>
    simp only [presenting] at h
    split at h
    · cases h
    · rename_i hpresents
      split at h
      · cases h
      · split at h
        · cases h
        · rename_i hopens
          cases h
          exact ⟨rfl, by simpa using hpresents, hopens⟩

/-! ## Leases of documents -/

theorem leaseOf_congr {doc doc' : Document} (howner : doc'.ownerHash = doc.ownerHash)
    (hlease : doc'.record.executionLease = doc.record.executionLease)
    (hexpiry : doc'.record.executionLeaseExpiresAt = doc.record.executionLeaseExpiresAt) :
    leaseOf V uid (some doc') = leaseOf V uid (some doc) := by
  simp only [leaseOf, Option.bind_some, howner, hlease, hexpiry]

/-- a document under a new lease -/
theorem leaseOf_leased {doc : Document} (h : doc.ownerHash = ownerHash V uid) (draw : Draw) :
    leaseOf V uid (some { doc with record := leased doc.record draw }) =
      some (draw.fresh, some (draw.started + executionLeaseSeconds)) := if_pos h

theorem leaseOf_none {doc : Document} (h : doc.record.executionLease = none) : leaseOf V uid (some doc) = none := by
  simp [leaseOf, h]

theorem publicRecord_leased (record : ConnectionRecord) (draw : Draw) :
    publicRecord (leased record draw) = (publicRecord record).map fun r => leased r draw := by
  unfold publicRecord
  split_ifs with h h' h'
  · rfl
  · exact absurd h h'
  · exact absurd h' h
  · rw [show (leased record draw).certifiedTools = record.certifiedTools from rfl]
    cases normalizeCertifiedTools record.certifiedTools with
    | ok tools => rfl
    | error e => rfl

/-- a document opens under a lease as it does without -/
theorem openDocument_leased (doc : Document) (draw : Draw) :
    openDocument V uid connectorId { doc with record := leased doc.record draw } =
      (openDocument V uid connectorId doc).map fun stored => { stored with record := leased stored.record draw } := by
  unfold openDocument
  rw [publicRecord_leased]
  have hsecret : openSecret V uid connectorId { doc with record := leased doc.record draw } =
    openSecret V uid connectorId doc := rfl
  rw [hsecret]
  cases openSecret V uid connectorId doc with
  | none => cases publicRecord doc.record <;> rfl
  | some secret => cases publicRecord doc.record <;> rfl

/-! ## Claims -/

section Claim

variable {i : ClaimInput} {doc : Document}

theorem Committed.transaction (h : Committed V uid connectorId i doc) :
    claimTransaction V uid i.draw (some doc) =
      .ok (some { doc with record := leased doc.record i.draw }, some { doc with record := leased doc.record i.draw }) := by
  simp [claimTransaction, h.owned, h.ready, h.free]

/-- a claim leaves a document under the lease it draws -/
theorem claim_commits (h : Committed V uid connectorId i doc) :
    (claimExecution V uid connectorId i (some doc)).2 = some { doc with record := leased doc.record i.draw } := by
  have happlied := h.applied
  unfold claimExecution
  rw [h.connector, h.transaction]
  cases hcommit : i.commit with
  | done =>
    simp only [transact]
    cases i.opening with
    | some f => rfl
    | none =>
      simp only [Bool.not_true, Bool.false_eq_true, if_false]
      split <;> rfl
  | raised applied f =>
    rw [hcommit] at happlied
    cases applied with
    | true => rfl
    | false => cases happlied

theorem claim_leased (h : Committed V uid connectorId i doc) :
    leaseOf V uid (claimExecution V uid connectorId i (some doc)).2 =
      some (i.draw.fresh, some (i.draw.started + executionLeaseSeconds)) := by
  rw [claim_commits h, leaseOf_leased h.owned]

/-- where its reply gets through, the claim tells the caller its lease -/
theorem claim_answers (h : Committed V uid connectorId i doc) (hreplies : Replies V uid connectorId i doc) :
    ∃ stored, (claimExecution V uid connectorId i (some doc)).1 = .ok (some stored) ∧
      stored.record.executionLease = some i.draw.fresh := by
  obtain ⟨hdone, hopening, hopens⟩ := hreplies
  obtain ⟨stored, hstored⟩ := Option.isSome_iff_exists.1 hopens
  refine ⟨{ stored with record := leased stored.record i.draw }, ?_, rfl⟩
  simp [claimExecution, h.connector, h.transaction, transact, hdone, hopening, openDocument_leased, hstored]

/-- otherwise it raises, though the lease is stored -/
theorem claim_silent (h : Committed V uid connectorId i doc) (hsilent : ¬ Replies V uid connectorId i doc) :
    ∃ x, (claimExecution V uid connectorId i (some doc)).1 = .error x := by
  unfold claimExecution
  rw [h.connector, h.transaction]
  cases hcommit : i.commit with
  | raised applied f => exact ⟨wrapped f, rfl⟩
  | done =>
    cases hopening : i.opening with
    | some f => exact ⟨wrapped f, rfl⟩
    | none =>
      cases hopens : openDocument V uid connectorId doc with
      | some stored => exact absurd ⟨hcommit, hopening, by simp [hopens]⟩ hsilent
      | none => exact ⟨.vault .error, by simp [transact, openDocument_leased, hopens]⟩

/-- a claim leaves the lease as it is, or starts the one it draws -/
theorem claim_leaseOf (i : ClaimInput) (d : Option Document) :
    leaseOf V uid (claimExecution V uid connectorId i d).2 = leaseOf V uid d ∨
      ∃ expiry, leaseOf V uid (claimExecution V uid connectorId i d).2 = some (i.draw.fresh, expiry) := by
  have htransaction : ∀ a e, claimTransaction V uid i.draw d = .ok (a, e) →
      leaseOf V uid e = leaseOf V uid d ∨ ∃ expiry, leaseOf V uid e = some (i.draw.fresh, expiry) := by
    intro a e h
    unfold claimTransaction at h
    split at h
    · cases h
      exact .inl rfl
    · split_ifs at h with howned hready hbusy
      · cases h
        exact .inl rfl
      · cases h
        exact .inl rfl
      · cases h
        exact .inr ⟨_, leaseOf_leased (not_not.1 howned) i.draw⟩
  have hdoc := transact_doc i.commit d (claimTransaction V uid i.draw d)
  unfold claimExecution
  split_ifs
  · exact .inl rfl
  · revert hdoc
    cases transact i.commit d (claimTransaction V uid i.draw d) with
    | mk answer e =>
      intro hdoc
      have hstored : leaseOf V uid e = leaseOf V uid d ∨ ∃ expiry, leaseOf V uid e = some (i.draw.fresh, expiry) := by
        rcases hdoc with rfl | ⟨a, ha⟩
        · exact .inl rfl
        · exact htransaction a e ha
      -- what the claim answers does not change the document again
      cases answer with
      | error x => exact hstored
      | ok claimed =>
        cases claimed with
        | none => exact hstored
        | some doc =>
          dsimp only
          cases i.opening with
          | some f => exact hstored
          | none =>
            dsimp only
            split <;> exact hstored

end Claim

/-! ## Operations under a lease -/

section Write

variable {i : WriteInput} {generation lease errorCode : String} {expected secret : ConnectorSecret}

/-- a new credential changes no lease -/
theorem rotate_leaseOf : leaseOf V uid (rotate V uid connectorId i generation lease expected secret d).2 =
    leaseOf V uid d := by
  have htransaction : ∀ envelope a e,
      rotateTransaction V uid connectorId i envelope generation lease expected secret d = .ok (a, e) →
        leaseOf V uid e = leaseOf V uid d := by
    intro envelope a e h
    unfold rotateTransaction at h
    split at h
    · cases h
    · cases h
      rfl
    · rename_i doc current hpresenting
      obtain ⟨rfl, -⟩ := presenting_ok hpresenting
      split_ifs at h
      · cases h
        rfl
      · split at h
        · cases h
        · cases h
          rfl
        · cases h
          exact leaseOf_congr rfl rfl rfl
  unfold rotate
  split_ifs
  · rfl
  · cases i.sealing with
    | error x => rfl
    | ok envelope =>
      dsimp only
      have hdoc := transact_doc i.commit d
        (rotateTransaction V uid connectorId i envelope generation lease expected secret d)
      revert hdoc
      cases transact i.commit d (rotateTransaction V uid connectorId i envelope generation lease expected secret d) with
      | mk answer e =>
        intro hdoc
        have hstored : leaseOf V uid e = leaseOf V uid d := by
          rcases hdoc with rfl | ⟨a, ha⟩
          · rfl
          · exact htransaction envelope a e ha
        cases answer with
        | error x => exact hstored
        | ok rotated =>
          cases rotated with
          | none => exact hstored
          | some doc =>
            dsimp only
            split <;> exact hstored

/-- a quarantine that goes through answers with `true` only where it ends the lease -/
theorem quarantineTransaction_ok {answer : Bool}
    (h : quarantineTransaction V uid connectorId i generation lease errorCode expected d = .ok (answer, e)) :
    (answer = false ∧ e = d) ∨ leaseOf V uid e = none := by
  unfold quarantineTransaction at h
  split at h
  · cases h
  · cases h
    exact .inl ⟨rfl, rfl⟩
  · split at h
    · cases h
    · cases h
      exact .inl ⟨rfl, rfl⟩
    · cases h
      exact .inr (leaseOf_none rfl)

theorem quarantine_leaseOf :
    leaseOf V uid (quarantine V uid connectorId i generation lease errorCode expected d).2 = leaseOf V uid d ∨
      leaseOf V uid (quarantine V uid connectorId i generation lease errorCode expected d).2 = none := by
  unfold quarantine
  split_ifs
  · exact .inl rfl
  · rcases transact_doc i.commit d (quarantineTransaction V uid connectorId i generation lease errorCode expected d) with
      h | ⟨a, ha⟩
    · exact .inl (congrArg (leaseOf V uid) h)
    · rcases quarantineTransaction_ok ha with ⟨-, h⟩ | h
      · exact .inl (congrArg (leaseOf V uid) h)
      · exact .inr h

theorem quarantine_ends (h : (quarantine V uid connectorId i generation lease errorCode expected d).1 = .ok true) :
    leaseOf V uid (quarantine V uid connectorId i generation lease errorCode expected d).2 = none := by
  unfold quarantine at h ⊢
  split_ifs at h ⊢
  rcases quarantineTransaction_ok (transact_ok h) with ⟨hfalse, -⟩ | h
  · cases hfalse
  · exact h

/-- a release that goes through leaves no such lease -/
theorem releaseTransaction_ok {draw : Draw} {answer : Bool}
    (h : releaseTransaction V uid draw lease d = .ok (answer, e)) :
    leaseOf V uid e = none ∨ (e = d ∧ ∀ expiry, leaseOf V uid e ≠ some (lease, expiry)) := by
  unfold releaseTransaction at h
  split at h
  · cases h
    exact .inl rfl
  · rename_i doc
    split_ifs at h with hother
    · cases h
      refine .inr ⟨rfl, fun expiry hlease => ?_⟩
      simp only [leaseOf, Option.bind_some] at hlease
      split_ifs at hlease with howned
      obtain ⟨l, hl, hpair⟩ := Option.map_eq_some_iff.1 hlease
      obtain rfl : l = lease := (Prod.mk.inj hpair).1
      rcases hother with hother | hother
      · exact hother howned
      · exact hother hl
    · cases h
      exact .inl (leaseOf_none rfl)

theorem release_leaseOf :
    leaseOf V uid (releaseExecution V uid connectorId i lease d).2 = leaseOf V uid d ∨
      leaseOf V uid (releaseExecution V uid connectorId i lease d).2 = none := by
  unfold releaseExecution
  split_ifs
  · exact .inl rfl
  · rcases transact_doc i.commit d (releaseTransaction V uid i.draw lease d) with h | ⟨a, ha⟩
    · exact .inl (congrArg (leaseOf V uid) h)
    · rcases releaseTransaction_ok ha with h | ⟨h, -⟩
      · exact .inr h
      · exact .inl (congrArg (leaseOf V uid) h)

theorem release_ends {released : Bool} (h : (releaseExecution V uid connectorId i lease d).1 = .ok released)
    (expiry : Option ℤ) : leaseOf V uid (releaseExecution V uid connectorId i lease d).2 ≠ some (lease, expiry) := by
  unfold releaseExecution at h ⊢
  split_ifs at h ⊢
  rcases releaseTransaction_ok (transact_ok h) with hnone | ⟨-, h⟩
  · rw [hnone]
    exact nofun
  · exact h expiry

end Write

end Lemmas

end Rally.Cloud.Vault
