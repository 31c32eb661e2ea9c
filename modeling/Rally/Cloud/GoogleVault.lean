/-
The rest of the credential vault in Firestore and KMS (`GoogleKmsConnectorVault` of `cloud/credential_vault.py`): how a
connection is stored, verified, marked, disconnected and deleted.

- The guards and the new records of these operations stand on their own: the vault in memory has the same.
- Each operation is one transaction on the document of the connection. `mark` is not: it reads the document in
  `markStart` and writes it in `markFinish`, with anything in between.
-/
import Rally.Cloud.Certification
import Rally.Cloud.Vault

namespace Rally.Cloud.Vault

open Py

/-! ## Records -/

/-- the record of a credential that is stored -/
def newRecord (connectorId : String) (secret : ConnectorSecret) (draw : Draw) : ConnectionRecord where
  connectorId := connectorId
  credentialKind := kindText secret.kind
  status := "stored_unverified"
  createdAt := draw.nowText
  updatedAt := draw.nowText
  credentialGeneration := draw.fresh

/-- a record under verification -/
def verifying (record : ConnectionRecord) (draw : Draw) : ConnectionRecord :=
  { (leased record draw).withCertificate {} with status := "verifying", verifiedAt := none, errorCode := none }

/-- a record with the outcome of a verification -/
def judged (record : ConnectionRecord) (v : Verdict) (tools : List (String × String)) (draw : Draw) : ConnectionRecord :=
  { (unleased record draw).withCertificate (v.kept tools) with
    status := v.status
    verifiedAt := if v.status = "ready" then some draw.nowText else none
    errorCode := v.errorCode }

/-- the outcome as `mark` writes it to Firestore: the count of tools also without a certificate -/
def marked (record : ConnectionRecord) (v : Verdict) (tools : List (String × String)) (draw : Draw) : ConnectionRecord :=
  { judged record v tools draw with toolCount := v.certificate.toolCount }

/-- a record that is being disconnected -/
def disconnecting (record : ConnectionRecord) (draw : Draw) : ConnectionRecord :=
  { demoted record "disconnect_pending" draw with
    credentialGeneration := if isLease record.credentialGeneration then record.credentialGeneration else draw.fresh }

/-! ## Guards -/

/-- a ready record under this generation and lease -/
def UnderLease (record : ConnectionRecord) (generation lease : String) : Prop :=
  record.status = "ready" ∧ record.credentialGeneration = generation ∧ record.executionLease = some lease

def Verifiable (record : ConnectionRecord) (generation : String) (now : ℤ) : Prop :=
  record.credentialGeneration = generation ∧ record.status ≠ "ready" ∧ record.errorCode ≠ some "disconnect_pending" ∧
    leaseIsActive record now = false

def Finishable (record : ConnectionRecord) (generation lease : String) : Prop :=
  record.credentialGeneration = generation ∧ record.status = "verifying" ∧ record.executionLease = some lease

def Disconnectable (record : ConnectionRecord) (now : ℤ) : Prop :=
  record.status = "verifying" ∨ leaseIsActive record now = false

def Deletable (record : ConnectionRecord) (generation : Option String) (requireDisconnect : Bool) : Prop :=
  generation.all (fun g => decide (record.credentialGeneration = g)) = true ∧
    (requireDisconnect = true → record.errorCode = some "disconnect_pending")

section Decidable

variable (record : ConnectionRecord) (generation lease : String) (now : ℤ)

instance : Decidable (UnderLease record generation lease) := by unfold UnderLease; infer_instance
instance : Decidable (Verifiable record generation now) := by unfold Verifiable; infer_instance
instance : Decidable (Finishable record generation lease) := by unfold Finishable; infer_instance
instance : Decidable (Disconnectable record now) := by unfold Disconnectable; infer_instance
instance (g : Option String) (require : Bool) : Decidable (Deletable record g require) := by
  unfold Deletable
  infer_instance

end Decidable

/-! ## Verdicts -/

/-- the statuses that a verification ends with -/
def outcomes : List String := ["ready", "needs_attention"]

/-- `_CONNECTION_STATUSES` -/
def connectionStatuses : List String := ["stored_unverified", "verifying", "ready", "needs_attention"]

/-- the checks of `mark` -/
def markTools (L : Libs) (v : Verdict) : Except VaultError (List (String × String)) :=
  if v.status ∉ connectionStatuses ∨ ¬ (0 ≤ v.certificate.toolCount ∧ v.certificate.toolCount ≤ 128) then .error .error
  else validateCertification L v

/-- the checks of `finish_verification` -/
def finishTools (L : Libs) (v : Verdict) : Except VaultError (List (String × String)) :=
  if v.status ∉ outcomes then .error .error else validateCertification L v

/-! ## Sealing -/

/-- a platform whose KMS and AES also seal a text, with its random key and nonce and its associated data -/
structure Kms extends Platform where
  sealEnvelope : String → String → String → Envelope

/-- the text that is sealed -/
def payload (L : Libs) (secret : ConnectorSecret) : String :=
  dumps L.text compactAscii (.dict [("kind", .str (kindText secret.kind)), ("value", .str secret.value)])

/-- the text is not too long for `seal` -/
def Sealable (L : Libs) (secret : ConnectorSecret) : Prop := (payload L secret).utf8ByteSize ≤ maxSecretBytes

instance (L : Libs) (secret : ConnectorSecret) : Decidable (Sealable L secret) := by unfold Sealable; infer_instance

/-- `seal`, with a KMS that works -/
def sealed (K : Kms) (uid connectorId : String) (random : String) (secret : ConnectorSecret) :
    Except VaultExn Envelope :=
  if Sealable K.libs secret then .ok (K.sealEnvelope random (payload K.libs secret) (associatedData uid connectorId))
  else .error (.vault .error)

section Operations

variable (V : Platform) (uid connectorId : String)

/-! ## Answers -/

/-- the document, where it belongs to the user -/
def owned (d : Option Document) : Option Document := d.filter fun doc => doc.ownerHash = ownerHash V uid

/-- a transaction that stores what it answers with -/
def stores (doc : Document) (record : ConnectionRecord) : Except VaultExn (Option Document × Option Document) :=
  .ok (some { doc with record := record }, some { doc with record := record })

/-- the answer with the record of the document, if there is one -/
def publicAnswer : Except VaultExn (Option Document) × Option Document →
    Except VaultExn (Option ConnectionRecord) × Option Document
  | (.error x, e) => (.error x, e)
  | (.ok none, e) => (.ok none, e)
  | (.ok (some doc), e) =>
    match publicRecord doc.record with
    | some record => (.ok (some record), e)
    | none => (.error (.vault .error), e)

/-- the answer with the record and the credential of the document, if there is one -/
def openAnswer (opening : Option Fault) : Except VaultExn (Option Document) × Option Document →
    Except VaultExn (Option StoredConnection) × Option Document
  | (.error x, e) => (.error x, e)
  | (.ok none, e) => (.ok none, e)
  | (.ok (some doc), e) =>
    match opening with
    | some f => (.error (wrapped f), e)
    | none =>
      match openDocument V uid connectorId doc with
      | some stored => (.ok (some stored), e)
      | none => (.error (.vault .error), e)

/-! ## Connecting -/

/-- `create` of a document, which raises where there is one -/
def putTransaction (draw : Draw) (envelope : Envelope) (secret : ConnectorSecret) (d : Option Document) :
    Except VaultExn (Option Document × Option Document) :=
  match d with
  | some _ => .error (.vault .conflict)
  | none => stores ⟨ownerHash V uid, newRecord connectorId secret draw, envelope⟩ (newRecord connectorId secret draw)

/-- `put` -/
def put (i : WriteInput) (secret : ConnectorSecret) (d : Option Document) :
    Except VaultExn (Option ConnectionRecord) × Option Document :=
  if !isConnectorId connectorId then (.error (.vault .error), d)
  else
    match i.sealing with
    | .error x => (.error x, d)
    | .ok envelope => publicAnswer (transact i.commit d (putTransaction V uid connectorId i.draw envelope secret d))

/-- `list`, of the documents in the order of the query -/
def list (docs : List Document) : Except VaultExn (List ConnectionRecord) :=
  match (docs.filter fun doc => doc.ownerHash = ownerHash V uid).mapM fun doc => publicRecord doc.record with
  | some records => .ok (records.insertionSort fun a b => a.connectorId ≤ b.connectorId)
  | none => .error (.vault .error)

/-- `get_secret` -/
def getSecret (i : GetInput) (d : Option Document) : Except VaultExn (Option ConnectorSecret) :=
  (getConnection V uid connectorId i d).map (Option.map StoredConnection.secret)

/-! ## Verifying -/

/-- `begin` of a verification -/
def verifyTransaction (draw : Draw) (generation : String) (d : Option Document) :
    Except VaultExn (Option Document × Option Document) :=
  match owned V uid d with
  | none => .ok (none, d)
  | some doc => if Verifiable doc.record generation draw.now then stores doc (verifying doc.record draw) else .ok (none, d)

/-- `begin_verification` -/
def beginVerification (i : WriteInput) (generation : String) (d : Option Document) :
    Except VaultExn (Option ConnectionRecord) × Option Document :=
  if !isConnectorId connectorId then (.error (.vault .error), d)
  else publicAnswer (transact i.commit d (verifyTransaction V uid i.draw generation d))

/-- `finish` -/
def finishTransaction (draw : Draw) (generation lease : String) (v : Verdict) (tools : List (String × String))
    (d : Option Document) : Except VaultExn (Option Document × Option Document) :=
  match owned V uid d with
  | none => .ok (none, d)
  | some doc =>
    if Finishable doc.record generation lease then stores doc (judged doc.record v tools draw) else .ok (none, d)

/-- `finish_verification` -/
def finishVerification (i : WriteInput) (generation lease : String) (v : Verdict) (d : Option Document) :
    Except VaultExn (Option ConnectionRecord) × Option Document :=
  match finishTools V.libs v with
  | .error e => (.error (.vault e), d)
  | .ok tools =>
    if !isConnectorId connectorId then (.error (.vault .error), d)
    else publicAnswer (transact i.commit d (finishTransaction V uid i.draw generation lease v tools d))

/-! ## Marking -/

/-- `mark` up to its reading of the document -/
def markStart (reading : Option Fault) (v : Verdict) (d : Option Document) :
    Except VaultExn (Document × List (String × String)) :=
  if !isConnectorId connectorId then .error (.vault .error)
  else
    match markTools V.libs v with
    | .error e => .error (.vault e)
    | .ok tools =>
      match reading with
      | some f => .error (.fault f)
      | none =>
        match owned V uid d with
        | none => .error (.vault .error)
        | some doc => .ok (doc, tools)

/-- the update of `mark`, which raises where there is no document any more -/
def markFinish (c : Commit) (draw : Draw) (v : Verdict) (tools : List (String × String)) (read : Document)
    (d : Option Document) : Except VaultExn (Option ConnectionRecord) × Option Document :=
  let e := d.map fun doc => { doc with record := marked doc.record v tools draw }
  match c, d with
  | .done, none => (.error (.fault .failed), none)
  | .done, some _ =>
    match publicRecord (marked read.record v tools draw) with
    | some record => (.ok (some record), e)
    | none => (.error (.vault .error), e)
  | .raised applied f, _ => (.error (.fault f), if applied then e else d)

/-- `mark`, with nothing in between -/
def mark (reading : Option Fault) (i : WriteInput) (v : Verdict) (d : Option Document) :
    Except VaultExn (Option ConnectionRecord) × Option Document :=
  match markStart V uid connectorId reading v d with
  | .error x => (.error x, d)
  | .ok (doc, tools) => markFinish i.commit i.draw v tools doc d

/-! ## Disconnecting -/

/-- `begin` of a disconnect -/
def disconnectTransaction (draw : Draw) (d : Option Document) : Except VaultExn (Option Document × Option Document) :=
  match owned V uid d with
  | none => .ok (none, d)
  | some doc =>
    if Disconnectable doc.record draw.now then stores doc (disconnecting doc.record draw) else .error (.vault .busy)

/-- `begin_disconnect` -/
def beginDisconnect (i : WriteInput) (d : Option Document) : Except VaultExn (Option StoredConnection) × Option Document :=
  if !isConnectorId connectorId then (.error (.vault .error), d)
  else openAnswer V uid connectorId i.opening (transact i.commit d (disconnectTransaction V uid i.draw d))

/-- `remove` -/
def deleteTransaction (generation : Option String) (requireDisconnect : Bool) (d : Option Document) :
    Except VaultExn (Bool × Option Document) :=
  match owned V uid d with
  | none => .ok (false, d)
  | some doc => if Deletable doc.record generation requireDisconnect then .ok (true, none) else .ok (false, d)

/-- `delete` -/
def delete (i : WriteInput) (generation : Option String) (requireDisconnect : Bool) (d : Option Document) :
    Except VaultExn Bool × Option Document :=
  if !isConnectorId connectorId then (.error (.vault .error), d)
  else transact i.commit d (deleteTransaction V uid generation requireDisconnect d)

end Operations

end Rally.Cloud.Vault
