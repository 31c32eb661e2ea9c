/-
The credential vault in memory (`MemoryConnectorVault` of `cloud/credential_vault.py`), for tests and local demos: what
each operation does to the item of one connection. An operation holds the lock of the vault all along.
-/
import Rally.Cloud.GoogleVault

namespace Rally.Cloud.MemoryVault

open Vault

/-- what an operation of a vault may raise -/
inductive Raised where
  | vault (e : VaultError)
  | fault (f : Fault)
  | typeError
deriving DecidableEq, Repr

section Operations

variable (connectorId : String) (draw : Draw)

/-- `put` -/
def put (secret : ConnectorSecret) (d : Option StoredConnection) :
    Except Raised (Option ConnectionRecord) × Option StoredConnection :=
  if !isConnectorId connectorId then (.error (.vault .error), d)
  else
    match d with
    | some _ => (.error (.vault .conflict), d)
    | none => (.ok (some (newRecord connectorId secret draw)), some ⟨newRecord connectorId secret draw, secret⟩)

/-- `get_connection` -/
def getConnection (d : Option StoredConnection) : Except Raised (Option StoredConnection) :=
  if !isConnectorId connectorId then .error (.vault .error) else .ok d

/-- `get_secret` -/
def getSecret (d : Option StoredConnection) : Except Raised (Option ConnectorSecret) :=
  (getConnection connectorId d).map (Option.map StoredConnection.secret)

/-- the item, where it is ready and under this generation and lease -/
def presenting (generation lease : String) (d : Option StoredConnection) : Option StoredConnection :=
  d.filter fun item => UnderLease item.record generation lease

/-- `rotate` -/
def rotate (generation lease : String) (expected secret : ConnectorSecret) (d : Option StoredConnection) :
    Except Raised (Option ConnectionRecord) × Option StoredConnection :=
  if !isConnectorId connectorId then (.error (.vault .error), d)
  else if secret.kind ≠ expected.kind then (.ok none, d)
  else
    match presenting generation lease d with
    | none => (.ok none, d)
    | some current =>
      match sameSecret current.secret expected with
      | none => (.error .typeError, d)
      | some false => (.ok none, d)
      | some true =>
        let record :=
          { current.record with
            credentialKind := kindText secret.kind
            credentialGeneration := draw.fresh
            updatedAt := draw.nowText }
        (.ok (some record), some ⟨record, secret⟩)

/-- `quarantine` -/
def quarantine (generation lease errorCode : String) (expected : ConnectorSecret) (d : Option StoredConnection) :
    Except Raised Bool × Option StoredConnection :=
  if !isConnectorId connectorId then (.error (.vault .error), d)
  else
    match presenting generation lease d with
    | none => (.ok false, d)
    | some current =>
      match sameSecret current.secret expected with
      | none => (.error .typeError, d)
      | some false => (.ok false, d)
      | some true => (.ok true, some { current with record := demoted current.record errorCode draw })

/-- `begin_verification` -/
def beginVerification (generation : String) (d : Option StoredConnection) :
    Except Raised (Option ConnectionRecord) × Option StoredConnection :=
  if !isConnectorId connectorId then (.error (.vault .error), d)
  else
    match d with
    | none => (.ok none, none)
    | some current =>
      if Verifiable current.record generation draw.now then
        (.ok (some (verifying current.record draw)), some { current with record := verifying current.record draw })
      else (.ok none, d)

/-- `finish_verification`: the certificate is checked before the status -/
def finishVerification (L : Libs) (generation lease : String) (v : Verdict) (d : Option StoredConnection) :
    Except Raised (Option ConnectionRecord) × Option StoredConnection :=
  match validateCertification L v with
  | .error e => (.error (.vault e), d)
  | .ok tools =>
    if v.status ∉ outcomes then (.error (.vault .error), d)
    else if !isConnectorId connectorId then (.error (.vault .error), d)
    else
      match d with
      | none => (.ok none, none)
      | some current =>
        if Finishable current.record generation lease then
          (.ok (some (judged current.record v tools draw)),
            some { current with record := judged current.record v tools draw })
        else (.ok none, d)

/-- `claim_execution` -/
def claimExecution (d : Option StoredConnection) : Except Raised (Option StoredConnection) × Option StoredConnection :=
  if !isConnectorId connectorId then (.error (.vault .error), d)
  else
    match d with
    | none => (.ok none, none)
    | some current =>
      if current.record.status ≠ "ready" then (.ok none, d)
      else if leaseIsActive current.record draw.now then (.error (.vault .busy), d)
      else
        let claimed := { current with record := leased current.record draw }
        (.ok (some claimed), some claimed)

/-- `release_execution` -/
def releaseExecution (lease : String) (d : Option StoredConnection) : Except Raised Bool × Option StoredConnection :=
  if !isConnectorId connectorId then (.error (.vault .error), d)
  else
    match d with
    | none => (.ok false, none)
    | some current =>
      if current.record.executionLease ≠ some lease then (.ok false, d)
      else (.ok true, some { current with record := unleased current.record draw })

/-- `begin_disconnect` -/
def beginDisconnect (d : Option StoredConnection) : Except Raised (Option StoredConnection) × Option StoredConnection :=
  if !isConnectorId connectorId then (.error (.vault .error), d)
  else
    match d with
    | none => (.ok none, none)
    | some current =>
      if Disconnectable current.record draw.now then
        let disconnected := { current with record := disconnecting current.record draw }
        (.ok (some disconnected), some disconnected)
      else (.error (.vault .busy), d)

/-- `mark` -/
def mark (L : Libs) (v : Verdict) (d : Option StoredConnection) :
    Except Raised (Option ConnectionRecord) × Option StoredConnection :=
  if !isConnectorId connectorId then (.error (.vault .error), d)
  else
    match markTools L v with
    | .error e => (.error (.vault e), d)
    | .ok tools =>
      match d with
      | none => (.error (.vault .error), none)
      | some current =>
        (.ok (some (judged current.record v tools draw)),
          some { current with record := judged current.record v tools draw })

/-- `delete` -/
def delete (generation : Option String) (requireDisconnect : Bool) (d : Option StoredConnection) :
    Except Raised Bool × Option StoredConnection :=
  if !isConnectorId connectorId then (.error (.vault .error), d)
  else
    match d with
    | none => (.ok false, none)
    | some current => if Deletable current.record generation requireDisconnect then (.ok true, none) else (.ok false, d)

end Operations

end Rally.Cloud.MemoryVault
