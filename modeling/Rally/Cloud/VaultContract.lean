/-
The two credential vaults (`MemoryConnectorVault` and `GoogleKmsConnectorVault` of `cloud/credential_vault.py`) as two
answers to one list of calls.

- `inMemory`, `inFirestore`: one operation on one connection. `MemoryStore.answer`, `FirestoreStore.answer`: one call.
- `Same`: an item and a document that stand for each other. `op_parallel`: one operation keeps them so, and is answered
  alike exactly where it is `Fine`.
- `vaults_agree`: two histories agree exactly if every call is fine where it stands. `vaults_part` is one that is not.
-/
import Rally.Cloud.MemoryVault
import Rally.Core.Lockstep
import Rally.Core.Renaming

namespace Rally.Cloud.Vaults

open Vault MemoryVault

/-! ## Calls -/

/-- an operation on one connection -/
inductive Op where
  | put (secret : ConnectorSecret)
  | getSecret
  | getConnection
  | rotate (generation lease : String) (expected secret : ConnectorSecret)
  | quarantine (generation lease errorCode : String) (expected : ConnectorSecret)
  | beginVerification (generation : String)
  | finishVerification (generation lease : String) (v : Verdict)
  | claimExecution
  | releaseExecution (lease : String)
  | beginDisconnect
  | mark (v : Verdict)
  | delete (generation : Option String) (requireDisconnect : Bool)
deriving DecidableEq

/-- what an operation answers with -/
inductive Answer where
  | record (record : Option ConnectionRecord)
  | records (records : List ConnectionRecord)
  | secret (secret : Option ConnectorSecret)
  | connection (stored : Option StoredConnection)
  | done (done : Bool)
deriving DecidableEq

abbrev Reply := Except Raised Answer

/-- the secret that an operation stores -/
def Op.stored : Op → Option ConnectorSecret
  | .put secret => some secret
  | .rotate _ _ _ secret => some secret
  | _ => none

def raised : VaultExn → Raised
  | .vault e => .vault e
  | .fault f => .fault f

/-! ## One connection -/

def answering {α D : Type} (f : α → Answer) (x : Except Raised α × D) : Reply × D := (x.1.map f, x.2)

def answeringExn {α D : Type} (f : α → Answer) (x : Except VaultExn α × D) : Reply × D :=
  answering f (x.1.mapError raised, x.2)

/-- an operation of the vault in memory -/
def inMemory (L : Libs) (connectorId : String) (draw : Draw) (op : Op) (d : Option StoredConnection) :
    Reply × Option StoredConnection :=
  match op with
  | .put secret => answering .record (MemoryVault.put connectorId draw secret d)
  | .getSecret => answering .secret (MemoryVault.getSecret connectorId d, d)
  | .getConnection => answering .connection (MemoryVault.getConnection connectorId d, d)
  | .rotate generation lease expected secret =>
    answering .record (MemoryVault.rotate connectorId draw generation lease expected secret d)
  | .quarantine generation lease errorCode expected =>
    answering .done (MemoryVault.quarantine connectorId draw generation lease errorCode expected d)
  | .beginVerification generation => answering .record (MemoryVault.beginVerification connectorId draw generation d)
  | .finishVerification generation lease v =>
    answering .record (MemoryVault.finishVerification connectorId draw L generation lease v d)
  | .claimExecution => answering .connection (MemoryVault.claimExecution connectorId draw d)
  | .releaseExecution lease => answering .done (MemoryVault.releaseExecution connectorId draw lease d)
  | .beginDisconnect => answering .connection (MemoryVault.beginDisconnect connectorId draw d)
  | .mark v => answering .record (MemoryVault.mark connectorId draw L v d)
  | .delete generation requireDisconnect =>
    answering .done (MemoryVault.delete connectorId generation requireDisconnect d)

/-- what Firestore and KMS do to an operation -/
structure Services extends WriteInput where
  reading : Option Fault

/-- an operation of the vault in Firestore, where `mark` has nothing in between -/
def inFirestore (V : Platform) (uid connectorId : String) (i : Services) (op : Op) (d : Option Document) :
    Reply × Option Document :=
  match op with
  | .put secret => answeringExn .record (Vault.put V uid connectorId i.toWriteInput secret d)
  | .getSecret => answeringExn .secret (Vault.getSecret V uid connectorId ⟨i.reading, i.opening⟩ d, d)
  | .getConnection => answeringExn .connection (Vault.getConnection V uid connectorId ⟨i.reading, i.opening⟩ d, d)
  | .rotate generation lease expected secret =>
    answeringExn .record (Vault.rotate V uid connectorId i.toWriteInput generation lease expected secret d)
  | .quarantine generation lease errorCode expected =>
    answeringExn .done (Vault.quarantine V uid connectorId i.toWriteInput generation lease errorCode expected d)
  | .beginVerification generation =>
    answeringExn .record (Vault.beginVerification V uid connectorId i.toWriteInput generation d)
  | .finishVerification generation lease v =>
    answeringExn .record (Vault.finishVerification V uid connectorId i.toWriteInput generation lease v d)
  | .claimExecution =>
    answeringExn .connection (Vault.claimExecution V uid connectorId ⟨i.draw, i.commit, i.opening⟩ d)
  | .releaseExecution lease => answeringExn .done (Vault.releaseExecution V uid connectorId i.toWriteInput lease d)
  | .beginDisconnect => answeringExn .connection (Vault.beginDisconnect V uid connectorId i.toWriteInput d)
  | .mark v => answeringExn .record (Vault.mark V uid connectorId i.reading i.toWriteInput v d)
  | .delete generation requireDisconnect =>
    answeringExn .done (Vault.delete V uid connectorId i.toWriteInput generation requireDisconnect d)

/-! ## Stores -/

/-- a user's call -/
inductive Call where
  | list (uid : String)
  | on (uid connectorId : String) (op : Op)
deriving DecidableEq

/-- a call with the clock and the random texts that it draws -/
structure Request where
  draw : Draw
  random : String
  call : Call

/-- `_items` -/
abbrev MemoryStore := List ((String × String) × StoredConnection)

/-- the collection of documents -/
abbrev FirestoreStore := List (String × Document)

/-- a platform with the order in which a query goes through documents -/
structure Google extends Kms where
  stream : List Document → List Document

/-- `_document_id` -/
def documentId (L : Libs) (key : String × String) : String := L.sha256 (key.1 ++ "\x00" ++ key.2)

def MemoryStore.answer (L : Libs) (s : MemoryStore) (q : Request) : Reply × MemoryStore :=
  match q.call with
  | .list uid =>
    let records := (s.filter fun item => item.1.1 = uid).map fun item => item.2.record
    (.ok (.records (records.insertionSort fun a b => a.connectorId ≤ b.connectorId)), s)
  | .on uid connectorId op =>
    let (reply, item) := inMemory L connectorId q.draw op (Dict.get? s (uid, connectorId))
    (reply, Dict.assign s (uid, connectorId) item)

/-- services that work -/
def working (K : Kms) (uid connectorId : String) (draw : Draw) (random : String) (op : Op) : Services where
  draw := draw
  sealing :=
    match op.stored with
    | some secret => sealed K uid connectorId random secret
    | none => .error (.vault .error)
  commit := .done
  opening := none
  reading := none

def FirestoreStore.answer (G : Google) (s : FirestoreStore) (q : Request) : Reply × FirestoreStore :=
  match q.call with
  | .list uid => answeringExn .records (Vault.list G.toPlatform uid (G.stream (s.map Prod.snd)), s)
  | .on uid connectorId op =>
    let id := documentId G.libs (uid, connectorId)
    let i := working G.toKms uid connectorId q.draw q.random op
    let (reply, document) := inFirestore G.toPlatform uid connectorId i op (Dict.get? s id)
    (reply, Dict.assign s id document)

/-! ## Calls that are fine -/

/-- the credentials that `hmac.compare_digest` gets to see are texts that it takes -/
def Comparable (generation lease : String) (expected : ConnectorSecret) (d : Option StoredConnection) : Prop :=
  ∀ current ∈ presenting generation lease d, current.secret.kind = expected.kind →
    isAscii current.secret.value = true ∧ isAscii expected.value = true

/-- the operations that both vaults answer alike: they seal no credential whose text is too long, compare only ASCII
texts, and mark no connection that is there with a count of tools but not ready -/
def Fine (L : Libs) (connectorId : String) (op : Op) (d : Option StoredConnection) : Prop :=
  isConnectorId connectorId = true →
    match op with
    | .put secret => Sealable L secret
    | .rotate generation lease expected secret =>
      Sealable L secret ∧ (secret.kind = expected.kind → Comparable generation lease expected d)
    | .quarantine generation lease _ expected => Comparable generation lease expected d
    | .mark v =>
      (markTools L v).toOption.isSome = true → d.isSome = true → v.status = "ready" ∨ v.certificate.toolCount = 0
    | _ => True

instance (generation lease : String) (expected : ConnectorSecret) (d : Option StoredConnection) :
    Decidable (Comparable generation lease expected d) :=
  match h : presenting generation lease d with
  | none => isTrue (by simp [Comparable, h])
  | some current =>
    decidable_of_iff (current.secret.kind = expected.kind →
      isAscii current.secret.value = true ∧ isAscii expected.value = true) (by simp [Comparable, h])

instance (L : Libs) (connectorId : String) (op : Op) (d : Option StoredConnection) :
    Decidable (Fine L connectorId op d) := by
  unfold Fine
  cases op <;> infer_instance

/-- the calls that both vaults answer alike -/
def Alike (L : Libs) (s : MemoryStore) (q : Request) : Prop :=
  match q.call with
  | .list _ => True
  | .on uid connectorId op => Fine L connectorId op (Dict.get? s (uid, connectorId))

instance (L : Libs) (s : MemoryStore) (q : Request) : Decidable (Alike L s q) := by
  unfold Alike
  split <;> infer_instance

/-! ## The same connection -/

theorem validate_error {L : Libs} {v : Verdict} {x : VaultError} (h : validateCertification L v = .error x) :
    x = .error := by
  unfold validateCertification at h
  split at h
  · rename_i y hnormal
    cases h
    unfold normalizeCertifiedTools at hnormal
    simp only at hnormal
    split_ifs at hnormal <;> cases hnormal <;> rfl
  · split_ifs at h
    cases h
    rfl

theorem markTools_ok {L : Libs} {v : Verdict} {tools : List (String × String)} (h : markTools L v = .ok tools) :
    validateCertification L v = .ok tools := by
  unfold markTools at h
  split_ifs at h
  exact h

/-- the two vaults mark a connection alike only if it is ready or has no count of tools -/
theorem judged_eq_marked_iff (record : ConnectionRecord) (v : Verdict) (tools : List (String × String)) (draw : Draw) :
    judged record v tools draw = marked record v tools draw ↔ v.status = "ready" ∨ v.certificate.toolCount = 0 := by
  have hcount : judged record v tools draw = marked record v tools draw ↔
      (v.kept tools).toolCount = v.certificate.toolCount := by
    refine ⟨fun h => congrArg ConnectionRecord.toolCount h, fun h => ?_⟩
    unfold marked
    rw [← h]
    rfl
  rw [hcount]
  unfold Verdict.kept
  split_ifs with hstatus
  · simp [hstatus]
  · simp [hstatus, eq_comm]

/-- the tools that a verdict keeps are in order -/
theorem kept_tools (v : Verdict) {tools : List (String × String)} (h : normalizeCertifiedTools tools = .ok tools) :
    normalizeCertifiedTools (v.kept tools).certifiedTools = .ok (v.kept tools).certifiedTools := by
  unfold Verdict.kept
  split_ifs
  · exact h
  · exact normalize_nil

/-- the services do what they are for: a sealed text opens, and a query leaves no document out -/
structure Works (G : Google) : Prop where
  opens : ∀ random text data, G.openEnvelope (G.sealEnvelope random text data) data = some text
  streams : ∀ docs, (G.stream docs).Perm docs

/-- the JSON of a credential is read as it was written -/
def Reads (L : Libs) (secret : ConnectorSecret) : Prop :=
  L.loads (payload L secret) = .value (.dict [("kind", .str (kindText secret.kind)), ("value", .str secret.value)])

/-- an item and a document that stand for each other -/
structure Same (V : Platform) (key : String × String) (item : StoredConnection) (doc : Document) : Prop where
  owner : doc.ownerHash = ownerHash V key.1
  record : doc.record = item.record
  secret : openSecret V key.1 key.2 doc = some item.secret
  connector : item.record.connectorId = key.2
  valid : isConnectorId key.2 = true
  tools : normalizeCertifiedTools item.record.certifiedTools = .ok item.record.certifiedTools

/-- two runs of an operation: they answer alike exactly under the condition, and then leave the same -/
structure Parallel (V : Platform) (key : String × String) {α : Type} (cond : Prop)
    (x : Except Raised α × Option StoredConnection) (y : Except VaultExn α × Option Document) : Prop where
  reply : x.1 = y.1.mapError raised ↔ cond
  keeps : cond → Option.Rel (Same V key) x.2 y.2

section Same

variable {V : Platform} {uid connectorId : String} {item : StoredConnection} {doc : Document}
  {d : Option StoredConnection} {e : Option Document} {α : Type}

theorem publicRecord_valid {record : ConnectionRecord} (hid : isConnectorId record.connectorId = true)
    (htools : normalizeCertifiedTools record.certifiedTools = .ok record.certifiedTools) :
    publicRecord record = some record := by
  simp [publicRecord, hid, htools]

theorem Same.shape (h : Same V (uid, connectorId) item doc) :
    doc = ⟨ownerHash V uid, item.record, doc.envelope⟩ := by
  rw [← h.record, ← h.owner]

theorem Same.publicRecord_eq (h : Same V (uid, connectorId) item doc) : publicRecord doc.record = some item.record := by
  rw [h.record]
  exact publicRecord_valid (h.connector ▸ h.valid) h.tools

theorem Same.open_eq (h : Same V (uid, connectorId) item doc) : openDocument V uid connectorId doc = some item := by
  unfold openDocument
  rw [h.secret, h.publicRecord_eq]

/-- a new record for the same credential -/
theorem Same.update (h : Same V (uid, connectorId) item doc) {record : ConnectionRecord}
    (hid : record.connectorId = item.record.connectorId)
    (htools : normalizeCertifiedTools record.certifiedTools = .ok record.certifiedTools) :
    Same V (uid, connectorId) { item with record := record } { doc with record := record } where
  owner := h.owner
  record := rfl
  secret := h.secret
  connector := hid.trans h.connector
  valid := h.valid
  tools := htools

theorem Same.owned_eq (h : Same V (uid, connectorId) item doc) : owned V uid (some doc) = some doc := by
  simp [owned, Option.filter, h.owner]

theorem Parallel.of_eq {x : Except Raised α × Option StoredConnection} {y : Except VaultExn α × Option Document}
    (hreply : x.1 = y.1.mapError raised) (hkeeps : Option.Rel (Same V (uid, connectorId)) x.2 y.2) :
    Parallel V (uid, connectorId) True x y := ⟨iff_of_true hreply trivial, fun _ => hkeeps⟩

theorem Parallel.of_ne {x : Except Raised α × Option StoredConnection} {y : Except VaultExn α × Option Document}
    {cond : Prop} (hreply : x.1 ≠ y.1.mapError raised) (hcond : ¬ cond) : Parallel V (uid, connectorId) cond x y :=
  ⟨iff_of_false hreply hcond, fun h => absurd h hcond⟩

theorem Parallel.congr {x : Except Raised α × Option StoredConnection} {y : Except VaultExn α × Option Document}
    {cond cond' : Prop} (h : Parallel V (uid, connectorId) cond x y) (hcond : cond' ↔ cond) :
    Parallel V (uid, connectorId) cond' x y := ⟨h.reply.trans hcond.symm, fun h' => h.keeps (hcond.1 h')⟩

/-- the same record stored and answered with by both -/
theorem Parallel.stored {record : ConnectionRecord} {secret : ConnectorSecret}
    (h : Same V (uid, connectorId) ⟨record, secret⟩ { doc with record := record }) (e : Option Document) :
    Parallel V (uid, connectorId) True (.ok (some record), some ⟨record, secret⟩)
      (publicAnswer (transact .done e (stores doc record))) := by
  have hpublic := h.publicRecord_eq
  refine .of_eq ?_ ?_
  · simp [transact, stores, publicAnswer, hpublic, Except.mapError]
  · simp [transact, stores, publicAnswer, hpublic, h]

/-- the same, with the credential -/
theorem Parallel.opened {record : ConnectionRecord} {secret : ConnectorSecret}
    (h : Same V (uid, connectorId) ⟨record, secret⟩ { doc with record := record }) (e : Option Document) :
    Parallel V (uid, connectorId) True (.ok (some ⟨record, secret⟩), some ⟨record, secret⟩)
      (openAnswer V uid connectorId none (transact .done e (stores doc record))) := by
  have hopen := h.open_eq
  refine .of_eq ?_ ?_
  · simp [transact, stores, openAnswer, hopen, Except.mapError]
  · simp [transact, stores, openAnswer, hopen, h]

end Same

/-! ## One operation -/

section Parallel

variable {G : Google} {uid connectorId : String} {draw : Draw} {random : String} {d : Option StoredConnection}
  {e : Option Document}

/-- an envelope that opens with the JSON of a credential has the credential -/
theorem openSecret_payload {V : Platform} {secret : ConnectorSecret} (doc : Document) (hreads : Reads V.libs secret)
    (h : V.openEnvelope doc.envelope (associatedData uid connectorId) = some (payload V.libs secret)) :
    openSecret V uid connectorId doc = some secret := by
  have hkind : secretKind (kindText secret.kind) = some secret.kind := by
    cases secret.kind <;> rfl
  have hmake : ConnectorSecret.make secret.value secret.kind = some secret := by
    unfold ConnectorSecret.make
    rw [dif_pos secret.sound]
  unfold Reads at hreads
  simp [openSecret, secretOf, h, hreads, hkind, hmake, List.lookup_cons]

/-- the parts of a document that opens -/
theorem openDocument_some {V : Platform} {doc : Document} {stored : StoredConnection}
    (h : openDocument V uid connectorId doc = some stored) :
    openSecret V uid connectorId doc = some stored.secret ∧ publicRecord doc.record = some stored.record := by
  rw [openDocument] at h
  split at h
  · rename_i hsecret hrecord
    cases h
    exact ⟨hsecret, hrecord⟩
  · cases h

/-- a sealed credential opens -/
theorem Works.openSecret_sealed (hG : Works G) (doc : Document) {secret : ConnectorSecret} (hreads : Reads G.libs secret)
    (h : doc.envelope = G.sealEnvelope random (payload G.libs secret) (associatedData uid connectorId)) :
    openSecret G.toPlatform uid connectorId doc = some secret :=
  openSecret_payload doc hreads (by rw [h, hG.opens])

/-- what `put` stores in both vaults -/
theorem same_new (hG : Works G) (hid : isConnectorId connectorId = true) (draw : Draw) {secret : ConnectorSecret}
    (hreads : Reads G.libs secret) :
    Same G.toPlatform (uid, connectorId) ⟨newRecord connectorId secret draw, secret⟩
      ⟨ownerHash G.toPlatform uid, newRecord connectorId secret draw,
        G.sealEnvelope random (payload G.libs secret) (associatedData uid connectorId)⟩ where
  owner := rfl
  record := rfl
  secret := hG.openSecret_sealed _ hreads rfl
  connector := rfl
  valid := hid
  tools := normalize_nil

theorem put_parallel (hG : Works G) (hid : isConnectorId connectorId = true) {i : WriteInput} {secret : ConnectorSecret}
    (hreads : Reads G.libs secret) (hsealing : i.sealing = sealed G.toKms uid connectorId random secret)
    (hcommit : i.commit = .done) (h : Option.Rel (Same G.toPlatform (uid, connectorId)) d e) :
    Parallel G.toPlatform (uid, connectorId) (Sealable G.libs secret) (MemoryVault.put connectorId i.draw secret d)
      (Vault.put G.toPlatform uid connectorId i secret e) := by
  unfold MemoryVault.put Vault.put
  simp only [hid, hsealing, hcommit, sealed, Bool.not_true, Bool.false_eq_true, if_false]
  by_cases hsealable : Sealable G.libs secret
  · simp only [if_pos hsealable]
    refine Parallel.congr ?_ (iff_true_intro hsealable)
    cases h with
    | some hsame => exact .of_eq rfl (.some hsame)
    | none => exact Parallel.stored (same_new hG hid i.draw hreads) none
  · simp only [if_neg hsealable]
    refine .of_ne ?_ hsealable
    cases d <;> simp [Except.mapError, raised]

/-! ### Operations under a lease -/

section Lease

variable {generation lease : String} {expected : ConnectorSecret} {item : StoredConnection} {doc : Document}

theorem comparable_iff (expected : ConnectorSecret) (h : MemoryVault.presenting generation lease d = some item) :
    Comparable generation lease expected d ↔ (sameSecret item.secret expected).isSome = true := by
  unfold Comparable sameSecret compareDigest
  simp only [h, Option.mem_some, forall_eq']
  by_cases hkind : item.secret.kind = expected.kind
  · simp only [hkind, forall_const, if_true, ← Bool.and_eq_true]
    cases isAscii item.secret.value && isAscii expected.value <;> simp
  · simp [hkind]

theorem comparable_none (h : MemoryVault.presenting generation lease d = none) :
    Comparable generation lease expected d := by
  simp [Comparable, h]

/-- both vaults find the connection under the lease, or both do not -/
theorem presenting_same (h : Same G.toPlatform (uid, connectorId) item doc) :
    (MemoryVault.presenting generation lease (some item) = some item ∧
        Vault.presenting G.toPlatform uid connectorId none generation lease (some doc) = .ok (some (doc, item.secret))) ∨
      (MemoryVault.presenting generation lease (some item) = none ∧
        Vault.presenting G.toPlatform uid connectorId none generation lease (some doc) = .ok none) := by
  have hpresents : Presents G.toPlatform uid doc generation lease ↔ UnderLease item.record generation lease := by
    unfold Presents UnderLease
    rw [h.record, h.owner]
    exact and_iff_right rfl
  by_cases hlease : UnderLease item.record generation lease
  · left
    simp [MemoryVault.presenting, Vault.presenting, hpresents, hlease, h.secret, Option.filter]
  · right
    simp [MemoryVault.presenting, Vault.presenting, hpresents, hlease, Option.filter]

/-- without a connection under the lease, both vaults go on alike -/
theorem presenting_parallel (generation lease : String) (h : Option.Rel (Same G.toPlatform (uid, connectorId)) d e) :
    (∃ item doc, d = some item ∧ e = some doc ∧ Same G.toPlatform (uid, connectorId) item doc ∧
        MemoryVault.presenting generation lease d = some item ∧
        Vault.presenting G.toPlatform uid connectorId none generation lease e = .ok (some (doc, item.secret))) ∨
      (MemoryVault.presenting generation lease d = none ∧
        Vault.presenting G.toPlatform uid connectorId none generation lease e = .ok none) := by
  cases h with
  | none => exact .inr ⟨rfl, rfl⟩
  | some hsame => exact (presenting_same hsame).imp (fun h => ⟨_, _, rfl, rfl, hsame, h⟩) id

/-- what `rotate` stores in both vaults -/
theorem same_rotated (hG : Works G) (h : Same G.toPlatform (uid, connectorId) item doc) (random : String) (draw : Draw)
    {secret : ConnectorSecret} (hreads : Reads G.libs secret) :
    Same G.toPlatform (uid, connectorId)
      ⟨{ item.record with
          credentialKind := kindText secret.kind
          credentialGeneration := draw.fresh
          updatedAt := draw.nowText }, secret⟩
      (rotated doc secret (G.sealEnvelope random (payload G.libs secret) (associatedData uid connectorId)) draw) where
  owner := h.owner
  record := by simp [rotated, h.record]
  secret := hG.openSecret_sealed _ hreads rfl
  connector := h.connector
  valid := h.valid
  tools := h.tools

theorem rotate_parallel (hG : Works G) (hid : isConnectorId connectorId = true) {i : WriteInput}
    {secret : ConnectorSecret} (hreads : Reads G.libs secret) (hsealing : i.sealing = sealed G.toKms uid connectorId random secret)
    (hcommit : i.commit = .done) (hopening : i.opening = none)
    (h : Option.Rel (Same G.toPlatform (uid, connectorId)) d e) :
    Parallel G.toPlatform (uid, connectorId)
      (Sealable G.libs secret ∧ (secret.kind = expected.kind → Comparable generation lease expected d))
      (MemoryVault.rotate connectorId i.draw generation lease expected secret d)
      (Vault.rotate G.toPlatform uid connectorId i generation lease expected secret e) := by
  unfold MemoryVault.rotate Vault.rotate rotateTransaction
  simp only [hid, hsealing, hcommit, hopening, sealed, Bool.not_true, Bool.false_eq_true, if_false]
  by_cases hsealable : Sealable G.libs secret
  · simp only [hsealable, if_true, true_and]
    rcases presenting_parallel generation lease h with
      ⟨item, doc, rfl, rfl, hsame, hitem, hdoc⟩ | ⟨hitem, hdoc⟩
    · have hcomparable := comparable_iff expected hitem
      simp only [hitem, hdoc]
      by_cases hkind : secret.kind = expected.kind
      · simp only [if_neg (not_not.2 hkind), forall_prop_of_true hkind]
        cases hcompare : sameSecret item.secret expected with
        | none => exact .of_ne (by simp [transact, Except.mapError, raised]) (by simp [hcomparable, hcompare])
        | some same =>
          refine Parallel.congr ?_ (iff_true_intro (hcomparable.2 (by simp [hcompare])))
          cases same with
          | false => exact .of_eq rfl (.some hsame)
          | true =>
            have hnew := same_rotated hG hsame random i.draw hreads
            have hpublic := hnew.publicRecord_eq
            exact .of_eq (by simp [transact, hpublic, Except.mapError]) (by simp [transact, hpublic, hnew])
      · simp only [if_pos hkind, ne_eq]
        exact Parallel.congr (.of_eq rfl (.some hsame)) (iff_true_intro fun h => absurd h hkind)
    · simp only [hitem, hdoc, ite_self]
      exact Parallel.congr (.of_eq rfl h) (iff_true_intro fun _ => comparable_none hitem)
  · simp only [if_neg hsealable]
    refine .of_ne ?_ fun h => hsealable h.1
    split_ifs
    · simp [Except.mapError]
    · split
      · simp [Except.mapError]
      · split <;> simp [Except.mapError, raised]

theorem quarantine_parallel (hid : isConnectorId connectorId = true) {i : WriteInput} {errorCode : String}
    (hcommit : i.commit = .done) (hopening : i.opening = none)
    (h : Option.Rel (Same G.toPlatform (uid, connectorId)) d e) :
    Parallel G.toPlatform (uid, connectorId) (Comparable generation lease expected d)
      (MemoryVault.quarantine connectorId i.draw generation lease errorCode expected d)
      (Vault.quarantine G.toPlatform uid connectorId i generation lease errorCode expected e) := by
  unfold MemoryVault.quarantine Vault.quarantine quarantineTransaction
  simp only [hid, hcommit, hopening, Bool.not_true, Bool.false_eq_true, if_false]
  rcases presenting_parallel generation lease h with
    ⟨item, doc, rfl, rfl, hsame, hitem, hdoc⟩ | ⟨hitem, hdoc⟩
  · have hcomparable := comparable_iff expected hitem
    simp only [hitem, hdoc, hsame.record]
    cases hcompare : sameSecret item.secret expected with
    | none => exact .of_ne (by simp [transact, Except.mapError, raised]) (by simp [hcomparable, hcompare])
    | some same =>
      refine Parallel.congr ?_ (iff_true_intro (hcomparable.2 (by simp [hcompare])))
      cases same with
      | false => exact .of_eq rfl (.some hsame)
      | true => exact .of_eq rfl (.some (hsame.update rfl normalize_nil))
  · simp only [hitem, hdoc]
    exact Parallel.congr (.of_eq rfl h) (iff_true_intro (comparable_none hitem))

/-- both vaults find the connection of the user, or both do not -/
theorem owned_parallel (h : Option.Rel (Same G.toPlatform (uid, connectorId)) d e) :
    (∃ item envelope, d = some item ∧ e = some ⟨ownerHash G.toPlatform uid, item.record, envelope⟩ ∧
        Same G.toPlatform (uid, connectorId) item ⟨ownerHash G.toPlatform uid, item.record, envelope⟩ ∧
        owned G.toPlatform uid e = e) ∨ (d = none ∧ e = none ∧ owned G.toPlatform uid e = none) := by
  cases h with
  | none => exact .inr ⟨rfl, rfl, rfl⟩
  | @some item doc hsame => exact .inl ⟨item, doc.envelope, rfl, congrArg some hsame.shape, hsame.shape ▸ hsame, hsame.owned_eq⟩

theorem release_parallel (hid : isConnectorId connectorId = true) {i : WriteInput} (hcommit : i.commit = .done)
    (h : Option.Rel (Same G.toPlatform (uid, connectorId)) d e) :
    Parallel G.toPlatform (uid, connectorId) True (MemoryVault.releaseExecution connectorId i.draw lease d)
      (Vault.releaseExecution G.toPlatform uid connectorId i lease e) := by
  unfold MemoryVault.releaseExecution Vault.releaseExecution releaseTransaction
  simp only [hid, hcommit, Bool.not_true, Bool.false_eq_true, if_false]
  rcases owned_parallel h with ⟨item, envelope, rfl, rfl, hsame, -⟩ | ⟨rfl, rfl, -⟩
  · by_cases hlease : item.record.executionLease = some lease
    · simp only [hlease, ne_eq, not_true, or_self, if_false]
      exact .of_eq rfl (.some (hsame.update rfl hsame.tools))
    · simp only [hlease, ne_eq, not_false_iff, or_true, if_true]
      exact .of_eq rfl (.some hsame)
  · exact .of_eq rfl .none

theorem finish_parallel (hid : isConnectorId connectorId = true) {i : WriteInput} (hcommit : i.commit = .done)
    (v : Verdict) (h : Option.Rel (Same G.toPlatform (uid, connectorId)) d e) :
    Parallel G.toPlatform (uid, connectorId) True
      (MemoryVault.finishVerification connectorId i.draw G.libs generation lease v d)
      (Vault.finishVerification G.toPlatform uid connectorId i generation lease v e) := by
  unfold MemoryVault.finishVerification Vault.finishVerification finishTools finishTransaction
  simp only [hid, hcommit, Bool.not_true, Bool.false_eq_true, if_false]
  cases hvalid : validateCertification G.libs v with
  | error x =>
    obtain rfl : x = .error := validate_error hvalid
    split_ifs <;> exact .of_eq rfl h
  | ok tools =>
    by_cases hstatus : v.status ∈ outcomes
    · simp only [hstatus, not_true, if_false]
      rcases owned_parallel h with ⟨item, envelope, rfl, rfl, hsame, howned⟩ | ⟨rfl, rfl, howned⟩
      · simp only [howned]
        split_ifs
        · refine .stored ?_ _
          exact hsame.update rfl (kept_tools v (validate_tools hvalid))
        · exact .of_eq rfl (.some hsame)
      · simp only [howned]
        exact .of_eq rfl .none
    · simp only [hstatus, not_false_iff, if_true]
      exact .of_eq rfl h

end Lease

/-! ### Other operations -/

theorem verify_parallel (hid : isConnectorId connectorId = true) {i : WriteInput} (hcommit : i.commit = .done)
    (generation : String) (h : Option.Rel (Same G.toPlatform (uid, connectorId)) d e) :
    Parallel G.toPlatform (uid, connectorId) True (MemoryVault.beginVerification connectorId i.draw generation d)
      (Vault.beginVerification G.toPlatform uid connectorId i generation e) := by
  unfold MemoryVault.beginVerification Vault.beginVerification verifyTransaction
  simp only [hid, hcommit, Bool.not_true, Bool.false_eq_true, if_false]
  rcases owned_parallel h with ⟨item, envelope, rfl, rfl, hsame, howned⟩ | ⟨rfl, rfl, howned⟩
  · simp only [howned]
    split_ifs
    · refine .stored ?_ _
      exact hsame.update rfl normalize_nil
    · exact .of_eq rfl (.some hsame)
  · simp only [howned]
    exact .of_eq rfl .none

theorem disconnect_parallel (hid : isConnectorId connectorId = true) {i : WriteInput} (hcommit : i.commit = .done)
    (hopening : i.opening = none) (h : Option.Rel (Same G.toPlatform (uid, connectorId)) d e) :
    Parallel G.toPlatform (uid, connectorId) True (MemoryVault.beginDisconnect connectorId i.draw d)
      (Vault.beginDisconnect G.toPlatform uid connectorId i e) := by
  unfold MemoryVault.beginDisconnect Vault.beginDisconnect disconnectTransaction
  simp only [hid, hcommit, hopening, Bool.not_true, Bool.false_eq_true, if_false]
  rcases owned_parallel h with ⟨item, envelope, rfl, rfl, hsame, howned⟩ | ⟨rfl, rfl, howned⟩
  · simp only [howned]
    split_ifs
    · refine .opened ?_ _
      exact hsame.update rfl normalize_nil
    · exact .of_eq rfl (.some hsame)
  · simp only [howned]
    exact .of_eq rfl .none

theorem claim_parallel (hid : isConnectorId connectorId = true) (draw : Draw)
    (h : Option.Rel (Same G.toPlatform (uid, connectorId)) d e) :
    Parallel G.toPlatform (uid, connectorId) True (MemoryVault.claimExecution connectorId draw d)
      (Vault.claimExecution G.toPlatform uid connectorId ⟨draw, .done, none⟩ e) := by
  unfold MemoryVault.claimExecution Vault.claimExecution claimTransaction
  simp only [hid, Bool.not_true, Bool.false_eq_true, if_false]
  rcases owned_parallel h with ⟨item, envelope, rfl, rfl, hsame, -⟩ | ⟨rfl, rfl, -⟩
  · by_cases hready : item.record.status = "ready"
    · simp only [hready, ne_eq, not_true, if_false]
      split_ifs
      · exact .of_eq rfl (.some hsame)
      · have hleased : Same G.toPlatform (uid, connectorId) { item with record := leased item.record draw }
            ⟨ownerHash G.toPlatform uid, leased item.record draw, envelope⟩ := hsame.update rfl hsame.tools
        exact .of_eq (by simp [transact, hleased.open_eq, Except.mapError]) (by simp [transact, hleased.open_eq, hleased])
    · simp only [hready, ne_eq, not_true, not_false_iff, if_false, if_true]
      exact .of_eq rfl (.some hsame)
  · exact .of_eq rfl .none

theorem delete_parallel (hid : isConnectorId connectorId = true) {i : WriteInput} (hcommit : i.commit = .done)
    (generation : Option String) (requireDisconnect : Bool)
    (h : Option.Rel (Same G.toPlatform (uid, connectorId)) d e) :
    Parallel G.toPlatform (uid, connectorId) True (MemoryVault.delete connectorId generation requireDisconnect d)
      (Vault.delete G.toPlatform uid connectorId i generation requireDisconnect e) := by
  unfold MemoryVault.delete Vault.delete deleteTransaction
  simp only [hid, hcommit, Bool.not_true, Bool.false_eq_true, if_false]
  rcases owned_parallel h with ⟨item, envelope, rfl, rfl, hsame, howned⟩ | ⟨rfl, rfl, howned⟩
  · simp only [howned]
    split_ifs
    · exact .of_eq rfl .none
    · exact .of_eq rfl (.some hsame)
  · simp only [howned]
    exact .of_eq rfl .none

/-- `mark` leaves the same where the connection is ready or has no count of tools -/
theorem mark_parallel (hid : isConnectorId connectorId = true) {i : WriteInput} (hcommit : i.commit = .done)
    (v : Verdict) (h : Option.Rel (Same G.toPlatform (uid, connectorId)) d e) :
    Parallel G.toPlatform (uid, connectorId)
      ((markTools G.libs v).toOption.isSome = true → d.isSome = true → v.status = "ready" ∨ v.certificate.toolCount = 0)
      (MemoryVault.mark connectorId i.draw G.libs v d) (Vault.mark G.toPlatform uid connectorId none i v e) := by
  unfold MemoryVault.mark Vault.mark markStart
  simp only [hid, Bool.not_true, Bool.false_eq_true, if_false]
  cases hvalid : markTools G.libs v with
  | error x => exact Parallel.congr (.of_eq rfl h) (iff_true_intro (by simp [Except.toOption]))
  | ok tools =>
    rcases owned_parallel h with ⟨item, envelope, rfl, rfl, hsame, howned⟩ | ⟨rfl, rfl, howned⟩
    · have htools := kept_tools v (validate_tools (markTools_ok hvalid))
      have hpublic : publicRecord (marked item.record v tools i.draw) = some (marked item.record v tools i.draw) :=
        publicRecord_valid (hsame.connector.symm ▸ hid) htools
      have hcond : ((Except.ok tools : Except VaultError _).toOption.isSome = true → (some item).isSome = true →
          v.status = "ready" ∨ v.certificate.toolCount = 0) ↔
            judged item.record v tools i.draw = marked item.record v tools i.draw := by
        rw [judged_eq_marked_iff]
        exact ⟨fun h => h rfl rfl, fun h _ _ => h⟩
      simp only [howned, markFinish, hcommit, hpublic]
      refine Parallel.congr ⟨by simp [Except.mapError], fun heq => ?_⟩ hcond
      simp only [Option.map_some, ← heq]
      exact .some (hsame.update rfl htools)
    · simp only [howned]
      exact Parallel.congr (.of_eq rfl .none) (iff_true_intro (by simp))

theorem get_parallel (hid : isConnectorId connectorId = true)
    (h : Option.Rel (Same G.toPlatform (uid, connectorId)) d e) :
    Parallel G.toPlatform (uid, connectorId) True (MemoryVault.getConnection connectorId d, d)
      (Vault.getConnection G.toPlatform uid connectorId ⟨none, none⟩ e, e) := by
  unfold MemoryVault.getConnection Vault.getConnection
  simp only [hid, Bool.not_true, Bool.false_eq_true, if_false]
  rcases owned_parallel h with ⟨item, envelope, rfl, rfl, hsame, -⟩ | ⟨rfl, rfl, -⟩
  · simp only [ne_eq, not_true, if_false, hsame.open_eq]
    exact .of_eq rfl h
  · exact .of_eq rfl .none

theorem map_mapError {ε δ α β : Type} (f : α → β) (g : ε → δ) (x : Except ε α) :
    (x.mapError g).map f = (x.map f).mapError g := by
  cases x <;> rfl

theorem getSecret_parallel (hid : isConnectorId connectorId = true)
    (h : Option.Rel (Same G.toPlatform (uid, connectorId)) d e) :
    Parallel G.toPlatform (uid, connectorId) True (MemoryVault.getSecret connectorId d, d)
      (Vault.getSecret G.toPlatform uid connectorId ⟨none, none⟩ e, e) := by
  have hget := (get_parallel hid h).reply.2 trivial
  refine .of_eq ?_ h
  unfold MemoryVault.getSecret Vault.getSecret
  rw [← map_mapError]
  exact congrArg (Except.map _) hget

/-- both vaults refuse a connector that has no such name -/
theorem op_refused {V : Platform} (hid : isConnectorId connectorId = false) (draw : Draw) (op : Op) (i : Services) :
    inMemory V.libs connectorId draw op d = (.error (.vault .error), d) ∧
      inFirestore V uid connectorId i op e = (.error (.vault .error), e) := by
  cases op with
  | finishVerification generation lease v =>
    simp only [inMemory, inFirestore, MemoryVault.finishVerification, Vault.finishVerification, finishTools, hid,
      Bool.not_false, if_true]
    cases hvalid : validateCertification V.libs v with
    | error x =>
      obtain rfl : x = .error := validate_error hvalid
      refine ⟨rfl, ?_⟩
      split_ifs <;> rfl
    | ok tools => constructor <;> split_ifs <;> rfl
  | mark v =>
    simp only [inMemory, inFirestore, MemoryVault.mark, Vault.mark, markStart, hid]
    exact ⟨rfl, rfl⟩
  | _ =>
    -- the name is checked before anything else
    simp only [inMemory, inFirestore, MemoryVault.put, Vault.put, MemoryVault.getSecret, Vault.getSecret,
      MemoryVault.getConnection, Vault.getConnection, MemoryVault.rotate, Vault.rotate, MemoryVault.quarantine,
      Vault.quarantine, MemoryVault.beginVerification, Vault.beginVerification, MemoryVault.claimExecution,
      Vault.claimExecution, MemoryVault.releaseExecution, Vault.releaseExecution, MemoryVault.beginDisconnect,
      Vault.beginDisconnect, MemoryVault.delete, Vault.delete, hid, Bool.not_false, if_true]
    exact ⟨rfl, rfl⟩

theorem map_injective {ε α β : Type} {f : α → β} (hf : Function.Injective f) {x y : Except ε α} :
    x.map f = y.map f ↔ x = y := by
  cases x <;> cases y <;> simp [Except.map, hf.eq_iff]

theorem Parallel.answering {α : Type} {f : α → Answer} (hf : Function.Injective f) {cond : Prop}
    {x : Except Raised α × Option StoredConnection} {y : Except VaultExn α × Option Document}
    (h : Parallel G.toPlatform (uid, connectorId) cond x y) :
    ((Vaults.answering f x).1 = (answeringExn f y).1 ↔ cond) ∧
      (cond → Option.Rel (Same G.toPlatform (uid, connectorId)) (Vaults.answering f x).2 (answeringExn f y).2) :=
  ⟨(map_injective hf).trans h.reply, h.keeps⟩

/-- one operation: both vaults go on with the same connection, and answer alike exactly where it is fine -/
theorem op_parallel (hG : Works G) (draw : Draw) (random : String) {op : Op}
    (hreads : ∀ secret, op.stored = some secret → Reads G.libs secret) (h : Option.Rel (Same G.toPlatform (uid, connectorId)) d e) :
    ((inMemory G.libs connectorId draw op d).1 =
        (inFirestore G.toPlatform uid connectorId (working G.toKms uid connectorId draw random op) op e).1 ↔
      Fine G.libs connectorId op d) ∧
      (Fine G.libs connectorId op d → Option.Rel (Same G.toPlatform (uid, connectorId))
        (inMemory G.libs connectorId draw op d).2
        (inFirestore G.toPlatform uid connectorId (working G.toKms uid connectorId draw random op) op e).2) := by
  have hrecord : Function.Injective Answer.record := fun _ _ h => Answer.record.inj h
  have hconnection : Function.Injective Answer.connection := fun _ _ h => Answer.connection.inj h
  have hdone : Function.Injective Answer.done := fun _ _ h => Answer.done.inj h
  have hcommit : ∀ op, (working G.toKms uid connectorId draw random op).commit = .done := fun _ => rfl
  have hsealing : ∀ op secret, op.stored = some secret →
      (working G.toKms uid connectorId draw random op).sealing = sealed G.toKms uid connectorId random secret := by
    intro op secret hstored
    simp [working, hstored]
  have hopening : ∀ op, (working G.toKms uid connectorId draw random op).opening = none := fun _ => rfl
  cases hid : isConnectorId connectorId with
  | false =>
    obtain ⟨hmemory, hfirestore⟩ := op_refused hid draw op (working G.toKms uid connectorId draw random op)
    rw [hmemory, hfirestore]
    exact ⟨iff_of_true rfl fun hid' => absurd (hid.symm.trans hid') (by simp), fun _ => h⟩
  | true =>
    unfold Fine
    rw [forall_prop_of_true hid]
    cases op with
    | put secret =>
      exact (put_parallel hG hid (hreads secret rfl) (hsealing (.put secret) secret rfl) (hcommit _) h).answering hrecord
    | getSecret => exact (getSecret_parallel hid h).answering fun _ _ h => Answer.secret.inj h
    | getConnection => exact (get_parallel hid h).answering hconnection
    | rotate generation lease expected secret =>
      exact (rotate_parallel hG hid (hreads secret rfl) (hsealing (.rotate generation lease expected secret) secret rfl) (hcommit _)
        (hopening _) h).answering hrecord
    | quarantine generation lease errorCode expected =>
      exact (quarantine_parallel hid (hcommit _) (hopening _) h).answering hdone
    | beginVerification generation => exact (verify_parallel hid (hcommit _) generation h).answering hrecord
    | finishVerification generation lease v => exact (finish_parallel hid (hcommit _) v h).answering hrecord
    | claimExecution => exact (claim_parallel hid draw h).answering hconnection
    | releaseExecution lease => exact (release_parallel hid (hcommit _) h).answering hdone
    | beginDisconnect => exact (disconnect_parallel hid (hcommit _) (hopening _) h).answering hconnection
    | mark v => exact (mark_parallel hid (hcommit _) v h).answering hrecord
    | delete generation requireDisconnect =>
      exact (delete_parallel hid (hcommit _) generation requireDisconnect h).answering hdone

end Parallel

/-! ## Histories -/

def Call.stored : Call → Option ConnectorSecret
  | .list _ => none
  | .on _ _ op => op.stored

/-- the texts of a call that are hashed -/
def Call.texts : Call → List String
  | .list uid => [uid]
  | .on uid connectorId _ => [uid, uid ++ "\x00" ++ connectorId]

/-- no two texts that are hashed in these calls have the same digest -/
def NoCollision (L : Libs) (calls : List Request) : Prop :=
  ∀ a ∈ calls.flatMap (·.call.texts), ∀ b ∈ calls.flatMap (·.call.texts), L.sha256 a = L.sha256 b → a = b

instance (L : Libs) (calls : List Request) : Decidable (NoCollision L calls) := by
  unfold NoCollision
  infer_instance

/-- the credentials in these calls can be read back -/
def ReadsAll (L : Libs) (calls : List Request) : Prop :=
  ∀ q ∈ calls, ∀ secret, q.call.stored = some secret → Reads L secret

/-- the calls are about this connection -/
def Known (calls : List Request) (key : String × String) : Prop :=
  key.1 ∈ calls.flatMap (·.call.texts) ∧ key.1 ++ "\x00" ++ key.2 ∈ calls.flatMap (·.call.texts)

/-- what the two stores hold of the same calls -/
structure Corresponds (V : Platform) (calls : List Request) (m : MemoryStore) (f : FirestoreStore) : Prop where
  renamed : Dict.Renamed (documentId V.libs) (Same V) m f
  ok : Dict.Ok m
  known : ∀ p ∈ m, Known calls p.1

section Histories

variable {G : Google} {calls : List Request} {m : MemoryStore} {f : FirestoreStore}

/-! ### Names of documents -/

theorem nul_notMem {s : String} (h : isConnectorId s = true) : '\x00' ∉ s.toList := by
  intro hmem
  simp only [isConnectorId, Bool.and_eq_true] at h
  have := List.all_eq_true.1 h.2 _ hmem
  revert this
  decide

/-- a list has one first occurrence -/
theorem split_at_first {α : Type} {a : α} {x x' z z' : List α} (hx : a ∉ x) (hx' : a ∉ x')
    (h : x ++ a :: z = x' ++ a :: z') : x = x' ∧ z = z' := by
  induction x generalizing x' with
  | nil =>
    cases x' with
    | nil => exact ⟨rfl, (List.cons.inj h).2⟩
    | cons b x' =>
      obtain ⟨rfl, -⟩ := List.cons.inj h
      exact absurd List.mem_cons_self hx'
  | cons b x ih =>
    cases x' with
    | nil =>
      obtain ⟨rfl, -⟩ := List.cons.inj h
      exact absurd List.mem_cons_self hx
    | cons b' x' =>
      obtain ⟨rfl, htail⟩ := List.cons.inj h
      obtain ⟨rfl, rfl⟩ := ih (List.not_mem_of_not_mem_cons hx) (List.not_mem_of_not_mem_cons hx') htail
      exact ⟨rfl, rfl⟩

/-- a text ends in one connector only -/
theorem key_inj {key key' : String × String} (h : isConnectorId key.2 = true) (h' : isConnectorId key'.2 = true)
    (htext : key.1 ++ "\x00" ++ key.2 = key'.1 ++ "\x00" ++ key'.2) : key = key' := by
  have hlist := congrArg (fun s : String => s.toList.reverse) htext
  have hnul : "\x00".toList.reverse = ['\x00'] := by decide
  simp only [String.toList_append, List.reverse_append, hnul, List.singleton_append] at hlist
  obtain ⟨hconnector, huid⟩ := split_at_first (fun hmem => nul_notMem h (List.mem_reverse.1 hmem))
    (fun hmem => nul_notMem h' (List.mem_reverse.1 hmem)) hlist
  refine Prod.ext ?_ ?_
  · exact String.toList_injective (List.reverse_injective huid)
  · exact String.toList_injective (List.reverse_injective hconnector)

theorem documentId_inj (hsha : NoCollision G.libs calls) {key key' : String × String} (hknown : Known calls key)
    (hknown' : Known calls key') (h : isConnectorId key.2 = true) (h' : isConnectorId key'.2 = true)
    (hid : documentId G.libs key = documentId G.libs key') : key = key' :=
  key_inj h h' (hsha _ hknown.2 _ hknown'.2 hid)

theorem Corresponds.named (hsha : NoCollision G.libs calls) (h : Corresponds G.toPlatform calls m f)
    {key : String × String} (hknown : Known calls key) (hid : isConnectorId key.2 = true) :
    ∀ p ∈ m, documentId G.libs p.1 = documentId G.libs key → p.1 = key := by
  intro p hp hname
  obtain ⟨q, -, -, hsame⟩ := h.renamed.mem_left hp
  exact documentId_inj hsha (h.known p hp) hknown hsame.valid hid hname

/-! ### Lists -/

/-- records of distinct connectors have one order -/
theorem sort_eq {l l' : List ConnectionRecord} (hperm : l.Perm l')
    (hdistinct : ∀ a ∈ l, ∀ b ∈ l, a.connectorId = b.connectorId → a = b) :
    l.insertionSort (fun a b => a.connectorId ≤ b.connectorId) =
      l'.insertionSort fun a b => a.connectorId ≤ b.connectorId := by
  have : Std.Total fun a b : ConnectionRecord => a.connectorId ≤ b.connectorId := ⟨fun a b => le_total _ _⟩
  have : IsTrans ConnectionRecord fun a b => a.connectorId ≤ b.connectorId := ⟨fun a b c => le_trans⟩
  have hmem : ∀ a ∈ l'.insertionSort (fun a b => a.connectorId ≤ b.connectorId), a ∈ l :=
    fun a ha => hperm.mem_iff.2 ((List.mem_insertionSort _).1 ha)
  refine List.Perm.eq_of_pairwise (fun a b ha hb hab hba => ?_) (List.pairwise_insertionSort _ _)
    (List.pairwise_insertionSort _ _) ?_
  · exact hdistinct a ((List.mem_insertionSort _).1 ha) b (hmem b hb) (le_antisymm hab hba)
  · exact ((List.perm_insertionSort _ l).trans hperm).trans (List.perm_insertionSort _ l').symm

/-- documents that stand for items are all published -/
theorem mapM_public {docs : List Document} (h : ∀ doc ∈ docs, publicRecord doc.record = some doc.record) :
    (docs.mapM fun doc => publicRecord doc.record) = some (docs.map Document.record) := by
  induction docs with
  | nil => rfl
  | cons doc docs ih =>
    obtain ⟨hdoc, hdocs⟩ := List.forall_mem_cons.1 h
    rw [List.mapM_cons, hdoc, ih hdocs]
    rfl

/-- the items of a user are the documents of the user -/
theorem Corresponds.owned_records (hsha : NoCollision G.libs calls) (h : Corresponds G.toPlatform calls m f)
    {uid : String} (huid : uid ∈ calls.flatMap (·.call.texts)) :
    (m.filter fun item => item.1.1 = uid).map (fun item => item.2.record) =
      ((f.map Prod.snd).filter fun doc => doc.ownerHash = ownerHash G.toPlatform uid).map Document.record := by
  have hknown := h.known
  have hrenamed := h.renamed
  clear h
  induction hrenamed with
  | nil => rfl
  | @cons p q m f hpq _ ih =>
    obtain ⟨hp, hm⟩ := List.forall_mem_cons.1 hknown
    have howner : q.2.ownerHash = ownerHash G.toPlatform uid ↔ p.1.1 = uid := by
      rw [hpq.2.owner]
      exact ⟨hsha _ hp.1 _ huid, fun h => congrArg _ h⟩
    rw [List.map_cons, List.filter_cons, List.filter_cons]
    by_cases hp : p.1.1 = uid
    · rw [if_pos (decide_eq_true hp), if_pos (decide_eq_true (howner.2 hp)), List.map_cons, List.map_cons, ih hm,
        hpq.2.record]
    · rw [if_neg (by simpa using hp), if_neg (by simpa using fun h => hp (howner.1 h)), ih hm]

/-- a user has one item for each connector -/
theorem Corresponds.distinct (h : Corresponds G.toPlatform calls m f) (uid : String) :
    ∀ a ∈ (m.filter fun item => item.1.1 = uid).map fun item => item.2.record,
      ∀ b ∈ (m.filter fun item => item.1.1 = uid).map fun item => item.2.record,
        a.connectorId = b.connectorId → a = b := by
  intro a ha b hb hab
  obtain ⟨p, hp, rfl⟩ := List.mem_map.1 ha
  obtain ⟨q, hq, rfl⟩ := List.mem_map.1 hb
  obtain ⟨hpm, hpuid⟩ := List.mem_filter.1 hp
  obtain ⟨hqm, hquid⟩ := List.mem_filter.1 hq
  obtain ⟨_, -, -, hpsame⟩ := h.renamed.mem_left hpm
  obtain ⟨_, -, -, hqsame⟩ := h.renamed.mem_left hqm
  have hkey : p.1 = q.1 := by
    refine Prod.ext ((of_decide_eq_true hpuid).trans (of_decide_eq_true hquid).symm) ?_
    rw [← hpsame.connector, ← hqsame.connector, hab]
  have hlookup := (Dict.mem_iff h.ok).1 hpm
  rw [hkey, (Dict.mem_iff h.ok).1 hqm] at hlookup
  rw [Option.some.inj hlookup]

theorem list_agrees (hG : Works G) (hsha : NoCollision G.libs calls) (h : Corresponds G.toPlatform calls m f)
    {q : Request} {uid : String} (hq : q ∈ calls) (hcall : q.call = .list uid) :
    (MemoryStore.answer G.libs m q).1 = (FirestoreStore.answer G f q).1 := by
  have huid : uid ∈ calls.flatMap (·.call.texts) := List.mem_flatMap.2 ⟨q, hq, by simp [hcall, Call.texts]⟩
  have hstream := (hG.streams (f.map Prod.snd)).filter fun doc => decide (doc.ownerHash = ownerHash G.toPlatform uid)
  have hpublic : ∀ doc ∈ (G.stream (f.map Prod.snd)).filter fun doc => decide (doc.ownerHash = ownerHash G.toPlatform uid),
      publicRecord doc.record = some doc.record := by
    intro doc hdoc
    obtain ⟨entry, hentry, rfl⟩ := List.mem_map.1 ((hG.streams _).mem_iff.1 (List.mem_filter.1 hdoc).1)
    obtain ⟨p, -, -, hsame⟩ := h.renamed.mem_right hentry
    rw [hsame.publicRecord_eq, hsame.record]
  simp only [MemoryStore.answer, FirestoreStore.answer, hcall, answeringExn, answering, Vault.list,
    mapM_public hpublic, Except.mapError, Except.map]
  refine congrArg (fun l => Except.ok (Answer.records l)) (sort_eq ?_ (h.distinct uid))
  rw [h.owned_records hsha huid]
  exact (hstream.map _).symm

/-! ### Calls -/

/-- one call: the stores stay together where the call is fine, and it is answered alike exactly then -/
theorem answer_parallel (hG : Works G) (hreads : ReadsAll G.libs calls) (hsha : NoCollision G.libs calls)
    (h : Corresponds G.toPlatform calls m f)
    {q : Request} (hq : q ∈ calls) :
    ((MemoryStore.answer G.libs m q).1 = (FirestoreStore.answer G f q).1 ↔ Alike G.libs m q) ∧
      (Alike G.libs m q →
        Corresponds G.toPlatform calls (MemoryStore.answer G.libs m q).2 (FirestoreStore.answer G f q).2) := by
  obtain ⟨draw, random, call⟩ := q
  cases call with
  | list uid => exact ⟨iff_of_true (list_agrees hG hsha h hq rfl) trivial, fun _ => h⟩
  | on uid connectorId op =>
    have hknown : Known calls (uid, connectorId) :=
      ⟨List.mem_flatMap.2 ⟨_, hq, by simp [Call.texts]⟩, List.mem_flatMap.2 ⟨_, hq, by simp [Call.texts]⟩⟩
    simp only [MemoryStore.answer, FirestoreStore.answer, Alike]
    cases hid : isConnectorId connectorId with
    | false =>
      obtain ⟨hmemory, hfirestore⟩ := @op_refused uid connectorId (Dict.get? m (uid, connectorId))
        (Dict.get? f (documentId G.libs (uid, connectorId))) G.toPlatform hid draw op
        (working G.toKms uid connectorId draw random op)
      simp only [hmemory, hfirestore, Dict.assign_get?]
      exact ⟨iff_of_true trivial fun hid' => absurd (hid.symm.trans hid') (by simp), fun _ => h⟩
    | true =>
      have hnamed := h.named hsha hknown hid
      obtain ⟨hreply, hkeeps⟩ := op_parallel hG draw random (hreads _ hq) (h.renamed.get? hnamed)
      refine ⟨hreply, fun hfine => ⟨h.renamed.assign hnamed (hkeeps hfine), Dict.ok_assign h.ok _ _, fun p hp => ?_⟩⟩
      rcases Dict.mem_assign hp with hp | ⟨a, -, rfl⟩
      · exact h.known p hp
      · exact hknown

/-- **When the two vaults are one contract.** From empty vaults, any list of calls gets the same answers from both exactly
if each credential that is stored has a payload that can be sealed, no texts outside ASCII are compared, and no connection
that is not ready is marked with a count of tools. -/
theorem vaults_agree (hG : Works G) (hreads : ReadsAll G.libs calls) (hsha : NoCollision G.libs calls) :
    Lockstep.replies (MemoryStore.answer G.libs) [] calls = Lockstep.replies (FirestoreStore.answer G) [] calls ↔
      Lockstep.Along (MemoryStore.answer G.libs) (Alike G.libs) [] calls :=
  Lockstep.replies_eq_iff_of (R := Corresponds G.toPlatform calls) (p := (· ∈ calls))
    (fun _ _ _ hq h => (answer_parallel hG hreads hsha h hq).1) (fun _ _ _ hq h hok => (answer_parallel hG hreads hsha h hq).2 hok)
    ⟨.nil, List.nodup_nil, fun _ hp => nomatch hp⟩ calls fun _ hq => hq

end Histories

/-! ## Two histories -/

def sampleToken : ConnectorSecret := ⟨"token", .bearerToken, by decide⟩

/-- the text that is sealed of it -/
def samplePayload : String := "\x7b\"kind\":\"bearer_token\",\"value\":\"token\"\x7d"

/-- the libraries on the texts of one connection of one owner, and a cipher that only checks who asks -/
def sampleGoogle : Google where
  libs :=
    { text := { repr := fun _ => "", lower := Py.lower }
      sha256 := fun text =>
        if text = "ann" then "49915e0d7d4b402e3017d010bc1c0e83cac6c797d6c16e66340fe3268693a6a1"
        else "11d2f6e78b18958a01e519cb2f2f3834a5df89c6e4225148ecc2ed2f7321cc42"
      loads := fun text =>
        if text = samplePayload then .value (.dict [("kind", .str "bearer_token"), ("value", .str "token")])
        else .malformed
      urlsplit := fun _ => none
      casefold := Py.lower
      b64encode := id
      fromisoformat := fun _ => none
      iso := fun _ => "1970-01-01T00:00:00Z" }
  openEnvelope := fun envelope data => if envelope.wrappedDek = data then some envelope.ciphertext else none
  sealEnvelope := fun random text data => ⟨"rally.connector-secret/v1", random, text, data, "projects/rally/cryptoKeys/k"⟩
  stream := id

def sampleRequest (call : Call) : Request :=
  ⟨⟨0, 0, "1970-01-01T00:00:00Z", "0123456789abcdef0123456789abcdef"⟩, "", call⟩

/-- a credential is stored and its verification started -/
def verified : List Request :=
  [sampleRequest (.on "ann" "slack" (.put sampleToken)),
    sampleRequest (.on "ann" "slack" (.beginVerification "0123456789abcdef0123456789abcdef"))]

/-- a credential is stored, and marked with one tool but not ready -/
def attended : List Request :=
  [sampleRequest (.on "ann" "slack" (.put sampleToken)),
    sampleRequest (.on "ann" "slack" (.mark ⟨"needs_attention", some "manual_review", { toolCount := 1 }⟩))]

theorem sampleGoogle_works : Works sampleGoogle where
  opens := fun random text data => by simp [sampleGoogle]
  streams := fun docs => .refl docs

theorem sample_reads {calls : List Request} (h : ∀ q ∈ calls, q.call.stored = none ∨ q.call.stored = some sampleToken) :
    ReadsAll sampleGoogle.libs calls := by
  intro q hq secret hsecret
  rcases h q hq with hstored | hstored
  · cases hsecret.symm.trans hstored
  · obtain rfl := Option.some.inj (hsecret.symm.trans hstored)
    have hpayload : payload sampleGoogle.libs sampleToken = samplePayload := by decide
    unfold Reads
    rw [hpayload]
    rfl

theorem vaults_agree_sample :
    Lockstep.replies (MemoryStore.answer sampleGoogle.libs) [] verified =
      Lockstep.replies (FirestoreStore.answer sampleGoogle) [] verified :=
  (vaults_agree sampleGoogle_works (sample_reads (by decide)) (by decide)).2 (by decide)

/-- the vault in memory drops the count of tools, Firestore keeps it -/
theorem vaults_part :
    Works sampleGoogle ∧ ReadsAll sampleGoogle.libs attended ∧ NoCollision sampleGoogle.libs attended ∧
      (Lockstep.replies (MemoryStore.answer sampleGoogle.libs) [] attended)[1]? =
        some (.ok (.record (some
          { connectorId := "slack", credentialKind := "bearer_token", status := "needs_attention"
            createdAt := "1970-01-01T00:00:00Z", updatedAt := "1970-01-01T00:00:00Z", toolCount := 0
            errorCode := some "manual_review", credentialGeneration := "0123456789abcdef0123456789abcdef" }))) ∧
      (Lockstep.replies (FirestoreStore.answer sampleGoogle) [] attended)[1]? =
        some (.ok (.record (some
          { connectorId := "slack", credentialKind := "bearer_token", status := "needs_attention"
            createdAt := "1970-01-01T00:00:00Z", updatedAt := "1970-01-01T00:00:00Z", toolCount := 1
            errorCode := some "manual_review", credentialGeneration := "0123456789abcdef0123456789abcdef" }))) ∧
      Lockstep.replies (MemoryStore.answer sampleGoogle.libs) [] attended ≠
        Lockstep.replies (FirestoreStore.answer sampleGoogle) [] attended := by
  refine ⟨sampleGoogle_works, sample_reads (by decide), by decide, by decide, by decide,
    by decide⟩

end Rally.Cloud.Vaults
