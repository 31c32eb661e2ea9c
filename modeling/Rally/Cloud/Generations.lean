/-
The generation of a credential over any run of either vault (`cloud/credential_vault.py`), and what the answers of a vault
say of the credential that it keeps.

- `Named`: in these states a generation belongs to one credential. `Lawful.named`: so it is in every run whose operations
  draw different texts, also after the connection is gone and stored again.
- `Served`: a vault whose acts are made of an operation and of what its services do. `Answers`: what is put, read or taken
  out for a disconnect is the credential of the generation that is answered, and a rotation that changes something
  `Rotates`: it replaces the credential that it presents, under the lease that it presents.
- `memoryServed_answers`, `firestoreServed_answers`: both vaults answer so.
-/
import Rally.Cloud.VaultLeases

namespace Rally.Cloud.Vaults

open Vault MemoryVault

/-! ## One operation -/

section Writes

variable {σ : Type} {L : Libs} {connectorId : String} {draw : Draw} {op : Op} {d e : Option (ConnectionRecord × σ)}

/-- an operation keeps the credential with its generation, or draws the generation -/
theorem Writes.generation (hw : Writes L connectorId draw op d e) :
    ∀ p ∈ e, p.1.credentialGeneration = draw.fresh ∨
      ∃ q ∈ d, q.1.credentialGeneration = p.1.credentialGeneration ∧ q.2 = p.2 := by
  intro p hp
  cases hw with
  | same => exact .inr ⟨p, hp, rfl, rfl⟩
  | put => cases hp; exact .inl rfl
  | rotate _ => cases hp; exact .inl rfl
  | disconnect _ =>
    cases hp
    dsimp only [disconnecting]
    split_ifs
    · exact .inr ⟨_, rfl, rfl, rfl⟩
    · exact .inl rfl
  | delete _ => cases hp
  | quarantine _ => cases hp; exact .inr ⟨_, rfl, rfl, rfl⟩
  | verify _ => cases hp; exact .inr ⟨_, rfl, rfl, rfl⟩
  | finish _ _ => cases hp; exact .inr ⟨_, rfl, rfl, rfl⟩
  | claim _ _ => cases hp; exact .inr ⟨_, rfl, rfl, rfl⟩
  | release _ => cases hp; exact .inr ⟨_, rfl, rfl, rfl⟩
  | mark _ => cases hp; exact .inr ⟨_, rfl, rfl, rfl⟩
  | markCounted _ => cases hp; exact .inr ⟨_, rfl, rfl, rfl⟩

end Writes

/-! ## Runs -/

namespace Machine

variable {σ α κ : Type} (M : Machine σ α κ)

/-- no two operations of a run draw the same text -/
def Distinct (tr : List (Entry σ α)) : Prop :=
  tr.Pairwise fun e e' => (M.draw e.act).fresh ≠ (M.draw e'.act).fresh

/-- in these states, a generation of a connection belongs to one credential -/
def Named (k : String × String) (states : List σ) : Prop :=
  ∀ s ∈ states, ∀ t ∈ states, ∀ p ∈ M.view s k, ∀ q ∈ M.view t k,
    p.1.credentialGeneration = q.1.credentialGeneration → p.2 = q.2

/-- the generations in these states were drawn in this run -/
def Drawn (k : String × String) (tr : List (Entry σ α)) (states : List σ) : Prop :=
  ∀ s ∈ states, ∀ p ∈ M.view s k, ∃ e ∈ tr, p.1.credentialGeneration = (M.draw e.act).fresh

variable {M} {Apart : α → String × String → Prop} {k : String × String} {s₀ s : σ} {tr : List (Entry σ α)}

/-- the state after one more operation: what it has of the connection was there before, or is drawn now -/
theorem Lawful.inherits (hM : M.Lawful Apart) {a : α} (hapart : Apart a k) :
    ∀ p ∈ M.view (M.answer s a).2 k, p.1.credentialGeneration = (M.draw a).fresh ∨
      ∃ q ∈ M.view s k, q.1.credentialGeneration = p.1.credentialGeneration ∧ q.2 = p.2 := by
  intro p hp
  by_cases hk : M.key a = k
  · subst hk
    exact (hM.writes s a).generation p hp
  · rw [hM.frame s a k hapart hk] at hp
    exact .inr ⟨p, hp, rfl, rfl⟩

/-- **A generation names one credential.** In a run whose operations draw different texts, a generation of a connection
belongs to the same credential wherever it appears. -/
theorem Lawful.named (hM : M.Lawful Apart) (h : Trace M.step s₀ tr s) (hapart : ∀ e ∈ tr, Apart e.act k)
    (hdistinct : M.Distinct tr) (hstart : M.view s₀ k = none) :
    M.Drawn k tr (s₀ :: tr.map Entry.after) ∧ M.Named k (s₀ :: tr.map Entry.after) ∧ s ∈ s₀ :: tr.map Entry.after := by
  induction h with
  | nil =>
    have hnone : ∀ t ∈ [s₀], ∀ p ∈ M.view t k, False := by
      intro t ht p hp
      rw [List.mem_singleton.1 ht, hstart] at hp
      cases hp
    exact ⟨fun t ht p hp => (hnone t ht p hp).elim, fun t ht _ _ p hp => (hnone t ht p hp).elim, List.mem_cons_self⟩
  | @snoc tr s t a hrun hnext ih =>
    obtain ⟨hpairs, -, hnew⟩ := List.pairwise_append.1 hdistinct
    obtain ⟨hdrawn, hnamed, hs⟩ := ih (fun e he => hapart e (List.mem_append_left _ he)) hpairs
    obtain rfl : t = (M.answer s a).2 := hnext
    have hinherits := hM.inherits (s := s) (hapart ⟨s, a, _⟩ (List.mem_append_right _ List.mem_cons_self))
    -- a generation drawn now was never seen before
    have hunseen : ∀ u ∈ s₀ :: tr.map Entry.after, ∀ q ∈ M.view u k,
        q.1.credentialGeneration ≠ (M.draw a).fresh := by
      intro u hu q hq hsame
      obtain ⟨e, he, hgeneration⟩ := hdrawn u hu q hq
      exact hnew e he _ List.mem_cons_self (hgeneration.symm.trans hsame)
    have hlast : ∀ u ∈ s₀ :: tr.map Entry.after, ∀ p ∈ M.view (M.answer s a).2 k, ∀ q ∈ M.view u k,
        p.1.credentialGeneration = q.1.credentialGeneration → p.2 = q.2 := by
      intro u hu p hp q hq hsame
      rcases hinherits p hp with hfresh | ⟨r, hr, hgeneration, hcredential⟩
      · exact absurd (hsame.symm.trans hfresh) (hunseen u hu q hq)
      · rw [← hcredential]
        exact hnamed s hs u hu r hr q hq (hgeneration.trans hsame)
    rw [List.map_append, List.map_singleton, ← List.cons_append]
    refine ⟨?_, ?_, List.mem_append_right _ List.mem_cons_self⟩
    · intro u hu p hp
      rcases List.mem_append.1 hu with hu | hu
      · obtain ⟨e, he, hgeneration⟩ := hdrawn u hu p hp
        exact ⟨e, List.mem_append_left _ he, hgeneration⟩
      · rw [List.mem_singleton.1 hu] at hp
        rcases hinherits p hp with hfresh | ⟨r, hr, hgeneration, -⟩
        · exact ⟨_, List.mem_append_right _ List.mem_cons_self, hfresh⟩
        · obtain ⟨e, he, hdraw⟩ := hdrawn s hs r hr
          exact ⟨e, List.mem_append_left _ he, hgeneration.symm.trans hdraw⟩
    · intro u hu v hv p hp q hq hsame
      rcases List.mem_append.1 hu with hu | hu
      · rcases List.mem_append.1 hv with hv | hv
        · exact hnamed u hu v hv p hp q hq hsame
        · rw [List.mem_singleton.1 hv] at hq
          exact (hlast u hu q hq p hp hsame.symm).symm
      · rw [List.mem_singleton.1 hu] at hp
        rcases List.mem_append.1 hv with hv | hv
        · exact hlast v hv p hp q hq hsame
        · rw [List.mem_singleton.1 hv] at hq
          rw [Option.some.inj (hp.symm.trans hq)]

end Machine

/-! ## Answers -/

/-- a vault whose acts are made of an operation on a connection and of what its services do; `opens`: the secret that a
credential opens to; `seals`: what an act seals opens again -/
structure Served (σ α κ δ : Type) extends Machine σ α κ where
  act : String × String → Op → δ → α
  opens : String × String → κ → Option ConnectorSecret
  seals : α → Prop

namespace Served

variable {σ α κ δ : Type} (S : Served σ α κ δ)

/-- in this state the connection has a credential of this generation, which opens to the secret -/
def Has (s : σ) (k : String × String) (generation : String) (secret : ConnectorSecret) : Prop :=
  ∃ r x, S.view s k = some (r, x) ∧ r.credentialGeneration = generation ∧ S.opens k x = some secret

/-- a rotation takes effect: the record is under the generation and the lease that are presented, the credential before opens
to the secret that is presented, and the credential behind to the new one -/
def Rotates (e : Entry σ α) (k : String × String) (x y : κ) : Prop :=
  ∃ g l expected secret r, S.key e.act = k ∧ S.op e.act = .rotate g l expected secret ∧
    S.view e.before k = some (r, x) ∧ UnderLease r g l ∧ S.opens k x = some expected ∧
    S.view e.after k = some (renewed r secret (S.draw e.act), y) ∧ S.opens k y = some secret

/-- what an answer says of the credential that the vault keeps -/
structure Answers : Prop where
  key : ∀ k op i, S.key (S.act k op i) = k
  op : ∀ k op i, S.op (S.act k op i) = op
  connected : ∀ s a stored, S.op a = .getConnection ∨ S.op a = .beginDisconnect →
    (S.answer s a).1 = .ok (.connection (some stored)) →
      S.Has (S.answer s a).2 (S.key a) stored.record.credentialGeneration stored.secret
  put : ∀ s a secret record, S.op a = .put secret → S.seals a → (S.answer s a).1 = .ok (.record (some record)) →
    S.Has (S.answer s a).2 (S.key a) record.credentialGeneration secret
  rotated : ∀ s a g l expected secret, S.op a = .rotate g l expected secret → S.seals a →
    S.view (S.answer s a).2 (S.key a) ≠ S.view s (S.key a) → ∃ x y, S.Rotates ⟨s, a, (S.answer s a).2⟩ (S.key a) x y

end Served

/-! ### The vault in memory -/

def memoryServed (L : Libs) : Served MemoryStore MemoryCall ConnectorSecret Draw where
  toMachine := memoryVault L
  act k op draw := ⟨k.1, k.2, draw, op⟩
  opens _ secret := some secret
  seals _ := True

section Memory

variable {L : Libs} {connectorId : String} {draw : Draw} {d : Option StoredConnection}

theorem memory_connected {op : Op} {stored : StoredConnection} (hop : op = .getConnection ∨ op = .beginDisconnect)
    (h : (inMemory L connectorId draw op d).1 = .ok (.connection (some stored))) :
    (inMemory L connectorId draw op d).2 = some stored := by
  rcases hop with rfl | rfl
  · simp only [inMemory, answering, MemoryVault.getConnection] at h ⊢
    split_ifs at h
    · cases h
    · cases h
      rfl
  · simp only [inMemory, answering, MemoryVault.beginDisconnect] at h ⊢
    split_ifs at h ⊢
    · cases h
    · cases d with
      | none => cases h
      | some item =>
        dsimp only at h ⊢
        split_ifs at h ⊢
        · cases h
          rfl
        · cases h

theorem memory_put {secret : ConnectorSecret} {record : ConnectionRecord}
    (h : (inMemory L connectorId draw (.put secret) d).1 = .ok (.record (some record))) :
    (inMemory L connectorId draw (.put secret) d).2 = some ⟨record, secret⟩ := by
  simp only [inMemory, answering, MemoryVault.put] at h ⊢
  split_ifs at h ⊢
  · cases h
  · cases d with
    | some item => cases h
    | none =>
      cases h
      rfl

/-- a rotation in memory that changes something -/
theorem memory_rotated {g l : String} {expected secret : ConnectorSecret}
    (h : itemView (inMemory L connectorId draw (.rotate g l expected secret) d).2 ≠ itemView d) :
    ∃ r, itemView d = some (r, expected) ∧ UnderLease r g l ∧
      itemView (inMemory L connectorId draw (.rotate g l expected secret) d).2 = some (renewed r secret draw, secret) := by
  simp only [inMemory, answering, MemoryVault.rotate] at h ⊢
  split_ifs at h ⊢
  · exact absurd rfl h
  · exact absurd rfl h
  · cases hpresenting : MemoryVault.presenting g l d with
    | none =>
      rw [hpresenting] at h
      exact absurd rfl h
    | some item =>
      rw [hpresenting] at h
      obtain ⟨rfl, hlease⟩ := mem_presenting hpresenting
      dsimp only at h ⊢
      cases hsame : sameSecret item.secret expected with
      | none =>
        rw [hsame] at h
        exact absurd rfl h
      | some same =>
        cases same with
        | false =>
          rw [hsame] at h
          exact absurd rfl h
        | true => exact ⟨item.record, by rw [← sameSecret_true hsame]; rfl, hlease, rfl⟩

theorem memoryServed_answers (L : Libs) : (memoryServed L).Answers where
  key _ _ _ := rfl
  op _ _ _ := rfl
  connected s a stored hop hreply := by
    have hafter := memory_connected hop hreply
    refine ⟨stored.record, stored.secret, ?_, rfl, rfl⟩
    simp only [memoryServed, memoryVault, MemoryStore.answer, Dict.get?_assign, if_true]
    exact congrArg itemView hafter
  put s a secret record hop _ hreply := by
    obtain ⟨uid, connectorId, draw, op⟩ := a
    obtain rfl : op = .put secret := hop
    have hafter := @memory_put L connectorId draw _ secret record hreply
    refine ⟨record, secret, ?_, rfl, rfl⟩
    simp only [memoryServed, memoryVault, MemoryStore.answer, Dict.get?_assign, if_true]
    exact congrArg itemView hafter
  rotated s a g l expected secret hop _ hchanged := by
    obtain ⟨uid, connectorId, draw, op⟩ := a
    obtain rfl : op = .rotate g l expected secret := hop
    have hview : ∀ {t}, (memoryServed L).view ((memoryServed L).answer s ⟨uid, connectorId, draw, .rotate g l expected secret⟩).2
        (uid, connectorId) = t ↔ itemView (inMemory L connectorId draw (.rotate g l expected secret)
          (Dict.get? s (uid, connectorId))).2 = t := by
      intro t
      simp only [memoryServed, memoryVault, MemoryStore.answer, Dict.get?_assign, if_true]
    obtain ⟨r, hbefore, hlease, hafter⟩ := memory_rotated fun hsame => hchanged (hview.2 hsame)
    exact ⟨expected, secret, g, l, expected, secret, r, rfl, rfl, hbefore, hlease, rfl, hview.2 hafter, rfl⟩

end Memory

/-! ### The vault in Firestore -/

/-- the secret in an envelope of a connection -/
def openEnvelope (V : Platform) (k : String × String) (envelope : Envelope) : Option ConnectorSecret :=
  (V.openEnvelope envelope (associatedData k.1 k.2)).bind (secretOf V)

/-- the envelope that is sealed for an operation opens to the secret that the operation stores -/
def Seals (V : Platform) (a : FirestoreCall) : Prop :=
  ∀ secret ∈ a.op.stored, ∀ envelope, a.services.sealing = .ok envelope →
    openEnvelope V (a.uid, a.connectorId) envelope = some secret

def firestoreServed (V : Platform) : Served FirestoreStore FirestoreCall Envelope Services where
  toMachine := firestoreVault V
  act k op services := ⟨k.1, k.2, services, op⟩
  opens := openEnvelope V
  seals := Seals V

section Firestore

variable {V : Platform} {uid connectorId : String} {i : Services} {d : Option Document}

theorem publicRecord_generation {record shown : ConnectionRecord} (h : publicRecord record = some shown) :
    shown.credentialGeneration = record.credentialGeneration := by
  unfold publicRecord at h
  split_ifs at h
  split at h
  · cases h
    rfl
  · cases h

/-- an answer with a connection opens a document, which is left as it is answered -/
theorem openAnswer_some {opening : Option Fault} {x : Except VaultExn (Option Document) × Option Document}
    {stored : StoredConnection} (h : (openAnswer V uid connectorId opening x).1 = .ok (some stored)) :
    ∃ doc, x.1 = .ok (some doc) ∧ openDocument V uid connectorId doc = some stored := by
  obtain ⟨_ | _ | doc, e⟩ := x
  · cases h
  · cases h
  · simp only [openAnswer] at h
    split at h
    · cases h
    · split at h
      · rename_i opened hopen
        cases h
        exact ⟨doc, rfl, hopen⟩
      · cases h

theorem publicAnswer_some {x : Except VaultExn (Option Document) × Option Document} {record : ConnectionRecord}
    (h : (publicAnswer x).1 = .ok (some record)) : ∃ doc, x.1 = .ok (some doc) ∧ publicRecord doc.record = some record := by
  obtain ⟨_ | _ | doc, e⟩ := x
  · cases h
  · cases h
  · simp only [publicAnswer] at h
    split at h
    · rename_i shown hshown
      cases h
      exact ⟨doc, rfl, hshown⟩
    · cases h

/-- a transaction that stores what it answers with -/
theorem stores_ok {doc old : Document} {record : ConnectionRecord} {e : Option Document}
    (h : stores old record = .ok (some doc, e)) : e = some doc ∧ doc = { old with record := record } := by
  cases h
  exact ⟨rfl, rfl⟩

theorem disconnectTransaction_stored {draw : Draw} {doc : Document} {e : Option Document}
    (h : disconnectTransaction V uid draw d = .ok (some doc, e)) : e = some doc := by
  unfold disconnectTransaction at h
  split at h
  · cases h
  · split_ifs at h
    exact (stores_ok h).1

theorem putTransaction_stored {draw : Draw} {envelope : Envelope} {secret : ConnectorSecret} {doc : Document}
    {e : Option Document} (h : putTransaction V uid connectorId draw envelope secret d = .ok (some doc, e)) :
    e = some doc ∧ doc.envelope = envelope := by
  unfold putTransaction at h
  split at h
  · cases h
  · obtain ⟨he, rfl⟩ := stores_ok h
    exact ⟨he, rfl⟩

theorem answeringExn_connection {x : Except VaultExn (Option StoredConnection) × Option Document}
    {stored : StoredConnection} (h : (answeringExn .connection x).1 = .ok (.connection (some stored))) :
    x.1 = .ok (some stored) := by
  obtain ⟨_ | _ | opened, e⟩ := x
  · cases h
  · cases h
  · cases h
    rfl

theorem answeringExn_record {x : Except VaultExn (Option ConnectionRecord) × Option Document}
    {record : ConnectionRecord} (h : (answeringExn .record x).1 = .ok (.record (some record))) :
    x.1 = .ok (some record) := by
  obtain ⟨_ | _ | shown, e⟩ := x
  · cases h
  · cases h
  · cases h
    rfl

theorem firestore_connected {op : Op} {stored : StoredConnection} (hop : op = .getConnection ∨ op = .beginDisconnect)
    (h : (inFirestore V uid connectorId i op d).1 = .ok (.connection (some stored))) :
    ∃ doc, (inFirestore V uid connectorId i op d).2 = some doc ∧ openDocument V uid connectorId doc = some stored := by
  rcases hop with rfl | rfl
  · have hreply := answeringExn_connection h
    simp only [Vault.getConnection] at hreply
    split_ifs at hreply
    split at hreply
    · cases hreply
    · split at hreply
      · cases hreply
      · rename_i doc
        split_ifs at hreply
        · cases hreply
        · split at hreply
          · cases hreply
          · split at hreply
            · rename_i opened hopen
              cases hreply
              exact ⟨doc, rfl, hopen⟩
            · cases hreply
  · have hreply := answeringExn_connection h
    have hdoc : (inFirestore V uid connectorId i .beginDisconnect d).2 =
        (Vault.beginDisconnect V uid connectorId i.toWriteInput d).2 := rfl
    rw [hdoc]
    unfold Vault.beginDisconnect at hreply ⊢
    split_ifs at hreply ⊢
    obtain ⟨doc, hok, hopen⟩ := openAnswer_some hreply
    refine ⟨doc, ?_, hopen⟩
    rw [openAnswer_doc]
    have htransaction := transact_ok hok
    exact disconnectTransaction_stored htransaction

theorem firestore_put {secret : ConnectorSecret} {record : ConnectionRecord}
    (h : (inFirestore V uid connectorId i (.put secret) d).1 = .ok (.record (some record))) :
    ∃ doc, (inFirestore V uid connectorId i (.put secret) d).2 = some doc ∧
      doc.record.credentialGeneration = record.credentialGeneration ∧ i.sealing = .ok doc.envelope := by
  have hreply := answeringExn_record h
  have hdoc : (inFirestore V uid connectorId i (.put secret) d).2 =
      (Vault.put V uid connectorId i.toWriteInput secret d).2 := rfl
  rw [hdoc]
  unfold Vault.put at hreply ⊢
  split_ifs at hreply ⊢
  cases hsealing : i.sealing with
  | error x =>
    rw [hsealing] at hreply
    cases hreply
  | ok envelope =>
    rw [hsealing] at hreply
    dsimp only at hreply ⊢
    obtain ⟨doc, hok, hshown⟩ := publicAnswer_some hreply
    refine ⟨doc, ?_, (publicRecord_generation hshown).symm, ?_⟩
    · rw [publicAnswer_doc]
      exact (putTransaction_stored (transact_ok hok)).1
    · rw [(putTransaction_stored (transact_ok hok)).2]

/-- a rotation in Firestore that changes something -/
theorem firestore_rotated {g l : String} {expected secret : ConnectorSecret}
    (h : documentView (inFirestore V uid connectorId i (.rotate g l expected secret) d).2 ≠ documentView d) :
    ∃ r x y, documentView d = some (r, x) ∧ UnderLease r g l ∧ openEnvelope V (uid, connectorId) x = some expected ∧
      documentView (inFirestore V uid connectorId i (.rotate g l expected secret) d).2 =
        some (renewed r secret i.draw, y) ∧ i.sealing = .ok y := by
  simp only [inFirestore, answeringExn, answering] at h ⊢
  rcases rotate_doc (V := V) (d := d) i.toWriteInput g l expected secret with heq | ⟨envelope, hsealing, heq⟩
  · rw [heq] at h
    exact absurd rfl h
  · rw [heq] at h ⊢
    rcases transact_doc i.commit d (rotateTransaction V uid connectorId i.toWriteInput envelope g l expected secret d) with
      hsame | ⟨a, ha⟩
    · rw [hsame] at h
      exact absurd rfl h
    · generalize (transact i.commit d (rotateTransaction V uid connectorId i.toWriteInput envelope g l expected secret d)).2 = e
        at h ha ⊢
      unfold rotateTransaction at ha
      split at ha
      · cases ha
      · cases ha
        exact absurd rfl h
      · rename_i doc current hpresenting
        obtain ⟨rfl, ⟨-, hlease⟩, hopens⟩ := presenting_ok hpresenting
        split_ifs at ha
        · cases ha
          exact absurd rfl h
        · split at ha
          · cases ha
          · cases ha
            exact absurd rfl h
          · rename_i hsame
            cases ha
            obtain rfl := sameSecret_true hsame
            exact ⟨doc.record, doc.envelope, envelope, rfl, hlease, hopens, rfl, hsealing⟩

/-- only on a connector with a valid name is a connection or a record answered -/
theorem firestoreVault_view {s : FirestoreStore} {a : FirestoreCall}
    (h : Succeeds ((firestoreVault V).answer s a).1) {doc : Document}
    (hdoc : (inFirestore V a.uid a.connectorId a.services a.op
      (Dict.get? s (documentId V.libs (a.uid, a.connectorId)))).2 = some doc) :
    (firestoreVault V).view ((firestoreVault V).answer s a).2 (a.uid, a.connectorId) = some (doc.record, doc.envelope) := by
  have hvalid : isConnectorId a.connectorId = true := succeeds_valid h
  simp only [firestoreVault, hvalid, if_true, Dict.get?_assign]
  exact congrArg documentView hdoc

theorem firestoreServed_answers (V : Platform) : (firestoreServed V).Answers where
  key _ _ _ := rfl
  op _ _ _ := rfl
  connected s a stored hop hreply := by
    obtain ⟨doc, hdoc, hopen⟩ := firestore_connected hop hreply
    obtain ⟨hsecret, hshown⟩ := openDocument_some hopen
    have hsucceeds : Succeeds ((firestoreVault V).answer s a).1 := by
      rw [show ((firestoreVault V).answer s a).1 = _ from hreply]
      trivial
    exact ⟨doc.record, doc.envelope, firestoreVault_view hsucceeds hdoc, (publicRecord_generation hshown).symm, hsecret⟩
  put s a secret record hop hseals hreply := by
    obtain ⟨uid, connectorId, services, op⟩ := a
    obtain rfl : op = .put secret := hop
    obtain ⟨doc, hdoc, hgeneration, hsealing⟩ := firestore_put hreply
    have hsucceeds : Succeeds ((firestoreVault V).answer s ⟨uid, connectorId, services, .put secret⟩).1 := by
      rw [show ((firestoreVault V).answer s ⟨uid, connectorId, services, .put secret⟩).1 = _ from hreply]
      trivial
    exact ⟨doc.record, doc.envelope, firestoreVault_view hsucceeds hdoc, hgeneration,
      hseals secret rfl doc.envelope hsealing⟩
  rotated s a g l expected secret hop hseals hchanged := by
    obtain ⟨uid, connectorId, services, op⟩ := a
    obtain rfl : op = .rotate g l expected secret := hop
    cases hvalid : isConnectorId connectorId with
    | false => exact absurd (by simp [firestoreServed, firestoreVault, hvalid]) hchanged
    | true =>
      have hbefore : (firestoreServed V).view s (uid, connectorId) =
          documentView (Dict.get? s (documentId V.libs (uid, connectorId))) := by
        simp [firestoreServed, firestoreVault, hvalid]
      have hafter : (firestoreServed V).view
          ((firestoreServed V).answer s ⟨uid, connectorId, services, .rotate g l expected secret⟩).2 (uid, connectorId) =
            documentView (inFirestore V uid connectorId services (.rotate g l expected secret)
              (Dict.get? s (documentId V.libs (uid, connectorId)))).2 := by
        simp only [firestoreServed, firestoreVault, hvalid, if_true, Dict.get?_assign]
      obtain ⟨r, x, y, hd, hlease, hopens, he, hsealing⟩ := firestore_rotated fun hsame =>
        hchanged (hafter.trans (hsame.trans hbefore.symm))
      exact ⟨x, y, g, l, expected, secret, r, rfl, rfl, hbefore.trans hd, hlease, hopens, hafter.trans he,
        hseals secret rfl y hsealing⟩

end Firestore

end Rally.Cloud.Vaults
