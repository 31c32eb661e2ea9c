/-
What any run of a credential vault keeps (`cloud/credential_vault.py`), in memory and in Firestore.

- `Writes`: what one operation may do to the record and the credential of its connection, guards included. `memory_writes`,
  `firestore_writes`: no operation of either vault does anything else, whatever its services do.
- `ready_is_certified`: a ready connection carries the certificate for it, also with marks of others in between.
-/
import Rally.Cloud.VaultContract

namespace Rally.Cloud.Vaults

open Vault MemoryVault

/-! ## Writes -/

/-- a record that is rotated to another credential -/
def renewed (record : ConnectionRecord) (secret : ConnectorSecret) (draw : Draw) : ConnectionRecord :=
  { record with
    credentialKind := kindText secret.kind
    credentialGeneration := draw.fresh
    updatedAt := draw.nowText }

/-- what an operation may do to a connection: its record, and its credential as the vault keeps it -/
inductive Writes {σ : Type} (L : Libs) (connectorId : String) (draw : Draw) :
    Op → Option (ConnectionRecord × σ) → Option (ConnectionRecord × σ) → Prop where
  | same {op : Op} {d : Option (ConnectionRecord × σ)} : Writes L connectorId draw op d d
  | put {secret : ConnectorSecret} {x : σ} :
      Writes L connectorId draw (.put secret) none (some (newRecord connectorId secret draw, x))
  | rotate {g l : String} {expected secret : ConnectorSecret} {r : ConnectionRecord} {x y : σ} (h : UnderLease r g l) :
      Writes L connectorId draw (.rotate g l expected secret) (some (r, x)) (some (renewed r secret draw, y))
  | quarantine {g l code : String} {expected : ConnectorSecret} {r : ConnectionRecord} {x : σ} (h : UnderLease r g l) :
      Writes L connectorId draw (.quarantine g l code expected) (some (r, x)) (some (demoted r code draw, x))
  | verify {g : String} {r : ConnectionRecord} {x : σ} (h : Verifiable r g draw.now) :
      Writes L connectorId draw (.beginVerification g) (some (r, x)) (some (verifying r draw, x))
  | finish {g l : String} {v : Verdict} {tools : List (String × String)} {r : ConnectionRecord} {x : σ}
      (hv : finishTools L v = .ok tools) (h : Finishable r g l) :
      Writes L connectorId draw (.finishVerification g l v) (some (r, x)) (some (judged r v tools draw, x))
  | claim {r : ConnectionRecord} {x : σ} (hready : r.status = "ready") (h : leaseIsActive r draw.now = false) :
      Writes L connectorId draw .claimExecution (some (r, x)) (some (leased r draw, x))
  | release {l : String} {r : ConnectionRecord} {x : σ} (h : r.executionLease = some l) :
      Writes L connectorId draw (.releaseExecution l) (some (r, x)) (some (unleased r draw, x))
  | disconnect {r : ConnectionRecord} {x : σ} (h : Disconnectable r draw.now) :
      Writes L connectorId draw .beginDisconnect (some (r, x)) (some (disconnecting r draw, x))
  | mark {v : Verdict} {tools : List (String × String)} {r : ConnectionRecord} {x : σ} (hv : markTools L v = .ok tools) :
      Writes L connectorId draw (.mark v) (some (r, x)) (some (judged r v tools draw, x))
  | markCounted {v : Verdict} {tools : List (String × String)} {r : ConnectionRecord} {x : σ}
      (hv : markTools L v = .ok tools) :
      Writes L connectorId draw (.mark v) (some (r, x)) (some (marked r v tools draw, x))
  | delete {g : Option String} {requireDisconnect : Bool} {r : ConnectionRecord} {x : σ}
      (h : Deletable r g requireDisconnect) :
      Writes L connectorId draw (.delete g requireDisconnect) (some (r, x)) none

/-- the connection of an item -/
def itemView (d : Option StoredConnection) : Option (ConnectionRecord × ConnectorSecret) :=
  d.map fun item => (item.record, item.secret)

/-- the connection of a document -/
def documentView (d : Option Document) : Option (ConnectionRecord × Envelope) :=
  d.map fun doc => (doc.record, doc.envelope)

section Memory

variable {L : Libs} {connectorId : String} {draw : Draw} {d : Option StoredConnection}

theorem finishTools_eq {v : Verdict} {tools : List (String × String)} (h : validateCertification L v = .ok tools)
    (hstatus : v.status ∈ outcomes) : finishTools L v = .ok tools := by
  unfold finishTools
  rw [if_neg (not_not.2 hstatus), h]

theorem mem_presenting {generation lease : String} {item : StoredConnection}
    (h : MemoryVault.presenting generation lease d = some item) : d = some item ∧ UnderLease item.record generation lease := by
  unfold MemoryVault.presenting at h
  obtain ⟨hd, hlease⟩ := Option.filter_eq_some_iff.1 h
  exact ⟨hd, of_decide_eq_true hlease⟩

/-- an operation in memory does one of these things -/
theorem memory_writes (L : Libs) (connectorId : String) (draw : Draw) (op : Op) (d : Option StoredConnection) :
    Writes L connectorId draw op (itemView d) (itemView (inMemory L connectorId draw op d).2) := by
  cases op with
  | put secret =>
    simp only [inMemory, answering, MemoryVault.put]
    split_ifs
    · exact .same
    · cases d with
      | some item => exact .same
      | none => exact .put
  | getSecret => exact .same
  | getConnection => exact .same
  | rotate generation lease expected secret =>
    simp only [inMemory, answering, MemoryVault.rotate]
    split_ifs
    · exact .same
    · exact .same
    · cases hpresenting : MemoryVault.presenting generation lease d with
      | none => exact .same
      | some item =>
        obtain ⟨rfl, hlease⟩ := mem_presenting hpresenting
        dsimp only
        split
        · exact .same
        · exact .same
        · exact .rotate hlease
  | quarantine generation lease errorCode expected =>
    simp only [inMemory, answering, MemoryVault.quarantine]
    split_ifs
    · exact .same
    · cases hpresenting : MemoryVault.presenting generation lease d with
      | none => exact .same
      | some item =>
        obtain ⟨rfl, hlease⟩ := mem_presenting hpresenting
        dsimp only
        split
        · exact .same
        · exact .same
        · exact .quarantine hlease
  | beginVerification generation =>
    simp only [inMemory, answering, MemoryVault.beginVerification]
    split_ifs
    · exact .same
    · cases d with
      | none => exact .same
      | some item =>
        dsimp only
        split_ifs with hverifiable
        · exact .verify hverifiable
        · exact .same
  | finishVerification generation lease v =>
    simp only [inMemory, answering, MemoryVault.finishVerification]
    cases hvalid : validateCertification L v with
    | error x => exact .same
    | ok tools =>
      by_cases hstatus : v.status ∈ outcomes
      · simp only [hstatus, not_true, if_false]
        split_ifs
        · exact .same
        · cases d with
          | none => exact .same
          | some item =>
            dsimp only
            split_ifs with hfinishable
            · exact .finish (finishTools_eq hvalid hstatus) hfinishable
            · exact .same
      · simp only [hstatus, not_false_iff, if_true]
        exact .same
  | claimExecution =>
    simp only [inMemory, answering, MemoryVault.claimExecution]
    split_ifs
    · exact .same
    · cases d with
      | none => exact .same
      | some item =>
        dsimp only
        split_ifs with hready hactive
        · exact .same
        · exact .same
        · exact .claim (not_not.1 hready) (by simpa using hactive)
  | releaseExecution lease =>
    simp only [inMemory, answering, MemoryVault.releaseExecution]
    split_ifs
    · exact .same
    · cases d with
      | none => exact .same
      | some item =>
        dsimp only
        split_ifs with hlease
        · exact .same
        · exact .release (not_not.1 hlease)
  | beginDisconnect =>
    simp only [inMemory, answering, MemoryVault.beginDisconnect]
    split_ifs
    · exact .same
    · cases d with
      | none => exact .same
      | some item =>
        dsimp only
        split_ifs with hdisconnectable
        · exact .disconnect hdisconnectable
        · exact .same
  | mark v =>
    simp only [inMemory, answering, MemoryVault.mark]
    split_ifs
    · exact .same
    · cases hvalid : markTools L v with
      | error x => exact .same
      | ok tools =>
        cases d with
        | none => exact .same
        | some item => exact .mark hvalid
  | delete generation requireDisconnect =>
    simp only [inMemory, answering, MemoryVault.delete]
    split_ifs
    · exact .same
    · cases d with
      | none => exact .same
      | some item =>
        dsimp only
        split_ifs with hdeletable
        · exact .delete hdeletable
        · exact .same

end Memory

section Firestore

variable {V : Platform} {uid connectorId : String} {draw : Draw} {d : Option Document}

theorem publicAnswer_doc (x : Except VaultExn (Option Document) × Option Document) : (publicAnswer x).2 = x.2 := by
  unfold publicAnswer
  split
  · rfl
  · rfl
  · split <;> rfl

theorem openAnswer_doc (opening : Option Fault) (x : Except VaultExn (Option Document) × Option Document) :
    (openAnswer V uid connectorId opening x).2 = x.2 := by
  unfold openAnswer
  split
  · rfl
  · rfl
  · split
    · rfl
    · split <;> rfl

/-- a transaction does what it comes to, or nothing -/
theorem writes_transact {α : Type} {op : Op} {x : Except VaultExn (α × Option Document)} (c : Commit)
    (h : ∀ a e, x = .ok (a, e) → Writes V.libs connectorId draw op (documentView d) (documentView e)) :
    Writes V.libs connectorId draw op (documentView d) (documentView (transact c d x).2) := by
  rcases transact_doc c d x with hsame | ⟨a, ha⟩
  · rw [hsame]
    exact .same
  · exact h a _ ha

theorem mem_owned {doc : Document} (h : owned V uid d = some doc) : d = some doc := (Option.filter_eq_some_iff.1 h).1

/-- a transaction on the document of the user, under a guard -/
theorem writes_guarded {op : Op} {p : ConnectionRecord → Prop} [DecidablePred p]
    {f : ConnectionRecord → ConnectionRecord} {a e : Option Document}
    (hwrites : ∀ r (x : Envelope), p r → Writes V.libs connectorId draw op (some (r, x)) (some (f r, x)))
    {other x : Except VaultExn (Option Document × Option Document)} (hother : ∀ a e, other = .ok (a, e) → e = d)
    (hx : x = match owned V uid d with
      | none => .ok (none, d)
      | some doc => if p doc.record then stores doc (f doc.record) else other) (h : x = .ok (a, e)) :
    Writes V.libs connectorId draw op (documentView d) (documentView e) := by
  rw [hx] at h
  cases howned : owned V uid d with
  | none =>
    rw [howned] at h
    cases h
    exact .same
  | some doc =>
    rw [howned] at h
    have hd := mem_owned howned
    dsimp only at h
    split_ifs at h with hp
    · rw [hd]
      cases h
      exact hwrites _ _ hp
    · rw [hother a e h]
      exact .same

/-- `rotate` leaves the document, or what its transaction leaves -/
theorem rotate_doc (i : WriteInput) (generation lease : String) (expected secret : ConnectorSecret) :
    (Vault.rotate V uid connectorId i generation lease expected secret d).2 = d ∨
      ∃ envelope, i.sealing = .ok envelope ∧ (Vault.rotate V uid connectorId i generation lease expected secret d).2 =
        (transact i.commit d (rotateTransaction V uid connectorId i envelope generation lease expected secret d)).2 := by
  unfold Vault.rotate
  split_ifs
  · exact .inl rfl
  · cases i.sealing with
    | error x => exact .inl rfl
    | ok envelope =>
      refine .inr ⟨envelope, rfl, ?_⟩
      dsimp only
      generalize transact i.commit d (rotateTransaction V uid connectorId i envelope generation lease expected secret d) = x
      obtain ⟨_ | _ | doc, e⟩ := x
      · rfl
      · rfl
      · dsimp only
        split <;> rfl

/-- `claim_execution` leaves the document, or what its transaction leaves -/
theorem claim_doc (i : ClaimInput) :
    (Vault.claimExecution V uid connectorId i d).2 = d ∨
      (Vault.claimExecution V uid connectorId i d).2 = (transact i.commit d (claimTransaction V uid i.draw d)).2 := by
  unfold Vault.claimExecution
  split_ifs
  · exact .inl rfl
  · right
    generalize transact i.commit d (claimTransaction V uid i.draw d) = x
    obtain ⟨_ | _ | doc, e⟩ := x
    · rfl
    · rfl
    · dsimp only
      split
      · rfl
      · split <;> rfl

/-- the second half of `mark` leaves the document or updates it -/
theorem markFinish_doc (draw : Draw) (c : Commit) (v : Verdict) (tools : List (String × String)) (read : Document) :
    (markFinish c draw v tools read d).2 = d ∨
      (markFinish c draw v tools read d).2 = d.map fun doc => { doc with record := marked doc.record v tools draw } := by
  unfold markFinish
  cases c with
  | done =>
    cases d with
    | none => exact .inl rfl
    | some doc =>
      right
      dsimp only
      split <;> rfl
  | raised applied f =>
    cases applied with
    | false => exact .inl rfl
    | true => exact .inr rfl

theorem writes_mark (connectorId : String) {v : Verdict} {tools : List (String × String)}
    (hv : markTools V.libs v = .ok tools) (c : Commit) (read : Document) :
    Writes V.libs connectorId draw (.mark v) (documentView d) (documentView (markFinish c draw v tools read d).2) := by
  rcases markFinish_doc (d := d) draw c v tools read with h | h
  · rw [h]
    exact .same
  · rw [h]
    cases d with
    | none => exact .same
    | some doc => exact .markCounted hv

theorem markStart_ok {reading : Option Fault} {v : Verdict} {doc : Document} {tools : List (String × String)}
    (h : markStart V uid connectorId reading v d = .ok (doc, tools)) : markTools V.libs v = .ok tools := by
  unfold markStart at h
  split_ifs at h
  split at h
  · cases h
  · rename_i htools
    split at h
    · cases h
    · split at h
      · cases h
      · cases h
        exact htools

/-- an operation in Firestore does one of these things, whatever its services do -/
theorem firestore_writes (V : Platform) (uid connectorId : String) (i : Services) (op : Op) (d : Option Document) :
    Writes V.libs connectorId i.draw op (documentView d)
      (documentView (inFirestore V uid connectorId i op d).2) := by
  have hquiet : ∀ a e, (Except.ok (none, d) : Except VaultExn (Option Document × Option Document)) = .ok (a, e) → e = d :=
    fun a e h => (Prod.mk.inj (Except.ok.inj h)).2.symm
  cases op with
  | put secret =>
    simp only [inFirestore, answeringExn, answering, Vault.put]
    split_ifs
    · exact .same
    · split
      · exact .same
      · rw [publicAnswer_doc]
        refine writes_transact i.commit fun a e h => ?_
        unfold putTransaction at h
        split at h
        · cases h
        · cases h
          exact .put
  | getSecret => exact .same
  | getConnection => exact .same
  | rotate generation lease expected secret =>
    simp only [inFirestore, answeringExn, answering]
    rcases rotate_doc (V := V) (d := d) i.toWriteInput generation lease expected secret with h | ⟨envelope, -, h⟩
    · rw [h]
      exact .same
    · rw [h]
      refine writes_transact i.commit fun a e h => ?_
      unfold rotateTransaction at h
      split at h
      · cases h
      · cases h
        exact .same
      · rename_i doc current hpresenting
        obtain ⟨rfl, ⟨-, hpresents⟩, -⟩ := presenting_ok hpresenting
        split_ifs at h
        · cases h
          exact .same
        · split at h
          · cases h
          · cases h
            exact .same
          · cases h
            exact .rotate hpresents
  | quarantine generation lease errorCode expected =>
    simp only [inFirestore, answeringExn, answering, Vault.quarantine]
    split_ifs
    · exact .same
    · refine writes_transact i.commit fun a e h => ?_
      unfold quarantineTransaction at h
      split at h
      · cases h
      · cases h
        exact .same
      · rename_i doc current hpresenting
        obtain ⟨rfl, ⟨-, hpresents⟩, -⟩ := presenting_ok hpresenting
        split at h
        · cases h
        · cases h
          exact .same
        · cases h
          exact .quarantine hpresents
  | beginVerification generation =>
    simp only [inFirestore, answeringExn, answering, Vault.beginVerification]
    split_ifs
    · exact .same
    · rw [publicAnswer_doc]
      exact writes_transact i.commit fun a e h => writes_guarded (fun r x h => .verify h) hquiet rfl h
  | finishVerification generation lease v =>
    simp only [inFirestore, answeringExn, answering, Vault.finishVerification]
    split
    · exact .same
    · rename_i tools htools
      split_ifs
      · exact .same
      · rw [publicAnswer_doc]
        exact writes_transact i.commit fun a e h => writes_guarded (fun r x h => .finish htools h) hquiet rfl h
  | claimExecution =>
    simp only [inFirestore, answeringExn, answering]
    rcases claim_doc (V := V) (d := d) ⟨i.draw, i.commit, i.opening⟩ with h | h
    · rw [h]
      exact .same
    · rw [h]
      refine writes_transact i.commit fun a e h => ?_
      unfold claimTransaction at h
      split at h
      · cases h
        exact .same
      · split_ifs at h with howner hready hactive
        · cases h
          exact .same
        · cases h
          exact .same
        · cases h
          exact .claim (not_not.1 hready) (by simpa using hactive)
  | releaseExecution lease =>
    simp only [inFirestore, answeringExn, answering, Vault.releaseExecution]
    split_ifs
    · exact .same
    · refine writes_transact i.commit fun a e h => ?_
      unfold releaseTransaction at h
      split at h
      · cases h
        exact .same
      · split_ifs at h with hother
        · cases h
          exact .same
        · cases h
          exact .release (not_not.1 (not_or.1 hother).2)
  | beginDisconnect =>
    simp only [inFirestore, answeringExn, answering, Vault.beginDisconnect]
    split_ifs
    · exact .same
    · rw [openAnswer_doc]
      exact writes_transact i.commit fun a e h =>
        writes_guarded (fun r x h => .disconnect h) (fun a e h => by cases h) rfl h
  | mark v =>
    simp only [inFirestore, answeringExn, answering, Vault.mark]
    split
    · exact .same
    · rename_i doc tools hstart
      exact writes_mark connectorId (markStart_ok hstart) i.commit doc
  | delete generation requireDisconnect =>
    simp only [inFirestore, answeringExn, answering, Vault.delete]
    split_ifs
    · exact .same
    · refine writes_transact i.commit fun a e h => ?_
      unfold deleteTransaction at h
      split at h
      · cases h
        exact .same
      · rename_i doc howned
        have hd := mem_owned howned
        split_ifs at h with hdeletable
        · rw [hd]
          cases h
          exact .delete hdeletable
        · cases h
          exact .same

end Firestore

/-! ## Ready means certified -/

/-- a ready connection carries the certificate for it -/
def Sound {σ : Type} (L : Libs) (d : Option (ConnectionRecord × σ)) : Prop :=
  ∀ p ∈ d, p.1.status = "ready" → LiveCertificate L p.1.certificate

section Sound

variable {σ : Type} {L : Libs} {connectorId : String} {draw : Draw} {op : Op} {d e : Option (ConnectionRecord × σ)}

theorem sound_judged {v : Verdict} {tools : List (String × String)} (hv : validateCertification L v = .ok tools)
    (r : ConnectionRecord) (x : σ) : Sound L (some (judged r v tools draw, x)) := by
  intro p hp hready
  cases hp
  exact validate_ready hv hready

theorem finishTools_ok {v : Verdict} {tools : List (String × String)} (h : finishTools L v = .ok tools) :
    validateCertification L v = .ok tools := by
  unfold finishTools at h
  split_ifs at h
  exact h

/-- a record that is not ready has nothing to show -/
theorem sound_of_status {r : ConnectionRecord} (h : r.status ≠ "ready") (x : σ) : Sound L (some (r, x)) := by
  intro p hp hready
  cases hp
  exact absurd hready h

/-- a change that touches neither status nor certificate -/
theorem Sound.congr {r r' : ConnectionRecord} {x y : σ} (h : Sound L (some (r, x))) (hstatus : r'.status = r.status)
    (hcertificate : r'.certificate = r.certificate) : Sound L (some (r', y)) := by
  intro p hp hready
  cases hp
  rw [hcertificate]
  exact h _ rfl (hstatus.symm.trans hready)

/-- no operation leaves a ready connection without its certificate -/
theorem Writes.sound (hw : Writes L connectorId draw op d e) (h : Sound L d) : Sound L e := by
  cases hw with
  | same => exact h
  | put => exact sound_of_status (by simp [newRecord]) _
  | rotate _ => exact h.congr rfl rfl
  | quarantine _ => exact sound_of_status (by simp [demoted]) _
  | verify _ => exact sound_of_status (by simp [verifying]) _
  | finish hv _ => exact sound_judged (finishTools_ok hv) _ _
  | claim _ _ => exact h.congr rfl rfl
  | release _ => exact h.congr rfl rfl
  | disconnect _ => exact sound_of_status (by simp [disconnecting, demoted]) _
  | mark hv => exact sound_judged (markTools_ok hv) _ _
  | @markCounted v tools r x hv =>
    by_cases hready : v.status = "ready"
    · rw [← (judged_eq_marked_iff r v tools draw).2 (.inl hready)]
      exact sound_judged (markTools_ok hv) _ _
    · exact sound_of_status hready _
  | delete _ => exact fun p hp => nomatch hp

/-- `rotate` changes neither the status nor the certificate -/
theorem Writes.rotate_keeps {g l : String} {expected secret : ConnectorSecret}
    (hw : Writes L connectorId draw (.rotate g l expected secret) d e) :
    (e.map fun p => (p.1.status, p.1.certificate)) = d.map fun p => (p.1.status, p.1.certificate) := by
  cases hw with
  | same => rfl
  | rotate _ => rfl

end Sound

/-! ## Runs of the vault in Firestore -/

/-- a `mark` that has read its document -/
structure Pending where
  id : String
  verdict : Verdict
  tools : List (String × String)
  read : Document

/-- the documents, and the marks under way -/
structure Firestore where
  documents : FirestoreStore
  marks : List Pending

/-- an operation whose transaction is one step, whatever its services do, or a half of `mark` -/
inductive Act where
  | call (uid connectorId : String) (i : Services) (op : Op)
  | startMark (uid connectorId : String) (reading : Option Fault) (v : Verdict)
  | finishMark (n : ℕ) (c : Commit) (draw : Draw)

def Firestore.step (V : Platform) (s : Firestore) : Act → Firestore
  | .call uid connectorId i op =>
    let id := documentId V.libs (uid, connectorId)
    { s with
      documents := Dict.assign s.documents id (inFirestore V uid connectorId i op (Dict.get? s.documents id)).2 }
  | .startMark uid connectorId reading v =>
    let id := documentId V.libs (uid, connectorId)
    match markStart V uid connectorId reading v (Dict.get? s.documents id) with
    | .error _ => s
    | .ok (doc, tools) => { s with marks := s.marks ++ [⟨id, v, tools, doc⟩] }
  | .finishMark n c draw =>
    match s.marks[n]? with
    | none => s
    | some m =>
      { documents := Dict.assign s.documents m.id
          (markFinish c draw m.verdict m.tools m.read (Dict.get? s.documents m.id)).2
        marks := s.marks.eraseIdx n }

/-- the invariant of the vault in Firestore -/
structure Firestore.Inv (V : Platform) (s : Firestore) : Prop where
  documents : ∀ p ∈ s.documents, Sound V.libs (documentView (some p.2))
  marks : ∀ m ∈ s.marks, markTools V.libs m.verdict = .ok m.tools

section Runs

variable {V : Platform} {L : Libs}

theorem mem_of_get? {κ α : Type} [DecidableEq κ] {d : List (κ × α)} {k : κ} {a : α} (h : Dict.get? d k = some a) :
    ∃ l, (l, a) ∈ d := by
  obtain ⟨p, hp, rfl⟩ := Option.map_eq_some_iff.1 h
  exact ⟨p.1, List.mem_of_find?_eq_some hp⟩

/-- a document that is written keeps the documents sound -/
theorem sound_assign {s : FirestoreStore} (h : ∀ p ∈ s, Sound V.libs (documentView (some p.2))) {id : String}
    {e : Option Document}
    (hw : Sound V.libs (documentView (Dict.get? s id)) → Sound V.libs (documentView e)) :
    ∀ p ∈ Dict.assign s id e, Sound V.libs (documentView (some p.2)) := by
  intro p hp
  rcases Dict.mem_assign hp with hp | ⟨doc, hdoc, rfl⟩
  · exact h p hp
  · have hbefore : Sound V.libs (documentView (Dict.get? s id)) := by
      cases hget : Dict.get? s id with
      | none => exact fun p hp => nomatch hp
      | some old =>
        obtain ⟨l, hl⟩ := mem_of_get? hget
        exact h _ hl
    have hafter := hw hbefore
    rw [Option.mem_def.1 hdoc] at hafter
    exact hafter

theorem Firestore.step_inv {s : Firestore} (h : s.Inv V) (a : Act) : (s.step V a).Inv V := by
  cases a with
  | call uid connectorId i op => exact ⟨sound_assign h.documents (firestore_writes V uid connectorId i op _).sound, h.marks⟩
  | startMark uid connectorId reading v =>
    unfold Firestore.step
    dsimp only
    split
    · exact h
    · rename_i doc tools hstart
      refine ⟨h.documents, fun m hm => ?_⟩
      rcases List.mem_append.1 hm with hm | hm
      · exact h.marks m hm
      · rw [List.mem_singleton.1 hm]
        exact markStart_ok hstart
  | finishMark n c draw =>
    unfold Firestore.step
    dsimp only
    split
    · exact h
    · rename_i m hm
      have hv := h.marks m (List.mem_of_getElem? hm)
      refine ⟨sound_assign h.documents ?_, fun m' hm' => h.marks m' ((List.eraseIdx_sublist _ _).subset hm')⟩
      exact (writes_mark "" hv c m.read).sound

theorem Firestore.run_inv (acts : List Act) {s : Firestore} (h : s.Inv V) : (acts.foldl (Firestore.step V) s).Inv V := by
  induction acts generalizing s with
  | nil => exact h
  | cons a acts ih => exact ih (Firestore.step_inv h a)

/-- the invariant of the vault in memory -/
def MemorySound (L : Libs) (s : MemoryStore) : Prop := ∀ p ∈ s, Sound L (itemView (some p.2))

theorem memory_step_sound {s : MemoryStore} (h : MemorySound L s) (q : Request) :
    MemorySound L (MemoryStore.answer L s q).2 := by
  obtain ⟨draw, random, call⟩ := q
  cases call with
  | list uid => exact h
  | on uid connectorId op =>
    intro p hp
    rcases Dict.mem_assign hp with hp | ⟨item, hitem, rfl⟩
    · exact h p hp
    · have hbefore : Sound L (itemView (Dict.get? s (uid, connectorId))) := by
        cases hget : Dict.get? s (uid, connectorId) with
        | none => exact fun p hp => nomatch hp
        | some old =>
          obtain ⟨l, hl⟩ := mem_of_get? hget
          exact h _ hl
      have hafter := (memory_writes L connectorId draw op (Dict.get? s (uid, connectorId))).sound hbefore
      have hwritten : (inMemory L connectorId draw op (Dict.get? s (uid, connectorId))).2 = some item := hitem
      rw [hwritten] at hafter
      exact hafter

/-- **Ready means certified.** In any run of either vault from no records, with any answers of its services and any
marks under way, each ready record carries the certificate for it; and `rotate` changes neither its status nor its
certificate. -/
theorem ready_is_certified :
    (∀ (L : Libs) (calls : List Request), ∀ p ∈ Lockstep.final (MemoryStore.answer L) [] calls,
      p.2.record.status = "ready" → LiveCertificate L p.2.record.certificate) ∧
    (∀ (V : Platform) (acts : List Act), ∀ p ∈ (acts.foldl (Firestore.step V) ⟨[], []⟩).documents,
      p.2.record.status = "ready" → LiveCertificate V.libs p.2.record.certificate) ∧
    (∀ (L : Libs) (connectorId : String) (draw : Draw) (generation lease : String) (expected secret : ConnectorSecret)
      (d : Option StoredConnection),
      ((inMemory L connectorId draw (.rotate generation lease expected secret) d).2.map
          fun item => (item.record.status, item.record.certificate)) =
        d.map fun item => (item.record.status, item.record.certificate)) ∧
    ∀ (V : Platform) (uid connectorId : String) (i : Services) (generation lease : String)
      (expected secret : ConnectorSecret) (d : Option Document),
      ((inFirestore V uid connectorId i (.rotate generation lease expected secret) d).2.map
          fun doc => (doc.record.status, doc.record.certificate)) =
        d.map fun doc => (doc.record.status, doc.record.certificate) := by
  refine ⟨fun L calls p hp => ?_, fun V acts p hp => ?_, fun L connectorId draw g l expected secret d => ?_,
    fun V uid connectorId i g l expected secret d => ?_⟩
  · have hsound : MemorySound L (Lockstep.final (MemoryStore.answer L) [] calls) :=
      Lockstep.final_inv (p := MemorySound L) (fun s q h => memory_step_sound h q) (fun p hp => by cases hp) calls
    exact hsound p hp _ rfl
  · have hinv := Firestore.run_inv (V := V) acts (s := ⟨[], []⟩) ⟨fun p hp => (nomatch hp), fun m hm => nomatch hm⟩
    exact hinv.documents p hp _ rfl
  · have hkeeps := (memory_writes L connectorId draw (.rotate g l expected secret) d).rotate_keeps
    simpa only [itemView, Option.map_map, Function.comp_def] using hkeeps
  · have hkeeps := (firestore_writes V uid connectorId i (.rotate g l expected secret) d).rotate_keeps
    simpa only [documentView, Option.map_map, Function.comp_def] using hkeeps

end Runs

end Rally.Cloud.Vaults
