/-
The quarantine of a credential that a hosted call finds unusable (`HostedConnectorExecutor.execute` of
`cloud/hosted_connector_execution.py` over `GoogleKmsConnectorVault`).

The quarantine names the credential, the generation and the lease that the call holds in its local variables. A refresh stores
another credential under another generation, and only then looks at what it has stored; the variables follow where that is
usable.

- `Stand`: what the document holds after the calls of the vault so far. `serves_holds`: one call of the vault.
- `Fits`: the variables name what the document holds, or a refresh has stored an unusable credential and they do not.
- `quarantine_exact`: after a terminal failure the connection has to be connected again exactly where no refresh did.
- `bad_token_quarantined`: a call without a refresh. `short_grant_stays_ready`: a refresh that did.
-/
import Rally.Core.Rely
import Rally.Cloud.Sealing
import Rally.Cloud.VaultLeases

namespace Rally.Cloud.Quarantine

open Py Proc Vault Vaults

/-! ## The vault during a call -/

section Vault

variable (V : Platform) (uid connectorId : String)

/-- a write whose transaction and opening work -/
def working (draw : Draw) (sealing : Except VaultExn Envelope) : WriteInput := ⟨draw, sealing, .done, none⟩

/-- calls of the vault that succeed, with the document before and after: KMS and Firestore work, a sealed credential opens, and
a generation that is drawn is another one -/
inductive Serves : Option Document → VaultCall → Option Document → Prop where
  | claim {draw : Draw} {d e : Option Document} {answer : Option StoredConnection}
      (h : claimExecution V uid connectorId ⟨draw, .done, none⟩ d = (.ok answer, e)) : Serves d (.claim (.ok answer)) e
  | get {d : Option Document} {answer : Option StoredConnection}
      (h : getConnection V uid connectorId ⟨none, none⟩ d = .ok answer) : Serves d (.get (.ok answer)) d
  | rotate {draw : Draw} {envelope : Envelope} {d e : Option Document} {generation lease : String}
      {expected secret : ConnectorSecret} {answer : Option ConnectionRecord}
      (hopens : (V.openEnvelope envelope (associatedData uid connectorId)).bind (secretOf V) = some secret)
      (hfresh : draw.fresh ≠ generation)
      (h : rotate V uid connectorId (working draw (.ok envelope)) generation lease expected secret d = (.ok answer, e)) :
      Serves d (.rotate generation lease expected secret (.ok answer)) e
  | quarantine {draw : Draw} {sealing : Except VaultExn Envelope} {d e : Option Document} {generation lease : String}
      {expected : ConnectorSecret} {answer : Bool}
      (h : quarantine V uid connectorId (working draw sealing) generation lease "reconnect_required" expected d =
        (.ok answer, e)) : Serves d (.quarantine generation lease expected (.ok answer)) e
  | release {draw : Draw} {sealing : Except VaultExn Envelope} {d e : Option Document} {lease : String} {answer : Bool}
      (h : releaseExecution V uid connectorId (working draw sealing) lease d = (.ok answer, e)) :
      Serves d (.release lease (.ok answer)) e

/-- the document over the events of a call, with nobody else at work on it -/
inductive Served : Option Document → List Ev → Option Document → Prop where
  | nil {d : Option Document} : Served d [] d
  | vault {d e f : Option Document} {call : VaultCall} {l : List Ev} (h : Serves V uid connectorId d call e)
      (rest : Served e l f) : Served d (.vault uid connectorId call :: l) f
  | receipt {d e : Option Document} {u : String} {r : ExecutionReceipt} {a : Except Exn Unit} {l : List Ev}
      (rest : Served d l e) : Served d (.receipt u r a :: l) e
  | refresh {d e : Option Document} {x : ConnectorSecret} {a : Except Exn String} {l : List Ev} (rest : Served d l e) :
      Served d (.refresh x a :: l) e
  | tool {d f : Option Document} {e n s : String} {h : List (String × String)} {v : List (String × Value)}
      {a : Except Exn HostedCallResult} {l : List Ev} (rest : Served d l f) : Served d (.tool e h n v s a :: l) f

/-- the connection has to be connected again -/
def Quarantined (d : Option Document) : Prop :=
  ∃ doc, d = some doc ∧ doc.record.status = "needs_attention" ∧ doc.record.errorCode = some "reconnect_required"

end Vault

/-! ## The stand of the document -/

/-- what the document holds -/
inductive Stand where
  | idle
  | held (secret : ConnectorSecret) (generation lease : String)
  | quarantined
  | released
  | other

/-- what a call of the vault makes of it -/
def Stand.next : Stand → VaultCall → Stand
  | .idle, .claim (.ok (some stored)) =>
    .held stored.secret stored.record.credentialGeneration (stored.record.executionLease.getD "")
  | .held s g l, .get _ => .held s g l
  | .held _ _ l, .rotate _ _ _ secret (.ok (some record)) => .held secret record.credentialGeneration l
  | .held s g l, .rotate _ _ _ _ (.ok none) => .held s g l
  | .held _ _ _, .quarantine _ _ _ (.ok true) => .quarantined
  | .held s g l, .quarantine _ _ _ (.ok false) => .held s g l
  | .held _ _ _, .release _ (.ok _) => .released
  | _, _ => .other

/-- the answer is no exception -/
def Answered : VaultCall → Prop
  | .claim answer => ∃ a, answer = .ok a
  | .get answer => ∃ a, answer = .ok a
  | .rotate _ _ _ _ answer => ∃ a, answer = .ok a
  | .quarantine _ _ _ answer => ∃ a, answer = .ok a
  | .release _ answer => ∃ a, answer = .ok a

/-- what the answer says of a document that stands so -/
def Stand.Says : Stand → VaultCall → Prop
  | .idle, .claim (.ok (some stored)) => ∃ lease, stored.record.executionLease = some lease
  | .held s g l, .rotate generation lease expected secret (.ok answer) =>
    generation = g → lease = l → expected = s → secret.kind = expected.kind →
      ∃ record, answer = some record ∧ record.credentialGeneration ≠ g
  | .held s g l, .quarantine generation lease expected (.ok answer) =>
    (generation = g → lease = l → expected = s → answer = true) ∧ (generation ≠ g → answer = false)
  | _, _ => True

/-- a document stands so -/
def Stand.Holds (V : Platform) (uid connectorId : String) : Stand → Option Document → Prop
  | .held s g l, d => ∃ doc, d = some doc ∧ Presents V uid doc g l ∧ openSecret V uid connectorId doc = some s
  | .quarantined, d => Quarantined d
  | .released, d => ∃ doc, d = some doc ∧ doc.record.status = "ready"
  | _, _ => True

section Serves

variable {V : Platform} {uid connectorId generation lease : String} {draw : Draw} {sealing : Except VaultExn Envelope}
  {envelope : Envelope} {doc : Document} {d e : Option Document} {expected secret current : ConnectorSecret}

/-! ## One call of the vault -/

theorem publicRecord_some {record answer : ConnectionRecord} (h : publicRecord record = some answer) :
    ∃ tools, answer = { record with certifiedTools := tools } := by
  rw [publicRecord] at h
  split_ifs at h
  split at h
  · rename_i tools _
    exact ⟨tools, (Option.some.inj h).symm⟩
  · cases h

/-- a claim that is answered with a connection holds it -/
theorem claim_holds {stored : StoredConnection}
    (h : claimExecution V uid connectorId ⟨draw, .done, none⟩ d = (.ok (some stored), e)) :
    ∃ claimed, e = some claimed ∧ stored.record.executionLease = some draw.fresh ∧
      Presents V uid claimed stored.record.credentialGeneration draw.fresh ∧
      openSecret V uid connectorId claimed = some stored.secret := by
  obtain ⟨claimed, htransaction, hopens⟩ := claim_ok (congrArg Prod.fst h)
  rw [h] at htransaction
  obtain ⟨hsecret, hrecord⟩ := openDocument_some hopens
  obtain ⟨tools, hstored⟩ := publicRecord_some hrecord
  obtain ⟨doc, rfl, hready, -, rfl, rfl⟩ := claimTransaction_ok htransaction
  have howner : doc.ownerHash = ownerHash V uid := by
    by_contra howner
    simp [claimTransaction, howner] at htransaction
  exact ⟨_, rfl, by rw [hstored]; rfl, ⟨howner, hready, by rw [hstored], rfl⟩, hsecret⟩

theorem sameSecret_false (h : sameSecret current expected = some false) : current ≠ expected := by
  rintro rfl
  simp [sameSecret, compareDigest] at h

/-- the document and its credential, where it presents these -/
theorem presenting_eq (hsecret : openSecret V uid connectorId doc = some current) :
    presenting V uid connectorId none generation lease (some doc) =
      if Presents V uid doc generation lease then .ok (some (doc, current)) else .ok none := by
  by_cases hpresents : Presents V uid doc generation lease <;> simp [presenting, hpresents, hsecret]

/-- a rotation that is answered has replaced the credential, or it was for another one -/
theorem rotate_answer {answer : Option ConnectionRecord} (hsecret : openSecret V uid connectorId doc = some current)
    (h : rotate V uid connectorId (working draw (.ok envelope)) generation lease expected secret (some doc) = (.ok answer, e)) :
    (∃ record, answer = some record ∧ record.credentialGeneration = draw.fresh ∧
        Presents V uid doc generation lease ∧ e = some (rotated doc secret envelope draw)) ∨
      (answer = none ∧ e = some doc ∧
        ¬ (Presents V uid doc generation lease ∧ current = expected ∧ secret.kind = expected.kind)) := by
  have hpresenting := @presenting_eq V uid connectorId generation lease doc current hsecret
  cases hid : isConnectorId connectorId with
  | false => simp [rotate, hid] at h
  | true =>
    simp only [rotate, hid, working, rotateTransaction, Bool.not_true, Bool.false_eq_true, if_false] at h
    by_cases hpresents : Presents V uid doc generation lease
    · rw [if_pos hpresents] at hpresenting
      simp only [hpresenting] at h
      by_cases hkind : secret.kind = expected.kind
      · rw [if_neg (not_not.2 hkind)] at h
        cases hsame : sameSecret current expected with
        | none =>
          simp only [hsame, transact] at h
          cases h
        | some same =>
          cases same with
          | false =>
            simp only [hsame, transact] at h
            cases h
            exact .inr ⟨rfl, rfl, fun hall => sameSecret_false hsame hall.2.1⟩
          | true =>
            simp only [hsame, transact] at h
            cases hpublic : publicRecord (rotated doc secret envelope draw).record with
            | none =>
              simp only [hpublic] at h
              cases h
            | some record =>
              simp only [hpublic] at h
              cases h
              obtain ⟨tools, hrecord⟩ := publicRecord_some hpublic
              exact .inl ⟨record, rfl, by rw [hrecord]; rfl, hpresents, rfl⟩
      · rw [if_pos hkind] at h
        cases h
        exact .inr ⟨rfl, rfl, fun hall => hkind hall.2.2⟩
    · rw [if_neg hpresents] at hpresenting
      simp only [hpresenting] at h
      cases h
      exact .inr ⟨rfl, rfl, fun hall => hpresents hall.1⟩

/-- a quarantine that is answered has demoted the connection, or it was for another credential -/
theorem quarantine_answer {errorCode : String} {answer : Bool} (hsecret : openSecret V uid connectorId doc = some current)
    (h : quarantine V uid connectorId (working draw sealing) generation lease errorCode expected (some doc) =
      (.ok answer, e)) :
    (answer = true ∧ Presents V uid doc generation lease ∧
        e = some { doc with record := demoted doc.record errorCode draw }) ∨
      (answer = false ∧ e = some doc ∧ ¬ (Presents V uid doc generation lease ∧ current = expected)) := by
  have hpresenting := @presenting_eq V uid connectorId generation lease doc current hsecret
  cases hid : isConnectorId connectorId with
  | false => simp [quarantine, hid] at h
  | true =>
    simp only [quarantine, hid, working, quarantineTransaction, Bool.not_true, Bool.false_eq_true, if_false] at h
    by_cases hpresents : Presents V uid doc generation lease
    · rw [if_pos hpresents] at hpresenting
      simp only [hpresenting] at h
      cases hsame : sameSecret current expected with
      | none =>
        simp only [hsame, transact] at h
        cases h
      | some same =>
        simp only [hsame, transact] at h
        cases same with
        | false =>
          cases h
          exact .inr ⟨rfl, rfl, fun hall => sameSecret_false hsame hall.2⟩
        | true =>
          cases h
          exact .inl ⟨rfl, hpresents, rfl⟩
    · rw [if_neg hpresents] at hpresenting
      simp only [hpresenting] at h
      cases h
      exact .inr ⟨rfl, rfl, fun hall => hpresents hall.1⟩

/-- a release that is answered leaves the status -/
theorem release_answer {answer : Bool}
    (h : releaseExecution V uid connectorId (working draw sealing) lease (some doc) = (.ok answer, e)) :
    ∃ after, e = some after ∧ after.record.status = doc.record.status := by
  simp only [releaseExecution, working, releaseTransaction] at h
  split_ifs at h
  · cases h
  · cases h
    exact ⟨doc, rfl, rfl⟩
  · cases h
    exact ⟨_, rfl, rfl⟩

theorem Serves.answered {call : VaultCall} (h : Serves V uid connectorId d call e) : Answered call := by
  cases h <;> exact ⟨_, rfl⟩

/-- a call of the vault that succeeds says what stands, and the document stands so afterwards -/
theorem serves_holds {call : VaultCall} {t : Stand} (h : Serves V uid connectorId d call e) (ht : t.Holds V uid connectorId d) :
    t.Says call ∧ (t.next call).Holds V uid connectorId e := by
  cases t with
  | idle =>
    cases h with
    | claim h =>
      rename_i draw answer
      cases answer with
      | none => exact ⟨trivial, trivial⟩
      | some stored =>
        obtain ⟨claimed, rfl, hlease, hpresents, hsecret⟩ := claim_holds h
        refine ⟨⟨_, hlease⟩, claimed, rfl, ?_, hsecret⟩
        rw [hlease]
        exact hpresents
    | _ => exact ⟨trivial, trivial⟩
  | held s g l =>
    obtain ⟨doc, rfl, hpresents, hsecret⟩ := ht
    cases h with
    | claim h => exact ⟨trivial, trivial⟩
    | get h => exact ⟨trivial, doc, rfl, hpresents, hsecret⟩
    | rotate hopens hfresh h =>
      rcases rotate_answer hsecret h with ⟨record, rfl, hgeneration, hnamed, rfl⟩ | ⟨rfl, rfl, hnot⟩
      · refine ⟨fun hg _ _ _ => ⟨record, rfl, ?_⟩, _, rfl, ?_, hopens⟩
        · rw [hgeneration, ← hg]
          exact hfresh
        · exact ⟨hpresents.1, hpresents.2.1, hgeneration.symm, hpresents.2.2.2⟩
      · refine ⟨?_, doc, rfl, hpresents, hsecret⟩
        rintro rfl rfl rfl hkind
        exact absurd ⟨hpresents, rfl, hkind⟩ hnot
    | quarantine h =>
      rcases quarantine_answer hsecret h with ⟨rfl, hnamed, rfl⟩ | ⟨rfl, rfl, hnot⟩
      · refine ⟨⟨fun _ _ _ => rfl, fun hg => absurd ?_ hg⟩, _, rfl, rfl, rfl⟩
        exact hnamed.2.2.1.symm.trans hpresents.2.2.1
      · refine ⟨⟨?_, fun _ => rfl⟩, doc, rfl, hpresents, hsecret⟩
        rintro rfl rfl rfl
        exact absurd ⟨hpresents, rfl⟩ hnot
    | release h =>
      obtain ⟨after, rfl, hstatus⟩ := release_answer h
      exact ⟨trivial, after, rfl, hstatus.trans hpresents.2.1⟩
  | quarantined => exact ⟨by cases h <;> trivial, by cases h <;> trivial⟩
  | released => exact ⟨by cases h <;> trivial, by cases h <;> trivial⟩
  | other => exact ⟨by cases h <;> trivial, by cases h <;> trivial⟩

end Serves

/-! ## The events of a call -/

/-- a failure that the call takes as the end of the credential -/
def Terminal (e : Exn) : Prop := ∃ code c, failureOf e = some (code, c) ∧ code ∈ terminalAuthErrors

/-- a refresh whose answer is stored and then found unusable -/
def Spoils (L : Libs) (req : Request) (now : ℤ) : Ev → Prop
  | .refresh previous (.ok value) =>
    ∃ item secret e, connector req.connectorId = .ok item ∧ ConnectorSecret.make value previous.kind = some secret ∧
      runtimeMaterial L item value now = .error e ∧ Terminal e
  | _ => False

/-- the stand of the document, and whether a refresh has spoiled it -/
abbrev Watching := Stand × Prop

/-- what an event does to the stand -/
def standAfter (t : Stand) : Ev → Stand
  | .vault _ _ call => t.next call
  | _ => t

/-- what is relied on: the vault answers, and says what stands -/
def Reliable (t : Watching) : Ev → Prop
  | .vault _ _ call => Answered call ∧ t.1.Says call
  | _ => True

/-- the monitor of the document -/
def watch (L : Libs) (req : Request) (now : ℤ) : Monitor Ev Watching where
  next t ev := (standAfter t.1 ev, t.2 ∨ Spoils L req now ev)
  fine := Reliable

section Served

variable {V : Platform} {L : Libs} {req : Request} {now : ℤ} {uid connectorId : String} {d e : Option Document}
  {evs : List Ev}

/-- a document that is served is what stands after the events -/
theorem served_watched (h : Served V uid connectorId d evs e) {t : Watching} (ht : t.1.Holds V uid connectorId d) :
    (watch L req now).Accepts t evs ∧ ((watch L req now).after t evs).1.Holds V uid connectorId e := by
  induction h generalizing t with
  | nil => exact ⟨.nil, ht⟩
  | vault h _ ih =>
    obtain ⟨hanswer, hholds⟩ := serves_holds h ht
    obtain ⟨haccepts, hend⟩ := @ih ((watch L req now).next t (.vault uid connectorId _)) hholds
    exact ⟨.cons ⟨h.answered, hanswer⟩ haccepts, hend⟩
  | @receipt _ _ u r a _ _ ih =>
    obtain ⟨haccepts, hend⟩ := @ih ((watch L req now).next t (.receipt u r a)) ht
    exact ⟨.cons trivial haccepts, hend⟩
  | @refresh _ _ x a _ _ ih =>
    obtain ⟨haccepts, hend⟩ := @ih ((watch L req now).next t (.refresh x a)) ht
    exact ⟨.cons trivial haccepts, hend⟩
  | @tool _ _ e n s h v a _ _ ih =>
    obtain ⟨haccepts, hend⟩ := @ih ((watch L req now).next t (.tool e h n v s a)) ht
    exact ⟨.cons trivial haccepts, hend⟩

theorem spoiled_iff (t : Watching) (evs : List Ev) :
    ((watch L req now).after t evs).2 ↔ t.2 ∨ ∃ ev ∈ evs, Spoils L req now ev := by
  induction evs generalizing t with
  | nil => simp
  | cons ev evs ih =>
    rw [Monitor.after_cons, ih]
    simp [watch, or_assoc]

end Served

/-! ## The variables of a call -/

/-- the variables name what the document holds -/
structure Using (s : ConnectorSecret) (g l : String) (u : Locals) (t : Watching) : Prop where
  secret : u.secret = some s
  generation : u.generation = some g
  lease : u.lease = some l
  stand : t.1 = .held s g l
  sound : ¬ t.2
  failure : u.failure = none

/-- the variables name what the document holds, or a refresh has spoiled it and it is under another generation -/
def Fits (u : Locals) (t : Watching) : Prop :=
  ∃ s g l, u.secret = some s ∧ u.generation = some g ∧ u.lease = some l ∧
    ((t.1 = .held s g l ∧ ¬ t.2) ∨ (t.2 ∧ ∃ s' g', t.1 = .held s' g' l ∧ g' ≠ g))

theorem Using.fits {s : ConnectorSecret} {g l : String} {u : Locals} {t : Watching} (h : Using s g l u t) : Fits u t :=
  ⟨s, g, l, h.secret, h.generation, h.lease, .inl ⟨h.stand, h.sound⟩⟩

/-- an event that neither moves the stand nor spoils it -/
theorem Using.after {L : Libs} {req : Request} {now : ℤ} {s : ConnectorSecret} {g l : String} {u : Locals} {t : Watching}
    (h : Using s g l u t) {ev : Ev} (hstand : standAfter t.1 ev = t.1) (hsound : ¬ Spoils L req now ev) :
    Using s g l u ((watch L req now).next t ev) :=
  ⟨h.secret, h.generation, h.lease, hstand.trans h.stand, not_or.2 ⟨h.sound, hsound⟩, h.failure⟩

/-- how a part of the call ends: with `q`, or without a failure on record and, where what it raises is terminal, with variables
that fit -/
def Ends {α : Type} (q : α → Locals → Watching → Prop) : Except Exn α → Locals → Watching → Prop
  | .ok a, u, t => q a u t
  | .error e, u, t => u.failure = none ∧ (Terminal e → Fits u t)

theorem Using.ends {α : Type} {s : ConnectorSecret} {g l : String} {u : Locals} {t : Watching} (h : Using s g l u t)
    (q : α → Locals → Watching → Prop) (e : Exn) : Ends q (.error e) u t := ⟨h.failure, fun _ => h.fits⟩

theorem ends_other {α : Type} {q : α → Locals → Watching → Prop} {e : Exn} {u : Locals} {t : Watching}
    (hfailure : u.failure = none) (he : ¬ Terminal e) : Ends q (.error e) u t := ⟨hfailure, fun h => absurd h he⟩

theorem not_terminal_fault (f : Fault) : ¬ Terminal (.fault f) := by
  rintro ⟨code, c, h, hmem⟩
  cases f <;> cases h <;> revert hmem <;> decide

theorem not_terminal_vault (e : VaultError) : ¬ Terminal (.vault e) := by
  rintro ⟨code, c, h, hmem⟩
  cases h
  revert hmem
  decide

theorem not_terminal_exn (e : VaultExn) : ¬ Terminal e.exn := by
  cases e with
  | vault e => exact not_terminal_vault e
  | fault f => exact not_terminal_fault f

theorem terminal_hosted {code : Code} {r : Option ExecutionReceipt} :
    Terminal (.hosted code r) ↔ code ∈ terminalAuthErrors := by
  constructor
  · rintro ⟨_, _, h, hmem⟩
    cases h
    exact hmem
  · exact fun h => ⟨code, false, rfl, h⟩

section Variables

variable {L : Libs} {req : Request} {w : World} {u : Locals} {t : Watching} {item : HostedConnector}
  {s previous : ConnectorSecret} {g l : String}

/-- a part of the call over the events it relies on -/
abbrev Goes {α : Type} (L : Libs) (req : Request) (w : World) (t : Watching) (p : Step α) (u : Locals)
    (q : α → Locals → Watching → Prop) : Prop :=
  Relies (watch L req w.created) t p u (Ends q)

/-- one part, then another -/
theorem goes_bind {α β : Type} {x : Step α} {f : α → Step β} {r : α → Locals → Watching → Prop}
    {q : β → Locals → Watching → Prop} (hx : Goes L req w t x u r) (hf : ∀ a u t, r a u t → Goes L req w t (f a) u q) :
    Goes L req w t (x >>= f) u q := relies_bind hx hf fun _ _ _ h => h

/-- a computation that may raise, with variables that fit -/
theorem goes_lift {α : Type} (h : Using s g l u t) (x : Except Exn α) :
    Goes L req w t (lift x) u fun a u t => x = .ok a ∧ Using s g l u t := by
  refine relies_lift ?_
  cases x with
  | ok a => exact ⟨rfl, h⟩
  | error e => exact h.ends _ e

theorem goes_raise {α : Type} {q : α → Locals → Watching → Prop} (h : Using s g l u t) (e : Exn) :
    Goes L req w t (raise e) u q := relies_raise (h.ends q e)

/-! ## Refreshing -/

/-- a credential that is stored is found usable, or the refresh has spoiled the document -/
theorem goes_stored {value : String} {refreshed : ConnectorSecret} {record : ConnectionRecord}
    (hitem : connector req.connectorId = .ok item) (h : Using s g l u t) (hmake : ConnectorSecret.make value s.kind = some refreshed)
    (hfresh : record.credentialGeneration ≠ g) {t' : Watching} (hstand : t'.1 = .held refreshed record.credentialGeneration l)
    (hspoiled : t'.2 ↔ Spoils L req w.created (.refresh s (.ok value))) :
    Goes L req w t' (lift (runtimeMaterial L item refreshed.value w.created)) u fun _ u t =>
      u.lease = some l ∧ u.failure = none ∧ t.1 = .held refreshed record.credentialGeneration l ∧ ¬ t.2 := by
  refine relies_lift ?_
  have hvalue := (ConnectorSecret.make_eq_some hmake).1
  cases hmaterial : runtimeMaterial L item refreshed.value w.created with
  | ok material =>
    refine ⟨h.lease, h.failure, hstand, ?_⟩
    rw [hspoiled]
    rintro ⟨item', secret, e, hitem', -, herror, -⟩
    cases hitem.symm.trans hitem'
    rw [← hvalue, hmaterial] at herror
    cases herror
  | error e =>
    refine ⟨h.failure, fun hterminal => ?_⟩
    refine ⟨s, g, l, h.secret, h.generation, h.lease, .inr ⟨hspoiled.2 ?_, _, _, hstand, hfresh⟩⟩
    exact ⟨item, refreshed, e, hitem, hmake, hvalue ▸ hmaterial, hterminal⟩

/-- the rotation of the credential in use is answered with a record of another generation -/
theorem goes_rotate {value : String} {refreshed : ConnectorSecret} (h : Using s g l u t)
    (hmake : ConnectorSecret.make value s.kind = some refreshed) (answer : Except VaultExn (Option ConnectionRecord)) :
    Goes L req w ((watch L req w.created).next t (.refresh s (.ok value)))
      (askVault req (.rotate g l s refreshed) answer) u fun rotated u' t' =>
        u' = u ∧ ∃ record, rotated = some record ∧ record.credentialGeneration ≠ g ∧
          t'.1 = .held refreshed record.credentialGeneration l ∧ (t'.2 ↔ Spoils L req w.created (.refresh s (.ok value))) := by
  refine relies_await ?_
  rintro ⟨-, hsays⟩
  have hstand : ((watch L req w.created).next t (.refresh s (.ok value))).1 = .held s g l := h.stand
  cases answer with
  | error e => exact ends_other h.failure (not_terminal_exn e)
  | ok rotated =>
    rw [hstand] at hsays
    obtain ⟨record, rfl, hfresh⟩ := hsays rfl rfl rfl (ConnectorSecret.make_eq_some hmake).2
    refine ⟨rfl, record, rfl, hfresh, ?_, ?_⟩
    · change Stand.next ((watch L req w.created).next t (.refresh s (.ok value))).1
        (.rotate g l s refreshed (.ok (some record))) = _
      rw [hstand]
      rfl
    · change ((t.2 ∨ Spoils L req w.created (.refresh s (.ok value))) ∨ False) ↔ _
      simp [h.sound]

/-- a refresh stores the new credential and lets the variables follow, or fails with variables that fit -/
theorem goes_refresh (hitem : connector req.connectorId = .ok item) (h : Using s g l u t) (answers : RefreshAnswers) :
    Goes L req w t (refresh L req item s g l w.created answers) u fun inUse u t =>
      Using inUse.secret inUse.generation l u t := by
  refine @goes_bind L req w u t _ _ _ _ (fun inUse u t => u.lease = some l ∧ u.failure = none ∧
    t.1 = .held inUse.secret inUse.generation l ∧ ¬ t.2) _ ?_ ?_
  · refine goes_bind (r := fun value u' t' => u' = u ∧ t' = (watch L req w.created).next t (.refresh s (.ok value))) ?_ ?_
    · refine relies_await fun _ => ?_
      cases answers.refreshed with
      | error e => exact (h.after rfl id).ends _ _
      | ok value => exact ⟨rfl, rfl⟩
    · rintro value u' t' ⟨rfl, rfl⟩
      cases hmake : ConnectorSecret.make value s.kind with
      | none =>
        refine goes_raise (h.after rfl ?_) _
        rintro ⟨_, secret, _, -, hsome, -⟩
        rw [hmake] at hsome
        cases hsome
      | some refreshed =>
        refine goes_bind (goes_rotate h hmake answers.rotated) ?_
        rintro rotated u t' ⟨rfl, record, rfl, hfresh, hstand, hspoiled⟩
        exact goes_bind (goes_stored hitem h hmake hfresh hstand hspoiled) fun material u t hstored => relies_ret hstored
  · rintro inUse u t ⟨hlease, hfailure, hstand, hsound⟩
    refine goes_bind (r := fun _ u t => Using inUse.secret inUse.generation l u t) (relies_set ?_) fun _ u t h => relies_ret h
    exact ⟨rfl, rfl, hlease, hstand, hsound, hfailure⟩

/-- the credential as claimed, or refreshed, is in use; or it failed with variables that fit -/
theorem goes_openCredential {stored : StoredConnection} (hitem : connector req.connectorId = .ok item)
    (h : Using stored.secret stored.record.credentialGeneration l u t) :
    Goes L req w t (openCredential L req w item stored l) u fun p u t => Using p.1.secret p.1.generation l u t := by
  refine relies_attempt (r := fun o u t => Using stored.secret stored.record.credentialGeneration l u t ∧
    ∀ p, o = .ok p → p.1.secret = stored.secret ∧ p.1.generation = stored.record.credentialGeneration) ?_ ?_ ?_
  · refine relies_bind (relies_lift (q := fun _ u t => Using stored.secret stored.record.credentialGeneration l u t) h) ?_ ?_
    · exact fun material u t h => relies_ret ⟨h, fun p hp => by cases hp; exact ⟨rfl, rfl⟩⟩
    · exact fun e u t h => ⟨h, fun p hp => nomatch hp⟩
  · rintro p u t ⟨h, hp⟩
    obtain ⟨hsecret, hgeneration⟩ := hp p rfl
    change Using p.1.secret p.1.generation l u t
    rwa [hsecret, hgeneration]
  · rintro e u t ⟨h, -⟩
    split
    · split_ifs
      · exact goes_bind (goes_refresh hitem h w.early) fun inUse u t h => relies_ret h
      · exact goes_raise h _
    · exact goes_raise h _

/-! ## The provider -/

theorem goes_callTool (h : Using s g l u t) (endpoint name schema : String) (arguments : List (String × Value))
    (material : RuntimeMaterial) (provider : Provider) :
    Relies (watch L req w.created) t (callTool L endpoint name arguments schema material provider) u fun _ u t =>
      Using s g l u t := by
  refine relies_bind (r := fun _ u t => Using s g l u t) (relies_await fun _ => h.after rfl id) ?_ fun _ _ _ h => h
  rintro called u t h
  refine relies_bind (r := fun _ u t => Using s g l u t) (relies_set ?_) (fun _ u t h => relies_ret h) fun _ _ _ h => h
  exact ⟨h.secret, h.generation, h.lease, h.stand, h.sound, h.failure⟩

/-- what is used to the end is in the variables -/
theorem Relies.ends {α : Type} {p : Step α} (h : Relies (watch L req w.created) t p u fun _ u t => Using s g l u t) :
    Goes L req w t p u fun _ u t => Using s g l u t := by
  refine h.mono fun o u t h => ?_
  cases o with
  | ok a => exact h
  | error e => exact h.ends _ e

theorem goes_callProvider {inUse : InUse} (hitem : connector req.connectorId = .ok item)
    (h : Using inUse.secret inUse.generation l u t) (arguments : List (String × Value)) (schema : String) (refreshedOnce : Bool) :
    Goes L req w t (callProvider L req w item arguments schema l inUse refreshedOnce) u fun _ u t =>
      ∃ s g, Using s g l u t := by
  refine goes_bind (goes_lift h _) ?_
  rintro ⟨endpoint, name⟩ u t ⟨-, h⟩
  refine relies_attempt (r := fun _ u t => Using inUse.secret inUse.generation l u t) ?_ (fun _ u t h => ⟨_, _, h⟩) ?_
  · exact relies_bind (goes_callTool h _ _ _ _ _ _) (fun called u t h => relies_ret h) fun _ _ _ h => h
  · intro e u t h
    split
    · split_ifs
      · refine goes_bind (goes_refresh hitem h w.late) fun again u t h => ?_
        refine goes_bind (goes_lift h _) ?_
        rintro ⟨endpoint, name⟩ u t ⟨-, h⟩
        exact goes_bind (Relies.ends (goes_callTool h _ _ _ _ _ _)) fun called u t h => relies_ret ⟨_, _, h⟩
      · exact goes_raise h _
    · exact goes_raise h _

theorem goes_checkResult (h : Using s g l u t) (called : HostedCallResult) (material : RuntimeMaterial) (resultCap : ℕ) :
    Goes L req w t (checkResult L called material resultCap) u fun _ u t => Using s g l u t := by
  have hrefuse : ∀ (p : Prop) [Decidable p] (e : Exn) {u : Locals} {t : Watching}, Using s g l u t →
      Goes L req w t (refuse p e) u fun _ u t => Using s g l u t :=
    fun p _ e u t h => relies_refuse (fun _ => h.ends _ e) fun _ => h
  refine goes_bind (goes_lift h _) ?_
  rintro encoded u t ⟨-, h⟩
  refine goes_bind (r := fun _ u t => Using s g l u t) (relies_set ?_) fun _ u t h => ?_
  · exact ⟨h.secret, h.generation, h.lease, h.stand, h.sound, h.failure⟩
  · exact goes_bind (hrefuse _ _ h) fun _ u t h => goes_bind (hrefuse _ _ h) fun _ u t h => hrefuse _ _ h

/-! ## The claim -/

/-- nothing is claimed yet -/
structure Starting (u : Locals) (t : Watching) : Prop where
  stand : t.1 = .idle
  sound : ¬ t.2
  failure : u.failure = none

theorem goes_record (h : Starting u t) (receipt : ExecutionReceipt) (answer : Except Fault Unit) :
    Goes L req w t (record req receipt answer) u fun _ u t => Starting u t := by
  have hreceipt : ¬ Terminal (hosted .receiptUnavailable) := fun h => by
    have hmem := terminal_hosted.1 h
    revert hmem
    decide
  refine relies_attempt (r := fun o u t => Starting u t ∧ ∀ e, o = .error e → ∃ f, e = .fault f)
    (relies_await fun _ => ⟨⟨h.stand, not_or.2 ⟨h.sound, id⟩, h.failure⟩, ?_⟩) (fun _ _ _ h => h.1) ?_
  · intro e he
    cases answer with
    | ok _ => cases he
    | error f => exact ⟨f, (Except.error.inj he).symm⟩
  · rintro e u t ⟨h, he⟩
    obtain ⟨f, rfl⟩ := he e rfl
    split_ifs
    · exact relies_raise (ends_other h.failure hreceipt)
    · exact relies_raise (ends_other h.failure (not_terminal_fault f))

/-- a document that was claimed stands as the claim has answered -/
structure Claimed (stored : StoredConnection) (u : Locals) (t : Watching) : Prop where
  stand : ∃ lease, stored.record.executionLease = some lease ∧
    t.1 = .held stored.secret stored.record.credentialGeneration lease
  sound : ¬ t.2
  failure : u.failure = none

theorem not_terminal_hosted {code : Code} (h : code ∉ terminalAuthErrors) : ¬ Terminal (hosted code) :=
  fun hterminal => h (terminal_hosted.1 hterminal)

theorem goes_claim (h : Starting u t) : Goes L req w t (claimConnection req w) u fun stored u t => Claimed stored u t := by
  refine goes_bind (r := fun claimed u t => u.failure = none ∧ ∀ stored, claimed = some stored → Claimed stored u t) ?_ ?_
  · refine relies_attempt (r := fun o u t => u.failure = none ∧
      (∀ stored, o = .ok (some stored) → Claimed stored u t) ∧ ∀ e, o = .error e → ∃ x : VaultExn, e = x.exn)
      (relies_await ?_) ?_ ?_
    · rintro ⟨-, hsays⟩
      rw [h.stand] at hsays
      refine ⟨h.failure, ?_, ?_⟩
      · intro stored hstored
        rw [hstored] at hsays
        obtain ⟨lease, hlease⟩ := hsays
        refine ⟨⟨lease, hlease, ?_⟩, not_or.2 ⟨h.sound, id⟩, h.failure⟩
        change Stand.next t.1 (.claim (w.claimed.mapError VaultExn.exn)) = _
        rw [h.stand, hstored, Stand.next, hlease]
        rfl
      · intro e he
        cases hclaimed : w.claimed with
        | ok _ => rw [hclaimed] at he; cases he
        | error x =>
          rw [hclaimed] at he
          exact ⟨x, (Except.error.inj he).symm⟩
    · rintro claimed u t ⟨hfailure, hstored, -⟩
      exact ⟨hfailure, fun stored heq => hstored stored (by rw [heq])⟩
    · rintro e u t ⟨hfailure, -, he⟩
      obtain ⟨x, rfl⟩ := he e rfl
      split
      · exact relies_raise (ends_other hfailure (not_terminal_hosted (by decide)))
      · exact relies_raise (ends_other hfailure (not_terminal_exn x))
  · rintro claimed u t ⟨hfailure, hclaimed⟩
    cases claimed with
    | some stored => exact relies_ret (hclaimed stored rfl)
    | none =>
      refine goes_bind (r := fun _ u _ => u.failure = none) (relies_await fun _ => ?_) fun current u t hfailure => ?_
      · cases w.current with
        | ok _ => exact hfailure
        | error x => exact ends_other hfailure (not_terminal_exn x)
      · refine relies_raise (ends_other hfailure (not_terminal_hosted ?_))
        split_ifs <;> decide

/-! ## The body -/

theorem checkCertification_error {record : ConnectionRecord} {e : Exn} (h : checkCertification L record = .error e) :
    ¬ Terminal e := by
  rw [checkCertification] at h
  split_ifs at h
  · cases h
    exact not_terminal_hosted (by decide)
  · cases hmanifest : certifiedManifestSha256 L record.certifiedTools with
    | error x =>
      simp only [hmanifest, Except.mapError, bind, Except.bind] at h
      cases h
      exact not_terminal_vault x
    | ok manifest =>
      simp only [hmanifest, Except.mapError, bind, Except.bind] at h
      split_ifs at h
      cases h
      exact not_terminal_hosted (by decide)

theorem connector_error {connectorId : String} {e : Exn} (h : connector connectorId = .error e) : ¬ Terminal e := by
  rw [connector] at h
  split at h
  · cases h
  · cases h
    rintro ⟨_, _, hcode, hmem⟩
    cases hcode
    revert hmem
    decide

theorem goes_body (h : Starting u t) (arguments : List (String × Value)) (started : ExecutionReceipt) :
    Goes L req w t (body L req w arguments started) u fun _ u _ => u.failure = none := by
  refine goes_bind (goes_record h _ _) fun _ u t h => ?_
  refine goes_bind (r := fun item u t => connector req.connectorId = .ok item ∧ Starting u t) (relies_lift ?_) ?_
  · cases hconnector : connector req.connectorId with
    | ok item => exact ⟨rfl, h⟩
    | error e => exact ends_other h.failure (connector_error hconnector)
  rintro item u t ⟨hitem, h⟩
  refine goes_bind (goes_claim h) fun stored u t h => ?_
  obtain ⟨lease, hlease, hstand⟩ := h.stand
  refine goes_bind (r := fun _ u' t' => t' = t ∧ u'.secret = some stored.secret ∧ u'.lease = some lease ∧ u'.failure = none)
    (relies_set ⟨rfl, rfl, hlease, h.failure⟩) ?_
  rintro - u t' ⟨rfl, hsecret, hulease, hfailure⟩
  refine goes_bind (r := fun _ u' t'' => u' = u ∧ t'' = t') (relies_lift ?_) ?_
  · cases hcheck : checkCertification L stored.record with
    | ok _ => exact ⟨rfl, rfl⟩
    | error e => exact ends_other hfailure (checkCertification_error hcheck)
  rintro - u' t'' ⟨rfl, rfl⟩
  refine goes_bind (r := fun _ u t => Using stored.secret stored.record.credentialGeneration lease u t)
    (relies_set ⟨hsecret, rfl, hulease, hstand, h.sound, hfailure⟩) fun _ u t h => ?_
  have hgetD : stored.record.executionLease.getD "" = lease := by rw [hlease]; rfl
  rw [hgetD]
  refine goes_bind (goes_openCredential hitem h) ?_
  rintro ⟨inUse, refreshedOnce⟩ u t h
  refine goes_bind (goes_lift h _) ?_
  rintro ⟨_, resultCap, policy⟩ u t ⟨-, h⟩
  refine goes_bind (r := fun _ u t => Using inUse.secret inUse.generation lease u t)
    (relies_set ⟨h.secret, h.generation, h.lease, h.stand, h.sound, h.failure⟩) fun _ u t h => ?_
  split
  · exact goes_raise h _
  · refine goes_bind (goes_callProvider hitem h _ _ _) ?_
    rintro ⟨called, inUse⟩ u t ⟨s, g, h⟩
    exact (goes_checkResult h _ _ _).mono fun o u t hend => by
      cases o with
      | ok _ => exact hend.failure
      | error e => exact hend

/-! ## Cleaning up -/

theorem relies_settle (h : Starting u t) (arguments : List (String × Value)) (started : ExecutionReceipt) :
    Relies (watch L req w.created) t (settle L req w arguments started) u fun o u t =>
      (∀ e, o = .error e → u.failure = none) ∧ ∀ code ∈ terminalAuthErrors, u.failure = some code → Fits u t := by
  refine relies_attempt (goes_body h _ _) ?_ ?_
  · intro _ u t hfailure
    refine ⟨fun e he => (nomatch he), fun code _ hsome => ?_⟩
    rw [show u.failure = none from hfailure] at hsome
    cases hsome
  · rintro e u t ⟨hfailure, hfits⟩
    cases hcode : failureOf e with
    | none =>
      refine relies_raise ⟨fun _ _ => hfailure, fun code _ hsome => ?_⟩
      rw [hfailure] at hsome
      cases hsome
    | some p =>
      refine relies_set ⟨fun e he => (nomatch he), fun code hmem hsome => ?_⟩
      cases Option.some.inj hsome
      exact hfits ⟨p.1, p.2, hcode, hmem⟩

/-- the quarantine is over: the connection is quarantined, or a refresh has spoiled it and the lease is still held -/
def Tried (u : Locals) (t : Watching) : Prop :=
  (t.1 = .quarantined ∧ ¬ t.2 ∧ u.lease = none) ∨ (t.2 ∧ ∃ s g l, t.1 = .held s g l ∧ u.lease = some l)

/-- the quarantine of what the variables name is answered as they fit -/
theorem relies_reconnect (hsecret : u.secret = some s) (hgeneration : u.generation = some g) (hlease : u.lease = some l)
    (h : (t.1 = .held s g l ∧ ¬ t.2) ∨ (t.2 ∧ ∃ s' g', t.1 = .held s' g' l ∧ g' ≠ g)) :
    Relies (watch L req w.created) t (requireReconnect req w s g l) u fun o u' t' => u' = u ∧
      ((o = .ok () ∧ t'.1 = .quarantined ∧ ¬ t'.2) ∨
        (o = .error (hosted .credentialRefreshConflict) ∧ t'.2 ∧ ∃ s g, t'.1 = .held s g l)) := by
  refine relies_bind (r := fun o u' t' => u' = u ∧ ((o = .ok true ∧ t'.1 = .quarantined ∧ ¬ t'.2) ∨
    (o = .ok false ∧ t'.2 ∧ ∃ s g, t'.1 = .held s g l))) ?_ ?_ ?_
  · refine relies_attempt (r := fun o u' t' => u' = u ∧ ((o = .ok true ∧ t'.1 = .quarantined ∧ ¬ t'.2) ∨
      (o = .ok false ∧ t'.2 ∧ ∃ s g, t'.1 = .held s g l))) (relies_await ?_) (fun _ _ _ h => h) ?_
    · rintro ⟨hanswered, hsays⟩
      refine ⟨rfl, ?_⟩
      obtain ⟨answer, hanswer⟩ := hanswered
      change (_ ∧ Stand.next t.1 (.quarantine g l s (w.quarantined.mapError VaultExn.exn)) = _ ∧ ¬ (t.2 ∨ False)) ∨
        (_ ∧ (t.2 ∨ False) ∧ ∃ s g, Stand.next t.1 (.quarantine _ l _ (w.quarantined.mapError VaultExn.exn)) = _)
      rw [or_false]
      rcases h with ⟨hstand, hsound⟩ | ⟨hspoiled, s', g', hstand, hother⟩
      · rw [hstand, hanswer] at hsays ⊢
        cases hsays.1 rfl rfl rfl
        exact .inl ⟨rfl, rfl, hsound⟩
      · rw [hstand, hanswer] at hsays ⊢
        cases hsays.2 hother.symm
        exact .inr ⟨rfl, hspoiled, s', g', rfl⟩
    · rintro e u' t' ⟨-, h | h⟩ <;> cases h.1
  · rintro demoted u' t' ⟨rfl, ⟨hok, hstand⟩ | ⟨hok, hstand⟩⟩
    · cases hok
      exact relies_refuse (fun h => nomatch h) fun _ => ⟨rfl, .inl ⟨rfl, hstand⟩⟩
    · cases hok
      exact relies_refuse (fun _ => ⟨rfl, .inr ⟨rfl, hstand⟩⟩) fun h => absurd rfl h
  · rintro e u' t' ⟨-, h | h⟩ <;> cases h.1

theorem relies_quarantine {code : Code} (hfailure : u.failure = some code) (hcode : code ∈ terminalAuthErrors) (h : Fits u t) :
    Relies (watch L req w.created) t (quarantineUnusable req w) u fun _ u t => Tried u t := by
  obtain ⟨s, g, l, hsecret, hgeneration, hlease, h⟩ := h
  refine relies_get ?_
  simp only [hfailure, hsecret, hgeneration, hlease, if_pos hcode]
  refine relies_attempt (r := fun o u' t' =>
    (o = .ok () ∧ t'.1 = .quarantined ∧ ¬ t'.2 ∧ u'.lease = none) ∨
      (o = .error (hosted .credentialRefreshConflict) ∧ t'.2 ∧ (∃ s g, t'.1 = .held s g l) ∧ u'.lease = some l)) ?_ ?_ ?_
  · refine relies_bind (relies_reconnect hsecret hgeneration hlease h) ?_ ?_
    · rintro _ u' t' ⟨rfl, ⟨-, hstand, hsound⟩ | ⟨hok, -⟩⟩
      · exact relies_set (.inl ⟨rfl, hstand, hsound, rfl⟩)
      · cases hok
    · rintro e u' t' ⟨rfl, ⟨hok, -⟩ | ⟨herror, hspoiled, hstand⟩⟩
      · cases hok
      · exact .inr ⟨herror, hspoiled, hstand, hlease⟩
  · rintro _ u' t' (⟨-, hstand, hsound, hnone⟩ | ⟨hok, -⟩)
    · exact .inl ⟨hstand, hsound, hnone⟩
    · cases hok
  · rintro e u' t' (⟨hok, -⟩ | ⟨herror, hspoiled, ⟨s, g, hstand⟩, hlease⟩)
    · cases hok
    · cases herror
      exact relies_set (.inr ⟨hspoiled, s, g, l, hstand, hlease⟩)

/-- the call is over: the connection is quarantined, or a refresh has spoiled it and the lease was given back -/
def Over (t : Watching) : Prop := (t.1 = .quarantined ∧ ¬ t.2) ∨ (t.1 = .released ∧ t.2)

theorem relies_release (h : Tried u t) :
    Relies (watch L req w.created) t (releaseLease req w) u fun _ _ t => Over t := by
  refine relies_get ?_
  rcases h with ⟨hstand, hsound, hnone⟩ | ⟨hspoiled, s, g, l, hstand, hlease⟩
  · simp only [hnone]
    exact relies_ret (.inl ⟨hstand, hsound⟩)
  · simp only [hlease]
    refine relies_attempt (r := fun _ _ t => Over t) ?_ (fun _ _ _ h => h) fun e u t h => ?_
    · refine relies_bind (r := fun _ _ t => Over t) (relies_await ?_) (fun released u t h => ?_) fun _ _ _ h => h
      · rintro ⟨⟨answer, hanswer⟩, -⟩
        refine .inr ⟨?_, .inl hspoiled⟩
        change Stand.next t.1 (.release l (w.released.mapError VaultExn.exn)) = _
        rw [hstand, hanswer]
        rfl
      · split_ifs
        · exact relies_ret h
        · exact relies_set h
    · split
      · exact relies_set h
      · exact relies_set h
      · exact relies_raise h

theorem relies_record (h : Over t) (receipt : ExecutionReceipt) (answer : Except Fault Unit) :
    Relies (watch L req w.created) t (record req receipt answer) u fun _ _ t => Over t := by
  refine relies_attempt (r := fun _ _ t => Over t) (relies_await fun _ => ?_) (fun _ _ _ h => h) fun e u t h => ?_
  · rcases h with ⟨hstand, hsound⟩ | ⟨hstand, hspoiled⟩
    · exact .inl ⟨hstand, not_or.2 ⟨hsound, id⟩⟩
    · exact .inr ⟨hstand, .inl hspoiled⟩
  · split_ifs
    · exact relies_raise h
    · exact relies_raise h

theorem relies_finish (h : Over t) (started : ExecutionReceipt) :
    Relies (watch L req w.created) t (finish L req w started) u fun _ _ t => Over t := by
  refine relies_get ?_
  split
  · exact relies_bind (relies_record h _ _) (fun _ u t h => relies_ret h) fun _ _ _ h => h
  · exact relies_bind (relies_record h _ _) (fun _ u t h => relies_raise h) fun _ _ _ h => h

/-! ## The call -/

/-- the failure of a call before its cleanup -/
def failureBefore (L : Libs) (req : Request) (w : World) : Option Code :=
  match argumentDict req.arguments with
  | .error _ => none
  | .ok arguments =>
    match canonicalJson L (.json (.dict arguments)) with
    | .error _ => none
    | .ok encoded => (settle L req w arguments (startedReceipt L req w encoded) {}).mem.failure

theorem relies_execute {code : Code} (hfailed : failureBefore L req w = some code) (hcode : code ∈ terminalAuthErrors) :
    Relies (watch L req w.created) (.idle, False) (execute L req w) {} fun _ _ t => Over t := by
  rw [failureBefore] at hfailed
  refine relies_bind (r := fun o u t => u = {} ∧ t = (.idle, False) ∧ o = argumentDict req.arguments)
    (relies_lift ⟨rfl, rfl, rfl⟩) ?_ ?_
  · rintro arguments u t ⟨rfl, rfl, harguments⟩
    rw [← harguments] at hfailed
    refine relies_bind (r := fun o u t => u = {} ∧ t = (.idle, False) ∧ o = canonicalJson L (.json (.dict arguments)))
      (relies_lift ⟨rfl, rfl, rfl⟩) ?_ ?_
    · rintro encoded u t ⟨rfl, rfl, hencoded⟩
      simp only [← hencoded] at hfailed
      refine relies_bind (r := fun _ _ t => Over t) (relies_cleanup (r := Tried) ?_ fun u t h => ?_)
        (fun _ u t h => relies_finish h _) fun _ _ _ h => h
      · refine relies_bind (relies_settle ⟨rfl, id, rfl⟩ arguments (startedReceipt L req w encoded)).mem ?_ ?_
        · rintro - u t ⟨⟨-, hfits⟩, rfl⟩
          exact relies_quarantine hfailed hcode (hfits code hcode hfailed)
        · rintro e u t ⟨⟨hnone, -⟩, rfl⟩
          rw [hnone e rfl] at hfailed
          cases hfailed
      · exact (relies_release h).mono fun _ _ _ h _ => h
    · rintro e u t ⟨-, -, hencoded⟩
      simp only [← hencoded] at hfailed
      cases hfailed
  · rintro e u t ⟨-, -, harguments⟩
    rw [← harguments] at hfailed
    cases hfailed

/-- **Quarantine.** After a terminal failure of a call that alone works on the connection, with a vault that succeeds, the
connection has to be connected again exactly where no refresh of the call has stored an unusable credential. -/
theorem quarantine_exact {V : Platform} {d e : Option Document} {code : Code}
    (hserved : Served V req.uid req.connectorId d (execute V.libs req w {}).evs e)
    (hfailed : failureBefore V.libs req w = some code) (hcode : code ∈ terminalAuthErrors) :
    Quarantined e ↔ ∀ ev ∈ (execute V.libs req w {}).evs, ¬ Spoils V.libs req w.created ev := by
  obtain ⟨haccepts, hholds⟩ := @served_watched V V.libs req w.created _ _ _ _ _ hserved (.idle, False) trivial
  have hspoiled := @spoiled_iff V.libs req w.created (.idle, False) (execute V.libs req w {}).evs
  rw [false_or] at hspoiled
  have hcondition : (∀ ev ∈ (execute V.libs req w {}).evs, ¬ Spoils V.libs req w.created ev) ↔
      ¬ ((watch V.libs req w.created).after (.idle, False) (execute V.libs req w {}).evs).2 := by
    rw [hspoiled]
    simp
  rw [hcondition]
  rcases relies_execute hfailed hcode haccepts with ⟨hstand, hsound⟩ | ⟨hstand, hspoiled⟩
  · rw [hstand] at hholds
    exact iff_of_true hholds hsound
  · rw [hstand] at hholds
    obtain ⟨doc, rfl, hready⟩ := hholds
    refine iff_of_false ?_ (not_not.2 hspoiled)
    rintro ⟨doc', hdoc, hstatus, -⟩
    cases hdoc
    exact absurd (hready.symm.trans hstatus) (by decide)

end Variables

/-! ## Calls of the vault by a document that opens -/

section Opens

variable {V : Platform} {uid connectorId generation lease : String} {draw : Draw} {sealing : Except VaultExn Envelope}
  {envelope : Envelope} {doc : Document} {secret current : ConnectorSecret}

/-- a connection of this owner that is ready and has a certificate -/
structure Certified (V : Platform) (uid connectorId : String) (doc : Document) : Prop where
  id : isConnectorId connectorId = true
  connector : doc.record.connectorId = connectorId
  owned : doc.ownerHash = ownerHash V uid
  ready : doc.record.status = "ready"
  tools : normalizeCertifiedTools doc.record.certifiedTools = .ok doc.record.certifiedTools

theorem claim_certified (h : Certified V uid connectorId doc) (hfree : leaseIsActive doc.record draw.now = false)
    (hopens : openSecret V uid connectorId doc = some secret) :
    claimExecution V uid connectorId ⟨draw, .done, none⟩ (some doc) =
      (.ok (some ⟨leased doc.record draw, secret⟩), some { doc with record := leased doc.record draw }) := by
  have hpublic : publicRecord (leased doc.record draw) = some (leased doc.record draw) :=
    publicRecord_valid (h.connector ▸ h.id) h.tools
  have hdocument : openDocument V uid connectorId { doc with record := leased doc.record draw } =
      some ⟨leased doc.record draw, secret⟩ := by
    have hopens' : openSecret V uid connectorId { doc with record := leased doc.record draw } = some secret := hopens
    simp only [openDocument, hopens', hpublic]
  have htransaction : claimTransaction V uid draw (some doc) =
      .ok (some { doc with record := leased doc.record draw }, some { doc with record := leased doc.record draw }) := by
    simp [claimTransaction, h.owned, h.ready, hfree]
  simp only [claimExecution, h.id, transact, htransaction, hdocument]
  rfl

theorem rotate_certified (h : Certified V uid connectorId doc) (hpresents : Presents V uid doc generation lease)
    (hopens : openSecret V uid connectorId doc = some current) (hascii : isAscii current.value = true)
    (hkind : secret.kind = current.kind) :
    rotate V uid connectorId (working draw (.ok envelope)) generation lease current secret (some doc) =
      (.ok (some (rotated doc secret envelope draw).record), some (rotated doc secret envelope draw)) := by
  have hpublic : publicRecord (rotated doc secret envelope draw).record = some (rotated doc secret envelope draw).record :=
    publicRecord_valid (h.connector ▸ h.id) h.tools
  simp [rotate, working, h.id, transact, rotateTransaction, presenting_eq hopens, hpresents, hkind, sameSecret, compareDigest,
    hascii, hpublic]

theorem quarantine_certified (h : Certified V uid connectorId doc) (hpresents : Presents V uid doc generation lease)
    (hopens : openSecret V uid connectorId doc = some current) (hascii : isAscii current.value = true) (errorCode : String) :
    quarantine V uid connectorId (working draw sealing) generation lease errorCode current (some doc) =
      (.ok true, some { doc with record := demoted doc.record errorCode draw }) := by
  simp [quarantine, working, h.id, transact, quarantineTransaction, presenting_eq hopens, hpresents, sameSecret, compareDigest,
    hascii]

/-- a quarantine under another generation leaves the document -/
theorem quarantine_stale (h : Certified V uid connectorId doc) (hother : doc.record.credentialGeneration ≠ generation)
    (errorCode : String) (expected : ConnectorSecret) :
    quarantine V uid connectorId (working draw sealing) generation lease errorCode expected (some doc) =
      (.ok false, some doc) := by
  have hnot : ¬ Presents V uid doc generation lease := fun hpresents => hother hpresents.2.2.1
  simp [quarantine, working, h.id, transact, quarantineTransaction, presenting, hnot]

theorem release_certified (h : Certified V uid connectorId doc) (hlease : doc.record.executionLease = some lease) :
    releaseExecution V uid connectorId (working draw sealing) lease (some doc) =
      (.ok true, some { doc with record := unleased doc.record draw }) := by
  simp [releaseExecution, working, h.id, transact, releaseTransaction, h.owned, hlease]

end Opens

/-! ## A token that is no credential -/

def tokenEnvelope : Envelope := ⟨"rally.connector-secret/v1", "", samplePayload, associatedData "ann" "slack", ""⟩

def claimDraw : Draw := ⟨0, 0, "1970-01-01T00:00:00Z", sampleText '2'⟩

/-- a connection that is certified for one tool -/
def certifiedRecord (kind : String) : ConnectionRecord where
  connectorId := "slack"
  credentialKind := kind
  status := "ready"
  createdAt := "1970-01-01T00:00:00Z"
  updatedAt := "1970-01-01T00:00:00Z"
  toolCount := 1
  canaryTool := sampleCertificate.canaryTool
  toolSchemaSha256 := sampleCertificate.toolSchemaSha256
  proofVersion := sampleCertificate.proofVersion
  credentialGeneration := sampleText '1'
  certifiedTools := sampleCertificate.certifiedTools
  certifiedManifestSha256 := sampleCertificate.certifiedManifestSha256

def searchRequest : Request := ⟨"ann", "slack", "search", .json (.dict [])⟩

def tokenDocument : Document := ⟨ownerHash certifiedVault "ann", certifiedRecord "bearer_token", tokenEnvelope⟩

def tokenClaimed : Document := { tokenDocument with record := leased tokenDocument.record claimDraw }

def tokenWorld : World where
  created := 0
  completed := 0
  elapsedMs := 0
  executionId := "fedcba9876543210fedcba9876543210"
  started := .ok ()
  claimed := .ok (some ⟨tokenClaimed.record, sampleToken⟩)
  current := .ok none
  early := ⟨.error .refused, .ok none, .ok none⟩
  provider := ⟨.ok [], .error .cancelled, none⟩
  late := ⟨.error .refused, .ok none, .ok none⟩
  providerAgain := ⟨.ok [], .error .cancelled, none⟩
  quarantined := .ok true
  released := .ok true
  recorded := .ok ()

theorem certified_tools : normalizeCertifiedTools sampleCertificate.certifiedTools = .ok sampleCertificate.certifiedTools := by
  decide

theorem token_certified : Certified certifiedVault "ann" "slack" tokenDocument :=
  ⟨by decide, rfl, rfl, rfl, certified_tools⟩

theorem token_opens : openSecret certifiedVault "ann" "slack" tokenDocument = some sampleToken := by decide

theorem token_run : ∃ u r a u' r' a', (execute certifiedLibs searchRequest tokenWorld {}).evs =
    [.receipt u r a, .vault "ann" "slack" (.claim (.ok (some ⟨tokenClaimed.record, sampleToken⟩))),
      .vault "ann" "slack" (.quarantine (sampleText '1') (sampleText '2') sampleToken (.ok true)), .receipt u' r' a'] :=
  ⟨_, _, _, _, _, _, rfl⟩

theorem token_failed : failureBefore certifiedLibs searchRequest tokenWorld = some .credentialInvalid := rfl

theorem token_served : Served certifiedVault "ann" "slack" (some tokenDocument)
    (execute certifiedLibs searchRequest tokenWorld {}).evs
    (some { tokenClaimed with record := demoted tokenClaimed.record "reconnect_required" claimDraw }) := by
  obtain ⟨u, r, a, u', r', a', hevs⟩ := token_run
  rw [hevs]
  have hclaimed : Certified certifiedVault "ann" "slack" tokenClaimed := ⟨by decide, rfl, rfl, rfl, certified_tools⟩
  have hquarantine := @quarantine_certified certifiedVault "ann" "slack" (sampleText '1') (sampleText '2') claimDraw
    (.error (.vault .error)) tokenClaimed sampleToken hclaimed ⟨rfl, rfl, rfl, rfl⟩ token_opens (by decide) "reconnect_required"
  exact .receipt (.vault (.claim (claim_certified token_certified rfl token_opens))
    (.vault (.quarantine hquarantine) (.receipt .nil)))

/-- a token that is no credential is quarantined -/
theorem bad_token_quarantined : Quarantined
    (some { tokenClaimed with record := demoted tokenClaimed.record "reconnect_required" claimDraw }) := by
  refine (@quarantine_exact searchRequest tokenWorld certifiedVault _ _ _ token_served token_failed (by decide)).2 ?_
  obtain ⟨u, r, a, u', r', a', hevs⟩ := token_run
  change ∀ ev ∈ (execute certifiedLibs searchRequest tokenWorld {}).evs, _
  rw [hevs]
  simp [Spoils]

/-! ## A refresh that spoils the quarantine -/

section SpoiledRun

variable {L : Libs} {req : Request} {w : World} {arguments : List (String × Value)} {encoded lease value : String}
  {item : HostedConnector} {stored : StoredConnection} {refreshed : ConnectorSecret} {answer : ConnectionRecord} {code : Code}

/-- a call whose grant has expired, and whose refresh stores an unusable credential -/
structure SpoiledRun (L : Libs) (req : Request) (w : World) (arguments : List (String × Value)) (encoded : String)
    (item : HostedConnector) (stored : StoredConnection) (lease value : String) (refreshed : ConnectorSecret)
    (answer : ConnectionRecord) (code : Code) : Prop where
  dict : argumentDict req.arguments = .ok arguments
  text : canonicalJson L (.json (.dict arguments)) = .ok encoded
  started : w.started = .ok ()
  offered : connector req.connectorId = .ok item
  claimed : w.claimed = .ok (some stored)
  held : stored.record.executionLease = some lease
  certified : checkCertification L stored.record = .ok ()
  expired : runtimeMaterial L item stored.secret.value w.created = .error (hosted .credentialExpired)
  kind : stored.secret.kind = .oauthRefreshToken
  answered : w.early.refreshed = .ok value
  made : ConnectorSecret.make value .oauthRefreshToken = some refreshed
  accepted : w.early.rotated = .ok (some answer)
  unusable : runtimeMaterial L item refreshed.value w.created = .error (hosted code)
  terminal : code ∈ terminalAuthErrors
  quarantined : w.quarantined = .ok false
  released : w.released = .ok true
  recorded : w.recorded = .ok ()

/-- the variables still name the credential, the generation and the lease of the claim -/
theorem spoiled_settle (h : SpoiledRun L req w arguments encoded item stored lease value refreshed answer code)
    (started : ExecutionReceipt) :
    settle L req w arguments started {} =
      ⟨[.receipt req.uid started (.ok ()), .vault req.uid req.connectorId (.claim (.ok (some stored))),
          .refresh stored.secret (.ok value),
          .vault req.uid req.connectorId
            (.rotate stored.record.credentialGeneration lease stored.secret refreshed (.ok (some answer)))],
        { secret := some stored.secret, generation := some stored.record.credentialGeneration,
          manifest := stored.record.certifiedManifestSha256, lease := some lease, failure := some code }, .ok ()⟩ := by
  simp [settle, body, Rally.Cloud.record, Bind.bind, seq, attempt, lift, await, Proc.set, ret, askVault, claimConnection,
    h.started, h.offered, h.claimed, h.certified, openCredential, h.expired, h.kind, refresh, refreshRuntimeMaterial,
    h.answered, h.made, h.accepted, h.unusable, failureOf, Except.mapError, h.held]

theorem spoiled_failed (h : SpoiledRun L req w arguments encoded item stored lease value refreshed answer code) :
    failureBefore L req w = some code := by
  simp only [failureBefore, h.dict, h.text, spoiled_settle h]

/-- the quarantine is asked for under the generation of the claim, and the lease is given back -/
theorem spoiled_run (h : SpoiledRun L req w arguments encoded item stored lease value refreshed answer code) :
    ∃ u r a u' r' a', (execute L req w {}).evs =
      [.receipt u r a, .vault req.uid req.connectorId (.claim (.ok (some stored))), .refresh stored.secret (.ok value),
        .vault req.uid req.connectorId
          (.rotate stored.record.credentialGeneration lease stored.secret refreshed (.ok (some answer))),
        .vault req.uid req.connectorId (.quarantine stored.record.credentialGeneration lease stored.secret (.ok false)),
        .vault req.uid req.connectorId (.release lease (.ok true)), .receipt u' r' a'] := by
  simp [execute, h.dict, h.text, Bind.bind, seq, lift, cleanup, spoiled_settle h, quarantineUnusable, Proc.get, h.terminal,
    attempt, requireReconnect, askVault, await, h.quarantined, Except.mapError, refuse, raise, Proc.set, releaseLease,
    h.released, ret, finish, Rally.Cloud.record, h.recorded]

end SpoiledRun

/-! ## A grant for ten seconds -/

def slackUrl : String := "https://mcp.slack.com/mcp"

/-- libraries on the texts of a connection to one provider -/
def grantLibs : Libs :=
  { certifiedLibs with
    loads := jsonLoads fun _ => .fin 0
    urlsplit := fun url =>
      if url = slackUrl then some ⟨"https", "mcp.slack.com", "/mcp", "", "", some "mcp.slack.com", none, none, none⟩ else none
    fromisoformat := fun text =>
      if text = "1970-01-01T00:00:00Z" then some (.aware 0)
      else if text = "1970-01-01T01:00:00Z" then some (.aware 3600000000)
      else none }

def grantVault : Platform := ⟨grantLibs, sampleGoogle.openEnvelope⟩

/-- an OAuth grant -/
def grantOf (accessToken : String) (expiresIn : ℤ) (obtainedAt : String) : List (String × Value) :=
  [("schema", .str oauthSchema), ("endpoint", .str slackUrl), ("token_type", .str "bearer"), ("access_token", .str accessToken),
    ("refresh_token", .str "rt-0"), ("expires_in", .int expiresIn), ("obtained_at", .str obtainedAt)]

def grantChars (accessToken : String) (expiresIn : ℤ) (obtainedAt : String) : List Char :=
  jsonChars grantLibs.text compactAscii (.dict (grantOf accessToken expiresIn obtainedAt))

theorem secretText_ofList {cs : List Char}
    (h : (!cs.isEmpty && cs.all (fun c => 32 ≤ c.toNat && c.toNat ≠ 127) && decide (String.utf8Len cs ≤ maxSecretBytes)) = true) :
    secretText (String.ofList cs) = true := by
  simp only [Bool.and_eq_true, Bool.not_eq_true', List.isEmpty_eq_false_iff, decide_eq_true_eq] at h
  obtain ⟨⟨hne, hall⟩, hsize⟩ := h
  have hne' : String.ofList cs ≠ "" := fun h => hne (by simpa using congrArg String.toList h)
  simp only [secretText, String.utf8ByteSize_ofList, String.toList_ofList, Bool.and_eq_true, decide_eq_true_eq]
  exact ⟨⟨hne', hsize⟩, hall⟩

/-- the grant of the claim, for a minute -/
def expiredSecret : ConnectorSecret where
  value := .ofList (grantChars "at-0" 60 "1970-01-01T00:00:00Z")
  kind := .oauthRefreshToken
  sound := secretText_ofList (by decide +kernel)

/-- the grant of the refresh an hour later, for ten seconds -/
def shortSecret : ConnectorSecret where
  value := .ofList (grantChars "at-1" 10 "1970-01-01T01:00:00Z")
  kind := .oauthRefreshToken
  sound := secretText_ofList (by decide +kernel)

def slackItem : HostedConnector := { id := "slack", endpoint := some slackUrl, safePreset := "read-minimal" }

theorem grant_readsBack : ReadsBack grantLibs := jsonLoads_readsBack rfl

theorem loads_grant (accessToken obtainedAt : String) {expiresIn : ℤ} (h : printable expiresIn = true) :
    grantLibs.loads (.ofList (grantChars accessToken expiresIn obtainedAt)) =
      .value (.dict (grantOf accessToken expiresIn obtainedAt)) := by
  refine grant_readsBack _ ⟨by simp [Dict.Ok, grantOf], ?_⟩
  simp only [grantOf, List.forall_mem_cons]
  exact ⟨.text _, .text _, .text _, .text _, .text _, .int h, .text _, by simp⟩

theorem slack_resolves : resolveEndpoint grantLibs slackItem (some slackUrl) = .ok slackUrl := by decide

/-- a grant that has expired is not used -/
theorem grant_unusable {accessToken obtainedAt : String} {expiresIn now : ℤ} (hprintable : printable expiresIn = true)
    (htoken : accessToken ≠ "")
    (hexpired : checkExpiry grantLibs (grantOf accessToken expiresIn obtainedAt) now = .error (hosted .credentialExpired)) :
    runtimeMaterial grantLibs slackItem (.ofList (grantChars accessToken expiresIn obtainedAt)) now =
      .error (hosted .credentialExpired) := by
  have hbearer : grantLibs.casefold "bearer" = "bearer" := by decide
  have hschema : Value.str oauthSchema ≠ Value.str connectionSchema := by decide
  obtain ⟨h₁, h₂, h₃, h₄⟩ : field (grantOf accessToken expiresIn obtainedAt) "schema" = .str oauthSchema ∧
      field (grantOf accessToken expiresIn obtainedAt) "access_token" = .str accessToken ∧
      field (grantOf accessToken expiresIn obtainedAt) "token_type" = .str "bearer" ∧
      field (grantOf accessToken expiresIn obtainedAt) "endpoint" = .str slackUrl := ⟨rfl, rfl, rfl, rfl⟩
  simp only [runtimeMaterial, loads_grant _ _ hprintable, grantRuntimeMaterial, h₁, h₂, h₃, h₄, if_neg hschema, hbearer,
    slack_resolves, hexpired, htoken, asHosted, bind, Except.bind, Except.mapError, ne_eq, not_true, or_self, if_false, if_true]

theorem expired_unusable : runtimeMaterial grantLibs slackItem expiredSecret.value 3600000000 =
    .error (hosted .credentialExpired) := by
  refine grant_unusable (by decide) (by decide) ?_
  decide

theorem short_unusable : runtimeMaterial grantLibs slackItem shortSecret.value 3600000000 =
    .error (hosted .credentialExpired) := by
  refine grant_unusable (by decide) (by decide) ?_
  decide

def grantEnvelope (secret : ConnectorSecret) : Envelope :=
  sampleGoogle.sealEnvelope "" (payload grantLibs secret) (associatedData "ann" "slack")

theorem grant_opens {doc : Document} {secret : ConnectorSecret} (h : doc.envelope = grantEnvelope secret) :
    openSecret grantVault "ann" "slack" doc = some secret := by
  refine openSecret_payload doc (Sealing.reads_payload grant_readsBack secret) ?_
  rw [h]
  exact sampleGoogle_works.opens "" (payload grantLibs secret) (associatedData "ann" "slack")

def grantDocument : Document :=
  ⟨ownerHash grantVault "ann", certifiedRecord "oauth_refresh_token", grantEnvelope expiredSecret⟩

def grantDraw : Draw := ⟨3600000000, 3600000000, "1970-01-01T01:00:00Z", sampleText '2'⟩

def refreshDraw : Draw := { grantDraw with fresh := sampleText '3' }

def grantClaimed : Document := { grantDocument with record := leased grantDocument.record grantDraw }

def grantRotated : Document := rotated grantClaimed shortSecret (grantEnvelope shortSecret) refreshDraw

def grantReleased : Document := { grantRotated with record := unleased grantRotated.record grantDraw }

def grantWorld : World :=
  { tokenWorld with
    created := 3600000000
    completed := 3600000000
    claimed := .ok (some ⟨grantClaimed.record, expiredSecret⟩)
    early := ⟨.ok shortSecret.value, .ok (some grantRotated.record), .ok none⟩
    quarantined := .ok false }

theorem grant_spoiled : SpoiledRun grantLibs searchRequest grantWorld [] "\x7b\x7d" slackItem
    ⟨grantClaimed.record, expiredSecret⟩ (sampleText '2') shortSecret.value shortSecret grantRotated.record
    .credentialExpired where
  dict := rfl
  text := rfl
  started := rfl
  offered := rfl
  claimed := rfl
  held := rfl
  certified := by decide
  expired := expired_unusable
  kind := rfl
  answered := rfl
  made := dif_pos shortSecret.sound
  accepted := rfl
  unusable := short_unusable
  terminal := by decide
  quarantined := rfl
  released := rfl
  recorded := rfl

theorem grant_served : Served grantVault "ann" "slack" (some grantDocument)
    (execute grantLibs searchRequest grantWorld {}).evs (some grantReleased) := by
  obtain ⟨u, r, a, u', r', a', hevs⟩ := spoiled_run grant_spoiled
  rw [hevs]
  have hready : Certified grantVault "ann" "slack" grantDocument := ⟨by decide, rfl, rfl, rfl, certified_tools⟩
  have hclaimed : Certified grantVault "ann" "slack" grantClaimed := ⟨by decide, rfl, rfl, rfl, certified_tools⟩
  have hrotated : Certified grantVault "ann" "slack" grantRotated := ⟨by decide, rfl, rfl, rfl, certified_tools⟩
  have hascii : isAscii expiredSecret.value = true := by
    simp only [isAscii, expiredSecret, String.toList_ofList]
    decide
  have hrotate := @rotate_certified grantVault "ann" "slack" (sampleText '1') (sampleText '2') refreshDraw
    (grantEnvelope shortSecret) grantClaimed shortSecret expiredSecret hclaimed ⟨rfl, rfl, rfl, rfl⟩ (grant_opens rfl) hascii rfl
  have hquarantine := @quarantine_stale grantVault "ann" "slack" (sampleText '1') (sampleText '2') grantDraw
    (.error (.vault .error)) grantRotated hrotated (by decide) "reconnect_required" expiredSecret
  have hrelease := @release_certified grantVault "ann" "slack" (sampleText '2') grantDraw (.error (.vault .error)) grantRotated
    hrotated rfl
  exact .receipt (.vault (.claim (claim_certified hready rfl (grant_opens rfl))) (.refresh
    (.vault (.rotate (@grant_opens grantRotated shortSecret rfl) (by decide) hrotate) (.vault (.quarantine hquarantine)
      (.vault (.release hrelease) (.receipt .nil))))))

/-- a refresh answers with a grant for ten seconds: it is stored, the call fails because it has expired, and the connection
stays ready -/
theorem short_grant_stays_ready : ∃ d e, Served grantVault "ann" "slack" d
      (execute grantLibs searchRequest grantWorld {}).evs (some e) ∧
    failureBefore grantLibs searchRequest grantWorld = some .credentialExpired ∧
    e.record.status = "ready" ∧ e.record.errorCode = none ∧ ¬ Quarantined (some e) := by
  refine ⟨_, _, grant_served, spoiled_failed grant_spoiled, rfl, rfl, ?_⟩
  rintro ⟨doc, hdoc, hstatus, -⟩
  cases hdoc
  exact absurd hstatus (by decide)

end Rally.Cloud.Quarantine
