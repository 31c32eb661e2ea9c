/-
Commissions of the control plane (`cloud/service.py`): `submit_commission` and `finish_coordination` over a run store,
one store operation, clock reading or coordination at a time, with other calls between any two.

- A store operation may fail, also after its effect; a call may be cancelled while it coordinates; clocks and
  coordinators answer anything.
- A call that created or reclaimed a record owns that attempt of the run: nobody else writes it.
- `commission_meets`: a call keeps records in their runs and requests, never takes attempts back, leaves a finished record
  and the records of other requests alone, and returns a record of its own task where a lost creation is of that task.
- `attempts_fenced`, `keys_apart`, `keys_bound`: the results for both stores.
-/
import Rally.Core.Calls
import Rally.Core.Value
import Rally.Cloud.RunStore

namespace Rally.Cloud.Commissions

/-! ## The calls -/

/-- `COORDINATION_LEASE_SECONDS` -/
def coordinationLeaseSeconds : ℚ := 330

/-- `task_digest`, and the turns of a policy -/
structure Platform where
  taskDigest : String → String
  maxTurns : ℤ

/-- `build_handoff`, or `ValueError` -/
def buildHandoff (P : Platform) (task : String) : Option Handoff :=
  let clean := " ".intercalate (Py.split task)
  if clean = "" then none else some ⟨clean, P.maxTurns⟩

/-- a reading of the clocks: the time, its text, and the text of the time retention ends -/
structure Clock where
  time : ℚ
  iso : String
  retentionUntil : String
deriving DecidableEq

inductive Outcome where
  | record (text : String)
  /-- with the name of the exception -/
  | failed (error : String)
  | cancelled
deriving DecidableEq

inductive Query where
  | byKey (requestKey : String)
  | clock
  | reclaim (requestKey : String) (leaseExpiresAt : ℚ) (updatedAt : String)
  | create (record : RunRecord)
  | coordinate (task runId : String) (attempt : ℕ)
  | update (runId : String) (record : RunRecord) (attempt : ℕ)
  | get (runId : String)

/-- what an operation answers; `none` where the store fails -/
def Answer : Query → Type
  | .byKey _ => Option (Option RunRecord)
  | .clock => Clock
  | .reclaim _ _ _ => Option (Option RunRecord)
  | .create _ => Option Bool
  | .coordinate _ _ _ => Outcome × Clock
  | .update _ _ _ => Option Bool
  | .get _ => Option (Option RunRecord)

/-- what becomes of a store operation -/
inductive Fate where
  | done
  | lost
  | late
deriving DecidableEq

/-- what the outside answers to an operation -/
structure Input where
  fate : Fate
  clock : Clock
  outcome : Outcome

/-- an operation that answers `a` and leaves `t` -/
def attempt {σ α : Type} (fate : Fate) (s : σ) (x : α × σ) : σ × Option α :=
  match fate with
  | .done => (x.2, some x.1)
  | .lost => (s, none)
  | .late => (x.2, none)

def exec {σ : Type} (S : RunStore σ) : (q : Query) → Input → σ → σ × Answer q
  | .byKey k, i, s => attempt i.fate s (S.getByRequestKey k s, s)
  | .clock, i, s => (s, i.clock)
  | .reclaim k l t, i, s => attempt i.fate s (S.reclaim k l t i.clock.time s)
  | .create r, i, s => attempt i.fate s (S.create r s)
  | .coordinate _ _ _, i, s => (s, (i.outcome, i.clock))
  | .update id r n, i, s => attempt i.fate s (S.update id r n s)
  | .get id, i, s => attempt i.fate s (S.get id s, s)

inductive Failure where
  | http (status : ℕ) (detail : String)
  | valueError
  | store
  | cancelled
deriving DecidableEq

abbrev Reply := Except Failure RunRecord

/-- `{**record, "duplicate": True}` -/
def again (r : RunRecord) : RunRecord := { r with duplicate := true }

/-- the record of an attempt that failed -/
def failedRecord (r : RunRecord) (error iso : String) : RunRecord :=
  { r with status := .coordinatorFailed, error := some error, updatedAt := iso, leaseExpiresAt := none }

/-- the record of an attempt that succeeded -/
def readyRecord (r : RunRecord) (text iso : String) : RunRecord :=
  { r with coordinatorRecord := some text, status := .readyForRally, updatedAt := iso, leaseExpiresAt := none }

/-- `finish_coordination` -/
def finishCoordination (record : RunRecord) (task : String) : Call Query Answer Reply :=
  .ask (.coordinate task record.runId record.attempt) fun
    | (.cancelled, _) => .done (.error .cancelled)
    | (.failed error, clock) =>
      .ask (.update record.runId (failedRecord record error clock.iso) record.attempt) fun
        | none => .done (.error .store)
        | some _ => .done (.error (.http 502 "ADK coordinator failed"))
    | (.record text, clock) =>
      .ask (.update record.runId (readyRecord record text clock.iso) record.attempt) fun
        | none => .done (.error .store)
        | some true => .done (.ok (readyRecord record text clock.iso))
        | some false =>
          .ask (.get record.runId) fun
            | none => .done (.error .store)
            | some (some current) => .done (.ok (again current))
            | some none => .done (.error (.http 409 "coordination ownership changed"))

/-- the arguments of a call, and the random part of a run id -/
structure Submission where
  task : String
  runId : Option String
  requestKey : Option String
  uuid : String
deriving DecidableEq

/-- the first text that is not empty -/
def firstText (s : Option String) (t : String) : String :=
  match s with
  | some s => if s = "" then t else s
  | none => t

/-- `run_id or "r-" + uuid.uuid4().hex[:10]` -/
def Submission.run (a : Submission) : String := firstText a.runId ("r-" ++ Py.takeChars a.uuid 10)

/-- `request_key or run_id` -/
def Submission.key (a : Submission) : String := firstText a.requestKey a.run

/-- the record of a new commission -/
def newRecord (P : Platform) (a : Submission) (handoff : Handoff) (clock : Clock) : RunRecord where
  accepted := true
  duplicate := false
  runId := a.run
  requestKey := a.key
  status := .coordinating
  handoff := handoff
  taskDigest := P.taskDigest a.task
  attempts := 1
  createdAt := clock.iso
  updatedAt := clock.iso
  retentionUntil := clock.retentionUntil
  leaseExpiresAt := some (clock.time + coordinationLeaseSeconds)
  coordinatorRecord := none
  error := none

/-- a commission whose key is in use -/
def resumeCommission (P : Platform) (a : Submission) (existing : RunRecord) : Call Query Answer Reply :=
  if existing.taskDigest ≠ P.taskDigest a.task then
    .done (.error (.http 409 "idempotency key is already bound to another commission"))
  else if existing.status = .coordinatorFailed ∨ existing.status = .coordinating then
    .ask .clock fun clock =>
      .ask (.reclaim a.key (clock.time + coordinationLeaseSeconds) clock.iso) fun
        | none => .done (.error .store)
        | some (some resumed) => finishCoordination resumed a.task
        | some none => .done (.ok (again existing))
  else .done (.ok (again existing))

/-- a commission whose key is not in use -/
def createCommission (P : Platform) (a : Submission) : Call Query Answer Reply :=
  .ask .clock fun clock =>
    match buildHandoff P a.task with
    | none => .done (.error .valueError)
    | some handoff =>
      .ask (.create (newRecord P a handoff clock)) fun
        | none => .done (.error .store)
        | some true => finishCoordination (newRecord P a handoff clock) a.task
        | some false =>
          .ask (.byKey a.key) fun
            | none => .done (.error .store)
            | some (some existing) => .done (.ok (again existing))
            | some none => .done (.error (.http 409 "idempotent request is still committing"))

/-- `submit_commission` -/
def submitCommission (P : Platform) (a : Submission) : Call Query Answer Reply :=
  .ask (.byKey a.key) fun
    | none => .done (.error .store)
    | some (some existing) => resumeCommission P a existing
    | some none => createCommission P a

/-! ## What calls count on -/

section Lawful

variable {σ : Type} {S : RunStore σ} {doc : String → String} {ledger : σ → Ledger} {Whole : σ → Prop}
  {own : String → String → Prop}

/-- the same commission, no earlier, and the same record once it is finished -/
structure Later (r r' : RunRecord) : Prop where
  runId : r'.runId = r.runId
  requestKey : r'.requestKey = r.requestKey
  taskDigest : r'.taskDigest = r.taskDigest
  attempts : r.attempts ≤ r'.attempts
  finished : r.status = .readyForRally → r' = r

theorem Later.refl (r : RunRecord) : Later r r := ⟨rfl, rfl, rfl, le_rfl, fun _ => rfl⟩

theorem Later.trans {r r' r'' : RunRecord} (h : Later r r') (h' : Later r' r'') : Later r r'' where
  runId := h'.runId.trans h.runId
  requestKey := h'.requestKey.trans h.requestKey
  taskDigest := h'.taskDigest.trans h.taskDigest
  attempts := h.attempts.trans h'.attempts
  finished hr := by
    obtain rfl := h.finished hr
    exact h'.finished hr

variable (doc ledger Whole own)

def Inv (s : σ) : Prop := Whole s ∧ (ledger s).Coherent doc own

/-- records stay with their requests and move on -/
def Evolves (s t : σ) : Prop :=
  s = t ∨ Inv doc ledger Whole own s ∧ Inv doc ledger Whole own t ∧
    ∀ d r, (ledger s).byDoc d = some r → ∃ r', (ledger t).byDoc d = some r' ∧ Later r r'

/-- nobody made or changed this attempt of a run -/
def Keeps (x : String × ℕ) (s t : σ) : Prop :=
  ∀ r, (ledger t).byRun x.1 = some r → r.attempts = x.2 → (ledger s).byRun x.1 = some r

/-- a run got as far as this attempt -/
def Issued (s : σ) (x : String × ℕ) : Prop := ∃ r, (ledger s).byRun x.1 = some r ∧ x.2 ≤ r.attempts

/-- the records of other requests stay as they are, under both indexes -/
def Apart (key : String) (s t : σ) : Prop :=
  ∀ d, d ≠ doc key → (ledger t).byDoc d = (ledger s).byDoc d ∧
    ∀ r, (ledger s).byDoc d = some r → (ledger t).byRun r.runId = (ledger s).byRun r.runId

variable {doc ledger Whole own}

section Evolves

variable {s t u : σ} {r c : RunRecord} {x : String × ℕ} {key : String}

theorem Evolves.inv (h : Evolves doc ledger Whole own s t) (hs : Inv doc ledger Whole own s) :
    Inv doc ledger Whole own t := by
  rcases h with rfl | ⟨-, ht, -⟩
  · exact hs
  · exact ht

/-- the record of a request, later -/
theorem Evolves.byDoc (h : Evolves doc ledger Whole own s t) {d : String} (hr : (ledger s).byDoc d = some r) :
    ∃ r', (ledger t).byDoc d = some r' ∧ Later r r' := by
  rcases h with rfl | ⟨-, -, hdoc⟩
  · exact ⟨r, hr, .refl r⟩
  · exact hdoc d r hr

/-- the record of a run, later -/
theorem Evolves.byRun (h : Evolves doc ledger Whole own s t) {i : String} (hr : (ledger s).byRun i = some r) :
    ∃ r', (ledger t).byRun i = some r' ∧ Later r r' := by
  rcases h with rfl | ⟨hs, ht, hdoc⟩
  · exact ⟨r, hr, .refl r⟩
  · obtain ⟨hrun, hkey⟩ := hs.2.run i r hr
    obtain ⟨r', hr', hlater⟩ := hdoc _ _ hkey
    obtain ⟨-, hrun'⟩ := ht.2.keyed _ _ hr'
    rw [hlater.runId, hrun] at hrun'
    exact ⟨r', hrun', hlater⟩

theorem Evolves.trans (h : Evolves doc ledger Whole own s t) (h' : Evolves doc ledger Whole own t u) :
    Evolves doc ledger Whole own s u := by
  rcases h with rfl | ⟨hs, ht, hdoc⟩
  · exact h'
  · refine Or.inr ⟨hs, h'.inv ht, fun d r hr => ?_⟩
    obtain ⟨r', hr', hlater⟩ := hdoc d r hr
    obtain ⟨r'', hr'', hlater'⟩ := h'.byDoc hr'
    exact ⟨r'', hr'', hlater.trans hlater'⟩

variable (doc ledger Whole own) in
/-- what calls on a run store may count on -/
def protocol : Rely σ (String × ℕ) where
  rel := Evolves doc ledger Whole own
  keeps := Keeps ledger
  issued := Issued ledger
  refl _ := Or.inl rfl
  trans h h' := h.trans h'
  keeps_refl _ _ := fun _ hr _ => hr
  keeps_trans h h' := fun r hr hx => h r (h' r hr hx) hx
  issued_mono := by
    rintro s t x h ⟨r, hr, hx⟩
    obtain ⟨r', hr', hlater⟩ := h.byRun hr
    exact ⟨r', hr', hx.trans hlater.attempts⟩

/-- a record that is new in both places, or follows one of its run -/
def Follows (L : Ledger) (doc : String → String) (r : RunRecord) : Prop :=
  L.byDoc (doc r.requestKey) = none ∧ L.byRun r.runId = none ∨ ∃ c, L.byRun r.runId = some c ∧ Later c r

theorem Follows.fits {L : Ledger} (h : Follows L doc r) : L.Fits doc r := by
  rcases h with h | ⟨c, hc, hlater⟩
  · exact Or.inl h
  · exact Or.inr ⟨c, hc, by rw [hlater.requestKey]⟩

/-- writing a record -/
theorem write_evolves (hs : Inv doc ledger Whole own s) (hwhole : Whole t) (ht : ledger t = (ledger s).put doc r)
    (hr : Follows (ledger s) doc r) (hcount : 1 ≤ r.attempts) (hid : r.runId ≠ "") (hown : own r.runId r.requestKey) :
    Evolves doc ledger Whole own s t := by
  refine Or.inr ⟨hs, ⟨hwhole, ht ▸ Ledger.put_coherent hs.2 hr.fits hcount hid hown⟩, fun d c hc => ?_⟩
  rw [ht]
  simp only [Ledger.put]
  by_cases hd : d = doc r.requestKey
  · subst hd
    rw [Function.update_self]
    rcases hr with ⟨hnone, -⟩ | ⟨c', hc', hlater⟩
    · rw [hnone] at hc
      cases hc
    · have hdoc := (hs.2.run _ _ hc').2
      rw [← hlater.requestKey, hc] at hdoc
      obtain rfl := Option.some.inj hdoc
      exact ⟨r, rfl, hlater⟩
  · rw [Function.update_of_ne hd]
    exact ⟨c, hc, .refl c⟩

/-- writing a record makes no other attempt -/
theorem write_keeps (ht : ledger t = (ledger s).put doc r) (hx : x ≠ (r.runId, r.attempts)) : Keeps ledger x s t := by
  intro c hc hattempt
  rw [ht] at hc
  simp only [Ledger.put] at hc
  by_cases hi : x.1 = r.runId
  · rw [hi, Function.update_self] at hc
    obtain rfl := Option.some.inj hc
    exact absurd (Prod.ext hi hattempt.symm) hx
  · rwa [Function.update_of_ne hi] at hc

/-- writing a record of a request leaves the others alone -/
theorem write_apart (hs : Inv doc ledger Whole own s) (ht : ledger t = (ledger s).put doc r)
    (hr : Follows (ledger s) doc r) (hkey : doc r.requestKey = doc key) : Apart doc ledger key s t := by
  intro d hd
  rw [← hkey] at hd
  rw [ht]
  simp only [Ledger.put]
  rw [Function.update_of_ne hd]
  refine ⟨rfl, fun c hc => ?_⟩
  rw [Function.update_of_ne (hs.2.apart hr.fits hd hc)]

theorem apart_refl (key : String) (s : σ) : Apart doc ledger key s s := fun _ _ => ⟨rfl, fun _ _ => rfl⟩

end Evolves

/-! ## What an operation does -/

section Operations

variable {s t : σ} {r r' c : RunRecord} {key : String}

/-- a store operation fails, or leaves the state it should -/
theorem attempt_cases {α : Type} (fate : Fate) (s : σ) (x : α × σ) :
    attempt fate s x = (s, none) ∨ (attempt fate s x).1 = x.2 ∧
      ((attempt fate s x).2 = none ∨ (attempt fate s x).2 = some x.1) := by
  cases fate with
  | done => exact Or.inr ⟨rfl, Or.inr rfl⟩
  | lost => exact Or.inl rfl
  | late => exact Or.inr ⟨rfl, Or.inl rfl⟩

/-- an operation that answers -/
theorem attempt_some {α : Type} {fate : Fate} {x : α × σ} {a : α} (h : (attempt fate s x).2 = some a) :
    a = x.1 ∧ (attempt fate s x).1 = x.2 := by
  cases fate with
  | done => exact ⟨(Option.some.inj h).symm, rfl⟩
  | lost => cases h
  | late => cases h

/-- a read leaves the state -/
theorem attempt_read {α : Type} (fate : Fate) (s : σ) (a : α) : (attempt fate s (a, s)).1 = s := by
  cases fate <;> rfl

/-- the record of a commission is in use, and the attempt a call holds is as it was given -/
structure Held (ledger : σ → Ledger) (s : σ) (r : RunRecord) : Prop where
  stored : ∃ c, (ledger s).byRun r.runId = some c ∧ c.requestKey = r.requestKey ∧ c.taskDigest = r.taskDigest ∧
    r.attempts ≤ c.attempts ∧ (c.attempts = r.attempts → c = r)

theorem Held.issued (h : Held ledger s r) : Issued ledger s (r.runId, r.attempts) := by
  obtain ⟨c, hc, -, -, hle, -⟩ := h.stored
  exact ⟨c, hc, hle⟩

theorem Held.stable (h : Held ledger s r)
    (hst : Call.Meanwhile (protocol doc ledger Whole own) {(r.runId, r.attempts)} s t) : Held ledger t r := by
  obtain ⟨c, hc, hkey, hdigest, hle, hown⟩ := h.stored
  obtain ⟨c', hc', hlater⟩ := Evolves.byRun hst.1 hc
  refine ⟨c', hc', hlater.requestKey.trans hkey, hlater.taskDigest.trans hdigest, hle.trans hlater.attempts, fun heq => ?_⟩
  have hkept := hst.2 _ rfl c' hc' heq
  obtain rfl := Option.some.inj (hc.symm.trans hkept)
  exact hown heq

/-- the record a call just wrote -/
theorem held_put (ht : ledger t = (ledger s).put doc r) : Held ledger t r := by
  refine ⟨⟨r, ?_, rfl, rfl, le_rfl, fun _ => rfl⟩⟩
  rw [ht]
  exact Function.update_self _ _ _

/-- an operation that leaves everything as it is -/
theorem move_same {mine : Set (String × ℕ)} (h : ∀ x ∈ mine, Issued ledger s x) :
    Call.Move (protocol doc ledger Whole own) (Apart doc ledger key) mine mine s s where
  rel := Or.inl rfl
  guar := apart_refl key s
  others x _ _ := (protocol doc ledger Whole own).keeps_refl x s
  taken _ hx := Or.inl hx
  issued := h

/-- an operation that starts an attempt -/
theorem move_grant {mine : Set (String × ℕ)} (hs : Inv doc ledger Whole own s) (hwhole : Whole t)
    (ht : ledger t = (ledger s).put doc r) (hr : Follows (ledger s) doc r)
    (hnew : ¬ Issued ledger s (r.runId, r.attempts)) (hpos : 1 ≤ r.attempts) (hid : r.runId ≠ "")
    (hown : own r.runId r.requestKey) (hkey : doc r.requestKey = doc key)
    (hmine : ∀ x ∈ mine, x = (r.runId, r.attempts)) :
    Call.Move (protocol doc ledger Whole own) (Apart doc ledger key) ∅ mine s t where
  rel := write_evolves hs hwhole ht hr hpos hid hown
  guar := write_apart hs ht hr hkey
  others x _ hx := write_keeps ht fun heq => hnew (heq ▸ hx)
  taken x hx := Or.inr (hmine x hx ▸ hnew)
  issued x hx := by
    rw [hmine x hx]
    exact (held_put ht).issued

/-- a resumed record is the next attempt -/
theorem resume_attempts {c : RunRecord} (h : 1 ≤ c.attempts) (l : ℚ) (u : String) :
    (c.resume l u).attempts = c.attempts + 1 := by
  have hne : c.attempts ≠ 0 := by omega
  simp [RunRecord.resume, RunRecord.attempt, hne]

theorem resume_later {c : RunRecord} (h : 1 ≤ c.attempts) (hc : c.status ≠ .readyForRally) (l : ℚ) (u : String) :
    Later c (c.resume l u) :=
  ⟨rfl, rfl, rfl, by rw [resume_attempts h]; omega, fun hready => absurd hready hc⟩

variable (hS : Lawful S doc ledger Whole)
include hS

/-- a creation that finds no record of its run where it finds none of its request -/
theorem create_cases (hs : Inv doc ledger Whole own s)
    (hfresh : (ledger s).byDoc (doc r.requestKey) = none → (ledger s).byRun r.runId = none) :
    S.create r s = (false, s) ∧ (∃ c, (ledger s).byDoc (doc r.requestKey) = some c) ∨
      (ledger s).byDoc (doc r.requestKey) = none ∧ (ledger s).byRun r.runId = none ∧ (S.create r s).1 = true ∧
        Whole (S.create r s).2 ∧ ledger (S.create r s).2 = (ledger s).put doc r := by
  cases hdoc : (ledger s).byDoc (doc r.requestKey) with
  | some c => exact Or.inl ⟨hS.taken hs.1 hs.2 hdoc, c, rfl⟩
  | none => exact Or.inr ⟨rfl, hfresh hdoc, hS.created hs.1 hs.2 hdoc (hfresh hdoc)⟩

/-- a creation takes the first attempt of its run, or nothing -/
theorem create_move (hs : Inv doc ledger Whole own s)
    (hfresh : (ledger s).byDoc (doc r.requestKey) = none → (ledger s).byRun r.runId = none) (hpos : 1 ≤ r.attempts)
    (hid : r.runId ≠ "") (hown : own r.runId r.requestKey) (hkey : doc r.requestKey = doc key) (i : Input) :
    Call.Move (protocol doc ledger Whole own) (Apart doc ledger key) ∅ ∅ s (exec S (.create r) i s).1 ∧
      ((exec S (.create r) i s).2 = some true →
        Call.Move (protocol doc ledger Whole own) (Apart doc ledger key) ∅ {(r.runId, r.attempts)} s
          (exec S (.create r) i s).1 ∧ Held ledger (exec S (.create r) i s).1 r) := by
  simp only [exec]
  rcases create_cases hS hs hfresh with ⟨htaken, -⟩ | ⟨hdoc, hrun, htrue, hwhole, hput⟩
  · rw [htaken, attempt_read]
    refine ⟨move_same fun x hx => hx.elim, fun hanswer => ?_⟩
    cases (attempt_some hanswer).1
  have hnew : ¬ Issued ledger s (r.runId, r.attempts) := by
    rintro ⟨c, hc, -⟩
    rw [hrun] at hc
    cases hc
  have hgrant : ∀ mine : Set (String × ℕ), (∀ x ∈ mine, x = (r.runId, r.attempts)) →
      Call.Move (protocol doc ledger Whole own) (Apart doc ledger key) ∅ mine s (S.create r s).2 :=
    fun mine hmine => move_grant hs hwhole hput (Or.inl ⟨hdoc, hrun⟩) hnew hpos hid hown hkey hmine
  refine ⟨?_, fun hanswer => ?_⟩
  · rcases attempt_cases i.fate s (S.create r s) with heq | ⟨heq, -⟩
    · rw [heq]; exact move_same fun x hx => hx.elim
    · rw [heq]; exact hgrant ∅ fun x hx => hx.elim
  · rw [(attempt_some hanswer).2]
    exact ⟨hgrant _ fun x hx => hx, held_put hput⟩

/-- a reclaim finds nothing to resume, or resumes the record of its request -/
theorem reclaim_cases (hs : Inv doc ledger Whole own s) (k : String) (l : ℚ) (u : String) (now : ℚ) :
    S.reclaim k l u now s = (none, s) ∨ ∃ c, (ledger s).byDoc (doc k) = some c ∧ c.status ≠ .readyForRally ∧
      (S.reclaim k l u now s).1 = some (c.resume l u) ∧ Whole (S.reclaim k l u now s).2 ∧
      ledger (S.reclaim k l u now s).2 = (ledger s).put doc (c.resume l u) := by
  cases hdoc : (ledger s).byDoc (doc k) with
  | none => exact Or.inl (hS.absent hs.1 hs.2 hdoc)
  | some c =>
    by_cases hfree : c.Reclaimable now
    · refine Or.inr ⟨c, rfl, fun hready => ?_, hS.reclaimed hs.1 hs.2 hdoc hfree⟩
      rcases hfree with hfailed | ⟨hrunning, -⟩
      · rw [hready] at hfailed; cases hfailed
      · rw [hready] at hrunning; cases hrunning
    · exact Or.inl (hS.busy hs.1 hs.2 hdoc hfree)

/-- a reclaim takes the next attempt of the run of its request, or nothing -/
theorem reclaim_move (hs : Inv doc ledger Whole own s) (k : String) (l : ℚ) (u : String) (i : Input) :
    Call.Move (protocol doc ledger Whole own) (Apart doc ledger k) ∅ ∅ s (exec S (.reclaim k l u) i s).1 ∧
      ∀ r, (exec S (.reclaim k l u) i s).2 = some (some r) →
        Call.Move (protocol doc ledger Whole own) (Apart doc ledger k) ∅ {(r.runId, r.attempts)} s
            (exec S (.reclaim k l u) i s).1 ∧ Held ledger (exec S (.reclaim k l u) i s).1 r ∧
          r.status = .coordinating ∧ 1 ≤ r.attempts ∧ doc r.requestKey = doc k ∧
          ∃ c, (ledger s).byDoc (doc k) = some c ∧ r.attempts = c.attempts + 1 ∧ r.taskDigest = c.taskDigest := by
  simp only [exec]
  rcases reclaim_cases hS hs k l u i.clock.time with hnone | ⟨c, hdoc, hstatus, hsome, hwhole, hput⟩
  · rw [hnone, attempt_read]
    refine ⟨move_same fun x hx => hx.elim, fun r hanswer => ?_⟩
    cases (attempt_some hanswer).1
  obtain ⟨hkey, hrun⟩ := hs.2.keyed _ _ hdoc
  obtain ⟨hpos, hid, hown⟩ := hs.2.counted _ _ hrun
  have hattempts := resume_attempts hpos l u
  have hnew : ¬ Issued ledger s ((c.resume l u).runId, (c.resume l u).attempts) := by
    rintro ⟨c', hc', hle⟩
    obtain rfl := Option.some.inj (hrun.symm.trans hc')
    rw [hattempts] at hle
    omega
  have hgrant : ∀ mine : Set (String × ℕ), (∀ x ∈ mine, x = ((c.resume l u).runId, (c.resume l u).attempts)) →
      Call.Move (protocol doc ledger Whole own) (Apart doc ledger k) ∅ mine s (S.reclaim k l u i.clock.time s).2 :=
    fun mine hmine => move_grant hs hwhole hput (Or.inr ⟨c, hrun, resume_later hpos hstatus l u⟩) hnew
      (by rw [hattempts]; omega) hid hown hkey hmine
  refine ⟨?_, fun r hanswer => ?_⟩
  · rcases attempt_cases i.fate s (S.reclaim k l u i.clock.time s) with heq | ⟨heq, -⟩
    · rw [heq]; exact move_same fun x hx => hx.elim
    · rw [heq]; exact hgrant ∅ fun x hx => hx.elim
  · obtain ⟨hr, hstate⟩ := attempt_some hanswer
    obtain rfl := Option.some.inj (hr.trans hsome)
    rw [hstate]
    exact ⟨hgrant _ fun x hx => hx, held_put hput, rfl, by rw [hattempts]; omega, hkey, c, hdoc, hattempts, rfl⟩

/-- an update by the call that holds the attempt -/
theorem update_cases (hs : Inv doc ledger Whole own s) (hr : Held ledger s r) (hlater : Later r r') :
    S.update r'.runId r' r.attempts s = (false, s) ∨
      (ledger s).byRun r'.runId = some r ∧ (S.update r'.runId r' r.attempts s).1 = true ∧
        Whole (S.update r'.runId r' r.attempts s).2 ∧
        ledger (S.update r'.runId r' r.attempts s).2 = (ledger s).put doc r' := by
  obtain ⟨c, hc, hkey, -, -, hown⟩ := hr.stored
  rw [← hlater.runId] at hc
  by_cases heq : c.attempts = r.attempts
  · have hsame := hown heq
    subst hsame
    exact Or.inr ⟨hc, hS.updated hs.1 hs.2 hc rfl (by rw [hlater.requestKey])⟩
  · exact Or.inl (hS.refused hc heq)

/-- the update of a finished attempt -/
theorem update_move (hs : Inv doc ledger Whole own s) (hr : Held ledger s r) (hlater : Later r r')
    (hattempts : r'.attempts = r.attempts) (hkey : doc r.requestKey = doc key) (i : Input) :
    Call.Move (protocol doc ledger Whole own) (Apart doc ledger key) {(r.runId, r.attempts)} ∅ s
      (exec S (.update r'.runId r' r.attempts) i s).1 := by
  have hsame : Call.Move (protocol doc ledger Whole own) (Apart doc ledger key) {(r.runId, r.attempts)} ∅ s s :=
    ⟨Or.inl rfl, apart_refl key s, fun x _ _ => (protocol doc ledger Whole own).keeps_refl x s, fun x hx => hx.elim,
      fun x hx => hx.elim⟩
  simp only [exec]
  rcases attempt_cases i.fate s (S.update r'.runId r' r.attempts s) with heq | ⟨heq, -⟩
  · rw [heq]; exact hsame
  rw [heq]
  rcases update_cases hS hs hr hlater with hrefused | ⟨hc, -, hwhole, hput⟩
  · rw [hrefused]; exact hsame
  obtain ⟨hpos, hid, hown⟩ := hs.2.counted _ _ hc
  have hfollows : Follows (ledger s) doc r' := Or.inr ⟨r, hc, hlater⟩
  refine ⟨?_, ?_, fun x hx _ => ?_, fun x hx => hx.elim, fun x hx => hx.elim⟩
  · refine write_evolves hs hwhole hput hfollows (hattempts ▸ hpos) (hlater.runId ▸ hid) ?_
    rw [hlater.runId, hlater.requestKey]
    exact hown
  · exact write_apart hs hput hfollows (by rw [hlater.requestKey]; exact hkey)
  · refine write_keeps hput fun heq => hx ?_
    rw [heq, hlater.runId, hattempts]
    rfl

end Operations

/-! ## What a call does -/

section Calls

variable {s t : σ} {r c : RunRecord} {P : Platform} {a : Submission} {ok : Query → σ → Prop} {strict : Prop}

/-- the record of a request is of this task -/
def Stored (doc : String → String) (ledger : σ → Ledger) (key digest : String) (s : σ) : Prop :=
  ∃ c, (ledger s).byDoc (doc key) = some c ∧ c.taskDigest = digest

/-- a returned record is of the task its request is stored with, and of the task of the call -/
def Bound (doc : String → String) (ledger : σ → Ledger) (P : Platform) (strict : Prop) (a : Submission) (reply : Reply)
    (s : σ) : Prop :=
  ∀ r, reply = .ok r → Stored doc ledger a.key r.taskDigest s ∧ (strict → r.taskDigest = P.taskDigest a.task)

theorem Stored.later {key digest : String} (h : Stored doc ledger key digest s) (hst : Evolves doc ledger Whole own s t) :
    Stored doc ledger key digest t := by
  obtain ⟨c, hc, hdigest⟩ := h
  obtain ⟨c', hc', hlater⟩ := hst.byDoc hc
  exact ⟨c', hc', hlater.taskDigest.trans hdigest⟩

/-- an attempt is on the record its request is stored with -/
theorem Held.stored_key {key : String} (h : Held ledger s r) (hs : Inv doc ledger Whole own s)
    (hkey : doc r.requestKey = doc key) : Stored doc ledger key r.taskDigest s := by
  obtain ⟨c, hc, hckey, hdigest, -, -⟩ := h.stored
  have hdoc := (hs.2.run _ _ hc).2
  rw [hckey, hkey] at hdoc
  exact ⟨c, hdoc, hdigest⟩

variable (doc ledger Whole own ok strict) in
/-- a creation is of a run id that its key may use and no other request has; a creation that comes too late is of the
task it finds -/
structure Regime : Prop where
  fresh : ∀ {s r}, Inv doc ledger Whole own s → ok (.create r) s → own r.runId r.requestKey ∧
    ((ledger s).byDoc (doc r.requestKey) = none → (ledger s).byRun r.runId = none)
  task : strict → ∀ {s r c}, Inv doc ledger Whole own s → ok (.create r) s →
    (ledger s).byDoc (doc r.requestKey) = some c → c.taskDigest = r.taskDigest

variable (doc ledger Whole own ok strict P a S) in
/-- a call in this place, owning these attempts, keeps to the protocol and to its own request -/
def Does (c : Call Query Answer Reply) (mine : Set (String × ℕ)) (s : σ) : Prop :=
  c.Meets (exec S) ok (protocol doc ledger Whole own) (Apart doc ledger a.key) (Bound doc ledger P strict a) mine s

theorem does_error {f : Failure} {mine : Set (String × ℕ)} :
    Does S doc ledger Whole own P a ok strict (.done (.error f)) mine s :=
  Call.meets_done fun _ _ _ h => nomatch h

theorem does_ok {mine : Set (String × ℕ)} (hstored : Stored doc ledger a.key r.taskDigest s)
    (h : strict → r.taskDigest = P.taskDigest a.task) :
    Does S doc ledger Whole own P a ok strict (.done (.ok r)) mine s :=
  Call.meets_done fun _ hst _ heq => by
    cases heq
    exact ⟨hstored.later hst.1, h⟩

/-- an operation that leaves the state of a call without attempts -/
theorem does_read {q : Query} {k : Answer q → Call Query Answer Reply} (hread : ∀ i t, (exec S q i t).1 = t)
    (h : ∀ t, Evolves doc ledger Whole own s t → ∀ i, Does S doc ledger Whole own P a ok strict (k (exec S q i t).2) ∅ t) :
    Does S doc ledger Whole own P a ok strict (.ask q k) ∅ s :=
  Call.meets_ask fun t hst _ i => ⟨∅, by rw [hread]; exact move_same fun x hx => hx.elim, by
    rw [hread i t]
    exact h t hst.1 i⟩

theorem read_byKey (S : RunStore σ) (k : String) (i : Input) (t : σ) : (exec S (.byKey k) i t).1 = t :=
  attempt_read _ _ _

theorem read_get (S : RunStore σ) (k : String) (i : Input) (t : σ) : (exec S (.get k) i t).1 = t :=
  attempt_read _ _ _

/-- a reading of the clocks -/
theorem does_clock {k : Clock → Call Query Answer Reply}
    (h : ∀ t, Evolves doc ledger Whole own s t → ∀ clock, Does S doc ledger Whole own P a ok strict (k clock) ∅ t) :
    Does S doc ledger Whole own P a ok strict (.ask .clock k) ∅ s :=
  does_read (fun _ _ => rfl) fun t hst i => h t hst i.clock

/-- the record of a run keeps the task of an attempt on it -/
theorem Held.digest (h : Held ledger s r) (hst : Evolves doc ledger Whole own s t)
    (hc : (ledger t).byRun r.runId = some c) : c.taskDigest = r.taskDigest := by
  obtain ⟨c', hc', -, hdigest, -, -⟩ := h.stored
  obtain ⟨c'', hc'', hlater⟩ := hst.byRun hc'
  obtain rfl := Option.some.inj (hc.symm.trans hc'')
  exact hlater.taskDigest.trans hdigest

/-- the attempt of a record that counts its attempts -/
theorem attempt_eq (h : 1 ≤ r.attempts) : r.attempt = r.attempts := by
  have hne : r.attempts ≠ 0 := by omega
  simp [RunRecord.attempt, hne]

variable (hS : Lawful S doc ledger Whole)
include hS

/-- the update at the end of an attempt, and what follows it -/
theorem does_update (r' : RunRecord) {k : Option Bool → Call Query Answer Reply} (hs : Inv doc ledger Whole own s)
    (hr : Held ledger s r) (hlater : Later r r') (hattempts : r'.attempts = r.attempts)
    (hkey : doc r.requestKey = doc a.key)
    (hk : ∀ t b, Inv doc ledger Whole own t → Held ledger t r → ∀ u, Evolves doc ledger Whole own t u →
      Does S doc ledger Whole own P a ok strict (k b) ∅ u) :
    Does S doc ledger Whole own P a ok strict (.ask (.update r'.runId r' r.attempts) k) {(r.runId, r.attempts)} s := by
  refine Call.meets_ask fun t hst _ i => ⟨∅, ?_, ?_⟩
  · exact update_move hS (hst.1.inv hs) (hr.stable hst) hlater hattempts hkey i
  · exact hk t _ (hst.1.inv hs) (hr.stable hst) _ (update_move hS (hst.1.inv hs) (hr.stable hst) hlater hattempts hkey i).rel

theorem does_finish (hs : Inv doc ledger Whole own s) (hr : Held ledger s r) (hstatus : r.status = .coordinating)
    (hpos : 1 ≤ r.attempts) (hkey : doc r.requestKey = doc a.key) (hdigest : r.taskDigest = P.taskDigest a.task) :
    Does S doc ledger Whole own P a ok strict (finishCoordination r a.task) {(r.runId, r.attempts)} s := by
  have hrunning : r.status ≠ .readyForRally := by rw [hstatus]; decide
  unfold finishCoordination
  rw [attempt_eq hpos]
  refine Call.meets_ask fun t hst _ i => ⟨_, move_same fun x hx => hx ▸ (hr.stable hst).issued, ?_⟩
  have ht := hst.1.inv hs
  have hheld := hr.stable hst
  obtain ⟨fate, clock, outcome⟩ := i
  cases outcome with
  | cancelled => exact does_error
  | failed error =>
    refine does_update hS (failedRecord r error clock.iso) ht hheld
      ⟨rfl, rfl, rfl, le_rfl, fun h => absurd h hrunning⟩ rfl hkey fun t b _ _ u _ => ?_
    cases b with
    | none => exact does_error
    | some b => exact does_error
  | record text =>
    refine does_update hS (readyRecord r text clock.iso) ht hheld
      ⟨rfl, rfl, rfl, le_rfl, fun h => absurd h hrunning⟩ rfl hkey fun t b hinv hheld' u htu => ?_
    match b with
    | none => exact does_error
    | some true => exact does_ok ((hheld'.stored_key hinv hkey).later htu) fun _ => hdigest
    | some false =>
      refine does_read (read_get S _) fun v huv i => ?_
      split
      · exact does_error
      · rename_i current hcurrent
        have hrun := (attempt_some hcurrent).1
        rw [hS.get] at hrun
        have hcurrent := hheld'.digest (htu.trans huv) hrun.symm
        refine does_ok (r := again current) ?_ fun _ => hcurrent.trans hdigest
        rw [show (again current).taskDigest = r.taskDigest from hcurrent]
        exact (hheld'.stored_key hinv hkey).later (htu.trans huv)
      · exact does_error

theorem does_resume {existing : RunRecord} (hs : Inv doc ledger Whole own s)
    (hexisting : (ledger s).byDoc (doc a.key) = some existing) :
    Does S doc ledger Whole own P a ok strict (resumeCommission P a existing) ∅ s := by
  have hstored : Stored doc ledger a.key (again existing).taskDigest s := ⟨existing, hexisting, rfl⟩
  unfold resumeCommission
  split_ifs with hother hopen
  · exact does_error
  · have hdigest := not_not.1 hother
    refine does_clock fun t hst clock => Call.meets_ask fun u htu _ i => ?_
    have hsu := hst.trans htu.1
    obtain ⟨hidle, hgrant⟩ := reclaim_move hS (hsu.inv hs) a.key (clock.time + coordinationLeaseSeconds) clock.iso i
    cases hanswer : (exec S (.reclaim a.key (clock.time + coordinationLeaseSeconds) clock.iso) i u).2 with
    | none => exact ⟨∅, hidle, does_error⟩
    | some resumed =>
      cases resumed with
      | none => exact ⟨∅, hidle, does_ok (hstored.later (hsu.trans hidle.rel)) fun _ => hdigest⟩
      | some r =>
        obtain ⟨hmove, hheld, hstatus, hpos, hkey, c, hc, -, hrc⟩ := hgrant r hanswer
        obtain ⟨c', hc', hlater⟩ := hsu.byDoc hexisting
        obtain rfl := Option.some.inj (hc.symm.trans hc')
        exact ⟨_, hmove, does_finish hS (hmove.rel.inv (hsu.inv hs)) hheld hstatus hpos hkey
          (hrc.trans (hlater.taskDigest.trans hdigest))⟩
  · exact does_ok hstored fun _ => not_not.1 hother

omit hS in
theorem run_ne (a : Submission) : a.run ≠ "" := by
  have hid : "r-" ++ Py.takeChars a.uuid 10 ≠ "" := by
    intro h
    have := congrArg String.toList h
    simp at this
  unfold Submission.run firstText
  split
  · split_ifs with h
    · exact hid
    · exact h
  · exact hid

theorem does_create (hregime : Regime doc ledger Whole own ok strict) (hs : Inv doc ledger Whole own s) :
    Does S doc ledger Whole own P a ok strict (createCommission P a) ∅ s := by
  refine does_clock fun t hst clock => ?_
  split
  · exact does_error
  rename_i handoff _
  refine Call.meets_ask fun u htu hok j => ?_
  have hu := (hst.trans htu.1).inv hs
  obtain ⟨hown, hfresh⟩ := hregime.fresh hu hok
  obtain ⟨hidle, hgrant⟩ := create_move hS hu hfresh le_rfl (run_ne a) hown rfl j
  cases hanswer : (exec S (.create (newRecord P a handoff clock)) j u).2 with
  | none => exact ⟨∅, hidle, does_error⟩
  | some created =>
    cases created with
    | true =>
      obtain ⟨hmove, hheld⟩ := hgrant hanswer
      exact ⟨_, hmove, does_finish hS (hmove.rel.inv hu) hheld rfl le_rfl rfl rfl⟩
    | false =>
      refine ⟨∅, hidle, does_read (read_byKey S _) fun v huv l => ?_⟩
      split
      · exact does_error
      · rename_i existing hexisting
        have hv := (hidle.rel.trans huv).inv hu
        have hkey := (attempt_some hexisting).1
        rw [hS.getByRequestKey a.key v hv.1 hv.2] at hkey
        refine does_ok (r := again existing) ⟨existing, hkey.symm, rfl⟩ fun hstrict => ?_
        -- the record that was in the way, and what became of it
        rcases create_cases hS hu hfresh with ⟨-, c, hc⟩ | ⟨-, -, htrue, -⟩
        · obtain ⟨c', hc', hlater⟩ := (hidle.rel.trans huv).byDoc hc
          obtain rfl := Option.some.inj (hkey.trans hc')
          exact hlater.taskDigest.trans (hregime.task hstrict hu hok hc)
        · have hfalse := (attempt_some hanswer).1
          rw [htrue] at hfalse
          cases hfalse
      · exact does_error

/-- a call keeps to the protocol and to its own request, and returns a record of its task -/
theorem commission_meets (hregime : Regime doc ledger Whole own ok strict) (hs : Inv doc ledger Whole own s) :
    Does S doc ledger Whole own P a ok strict (submitCommission P a) ∅ s := by
  refine does_read (read_byKey S _) fun t hst i => ?_
  have ht := hst.inv hs
  split
  · exact does_error
  · rename_i existing hexisting
    have hkey := (attempt_some hexisting).1
    rw [hS.getByRequestKey a.key t ht.1 ht.2] at hkey
    exact does_resume hS ht hkey.symm
  · exact does_create hS hregime ht

end Calls

end Lawful

/-! ## Runs -/

section Runs

variable {σ : Type}

/-- calls, and nothing else; `ok` says where operations are done -/
abbrev Run (S : RunStore σ) (P : Platform) (ok : Query → σ → Prop) (s₀ : σ) :=
  Trace (System.Step (exec S) ok (submitCommission P) fun _ _ => False)
    (⟨s₀, []⟩ : System σ Submission Query Answer Reply)

/-- a store that keeps nothing yet -/
structure Empty (ledger : σ → Ledger) (Whole : σ → Prop) (s : σ) : Prop where
  whole : Whole s
  byDoc : ∀ d, (ledger s).byDoc d = none
  byRun : ∀ i, (ledger s).byRun i = none

theorem memory_empty : Empty Memory.ledger Memory.Whole Memory.empty :=
  ⟨fun _ _ h => by simp [Memory.empty] at h, fun _ => rfl, fun _ => rfl⟩

theorem firestore_empty : Empty Firestore.ledger (fun _ => True) Firestore.empty := ⟨trivial, fun _ => rfl, fun _ => rfl⟩

variable {S : RunStore σ} {doc : String → String} {ledger : σ → Ledger} {Whole : σ → Prop} {s₀ : σ}
  {own : String → String → Prop} {P : Platform} {ok : Query → σ → Prop} {strict : Prop}

theorem Empty.inv (h : Empty ledger Whole s₀) : Inv doc ledger Whole own s₀ :=
  ⟨h.whole, fun d _ hr => absurd ((h.byDoc d).symm.trans hr) nofun,
    fun i _ hr => absurd ((h.byRun i).symm.trans hr) nofun, fun i _ hr => absurd ((h.byRun i).symm.trans hr) nofun⟩

theorem runs (hS : Lawful S doc ledger Whole) (h0 : Empty ledger Whole s₀)
    (hregime : Regime doc ledger Whole own ok strict) :
    System.Runs (exec S) ok (submitCommission P) (fun _ _ => False) (protocol doc ledger Whole own)
      (fun a => Apart doc ledger a.key) (fun a => Bound doc ledger P strict a) s₀ where
  code _ _ hs := commission_meets hS hregime (Evolves.inv hs h0.inv)
  other _ _ _ h := h.elim

/-! ### Attempts -/

/-- every run id is used by one request key only -/
def OneKey (T : System σ Submission Query Answer Reply) : Prop :=
  ∀ c ∈ T.calls, ∀ c' ∈ T.calls, c.1.run = c'.1.run → c.1.key = c'.1.key

/-- what a reclaim answers for a request, and leaves: the next attempt of its record, stored under both indexes, or nothing,
with the store as it was. One that fails may have done either. -/
def Reclaims (S : RunStore σ) (k : String) (answer : Option (Option RunRecord)) (s t : σ) : Prop :=
  (t = s ∧ ∀ r, answer ≠ some (some r)) ∨
    ∃ r r', S.getByRequestKey k s = some r ∧ r'.attempts = r.attempts + 1 ∧ S.getByRequestKey k t = some r' ∧
      S.get r.runId t = some r' ∧ (answer = none ∨ answer = some (some r'))

/-- what fencing promises of a store -/
structure Fenced (S : RunStore σ) (P : Platform) (s₀ : σ) : Prop where
  /-- attempts do not decrease, and a record that is ready stays as it is -/
  forward : ∀ tr tr' U T, Run S P Call.always s₀ tr U →
    Trace (System.Step (exec S) Call.always (submitCommission P) fun _ _ => False) U tr' T → OneKey T →
    ∀ i r, S.get i U.shared = some r → ∃ r', S.get i T.shared = some r' ∧ r.attempts ≤ r'.attempts ∧
      (r.status = .readyForRally → r'.status = .readyForRally ∧ r'.attempts = r.attempts ∧
        r'.coordinatorRecord = r.coordinatorRecord)
  /-- a reclaim increases the attempts by one where it answers with the next one, and does nothing where it has none -/
  reclaim : ∀ tr T, Run S P Call.always s₀ tr T → OneKey T → ∀ e ∈ tr, ∀ n i a k l u c, e.act = .act n i →
    e.before.calls[n]? = some (a, .ask (.reclaim k l u) c) →
      Reclaims S k (exec S (.reclaim k l u) i e.before.shared).2 e.before.shared e.after.shared
  /-- an attempt that is no longer the current one changes nothing -/
  stale : ∀ tr T, Run S P Call.always s₀ tr T → OneKey T → ∀ e ∈ tr, ∀ n i a id r m c, e.act = .act n i →
    e.before.calls[n]? = some (a, .ask (.update id r m) c) → ∀ current, S.get id e.before.shared = some current →
      current.attempts ≠ m → e.after.shared = e.before.shared

/-! ### What calls ask -/

section Asks

variable {p : Query → Prop}

theorem finish_asks (hp : ∀ q, (∀ r, q ≠ .create r) → p q) (r : RunRecord) (task : String) :
    (finishCoordination r task).Asks p := by
  have hcoordinate := hp (.coordinate task r.runId r.attempt) fun _ h => nomatch h
  have hupdate : ∀ i r' n, p (.update i r' n) := fun i r' n => hp _ fun _ h => nomatch h
  have hget : ∀ i, p (.get i) := fun i => hp _ fun _ h => nomatch h
  refine Call.asks_ask.2 ⟨hcoordinate, fun
    | (.cancelled, _) => Call.asks_done
    | (.failed error, clock) => Call.asks_ask.2 ⟨hupdate _ _ _, fun
      | none => Call.asks_done
      | some _ => Call.asks_done⟩
    | (.record text, clock) => Call.asks_ask.2 ⟨hupdate _ _ _, fun
      | none => Call.asks_done
      | some true => Call.asks_done
      | some false => Call.asks_ask.2 ⟨hget _, fun
        | none => Call.asks_done
        | some none => Call.asks_done
        | some (some _) => Call.asks_done⟩⟩⟩

theorem resume_asks (hp : ∀ q, (∀ r, q ≠ .create r) → p q) (a : Submission) (existing : RunRecord) :
    (resumeCommission P a existing).Asks p := by
  have hclock := hp .clock fun _ h => nomatch h
  have hreclaim : ∀ k l t, p (.reclaim k l t) := fun k l t => hp _ fun _ h => nomatch h
  by_cases hother : existing.taskDigest ≠ P.taskDigest a.task
  · rw [resumeCommission, if_pos hother]
    exact Call.asks_done
  by_cases hopen : existing.status = .coordinatorFailed ∨ existing.status = .coordinating
  · rw [resumeCommission, if_neg hother, if_pos hopen]
    exact Call.asks_ask.2 ⟨hclock, fun clock => Call.asks_ask.2 ⟨hreclaim _ _ _, fun
      | none => Call.asks_done
      | some none => Call.asks_done
      | some (some resumed) => finish_asks hp resumed a.task⟩⟩
  · rw [resumeCommission, if_neg hother, if_neg hopen]
    exact Call.asks_done

/-- a call creates records of its own run id and key only -/
theorem create_asks (hp : ∀ q, (∀ r, q ≠ .create r) → p q) {a : Submission}
    (hcreate : ∀ r, r.runId = a.run → r.requestKey = a.key → p (.create r)) : (createCommission P a).Asks p := by
  have hclock := hp .clock fun _ h => nomatch h
  have hkey := hp (.byKey a.key) fun _ h => nomatch h
  refine Call.asks_ask.2 ⟨hclock, fun clock => ?_⟩
  cases buildHandoff P a.task with
  | none => exact Call.asks_done
  | some handoff =>
    exact Call.asks_ask.2 ⟨hcreate _ rfl rfl, fun
      | none => Call.asks_done
      | some true => finish_asks hp _ a.task
      | some false => Call.asks_ask.2 ⟨hkey, fun
        | none => Call.asks_done
        | some none => Call.asks_done
        | some (some _) => Call.asks_done⟩⟩

theorem submit_asks (hp : ∀ q, (∀ r, q ≠ .create r) → p q) {a : Submission}
    (hcreate : ∀ r, r.runId = a.run → r.requestKey = a.key → p (.create r)) : (submitCommission P a).Asks p :=
  have hkey := hp (.byKey a.key) fun _ h => nomatch h
  Call.asks_ask.2 ⟨hkey, fun
    | none => Call.asks_done
    | some (some existing) => resume_asks hp a existing
    | some none => create_asks hp hcreate⟩

end Asks

/-- the operations of calls whose run ids have these keys -/
def OwnCreates (own : String → String → Prop) : Query → Prop
  | .create r => own r.runId r.requestKey
  | _ => True

/-- a run id with one key is free where its request is -/
theorem regime_own (hown : ∀ i k k', own i k → own i k' → k = k') :
    Regime doc ledger Whole own (fun q (_ : σ) => OwnCreates own q) False where
  fresh {s r} hs hok := by
    refine ⟨hok, fun hnone => ?_⟩
    by_contra hsome
    obtain ⟨c, hc⟩ := Option.ne_none_iff_exists'.1 hsome
    obtain ⟨hrun, hdoc⟩ := hs.2.run _ _ hc
    have hused := (hs.2.counted _ _ hc).2.2
    rw [hrun] at hused
    rw [hown _ _ _ hused hok, hnone] at hdoc
    cases hdoc
  task h := h.elim

/-- the run ids and keys of the calls made -/
def Used (T : System σ Submission Query Answer Reply) (i k : String) : Prop := ∃ c ∈ T.calls, c.1.run = i ∧ c.1.key = k

/-- runs of calls whose run ids have one key keep to the protocol -/
theorem run_own {tr T} (h : Run S P Call.always s₀ tr T) :
    Run S P (fun q _ => OwnCreates (Used T) q) s₀ tr T := by
  refine (System.run_asks h fun a ha => ?_).1
  obtain ⟨c, hc, rfl⟩ := List.mem_map.1 ha
  refine submit_asks (fun q hq => ?_) fun r hrun hkey => ⟨c, hc, hrun.symm, hkey.symm⟩
  cases q with
  | create r => exact absurd rfl (hq r)
  | _ => exact trivial

theorem OneKey.used {T : System σ Submission Query Answer Reply} (h : OneKey T) :
    ∀ i k k', Used T i k → Used T i k' → k = k' := by
  rintro i k k' ⟨c, hc, hrun, rfl⟩ ⟨c', hc', hrun', rfl⟩
  exact h c hc c' hc' (hrun.trans hrun'.symm)

theorem fenced_of_lawful (hS : Lawful S doc ledger Whole) (h0 : Empty ledger Whole s₀) : Fenced S P s₀ where
  forward tr tr' U T hU hT hone i r hr := by
    have hwithin := (System.run_within (runs hS h0 (regime_own hone.used)) (run_own (hU.append hT))).2
    have hsteps : ∀ e ∈ tr', Evolves doc ledger Whole (Used T) e.before.shared e.after.shared :=
      fun e he => (hwithin e (List.mem_append_right _ he)).2
    have hlater : Evolves doc ledger Whole (Used T) U.shared T.shared :=
      hT.rel (r := fun A B => Evolves doc ledger Whole (Used T) A.shared B.shared) (fun _ => Or.inl rfl)
        (fun _ _ _ => Evolves.trans) hsteps
    rw [hS.get] at hr
    obtain ⟨r', hr', hlater⟩ := hlater.byRun hr
    refine ⟨r', (hS.get i _).trans hr', hlater.attempts, fun hready => ?_⟩
    rw [hlater.finished hready]
    exact ⟨hready, rfl, rfl⟩
  reclaim tr T hT hone e he n i a k l u c hact hcall := by
    have hwithin := (System.run_within (runs hS h0 (regime_own hone.used)) (run_own hT)).2 e he
    have hbefore := hwithin.1.inv h0.inv
    have hstep := hT.entry e he
    rw [hact] at hstep
    have hafter : e.after.shared = (attempt i.fate e.before.shared (S.reclaim k l u i.clock.time e.before.shared)).1 :=
      System.step_act hstep hcall
    simp only [exec]
    rcases reclaim_cases hS hbefore k l u i.clock.time with hnone | ⟨r, hdoc, -, hsome, -, hput⟩
    · rw [hnone] at hafter ⊢
      refine Or.inl ⟨by rw [hafter, attempt_read], fun r hr => ?_⟩
      cases (attempt_some hr).1
    rcases attempt_cases i.fate e.before.shared (S.reclaim k l u i.clock.time e.before.shared) with heq | ⟨heq, hanswer⟩
    · rw [heq] at hafter ⊢
      exact Or.inl ⟨hafter, fun r hr => by cases hr⟩
    rw [heq] at hafter
    obtain ⟨hkey, hrun⟩ := hbefore.2.keyed _ _ hdoc
    have hinv := hwithin.2.inv hbefore
    rw [← hafter] at hput
    rw [hsome] at hanswer
    refine Or.inr ⟨r, r.resume l u, ?_, resume_attempts (hbefore.2.counted _ _ hrun).1 l u, ?_, ?_, hanswer⟩
    · rw [hS.getByRequestKey k _ hbefore.1 hbefore.2, hdoc]
    · rw [hS.getByRequestKey k _ hinv.1 hinv.2, hput, ← hkey]
      exact Function.update_self _ _ _
    · rw [hS.get, hput]
      exact Function.update_self _ _ _
  stale tr T hT _ e he n i a id r m c hact hcall current hcurrent hm := by
    have hstep := hT.entry e he
    rw [hact] at hstep
    have hafter : e.after.shared = (attempt i.fate e.before.shared (S.update id r m e.before.shared)).1 :=
      System.step_act hstep hcall
    rw [hS.get] at hcurrent
    rw [hafter, hS.refused hcurrent hm, attempt_read]

/-- **Attempts are fenced.** In either store, whatever calls run together, if every run id is used by one request key
only. -/
theorem attempts_fenced (P : Platform) (requestId : String → String) : Fenced MemoryRunStore P Memory.empty ∧
    Fenced (FirestoreRunStore requestId) P Firestore.empty :=
  ⟨fenced_of_lawful memory_lawful memory_empty, fenced_of_lawful (firestore_lawful requestId) firestore_empty⟩

/-! ### Request keys -/

/-- what the store returns for the other keys is as before, by key and for the run of that key -/
def OthersKept (S : RunStore σ) (doc : String → String) (key : String) (s t : σ) : Prop :=
  ∀ k, doc k ≠ doc key → S.getByRequestKey k t = S.getByRequestKey k s ∧
    ∀ r, S.getByRequestKey k s = some r → S.get r.runId t = S.get r.runId s

/-- a creation for a key that is not in use is of a run id that is not in use -/
def Unshared (S : RunStore σ) : Query → σ → Prop
  | .create r, s => S.getByRequestKey r.requestKey s = none → S.get r.runId s = none
  | _, _ => True

instance (S : RunStore σ) (q : Query) (s : σ) : Decidable (Unshared S q s) := by
  cases q <;> unfold Unshared <;> infer_instance

/-- in every run of operations that are `ok`, each step of a call keeps the records of other keys -/
def KeysApart (S : RunStore σ) (P : Platform) (doc : String → String) (ok : Query → σ → Prop) (s₀ : σ) : Prop :=
  ∀ tr T, Run S P ok s₀ tr T → ∀ e ∈ tr, ∀ n i c, e.act = .act n i → e.before.calls[n]? = some c →
    OthersKept S doc c.1.key e.before.shared e.after.shared

/-- where such runs lead, a creation that takes effect and keeps the records of other keys is `Unshared` -/
def CreatesApart (S : RunStore σ) (P : Platform) (doc : String → String) (s₀ : σ) : Prop :=
  ∀ tr T, Run S P (Unshared S) s₀ tr T → ∀ r i, i.fate ≠ .lost →
    OthersKept S doc r.requestKey T.shared (exec S (.create r) i T.shared).1 → Unshared S (.create r) T.shared

theorem regime_unshared (hS : Lawful S doc ledger Whole) :
    Regime doc ledger Whole (fun _ _ => True) (Unshared S) False where
  fresh {s r} hs hok := by
    refine ⟨trivial, fun hnone => ?_⟩
    rw [← hS.getByRequestKey r.requestKey s hs.1 hs.2] at hnone
    rw [← hS.get]
    exact hok hnone
  task h := h.elim

theorem Apart.kept {s t : σ} {key : String} (hS : Lawful S doc ledger Whole) (hs : Inv doc ledger Whole own s)
    (ht : Inv doc ledger Whole own t) (h : Apart doc ledger key s t) : OthersKept S doc key s t := by
  intro k hk
  rw [hS.getByRequestKey k s hs.1 hs.2, hS.getByRequestKey k t ht.1 ht.2]
  obtain ⟨hdoc, hrun⟩ := h (doc k) hk
  refine ⟨hdoc, fun r hr => ?_⟩
  rw [hS.get, hS.get]
  exact hrun r hr

theorem keys_apart_of_lawful (hS : Lawful S doc ledger Whole) (h0 : Empty ledger Whole s₀) :
    KeysApart S P doc (Unshared S) s₀ := by
  intro tr T hT e he n i c hact hcall
  have hruns := runs (P := P) hS h0 (regime_unshared hS)
  obtain ⟨hreached, hstep⟩ := (System.run_within hruns hT).2 e he
  have hbefore := hreached.inv h0.inv
  exact Apart.kept hS hbefore (hstep.inv hbefore) (System.run_guar hruns hT e he hact hcall)

theorem creates_apart_of_lawful (hS : Lawful S doc ledger Whole) (h0 : Empty ledger Whole s₀) :
    CreatesApart S P doc s₀ := by
  intro tr T hT r i hfate
  have hs : Inv doc ledger Whole (fun _ _ => True) T.shared :=
    (System.run_within (runs (P := P) hS h0 (regime_unshared hS)) hT).1.inv h0.inv
  have heffect : (exec S (.create r) i T.shared).1 = (S.create r T.shared).2 := by
    cases hi : i.fate with
    | lost => exact absurd hi hfate
    | _ => simp [exec, attempt, hi]
  rw [heffect]
  intro hkept hnone
  by_contra hsome
  obtain ⟨c, hc⟩ := Option.ne_none_iff_exists'.1 hsome
  rw [hS.getByRequestKey _ _ hs.1 hs.2] at hnone
  rw [hS.get] at hc
  obtain ⟨hrun, hdoc⟩ := hs.2.run _ _ hc
  have hother : doc c.requestKey ≠ doc r.requestKey := by
    intro heq
    rw [heq, hnone] at hdoc
    cases hdoc
  -- the record of that run is now the new one
  have hsame := (hkept c.requestKey hother).2 c (by rw [hS.getByRequestKey _ _ hs.1 hs.2, hdoc])
  rw [hS.get, hS.get, hrun, hS.overwritten hs.1 hs.2 hnone, hc] at hsame
  obtain rfl := Option.some.inj hsame
  exact hother rfl

/-- **Request keys stay apart.** In either store, whatever calls run together, while no key is new to a run id in use. -/
theorem keys_apart (P : Platform) (requestId : String → String) :
    (KeysApart MemoryRunStore P id (Unshared MemoryRunStore) Memory.empty ∧
      CreatesApart MemoryRunStore P id Memory.empty) ∧
    KeysApart (FirestoreRunStore requestId) P requestId (Unshared (FirestoreRunStore requestId)) Firestore.empty ∧
      CreatesApart (FirestoreRunStore requestId) P requestId Firestore.empty :=
  ⟨⟨keys_apart_of_lawful memory_lawful memory_empty, creates_apart_of_lawful memory_lawful memory_empty⟩,
    keys_apart_of_lawful (firestore_lawful requestId) firestore_empty,
    creates_apart_of_lawful (firestore_lawful requestId) firestore_empty⟩

def samplePlatform : Platform := ⟨fun task => task, 8⟩

def done : Input := ⟨.done, ⟨0, "2026-03-01T09:30:00Z", "2026-05-30T09:30:00Z"⟩, .record "plan"⟩

def shed (runId : String) : Submission := ⟨"tidy the shed", some runId, some "key-1", "6f1c2d3e4a5b"⟩

def door (runId key : String) : Submission := ⟨"paint the door", some runId, some key, "9a0b1c2d3e41"⟩

/-- these calls made, then these operations done in this order -/
def sampleRun (S : RunStore σ) (ok : Query → σ → Prop) [∀ q s, Decidable (ok q s)] (s₀ : σ) (calls : List Submission)
    (ns : List ℕ) : Option (System σ Submission Query Answer Reply) :=
  System.drive (exec S) ok (submitCommission samplePlatform) ⟨s₀, []⟩
    (calls.map Turn.call ++ ns.map fun n => .act n done)

/-- the calls, the record of the first key, and the task of its run -/
def sampleView (S : RunStore σ) (T : System σ Submission Query Answer Reply) :
    List Submission × Option (String × String) × Option String :=
  (T.calls.map Prod.fst, (S.getByRequestKey "key-1" T.shared).map fun r => (r.runId, r.taskDigest),
    (S.get "run-1" T.shared).map RunRecord.taskDigest)

/-- the calls, with the tasks of the records they returned -/
def sampleReplies (T : System σ Submission Query Answer Reply) :
    List (Submission × Option (Except Failure (Bool × String))) :=
  T.calls.map fun c => (c.1, c.2.result.map fun reply => reply.map fun r => (r.duplicate, r.taskDigest))

/-- the key that a call is about to reclaim -/
def reclaimKey : Call Query Answer Reply → Option String
  | .ask (.reclaim k _ _) _ => some k
  | _ => none

theorem reclaimKey_some {c : Call Query Answer Reply} {k : String} (h : reclaimKey c = some k) :
    ∃ l u d, c = .ask (.reclaim k l u) d := by
  unfold reclaimKey at h
  split at h
  · obtain rfl := Option.some.inj h
    exact ⟨_, _, _, rfl⟩
  · cases h

/-- the coordinator of a commission fails, and another call comes as far as its reclaim -/
def failedMoves : List (Turn Submission Input) :=
  [.call (shed "run-1"), .act 0 done, .act 0 done, .act 0 done, .act 0 { done with outcome := .failed "TimeoutError" },
    .act 0 done, .call (shed "run-1"), .act 1 done, .act 1 done]

/-- where the moves lead: what the second call is about to reclaim, and the attempts of the first key -/
def attemptView (T : System Memory Submission Query Answer Reply) : Option String × Option ℕ :=
  ((T.calls[1]?).bind fun c => reclaimKey c.2, (MemoryRunStore.getByRequestKey "key-1" T.shared).map RunRecord.attempts)

/-- the next call of the key resumes the commission whose coordinator failed -/
theorem attempts_fenced_sample : ∃ tr T, Run MemoryRunStore samplePlatform Call.always Memory.empty tr T ∧
    ∃ e ∈ tr, ∃ l u, Reclaims MemoryRunStore "key-1" (exec MemoryRunStore (.reclaim "key-1" l u) done e.before.shared).2
        e.before.shared e.after.shared ∧
      (MemoryRunStore.getByRequestKey "key-1" e.before.shared).map RunRecord.attempts = some 1 ∧
      (MemoryRunStore.getByRequestKey "key-1" e.after.shared).map RunRecord.attempts = some 2 := by
  have hbefore : (System.drive (exec MemoryRunStore) Call.always (submitCommission samplePlatform) ⟨Memory.empty, []⟩
      failedMoves).map attemptView = some (some "key-1", some 1) := by decide
  have hafter : ((System.drive (exec MemoryRunStore) Call.always (submitCommission samplePlatform) ⟨Memory.empty, []⟩
      failedMoves).bind fun B => System.next (exec MemoryRunStore) Call.always (submitCommission samplePlatform) B
        (.act 1 done)).map (fun T => (attemptView T).2) = some (some 2) := by decide
  obtain ⟨B, hdrive, hview⟩ := Option.map_eq_some_iff.1 hbefore
  rw [hdrive, Option.bind_some] at hafter
  obtain ⟨T, hnext, hattempts⟩ := Option.map_eq_some_iff.1 hafter
  obtain ⟨tr, htr⟩ := System.drive_trace hdrive
  obtain ⟨hkey, hfirst⟩ := Prod.mk.inj hview
  obtain ⟨c, hc, hkey⟩ := Option.bind_eq_some_iff.1 hkey
  obtain ⟨l, u, d, hask⟩ := reclaimKey_some hkey
  have hrun : Run MemoryRunStore samplePlatform Call.always Memory.empty (tr ++ [⟨B, .act 1 done, T⟩]) T :=
    htr.snoc (System.next_step hnext)
  have hone : OneKey T := by
    have hcalls : ((System.drive (exec MemoryRunStore) Call.always (submitCommission samplePlatform) ⟨Memory.empty, []⟩
        failedMoves).bind fun B => System.next (exec MemoryRunStore) Call.always (submitCommission samplePlatform) B
          (.act 1 done)).map (fun T => T.calls.map Prod.fst) = some [shed "run-1", shed "run-1"] := by decide
    rw [hdrive, Option.bind_some, hnext] at hcalls
    have hargs : T.calls.map Prod.fst = [shed "run-1", shed "run-1"] := Option.some.inj hcalls
    have hsame : ∀ c ∈ T.calls, c.1 = shed "run-1" := by
      intro c hc
      have hmem : c.1 ∈ T.calls.map Prod.fst := List.mem_map_of_mem hc
      rw [hargs] at hmem
      simpa using hmem
    intro c hc c' hc' _
    rw [hsame c hc, hsame c' hc']
  refine ⟨_, T, hrun, _, List.mem_append_right _ List.mem_cons_self, l, u, ?_, hfirst, hattempts⟩
  exact (attempts_fenced samplePlatform id).1.reclaim _ T hrun hone _ (List.mem_append_right _ List.mem_cons_self) 1 done
    c.1 "key-1" l u d rfl (hask ▸ hc)

/-- two keys with runs of their own -/
theorem keys_apart_sample : ∃ tr T, Run MemoryRunStore samplePlatform (Unshared MemoryRunStore) Memory.empty tr T ∧
    sampleReplies T = [(shed "run-1", some (.ok (false, "tidy the shed"))),
      (door "run-2" "key-2", some (.ok (false, "paint the door")))] ∧
    ∀ e ∈ tr, ∀ n i c, e.act = .act n i → e.before.calls[n]? = some c →
      OthersKept MemoryRunStore id c.1.key e.before.shared e.after.shared := by
  have hend : (sampleRun MemoryRunStore (Unshared MemoryRunStore) Memory.empty [shed "run-1", door "run-2" "key-2"]
      [0, 1, 0, 1, 0, 1, 1, 0, 0, 1]).map sampleReplies =
        some [(shed "run-1", some (.ok (false, "tidy the shed"))),
          (door "run-2" "key-2", some (.ok (false, "paint the door")))] := by decide
  obtain ⟨T, hT, hreplies⟩ := Option.map_eq_some_iff.1 hend
  obtain ⟨tr, h⟩ := System.drive_trace hT
  exact ⟨tr, T, h, hreplies, (keys_apart samplePlatform id).1.1 _ _ h⟩

/-- a step of the second call that changes what the store returns for the first key -/
theorem not_apart (calls : List Submission) (ns : List ℕ)
    (before after : List Submission × Option (String × String) × Option String)
    (hB : (sampleRun S Call.always s₀ calls ns).map (sampleView S) = some before)
    (hT : ((sampleRun S Call.always s₀ calls ns).bind fun B =>
      System.next (exec S) Call.always (submitCommission samplePlatform) B (.act 1 done)).map (sampleView S) =
        some after)
    (hcall : before.1[1]? = some (door "run-1" "key-2")) (hkey : doc "key-1" ≠ doc "key-2")
    (hrun : before.2.1.map Prod.fst = some "run-1") (hdiff : before.2 ≠ after.2) :
    ¬ KeysApart S samplePlatform doc Call.always s₀ := by
  intro hapart
  obtain ⟨B, hdrive, rfl⟩ := Option.map_eq_some_iff.1 hB
  rw [hdrive, Option.bind_some] at hT
  obtain ⟨T, hnext, rfl⟩ := Option.map_eq_some_iff.1 hT
  obtain ⟨tr, htr⟩ := System.drive_trace hdrive
  simp only [sampleView, List.getElem?_map, Option.map_map, Option.map_eq_some_iff] at hcall hrun
  obtain ⟨c, hc, hcall⟩ := hcall
  obtain ⟨r, hr, hrun⟩ := hrun
  obtain ⟨hsame, hget⟩ := hapart _ _ (htr.snoc (System.next_step hnext)) _
    (List.mem_append_right _ List.mem_cons_self) 1 done c rfl hc "key-1" (by rw [hcall]; exact hkey)
  have hsameRun := hget r hr
  rw [show r.runId = "run-1" from hrun] at hsameRun
  exact hdiff (by simp only [sampleView, hsame, hsameRun])

/-- a second key takes the run of the first -/
theorem shared_run_collides : ¬ KeysApart MemoryRunStore samplePlatform id Call.always Memory.empty ∧
    ¬ KeysApart (FirestoreRunStore id) samplePlatform id Call.always Firestore.empty :=
  ⟨not_apart [shed "run-1", door "run-1" "key-2"] [0, 0, 0, 1, 1]
      ([shed "run-1", door "run-1" "key-2"], some ("run-1", "tidy the shed"), some "tidy the shed")
      ([shed "run-1", door "run-1" "key-2"], some ("run-1", "paint the door"), some "paint the door")
      (by decide +kernel) (by decide +kernel) (by decide) (by decide) (by decide) (by decide),
    not_apart [shed "run-1", door "run-1" "key-2"] [0, 0, 0, 1, 1]
      ([shed "run-1", door "run-1" "key-2"], some ("run-1", "tidy the shed"), some "tidy the shed")
      ([shed "run-1", door "run-1" "key-2"], some ("run-1", "tidy the shed"), some "paint the door")
      (by decide) (by decide) (by decide) (by decide) (by decide) (by decide)⟩

/-! ### Tasks -/

/-- and a creation that comes too late finds a record of its own task -/
def SameTask (S : RunStore σ) : Query → σ → Prop
  | .create r, s => Unshared S (.create r) s ∧
      ∀ c ∈ S.getByRequestKey r.requestKey s, c.taskDigest = r.taskDigest
  | _, _ => True

instance (S : RunStore σ) (q : Query) (s : σ) : Decidable (SameTask S q s) := by
  cases q <;> unfold SameTask <;> infer_instance

/-- in every run of operations that are `ok`, a key is bound to one task -/
structure KeysBound (S : RunStore σ) (P : Platform) (ok : Query → σ → Prop) (s₀ : σ) : Prop where
  /-- a returned record is of the task of the call -/
  own : ∀ tr T, Run S P ok s₀ tr T → ∀ c ∈ T.calls, ∀ r, c.2.result = some (.ok r) →
    r.taskDigest = P.taskDigest c.1.task
  /-- two calls of one key that both return a record are of one task -/
  race : ∀ tr T, Run S P ok s₀ tr T → ∀ c ∈ T.calls, ∀ c' ∈ T.calls, c.1.key = c'.1.key → ∀ r r',
    c.2.result = some (.ok r) → c'.2.result = some (.ok r') → P.taskDigest c.1.task = P.taskDigest c'.1.task

theorem regime_sameTask (hS : Lawful S doc ledger Whole) :
    Regime doc ledger Whole (fun _ _ => True) (SameTask S) True where
  fresh hs hok := (regime_unshared hS).fresh hs hok.1
  task _ s r c hs hok hc := hok.2 c (by rw [hS.getByRequestKey _ s hs.1 hs.2, hc]; rfl)

theorem keys_bound_of_lawful (hS : Lawful S doc ledger Whole) (h0 : Empty ledger Whole s₀) :
    KeysBound S P (SameTask S) s₀ := by
  have hbound : ∀ tr T, Run S P (SameTask S) s₀ tr T → ∀ c ∈ T.calls, ∀ r, c.2.result = some (.ok r) →
      Stored doc ledger c.1.key r.taskDigest T.shared ∧ r.taskDigest = P.taskDigest c.1.task := by
    rintro tr T hT ⟨a, call⟩ hc r hr
    cases call with
    | ask q k => cases hr
    | done reply =>
      cases hr
      obtain ⟨hstored, hown⟩ := System.run_meets (runs hS h0 (regime_sameTask hS)) hT hc r rfl
      exact ⟨hstored, hown trivial⟩
  refine ⟨fun tr T hT c hc r hr => (hbound tr T hT c hc r hr).2, fun tr T hT c hc c' hc' hkey r r' hr hr' => ?_⟩
  obtain ⟨⟨d, hd, hdigest⟩, hown⟩ := hbound tr T hT c hc r hr
  obtain ⟨⟨d', hd', hdigest'⟩, hown'⟩ := hbound tr T hT c' hc' r' hr'
  rw [← hkey] at hd'
  obtain rfl := Option.some.inj (hd.symm.trans hd')
  exact hown.symm.trans (hdigest.symm.trans (hdigest'.trans hown'))

/-- **Keys are bound to tasks.** In either store, whatever calls run together, while a creation that comes too late finds
a record of its own task. -/
theorem keys_bound (P : Platform) (requestId : String → String) :
    KeysBound MemoryRunStore P (SameTask MemoryRunStore) Memory.empty ∧
      KeysBound (FirestoreRunStore requestId) P (SameTask (FirestoreRunStore requestId)) Firestore.empty :=
  ⟨keys_bound_of_lawful memory_lawful memory_empty, keys_bound_of_lawful (firestore_lawful requestId) firestore_empty⟩

/-- two calls of one task and key, together -/
theorem keys_bound_sample : ∃ tr T, Run MemoryRunStore samplePlatform (SameTask MemoryRunStore) Memory.empty tr T ∧
    sampleReplies T = [(shed "run-1", some (.ok (false, "tidy the shed"))),
      (shed "run-2", some (.ok (true, "tidy the shed")))] ∧
    ∀ c ∈ T.calls, ∀ r, c.2.result = some (.ok r) → r.taskDigest = samplePlatform.taskDigest c.1.task := by
  have hend : (sampleRun MemoryRunStore (SameTask MemoryRunStore) Memory.empty [shed "run-1", shed "run-2"]
      [0, 1, 0, 1, 0, 1, 1, 0, 0]).map sampleReplies =
        some [(shed "run-1", some (.ok (false, "tidy the shed"))),
          (shed "run-2", some (.ok (true, "tidy the shed")))] := by decide
  obtain ⟨T, hT, hreplies⟩ := Option.map_eq_some_iff.1 hend
  obtain ⟨tr, h⟩ := System.drive_trace hT
  exact ⟨tr, T, h, hreplies, (keys_bound samplePlatform id).1.own _ _ h⟩

/-- two calls of one key and different tasks that both return a record -/
theorem not_bound {calls : List Submission} {ns : List ℕ} {a b : Submission} {x y : Bool × String}
    (h : (sampleRun S Call.always s₀ calls ns).map sampleReplies = some [(a, some (.ok x)), (b, some (.ok y))])
    (hkey : a.key = b.key) (htask : a.task ≠ b.task) : ¬ KeysBound S samplePlatform Call.always s₀ := by
  intro hbound
  obtain ⟨T, hdrive, hreplies⟩ := Option.map_eq_some_iff.1 h
  obtain ⟨tr, htr⟩ := System.drive_trace hdrive
  have hcall : ∀ p ∈ sampleReplies T, ∀ z, p.2 = some (.ok z) → ∃ c ∈ T.calls, c.1 = p.1 ∧ ∃ r, c.2.result = some (.ok r) := by
    intro p hp z hz
    obtain ⟨c, hc, rfl⟩ := List.mem_map.1 hp
    obtain ⟨reply, hreply, hok⟩ := Option.map_eq_some_iff.1 hz
    cases reply with
    | error f => cases hok
    | ok r => exact ⟨c, hc, rfl, r, hreply⟩
  rw [hreplies] at hcall
  obtain ⟨c, hc, hca, r, hr⟩ := hcall (a, some (.ok x)) (by simp) x rfl
  obtain ⟨c', hc', hcb, r', hr'⟩ := hcall (b, some (.ok y)) (by simp) y rfl
  have hsame := hbound.race _ _ htr c hc c' hc' (by rw [hca, hcb]; exact hkey) r r' hr hr'
  rw [hca, hcb] at hsame
  exact htask hsame

/-- two tasks race on one key, and both are accepted -/
theorem race_returns_other_task : ¬ KeysBound MemoryRunStore samplePlatform Call.always Memory.empty ∧
    ¬ KeysBound (FirestoreRunStore id) samplePlatform Call.always Firestore.empty := by
  have hmemory : (sampleRun MemoryRunStore Call.always Memory.empty [shed "run-1", door "run-2" "key-1"]
      [0, 1, 0, 1, 0, 1, 1, 0, 0]).map sampleReplies =
        some [(shed "run-1", some (.ok (false, "tidy the shed"))),
          (door "run-2" "key-1", some (.ok (true, "tidy the shed")))] := by decide
  have hfirestore : (sampleRun (FirestoreRunStore id) Call.always Firestore.empty [shed "run-1", door "run-2" "key-1"]
      [0, 1, 0, 1, 0, 1, 1, 0, 0]).map sampleReplies =
        some [(shed "run-1", some (.ok (false, "tidy the shed"))),
          (door "run-2" "key-1", some (.ok (true, "tidy the shed")))] := by decide
  exact ⟨not_bound hmemory (by decide) (by decide), not_bound hfirestore (by decide) (by decide)⟩

end Runs

end Rally.Cloud.Commissions
