/-
The journal of a run (`src/runner.py`): what each save and each message is made of, told from the state file that stands
when it is made. Between two saves the state in memory differs from the file only in what no turn and no message of the
thread depends on (`Steady`).

- `Writes`: the saves and messages that may follow a file, with the function of the source that makes them.
- `session_journal`: all commands, each cut short anywhere, write nothing else.
-/
import Rally.Runner.Accounting
import Rally.Runner.Completion

namespace Rally.Runner

open Py Rally.Envelope Rally.Report

/-! ## Files and memory -/

/-- the handoff in force or waiting, if any -/
def activeOf (s : RunState) : Option Recovery := s.continuity.bind fun c => c.active

/-- how many handoffs the run has made -/
def usedOf (s : RunState) : ℕ := (s.continuity.map fun c => c.recoveriesUsed).getD 0

/-- a state with the identity, the place in the rotation, the handoff and the mail thread of another -/
structure Steady (f s : RunState) : Prop where
  runId : s.runId = f.runId
  turn : s.turn = f.turn
  actor : s.actor = f.actor
  messageId : s.threadMessageId = f.threadMessageId
  references : s.threadReferences = f.threadReferences
  active : activeOf s = activeOf f
  used : usedOf s = usedOf f

/-- and with the same turns on record -/
structure Level (f s : RunState) : Prop extends Steady f s where
  turns : s.turns = f.turns

/-- a state in memory over a file -/
structure Over (f s : RunState) : Prop extends Level f s where
  checklist : s.checklist = f.checklist

/-- the message id of a turn's update -/
def updateId (runId : String) (turn : ℕ) (actor : String) : String := s!"<{runId}-{turn}-{actor}@updates.agent9.dev>"

/-- the message id of a report -/
def reportId (runId : String) : String := s!"<{runId}-report@updates.agent9.dev>"

/-- an accepted turn of `actor`, with the mail of its update: the state reviewed and the one mailed -/
structure Accepts (P : Runtime) (cfg : Cfg) (s : RunState) (actor : String) (u v : RunState) : Prop where
  reviewed : ∃ env commit narrative, review P cfg s actor env commit = .ok (u, narrative)
  mailed : v = u ∨ v = threadOn u (updateId u.runId u.turn actor)

/-- the file as it stands, and the key of the last report mailed -/
structure Page where
  file : RunState
  mailed : Option String

/-- the key of a report that is mailed -/
def Ev.mailed : Ev → Option String
  | .send (.report _ _ _ key) => some key
  | _ => none

/-- what may follow, where the file is `f` and the last report was mailed under the key `k` -/
inductive Writes (P : Runtime) (cfg : Cfg) (f : RunState) (k : Option String) : Ev → Prop where
  | dispatch (p : Prompt) : Writes P cfg f k (.dispatch p)
  | writeReport (p : ReportPrompt) : Writes P cfg f k (.writeReport p)
  | resuming (key : String) : Writes P cfg f k (.resuming key)
  /-- a save that leaves the course of the run alone -/
  | steady {m : Mark} {t : RunState} (other : m.ofTurn = false) (same : Level f t) : Writes P cfg f k (.save m t)
  | handoff {s t : RunState} {kind fromActor detail : String} {ids : List Value} (memory : Level f s)
      (made : startSecondWind s cfg kind fromActor detail ids = .ok (true, t)) : Writes P cfg f k (.save .handoff t)
  /-- a note, on the thread of the run -/
  | note {s : RunState} {key messageId : String} (memory : Level f s) (given : messageId ≠ "") :
    Writes P cfg f k (.save (.noteApplied key) (threadOn s messageId))
  /-- the update of a turn, on the thread as the memory `s` has it -/
  | update {s : RunState} {human text : String} (memory : Steady f s) :
    Writes P cfg f k (.send (.update human s.turn f.actor text))
  | turn {s u v : RunState} (memory : Over f s) (accepted : Accepts P cfg s f.actor u v) :
    Writes P cfg f k (.save .turn (advance P cfg v f.actor))
  /-- an accepted turn whose update is refused -/
  | sendBlocked {s u : RunState} {h : Option Halt} (memory : Over f s) (accepted : Accepts P cfg s f.actor u u) :
    Writes P cfg f k (.save .sendBlocked { u with halt := h })
  /-- the report of an unsettled delivery -/
  | report {d : Delivery} {human text : String} {status : Status} (found : f.reportDelivery = some d)
      (unsettled : d.status = .pending) :
    Writes P cfg f k (.send (.report human status text d.idempotencyKey))
  /-- the report just mailed is delivered, on the thread of the run -/
  | delivered {s : RunState} {d : Delivery} (memory : Level f s) (found : f.reportDelivery = some d)
      (unsettled : d.status = .pending) (mailed : k = some d.idempotencyKey) (settled : ∃ id, s.reportDelivery =
        some { d with status := .delivered, providerMessageId := id }) :
    Writes P cfg f k (.save .delivery (threadOn s (reportId f.runId)))

/-- the file, from save to save, and the reports mailed -/
def journal (P : Runtime) (cfg : Cfg) : Monitor Ev Page where
  next p e := ⟨e.saved.getD p.file, e.mailed.or p.mailed⟩
  fine p e := Writes P cfg p.file p.mailed e

theorem journal_after (P : Runtime) (cfg : Cfg) (p : Page) (l : List Ev) :
    ((journal P cfg).after p l).file = Exec.persist Ev.saved p.file l := by
  induction l generalizing p with
  | nil => rfl
  | cons e l ih =>
    rw [Monitor.after_cons, ih]
    rfl

section Memory

variable {cfg : Cfg} {f s t u : RunState}

theorem Steady.refl (s : RunState) : Steady s s := ⟨rfl, rfl, rfl, rfl, rfl, rfl, rfl⟩

theorem Steady.trans (h : Steady f s) (h' : Steady s t) : Steady f t where
  runId := h'.runId.trans h.runId
  turn := h'.turn.trans h.turn
  actor := h'.actor.trans h.actor
  messageId := h'.messageId.trans h.messageId
  references := h'.references.trans h.references
  active := h'.active.trans h.active
  used := h'.used.trans h.used

theorem Steady.halted (h : Steady f s) (halt : Option Halt) : Steady f { s with halt := halt } :=
  ⟨h.runId, h.turn, h.actor, h.messageId, h.references, h.active, h.used⟩

theorem Level.refl (s : RunState) : Level s s := ⟨.refl s, rfl⟩

theorem Level.trans (h : Level f s) (h' : Level s t) : Level f t :=
  ⟨h.toSteady.trans h'.toSteady, h'.turns.trans h.turns⟩

theorem Level.halted (h : Level f s) (halt : Option Halt) : Level f { s with halt := halt } :=
  ⟨h.toSteady.halted halt, h.turns⟩

theorem Over.refl (s : RunState) : Over s s := ⟨.refl s, rfl⟩

theorem Over.trans (h : Over f s) (h' : Over s t) : Over f t :=
  ⟨h.toLevel.trans h'.toLevel, h'.checklist.trans h.checklist⟩

/-- the record of handoffs that a function reads, or makes where there is none -/
theorem continuityOf_spec {c : Continuity} (h : continuityOf s cfg = .ok c) :
    c.active = activeOf s ∧ c.recoveriesUsed = usedOf s := by
  unfold continuityOf at h
  cases hs : s.continuity with
  | some c' =>
    rw [hs] at h
    cases h
    simp [activeOf, usedOf, hs]
  | none =>
    rw [hs] at h
    obtain ⟨hused, -, hactive, -⟩ := continuityPolicy_spec h
    simp [activeOf, usedOf, hs, hused, hactive]

theorem over_continuity {c : Continuity} (h : continuityOf s cfg = .ok c) : Over s { s with continuity := some c } := by
  obtain ⟨hactive, hused⟩ := continuityOf_spec h
  exact ⟨⟨⟨rfl, rfl, rfl, rfl, rfl, hactive, hused⟩, rfl⟩, rfl⟩

theorem over_refused_handoff {kind fromActor detail : String} {ids : List Value}
    (h : startSecondWind s cfg kind fromActor detail ids = .ok (false, t)) : Over s t := by
  obtain ⟨c, hc, h⟩ := bind_ok h
  split_ifs at h
  · cases h
    exact over_continuity hc
  · obtain ⟨items, -, h⟩ := bind_ok h
    cases h

theorem level_note {text : String} (h : applyHumanNote s text = .ok t) : Level s t := by
  unfold applyHumanNote at h
  simp only at h
  split_ifs at h
  · cases h; exact ⟨⟨rfl, rfl, rfl, rfl, rfl, rfl, rfl⟩, rfl⟩
  · cases h; exact ⟨⟨rfl, rfl, rfl, rfl, rfl, rfl, rfl⟩, rfl⟩
  · obtain ⟨item, -, h⟩ := bind_ok h
    cases h; exact ⟨⟨rfl, rfl, rfl, rfl, rfl, rfl, rfl⟩, rfl⟩
  · cases h; exact ⟨⟨rfl, rfl, rfl, rfl, rfl, rfl, rfl⟩, rfl⟩

theorem steady_review {P : Runtime} {actor : String} {env : Env} {commit : Option String} {narrative : Value}
    (h : review P cfg s actor env commit = .ok (t, narrative)) : Steady s t := by
  obtain ⟨problems, -, h⟩ := bind_ok h
  obtain ⟨c, hc, h⟩ := bind_ok h
  obtain ⟨accepted, -, h⟩ := bind_ok h
  obtain ⟨changes, -, h⟩ := bind_ok h
  obtain ⟨text, -, h⟩ := bind_ok h
  cases h
  obtain ⟨hactive, hused⟩ := continuityOf_spec hc
  exact ⟨rfl, rfl, rfl, rfl, rfl, hactive, hused⟩

theorem over_noticed (s : RunState) (escaped : Option (List String)) : Over s (noticed s escaped) := by
  cases escaped <;> exact ⟨⟨⟨rfl, rfl, rfl, rfl, rfl, rfl, rfl⟩, rfl⟩, rfl⟩

end Memory

/-! ## The loop -/

section Loop

variable {P : Runtime} {cfg : Cfg} {f s : RunState}

/-- what a procedure writes over the file `f`, and the state in memory after it -/
def Journaled (P : Runtime) (cfg : Cfg) (f : RunState) {α : Type} (x : Call α) : Prop :=
  ∀ k, (journal P cfg).Guards ⟨f, k⟩ x fun _ t p => Over p.file t

theorem saveThen_journaled {α : Type} {m : Mark} {t : RunState} {next : RunState → Call α}
    (h : ∀ k, Writes P cfg f k (.save m t)) (hnext : Journaled P cfg t (next t)) :
    Journaled P cfg f (saveThen m t next) :=
  fun k => Monitor.guards_pre (.single (h k)) (hnext k)

/-- a save that leaves the course of the run alone, and then what follows it -/
theorem steadyThen_journaled {α : Type} {m : Mark} {t : RunState} {next : RunState → Call α} (hm : m.ofTurn = false)
    (h : Level f t) (hnext : Journaled P cfg t (next t)) : Journaled P cfg f (saveThen m t next) :=
  saveThen_journaled (fun _ => .steady hm h) hnext

theorem done_journaled {α : Type} (h : Over f s) (a : α) : Journaled P cfg f (.done s a : Call α) :=
  fun _ => Monitor.guards_done h

theorem raise_journaled {α : Type} (e : Exn) : Journaled P cfg f (.raise s e : Call α) := fun _ => Monitor.guards_raise

theorem attempt_journaled {η α β : Type} {wrap : η → Exn} {x : Except η β} {g : β → Call α}
    (h : ∀ b, x = .ok b → Journaled P cfg f (g b)) : Journaled P cfg f (Exec.attempt s wrap x g) :=
  fun k => Monitor.guards_attempt fun b hb => h b hb k

/-- an event that neither saves nor mails a report, and then what follows it -/
theorem showThen_journaled {α : Type} {e : Ev} {x : Call α} (h : ∀ k, Writes P cfg f k e) (hsaved : e.saved = none)
    (hmailed : e.mailed = none) (hx : Journaled P cfg f x) : Journaled P cfg f (x.pre [e]) := by
  intro k
  refine Monitor.guards_pre (.single (h k)) ?_
  have hnext : (journal P cfg).after ⟨f, k⟩ [e] = ⟨f, k⟩ := by simp [journal, hsaved, hmailed]
  rw [hnext]
  exact hx k

theorem bind_journaled {α β : Type} {x : Call α} {g : RunState → α → Call β} (hx : Journaled P cfg f x)
    (hg : ∀ f' t a, Over f' t → Journaled P cfg f' (g t a)) : Journaled P cfg f (x.bind g) :=
  fun k => Monitor.guards_bind (hx k) fun a t p hp => hg p.file t a hp p.mailed

theorem saved_journaled {α : Type} {m : Mark} {t : RunState} (hm : m.ofTurn = false) (h : Level f t) (a : α) :
    Journaled P cfg f (saveThen m t fun s => .done s a) :=
  steadyThen_journaled hm h (done_journaled (.refl t) a)

theorem agentFailed_journaled (h : Over f s) (detail : String) : Journaled P cfg f (agentFailed cfg s detail) := by
  refine attempt_journaled fun r hr => ?_
  obtain ⟨made, t⟩ := r
  cases made with
  | true => exact saveThen_journaled (fun _ => .handoff h.toLevel hr) (done_journaled (.refl t) none)
  | false =>
    have ht := h.trans (over_refused_handoff hr)
    exact saved_journaled (m := .agentError) rfl (ht.toLevel.halted _) _

theorem noEnvelope_journaled (h : Over f s) : Journaled P cfg f (noEnvelope cfg s) := by
  refine steadyThen_journaled rfl ⟨⟨h.runId, h.turn, h.actor, h.messageId, h.references, h.active, h.used⟩, h.turns⟩ ?_
  split_ifs
  · exact agentFailed_journaled (.refl _) _
  · exact done_journaled (.refl _) none

theorem judge_journaled (s : RunState) (actor : String) : Journaled P cfg s (judge cfg s actor) := by
  have ended : ∀ r, Journaled P cfg s (.done s r : Call (Option String)) := fun r => done_journaled (.refl s) r
  unfold judge
  simp only
  split_ifs
  · exact ended _
  · refine attempt_journaled fun r hr => ?_
    obtain ⟨made, t⟩ := r
    cases made with
    | true => exact saveThen_journaled (fun _ => .handoff (.refl s) hr) (done_journaled (.refl t) none)
    | false => exact attempt_journaled fun r _ => done_journaled (over_refused_handoff hr) (some r)
  · exact attempt_journaled fun r _ => ended _
  · exact ended _
  · exact ended _
  · exact ended _

/-- the update of an accepted turn, and the state once it is on the thread -/
theorem mailTurn_cases {u v : RunState} {actor : String} {narrative : Value} {mail : MailOutcome} {evs : List Ev}
    (h : mailTurn cfg u actor narrative mail = .ok (evs, v)) :
    (evs = [] ∧ v = u) ∨ ∃ human text, evs = [.send (.update human u.turn actor text)] ∧
      v = threadOn u (updateId u.runId u.turn actor) :=
  mailTurn_ok h

theorem conclude_journaled {u : RunState} {env : Env} {commit : Option String} {narrative : Value} (h : Over f s)
    (hrev : review P cfg s s.actor env commit = .ok (u, narrative)) (mail : MailOutcome) :
    Journaled P cfg f (conclude P cfg u s.actor narrative mail) := by
  have hreviewed : ∃ env commit narrative, review P cfg s s.actor env commit = .ok (u, narrative) := ⟨_, _, _, hrev⟩
  have hsteady := h.toSteady.trans (steady_review hrev)
  rw [h.actor] at hreviewed ⊢
  unfold conclude
  split
  · rename_i evs v hmail
    have hsaved : v = u ∨ v = threadOn u (updateId u.runId u.turn f.actor) →
        Journaled P cfg f (saveThen .turn (advance P cfg v f.actor) fun s => judge cfg s f.actor) := fun hv =>
      saveThen_journaled (fun _ => .turn h ⟨hreviewed, hv⟩) (judge_journaled _ _)
    rcases mailTurn_cases hmail with ⟨rfl, hv⟩ | ⟨human, text, rfl, hv⟩
    · exact hsaved (.inl hv)
    · exact showThen_journaled (fun _ => .update hsteady) rfl rfl (hsaved (.inr hv))
  · exact saveThen_journaled (fun _ => .sendBlocked h ⟨hreviewed, .inl rfl⟩) (done_journaled (.refl _) _)
  · exact raise_journaled _

theorem takeTurn_journaled (h : Over f s) (inp : TurnInput) : Journaled P cfg f (takeTurn P cfg s inp) := by
  unfold takeTurn
  split
  · exact saved_journaled rfl (h.toLevel.halted _) _
  · refine attempt_journaled fun p _ => showThen_journaled (fun _ => .dispatch p) rfl rfl ?_
    unfold answered
    split
    · exact agentFailed_journaled h _
    · exact raise_journaled _
    · have hnoticed := h.trans (over_noticed s inp.escaped)
      simp only
      split
      · exact noEnvelope_journaled hnoticed
      · exact attempt_journaled fun r hr => conclude_journaled hnoticed hr inp.mail

theorem loop_journaled (h : Over f s) (limit : ℤ) (inputs : List TurnInput) :
    Journaled P cfg f (loop P cfg limit s inputs) := by
  have halted : ∀ {f s m halt} (r : String), Mark.ofTurn m = false → Over f s →
      Journaled P cfg f (saveThen m { s with halt := halt } fun s => .done s r) := fun r hm h =>
    saved_journaled hm (h.toLevel.halted _) r
  induction inputs generalizing f s with
  | nil =>
    rw [loop_nil]
    split_ifs
    · exact fun _ => ⟨.nil, fun _ hr => nomatch hr⟩
    · exact halted _ rfl h
  | cons inp rest ih =>
    rw [loop_cons]
    split_ifs
    · refine bind_journaled (takeTurn_journaled h inp) fun u t halt hu => ?_
      cases halt with
      | some reason => exact halted reason rfl hu
      | none => exact ih hu
    · exact halted _ rfl h

end Loop

/-! ## The commands -/

section Commands

variable {P : Runtime} {cfg : Cfg} {f s : RunState}

theorem prepareMedia_journaled (h : Over f s) (w : Work) : Journaled P cfg f (prepareMedia w s) := by
  unfold prepareMedia
  split_ifs
  · exact saved_journaled rfl h.toLevel ()
  · exact done_journaled h ()

theorem initialize_journaled (h : Over f s) (w : Work) : Journaled P cfg f (initializeCommissionRun w s) := by
  unfold initializeCommissionRun
  split_ifs
  · have hdir : Level f { s with workdir := w.workspace } :=
      ⟨⟨h.runId, h.turn, h.actor, h.messageId, h.references, h.active, h.used⟩, h.turns⟩
    exact saved_journaled rfl hdir ()
  · exact done_journaled h ()

theorem attach_journaled (h : Over f s) (w : Work) : Journaled P cfg f (attachCloudCoordination w s) := by
  have hstatus : ∀ status halt, Level f { s with cloudCoordinator := status, halt := halt } := fun _ _ =>
    ⟨⟨h.runId, h.turn, h.actor, h.messageId, h.references, h.active, h.used⟩, h.turns⟩
  unfold attachCloudCoordination
  split_ifs
  · exact done_journaled h true
  · split
    · exact done_journaled h true
    · exact saved_journaled rfl (hstatus _ s.halt) true
    · exact saved_journaled rfl (hstatus _ _) false
    · exact saved_journaled rfl (hstatus _ s.halt) true

theorem summaryText_journaled (h : Over f s) (halt : String) : Journaled P cfg f (summaryText P s halt) :=
  attempt_journaled fun text _ => done_journaled h text

theorem writeReport_journaled (h : Over f s) (halt : String) (reply : Option String) :
    Journaled P cfg f (writeReport P cfg s halt reply) := by
  refine attempt_journaled fun p _ => ?_
  split_ifs
  · refine showThen_journaled (fun _ => .writeReport p) rfl rfl ?_
    split
    · split_ifs
      · exact summaryText_journaled h halt
      · exact done_journaled h _
    · exact summaryText_journaled h halt
  · exact raise_journaled _

/-- a delivery: nothing, a record that nobody is to be written to, or the report on the thread of the run -/
theorem deliver_journaled (found : s.reportDelivery.isSome) (text halt : String) (mail : MailOutcome) :
    Journaled P cfg s (deliver cfg s text halt mail) := by
  obtain ⟨d, hd⟩ := Option.isSome_iff_exists.1 found
  have hof : deliveryOf s = d := by simp [deliveryOf, hd]
  have hdelivery : ∀ d, Level s { s with reportDelivery := d } := fun _ => ⟨⟨rfl, rfl, rfl, rfl, rfl, rfl, rfl⟩, rfl⟩
  unfold deliver
  rw [hof]
  dsimp only
  split_ifs with hover
  · exact done_journaled (.refl s) ()
  · have hpend : d.status = .pending := by
      cases hst : d.status <;> simp_all
    split
    · exact saved_journaled (m := .delivery) rfl (hdelivery _) ()
    · exact raise_journaled _
    · exact raise_journaled _
    · exact raise_journaled _
    · exact raise_journaled _
    · intro k
      refine Monitor.guards_pre (.single (.report hd hpend)) ?_
      refine Monitor.guards_pre (.single (.delivered (hdelivery _) hd hpend rfl ⟨_, rfl⟩)) ?_
      exact Monitor.guards_done (.refl _)

theorem mailReport_journaled (s : RunState) (text halt : String) (mail : MailOutcome) :
    Journaled P cfg s (mailReport cfg s text halt mail) := by
  unfold mailReport
  split
  · rename_i d hd
    exact deliver_journaled (by rw [hd]; rfl) text halt mail
  · exact steadyThen_journaled rfl ⟨⟨rfl, rfl, rfl, rfl, rfl, rfl, rfl⟩, rfl⟩ (deliver_journaled rfl text halt mail)

theorem report_journaled (h : Over f s) (text halt : String) (key : Option String) (mail : MailOutcome) :
    Journaled P cfg f (report cfg s text halt key mail) :=
  steadyThen_journaled rfl ⟨⟨h.runId, h.turn, h.actor, h.messageId, h.references, h.active, h.used⟩, h.turns⟩
    (mailReport_journaled _ text halt mail)

theorem finish_journaled (h : Over f s) (key : Option String) (w : Work) (halt : String) :
    Journaled P cfg f (finish P cfg key w s halt) :=
  bind_journaled (writeReport_journaled h halt w.report) fun _ _ text hu => report_journaled hu text halt key w.mail

theorem finishPlain_journaled (h : Over f s) (key : Option String) (w : Work) (halt : String) :
    Journaled P cfg f (finishPlain P cfg key w s halt) :=
  bind_journaled (summaryText_journaled h halt) fun _ _ text hu => report_journaled hu text halt key w.mail

/-- a refused report mail ends a command as any other -/
theorem looped_journaled (h : Over f s) (limit : ℤ) (w : Work) : ∀ k, (journal P cfg).Accepts ⟨f, k⟩
    ((loop P cfg limit s w.turns).bind fun s halt => unlessRefused (finish P cfg none w s halt)).evs := by
  intro k
  have hall : (journal P cfg).Guards ⟨f, k⟩
      ((loop P cfg limit s w.turns).bind fun s halt => unlessRefused (finish P cfg none w s halt)) fun _ _ _ => True := by
    refine Monitor.guards_bind (loop_journaled h limit w.turns k) fun halt t p hp => ⟨?_, fun _ _ => trivial⟩
    rw [unlessRefused_evs]
    exact (finish_journaled hp none w halt p.mailed).1
  exact hall.1

theorem commence_journaled (h : Over f s) (messageId : Option String) (w : Work) :
    Journaled P cfg f (commence P cfg messageId w s) := by
  refine bind_journaled (initialize_journaled h w) fun _ t _ ht => ?_
  refine bind_journaled (attach_journaled ht w) fun _ t ready ht => ?_
  split_ifs
  · refine bind_journaled (prepareMedia_journaled ht w) fun _ t _ ht => ?_
    exact bind_journaled (loop_journaled ht _ _) fun _ t halt ht => finish_journaled ht _ w halt
  · exact finishPlain_journaled ht _ w _

/-- the save of a note -/
theorem noted_writes {n : Note} {t : RunState} (h : noted s n = .ok t) (k : Option String) :
    Writes P cfg s k (.save (.noteApplied n.key) t) := by
  obtain ⟨u, hu, h⟩ := bind_ok h
  cases h
  split
  · rename_i m hm
    have hne : m ≠ "" := by simpa using (Option.filter_eq_some_iff.1 hm).2
    exact .note (level_note hu) hne
  · exact .steady rfl (level_note hu)

theorem handleNote_journaled (n : Note) (w : Work) (s : RunState) : Journaled P cfg s (handleNote P cfg n w s) := by
  unfold handleNote
  split_ifs
  · exact raise_journaled _
  · exact done_journaled (.refl s) ()
  · exact mailReport_journaled s _ _ _
  · refine attempt_journaled fun t ht => saveThen_journaled (noted_writes ht) ?_
    exact steadyThen_journaled rfl ((Level.refl t).halted _) (finishPlain_journaled (.refl _) _ w _)
  · refine attempt_journaled fun t ht => saveThen_journaled (noted_writes ht) ?_
    refine bind_journaled (prepareMedia_journaled (.refl t) w) fun _ t _ ht => ?_
    refine showThen_journaled (fun _ => .resuming n.key) rfl rfl ?_
    exact bind_journaled (loop_journaled ht _ _) fun _ t halt ht => finish_journaled ht _ w halt

/-- **One command** writes to the journal. -/
theorem exec_journal (p : Page) (op : Op) (w : Work) : (journal P cfg).Accepts p (op.exec P cfg w p.file).evs := by
  obtain ⟨s, k⟩ := p
  have halted : ∀ halt, Level s { s with halt := halt } := (Level.refl s).halted
  cases op with
  | commission ws mid =>
    simp only [Op.exec, handleCommission]
    split_ifs
    · exact .nil
    · refine (steadyThen_journaled rfl (.refl s) ?_ k).1
      split_ifs
      · exact done_journaled (.refl s) ()
      · exact mailReport_journaled s _ _ _
    · exact (commence_journaled ⟨halted none, rfl⟩ mid w k).1
  | note n => exact (handleNote_journaled n w s k).1
  | stop detail => exact (saved_journaled rfl (halted _) () k).1
  | retry =>
    simp only [Op.exec, cmdRetry]
    split
    · exact .nil
    · split_ifs
      · exact .nil
      · exact .cons (.steady rfl (halted none)) (looped_journaled (.refl _) _ w k)
  | resume guidance maxTurns =>
    simp only [Op.exec, cmdResume]
    split
    · rename_i text _
      unfold Exec.attempt
      cases h : applyHumanNote s text with
      | error e => exact .nil
      | ok t => exact .cons (.steady rfl (level_note h)) (looped_journaled (.refl t) _ w k)
    · exact looped_journaled (.refl s) _ w k

/-- **The journal of a run.** Commands one after the other, each cut short anywhere, write nothing but what may follow
the file that stands. -/
theorem session_journal (P : Runtime) (cfg : Cfg) (s : RunState) (jobs : List Job) :
    (journal P cfg).Accepts ⟨s, none⟩ (session P cfg s jobs) := by
  have hjobs : Meets P cfg (fun _ _ => True) s jobs := meets_always (fun _ _ => trivial) jobs
  refine session_accepts (r := fun p s => p.file = s) ?_ ?_ rfl hjobs
  · rintro p s op w rfl -
    exact exec_journal p op w
  · rintro p s e rfl -
    rfl

end Commands

end Rally.Runner
