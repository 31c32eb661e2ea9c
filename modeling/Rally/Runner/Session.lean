/-
The life of one run: commands one after the other, each from the state file the last one left, each cut short by a
crash or an exception at any point (`session`).

- `exec_parts`: whatever the command, what it makes visible is work that leaves the latest report alone, and then at
  most one report recorded and its delivery.
- `session_honest`: a report recorded or mailed as a completion is one for which the word `complete` was returned, with
  every item done and independently verified when the report was recorded.
-/
import Rally.Core.Monitor
import Rally.Runner.Outcome

namespace Rally.Runner

open Py Rally.Envelope Rally.Report

/-! ## What a command makes visible -/

/-- a save before a report is recorded, in a command that applies the note `own`, if any -/
def Mark.Allowed (own : Option String) : Mark → Prop
  | .report _ _ => False
  | .noteApplied k => own = some k
  | _ => True

/-- an event before a report is recorded; mail sent then is the delivery of the report on record -/
def WorkEvent (P : Runtime) (cfg : Cfg) (own : Option String) (s : RunState) : Ev → Prop
  | .save m t => m.Allowed own ∧ Works P cfg s t
  | .send (.report _ st _ _) => hasReport s = true ∧ st = (classify (storedOutcome s)).1
  | .resuming k => own = some k
  | _ => True

/-- a delivery leaves the checklist, the halt and the human's note alone -/
structure SameWork (s t : RunState) : Prop where
  checklist : t.checklist = s.checklist
  halt : t.halt = s.halt
  humanNote : t.humanNote = s.humanNote

/-- an event of the delivery of the report on record in `s`, mailed under the outcome `halt` -/
inductive DeliveryEvent (P : Runtime) (cfg : Cfg) (s : RunState) (halt : String) : Ev → Prop where
  | save {t : RunState} (works : Works P cfg s t) (same : SameWork s t) : DeliveryEvent P cfg s halt (.save .delivery t)
  | mail {human text key : String} : DeliveryEvent P cfg s halt (.send (.report human (classify halt).1 text key))

/-- work, then at most one report, recorded under `key`, and its delivery -/
def Parts (P : Runtime) (cfg : Cfg) (own : Option String) (s₀ : RunState) (key : Option String) (l : List Ev) : Prop :=
  ∃ work tail, l = work ++ tail ∧ (∀ e ∈ work, WorkEvent P cfg own s₀ e) ∧
    (tail = [] ∨ ∃ t text halt back, Works P cfg s₀ t ∧ text ≠ "" ∧ halt ≠ "" ∧
      ((classify halt).1 = .complete → halt = "complete" ∧ isComplete t.checklist = true) ∧
      tail = .save (.report halt key) (recordReport t text halt key) :: back ∧
      ∀ e ∈ back, DeliveryEvent P cfg (recordReport t text halt key) halt e)

section Parts

variable {P : Runtime} {cfg : Cfg} {own : Option String} {s₀ s : RunState} {key : Option String}

theorem parts_work {l : List Ev} (h : ∀ e ∈ l, WorkEvent P cfg own s₀ e) : Parts P cfg own s₀ key l :=
  ⟨l, [], by simp, h, Or.inl rfl⟩

theorem parts_append {l m : List Ev} (h : ∀ e ∈ l, WorkEvent P cfg own s₀ e) (hm : Parts P cfg own s₀ key m) :
    Parts P cfg own s₀ key (l ++ m) := by
  obtain ⟨work, tail, rfl, hwork, htail⟩ := hm
  refine ⟨l ++ work, tail, by simp, fun e he => ?_, htail⟩
  rcases List.mem_append.1 he with he | he
  · exact h e he
  · exact hwork e he

/-- a crash leaves parts -/
theorem Parts.take {l : List Ev} (h : Parts P cfg own s₀ key l) (n : ℕ) : Parts P cfg own s₀ key (l.take n) := by
  obtain ⟨work, tail, rfl, hwork, htail⟩ := h
  rw [List.take_append]
  refine ⟨_, _, rfl, fun e he => hwork e (List.mem_of_mem_take he), ?_⟩
  rcases htail with rfl | ⟨t, text, halt, back, ht, htext, hhalt, hdone, rfl, hback⟩
  · exact Or.inl (by simp)
  · cases n - work.length with
    | zero => exact Or.inl rfl
    | succ n =>
      exact Or.inr ⟨t, text, halt, back.take n, ht, htext, hhalt, hdone, rfl,
        fun e he => hback e (List.mem_of_mem_take he)⟩

theorem parts_bind {α β : Type} {x : Call α} {f : RunState → α → Call β}
    (hx : x.Holds (WorkEvent P cfg own s₀) (Works P cfg s₀))
    (hf : ∀ a, x.out = .ret a → Works P cfg s₀ x.mem → Parts P cfg own s₀ key (f x.mem a).evs) :
    Parts P cfg own s₀ key (x.bind f).evs := by
  unfold Exec.bind
  cases h : x.out with
  | ret a => exact parts_append hx.1 (hf a h hx.2)
  | raised e => exact parts_work hx.1
  | running => exact parts_work hx.1

theorem parts_attempt {η α β : Type} {wrap : η → Exn} {x : Except η β} {f : β → Call α}
    (hf : ∀ b, x = .ok b → Parts P cfg own s₀ key (f b).evs) : Parts P cfg own s₀ key (Exec.attempt s wrap x f).evs := by
  cases x with
  | ok b => exact hf b rfl
  | error e => exact parts_work fun _ he => (List.not_mem_nil he).elim

theorem parts_saveThen {α : Type} {m : Mark} {next : RunState → Call α} (hm : m.Allowed own)
    (hs : Works P cfg s₀ s) (h : Parts P cfg own s₀ key (next s).evs) : Parts P cfg own s₀ key (saveThen m s next).evs := by
  refine parts_append (l := [.save m s]) (fun e he => ?_) h
  rw [List.mem_singleton.1 he]
  exact ⟨hm, hs⟩

end Parts

/-! ## The commands -/

section Commands

variable {P : Runtime} {cfg : Cfg} {own : Option String} {s₀ s : RunState}

theorem LoopEvent.work {e : Ev} (h : LoopEvent P cfg s e) : WorkEvent P cfg own s e := by
  cases e with
  | save m t =>
    refine ⟨?_, h.2⟩
    have hm := h.1
    cases m <;> trivial
  | send m => cases m with
    | update _ _ _ _ => trivial
    | report _ _ _ _ => exact h.elim
  | dispatch p => trivial
  | writeReport p => trivial
  | resuming k => trivial

theorem loop_work (hs : Works P cfg s₀ s) (limit : ℤ) (inputs : List TurnInput) :
    (loop P cfg limit s inputs).Holds (WorkEvent P cfg own s₀) (Works P cfg s₀) :=
  (loop_works hs limit inputs).mono (fun _ => LoopEvent.work) fun _ h => h

theorem deliver_events (cfg : Cfg) (s : RunState) (text halt : String) (mail : MailOutcome) :
    ∀ e ∈ (deliver cfg s text halt mail).evs, DeliveryEvent P cfg s halt e := by
  -- the delivery record changes, but not the request it answers
  have hkey : ∀ st pid, answeredKey { s with reportDelivery := some { deliveryOf s with
      status := st, providerMessageId := pid } } = answeredKey s := by
    intro st pid
    unfold answeredKey deliveryOf
    cases s.reportDelivery <;> rfl
  intro e he
  unfold deliver at he
  simp only at he
  split_ifs at he
  · cases he
  · split at he
    · rw [saveThen_evs] at he
      rw [List.mem_singleton.1 he]
      exact .save (works_rest rfl ⟨rfl, rfl, rfl, rfl, rfl, rfl, rfl, le_rfl⟩ ⟨rfl, rfl, hkey _ _⟩) ⟨rfl, rfl, rfl⟩
    · cases he
    · cases he
    · cases he
    · cases he
    · rw [Exec.pre_evs, saveThen_evs] at he
      simp only [List.cons_append, List.nil_append, List.mem_cons] at he
      rcases he with rfl | rfl | he
      · exact .mail
      · exact .save (works_rest rfl ⟨rfl, rfl, rfl, rfl, rfl, rfl, rfl, le_rfl⟩ ⟨rfl, rfl, hkey _ _⟩) ⟨rfl, rfl, rfl⟩
      · cases he

theorem mailReport_events (cfg : Cfg) (s : RunState) (text halt : String) (mail : MailOutcome) :
    ∀ e ∈ (mailReport cfg s text halt mail).evs, DeliveryEvent P cfg s halt e := by
  intro e he
  unfold mailReport at he
  split at he
  · exact deliver_events cfg s text halt mail e he
  · rename_i hnone
    have hwork : Works P cfg s
        { s with reportGeneration := max 1 s.reportGeneration, reportDelivery := some (deliveryOf s) } := by
      refine works_rest rfl ⟨rfl, rfl, rfl, rfl, rfl, rfl, rfl, le_rfl⟩ ⟨rfl, rfl, ?_⟩
      simp [answeredKey, deliveryOf, hnone]
    rw [saveThen_evs] at he
    rcases List.mem_cons.1 he with rfl | he
    · exact .save hwork ⟨rfl, rfl, rfl⟩
    · cases deliver_events (P := P) cfg _ text halt mail e he with
      | save h hsame => exact .save (hwork.trans h) ⟨hsame.checklist, hsame.halt, hsame.humanNote⟩
      | mail => exact .mail

/-- the delivery of the report on record is work that leaves it alone -/
theorem redelivery_work (hrep : hasReport s = true) (text : String) (mail : MailOutcome) :
    ∀ e ∈ (mailReport cfg s text (storedOutcome s) mail).evs, WorkEvent P cfg own s e := by
  intro e he
  cases mailReport_events (P := P) cfg s text (storedOutcome s) mail e he with
  | save h => exact ⟨trivial, h⟩
  | mail => exact ⟨hrep, rfl⟩

theorem report_parts (hs : Works P cfg s₀ s) {text halt : String} {key : Option String} {mail : MailOutcome}
    (htext : text ≠ "") (hhalt : halt ≠ "")
    (hdone : (classify halt).1 = .complete → halt = "complete" ∧ isComplete s.checklist = true) :
    Parts P cfg own s₀ key (report cfg s text halt key mail).evs :=
  ⟨[], _, rfl, by simp, Or.inr ⟨s, text, halt, _, hs, htext, hhalt, hdone, rfl, mailReport_events _ _ _ _ _⟩⟩

theorem summaryText_spec (P : Runtime) (s : RunState) (halt : String) :
    (summaryText P s halt).evs = [] ∧ (summaryText P s halt).mem = s ∧
      ∀ text, (summaryText P s halt).out = .ret text → text ≠ "" := by
  unfold summaryText
  cases hm : mechanicalSummary P s.checklist s.task halt with
  | error e => exact ⟨rfl, rfl, fun text h => by cases h⟩
  | ok t => exact ⟨rfl, rfl, fun text h => by cases h; exact mechanicalSummary_ne hm⟩

theorem finishPlain_parts (hs : Works P cfg s₀ s) {halt : String} {key : Option String} {w : Work} (hhalt : halt ≠ "")
    (hdone : (classify halt).1 = .complete → halt = "complete" ∧ isComplete s.checklist = true) :
    Parts P cfg own s₀ key (finishPlain P cfg key w s halt).evs := by
  obtain ⟨hevs, hmem, htext⟩ := summaryText_spec P s halt
  refine parts_bind ⟨by simp [hevs], by rwa [hmem]⟩ fun text hret _ => ?_
  rw [hmem]
  exact report_parts hs (htext text hret) hhalt hdone

theorem writeReport_spec (P : Runtime) (cfg : Cfg) (s : RunState) (halt : String) (reply : Option String) :
    (∀ e ∈ (writeReport P cfg s halt reply).evs, ∃ p, e = .writeReport p) ∧
      (writeReport P cfg s halt reply).mem = s ∧
      ∀ text, (writeReport P cfg s halt reply).out = .ret text → text ≠ "" := by
  obtain ⟨hevs, hmem, htext⟩ := summaryText_spec P s halt
  unfold writeReport
  cases buildReportPrompt P s.checklist s.task halt with
  | error e => exact ⟨fun e he => (List.not_mem_nil he).elim, rfl, fun text h => by cases h⟩
  | ok p =>
    have prompted : ∀ x : Call String, x.evs = [] →
        ∀ e ∈ (x.pre [.writeReport p]).evs, ∃ p, e = .writeReport p := by
      intro x hx e he
      rw [Exec.pre_evs, hx, List.append_nil, List.mem_singleton] at he
      exact ⟨p, he⟩
    simp only [Exec.attempt]
    split_ifs
    · cases reply with
      | none => exact ⟨prompted _ hevs, hmem, htext⟩
      | some raw =>
        simp only
        split_ifs with hlen
        · exact ⟨prompted _ hevs, hmem, htext⟩
        · refine ⟨prompted _ rfl, rfl, fun text h => ?_⟩
          cases h
          rintro hempty
          rw [hempty] at hlen
          exact hlen (by decide)
    · exact ⟨fun e he => (List.not_mem_nil he).elim, rfl, fun text h => by cases h⟩

theorem finish_parts (hs : Works P cfg s₀ s) {halt : String} {key : Option String} {w : Work} (hhalt : halt ≠ "")
    (hdone : (classify halt).1 = .complete → halt = "complete" ∧ isComplete s.checklist = true) :
    Parts P cfg own s₀ key (finish P cfg key w s halt).evs := by
  obtain ⟨hevs, hmem, htext⟩ := writeReport_spec P cfg s halt w.report
  refine parts_bind ⟨fun e he => ?_, by rwa [hmem]⟩ fun text hret _ => ?_
  · obtain ⟨p, rfl⟩ := hevs e he
    trivial
  · rw [hmem]
    exact report_parts hs (htext text hret) hhalt hdone

/-- what holds of every report of `s` holds of the end of a command that stopped before any turn -/
theorem finishPlain_all {p : Ev → Prop} {key : Option String} {w : Work} {halt : String}
    (hreport : ∀ text, ∀ e ∈ (report cfg s text halt key w.mail).evs, p e) :
    ∀ e ∈ (finishPlain P cfg key w s halt).evs, p e := by
  obtain ⟨hevs, hmem, -⟩ := summaryText_spec P s halt
  exact Exec.evs_bind_all hmem (by simp [hevs]) hreport

/-- and of one that ran the loop, if it holds of the prompt of the report -/
theorem finish_all {p : Ev → Prop} {key : Option String} {w : Work} {halt : String} (hprompt : ∀ q, p (.writeReport q))
    (hreport : ∀ text, ∀ e ∈ (report cfg s text halt key w.mail).evs, p e) :
    ∀ e ∈ (finish P cfg key w s halt).evs, p e := by
  obtain ⟨hevs, hmem, -⟩ := writeReport_spec P cfg s halt w.report
  refine Exec.evs_bind_all hmem (fun e he => ?_) hreport
  obtain ⟨q, rfl⟩ := hevs e he
  exact hprompt q

theorem unlessRefused_evs (x : Call Unit) : (unlessRefused x).evs = x.evs := by
  unfold unlessRefused
  split <;> rfl

/-- the loop and its report -/
theorem loop_parts (hs : Works P cfg s₀ s) {key : Option String} {w : Work} {limit : ℤ}
    {f : RunState → String → Call Unit} (hf : ∀ t r, Works P cfg s₀ t → (f t r).evs = (finish P cfg key w t r).evs) :
    Parts P cfg own s₀ key ((loop P cfg limit s w.turns).bind f).evs := by
  refine parts_bind (loop_work hs limit w.turns) fun r hr ht => ?_
  rw [hf _ _ ht]
  exact finish_parts ht (loop_reason hr) (loop_complete hr)

theorem prepareMedia_work (hs : Works P cfg s₀ s) (w : Work) :
    (prepareMedia w s).Holds (WorkEvent P cfg own s₀) (Works P cfg s₀) := by
  unfold prepareMedia
  split_ifs
  · exact Exec.holds_pre (by simp [WorkEvent, Mark.Allowed, hs]) (Exec.holds_done hs)
  · exact Exec.holds_done hs

theorem initialize_work (hs : Works P cfg s₀ s) (w : Work) :
    (initializeCommissionRun w s).Holds (WorkEvent P cfg own s₀) (Works P cfg s₀) := by
  have ht : Works P cfg s₀ { s with workdir := w.workspace } :=
    hs.trans (works_rest rfl ⟨rfl, rfl, rfl, rfl, rfl, rfl, rfl, le_rfl⟩ ⟨rfl, rfl, rfl⟩)
  unfold initializeCommissionRun
  split_ifs
  · exact Exec.holds_pre (by simp [WorkEvent, Mark.Allowed, ht]) (Exec.holds_done ht)
  · exact Exec.holds_done hs

theorem coordination_work (hs : Works P cfg s₀ s) (w : Work) :
    (attachCloudCoordination w s).Holds (WorkEvent P cfg own s₀) (Works P cfg s₀) := by
  have ht : ∀ status halt, Works P cfg s₀ { s with cloudCoordinator := status, halt := halt } := fun status halt =>
    hs.trans (works_rest rfl ⟨rfl, rfl, rfl, rfl, rfl, rfl, rfl, le_rfl⟩ ⟨rfl, rfl, rfl⟩)
  unfold attachCloudCoordination
  split_ifs
  · exact Exec.holds_done hs
  · cases w.coordination with
    | disabled => exact Exec.holds_done hs
    | accepted status => exact Exec.holds_pre (by simpa [WorkEvent, Mark.Allowed] using ht _ _) (Exec.holds_done (ht _ _))
    | failed required =>
      cases required with
      | true => exact Exec.holds_pre (by simpa [WorkEvent, Mark.Allowed] using ht _ _) (Exec.holds_done (ht _ _))
      | false => exact Exec.holds_pre (by simpa [WorkEvent, Mark.Allowed] using ht _ _) (Exec.holds_done (ht _ _))

theorem Works.same {s t : RunState} (h : Works P cfg s t) : SameRun s t := run_same h.reaches.choose_spec

theorem commissionKey_eq (hs : Works P cfg s₀ s) (mid : Option String) : commissionKey s mid = commissionKey s₀ mid := by
  unfold commissionKey
  rw [hs.same.requestKey, hs.same.runId]

theorem commence_parts (hs : Works P cfg s₀ s) (mid : Option String) (w : Work) :
    Parts P cfg own s₀ (some (commissionKey s₀ mid)) (commence P cfg mid w s).evs := by
  refine parts_bind (initialize_work hs w) fun _ _ ht => parts_bind (coordination_work ht w) fun ready _ hu => ?_
  split_ifs
  · refine parts_bind (prepareMedia_work hu w) fun _ _ hv => loop_parts hv fun t r ht' => ?_
    rw [commissionKey_eq ht']
  · rw [commissionKey_eq hu]
    exact finishPlain_parts hu (by decide) fun hc => absurd hc (by decide)

theorem works_note {t : RunState} {text : String} (h : applyHumanNote s text = .ok t) : Works P cfg s t := by
  refine ⟨.one (.note h), ?_⟩
  unfold applyHumanNote at h
  simp only at h
  split_ifs at h
  · cases h; exact ⟨rfl, rfl, rfl⟩
  · cases h; exact ⟨rfl, rfl, rfl⟩
  · obtain ⟨item, -, h⟩ := bind_ok h
    cases h; exact ⟨rfl, rfl, rfl⟩
  · cases h; exact ⟨rfl, rfl, rfl⟩

theorem works_noted {t : RunState} {n : Note} (h : noted s n = .ok t) : Works P cfg s t := by
  obtain ⟨u, hu, h⟩ := bind_ok h
  cases h
  refine (works_note hu).trans ?_
  split
  · exact works_thread _ _
  · exact .refl _

theorem resumeLoop_parts (hs : Works P cfg s₀ s) (n : Note) (w : Work) :
    Parts P cfg (some n.key) s₀ (some n.key) (resumeLoop P cfg n w s).evs := by
  refine parts_bind (prepareMedia_work hs w) fun _ _ ht => ?_
  exact parts_append (l := [.resuming n.key]) (by simp [WorkEvent]) (loop_parts ht fun _ _ _ => rfl)

/-- the note a command applies -/
def Op.noteKey : Op → Option String
  | .note n => some n.key
  | _ => none

/-- the key a command records its report under -/
def Op.key (s : RunState) : Op → Option String
  | .commission _ mid => some (commissionKey s mid)
  | .note n => some n.key
  | .stop _ => none
  | .retry => none
  | .resume _ _ => none

/-- **What a command makes visible**: work that leaves the latest report alone, then at most one report and its
delivery. -/
theorem exec_parts (P : Runtime) (cfg : Cfg) (s : RunState) (w : Work) (op : Op) :
    Parts P cfg op.noteKey s (op.key s) (op.exec P cfg w s).evs := by
  have hs : Works P cfg s s := .refl s
  cases op with
  | commission ws mid =>
    simp only [Op.exec, Op.key, handleCommission]
    split_ifs with hws hrep
    · exact parts_work fun _ he => (List.not_mem_nil he).elim
    · refine parts_saveThen trivial hs ?_
      split_ifs
      · exact parts_work fun _ he => (List.not_mem_nil he).elim
      · exact parts_work (redelivery_work hrep _ _)
    · exact commence_parts (works_halt s none) mid w
  | note n =>
    simp only [Op.exec, Op.key, handleNote]
    split_ifs with hsender hans hsettled hstop
    · exact parts_work fun _ he => (List.not_mem_nil he).elim
    · exact parts_work fun _ he => (List.not_mem_nil he).elim
    · have hrep : hasReport s = true := by unfold answers at hans; simp at hans; exact hans.1
      exact parts_work (redelivery_work hrep _ _)
    · refine parts_attempt fun t ht => parts_saveThen (m := .noteApplied n.key) rfl (works_noted ht) ?_
      have hu : Works P cfg s { t with halt := some ⟨"stopped_by_human", n.text⟩ } :=
        (works_noted ht).trans (works_halt t _)
      exact parts_saveThen trivial hu (finishPlain_parts hu (by decide) fun hc => absurd hc (by decide))
    · exact parts_attempt fun t ht => parts_saveThen (m := .noteApplied n.key) rfl (works_noted ht) (resumeLoop_parts (works_noted ht) n w)
  | stop detail => exact parts_saveThen trivial (works_halt s _) (parts_work fun _ he => (List.not_mem_nil he).elim)
  | retry =>
    simp only [Op.exec, Op.key, cmdRetry]
    split
    · exact parts_work fun _ he => (List.not_mem_nil he).elim
    · split_ifs
      · exact parts_work fun _ he => (List.not_mem_nil he).elim
      · exact parts_saveThen trivial (works_halt s none) (loop_parts (works_halt s none) fun _ _ _ => unlessRefused_evs _)
  | resume guidance maxTurns =>
    simp only [Op.exec, Op.key, cmdResume]
    split
    · exact parts_attempt fun t ht =>
        parts_saveThen trivial (works_note ht) (loop_parts (works_note ht) fun _ _ _ => unlessRefused_evs _)
    · exact loop_parts hs fun _ _ _ => unlessRefused_evs _

end Commands

/-! ## Commands one after the other -/

/-- a command, what comes from outside while it works, and after how many events it is cut short, if it is -/
structure Job where
  op : Op
  work : Work
  cut : Option ℕ
deriving DecidableEq

/-- what the command got done -/
def Job.performed (P : Runtime) (cfg : Cfg) (s : RunState) (j : Job) : List Ev :=
  let l := (j.op.exec P cfg j.work s).evs
  match j.cut with
  | some n => l.take n
  | none => l

/-- the file after the command -/
def Job.file (P : Runtime) (cfg : Cfg) (s : RunState) (j : Job) : RunState :=
  Exec.persist Ev.saved s (j.performed P cfg s)

/-- everything made visible by commands one after the other, the first on the file `s` -/
def session (P : Runtime) (cfg : Cfg) (s : RunState) : List Job → List Ev
  | [] => []
  | j :: js => j.performed P cfg s ++ session P cfg (j.file P cfg s) js

section Session

variable {P : Runtime} {cfg : Cfg} {own : Option String} {s₀ s : RunState}

theorem performed_parts (P : Runtime) (cfg : Cfg) (s : RunState) (j : Job) :
    Parts P cfg j.op.noteKey s (j.op.key s) (j.performed P cfg s) := by
  unfold Job.performed
  cases j.cut with
  | none => exact exec_parts P cfg s j.work j.op
  | some n => exact (exec_parts P cfg s j.work j.op).take n

/-- what every edit keeps, every save of every sequence of commands keeps -/
theorem session_keeps {q : RunState → Prop} (hedit : ∀ s t, Edit P cfg s t → q s → q t) (h0 : q s) (jobs : List Job) :
    ∀ e ∈ session P cfg s jobs, ∀ t, e.saved = some t → q t := by
  have hedits : ∀ {s t}, Edits P cfg s t → q s → q t := by
    intro s t h hs
    induction h with
    | refl => exact hs
    | tail _ hlast ih => exact hedit _ _ hlast ih
  induction jobs generalizing s with
  | nil => intro e he; cases he
  | cons j js ih =>
    have hsub : ∀ e ∈ j.performed P cfg s, e ∈ (j.op.exec P cfg j.work s).evs := by
      intro e he
      unfold Job.performed at he
      cases hcut : j.cut with
      | none => simpa [hcut] using he
      | some n => rw [hcut] at he; exact List.mem_of_mem_take he
    have hsaves : ∀ e ∈ j.performed P cfg s, ∀ t, e.saved = some t → q t := fun e he t ht =>
      hedits ((exec_edits P cfg s j.work j.op).1 e (hsub e he) t ht) h0
    intro e he
    rcases List.mem_append.1 he with he | he
    · exact hsaves e he
    · exact ih (Exec.persist_inv Ev.saved h0 hsaves) e he

/-- every command meets a condition on the file it finds -/
def Meets (P : Runtime) (cfg : Cfg) (ok : RunState → Op → Prop) : RunState → List Job → Prop
  | _, [] => True
  | s, j :: js => ok s j.op ∧ Meets P cfg ok (j.file P cfg s) js

instance decidableMeets (P : Runtime) (cfg : Cfg) (ok : RunState → Op → Prop) [∀ s op, Decidable (ok s op)] :
    (s : RunState) → (jobs : List Job) → Decidable (Meets P cfg ok s jobs)
  | _, [] => isTrue trivial
  | s, j :: js => @instDecidableAnd _ _ inferInstance (decidableMeets P cfg ok (j.file P cfg s) js)

theorem meets_always {ok : RunState → Op → Prop} (h : ∀ s op, ok s op) (jobs : List Job) : Meets P cfg ok s jobs := by
  induction jobs generalizing s with
  | nil => trivial
  | cons j js ih => exact ⟨h s j.op, ih⟩

/-- **A monitor of a run.** It accepts a sequence of commands, each cut short anywhere, if it accepts each command from
where the file stands to it as `r` says, and each event it accepts keeps file and monitor in `r`. -/
theorem session_accepts {τ : Type} {M : Monitor Ev τ} {r : τ → RunState → Prop} {ok : RunState → Op → Prop}
    (hexec : ∀ u s op w, r u s → ok s op → M.Accepts u (op.exec P cfg w s).evs)
    (hstep : ∀ u s e, r u s → M.fine u e → r (M.next u e) (e.saved.getD s)) {u : τ} (hr : r u s) {jobs : List Job}
    (hok : Meets P cfg ok s jobs) : M.Accepts u (session P cfg s jobs) := by
  have hfile : ∀ {u s l}, M.Accepts u l → r u s → r (M.after u l) (Exec.persist Ev.saved s l) := by
    intro u s l h
    induction h generalizing s with
    | nil => exact id
    | cons hfine _ ih => exact fun hr => ih (hstep _ _ _ hr hfine)
  induction jobs generalizing u s with
  | nil => exact .nil
  | cons j js ih =>
    have hall := hexec u s j.op j.work hr hok.1
    have hjob : M.Accepts u (j.performed P cfg s) := by
      unfold Job.performed
      cases j.cut with
      | none => exact hall
      | some n => exact hall.take n
    exact (M.accepts_append _ _ _).2 ⟨hjob, ih (hfile hjob hr) hok.2⟩

theorem recordReport_same (s : RunState) (text halt : String) (key : Option String) :
    Reaches (Step P cfg) s (recordReport s text halt key) :=
  .one (.rest rfl ⟨rfl, rfl, rfl, rfl, rfl, rfl, rfl, le_rfl⟩)

/-- the request that a recorded report answers -/
def Ev.reportKey : Ev → Option (Option String)
  | .save (.report _ k) _ => some k
  | _ => none

/-- the request that the last report recorded answers -/
def lastReport (l : List Ev) : Option (Option String) := (l.filterMap Ev.reportKey).getLast?

theorem lastReport_append (l m : List Ev) : lastReport (l ++ m) = (lastReport m).or (lastReport l) := by
  simp [lastReport, List.getLast?_append]

/-- the file after work and at most one report: as far as the work got, or the delivery of the new report -/
theorem parts_file {key : Option String} {l : List Ev} (h : Parts P cfg own s key l) :
    (lastReport l = none ∧ Works P cfg s (Exec.persist Ev.saved s l)) ∨
      ∃ t text halt, Works P cfg s t ∧ text ≠ "" ∧ halt ≠ "" ∧
        .save (.report halt key) (recordReport t text halt key) ∈ l ∧ lastReport l = some key ∧
        Works P cfg (recordReport t text halt key) (Exec.persist Ev.saved s l) := by
  obtain ⟨work, tail, rfl, hwork, htail⟩ := h
  have hnone : work.filterMap Ev.reportKey = [] := by
    refine List.filterMap_eq_nil_iff.2 fun e he => ?_
    have hw := hwork e he
    cases e with
    | save m t => cases m <;> first | rfl | exact hw.1.elim
    | _ => rfl
  have works : Works P cfg s (Exec.persist Ev.saved s work) := by
    refine Exec.persist_inv Ev.saved (q := Works P cfg s) (.refl s) fun e he t ht => ?_
    cases e with
    | save m u => cases ht; exact (hwork _ he).2
    | _ => cases ht
  rcases htail with rfl | ⟨t, text, halt, back, ht, htext, hhalt, -, rfl, hback⟩
  · exact Or.inl ⟨by simp [lastReport, hnone], by simpa using works⟩
  · have hback' : back.filterMap Ev.reportKey = [] := by
      refine List.filterMap_eq_nil_iff.2 fun e he => ?_
      cases hback e he <;> rfl
    refine Or.inr ⟨t, text, halt, ht, htext, hhalt, by simp, by simp [lastReport, hnone, hback', Ev.reportKey], ?_⟩
    rw [Exec.persist_append]
    refine Exec.persist_inv Ev.saved (l := back) (q := Works P cfg (recordReport t text halt key)) (.refl _)
      fun e he u hu => ?_
    cases hback e he with
    | save h => cases hu; exact h
    | mail => cases hu

theorem parts_reaches {key : Option String} {l : List Ev} (h : Parts P cfg own s key l) :
    Reaches (Step P cfg) s (Exec.persist Ev.saved s l) := by
  rcases parts_file h with ⟨-, hw⟩ | ⟨t, text, halt, ht, -, -, -, -, hw⟩
  · exact hw.reaches
  · exact (ht.reaches.trans (recordReport_same t text halt key)).trans hw.reaches

/-! ## Honest completion -/

/-- there is work, and every item is done and verified by another than its owner -/
def Certified (items : List Item) : Prop :=
  items ≠ [] ∧ ∀ x ∈ items, x.state = .done ∧
    ∃ owner verifier : String, x.owner = .str owner ∧ x.verifiedBy = .str verifier ∧ owner ≠ "" ∧ verifier ≠ "" ∧
      owner ≠ verifier

theorem isComplete_iff (items : List Item) : isComplete items = true ↔ items ≠ [] ∧ ∀ x ∈ items, x.state = .done := by
  simp [isComplete]

/-- a complete checklist of a run is certified -/
theorem reaches_certified (h0 : s₀.checklist = []) (hfleet : "" ∉ cfg.agents) (h : Reaches (Step P cfg) s₀ s)
    (hdone : isComplete s.checklist = true) : Certified s.checklist := by
  obtain ⟨tr, hrun⟩ := h
  obtain ⟨hne, hall⟩ := (isComplete_iff _).1 hdone
  refine ⟨hne, fun x hx => ⟨hall x hx, ?_⟩⟩
  obtain ⟨owner, verifier, k, hf, hv, hdiff, -, ho, hver, -⟩ := (run_separated hrun h0).checked x hx (hall x hx)
  exact ⟨owner, verifier, ho, hver, fun h => hfleet (h ▸ hf), fun h => hfleet (h ▸ hv), hdiff⟩

/-- every report mailed as a completion has one recorded as a completion before it -/
def Backed (front l : List Ev) : Prop :=
  ∀ f human text key b, l = f ++ .send (.report human .complete text key) :: b →
    ∃ halt k t, .save (.report halt k) t ∈ front ++ f ∧ (classify halt).1 = .complete

/-- the report on record in `s` was recorded, under the outcome kept with it -/
def Recorded (front : List Ev) (s : RunState) : Prop :=
  hasReport s = true → ∃ halt k t, .save (.report halt k) t ∈ front ∧ s.reportHalt = some halt ∧ halt ≠ ""

theorem Backed.append {front l m : List Ev} (hl : Backed front l) (hm : Backed (front ++ l) m) :
    Backed front (l ++ m) := by
  intro f human text key b heq
  rcases List.append_eq_append_iff.1 heq with ⟨f', rfl, hrest⟩ | ⟨c, rfl, hrest⟩
  · obtain ⟨halt, k, t, hmem, hc⟩ := hm f' human text key b hrest
    exact ⟨halt, k, t, by simpa using hmem, hc⟩
  · cases c with
    | nil =>
      obtain ⟨halt, k, t, hmem, hc⟩ := hm [] human text key b (by simpa using hrest.symm)
      exact ⟨halt, k, t, by simpa using hmem, hc⟩
    | cons e c =>
      obtain ⟨rfl, -⟩ := List.cons.inj hrest
      exact hl f human text key c rfl

theorem Recorded.same {front l : List Ev} {t : RunState} (h : Recorded front s) (hrep : SameReport s t) :
    Recorded (front ++ l) t := by
  intro hhas
  have hs : hasReport s = true := by unfold hasReport at hhas ⊢; rwa [hrep.report] at hhas
  obtain ⟨halt, k, u, hmem, hh, hne⟩ := h hs
  exact ⟨halt, k, u, List.mem_append_left _ hmem, by rw [hrep.reportHalt, hh], hne⟩

theorem storedOutcome_of {halt : String} (h : s.reportHalt = some halt) (hne : halt ≠ "") : storedOutcome s = halt := by
  unfold storedOutcome
  rw [h]
  simp [hne]

theorem parts_backed {front l : List Ev} {key : Option String} (hrec : Recorded front s) (h : Parts P cfg own s key l) :
    Backed front l ∧ Recorded (front ++ l) (Exec.persist Ev.saved s l) := by
  constructor
  · obtain ⟨work, tail, rfl, hwork, htail⟩ := h
    refine Backed.append ?_ ?_
    · -- mail of the work delivers the report on record
      rintro f human text key b rfl
      obtain ⟨hhas, hst⟩ := hwork (.send (.report human .complete text key)) (by simp)
      obtain ⟨halt, k, t, hmem, hh, hne⟩ := hrec hhas
      rw [storedOutcome_of hh hne] at hst
      exact ⟨halt, k, t, List.mem_append_left _ hmem, hst.symm⟩
    · rcases htail with rfl | ⟨t, text, halt, back, -, -, -, -, rfl, hback⟩
      · intro f human text key b heq; simp at heq
      · -- mail after the record delivers the new report
        intro f human text' key' b heq
        cases f with
        | nil => cases heq
        | cons e f =>
          obtain ⟨rfl, rfl⟩ := List.cons.inj heq
          refine ⟨halt, key, recordReport t text halt key, by simp, ?_⟩
          have hmail := hback (.send (.report human .complete text' key')) (by simp)
          generalize Status.complete = st at hmail
          cases hmail
          rfl
  · rcases parts_file h with ⟨-, hw⟩ | ⟨t, text, halt, -, -, hne, hmem, -, hw⟩
    · exact hrec.same hw.report
    · exact fun _ => ⟨halt, key, _, List.mem_append_right _ hmem, hw.report.reportHalt, hne⟩

theorem session_backed {front : List Ev} (jobs : List Job) (hrec : Recorded front s) :
    Backed front (session P cfg s jobs) := by
  induction jobs generalizing s front with
  | nil => intro f human text key b heq; simp [session] at heq
  | cons j js ih =>
    obtain ⟨hb, hr⟩ := parts_backed hrec (performed_parts P cfg s j)
    exact hb.append (ih hr)

theorem session_recorded {halt : String} {key : Option String} {t : RunState} (jobs : List Job)
    (hs : Reaches (Step P cfg) s₀ s) (h : .save (.report halt key) t ∈ session P cfg s jobs)
    (hc : (classify halt).1 = .complete) :
    halt = "complete" ∧ isComplete t.checklist = true ∧ Reaches (Step P cfg) s₀ t := by
  induction jobs generalizing s with
  | nil => cases h
  | cons j js ih =>
    have hparts := performed_parts P cfg s j
    rcases List.mem_append.1 h with h | h
    · obtain ⟨work, tail, heq, hwork, htail⟩ := hparts
      rw [heq] at h
      rcases List.mem_append.1 h with h | h
      · exact absurd (hwork _ h).1 (by simp [Mark.Allowed])
      · rcases htail with rfl | ⟨u, text, halt', back, hu, -, -, hdone, rfl, hback⟩
        · cases h
        · rcases List.mem_cons.1 h with h | h
          · cases h
            obtain ⟨hh, hlist⟩ := hdone hc
            exact ⟨hh, hlist, (hs.trans hu.reaches).trans (recordReport_same _ _ _ _)⟩
          · cases hback _ h
    · exact ih (hs.trans (parts_reaches hparts)) h

/-- **A completion is reported for complete, checked work only.** In every run of a fleet without an empty name: an
outcome of the loop, from any state of the run, that classifies as a completion is the word `complete`, and then every
item is done and verified by another than its owner; so it is for every report recorded as a completion, by any
sequence of commands cut short anywhere, when it is recorded; and a report mailed as a completion was recorded as
one. -/
theorem session_honest (h0 : s₀.checklist = []) (hrep : hasReport s₀ = false) (hfleet : "" ∉ cfg.agents) :
    (∀ s limit inputs r, Reaches (Step P cfg) s₀ s → (loop P cfg limit s inputs).out = .ret r →
      (classify r).1 = .complete → r = "complete" ∧ Certified (loop P cfg limit s inputs).mem.checklist) ∧
    (∀ jobs halt key t, .save (.report halt key) t ∈ session P cfg s₀ jobs → (classify halt).1 = .complete →
      halt = "complete" ∧ Certified t.checklist) ∧
    ∀ jobs front human text key back,
      session P cfg s₀ jobs = front ++ .send (.report human .complete text key) :: back →
        ∃ halt k t, .save (.report halt k) t ∈ front ∧ (classify halt).1 = .complete := by
  refine ⟨fun s limit inputs r hs hret hc => ?_, fun jobs halt key t hmem hc => ?_, ?_⟩
  · obtain ⟨hr, hdone⟩ := loop_complete hret hc
    have hmem : Works P cfg s (loop P cfg limit s inputs).mem := (loop_works (.refl s) limit inputs).2
    exact ⟨hr, reaches_certified h0 hfleet (hs.trans hmem.reaches) hdone⟩
  · obtain ⟨hh, hdone, ht⟩ := session_recorded jobs (.refl s₀) hmem hc
    exact ⟨hh, reaches_certified h0 hfleet ht hdone⟩
  · intro jobs front human text key back heq
    have hrec : Recorded [] s₀ := fun hhas => by rw [hrep] at hhas; cases hhas
    simpa using session_backed jobs hrec front human text key back heq

end Session

/-- work in the run's own workspace with these turns, and nothing else happening -/
def workOf (turns : List TurnInput) : Work :=
  { workspace := "/runs/r-1/workspace", connects := false, coordination := .disabled, media := false, turns := turns
    report := none, mail := .broken }

/-- the commission of a run that claude scopes, agy works on and claude verifies -/
def completingJob : Job :=
  { op := .commission none none, cut := none
    work := workOf
      [replyOf (envelopeOf [(.str "c1", "open", .none)]),
       replyOf (envelopeOf [(.str "c1", "awaiting-verification", .str "agy")]),
       replyOf (envelopeOf [(.str "c1", "done", .str "agy")])] }

/-- the event records a report under `complete` -/
def Ev.completes : Ev → Bool
  | .save (.report halt _) _ => halt = "complete"
  | _ => false

/-- the commission is reported as a completion, of certified work -/
theorem session_honest_sample : ∃ key t,
    .save (.report "complete" key) t ∈ session plainText twoAgents newRun [completingJob] ∧ Certified t.checklist := by
  have hany : (session plainText twoAgents newRun [completingJob]).any Ev.completes = true := by decide
  obtain ⟨e, he, hc⟩ := List.any_eq_true.1 hany
  have hhonest := (@session_honest plainText twoAgents newRun rfl rfl (by decide)).2.1
  unfold Ev.completes at hc
  split at hc
  · rename_i halt key t
    obtain rfl : halt = "complete" := by simpa using hc
    exact ⟨key, t, he, (hhonest [completingJob] _ key t he (by decide)).2⟩
  · cases hc

end Rally.Runner
