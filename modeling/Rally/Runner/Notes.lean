/-
Notes from the ingress queue (`serve`, `handle_note` and `record_report` of `src/runner.py`). A note stays queued
until it is acknowledged, which may fail, so it can be delivered again. What the run remembers of the notes it has
applied is the request that its latest report answers.

A note is applied where `handle_note` first saves the state (`.noteApplied`): there it adds a revision item or reopens
what is blocked. `.resuming` marks the loop it then starts.

- `Inbox`: the state file, the queue, and all that was made visible so far. `step`: a note arrives, is handled (as a
  whole, or up to a crash or an exception), is acknowledged, or another command works on the run.
- `note_applied_once`: every note is applied at most once and starts at most one loop, in every history in which a
  note already applied is handled again only while the last report recorded is its own.
- `note_applied_twice`: two notes are handled, the acknowledgement is lost and the first one is handled again. It adds a
  second revision item and starts a second loop.
-/
import Rally.Runner.Session

namespace Rally.Runner

open Py Rally.Envelope Rally.Report

/-! ## What a note makes visible -/

/-- the save that applies the note `key` -/
def Ev.applies (key : String) : Ev → Bool
  | .save (.noteApplied k) _ => k = key
  | _ => false

/-- the loop that the note `key` starts -/
def Ev.resumes (key : String) : Ev → Bool
  | .resuming k => k = key
  | _ => false

/-- how often the note `key` is applied, and how many loops it starts -/
def applied (key : String) (l : List Ev) : ℕ := l.countP (Ev.applies key)
def resumed (key : String) (l : List Ev) : ℕ := l.countP (Ev.resumes key)

section Counts

variable {P : Runtime} {cfg : Cfg} {s : RunState} {key : String} {l m : List Ev}

theorem applied_append : applied key (l ++ m) = applied key l + applied key m := by simp [applied]
theorem resumed_append : resumed key (l ++ m) = resumed key l + resumed key m := by simp [resumed]

/-- a command that applies no note, or another one -/
theorem parts_counts (key : String) {own reportKey : Option String} (h : Parts P cfg own s reportKey l)
    (hown : own ≠ some key) :
    applied key l = 0 ∧ resumed key l = 0 := by
  obtain ⟨work, tail, rfl, hwork, htail⟩ := h
  have plain : ∀ e ∈ work ++ tail, Ev.applies key e = false ∧ Ev.resumes key e = false := by
    intro e he
    have hcase : WorkEvent P cfg own s e ∨ Ev.applies key e = false ∧ Ev.resumes key e = false := by
      rcases List.mem_append.1 he with he | he
      · exact Or.inl (hwork e he)
      · rcases htail with rfl | ⟨t, text, halt, back, -, -, -, -, rfl, hback⟩
        · cases he
        · rcases List.mem_cons.1 he with rfl | he
          · exact Or.inr ⟨rfl, rfl⟩
          · cases hback e he <;> exact Or.inr ⟨rfl, rfl⟩
    rcases hcase with hw | hplain
    · cases e with
      | save mark t =>
        cases mark with
        | noteApplied k =>
          refine ⟨?_, rfl⟩
          have hk : own = some k := hw.1
          simp only [Ev.applies, decide_eq_false_iff_not]
          rintro rfl
          exact hown hk
        | _ => exact ⟨rfl, rfl⟩
      | resuming k =>
        refine ⟨rfl, ?_⟩
        have hk : own = some k := hw
        simp only [Ev.resumes, decide_eq_false_iff_not]
        rintro rfl
        exact hown hk
      | dispatch p => exact ⟨rfl, rfl⟩
      | writeReport p => exact ⟨rfl, rfl⟩
      | send m => exact ⟨rfl, rfl⟩
    · exact hplain
  exact ⟨List.countP_eq_zero.2 fun e he => by simp [(plain e he).1],
    List.countP_eq_zero.2 fun e he => by simp [(plain e he).2]⟩

/-- the loop a note starts: announced once at most -/
theorem resumeLoop_counts (P : Runtime) (cfg : Cfg) (n : Note) (w : Work) (s : RunState) :
    applied n.key (resumeLoop P cfg n w s).evs = 0 ∧ resumed n.key (resumeLoop P cfg n w s).evs ≤ 1 := by
  have hs : Works P cfg s s := .refl s
  have hmedia : (prepareMedia w s).Holds (WorkEvent P cfg none s) (Works P cfg s) := prepareMedia_work hs w
  have hfront : Parts P cfg none s none (prepareMedia w s).evs := parts_work hmedia.1
  obtain ⟨h1, h2⟩ := parts_counts n.key hfront (by simp)
  unfold resumeLoop
  rcases Exec.evs_bind (prepareMedia w s) _ with heq | ⟨a, -, heq⟩
  · rw [heq]
    omega
  · have hloop : Parts P cfg none s (some n.key) ((loop P cfg cfg.turnsMax (prepareMedia w s).mem w.turns).bind
        fun s halt => finish P cfg (some n.key) w s halt).evs := loop_parts hmedia.2 fun _ _ _ => rfl
    obtain ⟨h3, h4⟩ := parts_counts n.key hloop (by simp)
    have h5 : applied n.key [.resuming n.key] = 0 ∧ resumed n.key [.resuming n.key] = 1 := by
      simp [applied, resumed, Ev.applies, Ev.resumes]
    rw [heq, Exec.pre_evs]
    simp only [applied_append, resumed_append]
    omega

/-- handling a note: nothing of it, or its application first and at most one loop later -/
theorem handleNote_counts (P : Runtime) (cfg : Cfg) (n : Note) (w : Work) (s : RunState) :
    (applied n.key (handleNote P cfg n w s).evs = 0 ∧ resumed n.key (handleNote P cfg n w s).evs = 0) ∨
      (answers s n.key = false ∧ ∃ t rest, (handleNote P cfg n w s).evs = .save (.noteApplied n.key) t :: rest ∧
        applied n.key rest = 0 ∧ resumed n.key rest ≤ 1) := by
  have nothing : ∀ x : Call Unit, x.evs = [] → applied n.key x.evs = 0 ∧ resumed n.key x.evs = 0 := by
    intro x hx
    rw [hx]
    exact ⟨rfl, rfl⟩
  unfold handleNote
  split_ifs with hsender hans hsettled hstop
  · exact Or.inl (nothing _ rfl)
  · exact Or.inl (nothing _ rfl)
  · have hrep : hasReport s = true := by unfold answers at hans; simp at hans; exact hans.1
    have hquiet : Parts P cfg none s none (mailReport cfg s (s.report.getD "") (storedOutcome s) w.mail).evs :=
      parts_work (redelivery_work hrep _ _)
    exact Or.inl (parts_counts n.key hquiet (by simp))
  · cases hnoted : noted s n with
    | error e => exact Or.inl (nothing _ rfl)
    | ok t =>
      have hu : Works P cfg t { t with halt := some ⟨"stopped_by_human", n.text⟩ } := works_halt t _
      have hstopped : Parts P cfg none t (some n.key)
          (saveThen .noteStopped { t with halt := some ⟨"stopped_by_human", n.text⟩ } fun s =>
            finishPlain P cfg (some n.key) w s "stopped_by_human").evs :=
        parts_saveThen trivial hu (finishPlain_parts hu (by decide) fun hc => absurd hc (by decide))
      obtain ⟨h1, h2⟩ := parts_counts n.key hstopped (by simp)
      exact Or.inr ⟨by simpa using hans, t, _, rfl, h1, h2.le.trans (Nat.zero_le 1)⟩
  · cases hnoted : noted s n with
    | error e => exact Or.inl (nothing _ rfl)
    | ok t =>
      obtain ⟨h1, h2⟩ := resumeLoop_counts P cfg n w t
      exact Or.inr ⟨by simpa using hans, t, _, rfl, h1, h2⟩

/-- a note handled as a whole or up to a crash: applied once at most, with one loop at most, and not at all if the
latest report answers it -/
theorem performed_note (P : Runtime) (cfg : Cfg) (n : Note) (w : Work) (cut : Option ℕ) (s : RunState) :
    applied n.key (Job.performed P cfg s ⟨.note n, w, cut⟩) ≤ 1 ∧
      resumed n.key (Job.performed P cfg s ⟨.note n, w, cut⟩) ≤ applied n.key (Job.performed P cfg s ⟨.note n, w, cut⟩) ∧
      (answers s n.key = true → applied n.key (Job.performed P cfg s ⟨.note n, w, cut⟩) = 0) := by
  have whole : ∀ l : List Ev, l <+: (handleNote P cfg n w s).evs →
      applied n.key l ≤ 1 ∧ resumed n.key l ≤ applied n.key l ∧ (answers s n.key = true → applied n.key l = 0) := by
    intro l hl
    have happ : applied n.key l ≤ applied n.key (handleNote P cfg n w s).evs := hl.sublist.countP_le
    have hres : resumed n.key l ≤ resumed n.key (handleNote P cfg n w s).evs := hl.sublist.countP_le
    rcases handleNote_counts P cfg n w s with ⟨h1, h2⟩ | ⟨hans, t, rest, heq, h1, h2⟩
    · omega
    · rw [heq] at hl
      rcases List.prefix_cons_iff.1 hl with rfl | ⟨l', rfl, hl'⟩
      · simp [applied, resumed]
      · have h3 : applied n.key l' ≤ applied n.key rest := hl'.sublist.countP_le
        have h4 : resumed n.key l' ≤ resumed n.key rest := hl'.sublist.countP_le
        have h5 : applied n.key (.save (.noteApplied n.key) t :: l') = applied n.key l' + 1 := by
          simp [applied, Ev.applies]
        have h6 : resumed n.key (.save (.noteApplied n.key) t :: l') = resumed n.key l' := by
          simp [resumed, Ev.resumes]
        rw [h5, h6, hans]
        exact ⟨by omega, by omega, by simp⟩
  unfold Job.performed
  cases cut with
  | none => exact whole _ List.prefix_rfl
  | some k => exact whole _ (List.take_prefix _ _)

end Counts

/-- the file after a command: with the report it had, or with the one just recorded -/
theorem parts_answered {P : Runtime} {cfg : Cfg} {s : RunState} {own key : Option String} {l : List Ev}
    (h : Parts P cfg own s key l) :
    (lastReport l = none ∧ SameReport s (Exec.persist Ev.saved s l)) ∨
      (lastReport l = some key ∧ hasReport (Exec.persist Ev.saved s l) = true ∧
        answeredKey (Exec.persist Ev.saved s l) = key) := by
  rcases parts_file h with ⟨hnone, hw⟩ | ⟨t, text, halt, -, htext, -, -, hsome, hw⟩
  · exact Or.inl ⟨hnone, hw.report⟩
  · refine Or.inr ⟨hsome, ?_, hw.report.answered⟩
    unfold hasReport
    rw [hw.report.report]
    simpa [recordReport] using htext

/-! ## The queue -/

/-- the state file, the queue of notes, and everything made visible so far -/
structure Inbox where
  file : RunState
  queue : List Note
  /-- ids that were queued once: the ingress gives out each id once -/
  arrived : List String
  /-- ids whose handling succeeded, which may be acknowledged -/
  handled : List String
  log : List Ev

namespace Inbox

inductive Act where
  | arrive (n : Note)
  | handle (n : Note) (work : Work) (cut : Option ℕ)
  | ack (n : Note)
  | command (op : Op) (work : Work) (cut : Option ℕ)

/-- before any note -/
def opened (file : RunState) : Inbox := ⟨file, [], [], [], []⟩

/-- a command works on the run -/
def perform (P : Runtime) (cfg : Cfg) (w : Inbox) (j : Job) : Inbox :=
  { w with file := j.file P cfg w.file, log := w.log ++ j.performed P cfg w.file }

/-- `serve` takes the handling for a success: it returned, or rejected the note for good -/
def succeeded (P : Runtime) (cfg : Cfg) (w : Inbox) (n : Note) (work : Work) (cut : Option ℕ) : Bool :=
  cut.isNone && match (handleNote P cfg n work w.file).out with
    | .ret _ => true
    | .raised .noteRejected => true
    | _ => false

/-- one event; an acknowledgement that fails is no event, and its note stays queued -/
def step (P : Runtime) (cfg : Cfg) (w : Inbox) : Act → Inbox
  | .arrive n => if n.key ∈ w.arrived then w else { w with queue := w.queue ++ [n], arrived := n.key :: w.arrived }
  | .handle n work cut =>
    if n ∈ w.queue then
      { w.perform P cfg ⟨.note n, work, cut⟩ with
        handled := if w.succeeded P cfg n work cut then n.key :: w.handled else w.handled }
    else w
  | .ack n => if n.key ∈ w.handled then { w with queue := w.queue.filter fun m => m ≠ n } else w
  | .command (.note _) _ _ => w
  | .command op work cut => w.perform P cfg ⟨op, work, cut⟩

def run (P : Runtime) (cfg : Cfg) (w : Inbox) (acts : List Act) : Inbox := acts.foldl (step P cfg) w

/-- a note that was applied is handled again only while the last report recorded is its own -/
def Answered (w : Inbox) : Act → Prop
  | .handle n _ _ => 0 < applied n.key w.log → lastReport w.log = some (some n.key)
  | _ => True

/-- a history of such events -/
def Orderly (P : Runtime) (cfg : Cfg) : Inbox → List Act → Prop
  | _, [] => True
  | w, a :: acts => w.Answered a ∧ Orderly P cfg (w.step P cfg a) acts

instance (w : Inbox) : (a : Act) → Decidable (w.Answered a)
  | .handle n _ _ => inferInstanceAs (Decidable (0 < applied n.key w.log → lastReport w.log = some (some n.key)))
  | .arrive _ => inferInstanceAs (Decidable True)
  | .ack _ => inferInstanceAs (Decidable True)
  | .command _ _ _ => inferInstanceAs (Decidable True)

instance decidableOrderly (P : Runtime) (cfg : Cfg) : (w : Inbox) → (acts : List Act) → Decidable (Orderly P cfg w acts)
  | _, [] => isTrue trivial
  | w, a :: acts => @instDecidableAnd _ _ inferInstance (decidableOrderly P cfg (w.step P cfg a) acts)

/-- the file remembers the last report, and no note was applied twice -/
structure Inv (w : Inbox) : Prop where
  remembers : ∀ k, lastReport w.log = some k → hasReport w.file = true ∧ answeredKey w.file = k
  once : ∀ key, applied key w.log ≤ 1 ∧ resumed key w.log ≤ applied key w.log

theorem inv_opened (file : RunState) : Inv (opened file) where
  remembers := fun k h => by simp [opened, lastReport] at h
  once := fun key => by simp [opened, applied, resumed]

variable {P : Runtime} {cfg : Cfg} {w : Inbox}

/-- the memory of the run through a command -/
theorem perform_remembers (h : w.Inv) (j : Job) (k : Option String)
    (hk : lastReport (w.perform P cfg j).log = some k) :
    hasReport (w.perform P cfg j).file = true ∧ answeredKey (w.perform P cfg j).file = k := by
  simp only [perform, lastReport_append] at hk ⊢
  rcases parts_answered (performed_parts P cfg w.file j) with ⟨hnone, hsame⟩ | ⟨hsome, hrep, hans⟩
  · rw [hnone] at hk
    obtain ⟨hrep, hans⟩ := h.remembers k (by simpa using hk)
    refine ⟨?_, by rw [Job.file, hsame.answered, hans]⟩
    unfold hasReport at hrep ⊢
    rwa [Job.file, hsame.report]
  · rw [hsome] at hk
    cases hk
    exact ⟨hrep, hans⟩

theorem perform_inv (h : w.Inv) (j : Job) (honce : ∀ key,
    applied key w.log + applied key (j.performed P cfg w.file) ≤ 1 ∧
      resumed key (j.performed P cfg w.file) ≤ applied key (j.performed P cfg w.file)) :
    (w.perform P cfg j).Inv where
  remembers := fun k hk => perform_remembers h j k hk
  once := by
    intro key
    have h1 := h.once key
    have h2 := honce key
    simp only [perform, applied_append, resumed_append]
    omega

theorem step_inv (h : w.Inv) (a : Act) (ha : w.Answered a) : (w.step P cfg a).Inv := by
  cases a with
  | arrive n =>
    simp only [step]
    split_ifs
    · exact h
    · exact ⟨h.remembers, h.once⟩
  | ack n =>
    simp only [step]
    split_ifs
    · exact ⟨h.remembers, h.once⟩
    · exact h
  | command op work cut =>
    have quiet : op.noteKey = none → (w.perform P cfg ⟨op, work, cut⟩).Inv := by
      intro hop
      refine perform_inv h _ fun key => ?_
      have hparts := performed_parts P cfg w.file ⟨op, work, cut⟩
      obtain ⟨h1, h2⟩ := parts_counts key hparts (by rw [hop]; simp)
      have h3 := (h.once key).1
      omega
    cases op with
    | note n => exact h
    | commission ws mid => exact quiet rfl
    | stop detail => exact quiet rfl
    | retry => exact quiet rfl
    | resume guidance maxTurns => exact quiet rfl
  | handle n work cut =>
    simp only [step]
    by_cases hqueued : n ∈ w.queue
    · rw [if_pos hqueued]
      have hinv : (w.perform P cfg ⟨.note n, work, cut⟩).Inv := by
        refine perform_inv h _ fun key => ?_
        by_cases hkey : key = n.key
        · subst hkey
          obtain ⟨h1, h2, h3⟩ := performed_note P cfg n work cut w.file
          refine ⟨?_, h2⟩
          rcases Nat.eq_zero_or_pos (applied n.key w.log) with hzero | hpos
          · omega
          · -- applied before: the latest report answers it, and it is not applied again
            obtain ⟨hrep, hans⟩ := h.remembers _ (ha hpos)
            have hanswers : answers w.file n.key = true := by
              unfold answers answeredKey at *
              simp [hrep, hans]
            have := (h.once n.key).1
            have := h3 hanswers
            omega
        · have hparts := performed_parts P cfg w.file ⟨.note n, work, cut⟩
          obtain ⟨h1, h2⟩ := parts_counts key hparts (by simpa [Op.noteKey] using fun h => hkey h.symm)
          have h3 := (h.once key).1
          omega
      exact ⟨hinv.remembers, hinv.once⟩
    · rw [if_neg hqueued]
      exact h

theorem run_inv (h : w.Inv) (acts : List Act) (ho : Orderly P cfg w acts) : (w.run P cfg acts).Inv := by
  induction acts generalizing w with
  | nil => exact h
  | cons a acts ih => exact ih (step_inv h a ho.1) ho.2

end Inbox

/-- **A note is applied once**, and starts one loop, in every history of arrivals, deliveries in any order, crashes,
lost acknowledgements and other commands in which a note that was applied is delivered again only while the last
report recorded is its own. -/
theorem note_applied_once {P : Runtime} {cfg : Cfg} {file : RunState} {acts : List Inbox.Act}
    (h : Inbox.Orderly P cfg (.opened file) acts) (key : String) :
    applied key ((Inbox.opened file).run P cfg acts).log ≤ 1 ∧
      resumed key ((Inbox.opened file).run P cfg acts).log ≤ 1 := by
  have hinv := Inbox.run_inv (Inbox.inv_opened file) acts h
  exact ⟨(hinv.once key).1, (hinv.once key).2.trans (hinv.once key).1⟩

/-! ## A note delivered again -/

/-- two agents and room for many turns -/
def manyTurns : Cfg := { twoAgents with turnsMax := 50 }

/-- a note of the commissioner under this id -/
def noteOf (key text : String) (h : key ≠ "") : Note := ⟨key, text, some "ann@example.com", none, h⟩

def firstNote : Note := noteOf "n1" "add a chart" (by decide)
def secondNote : Note := noteOf "n2" "add a legend" (by decide)

/-- agy works on the item, claude verifies it -/
def workOn (id : String) : Work :=
  workOf
    [replyOf (envelopeOf [(.str id, "awaiting-verification", .str "agy")]),
     replyOf (envelopeOf [(.str id, "done", .str "agy")])]

/-- a completed commission and two notes in the queue -/
def twoNotes : List Inbox.Act :=
  [.command completingJob.op completingJob.work none, .arrive firstNote, .arrive secondNote]

/-- the first note is delivered again before the second one: its report is still the last -/
theorem note_applied_once_sample :
    applied "n1" ((Inbox.opened newRun).run plainText manyTurns
      (twoNotes ++ [.handle firstNote (workOn "c2") none, .handle firstNote (workOn "c3") none])).log ≤ 1 :=
  (note_applied_once (by decide) "n1").1

/-- **A note is applied twice.** Both notes are handled, the acknowledgement fails, and the queue is handled again from
its start: the first note adds a second revision item and starts a second loop. -/
theorem note_applied_twice :
    applied "n1" ((Inbox.opened newRun).run plainText manyTurns
      (twoNotes ++ [.handle firstNote (workOn "c2") none, .handle secondNote (workOn "c3") none,
        .handle firstNote (workOn "c4") none])).log = 2 ∧
    resumed "n1" ((Inbox.opened newRun).run plainText manyTurns
      (twoNotes ++ [.handle firstNote (workOn "c2") none, .handle secondNote (workOn "c3") none,
        .handle firstNote (workOn "c4") none])).log = 2 ∧
    ((Inbox.opened newRun).run plainText manyTurns
      (twoNotes ++ [.handle firstNote (workOn "c2") none, .handle secondNote (workOn "c3") none,
        .handle firstNote (workOn "c4") none])).file.checklist.map (fun it => (it.id, it.description)) =
      [(.str "c4", .str "Apply authenticated human follow-up: add a chart"),
       (.str "c3", .str "Apply authenticated human follow-up: add a legend"),
       (.str "c2", .str "Apply authenticated human follow-up: add a chart"), (.str "c1", .str "")] := by
  decide +kernel

end Rally.Runner
