/-
What becomes of a run whose checklist an accepted turn completed (`take_turn`, `handle_commission`, `cmd_retry`,
`handle_note` of `src/runner.py`), over all its commands and crashes.

Completion is tested after a turn, by `judge`. Whatever starts the loop again on a complete checklist calls an agent
before that test.

- `completion`: the monitor. Once an accepted turn saved a complete checklist no agent is called and every save keeps
  the checklist, until a note adds an item to it.
- `loop_guarded`: a loop keeps to the monitor, unless it starts on a completed checklist with turns left and no stop
  in the human's note.
- `completion_stable`: so does every sequence of commands that starts no such loop.
- `completion_broken`: the mail of the completing turn is refused, the run is halted on it, and a retry calls the next
  agent, which reopens the item.
-/
import Rally.Core.Monitor
import Rally.Runner.Session

namespace Rally.Runner

open Py Rally.Envelope Rally.Report

/-! ## The monitor -/

/-- a save after an accepted turn: its mail went out, or was refused -/
def Mark.ofTurn : Mark → Bool
  | .turn => true
  | .sendBlocked => true
  | _ => false

/-- a save of a note or of guidance just applied -/
def Mark.ofNote : Mark → Bool
  | .noteApplied _ => true
  | .resumed => true
  | _ => false

/-- a human's note or guidance leaves work to do -/
def Ev.revises : Ev → Bool
  | .save m s => m.ofNote && !isComplete s.checklist
  | _ => false

/-- the checklist that an accepted turn completed and no human has added to; then no agent is called, and every save
keeps the checklist or adds a human's item to it -/
def completion : Monitor Ev (Option (List Item)) where
  next
    | none, .save m s => if m.ofTurn && isComplete s.checklist then some s.checklist else none
    | some items, e => if e.revises then none else some items
    | none, _ => none
  fine
    | some _, .dispatch _ => False
    | some items, .save m s =>
      s.checklist = items ∨ (m.ofNote = true ∧ isComplete s.checklist = false ∧ ∃ it, s.checklist = items ++ [it])
    | _, _ => True

/-- the monitor holds the run to no other checklist than this -/
def Held (c : Option (List Item)) (items : List Item) : Prop :=
  ∀ done, c = some done → done = items ∧ isComplete items = true

/-- an event that leaves the checklist alone and is no turn -/
def Quiet (items : List Item) : Ev → Prop
  | .dispatch _ => False
  | .save m s => m.ofTurn = false ∧ s.checklist = items
  | _ => True

section Monitor

variable {c : Option (List Item)} {items : List Item}

theorem held_none (items : List Item) : Held none items := fun _ h => nomatch h

theorem quiet_fine (hc : Held c items) {e : Ev} (he : Quiet items e) :
    completion.fine c e ∧ completion.next c e = c := by
  cases c with
  | none =>
    refine ⟨trivial, ?_⟩
    cases e with
    | save m s => simp [completion, he.1]
    | _ => rfl
  | some done =>
    obtain ⟨rfl, hdone⟩ := hc done rfl
    cases e with
    | dispatch p => exact he.elim
    | save m s => exact ⟨Or.inl he.2, by simp [completion, Ev.revises, he.2, hdone]⟩
    | _ => exact ⟨trivial, rfl⟩

theorem quiet_accepts (hc : Held c items) {l : List Ev} (hl : ∀ e ∈ l, Quiet items e) :
    completion.Accepts c l ∧ completion.after c l = c :=
  Monitor.Accepts.of_all fun e he => quiet_fine hc (hl e he)

theorem quiet_guards {α : Type} (hc : Held c items) {x : Call α} {q : RunState → Prop} (hx : x.Holds (Quiet items) q) :
    completion.Guards c x fun _ s u => q s ∧ u = c :=
  Monitor.guards_of_holds hx fun _ => quiet_fine hc

/-- the file of a run keeps to the checklist of the monitor -/
theorem completion_file {file : RunState} {l : List Ev} (hacc : completion.Accepts c l) (hc : Held c file.checklist) :
    Held (completion.after c l) (Exec.persist Ev.saved file l).checklist := by
  induction l generalizing c file with
  | nil => exact hc
  | cons e l ih =>
    obtain ⟨hfine, hrest⟩ := (completion.accepts_cons c e l).1 hacc
    refine ih hrest fun done hdone => ?_
    cases c with
    | none =>
      cases e with
      | save m s =>
        simp only [completion] at hdone
        split_ifs at hdone with h
        cases hdone
        simp only [Bool.and_eq_true] at h
        exact ⟨rfl, h.2⟩
      | _ => cases hdone
    | some items =>
      obtain ⟨hitems, hcomplete⟩ := hc items rfl
      simp only [completion] at hdone
      split_ifs at hdone with hrev
      cases hdone
      cases e with
      | save m s =>
        rcases hfine with hs | ⟨hm, hs, -⟩
        · have hdone : isComplete s.checklist = true := by rw [hs, hitems, hcomplete]
          exact ⟨hs.symm, hdone⟩
        · simp [Ev.revises, hm, hs] at hrev
      | _ => exact ⟨hitems, hcomplete⟩

end Monitor

/-! ## The loop -/

/-- the loop has no turn left, or finds a stop in the human's note: it calls no agent -/
def Spent (limit : ℤ) (s : RunState) : Prop := limit ≤ s.turn ∨ (stopNote s).isSome

/-- the checklist, and what tells whether the loop is spent, are the same -/
structure SameCourse (s t : RunState) : Prop where
  checklist : t.checklist = s.checklist
  turn : t.turn = s.turn
  humanNote : t.humanNote = s.humanNote

section Loop

variable {P : Runtime} {cfg : Cfg} {c : Option (List Item)} {s : RunState} {limit : ℤ}

theorem Spent.same {t : RunState} (h : Spent limit s) (hst : SameCourse s t) : Spent limit t := by
  unfold Spent stopNote at *
  rwa [hst.turn, hst.humanNote]

/-- a quiet save, then the rest -/
theorem saveThen_quiet {α : Type} {m : Mark} {next : RunState → Call α} {items : List Item} {q : RunState → Prop}
    (hm : m.ofTurn = false) (hs : s.checklist = items) (h : (next s).Holds (Quiet items) q) :
    (saveThen m s next).Holds (Quiet items) q :=
  Exec.holds_pre (fun e he => by rw [List.mem_singleton.1 he]; exact ⟨hm, hs⟩) h

theorem haltWith_quiet (s : RunState) (reason : String) :
    (haltWith s reason).Holds (Quiet s.checklist) (fun t => t.checklist = s.checklist) :=
  saveThen_quiet rfl rfl (Exec.holds_done rfl)

theorem outOfTurns_quiet (s : RunState) :
    (outOfTurns s).Holds (Quiet s.checklist) (fun t => t.checklist = s.checklist) :=
  saveThen_quiet rfl rfl (Exec.holds_done rfl)

/-- a spent loop ends without a turn -/
theorem loop_spent (hspent : Spent limit s) (inputs : List TurnInput) :
    (loop P cfg limit s inputs).Holds (Quiet s.checklist) (fun t => t.checklist = s.checklist) := by
  cases inputs with
  | nil =>
    rw [loop_nil]
    split_ifs
    · exact ⟨fun _ he => (List.not_mem_nil he).elim, rfl⟩
    · exact outOfTurns_quiet s
  | cons inp rest =>
    rw [loop_cons]
    split_ifs with hlim
    · rcases hspent with hturn | hstop
      · exact absurd hlim (not_lt.2 hturn)
      · obtain ⟨note, hnote⟩ := Option.isSome_iff_exists.1 hstop
        have hkill : takeTurn P cfg s inp =
            saveThen .killSwitch { s with halt := some ⟨"stopped_by_human", strip note⟩ } fun s =>
              .done s (some "stopped_by_human") := by
          unfold takeTurn
          rw [hnote]
        rw [hkill]
        refine Exec.holds_bind (saveThen_quiet rfl rfl (Exec.holds_done rfl)) fun a ha => ?_
        cases ha
        exact haltWith_quiet { s with halt := some ⟨"stopped_by_human", strip note⟩ } _
    · exact outOfTurns_quiet s

/-- after a turn: the loop goes on with the monitor at rest, or ends on the checklist the monitor holds -/
def TurnDone (halt : Option String) (s : RunState) (c : Option (List Item)) : Prop :=
  Held c s.checklist ∧ (halt = none → c = none)

theorem agentFailed_guarded (s : RunState) (detail : String) :
    completion.Guards none (agentFailed cfg s detail) TurnDone := by
  refine Monitor.guards_attempt fun r _ => ?_
  obtain ⟨made, t⟩ := r
  cases made with
  | true => exact Monitor.guards_pre (.single trivial) (Monitor.guards_done ⟨held_none _, fun _ => rfl⟩)
  | false => exact Monitor.guards_pre (.single trivial) (Monitor.guards_done ⟨held_none _, fun _ => rfl⟩)

theorem noEnvelope_guarded (s : RunState) : completion.Guards none (noEnvelope cfg s) TurnDone := by
  refine Monitor.guards_pre (.single trivial) ?_
  simp only
  split_ifs
  · exact agentFailed_guarded _ _
  · exact Monitor.guards_done ⟨held_none _, fun _ => rfl⟩

theorem judge_guarded (hc : Held c s.checklist) (hopen : isComplete s.checklist = false → c = none) (actor : String) :
    completion.Guards c (judge cfg s actor) TurnDone := by
  unfold judge
  simp only
  split_ifs with hdone hstuck hrec
  · exact Monitor.guards_done ⟨hc, fun h => nomatch h⟩
  all_goals
    obtain rfl := hopen (by simpa using hdone)
  · refine Monitor.guards_attempt fun r _ => ?_
    obtain ⟨made, t⟩ := r
    cases made with
    | true => exact Monitor.guards_pre (.single trivial) (Monitor.guards_done ⟨held_none _, fun _ => rfl⟩)
    | false => exact Monitor.guards_attempt fun r _ => Monitor.guards_done ⟨held_none _, fun _ => rfl⟩
  · exact Monitor.guards_attempt fun r _ => Monitor.guards_done ⟨held_none _, fun _ => rfl⟩
  · exact Monitor.guards_done ⟨held_none _, fun _ => rfl⟩
  · exact Monitor.guards_done ⟨held_none _, fun _ => rfl⟩
  · exact Monitor.guards_done ⟨held_none _, fun _ => rfl⟩

/-- the save of a turn is where a completion is noticed -/
theorem turn_held (m : Mark) (hm : m.ofTurn = true) (s : RunState) :
    Held (completion.next none (.save m s)) s.checklist ∧
      (isComplete s.checklist = false → completion.next none (.save m s) = none) := by
  constructor
  · intro done hdone
    simp only [completion, hm, Bool.true_and] at hdone
    split_ifs at hdone with h
    cases hdone
    exact ⟨rfl, h⟩
  · intro h
    simp [completion, h]

theorem conclude_guarded (s : RunState) (actor : String) (narrative : Value) (mail : MailOutcome) :
    completion.Guards none (conclude P cfg s actor narrative mail) TurnDone := by
  unfold conclude
  split
  · rename_i evs t ht
    obtain ⟨-, -, -, hsend⟩ := mailTurn_works (P := P) ht
    have hquiet : ∀ e ∈ evs, Quiet s.checklist e := by
      intro e he
      obtain ⟨human, n, who, text, rfl⟩ := hsend e he
      trivial
    obtain ⟨hacc, hafter⟩ := quiet_accepts (held_none s.checklist) hquiet
    refine Monitor.guards_pre hacc ?_
    rw [hafter]
    obtain ⟨hheld, hopen⟩ := turn_held .turn rfl (advance P cfg t actor)
    exact Monitor.guards_pre (.single trivial) (judge_guarded hheld hopen actor)
  · rename_i text ht
    refine Monitor.guards_pre (.single trivial) (Monitor.guards_done ⟨?_, fun h => nomatch h⟩)
    exact (turn_held .sendBlocked rfl { s with halt := some ⟨"turn_budget", text⟩ }).1
  · exact Monitor.guards_raise

theorem takeTurn_guarded (s : RunState) (inp : TurnInput) :
    completion.Guards none (takeTurn P cfg s inp) TurnDone := by
  unfold takeTurn
  split
  · exact Monitor.guards_pre (.single trivial) (Monitor.guards_done ⟨held_none _, fun h => nomatch h⟩)
  · refine Monitor.guards_attempt fun p _ => Monitor.guards_pre (.single trivial) ?_
    unfold answered
    split
    · exact agentFailed_guarded _ _
    · exact Monitor.guards_raise
    · simp only
      split
      · exact noEnvelope_guarded _
      · exact Monitor.guards_attempt fun r _ => conclude_guarded _ _ _ _

/-- a loop that starts with the monitor at rest, or with no turn to take, keeps to it -/
theorem loop_guarded (hc : Held c s.checklist) (h : c = none ∨ Spent limit s) (inputs : List TurnInput) :
    completion.Guards c (loop P cfg limit s inputs) fun _ t u => Held u t.checklist := by
  have quiet : ∀ {c} {s : RunState} {x : Call String}, Held c s.checklist →
      x.Holds (Quiet s.checklist) (fun t => t.checklist = s.checklist) →
      completion.Guards c x fun _ t u => Held u t.checklist := by
    intro c s x hc hx
    refine ⟨(quiet_guards hc hx).1, fun a ha => ?_⟩
    obtain ⟨hlist, hafter⟩ := (quiet_guards hc hx).2 a ha
    rw [hafter, hlist]
    exact hc
  rcases h with rfl | hspent
  · induction inputs generalizing s with
    | nil =>
      rw [loop_nil]
      split_ifs
      · exact ⟨.nil, fun _ h => nomatch h⟩
      · exact quiet hc (outOfTurns_quiet s)
    | cons inp rest ih =>
      rw [loop_cons]
      split_ifs
      · refine Monitor.guards_bind (takeTurn_guarded s inp) fun halt t u hdone => ?_
        cases halt with
        | some reason => exact quiet hdone.1 (haltWith_quiet t reason)
        | none =>
          obtain rfl := hdone.2 rfl
          exact ih (held_none _)
      · exact quiet hc (outOfTurns_quiet s)
  · exact quiet hc (loop_spent hspent inputs)

end Loop

/-! ## The commands -/

/-- on the complete run `s`: a command that leaves the loop alone, starts it after new guidance, or starts it in vain -/
def Op.Settled (cfg : Cfg) (s : RunState) : Op → Prop
  | .commission _ _ => hasReport s = true ∨ Spent cfg.turnsMax s
  | .retry => (s.halt.elim "" Halt.reason) ∈ ["", "complete"] ∨ Spent cfg.turnsMax s
  | .resume guidance maxTurns =>
    (guidance.filter fun t => t ≠ "").isSome ∨ Spent (if maxTurns = 0 then cfg.turnsMax else maxTurns) s
  | _ => True

/-- the monitor is at rest, or holds the checklist while the loop is spent -/
structure Ready (limit : ℤ) (c : Option (List Item)) (s : RunState) : Prop where
  held : Held c s.checklist
  spent : c = none ∨ Spent limit s

section Commands

variable {P : Runtime} {cfg : Cfg} {c : Option (List Item)} {s : RunState} {limit : ℤ}

theorem Ready.same {t : RunState} (h : Ready limit c s) (hst : SameCourse s t) : Ready limit c t :=
  ⟨hst.checklist ▸ h.held, h.spent.imp_right fun hs => hs.same hst⟩

theorem delivery_quiet (P : Runtime) (cfg : Cfg) (s : RunState) (text halt : String) (mail : MailOutcome) :
    ∀ e ∈ (mailReport cfg s text halt mail).evs, Quiet s.checklist e := by
  intro e he
  cases mailReport_events (P := P) cfg s text halt mail e he with
  | save _ hsame => exact ⟨rfl, hsame.checklist⟩
  | mail => trivial

theorem report_quiet (P : Runtime) (cfg : Cfg) (s : RunState) (text halt : String) (key : Option String)
    (mail : MailOutcome) : ∀ e ∈ (report cfg s text halt key mail).evs, Quiet s.checklist e := by
  intro e he
  rcases List.mem_cons.1 he with rfl | he
  · exact ⟨rfl, rfl⟩
  · exact delivery_quiet P cfg (recordReport s text halt key) text halt mail e he

theorem finishPlain_quiet (P : Runtime) (cfg : Cfg) (key : Option String) (w : Work) (s : RunState) (halt : String) :
    ∀ e ∈ (finishPlain P cfg key w s halt).evs, Quiet s.checklist e :=
  finishPlain_all fun text => report_quiet P cfg s text halt key w.mail

theorem finish_quiet (P : Runtime) (cfg : Cfg) (key : Option String) (w : Work) (s : RunState) (halt : String) :
    ∀ e ∈ (finish P cfg key w s halt).evs, Quiet s.checklist e :=
  finish_all (fun _ => trivial) fun text => report_quiet P cfg s text halt key w.mail

/-- the loop and its report -/
theorem loop_report_guarded (h : Ready limit c s) (inputs : List TurnInput) {f : RunState → String → Call Unit}
    (hf : ∀ t r, ∀ e ∈ (f t r).evs, Quiet t.checklist e) :
    completion.Accepts c ((loop P cfg limit s inputs).bind f).evs := by
  have hloop : completion.Guards c (loop P cfg limit s inputs) fun _ t u => Held u t.checklist :=
    loop_guarded h.held h.spent inputs
  exact (Monitor.guards_bind (q := fun _ _ _ => True) hloop fun r t u hu =>
    ⟨(quiet_accepts hu (hf t r)).1, fun _ _ => trivial⟩).1

theorem initialize_quiet (w : Work) (s : RunState) :
    (initializeCommissionRun w s).Holds (Quiet s.checklist) (SameCourse s) := by
  unfold initializeCommissionRun
  split_ifs
  · exact saveThen_quiet rfl rfl (Exec.holds_done ⟨rfl, rfl, rfl⟩)
  · exact Exec.holds_done ⟨rfl, rfl, rfl⟩

theorem coordination_quiet (w : Work) (s : RunState) :
    (attachCloudCoordination w s).Holds (Quiet s.checklist) (SameCourse s) := by
  unfold attachCloudCoordination
  split_ifs
  · exact Exec.holds_done ⟨rfl, rfl, rfl⟩
  · cases w.coordination with
    | disabled => exact Exec.holds_done ⟨rfl, rfl, rfl⟩
    | accepted status => exact saveThen_quiet rfl rfl (Exec.holds_done ⟨rfl, rfl, rfl⟩)
    | failed required =>
      cases required with
      | true => exact saveThen_quiet rfl rfl (Exec.holds_done ⟨rfl, rfl, rfl⟩)
      | false => exact saveThen_quiet rfl rfl (Exec.holds_done ⟨rfl, rfl, rfl⟩)

theorem prepareMedia_quiet (w : Work) (s : RunState) :
    (prepareMedia w s).Holds (Quiet s.checklist) (SameCourse s) := by
  unfold prepareMedia
  split_ifs
  · exact saveThen_quiet rfl rfl (Exec.holds_done ⟨rfl, rfl, rfl⟩)
  · exact Exec.holds_done ⟨rfl, rfl, rfl⟩

/-- a quiet preparation, then what is accepted from any state that is ready -/
theorem prepared_guarded {α : Type} {x : Call α} {f : RunState → α → Call Unit} (h : Ready limit c s)
    (hx : x.Holds (Quiet s.checklist) (SameCourse s))
    (hf : ∀ t a, Ready limit c t → completion.Accepts c (f t a).evs) : completion.Accepts c (x.bind f).evs := by
  refine (Monitor.guards_bind (q := fun _ _ _ => True) (quiet_guards h.held hx) fun a t u hu => ?_).1
  obtain ⟨hsame, rfl⟩ := hu
  exact ⟨hf t a (h.same hsame), fun _ _ => trivial⟩

theorem commence_guarded (h : Ready cfg.turnsMax c s) (mid : Option String) (w : Work) :
    completion.Accepts c (commence P cfg mid w s).evs := by
  refine prepared_guarded h (initialize_quiet w s) fun s _ h =>
    prepared_guarded h (coordination_quiet w s) fun s ready h => ?_
  split_ifs
  · exact prepared_guarded h (prepareMedia_quiet w s) fun s _ h =>
      loop_report_guarded h w.turns fun t r => finish_quiet P cfg _ w t r
  · exact (quiet_accepts h.held (finishPlain_quiet P cfg _ w s _)).1

/-- a note on a complete run stops it or adds an open item -/
theorem applyHumanNote_complete {t : RunState} {text : String} (hdone : isComplete s.checklist = true)
    (h : applyHumanNote s text = .ok t) :
    (asksStop text = true ∧ t.checklist = s.checklist) ∨
      ∃ it, t.checklist = s.checklist ++ [it] ∧ isComplete t.checklist = false := by
  obtain ⟨-, hall⟩ := (isComplete_iff _).1 hdone
  have hnone : (s.checklist.any fun it => it.state = .blocked ∨ it.state = .disputed) = false := by
    rw [List.any_eq_false]
    intro it hit
    simp [hall it hit]
  unfold applyHumanNote at h
  simp only [hnone, hdone, if_true, Bool.false_eq_true, if_false] at h
  split_ifs at h with hstop
  · cases h
    exact Or.inl ⟨hstop, rfl⟩
  · obtain ⟨item, hitem, h⟩ := bind_ok h
    cases h
    refine Or.inr ⟨item, rfl, ?_⟩
    simp [isComplete, (revisionItem_spec hitem).1]

/-- the save of a note or guidance: the monitor comes to rest, or the note asks for a stop -/
theorem note_fine {t u : RunState} {text : String} {m : Mark} (hc : Held c s.checklist)
    (happ : applyHumanNote s text = .ok t) (hm : m.ofNote = true) (hlist : u.checklist = t.checklist) :
    completion.fine c (.save m u) ∧ Held (completion.next c (.save m u)) u.checklist ∧
      (completion.next c (.save m u) = none ∨ asksStop text = true) := by
  have hturn : m.ofTurn = false := by cases m <;> first | rfl | cases hm
  cases c with
  | none =>
    have hnext : completion.next none (.save m u) = none := by simp [completion, hturn]
    rw [hnext]
    exact ⟨trivial, held_none _, Or.inl rfl⟩
  | some items =>
    obtain ⟨rfl, hdone⟩ := hc items rfl
    rcases applyHumanNote_complete hdone happ with ⟨hstop, hsame⟩ | ⟨it, hadded, hopen⟩
    · obtain ⟨hfine, hnext⟩ := quiet_fine hc (e := .save m u) ⟨hturn, hlist.trans hsame⟩
      rw [hnext, hlist, hsame]
      exact ⟨hfine, hc, Or.inr hstop⟩
    · have hopen' : isComplete u.checklist = false := by rw [hlist, hopen]
      have hnext : completion.next (some s.checklist) (.save m u) = none := by
        simp [completion, Ev.revises, hm, hopen']
      rw [hnext]
      exact ⟨Or.inr ⟨hm, hopen', it, hlist.trans hadded⟩, held_none _, Or.inl rfl⟩

theorem noted_spec {t : RunState} {n : Note} (h : noted s n = .ok t) :
    ∃ u, applyHumanNote s n.text = .ok u ∧ t.checklist = u.checklist := by
  obtain ⟨u, hu, h⟩ := bind_ok h
  cases h
  refine ⟨u, hu, ?_⟩
  split <;> rfl

theorem stopNote_of {text : String} (h : s.humanNote = some text) (hstop : asksStop text = true) :
    (stopNote s).isSome := by
  simp [stopNote, h, Option.filter, hstop]

theorem redelivery_guarded (hc : Held c s.checklist) (text halt : String) (mail : MailOutcome) :
    completion.Accepts c (mailReport cfg s text halt mail).evs :=
  (quiet_accepts hc (delivery_quiet plainText cfg s text halt mail)).1

/-- a quiet save, then what is accepted after it -/
theorem save_guarded {α : Type} {m : Mark} {next : RunState → Call α} {items : List Item} (hc : Held c items)
    (hm : m.ofTurn = false) (hs : s.checklist = items) (h : completion.Accepts c (next s).evs) :
    completion.Accepts c (saveThen m s next).evs := by
  obtain ⟨hfine, hnext⟩ := quiet_fine hc (e := .save m s) ⟨hm, hs⟩
  exact .cons hfine (by rwa [hnext])

theorem attempt_guarded {β : Type} {x : Except Err β} {f : β → Call Unit}
    (hf : ∀ b, x = .ok b → completion.Accepts c (f b).evs) :
    completion.Accepts c (Exec.attempt s Exn.builtin x f).evs := by
  cases x with
  | ok b => exact hf b rfl
  | error e => exact .nil

theorem resumeLoop_guarded (h : Ready cfg.turnsMax c s) (n : Note) (w : Work) :
    completion.Accepts c (resumeLoop P cfg n w s).evs := by
  refine prepared_guarded h (prepareMedia_quiet w s) fun t _ ht => ?_
  have hquiet := quiet_accepts (l := [.resuming n.key]) ht.held (by simp [Quiet])
  rw [Exec.pre_evs, Monitor.accepts_append, hquiet.2]
  exact ⟨hquiet.1, loop_report_guarded ht w.turns fun t r => finish_quiet P cfg _ w t r⟩

theorem handleNote_guarded (hc : Held c s.checklist) (n : Note) (w : Work) :
    completion.Accepts c (handleNote P cfg n w s).evs := by
  unfold handleNote
  split
  · exact .nil
  · split
    · split
      · exact .nil
      · exact redelivery_guarded hc _ _ _
    · refine attempt_guarded fun t ht => ?_
      obtain ⟨u, happ, hlist⟩ := noted_spec ht
      obtain ⟨hfine, hheld, hrest⟩ := note_fine (m := .noteApplied n.key) hc happ rfl hlist
      refine .cons hfine ?_
      split
      · refine save_guarded hheld rfl rfl ?_
        exact (quiet_accepts hheld (finishPlain_quiet P cfg _ w
          { t with halt := some ⟨"stopped_by_human", n.text⟩ } _)).1
      · rename_i hstop
        exact resumeLoop_guarded ⟨hheld, Or.inl (hrest.resolve_right hstop)⟩ n w

/-- **One command.** It keeps to the monitor, if it is settled on a run the monitor holds. -/
theorem exec_guarded (hc : Held c s.checklist) (op : Op) (w : Work)
    (hop : isComplete s.checklist = true → op.Settled cfg s) : completion.Accepts c (op.exec P cfg w s).evs := by
  have ready : ∀ limit, (isComplete s.checklist = true → Spent limit s) → Ready limit c s := by
    intro limit h
    refine ⟨hc, ?_⟩
    cases c with
    | none => exact Or.inl rfl
    | some items => exact Or.inr (h (hc items rfl).2)
  cases op with
  | commission ws mid =>
    simp only [Op.exec, handleCommission]
    split
    · exact .nil
    · split
      · refine save_guarded hc rfl rfl ?_
        split
        · exact .nil
        · exact redelivery_guarded hc _ _ _
      · rename_i hrep
        have hready := ready cfg.turnsMax fun hdone => (hop hdone).resolve_left hrep
        exact commence_guarded (hready.same (t := { s with halt := none }) ⟨rfl, rfl, rfl⟩) mid w
  | note n => exact handleNote_guarded hc n w
  | stop detail => exact save_guarded hc rfl rfl (.nil)
  | retry =>
    simp only [Op.exec, cmdRetry]
    split
    · exact .nil
    · rename_i h hh
      split
      · exact .nil
      · rename_i hreason
        have hready := ready cfg.turnsMax fun hdone => (hop hdone).resolve_left (by simpa [hh] using hreason)
        refine save_guarded hc rfl rfl (loop_report_guarded
          (hready.same (t := { s with halt := none }) ⟨rfl, rfl, rfl⟩) w.turns fun t r => ?_)
        rw [unlessRefused_evs]
        exact finish_quiet P cfg _ w t r
  | resume guidance maxTurns =>
    have hloop : ∀ {c t}, Ready (if maxTurns = 0 then cfg.turnsMax else maxTurns) c t →
        completion.Accepts c ((loop P cfg (if maxTurns = 0 then cfg.turnsMax else maxTurns) t w.turns).bind
          fun s halt => unlessRefused (finish P cfg none w s halt)).evs := by
      intro c t ht
      refine loop_report_guarded ht w.turns fun t r => ?_
      rw [unlessRefused_evs]
      exact finish_quiet P cfg _ w t r
    simp only [Op.exec, cmdResume]
    split
    · refine attempt_guarded fun t ht => ?_
      obtain ⟨hfine, hheld, hrest⟩ := note_fine (m := .resumed) hc ht rfl rfl
      have hnote := (applyHumanNote_spec ht).2.2.1
      exact .cons hfine (hloop ⟨hheld, hrest.imp_right fun hstop => Or.inr (stopNote_of hnote hstop)⟩)
    · rename_i hnone
      exact hloop (ready _ fun hdone => (hop hdone).resolve_left fun h => by rw [hnone] at h; cases h)

end Commands

/-! ## Commands one after the other -/

/-- every command is settled on the file it finds, when the run is complete there -/
def SettledRun (P : Runtime) (cfg : Cfg) : RunState → List Job → Prop
  | _, [] => True
  | s, j :: js => (isComplete s.checklist = true → j.op.Settled cfg s) ∧ SettledRun P cfg (j.file P cfg s) js

section Session

variable {P : Runtime} {cfg : Cfg} {c : Option (List Item)} {s s₀ : RunState}

theorem session_guarded (jobs : List Job) (hc : Held c s.checklist) (h : SettledRun P cfg s jobs) :
    completion.Accepts c (session P cfg s jobs) := by
  induction jobs generalizing c s with
  | nil => exact .nil
  | cons j js ih =>
    have hfull := exec_guarded (P := P) hc j.op j.work h.1
    have hdone : completion.Accepts c (j.performed P cfg s) := by
      unfold Job.performed
      cases j.cut with
      | none => exact hfull
      | some n => exact hfull.take n
    exact (completion.accepts_append _ _ _).2 ⟨hdone, ih (completion_file hdone hc) h.2⟩

/-- from a completing turn on, the monitor holds its checklist until a note revises it -/
theorem completion_holds {front mid : List Ev} {m : Mark} {t : RunState} (hm : m.ofTurn = true)
    (ht : isComplete t.checklist = true) (hacc : completion.Accepts c (front ++ .save m t :: mid))
    (hmid : ∀ e ∈ mid, e.revises = false) :
    completion.after c (front ++ .save m t :: mid) = some t.checklist := by
  have stays : ∀ l : List Ev, (∀ e ∈ l, e.revises = false) → completion.after (some t.checklist) l = some t.checklist := by
    intro l hl
    induction l with
    | nil => rfl
    | cons e l ih =>
      have hnext : completion.next (some t.checklist) e = some t.checklist := by
        simp [completion, hl e List.mem_cons_self]
      rw [Monitor.after_cons, hnext]
      exact ih fun e he => hl e (List.mem_cons_of_mem _ he)
  have hturn : completion.next (completion.after c front) (.save m t) = some t.checklist := by
    have hfine := hacc.fine_at
    cases hafter : completion.after c front with
    | none => simp [completion, hm, ht]
    | some items =>
      have hnote : m.ofNote = false := by cases m <;> first | rfl | cases hm
      rw [hafter] at hfine
      rcases hfine with hitems | ⟨hnote', -⟩
      · simp [completion, Ev.revises, hnote, hitems]
      · rw [hnote] at hnote'
        cases hnote'
  rw [Monitor.after_append, Monitor.after_cons, hturn]
  exact stays mid hmid

/-- **Completion is stable.** In every sequence of commands, cut short anywhere, that are settled on the complete runs
they find: after an accepted turn that completed the checklist, and before a note revises it, no agent is called, and
every state saved has the same checklist, or this checklist with the item a note added. -/
theorem completion_stable {jobs : List Job} (h : SettledRun P cfg s₀ jobs) {front mid back : List Ev} {m : Mark}
    {t : RunState} {e : Ev} (hm : m.ofTurn = true) (ht : isComplete t.checklist = true)
    (hlog : session P cfg s₀ jobs = front ++ .save m t :: (mid ++ e :: back)) (hmid : ∀ e ∈ mid, e.revises = false) :
    (∀ p, e ≠ .dispatch p) ∧
      ∀ m' u, e = .save m' u → u.checklist = t.checklist ∨ (m'.ofNote = true ∧ ∃ it, u.checklist = t.checklist ++ [it]) := by
  have hacc := session_guarded jobs (held_none _) h
  have hsplit : session P cfg s₀ jobs = (front ++ .save m t :: mid) ++ e :: back := by
    rw [hlog, List.append_assoc, List.cons_append]
  rw [hsplit] at hacc
  have hfront := ((completion.accepts_append _ _ _).1 hacc).1
  have hfine := hacc.fine_at
  rw [completion_holds hm ht hfront hmid] at hfine
  refine ⟨fun p hp => ?_, fun m' u hu => ?_⟩
  · subst hp
    exact hfine
  · subst hu
    exact hfine.imp_right fun h => ⟨h.1, h.2.2⟩

end Session

/-! ## A completed run at work again -/

instance (limit : ℤ) (s : RunState) : Decidable (Spent limit s) := inferInstanceAs (Decidable (_ ∨ _))

instance (cfg : Cfg) (s : RunState) : (op : Op) → Decidable (op.Settled cfg s)
  | .commission _ _ => inferInstanceAs (Decidable (_ ∨ _))
  | .retry => inferInstanceAs (Decidable (_ ∨ _))
  | .resume _ _ => inferInstanceAs (Decidable (_ ∨ _))
  | .note _ => inferInstanceAs (Decidable True)
  | .stop _ => inferInstanceAs (Decidable True)

instance decidableSettledRun (P : Runtime) (cfg : Cfg) : (s : RunState) → (jobs : List Job) →
    Decidable (SettledRun P cfg s jobs)
  | _, [] => isTrue trivial
  | s, j :: js => @instDecidableAnd _ _ inferInstance (decidableSettledRun P cfg (j.file P cfg s) js)

/-- the commission delivered again, and a retry, after the run completed -/
def completedThen : List Job :=
  [completingJob, ⟨.commission none none, workOf [], none⟩, ⟨.retry, workOf [], none⟩]

/-- delivered again, the commission saves the checklist that the loop completed -/
theorem completion_stable_sample : ∃ front mid back t u,
    session plainText twoAgents newRun completedThen = front ++ .save .turn t :: (mid ++ .save .replay u :: back) ∧
      u.checklist = t.checklist := by
  refine ⟨[_, _, _, _, _], [_, _, _, _], [], _, _, rfl, ?_⟩
  have hstable := @completion_stable plainText twoAgents newRun completedThen (by decide)
    [_, _, _, _, _] [_, _, _, _] [] .turn _ _ rfl rfl rfl (by decide)
  exact (hstable.2 _ _ rfl).resolve_right fun h => nomatch h.1

/-- commissioned by mail, with updates to the human -/
def mailedAgents : Cfg := { twoAgents with mailEnabled := true }

/-- an agent's reply with this envelope, and what becomes of the turn's mail -/
def mailedReply (mail : MailOutcome) (env : Env) : TurnInput := { replyOf env with mail := mail }

/-- the mail of the turn that completes the checklist is refused, and the run is retried: agy calls the item blocked -/
def refusedThenRetried : List Job :=
  [⟨.commission none none,
    workOf
      [mailedReply (.sent "") (envelopeOf [(.str "c1", "open", .none)]),
       mailedReply (.sent "") (envelopeOf [(.str "c1", "awaiting-verification", .str "agy")]),
       mailedReply (.refused "daily ceiling") (envelopeOf [(.str "c1", "done", .str "agy")])], none⟩,
   ⟨.retry, workOf [mailedReply (.sent "") (envelopeOf [(.str "c1", "blocked", .str "agy")])], none⟩]

/-- **A completed run works on.** The completing turn's mail is refused, so the loop halts on the mail and not as
complete; a retry calls the next agent on the complete checklist, and the item leaves `done`. -/
theorem completion_broken : ∃ front mid back t p u,
    session plainText mailedAgents newRun refusedThenRetried =
      front ++ .save .sendBlocked t :: (mid ++ .dispatch p :: back) ∧
    isComplete t.checklist = true ∧ (∀ e ∈ mid, e.revises = false) ∧
    .save .turn u ∈ back ∧ isComplete u.checklist = false :=
  ⟨[_, _, _, _, _, _, _], [_, _, _, _], [_, _, _, _, _], _, _, _, rfl, by decide, by decide,
    List.mem_cons_of_mem _ List.mem_cons_self, by decide⟩

end Rally.Runner
