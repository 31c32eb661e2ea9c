/-
What becomes of a human's guidance (`handle_note`, `apply_human_note` and `take_turn` of `src/runner.py`), over all
commands, turns and crashes of a run.

Guidance waits in one slot, `human_note`. Every prompt shows the slot and an accepted turn empties it; failed turns,
reprompts, handoffs and halts leave it alone. The next note takes the slot, whatever it holds.

- `guidance`: the monitor. It keeps the texts that no accepted turn has seen: every state saved shows them, and so does
  the prompt of the next accepted turn.
- `loop_guidance`: every loop keeps to it, whatever the agents reply.
- `guidance_kept`: so does every sequence of commands in which guidance is given only where none is lost by it.
- `guidance_overwritten`: a note, a failed turn and a second note. The next accepted turn never sees the first.
-/
import Rally.Runner.Completion
import Rally.Runner.Notes

namespace Rally.Runner

open Py Rally.Envelope Rally.Report

/-! ## The monitor -/

/-- what has become of the guidance of a run -/
structure Guidance where
  /-- applied, and in the prompt of no accepted turn yet -/
  pending : List String
  /-- what the last prompt says of the human -/
  shown : Option String
deriving DecidableEq

/-- a text as part of a note -/
def Shows (note : Option String) (text : String) : Prop := ∃ n, note = some n ∧ text.toList <:+: n.toList

/-- guidance in the slot that is no stop -/
def guides (s : RunState) : Option String := s.humanNote.filter fun text => !asksStop text

/-- an accepted turn is the end of what its prompt showed; guidance applied is yet to be shown -/
def Guidance.saved (g : Guidance) (m : Mark) (t : RunState) : Guidance :=
  if m.ofTurn then ⟨[], g.shown⟩ else if m.ofNote then ⟨g.pending ++ (guides t).toList, none⟩ else g

/-- the slot has whatever no accepted turn has seen, and a stop in it has overwritten none of that -/
structure Waits (g : Guidance) (s : RunState) : Prop where
  shows : ∀ text ∈ g.pending, Shows s.humanNote text
  stopped : ∀ text, s.humanNote = some text → asksStop text = true → g.pending = []

/-- the texts that no accepted turn has seen, and the last prompt -/
def guidance : Monitor Ev Guidance where
  next
    | g, .dispatch p => { g with shown := p.humanNote }
    | g, .save m t => g.saved m t
    | g, _ => g
  fine
    | g, .save m t => (m.ofTurn = true → ∀ text ∈ g.pending, Shows g.shown text) ∧ Waits (g.saved m t) t
    | _, _ => True

/-- an event that neither ends a turn nor applies guidance, and leaves the slot at `note` -/
def Hushed (note : Option String) : Ev → Prop
  | .dispatch _ => False
  | .save m t => m.ofTurn = false ∧ m.ofNote = false ∧ t.humanNote = note
  | _ => True

section Monitor

variable {g : Guidance} {s : RunState}

theorem shows_self (text : String) : Shows (some text) text := ⟨text, rfl, List.infix_rfl⟩

theorem waits_nil (shown : Option String) (s : RunState) : Waits ⟨[], shown⟩ s :=
  ⟨fun _ h => (List.not_mem_nil h).elim, fun _ _ _ => rfl⟩

theorem Waits.same {t : RunState} (h : Waits g s) (hnote : t.humanNote = s.humanNote) : Waits g t := by
  constructor
  · rw [hnote]
    exact h.shows
  · rw [hnote]
    exact h.stopped

theorem hushed_fine (h : Waits g s) {e : Ev} (he : Hushed s.humanNote e) : guidance.fine g e ∧ guidance.next g e = g := by
  cases e with
  | dispatch p => exact he.elim
  | save m t =>
    obtain ⟨hturn, hguides, hnote⟩ := he
    have hsaved : g.saved m t = g := by simp [Guidance.saved, hturn, hguides]
    refine ⟨⟨fun hm => ?_, ?_⟩, hsaved⟩
    · rw [hturn] at hm
      cases hm
    · rw [hsaved]
      exact h.same hnote
  | _ => exact ⟨trivial, rfl⟩

/-- a file that holds what is pending goes on to hold it -/
theorem waits_step {e : Ev} (h : Waits g s) (hfine : guidance.fine g e) : Waits (guidance.next g e) (e.saved.getD s) := by
  cases e with
  | save m t => exact hfine.2
  | dispatch p => exact ⟨h.shows, h.stopped⟩
  | _ => exact h

/-- a procedure that is hushed from `s` -/
abbrev HoldsNote (s : RunState) {α : Type} (x : Call α) : Prop :=
  x.Holds (Hushed s.humanNote) fun t => t.humanNote = s.humanNote

theorem hushed_guards {α : Type} {x : Call α} (h : Waits g s) (hx : HoldsNote s x) :
    guidance.Guards g x fun _ t u => Waits u t := by
  obtain ⟨hacc, hpost⟩ := Monitor.guards_of_holds hx fun e he => hushed_fine h he
  refine ⟨hacc, fun a ha => ?_⟩
  obtain ⟨hnote, hafter⟩ := hpost a ha
  rw [hafter]
  exact h.same hnote

theorem hushed_accepts {l : List Ev} (h : Waits g s) (hl : ∀ e ∈ l, Hushed s.humanNote e) : guidance.Accepts g l :=
  (Monitor.Accepts.of_all fun e he => hushed_fine h (hl e he)).1

end Monitor

/-! ## The loop -/

section Loop

variable {P : Runtime} {cfg : Cfg} {g : Guidance} {s : RunState}

/-- a save that is hushed, and then what follows it -/
theorem saveThen_hushed {α : Type} {m : Mark} {t : RunState} {next : RunState → Call α} (hturn : m.ofTurn = false)
    (hnote : m.ofNote = false) (hsame : t.humanNote = s.humanNote)
    (hnext : (next t).Holds (Hushed s.humanNote) fun t => t.humanNote = s.humanNote) : HoldsNote s (saveThen m t next) := by
  refine Exec.holds_pre (fun e he => ?_) hnext
  rw [List.mem_singleton.1 he]
  exact ⟨hturn, hnote, hsame⟩

theorem agentFailed_hushed (s : RunState) (detail : String) : HoldsNote s (agentFailed cfg s detail) := by
  refine Exec.holds_attempt rfl fun r hr => ?_
  obtain ⟨made, t⟩ := r
  have hsame := (startSecondWind_spec hr).2.2.1
  cases made with
  | true => exact saveThen_hushed rfl rfl hsame (Exec.holds_done hsame)
  | false => exact saveThen_hushed rfl rfl hsame (Exec.holds_done hsame)

theorem noEnvelope_hushed (s : RunState) : HoldsNote s (noEnvelope cfg s) := by
  refine saveThen_hushed rfl rfl rfl ?_
  split_ifs
  · exact agentFailed_hushed { s with reprompts := s.reprompts + 1, violations := [.noEnvelope] } _
  · exact Exec.holds_done rfl

theorem judge_hushed (s : RunState) (actor : String) : HoldsNote s (judge cfg s actor) := by
  have ended : ∀ r, HoldsNote s (.done s r : Call (Option String)) := fun r => Exec.holds_done rfl
  unfold judge
  simp only
  split_ifs
  · exact ended _
  · refine Exec.holds_attempt rfl fun r hr => ?_
    obtain ⟨made, t⟩ := r
    have hsame := (startSecondWind_spec hr).2.2.1
    cases made with
    | true => exact saveThen_hushed rfl rfl hsame (Exec.holds_done hsame)
    | false => exact Exec.holds_attempt hsame fun r _ => Exec.holds_done hsame
  · exact Exec.holds_attempt rfl fun r _ => ended _
  · exact ended _
  · exact ended _
  · exact ended _

/-- the save of an accepted turn: its prompt has shown what was pending -/
theorem turn_fine {m : Mark} {t : RunState} (hturn : m.ofTurn = true) (hshown : ∀ text ∈ g.pending, Shows g.shown text) :
    guidance.fine g (.save m t) ∧ guidance.next g (.save m t) = ⟨[], g.shown⟩ := by
  have hsaved : g.saved m t = ⟨[], g.shown⟩ := by simp [Guidance.saved, hturn]
  refine ⟨⟨fun _ => hshown, ?_⟩, hsaved⟩
  rw [hsaved]
  exact waits_nil _ _

theorem conclude_guidance (hshown : ∀ text ∈ g.pending, Shows g.shown text) (s : RunState) (actor : String)
    (narrative : Value) (mail : MailOutcome) :
    guidance.Guards g (conclude P cfg s actor narrative mail) fun _ t u => Waits u t := by
  unfold conclude
  split
  · rename_i evs t ht
    obtain ⟨-, hsend⟩ := mailTurn_spec ht
    have hmail : ∀ e ∈ evs, guidance.fine g e ∧ guidance.next g e = g := by
      intro e he
      obtain ⟨human, n, who, text, rfl⟩ := hsend e he
      exact ⟨trivial, rfl⟩
    obtain ⟨hacc, hafter⟩ := Monitor.Accepts.of_all hmail
    obtain ⟨hfine, hnext⟩ := @turn_fine g .turn (advance P cfg t actor) rfl hshown
    refine Monitor.guards_pre hacc ?_
    rw [hafter]
    refine Monitor.guards_pre (.single hfine) ?_
    rw [Monitor.after_cons, hnext]
    exact hushed_guards (waits_nil _ _) (judge_hushed _ actor)
  · rename_i text _
    obtain ⟨hfine, hnext⟩ := @turn_fine g .sendBlocked { s with halt := some ⟨"turn_budget", text⟩ } rfl hshown
    refine Monitor.guards_pre (.single hfine) (Monitor.guards_done ?_)
    rw [Monitor.after_cons, hnext]
    exact waits_nil _ _
  · exact Monitor.guards_raise

theorem promptFor_note {p : Prompt} (h : promptFor P cfg s = .ok p) : p.humanNote = s.humanNote := by
  obtain ⟨q, hq, h⟩ := bind_ok h
  split_ifs at h
  cases h
  obtain ⟨awaiting, -, hq⟩ := bind_ok hq
  cases hq
  rfl

theorem noticed_note (s : RunState) (escaped : Option (List String)) : (noticed s escaped).humanNote = s.humanNote := by
  cases escaped <;> rfl

/-- **A turn** shows the guidance to its agent; only if it is accepted does it take it off the run. -/
theorem takeTurn_guidance (h : Waits g s) (inp : TurnInput) :
    guidance.Guards g (takeTurn P cfg s inp) fun _ t u => Waits u t := by
  unfold takeTurn
  split
  · exact hushed_guards h (saveThen_hushed rfl rfl rfl (Exec.holds_done rfl))
  · refine Monitor.guards_attempt fun p hp => Monitor.guards_pre (.single trivial) ?_
    have hnext : guidance.after g [.dispatch p] = ⟨g.pending, s.humanNote⟩ := by
      rw [← promptFor_note hp]
      rfl
    rw [hnext]
    have hwaits : Waits ⟨g.pending, s.humanNote⟩ s := ⟨h.shows, h.stopped⟩
    unfold answered
    split
    · exact hushed_guards hwaits (agentFailed_hushed s _)
    · exact Monitor.guards_raise
    · have hnoticed := hwaits.same (noticed_note s inp.escaped)
      simp only
      split
      · exact hushed_guards hnoticed (noEnvelope_hushed _)
      · exact Monitor.guards_attempt fun r _ => @conclude_guidance P cfg ⟨g.pending, s.humanNote⟩ h.shows _ _ _ _

theorem loop_guidance (h : Waits g s) (limit : ℤ) (inputs : List TurnInput) :
    guidance.Guards g (loop P cfg limit s inputs) fun _ t u => Waits u t := by
  have ended : ∀ {g s m t r}, m.ofTurn = false → m.ofNote = false → Waits g s → t.humanNote = s.humanNote →
      guidance.Guards g (saveThen m t fun s => .done s r : Call String) fun _ t u => Waits u t :=
    fun hturn hnote h hsame => hushed_guards h (saveThen_hushed hturn hnote hsame (Exec.holds_done hsame))
  induction inputs generalizing g s with
  | nil =>
    rw [loop_nil]
    split_ifs
    · exact ⟨.nil, fun _ hr => nomatch hr⟩
    · exact ended rfl rfl h rfl
  | cons inp rest ih =>
    rw [loop_cons]
    split_ifs
    · refine Monitor.guards_bind (takeTurn_guidance h inp) fun halt t u hu => ?_
      cases halt with
      | some reason => exact ended rfl rfl hu rfl
      | none => exact ih hu
    · exact ended rfl rfl h rfl

end Loop

/-! ## The commands -/

/-- guidance over what waits in the slot: nothing does, or a stop, or its words are part of the new ones -/
def Fits (slot : Option String) (text : String) : Prop :=
  ∀ old, slot = some old → asksStop old = true ∨ (asksStop text = false ∧ old.toList <:+: text.toList)

/-- the command gives guidance, if any, only where none is lost by it -/
def Op.Fits (P : Runtime) (s : RunState) : Op → Prop
  | .note n =>
    address P s.commissionedBy ≠ "" → address P n.sender = address P s.commissionedBy → answers s n.key = false →
      Runner.Fits s.humanNote n.text
  | .resume (some text) _ => text ≠ "" → Runner.Fits s.humanNote text
  | _ => True

section Commands

variable {P : Runtime} {cfg : Cfg} {g : Guidance} {s : RunState}

theorem report_hushed (s : RunState) (text halt : String) (key : Option String) (mail : MailOutcome) :
    ∀ e ∈ (report cfg s text halt key mail).evs, Hushed s.humanNote e := by
  intro e he
  rcases List.mem_cons.1 he with rfl | he
  · exact ⟨rfl, rfl, rfl⟩
  · cases mailReport_events (P := plainText) cfg _ text halt mail e he with
    | save _ hsame => exact ⟨rfl, rfl, hsame.humanNote⟩
    | mail => trivial

theorem finishPlain_hushed (key : Option String) (w : Work) (s : RunState) (halt : String) :
    ∀ e ∈ (finishPlain P cfg key w s halt).evs, Hushed s.humanNote e :=
  finishPlain_all fun text => report_hushed s text halt key w.mail

theorem finish_hushed (key : Option String) (w : Work) (s : RunState) (halt : String) :
    ∀ e ∈ (finish P cfg key w s halt).evs, Hushed s.humanNote e :=
  finish_all (fun _ => trivial) fun text => report_hushed s text halt key w.mail

theorem redelivery_hushed (s : RunState) (text halt : String) (mail : MailOutcome) :
    ∀ e ∈ (mailReport cfg s text halt mail).evs, Hushed s.humanNote e := by
  intro e he
  cases mailReport_events (P := plainText) cfg s text halt mail e he with
  | save _ hsame => exact ⟨rfl, rfl, hsame.humanNote⟩
  | mail => trivial

theorem initialize_hushed (w : Work) (s : RunState) : HoldsNote s (initializeCommissionRun w s) := by
  unfold initializeCommissionRun
  split_ifs
  · exact saveThen_hushed rfl rfl rfl (Exec.holds_done rfl)
  · exact Exec.holds_done rfl

theorem attach_hushed (w : Work) (s : RunState) : HoldsNote s (attachCloudCoordination w s) := by
  unfold attachCloudCoordination
  split_ifs
  · exact Exec.holds_done rfl
  · split
    · exact Exec.holds_done rfl
    · exact saveThen_hushed rfl rfl rfl (Exec.holds_done rfl)
    · exact saveThen_hushed rfl rfl rfl (Exec.holds_done rfl)
    · exact saveThen_hushed rfl rfl rfl (Exec.holds_done rfl)

theorem prepareMedia_hushed (w : Work) (s : RunState) : HoldsNote s (prepareMedia w s) := by
  unfold prepareMedia
  split_ifs
  · exact saveThen_hushed rfl rfl rfl (Exec.holds_done rfl)
  · exact Exec.holds_done rfl

/-- accepted, whatever the command ends with -/
abbrev Guided (g : Guidance) {α : Type} (x : Call α) : Prop := guidance.Guards g x fun _ _ _ => True

/-- a hushed part, and then what follows it -/
theorem hushedThen_guided {α β : Type} {x : Call α} {f : RunState → α → Call β} (h : Waits g s) (hx : HoldsNote s x)
    (hf : ∀ t a u, Waits u t → Guided u (f t a)) : Guided g (x.bind f) :=
  Monitor.guards_bind (hushed_guards h hx) fun a t u hu => hf t a u hu

theorem saveThen_guided {α : Type} {m : Mark} {t : RunState} {next : RunState → Call α} (h : Waits g s)
    (hturn : m.ofTurn = false) (hnote : m.ofNote = false) (hsame : t.humanNote = s.humanNote)
    (hnext : Waits g t → Guided g (next t)) : Guided g (saveThen m t next) := by
  obtain ⟨hfine, hafter⟩ := hushed_fine h (e := .save m t) ⟨hturn, hnote, hsame⟩
  refine Monitor.guards_pre (.single hfine) ?_
  rw [Monitor.after_cons, hafter]
  exact hnext (h.same hsame)

theorem guided_of_hushed {α : Type} {x : Call α} (h : Waits g s) (hx : ∀ e ∈ x.evs, Hushed s.humanNote e) : Guided g x :=
  ⟨hushed_accepts h hx, fun _ _ => trivial⟩

/-- the loop and its report -/
theorem loop_guided (h : Waits g s) (limit : ℤ) (inputs : List TurnInput) {f : RunState → String → Call Unit}
    (hf : ∀ t r, ∀ e ∈ (f t r).evs, Hushed t.humanNote e) : Guided g ((loop P cfg limit s inputs).bind f) :=
  Monitor.guards_bind (loop_guidance h limit inputs) fun r t _ hu => guided_of_hushed hu (hf t r)

theorem commence_guided (h : Waits g s) (messageId : Option String) (w : Work) :
    Guided g (commence P cfg messageId w s) := by
  refine hushedThen_guided h (initialize_hushed w s) fun t _ u ht => ?_
  refine hushedThen_guided ht (attach_hushed w t) fun t ready u ht => ?_
  split_ifs
  · refine hushedThen_guided ht (prepareMedia_hushed w t) fun t _ u ht => ?_
    exact loop_guided ht _ _ fun x r => finish_hushed _ w x r
  · exact guided_of_hushed ht (finishPlain_hushed _ w t _)

/-- the save of guidance that fits: it waits with what was pending -/
theorem guide_fine {m : Mark} {t : RunState} {text : String} (h : Waits g s) (hm : m.ofNote = true)
    (hnote : t.humanNote = some text) (hfits : Fits s.humanNote text) :
    guidance.fine g (.save m t) ∧ Waits (guidance.next g (.save m t)) t := by
  have hturn : m.ofTurn = false := by cases m <;> first | rfl | cases hm
  have hguides : guides t = if asksStop text then none else some text := by
    cases hstop : asksStop text <;> simp [guides, hnote, Option.filter, hstop]
  have hsaved : g.saved m t = ⟨g.pending ++ (guides t).toList, none⟩ := by simp [Guidance.saved, hturn, hm]
  -- what was pending is part of the new text, or there was nothing
  have hpending : g.pending = [] ∨ (asksStop text = false ∧ ∀ x ∈ g.pending, Shows (some text) x) := by
    cases hslot : s.humanNote with
    | none =>
      left
      apply List.eq_nil_iff_forall_not_mem.2
      intro x hx
      obtain ⟨n, hn, -⟩ := h.shows x hx
      rw [hslot] at hn
      cases hn
    | some old =>
      rcases hfits old hslot with hstop | ⟨hgoes, hpart⟩
      · exact Or.inl (h.stopped old hslot hstop)
      · refine Or.inr ⟨hgoes, fun x hx => ?_⟩
        obtain ⟨n, hn, hx⟩ := h.shows x hx
        rw [hslot] at hn
        cases hn
        exact ⟨text, rfl, hx.trans hpart⟩
  have hwaits : Waits (g.saved m t) t := by
    rw [hsaved, hguides]
    constructor
    · intro x hx
      rw [hnote]
      rcases List.mem_append.1 hx with hx | hx
      · rcases hpending with hnil | ⟨-, hshows⟩
        · rw [hnil] at hx
          cases hx
        · exact hshows x hx
      · rw [Option.mem_toList] at hx
        split_ifs at hx
        cases hx
        exact shows_self text
    · intro n hn hstop
      rw [hnote] at hn
      cases hn
      rcases hpending with hnil | ⟨hgoes, -⟩
      · simp [hstop, hnil]
      · rw [hgoes] at hstop
        cases hstop
  refine ⟨⟨fun hm' => ?_, hwaits⟩, hwaits⟩
  rw [hturn] at hm'
  cases hm'

theorem noted_note {n : Note} {t : RunState} (h : noted s n = .ok t) : t.humanNote = some n.text := by
  obtain ⟨u, hu, h⟩ := bind_ok h
  have hnote := (applyHumanNote_spec hu).2.2.1
  cases h
  split
  · exact hnote
  · exact hnote

theorem handleNote_guided (h : Waits g s) (n : Note) (w : Work) (hfits : (Op.note n).Fits P s) :
    Guided g (handleNote P cfg n w s) := by
  unfold handleNote
  split_ifs with hsender hans hover hstop
  · exact Monitor.guards_raise
  · exact Monitor.guards_done trivial
  · exact guided_of_hushed h (redelivery_hushed s _ _ _)
  all_goals
    have hfits' : Fits s.humanNote n.text := by
      obtain ⟨hknown, hsame⟩ := not_or.1 hsender
      exact hfits hknown (not_not.1 hsame) (by simpa using hans)
  · refine Monitor.guards_attempt fun t ht => ?_
    obtain ⟨hfine, hwaits⟩ := guide_fine (m := .noteApplied n.key) h rfl (noted_note ht) hfits'
    refine Monitor.guards_pre (.single hfine) (saveThen_guided hwaits rfl rfl rfl fun hwaits => ?_)
    exact guided_of_hushed hwaits (finishPlain_hushed _ w _ _)
  · refine Monitor.guards_attempt fun t ht => ?_
    obtain ⟨hfine, hwaits⟩ := guide_fine (m := .noteApplied n.key) h rfl (noted_note ht) hfits'
    refine Monitor.guards_pre (.single hfine) (hushedThen_guided hwaits (prepareMedia_hushed w t) fun t _ u ht => ?_)
    exact Monitor.guards_pre (.single trivial) (loop_guided ht _ _ fun x r => finish_hushed _ w x r)

/-- **One command** keeps to the monitor, if its guidance fits. -/
theorem exec_guided (h : Waits g s) (op : Op) (w : Work) (hfits : op.Fits P s) : Guided g (op.exec P cfg w s) := by
  have looped : ∀ {u t} limit, Waits u t →
      Guided u ((loop P cfg limit t w.turns).bind fun s halt => unlessRefused (finish P cfg none w s halt)) := by
    intro u t limit ht
    refine loop_guided ht limit w.turns fun x r => ?_
    rw [unlessRefused_evs]
    exact finish_hushed _ w x r
  cases op with
  | commission ws mid =>
    simp only [Op.exec, handleCommission]
    split_ifs
    · exact Monitor.guards_raise
    · refine saveThen_guided h rfl rfl rfl fun _ => ?_
      split_ifs
      · exact Monitor.guards_done trivial
      · exact guided_of_hushed h (redelivery_hushed s _ _ _)
    · exact commence_guided (s := { s with halt := none }) (h.same rfl) mid w
  | note n => exact handleNote_guided h n w hfits
  | stop detail => exact saveThen_guided h rfl rfl rfl fun _ => Monitor.guards_done trivial
  | retry =>
    simp only [Op.exec, cmdRetry]
    split
    · exact Monitor.guards_done trivial
    · split_ifs
      · exact Monitor.guards_done trivial
      · exact saveThen_guided h rfl rfl rfl fun ht => looped _ ht
  | resume given maxTurns =>
    simp only [Op.exec, cmdResume]
    split
    · rename_i text htext
      obtain ⟨rfl, hne⟩ := Option.filter_eq_some_iff.1 htext
      refine Monitor.guards_attempt fun t ht => ?_
      have hnote := (applyHumanNote_spec ht).2.2.1
      obtain ⟨hfine, hwaits⟩ := guide_fine (m := .resumed) h rfl hnote (hfits (by simpa using hne))
      exact Monitor.guards_pre (.single hfine) (looped _ hwaits)
    · exact looped _ h

theorem session_guidance {jobs : List Job}
    (hfits : Meets P cfg (fun s op => op.Fits P s) s jobs) : guidance.Accepts ⟨[], none⟩ (session P cfg s jobs) :=
  session_accepts (r := Waits) (fun _ _ op w h hop => (exec_guided h op w hop).1) (fun _ _ _ => waits_step)
    (waits_nil none s) hfits

end Commands

/-! ## Guidance of a run -/

/-- the event saves an accepted turn -/
def Ev.endsTurn : Ev → Bool
  | .save m _ => m.ofTurn
  | _ => false

def Ev.prompt : Ev → Option Prompt
  | .dispatch p => some p
  | _ => none

/-- the last prompt -/
def lastPrompt (l : List Ev) : Option Prompt := (l.filterMap Ev.prompt).getLast?

section Run

variable {g : Guidance} {mid : List Ev}

/-- guidance stays pending until a turn is accepted -/
theorem pending_stays (hmid : ∀ e ∈ mid, e.endsTurn = false) {text : String} (h : text ∈ g.pending) :
    text ∈ (guidance.after g mid).pending := by
  induction mid generalizing g with
  | nil => exact h
  | cons e l ih =>
    refine ih (fun e he => hmid e (List.mem_cons_of_mem _ he)) ?_
    have hturn := hmid e List.mem_cons_self
    cases e with
    | save m t =>
      have hm : m.ofTurn = false := hturn
      simp only [guidance, Guidance.saved, hm, Bool.false_eq_true, if_false]
      split_ifs
      · exact List.mem_append_left _ h
      · exact h
    | _ => exact h

/-- what was shown since is what the last prompt says -/
theorem shown_since (hg : g.shown = none) (hmid : ∀ e ∈ mid, e.endsTurn = false) {n : String}
    (h : (guidance.after g mid).shown = some n) : ∃ p, lastPrompt mid = some p ∧ p.humanNote = some n := by
  induction mid using List.reverseRecOn with
  | nil =>
    rw [Monitor.after_nil, hg] at h
    cases h
  | append_singleton l e ih =>
    have hfront : ∀ e ∈ l, e.endsTurn = false := fun e he => hmid e (List.mem_append_left _ he)
    have hturn := hmid e (by simp)
    rw [Monitor.after_append, Monitor.after_cons, Monitor.after_nil] at h
    cases e with
    | dispatch p => exact ⟨p, by simp [lastPrompt, Ev.prompt], h⟩
    | save m t =>
      have hm : m.ofTurn = false := hturn
      simp only [guidance, Guidance.saved, hm, Bool.false_eq_true, if_false] at h
      split_ifs at h
      obtain ⟨p, hp, hn⟩ := ih hfront h
      exact ⟨p, by simpa [lastPrompt, Ev.prompt] using hp, hn⟩
    | _ =>
      obtain ⟨p, hp, hn⟩ := ih hfront h
      exact ⟨p, by simpa [lastPrompt, Ev.prompt] using hp, hn⟩

end Run

/-- **Guidance is kept** in every sequence of commands, cut short anywhere, in which guidance is given only where it
fits: until the next accepted turn every state saved has the text of a note, and that turn's prompt shows it. -/
theorem guidance_kept {P : Runtime} {cfg : Cfg} {s₀ : RunState} {jobs : List Job}
    (hfits : Meets P cfg (fun s op => op.Fits P s) s₀ jobs) {front mid back : List Ev} {m : Mark} {t : RunState}
    {e : Ev} {text : String} (hm : m.ofNote = true) (htext : t.humanNote = some text) (hstop : asksStop text = false)
    (hlog : session P cfg s₀ jobs = front ++ .save m t :: (mid ++ e :: back)) (hmid : ∀ e ∈ mid, e.endsTurn = false) :
    (e.endsTurn = true → ∃ p, lastPrompt mid = some p ∧ Shows p.humanNote text) ∧
      (e.endsTurn = false → ∀ u, e.saved = some u → Shows u.humanNote text) := by
  have hacc := session_guidance hfits
  rw [hlog, Monitor.accepts_append, Monitor.accepts_cons] at hacc
  have hfine := hacc.2.2.fine_at
  -- the monitor once the note is applied
  have hturn : m.ofTurn = false := by cases m <;> first | rfl | cases hm
  have hnext : ∀ g : Guidance, guidance.next g (.save m t) = ⟨g.pending ++ [text], none⟩ := by
    intro g
    simp [guidance, Guidance.saved, hturn, hm, guides, htext, Option.filter, hstop]
  rw [hnext] at hfine
  generalize hg : (⟨(guidance.after ⟨[], none⟩ front).pending ++ [text], none⟩ : Guidance) = g at hfine
  have hpending : text ∈ (guidance.after g mid).pending := pending_stays hmid (by rw [← hg]; simp)
  constructor
  · intro hends
    cases e with
    | save m' u =>
      obtain ⟨n, hn, hpart⟩ := hfine.1 hends text hpending
      obtain ⟨p, hp, hnote⟩ := shown_since (by rw [← hg]) hmid hn
      exact ⟨p, hp, n, hnote, hpart⟩
    | _ => cases hends
  · intro hends u hu
    cases e with
    | save m' u' =>
      cases hu
      have hm' : m'.ofTurn = false := hends
      refine hfine.2.shows text ?_
      simp only [Guidance.saved, hm', Bool.false_eq_true, if_false]
      split_ifs
      · exact List.mem_append_left _ hpending
      · exact hpending
    | _ => cases hu

/-! ## Guidance lost -/

instance : (slot : Option String) → (text : String) → Decidable (Fits slot text)
  | none, _ => isTrue fun _ h => nomatch h
  | some old, text =>
    decidable_of_iff (asksStop old = true ∨ (asksStop text = false ∧ old.toList <:+: text.toList))
      ⟨fun h _ hold => by cases hold; exact h, fun h => h old rfl⟩

instance (P : Runtime) (s : RunState) : (op : Op) → Decidable (op.Fits P s)
  | .note n =>
    inferInstanceAs (Decidable (address P s.commissionedBy ≠ "" → address P n.sender = address P s.commissionedBy →
      answers s n.key = false → Fits s.humanNote n.text))
  | .resume (some text) _ => inferInstanceAs (Decidable (text ≠ "" → Fits s.humanNote text))
  | .resume none _ => inferInstanceAs (Decidable True)
  | .commission _ _ => inferInstanceAs (Decidable True)
  | .stop _ => inferInstanceAs (Decidable True)
  | .retry => inferInstanceAs (Decidable True)

/-- a turn whose agent fails -/
def failedTurn : TurnInput := ⟨.failed "exit 1", none, none, .broken⟩

/-- claude scopes one item -/
def scopedTurn : TurnInput := replyOf (envelopeOf [(.str "c1", "open", .none)])

/-- a note to a run on which every agent fails, and a retry that gets through -/
def notedThenRetried : List Job :=
  [⟨.commission none none, workOf [failedTurn], none⟩, ⟨.note firstNote, workOf [failedTurn], none⟩,
   ⟨.retry, workOf [scopedTurn], none⟩]

/-- the retry's accepted turn has the note in its prompt -/
theorem guidance_kept_sample : ∃ front mid back t u p,
    session plainText twoAgents newRun notedThenRetried =
      front ++ .save (.noteApplied "n1") t :: (mid ++ .save .turn u :: back) ∧
    lastPrompt mid = some p ∧ Shows p.humanNote "add a chart" := by
  have hkept := @guidance_kept plainText twoAgents newRun notedThenRetried (by decide) [_, _, _, _, _, _]
    [_, _, _, _, _, _, _, _, _] [] (.noteApplied "n1") _ (.save .turn _) "add a chart" rfl rfl (by decide) rfl (by decide)
  obtain ⟨p, hp, hshows⟩ := hkept.1 rfl
  exact ⟨[_, _, _, _, _, _], [_, _, _, _, _, _, _, _, _], [], _, _, p, rfl, hp, hshows⟩

/-- and one with a second note before the agents get through -/
def notedTwice : List Job :=
  [⟨.commission none none, workOf [failedTurn], none⟩, ⟨.note firstNote, workOf [failedTurn], none⟩,
   ⟨.note secondNote, workOf [scopedTurn], none⟩]

/-- **A note is overwritten.** Its turn fails and a second note comes: that takes the slot, and the prompt of the next
accepted turn does not have the first. -/
theorem guidance_overwritten : ∃ front mid back t u p,
    session plainText twoAgents newRun notedTwice =
      front ++ .save (.noteApplied "n1") t :: (mid ++ .save .turn u :: back) ∧
    t.humanNote = some "add a chart" ∧ asksStop "add a chart" = false ∧ (∀ e ∈ mid, e.endsTurn = false) ∧
    lastPrompt mid = some p ∧ ¬ Shows p.humanNote "add a chart" := by
  refine ⟨[_, _, _, _, _, _], [_, _, _, _, _, _, _, _, _, _], [], _, _, _, rfl, rfl, by decide, by decide, rfl, ?_⟩
  rintro ⟨n, hn, hpart⟩
  obtain rfl : "add a legend" = n := Option.some.inj hn
  exact absurd hpart (by decide)

end Rally.Runner
