/-
The delivery of reports (`record_report` and `mail_report` of `src/runner.py`), over all commands, turns and crashes of
a run.

A report is recorded under the next generation, with a delivery record that names its key. A retry mails it under the
key on record. The record is settled once, and only the next report puts another in its place.

- `deliveries`: the monitor that follows the latest report and its delivery record through the events of a run.
- `exec_deliveries`: it accepts what every command makes visible.
- `report_once`: generations grow, each has one key, a settled delivery stays settled, and a provider that accepts a key
  once accepts each generation once.
-/
import Rally.Runner.Completion

namespace Rally.Runner

open Py Rally.Envelope Rally.Report

/-! ## The latest report -/

/-- what the state file says of the latest report -/
structure Slip where
  runId : String
  generation : ℕ
  text : Option String
  delivery : Option Delivery
deriving DecidableEq

def slip (s : RunState) : Slip := ⟨s.runId, s.reportGeneration, s.report, s.reportDelivery⟩

/-- a report is recorded under the next generation -/
def Slip.record (p : Slip) (text : String) (key : Option String) : Slip :=
  { p with
    generation := p.generation + 1, text := some text
    delivery := some ⟨.pending, p.generation + 1, reportKey p.runId (p.generation + 1), key, none⟩ }

/-- what a save that records no report may do to the latest one -/
inductive Slip.Moves : Slip → Slip → Prop where
  | stays (p : Slip) : p.Moves p
  /-- a delivery record for a report recorded without -/
  | adopt (p : Slip) (bare : p.delivery = none) :
    p.Moves { p with
      generation := max 1 p.generation
      delivery := some ⟨.pending, max 1 p.generation, reportKey p.runId (max 1 p.generation), none, none⟩ }
  | settle (p : Slip) (d : Delivery) (st : DeliveryStatus) (id : Option String) (found : p.delivery = some d)
      (unsettled : d.status = .pending) (settled : st = .delivered ∨ st = .notRequired) :
    p.Moves { p with delivery := some { d with status := st, providerMessageId := id } }

/-- what is fine where the latest report stands at `p`: a save that records the next one, any other that moves it, and
mail of its text under the key of its unsettled delivery -/
def Slip.Fine (p : Slip) : Ev → Prop
  | .save (.report _ key) t => ∃ text, slip t = p.record text key
  | .save _ t => p.Moves (slip t)
  | .send (.report _ _ text key) =>
    p.text = some text ∧ ∃ d, p.delivery = some d ∧ d.status = .pending ∧ d.idempotencyKey = key
  | _ => True

/-- the latest report, from save to save -/
def deliveries : Monitor Ev Slip where
  next p e := (e.saved.map slip).getD p
  fine p e := p.Fine e

theorem deliveries_after (s : RunState) (l : List Ev) : deliveries.after (slip s) l = slip (Exec.persist Ev.saved s l) := by
  induction l generalizing s with
  | nil => rfl
  | cons e l ih =>
    have hnext : deliveries.next (slip s) e = slip ((e.saved).getD s) := by
      simp only [deliveries]
      cases e.saved <;> rfl
    rw [Monitor.after_cons, hnext, ih]
    rfl

/-! ## What commands do to it -/

section Commands

variable {P : Runtime} {cfg : Cfg} {s t : RunState}

theorem applyHumanNote_slip {text : String} (h : applyHumanNote s text = .ok t) : slip t = slip s := by
  unfold applyHumanNote at h
  simp only at h
  split_ifs at h
  · cases h; rfl
  · cases h; rfl
  · obtain ⟨item, -, h⟩ := bind_ok h
    cases h; rfl
  · cases h; rfl

theorem startSecondWind_slip {kind fromActor detail : String} {ids : List Value} {made : Bool}
    (h : startSecondWind s cfg kind fromActor detail ids = .ok (made, t)) : slip t = slip s := by
  obtain ⟨c, -, h⟩ := bind_ok h
  split_ifs at h
  · cases h; rfl
  · obtain ⟨items, -, h⟩ := bind_ok h
    cases h; rfl

/-- an edit of the loop leaves the latest report alone -/
theorem loopEdit_slip (h : LoopEdit P cfg s t) : slip t = slip s := by
  cases h with
  | halt h => rfl
  | reprompt => rfl
  | notice escaped => cases escaped <;> rfl
  | review hfleet hrev =>
    obtain ⟨_, -, hrev⟩ := bind_ok hrev
    obtain ⟨_, -, hrev⟩ := bind_ok hrev
    obtain ⟨_, -, hrev⟩ := bind_ok hrev
    obtain ⟨_, -, hrev⟩ := bind_ok hrev
    obtain ⟨_, -, hrev⟩ := bind_ok hrev
    cases hrev
    rfl
  | failure hwind => exact startSecondWind_slip hwind
  | block hwind => exact startSecondWind_slip hwind
  | thread m => rfl
  | advance actor =>
    unfold advance
    obtain ⟨c, hc⟩ := finishSecondWind_spec
      { s with
        digestStreak := if digest P s.checklist = s.lastDigest then s.digestStreak + 1 else 0
        lastDigest := digest P s.checklist, turn := s.turn + 1, actor := nextActor s cfg actor } actor
    rw [hc]
    rfl

/-- so does any edit before a report -/
theorem workEdit_slip (h : WorkEdit P cfg s t) : slip t = slip s := by
  cases h with
  | loop hedit => exact loopEdit_slip hedit
  | workdir dir => rfl
  | coordinator status => rfl
  | note happ => exact applyHumanNote_slip happ

theorem workEdits_slip (h : WorkEdits P cfg s t) : slip t = slip s := by
  induction h with
  | refl => rfl
  | tail _ hedit ih => rw [workEdit_slip hedit, ih]

/-- work before a report is fine and moves nothing -/
theorem workSave_quiet {e : Ev} (h : WorkSave P cfg s e) :
    deliveries.fine (slip s) e ∧ deliveries.next (slip s) e = slip s := by
  cases e with
  | save m t =>
    obtain ⟨hm, ht⟩ := h
    have hslip := workEdits_slip ht
    refine ⟨?_, hslip⟩
    have hmoves : (slip s).Moves (slip t) := by rw [hslip]; exact .stays _
    cases m with
    | report _ _ => cases hm
    | _ => exact hmoves
  | send m => cases m with
    | update _ _ _ _ => exact ⟨trivial, rfl⟩
    | report _ _ _ _ => exact h.elim
  | dispatch p => exact ⟨trivial, rfl⟩
  | writeReport p => exact ⟨trivial, rfl⟩
  | resuming k => exact ⟨trivial, rfl⟩

/-- accepted, whatever the procedure ends with -/
abbrev Delivers (s : RunState) {α : Type} (x : Call α) : Prop := deliveries.Guards (slip s) x fun _ _ _ => True

/-- work, and then what follows it -/
theorem workThen_delivers {α β : Type} {x : Call α} {f : RunState → α → Call β} (hx : HoldsWork P cfg s x)
    (hf : ∀ t a, Delivers t (f t a)) : Delivers s (x.bind f) := by
  refine Monitor.guards_bind (Monitor.guards_of_holds hx fun e he => workSave_quiet he) ?_
  rintro a t p ⟨ht, rfl⟩
  rw [← workEdits_slip ht]
  exact hf t a

theorem done_delivers {α : Type} (a : α) : Delivers s (Exec.done s a : Call α) := Monitor.guards_done trivial

/-- a save that is fine, and then what follows it -/
theorem saveThen_delivers {α : Type} {m : Mark} {next : RunState → Call α} (hfine : (slip s).Fine (.save m t))
    (hnext : Delivers t (next t)) : Delivers s (saveThen m t next) :=
  Monitor.guards_pre (.single hfine) hnext

/-- a save of a state with the same report -/
theorem saveSame_delivers {α : Type} {m : Mark} {next : RunState → Call α} (hm : m.ofWork = true)
    (hslip : slip t = slip s) (hnext : Delivers t (next t)) : Delivers s (saveThen m t next) := by
  refine saveThen_delivers ?_ hnext
  have hmoves : (slip s).Moves (slip t) := by rw [hslip]; exact .stays _
  cases m with
  | report _ _ => cases hm
  | _ => exact hmoves

theorem deliver_delivers {text : String} (found : s.reportDelivery.isSome) (htext : s.report = some text) (halt : String)
    (mail : MailOutcome) : Delivers s (deliver cfg s text halt mail) := by
  obtain ⟨d, hd⟩ := Option.isSome_iff_exists.1 found
  have hof : deliveryOf s = d := by simp [deliveryOf, hd]
  unfold deliver
  rw [hof]
  dsimp only
  split_ifs with hover
  · exact done_delivers ()
  · have hpend : d.status = .pending := by
      cases hst : d.status <;> simp_all
    split
    · exact saveThen_delivers (.settle _ d _ _ hd hpend (Or.inr rfl)) (done_delivers ())
    · exact Monitor.guards_raise
    · exact Monitor.guards_raise
    · exact Monitor.guards_raise
    · exact Monitor.guards_raise
    · rename_i human id _
      have hmail : (slip s).Fine (.send (.report human (classify halt).1 text d.idempotencyKey)) :=
        ⟨htext, d, hd, hpend, rfl⟩
      refine Monitor.guards_pre (.single hmail) ?_
      exact saveThen_delivers (.settle _ d _ _ hd hpend (Or.inl rfl)) (done_delivers ())

theorem mailReport_delivers {text : String} (htext : s.report = some text) (halt : String) (mail : MailOutcome) :
    Delivers s (mailReport cfg s text halt mail) := by
  unfold mailReport
  split
  · rename_i d hd
    exact deliver_delivers (by rw [hd]; rfl) htext halt mail
  · rename_i hbare
    refine saveThen_delivers ?_ ?_
    · have hadopt := Slip.Moves.adopt (slip s) hbare
      simpa [Slip.Fine, slip, deliveryOf, hbare] using hadopt
    · apply deliver_delivers rfl
      exact htext

theorem report_delivers (s : RunState) (text halt : String) (key : Option String) (mail : MailOutcome) :
    Delivers s (report cfg s text halt key mail) :=
  saveThen_delivers ⟨text, rfl⟩ (mailReport_delivers rfl halt mail)

theorem finish_delivers (s : RunState) (key : Option String) (w : Work) (halt : String) :
    Delivers s (finish P cfg key w s halt) :=
  workThen_delivers (writeReport_holdsWork .refl halt w.report) fun t text => report_delivers t text halt key w.mail

theorem finishPlain_delivers (s : RunState) (key : Option String) (w : Work) (halt : String) :
    Delivers s (finishPlain P cfg key w s halt) :=
  workThen_delivers (@summaryText_holdsWork P cfg s s .refl halt) fun t text => report_delivers t text halt key w.mail

theorem unlessRefused_delivers {x : Call Unit} (h : Delivers s x) : Delivers s (unlessRefused x) := by
  refine ⟨?_, fun _ _ => trivial⟩
  rw [unlessRefused_evs]
  exact h.1

/-- the loop and its report -/
theorem loop_delivers (limit : ℤ) (inputs : List TurnInput) {f : RunState → String → Call Unit}
    (hf : ∀ t r, Delivers t (f t r)) : Delivers s ((loop P cfg limit s inputs).bind f) :=
  workThen_delivers (loop_holdsWork .refl limit inputs) hf

theorem commence_delivers (s : RunState) (messageId : Option String) (w : Work) :
    Delivers s (commence P cfg messageId w s) := by
  refine workThen_delivers (@initialize_holdsWork P cfg s s .refl w) fun t _ => ?_
  refine workThen_delivers (@attach_holdsWork P cfg t t .refl w) fun u ready => ?_
  split_ifs
  · refine workThen_delivers (@prepareMedia_holdsWork P cfg u u .refl w) fun v _ => ?_
    exact loop_delivers _ _ fun x r => finish_delivers x _ w r
  · exact finishPlain_delivers u _ w _

/-- the report on record is mailed again -/
theorem redelivery_delivers (hrep : hasReport s = true) (halt : String) (mail : MailOutcome) :
    Delivers s (mailReport cfg s (s.report.getD "") halt mail) := by
  apply mailReport_delivers
  unfold hasReport at hrep
  cases hs : s.report with
  | some text => rfl
  | none => rw [hs] at hrep; cases hrep

/-- **What a command does to the latest report** is accepted by the monitor. -/
theorem exec_deliveries (P : Runtime) (cfg : Cfg) (s : RunState) (w : Work) (op : Op) :
    Delivers s (op.exec P cfg w s) := by
  cases op with
  | commission ws mid =>
    simp only [Op.exec, handleCommission]
    split_ifs with hspace hrep
    · exact Monitor.guards_raise
    · refine saveSame_delivers rfl rfl ?_
      split_ifs
      · exact done_delivers ()
      · exact redelivery_delivers hrep _ _
    · exact commence_delivers { s with halt := none } mid w
  | note n =>
    simp only [Op.exec, handleNote]
    split_ifs with hsender hans hover hstop
    · exact Monitor.guards_raise
    · exact done_delivers ()
    · have hrep : hasReport s = true := by
        unfold answers at hans
        exact (Bool.and_eq_true_iff.1 hans).1
      exact redelivery_delivers hrep _ _
    · refine Monitor.guards_attempt fun t ht => ?_
      have hslip := workEdits_slip (@noted_work P cfg s s n t .refl ht)
      exact saveSame_delivers rfl hslip (saveSame_delivers rfl rfl (finishPlain_delivers _ _ w _))
    · refine Monitor.guards_attempt fun t ht => ?_
      have hslip := workEdits_slip (@noted_work P cfg s s n t .refl ht)
      refine saveSame_delivers rfl hslip (workThen_delivers (@prepareMedia_holdsWork P cfg t t .refl w) fun u _ => ?_)
      exact Monitor.guards_pre (.single trivial) (loop_delivers _ _ fun v r => finish_delivers v _ w r)
  | stop detail => exact saveSame_delivers rfl rfl (done_delivers ())
  | retry =>
    simp only [Op.exec, cmdRetry]
    split
    · exact done_delivers ()
    · split_ifs
      · exact done_delivers ()
      · exact saveSame_delivers rfl rfl (loop_delivers _ _ fun t r => unlessRefused_delivers (finish_delivers t _ w r))
  | resume guidance maxTurns =>
    simp only [Op.exec, cmdResume]
    split
    · refine Monitor.guards_attempt fun t ht => ?_
      exact saveSame_delivers rfl (applyHumanNote_slip ht)
        (loop_delivers _ _ fun t r => unlessRefused_delivers (finish_delivers t _ w r))
    · exact loop_delivers _ _ fun t r => unlessRefused_delivers (finish_delivers t _ w r)

theorem session_deliveries (jobs : List Job) : deliveries.Accepts (slip s) (session P cfg s jobs) := by
  refine session_accepts (r := fun p s => p = slip s) ?_ ?_ rfl
    (meets_always (fun _ _ => trivial) jobs : Meets P cfg (fun _ _ => True) s jobs)
  · rintro _ s op w rfl -
    exact (exec_deliveries P cfg s w op).1
  · rintro _ s e rfl -
    cases hs : e.saved <;> simp [deliveries, hs]

end Commands

/-! ## Deliveries of a run -/

/-- the generation of a report as it is recorded -/
def Ev.recorded : Ev → Option ℕ
  | .save (.report _ _) t => some t.reportGeneration
  | _ => none

/-- the generations recorded, in order -/
def generations (l : List Ev) : List ℕ := l.filterMap Ev.recorded

/-- the mails of reports handed to the provider: the generation on file at the time, and the key -/
def submissions (g : ℕ) : List Ev → List (ℕ × String)
  | [] => []
  | .save _ t :: l => submissions t.reportGeneration l
  | .send (.report _ _ _ key) :: l => (g, key) :: submissions g l
  | _ :: l => submissions g l

/-- the delivery record is that of the generation it stands beside -/
def Slip.Filed (p : Slip) : Prop :=
  ∀ d, p.delivery = some d → d.generation = p.generation ∧ d.idempotencyKey = reportKey p.runId p.generation

/-- a delivered or unneeded delivery -/
def Slip.Settled (p : Slip) : Prop := ∃ d, p.delivery = some d ∧ d.status ≠ .pending

theorem Slip.Moves.generation_le {p q : Slip} (h : p.Moves q) : p.generation ≤ q.generation := by
  cases h with
  | stays => exact le_rfl
  | adopt bare => exact le_max_right _ _
  | settle d st id found unsettled settled => exact le_rfl

theorem Slip.Moves.filed {p q : Slip} (h : p.Moves q) (hp : p.Filed) : q.runId = p.runId ∧ q.Filed := by
  cases h with
  | stays => exact ⟨rfl, hp⟩
  | adopt bare => exact ⟨rfl, fun d hd => by cases hd; exact ⟨rfl, rfl⟩⟩
  | settle d st id found unsettled settled =>
    refine ⟨rfl, fun d' hd' => ?_⟩
    cases hd'
    exact hp d found

theorem Slip.record_filed (p : Slip) (text : String) (key : Option String) :
    (p.record text key).runId = p.runId ∧ (p.record text key).Filed := by
  refine ⟨rfl, fun d hd => ?_⟩
  cases hd
  exact ⟨rfl, rfl⟩

/-- a settled delivery is left alone -/
theorem Slip.Moves.settled {p q : Slip} (h : p.Moves q) (hp : p.Settled) : q = p := by
  obtain ⟨d, hd, hst⟩ := hp
  cases h with
  | stays => rfl
  | adopt bare => rw [bare] at hd; cases hd
  | settle d' st id found unsettled settled =>
    rw [found] at hd
    cases hd
    exact absurd unsettled hst

/-- the three kinds of events: the next report is recorded, the latest one moves, or nothing is saved -/
theorem fine_cases {p : Slip} {e : Ev} (h : p.Fine e) :
    (∃ halt text key t, e = .save (.report halt key) t ∧ slip t = p.record text key) ∨
      (∃ m t, e = .save m t ∧ e.recorded = none ∧ p.Moves (slip t)) ∨
      (e.saved = none ∧ e.recorded = none ∧ deliveries.next p e = p) := by
  cases e with
  | save m t =>
    cases m with
    | report halt key =>
      obtain ⟨text, ht⟩ := h
      exact Or.inl ⟨halt, text, key, t, rfl, ht⟩
    | _ => exact Or.inr (Or.inl ⟨_, t, rfl, rfl, h⟩)
  | _ => exact Or.inr (Or.inr ⟨rfl, rfl, rfl⟩)

section Run

variable {p : Slip} {l : List Ev}

/-- **Generations grow**: those recorded, one after the other, and above the one on file. -/
theorem generations_increase (h : deliveries.Accepts p l) :
    (generations l).Pairwise (· < ·) ∧ ∀ g ∈ generations l, p.generation < g := by
  induction h with
  | nil => exact ⟨List.Pairwise.nil, by simp [generations]⟩
  | @cons p e l hfine _ ih =>
    obtain ⟨hpair, habove⟩ := ih
    rcases fine_cases hfine with ⟨halt, text, key, t, rfl, ht⟩ | ⟨m, t, rfl, hrec, hmoves⟩ | ⟨-, hrec, hnext⟩
    · have hgen : t.reportGeneration = p.generation + 1 := congrArg Slip.generation ht
      have hlist : generations (.save (.report halt key) t :: l) = t.reportGeneration :: generations l := rfl
      have habove' : ∀ g ∈ generations l, t.reportGeneration < g := habove
      rw [hlist]
      refine ⟨List.pairwise_cons.2 ⟨habove', hpair⟩, fun g hg => ?_⟩
      rcases List.mem_cons.1 hg with rfl | hg
      · omega
      · have := habove' g hg
        omega
    · have hlist : generations (.save m t :: l) = generations l := by simp [generations, hrec]
      rw [hlist]
      exact ⟨hpair, fun g hg => hmoves.generation_le.trans_lt (habove g hg)⟩
    · have hlist : generations (e :: l) = generations l := by simp [generations, hrec]
      rw [hlist]
      rw [hnext] at habove
      exact ⟨hpair, habove⟩

/-- the delivery record stays that of its generation -/
theorem fine_filed {e : Ev} (h : p.Fine e) (hp : p.Filed) :
    (deliveries.next p e).runId = p.runId ∧ (deliveries.next p e).Filed := by
  rcases fine_cases h with ⟨halt, text, key, t, rfl, ht⟩ | ⟨m, t, rfl, -, hmoves⟩ | ⟨-, -, hnext⟩
  · have hslip : deliveries.next p (.save (.report halt key) t) = slip t := rfl
    rw [hslip, ht]
    exact p.record_filed text key
  · exact hmoves.filed hp
  · rw [hnext]
    exact ⟨rfl, hp⟩

theorem after_filed (h : deliveries.Accepts p l) (hp : p.Filed) :
    (deliveries.after p l).runId = p.runId ∧ (deliveries.after p l).Filed := by
  induction h with
  | nil => exact ⟨rfl, hp⟩
  | cons hfine _ ih =>
    obtain ⟨hid, hfiled⟩ := fine_filed hfine hp
    obtain ⟨hid', hfiled'⟩ := ih hfiled
    exact ⟨hid'.trans hid, hfiled'⟩

theorem saves_filed (h : deliveries.Accepts p l) (hp : p.Filed) {e : Ev} (he : e ∈ l) {t : RunState}
    (ht : e.saved = some t) : t.runId = p.runId ∧ (slip t).Filed := by
  obtain ⟨front, back, rfl⟩ := List.append_of_mem he
  have hfine := h.fine_at
  obtain ⟨hid, hfiled⟩ := after_filed ((deliveries.accepts_append _ _ _).1 h).1 hp
  obtain ⟨hid', hfiled'⟩ := fine_filed hfine hfiled
  have hslip : deliveries.next (deliveries.after p front) e = slip t := by simp [deliveries, ht]
  rw [hslip] at hid' hfiled'
  exact ⟨hid'.trans hid, hfiled'⟩

/-- **Every mail of a generation has its key.** -/
theorem submissions_keyed (h : deliveries.Accepts p l) (hp : p.Filed) :
    ∀ x ∈ submissions p.generation l, x.2 = reportKey p.runId x.1 := by
  induction h with
  | nil => intro x hx; cases hx
  | @cons p e l hfine _ ih =>
    obtain ⟨hid, hfiled⟩ := fine_filed hfine hp
    have hrest := ih hfiled
    rw [hid] at hrest
    cases e with
    | save m t => exact hrest
    | send m => cases m with
      | update _ _ _ _ => exact hrest
      | report human st text key =>
        obtain ⟨-, d, hd, -, hkey⟩ := hfine
        intro x hx
        rcases List.mem_cons.1 hx with rfl | hx
        · rw [← hkey]
          exact (hp d hd).2
        · exact hrest x hx
    | dispatch _ => exact hrest
    | writeReport _ => exact hrest
    | resuming _ => exact hrest

/-- no generation comes back -/
theorem generations_le (h : deliveries.Accepts p l) :
    (∀ e ∈ l, ∀ t, e.saved = some t → p.generation ≤ t.reportGeneration) ∧
      ∀ x ∈ submissions p.generation l, p.generation ≤ x.1 := by
  induction h with
  | nil => exact ⟨fun _ he => (List.not_mem_nil he).elim, fun _ hx => (List.not_mem_nil hx).elim⟩
  | @cons p e l hfine _ ih =>
    have hle : p.generation ≤ (deliveries.next p e).generation := by
      rcases fine_cases hfine with ⟨halt, text, key, t, rfl, ht⟩ | ⟨m, t, rfl, -, hmoves⟩ | ⟨-, -, hnext⟩
      · have hslip : deliveries.next p (.save (.report halt key) t) = slip t := rfl
        rw [hslip, ht]
        exact Nat.le_succ _
      · exact hmoves.generation_le
      · rw [hnext]
    obtain ⟨hsaves, hmails⟩ := ih
    refine ⟨fun e' he' t ht => ?_, fun x hx => ?_⟩
    · rcases List.mem_cons.1 he' with rfl | he'
      · have hslip : deliveries.next p e' = slip t := by simp [deliveries, ht]
        rw [hslip] at hle
        exact hle
      · exact hle.trans (hsaves e' he' t ht)
    · cases e with
      | save m t => exact hle.trans (hmails x hx)
      | send m => cases m with
        | update _ _ _ _ => exact hmails x hx
        | report human st text key =>
          rcases List.mem_cons.1 hx with rfl | hx
          · exact le_rfl
          · exact hmails x hx
      | dispatch _ => exact hmails x hx
      | writeReport _ => exact hmails x hx
      | resuming _ => exact hmails x hx

/-- its generation is not touched any more: every later state has the same delivery record for it, or is past it, and
nothing is mailed for it -/
def Slip.Closed (p : Slip) (l : List Ev) : Prop :=
  (∀ e ∈ l, ∀ t, e.saved = some t → t.reportGeneration = p.generation → t.reportDelivery = p.delivery) ∧
    ∀ x ∈ submissions p.generation l, x.1 ≠ p.generation

/-- a settled delivery is absorbing -/
theorem settled_closed (h : deliveries.Accepts p l) (hp : p.Settled) : p.Closed l := by
  induction h with
  | nil => exact ⟨fun _ he => (List.not_mem_nil he).elim, fun _ hx => (List.not_mem_nil hx).elim⟩
  | @cons p e l hfine hrest ih =>
    rcases fine_cases hfine with ⟨halt, text, key, t, rfl, ht⟩ | ⟨m, t, rfl, -, hmoves⟩ | ⟨hsaved, -, hnext⟩
    · -- the next report: from here on its generation is passed
      have hgen : t.reportGeneration = p.generation + 1 := congrArg Slip.generation ht
      obtain ⟨hsaves, hmails⟩ := generations_le hrest
      have hsaves' : ∀ e ∈ l, ∀ u, e.saved = some u → t.reportGeneration ≤ u.reportGeneration := hsaves
      have hmails' : ∀ x ∈ submissions t.reportGeneration l, t.reportGeneration ≤ x.1 := hmails
      refine ⟨fun e he u hu hgu => ?_, fun x hx => ?_⟩
      · rcases List.mem_cons.1 he with rfl | he
        · cases hu
          omega
        · have := hsaves' e he u hu
          omega
      · have := hmails' x hx
        omega
    · have hsame : slip t = p := hmoves.settled hp
      have hclosed : (slip t).Closed l := ih (by rw [show deliveries.next p (.save m t) = p from hsame]; exact hp)
      rw [← hsame]
      refine ⟨fun e he u hu hgu => ?_, hclosed.2⟩
      rcases List.mem_cons.1 he with rfl | he
      · cases hu
        rfl
      · exact hclosed.1 e he u hu hgu
    · rw [hnext] at ih
      obtain ⟨hsaves, hmails⟩ := ih hp
      refine ⟨fun e' he' u hu hgu => ?_, ?_⟩
      · rcases List.mem_cons.1 he' with rfl | he'
        · rw [hsaved] at hu
          cases hu
        · exact hsaves e' he' u hu hgu
      · cases e with
        | save m t => cases hsaved
        | send m => cases m with
          | update _ _ _ _ => exact hmails
          | report human st text key =>
            obtain ⟨-, d, hd, hpend, -⟩ := hfine
            obtain ⟨d', hd', hst⟩ := hp
            rw [hd] at hd'
            cases hd'
            exact absurd hpend hst
        | dispatch _ => exact hmails
        | writeReport _ => exact hmails
        | resuming _ => exact hmails

end Run

/-! ## At most once -/

theorem reportKey_inj {runId : String} {g g' : ℕ} (h : reportKey runId g = reportKey runId g') : g = g' := by
  unfold reportKey at h
  have hlist := congrArg String.toList h
  simp only [String.toList_append, List.append_cancel_left_eq] at hlist
  exact toString_inj (String.toList_inj.1 hlist)

/-- what the events of a run that starts from `s` show of its deliveries -/
structure DeliveredOnce (s : RunState) (l : List Ev) : Prop where
  increasing : (generations l).Pairwise (· < ·) ∧ ∀ g ∈ generations l, s.reportGeneration < g
  /-- the key on record is that of the generation -/
  keyed : ∀ e ∈ l, ∀ t d, e.saved = some t → t.reportDelivery = some d →
    d.generation = t.reportGeneration ∧ d.idempotencyKey = reportKey s.runId t.reportGeneration
  /-- a mail carries the report on file, under the key of its generation -/
  mailed : ∀ front human st text key back, l = front ++ .send (.report human st text key) :: back →
    (Exec.persist Ev.saved s front).report = some text ∧
      key = reportKey s.runId (Exec.persist Ev.saved s front).reportGeneration
  distinct : ∀ g g', g ≠ g' → reportKey s.runId g ≠ reportKey s.runId g'
  absorbing : ∀ front m t back, l = front ++ .save m t :: back → deliverySettled t = true → (slip t).Closed back
  /-- whatever the provider accepts, if it accepts no key twice, it accepts no generation twice -/
  once : ∀ accepted : List (ℕ × String), accepted.Sublist (submissions s.reportGeneration l) →
    (accepted.map Prod.snd).Nodup → (accepted.map Prod.fst).Nodup

theorem settled_iff (s : RunState) : deliverySettled s = true ↔ (slip s).Settled := by
  unfold deliverySettled Slip.Settled slip
  cases hd : s.reportDelivery with
  | none => simp
  | some d => cases hst : d.status <;> simp [hst]

/-- **Each report is delivered at most once.** In every sequence of commands on a run, each cut short anywhere: report
generations grow, a generation has one key and no two have the same, a settled delivery is final, and a provider that
accepts no key twice accepts no generation twice. -/
theorem report_once {P : Runtime} {cfg : Cfg} {s : RunState} (hfiled : (slip s).Filed) (jobs : List Job) :
    DeliveredOnce s (session P cfg s jobs) := by
  have hacc := @session_deliveries P cfg s jobs
  have hkeyed := submissions_keyed hacc hfiled
  refine ⟨generations_increase hacc, ?_, ?_, ?_, ?_, ?_⟩
  · intro e he t d ht hd
    obtain ⟨hid, hf⟩ := saves_filed hacc hfiled he ht
    obtain ⟨hgen, hkey⟩ := hf d hd
    have hid' : (slip t).runId = s.runId := hid
    rw [hid'] at hkey
    exact ⟨hgen, hkey⟩
  · intro front human st text key back heq
    rw [heq] at hacc
    have hfine := hacc.fine_at
    obtain ⟨hid, hf⟩ := after_filed ((deliveries.accepts_append _ _ _).1 hacc).1 hfiled
    rw [deliveries_after] at hfine hid hf
    obtain ⟨htext, d, hd, -, hkey⟩ := hfine
    refine ⟨htext, ?_⟩
    have hid' : (slip (Exec.persist Ev.saved s front)).runId = s.runId := hid
    rw [← hid', ← hkey]
    exact (hf d hd).2
  · intro g g' hne h
    exact hne (reportKey_inj h)
  · intro front m t back heq hsettled
    rw [heq, Monitor.accepts_append, Monitor.accepts_cons] at hacc
    exact settled_closed hacc.2.2 ((settled_iff t).1 hsettled)
  · intro accepted hsub hnodup
    have hmap : accepted.map Prod.snd = (accepted.map Prod.fst).map (reportKey s.runId) := by
      rw [List.map_map]
      apply List.map_congr_left
      intro x hx
      exact hkeyed x (hsub.subset hx)
    rw [hmap] at hnodup
    exact hnodup.of_map

/-- an agent that fails at once -/
def failingTurn : TurnInput := ⟨.failed "exit 1", none, none, .broken⟩

/-- the commission is reported and the process dies before the provider's answer is saved; the commission comes again,
and then a retry -/
def reportedThrice : List Job :=
  let work : Work := { workOf [failingTurn] with mail := .sent "re_1" }
  [⟨.commission none none, work, some 6⟩, ⟨.commission none none, work, none⟩, ⟨.retry, work, none⟩]

/-- three mails for two reports: the first is submitted again under its key, the second under its own -/
theorem report_once_sample :
    submissions 0 (session plainText mailedAgents newRun reportedThrice) =
      [(1, "rally-final-report-r-1-1"), (1, "rally-final-report-r-1-1"), (2, "rally-final-report-r-1-2")] ∧
    DeliveredOnce newRun (session plainText mailedAgents newRun reportedThrice) := by
  refine ⟨by decide, report_once ?_ reportedThrice⟩
  intro d hd
  cases hd

end Rally.Runner
