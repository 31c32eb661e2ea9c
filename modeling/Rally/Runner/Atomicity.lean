/-
What a turn leaves behind (`take_turn` of `src/runner.py`): nothing of it where the agent fails or answers without an
envelope, and all of it where the turn is accepted, as far as the mail of the turn lets it.

- `failed_turn_frame`: a failed turn, whatever follows it, leaves the checklist, the turns, the digest and the note of
  the human as they were.
- `turn_whole`: an accepted turn is saved as a whole or not at all, exactly where its update is not refused, and the
  turns on record are numbered upwards in every run in which no update is refused.
- `turn_halved`: a turn whose update is refused is saved with the old turn counter, and a retry records the number again.
-/
import Rally.Runner.Custody

namespace Rally.Runner

open Py Rally.Envelope Rally.Report

/-! ## Failed turns -/

/-- the envelope in a reply, if the agent gave one -/
def Reply.envelope : Reply → Option Env
  | .failed _ => none
  | .raised _ => none
  | .replied env => env

/-- what accepted turns have made of the run, and the note for the next one -/
structure SameAccepted (s t : RunState) : Prop where
  checklist : t.checklist = s.checklist
  turn : t.turn = s.turn
  turns : t.turns = s.turns
  lastDigest : t.lastDigest = s.lastDigest
  digestStreak : t.digestStreak = s.digestStreak
  humanNote : t.humanNote = s.humanNote

/-- a call that saves and leaves in memory nothing but states with the accepted part of `s` -/
abbrev Frames (s : RunState) {α : Type} (x : Call α) : Prop :=
  x.Holds (fun e => ∀ t, e.saved = some t → SameAccepted s t) (SameAccepted s)

section Failed

variable {P : Runtime} {cfg : Cfg} {s₀ s : RunState}

theorem SameAccepted.refl (s : RunState) : SameAccepted s s := ⟨rfl, rfl, rfl, rfl, rfl, rfl⟩

theorem SameAccepted.trans {t u : RunState} (h : SameAccepted s t) (h' : SameAccepted t u) : SameAccepted s u where
  checklist := h'.checklist.trans h.checklist
  turn := h'.turn.trans h.turn
  turns := h'.turns.trans h.turns
  lastDigest := h'.lastDigest.trans h.lastDigest
  digestStreak := h'.digestStreak.trans h.digestStreak
  humanNote := h'.humanNote.trans h.humanNote

theorem SameAccepted.halted (h : SameAccepted s₀ s) (halt : Option Halt) : SameAccepted s₀ { s with halt := halt } :=
  ⟨h.checklist, h.turn, h.turns, h.lastDigest, h.digestStreak, h.humanNote⟩

theorem startSecondWind_accepted {t : RunState} {kind fromActor detail : String} {ids : List Value} {made : Bool}
    (h : startSecondWind s cfg kind fromActor detail ids = .ok (made, t)) : SameAccepted s t := by
  obtain ⟨c, -, h⟩ := bind_ok h
  split_ifs at h
  · cases h
    exact ⟨rfl, rfl, rfl, rfl, rfl, rfl⟩
  · obtain ⟨items, -, h⟩ := bind_ok h
    cases h
    exact ⟨rfl, rfl, rfl, rfl, rfl, rfl⟩

theorem saveThen_frames {α : Type} {m : Mark} {next : RunState → Call α} (hs : SameAccepted s₀ s)
    (hnext : Frames s₀ (next s)) : Frames s₀ (saveThen m s next) := by
  refine Exec.holds_pre (fun e he t ht => ?_) hnext
  rw [List.mem_singleton.1 he] at ht
  cases ht
  exact hs

theorem agentFailed_frames (hs : SameAccepted s₀ s) (detail : String) : Frames s₀ (agentFailed cfg s detail) := by
  refine Exec.holds_attempt hs fun r hr => ?_
  obtain ⟨made, t⟩ := r
  have ht := hs.trans (startSecondWind_accepted hr)
  cases made with
  | true => exact saveThen_frames ht (Exec.holds_done ht)
  | false => exact saveThen_frames (ht.halted _) (Exec.holds_done (ht.halted _))

theorem noEnvelope_frames (hs : SameAccepted s₀ s) : Frames s₀ (noEnvelope cfg s) := by
  have ht : SameAccepted s₀ { s with reprompts := s.reprompts + 1, violations := [.noEnvelope] } :=
    ⟨hs.checklist, hs.turn, hs.turns, hs.lastDigest, hs.digestStreak, hs.humanNote⟩
  refine saveThen_frames ht ?_
  split_ifs
  · exact agentFailed_frames ht _
  · exact Exec.holds_done ht

/-- **A failed turn leaves no trace** in what earlier turns were accepted for: whether it is asked again, handed to the
backup or halted on, every state it saves, and the one it ends with, has the checklist, the turn counter, the turns, the
digest and the pending note of the state before. -/
theorem failed_turn_frame (P : Runtime) (cfg : Cfg) (s : RunState) (inp : TurnInput) (hfailed : inp.reply.envelope = none) :
    (∀ e ∈ (takeTurn P cfg s inp).evs, ∀ t, e.saved = some t → SameAccepted s t) ∧
      SameAccepted s (takeTurn P cfg s inp).mem := by
  have hall : Frames s (takeTurn P cfg s inp) := by
    unfold takeTurn
    split
    · exact saveThen_frames ((SameAccepted.refl s).halted _) (Exec.holds_done ((SameAccepted.refl s).halted _))
    · refine Exec.holds_attempt (.refl s) fun p _ => Exec.holds_pre (by simp [Ev.saved]) ?_
      unfold answered
      split
      · exact agentFailed_frames (.refl s) _
      · exact Exec.holds_raise (.refl s)
      · rename_i env henv
        rw [henv] at hfailed
        obtain rfl : env = none := hfailed
        have hnoticed : SameAccepted s (noticed s inp.escaped) := by
          cases inp.escaped <;> exact ⟨rfl, rfl, rfl, rfl, rfl, rfl⟩
        exact noEnvelope_frames hnoticed
  exact hall

end Failed

/-- claude has an item in work, was asked once more, and the human asked for something -/
def askedOnce : RunState :=
  { newRun with
    checklist := [⟨.str "c1", .str "", .claimed, .str "claude", .none, .none, 1⟩], humanNote := some "keep the API"
    reprompts := 1 }

/-- no envelope again, and the halt -/
theorem failed_turn_frame_sample :
    (takeTurn plainText twoAgents askedOnce ⟨.replied none, none, none, .broken⟩).mem.halt.map (fun h => h.reason) =
      some "agent_error" ∧
    SameAccepted askedOnce (takeTurn plainText twoAgents askedOnce ⟨.replied none, none, none, .broken⟩).mem :=
  ⟨by decide, (failed_turn_frame plainText twoAgents askedOnce ⟨.replied none, none, none, .broken⟩ rfl).2⟩

/-! ## Accepted turns -/

/-- nothing of the turn -/
structure Before (s t : RunState) : Prop where
  checklist : t.checklist = s.checklist
  turns : t.turns = s.turns
  turn : t.turn = s.turn
  actor : t.actor = s.actor
  lastDigest : t.lastDigest = s.lastDigest
  digestStreak : t.digestStreak = s.digestStreak
  continuity : t.continuity = s.continuity

/-- the record of handoffs, with the one in force for the turn finished; a blocked item may start the next one -/
def Finished (cfg : Cfg) (actor : String) (u t : RunState) : Prop :=
  t.continuity = (finishSecondWind u actor).continuity ∨
    ∃ w detail ids, w.continuity = (finishSecondWind u actor).continuity ∧
      startSecondWind w cfg "blocked" actor detail ids = .ok (true, t)

/-- all of the turn that the review of `s` made `u` of -/
structure After (P : Runtime) (cfg : Cfg) (s u t : RunState) : Prop where
  checklist : t.checklist = u.checklist
  turns : t.turns = u.turns
  turn : t.turn = s.turn + 1
  actor : t.actor = nextActor s cfg s.actor
  lastDigest : t.lastDigest = digest P u.checklist
  digestStreak : t.digestStreak = if digest P u.checklist = s.lastDigest then s.digestStreak + 1 else 0
  finished : Finished cfg s.actor u t

/-- every state the call saves has the turn as a whole or not at all -/
def Whole (P : Runtime) (cfg : Cfg) (s u : RunState) {α : Type} (x : Call α) : Prop :=
  ∀ e ∈ x.evs, ∀ t, e.saved = some t → Before s t ∨ After P cfg s u t

section Accepted

variable {P : Runtime} {cfg : Cfg} {s t u v : RunState} {actor : String} {env : Env} {commit : Option String}
  {narrative : Value}

/-- the fields of the turn that its review leaves to the guards after it, and the record it adds -/
structure Reviewed (s u : RunState) : Prop where
  turn : u.turn = s.turn
  agentOrder : u.agentOrder = s.agentOrder
  lastDigest : u.lastDigest = s.lastDigest
  digestStreak : u.digestStreak = s.digestStreak
  commissionedBy : u.commissionedBy = s.commissionedBy
  recorded : ∃ r, u.turns = s.turns ++ [r] ∧ r.turn = s.turn

theorem review_reviewed (h : review P cfg s actor env commit = .ok (u, narrative)) : Reviewed s u := by
  obtain ⟨problems, -, h⟩ := bind_ok h
  obtain ⟨c, hc, h⟩ := bind_ok h
  obtain ⟨accepted, -, h⟩ := bind_ok h
  obtain ⟨changes, -, h⟩ := bind_ok h
  obtain ⟨text, -, h⟩ := bind_ok h
  cases h
  exact ⟨rfl, rfl, rfl, rfl, rfl, _, rfl, rfl⟩

theorem Reviewed.noticed {escaped : Option (List String)} (h : Reviewed (noticed s escaped) u) : Reviewed s u := by
  cases escaped
  · exact h
  · exact ⟨h.turn, h.agentOrder, h.lastDigest, h.digestStreak, h.commissionedBy, h.recorded⟩

/-- the next in the rotation is told by the order of the run alone -/
theorem nextActor_congr (h : u.agentOrder = s.agentOrder) (actor : String) : nextActor u cfg actor = nextActor s cfg actor := by
  unfold nextActor runAgentOrder
  rw [h]

/-- `finish_second_wind` reads the checklist and the record of handoffs, and writes the record -/
theorem finish_fields (s : RunState) (actor : String) : (finishSecondWind s actor).checklist = s.checklist ∧
    (finishSecondWind s actor).turns = s.turns ∧ (finishSecondWind s actor).turn = s.turn ∧
      (finishSecondWind s actor).actor = s.actor ∧ (finishSecondWind s actor).agentOrder = s.agentOrder ∧
      (finishSecondWind s actor).lastDigest = s.lastDigest ∧
      (finishSecondWind s actor).digestStreak = s.digestStreak := by
  obtain ⟨c, hc⟩ := finishSecondWind_spec s actor
  rw [hc]
  exact ⟨rfl, rfl, rfl, rfl, rfl, rfl, rfl⟩

theorem finish_congr (hlist : t.checklist = s.checklist) (hrecord : t.continuity = s.continuity) (actor : String) :
    (finishSecondWind t actor).continuity = (finishSecondWind s actor).continuity := by
  unfold finishSecondWind
  cases hc : s.continuity with
  | none => simp only [hrecord.trans hc, hc]
  | some c =>
    simp only [hrecord.trans hc]
    cases hr : c.active with
    | none => simp only [hrecord.trans hc, hc]
    | some r =>
      simp only [hlist]
      by_cases hother : r.toActor ≠ actor
      · rw [if_pos hother, if_pos hother, hrecord]
      · rw [if_neg hother, if_neg hother]

/-- the turn as it is saved -/
theorem advance_after (hrev : Reviewed s u) (hmail : v = u ∨ ∃ m, v = threadOn u m) :
    After P cfg s u (advance P cfg v s.actor) := by
  have hv : v.checklist = u.checklist ∧ v.turns = u.turns ∧ v.turn = s.turn ∧ v.agentOrder = s.agentOrder ∧
      v.lastDigest = s.lastDigest ∧ v.digestStreak = s.digestStreak ∧ v.continuity = u.continuity := by
    rcases hmail with rfl | ⟨m, rfl⟩
    · exact ⟨rfl, rfl, hrev.turn, hrev.agentOrder, hrev.lastDigest, hrev.digestStreak, rfl⟩
    · exact ⟨rfl, rfl, hrev.turn, hrev.agentOrder, hrev.lastDigest, hrev.digestStreak, rfl⟩
  obtain ⟨hlist, hturns, hturn, horder, hlast, hstreak, hrecord⟩ := hv
  unfold advance
  obtain ⟨flist, fturns, fturn, factor, -, flast, fstreak⟩ := finish_fields
    { v with
      digestStreak := if digest P v.checklist = v.lastDigest then v.digestStreak + 1 else 0
      lastDigest := digest P v.checklist, turn := v.turn + 1, actor := nextActor v cfg s.actor } s.actor
  refine ⟨flist.trans hlist, fturns.trans hturns, ?_, ?_, ?_, ?_, .inl ?_⟩
  · rw [fturn, hturn]
  · rw [factor, nextActor_congr horder]
  · rw [flast, hlist]
  · rw [fstreak, hlist, hlast, hstreak]
  · refine finish_congr ?_ ?_ s.actor
    · exact hlist
    · exact hrecord

/-- a blocked item handed over right after the turn -/
theorem After.handed {w : RunState} {detail : String} {ids : List Value} (h : After P cfg s u w)
    (hrecord : w.continuity = (finishSecondWind u s.actor).continuity) (horder : w.agentOrder = s.agentOrder)
    (hmade : startSecondWind w cfg "blocked" s.actor detail ids = .ok (true, t)) : After P cfg s u t := by
  have hsame := startSecondWind_accepted hmade
  have hactor : t.actor = nextActor w cfg s.actor := by
    obtain ⟨c, -, hmade⟩ := bind_ok hmade
    split_ifs at hmade
    · cases hmade
    obtain ⟨items, -, hmade⟩ := bind_ok hmade
    cases hmade
    rfl
  exact ⟨hsame.checklist.trans h.checklist, hsame.turns.trans h.turns, hsame.turn.trans h.turn,
    hactor.trans (nextActor_congr horder _), hsame.lastDigest.trans h.lastDigest,
    hsame.digestStreak.trans h.digestStreak, .inr ⟨w, detail, ids, hrecord, hmade⟩⟩

theorem saveThen_whole {α : Type} {m : Mark} {next : RunState → Call α} (ht : Before s t ∨ After P cfg s u t)
    (hnext : Whole P cfg s u (next t)) : Whole P cfg s u (saveThen m t next) := by
  intro e he x hx
  rw [saveThen_evs] at he
  rcases List.mem_cons.1 he with rfl | he
  · cases hx
    exact ht
  · exact hnext e he x hx

theorem done_whole {α : Type} (t : RunState) (a : α) : Whole P cfg s u (.done t a : Call α) := by
  intro e he
  cases he

theorem attempt_whole {η α β : Type} {wrap : η → Exn} {x : Except η β} {f : β → Call α}
    (hf : ∀ b, x = .ok b → Whole P cfg s u (f b)) : Whole P cfg s u (Exec.attempt t wrap x f) := by
  cases x with
  | ok b => exact hf b rfl
  | error e =>
    intro e' he
    cases he

/-- the guards after the turn save the turn, or a handoff after it -/
theorem judge_whole (hrev : Reviewed s u) (hmail : v = u ∨ ∃ m, v = threadOn u m) :
    Whole P cfg s u (judge cfg (advance P cfg v s.actor) s.actor) := by
  have hafter := @advance_after P cfg s u v hrev hmail
  have hrecord : (advance P cfg v s.actor).continuity = (finishSecondWind u s.actor).continuity := by
    unfold advance
    refine finish_congr ?_ ?_ s.actor
    · rcases hmail with rfl | ⟨m, rfl⟩ <;> rfl
    · rcases hmail with rfl | ⟨m, rfl⟩ <;> rfl
  have horder : (advance P cfg v s.actor).agentOrder = s.agentOrder := by
    unfold advance
    rw [(finish_fields _ _).2.2.2.2.1]
    rcases hmail with rfl | ⟨m, rfl⟩
    · exact hrev.agentOrder
    · exact hrev.agentOrder
  generalize advance P cfg v s.actor = w at hafter hrecord horder
  unfold judge
  simp only
  split_ifs
  · exact done_whole _ _
  · refine attempt_whole fun r hr => ?_
    obtain ⟨made, t⟩ := r
    cases made with
    | true => exact saveThen_whole (.inr (hafter.handed hrecord horder hr)) (done_whole _ _)
    | false => exact attempt_whole fun r _ => done_whole _ _
  · exact attempt_whole fun r _ => done_whole _ _
  · exact done_whole _ _
  · exact done_whole _ _
  · exact done_whole _ _

/-- an accepted turn, from its mail on -/
theorem conclude_whole (hrev : Reviewed s u) (mail : MailOutcome) :
    Whole P cfg s u (conclude P cfg u s.actor narrative mail) ↔ ¬ Refused cfg s narrative mail := by
  rw [← Refused.congr hrev.commissionedBy]
  unfold conclude
  cases hmail : mailTurn cfg u s.actor narrative mail with
  | ok r =>
    obtain ⟨evs, v⟩ := r
    obtain ⟨hv, hsend⟩ := mailTurn_spec hmail
    refine iff_of_true ?_ (mailTurn_accepted hmail)
    have hrest : Whole P cfg s u (saveThen .turn (advance P cfg v s.actor) fun t => judge cfg t s.actor) :=
      saveThen_whole (.inr (advance_after hrev hv)) (judge_whole hrev hv)
    intro e he t ht
    rcases List.mem_append.1 he with he | he
    · obtain ⟨human, n, who, text, rfl⟩ := hsend e he
      cases ht
    · exact hrest e he t ht
  | error x =>
    cases x with
    | sendBlocked text =>
      refine iff_of_false (fun h => ?_) (not_not_intro (mailTurn_refused hmail))
      obtain ⟨r, hturns, -⟩ := hrev.recorded
      rcases h _ List.mem_cons_self _ rfl with hbefore | hafter
      · -- the turn is on record already
        have hsame : u.turns = s.turns := hbefore.turns
        simp [hturns] at hsame
      · -- its counter is not moved
        have hcount : u.turn = s.turn + 1 := hafter.turn
        rw [hrev.turn] at hcount
        omega
    | _ =>
      refine iff_of_true (fun e he => by cases he) fun hrefused => ?_
      obtain ⟨text, hraised⟩ := hrefused.raised s.actor
      rw [hraised] at hmail
      cases hmail

/-- a dispatched turn that is accepted -/
theorem takeTurn_whole {p : Prompt} {inp : TurnInput} (hstop : stopNote s = none) (hprompt : promptFor P cfg s = .ok p)
    (hreply : inp.reply = .replied (some env))
    (hvalid : review P cfg (noticed s inp.escaped) s.actor env inp.commit = .ok (u, narrative)) :
    Whole P cfg s u (takeTurn P cfg s inp) ↔ ¬ Refused cfg s (narrativeOf env) inp.mail := by
  have hevs : (takeTurn P cfg s inp).evs = .dispatch p :: (conclude P cfg u s.actor narrative inp.mail).evs := by
    unfold takeTurn answered
    simp only [hstop, hprompt, hreply, noticed_actor, hvalid, Exec.attempt]
    rfl
  have hconclude : Whole P cfg s u (conclude P cfg u s.actor narrative inp.mail) ↔
      ¬ Refused cfg s (narrativeOf env) inp.mail := by
    rw [← Refused.cut (review_narrative hvalid)]
    exact conclude_whole (review_reviewed hvalid).noticed inp.mail
  rw [← hconclude]
  unfold Whole
  rw [hevs]
  constructor
  · exact fun h e he => h e (List.mem_cons_of_mem _ he)
  · intro h e he
    rcases List.mem_cons.1 he with rfl | he
    · intro t ht
      cases ht
    · exact h e he

end Accepted

/-! ## Turns on record -/

/-- the turns on record are numbered upwards, below the turn to come -/
structure Ordered (s : RunState) : Prop where
  upwards : (s.turns.map fun r => r.turn).Pairwise (· < ·)
  below : ∀ r ∈ s.turns, r.turn < s.turn

section Order

variable {P : Runtime} {cfg : Cfg} {f s t u v : RunState} {k : Option String} {e : Ev}

theorem Level.ordered (h : Level f t) (hf : Ordered f) : Ordered t := by
  obtain ⟨hup, hbelow⟩ := hf
  constructor
  · rwa [h.turns]
  · rw [h.turns, h.turn]
    exact hbelow

/-- an accepted turn is recorded under the turn counter, which it moves -/
theorem turn_ordered (hmem : Over f s) (hacc : Accepts P cfg s f.actor u v) (hf : Ordered f) :
    Ordered (advance P cfg v f.actor) := by
  obtain ⟨⟨env, commit, narrative, hrev⟩, hmail⟩ := hacc
  obtain ⟨r, hturns, hr⟩ := (review_reviewed hrev).recorded
  have hv : v.turns = f.turns ++ [r] ∧ v.turn = f.turn := by
    have hu : u.turns = f.turns ++ [r] ∧ u.turn = f.turn :=
      ⟨hturns.trans (by rw [hmem.turns]), (review_reviewed hrev).turn.trans hmem.turn⟩
    rcases hmail with rfl | rfl
    · exact hu
    · exact hu
  have hafter : (advance P cfg v f.actor).turns = f.turns ++ [r] ∧ (advance P cfg v f.actor).turn = f.turn + 1 := by
    unfold advance
    obtain ⟨-, fturns, fturn, -⟩ := finish_fields
      { v with
        digestStreak := if digest P v.checklist = v.lastDigest then v.digestStreak + 1 else 0
        lastDigest := digest P v.checklist, turn := v.turn + 1, actor := nextActor v cfg f.actor } f.actor
    exact ⟨fturns.trans hv.1, fturn.trans (congrArg (· + 1) hv.2)⟩
  have hlast : r.turn = f.turn := hr.trans hmem.turn
  constructor
  · rw [hafter.1, List.map_append, List.pairwise_append]
    refine ⟨hf.upwards, List.pairwise_singleton _ _, fun m hm n hn => ?_⟩
    obtain ⟨x, hx, rfl⟩ := List.mem_map.1 hm
    obtain rfl : n = r.turn := List.mem_singleton.1 hn
    rw [hlast]
    exact hf.below x hx
  · intro x hx
    rw [hafter.1] at hx
    rw [hafter.2]
    rcases List.mem_append.1 hx with hx | hx
    · exact (hf.below x hx).trans (Nat.lt_succ_self _)
    · rw [List.mem_singleton.1 hx, hlast]
      exact Nat.lt_succ_self _

/-- **One write**, unless it is that of a refused update, keeps the turns in order. -/
theorem writes_ordered (h : Writes P cfg f k e) (hspared : e.refused = false) (hf : Ordered f) :
    Ordered (e.saved.getD f) := by
  cases h with
  | steady _ same => exact same.ordered hf
  | handoff memory made =>
    have hsame := startSecondWind_accepted made
    have ht := memory.ordered hf
    exact ⟨by simpa only [Ev.saved, Option.getD_some, hsame.turns] using ht.upwards,
      by simpa only [Ev.saved, Option.getD_some, hsame.turns, hsame.turn] using ht.below⟩
  | note memory _ =>
    have ht := memory.ordered hf
    exact ⟨ht.upwards, ht.below⟩
  | delivered memory =>
    have ht := memory.ordered hf
    exact ⟨ht.upwards, ht.below⟩
  | turn memory accepted => exact turn_ordered memory accepted hf
  | sendBlocked => cases hspared
  | _ => exact hf

/-- a run of writes -/
theorem journal_ordered {p : Page} {l : List Ev} (h : (journal P cfg).Accepts p l)
    (hspared : ∀ e ∈ l, e.refused = false) (hf : Ordered p.file) : ∀ e ∈ l, ∀ t, e.saved = some t → Ordered t := by
  induction h with
  | nil => exact fun _ he => (List.not_mem_nil he).elim
  | @cons p e l hfine _ ih =>
    have hnext := writes_ordered hfine (hspared e List.mem_cons_self) hf
    intro e' he' t ht
    rcases List.mem_cons.1 he' with rfl | he'
    · rwa [ht] at hnext
    · exact ih (fun x hx => hspared x (List.mem_cons_of_mem _ hx)) hnext e' he' t ht

end Order

/-- **A turn is whole.** A dispatched turn with a valid reply is saved as a whole or not at all, in every state that
`take_turn` saves, exactly where its update is not refused. In every run of commands, each cut short anywhere, in which
no update is refused, the turns on record are numbered upwards. -/
theorem turn_whole (P : Runtime) (cfg : Cfg) :
    (∀ s p inp env u narrative, stopNote s = none → promptFor P cfg s = .ok p → inp.reply = .replied (some env) →
      review P cfg (noticed s inp.escaped) s.actor env inp.commit = .ok (u, narrative) →
      (Whole P cfg s u (takeTurn P cfg s inp) ↔ ¬ Refused cfg s (narrativeOf env) inp.mail)) ∧
    ∀ s jobs, s.turns = [] → (∀ e ∈ session P cfg s jobs, e.refused = false) →
      ∀ e ∈ session P cfg s jobs, ∀ t, e.saved = some t → (t.turns.map fun r => r.turn).Pairwise (· < ·) := by
  constructor
  · intro s p inp env u narrative hstop hprompt hreply hvalid
    exact takeTurn_whole hstop hprompt hreply hvalid
  · intro s jobs hnew hspared e he t ht
    have hordered : Ordered s := ⟨by rw [hnew]; exact .nil, by rw [hnew]; exact fun _ hr => (List.not_mem_nil hr).elim⟩
    exact (journal_ordered (session_journal P cfg s jobs) hspared hordered e he t ht).upwards

/-- two mailed turns -/
def mailedTurns : List Job :=
  [⟨.commission none none, workOf [mailedReply (.sent "") (envelopeOf [(.str "c1", "open", .none)]),
    mailedReply (.sent "") (envelopeOf [(.str "c1", "claimed", .str "agy")])], none⟩]

/-- the first turn of a run, whole, and the turns of a run in order -/
theorem turn_whole_sample : (∃ p u narrative, promptFor plainText mailedAgents newRun = .ok p ∧
      review plainText mailedAgents newRun "claude" (envelopeOf [(.str "c1", "open", .none)]) none = .ok (u, narrative) ∧
      Whole plainText mailedAgents newRun u
        (takeTurn plainText mailedAgents newRun (mailedReply (.sent "") (envelopeOf [(.str "c1", "open", .none)])))) ∧
    ∀ e ∈ session plainText mailedAgents newRun mailedTurns, ∀ t, e.saved = some t →
      (t.turns.map fun r => r.turn).Pairwise (· < ·) := by
  obtain ⟨hone, hall⟩ := turn_whole plainText mailedAgents
  refine ⟨⟨_, _, _, rfl, rfl, ?_⟩, hall newRun mailedTurns rfl (by decide)⟩
  refine (hone newRun _ (mailedReply (.sent "") (envelopeOf [(.str "c1", "open", .none)]))
    (envelopeOf [(.str "c1", "open", .none)]) _ _ rfl rfl rfl rfl).2 ?_
  rintro ⟨-, -, ⟨detail, h⟩ | ⟨⟨detail, h⟩, -⟩⟩ <;> cases h

/-- **Half a turn.** The update of agy's turn is refused: the turn is on record and the checklist is the accepted one,
with the old turn counter, actor and digest. The retry records another turn with its number. -/
theorem turn_halved : ∃ before t between u rest,
    session plainText mailedAgents newRun
        [⟨.commission none none, workOf [mailedReply (.sent "") (envelopeOf [(.str "c1", "open", .none)]),
          mailedReply (.refused "full") (envelopeOf [(.str "c1", "claimed", .str "agy")])], none⟩,
         ⟨.retry, workOf [mailedReply (.sent "") (envelopeOf [(.str "c1", "claimed", .str "agy")])], none⟩] =
      before ++ .save .sendBlocked t :: (between ++ .save .turn u :: rest) ∧
    (Exec.persist Ev.saved newRun before).turn = 1 ∧ t.turn = 1 ∧ t.actor = "agy" ∧
    t.turns.map (fun r => r.turn) = [0, 1] ∧
    ¬ Before (Exec.persist Ev.saved newRun before) t ∧
    (∀ v, ¬ After plainText mailedAgents (Exec.persist Ev.saved newRun before) v t) ∧
    u.turns.map (fun r => r.turn) = [0, 1, 1] := by
  refine ⟨[_, _, _, _], _, [_, _, _, _, _, _], _, [], rfl, rfl, rfl, rfl, rfl, fun h => ?_, fun v h => ?_, rfl⟩
  · have hturns := congrArg List.length h.turns
    exact absurd hturns (by decide)
  · exact absurd h.turn (by decide)

end Rally.Runner
