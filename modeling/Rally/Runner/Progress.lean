/-
When the runner sees that nothing moves (`take_turn` and `apply_human_note` of `src/runner.py`, `digest` of
`src/envelope.py`): the streak of turns whose fingerprint is that of the turn before, over whole runs, with crashes anywhere.

- `turn_progress`, `note_progress`: what a call leaves of the checklist, the fingerprint and the streak.
- `Tracked`: the streak counts turns that changed nothing, unless the checklist is over, where no streak halts.
- `no_progress_exact`: the fingerprint is exact for plain checklists, and a run whose replies are plain and whose updates are
  not refused ends for want of progress only behind as many turns that changed nothing.
-/
import Rally.Digest
import Rally.Runner.Atomicity
import Rally.Runner.Ownership
import Rally.Runner.Rejections

namespace Rally.Runner

open Py Rally.Envelope

/-! ## Steps -/

/-- a call of the runner: a turn, with what `take_turn` returned unless it was cut short, a note, or anything else -/
inductive Tick where
  | turn (inp : TurnInput) (halt : Option (Option String))
  | note (text : String)
  | rest

inductive TickStep (P : Runtime) (cfg : Cfg) : RunState → Tick → RunState → Prop where
  | turn {s : RunState} {inp : TurnInput} {halt : Option String} (returned : (takeTurn P cfg s inp).out = .ret halt) :
    TickStep P cfg s (.turn inp (some halt)) (takeTurn P cfg s inp).mem
  /-- the process ends inside the turn, and the state is read from the file -/
  | cut {s : RunState} {inp : TurnInput} (n : ℕ) :
    TickStep P cfg s (.turn inp none) (Exec.persist Ev.saved s ((takeTurn P cfg s inp).evs.take n))
  | note {s t : RunState} {text : String} (applied : applyHumanNote s text = .ok t) : TickStep P cfg s (.note text) t
  /-- halts, mail, reports and retries -/
  | rest {s t : RunState} (checklist : t.checklist = s.checklist) (turn : t.turn = s.turn)
      (lastDigest : t.lastDigest = s.lastDigest) (digestStreak : t.digestStreak = s.digestStreak) : TickStep P cfg s .rest t

/-- the step is an accepted turn -/
def acceptsTurn (e : Entry RunState Tick) : Bool := e.before.turn < e.after.turn

/-- every id, state and owner is what it was -/
def Still (e : Entry RunState Tick) : Prop := SameTriples e.before.checklist e.after.checklist

/-- so it was through the last `n` accepted turns, and all that stands between them -/
def Unmoved (tr : List (Entry RunState Tick)) (n : ℕ) : Prop :=
  ∃ front back, tr = front ++ back ∧ n ≤ back.countP acceptsTurn ∧ ∀ e ∈ back, Still e

/-- the entries of the reply have plain ids and owners -/
def PlainReply (env : Env) : Prop :=
  ∀ raw ∈ entriesOf (proposedOf env), ∀ it, norm raw = .ok it → (it.id ≠ .none → PlainId it.id) ∧ PlainOwner it.owner

/-- a turn with a plain reply, whose update is not refused -/
def Orderly (cfg : Cfg) (e : Entry RunState Tick) : Prop :=
  ∀ inp halt, e.act = .turn inp halt → ∀ env, inp.reply = .replied (some env) →
    PlainReply env ∧ ¬ Refused cfg e.before (narrativeOf env) inp.mail

/-- the checklist is complete, or has an item that is blocked or disputed -/
def Ended (items : List Item) : Prop := isComplete items = true ∨ blocking items ≠ []

/-! ## Checklists -/

section Checklists

variable {a b items : List Item}

theorem sameTriples_refl (a : List Item) : SameTriples a a := List.Perm.refl _

theorem ended_same (h : SameTriples a b) (ha : Ended a) : Ended b := by
  have hstates : (a.map fun it => it.state).Perm (b.map fun it => it.state) := by
    have hmap := h.map fun t => t.2.1
    rwa [List.map_map, List.map_map] at hmap
  have hiff : ∀ items : List Item, Ended items ↔
      (items.map fun it => it.state) ≠ [] ∧ (∀ st ∈ items.map fun it => it.state, st = .done) ∨
        ∃ st ∈ items.map fun it => it.state, st = .blocked ∨ st = .disputed := by
    intro items
    rw [Ended]
    refine or_congr ?_ ?_
    · cases items <;> simp [isComplete]
    · simp [blocking, List.filter_eq_nil_iff, or_iff_not_imp_left]
  rw [hiff] at ha ⊢
  rcases ha with ⟨hne, hall⟩ | ⟨st, hst, hflag⟩
  · exact Or.inl ⟨fun hnil => hne (hnil ▸ hstates).eq_nil, fun st hst => hall st (hstates.mem_iff.2 hst)⟩
  · exact Or.inr ⟨st, hstates.mem_iff.1 hst, hflag⟩

theorem plain_admission {it : Proposed} (hid : PlainId it.id) (howner : PlainOwner it.owner) :
    PlainItem (admission it).1 := by
  refine ⟨(admission_state it).1.symm ▸ hid, ?_⟩
  rw [admission_owner, startOwner]
  split_ifs
  · exact howner
  · exact Or.inl rfl

/-- what an agent with a plain name makes of plain items with plain entries is plain -/
theorem reconcile_plain {prev out : List Item} {proposed : Value} {actor : String} {rm : ℤ} {allowNew : Bool}
    {recovery : List String} {vs : List Violation} (hprev : ∀ it ∈ prev, PlainItem it) (hactor : PlainOwner (.str actor))
    (hraws : ∀ raw ∈ entriesOf proposed, ∀ it, norm raw = .ok it → (it.id ≠ .none → PlainId it.id) ∧ PlainOwner it.owner)
    (h : reconcile prev proposed actor rm allowNew recovery = .ok (out, vs)) : ∀ it ∈ out, PlainItem it := by
  obtain ⟨d, raws, hd, hiter, hall⟩ := reconcile_accepted h
  obtain ⟨-, hkeys, -⟩ := byId_spec hd
  have hentries : entriesOf proposed = raws := by simp [entriesOf, hiter]
  have hheld : ∀ k o old, Dict.get? d k = some (o, old) → PlainItem old := by
    intro k o old hget
    obtain ⟨it, hit, -, -, rfl⟩ := hkeys k o old hget
    exact hprev it hit
  have hlisted : ∀ {k it}, Listed raws k it → PlainId it.id ∧ PlainOwner it.owner := by
    rintro k it ⟨raw, hraw, hnorm, hne, -⟩
    obtain ⟨hid, howner⟩ := hraws raw (hentries.symm ▸ hraw) it hnorm
    exact ⟨hid hne, howner⟩
  intro x hx
  obtain ⟨k, -, hx⟩ := hall x hx
  cases hx with
  | admitted it listed fresh scope =>
    obtain ⟨hid, howner⟩ := hlisted listed
    exact plain_admission hid howner
  | moved it o old listed held =>
    obtain ⟨hid, howner⟩ := hheld k o old held
    obtain ⟨-, hentry⟩ := hlisted listed
    refine ⟨(transition_move old it actor rm _).id_eq.symm ▸ hid, ?_⟩
    rcases transition_owner old it actor rm (recovery.any fun s => k = .str s) with ho | ho | ⟨-, -, -, ho⟩
    · exact ho.symm ▸ howner
    · exact ho.symm ▸ hactor
    · exact ho.symm ▸ hentry
  | restored o _ held => exact hheld k o x held

theorem plain_reopened {it : Item} (h : PlainItem it) : PlainItem (reopenItem it) := by
  unfold reopenItem
  split_ifs
  · exact ⟨h.1, Or.inl rfl⟩
  · exact h

theorem plain_revision {item : Item} {text : String} (h : revisionItem items text = .ok item) : PlainItem item := by
  obtain ⟨numbers, -, h⟩ := bind_ok h
  cases h
  have hchars : ∀ n : ℕ, ∀ c ∈ (s!"c{n}" : String).toList, c = 'c' ∨ c.isDigit = true := by
    intro n c hc
    have hsplit : (s!"c{n}" : String).toList = 'c' :: Nat.toDigits 10 n := by
      simp [toString, Nat.toList_repr]
    rw [hsplit] at hc
    rcases List.mem_cons.1 hc with rfl | hc
    · exact Or.inl rfl
    · exact Or.inr (Nat.isDigit_of_mem_toDigits (by decide) (by decide) hc)
  refine ⟨⟨_, rfl, fun hc => ?_, fun hc => ?_⟩, Or.inl rfl⟩
  · rcases hchars _ _ hc with hc | hc <;> cases hc
  · rcases hchars _ _ hc with hc | hc <;> cases hc

end Checklists

/-! ## Calls -/

/-- nothing that the streak reads has changed -/
structure SameProgress (s t : RunState) : Prop where
  checklist : t.checklist = s.checklist
  turn : t.turn = s.turn
  lastDigest : t.lastDigest = s.lastDigest
  digestStreak : t.digestStreak = s.digestStreak

/-- an accepted turn, with its fingerprint -/
structure Turned (P : Runtime) (s t : RunState) : Prop where
  plain : (∀ it ∈ s.checklist, PlainItem it) → ∀ it ∈ t.checklist, PlainItem it
  turn : t.turn = s.turn + 1
  lastDigest : t.lastDigest = digest P t.checklist
  digestStreak : t.digestStreak = if digest P t.checklist = s.lastDigest then s.digestStreak + 1 else 0

section Calls

variable {P : Runtime} {cfg : Cfg} {s t u v w : RunState} {inp : TurnInput} {halt : Option String}

theorem SameAccepted.progress (h : SameAccepted s t) : SameProgress s t :=
  ⟨h.checklist, h.turn, h.lastDigest, h.digestStreak⟩

theorem Turned.same (h : Turned P s u) (hsame : SameAccepted u t) : Turned P s t where
  plain := hsame.checklist.symm ▸ h.plain
  turn := hsame.turn.trans h.turn
  lastDigest := by rw [hsame.lastDigest, hsame.checklist, h.lastDigest]
  digestStreak := by rw [hsame.digestStreak, hsame.checklist, h.digestStreak]

theorem After.turned (h : After P cfg s u t)
    (hplain : (∀ it ∈ s.checklist, PlainItem it) → ∀ it ∈ u.checklist, PlainItem it) : Turned P s t where
  plain := h.checklist.symm ▸ hplain
  turn := h.turn
  lastDigest := by rw [h.lastDigest, h.checklist]
  digestStreak := by rw [h.digestStreak, h.checklist]

/-- the guards leave the accepted part of the turn alone -/
theorem judge_frames (h : SameAccepted w s) (actor : String) : Frames w (judge cfg s actor) := by
  unfold judge
  simp only
  split_ifs
  · exact Exec.holds_done h
  · refine Exec.holds_attempt h fun r hr => ?_
    obtain ⟨made, t⟩ := r
    have ht := h.trans (startSecondWind_accepted hr)
    cases made with
    | true => exact saveThen_frames ht (Exec.holds_done ht)
    | false => exact Exec.holds_attempt ht fun r _ => Exec.holds_done ht
  · exact Exec.holds_attempt h fun r _ => Exec.holds_done h
  · exact Exec.holds_done h
  · exact Exec.holds_done h
  · exact Exec.holds_done h

/-- for want of progress the guards halt a checklist that is not over, with a streak -/
theorem judge_no_progress {actor : String} (h : (judge cfg s actor).out = .ret (some "no_progress")) :
    ¬ Ended s.checklist ∧ cfg.noProgressHalt ≤ s.digestStreak := by
  have hcolon : ∀ {t : RunState} {stuck : List Item}, (Exec.attempt t Exn.builtin (stuckHalt stuck) fun r =>
      Exec.done t (some r) : Call (Option String)).out ≠ .ret (some "no_progress") := by
    intro t stuck hout
    obtain ⟨text, htext, heq⟩ := Exec.attempt_ret hout
    rw [heq] at hout
    obtain rfl : text = "no_progress" := by simpa [Exec.done] using hout
    cases stuck with
    | nil => cases htext
    | cons it stuck =>
      obtain ⟨ids, -, htext⟩ := bind_ok htext
      have hmem : ':' ∈ "no_progress".toList := by
        rw [← Except.ok.inj htext]
        simp
      exact absurd hmem (by decide)
  unfold judge at h
  simp only at h
  split_ifs at h with hdone hstuck hrecover hturns hstreak
  · simp [Exec.done] at h
  · obtain ⟨⟨made, t⟩, hmade, heq⟩ := Exec.attempt_ret h
    rw [heq] at h
    cases made with
    | true => simp [Exec.done] at h
    | false => exact absurd h hcolon
  · exact absurd h hcolon
  · simp [Exec.done] at h
  · refine ⟨?_, hstreak⟩
    rintro (hcomplete | hne)
    · exact hdone hcomplete
    · exact hne (not_not.1 hstuck)
  · simp [Exec.done] at h

/-- a review makes plain items of plain ones -/
theorem review_plain {env : Env} {commit : Option String} {narrative : Value} {actor : String}
    (h : review P cfg s actor env commit = .ok (u, narrative)) (hactor : PlainOwner (.str actor)) (hreply : PlainReply env) :
    (∀ it ∈ s.checklist, PlainItem it) → ∀ it ∈ u.checklist, PlainItem it := by
  intro hplain
  obtain ⟨c, vs, -, hrec, -⟩ := review_spec h
  exact reconcile_plain hplain hactor hreply hrec

theorem noticed_checklist (s : RunState) (escaped : Option (List String)) :
    (noticed s escaped).checklist = s.checklist := by
  cases escaped <;> rfl

/-- what a turn may leave in the file -/
def Moves (P : Runtime) (s t : RunState) : Prop := SameProgress s t ∨ Turned P s t

/-- what a call leaves in the file, and in memory where it returns -/
def Leaves (P : Runtime) (cfg : Cfg) (s : RunState) (x : Call (Option String)) : Prop :=
  (∀ e ∈ x.evs, ∀ t, e.saved = some t → Moves P s t) ∧
    ∀ halt, x.out = .ret halt → Moves P s x.mem ∧
      (halt = some "no_progress" → ¬ Ended x.mem.checklist ∧ cfg.noProgressHalt ≤ x.mem.digestStreak)

theorem Frames.leaves {x : Call (Option String)} (h : Frames s x) (hhalt : x.out ≠ .ret (some "no_progress")) :
    Leaves P cfg s x :=
  ⟨fun e he t ht => Or.inl (h.1 e he t ht).progress, fun halt hret => ⟨Or.inl h.2.progress, fun heq => by
    rw [heq] at hret
    exact absurd hret hhalt⟩⟩

theorem agentFailed_halt (s : RunState) (detail : String) :
    (agentFailed cfg s detail).out ≠ .ret (some "no_progress") := by
  intro h
  obtain ⟨⟨made, t⟩, -, heq⟩ := Exec.attempt_ret h
  rw [agentFailed, heq] at h
  cases made <;> simp [Exec.done] at h

/-- a turn without an envelope does not halt for want of progress -/
theorem failed_halt (hfailed : inp.reply.envelope = none) : (takeTurn P cfg s inp).out ≠ .ret (some "no_progress") := by
  unfold takeTurn
  split
  · simp [Exec.done]
  · intro h
    obtain ⟨p, -, heq⟩ := Exec.attempt_ret h
    rw [heq, Exec.pre_out, answered] at h
    cases hreply : inp.reply with
    | failed text =>
      rw [hreply] at h
      exact agentFailed_halt _ _ h
    | raised e =>
      rw [hreply] at h
      cases h
    | replied env =>
      rw [hreply] at h hfailed
      obtain rfl : env = none := hfailed
      simp only [noEnvelope, saveThen_out] at h
      split_ifs at h
      · exact agentFailed_halt _ _ h
      · simp [Exec.done] at h

/-- an accepted turn whose update is not refused -/
theorem conclude_leaves {narrative : Value} (hrev : Reviewed s u) (hspared : ¬ Refused cfg s narrative inp.mail)
    (hplain : (∀ it ∈ s.checklist, PlainItem it) → ∀ it ∈ u.checklist, PlainItem it) :
    Leaves P cfg s (conclude P cfg u s.actor narrative inp.mail) := by
  unfold conclude
  cases hmail : mailTurn cfg u s.actor narrative inp.mail with
  | ok r =>
    obtain ⟨evs, v⟩ := r
    obtain ⟨hv, hsend⟩ := mailTurn_spec hmail
    have hturned : Turned P s (advance P cfg v s.actor) := (advance_after hrev hv).turned hplain
    have hframes : Frames (advance P cfg v s.actor)
        (saveThen .turn (advance P cfg v s.actor) fun t => judge cfg t s.actor) :=
      saveThen_frames (.refl _) (judge_frames (.refl _) s.actor)
    constructor
    · intro e he t ht
      rcases List.mem_append.1 he with he | he
      · obtain ⟨human, n, who, text, rfl⟩ := hsend e he
        cases ht
      · exact Or.inr (hturned.same (hframes.1 e he t ht))
    · intro halt hret
      refine ⟨Or.inr (hturned.same hframes.2), fun heq => ?_⟩
      rw [heq] at hret
      obtain ⟨hover, hstreak⟩ := judge_no_progress hret
      have hsame : SameAccepted (advance P cfg v s.actor) (judge cfg (advance P cfg v s.actor) s.actor).mem := hframes.2
      exact ⟨by simpa [hsame.checklist] using hover, by simpa [hsame.digestStreak] using hstreak⟩
  | error x =>
    cases x with
    | sendBlocked text => exact absurd ((Refused.congr hrev.commissionedBy).1 (mailTurn_refused hmail)) hspared
    | _ => exact ⟨fun e he => (List.not_mem_nil he).elim, fun halt hret => by cases hret⟩

/-- **Turns and the streak.** In every state it saves, and in the one it ends with where it returns, a turn has changed nothing
that the streak reads, or is accepted with its fingerprint; and it halts for want of progress only behind an accepted turn whose
checklist is not over, with such a streak. -/
theorem turn_progress (hagents : ∀ name ∈ cfg.agents, PlainOwner (.str name))
    (horderly : ∀ env, inp.reply = .replied (some env) → PlainReply env ∧ ¬ Refused cfg s (narrativeOf env) inp.mail) :
    Leaves P cfg s (takeTurn P cfg s inp) := by
  cases henv : inp.reply.envelope with
  | none => exact Frames.leaves (failed_turn_frame P cfg s inp henv) (failed_halt henv)
  | some env =>
    have hreply : inp.reply = .replied (some env) := by
      cases hr : inp.reply with
      | failed text => rw [hr] at henv; cases henv
      | raised e => rw [hr] at henv; cases henv
      | replied env' => rw [hr] at henv; exact congrArg _ henv
    obtain ⟨hplain, hspared⟩ := horderly env hreply
    unfold takeTurn
    split
    · have hsame := (SameAccepted.refl s).halted (some ⟨"stopped_by_human", strip ‹String›⟩)
      exact Frames.leaves (saveThen_frames hsame (Exec.holds_done hsame)) (by simp [Exec.done])
    · cases hprompt : promptFor P cfg s with
      | error e => exact ⟨fun e he => (List.not_mem_nil he).elim, fun halt hret => by cases hret⟩
      | ok p =>
        have hactor := hagents _ (promptFor_fleet hprompt)
        have hanswered : Leaves P cfg s (answered P cfg s inp) := by
          simp only [answered, hreply, noticed_actor]
          cases hrev : review P cfg (noticed s inp.escaped) s.actor env inp.commit with
          | error e => exact ⟨fun e he => (List.not_mem_nil he).elim, fun halt hret => by cases hret⟩
          | ok r =>
            obtain ⟨u, narrative⟩ := r
            have hcut := mt (Refused.cut (review_narrative hrev)).1 hspared
            refine conclude_leaves (review_reviewed hrev).noticed hcut fun hs => ?_
            refine review_plain hrev hactor hplain ?_
            rwa [noticed_checklist]
        refine ⟨fun e he t ht => ?_, hanswered.2⟩
        rcases List.mem_cons.1 he with rfl | he
        · cases ht
        · exact hanswered.1 e he t ht

/-- a call that is cut leaves one of the states it saved, or the file as it was -/
theorem cut_moves (h : Leaves P cfg s (takeTurn P cfg s inp)) (n : ℕ) :
    Moves P s (Exec.persist Ev.saved s ((takeTurn P cfg s inp).evs.take n)) :=
  Exec.persist_inv Ev.saved (Or.inl ⟨rfl, rfl, rfl, rfl⟩) fun e he t ht => h.1 e (List.mem_of_mem_take he) t ht

/-- a note that reopens the checklist, which was over, starts the streak again -/
structure Reopened (s t : RunState) : Prop where
  was : Ended s.checklist
  plain : (∀ it ∈ s.checklist, PlainItem it) → ∀ it ∈ t.checklist, PlainItem it
  turn : t.turn = s.turn
  lastDigest : t.lastDigest = s.lastDigest
  digestStreak : t.digestStreak = 0

/-- **Notes and the streak.** -/
theorem note_progress {text : String} (h : applyHumanNote s text = .ok t) : SameProgress s t ∨ Reopened s t := by
  unfold applyHumanNote at h
  simp only at h
  split_ifs at h with hstop hstuck hdone
  · cases h
    exact Or.inl ⟨rfl, rfl, rfl, rfl⟩
  · cases h
    refine Or.inr ⟨Or.inr ?_, fun hplain it hit => ?_, rfl, rfl, rfl⟩
    · obtain ⟨it, hit, hflag⟩ := List.any_eq_true.1 hstuck
      exact List.ne_nil_of_mem (List.mem_filter.2 ⟨hit, hflag⟩)
    · obtain ⟨old, hold, rfl⟩ := List.mem_map.1 hit
      exact plain_reopened (hplain old hold)
  · obtain ⟨item, hitem, h⟩ := bind_ok h
    cases h
    refine Or.inr ⟨Or.inl hdone, fun hplain it hit => ?_, rfl, rfl, rfl⟩
    rcases List.mem_append.1 hit with hit | hit
    · exact hplain it hit
    · rw [List.mem_singleton.1 hit]
      exact plain_revision hitem
  · cases h
    exact Or.inl ⟨rfl, rfl, rfl, rfl⟩

end Calls

/-! ## Runs -/

/-- a run before its first turn -/
structure Begun (P : Runtime) (s : RunState) : Prop where
  plain : ∀ it ∈ s.checklist, PlainItem it
  lastDigest : s.lastDigest = digest P s.checklist
  digestStreak : s.digestStreak = 0

/-- what the streak of a run counts -/
structure Tracked (P : Runtime) (tr : List (Entry RunState Tick)) (s : RunState) : Prop where
  plain : ∀ it ∈ s.checklist, PlainItem it
  streak : Unmoved tr s.digestStreak ∨ Ended s.checklist
  /-- the fingerprint kept is that of the checklist, or of one that was over before a note reopened it -/
  last : s.lastDigest = digest P s.checklist ∨
    s.digestStreak = 0 ∧ ∃ items, (∀ it ∈ items, PlainItem it) ∧ Ended items ∧ s.lastDigest = digest P items

section Runs

variable {P : Runtime} {cfg : Cfg} {s s₀ t : RunState} {tr : List (Entry RunState Tick)} {a : Tick}

theorem unmoved_zero (tr : List (Entry RunState Tick)) : Unmoved tr 0 := ⟨tr, [], by simp, by simp, by simp⟩

theorem Unmoved.le {m n : ℕ} (h : Unmoved tr m) (hle : n ≤ m) : Unmoved tr n := by
  obtain ⟨front, back, hsplit, hcount, hstill⟩ := h
  exact ⟨front, back, hsplit, hle.trans hcount, hstill⟩

theorem Unmoved.snoc {n : ℕ} {e : Entry RunState Tick} (h : Unmoved tr n) (he : Still e) :
    Unmoved (tr ++ [e]) (n + if acceptsTurn e then 1 else 0) := by
  obtain ⟨front, back, rfl, hcount, hstill⟩ := h
  refine ⟨front, back ++ [e], by simp, ?_, fun e' he' => ?_⟩
  · rw [List.countP_append, List.countP_singleton]
    omega
  · rcases List.mem_append.1 he' with he' | he'
    · exact hstill e' he'
    · rw [List.mem_singleton.1 he']
      exact he

/-- a step that changes nothing the streak reads -/
theorem SameProgress.tracked (hsame : SameProgress s t) (h : Tracked P tr s) : Tracked P (tr ++ [⟨s, a, t⟩]) t := by
  have hquiet : acceptsTurn (⟨s, a, t⟩ : Entry RunState Tick) = false := by
    simp [acceptsTurn, hsame.turn]
  have hstill : Still (⟨s, a, t⟩ : Entry RunState Tick) := by
    rw [Still, hsame.checklist]
    exact sameTriples_refl _
  refine ⟨hsame.checklist.symm ▸ h.plain, ?_, ?_⟩
  · rw [hsame.digestStreak, hsame.checklist]
    refine h.streak.imp (fun hidle => ?_) id
    have hnext := hidle.snoc hstill
    rwa [hquiet] at hnext
  · rw [hsame.digestStreak, hsame.checklist, hsame.lastDigest]
    exact h.last

/-- an accepted turn -/
theorem Turned.tracked (hturned : Turned P s t) (h : Tracked P tr s) : Tracked P (tr ++ [⟨s, a, t⟩]) t := by
  have hplain := hturned.plain h.plain
  have haccepts : acceptsTurn (⟨s, a, t⟩ : Entry RunState Tick) = true := by
    simp [acceptsTurn, hturned.turn]
  refine ⟨hplain, ?_, Or.inl hturned.lastDigest⟩
  rw [hturned.digestStreak]
  split_ifs with hdigest
  · rcases h.last with hlast | ⟨hzero, items, hitems, hended, hlast⟩
    · -- the checklist is what it was
      have hsame := same_of_digest h.plain hplain (hlast.symm.trans hdigest.symm)
      refine h.streak.imp (fun hidle => ?_) (ended_same hsame)
      have hnext := hidle.snoc (e := ⟨s, a, t⟩) hsame
      rwa [haccepts] at hnext
    · -- the checklist is the one that was over before the note
      exact Or.inr (ended_same (same_of_digest hitems hplain (hlast.symm.trans hdigest.symm)) hended)
  · exact Or.inl (unmoved_zero _)

/-- a note that reopens the checklist -/
theorem Reopened.tracked (hopened : Reopened s t) (h : Tracked P tr s) : Tracked P (tr ++ [⟨s, a, t⟩]) t := by
  refine ⟨hopened.plain h.plain, Or.inl (hopened.digestStreak.symm ▸ unmoved_zero _), Or.inr ⟨hopened.digestStreak, ?_⟩⟩
  rw [hopened.lastDigest]
  rcases h.last with hlast | ⟨-, hitems⟩
  · exact ⟨s.checklist, h.plain, hopened.was, hlast⟩
  · exact hitems

/-- **One step.** -/
theorem step_tracked (hagents : ∀ name ∈ cfg.agents, PlainOwner (.str name)) (hstep : TickStep P cfg s a t)
    (horderly : Orderly cfg ⟨s, a, t⟩) (h : Tracked P tr s) : Tracked P (tr ++ [⟨s, a, t⟩]) t := by
  have hmoves : ∀ {u}, Moves P s u → Tracked P (tr ++ [⟨s, a, u⟩]) u := fun hmoves =>
    hmoves.elim (fun hsame => hsame.tracked h) fun hturned => hturned.tracked h
  cases hstep with
  | turn returned => exact hmoves ((turn_progress hagents (horderly _ _ rfl)).2 _ returned).1
  | cut n => exact hmoves (cut_moves (turn_progress hagents (horderly _ _ rfl)) n)
  | note applied =>
    rcases note_progress applied with hsame | hopened
    · exact hsame.tracked h
    · exact hopened.tracked h
  | rest checklist turn lastDigest digestStreak =>
    exact SameProgress.tracked ⟨checklist, turn, lastDigest, digestStreak⟩ h

/-- **A whole run.** -/
theorem run_tracked (hagents : ∀ name ∈ cfg.agents, PlainOwner (.str name)) (hrun : Trace (TickStep P cfg) s₀ tr s)
    (hbegun : Begun P s₀) (horderly : ∀ e ∈ tr, Orderly cfg e) : Tracked P tr s := by
  induction hrun with
  | nil => exact ⟨hbegun.plain, Or.inl (hbegun.digestStreak.symm ▸ unmoved_zero _), Or.inl hbegun.lastDigest⟩
  | snoc _ hnext ih =>
    have hfront := ih fun e he => horderly e (List.mem_append_left _ he)
    exact step_tracked hagents hnext (horderly _ (List.mem_append_right _ List.mem_cons_self)) hfront

/-- a halt for want of progress -/
theorem halt_unmoved (hagents : ∀ name ∈ cfg.agents, PlainOwner (.str name)) {front back : List (Entry RunState Tick)}
    {e : Entry RunState Tick} {inp : TurnInput} (hrun : Trace (TickStep P cfg) s₀ (front ++ e :: back) s)
    (hbegun : Begun P s₀) (horderly : ∀ e' ∈ front ++ e :: back, Orderly cfg e')
    (hact : e.act = .turn inp (some (some "no_progress"))) : Unmoved (front ++ [e]) cfg.noProgressHalt.toNat := by
  obtain ⟨t, hhead, -⟩ := (show Trace (TickStep P cfg) s₀ ((front ++ [e]) ++ back) s by simpa using hrun).split
  have hlast := hhead.last
  have htracked := run_tracked hagents hhead hbegun fun e' he' => horderly e' (by
    simp only [List.mem_append, List.mem_cons, List.not_mem_nil, or_false] at he' ⊢
    tauto)
  have hstep := hhead.entry e (List.mem_append_right _ List.mem_cons_self)
  have horder := horderly e (List.mem_append_right _ List.mem_cons_self)
  obtain ⟨before, act, after⟩ := e
  obtain rfl : act = .turn inp (some (some "no_progress")) := hact
  change TickStep P cfg before _ after at hstep
  cases hstep with
  | turn returned =>
    obtain ⟨hopen, hstreak⟩ := ((turn_progress hagents (horder _ _ rfl)).2 _ returned).2 rfl
    rw [hlast] at htracked
    rcases htracked.streak with hidle | hended
    · exact hidle.le (Int.toNat_le.2 hstreak)
    · exact absurd hended hopen

/-- **No progress.** The fingerprint tells two checklists apart by their ids, states and owners exactly when they are neither
shuffled nor confused, which plain ones are not. In every run from its beginning, with plain agents, whose replies are plain and
whose updates are not refused, a turn halts for want of progress only where the last accepted turns, as many as the limit says,
and all that came between them, left every id, state and owner as it was. -/
theorem no_progress_exact (P : Runtime) (cfg : Cfg) :
    (∀ a b, (digest P a = digest P b ↔ SameTriples a b) ↔ ¬ Shuffled P a b ∧ ¬ Confused P a b) ∧
    (∀ a b, Plain a → Plain b → (digest P a = digest P b ↔ SameTriples a b)) ∧
    ((∀ name ∈ cfg.agents, PlainOwner (.str name)) → ∀ s₀ s front e back inp,
      Trace (TickStep P cfg) s₀ (front ++ e :: back) s → Begun P s₀ → (∀ e' ∈ front ++ e :: back, Orderly cfg e') →
        e.act = .turn inp (some (some "no_progress")) → Unmoved (front ++ [e]) cfg.noProgressHalt.toNat) :=
  ⟨fun _ _ => digest_exact, fun _ _ => plain_exact, fun hagents _ _ _ _ _ _ hrun hbegun horderly hact =>
    halt_unmoved hagents hrun hbegun horderly hact⟩

end Runs

/-! ## A run that stalls -/

/-- claude and agy list the one open item, turn after turn -/
def sameAgain : TurnInput := replyOf (envelopeOf [(.str "c1", "open", .none)])

/-- so many of these turns, each returned as the state before it has it -/
def stalling (n : ℕ) : RunState := (List.range n).foldl (fun s _ => (takeTurn plainText twoAgents s sameAgain).mem) newRun

theorem sameAgain_plain : PlainReply (envelopeOf [(.str "c1", "open", .none)]) := by
  intro raw hraw it hit
  have hone : entriesOf (proposedOf (envelopeOf [(.str "c1", "open", .none)])) =
      [.dict [("id", .str "c1"), ("state", .str "open"), ("owner", .none)]] := rfl
  rw [hone, List.mem_singleton] at hraw
  subst hraw
  cases hit
  exact ⟨fun _ => ⟨"c1", rfl, by decide, by decide⟩, Or.inl rfl⟩

/-- the fourth turn halts, behind three that changed nothing -/
theorem no_progress_exact_sample : ∃ front e, Trace (TickStep plainText twoAgents) newRun (front ++ [e]) (stalling 4) ∧
    e.act = .turn sameAgain (some (some "no_progress")) ∧ Unmoved (front ++ [e]) 3 := by
  have hone : ∀ n halt, (takeTurn plainText twoAgents (stalling n) sameAgain).out = .ret halt →
      TickStep plainText twoAgents (stalling n) (.turn sameAgain (some halt)) (stalling (n + 1)) := by
    intro n halt hout
    have hnext : stalling (n + 1) = (takeTurn plainText twoAgents (stalling n) sameAgain).mem := by
      simp [stalling, List.range_succ]
    exact hnext ▸ TickStep.turn hout
  have hrun := (((Trace.nil.snoc (hone 0 none (by decide))).snoc (hone 1 none (by decide))).snoc
    (hone 2 none (by decide))).snoc (hone 3 (some "no_progress") (by decide))
  have horderly : ∀ n halt, Orderly twoAgents ⟨stalling n, .turn sameAgain halt, stalling (n + 1)⟩ := by
    rintro n halt inp halt' hact env hreply
    cases hact
    cases hreply
    exact ⟨sameAgain_plain, fun h => by cases h.1⟩
  refine ⟨_, _, hrun, rfl, ?_⟩
  have hagents : ∀ name ∈ twoAgents.agents, PlainOwner (.str name) := by
    intro name hname
    simp only [twoAgents, List.mem_cons, List.not_mem_nil, or_false] at hname
    rcases hname with rfl | rfl
    · exact Or.inr ⟨_, rfl, by decide, by decide⟩
    · exact Or.inr ⟨_, rfl, by decide, by decide⟩
  refine (no_progress_exact plainText twoAgents).2.2 hagents newRun _ _ _ [] _ hrun ⟨by simp [newRun], rfl, rfl⟩ ?_ rfl
  intro e he
  simp only [List.nil_append, List.mem_append, List.mem_cons, List.not_mem_nil, or_false] at he
  rcases he with ((rfl | rfl) | rfl) | rfl
  · exact horderly 0 _
  · exact horderly 1 _
  · exact horderly 2 _
  · exact horderly 3 _

end Rally.Runner
