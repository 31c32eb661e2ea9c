/-
How much work the loop can do (`loop` and `take_turn` of `src/runner.py`), whatever the agents reply.

The loop stops by its turn counter alone, but neither a reprompt nor a recovery advances it. What each dispatched turn
uses up is one of three things: a turn, a recovery, or the patience with replies that have no envelope. A turn or a
recovery restores the patience, so they weigh as much as all of it (`budget`).

- `takeTurn_spends`: a turn that does not end the loop calls one agent and lowers the budget.
- `loop_bounded`: the loop calls no more agents than the bound, and ends within as many turns.
-/
import Rally.Runner.Loop

namespace Rally.Runner

open Py Rally.Envelope Rally.Report

/-! ## Calls of agents -/

/-- the event calls an agent for a turn -/
def Ev.calls : Ev → Bool
  | .dispatch _ => true
  | _ => false

/-- how many turns were dispatched -/
def dispatches (l : List Ev) : ℕ := l.countP Ev.calls

theorem dispatches_append (l m : List Ev) : dispatches (l ++ m) = dispatches l + dispatches m := by
  simp [dispatches]

/-- nothing here calls an agent, and it comes to an end -/
structure Idle {α : Type} (x : Call α) : Prop where
  calls : dispatches x.evs = 0
  ends : x.out ≠ .running

section Idle

variable {α β : Type} {s : RunState} {P : Runtime} {cfg : Cfg}

theorem idle_done (s : RunState) (a : α) : Idle (.done s a) := ⟨rfl, nofun⟩

theorem idle_raise (s : RunState) (e : Exn) : Idle (.raise s e : Call α) := ⟨rfl, nofun⟩

theorem idle_saveThen {m : Mark} {next : RunState → Call α} (h : Idle (next s)) : Idle (saveThen m s next) := by
  refine ⟨?_, h.ends⟩
  rw [saveThen_evs, ← List.singleton_append, dispatches_append, h.calls]
  rfl

theorem idle_attempt {η : Type} {wrap : η → Exn} {x : Except η β} {f : β → Call α} (hf : ∀ b, x = .ok b → Idle (f b)) :
    Idle (Exec.attempt s wrap x f) := by
  cases x with
  | ok b => exact hf b rfl
  | error e => exact idle_raise s _

theorem agentFailed_idle (cfg : Cfg) (s : RunState) (detail : String) : Idle (agentFailed cfg s detail) := by
  refine idle_attempt ?_
  rintro ⟨made, t⟩ -
  cases made with
  | true => exact idle_saveThen (idle_done t none)
  | false => exact idle_saveThen (idle_done _ _)

theorem noEnvelope_idle (cfg : Cfg) (s : RunState) : Idle (noEnvelope cfg s) := by
  apply idle_saveThen
  split_ifs
  · exact agentFailed_idle cfg _ _
  · exact idle_done _ _

theorem judge_idle (cfg : Cfg) (s : RunState) (actor : String) : Idle (judge cfg s actor) := by
  have verdict : ∀ t, Idle (Exec.attempt t Exn.builtin (stuckHalt (blocking s.checklist)) fun r => .done t (some r)) :=
    fun t => idle_attempt fun r _ => idle_done t (some r)
  unfold judge
  simp only
  split_ifs
  · exact idle_done _ _
  · refine idle_attempt ?_
    rintro ⟨made, t⟩ -
    cases made with
    | true => exact idle_saveThen (idle_done t none)
    | false => exact verdict t
  · exact verdict s
  · exact idle_done _ _
  · exact idle_done _ _
  · exact idle_done _ _

theorem conclude_idle (P : Runtime) (cfg : Cfg) (s : RunState) (actor : String) (narrative : Value)
    (mail : MailOutcome) : Idle (conclude P cfg s actor narrative mail) := by
  unfold conclude
  split
  · rename_i evs t ht
    have hsend : dispatches evs = 0 := by
      refine List.countP_eq_zero.2 fun e he => ?_
      obtain ⟨human, n, who, text, rfl⟩ := (mailTurn_spec ht).2 e he
      simp [Ev.calls]
    have hrest : Idle (saveThen .turn (advance P cfg t actor) fun s => judge cfg s actor) :=
      idle_saveThen (judge_idle cfg _ actor)
    refine ⟨?_, hrest.ends⟩
    rw [Exec.pre_evs, dispatches_append, hsend, hrest.calls]
  · exact idle_saveThen (idle_done _ _)
  · exact idle_raise _ _

/-- a turn calls one agent at most -/
theorem takeTurn_calls (P : Runtime) (cfg : Cfg) (s : RunState) (inp : TurnInput) :
    dispatches (takeTurn P cfg s inp).evs ≤ 1 ∧ (takeTurn P cfg s inp).out ≠ .running := by
  have hanswer : Idle (answered P cfg s inp) := by
    unfold answered
    split
    · exact agentFailed_idle cfg s _
    · exact idle_raise _ _
    · split
      · exact noEnvelope_idle cfg _
      · exact idle_attempt fun r _ => conclude_idle P cfg _ _ _ _
  unfold takeTurn
  split
  · exact ⟨Nat.zero_le 1, nofun⟩
  · cases promptFor P cfg s with
    | error e => exact ⟨Nat.zero_le 1, nofun⟩
    | ok p =>
      refine ⟨?_, hanswer.ends⟩
      rw [Exec.attempt, Exec.pre_evs, dispatches_append, hanswer.calls]
      rfl

end Idle

/-! ## The budget -/

/-- recoveries the run has left -/
def recoveriesLeft (cfg : Cfg) (s : RunState) : ℕ :=
  match continuityOf s cfg with
  | .ok c => (c.maxRecoveries - c.recoveriesUsed).toNat
  | .error _ => 0

/-- turns below the limit -/
def turnsLeft (limit : ℤ) (s : RunState) : ℕ := (limit - s.turn).toNat

/-- replies without an envelope, the last one included, before the agent counts as failed -/
def patience (cfg : Cfg) (s : RunState) : ℕ := max 1 (cfg.repromptsMax.toNat + 1 - s.reprompts)

/-- what is left to spend: turns and recoveries, each worth all patience, and the patience left -/
def budget (cfg : Cfg) (limit : ℤ) (s : RunState) : ℕ :=
  (cfg.repromptsMax.toNat + 1) * (turnsLeft limit s + recoveriesLeft cfg s) + patience cfg s

section Budget

variable {P : Runtime} {cfg : Cfg} {limit : ℤ} {s t : RunState}

theorem patience_pos (cfg : Cfg) (s : RunState) : 1 ≤ patience cfg s := le_max_left _ _

theorem patience_full (h : t.reprompts = 0) : patience cfg t = cfg.repromptsMax.toNat + 1 := by
  unfold patience
  omega

/-- with a turn or a recovery used up, patience is full again and yet less is left -/
theorem budget_lt (hless : turnsLeft limit t + recoveriesLeft cfg t + 1 ≤ turnsLeft limit s + recoveriesLeft cfg s)
    (hfull : t.reprompts = 0) : budget cfg limit t + 1 ≤ budget cfg limit s := by
  have hpos := patience_pos cfg s
  have hmul := Nat.mul_le_mul_left (cfg.repromptsMax.toNat + 1) hless
  rw [Nat.mul_add, Nat.mul_one] at hmul
  unfold budget
  rw [patience_full hfull]
  omega

theorem recoveriesLeft_same (h : t.continuity = s.continuity) : recoveriesLeft cfg t = recoveriesLeft cfg s := by
  unfold recoveriesLeft continuityOf
  rw [h]

theorem recoveriesLeft_of {c : Continuity} (hc : continuityOf s cfg = .ok c) :
    recoveriesLeft cfg s = (c.maxRecoveries - c.recoveriesUsed).toNat := by
  unfold recoveriesLeft
  rw [hc]

/-- a handoff uses up a recovery -/
theorem handoff_spends {kind fromActor detail : String} {ids : List Value}
    (h : startSecondWind s cfg kind fromActor detail ids = .ok (true, t)) :
    recoveriesLeft cfg t + 1 = recoveriesLeft cfg s ∧ t.reprompts = 0 ∧ t.turn = s.turn := by
  obtain ⟨c, hc, h⟩ := bind_ok h
  split_ifs at h with hoff
  · cases h
  · obtain ⟨items, -, h⟩ := bind_ok h
    cases h
    refine ⟨?_, rfl, rfl⟩
    have hroom := (not_or.1 hoff).2
    rw [recoveriesLeft_of hc, recoveriesLeft_of rfl]
    push_cast
    omega

/-- an accepted turn restores the patience -/
theorem review_spends {actor : String} {env : Env} {commit : Option String} {narrative : Value}
    (h : review P cfg s actor env commit = .ok (t, narrative)) :
    recoveriesLeft cfg t = recoveriesLeft cfg s ∧ t.reprompts = 0 ∧ t.turn = s.turn := by
  obtain ⟨_, -, h⟩ := bind_ok h
  obtain ⟨c, hc, h⟩ := bind_ok h
  obtain ⟨_, -, h⟩ := bind_ok h
  obtain ⟨_, -, h⟩ := bind_ok h
  obtain ⟨_, -, h⟩ := bind_ok h
  cases h
  refine ⟨?_, rfl, rfl⟩
  rw [recoveriesLeft_of hc, recoveriesLeft_of rfl]

theorem finishSecondWind_left (s : RunState) (actor : String) :
    recoveriesLeft cfg (finishSecondWind s actor) = recoveriesLeft cfg s := by
  unfold finishSecondWind
  split
  · rfl
  · rename_i c hc
    split
    · rfl
    · split_ifs
      · rfl
      · have hs : continuityOf s cfg = .ok c := by rw [continuityOf, hc]
        rw [recoveriesLeft_of hs, recoveriesLeft_of rfl]

/-- the counter goes on -/
theorem advance_spends (P : Runtime) (cfg : Cfg) (s : RunState) (actor : String) :
    recoveriesLeft cfg (advance P cfg s actor) = recoveriesLeft cfg s ∧ (advance P cfg s actor).reprompts = s.reprompts ∧
      (advance P cfg s actor).turn = s.turn + 1 := by
  unfold advance
  dsimp only
  refine ⟨?_, ?_, ?_⟩
  · rw [finishSecondWind_left]
    exact recoveriesLeft_same rfl
  · obtain ⟨c, hc⟩ := finishSecondWind_spec { s with
      digestStreak := if digest P s.checklist = s.lastDigest then s.digestStreak + 1 else 0
      lastDigest := digest P s.checklist, turn := s.turn + 1, actor := nextActor s cfg actor } actor
    rw [hc]
  · obtain ⟨c, hc⟩ := finishSecondWind_spec { s with
      digestStreak := if digest P s.checklist = s.lastDigest then s.digestStreak + 1 else 0
      lastDigest := digest P s.checklist, turn := s.turn + 1, actor := nextActor s cfg actor } actor
    rw [hc]

/-! ## What a turn spends -/

/-- a failed agent goes on by a handoff only -/
theorem agentFailed_spends {detail : String} (h : (agentFailed cfg s detail).out = .ret none) :
    recoveriesLeft cfg (agentFailed cfg s detail).mem + 1 = recoveriesLeft cfg s ∧
      (agentFailed cfg s detail).mem.reprompts = 0 ∧ (agentFailed cfg s detail).mem.turn = s.turn := by
  unfold agentFailed at h ⊢
  obtain ⟨⟨made, t⟩, hr, heq⟩ := Exec.attempt_ret h
  rw [heq] at h ⊢
  cases made with
  | true => exact handoff_spends hr
  | false => cases h

theorem agentFailed_budget {detail : String} (h : (agentFailed cfg s detail).out = .ret none) :
    budget cfg limit (agentFailed cfg s detail).mem + 1 ≤ budget cfg limit s := by
  obtain ⟨hleft, hfull, hturn⟩ := agentFailed_spends h
  refine budget_lt ?_ hfull
  unfold turnsLeft
  rw [hturn]
  omega

/-- no envelope: the patience goes down by one, or the agent counts as failed -/
theorem noEnvelope_budget (h : (noEnvelope cfg s).out = .ret none) :
    budget cfg limit (noEnvelope cfg s).mem + 1 ≤ budget cfg limit s := by
  have hsame : ∀ vs, recoveriesLeft cfg { s with reprompts := s.reprompts + 1, violations := vs } = recoveriesLeft cfg s :=
    fun vs => recoveriesLeft_same rfl
  simp only [noEnvelope, saveThen_out, saveThen_mem] at h ⊢
  split_ifs at h ⊢ with hmax
  · obtain ⟨hleft, hfull, hturn⟩ := agentFailed_spends h
    refine budget_lt ?_ hfull
    rw [hsame] at hleft
    unfold turnsLeft
    rw [hturn]
    dsimp only
    omega
  · unfold budget turnsLeft patience
    simp only [Exec.done, hsame]
    have hroom : s.reprompts + 1 ≤ cfg.repromptsMax.toNat := by
      omega
    omega

/-- the guards go on with what there was, or by a handoff -/
theorem judge_spends {actor : String} (h : (judge cfg s actor).out = .ret none) (h0 : s.reprompts = 0) :
    recoveriesLeft cfg (judge cfg s actor).mem ≤ recoveriesLeft cfg s ∧ (judge cfg s actor).mem.reprompts = 0 ∧
      (judge cfg s actor).mem.turn = s.turn := by
  unfold judge at h ⊢
  simp only at h ⊢
  split_ifs at h ⊢ with hdone hstuck hrec hturns hprog
  · cases h
  · obtain ⟨⟨made, t⟩, hr, heq⟩ := Exec.attempt_ret h
    rw [heq] at h ⊢
    cases made with
    | true =>
      obtain ⟨hleft, hfull, hturn⟩ := handoff_spends hr
      exact ⟨by dsimp only [saveThen_mem, Exec.done]; omega, hfull, hturn⟩
    | false => obtain ⟨r', hr', heq'⟩ := Exec.attempt_ret h; simp only [heq'] at h; cases h
  · obtain ⟨r', hr', heq'⟩ := Exec.attempt_ret h
    rw [heq'] at h
    cases h
  · cases h
  · cases h
  · exact ⟨le_rfl, h0, rfl⟩

/-- an accepted turn uses up a turn -/
theorem conclude_budget {actor : String} {narrative : Value} {mail : MailOutcome} (hlim : (s.turn : ℤ) < limit)
    (h0 : s.reprompts = 0) (h : (conclude P cfg s actor narrative mail).out = .ret none) :
    turnsLeft limit (conclude P cfg s actor narrative mail).mem +
        recoveriesLeft cfg (conclude P cfg s actor narrative mail).mem + 1 ≤ turnsLeft limit s + recoveriesLeft cfg s ∧
      (conclude P cfg s actor narrative mail).mem.reprompts = 0 := by
  unfold conclude at h ⊢
  split at h
  · rename_i evs t ht
    have hmail : recoveriesLeft cfg t = recoveriesLeft cfg s ∧ t.reprompts = s.reprompts ∧ t.turn = s.turn := by
      rcases (mailTurn_spec ht).1 with rfl | ⟨m, rfl⟩
      · exact ⟨rfl, rfl, rfl⟩
      · exact ⟨recoveriesLeft_same rfl, rfl, rfl⟩
    obtain ⟨hleft, hrep, hturn⟩ := advance_spends P cfg t actor
    have hzero : (advance P cfg t actor).reprompts = 0 := by rw [hrep, hmail.2.1, h0]
    obtain ⟨hleft', hfull, hturn'⟩ := judge_spends h hzero
    simp only [Exec.pre_mem, saveThen_mem]
    refine ⟨?_, hfull⟩
    unfold turnsLeft
    rw [hturn', hturn, hmail.2.2]
    push_cast
    omega
  · cases h
  · cases h

/-- **A turn that goes on spends**: it lowers the budget. -/
theorem takeTurn_spends {inp : TurnInput} (hlim : (s.turn : ℤ) < limit)
    (h : (takeTurn P cfg s inp).out = .ret none) :
    budget cfg limit (takeTurn P cfg s inp).mem + 1 ≤ budget cfg limit s := by
  have hnotice : ∀ e, budget cfg limit (noticed s e) = budget cfg limit s ∧ (noticed s e).turn = s.turn ∧
      turnsLeft limit (noticed s e) + recoveriesLeft cfg (noticed s e) = turnsLeft limit s + recoveriesLeft cfg s := by
    intro e
    cases e <;> exact ⟨rfl, rfl, rfl⟩
  unfold takeTurn at h ⊢
  split at h
  · cases h
  · obtain ⟨p, -, heq⟩ := Exec.attempt_ret h
    rw [heq] at h ⊢
    rw [Exec.pre_mem]
    rw [Exec.pre_out] at h
    unfold answered at h ⊢
    split at h
    · exact agentFailed_budget h
    · cases h
    · dsimp only at h ⊢
      split at h
      · rw [← (hnotice inp.escaped).1]
        exact noEnvelope_budget h
      · obtain ⟨⟨t, narrative⟩, hrev, heq'⟩ := Exec.attempt_ret h
        rw [heq'] at h ⊢
        obtain ⟨hleft, hfull, hturn⟩ := review_spends hrev
        obtain ⟨hless, hfull'⟩ := conclude_budget (by rw [hturn, (hnotice inp.escaped).2.1]; exact hlim) hfull h
        refine budget_lt ?_ hfull'
        have hroom := (hnotice inp.escaped).2.2
        have hsame : turnsLeft limit t = turnsLeft limit (noticed s inp.escaped) := by unfold turnsLeft; rw [hturn]
        dsimp only at hless ⊢
        omega

end Budget

/-! ## The loop -/

section Loop

variable {P : Runtime} {cfg : Cfg} {limit : ℤ} {s : RunState}

theorem outOfTurns_idle (s : RunState) : Idle (outOfTurns s) := idle_saveThen (idle_done _ _)

theorem haltWith_idle (s : RunState) (reason : String) : Idle (haltWith s reason) := idle_saveThen (idle_done _ _)

/-- the loop spends its budget, call by call, and is still running only before the inputs outnumber it -/
theorem loop_budget (inputs : List TurnInput) :
    dispatches (loop P cfg limit s inputs).evs ≤ budget cfg limit s ∧
      ((loop P cfg limit s inputs).out = .running → inputs.length < budget cfg limit s) := by
  have hone : ∀ s, 1 ≤ budget cfg limit s := fun s => (patience_pos cfg s).trans (Nat.le_add_left _ _)
  induction inputs generalizing s with
  | nil =>
    rw [loop_nil]
    split_ifs
    · exact ⟨Nat.zero_le _, fun _ => hone s⟩
    · have hidle := outOfTurns_idle s
      exact ⟨by rw [hidle.calls]; exact Nat.zero_le _, fun h => absurd h hidle.ends⟩
  | cons inp rest ih =>
    rw [loop_cons]
    split_ifs with hlim
    · obtain ⟨hcalls, hends⟩ := takeTurn_calls P cfg s inp
      cases hout : (takeTurn P cfg s inp).out with
      | running => exact absurd hout hends
      | raised e =>
        rw [Exec.bind, hout]
        exact ⟨hcalls.trans (hone s), nofun⟩
      | ret halt =>
        rw [Exec.bind_of_ret hout]
        simp only [Exec.pre_evs, Exec.pre_out, dispatches_append]
        cases halt with
        | some reason =>
          have hidle := haltWith_idle (takeTurn P cfg s inp).mem reason
          rw [Option.elim]
          exact ⟨by rw [hidle.calls]; exact hcalls.trans (hone s), fun h => absurd h hidle.ends⟩
        | none =>
          have hspent := takeTurn_spends hlim hout
          obtain ⟨hloop, hrun⟩ := @ih (takeTurn P cfg s inp).mem
          rw [Option.elim]
          refine ⟨by omega, fun h => ?_⟩
          have hlt := hrun h
          rw [List.length_cons]
          omega
    · have hidle := outOfTurns_idle s
      exact ⟨by rw [hidle.calls]; exact Nat.zero_le _, fun h => absurd h hidle.ends⟩

end Loop

/-- **Bounded work.** Whatever the agents reply and whatever becomes of the mail, the loop dispatches at most
`repromptsMax + 1` turns for each turn below the limit, for each recovery left and once more; and it has ended, by a
halt or an exception, when the inputs are as many. -/
theorem loop_bounded {P : Runtime} {cfg : Cfg} (hmax : 0 ≤ cfg.repromptsMax) (limit : ℤ) (s : RunState)
    (inputs : List TurnInput) :
    (dispatches (loop P cfg limit s inputs).evs : ℤ) ≤
        (cfg.repromptsMax + 1) * (turnsLeft limit s + recoveriesLeft cfg s + 1) ∧
      ((cfg.repromptsMax + 1) * (turnsLeft limit s + recoveriesLeft cfg s + 1) ≤ inputs.length →
        (loop P cfg limit s inputs).out ≠ .running) := by
  have hbudget : (budget cfg limit s : ℤ) ≤ (cfg.repromptsMax + 1) * (turnsLeft limit s + recoveriesLeft cfg s + 1) := by
    have hpatience : patience cfg s ≤ cfg.repromptsMax.toNat + 1 := by
      unfold patience
      omega
    have hnat : (cfg.repromptsMax.toNat : ℤ) = cfg.repromptsMax := Int.toNat_of_nonneg hmax
    calc (budget cfg limit s : ℤ)
        ≤ ((cfg.repromptsMax.toNat + 1) * (turnsLeft limit s + recoveriesLeft cfg s) + (cfg.repromptsMax.toNat + 1) : ℕ) :=
          by unfold budget; omega
      _ = (cfg.repromptsMax + 1) * (turnsLeft limit s + recoveriesLeft cfg s + 1) := by push_cast; rw [hnat]; ring
  obtain ⟨hcalls, hrun⟩ := @loop_budget P cfg limit s inputs
  refine ⟨?_, fun hlen hout => ?_⟩
  · omega
  · have hlt := hrun hout
    omega

/-- replies without an envelope, whoever is asked -/
def silentTurns : List TurnInput := List.replicate 18 ⟨.replied none, none, none, .broken⟩

/-- two handoffs and three agents' patience: six turns, where eighteen are allowed -/
theorem loop_bounded_sample : dispatches (loop plainText { twoAgents with secondWind := true } 6 newRun silentTurns).evs = 6 ∧
    (dispatches (loop plainText { twoAgents with secondWind := true } 6 newRun silentTurns).evs : ℤ) ≤ 18 ∧
    (loop plainText { twoAgents with secondWind := true } 6 newRun silentTurns).out ≠ .running := by
  have hbound := @loop_bounded plainText { twoAgents with secondWind := true } (by decide) 6 newRun silentTurns
  exact ⟨by decide, hbound.1, hbound.2 (by decide)⟩

end Rally.Runner
