/-
How the loop ends (`src/runner.py`), how its outcome is reported (`src/report.py`) and what the console makes of the
halt it saved (`src/console.py`).

A turn that ends before its guards (kill switch, failed agent, refused mail) writes its own halt. After the guards it
only returns an outcome, and the loop keeps the halt it finds in the state before it writes one.

- `loop_complete`: an outcome that classifies as a completion is the word `complete`, and every item is done.
- `halt_agrees`: the saved halt agrees with the outcome exactly when no halt is carried into the last turn that reads
  as a completion where the turn's verdict does not, or the other way round. A loop that starts without a halt
  carries none (`lastTurn_fresh`).
- `stale_halt_kept`: a note resumes a run that halted on a failed agent, the resumed loop returns `complete`, and the
  saved halt still reads `agent_error`.
-/
import Rally.Runner.Loop

namespace Rally.Runner

open Py Rally.Envelope Rally.Report

/-! ## How a turn ends the loop -/

/-- the mail of the turn is refused: before it has a text, or by the provider that gets its text -/
def Refused (cfg : Cfg) (s : RunState) (narrative : Value) (mail : MailOutcome) : Prop :=
  cfg.mailEnabled = true ∧ (humanOf s cfg).isSome ∧
    ((∃ detail, mail = .refused detail) ∨ (∃ detail, mail = .declined detail) ∧ ∃ text, narrative = .str text)

/-- the turn goes through to the guards: no kill switch, an envelope, and no refused mail -/
def Judged (cfg : Cfg) (s : RunState) (inp : TurnInput) : Prop :=
  stopNote s = none ∧ ∃ env, inp.reply = .replied (some env) ∧ ¬ Refused cfg s (narrativeOf env) inp.mail

/-- the checklist that `reconcile` accepts in this turn is complete -/
def Finishes (cfg : Cfg) (s : RunState) (inp : TurnInput) : Prop :=
  ∃ env c out vs, inp.reply = .replied (some env) ∧ continuityOf s cfg = .ok c ∧
    reconcile s.checklist (proposedOf env) s.actor cfg.rejectionsMax (s.turn ≤ 1) (recoveryItems c s.actor) =
      .ok (out, vs) ∧ isComplete out = true

/-- a halt with the turn's own reason, which reads as the outcome does: as no completion -/
def OwnHalt (t : RunState) (outcome : String) : Prop :=
  ∃ h, t.halt = some h ∧ Incomplete h.reason ∧ Incomplete outcome

section Endings

variable {P : Runtime} {cfg : Cfg} {s : RunState}

theorem stuckHalt_incomplete {items : List Item} {r : String} (h : stuckHalt (blocking items) = .ok r) :
    Incomplete r := by
  have hstate : ∀ it ∈ blocking items, it.state = .blocked ∨ it.state = .disputed := by
    intro it hit
    simpa using (List.mem_filter.1 hit).2
  unfold stuckHalt at h
  split at h
  · cases h
  · rename_i it rest heq
    obtain ⟨idText, -, h⟩ := bind_ok h
    cases h
    rw [String.append_assoc]
    rcases hstate it (by rw [heq]; exact List.mem_cons_self) with hs | hs <;> rw [hs]
    · exact incomplete_append (c := 'b') (d := 'b') rfl (by decide) (by decide) (by decide)
    · exact incomplete_append (c := 'd') (d := 'd') rfl (by decide) (by decide) (by decide)

/-- the verdict of the guards: the halt found is left, and only a complete checklist reads as complete -/
theorem judge_ended {actor r : String} (h : (judge cfg s actor).out = .ret (some r)) :
    (judge cfg s actor).mem.halt = s.halt ∧ (judge cfg s actor).mem.checklist = s.checklist ∧
      (r = "complete" ∧ isComplete s.checklist = true ∨ Incomplete r ∧ isComplete s.checklist = false) := by
  unfold judge at h ⊢
  simp only at h ⊢
  split_ifs at h ⊢ with hdone hstuck hrec hturns hprog
  · cases h
    exact ⟨rfl, rfl, Or.inl ⟨rfl, hdone⟩⟩
  · obtain ⟨⟨made, t⟩, hr, heq⟩ := Exec.attempt_ret h
    rw [heq] at h ⊢
    obtain ⟨hlist, -, -, -, hhalt⟩ := startSecondWind_spec hr
    cases made with
    | true => cases h
    | false =>
      obtain ⟨r', hr', heq'⟩ := Exec.attempt_ret h
      simp only [heq'] at h ⊢
      cases h
      exact ⟨hhalt, hlist, Or.inr ⟨stuckHalt_incomplete hr', by simpa using hdone⟩⟩
  · obtain ⟨r', hr', heq'⟩ := Exec.attempt_ret h
    rw [heq'] at h ⊢
    cases h
    exact ⟨rfl, rfl, Or.inr ⟨stuckHalt_incomplete hr', by simpa using hdone⟩⟩
  · cases h
    exact ⟨rfl, rfl, Or.inr ⟨incomplete_word (by simp), by simpa using hdone⟩⟩
  · cases h
    exact ⟨rfl, rfl, Or.inr ⟨incomplete_word (by simp), by simpa using hdone⟩⟩
  · cases h

/-- going on, the guards leave the halt found or clear it -/
theorem judge_continues {actor : String} (h : (judge cfg s actor).out = .ret none) :
    (judge cfg s actor).mem.halt = s.halt ∨ (judge cfg s actor).mem.halt = none := by
  unfold judge at h ⊢
  simp only at h ⊢
  split_ifs at h ⊢ with hdone hstuck hrec hturns hprog
  · cases h
  · obtain ⟨⟨made, t⟩, hr, heq⟩ := Exec.attempt_ret h
    rw [heq] at h ⊢
    obtain ⟨-, -, -, -, hhalt⟩ := startSecondWind_spec hr
    cases made with
    | true => exact Or.inr hhalt
    | false => obtain ⟨r', hr', heq'⟩ := Exec.attempt_ret h; simp only [heq'] at h; cases h
  · obtain ⟨r', hr', heq'⟩ := Exec.attempt_ret h
    rw [heq'] at h
    cases h
  · cases h
  · cases h
  · exact Or.inl rfl

/-- a failed agent ends the loop with its own halt -/
theorem agentFailed_ended {detail r : String} (h : (agentFailed cfg s detail).out = .ret (some r)) :
    OwnHalt (agentFailed cfg s detail).mem r := by
  obtain ⟨⟨made, t⟩, hr, heq⟩ := Exec.attempt_ret h
  unfold agentFailed at h ⊢
  rw [heq] at h ⊢
  cases made with
  | true => cases h
  | false => cases h; exact ⟨_, rfl, incomplete_word (by simp), incomplete_word (by simp)⟩

theorem agentFailed_continues {detail : String} (h : (agentFailed cfg s detail).out = .ret none) :
    (agentFailed cfg s detail).mem.halt = none := by
  obtain ⟨⟨made, t⟩, hr, heq⟩ := Exec.attempt_ret h
  unfold agentFailed at h ⊢
  rw [heq] at h ⊢
  cases made with
  | true => exact (startSecondWind_spec hr).2.2.2.2
  | false => cases h

theorem noEnvelope_ended {r : String} (h : (noEnvelope cfg s).out = .ret (some r)) :
    OwnHalt (noEnvelope cfg s).mem r := by
  simp only [noEnvelope, saveThen_out, saveThen_mem] at h ⊢
  split_ifs at h ⊢
  · exact agentFailed_ended h
  · cases h

theorem noEnvelope_continues (h : (noEnvelope cfg s).out = .ret none) :
    (noEnvelope cfg s).mem.halt = s.halt ∨ (noEnvelope cfg s).mem.halt = none := by
  simp only [noEnvelope, saveThen_out, saveThen_mem] at h ⊢
  split_ifs at h ⊢
  · exact Or.inr (agentFailed_continues h)
  · exact Or.inl rfl

theorem mailTurn_refused {actor : String} {narrative : Value} {mail : MailOutcome} {text : String}
    (h : mailTurn cfg s actor narrative mail = .error (.sendBlocked text)) : Refused cfg s narrative mail := by
  unfold mailTurn at h
  split_ifs at h with hmail
  split at h
  · cases h
  · rename_i hh
    cases h
    exact ⟨hmail, by rw [hh]; rfl, .inl ⟨_, rfl⟩⟩
  · cases h
  · rename_i hh _ _
    split at h
    · unfold postUpdate at h
      split at h <;> cases h
      exact ⟨hmail, by rw [hh]; rfl, .inr ⟨⟨_, rfl⟩, _, rfl⟩⟩
    · cases h

/-- a refused mail raises the refusal -/
theorem Refused.raised {narrative : Value} {mail : MailOutcome} (h : Refused cfg s narrative mail) (actor : String) :
    ∃ text, mailTurn cfg s actor narrative mail = .error (.sendBlocked text) := by
  obtain ⟨hmail, hh, h⟩ := h
  obtain ⟨human, hh⟩ := Option.isSome_iff_exists.1 hh
  rcases h with ⟨detail, rfl⟩ | ⟨⟨detail, rfl⟩, text, rfl⟩ <;> exact ⟨detail, by simp [mailTurn, postUpdate, hmail, hh]⟩

theorem mailTurn_accepted {actor : String} {narrative : Value} {mail : MailOutcome} {evs : List Ev} {t : RunState}
    (h : mailTurn cfg s actor narrative mail = .ok (evs, t)) : ¬ Refused cfg s narrative mail := by
  intro hrefused
  obtain ⟨text, hraised⟩ := hrefused.raised actor
  rw [h] at hraised
  cases hraised

/-- only what is a text is cut to a text -/
theorem sliceTo_str {v w : Value} {n : ℕ} (h : v.sliceTo n = .ok w) : (∃ text, w = .str text) ↔ ∃ text, v = .str text := by
  cases v with
  | str text => cases h; simp
  | list xs => cases h; simp
  | _ => cases h

/-- whether a mail is refused does not depend on the length of its text -/
theorem Refused.cut {narrative text : Value} {mail : MailOutcome} {n : ℕ} (h : narrative.sliceTo n = .ok text) :
    Refused cfg s text mail ↔ Refused cfg s narrative mail := by
  unfold Refused
  rw [sliceTo_str h]

theorem Refused.congr {t : RunState} {narrative : Value} {mail : MailOutcome} (h : t.commissionedBy = s.commissionedBy) :
    Refused cfg t narrative mail ↔ Refused cfg s narrative mail := by
  unfold Refused humanOf
  rw [h]

/-- the text of the mail is the cut narrative of the reply -/
theorem review_narrative {t : RunState} {actor : String} {env : Env} {commit : Option String} {narrative : Value}
    (h : review P cfg s actor env commit = .ok (t, narrative)) : (narrativeOf env).sliceTo 4000 = .ok narrative := by
  obtain ⟨_, -, h⟩ := bind_ok h
  obtain ⟨_, -, h⟩ := bind_ok h
  obtain ⟨_, -, h⟩ := bind_ok h
  obtain ⟨_, -, h⟩ := bind_ok h
  obtain ⟨text, htext, h⟩ := bind_ok h
  cases h
  exact htext

/-- a concluded turn: its mail was refused and it wrote its own halt, or the guards have spoken -/
theorem conclude_ended {actor r : String} {narrative : Value} {mail : MailOutcome}
    (h : (conclude P cfg s actor narrative mail).out = .ret (some r)) :
    (Refused cfg s narrative mail ∧ OwnHalt (conclude P cfg s actor narrative mail).mem r) ∨
      (¬ Refused cfg s narrative mail ∧ (conclude P cfg s actor narrative mail).mem.halt = s.halt ∧
        (conclude P cfg s actor narrative mail).mem.checklist = s.checklist ∧
        (r = "complete" ∧ isComplete s.checklist = true ∨ Incomplete r ∧ isComplete s.checklist = false)) := by
  unfold conclude at h ⊢
  split at h
  · rename_i evs t ht
    obtain ⟨-, hlist, hhalt, -⟩ := mailTurn_works (P := P) ht
    obtain ⟨hlist', hhalt', -, -⟩ := advance_spec P cfg t actor
    obtain ⟨h1, h2, h3⟩ := judge_ended h
    rw [hlist', hlist] at h2 h3
    exact Or.inr ⟨mailTurn_accepted ht, h1.trans (hhalt'.trans hhalt), h2, h3⟩
  · rename_i text ht
    cases h
    refine Or.inl ⟨mailTurn_refused ht, _, rfl, incomplete_word (by simp), ?_⟩
    exact incomplete_append (c := 's') (d := 's') rfl (by decide) (by decide) (by decide)
  · cases h

theorem conclude_continues {actor : String} {narrative : Value} {mail : MailOutcome}
    (h : (conclude P cfg s actor narrative mail).out = .ret none) :
    (conclude P cfg s actor narrative mail).mem.halt = s.halt ∨
      (conclude P cfg s actor narrative mail).mem.halt = none := by
  unfold conclude at h ⊢
  split at h
  · rename_i evs t ht
    obtain ⟨-, -, hhalt, -⟩ := mailTurn_works (P := P) ht
    obtain ⟨-, hhalt', -, -⟩ := advance_spec P cfg t actor
    rcases judge_continues h with hj | hj
    · exact Or.inl (hj.trans (hhalt'.trans hhalt))
    · exact Or.inr hj
  · cases h
  · cases h

theorem noticed_spec (s : RunState) (escaped : Option (List String)) :
    ∃ v, noticed s escaped = { s with violations := v } := by
  cases escaped with
  | none => exact ⟨s.violations, rfl⟩
  | some paths => exact ⟨_, rfl⟩

/-- **How a turn ends the loop.** Before its guards it writes its own halt. After them the halt it found stays, and
its outcome is `complete` exactly when it completes the checklist. -/
theorem takeTurn_ended {inp : TurnInput} {r : String} (h : (takeTurn P cfg s inp).out = .ret (some r)) :
    (¬ Judged cfg s inp ∧ OwnHalt (takeTurn P cfg s inp).mem r) ∨
      (Judged cfg s inp ∧ (takeTurn P cfg s inp).mem.halt = s.halt ∧
        (r = "complete" ∧ Finishes cfg s inp ∧ isComplete (takeTurn P cfg s inp).mem.checklist = true ∨
          Incomplete r ∧ ¬ Finishes cfg s inp)) := by
  unfold takeTurn at h ⊢
  split at h
  · rename_i note hnote
    cases h
    refine Or.inl ⟨fun hj => ?_, _, rfl, incomplete_word (by simp), incomplete_word (by simp)⟩
    rw [hj.1] at hnote; cases hnote
  · rename_i hstop
    obtain ⟨p, -, heq⟩ := Exec.attempt_ret h
    simp only [heq] at h ⊢
    unfold answered at h ⊢
    cases hreply : inp.reply with
    | failed text =>
      simp only [hreply] at h ⊢
      refine Or.inl ⟨fun hj => ?_, agentFailed_ended h⟩
      obtain ⟨env, henv, -⟩ := hj.2
      simp [hreply] at henv
    | raised e =>
      simp only [hreply] at h
      cases h
    | replied env =>
      simp only [hreply] at h ⊢
      cases env with
      | none =>
        refine Or.inl ⟨fun hj => ?_, noEnvelope_ended h⟩
        obtain ⟨env, henv, -⟩ := hj.2
        simp [hreply] at henv
      | some env =>
        obtain ⟨v, hv⟩ := noticed_spec s inp.escaped
        obtain ⟨⟨t, narrative⟩, hrev, heq⟩ := Exec.attempt_ret h
        simp only [heq, Exec.pre_out, Exec.pre_mem] at h ⊢
        obtain ⟨c, vs, hc, hacc, -, hhalt, -, -, hsame⟩ := review_spec hrev
        rw [hv] at hc hacc hhalt hsame
        have hmail : Refused cfg t narrative inp.mail ↔ Refused cfg s (narrativeOf env) inp.mail :=
          (@Refused.congr cfg s t narrative inp.mail hsame.commissionedBy).trans (Refused.cut (review_narrative hrev))
        have hfin : Finishes cfg s inp ↔ isComplete t.checklist = true := by
          constructor
          · rintro ⟨env', c', out, vs', henv, hc', hacc', hdone⟩
            rw [hreply] at henv
            cases henv
            obtain rfl : c' = c := Except.ok.inj (hc'.symm.trans hc)
            obtain ⟨rfl, -⟩ := Prod.mk.inj (Except.ok.inj (hacc'.symm.trans hacc))
            exact hdone
          · exact fun hdone => ⟨env, c, _, vs, hreply, hc, hacc, hdone⟩
        rcases conclude_ended h with ⟨hrefused, hown⟩ | ⟨hspared, h1, h2, h3⟩
        · refine Or.inl ⟨fun hj => ?_, hown⟩
          obtain ⟨env', henv, hspared⟩ := hj.2
          rw [hreply] at henv
          cases henv
          exact hspared (hmail.1 hrefused)
        · refine Or.inr ⟨⟨hstop, env, hreply, fun hr => hspared (hmail.2 hr)⟩, h1.trans hhalt, ?_⟩
          · rw [hfin, h2]
            rcases h3 with ⟨rfl, hdone⟩ | ⟨hinc, hdone⟩
            · exact Or.inl ⟨rfl, hdone, hdone⟩
            · exact Or.inr ⟨hinc, by simp [hdone]⟩

/-- a turn after which the loop goes on leaves the halt it found or clears it -/
theorem takeTurn_continues {inp : TurnInput} (h : (takeTurn P cfg s inp).out = .ret none) :
    (takeTurn P cfg s inp).mem.halt = s.halt ∨ (takeTurn P cfg s inp).mem.halt = none := by
  unfold takeTurn at h ⊢
  split at h
  · cases h
  · rename_i hstop
    obtain ⟨p, -, heq⟩ := Exec.attempt_ret h
    simp only [heq] at h ⊢
    unfold answered at h ⊢
    cases hreply : inp.reply with
    | failed text =>
      simp only [hreply] at h ⊢
      exact Or.inr (agentFailed_continues h)
    | raised e =>
      simp only [hreply] at h
      cases h
    | replied env =>
      obtain ⟨v, hv⟩ := noticed_spec s inp.escaped
      simp only [hreply, hv] at h ⊢
      cases env with
      | none => exact noEnvelope_continues h
      | some env =>
        obtain ⟨⟨t, narrative⟩, hrev, heq⟩ := Exec.attempt_ret h
        simp only [heq, Exec.pre_out, Exec.pre_mem] at h ⊢
        obtain ⟨-, -, -, -, -, hhalt, -⟩ := review_spec hrev
        rcases conclude_continues h with hj | hj
        · exact Or.inl (hj.trans hhalt)
        · exact Or.inr hj

end Endings

/-! ## The outcome -/

section Outcome

variable {P : Runtime} {cfg : Cfg} {limit : ℤ} {s : RunState} {inputs : List TurnInput} {r : String}

/-- a loop that returned, step by step: out of turns, or after a turn that ended it, or one more turn -/
theorem loop_cons_ret {inp : TurnInput} {rest : List TurnInput} (hlim : (s.turn : ℤ) < limit)
    (h : (loop P cfg limit s (inp :: rest)).out = .ret r) :
    (∃ reason, (takeTurn P cfg s inp).out = .ret (some reason) ∧ r = reason ∧
        loop P cfg limit s (inp :: rest) =
          (haltWith (takeTurn P cfg s inp).mem reason).pre (takeTurn P cfg s inp).evs) ∨
      ((takeTurn P cfg s inp).out = .ret none ∧ (loop P cfg limit (takeTurn P cfg s inp).mem rest).out = .ret r ∧
        loop P cfg limit s (inp :: rest) =
          (loop P cfg limit (takeTurn P cfg s inp).mem rest).pre (takeTurn P cfg s inp).evs) := by
  rw [loop_cons, if_pos hlim] at h ⊢
  obtain ⟨halt, hturn, hret, heq⟩ := Exec.bind_ret h
  rw [heq]
  cases halt with
  | some reason =>
    cases hret
    exact Or.inl ⟨r, hturn, rfl, rfl⟩
  | none => exact Or.inr ⟨hturn, hret, rfl⟩

/-- the last thing the loop does is to save the state it ends with -/
theorem loop_saved (h : (loop P cfg limit s inputs).out = .ret r) :
    ∃ l m, (loop P cfg limit s inputs).evs = l ++ [.save m (loop P cfg limit s inputs).mem] := by
  induction inputs generalizing s with
  | nil =>
    rw [loop_nil] at h ⊢
    split_ifs at h ⊢
    exact ⟨[], _, rfl⟩
  | cons inp rest ih =>
    by_cases hlim : (s.turn : ℤ) < limit
    · rcases loop_cons_ret hlim h with ⟨reason, -, -, heq⟩ | ⟨-, hret, heq⟩
      · rw [heq]
        exact ⟨_, _, rfl⟩
      · obtain ⟨l, m, hl⟩ := ih hret
        rw [heq]
        exact ⟨(takeTurn P cfg s inp).evs ++ l, m, by simp [hl]⟩
    · rw [loop_cons, if_neg hlim]
      exact ⟨[], _, rfl⟩

/-- the loop returns a reason -/
theorem loop_reason (h : (loop P cfg limit s inputs).out = .ret r) : r ≠ "" := by
  have limit_ne : ∀ s : RunState, (outOfTurns s).out = .ret r → r ≠ "" := by
    intro s hs
    cases hs
    decide
  induction inputs generalizing s with
  | nil =>
    rw [loop_nil] at h
    split_ifs at h
    exact limit_ne s h
  | cons inp rest ih =>
    by_cases hlim : (s.turn : ℤ) < limit
    · rcases loop_cons_ret hlim h with ⟨reason, hturn, rfl, -⟩ | ⟨-, hret, -⟩
      · rcases takeTurn_ended hturn with ⟨-, _, -, -, hinc⟩ | ⟨-, -, ⟨rfl, -⟩ | ⟨hinc, -⟩⟩
        · exact hinc.nonempty
        · decide
        · exact hinc.nonempty
      · exact ih hret
    · rw [loop_cons, if_neg hlim] at h
      exact limit_ne s h

/-- **Only a complete checklist completes.** An outcome that classifies as a completion is the word `complete`, and
the loop ends with every item done. -/
theorem loop_complete (h : (loop P cfg limit s inputs).out = .ret r) (hc : (classify r).1 = .complete) :
    r = "complete" ∧ isComplete (loop P cfg limit s inputs).mem.checklist = true := by
  have limit_no : ∀ s : RunState, (outOfTurns s).out = .ret r → False := by
    intro s hs
    cases hs
    revert hc
    decide
  induction inputs generalizing s with
  | nil =>
    rw [loop_nil] at h
    split_ifs at h
    exact (limit_no s h).elim
  | cons inp rest ih =>
    by_cases hlim : (s.turn : ℤ) < limit
    · rcases loop_cons_ret hlim h with ⟨reason, hturn, rfl, heq⟩ | ⟨-, hret, heq⟩
      · have no : ¬ Incomplete r := fun hinc => by rw [hinc.report] at hc; cases hc
        rcases takeTurn_ended hturn with ⟨-, _, -, -, hinc⟩ | ⟨-, -, ⟨rfl, -, hdone⟩ | ⟨hinc, -⟩⟩
        · exact absurd hinc no
        · rw [heq]
          exact ⟨rfl, hdone⟩
        · exact absurd hinc no
      · rw [heq]
        exact ih hret
    · rw [loop_cons, if_neg hlim] at h
      exact (limit_no s h).elim

/-- the reason in the saved halt reads as the outcome does, to the console and to the report -/
structure Agree (reason outcome : String) : Prop where
  console : status reason = .complete ↔ outcome = "complete"
  report : (classify reason).1 = (classify outcome).1

theorem Agree.refl_complete : Agree "complete" "complete" := ⟨by decide, rfl⟩

theorem Agree.of_incomplete {reason outcome : String} (h : Incomplete reason) (h' : Incomplete outcome) :
    Agree reason outcome :=
  ⟨iff_of_false h.console h'.ne, h.report.trans h'.report.symm⟩

/-- `t` and `inp` are the state and the input of the turn with which the loop ends -/
inductive LastTurn (P : Runtime) (cfg : Cfg) (limit : ℤ) :
    RunState → List TurnInput → RunState → TurnInput → Prop where
  | here {s : RunState} {inp : TurnInput} {rest : List TurnInput} (below : (s.turn : ℤ) < limit)
      (ends : (takeTurn P cfg s inp).out ≠ .ret none) : LastTurn P cfg limit s (inp :: rest) s inp
  | later {s t : RunState} {inp last : TurnInput} {rest : List TurnInput} (below : (s.turn : ℤ) < limit)
      (goesOn : (takeTurn P cfg s inp).out = .ret none)
      (tail : LastTurn P cfg limit (takeTurn P cfg s inp).mem rest t last) :
    LastTurn P cfg limit s (inp :: rest) t last

/-- no halt is carried into the turn, or the turn ends before its guards, or the halt reads as a completion exactly
when the turn completes the checklist -/
def CleanTurn (cfg : Cfg) (s : RunState) (inp : TurnInput) : Prop :=
  ∀ h, s.halt = some h → Judged cfg s inp →
    (status h.reason = .complete ↔ Finishes cfg s inp) ∧ ((classify h.reason).1 = .complete ↔ Finishes cfg s inp)

/-- the turn that ends the loop: what it saves agrees with what it returns exactly when it is clean -/
theorem ending_agrees {inp : TurnInput} (hturn : (takeTurn P cfg s inp).out = .ret (some r)) :
    (∃ h, (haltWith (takeTurn P cfg s inp).mem r).mem.halt = some h ∧ Agree h.reason r) ↔ CleanTurn cfg s inp := by
  have saved : (haltWith (takeTurn P cfg s inp).mem r).mem.halt =
      some ((takeTurn P cfg s inp).mem.halt.getD ⟨r, ""⟩) := rfl
  rw [saved]
  rcases takeTurn_ended hturn with ⟨hno, h, hh, hinc, hinc'⟩ | ⟨hj, hh, hcase⟩
  · rw [hh]
    exact iff_of_true ⟨h, rfl, .of_incomplete hinc hinc'⟩ fun _ _ hj => absurd hj hno
  · rw [hh]
    cases hs : s.halt with
    | none =>
      refine iff_of_true ⟨_, rfl, ?_⟩ fun _ h' => by rw [hs] at h'; cases h'
      rcases hcase with ⟨rfl, -⟩ | ⟨hinc, -⟩
      · exact .refl_complete
      · exact .of_incomplete hinc hinc
    | some h =>
      simp only [Option.getD_some, Option.some.injEq, exists_eq_left']
      have hclass : ∀ w, (classify w).1 = .halt ↔ ¬ (classify w).1 = .complete := by
        intro w
        cases (classify w).1 <;> simp
      constructor
      · rintro ⟨h1, h2⟩ h' hh' -
        rw [hs] at hh'
        obtain rfl := Option.some.inj hh'
        rcases hcase with ⟨rfl, hfin, -⟩ | ⟨hinc, hfin⟩
        · exact ⟨iff_of_true (h1.2 rfl) hfin, iff_of_true (h2.trans (by decide)) hfin⟩
        · exact ⟨iff_of_false (fun hc => hinc.ne (h1.1 hc)) hfin,
            iff_of_false ((hclass _).1 (h2.trans hinc.report)) hfin⟩
      · intro hclean
        obtain ⟨h1, h2⟩ := hclean h hs hj
        rcases hcase with ⟨rfl, hfin, -⟩ | ⟨hinc, hfin⟩
        · exact ⟨iff_of_true (h1.2 hfin) rfl, (h2.2 hfin).trans (by decide)⟩
        · exact ⟨iff_of_false (fun hc => hfin (h1.1 hc)) hinc.ne,
            ((hclass _).2 fun hc => hfin (h2.1 hc)).trans hinc.report.symm⟩

/-- **When the saved halt agrees with the outcome.** For every state the loop starts from and all inputs, when it
returns: exactly when the turn that ended it, if any, is clean. -/
theorem halt_agrees (h : (loop P cfg limit s inputs).out = .ret r) :
    (∃ saved, (Exec.persist Ev.saved s (loop P cfg limit s inputs).evs).halt = some saved ∧ Agree saved.reason r) ↔
      ∀ t inp, LastTurn P cfg limit s inputs t inp → CleanTurn cfg t inp := by
  have hfile : Exec.persist Ev.saved s (loop P cfg limit s inputs).evs = (loop P cfg limit s inputs).mem := by
    obtain ⟨l, m, hl⟩ := loop_saved h
    rw [hl, Exec.persist_snoc]
    rfl
  rw [hfile]
  have exhausted : ∀ s : RunState, (outOfTurns s).out = .ret r →
      ∃ saved, (outOfTurns s).mem.halt = some saved ∧ Agree saved.reason r := by
    intro s hs
    cases hs
    exact ⟨_, rfl, .of_incomplete (incomplete_word (by simp)) (incomplete_word (by simp))⟩
  clear hfile
  induction inputs generalizing s with
  | nil =>
    rw [loop_nil] at h ⊢
    split_ifs at h ⊢ with hlim
    exact iff_of_true (exhausted s h) fun t inp hlast => nomatch hlast
  | cons inp rest ih =>
    by_cases hlim : (s.turn : ℤ) < limit
    · rcases loop_cons_ret hlim h with ⟨reason, hturn, rfl, heq⟩ | ⟨hturn, hret, heq⟩
      · rw [heq, Exec.pre_mem, ending_agrees hturn]
        constructor
        · intro hclean t last hlast
          cases hlast with
          | here => exact hclean
          | later _ hgo => rw [hturn] at hgo; cases hgo
        · exact fun hclean => hclean s inp (.here hlim (by rw [hturn]; simp))
      · rw [heq, Exec.pre_mem]
        refine (ih hret).trans ?_
        constructor
        · intro hclean t last hlast
          cases hlast with
          | here _ hend => exact absurd hturn hend
          | later _ _ htail => exact hclean t last htail
        · exact fun hclean t last htail => hclean t last (.later hlim hturn htail)
    · rw [loop_cons, if_neg hlim] at h ⊢
      refine iff_of_true (exhausted s h) fun t last hlast => ?_
      cases hlast with
      | here hbelow => exact absurd hbelow hlim
      | later hbelow => exact absurd hbelow hlim

/-- a loop that starts without a halt carries none into its last turn -/
theorem lastTurn_fresh {t : RunState} {inp : TurnInput} (hs : s.halt = none) (h : LastTurn P cfg limit s inputs t inp) :
    CleanTurn cfg t inp := by
  have hnone : t.halt = none := by
    induction h with
    | here => exact hs
    | later _ hgo _ ih =>
      refine ih ?_
      rcases takeTurn_continues hgo with hh | hh
      · rw [hh, hs]
      · exact hh
  intro h hh
  rw [hnone] at hh
  cases hh

end Outcome

/-! ## A stale halt -/

/-- an agent's reply with this envelope, nothing else happening -/
def replyOf (env : Env) : TurnInput := ⟨.replied (some env), none, none, .broken⟩

/-- claude scopes one item, agy submits it, claude's process fails -/
def failingTurns : List TurnInput :=
  [replyOf (envelopeOf [(.str "c1", "open", .none)]),
   replyOf (envelopeOf [(.str "c1", "awaiting-verification", .str "agy")]),
   ⟨.failed "timed out", none, none, .broken⟩]

/-- claude verifies the item -/
def verifyingTurn : List TurnInput := [replyOf (envelopeOf [(.str "c1", "done", .str "agy")])]

/-- the run those turns leave -/
def failedRun : RunState := (loop plainText twoAgents 6 newRun failingTurns).mem

/-- a loop that starts afresh and halts on a failed agent: its halt agrees -/
theorem halt_agrees_sample :
    ∃ saved, (Exec.persist Ev.saved newRun (loop plainText twoAgents 6 newRun failingTurns).evs).halt = some saved ∧
      Agree saved.reason "agent_error" :=
  (halt_agrees (by decide)).2 fun _ _ => lastTurn_fresh rfl

/-- **A stale halt is kept.** A note leaves the halt of the failed agent in place, and the loop it starts completes
the checklist and returns `complete`. -/
theorem stale_halt_kept :
    failedRun.halt = some ⟨"agent_error", "claude turn failed: timed out"⟩ ∧
      ∃ s, applyHumanNote failedRun "go on" = .ok s ∧
        (loop plainText twoAgents 6 s verifyingTurn).out = .ret "complete" ∧
        ¬ ∃ saved, (Exec.persist Ev.saved s (loop plainText twoAgents 6 s verifyingTurn).evs).halt = some saved ∧
          Agree saved.reason "complete" := by
  refine ⟨by decide, { failedRun with humanNote := some "go on" }, by decide, by decide, ?_⟩
  rintro ⟨saved, hsaved, hagree⟩
  have hstale : (Exec.persist Ev.saved { failedRun with humanNote := some "go on" }
      (loop plainText twoAgents 6 { failedRun with humanNote := some "go on" } verifyingTurn).evs).halt =
        some ⟨"agent_error", "claude turn failed: timed out"⟩ := by decide
  rw [hstale] at hsaved
  obtain rfl := Option.some.inj hsaved
  exact absurd hagree.report (by decide)

end Rally.Runner
