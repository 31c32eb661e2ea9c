/-
What the loop does to a run, whatever the agents reply.

- `loop_works`: every state it saves, and the one it ends with, is reached by steps of the run (accepted turns of the
  fleet, handoffs, and steps that leave the checklist alone); the latest report stays as it is.
-/
import Rally.Runner.History
import Rally.Runner.Edits

namespace Rally.Runner

open Py Rally.Envelope Rally.Report

/-! ## Steps taken -/

/-- the key of the request that the latest report answers -/
def answeredKey (s : RunState) : Option String := s.reportDelivery.bind fun d => d.requestKey

/-- the latest report is the same, for the same request -/
structure SameReport (s t : RunState) : Prop where
  report : t.report = s.report
  reportHalt : t.reportHalt = s.reportHalt
  answered : answeredKey t = answeredKey s

theorem SameReport.refl (s : RunState) : SameReport s s := ⟨rfl, rfl, rfl⟩

theorem SameReport.trans {s t u : RunState} (h : SameReport s t) (h' : SameReport t u) : SameReport s u :=
  ⟨h'.1.trans h.1, h'.2.trans h.2, h'.3.trans h.3⟩

/-- `t` comes from `s` by steps of the run that record no report -/
structure Works (P : Runtime) (cfg : Cfg) (s t : RunState) : Prop where
  reaches : Reaches (Step P cfg) s t
  report : SameReport s t

section Works

variable {P : Runtime} {cfg : Cfg} {s t u : RunState}

theorem Works.refl (s : RunState) : Works P cfg s s := ⟨.refl s, .refl s⟩

theorem Works.trans (h : Works P cfg s t) (h' : Works P cfg t u) : Works P cfg s u :=
  ⟨h.1.trans h'.1, h.2.trans h'.2⟩

theorem works_rest (hlist : t.checklist = s.checklist) (hsame : SameRun s t) (hrep : SameReport s t) :
    Works P cfg s t :=
  ⟨.one (.rest hlist hsame), hrep⟩

/-- setting the halt, or the notices of the next prompt -/
theorem works_halt (s : RunState) (h : Option Halt) : Works P cfg s { s with halt := h } :=
  works_rest rfl ⟨rfl, rfl, rfl, rfl, rfl, rfl, rfl, le_rfl⟩ ⟨rfl, rfl, rfl⟩

theorem works_review {actor : String} {env : Env} {commit : Option String} {narrative : Value}
    (hfleet : actor ∈ cfg.agents) (h : review P cfg s actor env commit = .ok (t, narrative)) : Works P cfg s t := by
  refine ⟨.one (.turn hfleet h), ?_⟩
  obtain ⟨_, -, h⟩ := bind_ok h
  obtain ⟨_, -, h⟩ := bind_ok h
  obtain ⟨_, -, h⟩ := bind_ok h
  obtain ⟨_, -, h⟩ := bind_ok h
  obtain ⟨_, -, h⟩ := bind_ok h
  cases h
  exact ⟨rfl, rfl, rfl⟩

theorem works_handoff {kind fromActor detail : String} {ids : List Value} {b : Bool}
    (h : startSecondWind s cfg kind fromActor detail ids = .ok (b, t)) : Works P cfg s t := by
  obtain ⟨hlist, -, -, hsame, -⟩ := startSecondWind_spec h
  refine works_rest hlist hsame ?_
  obtain ⟨c, -, h⟩ := bind_ok h
  split_ifs at h
  · cases h; exact ⟨rfl, rfl, rfl⟩
  · obtain ⟨items, -, h⟩ := bind_ok h
    cases h; exact ⟨rfl, rfl, rfl⟩

theorem works_thread (s : RunState) (m : String) : Works P cfg s (threadOn s m) :=
  works_rest rfl ⟨rfl, rfl, rfl, rfl, rfl, rfl, rfl, le_rfl⟩ ⟨rfl, rfl, rfl⟩

theorem works_noticed (s : RunState) (escaped : Option (List String)) : Works P cfg s (noticed s escaped) := by
  cases escaped with
  | none => exact .refl s
  | some paths => exact works_rest rfl ⟨rfl, rfl, rfl, rfl, rfl, rfl, rfl, le_rfl⟩ ⟨rfl, rfl, rfl⟩

theorem finishSecondWind_spec (s : RunState) (actor : String) :
    ∃ c, finishSecondWind s actor = { s with continuity := c } := by
  unfold finishSecondWind
  split
  · exact ⟨s.continuity, rfl⟩
  · split
    · exact ⟨s.continuity, rfl⟩
    · split_ifs <;> exact ⟨_, rfl⟩

theorem advance_spec (P : Runtime) (cfg : Cfg) (s : RunState) (actor : String) :
    (advance P cfg s actor).checklist = s.checklist ∧ (advance P cfg s actor).halt = s.halt ∧
      SameRun s (advance P cfg s actor) ∧ SameReport s (advance P cfg s actor) := by
  unfold advance
  obtain ⟨c, hc⟩ := finishSecondWind_spec
    { s with
      digestStreak := if digest P s.checklist = s.lastDigest then s.digestStreak + 1 else 0
      lastDigest := digest P s.checklist, turn := s.turn + 1, actor := nextActor s cfg actor } actor
  rw [hc]
  exact ⟨rfl, rfl, ⟨rfl, rfl, rfl, rfl, rfl, rfl, rfl, Nat.le_succ _⟩, ⟨rfl, rfl, rfl⟩⟩

end Works

/-- what the loop makes visible: agents called, updates sent, and states that steps of the run lead to -/
def LoopEvent (P : Runtime) (cfg : Cfg) (s : RunState) : Ev → Prop
  | .save m t => m.ofLoop = true ∧ Works P cfg s t
  | .dispatch _ => True
  | .send (.update _ _ _ _) => True
  | _ => False

section LoopWorks

variable {P : Runtime} {cfg : Cfg} {s₀ s : RunState}

/-- the events and the memory of a part of the loop that began at `s₀` -/
abbrev HoldsLoop (P : Runtime) (cfg : Cfg) (s₀ : RunState) {α : Type} (x : Call α) : Prop :=
  x.Holds (LoopEvent P cfg s₀) (Works P cfg s₀)

/-- an edit of the loop is work -/
theorem works_edit {t : RunState} (h : LoopEdit P cfg s t) : Works P cfg s t := by
  cases h with
  | halt h => exact works_halt s h
  | reprompt => exact works_rest rfl ⟨rfl, rfl, rfl, rfl, rfl, rfl, rfl, le_rfl⟩ ⟨rfl, rfl, rfl⟩
  | notice escaped => exact works_noticed s escaped
  | review hfleet hrev => exact works_review hfleet hrev
  | failure hwind => exact works_handoff hwind
  | block hwind => exact works_handoff hwind
  | thread m => exact works_thread s m
  | advance actor =>
    obtain ⟨hlist, -, hsame, hrep⟩ := advance_spec P cfg s actor
    exact works_rest hlist hsame hrep

theorem works_loops {t : RunState} (hs : Works P cfg s₀ s) (h : Loops P cfg s t) : Works P cfg s₀ t := by
  induction h with
  | refl => exact hs
  | tail _ hedit ih => exact ih.trans (works_edit hedit)

theorem mailTurn_works {actor : String} {narrative : Value} {mail : MailOutcome} {evs : List Ev} {t : RunState}
    (h : mailTurn cfg s actor narrative mail = .ok (evs, t)) :
    Works P cfg s t ∧ t.checklist = s.checklist ∧ t.halt = s.halt ∧
      ∀ e ∈ evs, ∃ human n who text, e = .send (.update human n who text) := by
  obtain ⟨rfl | ⟨m, rfl⟩, hsend⟩ := mailTurn_spec h
  · exact ⟨.refl _, rfl, rfl, hsend⟩
  · exact ⟨works_thread s m, rfl, rfl, hsend⟩

/-- **What the loop does.** Every state it saves, and the one it ends with, comes from the first by steps of the run,
with the latest report untouched. -/
theorem loop_works (hs : Works P cfg s₀ s) (limit : ℤ) (inputs : List TurnInput) :
    HoldsLoop P cfg s₀ (loop P cfg limit s inputs) := by
  refine (loop_edits (.refl : Loops P cfg s s) limit inputs).mono (fun e he => ?_) fun t ht => works_loops hs ht
  cases e with
  | save m t => exact ⟨he.1, works_loops hs he.2⟩
  | send m => cases m with
    | update _ _ _ _ => trivial
    | report _ _ _ _ => exact he
  | _ => exact he

end LoopWorks

end Rally.Runner
