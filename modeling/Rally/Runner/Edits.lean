/-
The edits the runner makes to the state of a run, one by one, each with what the code computes there.

- `LoopEdit`: the edits of a turn and of the loop around it. `WorkEdit`: those of a command before its report. `Edit`:
  all of them.
- `loop_edits`, `exec_edits`: every state that the loop, or a command, saves comes from the one it started with by such
  edits; so does the state in memory.
-/
import Mathlib.Logic.Relation
import Rally.Runner.Handlers

namespace Rally.Runner

open Py Rally.Envelope Rally.Report

/-! ## Edits -/

/-- one edit of a turn, or of the end of the loop -/
inductive LoopEdit (P : Runtime) (cfg : Cfg) : RunState → RunState → Prop where
  | halt (s : RunState) (h : Option Halt) : LoopEdit P cfg s { s with halt := h }
  | reprompt (s : RunState) :
    LoopEdit P cfg s { s with reprompts := s.reprompts + 1, violations := [.noEnvelope] }
  | notice (s : RunState) (escaped : Option (List String)) : LoopEdit P cfg s (noticed s escaped)
  | review {s t : RunState} {actor : String} {env : Env} {commit : Option String} {narrative : Value}
      (fleet : actor ∈ cfg.agents) (accepted : review P cfg s actor env commit = .ok (t, narrative)) : LoopEdit P cfg s t
  /-- the agent failed: its claimed items go to the backup -/
  | failure {s t : RunState} {detail : String} {made : Bool}
      (wind : startSecondWind s cfg "agent_error" s.actor detail (recoverableIds s s.actor) = .ok (made, t)) :
    LoopEdit P cfg s t
  /-- an accepted turn left items blocked: those no recovery has tried yet go to the backup -/
  | block {s t : RunState} {actor detail : String} {made : Bool}
      (wind : startSecondWind s cfg "blocked" actor detail (unrecoveredBlockIds s) = .ok (made, t)) : LoopEdit P cfg s t
  | thread (s : RunState) (messageId : String) : LoopEdit P cfg s (threadOn s messageId)
  | advance (s : RunState) (actor : String) : LoopEdit P cfg s (advance P cfg s actor)

/-- one edit of a command that leaves the latest report alone -/
inductive WorkEdit (P : Runtime) (cfg : Cfg) : RunState → RunState → Prop where
  | loop {s t : RunState} (edit : LoopEdit P cfg s t) : WorkEdit P cfg s t
  | workdir (s : RunState) (dir : String) : WorkEdit P cfg s { s with workdir := dir }
  | coordinator (s : RunState) (status : String) : WorkEdit P cfg s { s with cloudCoordinator := some status }
  | note {s t : RunState} {text : String} (applied : applyHumanNote s text = .ok t) : WorkEdit P cfg s t

/-- one edit of a command -/
inductive Edit (P : Runtime) (cfg : Cfg) : RunState → RunState → Prop where
  | work {s t : RunState} (edit : WorkEdit P cfg s t) : Edit P cfg s t
  | record (s : RunState) (text halt : String) (key : Option String) : Edit P cfg s (recordReport s text halt key)
  /-- a delivery record for a report recorded without -/
  | adopt (s : RunState) (bare : s.reportDelivery = none) :
    Edit P cfg s { s with reportGeneration := max 1 s.reportGeneration, reportDelivery := some (deliveryOf s) }
  /-- the delivery is over -/
  | settle (s : RunState) (d : Delivery) (st : DeliveryStatus) (id : Option String) (found : s.reportDelivery = some d)
      (unsettled : d.status = .pending) (settled : st = .delivered ∨ st = .notRequired) :
    Edit P cfg s { s with reportDelivery := some { d with status := st, providerMessageId := id } }

/-- edits of the loop one after the other -/
abbrev Loops (P : Runtime) (cfg : Cfg) : RunState → RunState → Prop := Relation.ReflTransGen (LoopEdit P cfg)

/-- edits that leave the latest report alone, one after the other -/
abbrev WorkEdits (P : Runtime) (cfg : Cfg) : RunState → RunState → Prop := Relation.ReflTransGen (WorkEdit P cfg)

/-- edits of a command one after the other -/
abbrev Edits (P : Runtime) (cfg : Cfg) : RunState → RunState → Prop := Relation.ReflTransGen (Edit P cfg)

/-! ## The loop -/

/-- the saves of the loop -/
def Mark.ofLoop : Mark → Bool
  | .killSwitch | .handoff | .agentError | .reprompt | .sendBlocked | .turn | .loopHalt | .loopLimit => true
  | _ => false

/-- what the loop makes visible: agents called, updates sent, and states that its edits lead to -/
def LoopSave (P : Runtime) (cfg : Cfg) (s : RunState) : Ev → Prop
  | .save m t => m.ofLoop = true ∧ Loops P cfg s t
  | .dispatch _ => True
  | .send (.update _ _ _ _) => True
  | _ => False

section Loop

variable {P : Runtime} {cfg : Cfg} {s₀ s : RunState}

/-- the events and the memory of a part of the loop that began at `s₀` -/
abbrev HoldsLoops (P : Runtime) (cfg : Cfg) (s₀ : RunState) {α : Type} (x : Call α) : Prop :=
  x.Holds (LoopSave P cfg s₀) (Loops P cfg s₀)

theorem saveThen_loops {α : Type} {m : Mark} {next : RunState → Call α} (hm : m.ofLoop = true)
    (hs : Loops P cfg s₀ s) (hnext : HoldsLoops P cfg s₀ (next s)) : HoldsLoops P cfg s₀ (saveThen m s next) := by
  refine Exec.holds_pre (fun e he => ?_) hnext
  rw [List.mem_singleton.1 he]
  exact ⟨hm, hs⟩

theorem agentFailed_loops (hs : Loops P cfg s₀ s) (detail : String) :
    HoldsLoops P cfg s₀ (agentFailed cfg s detail) := by
  refine Exec.holds_attempt hs fun r hr => ?_
  obtain ⟨made, t⟩ := r
  have ht := hs.tail (.failure hr)
  cases made with
  | true => exact saveThen_loops rfl ht (Exec.holds_done ht)
  | false =>
    have ht' := ht.tail (.halt t (some ⟨"agent_error", detail⟩))
    exact saveThen_loops rfl ht' (Exec.holds_done ht')

theorem noEnvelope_loops (hs : Loops P cfg s₀ s) : HoldsLoops P cfg s₀ (noEnvelope cfg s) := by
  have ht := hs.tail (.reprompt s)
  refine saveThen_loops rfl ht ?_
  split_ifs
  · exact agentFailed_loops ht _
  · exact Exec.holds_done ht

theorem judge_loops (hs : Loops P cfg s₀ s) (actor : String) : HoldsLoops P cfg s₀ (judge cfg s actor) := by
  have verdict : ∀ t, Loops P cfg s₀ t →
      HoldsLoops P cfg s₀ (Exec.attempt t Exn.builtin (stuckHalt (blocking s.checklist)) fun r => .done t (some r)) :=
    fun t ht => Exec.holds_attempt ht fun _ _ => Exec.holds_done ht
  unfold judge
  simp only
  split_ifs
  · exact Exec.holds_done hs
  · refine Exec.holds_attempt hs fun r hr => ?_
    obtain ⟨made, t⟩ := r
    have ht := hs.tail (.block hr)
    cases made with
    | true => exact saveThen_loops rfl ht (Exec.holds_done ht)
    | false => exact verdict t ht
  · exact verdict s hs
  · exact Exec.holds_done hs
  · exact Exec.holds_done hs
  · exact Exec.holds_done hs

/-- a mail that went through: there was none, or the provider accepted its text -/
theorem mailTurn_ok {actor : String} {narrative : Value} {mail : MailOutcome} {evs : List Ev} {t : RunState}
    (h : mailTurn cfg s actor narrative mail = .ok (evs, t)) :
    (evs = [] ∧ t = s) ∨ ∃ human text, evs = [.send (.update human s.turn actor text)] ∧
      t = threadOn s s!"<{s.runId}-{s.turn}-{actor}@updates.agent9.dev>" := by
  unfold mailTurn at h
  split_ifs at h
  · split at h
    · cases h
      exact .inl ⟨rfl, rfl⟩
    · cases h
    · cases h
    · split at h
      · unfold postUpdate at h
        split at h <;> cases h
        exact .inr ⟨_, _, rfl, rfl⟩
      · cases h
  · cases h
    exact .inl ⟨rfl, rfl⟩

/-- the mail of a turn: the state as it was or on the thread, and updates only -/
theorem mailTurn_spec {actor : String} {narrative : Value} {mail : MailOutcome} {evs : List Ev} {t : RunState}
    (h : mailTurn cfg s actor narrative mail = .ok (evs, t)) :
    (t = s ∨ ∃ m, t = threadOn s m) ∧ ∀ e ∈ evs, ∃ human n who text, e = .send (.update human n who text) := by
  rcases mailTurn_ok h with ⟨rfl, rfl⟩ | ⟨human, text, rfl, rfl⟩
  · exact ⟨.inl rfl, fun e he => (List.not_mem_nil he).elim⟩
  · exact ⟨.inr ⟨_, rfl⟩, fun e he => ⟨human, s.turn, actor, text, List.mem_singleton.1 he⟩⟩

theorem conclude_loops (hs : Loops P cfg s₀ s) (actor : String) (narrative : Value) (mail : MailOutcome) :
    HoldsLoops P cfg s₀ (conclude P cfg s actor narrative mail) := by
  unfold conclude
  split
  · rename_i evs t ht
    obtain ⟨ht, hsend⟩ := mailTurn_spec ht
    have hmailed : Loops P cfg s₀ t := by
      rcases ht with rfl | ⟨m, rfl⟩
      · exact hs
      · exact hs.tail (.thread s m)
    have hadv := hmailed.tail (.advance t actor)
    refine Exec.holds_pre (fun e he => ?_) (saveThen_loops rfl hadv (judge_loops hadv actor))
    obtain ⟨human, n, who, text, rfl⟩ := hsend e he
    trivial
  · rename_i text _
    have ht := hs.tail (.halt s (some ⟨"turn_budget", text⟩))
    exact saveThen_loops rfl ht (Exec.holds_done ht)
  · exact Exec.holds_raise hs

theorem promptFor_fleet {p : Prompt} (h : promptFor P cfg s = .ok p) : s.actor ∈ cfg.agents := by
  obtain ⟨q, -, h⟩ := bind_ok h
  split_ifs at h with hfleet
  exact hfleet

theorem noticed_actor (s : RunState) (escaped : Option (List String)) : (noticed s escaped).actor = s.actor := by
  cases escaped <;> rfl

theorem takeTurn_loops (hs : Loops P cfg s₀ s) (inp : TurnInput) : HoldsLoops P cfg s₀ (takeTurn P cfg s inp) := by
  unfold takeTurn
  split
  · rename_i note _
    have ht := hs.tail (.halt s (some ⟨"stopped_by_human", strip note⟩))
    exact saveThen_loops rfl ht (Exec.holds_done ht)
  · refine Exec.holds_attempt hs fun p hp => Exec.holds_pre (by simp [LoopSave]) ?_
    unfold answered
    split
    · exact agentFailed_loops hs _
    · exact Exec.holds_raise hs
    · have ht := hs.tail (.notice s inp.escaped)
      split
      · exact noEnvelope_loops ht
      · refine Exec.holds_attempt ht fun r hr => conclude_loops (ht.tail (.review ?_ hr)) _ _ _
        rw [noticed_actor]
        exact promptFor_fleet hp

/-- **The loop edits**: every state it saves, and the one it ends with, comes from the first by its edits. -/
theorem loop_edits (hs : Loops P cfg s₀ s) (limit : ℤ) (inputs : List TurnInput) :
    HoldsLoops P cfg s₀ (loop P cfg limit s inputs) := by
  have halted : ∀ s m h (r : String), m.ofLoop = true → Loops P cfg s₀ s →
      HoldsLoops P cfg s₀ (saveThen m { s with halt := h } fun s => .done s r) := fun s m h r hm hs =>
    saveThen_loops hm (hs.tail (.halt s h)) (Exec.holds_done (hs.tail (.halt s h)))
  induction inputs generalizing s with
  | nil =>
    rw [loop_nil]
    split_ifs
    · exact ⟨fun _ he => (List.not_mem_nil he).elim, hs⟩
    · exact halted s _ _ _ rfl hs
  | cons inp rest ih =>
    rw [loop_cons]
    split_ifs
    · have hturn := takeTurn_loops hs inp
      refine Exec.holds_bind hturn fun r hr => ?_
      cases r with
      | none => exact ih hturn.2
      | some reason => exact halted _ _ _ _ rfl hturn.2
    · exact halted s _ _ _ rfl hs

end Loop

/-! ## Work before a report -/

/-- the saves that leave the latest report alone -/
def Mark.ofWork : Mark → Bool
  | .report _ _ => false
  | .delivery => false
  | _ => true

/-- what is made visible before a report is recorded or delivered -/
def WorkSave (P : Runtime) (cfg : Cfg) (s : RunState) : Ev → Prop
  | .save m t => m.ofWork = true ∧ WorkEdits P cfg s t
  | .send (.report _ _ _ _) => False
  | _ => True

section Work

variable {P : Runtime} {cfg : Cfg} {s₀ s : RunState}

/-- the events and the memory of a part of a command that began at `s₀` and leaves the latest report alone -/
abbrev HoldsWork (P : Runtime) (cfg : Cfg) (s₀ : RunState) {α : Type} (x : Call α) : Prop :=
  x.Holds (WorkSave P cfg s₀) (WorkEdits P cfg s₀)

theorem work_loops {t : RunState} (hs : WorkEdits P cfg s₀ s) (h : Loops P cfg s t) : WorkEdits P cfg s₀ t := by
  induction h with
  | refl => exact hs
  | tail _ hedit ih => exact ih.tail (.loop hedit)

theorem halt_work (hs : WorkEdits P cfg s₀ s) (h : Option Halt) : WorkEdits P cfg s₀ { s with halt := h } :=
  hs.tail (.loop (.halt s h))

theorem saveThen_work {α : Type} {m : Mark} {next : RunState → Call α} (hm : m.ofWork = true)
    (hs : WorkEdits P cfg s₀ s) (hnext : HoldsWork P cfg s₀ (next s)) : HoldsWork P cfg s₀ (saveThen m s next) := by
  refine Exec.holds_pre (fun e he => ?_) hnext
  rw [List.mem_singleton.1 he]
  exact ⟨hm, hs⟩

theorem loop_holdsWork (hs : WorkEdits P cfg s₀ s) (limit : ℤ) (inputs : List TurnInput) :
    HoldsWork P cfg s₀ (loop P cfg limit s inputs) := by
  refine (loop_edits (.refl : Loops P cfg s s) limit inputs).mono (fun e he => ?_) fun t ht => work_loops hs ht
  cases e with
  | save m t =>
    refine ⟨?_, work_loops hs he.2⟩
    have hm := he.1
    cases m <;> first | rfl | cases hm
  | send m => cases m with
    | update _ _ _ _ => trivial
    | report _ _ _ _ => exact he
  | _ => trivial

theorem prepareMedia_holdsWork (hs : WorkEdits P cfg s₀ s) (w : Work) : HoldsWork P cfg s₀ (prepareMedia w s) := by
  unfold prepareMedia
  split_ifs
  · exact saveThen_work rfl hs (Exec.holds_done hs)
  · exact Exec.holds_done hs

theorem initialize_holdsWork (hs : WorkEdits P cfg s₀ s) (w : Work) :
    HoldsWork P cfg s₀ (initializeCommissionRun w s) := by
  unfold initializeCommissionRun
  split_ifs
  · have ht := hs.tail (.workdir s w.workspace)
    exact saveThen_work rfl ht (Exec.holds_done ht)
  · exact Exec.holds_done hs

theorem attach_holdsWork (hs : WorkEdits P cfg s₀ s) (w : Work) :
    HoldsWork P cfg s₀ (attachCloudCoordination w s) := by
  unfold attachCloudCoordination
  split_ifs
  · exact Exec.holds_done hs
  · split
    · exact Exec.holds_done hs
    · rename_i status _
      have ht := hs.tail (.coordinator s status)
      exact saveThen_work rfl ht (Exec.holds_done ht)
    · have ht := halt_work (hs.tail (.coordinator s "failed")) (some ⟨"cloud_coordinator_error",
        "The commission did not start because its authenticated Google ADK handoff failed."⟩)
      exact saveThen_work rfl ht (Exec.holds_done ht)
    · have ht := hs.tail (.coordinator s "failed")
      exact saveThen_work rfl ht (Exec.holds_done ht)

theorem noted_work {n : Note} {t : RunState} (hs : WorkEdits P cfg s₀ s) (h : noted s n = .ok t) :
    WorkEdits P cfg s₀ t := by
  obtain ⟨u, hu, h⟩ := bind_ok h
  have happ := hs.tail (.note hu)
  cases h
  split
  · exact happ.tail (.loop (.thread u _))
  · exact happ

theorem summaryText_holdsWork (hs : WorkEdits P cfg s₀ s) (halt : String) :
    HoldsWork P cfg s₀ (summaryText P s halt) :=
  Exec.holds_attempt hs fun _ _ => Exec.holds_done hs

theorem writeReport_holdsWork (hs : WorkEdits P cfg s₀ s) (halt : String) (reply : Option String) :
    HoldsWork P cfg s₀ (writeReport P cfg s halt reply) := by
  refine Exec.holds_attempt hs fun p _ => ?_
  split_ifs
  · refine Exec.holds_pre (by simp [WorkSave]) ?_
    split
    · split_ifs
      · exact summaryText_holdsWork hs halt
      · exact Exec.holds_done hs
    · exact summaryText_holdsWork hs halt
  · exact Exec.holds_raise hs

end Work

/-! ## The commands -/

/-- every state an event saves comes from `s` by edits -/
def Saves (P : Runtime) (cfg : Cfg) (s : RunState) (e : Ev) : Prop := ∀ t, e.saved = some t → Edits P cfg s t

section Commands

variable {P : Runtime} {cfg : Cfg} {s₀ s : RunState}

/-- the saves and the memory of a part of a command that began at `s₀` -/
abbrev HoldsEdits (P : Runtime) (cfg : Cfg) (s₀ : RunState) {α : Type} (x : Call α) : Prop :=
  x.Holds (Saves P cfg s₀) (Edits P cfg s₀)

theorem edits_work {t : RunState} (hs : Edits P cfg s₀ s) (h : WorkEdits P cfg s t) : Edits P cfg s₀ t := by
  induction h with
  | refl => exact hs
  | tail _ hedit ih => exact ih.tail (.work hedit)

/-- work is edits -/
theorem holdsEdits_of_work {α : Type} {x : Call α} (hs : Edits P cfg s₀ s) (h : HoldsWork P cfg s x) :
    HoldsEdits P cfg s₀ x := by
  refine h.mono (fun e he t ht => ?_) fun t ht => edits_work hs ht
  cases e with
  | save m u => cases ht; exact edits_work hs he.2
  | _ => cases ht

/-- work, and then what follows it -/
theorem workThen_saves {α β : Type} {x : Call α} {f : RunState → α → Call β} (hs : Edits P cfg s₀ s)
    (hx : HoldsWork P cfg s x) (hf : ∀ t a, Edits P cfg s₀ t → HoldsEdits P cfg s₀ (f t a)) :
    HoldsEdits P cfg s₀ (x.bind f) := by
  have hwork := holdsEdits_of_work hs hx
  exact Exec.holds_bind hwork fun a _ => hf _ a hwork.2

theorem saveThen_edits {α : Type} {m : Mark} {next : RunState → Call α} (hs : Edits P cfg s₀ s)
    (hnext : HoldsEdits P cfg s₀ (next s)) : HoldsEdits P cfg s₀ (saveThen m s next) := by
  refine Exec.holds_pre (fun e he t ht => ?_) hnext
  rw [List.mem_singleton.1 he] at ht
  cases ht
  exact hs

theorem holds_unsaved {α : Type} {l : List Ev} {x : Call α} (hl : ∀ e ∈ l, e.saved = none)
    (hx : HoldsEdits P cfg s₀ x) : HoldsEdits P cfg s₀ (x.pre l) := by
  refine Exec.holds_pre (fun e he t ht => ?_) hx
  rw [hl e he] at ht
  cases ht

theorem deliver_saves (hs : Edits P cfg s₀ s) (found : s.reportDelivery.isSome) (text halt : String)
    (mail : MailOutcome) : HoldsEdits P cfg s₀ (deliver cfg s text halt mail) := by
  obtain ⟨d, hd⟩ := Option.isSome_iff_exists.1 found
  have hof : deliveryOf s = d := by simp [deliveryOf, hd]
  have settle : ∀ st id, d.status = .pending → st = .delivered ∨ st = .notRequired →
      Edits P cfg s₀ { s with reportDelivery := some { d with status := st, providerMessageId := id } } :=
    fun st id hpend hst => hs.tail (.settle s d st id hd hpend hst)
  unfold deliver
  rw [hof]
  dsimp only
  split_ifs with hover
  · exact Exec.holds_done hs
  · have hpend : d.status = .pending := by
      cases hst : d.status <;> simp_all
    split
    · have hdone := settle .notRequired d.providerMessageId hpend (Or.inr rfl)
      exact saveThen_edits hdone (Exec.holds_done hdone)
    · exact Exec.holds_raise hs
    · exact Exec.holds_raise hs
    · exact Exec.holds_raise hs
    · exact Exec.holds_raise hs
    · rename_i human id _
      have hdone := (settle .delivered (if id = "" then none else some id) hpend (Or.inl rfl)).tail
        (.work (.loop (.thread _ s!"<{s.runId}-report@updates.agent9.dev>")))
      exact holds_unsaved (by simp [Ev.saved]) (saveThen_edits hdone (Exec.holds_done hdone))

theorem mailReport_saves (hs : Edits P cfg s₀ s) (text halt : String) (mail : MailOutcome) :
    HoldsEdits P cfg s₀ (mailReport cfg s text halt mail) := by
  unfold mailReport
  split
  · rename_i d hd
    exact deliver_saves hs (by simp [hd]) text halt mail
  · rename_i hbare
    have hadopt := hs.tail (.adopt s hbare)
    exact saveThen_edits hadopt (deliver_saves hadopt rfl text halt mail)

theorem report_saves (hs : Edits P cfg s₀ s) (text halt : String) (key : Option String) (mail : MailOutcome) :
    HoldsEdits P cfg s₀ (report cfg s text halt key mail) := by
  have hrecord := hs.tail (.record s text halt key)
  exact saveThen_edits hrecord (mailReport_saves hrecord text halt mail)

theorem finish_saves (hs : Edits P cfg s₀ s) (key : Option String) (w : Work) (halt : String) :
    HoldsEdits P cfg s₀ (finish P cfg key w s halt) :=
  workThen_saves hs (writeReport_holdsWork .refl halt w.report) fun _ text ht => report_saves ht text halt key w.mail

theorem finishPlain_saves (hs : Edits P cfg s₀ s) (key : Option String) (w : Work) (halt : String) :
    HoldsEdits P cfg s₀ (finishPlain P cfg key w s halt) :=
  workThen_saves hs (summaryText_holdsWork .refl halt) fun _ text ht => report_saves ht text halt key w.mail

theorem unlessRefused_saves {x : Call Unit} (h : HoldsEdits P cfg s₀ x) : HoldsEdits P cfg s₀ (unlessRefused x) := by
  unfold unlessRefused
  split
  · exact h
  · exact h

theorem commence_saves (hs : Edits P cfg s₀ s) (messageId : Option String) (w : Work) :
    HoldsEdits P cfg s₀ (commence P cfg messageId w s) := by
  refine workThen_saves hs (initialize_holdsWork .refl w) fun t _ ht => ?_
  refine workThen_saves ht (attach_holdsWork .refl w) fun u ready hu => ?_
  split_ifs
  · refine workThen_saves hu (prepareMedia_holdsWork .refl w) fun v _ hv => ?_
    exact workThen_saves hv (loop_holdsWork .refl _ _) fun x r hx => finish_saves hx _ w r
  · exact finishPlain_saves hu _ w _

/-- **What a command does**: every state it saves, and the one it ends with, comes from the one it loads by edits. -/
theorem exec_edits (P : Runtime) (cfg : Cfg) (s : RunState) (w : Work) (op : Op) :
    HoldsEdits P cfg s (op.exec P cfg w s) := by
  have hs : Edits P cfg s s := .refl
  have halted : ∀ t h, Edits P cfg s t → Edits P cfg s { t with halt := h } := fun t h ht =>
    ht.tail (.work (.loop (.halt t h)))
  have finished : ∀ t r, Edits P cfg s t → HoldsEdits P cfg s (unlessRefused (finish P cfg none w t r)) :=
    fun t r ht => unlessRefused_saves (finish_saves ht none w r)
  cases op with
  | commission ws mid =>
    simp only [Op.exec, handleCommission]
    split_ifs
    · exact Exec.holds_raise hs
    · refine saveThen_edits hs ?_
      split_ifs
      · exact Exec.holds_done hs
      · exact mailReport_saves hs _ _ _
    · exact commence_saves (halted s none hs) mid w
  | note n =>
    simp only [Op.exec, handleNote]
    split_ifs
    · exact Exec.holds_raise hs
    · exact Exec.holds_done hs
    · exact mailReport_saves hs _ _ _
    · refine Exec.holds_attempt hs fun t ht => ?_
      have hnoted := edits_work hs (noted_work .refl ht)
      have hu := halted t (some ⟨"stopped_by_human", n.text⟩) hnoted
      exact saveThen_edits hnoted (saveThen_edits hu (finishPlain_saves hu _ w _))
    · refine Exec.holds_attempt hs fun t ht => ?_
      have hnoted := edits_work hs (noted_work .refl ht)
      refine saveThen_edits hnoted (workThen_saves hnoted (prepareMedia_holdsWork .refl w) fun u _ hu => ?_)
      exact holds_unsaved (by simp [Ev.saved])
        (workThen_saves hu (loop_holdsWork .refl _ _) fun v r hv => finish_saves hv _ w r)
  | stop detail => exact saveThen_edits (halted s _ hs) (Exec.holds_done (halted s _ hs))
  | retry =>
    simp only [Op.exec, cmdRetry]
    split
    · exact Exec.holds_done hs
    · split_ifs
      · exact Exec.holds_done hs
      · exact saveThen_edits (halted s none hs) (workThen_saves (halted s none hs) (loop_holdsWork .refl _ _) finished)
  | resume guidance maxTurns =>
    simp only [Op.exec, cmdResume]
    split
    · refine Exec.holds_attempt hs fun t ht => ?_
      have hnote := hs.tail (.work (.note ht))
      exact saveThen_edits hnote (workThen_saves hnote (loop_holdsWork .refl _ _) finished)
    · exact workThen_saves hs (loop_holdsWork .refl _ _) finished

end Commands

end Rally.Runner
