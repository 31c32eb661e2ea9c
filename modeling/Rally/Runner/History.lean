/-
What can happen to a run's checklist: accepted turns with arbitrary envelopes by any agent of the fleet, Second Wind
handoffs, human notes, and everything else the runner does to its state, which leaves the checklist alone (`Step`).

- `done_item_checked`: every done item was submitted by its owner in one accepted turn, waited unchanged until an
  accepted turn of another agent, its verifier, moved it to done, and has stood since.
- `ids_of_run`: which ids an accepted turn keeps, exactly, and from that which ids a run keeps.

A turn works on the item kept under each id (the last one with it, where a checklist lists an id twice), so the
history of an item is told by `kept` before each turn.
-/
import Rally.Core.Trace
import Rally.Runner.Turn

namespace Rally.Runner

open Py Rally.Envelope

/-! ## Steps of a run -/

inductive Act where
  | turn (actor : String) (env : Env)
  | handoff
  | note (text : String)
  | rest
deriving DecidableEq, Repr

/-- what nothing changes in the life of a run, and the turn counter, which never goes back -/
structure SameRun (s t : RunState) : Prop where
  runId : t.runId = s.runId
  task : t.task = s.task
  created : t.created = s.created
  messageId : t.commissionMessageId = s.commissionMessageId
  requestKey : t.commissionRequestKey = s.commissionRequestKey
  commissionedBy : t.commissionedBy = s.commissionedBy
  workspaceId : t.workspaceId = s.workspaceId
  turn : s.turn ≤ t.turn

inductive Step (P : Runtime) (cfg : Cfg) : RunState → Act → RunState → Prop where
  /-- an accepted turn -/
  | turn {s t : RunState} {actor : String} {env : Env} {commit : Option String} {narrative : Value}
      (fleet : actor ∈ cfg.agents) (accepted : review P cfg s actor env commit = .ok (t, narrative)) :
    Step P cfg s (.turn actor env) t
  | handoff {s t : RunState} {kind fromActor detail : String} {ids : List Value}
      (made : startSecondWind s cfg kind fromActor detail ids = .ok (true, t)) : Step P cfg s .handoff t
  | note {s t : RunState} {text : String} (applied : applyHumanNote s text = .ok t) : Step P cfg s (.note text) t
  /-- the rest: counters, rotation, halts, mail, reports -/
  | rest {s t : RunState} (checklist : t.checklist = s.checklist) (same : SameRun s t) : Step P cfg s .rest t

/-- a run, with its steps on record -/
abbrev Run (P : Runtime) (cfg : Cfg) : RunState → List (Entry RunState Act) → RunState → Prop := Trace (Step P cfg)

theorem SameRun.refl (s : RunState) : SameRun s s := ⟨rfl, rfl, rfl, rfl, rfl, rfl, rfl, le_rfl⟩

theorem SameRun.trans {s t u : RunState} (h : SameRun s t) (h' : SameRun t u) : SameRun s u where
  runId := h'.runId.trans h.runId
  task := h'.task.trans h.task
  created := h'.created.trans h.created
  messageId := h'.messageId.trans h.messageId
  requestKey := h'.requestKey.trans h.requestKey
  commissionedBy := h'.commissionedBy.trans h.commissionedBy
  workspaceId := h'.workspaceId.trans h.workspaceId
  turn := h.turn.trans h'.turn

/-- what a review keeps and what it computes -/
theorem review_spec {P : Runtime} {cfg : Cfg} {s t : RunState} {actor : String} {env : Env} {commit : Option String}
    {narrative : Value} (h : review P cfg s actor env commit = .ok (t, narrative)) :
    ∃ c vs, continuityOf s cfg = .ok c ∧
      reconcile s.checklist (proposedOf env) actor cfg.rejectionsMax (s.turn ≤ 1) (recoveryItems c actor) =
        .ok (t.checklist, vs) ∧
      t.turn = s.turn ∧ t.halt = s.halt ∧ t.humanNote = none ∧ t.actor = s.actor ∧ SameRun s t := by
  obtain ⟨problems, -, h⟩ := bind_ok h
  obtain ⟨c, hc, h⟩ := bind_ok h
  obtain ⟨⟨accepted, vs⟩, hacc, h⟩ := bind_ok h
  obtain ⟨changes, -, h⟩ := bind_ok h
  obtain ⟨text, -, h⟩ := bind_ok h
  cases h
  exact ⟨c, vs, hc, hacc, rfl, rfl, rfl, rfl, ⟨rfl, rfl, rfl, rfl, rfl, rfl, rfl, le_rfl⟩⟩

theorem startSecondWind_spec {s t : RunState} {cfg : Cfg} {kind fromActor detail : String} {ids : List Value} {b : Bool}
    (h : startSecondWind s cfg kind fromActor detail ids = .ok (b, t)) :
    t.checklist = s.checklist ∧ t.turn = s.turn ∧ t.humanNote = s.humanNote ∧ SameRun s t ∧
      t.halt = if b then none else s.halt := by
  obtain ⟨c, -, h⟩ := bind_ok h
  split_ifs at h with hoff
  · cases h
    exact ⟨rfl, rfl, rfl, ⟨rfl, rfl, rfl, rfl, rfl, rfl, rfl, le_rfl⟩, rfl⟩
  · obtain ⟨items, -, h⟩ := bind_ok h
    cases h
    exact ⟨rfl, rfl, rfl, ⟨rfl, rfl, rfl, rfl, rfl, rfl, rfl, le_rfl⟩, rfl⟩

/-- a note that reopens, one that adds a revision item, or one that leaves the checklist alone -/
theorem applyHumanNote_spec {s t : RunState} {text : String} (h : applyHumanNote s text = .ok t) :
    SameRun s t ∧ t.turn = s.turn ∧ t.humanNote = some text ∧
      (t.checklist = s.checklist ∨ t.checklist = s.checklist.map reopenItem ∨
        isComplete s.checklist = true ∧
          ∃ item, revisionItem s.checklist text = .ok item ∧ t.checklist = s.checklist ++ [item]) := by
  unfold applyHumanNote at h
  simp only at h
  split_ifs at h with hstop hstuck hdone
  · cases h
    exact ⟨⟨rfl, rfl, rfl, rfl, rfl, rfl, rfl, le_rfl⟩, rfl, rfl, Or.inl rfl⟩
  · cases h
    exact ⟨⟨rfl, rfl, rfl, rfl, rfl, rfl, rfl, le_rfl⟩, rfl, rfl, Or.inr (Or.inl rfl)⟩
  · obtain ⟨item, hitem, h⟩ := bind_ok h
    cases h
    exact ⟨⟨rfl, rfl, rfl, rfl, rfl, rfl, rfl, le_rfl⟩, rfl, rfl, Or.inr (Or.inr ⟨hdone, item, hitem, rfl⟩)⟩
  · cases h
    exact ⟨⟨rfl, rfl, rfl, rfl, rfl, rfl, rfl, le_rfl⟩, rfl, rfl, Or.inl rfl⟩

theorem revisionItem_spec {items : List Item} {text : String} {item : Item} (h : revisionItem items text = .ok item) :
    item.state = .opened ∧ ∃ n : ℕ, item.id = .str s!"c{n}" := by
  obtain ⟨numbers, -, h⟩ := bind_ok h
  cases h
  exact ⟨rfl, _, rfl⟩

theorem step_same {P : Runtime} {cfg : Cfg} {s t : RunState} {a : Act} (h : Step P cfg s a t) : SameRun s t := by
  cases h with
  | turn _ hrev => obtain ⟨_, _, -, -, -, -, -, -, hsame⟩ := review_spec hrev; exact hsame
  | handoff hmade => exact (startSecondWind_spec hmade).2.2.2.1
  | note happ => exact (applyHumanNote_spec happ).1
  | rest _ hsame => exact hsame

theorem run_same {P : Runtime} {cfg : Cfg} {s t : RunState} {tr : List (Entry RunState Act)} (h : Run P cfg s tr t) :
    SameRun s t :=
  h.rel SameRun.refl (fun _ _ _ => SameRun.trans) fun e he => step_same (h.entry e he)

/-! ## Makers and checkers -/

/-- the item an accepted turn would work on under this key -/
def Kept (s : RunState) (k : Key) (p : Item → Prop) : Prop := ∃ old, kept s.checklist k = some old ∧ p old

/-- the checklist has an item with this key and property -/
def Has (s : RunState) (k : Key) (p : Item → Prop) : Prop := ∃ x ∈ s.checklist, x.id.key? = some k ∧ p x

/-- submitted by `owner`, not verified yet -/
def Waiting (owner : String) (x : Item) : Prop := x.state = .awaitingVerification ∧ x.owner = .str owner

/-- submitted by `owner` and verified by `verifier` -/
def Verified (owner verifier : String) (x : Item) : Prop :=
  x.state = .done ∧ x.owner = .str owner ∧ x.verifiedBy = .str verifier

/-- the step is an accepted turn of `owner` that submits the item -/
def Submits (k : Key) (owner : String) (e : Entry RunState Act) : Prop :=
  (∃ env, e.act = .turn owner env) ∧ Kept e.before k (fun old => old.state ≠ .awaitingVerification) ∧
    Has e.after k (Waiting owner)

/-- the step is an accepted turn of `verifier` that moves the item from awaiting verification to done -/
def Verifies (k : Key) (owner verifier : String) (e : Entry RunState Act) : Prop :=
  (∃ env, e.act = .turn verifier env) ∧ Kept e.before k (Waiting owner) ∧ Has e.after k (Verified owner verifier)

/-- the step leaves an item with property `p` under the key, and a turn finds it so -/
def Stays (k : Key) (p : Item → Prop) (e : Entry RunState Act) : Prop :=
  ((∃ actor env, e.act = .turn actor env) → Kept e.before k p) ∧ Has e.after k p

/-- what a submitted item has behind it -/
def Submitted (tr : List (Entry RunState Act)) (k : Key) (owner : String) : Prop :=
  ∃ before submit waits, tr = before ++ submit :: waits ∧ Submits k owner submit ∧
    ∀ e ∈ waits, Stays k (Waiting owner) e

/-- what a verified item has behind it -/
def Checked (tr : List (Entry RunState Act)) (k : Key) (owner verifier : String) : Prop :=
  ∃ front verify stands, tr = front ++ verify :: stands ∧ Submitted front k owner ∧
    Verifies k owner verifier verify ∧ ∀ e ∈ stands, Stays k (Verified owner verifier) e

theorem Submitted.snoc {tr : List (Entry RunState Act)} {k : Key} {owner : String} {e : Entry RunState Act}
    (h : Submitted tr k owner) (he : Stays k (Waiting owner) e) : Submitted (tr ++ [e]) k owner := by
  obtain ⟨before, submit, waits, rfl, hsub, hwaits⟩ := h
  refine ⟨before, submit, waits ++ [e], by simp, hsub, fun e' he' => ?_⟩
  rcases List.mem_append.1 he' with he' | he'
  · exact hwaits e' he'
  · rw [List.mem_singleton] at he'
    subst he'
    exact he

theorem Checked.snoc {tr : List (Entry RunState Act)} {k : Key} {owner verifier : String} {e : Entry RunState Act}
    (h : Checked tr k owner verifier) (he : Stays k (Verified owner verifier) e) :
    Checked (tr ++ [e]) k owner verifier := by
  obtain ⟨front, verify, stands, rfl, hsub, hver, hstands⟩ := h
  refine ⟨front, verify, stands ++ [e], by simp, hsub, hver, fun e' he' => ?_⟩
  rcases List.mem_append.1 he' with he' | he'
  · exact hstands e' he'
  · rw [List.mem_singleton] at he'
    subst he'
    exact he

/-- where an item that is awaiting verification or done comes from in one step: it was there, or an accepted turn
made it out of the item kept under its key -/
theorem step_item {P : Runtime} {cfg : Cfg} {s t : RunState} {a : Act} (h : Step P cfg s a t) {x : Item}
    (hx : x ∈ t.checklist) (hst : x.state = .awaitingVerification ∨ x.state = .done) :
    ((¬ ∃ actor env, a = .turn actor env) ∧ x ∈ s.checklist) ∨
      ∃ actor env k old rec, a = .turn actor env ∧ actor ∈ cfg.agents ∧ x.id.key? = some k ∧
        kept s.checklist k = some old ∧ Move actor cfg.rejectionsMax rec old x := by
  cases h with
  | turn hfleet hrev =>
    obtain ⟨c, vs, -, hrec, -⟩ := review_spec hrev
    obtain ⟨k, hk, ⟨old, hold, hmove⟩ | ⟨-, -, -, -, hnew⟩⟩ := reconcile_origin hrec x hx
    · exact Or.inr ⟨_, _, k, old, _, rfl, hfleet, hk, hold, hmove⟩
    · -- a new item starts open or claimed
      rcases hnew with hnew | hnew <;> rw [hnew] at hst <;> simp at hst
  | handoff hmade => exact Or.inl ⟨by simp, by rwa [(startSecondWind_spec hmade).1] at hx⟩
  | rest hsame _ => exact Or.inl ⟨by simp, by rwa [hsame] at hx⟩
  | note happ =>
    refine Or.inl ⟨by simp, ?_⟩
    obtain ⟨-, -, -, hcl | hcl | ⟨-, item, hitem, hcl⟩⟩ := applyHumanNote_spec happ
    · rwa [hcl] at hx
    · rw [hcl] at hx
      obtain ⟨y, hy, rfl⟩ := List.mem_map.1 hx
      unfold reopenItem at hst ⊢
      split_ifs at hst ⊢
      · simp at hst
      · exact hy
    · rw [hcl] at hx
      rcases List.mem_append.1 hx with hx | hx
      · exact hx
      · rw [List.mem_singleton] at hx
        rw [hx, (revisionItem_spec hitem).1] at hst
        simp at hst

/-- the member behind a kept item -/
theorem kept_member {s : RunState} {k : Key} {old : Item} (h : kept s.checklist k = some old) :
    ∃ y ∈ s.checklist, y.id.key? = some k ∧ old.state = y.state ∧ old.owner = y.owner ∧
      old.verifiedBy = y.verifiedBy := by
  obtain ⟨y, hy, -, hk, rfl⟩ := kept_mem h
  exact ⟨y, hy, hk, rfl, rfl, rfl⟩

/-- what every waiting and every done item of a run has behind it -/
structure Separated (cfg : Cfg) (tr : List (Entry RunState Act)) (s : RunState) : Prop where
  waiting : ∀ x ∈ s.checklist, x.state = .awaitingVerification →
    ∃ owner k, owner ∈ cfg.agents ∧ x.id.key? = some k ∧ x.owner = .str owner ∧ Submitted tr k owner
  checked : ∀ x ∈ s.checklist, x.state = .done →
    ∃ owner verifier k, owner ∈ cfg.agents ∧ verifier ∈ cfg.agents ∧ owner ≠ verifier ∧ x.id.key? = some k ∧
      x.owner = .str owner ∧ x.verifiedBy = .str verifier ∧ Checked tr k owner verifier

theorem separated_waiting {P : Runtime} {cfg : Cfg} {s t : RunState} {a : Act} {tr : List (Entry RunState Act)}
    (hsep : Separated cfg tr s) (h : Step P cfg s a t) {x : Item} (hx : x ∈ t.checklist)
    (hst : x.state = .awaitingVerification) :
    ∃ owner k, owner ∈ cfg.agents ∧ x.id.key? = some k ∧ x.owner = .str owner ∧
      Submitted (tr ++ [⟨s, a, t⟩]) k owner := by
  rcases step_item h hx (Or.inl hst) with ⟨hno, hmem⟩ | ⟨actor, env, k, old, rec, rfl, hfleet, hk, hold, hmove⟩
  · obtain ⟨owner, k, hf, hk, ho, hsub⟩ := hsep.waiting x hmem hst
    exact ⟨owner, k, hf, hk, ho, hsub.snoc ⟨fun hturn => absurd hturn hno, x, hx, hk, hst, ho⟩⟩
  · -- submitted in this turn: from a state that was not awaiting verification
    have fresh : x.owner = .str actor → old.state ≠ .awaitingVerification →
        ∃ owner k, owner ∈ cfg.agents ∧ x.id.key? = some k ∧ x.owner = .str owner ∧
          Submitted (tr ++ [⟨s, .turn actor env, t⟩]) k owner := fun ho hwas =>
      ⟨actor, k, hfleet, hk, ho, tr, _, [], rfl, ⟨⟨env, rfl⟩, ⟨old, hold, hwas⟩, x, hx, hk, hst, ho⟩, by simp⟩
    cases hmove with
    | keep d e =>
      obtain ⟨y, hy, hyk, hs, ho, -⟩ := kept_member hold
      obtain ⟨owner, l, hf, hl, hown, hsub⟩ := hsep.waiting y hy (hs.symm.trans hst)
      obtain rfl : l = k := Option.some.inj (hl.symm.trans hyk)
      have hwait : old.owner = .str owner := ho.trans hown
      exact ⟨owner, l, hf, hk, hwait,
        hsub.snoc ⟨fun _ => ⟨old, hold, hst, hwait⟩, ⟨_, hx, hk, hst, hwait⟩⟩⟩
    | recover st e hgrant hwas htarget =>
      exact fresh rfl (by rcases hwas with h | h <;> rw [h] <;> simp)
    | verify e hwas hother => cases hst
    | reject e hwas hother => dsimp only at hst; split_ifs at hst
    | claim o hwas => cases hst
    | submit e hwas hown => exact fresh rfl (by rcases hwas with h | h <;> rw [h] <;> simp)
    | flag st e htarget =>
      dsimp only at hst
      rcases htarget with h | h <;> rw [h] at hst <;> cases hst

theorem separated_checked {P : Runtime} {cfg : Cfg} {s t : RunState} {a : Act} {tr : List (Entry RunState Act)}
    (hsep : Separated cfg tr s) (h : Step P cfg s a t) {x : Item} (hx : x ∈ t.checklist) (hst : x.state = .done) :
    ∃ owner verifier k, owner ∈ cfg.agents ∧ verifier ∈ cfg.agents ∧ owner ≠ verifier ∧ x.id.key? = some k ∧
      x.owner = .str owner ∧ x.verifiedBy = .str verifier ∧ Checked (tr ++ [⟨s, a, t⟩]) k owner verifier := by
  rcases step_item h hx (Or.inr hst) with ⟨hno, hmem⟩ | ⟨actor, env, k, old, rec, rfl, hfleet, hk, hold, hmove⟩
  · obtain ⟨owner, verifier, k, hf, hv, hne, hk, ho, hver, hchk⟩ := hsep.checked x hmem hst
    exact ⟨owner, verifier, k, hf, hv, hne, hk, ho, hver,
      hchk.snoc ⟨fun hturn => absurd hturn hno, x, hx, hk, hst, ho, hver⟩⟩
  · obtain ⟨y, hy, hyk, hs, ho, hver⟩ := kept_member hold
    cases hmove with
    | keep d e =>
      obtain ⟨owner, verifier, l, hf, hv, hne, hl, hown, hverd, hchk⟩ := hsep.checked y hy (hs.symm.trans hst)
      obtain rfl : l = k := Option.some.inj (hl.symm.trans hyk)
      have hown' : old.owner = .str owner := ho.trans hown
      have hver' : old.verifiedBy = .str verifier := hver.trans hverd
      exact ⟨owner, verifier, l, hf, hv, hne, hk, hown', hver',
        hchk.snoc ⟨fun _ => ⟨old, hold, hst, hown', hver'⟩, ⟨_, hx, hk, hst, hown', hver'⟩⟩⟩
    | recover st e hgrant hwas htarget =>
      dsimp only at hst
      rcases htarget with h | h <;> rw [h] at hst <;> cases hst
    | verify e hwas hother =>
      -- the only move to done: the item waited, and its owner is somebody else
      obtain ⟨owner, l, hf, hl, hown, hsub⟩ := hsep.waiting y hy (hs.symm.trans hwas)
      obtain rfl : l = k := Option.some.inj (hl.symm.trans hyk)
      have hown' : old.owner = .str owner := ho.trans hown
      have hne : owner ≠ actor := fun heq => hother (by rw [hown', heq])
      exact ⟨owner, actor, l, hf, hfleet, hne, hk, hown', rfl, tr, _, [], rfl, hsub,
        ⟨⟨env, rfl⟩, ⟨old, hold, hwas, hown'⟩, ⟨_, hx, hk, rfl, hown', rfl⟩⟩, by simp⟩
    | reject e hwas hother => dsimp only at hst; split_ifs at hst
    | claim o hwas => cases hst
    | submit e hwas hown => cases hst
    | flag st e htarget =>
      dsimp only at hst
      rcases htarget with h | h <;> rw [h] at hst <;> cases hst

theorem run_separated {P : Runtime} {cfg : Cfg} {s₀ s : RunState} {tr : List (Entry RunState Act)}
    (h : Run P cfg s₀ tr s) (h0 : s₀.checklist = []) : Separated cfg tr s := by
  induction h with
  | nil => exact ⟨by simp [h0], by simp [h0]⟩
  | snoc _ hnext ih =>
    exact ⟨fun x hx => separated_waiting ih hnext hx, fun x hx => separated_checked ih hnext hx⟩

/-- **Maker and checker are two.** In every run of a fleet without an empty name, from an empty checklist, each done
item has an owner and a verifier, both non-empty and different: the owner submitted it in an accepted turn, from there
it waited, submitted by nobody else, until an accepted turn of the verifier moved it from awaiting verification to
done, and so it has stood since. -/
theorem done_item_checked {P : Runtime} {cfg : Cfg} {s₀ s : RunState} {tr : List (Entry RunState Act)}
    (hrun : Run P cfg s₀ tr s) (h0 : s₀.checklist = []) (hfleet : "" ∉ cfg.agents) {x : Item} (hx : x ∈ s.checklist)
    (hdone : x.state = .done) :
    ∃ owner verifier k, x.id.key? = some k ∧ x.owner = .str owner ∧ x.verifiedBy = .str verifier ∧ owner ≠ "" ∧
      verifier ≠ "" ∧ owner ≠ verifier ∧ Checked tr k owner verifier := by
  obtain ⟨owner, verifier, k, hf, hv, hne, hk, ho, hver, hchk⟩ := (run_separated hrun h0).checked x hx hdone
  exact ⟨owner, verifier, k, hk, ho, hver, fun h => hfleet (h ▸ hf), fun h => hfleet (h ▸ hv), hne, hchk⟩

/-! ## Runs computed -/

/-- accepted turns one after the other -/
def playTurns (P : Runtime) (cfg : Cfg) (s : RunState) : List (String × Env) → Except Err RunState
  | [] => .ok s
  | (actor, env) :: rest => do
    if actor ∈ cfg.agents then
      let (t, _) ← review P cfg s actor env none
      playTurns P cfg t rest
    else .error .keyError

theorem playTurns_run {P : Runtime} {cfg : Cfg} {s t : RunState} {l : List (String × Env)}
    (h : playTurns P cfg s l = .ok t) : ∃ tr, Run P cfg s tr t := by
  induction l generalizing s with
  | nil => cases h; exact ⟨[], .nil⟩
  | cons p l ih =>
    obtain ⟨actor, env⟩ := p
    simp only [playTurns] at h
    split_ifs at h with hfleet
    obtain ⟨⟨u, narrative⟩, hrev, h⟩ := bind_ok h
    obtain ⟨tr, htr⟩ := ih h
    exact ⟨_, (Trace.single (.turn hfleet hrev)).append htr⟩

/-- text operations that are right for ASCII text without lists, dicts or floats -/
def plainText : Runtime where
  repr
    | .str s => "'" ++ s ++ "'"
    | _ => ""
  lower := lower

/-- two agents, no mail, no Second Wind -/
def twoAgents : Cfg :=
  { agents := ["claude", "agy"], turnsMax := 6, noProgressHalt := 3, repromptsMax := 1, rejectionsMax := 2
    secondWind := false, maxRecoveries := .int 2, mailEnabled := false, ccHuman := none }

/-- a run as it is created -/
def newRun : RunState :=
  { runId := "r-1", task := "build it", workdir := "/runs/r-1/workspace", turn := 0, actor := "claude"
    agentOrder := ["claude", "agy"], checklist := [], halt := none, violations := [], humanNote := none
    digestStreak := 0, lastDigest := "", created := "2026-01-01T00:00:00Z", turns := [], threadMessageId := none
    threadReferences := [], reprompts := 0, commissionMessageId := none, commissionRequestKey := some "q1"
    commissionedBy := some "ann@example.com", workspaceId := none, continuity := none, cloudCoordinator := none
    reportGeneration := 0, report := none, reportHalt := none, reportDelivery := none }

/-- an envelope with these items: id, state, owner -/
def envelopeOf (items : List (Value × String × Value)) : Env :=
  [("rally_version", .int 1), ("narrative", .str "next"),
   ("checklist", .list (items.map fun i => .dict [("id", i.1), ("state", .str i.2.1), ("owner", i.2.2)]))]

/-- claude scopes one item and submits it, agy verifies it -/
def oneItemTurns : List (String × Env) :=
  [("claude", envelopeOf [(.str "c1", "open", .none)]),
   ("claude", envelopeOf [(.str "c1", "awaiting-verification", .str "claude")]),
   ("agy", envelopeOf [(.str "c1", "done", .str "claude")])]

/-- the item those turns end with -/
def oneItemDone : Item := ⟨.str "c1", .str "", .done, .str "claude", .str "agy", .none, 0⟩

/-- one item, scoped, submitted by its owner and verified by the other agent -/
theorem done_item_checked_sample : ∃ tr s, Run plainText twoAgents newRun tr s ∧
    ∃ owner verifier k, oneItemDone.id.key? = some k ∧ oneItemDone.owner = .str owner ∧
      oneItemDone.verifiedBy = .str verifier ∧ owner ≠ "" ∧ verifier ≠ "" ∧ owner ≠ verifier ∧
      Checked tr k owner verifier := by
  have hplay : (playTurns plainText twoAgents newRun oneItemTurns).map (fun s => s.checklist) =
      .ok [oneItemDone] := by decide
  cases hrun : playTurns plainText twoAgents newRun oneItemTurns with
  | error e => rw [hrun] at hplay; cases hplay
  | ok s =>
    obtain ⟨tr, htr⟩ := playTurns_run hrun
    rw [hrun] at hplay
    have hlist : s.checklist = [oneItemDone] := Except.ok.inj hplay
    exact ⟨tr, s, htr, done_item_checked htr rfl (by decide) (hlist ▸ List.mem_singleton_self _) rfl⟩

end Rally.Runner
