/-
The scope of a run: which ids its checklist lists. Ids are the same when Python finds them equal (`Value.key?`), so
`1` and `true` are one id.

`reconcile` keeps the items of the previous checklist under their ids in a dict, from which it leaves out ids that
count as false (`""`, `0`, `false`, `0.0`), though such ids are admitted while the scope is open. Nothing restores an
item with such an id once a proposal leaves it out, and with the scope closed nothing keeps it at all.

- `scope_kept`: an accepted checklist keeps every id of the previous one exactly when each of those ids counts as true
  or is listed again while the scope is open. In a run of such turns the ids never shrink, and from turn 2 on only the
  revision of an authenticated note adds one.
- `zero_id_lost`: an item under the id `0` vanishes.
-/
import Rally.Runner.History

namespace Rally.Runner

open Py Rally.Envelope

/-- one id, as Python compares them -/
def SameId (x y : Item) : Prop := ∃ k, x.id.key? = some k ∧ y.id.key? = some k

/-- no item is lost, and none added once the scope is closed -/
def KeepsScope (prev out : List Item) (allowNew : Bool) : Prop :=
  (∀ it ∈ prev, ∃ x ∈ out, SameId x it) ∧ (allowNew = false → ∀ x ∈ out, ∃ it ∈ prev, SameId x it)

/-- each id of the checklist counts as true, or is proposed again while the scope is open -/
def Mentioned (prev : List Item) (proposed : Value) (allowNew : Bool) : Prop :=
  ∀ it ∈ prev, it.id.truthy = true ∨ (allowNew = true ∧ ∃ k ∈ proposedKeys proposed, it.id.key? = some k)

/-! ## Ids can be compared -/

/-- every id can be hashed -/
def Hashable (items : List Item) : Prop := ∀ it ∈ items, ∃ k, it.id.key? = some k

theorem step_hashable {P : Runtime} {cfg : Cfg} (s : RunState) (a : Act) (t : RunState) (h0 : Hashable s.checklist)
    (h : Step P cfg s a t) : Hashable t.checklist := by
  cases h with
  | turn _ hrev =>
    obtain ⟨c, vs, -, hrec, -⟩ := review_spec hrev
    intro x hx
    obtain ⟨k, hk, -⟩ := reconcile_origin hrec x hx
    exact ⟨k, hk⟩
  | handoff hmade => rwa [(startSecondWind_spec hmade).1]
  | rest hsame _ => rwa [hsame]
  | note happ =>
    obtain ⟨-, -, -, hcl | hcl | ⟨-, item, hitem, hcl⟩⟩ := applyHumanNote_spec happ
    · rwa [hcl]
    · rw [hcl]
      intro x hx
      obtain ⟨y, hy, rfl⟩ := List.mem_map.1 hx
      unfold reopenItem
      split_ifs <;> exact h0 y hy
    · rw [hcl]
      intro x hx
      rcases List.mem_append.1 hx with hx | hx
      · exact h0 x hx
      · obtain ⟨n, hn⟩ := (revisionItem_spec hitem).2
        rw [List.mem_singleton.1 hx, hn]
        exact ⟨_, rfl⟩

theorem run_hashable {P : Runtime} {cfg : Cfg} {s₀ s : RunState} {tr : List (Entry RunState Act)}
    (h : Run P cfg s₀ tr s) (h0 : s₀.checklist = []) :
    Hashable s.checklist ∧ ∀ e ∈ tr, Hashable e.before.checklist ∧ Hashable e.after.checklist :=
  h.inv (p := fun s => Hashable s.checklist) (by simp [h0, Hashable]) step_hashable

/-! ## One accepted checklist -/

/-- an id that counts as false is kept exactly when it is proposed again with the scope open -/
theorem keeps_iff_mentioned {prev out : List Item} {proposed : Value} {actor : String} {rm : ℤ} {allowNew : Bool}
    {items : List String} {vs : List Violation} (hprev : Hashable prev)
    (h : reconcile prev proposed actor rm allowNew items = .ok (out, vs)) :
    KeepsScope prev out allowNew ↔ Mentioned prev proposed allowNew := by
  have hkeys := reconcile_keys h
  constructor
  · rintro ⟨hkeep, -⟩ it hit
    obtain ⟨x, hx, k, hxk, hk⟩ := hkeep it hit
    rcases (hkeys k).1 ⟨x, hx, hxk⟩ with ⟨it', -, htrue, hk'⟩ | ⟨hnew, hmem⟩
    · -- an item with the same id counts as true, so this one does
      exact Or.inl (by rw [Value.truthy_of_key hk hk', htrue])
    · exact Or.inr ⟨hnew, k, hmem, hk⟩
  · intro hment
    refine ⟨fun it hit => ?_, fun hclosed x hx => ?_⟩
    · obtain ⟨k, hk⟩ := hprev it hit
      have hout : HasKey out k := by
        rw [hkeys]
        rcases hment it hit with htrue | ⟨hnew, l, hmem, hl⟩
        · exact Or.inl ⟨it, hit, htrue, hk⟩
        · obtain rfl : l = k := Option.some.inj (hl.symm.trans hk)
          exact Or.inr ⟨hnew, hmem⟩
      obtain ⟨x, hx, hxk⟩ := hout
      exact ⟨x, hx, k, hxk, hk⟩
    · obtain ⟨k, hxk, -⟩ := reconcile_origin h x hx
      rcases (hkeys k).1 ⟨x, hx, hxk⟩ with ⟨it, hit, -, hk⟩ | ⟨hnew, -⟩
      · exact ⟨it, hit, k, hxk, hk⟩
      · rw [hclosed] at hnew; cases hnew

/-! ## Whole runs -/

/-- the ids of a checklist -/
def ids (s : RunState) : Set Key := {k | HasKey s.checklist k}

/-- an accepted turn mentions what it has to -/
def Mentions (e : Entry RunState Act) : Prop :=
  ∀ actor env, e.act = .turn actor env → Mentioned e.before.checklist (proposedOf env) (e.before.turn ≤ 1)

/-- the step is a note that adds a revision item to finished work -/
def Revises (e : Entry RunState Act) : Prop :=
  ∃ text item, e.act = .note text ∧ isComplete e.before.checklist = true ∧
    revisionItem e.before.checklist text = .ok item ∧ e.after.checklist = e.before.checklist ++ [item]

theorem KeepsScope.ids {s t : RunState} {allowNew : Bool} (h : KeepsScope s.checklist t.checklist allowNew) :
    ids s ⊆ ids t ∧ (allowNew = false → ids t = ids s) := by
  have hsub : Runner.ids s ⊆ Runner.ids t := by
    rintro k ⟨it, hit, hk⟩
    obtain ⟨x, hx, l, hxl, hl⟩ := h.1 it hit
    obtain rfl : l = k := Option.some.inj (hl.symm.trans hk)
    exact ⟨x, hx, hxl⟩
  refine ⟨hsub, fun hclosed => Set.Subset.antisymm ?_ hsub⟩
  rintro k ⟨x, hx, hxk⟩
  obtain ⟨it, hit, l, hxl, hl⟩ := h.2 hclosed x hx
  obtain rfl : l = k := Option.some.inj (hxl.symm.trans hxk)
  exact ⟨it, hit, hl⟩

theorem ids_reopened {s t : RunState} (h : t.checklist = s.checklist.map reopenItem) : ids t = ids s := by
  have hid : ∀ it, (reopenItem it).id = it.id := by intro it; unfold reopenItem; split_ifs <;> rfl
  ext k
  simp [ids, HasKey, h, hid]

/-- one step of a run whose turns mention what they have to -/
theorem step_ids {P : Runtime} {cfg : Cfg} {e : Entry RunState Act} (h : Step P cfg e.before e.act e.after)
    (hhash : Hashable e.before.checklist) (hment : Mentions e) :
    ids e.before ⊆ ids e.after ∧ (2 ≤ e.before.turn → ids e.after = ids e.before ∨ Revises e) := by
  have same : e.after.checklist = e.before.checklist →
      ids e.before ⊆ ids e.after ∧ (2 ≤ e.before.turn → ids e.after = ids e.before ∨ Revises e) := by
    intro heq
    have hids : ids e.after = ids e.before := by unfold ids; rw [heq]
    exact ⟨hids.ge, fun _ => Or.inl hids⟩
  obtain ⟨s, a, t⟩ := e
  cases h with
  | turn hfleet hrev =>
    obtain ⟨c, vs, -, hrec, -⟩ := review_spec hrev
    have hkeep := ((keeps_iff_mentioned hhash hrec).2 (hment _ _ rfl)).ids
    refine ⟨hkeep.1, fun hturn => Or.inl (hkeep.2 ?_)⟩
    have hlate : ¬ s.turn ≤ 1 := by dsimp only at hturn; omega
    simpa using hlate
  | handoff hmade => exact same (startSecondWind_spec hmade).1
  | rest hsame _ => exact same hsame
  | note happ =>
    obtain ⟨-, -, -, hcl | hcl | ⟨hdone, item, hitem, hcl⟩⟩ := applyHumanNote_spec happ
    · exact same hcl
    · exact ⟨(ids_reopened hcl).ge, fun _ => Or.inl (ids_reopened hcl)⟩
    · refine ⟨?_, fun _ => Or.inr ⟨_, item, rfl, hdone, hitem, hcl⟩⟩
      rintro k ⟨x, hx, hxk⟩
      exact ⟨x, by dsimp only; rw [hcl]; exact List.mem_append_left _ hx, hxk⟩

/-- **The scope of a run.** For every checklist a run reaches, an accepted proposal keeps its ids, and adds none to a
closed scope, exactly when each id counts as true or is proposed again while the scope is open. In a run all of whose
turns do so the ids never shrink, and from turn 2 on they change only by the revision item of a note. -/
theorem scope_kept {P : Runtime} {cfg : Cfg} {s₀ s : RunState} {tr : List (Entry RunState Act)}
    (hrun : Run P cfg s₀ tr s) (h0 : s₀.checklist = []) :
    (∀ proposed actor rm allowNew items out vs,
      reconcile s.checklist proposed actor rm allowNew items = .ok (out, vs) →
        (KeepsScope s.checklist out allowNew ↔ Mentioned s.checklist proposed allowNew)) ∧
      ((∀ e ∈ tr, Mentions e) →
        (∀ tr₁ tr₂ s₁, tr = tr₁ ++ tr₂ → Run P cfg s₀ tr₁ s₁ → Run P cfg s₁ tr₂ s → ids s₁ ⊆ ids s) ∧
          ∀ e ∈ tr, 2 ≤ e.before.turn → ids e.after = ids e.before ∨ Revises e) := by
  have hhash := run_hashable hrun h0
  refine ⟨fun _ _ _ _ _ _ _ hrec => keeps_iff_mentioned hhash.1 hrec, fun hment => ⟨?_, ?_⟩⟩
  · rintro tr₁ tr₂ s₁ rfl - hback
    refine hback.rel (r := fun s t => ids s ⊆ ids t) (fun _ => subset_rfl) (fun _ _ _ => subset_trans) fun e he => ?_
    have hmem : e ∈ tr₁ ++ tr₂ := List.mem_append_right _ he
    exact (step_ids (hrun.entry e hmem) (hhash.2 e hmem).1 (hment e hmem)).1
  · intro e he
    exact (step_ids (hrun.entry e he) (hhash.2 e he).1 (hment e he)).2

/-- the scoping turn that proposes these ids -/
def scoping (listed : List Value) : List (String × Env) :=
  [("claude", envelopeOf (listed.map fun id => (id, "open", .none)))]

/-- claude's scope of two items, before agy's turn 2 -/
def scopedRun : RunState :=
  { newRun with
    turn := 2, actor := "agy"
    checklist := ["c1", "c2"].map fun name => ⟨.str name, .str "", .opened, .none, .none, .none, 0⟩ }

/-- the scope is closed, and agy lists one item of it and another -/
theorem scope_kept_sample : ∃ front e s, Run plainText twoAgents newRun (front ++ [e]) s ∧ front.length = 2 ∧
    e.before = scopedRun ∧ ids newRun ⊆ ids s ∧ (ids e.after = ids e.before ∨ Revises e) ∧
    ∀ proposed actor rm allowNew items out vs,
      reconcile s.checklist proposed actor rm allowNew items = .ok (out, vs) →
        (KeepsScope s.checklist out allowNew ↔ Mentioned s.checklist proposed allowNew) := by
  have hscoped : (review plainText twoAgents newRun "claude" (envelopeOf [(.str "c1", "open", .none),
      (.str "c2", "open", .none)]) none).map (fun r => r.1.checklist) = .ok scopedRun.checklist := by decide
  have hlisted : (review plainText twoAgents scopedRun "agy" (envelopeOf [(.str "c1", "claimed", .str "agy"),
      (.str "c9", "open", .none)]) none).isOk = true := by decide
  cases hscope : review plainText twoAgents newRun "claude" (envelopeOf [(.str "c1", "open", .none),
      (.str "c2", "open", .none)]) none with
  | error e => rw [hscope] at hscoped; cases hscoped
  | ok r =>
    cases hlist : review plainText twoAgents scopedRun "agy" (envelopeOf [(.str "c1", "claimed", .str "agy"),
        (.str "c9", "open", .none)]) none with
    | error e => rw [hlist] at hlisted; cases hlisted
    | ok r' =>
      rw [hscope] at hscoped
      obtain ⟨-, -, -, -, hturn, -, -, -, hsame⟩ := review_spec hscope
      have hrest : SameRun r.1 scopedRun := ⟨hsame.runId.symm, hsame.task.symm, hsame.created.symm, hsame.messageId.symm,
        hsame.requestKey.symm, hsame.commissionedBy.symm, hsame.workspaceId.symm, hturn.le.trans (Nat.zero_le 2)⟩
      have hrun : Run plainText twoAgents newRun _ r'.1 := ((Trace.nil.snoc (.turn (by decide) hscope)).snoc
        (.rest (Except.ok.inj hscoped).symm hrest)).snoc (.turn (by decide) hlist)
      have hkept := scope_kept hrun rfl
      obtain ⟨hgrow, hfixed⟩ := hkept.2 <| by
        intro e he actor env hact it hit
        simp only [List.nil_append, List.cons_append, List.mem_cons, List.not_mem_nil, or_false] at he
        rcases he with rfl | rfl | rfl
        · exact (List.not_mem_nil hit).elim
        · cases hact
        · have htruthy : ∀ it ∈ scopedRun.checklist, it.id.truthy = true := by decide
          exact .inl (htruthy it hit)
      exact ⟨_, _, r'.1, hrun, rfl, rfl, hgrow [] _ newRun rfl .nil hrun,
        hfixed _ (List.mem_append_right _ List.mem_cons_self) le_rfl, hkept.1⟩

/-- **An item is lost.** The scoping turn admits an item under the id `0`. The next accepted checklist, the scope now
closed, is without it. -/
theorem zero_id_lost : ∃ tr s out vs, Run plainText twoAgents newRun tr s ∧
    reconcile s.checklist (proposedOf (envelopeOf [(.str "c1", "open", .none)])) "agy" 2 false [] = .ok (out, vs) ∧
    (∃ it ∈ s.checklist, it.id = .int 0) ∧ ¬ ∃ x ∈ out, x.id.key? = Value.key? (.int 0) := by
  have hplay : (playTurns plainText twoAgents newRun (scoping [.str "c1", .int 0])).map (fun s => s.checklist) =
      .ok [⟨.str "c1", .str "", .opened, .none, .none, .none, 0⟩,
        ⟨.int 0, .str "", .opened, .none, .none, .none, 0⟩] := by decide
  cases hrun : playTurns plainText twoAgents newRun (scoping [.str "c1", .int 0]) with
  | error e => rw [hrun] at hplay; cases hplay
  | ok s =>
    obtain ⟨tr, htr⟩ := playTurns_run hrun
    rw [hrun] at hplay
    have hlist : s.checklist = [⟨.str "c1", .str "", .opened, .none, .none, .none, 0⟩,
      ⟨.int 0, .str "", .opened, .none, .none, .none, 0⟩] := Except.ok.inj hplay
    refine ⟨tr, s, [⟨.str "c1", .str "", .opened, .none, .none, .none, 0⟩], [], htr, ?_, ?_, by decide⟩
    · rw [hlist]; decide
    · rw [hlist]; decide

end Rally.Runner
