/-
Whose run a commission works on (`handle_commission` and `Run.find_commission` of `src/runner.py`), on any store of run
directories.

A commission goes on with the latest run that matches it by its key, its Message-ID or a message of the run's thread.
The sender chooses the Message-ID, and nobody asks whose run it is; `handle_note` does.

- `handling`: the run a commission makes or goes on with. `handleRecord_eq`: it does nothing else.
- `latest_leads`: the scan's choice is the first of the latest matching runs.
- `owner_isolated`: a commission leaves every run of another owner alone if and only if the first of the latest runs
  that match it is its sender's own, or is refused for its workspace.
- `owner_crossed`: a commission under the Message-ID of another's stopped run. The stop is cleared and the run goes on.
-/
import Mathlib.Data.String.Basic
import Rally.Runner.Commission
import Rally.Runner.KillSwitch

namespace Rally.Runner

open Py Rally.Envelope Rally.Report

/-! ## The run a commission works on -/

inductive Handling where
  /-- nothing is done -/
  | refused
  | made (rid : String) (s : RunState)
  | took (name : String) (s : RunState)
deriving DecidableEq

/-- the choice of `handle_commission` -/
def handling (cfg : Cfg) (d : Disk) (r : Record) (sup : Supplied) : Handling :=
  match r.workspaceId.mapM validateWorkspaceId with
  | .error _ => .refused
  | .ok ws =>
    match findCommission d r.durableKey r.messageId with
    | some (name, s) => if ws.isSome ∧ s.workspaceId ≠ ws then .refused else .took name s
    | none =>
      let rid := (r.runId.filter fun t => t ≠ "").getD sup.generated
      if isRunId rid then
        match initialState cfg r.task sup.cwd rid sup.created (some r.sender) r.messageId r.durableKey ws r.secondWind with
        | .ok s => .made rid s
        | .error _ => .refused
      else .refused

/-- the workspace of a commission, if it is a valid one -/
def Record.workspace (r : Record) : Option String :=
  match r.workspaceId.mapM validateWorkspaceId with
  | .ok ws => ws
  | .error _ => none

section Choice

variable {P : Runtime} {cfg : Cfg} {d : Disk} {r : Record} {sup : Supplied} {w : Work}

/-- what a commission does follows from the choice -/
theorem handleRecord_eq : handleRecord P cfg d r sup w =
    match handling cfg d r sup with
    | .refused => []
    | .made rid s =>
      stage ("." ++ rid ++ ".create-" ++ sup.suffix) rid s ++
        (save rid s ++ .workspace rid :: instrs rid (commence P cfg r.messageId w s).evs)
    | .took name s =>
      (if hasReport s then [] else [.workspace s.runId]) ++
        instrs name (handleCommission P cfg r.workspace r.messageId w s).evs := by
  unfold handleRecord handling Record.workspace
  cases r.workspaceId.mapM validateWorkspaceId with
  | error e => rfl
  | ok ws =>
    cases findCommission d r.durableKey r.messageId with
    | some found =>
      obtain ⟨name, s⟩ := found
      by_cases hspace : ws.isSome ∧ s.workspaceId ≠ ws
      · simp [hspace, handleCommission, instrs, Exec.raise]
      · simp [hspace]
    | none =>
      simp only [create]
      split_ifs
      · cases initialState cfg r.task sup.cwd _ sup.created (some r.sender) r.messageId r.durableKey ws r.secondWind with
        | ok s => rfl
        | error e => rfl
      · rfl

end Choice

/-! ## The first of the latest -/

/-- the latest of the runs in this order, and the first of those -/
def Leads (l : List (String × RunState)) (p : String × RunState) : Prop :=
  ∃ front back, l = front ++ p :: back ∧ (∀ q ∈ front, q.2.created < p.2.created) ∧
    ∀ q ∈ back, q.2.created ≤ p.2.created

section Latest

variable {l : List (String × RunState)} {p b c : String × RunState}

/-- the later of two leads for both -/
theorem leads_later (h : b.2.created < c.2.created) : Leads (c :: l) p ↔ Leads (b :: c :: l) p := by
  constructor
  · rintro ⟨front, back, heq, hfront, hback⟩
    refine ⟨b :: front, back, by rw [heq]; rfl, fun q hq => ?_, hback⟩
    rcases List.mem_cons.1 hq with rfl | hq
    · cases front with
      | nil =>
        obtain ⟨rfl, -⟩ := List.cons.inj heq
        exact h
      | cons x front =>
        obtain ⟨rfl, -⟩ := List.cons.inj heq
        exact h.trans (hfront c List.mem_cons_self)
    · exact hfront q hq
  · rintro ⟨front, back, heq, hfront, hback⟩
    cases front with
    | nil =>
      obtain ⟨rfl, rfl⟩ := List.cons.inj heq
      exact absurd h (hback c List.mem_cons_self).not_gt
    | cons x front =>
      obtain ⟨rfl, heq'⟩ := List.cons.inj heq
      exact ⟨front, back, heq', fun q hq => hfront q (List.mem_cons_of_mem _ hq), hback⟩

theorem leads_earlier (h : c.2.created ≤ b.2.created) : Leads (b :: l) p ↔ Leads (b :: c :: l) p := by
  constructor
  · rintro ⟨front, back, heq, hfront, hback⟩
    cases front with
    | nil =>
      obtain ⟨rfl, rfl⟩ := List.cons.inj heq
      refine ⟨[], c :: l, rfl, fun q hq => (List.not_mem_nil hq).elim, fun q hq => ?_⟩
      rcases List.mem_cons.1 hq with rfl | hq
      · exact h
      · exact hback q hq
    | cons x front =>
      obtain ⟨rfl, rfl⟩ := List.cons.inj heq
      have hb := hfront b List.mem_cons_self
      refine ⟨b :: c :: front, back, rfl, fun q hq => ?_, hback⟩
      rcases List.mem_cons.1 hq with rfl | hq
      · exact hb
      · rcases List.mem_cons.1 hq with rfl | hq
        · exact h.trans_lt hb
        · exact hfront q (List.mem_cons_of_mem _ hq)
  · rintro ⟨front, back, heq, hfront, hback⟩
    cases front with
    | nil =>
      obtain ⟨rfl, rfl⟩ := List.cons.inj heq
      exact ⟨[], l, rfl, fun q hq => (List.not_mem_nil hq).elim, fun q hq => hback q (List.mem_cons_of_mem _ hq)⟩
    | cons x front =>
      obtain ⟨rfl, heq'⟩ := List.cons.inj heq
      cases front with
      | nil =>
        obtain ⟨rfl, -⟩ := List.cons.inj heq'
        exact absurd (hfront b List.mem_cons_self) h.not_gt
      | cons y front =>
        obtain ⟨rfl, rfl⟩ := List.cons.inj heq'
        refine ⟨b :: front, back, rfl, fun q hq => ?_, hback⟩
        rcases List.mem_cons.1 hq with rfl | hq
        · exact hfront _ List.mem_cons_self
        · exact hfront q (List.mem_cons_of_mem _ (List.mem_cons_of_mem _ hq))

/-- **The scan's choice** is the first of the latest. -/
theorem latest_leads : latest l = some p ↔ Leads l p := by
  cases l with
  | nil =>
    constructor
    · intro h; cases h
    · rintro ⟨front, back, heq, -⟩
      simp at heq
  | cons b l =>
    simp only [latest, Option.some.injEq]
    induction l generalizing b with
    | nil =>
      constructor
      · rintro rfl
        exact ⟨[], [], rfl, fun q hq => (List.not_mem_nil hq).elim, fun q hq => (List.not_mem_nil hq).elim⟩
      · rintro ⟨front, back, heq, -⟩
        have hp : p ∈ [b] := by rw [heq]; simp
        exact (List.mem_singleton.1 hp).symm
    | cons c l ih =>
      rw [List.foldl_cons, ih]
      split_ifs with hlt
      · exact leads_later hlt
      · exact leads_earlier (not_lt.1 hlt)

end Latest

/-! ## Other directories -/

/-- the existing directories that an instruction may change -/
def Instr.targets : Instr → List String
  | .dump name _ => [name]
  | .replace name => [name]
  | .publish staging _ => [staging]
  | .cleanup staging => [staging]
  | _ => []

section Others

variable {m : Machine} {n name staging : String} {s : RunState} {l : List Instr}

theorem effect_other (hn : n ∈ m.disk) {i : Instr} (hi : n ∉ i.targets) :
    (effect m i).disk.lookup n = m.disk.lookup n := by
  cases i with
  | mkdtemp name =>
    simp only [effect]
    split_ifs with _ hthere
    · rfl
    · rfl
    · exact AList.lookup_insert_ne fun h => hthere (h ▸ hn)
  | workspace name =>
    simp only [effect]
    split_ifs with _ hthere
    · rfl
    · rfl
    · exact AList.lookup_insert_ne fun h => hthere (h ▸ hn)
  | dump name c =>
    have hne : n ≠ name := by simpa [Instr.targets] using hi
    simp only [effect]
    split_ifs
    · rfl
    · split
      · rfl
      · exact AList.lookup_insert_ne hne
  | replace name =>
    have hne : n ≠ name := by simpa [Instr.targets] using hi
    simp only [effect]
    split_ifs
    · rfl
    · split
      · exact AList.lookup_insert_ne hne
      · rfl
  | publish staging name =>
    have hne : n ≠ staging := by simpa [Instr.targets] using hi
    simp only [effect]
    split_ifs with _ hthere
    · rfl
    · rfl
    · split
      · rfl
      · have hname : n ≠ name := fun h => hthere (h ▸ hn)
        rw [AList.lookup_insert_ne hname, AList.lookup_erase_ne hne]
  | cleanup staging =>
    have hne : n ≠ staging := by simpa [Instr.targets] using hi
    exact AList.lookup_erase_ne hne

/-- a directory that no instruction names stays as it is -/
theorem after_other (hn : n ∈ m.disk) (hl : ∀ i ∈ l, n ∉ i.targets) :
    (tidy.after m l).disk.lookup n = m.disk.lookup n := by
  induction l generalizing m with
  | nil => rfl
  | cons i l ih =>
    have heff := effect_other hn (hl i List.mem_cons_self)
    have hn' : n ∈ (effect m i).disk := by
      rw [← AList.lookup_isSome, heff]
      exact AList.lookup_isSome.2 hn
    have hnext : tidy.next m i = effect m i := rfl
    rw [Monitor.after_cons, hnext, ih hn' fun i hi => hl i (List.mem_cons_of_mem _ hi), heff]

/-- nor does one change after an exception, unless it is a staging directory -/
theorem raised_other (hr : m.raised = true) (hl : ∀ i ∈ l, i.Spares) (hn : isRunId n = true) :
    (tidy.after m l).disk.lookup n = m.disk.lookup n := by
  induction l generalizing m with
  | nil => rfl
  | cons i l ih =>
    have hrest : ∀ i ∈ l, i.Spares := fun i hi => hl i (List.mem_cons_of_mem _ hi)
    have hnext : tidy.next m i = effect m i := rfl
    rw [Monitor.after_cons, hnext]
    rcases raised_effect hr i with ⟨staging, rfl, heq⟩ | heq
    · have hhidden : isRunId staging = false := hl _ List.mem_cons_self
      have hne : n ≠ staging := fun h => by rw [h, hhidden] at hn; cases hn
      have hrec := @ih { m with disk := m.disk.erase staging } hr hrest
      rw [heq, hrec]
      exact AList.lookup_erase_ne hne
    · rw [heq, ih hr hrest]

theorem save_targets (name : String) (s : RunState) : ∀ i ∈ save name s, i.targets = [name] := by
  simp [save, Instr.targets]

theorem instrs_targets {evs : List Ev} : ∀ i ∈ instrs name evs, i.targets = [name] := by
  intro i hi
  obtain ⟨t, -, hi⟩ := List.mem_flatMap.1 hi
  exact save_targets name t i hi

/-- the part of the staging before the existence check -/
theorem stage_eq (staging name : String) (s : RunState) :
    stage staging name s = (.mkdtemp staging :: save staging s) ++ [.publish staging name, .cleanup staging] := by
  simp [stage]

/-- the creation of a run whose directory exists raises -/
theorem stage_raises (hthere : name ∈ m.disk) (hne : name ≠ staging) :
    (tidy.after m (stage staging name s)).raised = true := by
  have hfront : ∀ i ∈ Instr.mkdtemp staging :: save staging s, name ∉ i.targets := by
    intro i hi
    rcases List.mem_cons.1 hi with rfl | hi
    · simp [Instr.targets]
    · rw [save_targets staging s i hi]
      simpa using hne
  have hlookup := after_other hthere hfront
  rw [stage_eq, Monitor.after_append]
  generalize tidy.after m (Instr.mkdtemp staging :: save staging s) = m' at hlookup ⊢
  have hthere' : name ∈ m'.disk := by
    rw [← AList.lookup_isSome, hlookup]
    exact AList.lookup_isSome.2 hthere
  have hpublish : (effect m' (.publish staging name)).raised = true := by
    simp only [effect]
    split_ifs with hr
    · exact hr
    · rfl
  exact hpublish

end Others

/-! ## Isolation -/

/-- the runs that match a commission, in directory order -/
def matching (d : Disk) (r : Record) : List (String × RunState) :=
  (d.keys.filter isRunId).filterMap fun name =>
    ((d.read name).filter (sameRecord r.durableKey r.messageId)).map fun s => (name, s)

/-- the commission is refused for its workspace, on this run -/
def Record.Refused (r : Record) (s : RunState) : Prop :=
  match r.workspaceId.mapM validateWorkspaceId with
  | .ok ws => ws.isSome ∧ s.workspaceId ≠ ws
  | .error _ => True

/-- a commission works on runs of its sender only -/
structure Isolated (P : Runtime) (cfg : Cfg) (d : Disk) (r : Record) (sup : Supplied) : Prop where
  made : ∀ rid s, handling cfg d r sup = .made rid s → s.commissionedBy = some r.sender
  /-- the run that is resumed, reported or mailed -/
  took : ∀ name s, handling cfg d r sup = .took name s → s.commissionedBy = some r.sender
  /-- at every instruction, whatever the agents do -/
  untouched : ∀ w n name s, d.Shows name s → s.commissionedBy ≠ some r.sender →
    (tidy.after ⟨d, false⟩ ((handleRecord P cfg d r sup w).take n)).disk.Shows name s

section Isolation

variable {P : Runtime} {cfg : Cfg} {d : Disk} {r : Record} {sup : Supplied} {name : String} {s : RunState}

theorem findCommission_eq : findCommission d r.durableKey r.messageId = latest (matching d r) := by
  obtain ⟨k, hk, hkey⟩ := r.durableKey_ne
  unfold findCommission matching
  rw [hkey, pyOr_ne hk, filter_ne hk, if_neg (Option.some_ne_none k)]

theorem handling_took : handling cfg d r sup = .took name s ↔ Leads (matching d r) (name, s) ∧ ¬ r.Refused s := by
  rw [← latest_leads, ← findCommission_eq]
  unfold handling Record.Refused
  cases r.workspaceId.mapM validateWorkspaceId with
  | error e => simp
  | ok ws =>
    cases hfind : findCommission d r.durableKey r.messageId with
    | some found =>
      obtain ⟨name', s'⟩ := found
      simp only [Option.some.injEq, Prod.mk.injEq]
      split_ifs with hspace
      · constructor
        · intro h; cases h
        · rintro ⟨⟨rfl, rfl⟩, hok⟩
          exact absurd hspace hok
      · constructor
        · intro h
          cases h
          exact ⟨⟨rfl, rfl⟩, hspace⟩
        · rintro ⟨⟨rfl, rfl⟩, -⟩
          rfl
    | none =>
      simp only [reduceCtorEq, false_and, iff_false]
      split_ifs
      · split <;> exact fun h => nomatch h
      · exact fun h => nomatch h

theorem initialState_owner {task workdir rid created sender : String} {mid key ws : Option String} {sw : Option Bool}
    (h : initialState cfg task workdir rid created (some sender) mid key ws sw = .ok s) :
    s.commissionedBy = some sender := by
  obtain ⟨c, -, h⟩ := bind_ok h
  cases h
  rfl

/-- a new run is its sender's, under the id it was asked for -/
theorem handling_made {rid : String} (h : handling cfg d r sup = .made rid s) :
    isRunId rid = true ∧ s.commissionedBy = some r.sender := by
  unfold handling at h
  split at h
  · cases h
  · split at h
    · split_ifs at h
    · simp only at h
      split_ifs at h with hrid
      split at h
      · rename_i hmade
        cases h
        exact ⟨hrid, initialState_owner hmade⟩
      · cases h

theorem shows_of_lookup {d' : Disk} (hs : d.Shows name s) (h : d'.lookup name = d.lookup name) : d'.Shows name s := by
  refine ⟨hs.1, ?_⟩
  have hread := hs.2
  unfold Disk.read at hread ⊢
  rwa [h]

/-- the run of a new commission takes the place of none -/
theorem made_untouched {rid staging : String} {t : RunState} {rest : List Instr} (hs : d.Shows name s)
    (hst : isRunId staging = false) (hrest : ∀ i ∈ rest, i.Spares ∧ ∀ x ∈ i.targets, x = rid) (n : ℕ) :
    (tidy.after ⟨d, false⟩ ((stage staging rid t ++ rest).take n)).disk.Shows name s := by
  have hmem := Disk.mem_of_shows hs
  have hne : name ≠ staging := fun h => by
    have hn := hs.1
    rw [h, hst] at hn
    cases hn
  apply shows_of_lookup hs
  have hstage : ∀ i ∈ stage staging rid t, name ∉ i.targets := by
    rw [stage_eq]
    simp [save, Instr.targets, hne]
  by_cases hname : name = rid
  · -- the directory exists, so the creation raises
    subst hname
    rw [List.take_append]
    cases hlen : n - (stage staging name t).length with
    | zero =>
      rw [List.take_zero, List.append_nil]
      exact after_other hmem fun i hi => hstage i (List.mem_of_mem_take hi)
    | succ k =>
      have hall : (stage staging name t).take n = stage staging name t := List.take_of_length_le (by omega)
      rw [hall, Monitor.after_append]
      have hraised := @stage_raises ⟨d, false⟩ name staging t hmem hne
      rw [raised_other hraised (fun i hi => (hrest i (List.mem_of_mem_take hi)).1) hs.1]
      exact after_other hmem hstage
  · apply after_other hmem
    intro i hi
    rcases List.mem_append.1 (List.mem_of_mem_take hi) with hi | hi
    · exact hstage i hi
    · intro hin
      exact hname ((hrest i hi).2 name hin)

/-- **Isolation of owners.** A commission leaves every run of another owner alone if and only if the first of the latest
runs that match it is its sender's own, or is one the commission is refused for. -/
theorem owner_isolated (P : Runtime) (cfg : Cfg) (d : Disk) (r : Record) (sup : Supplied) :
    Isolated P cfg d r sup ↔
      ∀ name s, Leads (matching d r) (name, s) → s.commissionedBy = some r.sender ∨ r.Refused s := by
  constructor
  · intro h name s hlead
    by_cases hrefused : r.Refused s
    · exact Or.inr hrefused
    · exact Or.inl (h.took name s (handling_took.2 ⟨hlead, hrefused⟩))
  · intro h
    have took : ∀ name s, handling cfg d r sup = .took name s → s.commissionedBy = some r.sender := by
      intro name s hs
      obtain ⟨hlead, hok⟩ := handling_took.1 hs
      exact (h name s hlead).resolve_right hok
    refine ⟨fun rid s hs => (handling_made hs).2, took, fun w n name t ht hother => ?_⟩
    rw [handleRecord_eq]
    cases hh : handling cfg d r sup with
    | refused =>
      rw [List.take_nil]
      exact ht
    | made rid s =>
      refine made_untouched ht (staging_hidden rid sup.suffix) (fun i hi => ?_) n
      rcases List.mem_append.1 hi with hi | hi
      · exact ⟨save_spares rid s i hi, by simp [save_targets rid s i hi]⟩
      · rcases List.mem_cons.1 hi with rfl | hi
        · exact ⟨trivial, by simp [Instr.targets]⟩
        · exact ⟨instrs_spares rid _ i hi, by simp [instrs_targets i hi]⟩
    | took name' s =>
      have hown := took name' s hh
      have hfind : findCommission d r.durableKey r.messageId = some (name', s) := by
        rw [findCommission_eq, latest_leads]
        exact (handling_took.1 hh).1
      have hne : name ≠ name' := by
        rintro rfl
        have heq : s = t := Option.some.inj ((findCommission_some hfind).2.symm.trans ht.2)
        exact hother (heq ▸ hown)
      apply shows_of_lookup ht
      apply after_other (Disk.mem_of_shows ht)
      intro i hi
      rcases List.mem_append.1 (List.mem_of_mem_take hi) with hi | hi
      · split_ifs at hi
        · cases hi
        · rw [List.mem_singleton.1 hi]
          simp [Instr.targets]
      · rw [instrs_targets i hi]
        simpa using hne

end Isolation

/-! ## An owner's run crossed -/

/-- a run of bob's, stopped by its owner -/
def bobsRun : RunState :=
  { newRun with
    runId := "r-bob", commissionedBy := some "bob@example.com", commissionRequestKey := some "q0"
    commissionMessageId := some "<m1@example.com>", threadMessageId := some "<m1@example.com>"
    threadReferences := ["<m1@example.com>"], halt := some ⟨"stopped_by_human", "stopped by bob"⟩ }

def bobsStore : Disk := (∅ : Disk).insert "r-bob" ⟨none, some (.whole bobsRun)⟩

/-- ann's commission, under the Message-ID of bob's -/
def annsRecord : Record := { mailedRecord with id := "q2", messageId := some "<m1@example.com>", id_ne := by decide }

def annsSupply : Supplied := ⟨"r-ann", "0", "2026-01-02T00:00:00Z", "/runs"⟩

/-- **Another's run is crossed.** Ann's commission goes on with bob's run: its stop is gone, and so far nobody made a run
of ann's. -/
theorem owner_crossed : ¬ Isolated plainText twoAgents bobsStore annsRecord annsSupply ∧
    bobsStore.Shows "r-bob" bobsRun ∧ Stopped bobsRun ∧
    ∃ t, (tidy.after ⟨bobsStore, false⟩
        ((handleRecord plainText twoAgents bobsStore annsRecord annsSupply completingJob.work).take 4)).disk.Shows "r-bob" t ∧
      t.halt = none ∧ t.turn = 1 := by
  have hlead : Leads (matching bobsStore annsRecord) ("r-bob", bobsRun) := by
    rw [← latest_leads]
    decide
  refine ⟨fun h => ?_, ⟨by decide, by decide⟩, by decide, ?_⟩
  · rcases (owner_isolated _ _ _ _ _).1 h "r-bob" bobsRun hlead with hown | hrefused
    · exact absurd hown (by decide)
    · exact absurd hrefused.1 (by decide)
  · have hread : (Disk.read (tidy.after ⟨bobsStore, false⟩ ((handleRecord plainText twoAgents bobsStore annsRecord
        annsSupply completingJob.work).take 4)).disk "r-bob").map (fun t => (t.halt, t.turn)) = some (none, 1) := by
      decide
    obtain ⟨t, ht, heq⟩ := Option.map_eq_some_iff.1 hread
    obtain ⟨hhalt, hturn⟩ := Prod.mk.inj heq
    exact ⟨t, ⟨by decide, ht⟩, hhalt, hturn⟩

end Rally.Runner
