/-
Durable commissions (`Run.create`, `Run.find_commission`, `handle_commission` and `serve` of `src/runner.py`): records
that the queue delivers any number of times, to one process at a time, which may raise or be killed at any instruction.

- `findCommission_none`: the scan finds every visible run that holds the key.
- `handleRecord_accepted`: whatever a record makes the process do keeps the disk tidy, instruction by instruction.
- `commission_once`: in every history of deliveries, commands, exceptions and crashes each visible run directory holds
  its whole state, and at most one directory ever holds a given commission key.
-/
import Rally.Runner.Disk
import Rally.Runner.Session

namespace Rally.Runner

open Py Rally.Envelope Rally.Report

/-! ## The initial state -/

/-- `a or b`: the empty string counts as false -/
def pyOr (a b : Option String) : Option String :=
  match a.filter fun t => t ≠ "" with
  | some t => some t
  | none => b

theorem filter_ne {k : String} (hk : k ≠ "") : (some k).filter (fun t => t ≠ "") = some k := by
  simp [Option.filter, hk]

theorem pyOr_ne {k : String} (hk : k ≠ "") (b : Option String) : pyOr (some k) b = some k := by
  rw [pyOr, filter_ne hk]

/-- what the system supplies to `Run.create`: an id, the suffix of the staging directory, the time and the directory -/
structure Supplied where
  generated : String
  suffix : String
  created : String
  cwd : String

/-- the continuity record of a new run, with the choice made for it -/
def chosenContinuity (cfg : Cfg) (secondWind : Option Bool) : Except Err Continuity := do
  let c ← continuityPolicy cfg
  match secondWind with
  | none => .ok c
  | some chosen =>
    let enabled := chosen && decide (c.maxRecoveries > 0)
    .ok { c with secondWind := enabled, mode := if enabled then "second_wind" else "halt" }

/-- the state that `Run.create` stages -/
def initialState (cfg : Cfg) (task workdir rid created : String)
    (commissionedBy messageId requestKey workspaceId : Option String) (secondWind : Option Bool) :
    Except Err RunState := do
  let c ← chosenContinuity cfg secondWind
  .ok
    { runId := rid, task := task, workdir := workdir, turn := 0, actor := (configuredAgentOrder cfg).headD ""
      agentOrder := configuredAgentOrder cfg, checklist := [], halt := none, violations := [], humanNote := none
      digestStreak := 0, lastDigest := "", created := created, turns := []
      threadMessageId := messageId.filter fun m => m ≠ ""
      threadReferences := (messageId.filter fun m => m ≠ "").toList
      reprompts := 0, commissionMessageId := messageId
      commissionRequestKey := pyOr requestKey (if commissionedBy.isSome then some rid else none)
      commissionedBy := commissionedBy, workspaceId := workspaceId, continuity := some c, cloudCoordinator := none
      reportGeneration := 0, report := none, reportHalt := none, reportDelivery := none }

/-- `Run.create` up to its return, then `work` on the run it made -/
def create (rid suffix : String) (made : Except Err RunState) (work : RunState → List Instr) : List Instr :=
  if isRunId rid then
    match made with
    | .ok s => stage ("." ++ rid ++ ".create-" ++ suffix) rid s ++ (save rid s ++ work s)
    | .error _ => []
  else []

/-! ## The scan -/

/-- the run is the one of this request, or of this message -/
def sameRecord (requestKey messageId : Option String) (s : RunState) : Bool :=
  match requestKey.filter fun k => k ≠ "" with
  | some k => s.commissionRequestKey = some k || sameMessage
  | none => sameMessage
where
  sameMessage : Bool :=
    match messageId.filter fun m => m ≠ "" with
    | some m => s.commissionMessageId = some m || s.threadReferences.contains m
    | none => false

/-- `max(matches, key=created)`: the first of the latest -/
def latest : List (String × RunState) → Option (String × RunState)
  | [] => none
  | p :: l => some (l.foldl (fun best q => if best.2.created < q.2.created then q else best) p)

/-- `Run.find_commission`, with the directory it found -/
def findCommission (d : Disk) (requestKey messageId : Option String) : Option (String × RunState) :=
  if (pyOr requestKey messageId).filter (fun t => t ≠ "") = none then none
  else
    latest ((d.keys.filter isRunId).filterMap fun name =>
      ((d.read name).filter (sameRecord requestKey messageId)).map fun s => (name, s))

/-! ## Records -/

/-- a commission in the durable queue -/
structure Record where
  id : String
  task : String
  sender : String
  messageId : Option String
  requestKey : Option String
  runId : Option String
  secondWind : Option Bool
  workspaceId : Option String
  id_ne : id ≠ ""

/-- `request_key or message_id or run_id`, where `serve` puts the id of the record for a missing request key -/
def Record.durableKey (r : Record) : Option String :=
  pyOr (pyOr (pyOr r.requestKey (some r.id)) r.messageId) r.runId

/-- the queue's own id is there, if nothing else is -/
theorem Record.durableKey_ne (r : Record) : ∃ k, k ≠ "" ∧ r.durableKey = some k := by
  have hid := pyOr_ne r.id_ne
  unfold Record.durableKey
  cases hk : r.requestKey.filter fun t => t ≠ "" with
  | none =>
    have hkey : pyOr r.requestKey (some r.id) = some r.id := by rw [pyOr, hk]
    exact ⟨r.id, r.id_ne, by rw [hkey, hid, hid]⟩
  | some k =>
    have hne : k ≠ "" := by simpa using (Option.filter_eq_some_iff.1 hk).2
    have hkey : pyOr r.requestKey (some r.id) = some k := by rw [pyOr, hk]
    exact ⟨k, hne, by rw [hkey, pyOr_ne hne, pyOr_ne hne]⟩

/-- `validate_workspace_id` -/
def validateWorkspaceId (value : String) : Except Err String :=
  match (strip value).toList with
  | c :: rest =>
    if c.isAlphanum && decide (rest.length ≤ 95) && rest.all fun c => c.isAlphanum || c ∈ ['.', '_', ':', '-'] then
      .ok (strip value)
    else .error .valueError
  | [] => .error .valueError

/-- the saves of a call, as instructions -/
def instrs (name : String) (l : List Ev) : List Instr := (l.filterMap Ev.saved).flatMap (save name)

/-- `handle_commission`, up to where it is without a run -/
def handleRecord (P : Runtime) (cfg : Cfg) (d : Disk) (r : Record) (sup : Supplied) (w : Work) : List Instr :=
  match r.workspaceId.mapM validateWorkspaceId with
  | .error _ => []
  | .ok ws =>
    match findCommission d r.durableKey r.messageId with
    | some (name, s) =>
      (if hasReport s ∨ (ws.isSome ∧ s.workspaceId ≠ ws) then [] else [.workspace s.runId]) ++
        instrs name (handleCommission P cfg ws r.messageId w s).evs
    | none =>
      let rid := (r.runId.filter fun t => t ≠ "").getD sup.generated
      create rid sup.suffix
        (initialState cfg r.task sup.cwd rid sup.created (some r.sender) r.messageId r.durableKey ws r.secondWind)
        fun s => .workspace rid :: instrs rid (commence P cfg r.messageId w s).evs

/-- `rally --run`, from the run it made -/
def cmdRun (P : Runtime) (cfg : Cfg) (workdirGiven : Bool) (guidance : Option String) (maxTurns : ℕ) (w : Work)
    (s : RunState) : Call Unit :=
  (if workdirGiven then Exec.done s ()
    else saveThen .prepared { s with workdir := w.workspace } fun s => .done s ()).bind fun s _ =>
      (attachCloudCoordination w s).bind fun s ready =>
        if ready then cmdResume P cfg guidance maxTurns w s else .done s ()

/-! ## What the saves keep -/

/-- the id of the run and the key of its commission are the same -/
structure SameCommission (s t : RunState) : Prop where
  runId : t.runId = s.runId
  requestKey : t.commissionRequestKey = s.commissionRequestKey

section Saves

variable {P : Runtime} {cfg : Cfg} {s t u : RunState} {own key : Option String}

theorem SameCommission.refl (s : RunState) : SameCommission s s := ⟨rfl, rfl⟩

theorem SameCommission.trans (h : SameCommission s t) (h' : SameCommission t u) : SameCommission s u :=
  ⟨h'.runId.trans h.runId, h'.requestKey.trans h.requestKey⟩

theorem Works.sameCommission (h : Works P cfg s t) : SameCommission s t := ⟨h.same.runId, h.same.requestKey⟩

/-- every state saved has the id and the key of `s` -/
def SavesAs (s : RunState) (l : List Ev) : Prop := ∀ e ∈ l, ∀ t, e.saved = some t → SameCommission s t

theorem parts_saves {l : List Ev} (h : Parts P cfg own s key l) : SavesAs s l := by
  obtain ⟨work, tail, rfl, hwork, htail⟩ := h
  intro e he t ht
  rcases List.mem_append.1 he with he | he
  · cases e with
    | save m u =>
      cases ht
      exact (hwork _ he).2.sameCommission
    | _ => cases ht
  · rcases htail with rfl | ⟨u, text, halt, back, hu, -, -, -, rfl, hback⟩
    · cases he
    · have hrec : SameCommission s (recordReport u text halt key) := hu.sameCommission.trans ⟨rfl, rfl⟩
      rcases List.mem_cons.1 he with rfl | he
      · cases ht
        exact hrec
      · cases hback e he with
        | save hworks => cases ht; exact hrec.trans hworks.sameCommission
        | mail => cases ht

/-- a sequence whose first part ends with the same run -/
theorem bind_saves {α β : Type} {x : Call α} {f : RunState → α → Call β} (hx : SavesAs s x.evs)
    (hf : ∀ a, SavesAs s (f x.mem a).evs) : SavesAs s (x.bind f).evs := by
  intro e he
  rcases Exec.evs_bind x f with heq | ⟨a, -, heq⟩
  · exact hx e (heq ▸ he)
  · rw [heq] at he
    rcases List.mem_append.1 he with he | he
    · exact hx e he
    · exact hf a e he

theorem SavesAs.of (h : SameCommission s t) {l : List Ev} (hl : SavesAs t l) : SavesAs s l :=
  fun e he u hu => h.trans (hl e he u hu)

theorem cmdRun_saves (workdirGiven : Bool) (guidance : Option String) (maxTurns : ℕ) (w : Work) (s : RunState) :
    SavesAs s (cmdRun P cfg workdirGiven guidance maxTurns w s).evs := by
  have work : ∀ t, SameCommission s t → SavesAs s ((attachCloudCoordination w t).bind fun s ready =>
      if ready then cmdResume P cfg guidance maxTurns w s else .done s ()).evs := by
    intro t ht
    have hholds : (attachCloudCoordination w t).Holds (WorkEvent P cfg none t) (Works P cfg t) :=
      coordination_work (.refl t) w
    refine bind_saves (fun e he u hu => ?_) fun ready => ?_
    · cases e with
      | save m v => cases hu; exact ht.trans (hholds.1 _ he).2.sameCommission
      | _ => cases hu
    · cases ready with
      | false => intro e he; cases he
      | true =>
        have hparts := exec_parts P cfg (attachCloudCoordination w t).mem w (.resume guidance maxTurns)
        exact (parts_saves hparts).of (ht.trans hholds.2.sameCommission)
  unfold cmdRun
  cases workdirGiven with
  | true => exact work s (.refl s)
  | false =>
    intro e he t ht
    rcases List.mem_cons.1 he with rfl | he
    · cases ht; exact ⟨rfl, rfl⟩
    · exact work { s with workdir := w.workspace } ⟨rfl, rfl⟩ e he t ht

end Saves

/-! ## Instructions accepted -/

section Accepted

variable {P : Runtime} {cfg : Cfg} {d : Disk} {m : Machine} {name : String} {s : RunState}

/-- saves of a call on a published run -/
theorem instrs_accepted {l : List Ev} (hr : m.raised = false) (h : m.disk.Tidy) (hs : m.disk.Shows name s)
    (hid : s.runId = name) (hl : SavesAs s l) : tidy.Accepts m (instrs name l) := by
  refine saves_accepted hr h hs fun t ht => ?_
  obtain ⟨e, he, hsaved⟩ := List.mem_filterMap.1 ht
  have hsame := hl e he t hsaved
  exact ⟨hsame.runId.trans hid, hsame.requestKey⟩

theorem instrs_spares (name : String) (l : List Ev) : ∀ i ∈ instrs name l, i.Spares := by
  intro i hi
  obtain ⟨t, -, hi⟩ := List.mem_flatMap.1 hi
  exact save_spares name t i hi

/-- the workspace of a published run is inside its directory -/
theorem workspace_accepted {l : List Instr} (h : m.disk.Tidy) (hs : m.disk.Shows name s)
    (hl : tidy.Accepts m l) : tidy.Accepts m (.workspace name :: l) := by
  have heff : effect m (.workspace name) = m := by
    have hmem := Disk.mem_of_shows hs
    simp [effect, hmem]
  refine .cons (fine_of_same h (by rw [heff])) ?_
  have hnext : tidy.next m (.workspace name) = m := heff
  rwa [hnext]

theorem latest_mem {l : List (String × RunState)} {p : String × RunState} (h : latest l = some p) : p ∈ l := by
  cases l with
  | nil => cases h
  | cons q l =>
    cases h
    have hmem : ∀ (l : List (String × RunState)) (q : String × RunState),
        l.foldl (fun best q => if best.2.created < q.2.created then q else best) q ∈ q :: l := by
      intro l
      induction l with
      | nil => intro q; exact List.mem_cons_self
      | cons r l ih =>
        intro q
        rw [List.foldl_cons]
        rcases List.mem_cons.1 (ih (if q.2.created < r.2.created then r else q)) with heq | hl
        · rw [heq]
          split_ifs
          · exact List.mem_cons_of_mem _ List.mem_cons_self
          · exact List.mem_cons_self
        · exact List.mem_cons_of_mem _ (List.mem_cons_of_mem _ hl)
    exact hmem l q

/-- what the scan finds is a visible run -/
theorem findCommission_some {key mid : Option String} (h : findCommission d key mid = some (name, s)) :
    d.Shows name s := by
  unfold findCommission at h
  split_ifs at h
  obtain ⟨n, hn, hmap⟩ := List.mem_filterMap.1 (latest_mem h)
  obtain ⟨t, ht, heq⟩ := Option.map_eq_some_iff.1 hmap
  cases heq
  exact ⟨(List.mem_filter.1 hn).2, (Option.filter_eq_some_iff.1 ht).1⟩

/-- **The scan finds every visible run** that holds the key. -/
theorem findCommission_none {k : String} {mid : Option String} (hk : k ≠ "") (h : findCommission d (some k) mid = none)
    (hs : d.Shows name s) : s.commissionRequestKey ≠ some k := by
  intro hkey
  unfold findCommission at h
  have htruthy : (pyOr (some k) mid).filter (fun t => t ≠ "") ≠ none := by
    rw [pyOr_ne hk, filter_ne hk]
    exact Option.some_ne_none k
  rw [if_neg htruthy] at h
  have hmem : (name, s) ∈ (d.keys.filter isRunId).filterMap fun name =>
      ((d.read name).filter (sameRecord (some k) mid)).map fun s => (name, s) := by
    refine List.mem_filterMap.2 ⟨name, List.mem_filter.2 ⟨AList.mem_keys.1 (Disk.mem_of_shows hs), hs.1⟩, ?_⟩
    have hsame : sameRecord (some k) mid s = true := by
      rw [sameRecord, filter_ne hk]
      simp [hkey]
    rw [hs.2]
    simp [Option.filter, hsame]
  revert hmem h
  generalize (d.keys.filter isRunId).filterMap _ = l
  intro h hmem
  cases l with
  | nil => cases hmem
  | cons p l => cases h

theorem initialState_spec {task workdir rid created : String} {by_ mid key ws : Option String} {sw : Option Bool}
    (h : initialState cfg task workdir rid created by_ mid key ws sw = .ok s) :
    s.runId = rid ∧ s.commissionRequestKey = pyOr key (if by_.isSome then some rid else none) := by
  obtain ⟨c, -, h⟩ := bind_ok h
  cases h
  exact ⟨rfl, rfl⟩

theorem staging_hidden (rid suffix : String) : isRunId ("." ++ rid ++ ".create-" ++ suffix) = false := by
  simp [isRunId, String.toList_append]

theorem create_spares {rid suffix : String} {made : Except Err RunState} {work : RunState → List Instr}
    (hwork : ∀ s, ∀ i ∈ work s, i.Spares) : ∀ i ∈ create rid suffix made work, i.Spares := by
  unfold create
  intro i hi
  split_ifs at hi
  · cases made with
    | error e => cases hi
    | ok s =>
      rcases List.mem_append.1 hi with hi | hi
      · exact stage_spares (staging_hidden rid suffix) rid s i hi
      · rcases List.mem_append.1 hi with hi | hi
        · exact save_spares rid s i hi
        · exact hwork s i hi
  · cases hi

/-- the creation of a run with a key of its own, and its work -/
theorem create_work_accepted {rid suffix : String} {made : Except Err RunState} {work : RunState → List Instr}
    (hr : m.raised = false) (h : m.disk.Tidy) (hmade : ∀ s, made = .ok s → s.runId = rid ∧ m.disk.Fresh s)
    (hspares : ∀ s, ∀ i ∈ work s, i.Spares) (hwork : ∀ s, made = .ok s → Continues rid s (work s)) :
    tidy.Accepts m (create rid suffix made work) := by
  unfold create
  split_ifs with hrid
  · cases made with
    | error e => exact .nil
    | ok s =>
      obtain ⟨hid, hfresh⟩ := hmade s rfl
      refine create_accepted hr h (staging_hidden rid suffix) hrid hid hfresh (fun i hi => ?_) fun m' hr' h' hs' => ?_
      · rcases List.mem_append.1 hi with hi | hi
        · exact save_spares rid s i hi
        · exact hspares s i hi
      · -- the second save, with the connector record, then the work
        obtain ⟨dir, hl⟩ := Option.isSome_iff_exists.1 (AList.lookup_isSome.2 (Disk.mem_of_shows hs'))
        obtain ⟨htidy, hkeeps, hshows⟩ := tidy_update h' hs' hid rfl none
        rw [Monitor.accepts_append, after_save hr' hl]
        exact ⟨save_accepts hr' h' hl htidy hkeeps, hwork s rfl (m'.put rid _) hr' htidy hshows⟩
  · exact .nil

/-- **A record** keeps the disk tidy, instruction by instruction, whatever it finds there. -/
theorem handleRecord_accepted (hr : m.raised = false) (h : m.disk.Tidy) (r : Record) (sup : Supplied) (w : Work) :
    tidy.Accepts m (handleRecord P cfg m.disk r sup w) := by
  unfold handleRecord
  cases r.workspaceId.mapM validateWorkspaceId with
  | error e => exact .nil
  | ok ws =>
    cases hfind : findCommission m.disk r.durableKey r.messageId with
    | some found =>
      obtain ⟨name, s⟩ := found
      have hs := findCommission_some hfind
      have hid : s.runId = name := by
        obtain ⟨t, ht, htid⟩ := h.complete name (Disk.mem_of_shows hs) hs.1
        rwa [← Option.some.inj (hs.2.symm.trans ht.2)] at htid
      have hsaves := instrs_accepted hr h hs hid
        (parts_saves (exec_parts P cfg s w (.commission ws r.messageId)))
      simp only
      split_ifs
      · exact hsaves
      · rw [hid]
        exact workspace_accepted h hs hsaves
    | none =>
      obtain ⟨k, hk, hkey⟩ := r.durableKey_ne
      refine create_work_accepted hr h (fun s hs => ?_) (fun s i hi => ?_) fun s hs m' hr' h' hs' => ?_
      · obtain ⟨hid, hreq⟩ := initialState_spec hs
        refine ⟨hid, fun n t ht _ => ?_⟩
        rw [hreq, hkey, pyOr_ne hk]
        rw [hkey] at hfind
        exact findCommission_none hk hfind ht
      · rcases List.mem_cons.1 hi with rfl | hi
        · trivial
        · exact instrs_spares _ _ i hi
      · have hid := (initialState_spec hs).1
        have hparts : Parts P cfg none s _ (commence P cfg r.messageId w s).evs := commence_parts (.refl s) r.messageId w
        exact workspace_accepted h' hs' (instrs_accepted hr' h' hs' hid (parts_saves hparts))

theorem handleRecord_spares (d : Disk) (r : Record) (sup : Supplied) (w : Work) :
    ∀ i ∈ handleRecord P cfg d r sup w, i.Spares := by
  unfold handleRecord
  intro i hi
  split at hi
  · cases hi
  · split at hi
    · rcases List.mem_append.1 hi with hi | hi
      · split_ifs at hi
        · cases hi
        · rw [List.mem_singleton.1 hi]
          trivial
      · exact instrs_spares _ _ i hi
    · refine create_spares (fun s i hi => ?_) i hi
      rcases List.mem_cons.1 hi with rfl | hi
      · trivial
      · exact instrs_spares _ _ i hi

end Accepted

/-! ## One process at a time -/

/-- the disk, and what the process at work on it has still to do -/
structure Host where
  machine : Machine
  rest : List Instr

namespace Host

inductive Act where
  /-- the queue delivers a commission, for the first time or again -/
  | deliver (r : Record) (sup : Supplied) (w : Work)
  /-- a note from the queue, or a command of the operator -/
  | command (name : String) (op : Op) (w : Work)
  /-- `rally --run` -/
  | commission (task workdir : String) (workdirGiven : Bool) (guidance : Option String) (maxTurns : ℕ) (sup : Supplied)
      (w : Work)
  /-- the next instruction is carried out -/
  | tick
  /-- an exception -/
  | raise
  /-- the process is killed -/
  | crash

/-- a host without runs -/
def opened : Host := ⟨⟨∅, false⟩, []⟩

/-- what a process that starts on this disk will do, if nothing goes wrong -/
def todo (P : Runtime) (cfg : Cfg) (d : Disk) : Act → List Instr
  | .deliver r sup w => handleRecord P cfg d r sup w
  | .command _ (.commission _ _) _ => []
  | .command name op w =>
    if isRunId name then
      match d.read name with
      | some s => instrs name (op.exec P cfg w s).evs
      | none => []
    else []
  | .commission task workdir given guidance maxTurns sup w =>
    create sup.generated sup.suffix
      (initialState cfg task workdir sup.generated sup.created none none none none none) fun s =>
        (if given then [] else [.workspace sup.generated]) ++
          instrs sup.generated (cmdRun P cfg given guidance maxTurns w s).evs
  | _ => []

def step (P : Runtime) (cfg : Cfg) (h : Host) : Act → Host
  | .tick =>
    match h.rest with
    | [] => h
    | i :: rest => ⟨effect h.machine i, rest⟩
  | .raise => { h with machine := { h.machine with raised := true } }
  | .crash => ⟨{ h.machine with raised := false }, []⟩
  | a => if h.rest.isEmpty then ⟨{ h.machine with raised := false }, todo P cfg h.machine.disk a⟩ else h

def run (P : Runtime) (cfg : Cfg) (h : Host) (acts : List Act) : Host := acts.foldl (step P cfg) h

/-- the disk is tidy, and the process at work leaves it so -/
structure Inv (h : Host) : Prop where
  disk : h.machine.disk.Tidy
  accepted : tidy.Accepts h.machine h.rest
  spares : ∀ i ∈ h.rest, i.Spares

variable {P : Runtime} {cfg : Cfg} {h : Host} {m : Machine}

theorem inv_opened : opened.Inv where
  disk :=
    ⟨fun _ hmem => absurd hmem (AList.notMem_empty _),
      fun hs => absurd (Disk.mem_of_shows hs) (AList.notMem_empty _)⟩
  accepted := .nil
  spares := fun _ hi => nomatch hi

theorem todo_accepted (hr : m.raised = false) (ht : m.disk.Tidy) (a : Act) :
    tidy.Accepts m (todo P cfg m.disk a) ∧ ∀ i ∈ todo P cfg m.disk a, i.Spares := by
  cases a with
  | deliver r sup w => exact ⟨handleRecord_accepted hr ht r sup w, handleRecord_spares m.disk r sup w⟩
  | command name op w =>
    have hop : tidy.Accepts m (if isRunId name then
          match m.disk.read name with
          | some s => instrs name (op.exec P cfg w s).evs
          | none => []
        else []) ∧
        ∀ i ∈ (if isRunId name then
          match m.disk.read name with
          | some s => instrs name (op.exec P cfg w s).evs
          | none => []
        else []), i.Spares := by
      split_ifs with hn
      · cases hread : m.disk.read name with
        | none => exact ⟨.nil, fun _ hi => nomatch hi⟩
        | some s =>
          have hs : m.disk.Shows name s := ⟨hn, hread⟩
          obtain ⟨t, htshows, htid⟩ := ht.complete name (Disk.mem_of_shows hs) hn
          rw [← Option.some.inj (hread.symm.trans htshows.2)] at htid
          exact ⟨instrs_accepted hr ht hs htid (parts_saves (exec_parts P cfg s w op)), instrs_spares _ _⟩
      · exact ⟨.nil, fun _ hi => nomatch hi⟩
    cases op with
    | commission ws mid => exact ⟨.nil, fun _ hi => nomatch hi⟩
    | _ => exact hop
  | commission task workdir given guidance maxTurns sup w =>
    have hspares : ∀ s, ∀ i ∈ (if given then [] else [Instr.workspace sup.generated]) ++
        instrs sup.generated (cmdRun P cfg given guidance maxTurns w s).evs, i.Spares := by
      intro s i hi
      rcases List.mem_append.1 hi with hi | hi
      · split_ifs at hi
        · cases hi
        · rw [List.mem_singleton.1 hi]
          trivial
      · exact instrs_spares _ _ i hi
    refine ⟨create_work_accepted hr ht (fun s hs => ?_) hspares fun s hs m' hr' ht' hs' => ?_, create_spares hspares⟩
    · obtain ⟨hid, hreq⟩ := initialState_spec hs
      exact ⟨hid, fun n t _ hne => absurd hreq hne⟩
    · have hid := (initialState_spec hs).1
      have hrun : SavesAs s (cmdRun P cfg given guidance maxTurns w s).evs := cmdRun_saves given guidance maxTurns w s
      have hsaves := instrs_accepted hr' ht' hs' hid hrun
      cases given with
      | true => exact hsaves
      | false => exact workspace_accepted ht' hs' hsaves
  | tick => exact ⟨.nil, fun _ hi => nomatch hi⟩
  | raise => exact ⟨.nil, fun _ hi => nomatch hi⟩
  | crash => exact ⟨.nil, fun _ hi => nomatch hi⟩

theorem start_inv (hinv : h.Inv) (a : Act) :
    (if h.rest.isEmpty then (⟨{ h.machine with raised := false }, todo P cfg h.machine.disk a⟩ : Host) else h).Inv ∧
      h.machine.disk.Keeps
        (if h.rest.isEmpty then (⟨{ h.machine with raised := false }, todo P cfg h.machine.disk a⟩ : Host)
          else h).machine.disk := by
  split_ifs
  · obtain ⟨hacc, hspares⟩ := @todo_accepted P cfg { h.machine with raised := false } rfl hinv.disk a
    exact ⟨⟨hinv.disk, hacc, hspares⟩, .refl _⟩
  · exact ⟨hinv, .refl _⟩

theorem step_inv (hinv : h.Inv) (a : Act) :
    (h.step P cfg a).Inv ∧ h.machine.disk.Keeps (h.step P cfg a).machine.disk := by
  cases a with
  | deliver r sup w => exact start_inv hinv _
  | command name op w => exact start_inv hinv _
  | commission task workdir given guidance maxTurns sup w => exact start_inv hinv _
  | tick =>
    obtain ⟨m, rest⟩ := h
    cases rest with
    | nil => exact ⟨hinv, .refl _⟩
    | cons i rest =>
      obtain ⟨hfine, hrest⟩ := (tidy.accepts_cons m i rest).1 hinv.accepted
      exact ⟨⟨hfine.1, hrest, fun j hj => hinv.spares j (List.mem_cons_of_mem _ hj)⟩, hfine.2⟩
  | raise =>
    have hacc : tidy.Accepts { h.machine with raised := true } h.rest :=
      raised_accepted (m := { h.machine with raised := true }) rfl hinv.disk hinv.spares
    exact ⟨⟨hinv.disk, hacc, hinv.spares⟩, .refl _⟩
  | crash => exact ⟨⟨hinv.disk, .nil, fun _ hi => nomatch hi⟩, .refl _⟩

theorem run_inv (acts : List Act) (hinv : h.Inv) :
    (h.run P cfg acts).Inv ∧ h.machine.disk.Keeps (h.run P cfg acts).machine.disk := by
  induction acts generalizing h with
  | nil => exact ⟨hinv, .refl _⟩
  | cons a acts ih =>
    obtain ⟨hstep, hkeeps⟩ := @step_inv P cfg h hinv a
    obtain ⟨hrun, hkeeps'⟩ := ih hstep
    exact ⟨hrun, hkeeps.trans hkeeps'⟩

end Host

/-- **A commission is filed once.** In every history of a single process at a time, with deliveries of records in any
order and any number, commands, exceptions and crashes at any instruction: every visible run directory holds its whole
state; and a directory that holds a commission key at one time is the only one that holds it at any later time. -/
theorem commission_once (P : Runtime) (cfg : Cfg) (acts later : List Host.Act) :
    (∀ name ∈ (Host.opened.run P cfg acts).machine.disk, isRunId name = true →
      ∃ s, (Host.opened.run P cfg acts).machine.disk.Shows name s ∧ s.runId = name) ∧
    ∀ key n n' s s', (Host.opened.run P cfg acts).machine.disk.Shows n s →
      (Host.opened.run P cfg (acts ++ later)).machine.disk.Shows n' s' →
      s.commissionRequestKey = some key → s'.commissionRequestKey = some key → n = n' := by
  obtain ⟨hinv, -⟩ := @Host.run_inv P cfg Host.opened acts Host.inv_opened
  refine ⟨hinv.disk.complete, fun key n n' s s' hs hs' hkey hkey' => ?_⟩
  have hsplit : Host.opened.run P cfg (acts ++ later) = (Host.opened.run P cfg acts).run P cfg later :=
    List.foldl_append
  rw [hsplit] at hs'
  obtain ⟨hinv', hkeeps⟩ := @Host.run_inv P cfg _ later hinv
  obtain ⟨t, ht, hkt⟩ := hkeeps n s hs
  have hkt' : t.commissionRequestKey = some key := hkt.trans hkey
  exact hinv'.disk.single ht hs' (hkt'.trans hkey'.symm) (by rw [hkt']; exact Option.some_ne_none key)

/-- a record of the queue -/
def mailedRecord : Record :=
  { id := "q1", task := "build it", sender := "ann@example.com", messageId := none, requestKey := none, runId := none
    secondWind := none, workspaceId := none, id_ne := by decide }

/-- the record delivered with this id at hand for a new run, and so many instructions carried out -/
def delivered (rid : String) (n : ℕ) : List Host.Act :=
  .deliver mailedRecord ⟨rid, "0", "2026-01-01T00:00:00Z", "/runs"⟩ completingJob.work :: List.replicate n .tick

-- killed before the rename, during the second save, and in the loop; each time the record is delivered again
example : ((Host.opened.run plainText twoAgents (delivered "r-aaa" 4 ++ .crash :: delivered "r-bbb" 7 ++ .crash ::
    delivered "r-ccc" 5 ++ .crash :: delivered "r-ddd" 40)).machine.disk.keys.filter isRunId) = ["r-bbb"] := by
  decide +kernel

end Rally.Runner
