/-
The run directories (`src/runner.py`): `Run.save`, `Run.load`, and the staging and publishing of a new directory in
`Run.create`, as instructions that the operating system carries out one at a time.

A file is written by pieces and replaced at once, so a reader finds a state file as a whole or, if it was written in
place, as a part. After an exception only the `finally` block of `Run.create` is carried out; a crash ends everything.

- `tidy`: the monitor of the disk. After every instruction each visible run directory holds a whole state file under
  its own id, no two hold the same commission key, and no directory or key is lost.
- `raised_accepted`: after an exception the disk stays as it is.
- `saves_accepted`: saves of a published run with its key keep the disk tidy, at every instruction.
- `create_accepted`: so does the creation of a run whose key no directory holds; it publishes the run or raises.
-/
import Mathlib.Data.List.AList
import Rally.Core.Monitor
import Rally.Runner.State

namespace Rally.Runner

open Py

/-! ## The disk -/

/-- what a file holds: the dump of a state, or the part of one that was written -/
inductive Content where
  | part (s : RunState)
  | whole (s : RunState)
deriving DecidableEq

/-- `json.load`: a part of a dump is no JSON text -/
def Content.load : Content → Option RunState
  | .part _ => none
  | .whole s => some s

/-- the state file of a run directory, and the temporary file beside it -/
structure Dir where
  tmp : Option Content
  state : Option Content
deriving DecidableEq

abbrev Disk : Type := AList fun _ : String => Dir

/-- `RUN_ID_RE.fullmatch` -/
def isRunId (name : String) : Bool :=
  match name.toList with
  | 'r' :: '-' :: rest =>
    decide (3 ≤ rest.length) && decide (rest.length ≤ 77) && rest.all fun c => c.isDigit || c.isLower || c == '-'
  | _ => false

/-- `Run.load` -/
def Disk.read (d : Disk) (name : String) : Option RunState :=
  (d.lookup name).bind fun dir => dir.state.bind Content.load

inductive Instr where
  | mkdtemp (name : String)
  /-- a new workspace, inside the run directory of this id -/
  | workspace (name : String)
  /-- the temporary file of the directory is written -/
  | dump (name : String) (c : Content)
  /-- the temporary file takes the place of the state file -/
  | replace (name : String)
  /-- the existence check and the rename, under the lock -/
  | publish (staging name : String)
  /-- the staging directory is removed, in the `finally` block -/
  | cleanup (staging : String)

/-- the disk and whether an exception is on its way -/
structure Machine where
  disk : Disk
  raised : Bool

/-- one instruction -/
def effect (m : Machine) : Instr → Machine
  | .cleanup staging => { m with disk := m.disk.erase staging }
  | i =>
    if m.raised then m
    else
      match i with
      | .mkdtemp name =>
        if name ∈ m.disk then { m with raised := true } else { m with disk := m.disk.insert name ⟨none, none⟩ }
      | .workspace name => if name ∈ m.disk then m else { m with disk := m.disk.insert name ⟨none, none⟩ }
      | .dump name c =>
        match m.disk.lookup name with
        | none => { m with raised := true }
        | some dir => { m with disk := m.disk.insert name { dir with tmp := some c } }
      | .replace name =>
        match m.disk.lookup name with
        | some ⟨some c, _⟩ => { m with disk := m.disk.insert name ⟨none, some c⟩ }
        | _ => { m with raised := true }
      | .publish staging name =>
        if name ∈ m.disk then { m with raised := true }
        else
          match m.disk.lookup staging with
          | none => { m with raised := true }
          | some dir => { m with disk := (m.disk.erase staging).insert name dir }
      | .cleanup staging => { m with disk := m.disk.erase staging }

/-- `Run.save` -/
def save (name : String) (s : RunState) : List Instr := [.dump name (.part s), .dump name (.whole s), .replace name]

/-- the part of `Run.create` from `mkdtemp` to the end of its `finally` block -/
def stage (staging name : String) (s : RunState) : List Instr :=
  .mkdtemp staging :: (save staging s ++ [.publish staging name, .cleanup staging])

/-! ## A tidy disk -/

/-- the visible run directory `name` holds the whole state `s` -/
def Disk.Shows (d : Disk) (name : String) (s : RunState) : Prop := isRunId name = true ∧ d.read name = some s

/-- each visible directory holds the whole state of its run, and no two the same commission key -/
structure Disk.Tidy (d : Disk) : Prop where
  complete : ∀ name ∈ d, isRunId name = true → ∃ s, d.Shows name s ∧ s.runId = name
  single : ∀ {n n' s s'}, d.Shows n s → d.Shows n' s' → s.commissionRequestKey = s'.commissionRequestKey →
    s.commissionRequestKey ≠ none → n = n'

/-- no visible directory is lost, nor its key -/
def Disk.Keeps (d d' : Disk) : Prop :=
  ∀ name s, d.Shows name s → ∃ s', d'.Shows name s' ∧ s'.commissionRequestKey = s.commissionRequestKey

/-- an instruction leaves the disk tidy and loses nothing -/
def tidy : Monitor Instr Machine where
  next := effect
  fine m i := (effect m i).disk.Tidy ∧ m.disk.Keeps (effect m i).disk

/-- what is removed is no visible directory -/
def Instr.Spares : Instr → Prop
  | .cleanup staging => isRunId staging = false
  | _ => True

section Disk

variable {d d' : Disk} {m : Machine} {name staging : String} {s s₀ : RunState}

theorem Disk.Keeps.refl (d : Disk) : d.Keeps d := fun _ s h => ⟨s, h, rfl⟩

theorem Disk.Keeps.trans {d'' : Disk} (h : d.Keeps d') (h' : d'.Keeps d'') : d.Keeps d'' := by
  intro name s hs
  obtain ⟨t, ht, hkey⟩ := h name s hs
  obtain ⟨u, hu, hkey'⟩ := h' name t ht
  exact ⟨u, hu, hkey'.trans hkey⟩

theorem Disk.mem_of_shows (h : d.Shows name s) : name ∈ d := by
  rw [← AList.lookup_isSome]
  have hread := h.2
  unfold Disk.read at hread
  cases hl : d.lookup name with
  | none => rw [hl] at hread; cases hread
  | some dir => rfl

theorem read_insert (d : Disk) (name : String) (dir : Dir) :
    Disk.read (d.insert name dir) name = dir.state.bind Content.load := by
  simp [Disk.read]

theorem read_insert_ne {n : String} (h : n ≠ name) (dir : Dir) : Disk.read (d.insert name dir) n = d.read n := by
  simp [Disk.read, AList.lookup_insert_ne h]

theorem read_erase_ne {n : String} (h : n ≠ name) : Disk.read (d.erase name) n = d.read n := by
  simp [Disk.read, AList.lookup_erase_ne h]

/-- the visible directories are the same -/
structure SameShelf (d d' : Disk) : Prop where
  mem : ∀ n, isRunId n = true → (n ∈ d' ↔ n ∈ d)
  read : ∀ n, isRunId n = true → d'.read n = d.read n

theorem SameShelf.shows (h : SameShelf d d') {n : String} : d'.Shows n s ↔ d.Shows n s := by
  unfold Disk.Shows
  constructor
  · rintro ⟨hn, hs⟩
    exact ⟨hn, by rwa [← h.read n hn]⟩
  · rintro ⟨hn, hs⟩
    exact ⟨hn, by rwa [h.read n hn]⟩

theorem SameShelf.tidy (h : SameShelf d d') (ht : d.Tidy) : d'.Tidy where
  complete := by
    intro n hmem hn
    obtain ⟨s, hs, hid⟩ := ht.complete n ((h.mem n hn).1 hmem) hn
    exact ⟨s, h.shows.2 hs, hid⟩
  single := fun hs hs' => ht.single (h.shows.1 hs) (h.shows.1 hs')

theorem SameShelf.symm (h : SameShelf d d') : SameShelf d' d :=
  ⟨fun n hn => (h.mem n hn).symm, fun n hn => (h.read n hn).symm⟩

theorem SameShelf.trans {d'' : Disk} (h : SameShelf d d') (h' : SameShelf d' d'') : SameShelf d d'' :=
  ⟨fun n hn => (h'.mem n hn).trans (h.mem n hn), fun n hn => (h'.read n hn).trans (h.read n hn)⟩

theorem SameShelf.keeps (h : SameShelf d d') : d.Keeps d' := fun _ s hs => ⟨s, h.shows.2 hs, rfl⟩

theorem shelf_insert (hidden : isRunId name = false) (dir : Dir) : SameShelf d (d.insert name dir) where
  mem n hn := by
    have hne : n ≠ name := fun h => by rw [h, hidden] at hn; cases hn
    simp [AList.mem_insert, hne]
  read n hn := read_insert_ne (fun h => by rw [h, hidden] at hn; cases hn) dir

theorem shelf_erase (hidden : isRunId name = false) : SameShelf d (d.erase name) where
  mem n hn := by
    have hne : n ≠ name := fun h => by rw [h, hidden] at hn; cases hn
    simp [AList.mem_erase, hne]
  read n hn := read_erase_ne fun h => by rw [h, hidden] at hn; cases hn

/-! ## Instructions -/

theorem fine_of_shelf {i : Instr} (h : m.disk.Tidy) (hs : SameShelf m.disk (effect m i).disk) : tidy.fine m i :=
  ⟨hs.tidy h, hs.keeps⟩

/-- an instruction that raises, or is skipped, leaves the disk as it is -/
theorem fine_of_same {i : Instr} (h : m.disk.Tidy) (hs : (effect m i).disk = m.disk) : tidy.fine m i :=
  fine_of_shelf h (by rw [hs]; exact ⟨fun _ _ => Iff.rfl, fun _ _ => rfl⟩)

theorem raised_effect (hr : m.raised = true) (i : Instr) :
    (∃ staging, i = .cleanup staging ∧ effect m i = { m with disk := m.disk.erase staging }) ∨ effect m i = m := by
  cases i with
  | cleanup staging => exact Or.inl ⟨staging, rfl, rfl⟩
  | _ => exact Or.inr (by simp [effect, hr])

/-- **After an exception** nothing is done but to remove the staging directory. -/
theorem raised_accepted (hr : m.raised = true) (h : m.disk.Tidy) {l : List Instr} (hl : ∀ i ∈ l, i.Spares) :
    tidy.Accepts m l := by
  induction l generalizing m with
  | nil => exact .nil
  | cons i l ih =>
    have hrest : ∀ i ∈ l, i.Spares := fun i hi => hl i (List.mem_cons_of_mem _ hi)
    rcases raised_effect hr i with ⟨staging, rfl, heq⟩ | heq
    · have hshelf : SameShelf m.disk (effect m (.cleanup staging)).disk := by
        rw [heq]
        exact shelf_erase (hl _ List.mem_cons_self)
      exact .cons (fine_of_shelf h hshelf) (ih hr (hshelf.tidy h) hrest)
    · refine .cons (fine_of_same h (by rw [heq])) ?_
      have hnext : tidy.next m i = m := heq
      rw [hnext]
      exact ih hr h hrest

/-- an instruction that raises ends the procedure -/
theorem raises_accepted {i : Instr} {l : List Instr} (hi : effect m i = { m with raised := true }) (h : m.disk.Tidy)
    (hl : ∀ i ∈ l, i.Spares) : tidy.Accepts m (i :: l) := by
  refine .cons (fine_of_same h (by rw [hi])) ?_
  have hnext : tidy.next m i = { m with raised := true } := hi
  rw [hnext]
  exact raised_accepted (m := { m with raised := true }) rfl h hl

/-- the machine after a directory was written -/
def Machine.put (m : Machine) (name : String) (dir : Dir) : Machine := { m with disk := m.disk.insert name dir }

@[simp] theorem Machine.put_disk (m : Machine) (name : String) (dir : Dir) :
    (m.put name dir).disk = m.disk.insert name dir := rfl
@[simp] theorem Machine.put_raised (m : Machine) (name : String) (dir : Dir) : (m.put name dir).raised = m.raised := rfl

theorem effect_dump {dir : Dir} (hr : m.raised = false) (hl : m.disk.lookup name = some dir) (c : Content) :
    effect m (.dump name c) = m.put name { dir with tmp := some c } := by
  simp [effect, hr, hl, Machine.put]

theorem effect_replace {c : Content} {old : Option Content} (hr : m.raised = false)
    (hl : m.disk.lookup name = some ⟨some c, old⟩) : effect m (.replace name) = m.put name ⟨none, some c⟩ := by
  simp [effect, hr, hl, Machine.put]

/-- a temporary file is not seen -/
theorem shelf_tmp {dir : Dir} (hl : d.lookup name = some dir) (c : Option Content) :
    SameShelf d (d.insert name { dir with tmp := c }) where
  mem n _ := by
    have hmem : name ∈ d := AList.lookup_isSome.1 (by rw [hl]; rfl)
    rw [AList.mem_insert]
    exact ⟨fun h => h.elim (fun h => h ▸ hmem) id, Or.inr⟩
  read n _ := by
    by_cases hn : n = name
    · subst hn
      rw [read_insert]
      simp [Disk.read, hl]
    · exact read_insert_ne hn _

/-- the state file of a published run is replaced, under the same key -/
theorem tidy_update (h : d.Tidy) (hs : d.Shows name s₀) (hid : s.runId = name)
    (hkey : s.commissionRequestKey = s₀.commissionRequestKey) (tmp : Option Content) :
    Disk.Tidy (d.insert name ⟨tmp, some (.whole s)⟩) ∧ d.Keeps (d.insert name ⟨tmp, some (.whole s)⟩) ∧
      Disk.Shows (d.insert name ⟨tmp, some (.whole s)⟩) name s := by
  have hnew : Disk.Shows (d.insert name ⟨tmp, some (.whole s)⟩) name s := ⟨hs.1, read_insert _ _ _⟩
  have hother : ∀ {n t}, n ≠ name → (Disk.Shows (d.insert name ⟨tmp, some (.whole s)⟩) n t ↔ d.Shows n t) := by
    intro n t hn
    unfold Disk.Shows
    rw [read_insert_ne hn]
  -- every directory shows what it showed, or a state with the same key
  have hback : ∀ {n t}, Disk.Shows (d.insert name ⟨tmp, some (.whole s)⟩) n t →
      ∃ t', d.Shows n t' ∧ t'.commissionRequestKey = t.commissionRequestKey := by
    intro n t ht
    by_cases hn : n = name
    · subst hn
      obtain rfl : s = t := Option.some.inj (hnew.2.symm.trans ht.2)
      exact ⟨s₀, hs, hkey.symm⟩
    · exact ⟨t, (hother hn).1 ht, rfl⟩
  refine ⟨⟨fun n hmem hn => ?_, fun hn hn' heq hne => ?_⟩, fun n t ht => ?_, hnew⟩
  · by_cases hname : n = name
    · subst hname
      exact ⟨s, hnew, hid⟩
    · obtain ⟨t, ht, htid⟩ := h.complete n (((AList.mem_insert d).1 hmem).resolve_left hname) hn
      exact ⟨t, (hother hname).2 ht, htid⟩
  · obtain ⟨t, ht, hkt⟩ := hback hn
    obtain ⟨t', ht', hkt'⟩ := hback hn'
    exact h.single ht ht' (hkt.trans (heq.trans hkt'.symm)) (by rwa [hkt])
  · by_cases hname : n = name
    · subst hname
      obtain rfl : s₀ = t := Option.some.inj (hs.2.symm.trans ht.2)
      exact ⟨s, hnew, hkey⟩
    · exact ⟨t, (hother hname).2 ht, rfl⟩

/-- a save, instruction by instruction -/
theorem save_effects {dir : Dir} (hr : m.raised = false) (hl : m.disk.lookup name = some dir) (s : RunState) :
    effect m (.dump name (.part s)) = m.put name { dir with tmp := some (.part s) } ∧
      effect (m.put name { dir with tmp := some (.part s) }) (.dump name (.whole s)) =
        m.put name { dir with tmp := some (.whole s) } ∧
      effect (m.put name { dir with tmp := some (.whole s) }) (.replace name) = m.put name ⟨none, some (.whole s)⟩ := by
  refine ⟨effect_dump hr hl _, ?_, ?_⟩
  · have hl' : (m.put name { dir with tmp := some (.part s) }).disk.lookup name =
        some { dir with tmp := some (.part s) } := AList.lookup_insert _
    rw [effect_dump (m := m.put name { dir with tmp := some (.part s) }) hr hl']
    simp [Machine.put]
  · have hl' : (m.put name { dir with tmp := some (.whole s) }).disk.lookup name =
        some ⟨some (.whole s), dir.state⟩ := AList.lookup_insert _
    rw [effect_replace (m := m.put name { dir with tmp := some (.whole s) }) hr hl']
    simp [Machine.put]

theorem after_save {dir : Dir} (hr : m.raised = false) (hl : m.disk.lookup name = some dir) (s : RunState) :
    tidy.after m (save name s) = m.put name ⟨none, some (.whole s)⟩ := by
  obtain ⟨h1, h2, h3⟩ := save_effects hr hl s
  have : tidy.after m (save name s) =
      effect (effect (effect m (.dump name (.part s))) (.dump name (.whole s))) (.replace name) := rfl
  rw [this, h1, h2, h3]

/-- a save is accepted if its last instruction leaves the disk tidy -/
theorem save_accepts {dir : Dir} (hr : m.raised = false) (h : m.disk.Tidy) (hl : m.disk.lookup name = some dir)
    (ht : Disk.Tidy (m.disk.insert name ⟨none, some (.whole s)⟩))
    (hk : m.disk.Keeps (m.disk.insert name ⟨none, some (.whole s)⟩)) : tidy.Accepts m (save name s) := by
  obtain ⟨h1, h2, h3⟩ := save_effects hr hl s
  have shelf := fun c => shelf_tmp hl (some (c : Content))
  have hpart : tidy.fine m (.dump name (.part s)) := by
    refine fine_of_shelf h ?_
    rw [h1]
    exact shelf _
  have hwhole : tidy.fine (m.put name { dir with tmp := some (.part s) }) (.dump name (.whole s)) := by
    refine fine_of_shelf ((shelf _).tidy h) ?_
    rw [h2]
    exact (shelf _).symm.trans (shelf _)
  have hreplace : tidy.fine (m.put name { dir with tmp := some (.whole s) }) (.replace name) := by
    unfold tidy
    simp only [h3, Machine.put_disk]
    exact ⟨ht, (shelf _).symm.keeps.trans hk⟩
  refine .cons hpart ?_
  have hnext : tidy.next m (.dump name (.part s)) = _ := h1
  rw [hnext]
  refine .cons hwhole ?_
  have hnext : tidy.next _ (.dump name (.whole s)) = _ := h2
  rw [hnext]
  exact .single hreplace

/-- **Saves of a run** under its id and key keep the disk tidy, wherever they are cut. -/
theorem saves_accepted {states : List RunState} (hr : m.raised = false) (h : m.disk.Tidy) (hs : m.disk.Shows name s₀)
    (hstates : ∀ t ∈ states, t.runId = name ∧ t.commissionRequestKey = s₀.commissionRequestKey) :
    tidy.Accepts m (states.flatMap (save name)) := by
  induction states generalizing m s₀ with
  | nil => exact .nil
  | cons t states ih =>
    obtain ⟨hid, hkey⟩ := hstates t List.mem_cons_self
    obtain ⟨dir, hl⟩ := Option.isSome_iff_exists.1 (AList.lookup_isSome.2 (Disk.mem_of_shows hs))
    obtain ⟨htidy, hkeeps, hshows⟩ := tidy_update h hs hid hkey none
    rw [List.flatMap_cons, Monitor.accepts_append, after_save hr hl]
    refine ⟨save_accepts hr h hl htidy hkeeps, ih (m := m.put name _) hr htidy hshows fun u hu => ?_⟩
    obtain ⟨hid', hkey'⟩ := hstates u (List.mem_cons_of_mem _ hu)
    exact ⟨hid', hkey'.trans hkey.symm⟩

/-- a directory published under a key that no other holds -/
theorem tidy_publish (h : d.Tidy) (hnew : name ∉ d) (hn : isRunId name = true) (hid : s.runId = name)
    (hfresh : ∀ n t, d.Shows n t → s.commissionRequestKey ≠ none → t.commissionRequestKey ≠ s.commissionRequestKey) :
    Disk.Tidy (d.insert name ⟨none, some (.whole s)⟩) ∧ d.Keeps (d.insert name ⟨none, some (.whole s)⟩) ∧
      Disk.Shows (d.insert name ⟨none, some (.whole s)⟩) name s := by
  have hshows : Disk.Shows (d.insert name ⟨none, some (.whole s)⟩) name s := ⟨hn, read_insert _ _ _⟩
  have hother : ∀ {n t}, n ≠ name → (Disk.Shows (d.insert name ⟨none, some (.whole s)⟩) n t ↔ d.Shows n t) := by
    intro n t hne
    unfold Disk.Shows
    rw [read_insert_ne hne]
  refine ⟨⟨fun n hmem hn => ?_, fun {n n' t t'} ht ht' heq hne => ?_⟩, fun n t ht => ⟨t, (hother ?_).2 ht, rfl⟩, hshows⟩
  · by_cases hname : n = name
    · subst hname
      exact ⟨s, hshows, hid⟩
    · obtain ⟨t, ht, htid⟩ := h.complete n (((AList.mem_insert d).1 hmem).resolve_left hname) hn
      exact ⟨t, (hother hname).2 ht, htid⟩
  · by_cases hname : n = name
    · subst hname
      obtain rfl : s = t := Option.some.inj (hshows.2.symm.trans ht.2)
      by_contra hdiff
      exact hfresh n' t' ((hother (Ne.symm hdiff)).1 ht') hne heq.symm
    · by_cases hname' : n' = name
      · subst hname'
        obtain rfl : s = t' := Option.some.inj (hshows.2.symm.trans ht'.2)
        exact absurd heq (hfresh n t ((hother hname).1 ht) (heq ▸ hne))
      · exact h.single ((hother hname).1 ht) ((hother hname').1 ht') heq hne
  · rintro rfl
    exact hnew (Disk.mem_of_shows ht)

theorem save_spares (name : String) (s : RunState) : ∀ i ∈ save name s, i.Spares := by
  simp [save, Instr.Spares]

theorem stage_spares (hst : isRunId staging = false) (name : String) (s : RunState) :
    ∀ i ∈ stage staging name s, i.Spares := by
  simp [stage, save, Instr.Spares, hst]

/-- a save into a hidden directory shows nothing -/
theorem staged_accepted {dir : Dir} {l : List Instr} (hr : m.raised = false) (h : m.disk.Tidy)
    (hst : isRunId staging = false) (hl : m.disk.lookup staging = some dir)
    (hnext : ∀ m' : Machine, m'.raised = false → SameShelf m.disk m'.disk →
      m'.disk.lookup staging = some ⟨none, some (.whole s)⟩ → tidy.Accepts m' l) :
    tidy.Accepts m (save staging s ++ l) := by
  have hshelf : SameShelf m.disk (m.disk.insert staging ⟨none, some (.whole s)⟩) := shelf_insert hst _
  rw [Monitor.accepts_append, after_save hr hl]
  exact ⟨save_accepts hr h hl (hshelf.tidy h) hshelf.keeps, hnext _ hr hshelf (AList.lookup_insert _)⟩

/-- what the procedure still has to do, once the run is published, keeps the disk tidy -/
def Continues (name : String) (s : RunState) (rest : List Instr) : Prop :=
  ∀ m : Machine, m.raised = false → m.disk.Tidy → m.disk.Shows name s → tidy.Accepts m rest

/-- no visible directory holds the key of this state -/
def Disk.Fresh (d : Disk) (s : RunState) : Prop :=
  ∀ n t, d.Shows n t → s.commissionRequestKey ≠ none → t.commissionRequestKey ≠ s.commissionRequestKey

/-- the staged run is published, or its directory exists and it is cleaned up -/
theorem publish_accepted {rest : List Instr} (hr : m.raised = false) (h : m.disk.Tidy)
    (hl : m.disk.lookup staging = some ⟨none, some (.whole s)⟩) (hst : isRunId staging = false)
    (hn : isRunId name = true) (hid : s.runId = name) (hfresh : m.disk.Fresh s) (hrest : ∀ i ∈ rest, i.Spares)
    (hnext : Continues name s rest) : tidy.Accepts m (.publish staging name :: .cleanup staging :: rest) := by
  have hspares : ∀ i ∈ Instr.cleanup staging :: rest, i.Spares := by
    intro i hi
    rcases List.mem_cons.1 hi with rfl | hi
    · exact hst
    · exact hrest i hi
  by_cases hthere : name ∈ m.disk
  · exact raises_accepted (by simp [effect, hr, hthere]) h hspares
  · have heff : effect m (.publish staging name) =
        { m with disk := (m.disk.erase staging).insert name ⟨none, some (.whole s)⟩ } := by
      simp [effect, hr, hthere, hl]
    have hshelf : SameShelf m.disk (m.disk.erase staging) := shelf_erase hst
    obtain ⟨htidy, hkeeps, hshows⟩ := tidy_publish (hshelf.tidy h) (fun hmem => hthere ((hshelf.mem name hn).1 hmem))
      hn hid fun n t ht => hfresh n t (hshelf.shows.1 ht)
    generalize hm : { m with disk := (m.disk.erase staging).insert name ⟨none, some (.whole s)⟩ } = m' at heff
    have hdisk : m'.disk = (m.disk.erase staging).insert name ⟨none, some (.whole s)⟩ := by rw [← hm]
    have hr' : m'.raised = false := by rw [← hm]; exact hr
    rw [← hdisk] at htidy hkeeps hshows
    have hshelf' : SameShelf m'.disk (m'.disk.erase staging) := shelf_erase hst
    have hfine : tidy.fine m (.publish staging name) := by
      unfold tidy
      simp only [heff]
      exact ⟨htidy, hshelf.keeps.trans hkeeps⟩
    refine .cons hfine ?_
    have hm' : tidy.next m (.publish staging name) = m' := heff
    rw [hm']
    exact .cons (fine_of_shelf htidy hshelf') (hnext _ hr' (hshelf'.tidy htidy) (hshelf'.shows.2 hshows))

/-- **The creation of a run** under a key that no run has keeps the disk tidy, wherever it is cut. It publishes the
run, or raises. -/
theorem create_accepted {rest : List Instr} (hr : m.raised = false) (h : m.disk.Tidy) (hst : isRunId staging = false)
    (hn : isRunId name = true) (hid : s.runId = name) (hfresh : m.disk.Fresh s) (hrest : ∀ i ∈ rest, i.Spares)
    (hnext : Continues name s rest) : tidy.Accepts m (stage staging name s ++ rest) := by
  have hspares : ∀ i ∈ save staging s ++ (.publish staging name :: .cleanup staging :: rest), i.Spares := by
    intro i hi
    rcases List.mem_append.1 hi with hi | hi
    · exact save_spares staging s i hi
    · rcases List.mem_cons.1 hi with rfl | hi
      · trivial
      · rcases List.mem_cons.1 hi with rfl | hi
        · exact hst
        · exact hrest i hi
  have hlist : stage staging name s ++ rest =
      .mkdtemp staging :: (save staging s ++ (.publish staging name :: .cleanup staging :: rest)) := by
    simp [stage]
  rw [hlist]
  by_cases hold : staging ∈ m.disk
  · exact raises_accepted (by simp [effect, hr, hold]) h hspares
  · have heff : effect m (.mkdtemp staging) = m.put staging ⟨none, none⟩ := by simp [effect, hr, hold, Machine.put]
    have hshelf : SameShelf m.disk (m.put staging ⟨none, none⟩).disk := shelf_insert hst _
    refine .cons (fine_of_shelf h (by rwa [heff])) ?_
    have hm : tidy.next m (.mkdtemp staging) = m.put staging ⟨none, none⟩ := heff
    rw [hm]
    refine staged_accepted hr (hshelf.tidy h) hst (AList.lookup_insert _) fun m' hr' hshelf' hl' => ?_
    have hboth := hshelf.trans hshelf'
    exact publish_accepted hr' (hboth.tidy h) hl' hst hn hid (fun n t ht => hfresh n t (hboth.shows.1 ht)) hrest hnext

end Disk

end Rally.Runner
