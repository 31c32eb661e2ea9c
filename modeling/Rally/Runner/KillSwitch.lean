/-
`rally --stop` beside the other commands on one run (`cmd_stop` and `loop` of `src/runner.py`). Commands run as
processes of their own: each loads the state file when it starts, keeps the whole state in memory, and writes the file
on every save without reading it again.

- `Desk`: the state file, the processes with what each has still to do, and what has happened. `step`: a command
  starts, a process makes its next event visible, a process is killed.
- `stop_obeyed`: after a stop is saved no agent is dispatched and every state saved keeps the stop, until a human
  retries the run or sends a note, in every interleaving in which stops are saved while no other process is at work
  on the run, and a stopped run is not started again by `--resume` or the replay of an unreported commission.
- `stop_overwritten`: a stop saved during a turn. The loop dispatches the next agent and overwrites the stop.
-/
import Rally.Core.Monitor
import Rally.Runner.Session

namespace Rally.Runner

open Py Rally.Envelope Rally.Report

/-! ## Processes -/

/-- a command at work, with what it has still to do -/
structure Proc where
  op : Op
  rest : List Ev

inductive Happening where
  | began (op : Op)
  | did (op : Op) (e : Ev)

structure Desk where
  file : RunState
  procs : List Proc
  log : List Happening

/-- the saved halt is a human's stop -/
def Stopped (s : RunState) : Prop := s.halt.map Halt.reason = some "stopped_by_human"

instance (s : RunState) : Decidable (Stopped s) := inferInstanceAs (Decidable (_ = _))

/-- a human starts the run again -/
def Op.restarts : Op → Bool
  | .retry => true
  | .note _ => true
  | _ => false

namespace Desk

inductive Act where
  | start (op : Op) (work : Work)
  | tick (i : ℕ)
  | kill (i : ℕ)

/-- the state file of a run, nothing at work on it -/
def idle (file : RunState) : Desk := ⟨file, [], []⟩

def step (P : Runtime) (cfg : Cfg) (d : Desk) : Act → Desk
  | .start op work =>
    { d with procs := d.procs ++ [⟨op, (op.exec P cfg work d.file).evs⟩], log := d.log ++ [.began op] }
  | .tick i =>
    match d.procs[i]? with
    | some ⟨op, e :: rest⟩ =>
      { file := e.saved.getD d.file, procs := d.procs.set i ⟨op, rest⟩, log := d.log ++ [.did op e] }
    | _ => d
  | .kill i => { d with procs := d.procs.eraseIdx i }

def run (P : Runtime) (cfg : Cfg) (d : Desk) (acts : List Act) : Desk := acts.foldl (step P cfg) d

/-- the command leaves a stopped run stopped, or is a human's restart -/
def Leaves (s : RunState) : Op → Prop
  | .resume _ _ => False
  | .commission ws _ => hasReport s = true ∨ (ws.isSome ∧ s.workspaceId ≠ ws)
  | _ => True

/-- if the process is a stop, the others have nothing left to do -/
def undisturbed (d : Desk) (i : ℕ) : Bool :=
  match d.procs[i]? with
  | some ⟨.stop _, _⟩ => (d.procs.eraseIdx i).all (·.rest.isEmpty)
  | _ => true

/-- stops are saved while nothing else is at work, and nothing but a human's retry or note restarts a stopped run -/
def Orderly (d : Desk) : Act → Prop
  | .start op _ => Stopped d.file → Leaves d.file op
  | .tick i => d.undisturbed i = true
  | .kill _ => True

/-- a history of such steps -/
def OrderlyRun (P : Runtime) (cfg : Cfg) : Desk → List Act → Prop
  | _, [] => True
  | d, a :: acts => d.Orderly a ∧ OrderlyRun P cfg (d.step P cfg a) acts

instance (s : RunState) : (op : Op) → Decidable (Leaves s op)
  | .resume _ _ => inferInstanceAs (Decidable False)
  | .commission ws _ => inferInstanceAs (Decidable (hasReport s = true ∨ (ws.isSome ∧ s.workspaceId ≠ ws)))
  | .note _ => inferInstanceAs (Decidable True)
  | .stop _ => inferInstanceAs (Decidable True)
  | .retry => inferInstanceAs (Decidable True)

instance (d : Desk) : (a : Act) → Decidable (d.Orderly a)
  | .start op _ => inferInstanceAs (Decidable (Stopped d.file → Leaves d.file op))
  | .tick i => inferInstanceAs (Decidable (d.undisturbed i = true))
  | .kill _ => inferInstanceAs (Decidable True)

instance decidableOrderlyRun (P : Runtime) (cfg : Cfg) :
    (d : Desk) → (acts : List Act) → Decidable (OrderlyRun P cfg d acts)
  | _, [] => isTrue trivial
  | d, a :: acts => @instDecidableAnd _ _ inferInstance (decidableOrderlyRun P cfg (d.step P cfg a) acts)

end Desk

/-! ## The kill switch as a monitor -/

/-- whether a stop was saved that no human has taken back; then no agent is called and every save keeps a stop -/
def killSwitch : Monitor Happening Bool where
  next
    | stopped, .began op => stopped && !op.restarts
    | _, .did (.stop _) (.save _ _) => true
    | stopped, _ => stopped
  fine
    | stopped, .did _ (.dispatch _) => stopped = false
    | stopped, .did _ (.save _ s) => stopped = true → Stopped s
    | _, _ => True

/-- an event that a stop allows -/
def Calm : Ev → Prop
  | .dispatch _ => False
  | .save _ s => Stopped s
  | _ => True

namespace Desk

/-- the log is fine; a stop process has nothing to do but its save; and once stopped, the file and whatever is still to
be done keep the stop -/
structure Inv (d : Desk) : Prop where
  accepts : killSwitch.Accepts false d.log
  stops : ∀ p ∈ d.procs, ∀ detail, p.op = .stop detail → p.rest = [] ∨ ∃ m s, p.rest = [.save m s] ∧ Stopped s
  calm : killSwitch.after false d.log = true → Stopped d.file ∧ ∀ p ∈ d.procs, ∀ e ∈ p.rest, Calm e

variable {P : Runtime} {cfg : Cfg} {d : Desk}

theorem inv_idle (file : RunState) : (idle file).Inv where
  accepts := .nil
  stops := fun _ hp => nomatch hp
  calm := fun h => nomatch h

theorem stop_calm (detail : String) (s : RunState) : Stopped { s with halt := some ⟨"stopped_by_human", detail⟩ } :=
  rfl

/-- the delivery of a report keeps a stop -/
theorem delivery_calm {s : RunState} (hs : Stopped s) (text halt : String) (mail : MailOutcome) :
    ∀ e ∈ (mailReport cfg s text halt mail).evs, Calm e := by
  intro e he
  cases mailReport_events (P := plainText) cfg s text halt mail e he with
  | save _ hsame => exact (congrArg (Option.map Halt.reason) hsame.halt).trans hs
  | mail => trivial

/-- on a stopped run a command that is no restart does nothing that a stop forbids -/
theorem exec_calm {s : RunState} (hs : Stopped s) {op : Op} (hleaves : Leaves s op) (hop : op.restarts = false)
    (w : Work) : ∀ e ∈ (op.exec P cfg w s).evs, Calm e := by
  cases op with
  | note n => cases hop
  | retry => cases hop
  | resume guidance maxTurns => exact hleaves.elim
  | stop detail =>
    intro e he
    rw [List.mem_singleton.1 he]
    exact stop_calm detail s
  | commission ws mid =>
    intro e he
    simp only [Op.exec, handleCommission] at he
    split_ifs at he with hws hrep
    · cases he
    · rw [saveThen_evs] at he
      rcases List.mem_cons.1 he with rfl | he
      · exact hs
      · split_ifs at he
        · cases he
        · exact delivery_calm hs _ _ _ e he
    · rcases hleaves with h | h
      · exact absurd h hrep
      · exact absurd h hws

theorem start_inv (h : d.Inv) (op : Op) (work : Work) (ho : d.Orderly (.start op work)) :
    (d.step P cfg (.start op work)).Inv where
  accepts := by
    rw [step, Monitor.accepts_append]
    exact ⟨h.accepts, .single trivial⟩
  stops := by
    intro p hp detail hop
    rcases List.mem_append.1 hp with hp | hp
    · exact h.stops p hp detail hop
    · rw [List.mem_singleton] at hp
      subst hp
      obtain rfl : op = .stop detail := hop
      exact Or.inr ⟨_, _, rfl, stop_calm detail d.file⟩
  calm := by
    intro hafter
    rw [step, Monitor.after_append] at hafter
    have hboth : killSwitch.after false d.log = true ∧ op.restarts = false := by
      simpa [killSwitch, Monitor.after] using hafter
    obtain ⟨hfile, hprocs⟩ := h.calm hboth.1
    refine ⟨hfile, fun p hp => ?_⟩
    rcases List.mem_append.1 hp with hp | hp
    · exact hprocs p hp
    · rw [List.mem_singleton] at hp
      subst hp
      exact exec_calm hfile (ho hfile) hboth.2 work

/-- a step of a process that is no stop takes no stop back -/
theorem killSwitch_next (stopped : Bool) {op : Op} (hop : ∀ detail, op ≠ .stop detail) (e : Ev) :
    killSwitch.next stopped (.did op e) = stopped := by
  cases op with
  | stop detail => exact absurd rfl (hop detail)
  | _ => rfl

theorem tick_inv (h : d.Inv) (i : ℕ) (ho : d.Orderly (.tick i)) : (d.step P cfg (.tick i)).Inv := by
  simp only [step]
  split
  · rename_i op e rest hi
    have hmem : (⟨op, e :: rest⟩ : Proc) ∈ d.procs := List.mem_of_getElem? hi
    have hcalm : killSwitch.after false d.log = true → Calm e := fun hs => (h.calm hs).2 _ hmem e List.mem_cons_self
    refine ⟨?_, fun p hp detail hop => ?_, fun hafter => ?_⟩
    · rw [Monitor.accepts_append]
      refine ⟨h.accepts, .single ?_⟩
      cases e with
      | dispatch p =>
        cases hs : killSwitch.after false d.log with
        | false => rfl
        | true => exact (hcalm hs).elim
      | save m s => exact hcalm
      | writeReport p => trivial
      | resuming k => trivial
      | send m => trivial
    · rcases List.mem_or_eq_of_mem_set hp with hp | rfl
      · exact h.stops p hp detail hop
      · rcases h.stops _ hmem detail hop with hnil | ⟨m, s, hone, -⟩
        · cases hnil
        · cases hone
          exact Or.inl rfl
    · by_cases hop : ∃ detail, op = .stop detail
      · -- the stop itself: it was alone on the run
        obtain ⟨detail, rfl⟩ := hop
        rcases h.stops _ hmem detail rfl with hnil | ⟨m, s, hone, hs⟩
        · cases hnil
        · cases hone
          refine ⟨hs, fun p hp e he => ?_⟩
          obtain ⟨j, hj⟩ := List.mem_iff_getElem?.1 hp
          by_cases hij : j = i
          · subst hij
            rw [List.getElem?_set_self (List.getElem?_eq_some_iff.1 hi).1] at hj
            cases hj
            cases he
          · rw [List.getElem?_set_ne (Ne.symm hij)] at hj
            have halone : ∀ p ∈ d.procs.eraseIdx i, p.rest.isEmpty = true := by
              simpa only [Orderly, undisturbed, hi, List.all_eq_true] using ho
            have hnil := List.isEmpty_iff.1 (halone p (List.mem_eraseIdx_iff_getElem?.2 ⟨j, hij, hj⟩))
            rw [hnil] at he
            cases he
      · rw [Monitor.after_append, Monitor.after_cons, Monitor.after_nil,
          killSwitch_next _ fun detail hd => hop ⟨detail, hd⟩] at hafter
        obtain ⟨hfile, hprocs⟩ := h.calm hafter
        refine ⟨?_, fun p hp => ?_⟩
        · cases e with
          | save m s => exact hcalm hafter
          | _ => exact hfile
        · rcases List.mem_or_eq_of_mem_set hp with hp | rfl
          · exact hprocs p hp
          · exact fun e he => hprocs _ hmem e (List.mem_cons_of_mem _ he)
  · exact h

theorem kill_inv (h : d.Inv) (i : ℕ) : (d.step P cfg (.kill i)).Inv where
  accepts := h.accepts
  stops := fun p hp => h.stops p (List.mem_of_mem_eraseIdx hp)
  calm := fun hafter => ⟨(h.calm hafter).1, fun p hp => (h.calm hafter).2 p (List.mem_of_mem_eraseIdx hp)⟩

theorem step_inv (h : d.Inv) (a : Act) (ho : d.Orderly a) : (d.step P cfg a).Inv := by
  cases a with
  | start op work => exact start_inv h op work ho
  | tick i => exact tick_inv h i ho
  | kill i => exact kill_inv h i

theorem run_inv (acts : List Act) (h : d.Inv) (ho : OrderlyRun P cfg d acts) : (d.run P cfg acts).Inv := by
  induction acts generalizing d with
  | nil => exact h
  | cons a acts ih => exact ih (step_inv h a ho.1) ho.2

end Desk

/-! ## What the monitor keeps -/

/-- a stop stays in force while no human restarts the run -/
theorem killSwitch_stays {l : List Happening} (h : ∀ op, .began op ∈ l → op.restarts = false) :
    killSwitch.after true l = true := by
  induction l with
  | nil => rfl
  | cons a l ih =>
    have hnext : killSwitch.next true a = true := by
      cases a with
      | began op => simp [killSwitch, h op List.mem_cons_self]
      | did op e => cases op <;> cases e <;> rfl
    rw [Monitor.after_cons, hnext]
    exact ih fun op hop => h op (List.mem_cons_of_mem _ hop)

theorem killSwitch_stopped (stopped : Bool) {front mid : List Happening} {detail : String} {m : Mark} {s : RunState}
    (h : ∀ op, .began op ∈ mid → op.restarts = false) :
    killSwitch.after stopped (front ++ .did (.stop detail) (.save m s) :: mid) = true := by
  rw [Monitor.after_append, Monitor.after_cons]
  exact killSwitch_stays h

/-- **The kill switch.** In every history whose stops are saved while no other process is at work, and in which a
stopped run is restarted by nothing but a human's retry or note: what happens after a stop is saved and before such a
restart is neither a dispatch of an agent nor a save without a stop. -/
theorem stop_obeyed (P : Runtime) (cfg : Cfg) (file : RunState) (acts : List Desk.Act)
    (ho : Desk.OrderlyRun P cfg (.idle file) acts) {front mid back : List Happening} {detail : String} {m : Mark}
    {s : RunState} {op : Op} {e : Ev}
    (hlog : (Desk.run P cfg (.idle file) acts).log =
      front ++ .did (.stop detail) (.save m s) :: (mid ++ .did op e :: back))
    (hmid : ∀ op, .began op ∈ mid → op.restarts = false) :
    (∀ p, e ≠ .dispatch p) ∧ ∀ m t, e = .save m t → Stopped t := by
  have hacc := (Desk.run_inv acts (Desk.inv_idle file) ho).accepts
  have hsplit : (Desk.run P cfg (.idle file) acts).log =
      (front ++ .did (.stop detail) (.save m s) :: mid) ++ .did op e :: back := by
    rw [hlog, List.append_assoc, List.cons_append]
  rw [hsplit] at hacc
  have hfine := hacc.fine_at
  rw [killSwitch_stopped false hmid] at hfine
  refine ⟨fun p hp => ?_, fun m t ht => ?_⟩
  · subst hp
    cases hfine
  · subst ht
    exact hfine rfl

/-! ## A stop that is overwritten -/

/-- a loop is killed during its second turn, and the run is stopped twice -/
def stoppedTwice : List Desk.Act :=
  [.start completingJob.op completingJob.work, .tick 0, .tick 0, .tick 0, .kill 0,
   .start (.stop "enough") (workOf []), .tick 0, .start (.stop "really") (workOf []), .tick 1]

/-- the second stop keeps the stop -/
theorem stop_obeyed_sample : Stopped (Desk.run plainText twoAgents (.idle newRun) stoppedTwice).file :=
  (@stop_obeyed plainText twoAgents newRun stoppedTwice (by decide)
    [.began _, .did _ _, .did _ _, .did _ _, .began _] [.began _] [] _ _ _ _ _ rfl (by simp [Op.restarts])).2 _ _ rfl

/-- the stop is saved while the loop's first turn is under way -/
def stoppedInTurn : List Desk.Act :=
  [.start completingJob.op completingJob.work, .tick 0, .start (.stop "enough") (workOf []), .tick 1, .tick 0, .tick 0]

/-- **A stop is overwritten.** The loop saves the turn with the halt it had in memory, which is none, and dispatches
the next agent. -/
theorem stop_overwritten :
    ∃ front mid back detail m s op p,
      (Desk.run plainText twoAgents (.idle newRun) stoppedInTurn).log =
        front ++ .did (.stop detail) (.save m s) :: (mid ++ .did op (.dispatch p) :: back) ∧
      (∀ op, .began op ∈ mid → op.restarts = false) ∧
      (Desk.run plainText twoAgents (.idle newRun) stoppedInTurn).file.halt = none :=
  ⟨[.began _, .did _ _, .began _], [.did _ _], [], _, _, _, _, _, rfl, by simp, rfl⟩

end Rally.Runner
