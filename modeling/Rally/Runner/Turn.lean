/-
One turn and the loop (`take_turn` and `loop` of `src/runner.py`), with every save of the state, every agent called and
every message sent, in order.

What comes from outside is an input of the turn: what the agent's process gave back, whether Rally's own tree changed
meanwhile, the commit and what became of the turn's mail. An exception leaves the events so far and no others. A
process killed between two events leaves a prefix of them.

- `takeTurn`: the kill switch, the prompt, the agent's failure, a reply without an envelope, the accepted turn (`review`,
  `mailTurn`, `advance`, `judge`).
- `loop`: turn after turn, by recursion on the inputs. It is `running` when they end before the loop does.
-/
import Rally.Core.Exec
import Rally.Report
import Rally.Runner.State

namespace Rally.Runner

open Py Rally.Envelope Rally.Report

/-! ## Inputs and events -/

/-- what the agent's process gave back: it failed, or it printed a reply with the envelope `extract` finds in it. What else
the call or `extract` raises is caught by nobody: one of Python's own errors (a prompt that cannot be handed to a process, a
number in the reply too long to be read), or `none`, an error of the system. -/
inductive Reply where
  | failed (text : String)
  | raised (e : Option Err)
  | replied (env : Option Env)
deriving DecidableEq, Repr

/-- what became of a message. Before it has a text it is refused (the ceiling, a missing key) or lost to another error of
the ledger. With its text it goes to the provider, who declines it, loses it or accepts it. -/
inductive MailOutcome where
  | refused (text : String)
  | broken
  | declined (text : String)
  | lost
  | sent (providerId : String)
deriving DecidableEq, Repr

structure TurnInput where
  reply : Reply
  /-- paths changed in Rally's own tree during the turn -/
  escaped : Option (List String)
  commit : Option String
  mail : MailOutcome
deriving DecidableEq, Repr

/-- the parts of the prompt that vary with the run -/
structure Prompt where
  runId : String
  turn : ℕ
  actor : String
  agentIds : List String
  counterparts : List String
  workdir : String
  task : String
  /-- empty on the scoping turn -/
  checklist : List Item
  awaiting : List String
  rejected : List String
  recovery : Option (String × List String)
  humanNote : Option String
deriving DecidableEq, Repr

inductive Mail where
  | update (human : String) (turn : ℕ) (actor : String) (narrative : String)
  | report (human : String) (status : Status) (text key : String)
deriving DecidableEq, Repr

/-- which `save` of the source wrote the state -/
inductive Mark where
  | created
  | prepared
  | resumed
  | coordinator
  | media
  | killSwitch
  | handoff
  | agentError
  | reprompt
  | sendBlocked
  | turn
  | loopHalt
  | loopLimit
  | noteApplied (key : String)
  | noteStopped
  | stop
  | retry
  | replay
  | report (halt : String) (key : Option String)
  | delivery
deriving DecidableEq, Repr

inductive Ev where
  | save (mark : Mark) (s : RunState)
  | dispatch (p : Prompt)
  | writeReport (p : ReportPrompt)
  /-- the line printed when a note starts the loop again -/
  | resuming (key : String)
  | send (m : Mail)
deriving DecidableEq, Repr

/-- the state an event writes to `state.json` -/
def Ev.saved : Ev → Option RunState
  | .save _ s => some s
  | _ => none

inductive Exn where
  | builtin (e : Err)
  | sendBlocked (text : String)
  | noteRejected
  | workspaceMismatch
  /-- an error of a service or of the system -/
  | service
deriving DecidableEq, Repr

/-- one call of a procedure of the runner -/
abbrev Call (α : Type) : Type := Exec Ev Exn RunState α

/-- write the state, then go on -/
def saveThen {α : Type} (mark : Mark) (s : RunState) (next : RunState → Call α) : Call α :=
  (next s).pre [.save mark s]

@[simp] theorem saveThen_evs {α : Type} (m : Mark) (s : RunState) (next : RunState → Call α) :
    (saveThen m s next).evs = .save m s :: (next s).evs := rfl
@[simp] theorem saveThen_mem {α : Type} (m : Mark) (s : RunState) (next : RunState → Call α) :
    (saveThen m s next).mem = (next s).mem := rfl
@[simp] theorem saveThen_out {α : Type} (m : Mark) (s : RunState) (next : RunState → Call α) :
    (saveThen m s next).out = (next s).out := rfl

/-! ## The prompt -/

/-- the ids shown as awaiting this actor's verification -/
def awaitingIds (s : RunState) (actor : String) : List Value :=
  (s.checklist.filter fun it => it.state = .awaitingVerification ∧ ¬ it.owner.eq (.str actor)).map fun it => it.id

/-- `build_prompt`. Ids that are no strings cannot be joined. -/
def buildPrompt (P : Runtime) (cfg : Cfg) (s : RunState) (actor : String) : Except Err Prompt := do
  let awaiting ← (awaitingIds s actor).mapM Value.asStr
  let active := s.continuity.bind fun c => c.active
  let recovery := active.bind fun r => if r.toActor = actor then some (r.fromActor, r.items) else none
  .ok
    { runId := s.runId, turn := s.turn, actor := actor, agentIds := runAgentOrder s cfg
      counterparts := counterpartNames s cfg actor, workdir := s.workdir, task := s.task, checklist := s.checklist
      awaiting := awaiting, rejected := s.violations.map fun v => v.text P, recovery := recovery
      humanNote := s.humanNote }

/-- the prompt, and the lookup of the actor's entry in the configuration, which the log line reads -/
def promptFor (P : Runtime) (cfg : Cfg) (s : RunState) : Except Err Prompt := do
  let p ← buildPrompt P cfg s s.actor
  if s.actor ∈ cfg.agents then .ok p else .error .keyError

/-! ## A failed agent -/

/-- the items an agent that failed may hand over -/
def recoverableIds (s : RunState) (actor : String) : List Value :=
  (s.checklist.filter fun it => it.state = .claimed ∧ it.owner.eq (.str actor)).map fun it => it.id

/-- a Second Wind handoff, or the halt -/
def agentFailed (cfg : Cfg) (s : RunState) (detail : String) : Call (Option String) :=
  .attempt s .builtin (startSecondWind s cfg "agent_error" s.actor detail (recoverableIds s s.actor)) fun
    | (true, s) => saveThen .handoff s fun s => .done s none
    | (false, s) =>
      saveThen .agentError { s with halt := some ⟨"agent_error", detail⟩ } fun s => .done s (some "agent_error")

/-- no envelope in the reply: ask once more, up to the limit -/
def noEnvelope (cfg : Cfg) (s : RunState) : Call (Option String) :=
  saveThen .reprompt { s with reprompts := s.reprompts + 1, violations := [.noEnvelope] } fun s =>
    if (s.reprompts : ℤ) > cfg.repromptsMax then
      agentFailed cfg s s!"{s.actor} returned no parseable envelope after {cfg.repromptsMax} reprompt(s)"
    else .done s none

/-! ## An accepted turn -/

/-- the fields of an item that a turn record shows -/
def visible (it : Item) : Change := ⟨it.id, it.state, it.owner, it.verifiedBy, it.evidence⟩

def sameVisible (a b : Change) : Bool :=
  a.id.eq b.id && decide (a.state = b.state) && a.owner.eq b.owner && a.verifiedBy.eq b.verifiedBy &&
    a.evidence.eq b.evidence

/-- the visible fields of the items the turn added or changed -/
def changesOf (before after : List Item) : Except Err (List Change) := do
  let rows ← before.mapM fun it => do
    let k ← it.id.key
    .ok (k, visible it)
  let old := Dict.build Prod.fst (fun r _ => r.2) rows
  let rows ← after.mapM fun it => do
    let k ← it.id.key
    .ok (k, visible it)
  let changed := rows.filter fun r =>
    match Dict.get? old r.1 with
    | none => true
    | some c => !sameVisible c r.2
  .ok (changed.map Prod.snd)

/-- the items the runner lets `actor` take over -/
def recoveryItems (c : Continuity) (actor : String) : List String :=
  match c.active with
  | some r => if r.toActor = actor then r.items else []
  | none => []

/-- `env.get("checklist", [])` -/
def proposedOf (env : Env) : Value := (env.lookup "checklist").getD (.list [])

/-- `env.get("narrative", "")` -/
def narrativeOf (env : Env) : Value := (env.lookup "narrative").getD (.str "")

/-- what an accepted turn of `actor` with the envelope `env` makes of the run, before the mail: the reconciled
checklist, the notices for the next prompt and the turn record. Scope is open in turns 0 and 1. -/
def review (P : Runtime) (cfg : Cfg) (s : RunState) (actor : String) (env : Env) (commit : Option String) :
    Except Err (RunState × Value) := do
  let problems ← validateShape env
  let c ← continuityOf s cfg
  let (accepted, violations) ←
    reconcile s.checklist (proposedOf env) actor cfg.rejectionsMax (s.turn ≤ 1) (recoveryItems c actor)
  let carried := s.violations.filter fun v => startsWith (v.text P) "containment:"
  let changes ← changesOf s.checklist accepted
  let narrative ← (narrativeOf env).sliceTo 4000
  .ok
    ({ s with
        reprompts := 0, checklist := accepted, continuity := some c, humanNote := none
        violations := carried ++ problems.map .problem ++ violations.map .violation
        turns := s.turns ++ [⟨s.turn, actor, narrative, commit, changes⟩] }, narrative)

/-- who is written to: the commissioner, or the configured address -/
def humanOf (s : RunState) (cfg : Cfg) : Option String :=
  match s.commissionedBy with
  | some h => if h = "" then configured else some h
  | none => configured
where
  configured : Option String := cfg.ccHuman.filter fun h => h ≠ ""

/-- the message joins the thread of the run -/
def threadOn (s : RunState) (messageId : String) : RunState :=
  let refs := match s.threadMessageId with
    | some prior => if prior = "" ∨ prior ∈ s.threadReferences then s.threadReferences else s.threadReferences ++ [prior]
    | none => s.threadReferences
  { s with threadMessageId := some messageId, threadReferences := refs ++ [messageId] }

/-- `transport.send` of an update that has its text: the message joins the thread once the provider has accepted it -/
def postUpdate (s : RunState) (actor human text : String) : MailOutcome → Except Exn (List Ev × RunState)
  | .declined detail => .error (.sendBlocked detail)
  | .sent _ =>
    .ok ([.send (.update human s.turn actor text)], threadOn s s!"<{s.runId}-{s.turn}-{actor}@updates.agent9.dev>")
  | _ => .error .service

/-- `mail_turn` -/
def mailTurn (cfg : Cfg) (s : RunState) (actor : String) (narrative : Value) (mail : MailOutcome) :
    Except Exn (List Ev × RunState) :=
  if ¬ cfg.mailEnabled then .ok ([], s)
  else
    match humanOf s cfg, mail with
    | none, _ => .ok ([], s)
    | some _, .refused text => .error (.sendBlocked text)
    | some _, .broken => .error .service
    | some human, posted =>
      -- `narrative.strip()` comes before the provider is asked
      match narrative with
      | .str text => postUpdate s actor human text posted
      | _ => .error (.builtin .attributeError)

/-- the digest streak, the turn counter and the rotation, then the end of a recovery handoff -/
def advance (P : Runtime) (cfg : Cfg) (s : RunState) (actor : String) : RunState :=
  let d := digest P s.checklist
  finishSecondWind
    { s with
      digestStreak := if d = s.lastDigest then s.digestStreak + 1 else 0
      lastDigest := d, turn := s.turn + 1, actor := nextActor s cfg actor } actor

/-- `"%s: %s" % (stuck[0]["state"], ...)` -/
def stuckHalt (stuck : List Item) : Except Err String :=
  match stuck with
  | [] => .error .keyError
  | it :: _ => do
    let ids ← joinStrs ", " (stuck.map fun i => i.id)
    .ok (it.state.text ++ ": " ++ ids)

/-- the guards after an accepted turn -/
def judge (cfg : Cfg) (s : RunState) (actor : String) : Call (Option String) :=
  if isComplete s.checklist then .done s (some "complete")
  else
    let stuck := blocking s.checklist
    if stuck ≠ [] then
      let recoverable := unrecoveredBlockIds s
      if recoverable ≠ [] then
        .attempt s .builtin
          (startSecondWind s cfg "blocked" actor "The accepted turn reported a blocked item." recoverable) fun
          | (true, s) => saveThen .handoff s fun s => .done s none
          | (false, s) => .attempt s .builtin (stuckHalt stuck) fun r => .done s (some r)
      else .attempt s .builtin (stuckHalt stuck) fun r => .done s (some r)
    else if (s.turn : ℤ) ≥ cfg.turnsMax then .done s (some "turn_budget")
    else if (s.digestStreak : ℤ) ≥ cfg.noProgressHalt then .done s (some "no_progress")
    else .done s none

/-- the turn after the review: its mail, then the guards -/
def conclude (P : Runtime) (cfg : Cfg) (s : RunState) (actor : String) (narrative : Value) (mail : MailOutcome) :
    Call (Option String) :=
  match mailTurn cfg s actor narrative mail with
  | .ok (evs, s) => (saveThen .turn (advance P cfg s actor) fun s => judge cfg s actor).pre evs
  | .error (.sendBlocked text) =>
    saveThen .sendBlocked { s with halt := some ⟨"turn_budget", text⟩ } fun s =>
      .done s (some ("send ceiling: " ++ text))
  | .error e => .raise s e

/-! ## `take_turn` -/

/-- the notice of a changed tree -/
def containmentNotice (s : RunState) (paths : List String) : Notice :=
  let paths := if paths.isEmpty then ["(unknown)"] else paths
  let shown := ", ".intercalate (paths.take 6)
  .containment (s!"containment: repo tree changed during {s.actor}'s turn: {shown}. " ++
    s!"If that was not you editing, the agent wrote outside {s.workdir}.")

def noticed (s : RunState) (escaped : Option (List String)) : RunState :=
  match escaped with
  | some paths => { s with violations := s.violations ++ [containmentNotice s paths] }
  | none => s

/-- the turn once the agent has answered -/
def answered (P : Runtime) (cfg : Cfg) (s : RunState) (inp : TurnInput) : Call (Option String) :=
  match inp.reply with
  | .failed text => agentFailed cfg s s!"{s.actor} turn failed: {text}"
  | .raised e => .raise s (e.elim .service .builtin)
  | .replied env =>
    let s := noticed s inp.escaped
    match env with
    | none => noEnvelope cfg s
    | some env =>
      .attempt s .builtin (review P cfg s s.actor env inp.commit) fun r =>
        conclude P cfg r.1 s.actor r.2 inp.mail

/-- the stop the runner checks before it calls an agent -/
def stopNote (s : RunState) : Option String := s.humanNote.filter asksStop

/-- `take_turn` -/
def takeTurn (P : Runtime) (cfg : Cfg) (s : RunState) (inp : TurnInput) : Call (Option String) :=
  match stopNote s with
  | some note =>
    saveThen .killSwitch { s with halt := some ⟨"stopped_by_human", strip note⟩ } fun s =>
      .done s (some "stopped_by_human")
  | none =>
    .attempt s .builtin (promptFor P cfg s) fun p => (answered P cfg s inp).pre [.dispatch p]

/-! ## `loop` -/

/-- the end of the loop on a halt: one already there is kept -/
def haltWith (s : RunState) (reason : String) : Call String :=
  saveThen .loopHalt { s with halt := some (s.halt.getD ⟨reason, ""⟩) } fun s => .done s reason

/-- the end of the loop on its turn limit -/
def outOfTurns (s : RunState) : Call String :=
  saveThen .loopLimit { s with halt := some ⟨"turn_budget", "run turn limit exhausted"⟩ } fun s => .done s "turn_budget"

/-- `loop`, below the turn limit `limit` -/
def loop (P : Runtime) (cfg : Cfg) (limit : ℤ) (s : RunState) : List TurnInput → Call String
  | [] => if (s.turn : ℤ) < limit then ⟨[], s, .running⟩ else outOfTurns s
  | inp :: rest =>
    if (s.turn : ℤ) < limit then
      (takeTurn P cfg s inp).bind fun s halt =>
        match halt with
        | some reason => haltWith s reason
        | none => loop P cfg limit s rest
    else outOfTurns s

section LoopEquations

variable (P : Runtime) (cfg : Cfg) (limit : ℤ) (s : RunState)

theorem loop_nil : loop P cfg limit s [] = if (s.turn : ℤ) < limit then ⟨[], s, .running⟩ else outOfTurns s := by
  rw [loop]

theorem loop_cons (inp : TurnInput) (rest : List TurnInput) :
    loop P cfg limit s (inp :: rest) =
      if (s.turn : ℤ) < limit then
        (takeTurn P cfg s inp).bind fun s halt => halt.elim (loop P cfg limit s rest) (haltWith s)
      else outOfTurns s := by
  rw [loop]
  congr 2
  funext s halt
  cases halt <;> rfl

end LoopEquations

end Rally.Runner
