/-
The commands that work on a run (`handle_commission`, `handle_note`, `cmd_stop`, `cmd_retry` and `--resume` of
`src/runner.py`), each as one call from the state it loads: what it writes, in order, and how it ends.

A commission is modelled from the moment its run directory exists: the call that has just created the run and the call
that finds it again by its key do the same from there (a new run has no halt and no report). The dry mode is left out.

- `Op.exec`: the call of each command.
- `finish`: the report of a loop, its record and its delivery.
-/
import Rally.Runner.Turn

namespace Rally.Runner

open Py Rally.Envelope Rally.Report

/-! ## Inputs -/

/-- an authenticated note under its ingress id -/
structure Note where
  key : String
  text : String
  sender : Option String
  messageId : Option String
  key_ne : key ≠ ""
deriving DecidableEq

/-- what came of the coordinator handoff -/
inductive Coordination where
  | disabled
  | accepted (status : String)
  | failed (required : Bool)
deriving DecidableEq, Repr

/-- what comes from outside while a command works -/
structure Work where
  workspace : String
  /-- connector access is prepared -/
  connects : Bool
  coordination : Coordination
  /-- a media deliverable is requested -/
  media : Bool
  turns : List TurnInput
  /-- the report an agent wrote, unless it failed -/
  report : Option String
  mail : MailOutcome
deriving DecidableEq, Repr

/-! ## Reports -/

/-- the summary that needs no agent -/
def summaryText (P : Runtime) (s : RunState) (halt : String) : Call String :=
  .attempt s .builtin (mechanicalSummary P s.checklist s.task halt) fun t => .done s t

/-- `write_report`: the agent's text, or the summary where it failed or is too short to be real -/
def writeReport (P : Runtime) (cfg : Cfg) (s : RunState) (halt : String) (reply : Option String) : Call String :=
  .attempt s .builtin (buildReportPrompt P s.checklist s.task halt) fun p =>
    if s.actor ∈ cfg.agents then
      (match reply with
        | some raw => if (strip raw).length < 80 then summaryText P s halt else .done s (strip raw)
        | none => summaryText P s halt).pre [.writeReport p]
    else .raise s (.builtin .keyError)

/-- the delivery record of a report, made for one recorded without -/
def deliveryOf (s : RunState) : Delivery :=
  match s.reportDelivery with
  | some d => d
  | none =>
    { status := .pending, generation := max 1 s.reportGeneration
      idempotencyKey := reportKey s.runId (max 1 s.reportGeneration), requestKey := none, providerMessageId := none }

/-- who the report is mailed to, if anybody -/
def reportHuman (cfg : Cfg) (s : RunState) : Option String := if cfg.mailEnabled then humanOf s cfg else none

/-- the delivery itself -/
def deliver (cfg : Cfg) (s : RunState) (text halt : String) (mail : MailOutcome) : Call Unit :=
  let d := deliveryOf s
  if d.status = .delivered ∨ d.status = .notRequired then .done s ()
  else
    match reportHuman cfg s, mail with
    | none, _ => saveThen .delivery { s with reportDelivery := some { d with status := .notRequired } } fun s => .done s ()
    | some _, .refused text | some _, .declined text => .raise s (.sendBlocked text)
    | some _, .broken | some _, .lost => .raise s .service
    | some human, .sent id =>
      let accepted := { d with status := .delivered, providerMessageId := if id = "" then none else some id }
      let s := threadOn { s with reportDelivery := some accepted } s!"<{s.runId}-report@updates.agent9.dev>"
      (saveThen .delivery s fun s => .done s ()).pre [.send (.report human (classify halt).1 text d.idempotencyKey)]

/-- `mail_report` -/
def mailReport (cfg : Cfg) (s : RunState) (text halt : String) (mail : MailOutcome) : Call Unit :=
  match s.reportDelivery with
  | some _ => deliver cfg s text halt mail
  | none =>
    saveThen .delivery { s with reportGeneration := max 1 s.reportGeneration, reportDelivery := some (deliveryOf s) }
      fun s => deliver cfg s text halt mail

/-- the record of a report, then its mail -/
def report (cfg : Cfg) (s : RunState) (text halt : String) (key : Option String) (mail : MailOutcome) : Call Unit :=
  saveThen (.report halt key) (recordReport s text halt key) fun s => mailReport cfg s text halt mail

/-- the end of a command that ran the loop -/
def finish (P : Runtime) (cfg : Cfg) (key : Option String) (w : Work) (s : RunState) (halt : String) : Call Unit :=
  (writeReport P cfg s halt w.report).bind fun s text => report cfg s text halt key w.mail

/-- the end of a command that stopped before any turn: the mechanical summary -/
def finishPlain (P : Runtime) (cfg : Cfg) (key : Option String) (w : Work) (s : RunState) (halt : String) : Call Unit :=
  (summaryText P s halt).bind fun s text => report cfg s text halt key w.mail

/-- a refused report mail is only noted -/
def unlessRefused (x : Call Unit) : Call Unit :=
  match x.out with
  | .raised (.sendBlocked _) => { x with out := .ret () }
  | _ => x

/-! ## Commissions -/

/-- `initialize_commission_run` -/
def initializeCommissionRun (w : Work) (s : RunState) : Call Unit :=
  if s.workdir ≠ w.workspace ∨ w.connects then
    saveThen .prepared { s with workdir := w.workspace } fun s => .done s ()
  else .done s ()

/-- `attach_cloud_coordination`: whether the work may start -/
def attachCloudCoordination (w : Work) (s : RunState) : Call Bool :=
  if s.cloudCoordinator.isSome then .done s true
  else
    match w.coordination with
    | .disabled => .done s true
    | .accepted status => saveThen .coordinator { s with cloudCoordinator := some status } fun s => .done s true
    | .failed true =>
      saveThen .coordinator
        { s with
          cloudCoordinator := some "failed"
          halt := some ⟨"cloud_coordinator_error",
            "The commission did not start because its authenticated Google ADK handoff failed."⟩ }
        fun s => .done s false
    | .failed false => saveThen .coordinator { s with cloudCoordinator := some "failed" } fun s => .done s true

/-- `prepare_media` -/
def prepareMedia (w : Work) (s : RunState) : Call Unit :=
  if w.media then saveThen .media s fun s => .done s () else .done s ()

/-- the key a commission's report is recorded under -/
def commissionKey (s : RunState) (messageId : Option String) : String :=
  match s.commissionRequestKey.filter fun k => k ≠ "" with
  | some k => k
  | none =>
    match messageId.filter fun m => m ≠ "" with
    | some m => m
    | none => s.runId

/-- the work on a commission without a report -/
def commence (P : Runtime) (cfg : Cfg) (messageId : Option String) (w : Work) (s : RunState) : Call Unit :=
  (initializeCommissionRun w s).bind fun s _ =>
    (attachCloudCoordination w s).bind fun s ready =>
      if ready then
        (prepareMedia w s).bind fun s _ =>
          (loop P cfg cfg.turnsMax s w.turns).bind fun s halt => finish P cfg (some (commissionKey s messageId)) w s halt
      else finishPlain P cfg (some (commissionKey s messageId)) w s "cloud_coordinator_error"

/-- `handle_commission` on the run it created or found -/
def handleCommission (P : Runtime) (cfg : Cfg) (workspaceId messageId : Option String) (w : Work) (s : RunState) :
    Call Unit :=
  if workspaceId.isSome ∧ s.workspaceId ≠ workspaceId then .raise s .workspaceMismatch
  else if hasReport s then
    saveThen .replay s fun s =>
      if deliverySettled s then .done s () else mailReport cfg s (s.report.getD "") (storedOutcome s) w.mail
  else commence P cfg messageId w { s with halt := none }

/-! ## Notes -/

/-- the address a note must come from, and the one it came from -/
def address (P : Runtime) (a : Option String) : String := P.lower (strip (a.getD ""))

/-- the latest report answers this note -/
def answers (s : RunState) (key : String) : Bool :=
  hasReport s && decide ((s.reportDelivery.bind fun d => d.requestKey) = some key)

/-- the state `handle_note` first saves -/
def noted (s : RunState) (n : Note) : Except Err RunState := do
  let s ← applyHumanNote s n.text
  .ok (match n.messageId.filter fun m => m ≠ "" with
    | some m => threadOn s m
    | none => s)

/-- the loop a note starts -/
def resumeLoop (P : Runtime) (cfg : Cfg) (n : Note) (w : Work) (s : RunState) : Call Unit :=
  (prepareMedia w s).bind fun s _ =>
    ((loop P cfg cfg.turnsMax s w.turns).bind fun s halt => finish P cfg (some n.key) w s halt).pre
      [.resuming n.key]

/-- `handle_note` -/
def handleNote (P : Runtime) (cfg : Cfg) (n : Note) (w : Work) (s : RunState) : Call Unit :=
  if address P s.commissionedBy = "" ∨ address P n.sender ≠ address P s.commissionedBy then .raise s .noteRejected
  else if answers s n.key then
    if deliverySettled s then .done s () else mailReport cfg s (s.report.getD "") (storedOutcome s) w.mail
  else
    .attempt s .builtin (noted s n) fun s =>
      saveThen (.noteApplied n.key) s fun s =>
        if asksStop n.text then
          saveThen .noteStopped { s with halt := some ⟨"stopped_by_human", n.text⟩ } fun s =>
            finishPlain P cfg (some n.key) w s "stopped_by_human"
        else resumeLoop P cfg n w s

/-! ## Commands of the operator -/

/-- `cmd_stop` -/
def cmdStop (detail : String) (s : RunState) : Call Unit :=
  saveThen .stop { s with halt := some ⟨"stopped_by_human", detail⟩ } fun s => .done s ()

/-- `cmd_retry` -/
def cmdRetry (P : Runtime) (cfg : Cfg) (w : Work) (s : RunState) : Call Unit :=
  match s.halt with
  | none => .done s ()
  | some h =>
    if h.reason = "" ∨ h.reason = "complete" then .done s ()
    else
      saveThen .retry { s with halt := none } fun s =>
        (loop P cfg cfg.turnsMax s w.turns).bind fun s halt => unlessRefused (finish P cfg none w s halt)

/-- `--resume`, with guidance for the next turn and a turn limit of its own -/
def cmdResume (P : Runtime) (cfg : Cfg) (guidance : Option String) (maxTurns : ℕ) (w : Work) (s : RunState) : Call Unit :=
  let work := fun s : RunState =>
    (loop P cfg (if maxTurns = 0 then cfg.turnsMax else maxTurns) s w.turns).bind fun s halt =>
      unlessRefused (finish P cfg none w s halt)
  match guidance.filter fun t => t ≠ "" with
  | some text => .attempt s .builtin (applyHumanNote s text) fun s => saveThen .resumed s work
  | none => work s

/-! ## Commands -/

inductive Op where
  | commission (workspaceId messageId : Option String)
  | note (n : Note)
  | stop (detail : String)
  | retry
  | resume (guidance : Option String) (maxTurns : ℕ)
deriving DecidableEq

/-- the call a command makes from the state it loads -/
def Op.exec (P : Runtime) (cfg : Cfg) (w : Work) (s : RunState) : Op → Call Unit
  | .commission ws mid => handleCommission P cfg ws mid w s
  | .note n => handleNote P cfg n w s
  | .stop detail => cmdStop detail s
  | .retry => cmdRetry P cfg w s
  | .resume guidance maxTurns => cmdResume P cfg guidance maxTurns w s

end Rally.Runner
