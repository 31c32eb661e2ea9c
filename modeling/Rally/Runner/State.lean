/-
The state of a run (`src/runner.py`), its configuration, and the functions that read or update it without touching
the disk: the agent rotation, the continuity record of Second Wind handoffs, `apply_human_note` and `record_report`.

`RunState` is the content of `state.json`, with the fields the modelled functions read. Left out: the log and the
timestamps, connector and media records, which no decision here reads.
-/
import Rally.Envelope

namespace Rally.Runner

open Py Rally.Envelope

/-! ## Configuration -/

/-- the parts of the configuration file that the runner's decisions read -/
structure Cfg where
  /-- the names in `cfg["agents"]`, in file order -/
  agents : List String
  turnsMax : ℤ
  noProgressHalt : ℤ
  repromptsMax : ℤ
  rejectionsMax : ℤ
  secondWind : Bool
  /-- `max_recoveries_per_run`, any JSON value -/
  maxRecoveries : Value
  mailEnabled : Bool
  ccHuman : Option String
deriving DecidableEq, Repr

/-! ## State -/

structure Halt where
  reason : String
  detail : String
deriving DecidableEq, Repr

/-- a record of one Second Wind handoff -/
structure Recovery where
  id : String
  turn : ℕ
  kind : String
  fromActor : String
  toActor : String
  items : List String
  detail : String
  status : String
  outcome : String
deriving DecidableEq, Repr

structure Continuity where
  mode : String
  secondWind : Bool
  maxRecoveries : ℤ
  recoveriesUsed : ℕ
  active : Option Recovery
  history : List Recovery
deriving DecidableEq, Repr

inductive DeliveryStatus where
  | pending
  | delivered
  | notRequired
deriving DecidableEq, Repr

/-- the delivery record of the latest report -/
structure Delivery where
  status : DeliveryStatus
  generation : ℕ
  idempotencyKey : String
  requestKey : Option String
  providerMessageId : Option String
deriving DecidableEq, Repr

/-- what the next prompt shows as rejected -/
inductive Notice where
  | noEnvelope
  | containment (msg : String)
  | problem (p : Problem)
  | violation (v : Violation)
deriving DecidableEq, Repr

def Notice.text (P : Runtime) : Notice → String
  | .noEnvelope => "your last reply contained no parseable json envelope; reply with prose then ONE fenced json block"
  | .containment msg => msg
  | .problem p => p.text P
  | .violation v => v.text P

/-- the visible fields of an item that changed in a turn -/
structure Change where
  id : Value
  state : ItemState
  owner : Value
  verifiedBy : Value
  evidence : Value
deriving DecidableEq, Repr

structure TurnRecord where
  turn : ℕ
  actor : String
  narrative : Value
  commit : Option String
  changes : List Change
deriving DecidableEq, Repr

/-- `state.json` -/
structure RunState where
  runId : String
  task : String
  workdir : String
  turn : ℕ
  actor : String
  agentOrder : List String
  checklist : List Item
  halt : Option Halt
  violations : List Notice
  humanNote : Option String
  digestStreak : ℕ
  lastDigest : String
  created : String
  turns : List TurnRecord
  threadMessageId : Option String
  threadReferences : List String
  reprompts : ℕ
  commissionMessageId : Option String
  commissionRequestKey : Option String
  commissionedBy : Option String
  workspaceId : Option String
  continuity : Option Continuity
  cloudCoordinator : Option String
  reportGeneration : ℕ
  report : Option String
  reportHalt : Option String
  reportDelivery : Option Delivery
deriving DecidableEq, Repr

/-! ## Agent rotation -/

def configuredAgentOrder (cfg : Cfg) : List String := if cfg.agents.isEmpty then ["claude", "agy"] else cfg.agents

def runAgentOrder (s : RunState) (cfg : Cfg) : List String :=
  let saved := s.agentOrder.filter fun name => name ∈ cfg.agents
  if saved.isEmpty then configuredAgentOrder cfg else saved

def nextActor (s : RunState) (cfg : Cfg) (actor : String) : String :=
  let order := runAgentOrder s cfg
  if actor ∈ order then order.getD ((order.idxOf actor + 1) % order.length) "" else order.headD ""

def counterpartNames (s : RunState) (cfg : Cfg) (actor : String) : List String :=
  (runAgentOrder s cfg).filter fun name => name ≠ actor

/-! ## Second Wind -/

/-- `continuity_policy`: a value `int` refuses switches recoveries off, except an infinity, which raises -/
def continuityPolicy (cfg : Cfg) : Except Err Continuity := do
  let maximum ← match cfg.maxRecoveries.toInt with
    | .ok n => .ok n
    | .error .overflowError => .error .overflowError
    | .error _ => .ok 0
  let maximum := max 0 (min maximum 8)
  let enabled := cfg.secondWind && decide (maximum > 0)
  .ok ⟨if enabled then "second_wind" else "halt", enabled, maximum, 0, none, []⟩

/-- `_continuity`: the record of the run, made from the configuration where the run has none -/
def continuityOf (s : RunState) (cfg : Cfg) : Except Err Continuity :=
  match s.continuity with
  | some c => .ok c
  | none => continuityPolicy cfg

/-- `_set_recovery_status`: the latest record with this id -/
def setRecoveryStatus (history : List Recovery) (id status outcome : String) : List Recovery :=
  let rec go : List Recovery → List Recovery
    | [] => []
    | r :: rs => if r.id = id then { r with status := status, outcome := takeChars outcome 800 } :: rs else r :: go rs
  (go history.reverse).reverse

/-- `sorted(set(ids))` for ids that must be strings in the note that follows -/
def sortedIds (ids : List Value) : Except Err (List String) := do
  let names ← ids.mapM Value.asStr
  .ok (names.dedup.insertionSort (· ≤ ·))

/-- `start_second_wind`: whether the handoff was made, and the state after -/
def startSecondWind (s : RunState) (cfg : Cfg) (kind fromActor detail : String) (ids : List Value) :
    Except Err (Bool × RunState) := do
  let c ← continuityOf s cfg
  if ¬ c.secondWind ∨ c.maxRecoveries ≤ c.recoveriesUsed then .ok (false, { s with continuity := some c })
  else
    let items ← sortedIds ids
    let history := match c.active with
      | some prior =>
        if prior.id = "" then c.history
        else setRecoveryStatus c.history prior.id "failed"
          "The recovery model also failed before an accepted continuation."
      | none => c.history
    let record : Recovery :=
      { id := s!"sw-{c.recoveriesUsed + 1}", turn := s.turn, kind := kind, fromActor := fromActor
        toActor := nextActor s cfg fromActor, items := items, detail := takeChars detail 1200
        status := "active", outcome := "" }
    .ok (true,
      { s with
        continuity := some { c with
          recoveriesUsed := c.recoveriesUsed + 1, active := some record, history := history ++ [record] }
        actor := nextActor s cfg fromActor, halt := none, reprompts := 0 })

/-- the last item with this id, as a dict comprehension over the checklist keeps it -/
def lastItem (items : List Item) (id : String) : Option Item := items.reverse.find? fun it => it.id = .str id

/-- `finish_second_wind` -/
def finishSecondWind (s : RunState) (actor : String) : RunState :=
  match s.continuity with
  | none => s
  | some c =>
    match c.active with
    | none => s
    | some r =>
      if r.toActor ≠ actor then s
      else
        let unresolved := r.items.filter fun id =>
          match lastItem s.checklist id with
          | some it => it.state = .blocked ∨ it.state = .disputed
          | none => false
        let (status, outcome) :=
          if unresolved.isEmpty then
            ("recovered", s!"{actor} accepted the recovery handoff without bypassing verification.")
          else
            ("unresolved", "The backup confirmed that " ++ ", ".intercalate unresolved ++ " still requires escalation.")
        { s with continuity := some { c with active := none, history := setRecoveryStatus c.history r.id status outcome } }

/-- `unrecovered_block_ids` -/
def unrecoveredBlockIds (s : RunState) : List Value :=
  let history := match s.continuity with
    | some c => c.history
    | none => []
  let attempted := (history.filter fun r => r.kind = "blocked").flatMap fun r => r.items
  (s.checklist.filter fun it => it.state = .blocked ∧ ¬ attempted.any fun id => it.id = .str id).map fun it => it.id

/-! ## Human notes -/

/-- the note asks for a stop -/
def asksStop (text : String) : Bool := startsWith (upper (strip text)) "STOP"

/-- the number in an id of the form `c<digits>` -/
def idNumber (id : Value) : Except Err (Option ℕ) :=
  match id with
  | .str s =>
    match s.toList with
    | 'c' :: d :: ds =>
      match (d :: ds).mapM digit? with
      | some digits => if digits.length ≤ maxDigits then .ok (some (ofDigits digits)) else .error .valueError
      | none => .ok none
    | _ => .ok none
  | _ => .ok none

/-- the item a follow-up to finished work adds -/
def revisionItem (items : List Item) (text : String) : Except Err Item := do
  let numbers ← items.mapM fun it => idNumber it.id
  let top := (numbers.filterMap id).foldl max 0
  .ok
    { id := .str s!"c{top + 1}"
      description := .str (takeChars ("Apply authenticated human follow-up: " ++ " ".intercalate (split text)) 420)
      state := .opened, owner := .none, verifiedBy := .none, evidence := .none, rejections := 0 }

/-- blocked and disputed items go back to open, without owner or verifier -/
def reopenItem (it : Item) : Item :=
  if it.state = .blocked ∨ it.state = .disputed then
    { it with state := .opened, owner := .none, verifiedBy := .none }
  else it

/-- `apply_human_note` -/
def applyHumanNote (s : RunState) (text : String) : Except Err RunState :=
  let s := { s with humanNote := some text }
  if asksStop text then .ok s
  else if s.checklist.any fun it => it.state = .blocked ∨ it.state = .disputed then
    .ok { s with checklist := s.checklist.map reopenItem, halt := none, reprompts := 0, digestStreak := 0 }
  else if isComplete s.checklist then do
    let item ← revisionItem s.checklist text
    .ok { s with checklist := s.checklist ++ [item], halt := none, reprompts := 0, digestStreak := 0 }
  else .ok s

/-! ## Reports -/

def reportKey (runId : String) (generation : ℕ) : String := s!"rally-final-report-{runId}-{generation}"

/-- `record_report`, before its save -/
def recordReport (s : RunState) (text halt : String) (requestKey : Option String) : RunState :=
  { s with
    report := some text
    reportHalt := some halt
    reportGeneration := s.reportGeneration + 1
    reportDelivery := some
      { status := .pending, generation := s.reportGeneration + 1
        idempotencyKey := reportKey s.runId (s.reportGeneration + 1), requestKey := requestKey
        providerMessageId := none } }

/-- `run.s.get("report")` counts as true -/
def hasReport (s : RunState) : Bool :=
  match s.report with
  | some text => text ≠ ""
  | none => false

/-- the delivery of the latest report is settled -/
def deliverySettled (s : RunState) : Bool :=
  match s.reportDelivery with
  | some d => d.status = .delivered ∨ d.status = .notRequired
  | none => false

/-- the outcome a stored report is mailed under -/
def storedOutcome (s : RunState) : String :=
  match s.reportHalt with
  | some h => if h = "" then fallback else h
  | none => fallback
where
  fallback : String :=
    match s.halt with
    | some h => if h.reason = "" then "complete" else h.reason
    | none => "complete"

end Rally.Runner
