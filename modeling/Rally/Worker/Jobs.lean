/-
The Worker's intake of dashboard jobs (`src/worker/index.js`): who asks (`authenticatedWorkspace`), what they ask for
(`normalizeManualJob`), and the one envelope it stores for it, under an idempotency key, before it answers 202
(`createManualJob`).

- Texts are UTF-16 code units. Hashes, the clock, random ids and the printing of values are open.
- The database is what each statement of a call finds, so other calls may run between any two of them. A write may be
  lost, or done although it is reported lost.
- `accepted_stores`: a job answered 202 with a message written is stored as `envelope` has it, and passed every check.
-/
import Rally.Core.Wire
import Rally.Ingress.Mail

namespace Rally.Worker

open Wire Rally.Ingress

/-! ## Patterns -/

/-- `RUN_ID` -/
def isRunId (s : List Char) : Bool :=
  s.take 2 = ['r', '-'] && 3 ≤ (s.drop 2).length && (s.drop 2).length ≤ 77 &&
    (s.drop 2).all fun c => c.isDigit || c.isLower || c = '-'

/-- `[A-Za-z0-9._:-]` -/
def isIdChar (c : Char) : Bool := c.isAlphanum || c = '.' || c = '_' || c = ':' || c = '-'

/-- `WORKSPACE_ID` -/
def isWorkspaceId (s : List Char) : Bool :=
  (s.head?.map Char.isAlphanum).getD false && s.length ≤ 96 && s.all isIdChar

/-- `USER_ID` -/
def isUserId (s : List Char) : Bool := 1 ≤ s.length && s.length ≤ 255 && s.all isIdChar

/-- `SHA256_HEX` -/
def isSha256Hex (s : List Char) : Bool :=
  s.length = 64 && s.all fun c => c.isDigit || ('a'.toNat ≤ c.toNat && c.toNat ≤ 'f'.toNat)

/-- `IDEMPOTENCY_KEY` -/
def isIdempotencyKey (s : List Char) : Bool :=
  (s.head?.map Char.isAlphanum).getD false && 16 ≤ s.length && s.length ≤ 128 && s.all isIdChar

/-- `TIMESTAMP`, given what `\d` holds -/
def isTimestamp (digit : Char → Bool) (s : List Char) : Bool :=
  let shape := "0000-00-00T00:00:00".toList
  let fits := fun (p : Char × Char) => if p.1 = '0' then digit p.2 else p.1 = p.2
  (s.take 19).length = 19 && (shape.zip s).all fits &&
    match s.drop 19 with
    | ['Z'] => true
    | '.' :: rest => rest.getLast? = some 'Z' && rest.dropLast ≠ [] && rest.dropLast.all digit
    | _ => false

/-! ## Identity -/

/-- what `trim` takes off: white space and line ends -/
def jsBlank (u : UInt16) : Bool :=
  let n := u.toNat
  (9 ≤ n && n ≤ 13) || n = 0x20 || n = 0xa0 || n = 0x1680 || (0x2000 ≤ n && n ≤ 0x200a) || n = 0x2028 || n = 0x2029 ||
    n = 0x202f || n = 0x205f || n = 0x3000 || n = 0xfeff

/-- `s.trim()` -/
def trim (s : Units) : Units := trimBy jsBlank s

/-- the checks of `normalizedEmail` on a trimmed text in lower case -/
def isSimpleEmail (s : List Char) : Bool :=
  match s.splitOn '@' with
  | [localPart, domain] =>
    1 ≤ localPart.length && localPart.length ≤ 64 && localPart.all isLocalChar &&
      1 ≤ domain.length && domain.length ≤ 253 && domain.all (fun c => c.isAlphanum || c = '.' || c = '-') &&
      localPart.head? ≠ some '.' && localPart.getLast? ≠ some '.' && !decide (['.', '.'] <:+: localPart) &&
      domain.contains '.' && (domain.splitOn '.').all domainLabel
  | _ => false

/-- a value's property, `none` where it is undefined -/
def prop (v : JsValue) (name : String) : Option JsValue :=
  match v with
  | .obj kvs => kvs.lookup (encode name)
  | _ => none

/-- `normalizedEmail` -/
def normalizedEmail : Option JsValue → Option Units
  | some (.str s) =>
    let email := lowerChars (unitChars (trim s))
    if isSimpleEmail email then some (encode (String.ofList email)) else none
  | _ => none

/-- `typeof v === "string" ? v.trim() : ""` -/
def trimmedText : Option JsValue → Units
  | some (.str s) => trim s
  | _ => []

structure Identity where
  userId : Option Units
  email : Option Units
  workspaceId : Units
deriving DecidableEq

structure Workspace where
  key : Units
  identity : Identity
deriving DecidableEq

/-- hashes, the text of a value, and `String(v)` -/
structure Platform where
  stringify : JsValue → Units
  toText : JsValue → Units
  sha256Hex : Units → Units
  hmacHex : Units → Units → Units

/-- `workspaceKey` -/
def workspaceKey (P : Platform) (workspaceId secret : Units) : Option Units :=
  if !isWorkspaceId (unitChars workspaceId) ∨ secret = [] then none else some (P.hmacHex secret workspaceId)

/-- the answer of the control plane on who the caller is -/
inductive Upstream where
  | unreachable
  | tooLarge
  | refused (status : ℕ)
  | notJson
  | identity (v : JsValue)

/-- `authenticatedWorkspace`, or the status of its refusal -/
def authenticatedWorkspace (P : Platform) (hasCredentials : Bool) (upstream : Upstream) (secret : Units) :
    Except ℕ Workspace :=
  if !hasCredentials then .error 401
  else
    match upstream with
    | .unreachable => .error 502
    | .tooLarge => .error 502
    | .refused status => .error (if status = 401 ∨ status = 403 then status else 502)
    | .notJson => .error 502
    | .identity v =>
      let workspaceId := trimmedText (prop v "workspace_id")
      match workspaceKey P workspaceId secret with
      | none => .error 503
      | some key =>
        let userId := trimmedText (prop v "uid")
        .ok ⟨key, ⟨if isUserId (unitChars userId) then some userId else none, normalizedEmail (prop v "email"),
          workspaceId⟩⟩

/-! ## The job -/

structure Job where
  title : Units
  goal : Units
  sourceRunId : Option Units
  secondWind : Option Bool
deriving DecidableEq

/-- `[\u0000-\u0008\u000b\u000c\u000e-\u001f\u007f]` -/
def unsafeControl (u : UInt16) : Bool :=
  let n := u.toNat
  n ≤ 8 || n = 0xb || n = 0xc || (0xe ≤ n && n ≤ 0x1f) || n = 0x7f

/-- `[\r\n]` -/
def lineBreak (u : UInt16) : Bool := u.toNat = 0xd || u.toNat = 0xa

/-- `value.source_run_id == null ? null : value.source_run_id`, with the check made of it -/
def sourceRunId (v : Option JsValue) : Except String (Option Units) :=
  match v with
  | none => .ok none
  | some .null => .ok none
  | some (.str s) => if isRunId (unitChars s) then .ok (some s) else .error "source_run_id is invalid"
  | some _ => .error "source_run_id is invalid"

/-- the check of `second_wind` -/
def secondWind (v : Option JsValue) : Except String (Option Bool) :=
  match v with
  | none => .ok none
  | some (.bool b) => .ok (some b)
  | some _ => .error "second_wind must be a boolean"

/-- `normalizeManualJob` -/
def normalizeManualJob (value : JsValue) : Except String Job :=
  match value with
  | .obj kvs =>
    let allowed := ["title", "goal", "source_run_id", "second_wind"].map encode
    match kvs.lookup (encode "title"), kvs.lookup (encode "goal"), kvs.all fun kv => allowed.contains kv.1 with
    | some title, some goal, true =>
      match title, goal with
      | .str title, .str goal =>
        let title := trim title
        let goal := trim goal
        if title = [] ∨ 160 < title.length ∨ title.any lineBreak ∨ title.any unsafeControl then
          .error "title must be between 1 and 160 characters on one line"
        else if goal = [] ∨ 6000 < goal.length ∨ goal.any unsafeControl then
          .error "goal must be between 1 and 6000 characters"
        else do
          let source ← sourceRunId (kvs.lookup (encode "source_run_id"))
          let wind ← secondWind (kvs.lookup (encode "second_wind"))
          .ok ⟨title, goal, source, wind⟩
      | _, _ => .error "title and goal must be strings"
    | _, _, _ => .error "body contains unsupported fields"
  | _ => .error "body must be an object"

/-- a text, or null -/
def orNull : Option Units → JsValue
  | some s => .str s
  | none => .null

/-- a job as a value -/
def Job.value (job : Job) : JsValue :=
  .obj [(encode "title", .str job.title), (encode "goal", .str job.goal),
    (encode "source_run_id", orNull job.sourceRunId),
    (encode "second_wind", match job.secondWind with | some b => .bool b | none => .null)]

/-- an identity as a value -/
def Identity.value (i : Identity) : JsValue :=
  .obj [(encode "user_id", orNull i.userId), (encode "email", orNull i.email),
    (encode "workspace_id", .str i.workspaceId)]

/-- the envelope of an accepted job -/
def envelope (runId acceptedAt fingerprint : Units) (job : Job) (identity : Identity) : JsValue :=
  .obj [(encode "source", .str (encode "dashboard")), (encode "schema_version", .num 1),
    (encode "run_id", .str runId), (encode "accepted_at", .str acceptedAt),
    (encode "request_fingerprint", .str fingerprint), (encode "job", job.value),
    (encode "authority", identity.value)]

/-! ## The database -/

/-- a row of `messages`; the payload is `none` where it is not JSON -/
structure Message where
  id : Units
  eventId : Units
  receivedAt : Units
  payload : Option JsValue

/-- a row of `workspace_jobs` -/
structure Receipt where
  runId : Units
  workspaceKey : Units
  eventId : Units
  requestFingerprint : Units
  createdAt : Units
deriving DecidableEq

/-- what becomes of a write: done, lost, or done and reported lost -/
inductive Write where
  | done
  | lost
  | late
deriving DecidableEq

/-- what the statements of a call find, in their order; a read that throws finds `none` -/
structure Views where
  receipts : Option (List Receipt)
  messages : Option (List Message)
  /-- after a stored envelope was given its receipt -/
  restored : Option (List Receipt)
  /-- `run_id` and `workspace_key` of `console_runs` -/
  runs : Option (List (Units × Units))
  messagesAtBatch : List Message
  receiptsAtBatch : List Receipt
  batch : Write
  /-- the receipts of others between the batch and the second lookup -/
  later : List Receipt
  /-- the second lookup answers -/
  replays : Bool

/-- the receipt of an event in a workspace -/
def receiptOf (rows : List Receipt) (eventId key : Units) : Option Receipt :=
  rows.find? fun r => r.eventId = eventId ∧ r.workspaceKey = key

/-- both rows keep the unique columns unique -/
def insertable (views : Views) (message : Message) (receipt : Receipt) : Bool :=
  views.messagesAtBatch.all (fun m => m.id ≠ message.id && m.eventId ≠ message.eventId) &&
    views.receiptsAtBatch.all fun r => r.runId ≠ receipt.runId && r.eventId ≠ receipt.eventId

/-! ## The call -/

inductive Response where
  | accepted (runId acceptedAt : Units)
  | refused (status : ℕ) (detail : String)
deriving DecidableEq

inductive Body where
  | tooLarge
  /-- with the message of the error -/
  | notJson (message : String)
  | json (v : JsValue)

structure Request where
  contentType : String
  idempotencyKey : Units
  body : Body

/-- what a call draws: the time, and the random parts of the two ids -/
structure Draw where
  now : Units
  runUuid : Units
  messageId : Units

/-- the digits JavaScript's `\d` holds -/
def jsDigit (c : Char) : Bool := c.isDigit

def unavailable : Response := .refused 503 "job intake is temporarily unavailable"

def reused : Response := .refused 409 "idempotency-key was already used for another job"

/-- `acceptedManualJobResponse` -/
def acceptedManualJobResponse (receipt : Option Receipt) (fingerprint : Units) : Response :=
  match receipt with
  | none => unavailable
  | some r =>
    if !isRunId (unitChars r.runId) ∨ !isTimestamp jsDigit (unitChars r.createdAt) ∨
        !isSha256Hex (unitChars r.requestFingerprint) then unavailable
    else if r.requestFingerprint ≠ fingerprint then reused
    else .accepted r.runId r.createdAt

/-- `String(v || "")` -/
def textOr (P : Platform) : Option JsValue → Units
  | some (.str s) => s
  | some .null => []
  | some (.bool false) => []
  | some (.num 0) => []
  | some v => P.toText v
  | none => []

/-- `acceptedManualJob` -/
def acceptedManualJob (P : Platform) (stored : JsValue) (fingerprint workspaceId : Units) : Bool :=
  let isText := fun (v : Option JsValue) (s : Units) => match v with | some (.str t) => t = s | _ => false
  isText (prop stored "source") (encode "dashboard") &&
    (match prop stored "schema_version" with | some (.num n) => n = 1 | _ => false) &&
    isRunId (unitChars (textOr P (prop stored "run_id"))) &&
    isTimestamp jsDigit (unitChars (textOr P (prop stored "accepted_at"))) &&
    isSha256Hex (unitChars (textOr P (prop stored "request_fingerprint"))) &&
    isText (prop stored "request_fingerprint") fingerprint &&
    isText ((prop stored "authority").bind fun a => prop a "workspace_id") workspaceId &&
    (match (prop stored "job").bind fun j => prop j "title" with | some (.str _) => true | _ => false)

/-- the id of a new run -/
def newRunId (draw : Draw) : Units :=
  encode "r-" ++ (draw.now.take 10).filter (fun u => u.toNat ≠ '-'.toNat) ++ encode "-" ++ draw.runUuid

/-- `createManualJob`: the response, and the message it wrote -/
def createManualJob (P : Platform) (draw : Draw) (views : Views) (request : Request) (workspace : Workspace) :
    Response × Option Message :=
  if !Py.startsWith (Py.lower request.contentType) "application/json" then
    (.refused 415 "content-type must be application/json", none)
  else if !isIdempotencyKey (unitChars request.idempotencyKey) then
    (.refused 400 "a valid idempotency-key is required", none)
  else if workspace.identity.userId.getD [] = [] ∨ workspace.identity.email.getD [] = [] then
    (.refused 503 "workspace identity is unavailable", none)
  else
    match request.body with
    | .tooLarge => (.refused 413 "job request is too large", none)
    | .notJson message => (.refused 400 message, none)
    | .json body =>
      match normalizeManualJob body with
      | .error message => (.refused 400 message, none)
      | .ok job =>
        let fingerprint := P.sha256Hex (P.stringify job.value)
        let eventId := encode "dashboard:" ++
          P.sha256Hex (workspace.key ++ encode "\x00" ++ request.idempotencyKey)
        match views.receipts with
        | none => (unavailable, none)
        | some receipts =>
          match receiptOf receipts eventId workspace.key with
          | some receipt => (acceptedManualJobResponse (some receipt) fingerprint, none)
          | none =>
            match views.messages with
            | none => (unavailable, none)
            | some messages =>
              match messages.find? fun m => m.eventId = eventId with
              | some legacy =>
                match legacy.payload with
                | none => (unavailable, none)
                | some stored =>
                  if !acceptedManualJob P stored fingerprint workspace.identity.workspaceId then (reused, none)
                  else
                    match views.restored with
                    | none => (unavailable, none)
                    | some restored =>
                      (acceptedManualJobResponse (receiptOf restored eventId workspace.key) fingerprint, none)
              | none => commit fingerprint eventId job
where
  /-- the source run is known, and the rows are written together -/
  commit (fingerprint eventId : Units) (job : Job) : Response × Option Message :=
    let source := (job.sourceRunId.filter fun s => s ≠ []).map fun s =>
      views.runs.map fun runs => runs.any fun r => r.1 = s ∧ r.2 = workspace.key
    match source with
    | some none => (unavailable, none)
    | some (some false) => (.refused 404 "source run not found", none)
    | _ =>
      let message : Message := ⟨draw.messageId, eventId, draw.now,
        some (envelope (newRunId draw) draw.now fingerprint job workspace.identity)⟩
      let receipt : Receipt := ⟨newRunId draw, workspace.key, eventId, fingerprint, draw.now⟩
      let replay := fun rows : List Receipt =>
        match (if views.replays then receiptOf (rows ++ views.later) eventId workspace.key else none) with
        | some receipt => acceptedManualJobResponse (some receipt) fingerprint
        | none => unavailable
      if insertable views message receipt then
        match views.batch with
        | .done => (acceptedManualJobResponse (some receipt) fingerprint, some message)
        | .late => (replay (views.receiptsAtBatch ++ [receipt]), some message)
        | .lost => (replay views.receiptsAtBatch, none)
      else (replay views.receiptsAtBatch, none)

/-! ## What the checks leave -/

/-- a text without blanks at its ends, of at most this length, without control characters other than tabs and line
breaks -/
structure Clean (limit : ℕ) (s : Units) : Prop where
  nonempty : s ≠ []
  head : ∀ u ∈ s.head?, jsBlank u = false
  last : ∀ u ∈ s.getLast?, jsBlank u = false
  length : s.length ≤ limit
  safe : ∀ u ∈ s, unsafeControl u = false

/-- a job as the intake leaves it -/
structure Job.Normal (job : Job) : Prop where
  title : Clean 160 job.title
  oneLine : ∀ u ∈ job.title, lineBreak u = false
  goal : Clean 6000 job.goal
  source : ∀ s ∈ job.sourceRunId, isRunId (unitChars s) = true

theorem sourceRunId_run {v : Option JsValue} {source : Option Units} (h : sourceRunId v = .ok source) :
    ∀ s ∈ source, isRunId (unitChars s) = true := by
  intro s hs
  unfold sourceRunId at h
  split at h
  · cases h; cases hs
  · cases h; cases hs
  · split_ifs at h with hrun
    cases h
    obtain rfl := Option.some.inj hs
    exact hrun
  · cases h

theorem normalizeManualJob_normal {v : JsValue} {job : Job} (h : normalizeManualJob v = .ok job) : job.Normal := by
  unfold normalizeManualJob at h
  split at h
  swap
  · cases h
  dsimp only at h
  split at h
  swap
  · cases h
  split at h
  swap
  · cases h
  split_ifs at h with htitle hgoal
  obtain ⟨source, hsource, h⟩ := Py.bind_ok h
  obtain ⟨wind, -, h⟩ := Py.bind_ok h
  cases h
  simp only [not_or, List.any_eq_true, not_exists, not_and, Bool.not_eq_true, Nat.not_lt] at htitle hgoal
  obtain ⟨hne, hlength, hline, hsafe⟩ := htitle
  obtain ⟨hne', hlength', hsafe'⟩ := hgoal
  exact ⟨⟨hne, (trimBy_ends _).1, (trimBy_ends _).2, hlength, hsafe⟩, hline,
    ⟨hne', (trimBy_ends _).1, (trimBy_ends _).2, hlength', hsafe'⟩, sourceRunId_run hsource⟩

/-- an identity as the authentication leaves it -/
structure Identity.Valid (i : Identity) : Prop where
  user : ∀ s ∈ i.userId, isUserId (unitChars s) = true
  email : ∀ s ∈ i.email, ∃ t, s = encode (String.ofList (lowerChars t)) ∧ isSimpleEmail (lowerChars t) = true
  workspace : isWorkspaceId (unitChars i.workspaceId) = true

theorem normalizedEmail_simple {v : Option JsValue} : ∀ s ∈ normalizedEmail v,
    ∃ t, s = encode (String.ofList (lowerChars t)) ∧ isSimpleEmail (lowerChars t) = true := by
  intro s hs
  unfold normalizedEmail at hs
  split at hs
  · dsimp only at hs
    split_ifs at hs with hsimple
    · exact ⟨_, (Option.some.inj hs).symm, hsimple⟩
    · cases hs
  · cases hs

theorem authenticatedWorkspace_valid {P : Platform} {credentials : Bool} {upstream : Upstream} {secret : Units}
    {workspace : Workspace} (h : authenticatedWorkspace P credentials upstream secret = .ok workspace) :
    workspace.identity.Valid := by
  unfold authenticatedWorkspace at h
  split_ifs at h
  split at h
  · cases h
  · cases h
  · cases h
  · cases h
  · rename_i v
    dsimp only at h
    split at h
    · cases h
    · rename_i key hkey
      cases h
      unfold workspaceKey at hkey
      split_ifs at hkey with hbad
      simp only [not_or, Bool.not_eq_true, Bool.not_eq_false'] at hbad
      refine ⟨?_, normalizedEmail_simple, hbad.1⟩
      intro s hs
      dsimp only at hs
      split_ifs at hs with huser
      · obtain rfl := Option.some.inj hs
        exact huser
      · cases hs

/-! ## What an accepted job is -/

/-- the fields of a job answered 202 passed the patterns -/
theorem accepted_response {receipt : Receipt} {fingerprint runId acceptedAt : Units}
    (h : acceptedManualJobResponse (some receipt) fingerprint = .accepted runId acceptedAt) :
    receipt.runId = runId ∧ receipt.createdAt = acceptedAt ∧ receipt.requestFingerprint = fingerprint ∧
      isRunId (unitChars runId) = true ∧ isTimestamp jsDigit (unitChars acceptedAt) = true ∧
      isSha256Hex (unitChars fingerprint) = true := by
  simp only [acceptedManualJobResponse] at h
  split_ifs at h with hbad hother
  · simp [unavailable] at h
  · simp [reused] at h
  · obtain ⟨hrun, hat⟩ := Response.accepted.inj h
    simp only [not_or, Bool.not_eq_true] at hbad
    obtain rfl := not_not.1 hother
    subst hrun hat
    simpa using hbad

/-- a receipt just written is the one of its event -/
theorem receiptOf_written {views : Views} {message : Message} {receipt : Receipt}
    (h : insertable views message receipt = true) (later : List Receipt) :
    receiptOf (views.receiptsAtBatch ++ [receipt] ++ later) receipt.eventId receipt.workspaceKey = some receipt := by
  simp only [insertable, Bool.and_eq_true, List.all_eq_true, decide_eq_true_eq] at h
  unfold receiptOf
  rw [List.append_assoc, List.find?_append]
  have hnone : views.receiptsAtBatch.find? (fun r => r.eventId = receipt.eventId ∧
      r.workspaceKey = receipt.workspaceKey) = none := by
    refine List.find?_eq_none.2 fun r hr => ?_
    simp [(h.2 r hr).2]
  rw [hnone]
  simp

/-- the patterns an accepted job's fields passed, and the message written for it -/
structure Stored (P : Platform) (draw : Draw) (workspace : Workspace) (job : Job) (runId acceptedAt : Units)
    (message : Message) : Prop where
  run : isRunId (unitChars runId) = true
  time : isTimestamp jsDigit (unitChars acceptedAt) = true
  fingerprint : isSha256Hex (unitChars (P.sha256Hex (P.stringify job.value))) = true
  payload : message.payload =
    some (envelope runId acceptedAt (P.sha256Hex (P.stringify job.value)) job workspace.identity)

theorem commit_stores {P : Platform} {draw : Draw} {views : Views} {workspace : Workspace} {eventId : Units} {job : Job}
    {runId acceptedAt : Units} {message : Message}
    (h : createManualJob.commit draw views workspace (P.sha256Hex (P.stringify job.value)) eventId job =
      (.accepted runId acceptedAt, some message)) : Stored P draw workspace job runId acceptedAt message := by
  simp only [createManualJob.commit] at h
  split at h
  · simp [unavailable] at h
  · simp at h
  · split at h
    swap
    · simp at h
    rename_i hinsert
    split at h
    · obtain ⟨hresponse, hmessage⟩ := Prod.mk.inj h
      obtain ⟨hrun, hat, -, hr, ht, hf⟩ := accepted_response hresponse
      obtain rfl := Option.some.inj hmessage
      subst hrun hat
      exact ⟨hr, ht, hf, rfl⟩
    · obtain ⟨hresponse, hmessage⟩ := Prod.mk.inj h
      have hown := receiptOf_written hinsert views.later
      dsimp only at hown
      split at hresponse
      · rename_i receipt hreceipt
        split_ifs at hreceipt
        obtain rfl := Option.some.inj (hown.symm.trans hreceipt)
        obtain ⟨hrun, hat, -, hr, ht, hf⟩ := accepted_response hresponse
        obtain rfl := Option.some.inj hmessage
        subst hrun hat
        exact ⟨hr, ht, hf, rfl⟩
      · simp [unavailable] at hresponse
    · simp at h

/-- **What 202 means.** A job answered 202 with a message written was asked for by a known user in a body that passed the
checks, and is stored as its envelope. -/
theorem accepted_stores {P : Platform} {draw : Draw} {views : Views} {request : Request} {workspace : Workspace}
    {runId acceptedAt : Units} {message : Message}
    (h : createManualJob P draw views request workspace = (.accepted runId acceptedAt, some message)) :
    ∃ body job userId email, request.body = .json body ∧ normalizeManualJob body = .ok job ∧
      workspace.identity.userId = some userId ∧ workspace.identity.email = some email ∧
      Stored P draw workspace job runId acceptedAt message := by
  unfold createManualJob at h
  split_ifs at h with htype hkey hidentity
  · simp at h
  · simp at h
  · simp at h
  obtain ⟨huser, hemail⟩ := not_or.1 hidentity
  cases hu : workspace.identity.userId with
  | none => simp [hu] at huser
  | some userId =>
    cases he : workspace.identity.email with
    | none => simp [he] at hemail
    | some email =>
      split at h
      · simp at h
      · simp at h
      rename_i body hbody
      split at h
      · simp at h
      rename_i job hjob
      refine ⟨body, job, userId, email, hbody, hjob, rfl, rfl, ?_⟩
      dsimp only at h
      split at h
      · simp at h
      split at h
      · simp at h
      split at h
      · simp at h
      split at h
      · split at h
        · simp at h
        split_ifs at h
        · simp at h
        · split at h <;> simp at h
      · exact commit_stores h

end Rally.Worker
