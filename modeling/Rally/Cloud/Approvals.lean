/-
The approval ledger of connector calls (`cloud/connector_approvals.py`): a private file of requests, each bound to a run, a
connector, a tool and its arguments, that a human approves and a call consumes.

Every operation is one transaction under the lock of the ledger. What the file system does in it is an input.

- `canonicalJson`: the text of arguments that is hashed; `privateArguments`: the arguments as they are kept.
- `transaction`: the lock, the file, the requests that have expired, an operation, and the file again.
- `privateArguments_kept`: arguments that are taken have a canonical text, and those that are kept have the same one.
- `requestApproval_hash`, `consume_hash`: the hash bound into a request that is made or consumed is that of this text.
- `transaction_fault`, `prepareRequest_fault`, `prepareConsume_fault`: when an operation raises something that is no
  `ApprovalError`.
-/
import Rally.Core.Canonical
import Rally.Core.Dict

namespace Rally.Approvals

open Py

/-! ## Errors -/

/-- the classes of `ApprovalError` -/
inductive Refusal where
  | input
  | notFound
  | state
  | expired
  | replay
  | mismatch
  | limit
  | ledgerCorrupt
deriving DecidableEq, Repr

/-- `type(exc).__name__` -/
def Refusal.name : Refusal → String
  | .input => "ApprovalInputError"
  | .notFound => "ApprovalNotFound"
  | .state => "ApprovalStateError"
  | .expired => "ApprovalExpired"
  | .replay => "ApprovalReplay"
  | .mismatch => "ApprovalMismatch"
  | .limit => "ApprovalLimitError"
  | .ledgerCorrupt => "ApprovalLedgerCorrupt"

/-- what an operation of the ledger raises -/
inductive Exn where
  | approval (kind : Refusal) (text : String)
  /-- any other exception -/
  | fault
deriving DecidableEq, Repr

abbrev refuse {α : Type} (kind : Refusal) (text : String) : Except Exn α := .error (.approval kind text)

/-! ## Arguments -/

/-- the texts of numbers, and the hash -/
structure Libs where
  text : Runtime
  sha256 : String → String

/-- a JSON object of arguments -/
structure Arguments where
  members : List (String × Value)
  /-- a text in it has a lone surrogate, which stands as U+FFFD in `members` and has no UTF-8 -/
  surrogates : Bool := false
  /-- it is nested deeper than `json` goes -/
  tooDeep : Bool := false
deriving DecidableEq

def Arguments.value (a : Arguments) : Value := .dict a.members

def maxRecords : ℕ := 1024
def maxArgumentBytes : ℕ := 256 * 1024
def maxIdentifierLength : ℕ := 256
def defaultTtlSeconds : ℤ := 300
def maxTtlSeconds : ℤ := 3600

section Arguments

variable (L : Libs)

/-- `_canonical_json` -/
def canonicalJson (a : Arguments) : Except Exn String :=
  if a.tooDeep then .error .fault
  else if dumpable false a.value then .ok (dumps L.text compact (normalize a.value))
  else refuse .input "connector arguments must be finite JSON data"

/-- the canonical text, encoded and within the limit -/
def boundedJson (a : Arguments) : Except Exn String := do
  let canonical ← canonicalJson L a
  if a.surrogates then .error .fault
  else if maxArgumentBytes < canonical.utf8ByteSize then
    refuse .input s!"connector arguments exceed the {maxArgumentBytes}-byte approval limit"
  else .ok canonical

/-- `canonical_arguments_sha256` -/
def canonicalArgumentsSha256 (a : Arguments) : Except Exn String := do
  let encoded ← boundedJson L a
  .ok (L.sha256 encoded)

/-- the members of a value -/
def membersOf : Value → List (String × Value)
  | .dict kvs => kvs
  | _ => []

/-- `_private_arguments`: reading the canonical text back sorts the keys -/
def privateArguments (a : Arguments) : Except Exn Arguments := do
  let _ ← boundedJson L a
  .ok ⟨membersOf (normalize a.value), false, false⟩

end Arguments

/-- `_identifier` -/
def identifier (value label : String) : Except Exn String :=
  let normalized := strip value
  if normalized = "" ∨ maxIdentifierLength < normalized.length ∨ '\x00' ∈ normalized.toList then
    refuse .input (label ++ " is empty or too long")
  else .ok normalized

/-! ## Records -/

/-- `STATUSES` -/
inductive Status where
  | pending
  | approved
  | consumed
  | expired
deriving DecidableEq, Repr

/-- a request; times are in microseconds -/
structure Record where
  approvalId : String
  status : Status
  runId : String
  connectorId : String
  toolName : String
  argumentsSha256 : String
  arguments : Arguments
  createdAt : ℤ
  expiresAt : ℤ
  approvedAt : Option ℤ := none
  approvedBy : Option String := none
  consumedAt : Option ℤ := none
  expiredAt : Option ℤ := none
deriving DecidableEq

abbrev Requests := List (String × Record)

/-- the file of the ledger -/
inductive File where
  | absent
  /-- nothing that can be read as a ledger -/
  | corrupt
  | ledger (requests : Requests)

/-- how taking the lock ends -/
inductive LockEnd where
  | taken
  /-- the lock is no regular file -/
  | irregular
  | raised
deriving DecidableEq

/-- how writing the file ends; a write that raises may have replaced it -/
inductive WriteEnd where
  | done
  | raised (replaced : Bool)
deriving DecidableEq

/-- how reading the file ends -/
inductive ReadEnd where
  | read
  /-- it cannot be opened, read or decoded -/
  | refused
  | raised
deriving DecidableEq

/-- what the file system does in a transaction -/
structure Disk where
  lock : LockEnd := .taken
  read : ReadEnd := .read
  write : WriteEnd := .done

section Ledger

variable (L : Libs)

/-- `_validate_record`, of a record with all its fields -/
def validateRecord (approvalId : String) (record : Record) : Except Exn Unit :=
  if record.approvalId ≠ approvalId then refuse .ledgerCorrupt s!"approval {approvalId} is missing required fields"
  else
    match canonicalArgumentsSha256 L record.arguments with
    | .error .fault => .error .fault
    | .error (.approval _ _) => refuse .ledgerCorrupt s!"approval {approvalId} has invalid arguments"
    | .ok hash =>
      if record.argumentsSha256 = hash then .ok ()
      else refuse .ledgerCorrupt s!"approval {approvalId} argument hash does not match"

/-- every record of the ledger is valid -/
def validateRecords : Requests → Except Exn Unit
  | [] => .ok ()
  | p :: rest => do
    validateRecord L p.1 p.2
    validateRecords rest

/-- `_load_ledger` -/
def loadLedger (d : Disk) (file : File) : Except Exn Requests :=
  match d.read, file with
  | .raised, _ => .error .fault
  | _, .absent => .ok []
  | .read, .ledger requests => do
    validateRecords L requests
    .ok requests
  | _, _ => refuse .ledgerCorrupt "cannot read approval ledger"

/-- `_expire` of one record -/
def expireRecord (now : ℤ) (r : Record) : Record :=
  if (r.status = .pending ∨ r.status = .approved) ∧ r.expiresAt ≤ now then
    { r with status := .expired, expiredAt := some now }
  else r

/-- `_expire`, and whether anything has changed -/
def expire (now : ℤ) (requests : Requests) : Requests × Bool :=
  (requests.map fun p => (p.1, expireRecord now p.2), requests.any fun p => expireRecord now p.2 ≠ p.2)

/-- `_terminal_time` -/
def terminalTime (r : Record) : ℤ := (r.consumedAt.or r.expiredAt).getD r.expiresAt

def Status.isTerminal : Status → Bool
  | .consumed => true
  | .expired => true
  | _ => false

/-- the order in which ended requests are given up -/
def OlderEnd (p q : String × Record) : Prop :=
  terminalTime p.2 < terminalTime q.2 ∨ terminalTime p.2 = terminalTime q.2 ∧ p.1 ≤ q.1

instance : DecidableRel OlderEnd := fun p q => by unfold OlderEnd; infer_instance

/-- `_make_space`: the requests that are left -/
def makeSpace (requests : Requests) : Requests :=
  if requests.length + 1 ≤ maxRecords then requests
  else
    let terminal := (requests.filter fun p => p.2.status.isTerminal).insertionSort OlderEnd
    let gone := (terminal.take (requests.length + 1 - maxRecords)).map Prod.fst
    requests.filter fun p => p.1 ∉ gone

/-- whether the file is written after an operation -/
def written {α : Type} (expired : Bool) : Except Exn (α × Bool) → Bool
  | .ok (_, operationChanged) => expired || operationChanged
  | .error _ => expired

/-- `_transaction`: an operation that raises may have changed the requests all the same -/
def transaction {α : Type} (d : Disk) (now : ℤ) (file : File)
    (operation : Requests → Except Exn (α × Bool) × Requests) : Except Exn α × File :=
  match d.lock with
  | .raised => (.error .fault, file)
  | .irregular => (refuse .ledgerCorrupt "approval lock is not a regular file", file)
  | .taken =>
    match loadLedger L d file with
    | .error e => (.error e, file)
    | .ok requests =>
      let operated := operation (expire now requests).1
      if !written (expire now requests).2 operated.1 then (operated.1.map Prod.fst, file)
      else
        match d.write with
        | .done => (operated.1.map Prod.fst, .ledger operated.2)
        | .raised replaced => (.error .fault, if replaced then .ledger operated.2 else file)

/-! ## Operations -/

/-- the audit metadata of a record, `public_receipt` -/
structure PublicReceipt where
  approvalId : String
  status : Status
  runId : String
  connectorId : String
  toolName : String
  argumentsSha256 : String
  createdAt : ℤ
  expiresAt : ℤ
  approvedAt : Option ℤ
  approvedBy : Option String
  consumedAt : Option ℤ
  expiredAt : Option ℤ
deriving DecidableEq

def publicReceipt (r : Record) : PublicReceipt :=
  ⟨r.approvalId, r.status, r.runId, r.connectorId, r.toolName, r.argumentsSha256, r.createdAt, r.expiresAt, r.approvedAt,
    r.approvedBy, r.consumedAt, r.expiredAt⟩

/-- the call that a request is for -/
structure Scope where
  runId : String
  connectorId : String
  toolName : String

/-- ids drawn at random, one after the other: one of them is not taken -/
structure Draws where
  id : ℕ → String
  fresh : ∀ taken : List String, taken.length < maxRecords → ∃ n, id n ∉ taken

/-- the first id drawn that is not taken -/
def Draws.first (draws : Draws) (taken : List String) (h : taken.length < maxRecords) : String :=
  draws.id (Nat.find (draws.fresh taken h))

/-- ids of growing length -/
def tally : Draws where
  id n := "apr_" ++ .ofList (.replicate n '0')
  fresh taken _ := by
    obtain ⟨n, hn⟩ := Infinite.exists_notMem_finset (taken.map fun id => id.length - 4).toFinset
    refine ⟨n, fun hmem => hn (List.mem_toFinset.2 (List.mem_map.2 ⟨_, hmem, ?_⟩))⟩
    have hlen : "apr_".length = 4 := rfl
    simp [hlen]

/-- the request before its id is drawn -/
def prepareRequest (now ttlSeconds : ℤ) (s : Scope) (a : Arguments) : Except Exn Record :=
  if ttlSeconds < 1 ∨ maxTtlSeconds < ttlSeconds then
    refuse .input s!"approval TTL must be between 1 and {maxTtlSeconds} seconds"
  else do
    let kept ← privateArguments L a
    let hash ← canonicalArgumentsSha256 L kept
    let runId ← identifier s.runId "run_id"
    let connectorId ← identifier s.connectorId "connector_id"
    let toolName ← identifier s.toolName "tool_name"
    .ok { approvalId := "", status := .pending, runId := runId, connectorId := connectorId, toolName := toolName
          argumentsSha256 := hash, arguments := kept, createdAt := now, expiresAt := now + ttlSeconds * 1000000 }

/-- `create` of `request_approval` -/
def createIn (record : Record) (draws : Draws) (requests : Requests) : Except Exn (PublicReceipt × Bool) × Requests :=
  let left := makeSpace requests
  if h : left.length < maxRecords then
    let record := { record with approvalId := draws.first (left.map Prod.fst) (by simpa using h) }
    (.ok (publicReceipt record, true), Dict.upsert left record.approvalId fun _ => record)
  else (refuse .limit s!"approval ledger already contains {maxRecords} active requests", left)

/-- `request_approval` -/
def requestApproval (d : Disk) (now ttlSeconds : ℤ) (draws : Draws) (file : File) (s : Scope) (a : Arguments) :
    Except Exn PublicReceipt × File :=
  match prepareRequest L now ttlSeconds s a with
  | .error e => (.error e, file)
  | .ok record => transaction L d now file (createIn record draws)

/-- `get_for_review` -/
def getForReview (d : Disk) (now : ℤ) (file : File) (approvalId : String) : Except Exn Record × File :=
  match identifier approvalId "approval_id" with
  | .error e => (.error e, file)
  | .ok id =>
    transaction L d now file fun requests =>
      match Dict.get? requests id with
      | none => (refuse .notFound s!"approval {id} does not exist", requests)
      | some r => (.ok (r, false), requests)

/-- the order of the listing -/
def OlderRequest (r q : PublicReceipt) : Prop :=
  r.createdAt < q.createdAt ∨ r.createdAt = q.createdAt ∧ r.approvalId ≤ q.approvalId

instance : DecidableRel OlderRequest := fun r q => by unfold OlderRequest; infer_instance

/-- `list_public` -/
def listPublic (d : Disk) (now : ℤ) (file : File) (status : Option Status) : Except Exn (List PublicReceipt) × File :=
  transaction L d now file fun requests =>
    (.ok ((((requests.map Prod.snd).filter fun r => status.all (r.status = ·)).map publicReceipt).insertionSort OlderRequest,
      false), requests)

/-- `transition` of `approve` -/
def approveIn (now : ℤ) (id approver : String) (requests : Requests) : Except Exn (PublicReceipt × Bool) × Requests :=
  match Dict.get? requests id with
  | none => (refuse .notFound s!"approval {id} does not exist", requests)
  | some r =>
    match r.status with
    | .expired => (refuse .expired s!"approval {id} has expired", requests)
    | .consumed => (refuse .replay s!"approval {id} was already consumed", requests)
    | .approved => (refuse .state s!"approval {id} is already approved", requests)
    | .pending =>
      let r := { r with status := .approved, approvedAt := some now, approvedBy := some approver }
      (.ok (publicReceipt r, true), Dict.upsert requests id fun _ => r)

/-- `approve` -/
def approve (d : Disk) (now : ℤ) (file : File) (approvalId humanIdentity : String) : Except Exn PublicReceipt × File :=
  match identifier approvalId "approval_id", identifier humanIdentity "human_identity" with
  | .error e, _ => (.error e, file)
  | _, .error e => (.error e, file)
  | .ok id, .ok approver => transaction L d now file (approveIn now id approver)

/-- what a request must match to be consumed -/
structure Expected where
  approvalId : String
  scope : Scope
  arguments : Arguments
  argumentsSha256 : String

def prepareConsume (approvalId : String) (s : Scope) (a : Arguments) : Except Exn Expected := do
  let id ← identifier approvalId "approval_id"
  let runId ← identifier s.runId "run_id"
  let connectorId ← identifier s.connectorId "connector_id"
  let toolName ← identifier s.toolName "tool_name"
  let kept ← privateArguments L a
  let hash ← canonicalArgumentsSha256 L kept
  .ok ⟨id, ⟨runId, connectorId, toolName⟩, kept, hash⟩

/-- the field of a record that differs from what a call expects -/
def mismatchOf (r : Record) (s : Scope) : Option String :=
  if r.runId ≠ s.runId then some "run_id"
  else if r.connectorId ≠ s.connectorId then some "connector_id"
  else if r.toolName ≠ s.toolName then some "tool_name"
  else none

/-- whether an approved request is for exactly the expected call -/
def matchRecord (r : Record) (e : Expected) : Except Exn Unit :=
  match mismatchOf r e.scope with
  | some field => refuse .mismatch s!"approval {e.approvalId} {field} does not match"
  | none =>
    if r.argumentsSha256 ≠ e.argumentsSha256 then
      refuse .mismatch s!"approval {e.approvalId} argument hash does not match"
    else do
      let stored ← canonicalJson L r.arguments
      let given ← canonicalJson L e.arguments
      if stored ≠ given then refuse .mismatch s!"approval {e.approvalId} arguments do not match"
      else .ok ()

/-- `transition` of `consume` -/
def consumeIn (now : ℤ) (e : Expected) (requests : Requests) : Except Exn (PublicReceipt × Bool) × Requests :=
  match Dict.get? requests e.approvalId with
  | none => (refuse .notFound s!"approval {e.approvalId} does not exist", requests)
  | some r =>
    match r.status with
    | .expired => (refuse .expired s!"approval {e.approvalId} has expired", requests)
    | .consumed => (refuse .replay s!"approval {e.approvalId} was already consumed", requests)
    | .pending => (refuse .state s!"approval {e.approvalId} is not approved", requests)
    | .approved =>
      match matchRecord L r e with
      | .error raised => (.error raised, requests)
      | .ok () =>
        let r := { r with status := .consumed, consumedAt := some now }
        (.ok (publicReceipt r, true), Dict.upsert requests e.approvalId fun _ => r)

/-- `consume` -/
def consume (d : Disk) (now : ℤ) (file : File) (approvalId : String) (s : Scope) (a : Arguments) :
    Except Exn PublicReceipt × File :=
  match prepareConsume L approvalId s a with
  | .error raised => (.error raised, file)
  | .ok e => transaction L d now file (consumeIn L now e)

/-! ## Canonical texts -/

/-- the text that a value is hashed with -/
def canonicalText (v : Value) : String := dumps L.text compact (normalize v)

theorem canonicalText_normalize (v : Value) : canonicalText L (normalize v) = canonicalText L v := by
  rw [canonicalText, normalize_idem, canonicalText]

variable {L}
variable {a kept : Arguments} {text : String}

theorem canonicalJson_ok (h : canonicalJson L a = .ok text) :
    a.tooDeep = false ∧ dumpable false a.value = true ∧ text = canonicalText L a.value := by
  simp only [canonicalJson] at h
  split_ifs at h with hdeep hdumpable
  cases h
  exact ⟨by simpa using hdeep, hdumpable, rfl⟩

theorem boundedJson_ok (h : boundedJson L a = .ok text) :
    canonicalJson L a = .ok text ∧ a.surrogates = false ∧ text.utf8ByteSize ≤ maxArgumentBytes := by
  obtain ⟨canonical, hcanonical, h⟩ := bind_ok h
  split_ifs at h with hsurrogates hsize
  cases h
  exact ⟨hcanonical, by simpa using hsurrogates, not_lt.1 hsize⟩

/-- the arguments that are kept are those given, with their keys in order -/
theorem kept_value (a : Arguments) : (⟨membersOf (normalize a.value), false, false⟩ : Arguments).value = normalize a.value := by
  simp only [Arguments.value, Py.normalize, membersOf]

theorem privateArguments_ok (h : privateArguments L a = .ok kept) :
    boundedJson L a = .ok (canonicalText L a.value) ∧ kept = ⟨membersOf (normalize a.value), false, false⟩ := by
  obtain ⟨text, htext, h⟩ := bind_ok h
  cases h
  rw [htext, (canonicalJson_ok (boundedJson_ok htext).1).2.2]
  exact ⟨rfl, rfl⟩

/-- **What is kept.** Arguments that are taken are kept with the canonical text they had, so their hash is the same. -/
theorem privateArguments_kept (h : privateArguments L a = .ok kept) :
    canonicalJson L kept = .ok (canonicalText L a.value) ∧
      canonicalArgumentsSha256 L kept = .ok (L.sha256 (canonicalText L a.value)) := by
  obtain ⟨hbounded, rfl⟩ := privateArguments_ok h
  obtain ⟨hcanonical, -, hsize⟩ := boundedJson_ok hbounded
  obtain ⟨-, hdumpable, -⟩ := canonicalJson_ok hcanonical
  have hkept : canonicalJson L ⟨membersOf (normalize a.value), false, false⟩ = .ok (canonicalText L a.value) := by
    rw [canonicalJson, kept_value, dumpable_normalize, hdumpable, ← canonicalText_normalize]
    rfl
  refine ⟨hkept, ?_⟩
  rw [canonicalArgumentsSha256, boundedJson, hkept]
  simp [bind, Except.bind, not_lt.2 hsize]

/-- arguments that have a text with no UTF-8 -/
def Arguments.Unencodable (a : Arguments) : Prop :=
  a.tooDeep = true ∨ dumpable false a.value = true ∧ a.surrogates = true

theorem boundedJson_fault : boundedJson L a = .error .fault ↔ a.Unencodable := by
  simp only [boundedJson, canonicalJson, Arguments.Unencodable, refuse]
  cases a.tooDeep with
  | true => simp [bind, Except.bind]
  | false =>
    cases dumpable false a.value with
    | false => simp [bind, Except.bind]
    | true =>
      cases a.surrogates with
      | true => simp [bind, Except.bind]
      | false =>
        simp only [bind, Except.bind, Bool.false_eq_true, if_false, if_true]
        split_ifs <;> simp

theorem privateArguments_fault : privateArguments L a = .error .fault ↔ a.Unencodable := by
  rw [← boundedJson_fault (L := L), privateArguments]
  cases boundedJson L a with
  | error e => simp [bind, Except.bind]
  | ok text => simp [bind, Except.bind]

theorem identifier_fault (value label : String) : identifier value label ≠ .error .fault := by
  simp only [identifier, refuse]
  split_ifs <;> simp

/-! ## When an operation raises something else -/

theorem bind_fault {α β : Type} {x : Except Exn α} {f : α → Except Exn β} :
    x >>= f = .error .fault ↔ x = .error .fault ∨ ∃ v, x = .ok v ∧ f v = .error .fault := by
  cases x with
  | error e => simp [bind, Except.bind]
  | ok v => simp [bind, Except.bind]

theorem prepareRequest_fault {now ttl : ℤ} {s : Scope} (httl : 1 ≤ ttl ∧ ttl ≤ maxTtlSeconds) :
    prepareRequest L now ttl s a = .error .fault ↔ a.Unencodable := by
  rw [prepareRequest, if_neg (by omega)]
  simp only [bind_fault, identifier_fault, privateArguments_fault, false_or]
  refine or_iff_left ?_
  rintro ⟨kept, hkept, hfault | ⟨hash, -, runId, -, connectorId, -, toolName, -, h⟩⟩
  · rw [(privateArguments_kept hkept).2] at hfault
    cases hfault
  · cases h

/-- the identifiers of a call can be looked up -/
def Scope.Named (s : Scope) : Prop :=
  (∃ runId, identifier s.runId "run_id" = .ok runId) ∧ (∃ connectorId, identifier s.connectorId "connector_id" = .ok connectorId) ∧
    ∃ toolName, identifier s.toolName "tool_name" = .ok toolName

theorem prepareConsume_fault {approvalId : String} {s : Scope} :
    prepareConsume L approvalId s a = .error .fault ↔
      (∃ id, identifier approvalId "approval_id" = .ok id) ∧ s.Named ∧ a.Unencodable := by
  simp only [prepareConsume, bind_fault, identifier_fault, privateArguments_fault, false_or]
  constructor
  · rintro ⟨id, hid, runId, hrun, connectorId, hconnector, toolName, htool, hfault | ⟨kept, hkept, hfault | ⟨hash, -, h⟩⟩⟩
    · exact ⟨⟨id, hid⟩, ⟨⟨runId, hrun⟩, ⟨connectorId, hconnector⟩, ⟨toolName, htool⟩⟩, hfault⟩
    · rw [(privateArguments_kept hkept).2] at hfault
      cases hfault
    · cases h
  · rintro ⟨⟨id, hid⟩, ⟨⟨runId, hrun⟩, ⟨connectorId, hconnector⟩, ⟨toolName, htool⟩⟩, hfault⟩
    exact ⟨id, hid, runId, hrun, connectorId, hconnector, toolName, htool, .inl hfault⟩

/-- the lock or the file of the ledger raises something that is no `ApprovalError` -/
def StoreRaises {α : Type} (L : Libs) (d : Disk) (now : ℤ) (file : File)
    (operation : Requests → Except Exn (α × Bool) × Requests) : Prop :=
  d.lock = .raised ∨ d.lock = .taken ∧ (loadLedger L d file = .error .fault ∨
    ∃ requests, loadLedger L d file = .ok requests ∧
      written (expire now requests).2 (operation (expire now requests).1).1 = true ∧ d.write ≠ .done)

theorem transaction_fault {α : Type} {d : Disk} {now : ℤ} {file : File}
    {operation : Requests → Except Exn (α × Bool) × Requests}
    (hoperation : ∀ requests, loadLedger L d file = .ok requests → (operation (expire now requests).1).1 ≠ .error .fault) :
    (transaction L d now file operation).1 = .error .fault ↔ StoreRaises L d now file operation := by
  simp only [transaction, StoreRaises, refuse]
  cases hlock : d.lock with
  | raised => simp
  | irregular => simp
  | taken =>
    cases hload : loadLedger L d file with
    | error e => simp
    | ok requests =>
      have hresult : (operation (expire now requests).1).1.map Prod.fst ≠ .error .fault := by
        intro h
        apply hoperation requests hload
        cases hr : (operation (expire now requests).1).1 with
        | error e => rw [hr] at h; simpa [Except.map] using h
        | ok v => rw [hr] at h; cases h
      cases hwritten : written (expire now requests).2 (operation (expire now requests).1).1 with
      | false => simp [hwritten, hresult]
      | true =>
        cases hwrite : d.write with
        | done => simp [hwritten, hresult]
        | raised replaced => simp [hwritten]

/-! ## What a request is bound to -/

theorem prepareRequest_ok {now ttl : ℤ} {s : Scope} {record : Record} (h : prepareRequest L now ttl s a = .ok record) :
    record.argumentsSha256 = L.sha256 (canonicalText L a.value) := by
  rw [prepareRequest] at h
  split_ifs at h
  obtain ⟨kept, hkept, h⟩ := bind_ok h
  obtain ⟨hash, hhash, h⟩ := bind_ok h
  obtain ⟨runId, -, h⟩ := bind_ok h
  obtain ⟨connectorId, -, h⟩ := bind_ok h
  obtain ⟨toolName, -, h⟩ := bind_ok h
  cases h
  rw [(privateArguments_kept hkept).2] at hhash
  exact (Except.ok.inj hhash).symm

theorem prepareConsume_ok {approvalId : String} {s : Scope} {e : Expected} (h : prepareConsume L approvalId s a = .ok e) :
    e.argumentsSha256 = L.sha256 (canonicalText L a.value) ∧ ∃ text, canonicalJson L e.arguments = .ok text := by
  obtain ⟨id, -, h⟩ := bind_ok h
  obtain ⟨runId, -, h⟩ := bind_ok h
  obtain ⟨connectorId, -, h⟩ := bind_ok h
  obtain ⟨toolName, -, h⟩ := bind_ok h
  obtain ⟨kept, hkept, h⟩ := bind_ok h
  obtain ⟨hash, hhash, h⟩ := bind_ok h
  cases h
  rw [(privateArguments_kept hkept).2] at hhash
  exact ⟨(Except.ok.inj hhash).symm, _, (privateArguments_kept hkept).1⟩

/-- what a transaction returns, its operation has returned -/
theorem transaction_ok {α : Type} {d : Disk} {now : ℤ} {file : File}
    {operation : Requests → Except Exn (α × Bool) × Requests} {v : α}
    (h : (transaction L d now file operation).1 = .ok v) :
    ∃ requests, loadLedger L d file = .ok requests ∧ ∃ changed, (operation (expire now requests).1).1 = .ok (v, changed) := by
  simp only [transaction, refuse] at h
  cases hlock : d.lock with
  | raised => simp [hlock] at h
  | irregular => simp [hlock] at h
  | taken =>
    cases hload : loadLedger L d file with
    | error e => simp [hlock, hload] at h
    | ok requests =>
      refine ⟨requests, rfl, ?_⟩
      have hresult : (operation (expire now requests).1).1.map Prod.fst = .ok v := by
        simp only [hlock, hload] at h
        split_ifs at h
        · exact h
        · cases hwrite : d.write with
          | done => simpa [hwrite] using h
          | raised replaced => simp [hwrite] at h
      cases hr : (operation (expire now requests).1).1 with
      | error e => rw [hr] at hresult; cases hresult
      | ok w =>
        rw [hr] at hresult
        exact ⟨w.2, by rw [← Except.ok.inj hresult]⟩

/-! ## The operations -/

/-- a valid record has a canonical text -/
theorem validateRecord_ok {id : String} {r : Record} (h : validateRecord L id r = .ok ()) :
    ∃ text, canonicalJson L r.arguments = .ok text := by
  simp only [validateRecord, refuse] at h
  split_ifs at h
  cases hhash : canonicalArgumentsSha256 L r.arguments with
  | error e => cases e <;> simp [hhash] at h
  | ok hash =>
    obtain ⟨text, htext, -⟩ := bind_ok hhash
    exact ⟨text, (boundedJson_ok htext).1⟩

theorem validateRecords_ok {requests : Requests} (h : validateRecords L requests = .ok ()) :
    ∀ p ∈ requests, ∃ text, canonicalJson L p.2.arguments = .ok text := by
  induction requests with
  | nil => simp
  | cons p rest ih =>
    obtain ⟨_, hp, hrest⟩ := bind_ok h
    rintro q (_ | ⟨_, hq⟩)
    · exact validateRecord_ok hp
    · exact ih hrest q hq

theorem loadLedger_ok {d : Disk} {file : File} {requests : Requests} (h : loadLedger L d file = .ok requests) :
    ∀ p ∈ requests, ∃ text, canonicalJson L p.2.arguments = .ok text := by
  simp only [loadLedger, refuse] at h
  split at h
  · cases h
  · cases h
    simp
  · obtain ⟨_, hvalid, h⟩ := bind_ok h
    cases h
    exact validateRecords_ok hvalid
  · cases h

@[simp] theorem expireRecord_arguments (now : ℤ) (r : Record) : (expireRecord now r).arguments = r.arguments := by
  unfold expireRecord
  split_ifs <;> rfl

/-- a record that is looked up after some have expired has a canonical text -/
theorem loadLedger_get? {d : Disk} {file : File} {requests : Requests} (h : loadLedger L d file = .ok requests) {now : ℤ}
    {id : String} {r : Record} (hr : Dict.get? (expire now requests).1 id = some r) :
    ∃ text, canonicalJson L r.arguments = .ok text := by
  obtain ⟨p, hp, rfl⟩ := Option.map_eq_some_iff.1 hr
  obtain ⟨q, hq, rfl⟩ := List.mem_map.1 (List.mem_of_find?_eq_some hp)
  simpa using loadLedger_ok h q hq

theorem createIn_fault (record : Record) (draws : Draws) (requests : Requests) :
    (createIn record draws requests).1 ≠ .error .fault := by
  simp only [createIn, refuse]
  split_ifs <;> simp

theorem createIn_ok {record : Record} {draws : Draws} {requests : Requests} {receipt : PublicReceipt} {changed : Bool}
    (h : (createIn record draws requests).1 = .ok (receipt, changed)) : receipt.argumentsSha256 = record.argumentsSha256 := by
  simp only [createIn, refuse] at h
  split_ifs at h
  cases h
  rfl

theorem matchRecord_fault {r : Record} {e : Expected} (hr : ∃ text, canonicalJson L r.arguments = .ok text)
    (he : ∃ text, canonicalJson L e.arguments = .ok text) : matchRecord L r e ≠ .error .fault := by
  obtain ⟨stored, hr⟩ := hr
  obtain ⟨given, he⟩ := he
  simp only [matchRecord, refuse, hr, he, bind, Except.bind]
  split
  · simp
  · split_ifs <;> simp

theorem matchRecord_ok {r : Record} {e : Expected} (h : matchRecord L r e = .ok ()) :
    r.argumentsSha256 = e.argumentsSha256 := by
  simp only [matchRecord, refuse] at h
  split at h
  · cases h
  · split_ifs at h with hne
    exact not_not.1 hne

theorem consumeIn_fault {now : ℤ} {e : Expected} {requests : Requests}
    (hr : ∀ r, Dict.get? requests e.approvalId = some r → ∃ text, canonicalJson L r.arguments = .ok text)
    (he : ∃ text, canonicalJson L e.arguments = .ok text) : (consumeIn L now e requests).1 ≠ .error .fault := by
  simp only [consumeIn, refuse]
  cases hget : Dict.get? requests e.approvalId with
  | none => simp
  | some r =>
    cases hstatus : r.status with
    | pending => simp [hstatus]
    | consumed => simp [hstatus]
    | expired => simp [hstatus]
    | approved =>
      simp only [hstatus]
      cases hmatch : matchRecord L r e with
      | error raised =>
        intro h
        apply matchRecord_fault (hr r hget) he
        rw [hmatch]
        exact congrArg Except.error (Except.error.inj h)
      | ok _ => simp

theorem consumeIn_ok {now : ℤ} {e : Expected} {requests : Requests} {receipt : PublicReceipt} {changed : Bool}
    (h : (consumeIn L now e requests).1 = .ok (receipt, changed)) : receipt.argumentsSha256 = e.argumentsSha256 := by
  simp only [consumeIn, refuse] at h
  cases hget : Dict.get? requests e.approvalId with
  | none => simp [hget] at h
  | some r =>
    cases hstatus : r.status with
    | pending => simp [hget, hstatus] at h
    | consumed => simp [hget, hstatus] at h
    | expired => simp [hget, hstatus] at h
    | approved =>
      cases hmatch : matchRecord L r e with
      | error raised => simp [hget, hstatus, hmatch] at h
      | ok _ =>
        simp only [hget, hstatus, hmatch, Except.ok.injEq, Prod.mk.injEq] at h
        rw [← h.1, ← matchRecord_ok hmatch]
        rfl

section Requests

variable {d : Disk} {now ttl : ℤ} {draws : Draws} {file : File} {s : Scope} {receipt : PublicReceipt} {approvalId : String}

/-- **Bound hash of a request.** A request that is made is bound to the hash of the canonical text of its arguments. -/
theorem requestApproval_hash (h : (requestApproval L d now ttl draws file s a).1 = .ok receipt) :
    receipt.argumentsSha256 = L.sha256 (canonicalText L a.value) := by
  rw [requestApproval] at h
  cases hprepared : prepareRequest L now ttl s a with
  | error e => rw [hprepared] at h; cases h
  | ok record =>
    rw [hprepared] at h
    obtain ⟨requests, -, changed, hcreated⟩ := transaction_ok h
    rw [createIn_ok hcreated, prepareRequest_ok hprepared]

/-- **Bound hash of a consumed request.** So is a request that is consumed. -/
theorem consume_hash (h : (consume L d now file approvalId s a).1 = .ok receipt) :
    receipt.argumentsSha256 = L.sha256 (canonicalText L a.value) := by
  rw [consume] at h
  cases hprepared : prepareConsume L approvalId s a with
  | error e => rw [hprepared] at h; cases h
  | ok e =>
    rw [hprepared] at h
    obtain ⟨requests, -, changed, hconsumed⟩ := transaction_ok h
    rw [consumeIn_ok hconsumed, (prepareConsume_ok hprepared).1]

/-- **Faults of a request.** Making a request raises something that is no `ApprovalError` exactly where its arguments have a
text without UTF-8, or the lock or the file of the ledger raises. -/
theorem requestApproval_fault (httl : 1 ≤ ttl ∧ ttl ≤ maxTtlSeconds) :
    (requestApproval L d now ttl draws file s a).1 = .error .fault ↔
      a.Unencodable ∨ ∃ record, prepareRequest L now ttl s a = .ok record ∧ StoreRaises L d now file (createIn record draws) := by
  rw [← prepareRequest_fault httl, requestApproval]
  cases hprepared : prepareRequest L now ttl s a with
  | error e => simp
  | ok record => simpa using transaction_fault fun requests _ => createIn_fault record draws _

/-- **Faults of a consumed request.** -/
theorem consume_fault :
    (consume L d now file approvalId s a).1 = .error .fault ↔
      ((∃ id, identifier approvalId "approval_id" = .ok id) ∧ s.Named ∧ a.Unencodable) ∨
        ∃ e, prepareConsume L approvalId s a = .ok e ∧ StoreRaises L d now file (consumeIn L now e) := by
  rw [← prepareConsume_fault, consume]
  cases hprepared : prepareConsume L approvalId s a with
  | error e => simp
  | ok e =>
    simpa using transaction_fault fun requests hload =>
      consumeIn_fault (fun r hr => loadLedger_get? hload hr) (prepareConsume_ok hprepared).2

end Requests

end Ledger

end Rally.Approvals
