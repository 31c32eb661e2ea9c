/-
The intake of dashboard jobs as it runs beside itself (`createManualJob` in `src/worker/index.js`): one statement of the
database at a time, with other posts, acknowledgements of the runner and published console records between any two.

- A batch writes both rows or none, unique columns are unique, and a read finds what was written before. A statement may
  throw, a write also after its effect. A post that dies makes no further statement.
- `post_answered`: a post answered 202 names a receipt of its key with its fingerprint, and receipts stay.
- `post_views`, `run_seen`: a post answers what `Worker.createManualJob` answers on what its statements found.
- `intake_idempotent`: one key, one message, one answer, one job.
-/
import Rally.Core.Calls
import Rally.Core.Table
import Rally.Worker.Jobs

namespace Rally.Worker.Intake

open Wire

/-! ## The database -/

structure Database where
  messages : List Message
  receipts : List Receipt
  /-- `run_id` and `workspace_key` of `console_runs` -/
  runs : List (Units × Units)
  /-- the receipts whose `superseded_at` is set -/
  superseded : List Units
  /-- the messages written by a post -/
  enqueued : List Message

/-- the unique columns of `messages` -/
def messageColumns : List (Message → Units) := [Message.id, Message.eventId]

/-- the unique columns of `workspace_jobs` -/
def receiptColumns : List (Receipt → Units) := [Receipt.runId, Receipt.eventId]

/-- the statements of a post -/
inductive Query where
  | receipt (eventId key : Units)
  | legacy (eventId : Units)
  | restore (receipt : Receipt)
  | source (runId key : Units)
  | batch (message : Message) (receipt : Receipt)

/-- what a statement answers: `none` or `false` where it throws -/
def Answer : Query → Type
  | .receipt _ _ => Option (Option Receipt)
  | .legacy _ => Option (Option Message)
  | .restore _ => Bool
  | .source _ _ => Option Bool
  | .batch _ _ => Bool

/-- both rows of a batch -/
def Database.enqueue (d : Database) (message : Message) (receipt : Receipt) : Database :=
  { d with
    messages := d.messages ++ [message]
    receipts := d.receipts ++ [receipt]
    enqueued := d.enqueued ++ [message] }

/-- a statement, and what becomes of it -/
def exec : (q : Query) → Write → Database → Database × Answer q
  | .receipt eventId key, w, d => (d, if w = .done then some (receiptOf d.receipts eventId key) else none)
  | .legacy eventId, w, d => (d, if w = .done then some (d.messages.find? fun m => m.eventId = eventId) else none)
  | .restore receipt, w, d =>
    (if w = .lost then d else { d with receipts := Table.insertOrIgnore receiptColumns d.receipts receipt },
      decide (w = .done))
  | .source runId key, w, d => (d, if w = .done then some (d.runs.any fun r => r.1 = runId ∧ r.2 = key) else none)
  | .batch message receipt, w, d =>
    if Table.Fits messageColumns d.messages message ∧ Table.Fits receiptColumns d.receipts receipt then
      (if w = .lost then d else d.enqueue message receipt, decide (w = .done))
    else (d, false)

/-- the runner deletes what it has taken, and console records are published -/
inductive Other : Database → Database → Prop where
  | ack {d : Database} (ids : List Units) :
    Other d { d with messages := d.messages.filter fun m => m.id ∉ ids }
  | publish {d : Database} (runId key : Units) :
    Other d { d with
      runs := d.runs.filter (fun r => r.1 ≠ runId) ++ [(runId, key)]
      superseded := d.superseded ++ (d.receipts.filter fun r => r.runId = runId ∧ r.workspaceKey = key).map
        Receipt.runId }

/-! ## The call -/

/-- a post, with what it will draw -/
structure Post where
  draw : Draw
  request : Request
  workspace : Workspace

/-- the fingerprint of a job -/
def fingerprintOf (P : Platform) (job : Job) : Units := P.sha256Hex (P.stringify job.value)

/-- the event of a workspace and an idempotency key -/
def eventIdOf (P : Platform) (key idempotencyKey : Units) : Units :=
  encode "dashboard:" ++ P.sha256Hex (key ++ encode "\x00" ++ idempotencyKey)

def Post.eventId (P : Platform) (a : Post) : Units := eventIdOf P a.workspace.key a.request.idempotencyKey

/-- the job a post asks for -/
def Post.job (a : Post) : Option Job :=
  match a.request.body with
  | .json body => (normalizeManualJob body).toOption
  | _ => none

/-- the message a post writes -/
def Post.message (P : Platform) (a : Post) (job : Job) : Message :=
  ⟨a.draw.messageId, a.eventId P, a.draw.now,
    some (envelope (newRunId a.draw) a.draw.now (fingerprintOf P job) job a.workspace.identity)⟩

/-- the receipt of a post -/
def Post.receipt (P : Platform) (a : Post) (job : Job) : Receipt :=
  ⟨newRunId a.draw, a.workspace.key, a.eventId P, fingerprintOf P job, a.draw.now⟩

/-- the second lookup of a post whose batch failed -/
def replay (P : Platform) (a : Post) (job : Job) : Call Query Answer Response :=
  .ask (.receipt (a.eventId P) a.workspace.key) fun
    | some (some receipt) => .done (acceptedManualJobResponse (some receipt) (fingerprintOf P job))
    | _ => .done unavailable

/-- the batch -/
def write (P : Platform) (a : Post) (job : Job) : Call Query Answer Response :=
  .ask (.batch (a.message P job) (a.receipt P job)) fun
    | true => .done (acceptedManualJobResponse (some (a.receipt P job)) (fingerprintOf P job))
    | false => replay P a job

/-- a post without a receipt: the source run, then the batch -/
def commit (P : Platform) (a : Post) (job : Job) : Call Query Answer Response :=
  match job.sourceRunId.filter fun s => s ≠ [] with
  | none => write P a job
  | some source =>
    .ask (.source source a.workspace.key) fun
      | none => .done unavailable
      | some false => .done (.refused 404 "source run not found")
      | some true => write P a job

/-- the receipt a stored envelope stands for -/
def legacyReceipt (P : Platform) (a : Post) (stored : JsValue) : Receipt :=
  ⟨textOr P (prop stored "run_id"), a.workspace.key, a.eventId P, textOr P (prop stored "request_fingerprint"),
    textOr P (prop stored "accepted_at")⟩

/-- an envelope stored without a receipt -/
def restore (P : Platform) (a : Post) (job : Job) (legacy : Message) : Call Query Answer Response :=
  match legacy.payload with
  | none => .done unavailable
  | some stored =>
    if !acceptedManualJob P stored (fingerprintOf P job) a.workspace.identity.workspaceId then .done reused
    else
      .ask (.restore (legacyReceipt P a stored)) fun
        | false => .done unavailable
        | true =>
          .ask (.receipt (a.eventId P) a.workspace.key) fun
            | none => .done unavailable
            | some restored => .done (acceptedManualJobResponse restored (fingerprintOf P job))

/-- a post whose job passed the checks -/
def accept (P : Platform) (a : Post) (job : Job) : Call Query Answer Response :=
  .ask (.receipt (a.eventId P) a.workspace.key) fun
    | none => .done unavailable
    | some (some receipt) => .done (acceptedManualJobResponse (some receipt) (fingerprintOf P job))
    | some none =>
      .ask (.legacy (a.eventId P)) fun
        | none => .done unavailable
        | some (some legacy) => restore P a job legacy
        | some none => commit P a job

/-- `createManualJob` -/
def createManualJob (P : Platform) (a : Post) : Call Query Answer Response :=
  if !Py.startsWith (Py.lower a.request.contentType) "application/json" then
    .done (.refused 415 "content-type must be application/json")
  else if !isIdempotencyKey (unitChars a.request.idempotencyKey) then
    .done (.refused 400 "a valid idempotency-key is required")
  else if a.workspace.identity.userId.getD [] = [] ∨ a.workspace.identity.email.getD [] = [] then
    .done (.refused 503 "workspace identity is unavailable")
  else
    match a.request.body with
    | .tooLarge => .done (.refused 413 "job request is too large")
    | .notJson message => .done (.refused 400 message)
    | .json body =>
      match normalizeManualJob body with
      | .error message => .done (.refused 400 message)
      | .ok job => accept P a job

/-! ## What the database keeps -/

/-- a message written with its receipt -/
def Written (P : Platform) (m : Message) (r : Receipt) : Prop :=
  r.eventId = m.eventId ∧ ∃ job identity, r.requestFingerprint = fingerprintOf P job ∧
    m.payload = some (envelope r.runId r.createdAt r.requestFingerprint job identity)

/-- unique receipts, one for each message written, and no two messages of one event -/
structure Receipted (P : Platform) (d : Database) : Prop where
  receipts : Table.Unique receiptColumns d.receipts
  written : ∀ m ∈ d.enqueued, ∃ r ∈ d.receipts, Written P m r
  once : d.enqueued.Pairwise fun m n => m.eventId ≠ n.eventId

/-- receipts stay, in their order, and an event with a receipt gets no message -/
structure Evolves (P : Platform) (d e : Database) : Prop where
  receipts : d.receipts <+: e.receipts
  receipted : Receipted P d → Receipted P e
  news : ∀ m ∈ e.enqueued, m ∈ d.enqueued ∨ ∀ r ∈ d.receipts, r.eventId ≠ m.eventId

section Evolves

variable {P : Platform} {d e f : Database} {a : Post} {job : Job}

theorem evolves_refl (d : Database) : Evolves P d d := ⟨List.prefix_refl _, id, fun _ hm => Or.inl hm⟩

theorem evolves_trans (d e f : Database) (h : Evolves P d e) (h' : Evolves P e f) : Evolves P d f := by
  refine ⟨h.receipts.trans h'.receipts, fun hd => h'.receipted (h.receipted hd), fun m hm => ?_⟩
  rcases h'.news m hm with hm | hm
  · exact h.news m hm
  · exact Or.inr fun r hr => hm r (h.receipts.subset hr)

/-- a change of other tables, or of messages by the runner -/
theorem evolves_of_eq (hr : e.receipts = d.receipts) (hq : e.enqueued = d.enqueued) : Evolves P d e := by
  refine ⟨by rw [hr], fun h => ⟨?_, ?_, ?_⟩, fun m hm => Or.inl (hq ▸ hm)⟩
  · rw [hr]; exact h.receipts
  · rw [hr, hq]; exact h.written
  · rw [hq]; exact h.once

theorem evolves_restore (r : Receipt) :
    Evolves P d { d with receipts := Table.insertOrIgnore receiptColumns d.receipts r } := by
  refine ⟨?_, fun h => ⟨h.receipts.insertOrIgnore, fun m hm => ?_, h.once⟩, fun m hm => Or.inl hm⟩
  · unfold Table.insertOrIgnore
    split_ifs
    · exact List.prefix_append _ _
    · exact List.prefix_refl _
  · obtain ⟨r', hr', hw⟩ := h.written m hm
    exact ⟨r', Table.subset_insertOrIgnore hr', hw⟩

theorem evolves_enqueue {m : Message} {r : Receipt} (hr : Table.Fits receiptColumns d.receipts r)
    (hw : Written P m r) : Evolves P d (d.enqueue m r) := by
  have hnone : ∀ r' ∈ d.receipts, r'.eventId ≠ m.eventId := fun r' hr' =>
    hw.1 ▸ hr _ (by simp [receiptColumns]) r' hr'
  refine ⟨List.prefix_append _ _, fun h => ⟨h.receipts.append hr, fun n hn => ?_, ?_⟩, fun n hn => ?_⟩
  · rcases List.mem_append.1 hn with hn | hn
    · obtain ⟨r', hr', hw'⟩ := h.written n hn
      exact ⟨r', List.mem_append_left _ hr', hw'⟩
    · obtain rfl := List.mem_singleton.1 hn
      exact ⟨r, List.mem_append_right _ List.mem_cons_self, hw⟩
  · refine List.pairwise_append.2 ⟨h.once, List.pairwise_singleton _ _, fun n hn n' hn' => ?_⟩
    obtain rfl := List.mem_singleton.1 hn'
    obtain ⟨r', hr', hw'⟩ := h.written n hn
    exact hw'.1 ▸ hnone r' hr'
  · rcases List.mem_append.1 hn with hn | hn
    · exact Or.inl hn
    · obtain rfl := List.mem_singleton.1 hn
      exact Or.inr hnone

theorem evolves_other (h : Other d e) : Evolves P d e := by
  cases h with
  | ack ids => exact evolves_of_eq rfl rfl
  | publish runId key => exact evolves_of_eq rfl rfl

theorem written_own : Written P (a.message P job) (a.receipt P job) := ⟨rfl, job, a.workspace.identity, rfl, rfl⟩

/-- a statement of a post -/
theorem evolves_exec {q : Query} (hq : ∀ m r, q = .batch m r → Written P m r) (w : Write) (d : Database) :
    Evolves P d (exec q w d).1 := by
  cases q with
  | receipt eventId key => exact evolves_refl d
  | legacy eventId => exact evolves_refl d
  | restore r =>
    simp only [exec]
    split_ifs
    · exact evolves_refl d
    · exact evolves_restore r
  | source runId key => exact evolves_refl d
  | batch m r =>
    simp only [exec]
    split_ifs with hfits hlost
    · exact evolves_refl d
    · exact evolves_enqueue hfits.2 (hq m r rfl)
    · exact evolves_refl d

end Evolves

/-- what posts may count on -/
def evolution (P : Platform) : Rely Database Empty := .plain (Evolves P) evolves_refl (evolves_trans _ _ _)

/-- a post in this place answers so, whatever others do -/
def Ends (P : Platform) (q : Response → Database → Prop) (c : Call Query Answer Response) (d : Database) : Prop :=
  c.Meets exec Call.always (evolution P) (fun _ _ => True) q ∅ d

section Ends

variable {P : Platform} {q q' : Response → Database → Prop} {d : Database}

theorem ends_done {response : Response} (h : ∀ e, Evolves P d e → q response e) : Ends P q (.done response) d :=
  Call.meets_done fun e hde => h e hde.1

theorem ends_ask {o : Query} {k : Answer o → Call Query Answer Response}
    (h : ∀ e, Evolves P d e → ∀ w, Evolves P e (exec o w e).1 ∧ Ends P q (k (exec o w e).2) (exec o w e).1) :
    Ends P q (.ask o k) d :=
  Call.meets_step fun e hde _ w => ⟨(h e hde w).1, trivial, fun x _ => x.elim, (h e hde w).2⟩

theorem Ends.mono {c : Call Query Answer Response} (h : Ends P q c d) (hq : ∀ r e, q r e → q' r e) : Ends P q' c d :=
  Call.Meets.mono h hq

theorem runs_of_ends {q : Post → Response → Database → Prop} {code : Post → Call Query Answer Response}
    (h : ∀ a e, Ends P (q a) (code a) e) : System.Runs exec Call.always code Other (evolution P) (fun _ _ _ => True) q d :=
  ⟨fun a e _ => h a e, fun _ _ _ hother => ⟨evolves_other hother, fun x _ => x.elim⟩⟩

end Ends

/-! ## What a post is answered -/

/-- an answer 202 names a receipt of the key, which holds the fingerprint of the job -/
def Answered (P : Platform) (a : Post) (response : Response) (d : Database) : Prop :=
  ∀ runId acceptedAt, response = .accepted runId acceptedAt → ∃ r ∈ d.receipts, ∃ job, a.job = some job ∧
    r.eventId = a.eventId P ∧ r.runId = runId ∧ r.createdAt = acceptedAt ∧ r.requestFingerprint = fingerprintOf P job

section Answered

variable {P : Platform} {d : Database} {a : Post} {job : Job}

theorem answered_refused {response : Response} (h : ∀ runId acceptedAt, response ≠ .accepted runId acceptedAt) :
    Ends P (Answered P a) (.done response : Call Query Answer Response) d :=
  ends_done fun _ _ runId acceptedAt heq => absurd heq (h runId acceptedAt)

theorem answered_unavailable : Ends P (Answered P a) (.done unavailable : Call Query Answer Response) d :=
  answered_refused fun _ _ h => nomatch h

/-- the answer on a receipt of the key -/
theorem answered_receipt {r : Receipt} (hjob : a.job = some job) (hr : r ∈ d.receipts) (hevent : r.eventId = a.eventId P) :
    Ends P (Answered P a)
      (.done (acceptedManualJobResponse (some r) (fingerprintOf P job)) : Call Query Answer Response) d := by
  refine ends_done fun e hde runId acceptedAt heq => ?_
  obtain ⟨hrun, hat, hf, -⟩ := accepted_response heq
  exact ⟨r, hde.receipts.subset hr, job, hjob, hevent, hrun, hat, hf⟩

/-- a lookup finds a receipt of the table and the event -/
theorem receiptOf_some {rows : List Receipt} {eventId key : Units} {r : Receipt}
    (h : receiptOf rows eventId key = some r) : r ∈ rows ∧ r.eventId = eventId := by
  have hkey := List.find?_some h
  rw [decide_eq_true_eq] at hkey
  exact ⟨List.mem_of_find?_eq_some h, hkey.1⟩

/-- what a lookup of receipts answers -/
theorem exec_receipt {eventId key : Units} {w : Write} {o : Option Receipt}
    (h : (exec (.receipt eventId key) w d).2 = some o) : receiptOf d.receipts eventId key = o := by
  cases w with
  | done => exact Option.some.inj h
  | lost => cases h
  | late => cases h

theorem answered_replay (hjob : a.job = some job) : Ends P (Answered P a) (replay P a job) d := by
  refine ends_ask fun e _ w => ⟨evolves_refl e, ?_⟩
  split
  · rename_i r hr
    obtain ⟨hmem, hevent⟩ := receiptOf_some (exec_receipt hr)
    exact answered_receipt hjob hmem hevent
  · exact answered_unavailable

theorem answered_write (hjob : a.job = some job) : Ends P (Answered P a) (write P a job) d := by
  refine ends_ask fun e _ w => ⟨evolves_exec (fun _ _ h => ?_) w e, ?_⟩
  · cases h; exact written_own
  split
  · rename_i hdone
    simp only [exec] at hdone ⊢
    split_ifs at hdone ⊢ with hfits hlost
    · simp [hlost] at hdone
    · exact answered_receipt hjob (List.mem_append_right _ List.mem_cons_self) rfl
  · exact answered_replay hjob

theorem answered_commit (hjob : a.job = some job) : Ends P (Answered P a) (commit P a job) d := by
  unfold commit
  split
  · exact answered_write hjob
  · refine ends_ask fun e _ w => ⟨evolves_refl e, ?_⟩
    split
    · exact answered_unavailable
    · exact answered_refused fun _ _ h => nomatch h
    · exact answered_write hjob

theorem answered_restore (hjob : a.job = some job) (legacy : Message) :
    Ends P (Answered P a) (restore P a job legacy) d := by
  unfold restore
  split
  · exact answered_unavailable
  rename_i stored _
  split
  · exact answered_refused fun _ _ h => by simp [reused] at h
  refine ends_ask fun e _ w => ⟨evolves_exec (fun _ _ h => ?_) w e, ?_⟩
  · cases h
  split
  · exact answered_unavailable
  refine ends_ask fun e' _ w' => ⟨evolves_refl e', ?_⟩
  split
  · exact answered_unavailable
  rename_i restored hrestored
  cases restored with
  | none => exact answered_unavailable
  | some r =>
    obtain ⟨hmem, hevent⟩ := receiptOf_some (exec_receipt hrestored)
    exact answered_receipt hjob hmem hevent

theorem answered_accept (hjob : a.job = some job) : Ends P (Answered P a) (accept P a job) d := by
  refine ends_ask fun e _ w => ⟨evolves_refl e, ?_⟩
  split
  · exact answered_unavailable
  · rename_i r hr
    obtain ⟨hmem, hevent⟩ := receiptOf_some (exec_receipt hr)
    exact answered_receipt hjob hmem hevent
  · refine ends_ask fun e' _ w' => ⟨evolves_refl e', ?_⟩
    split
    · exact answered_unavailable
    · exact answered_restore hjob _
    · exact answered_commit hjob

end Answered

/-- a post answered 202 names a receipt of its key with its fingerprint -/
theorem post_answered (P : Platform) (a : Post) (d : Database) :
    Ends P (Answered P a) (createManualJob P a) d := by
  unfold createManualJob
  split_ifs
  · exact answered_refused fun _ _ h => nomatch h
  · exact answered_refused fun _ _ h => nomatch h
  · exact answered_refused fun _ _ h => nomatch h
  · split
    · exact answered_refused fun _ _ h => nomatch h
    · exact answered_refused fun _ _ h => nomatch h
    · rename_i body hbody
      split
      · exact answered_refused fun _ _ h => nomatch h
      · rename_i job hjob
        exact answered_accept (by simp [Post.job, hbody, hjob, Except.toOption])

/-! ## One call, many statements -/

section Views

variable {P : Platform} {d : Database} {a : Post} {job : Job} {rs : List Receipt} {ms : List Message}

/-- the rows of a batch fit -/
theorem insertable_iff {views : Views} {m : Message} {r : Receipt} : insertable views m r = true ↔
    Table.Fits messageColumns views.messagesAtBatch m ∧ Table.Fits receiptColumns views.receiptsAtBatch r := by
  simp only [insertable, Table.Fits, messageColumns, receiptColumns, Bool.and_eq_true, List.all_eq_true, decide_eq_true_eq,
    List.forall_mem_cons, List.not_mem_nil, false_implies, implies_true, and_true, ne_eq, forall_and]

/-- what the source run of a job is found to be -/
def sourceFound (a : Post) (job : Job) (runs : Option (List (Units × Units))) : Option (Option Bool) :=
  (job.sourceRunId.filter fun s => s ≠ []).map fun s =>
    runs.map fun rows => rows.any fun r => r.1 = s ∧ r.2 = a.workspace.key

/-- the response is the one of `Worker.createManualJob` after these two lookups -/
def Explained (P : Platform) (a : Post) (job : Job) (rs : List Receipt) (ms : List Message) (response : Response)
    (_ : Database) : Prop :=
  ∃ views : Views, views.receipts = some rs ∧ views.messages = some ms ∧
    (Worker.createManualJob.commit a.draw views a.workspace (fingerprintOf P job) (a.eventId P) job).1 = response

/-- the batch of a call that found its source run -/
theorem commit_write {views : Views} (hsource : sourceFound a job views.runs = none ∨
    sourceFound a job views.runs = some (some true)) :
    (Worker.createManualJob.commit a.draw views a.workspace (fingerprintOf P job) (a.eventId P) job).1 =
      let again := fun rows : List Receipt =>
        match (if views.replays then receiptOf (rows ++ views.later) (a.eventId P) a.workspace.key else none) with
        | some receipt => acceptedManualJobResponse (some receipt) (fingerprintOf P job)
        | none => unavailable
      if insertable views (a.message P job) (a.receipt P job) then
        match views.batch with
        | .done => acceptedManualJobResponse (some (a.receipt P job)) (fingerprintOf P job)
        | .late => again (views.receiptsAtBatch ++ [a.receipt P job])
        | .lost => again views.receiptsAtBatch
      else again views.receiptsAtBatch := by
  unfold sourceFound at hsource
  unfold Worker.createManualJob.commit
  rcases hsource with hsource | hsource <;> rw [hsource] <;>
    simp only [Post.message, Post.receipt] <;> split_ifs <;> first | rfl | (cases views.batch <;> rfl)

/-- the answer of the second lookup, where it finds these receipts or throws -/
def replayed (P : Platform) (a : Post) (job : Job) (rows : List Receipt) (replays : Bool) : Response :=
  match (if replays then receiptOf rows (a.eventId P) a.workspace.key else none) with
  | some receipt => acceptedManualJobResponse (some receipt) (fingerprintOf P job)
  | none => unavailable

theorem views_replay {q : Response → Database → Prop} (rows : List Receipt) (hrows : rows <+: d.receipts)
    (h : ∀ later replays e, q (replayed P a job (rows ++ later) replays) e) :
    Ends P q (replay P a job) d := by
  refine ends_ask fun e hde w => ⟨evolves_refl e, ?_⟩
  obtain ⟨later, hlater⟩ := hrows.trans hde.receipts
  cases w with
  | done =>
    have hview := h later true
    simp only [replayed, if_true, hlater] at hview
    simp only [exec]
    cases hr : receiptOf e.receipts (a.eventId P) a.workspace.key with
    | none => rw [hr] at hview; exact ends_done fun f _ => hview f
    | some r => rw [hr] at hview; exact ends_done fun f _ => hview f
  | lost => exact ends_done fun f _ => h later false f
  | late => exact ends_done fun f _ => h later false f

theorem views_write (runs : Option (List (Units × Units))) (hsource : sourceFound a job runs = none ∨ sourceFound a job runs = some (some true)) :
    Ends P (Explained P a job rs ms) (write P a job) d := by
  refine ends_ask fun e _ w => ⟨evolves_exec (fun _ _ h => ?_) w e, ?_⟩
  · cases h; exact written_own
  -- what the batch and the second lookup find
  have hviews : ∀ later replays, ∃ views : Views, views.receipts = some rs ∧ views.messages = some ms ∧
      views.runs = runs ∧ views.messagesAtBatch = e.messages ∧ views.receiptsAtBatch = e.receipts ∧ views.batch = w ∧
      views.later = later ∧ views.replays = replays :=
    fun later replays => ⟨⟨some rs, some ms, none, runs, e.messages, e.receipts, w, later, replays⟩, by simp⟩
  by_cases hfits : Table.Fits messageColumns e.messages (a.message P job) ∧
      Table.Fits receiptColumns e.receipts (a.receipt P job)
  · simp only [exec, if_pos hfits]
    cases w with
    | done =>
      obtain ⟨views, h1, h2, h3, h4, h5, h6, -, -⟩ := hviews [] false
      refine ends_done fun f _ => ⟨views, h1, h2, ?_⟩
      rw [commit_write (by rw [h3]; exact hsource), if_pos (insertable_iff.2 (by rw [h4, h5]; exact hfits)), h6]
    | lost =>
      refine views_replay e.receipts (List.prefix_refl _) fun later replays f => ?_
      obtain ⟨views, h1, h2, h3, h4, h5, h6, h7, h8⟩ := hviews later replays
      refine ⟨views, h1, h2, ?_⟩
      rw [commit_write (by rw [h3]; exact hsource), if_pos (insertable_iff.2 (by rw [h4, h5]; exact hfits)), h6, h5, h7, h8]
      rfl
    | late =>
      refine views_replay (e.receipts ++ [a.receipt P job]) (List.prefix_refl _) fun later replays f => ?_
      obtain ⟨views, h1, h2, h3, h4, h5, h6, h7, h8⟩ := hviews later replays
      refine ⟨views, h1, h2, ?_⟩
      rw [commit_write (by rw [h3]; exact hsource), if_pos (insertable_iff.2 (by rw [h4, h5]; exact hfits)), h6, h5, h7, h8]
      rfl
  · simp only [exec, if_neg hfits]
    refine views_replay e.receipts (List.prefix_refl _) fun later replays f => ?_
    obtain ⟨views, h1, h2, h3, h4, h5, -, h7, h8⟩ := hviews later replays
    refine ⟨views, h1, h2, ?_⟩
    rw [commit_write (by rw [h3]; exact hsource), if_neg (by rw [insertable_iff, h4, h5]; exact hfits), h5, h7, h8]
    rfl

variable (rs ms) in
theorem views_commit : Ends P (Explained P a job rs ms) (commit P a job) d := by
  unfold commit
  split
  · rename_i hnone
    exact views_write none (Or.inl (by simp only [sourceFound, hnone, Option.map_none]))
  · rename_i source hsome
    refine ends_ask fun e _ w => ⟨evolves_refl e, ?_⟩
    have hfound : ∀ runs, sourceFound a job runs =
        some (runs.map fun rows => rows.any fun r => r.1 = source ∧ r.2 = a.workspace.key) := fun runs => by
      simp only [sourceFound, hsome, Option.map_some]
    have hlost : sourceFound a job none = some none → ∀ f, Explained P a job rs ms unavailable f := by
      intro hb f
      refine ⟨⟨some rs, some ms, none, none, [], [], .done, [], true⟩, rfl, rfl, ?_⟩
      unfold sourceFound at hb
      unfold Worker.createManualJob.commit
      dsimp only
      rw [hb]
    have hmissing : ∀ runs, sourceFound a job runs = some (some false) → ∀ f,
        Explained P a job rs ms (.refused 404 "source run not found") f := by
      intro runs hb f
      refine ⟨⟨some rs, some ms, none, runs, [], [], .done, [], true⟩, rfl, rfl, ?_⟩
      unfold sourceFound at hb
      unfold Worker.createManualJob.commit
      dsimp only
      rw [hb]
    split
    · exact ends_done fun f _ => hlost (hfound none) f
    · rename_i hfalse
      refine ends_done fun f _ => hmissing (some e.runs) ?_ f
      cases w with
      | done => rw [hfound]; exact congrArg some hfalse
      | lost => cases hfalse
      | late => cases hfalse
    · rename_i htrue
      refine views_write (some e.runs) (Or.inr ?_)
      cases w with
      | done => rw [hfound]; exact congrArg some htrue
      | lost => cases htrue
      | late => cases htrue

/-- what a call answers when its statements find these views -/
def Seen (P : Platform) (a : Post) (response : Response) (_ : Database) : Prop :=
  ∃ views : Views, (Worker.createManualJob P a.draw views a.request a.workspace).1 = response

/-- the checks a job passed -/
structure Checked (a : Post) (body : JsValue) (job : Job) : Prop where
  type : Py.startsWith (Py.lower a.request.contentType) "application/json" = true
  key : isIdempotencyKey (unitChars a.request.idempotencyKey) = true
  known : ¬ (a.workspace.identity.userId.getD [] = [] ∨ a.workspace.identity.email.getD [] = [])
  asked : a.request.body = .json body
  normal : normalizeManualJob body = .ok job

/-- the lookups of a job that passed the checks -/
theorem worker_checked {body : JsValue} (h : Checked a body job) (views : Views) :
    Worker.createManualJob P a.draw views a.request a.workspace =
      match views.receipts with
      | none => (unavailable, none)
      | some rs =>
        match receiptOf rs (a.eventId P) a.workspace.key with
        | some r => (acceptedManualJobResponse (some r) (fingerprintOf P job), none)
        | none =>
          match views.messages with
          | none => (unavailable, none)
          | some ms =>
            match ms.find? fun m => m.eventId = a.eventId P with
            | some legacy =>
              match legacy.payload with
              | none => (unavailable, none)
              | some stored =>
                if !acceptedManualJob P stored (fingerprintOf P job) a.workspace.identity.workspaceId then (reused, none)
                else
                  match views.restored with
                  | none => (unavailable, none)
                  | some restored => (acceptedManualJobResponse (receiptOf restored (a.eventId P) a.workspace.key)
                      (fingerprintOf P job), none)
            | none =>
              Worker.createManualJob.commit a.draw views a.workspace (fingerprintOf P job) (a.eventId P) job := by
  unfold Worker.createManualJob
  rw [if_neg (by simp [h.type]), if_neg (by simp [h.key]), if_neg h.known, h.asked]
  dsimp only
  rw [h.normal]
  rfl

theorem views_restore {body : JsValue} (h : Checked a body job) {legacy : Message}
    (hrs : receiptOf rs (a.eventId P) a.workspace.key = none)
    (hms : ms.find? (fun m => m.eventId = a.eventId P) = some legacy) :
    Ends P (Seen P a) (restore P a job legacy) d := by
  -- the views of a call that found the legacy envelope
  have hviews : ∀ restored, Seen P a (match legacy.payload with
      | none => unavailable
      | some stored =>
        if !acceptedManualJob P stored (fingerprintOf P job) a.workspace.identity.workspaceId then reused
        else
          match restored with
          | none => unavailable
          | some rows => acceptedManualJobResponse (receiptOf rows (a.eventId P) a.workspace.key)
              (fingerprintOf P job)) d := by
    intro restored
    refine ⟨⟨some rs, some ms, restored, none, [], [], .done, [], true⟩, ?_⟩
    rw [worker_checked h]
    dsimp only
    rw [hrs]
    dsimp only
    rw [hms]
    dsimp only
    cases legacy.payload with
    | none => rfl
    | some stored =>
      dsimp only
      split
      · rfl
      · cases restored <;> rfl
  unfold restore
  split
  · rename_i hpayload
    rw [hpayload] at hviews
    exact ends_done fun _ _ => hviews none
  rename_i stored hpayload
  rw [hpayload] at hviews
  dsimp only at hviews
  split
  · rename_i hnot
    simp only [if_pos hnot] at hviews
    exact ends_done fun _ _ => hviews none
  rename_i hok
  simp only [if_neg hok] at hviews
  refine ends_ask fun e _ w => ⟨evolves_exec (fun _ _ h => ?_) w e, ?_⟩
  · cases h
  split
  · exact ends_done fun _ _ => hviews none
  refine ends_ask fun e' _ w' => ⟨evolves_refl e', ?_⟩
  split
  · exact ends_done fun _ _ => hviews none
  · rename_i restored hrestored
    have hfound := hviews (some e'.receipts)
    dsimp only at hfound
    rw [exec_receipt hrestored] at hfound
    exact ends_done fun _ _ => hfound

/-- what a lookup of messages answers -/
theorem exec_legacy {eventId : Units} {w : Write} {o : Option Message} (h : (exec (.legacy eventId) w d).2 = some o) :
    d.messages.find? (fun m => m.eventId = eventId) = o := by
  cases w with
  | done => exact Option.some.inj h
  | lost => cases h
  | late => cases h

theorem views_accept {body : JsValue} (h : Checked a body job) :
    Ends P (Seen P a) (accept P a job) d := by
  refine ends_ask fun e _ w => ⟨evolves_refl e, ?_⟩
  split
  · refine ends_done fun _ _ => ⟨⟨none, none, none, none, [], [], .done, [], true⟩, ?_⟩
    rw [worker_checked h]
  · rename_i r hr
    refine ends_done fun _ _ => ⟨⟨some e.receipts, none, none, none, [], [], .done, [], true⟩, ?_⟩
    rw [worker_checked h]
    dsimp only
    rw [exec_receipt hr]
  rename_i hreceipt
  have hnone := exec_receipt hreceipt
  refine ends_ask fun e' _ w' => ⟨evolves_refl e', ?_⟩
  split
  · refine ends_done fun _ _ => ⟨⟨some e.receipts, none, none, none, [], [], .done, [], true⟩, ?_⟩
    rw [worker_checked h]
    dsimp only
    rw [hnone]
  · rename_i legacy hlegacy
    exact views_restore h hnone (exec_legacy hlegacy)
  · rename_i hlegacy
    refine (views_commit e.receipts e'.messages).mono fun response _ hresponse => ?_
    obtain ⟨views, hrs, hms, hview⟩ := hresponse
    refine ⟨views, ?_⟩
    rw [worker_checked h, hrs]
    dsimp only
    rw [hnone]
    dsimp only
    rw [hms]
    dsimp only
    rw [exec_legacy hlegacy]
    exact hview

end Views

/-- a post answers what `Worker.createManualJob` answers on what its statements found -/
theorem post_views (P : Platform) (a : Post) (d : Database) :
    Ends P (Seen P a) (createManualJob P a) d := by
  -- a refusal before the first statement
  have hearly : ∀ response, (∀ views, (Worker.createManualJob P a.draw views a.request a.workspace).1 = response) →
      Ends P (Seen P a) (.done response : Call Query Answer Response) d :=
    fun response heq => ends_done fun _ _ => ⟨⟨none, none, none, none, [], [], .done, [], true⟩, heq _⟩
  unfold createManualJob
  split_ifs with htype hkey hknown
  · exact hearly _ fun views => by rw [Worker.createManualJob, if_pos htype]
  · exact hearly _ fun views => by rw [Worker.createManualJob, if_neg htype, if_pos hkey]
  · exact hearly _ fun views => by rw [Worker.createManualJob, if_neg htype, if_neg hkey, if_pos hknown]
  · split
    · rename_i hbody
      exact hearly _ fun views => by
        rw [Worker.createManualJob, if_neg htype, if_neg hkey, if_neg hknown, hbody]
    · rename_i message hbody
      exact hearly _ fun views => by
        rw [Worker.createManualJob, if_neg htype, if_neg hkey, if_neg hknown, hbody]
    · rename_i body hbody
      split
      · rename_i message hnormal
        refine hearly _ fun views => ?_
        rw [Worker.createManualJob, if_neg htype, if_neg hkey, if_neg hknown, hbody]
        dsimp only
        rw [hnormal]
      · rename_i job hnormal
        exact views_accept ⟨by simpa using htype, by simpa using hkey, hknown, hbody, hnormal⟩

/-! ## Runs -/

/-- posts, acknowledgements and publications in any order -/
abbrev Run (P : Platform) (d : Database) :=
  Trace (System.Step exec Call.always (createManualJob P) Other) (⟨d, []⟩ : System Database Post Query Answer Response)

/-- a database before the posts: unique columns are unique -/
structure Database.Start (d : Database) : Prop where
  messages : Table.Unique messageColumns d.messages
  receipts : Table.Unique receiptColumns d.receipts
  enqueued : d.enqueued = []

theorem Database.Start.receipted {P : Platform} {d : Database} (h : d.Start) : Receipted P d :=
  ⟨h.receipts, by simp [h.enqueued], by simp [h.enqueued]⟩

/-- a post of this workspace and idempotency key -/
def Post.Carries (a : Post) (key idempotencyKey : Units) : Prop :=
  a.workspace.key = key ∧ a.request.idempotencyKey = idempotencyKey

theorem Post.Carries.eventId {P : Platform} {a : Post} {key idempotencyKey : Units} (h : a.Carries key idempotencyKey) :
    a.eventId P = eventIdOf P key idempotencyKey := by
  rw [Post.eventId, h.1, h.2]

/-- two different jobs with one hash -/
def Collide (P : Platform) (job job' : Job) : Prop := job ≠ job' ∧ fingerprintOf P job = fingerprintOf P job'

/-- what the intake promises for one key of a workspace -/
structure Idempotent (P : Platform) (d : Database) (S : System Database Post Query Answer Response)
    (key idempotencyKey : Units) : Prop where
  /-- the run writes at most one message -/
  once : (S.shared.enqueued.filter fun m => m.eventId = eventIdOf P key idempotencyKey).length ≤ 1
  /-- also together with the messages there were, if each had its receipt -/
  ever : (∀ m ∈ d.messages, m.eventId = eventIdOf P key idempotencyKey → ∃ r ∈ d.receipts, r.eventId = m.eventId) →
    ((d.messages ++ S.shared.enqueued).filter fun m => m.eventId = eventIdOf P key idempotencyKey).length ≤ 1
  /-- two posts answered 202 are answered alike, and asked for one job -/
  answers : ∀ a b runId acceptedAt runId' acceptedAt', (a, .done (.accepted runId acceptedAt)) ∈ S.calls →
    (b, .done (.accepted runId' acceptedAt')) ∈ S.calls → a.Carries key idempotencyKey → b.Carries key idempotencyKey →
    runId = runId' ∧ acceptedAt = acceptedAt' ∧
      ∃ job job', a.job = some job ∧ b.job = some job' ∧ (job = job' ∨ Collide P job job')
  /-- a post answered 202 is answered with the run and asked for the job of the message -/
  message : ∀ a runId acceptedAt, (a, .done (.accepted runId acceptedAt)) ∈ S.calls → a.Carries key idempotencyKey →
    ∀ m ∈ S.shared.enqueued, m.eventId = eventIdOf P key idempotencyKey → ∃ job job' identity,
      a.job = some job ∧ (job = job' ∨ Collide P job job') ∧
        m.payload = some (envelope runId acceptedAt (fingerprintOf P job') job' identity)

theorem same_or_collide {P : Platform} {job job' : Job} (h : fingerprintOf P job = fingerprintOf P job') :
    job = job' ∨ Collide P job job' :=
  (em (job = job')).imp_right fun hne => ⟨hne, h⟩

theorem length_filter_le_one {α β : Type} [DecidableEq β] {f : α → β} {l : List α} (h : l.Pairwise fun x y => f x ≠ f y)
    (b : β) : (l.filter fun x => f x = b).length ≤ 1 := by
  induction l with
  | nil => simp
  | cons x l ih =>
    obtain ⟨hx, hl⟩ := List.pairwise_cons.1 h
    by_cases hb : f x = b
    · have hnone : l.filter (fun y => f y = b) = [] :=
        List.filter_eq_nil_iff.2 fun y hy => by simpa using fun heq => hx y hy (hb.trans heq.symm)
      simp [hb, hnone]
    · simpa [hb] using ih hl

theorem run_evolves {P : Platform} {d : Database} {tr S} (h : Run P d tr S) : Evolves P d S.shared :=
  (System.run_within (runs_of_ends (post_answered P)) h).1

theorem run_answered {P : Platform} {d : Database} {tr S} (h : Run P d tr S) {a : Post} {response : Response}
    (hdone : (a, .done response) ∈ S.calls) : Answered P a response S.shared :=
  System.run_meets (runs_of_ends (post_answered P)) h hdone

/-- **Posts beside others.** Whatever runs beside it, a post answers what `Worker.createManualJob` answers by itself on what
its statements found. -/
theorem run_seen {P : Platform} {d : Database} {tr S} (h : Run P d tr S) {a : Post} {response : Response}
    (hdone : (a, .done response) ∈ S.calls) : Seen P a response S.shared :=
  System.run_meets (runs_of_ends (post_views P)) h hdone

/-- receipts of one event are one receipt -/
theorem Receipted.receipt_eq {P : Platform} {d : Database} (h : Receipted P d) {r r' : Receipt} (hr : r ∈ d.receipts)
    (hr' : r' ∈ d.receipts) (heq : r.eventId = r'.eventId) : r = r' :=
  h.receipts.eq (by simp [receiptColumns]) hr hr' heq

/-- the messages of an event, before a run and written in it -/
theorem run_ever {P : Platform} {d : Database} {tr S} (h0 : d.Start) (h : Run P d tr S) {eventId : Units}
    (hreceipt : ∀ m ∈ d.messages, m.eventId = eventId → ∃ r ∈ d.receipts, r.eventId = m.eventId) :
    ((d.messages ++ S.shared.enqueued).filter fun m => m.eventId = eventId).length ≤ 1 := by
  have hcolumn : Message.eventId ∈ messageColumns := by simp [messageColumns]
  rw [List.filter_append, List.length_append]
  by_cases hold : ∃ m ∈ d.messages, m.eventId = eventId
  · obtain ⟨m, hm, hevent⟩ := hold
    obtain ⟨r, hr, hrevent⟩ := hreceipt m hm hevent
    have hnone : S.shared.enqueued.filter (fun m => m.eventId = eventId) = [] := by
      refine List.filter_eq_nil_iff.2 fun n hn heq => ?_
      rcases (run_evolves (P := P) h).news n hn with hn | hn
      · simp [h0.enqueued] at hn
      · exact hn r hr (by rw [hrevent, hevent, of_decide_eq_true heq])
    rw [hnone, List.length_nil, Nat.add_zero]
    exact length_filter_le_one (h0.messages _ hcolumn) eventId
  · have hnone : d.messages.filter (fun m => m.eventId = eventId) = [] :=
      List.filter_eq_nil_iff.2 fun m hm heq => hold ⟨m, hm, of_decide_eq_true heq⟩
    rw [hnone, List.length_nil, Nat.zero_add]
    exact length_filter_le_one ((run_evolves h).receipted h0.receipted).once eventId

/-- **One key, one message, one answer.** However the statements of posts, acknowledgements and publications interleave,
a key gets at most one message, its posts answered 202 are answered alike, and they asked for the job of the message. -/
theorem intake_idempotent (P : Platform) {d : Database} {tr S} (h0 : d.Start) (h : Run P d tr S)
    (key idempotencyKey : Units) : Idempotent P d S key idempotencyKey := by
  have hreceipted := (run_evolves h).receipted h0.receipted
  refine ⟨length_filter_le_one hreceipted.once _, run_ever h0 h, ?_, ?_⟩
  · intro a b runId acceptedAt runId' acceptedAt' ha hb hakey hbkey
    obtain ⟨r, hr, job, hjob, hrevent, hrun, hat, hf⟩ := run_answered h ha _ _ rfl
    obtain ⟨r', hr', job', hjob', hrevent', hrun', hat', hf'⟩ := run_answered h hb _ _ rfl
    obtain rfl : r = r' := hreceipted.receipt_eq hr hr' (by rw [hrevent, hrevent', hakey.eventId, hbkey.eventId])
    exact ⟨hrun.symm.trans hrun', hat.symm.trans hat', job, job', hjob, hjob', same_or_collide (hf.symm.trans hf')⟩
  · intro a runId acceptedAt ha hakey m hm hmevent
    obtain ⟨r, hr, job, hjob, hrevent, hrun, hat, hf⟩ := run_answered h ha _ _ rfl
    obtain ⟨r', hr', hwevent, job', identity, hf', hpayload⟩ := hreceipted.written m hm
    obtain rfl : r = r' := hreceipted.receipt_eq hr hr' (by rw [hrevent, hakey.eventId, hwevent, hmevent])
    refine ⟨job, job', identity, hjob, same_or_collide (hf.symm.trans hf'), ?_⟩
    rw [hpayload, hrun, hat, hf']

/-! ### Three posts with one key -/

def samplePrinted (title : String) : Units :=
  encode ("\x7b\"title\":\"" ++ title ++ "\",\"goal\":\"All tests pass\",\"source_run_id\":null,\"second_wind\":null\x7d")

/-- the digests of the two jobs below, and of their event -/
def samplePlatform : Platform where
  stringify v :=
    if trimmedText (prop v "title") = encode "Fix the login page" then samplePrinted "Fix the login page"
    else samplePrinted "Fix the search page"
  toText _ := []
  sha256Hex s :=
    if s = samplePrinted "Fix the login page" then
      encode "8c0ea3150080aff65723e99f07342d889fa9c368a9c62ae9e06fd74b1948b4a9"
    else if s = samplePrinted "Fix the search page" then
      encode "e3e7a8bae9e768e425c70c746b1c518a7b3dea8654bdeebdfaf684e6771347ab"
    else encode "ce355a15d4b1cd13f4ba3528b513845a2cb8949b47d52c76947085a96acd2969"
  hmacHex _ _ := encode "c4d35d4aeeb44d970b05905271fe2b60dde00491160f73242e5935ade95e33fa"

/-- a post of this job, whose random ids end in this digit -/
def samplePost (title digit : String) : Post where
  draw := ⟨encode "2026-03-01T09:30:00.000Z", encode ("6f1c2d3e-4a5b-4c6d-8e7f-9a0b1c2d3e4" ++ digit),
    encode ("0a1b2c3d-4e5f-4a6b-8c7d-9e0f1a2b3c4" ++ digit)⟩
  request := ⟨"application/json", encode "dashboard-key-0001",
    .json (.obj [(encode "title", .str (encode title)), (encode "goal", .str (encode "All tests pass"))])⟩
  workspace := ⟨encode "c4d35d4aeeb44d970b05905271fe2b60dde00491160f73242e5935ade95e33fa",
    ⟨some (encode "user-1"), some (encode "ann@example.com"), encode "team-1"⟩⟩

/-- two posts of one job race, then one of another job comes -/
def sampleMoves : List (Turn Post Write) :=
  [.call (samplePost "Fix the login page" "1"), .call (samplePost "Fix the login page" "2"), .act 0 .done, .act 1 .done,
    .act 0 .done, .act 1 .done, .act 0 .done, .act 1 .done, .act 1 .done,
    .call (samplePost "Fix the search page" "3"), .act 2 .done]

def sampleEnd : Option (System Database Post Query Answer Response) :=
  System.drive exec Call.always (createManualJob samplePlatform) ⟨⟨[], [], [], [], []⟩, []⟩ sampleMoves

theorem intake_idempotent_sample : ∃ tr S, Run samplePlatform ⟨[], [], [], [], []⟩ tr S ∧ sampleEnd = some S ∧
    S.calls.map (fun c => c.2.result) =
      [some (.accepted (encode "r-20260301-6f1c2d3e-4a5b-4c6d-8e7f-9a0b1c2d3e41") (encode "2026-03-01T09:30:00.000Z")),
        some (.accepted (encode "r-20260301-6f1c2d3e-4a5b-4c6d-8e7f-9a0b1c2d3e41") (encode "2026-03-01T09:30:00.000Z")),
        some reused] ∧
    Idempotent samplePlatform ⟨[], [], [], [], []⟩ S
      (encode "c4d35d4aeeb44d970b05905271fe2b60dde00491160f73242e5935ade95e33fa") (encode "dashboard-key-0001") := by
  have hend : sampleEnd.map (fun S => S.calls.map fun c => c.2.result) = some
      [some (.accepted (encode "r-20260301-6f1c2d3e-4a5b-4c6d-8e7f-9a0b1c2d3e41") (encode "2026-03-01T09:30:00.000Z")),
        some (.accepted (encode "r-20260301-6f1c2d3e-4a5b-4c6d-8e7f-9a0b1c2d3e41") (encode "2026-03-01T09:30:00.000Z")),
        some reused] := by decide +kernel
  obtain ⟨S, hS, hcalls⟩ := Option.map_eq_some_iff.1 hend
  obtain ⟨tr, h⟩ := System.drive_trace hS
  exact ⟨tr, S, h, hS, hcalls, intake_idempotent samplePlatform ⟨by decide, by decide, rfl⟩ h _ _⟩

end Rally.Worker.Intake
