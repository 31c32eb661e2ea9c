/-
Run deliverables (`src/worker/index.js`): the runner publishes a run record that lists artifacts (`PUT` of a console run),
uploads their bytes (`publishConsoleArtifact`), and a member of the run's workspace downloads them
(`serveWorkspaceArtifact`). Records are in the database, bytes in an object store.

- Calls run together, one statement or object operation at a time. Each of these may fail, a write also after its effect;
  what the object store reports of a write is open.
- `served_intact`: what a download hands out was uploaded for its workspace, run and filename, with the size and checksum of
  the record it read.
- `served_after_move`: by then the run may belong to another workspace.
-/
import Rally.Core.Calls
import Rally.Worker.Console

namespace Rally.Worker.Artifacts

open Wire Rally.Ingress

/-! ## Storage -/

structure Metadata where
  workspaceKey : Units
  runId : Units
  filename : Units
  label : Units
  kind : Units
  sha256 : Units
deriving DecidableEq

/-- what an upload writes -/
structure Content where
  bytes : List UInt8
  contentType : Units
  metadata : Metadata
deriving DecidableEq

/-- a stored object, with the checksum the store keeps of its own, if any -/
structure Object where
  content : Content
  checksum : Option Units
deriving DecidableEq

/-- a row of `console_runs`; the payload is `none` where it is not JSON -/
structure Row where
  workspaceKey : Units
  payload : Option ConsoleRun
deriving DecidableEq

/-- the rows by run, and the objects by key -/
structure Storage where
  rows : Units → Option Row
  objects : Units → Option Object

/-- what the deployment adds: hashes, numbers, and its settings -/
structure Deployment where
  platform : Platform
  toNumber : JsValue → Option ℚ
  /-- `sha256HexBytes` -/
  hash : List UInt8 → Units
  pollToken : Units
  /-- `WORKSPACE_KEY_SECRET` -/
  secret : Units
  /-- `ARTIFACTS` is bound -/
  storage : Bool

inductive Query where
  | row (runId : Units)
  /-- the row of a run, where it belongs to this workspace -/
  | rowOf (runId workspaceKey : Units)
  | upsert (runId : Units) (row : Row)
  | head (key : Units)
  | get (key : Units)
  | put (key : Units) (content : Content)
  | delete (key : Units)

/-- what an operation answers; `none` where it throws -/
def Answer : Query → Type
  | .row _ => Option (Option Row)
  | .rowOf _ _ => Option (Option Row)
  | .upsert _ _ => Bool
  | .head _ => Option (Option Object)
  | .get _ => Option (Option Object)
  -- the size and checksum that the store reports
  | .put _ _ => Option (Option (ℕ × Option Units))
  | .delete _ => Unit

/-- what becomes of an operation, and what the store makes of a write -/
structure Input where
  fate : Write
  checksum : Option Units
  report : Option (ℕ × Option Units)

/-- the answer of an operation that may throw -/
def answered {α : Type} (fate : Write) (a : α) : Option α := if fate = .done then some a else none

theorem answered_some {α : Type} {fate : Write} {a b : α} (h : answered fate a = some b) : a = b := by
  unfold answered at h
  split_ifs at h
  exact Option.some.inj h

def exec : (q : Query) → Input → Storage → Storage × Answer q
  | .row runId, i, s => (s, answered i.fate (s.rows runId))
  | .rowOf runId key, i, s =>
    (s, answered i.fate ((s.rows runId).filter fun r => r.workspaceKey = key))
  | .upsert runId row, i, s =>
    (if i.fate = .lost then s else { s with rows := Function.update s.rows runId (some row) }, decide (i.fate = .done))
  | .head key, i, s => (s, answered i.fate (s.objects key))
  | .get key, i, s => (s, answered i.fate (s.objects key))
  | .put key content, i, s =>
    (if i.fate = .lost then s
      else { s with objects := Function.update s.objects key (some ⟨content, i.checksum⟩) }, answered i.fate i.report)
  | .delete key, i, s =>
    (if i.fate = .lost then s else { s with objects := Function.update s.objects key none }, ())

/-! ## Requests -/

/-- `PUT /v1/console/runs/:id` -/
structure Publish where
  runId : Units
  bearer : Units
  body : Body

/-- `PUT /v1/console/artifacts/:id/:name`; a header that is absent is empty -/
structure Upload where
  runId : Units
  filename : Units
  search : Bool
  bearer : Units
  contentType : Units
  sha256 : Units
  kind : Units
  label : Units
  contentLength : Units
  body : Option (List UInt8)

/-- `GET /v1/workspace/artifacts/:id/:name` -/
structure Serve where
  runId : Units
  filename : Units
  search : Bool
  hasCredentials : Bool
  upstream : Upstream

inductive Request where
  | publish (r : Publish)
  | upload (r : Upload)
  | serve (r : Serve)

inductive Response where
  | refused (status : ℕ) (detail : String)
  | unauthenticated (status : ℕ)
  | published (runId updatedAt : Units)
  | created (runId : Units) (artifact : Artifact)
  | file (artifact : Artifact) (bytes : List UInt8)
deriving DecidableEq

/-- `artifactObjectKey` -/
def artifactObjectKey (workspaceKey runId filename : Units) : Units :=
  workspaceKey ++ encode "/" ++ runId ++ encode "/" ++ filename

/-- `artifactForFilename`, in any status -/
def artifactForFilename (run : ConsoleRun) (filename : Units) : Option Artifact :=
  run.artifacts.find? fun a => a.filename = filename

/-- `artifactForFilename`, for an artifact that is ready -/
def readyForFilename (run : ConsoleRun) (filename : Units) : Option Artifact :=
  run.artifacts.find? fun a => a.filename = filename ∧ a.status = .ready

theorem artifactForFilename_some {run : ConsoleRun} {filename : Units} {a : Artifact}
    (h : artifactForFilename run filename = some a) : a ∈ run.artifacts ∧ a.filename = filename := by
  unfold artifactForFilename at h
  exact ⟨List.mem_of_find?_eq_some h, by simpa using List.find?_some h⟩

theorem readyForFilename_some {run : ConsoleRun} {filename : Units} {a : Artifact}
    (h : readyForFilename run filename = some a) : a ∈ run.artifacts ∧ a.filename = filename ∧ a.status = .ready := by
  unfold readyForFilename at h
  exact ⟨List.mem_of_find?_eq_some h, by simpa using List.find?_some h⟩

/-- a checksum that is not there, or is this one -/
def checksumAgrees (checksum : Option Units) (sha256 : Units) : Bool :=
  checksum.getD [] = [] || checksum.getD [] = sha256

/-- a stored object is the one an artifact stands for -/
def Verified (workspaceKey runId : Units) (a : Artifact) (o : Object) : Prop :=
  o.content.bytes.length = a.sizeBytes ∧ o.content.contentType = a.mimeType ∧
    o.content.metadata.workspaceKey = workspaceKey ∧ o.content.metadata.runId = runId ∧
    o.content.metadata.filename = a.filename ∧ o.content.metadata.sha256 = a.sha256 ∧
    checksumAgrees o.checksum a.sha256

instance (workspaceKey runId : Units) (a : Artifact) (o : Object) : Decidable (Verified workspaceKey runId a o) := by
  unfold Verified
  infer_instance

section Calls

variable (D : Deployment)

/-! ## Publishing a record -/

/-- the objects of these artifacts are there, one looked up after the other -/
def headsVerified (workspaceKey runId : Units) : List Artifact → Call Query Answer (Option Bool)
  | [] => .done (some true)
  | a :: rest =>
    .ask (.head (artifactObjectKey workspaceKey runId a.filename)) fun
      | none => .done none
      | some none => .done (some false)
      | some (some o) =>
        if Verified workspaceKey runId a o then headsVerified workspaceKey runId rest else .done (some false)

/-- `readyArtifactsAreStored`, `none` where it throws -/
def readyArtifactsAreStored (workspaceKey runId : Units) (artifacts : List Artifact) : Call Query Answer (Option Bool) :=
  let ready := artifacts.filter fun a => a.status = .ready
  if ready = [] then .done (some true)
  else if !D.storage then .done none
  else headsVerified workspaceKey runId ready

/-- the row of a record, without its workspace -/
def projection (workspaceKey : Units) (run : ConsoleRun) : Row :=
  ⟨workspaceKey, some { run with workspaceId := [] }⟩

def publishConsoleRun (r : Publish) : Call Query Answer Response :=
  if !isRunId (unitChars r.runId) then .done (.refused 404 "not found")
  else if r.bearer ≠ D.pollToken then .done (.refused 401 "unauthorized")
  else
    match r.body with
    | .tooLarge => .done (.refused 413 "too large")
    | .notJson message => .done (.refused 400 message)
    | .json body =>
      match normalizeConsoleRun D.toNumber body r.runId with
      | .error message => .done (.refused 400 message)
      | .ok run =>
        match workspaceKey D.platform run.workspaceId D.secret with
        | none => .done (.refused 503 "workspace projection is unavailable")
        | some key =>
          (readyArtifactsAreStored D key r.runId run.artifacts).bind fun
            | none => .done (.refused 503 "artifact readiness check unavailable")
            | some false => .done (.refused 409 "ready artifact is not present in verified storage")
            | some true =>
              .ask (.upsert r.runId (projection key run)) fun
                | false => .done (.refused 503 "console write unavailable")
                | true => .done (.published r.runId run.updatedAt)

/-! ## Uploading -/

/-- `/^\d{1,8}$/` and its number -/
def contentLength (s : Units) : Option ℕ :=
  if 1 ≤ s.length ∧ s.length ≤ 8 ∧ (unitChars s).all Char.isDigit then
    some ((unitChars s).foldl (fun n c => 10 * n + (c.toNat - '0'.toNat)) 0)
  else none

/-- `boundedBytes` -/
def boundedBytes (declared : Units) (body : Option (List UInt8)) : Option (List UInt8) :=
  match contentLength declared, body with
  | some expected, some bytes =>
    if 1 ≤ expected ∧ expected ≤ maxArtifactBody ∧ bytes.length = expected then some bytes else none
  | _, _ => none

/-- a header in lower case -/
def lowerHeader (s : Units) : Units := encode (String.ofList (lowerText (some (.str s))))

/-- the headers of an upload are those of the artifact -/
def headersAgree (r : Upload) (a : Artifact) : Bool :=
  lowerHeader r.contentType = a.mimeType && lowerHeader r.sha256 = a.sha256 && lowerHeader r.kind = a.kind &&
    trim r.label = a.label && contentLength r.contentLength = some a.sizeBytes

/-- what an upload stores -/
def contentOf (workspaceKey : Units) (r : Upload) (a : Artifact) (bytes : List UInt8) : Content :=
  ⟨bytes, a.mimeType, ⟨workspaceKey, r.runId, a.filename, a.label, a.kind, a.sha256⟩⟩

/-- the write of an upload, taken back where the store reports something else -/
def storeArtifact (workspaceKey : Units) (r : Upload) (a : Artifact) (bytes : List UInt8) : Call Query Answer Response :=
  .ask (.put (artifactObjectKey workspaceKey r.runId r.filename) (contentOf workspaceKey r a bytes)) fun
    | none => .done (.refused 503 "artifact storage unavailable")
    | some report =>
      if report.any fun o => o.1 = a.sizeBytes && checksumAgrees o.2 a.sha256 then .done (.created r.runId a)
      else
        .ask (.delete (artifactObjectKey workspaceKey r.runId r.filename)) fun _ =>
          .done (.refused 503 "artifact storage verification failed")

/-- the checks of an upload, made against the record of its run -/
def checkUpload (r : Upload) (a : Artifact) : Except Response (List UInt8) :=
  if a.status ≠ .staged then .error (.refused 409 "artifact is not staged for upload")
  else if !headersAgree r a then .error (.refused 409 "artifact metadata does not match the run projection")
  else if maxArtifactBody < a.sizeBytes then .error (.refused 413 "artifact is too large")
  else
    match boundedBytes r.contentLength r.body with
    | none => .error (.refused 400 "artifact body length is invalid")
    | some bytes =>
      if D.hash bytes ≠ a.sha256 then .error (.refused 422 "artifact checksum verification failed") else .ok bytes

/-- `publishConsoleArtifact` -/
def publishConsoleArtifact (r : Upload) : Call Query Answer Response :=
  if r.search then .done (.refused 400 "artifact route does not accept a query")
  else if r.bearer ≠ D.pollToken then .done (.refused 401 "unauthorized")
  else if !D.storage then .done (.refused 503 "artifact storage unavailable")
  else
    .ask (.row r.runId) fun
      | none => .done (.refused 503 "artifact publication unavailable")
      | some none => .done (.refused 404 "run projection not found")
      | some (some row) =>
        match row.payload with
        | none => .done (.refused 503 "run projection is invalid")
        | some run =>
          match artifactForFilename run r.filename with
          | none => .done (.refused 404 "artifact is not declared by this run")
          | some a =>
            match checkUpload D r a with
            | .error response => .done response
            | .ok bytes => storeArtifact row.workspaceKey r a bytes

/-! ## Downloading -/

/-- `serveWorkspaceArtifact` -/
def serveWorkspaceArtifact (r : Serve) : Call Query Answer Response :=
  if r.search then .done (.refused 400 "artifact route does not accept a query")
  else
    match authenticatedWorkspace D.platform r.hasCredentials r.upstream D.secret with
    | .error status => .done (.unauthenticated status)
    | .ok workspace =>
      if !D.storage then .done (.refused 503 "artifact storage is temporarily unavailable")
      else
        .ask (.rowOf r.runId workspace.key) fun
          | none => .done (.refused 503 "artifact is temporarily unavailable")
          | some none => .done (.refused 404 "artifact not found")
          | some (some row) =>
            match row.payload with
            | none => .done (.refused 503 "artifact is temporarily unavailable")
            | some run =>
              match readyForFilename run r.filename with
              | none => .done (.refused 404 "artifact not found")
              | some a =>
                .ask (.get (artifactObjectKey workspace.key r.runId r.filename)) fun
                  | some (some o) =>
                    if Verified workspace.key r.runId a o then .done (.file a o.content.bytes)
                    else .done (.refused 503 "artifact is temporarily unavailable")
                  | _ => .done (.refused 503 "artifact is temporarily unavailable")

/-- the call of a request -/
def handle : Request → Call Query Answer Response
  | .publish r => publishConsoleRun D r
  | .upload r => publishConsoleArtifact D r
  | .serve r => serveWorkspaceArtifact D r

/-! ## What calls do -/

variable {D} {ss : List Storage} {c : Call Query Answer Response}

/-- only uploads write objects -/
def IsPut : Query → Prop
  | .put _ _ => True
  | _ => False

theorem heads_asks (key runId : Units) (artifacts : List Artifact) :
    (headsVerified key runId artifacts).Asks fun q => ¬ IsPut q := by
  induction artifacts with
  | nil => exact Call.asks_done
  | cons a rest ih =>
    refine Call.asks_ask.2 ⟨id, fun
      | none => Call.asks_done
      | some none => Call.asks_done
      | some (some o) => ?_⟩
    dsimp only
    by_cases h : Verified key runId a o
    · rw [if_pos h]; exact ih
    · rw [if_neg h]; exact Call.asks_done

theorem ready_asks (key runId : Units) (artifacts : List Artifact) :
    (readyArtifactsAreStored D key runId artifacts).Asks fun q => ¬ IsPut q := by
  unfold readyArtifactsAreStored
  dsimp only
  by_cases hready : (artifacts.filter fun a => a.status = .ready) = []
  · rw [if_pos hready]; exact Call.asks_done
  rw [if_neg hready]
  by_cases hstorage : (!D.storage) = true
  · rw [if_pos hstorage]; exact Call.asks_done
  · rw [if_neg hstorage]; exact heads_asks key runId _

theorem publish_asks (r : Publish) : (publishConsoleRun D r).Asks fun q => ¬ IsPut q := by
  unfold publishConsoleRun
  by_cases hroute : (!isRunId (unitChars r.runId)) = true
  · rw [if_pos hroute]; exact Call.asks_done
  by_cases hbearer : r.bearer ≠ D.pollToken
  · rw [if_neg hroute, if_pos hbearer]; exact Call.asks_done
  rw [if_neg hroute, if_neg hbearer]
  cases r.body with
  | tooLarge => exact Call.asks_done
  | notJson message => exact Call.asks_done
  | json body =>
    dsimp only
    cases normalizeConsoleRun D.toNumber body r.runId with
    | error message => exact Call.asks_done
    | ok run =>
      dsimp only
      cases workspaceKey D.platform run.workspaceId D.secret with
      | none => exact Call.asks_done
      | some key =>
        exact Call.asks_bind (ready_asks key r.runId run.artifacts) fun
          | none => Call.asks_done
          | some false => Call.asks_done
          | some true => Call.asks_ask.2 ⟨id, fun
            | false => Call.asks_done
            | true => Call.asks_done⟩

theorem serve_asks (r : Serve) : (serveWorkspaceArtifact D r).Asks fun q => ¬ IsPut q := by
  unfold serveWorkspaceArtifact
  by_cases hsearch : r.search = true
  · rw [if_pos hsearch]; exact Call.asks_done
  rw [if_neg hsearch]
  cases authenticatedWorkspace D.platform r.hasCredentials r.upstream D.secret with
  | error status => exact Call.asks_done
  | ok w =>
    dsimp only
    by_cases hstorage : (!D.storage) = true
    · rw [if_pos hstorage]; exact Call.asks_done
    rw [if_neg hstorage]
    refine Call.asks_ask.2 ⟨id, fun
      | none => Call.asks_done
      | some none => Call.asks_done
      | some (some row) => ?_⟩
    dsimp only
    cases row.payload with
    | none => exact Call.asks_done
    | some run =>
      dsimp only
      cases readyForFilename run r.filename with
      | none => exact Call.asks_done
      | some a =>
        refine Call.asks_ask.2 ⟨id, fun
          | none => Call.asks_done
          | some none => Call.asks_done
          | some (some o) => ?_⟩
        dsimp only
        by_cases hverified : Verified w.key r.runId a o
        · rw [if_pos hverified]; exact Call.asks_done
        · rw [if_neg hverified]; exact Call.asks_done

/-- what reads answer -/
theorem exec_row {i : Input} {s : Storage} {runId : Units} {row : Row} (h : (exec (.row runId) i s).2 = some (some row)) :
    s.rows runId = some row := answered_some h

theorem exec_rowOf {i : Input} {s : Storage} {runId key : Units} {row : Row}
    (h : (exec (.rowOf runId key) i s).2 = some (some row)) : s.rows runId = some row ∧ row.workspaceKey = key := by
  obtain ⟨hrow, hkey⟩ := Option.filter_eq_some_iff.1 (answered_some h)
  exact ⟨hrow, of_decide_eq_true hkey⟩

theorem exec_get {i : Input} {s : Storage} {key : Units} {o : Object} (h : (exec (.get key) i s).2 = some (some o)) :
    s.objects key = some o := answered_some h

/-- what an upload is checked for -/
theorem checkUpload_ok {r : Upload} {a : Artifact} {bytes : List UInt8} (h : checkUpload D r a = .ok bytes) :
    a.status = .staged ∧ r.body = some bytes ∧ bytes.length = a.sizeBytes ∧ D.hash bytes = a.sha256 := by
  unfold checkUpload at h
  split at h
  · cases h
  rename_i hstatus
  split at h
  · cases h
  rename_i hheaders
  split at h
  · cases h
  split at h
  · cases h
  rename_i bytes' hbytes
  split at h
  · cases h
  rename_i hhash
  cases h
  simp only [headersAgree, Bool.not_eq_true', Bool.not_eq_false, Bool.and_eq_true, decide_eq_true_eq] at hheaders
  unfold boundedBytes at hbytes
  split at hbytes
  · rename_i expected bytes' hexpected hbody
    split at hbytes
    · rename_i hlength
      cases hbytes
      have hsame := Option.some.inj (hexpected.symm.trans hheaders.2)
      exact ⟨not_not.1 hstatus, hbody, hlength.2.2.trans hsame, not_not.1 hhash⟩
    · cases hbytes
  · cases hbytes

/-- after its write, an upload writes no other object -/
theorem store_path {w : Units} {r : Upload} {a : Artifact} {bytes : List UInt8} {key : Units} {content : Content}
    {k : Answer (.put key content) → Call Query Answer Response}
    (h : (storeArtifact w r a bytes).Path exec ss (.ask (.put key content) k)) : content = contentOf w r a bytes := by
  unfold storeArtifact at h
  rw [Call.path_ask] at h
  obtain ⟨-, heq⟩ | ⟨s, rest, i, -, h⟩ := h
  · cases heq
    rfl
  split at h
  · cases (Call.path_done.1 h).2
  split_ifs at h
  · cases (Call.path_done.1 h).2
  rw [Call.path_ask] at h
  obtain ⟨-, heq⟩ | ⟨s', rest', i', -, h⟩ := h
  · cases heq
  · cases (Call.path_done.1 h).2

/-- the way of an upload to its write: the record it read, and the checks it passed -/
theorem upload_path {r : Upload} {key : Units} {content : Content} {k : Answer (.put key content) → Call Query Answer Response}
    (h : (publishConsoleArtifact D r).Path exec ss (.ask (.put key content) k)) :
    ∃ s ∈ ss, ∃ row run a bytes, s.rows r.runId = some row ∧ row.payload = some run ∧
      artifactForFilename run r.filename = some a ∧ checkUpload D r a = .ok bytes ∧
      content = contentOf row.workspaceKey r a bytes := by
  unfold publishConsoleArtifact at h
  split_ifs at h with hsearch hbearer hstorage
  · cases (Call.path_done.1 h).2
  · cases (Call.path_done.1 h).2
  · cases (Call.path_done.1 h).2
  rw [Call.path_ask] at h
  obtain ⟨-, heq⟩ | ⟨s, rest, i, rfl, h⟩ := h
  · cases heq
  split at h
  · cases (Call.path_done.1 h).2
  · cases (Call.path_done.1 h).2
  rename_i row hrow
  split at h
  · cases (Call.path_done.1 h).2
  rename_i run hrun
  split at h
  · cases (Call.path_done.1 h).2
  rename_i a ha
  split at h
  · cases (Call.path_done.1 h).2
  rename_i bytes hbytes
  exact ⟨s, List.mem_cons_self, row, run, a, bytes, exec_row hrow, hrun, ha, hbytes, store_path h⟩

/-- the way of a download to its file: the record it read, and the object it found -/
theorem serve_path {r : Serve} {a : Artifact} {bytes : List UInt8}
    (h : (serveWorkspaceArtifact D r).Path exec ss (.done (.file a bytes))) :
    ∃ w, authenticatedWorkspace D.platform r.hasCredentials r.upstream D.secret = .ok w ∧ ∃ s s', ss = [s, s'] ∧
      ∃ row run o, s.rows r.runId = some row ∧ row.workspaceKey = w.key ∧ row.payload = some run ∧
        readyForFilename run r.filename = some a ∧
        s'.objects (artifactObjectKey w.key r.runId r.filename) = some o ∧ Verified w.key r.runId a o ∧
        bytes = o.content.bytes := by
  unfold serveWorkspaceArtifact at h
  split at h
  · cases (Call.path_done.1 h).2
  split at h
  · cases (Call.path_done.1 h).2
  rename_i w hw
  split at h
  · cases (Call.path_done.1 h).2
  rw [Call.path_ask] at h
  obtain ⟨-, heq⟩ | ⟨s, rest, i, rfl, h⟩ := h
  · cases heq
  split at h
  · cases (Call.path_done.1 h).2
  · cases (Call.path_done.1 h).2
  rename_i row hrow
  split at h
  · cases (Call.path_done.1 h).2
  rename_i run hrun
  split at h
  · cases (Call.path_done.1 h).2
  rename_i a' ha
  rw [Call.path_ask] at h
  obtain ⟨-, heq⟩ | ⟨s', rest', i', rfl, h⟩ := h
  · cases heq
  split at h
  · rename_i o ho
    split_ifs at h with hverified
    · obtain ⟨rfl, hfile⟩ := Call.path_done.1 h
      cases hfile
      obtain ⟨hrow, hkey⟩ := exec_rowOf hrow
      exact ⟨w, hw, s, s', rfl, row, run, o, hrow, hkey, hrun, ha, exec_get ho, hverified, rfl⟩
    · cases (Call.path_done.1 h).2
  · cases (Call.path_done.1 h).2

/-- an operation writes no object but that of a `put` -/
theorem exec_objects {q : Query} {i : Input} {s : Storage} {key : Units} {o : Object}
    (h : (exec q i s).1.objects key = some o) : s.objects key = some o ∨ q = .put key o.content := by
  cases q with
  | row runId => exact .inl h
  | rowOf runId key' => exact .inl h
  | head key' => exact .inl h
  | get key' => exact .inl h
  | upsert runId row =>
    simp only [exec] at h
    split_ifs at h <;> exact .inl h
  | put key' content =>
    simp only [exec] at h
    split_ifs at h
    · exact .inl h
    dsimp only at h
    by_cases hkey : key = key'
    · subst hkey
      rw [Function.update_self] at h
      cases h
      exact .inr rfl
    · rw [Function.update_of_ne hkey] at h
      exact .inl h
  | delete key' =>
    simp only [exec] at h
    split_ifs at h
    · exact .inl h
    dsimp only at h
    by_cases hkey : key = key'
    · subst hkey
      rw [Function.update_self] at h
      cases h
    · rw [Function.update_of_ne hkey] at h
      exact .inl h

end Calls

/-! ## Runs -/

/-- calls, and nothing else -/
abbrev Run (D : Deployment) (s₀ : Storage) :=
  Trace (System.Step exec Call.always (handle D) fun _ _ => False)
    (⟨s₀, []⟩ : System Storage Request Query Answer Response)

/-- a record lists this artifact for this workspace -/
structure Lists (row : Option Row) (workspaceKey filename : Units) (status : ArtifactStatus) (a : Artifact) : Prop where
  listed : ∃ r run, row = some r ∧ r.workspaceKey = workspaceKey ∧ r.payload = some run ∧ a ∈ run.artifacts
  filename : a.filename = filename
  status : a.status = status

section Runs

variable {D : Deployment} {s₀ : Storage} {S : System Storage Request Query Answer Response} {n : ℕ}
  {tr : List (Entry (System Storage Request Query Answer Response) (Turn Request Input))}

/-- each object was written in the run -/
theorem objects_written (h : Run D s₀ tr S) (h0 : ∀ key, s₀.objects key = none) {key : Units} {o : Object}
    (ho : S.shared.objects key = some o) :
    ∃ e ∈ tr, ∃ n i a k, e.act = .act n i ∧ e.before.calls[n]? = some (a, .ask (.put key o.content) k) := by
  induction h with
  | nil => rw [h0] at ho; cases ho
  | snoc hrun hnext ih =>
    rename_i tr S T m
    have hearlier : S.shared.objects key = some o → ∃ e ∈ tr ++ [⟨S, m, T⟩], ∃ n i a k, e.act = .act n i ∧
        e.before.calls[n]? = some (a, .ask (.put key o.content) k) := by
      intro hs
      obtain ⟨e, he, hput⟩ := ih hs
      exact ⟨e, List.mem_append_left _ he, hput⟩
    cases hnext with
    | call a => exact hearlier ho
    | act i hn _ =>
      rcases exec_objects ho with hs | rfl
      · exact hearlier hs
      · exact ⟨_, List.mem_append_right _ List.mem_cons_self, _, i, _, _, rfl, hn⟩
    | other hhappens => exact hhappens.elim

/-- the file was uploaded for this workspace, run and filename, while the record listed it, yet to come, as it is -/
structure Uploaded (tr : List (Entry (System Storage Request Query Answer Response) (Turn Request Input)))
    (workspaceKey runId filename : Units) (a : Artifact) (bytes : List UInt8) : Prop where
  written : ∃ e ∈ tr, ∃ m i u content k, e.act = .act m i ∧
    e.before.calls[m]? =
      some (.upload u, .ask (.put (artifactObjectKey workspaceKey runId filename) content) k) ∧
    content.bytes = bytes ∧ u.runId = runId ∧ u.filename = filename ∧ u.body = some bytes ∧
    ∃ e' ∈ tr, (∃ j, e'.act = .act m j) ∧
      ∃ b, Lists (e'.before.shared.rows runId) workspaceKey filename .staged b ∧ b.sizeBytes = a.sizeBytes ∧
        b.sha256 = a.sha256

/-- a file is the one its record lists -/
structure Intact (D : Deployment) (tr : List (Entry (System Storage Request Query Answer Response) (Turn Request Input)))
    (n : ℕ) (workspaceKey : Units) (r : Serve) (a : Artifact) (bytes : List UInt8) : Prop where
  /-- in the row that the download itself read -/
  listed : ∃ e ∈ tr, (∃ i, e.act = .act n i) ∧
    Lists (e.before.shared.rows r.runId) workspaceKey r.filename .ready a
  size : bytes.length = a.sizeBytes
  sha256 : D.hash bytes = a.sha256
  uploaded : Uploaded tr workspaceKey r.runId r.filename a bytes

/-- an object that passes for an artifact was uploaded for it -/
theorem uploaded_of_verified (h : Run D s₀ tr S) {e : Entry (System Storage Request Query Answer Response) (Turn Request Input)}
    (he : e ∈ tr) {n : ℕ} {i : Input} {c : Request} {key w runId filename : Units} {o : Object} {a : Artifact}
    {k : Answer (.put key o.content) → Call Query Answer Response} (hact : e.act = .act n i)
    (hput : e.before.calls[n]? = some (c, .ask (.put key o.content) k)) (hverified : Verified w runId a o)
    (hkey : key = artifactObjectKey w runId filename) (hfilename : a.filename = filename) :
    Uploaded tr w runId filename a o.content.bytes ∧ D.hash o.content.bytes = a.sha256 := by
  obtain ⟨tr', hprefix, hpath⟩ := System.entry_path h he
  have hway := hpath n c _ hput
  cases c with
  | publish r => exact absurd trivial (Call.asks_ask.1 (hway.asks (publish_asks r))).1
  | serve r => exact absurd trivial (Call.asks_ask.1 (hway.asks (serve_asks r))).1
  | upload u =>
    obtain ⟨s, hs, row, run, b, bytes, hrow, hrun, hb, hcheck, hcontent⟩ := upload_path hway
    obtain ⟨hstaged, hbody, hlength, hhash⟩ := checkUpload_ok hcheck
    obtain ⟨e', he', hact', rfl⟩ := System.mem_visited hs
    obtain ⟨hmem, hname⟩ := artifactForFilename_some hb
    obtain ⟨hsize, -, hworkspace, hrunId, hsame, hsha, -⟩ := hverified
    simp only [hcontent, contentOf] at hsize hworkspace hrunId hsame hsha ⊢
    have hfile : u.filename = filename := hname.symm.trans (hsame.trans hfilename)
    subst hworkspace hrunId hfile hkey
    refine ⟨⟨e, he, n, i, u, o.content, k, hact, hput, by rw [hcontent]; rfl, rfl, rfl, hbody, e',
      hprefix.subset he', hact', b, ⟨⟨row, run, hrow, rfl, hrun, hmem⟩, hname, hstaged⟩,
      hlength.symm.trans hsize, hsha⟩, hhash.trans hsha⟩

/-- **Downloads are intact.** Whatever calls run together, from an empty object store on. -/
theorem served_intact {r : Serve} {a : Artifact} {bytes : List UInt8} (h : Run D s₀ tr S)
    (h0 : ∀ key, s₀.objects key = none) (hserved : S.calls[n]? = some (.serve r, .done (.file a bytes))) :
    ∃ w, authenticatedWorkspace D.platform r.hasCredentials r.upstream D.secret = .ok w ∧
      Intact D tr n w.key r a bytes := by
  obtain ⟨w, hw, s, s', hvisited, row, run, o, hrow, hkey, hrun, ha, ho, hverified, rfl⟩ :=
    serve_path ((System.run_path h).2 n _ _ hserved)
  have hs : s ∈ System.visited n tr := by rw [hvisited]; exact List.mem_cons_self
  have hs' : s' ∈ System.visited n tr := by rw [hvisited]; exact List.mem_cons_of_mem _ List.mem_cons_self
  obtain ⟨e, he, hact, rfl⟩ := System.mem_visited hs
  obtain ⟨e', he', -, rfl⟩ := System.mem_visited hs'
  obtain ⟨hmem, hname, hready⟩ := readyForFilename_some ha
  -- the write of the object that was found
  obtain ⟨front, back, rfl⟩ := List.append_of_mem he'
  obtain ⟨e'', he'', m, i, c, k, hact'', hput⟩ := objects_written h.before h0 ho
  obtain ⟨huploaded, hhash⟩ :=
    uploaded_of_verified h (List.mem_append_left _ he'') hact'' hput hverified rfl hname
  exact ⟨w, hw, ⟨e, he, hact, ⟨⟨row, run, hrow, hkey, hrun, hmem⟩, hname, hready⟩⟩,
    hverified.1, hhash, huploaded⟩

/-! ### A page, and a run that moves -/

def acme : Units := encode "937dbd20310a62459f899986538fffb52b03a05152fc4e7a7d8d098e860c81b0"

def globex : Units := encode "f6140a1397b6a7b490577e046b4f8b89b438634344473fe7c8a16e85ce77d0cb"

/-- `<p>Done.</p>` -/
def page : List UInt8 := [60, 112, 62, 68, 111, 110, 101, 46, 60, 47, 112, 62]

def pageSha256 : Units := encode "444222493b1a40ee2640fb6e9209c17efe04071c0b2336184232580a5230c5dc"

/-- the hashes of the page and of the two workspaces -/
def sampleDeployment : Deployment where
  platform :=
    { stringify := fun _ => []
      toText := fun _ => []
      sha256Hex := fun _ => []
      hmacHex := fun _ workspaceId => if workspaceId = encode "acme" then acme else globex }
  toNumber _ := none
  hash bytes := if bytes = page then pageSha256 else []
  pollToken := encode "poll-token"
  secret := encode "workspace-secret"
  storage := true

/-- a record of this workspace that lists the page, in this status -/
def sampleRecord (workspaceId : String) (status : Option String) : JsValue :=
  .obj [(encode "run_id", .str (encode "r-demo-1")), (encode "schema_version", .num 1),
    (encode "status", .str (encode "complete")), (encode "created_at", .str (encode "2026-03-01T09:30:00Z")),
    (encode "updated_at", .str (encode "2026-03-01T10:30:00Z")), (encode "workspace_id", .str (encode workspaceId)),
    (encode "artifacts", .arr (match status with
      | none => []
      | some status =>
        [.obj [(encode "filename", .str (encode "done.html")), (encode "label", .str (encode "Page")),
          (encode "mime_type", .str (encode "text/html")), (encode "size_bytes", .num 12),
          (encode "sha256", .str pageSha256), (encode "kind", .str (encode "page")),
          (encode "status", .str (encode status))]]))]

def samplePublish (workspaceId : String) (status : Option String) : Request :=
  .publish ⟨encode "r-demo-1", encode "poll-token", .json (sampleRecord workspaceId status)⟩

def sampleUpload : Request :=
  .upload ⟨encode "r-demo-1", encode "done.html", false, encode "poll-token", encode "text/html", pageSha256,
    encode "page", encode "Page", encode "12", some page⟩

def sampleServe : Request :=
  .serve ⟨encode "r-demo-1", encode "done.html", false, true,
    .identity (.obj [(encode "workspace_id", .str (encode "acme")), (encode "uid", .str (encode "user-1"))])⟩

def answers : Input := ⟨.done, none, some (12, none)⟩

/-- the record, the page, and the record that makes it ready; then a download, and before it ends another record -/
def sampleMoves (last : Request) : List (Turn Request Input) :=
  [.call (samplePublish "acme" (some "staged")), .call sampleUpload, .call (samplePublish "acme" (some "ready")),
    .call sampleServe, .call last, .act 0 answers, .act 1 answers, .act 1 answers, .act 2 answers, .act 2 answers,
    .act 3 answers, .act 4 answers]

def sampleStart : System Storage Request Query Answer Response := ⟨⟨fun _ => none, fun _ => none⟩, []⟩

/-- what the calls returned, who asked for the download, and whose the run is -/
def sampleView (T : System Storage Request Query Answer Response) : List (Option Units × Option Response) × Option Units :=
  (T.calls.map fun c =>
      (match c.1 with
        | .serve r =>
          if r.runId = encode "r-demo-1" then
            (authenticatedWorkspace sampleDeployment.platform r.hasCredentials r.upstream
              sampleDeployment.secret).toOption.map Workspace.key
          else none
        | _ => none, c.2.result),
    (T.shared.rows (encode "r-demo-1")).map Row.workspaceKey)

def pageArtifact (status : ArtifactStatus) : Artifact :=
  ⟨encode "done.html", encode "Page", encode "text/html", 12, pageSha256, encode "page", status⟩

/-- what comes back to a download of the page, once the last record is published -/
def sampleEnd (last : Request) : Option (System Storage Request Query Answer Response) :=
  System.drive exec Call.always (handle sampleDeployment) sampleStart (sampleMoves last ++ [.act 3 answers])

theorem sample_moved : (sampleEnd (samplePublish "globex" none)).map sampleView =
    some ([(none, some (.published (encode "r-demo-1") (encode "2026-03-01T10:30:00Z"))),
      (none, some (.created (encode "r-demo-1") (pageArtifact .staged))),
      (none, some (.published (encode "r-demo-1") (encode "2026-03-01T10:30:00Z"))),
      (some acme, some (.file (pageArtifact .ready) page)),
      (none, some (.published (encode "r-demo-1") (encode "2026-03-01T10:30:00Z")))], some globex) := by
  decide +kernel

/-- the download, in the state it leads to -/
theorem sample_served {T : System Storage Request Query Answer Response}
    (hT : (sampleView T).1[3]? = some (some acme, some (.file (pageArtifact .ready) page))) :
    ∃ r w, T.calls[3]? = some (.serve r, .done (.file (pageArtifact .ready) page)) ∧ r.runId = encode "r-demo-1" ∧
      authenticatedWorkspace sampleDeployment.platform r.hasCredentials r.upstream sampleDeployment.secret = .ok w ∧
      w.key = acme := by
  simp only [sampleView, List.getElem?_map, Option.map_eq_some_iff, Prod.mk.injEq] at hT
  obtain ⟨⟨request, call⟩, hcall, hasked, hanswer⟩ := hT
  cases request with
  | publish r => cases hasked
  | upload r => cases hasked
  | serve r =>
    cases call with
    | ask q k => cases hanswer
    | done response =>
      dsimp only at hasked
      split_ifs at hasked with hrun
      obtain ⟨w, hw, hkey⟩ := Option.map_eq_some_iff.1 hasked
      refine ⟨r, w, ?_, hrun, ?_, hkey⟩
      · rw [hcall, show response = _ from Option.some.inj hanswer]
      · cases hauth : authenticatedWorkspace sampleDeployment.platform r.hasCredentials r.upstream sampleDeployment.secret with
        | error status => rw [hauth] at hw; cases hw
        | ok v => rw [hauth] at hw; cases hw; rfl

/-- the page is handed out, and is intact -/
theorem served_intact_sample : ∃ tr T r w, Run sampleDeployment sampleStart.shared tr T ∧
    T.calls[3]? = some (.serve r, .done (.file (pageArtifact .ready) page)) ∧
    Intact sampleDeployment tr 3 w r (pageArtifact .ready) page := by
  obtain ⟨T, hT, hview⟩ := Option.map_eq_some_iff.1 sample_moved
  obtain ⟨tr, h⟩ := System.drive_trace hT
  obtain ⟨r, w, hserved, -, -, -⟩ := sample_served (T := T) (by rw [hview]; rfl)
  obtain ⟨w', -, hintact⟩ := served_intact h (fun _ => rfl) hserved
  exact ⟨tr, T, r, w'.key, h, hserved, hintact⟩

/-- by the time a file is handed out, its run may belong to another workspace -/
theorem served_after_move : ¬ ∀ D s₀ tr S, Run D s₀ tr S → (∀ key, s₀.objects key = none) → ∀ e ∈ tr,
    ∀ n i r a bytes w, e.act = .act n i → e.after.calls[n]? = some (.serve r, .done (.file a bytes)) →
      authenticatedWorkspace D.platform r.hasCredentials r.upstream D.secret = .ok w →
      Lists (e.after.shared.rows r.runId) w.key r.filename .ready a := by
  intro hall
  obtain ⟨T, hT, hview⟩ := Option.map_eq_some_iff.1 sample_moved
  obtain ⟨tr, U, h⟩ := System.drive_last hT
  obtain ⟨r, w, hserved, hrun, hw, hkey⟩ := sample_served (T := T) (by rw [hview]; rfl)
  obtain ⟨row, run, hrow, howner, -⟩ := (hall _ _ _ _ h (fun _ => rfl) _ (List.mem_append_right _ List.mem_cons_self) 3
    answers r _ _ w rfl hserved hw).listed
  have hglobex : (T.shared.rows (encode "r-demo-1")).map Row.workspaceKey = some globex := congrArg Prod.snd hview
  rw [← hrun, show T.shared.rows r.runId = some row from hrow, Option.map_some, howner, hkey] at hglobex
  exact absurd (Option.some.inj hglobex) (by decide +kernel)

end Runs

end Rally.Worker.Artifacts
