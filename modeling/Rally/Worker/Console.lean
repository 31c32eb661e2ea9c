/-
The run records the Worker takes from the runner (`src/worker/index.js`): what `normalizeConsoleRun` keeps of a value,
field by field, and the messages with which it refuses.

- Texts are UTF-16 code units. What `Number` makes of texts, lists and objects is open.
- `normalizeArtifacts_listed`: every listed artifact has a filename of its own, a supported type, a size within bounds and
  a checksum in hexadecimal.
- `normalizeConsoleRun_run`: a record is of the run it was sent for, in a status of its own.
-/
import Rally.Worker.Jobs

namespace Rally.Worker

open Wire Rally.Ingress

/-! ## Limits and patterns -/

def maxArtifactBody : ℕ := 8 * 1024 * 1024

def maxArtifactsPerRun : ℕ := 24

/-- `ARTIFACT_FILENAME` -/
def isArtifactFilename (s : List Char) : Bool :=
  (s.head?.map Char.isAlphanum).getD false && s.length ≤ 160 &&
    s.all fun c => c.isAlphanum || c = '.' || c = '_' || c = '-'

/-- `ARTIFACT_KIND` -/
def isArtifactKind (s : List Char) : Bool :=
  let first := fun (c : Char) => c.isDigit || ('a'.toNat ≤ c.toNat && c.toNat ≤ 'z'.toNat)
  (s.head?.map first).getD false && s.length ≤ 32 && s.all fun c => first c || c = '_' || c = '-'

/-- `/^[\x20-\x7e]{1,140}$/` -/
def isArtifactLabel (s : List Char) : Bool :=
  1 ≤ s.length && s.length ≤ 140 && s.all fun c => 0x20 ≤ c.toNat && c.toNat ≤ 0x7e

/-- `ARTIFACT_EXTENSIONS`, with `ARTIFACT_MIME_TYPES` for its keys -/
def artifactExtensions : List (String × List String) :=
  [("application/pdf", ["pdf"]), ("audio/mpeg", ["mp3"]), ("image/jpeg", ["jpg", "jpeg"]), ("image/png", ["png"]),
    ("image/webp", ["webp"]), ("text/html", ["html", "htm"])]

/-- `RUN_STATUSES` -/
def runStatuses : List String := ["running", "complete", "blocked", "halted"]

/-! ## Fields -/

/-- `Number(v)` where it is finite; `toNumber` is for texts, lists and objects -/
def number (toNumber : JsValue → Option ℚ) : Option JsValue → Option ℚ
  | none => none
  | some .null => some 0
  | some (.bool b) => some (if b then 1 else 0)
  | some (.num q) => some q
  | some v => toNumber v

/-- `text` -/
def text (v : Option JsValue) (limit : ℕ) : Units := (trimmedText v).take limit

/-- `text(v, limit) || null` -/
def textOrNull (v : Option JsValue) (limit : ℕ) : Option Units :=
  if text v limit = [] then none else some (text v limit)

/-- `integer` -/
def integer (toNumber : JsValue → Option ℚ) (v : Option JsValue) (maximum : ℕ) : ℕ :=
  match number toNumber v with
  | some q => if q.den = 1 then (min q.num maximum).toNat else 0
  | none => 0

/-- `value.trim().toLowerCase()` of a text, exact for comparison with ASCII -/
def lowerText (v : Option JsValue) : List Char := lowerChars (unitChars (trimmedText v))

/-- the members of a list, or none -/
def items : Option JsValue → List JsValue
  | some (.arr vs) => vs
  | _ => []

/-- `value?.name` -/
def prop? (v : Option JsValue) (name : String) : Option JsValue := v.bind fun v => prop v name

/-! ## Artifacts -/

inductive ArtifactStatus where
  | staged
  | ready
deriving DecidableEq

structure Artifact where
  filename : Units
  label : Units
  mimeType : Units
  sizeBytes : ℕ
  sha256 : Units
  kind : Units
  status : ArtifactStatus
deriving DecidableEq

/-- `filename.includes("..")` -/
def hasDots (s : List Char) : Bool := decide (['.', '.'] <:+: s)

/-- the part of a filename after its last dot -/
def extensionOf (filename : List Char) : List Char :=
  if filename.contains '.' then lowerChars ((filename.splitOn '.').getLast?.getD []) else []

/-- `item.status == null ? "staged" : …`, where it is one of the two -/
def artifactStatus : Option JsValue → Option ArtifactStatus
  | none => some .staged
  | some .null => some .staged
  | some (.str s) =>
    let status := lowerText (some (.str s))
    if status = "staged".toList then some .staged else if status = "ready".toList then some .ready else none
  | some _ => none

/-- a number that is a safe integer within the bounds of an artifact -/
def artifactSize (q : Option ℚ) : Option ℕ :=
  match q with
  | some q => if q.den = 1 ∧ 1 ≤ q.num ∧ q.num ≤ maxArtifactBody then some q.num.toNat else none
  | none => none

/-- one member of the list, after those with these filenames -/
def normalizeArtifact (toNumber : JsValue → Option ℚ) (filenames : List Units) (item : JsValue) :
    Except String Artifact :=
  match item with
  | .obj _ =>
    let filename := trimmedText (prop item "filename")
    let label := trimmedText (prop item "label")
    let mimeType := lowerText (prop item "mime_type")
    let sha256 := lowerText (prop item "sha256")
    let kind := lowerText (prop item "kind")
    if !isArtifactFilename (unitChars filename) ∨ hasDots (unitChars filename) ∨ filename ∈ filenames then
      .error "artifact filename is invalid or duplicated"
    else if !isArtifactLabel (unitChars label) then
      .error "artifact label must be printable text up to 140 characters"
    else
      match artifactExtensions.lookup (String.ofList mimeType) with
      | none => .error "artifact MIME type is not supported"
      | some extensions =>
        if String.ofList (extensionOf (unitChars filename)) ∉ extensions then
          .error "artifact filename extension does not match its MIME type"
        else
          match artifactSize (number toNumber (prop item "size_bytes")) with
          | none => .error "artifact size is invalid"
          | some sizeBytes =>
            if !isSha256Hex sha256 then .error "artifact sha256 is invalid"
            else if !isArtifactKind kind then .error "artifact kind is invalid"
            else
              match artifactStatus (prop item "status") with
              | none => .error "artifact status is invalid"
              | some status =>
                .ok ⟨filename, label, encode (String.ofList mimeType), sizeBytes, encode (String.ofList sha256),
                  encode (String.ofList kind), status⟩
  | _ => .error "artifact metadata must be an object"

/-- the members of a list, one after the other -/
def normalizeAll (toNumber : JsValue → Option ℚ) : List Units → List JsValue → Except String (List Artifact)
  | _, [] => .ok []
  | filenames, item :: rest => do
    let artifact ← normalizeArtifact toNumber filenames item
    let artifacts ← normalizeAll toNumber (filenames ++ [artifact.filename]) rest
    .ok (artifact :: artifacts)

/-- `normalizeArtifacts` -/
def normalizeArtifacts (toNumber : JsValue → Option ℚ) (v : Option JsValue) : Except String (List Artifact) :=
  match v with
  | none => .ok []
  | some .null => .ok []
  | some (.arr vs) =>
    if maxArtifactsPerRun < vs.length then .error "artifacts must contain at most 24 items"
    else normalizeAll toNumber [] vs
  | some _ => .error "artifacts must contain at most 24 items"

/-- what a listed artifact has been checked for -/
structure Artifact.Fine (a : Artifact) : Prop where
  filename : isArtifactFilename (unitChars a.filename) = true
  noDots : hasDots (unitChars a.filename) = false
  label : isArtifactLabel (unitChars a.label) = true
  size : 1 ≤ a.sizeBytes ∧ a.sizeBytes ≤ maxArtifactBody
  sha256 : ∃ s, isSha256Hex s = true ∧ a.sha256 = encode (String.ofList s)
  kind : ∃ s, isArtifactKind s = true ∧ a.kind = encode (String.ofList s)

theorem artifactSize_bounds {q : Option ℚ} {n : ℕ} (h : artifactSize q = some n) : 1 ≤ n ∧ n ≤ maxArtifactBody := by
  unfold artifactSize at h
  cases q with
  | none => cases h
  | some q =>
    dsimp only at h
    split_ifs at h with hq
    cases h
    omega

theorem normalizeArtifact_fine {toNumber : JsValue → Option ℚ} {filenames : List Units} {item : JsValue} {a : Artifact}
    (h : normalizeArtifact toNumber filenames item = .ok a) : a.Fine ∧ a.filename ∉ filenames := by
  cases item with
  | obj kvs =>
    simp only [normalizeArtifact] at h
    split at h
    · cases h
    rename_i hfilename
    push Not at hfilename
    obtain ⟨hpattern, hdots, hnew⟩ := hfilename
    split at h
    · cases h
    rename_i hlabel
    split at h
    · cases h
    split at h
    · cases h
    split at h
    · cases h
    rename_i hsize
    split at h
    · cases h
    rename_i hsha
    split at h
    · cases h
    rename_i hkind
    split at h
    · cases h
    cases h
    exact ⟨⟨by simpa using hpattern, by simpa using hdots, by simpa using hlabel, artifactSize_bounds hsize,
      ⟨_, by simpa using hsha, rfl⟩, ⟨_, by simpa using hkind, rfl⟩⟩, hnew⟩
  | _ => cases h

theorem normalizeAll_listed {toNumber : JsValue → Option ℚ} {filenames : List Units} {vs : List JsValue}
    {artifacts : List Artifact} (h : normalizeAll toNumber filenames vs = .ok artifacts) :
    (∀ a ∈ artifacts, a.Fine ∧ a.filename ∉ filenames) ∧ artifacts.Pairwise fun a b => a.filename ≠ b.filename := by
  induction vs generalizing filenames artifacts with
  | nil =>
    cases h
    exact ⟨fun _ ha => (by cases ha), .nil⟩
  | cons item rest ih =>
    obtain ⟨a, ha, h⟩ := Py.bind_ok h
    obtain ⟨others, hothers, h⟩ := Py.bind_ok h
    cases h
    obtain ⟨hall, hpairwise⟩ := ih hothers
    obtain ⟨hfine, hnew⟩ := normalizeArtifact_fine ha
    refine ⟨fun b hb => ?_, List.pairwise_cons.2 ⟨fun b hb heq => ?_, hpairwise⟩⟩
    · rcases List.mem_cons.1 hb with rfl | hb
      · exact ⟨hfine, hnew⟩
      · exact ⟨(hall b hb).1, fun hmem => (hall b hb).2 (List.mem_append_left _ hmem)⟩
    · exact (hall b hb).2 (List.mem_append_right _ (by simp [heq]))

/-- the artifacts that pass are fine, and each has a filename of its own -/
theorem normalizeArtifacts_listed {toNumber : JsValue → Option ℚ} {v : Option JsValue} {artifacts : List Artifact}
    (h : normalizeArtifacts toNumber v = .ok artifacts) :
    (∀ a ∈ artifacts, a.Fine) ∧ artifacts.Pairwise fun a b => a.filename ≠ b.filename := by
  match v with
  | none => cases h; exact ⟨fun _ ha => (by cases ha), .nil⟩
  | some .null => cases h; exact ⟨fun _ ha => (by cases ha), .nil⟩
  | some (.arr vs) =>
    simp only [normalizeArtifacts] at h
    split_ifs at h
    obtain ⟨hall, hpairwise⟩ := normalizeAll_listed h
    exact ⟨fun a ha => (hall a ha).1, hpairwise⟩
  | some (.bool _) => cases h
  | some (.num _) => cases h
  | some (.str _) => cases h
  | some (.obj _) => cases h

/-! ## Records -/

structure ChecklistItem where
  id : Units
  description : Units
  state : Units
  owner : Option Units
  verifiedBy : Option Units
  evidence : Option Units
  rejections : ℕ
deriving DecidableEq

structure Change where
  id : Units
  state : Units
  owner : Option Units
  verifiedBy : Option Units
  evidence : Option Units
deriving DecidableEq

structure TimelineEntry where
  id : Units
  kind : Units
  at_ : Units
  turn : ℕ
  actor : Units
  label : Units
  family : Units
  model : Units
  narrative : Units
  commit : Option Units
  changes : List Change
deriving DecidableEq

structure Agent where
  id : Units
  label : Units
  family : Units
  model : Units
  role : Units
  participated : Bool
deriving DecidableEq

structure ValueReceipt where
  independentlyVerified : ℕ
  evidenceReceipts : ℕ
  modelFamilies : ℕ
  selfApproved : ℕ
deriving DecidableEq

structure Continuity where
  mode : Units
  recoveriesUsed : ℕ
  maxRecoveriesPerRun : ℕ
deriving DecidableEq

structure Coordination where
  status : Units
  framework : Option Units
  services : List Units
deriving DecidableEq

/-- the record that is stored, with the workspace that is taken out of it; constant texts are left out -/
structure ConsoleRun where
  workspaceId : Units
  isPublic : Bool
  runId : Units
  title : Units
  createdAt : Units
  updatedAt : Units
  status : Units
  statusDetail : Units
  turn : ℕ
  nextActor : Units
  done : ℕ
  total : ℕ
  valueReceipt : ValueReceipt
  continuity : Continuity
  coordination : Coordination
  agents : List Agent
  artifacts : List Artifact
  checklist : List ChecklistItem
  timeline : List TimelineEntry
  publishedAt : Units
deriving DecidableEq

section Records

variable (toNumber : JsValue → Option ℚ)

/-- `cleanChanges` -/
def cleanChanges (v : Option JsValue) : List Change :=
  ((items v).take 50).map fun item =>
    ⟨text (prop item "id") 48, text (prop item "state") 40, textOrNull (prop item "owner") 40,
      textOrNull (prop item "verified_by") 40, textOrNull (prop item "evidence") 800⟩

/-- the checklist of a record -/
def cleanChecklist (v : Option JsValue) : List ChecklistItem :=
  ((items v).take 50).map fun item =>
    ⟨text (prop item "id") 48, text (prop item "description") 500, text (prop item "state") 40,
      textOrNull (prop item "owner") 40, textOrNull (prop item "verified_by") 40,
      textOrNull (prop item "evidence") 1200, integer toNumber (prop item "rejections") 99⟩

/-- the last hundred entries of the timeline -/
def cleanTimeline (v : Option JsValue) : List TimelineEntry :=
  ((items v).drop ((items v).length - 100)).map fun item =>
    ⟨text (prop item "id") 100, text (prop item "kind") 40, text (prop item "at") 40,
      integer toNumber (prop item "turn") 1000, text (prop item "actor") 40, text (prop item "label") 100,
      text (prop item "family") 60, text (prop item "model") 100, text (prop item "narrative") 4000,
      textOrNull (prop item "commit") 64, cleanChanges (prop item "changes")⟩

/-- the agents of a record -/
def cleanAgents (v : Option JsValue) : List Agent :=
  ((items v).take 12).map fun agent =>
    ⟨text (prop agent "id") 40, text (prop agent "label") 100, text (prop agent "family") 60,
      text (prop agent "model") 100, text (prop agent "role") 100,
      match prop agent "participated" with | some (.bool b) => b | _ => false⟩

/-- the sign-offs of a checklist -/
def valueReceipt (checklist : List ChecklistItem) (agents : List Agent) : ValueReceipt :=
  let finished := checklist.filter fun item => item.state = encode "done"
  { independentlyVerified :=
      (finished.filter fun item => item.owner.isSome ∧ item.verifiedBy.isSome ∧ item.owner ≠ item.verifiedBy).length
    evidenceReceipts := (finished.filter fun item => item.evidence.isSome).length
    modelFamilies :=
      (((agents.filter Agent.participated).map Agent.family).filter fun family => family ≠ []).dedup.length
    selfApproved := (finished.filter fun item => item.owner.isSome ∧ item.owner = item.verifiedBy).length }

/-- `normalizeConsoleRun` -/
def normalizeConsoleRun (value : JsValue) (expectedRunId : Units) : Except String ConsoleRun :=
  match value with
  | .obj _ =>
    let runId := text (prop value "run_id") 80
    let status := text (prop value "status") 20
    let createdAt := text (prop value "created_at") 40
    let updatedAt := text (prop value "updated_at") 40
    let workspaceId := text (prop value "workspace_id") 96
    let version := match prop value "schema_version" with | some (.num q) => decide (q = 1) | _ => false
    if !isRunId (unitChars runId) ∨ runId ≠ expectedRunId then .error "run_id does not match the route"
    else if !version ∨ status ∉ runStatuses.map encode then .error "unsupported console record"
    else if !isTimestamp jsDigit (unitChars createdAt) ∨ !isTimestamp jsDigit (unitChars updatedAt) then
      .error "created_at and updated_at must be UTC timestamps"
    else if !isWorkspaceId (unitChars workspaceId) then .error "workspace_id is invalid"
    else do
      let checklist := cleanChecklist toNumber (prop value "checklist")
      let agents := cleanAgents (prop value "agents")
      let progress := prop value "progress"
      let continuity := prop? (prop value "policy") "continuity"
      let coordination := prop value "coordination"
      let total := integer toNumber (prop? progress "total") 1000
      let artifacts ← normalizeArtifacts toNumber (prop value "artifacts")
      .ok
        { workspaceId := workspaceId
          isPublic := match prop value "visibility" with | some (.str s) => decide (s = encode "public") | _ => false
          runId := runId
          title := (textOrNull (prop value "title") 120).getD runId
          createdAt := createdAt
          updatedAt := updatedAt
          status := status
          statusDetail := text (prop value "status_detail") 160
          turn := integer toNumber (prop value "turn") 1000
          nextActor := text (prop value "next_actor") 40
          done := min (integer toNumber (prop? progress "done") 1000) total
          total := total
          valueReceipt := valueReceipt checklist agents
          continuity :=
            { mode := (textOrNull (prop? continuity "mode") 40).getD (encode "halt")
              recoveriesUsed := integer toNumber (prop? continuity "recoveries_used") 8
              maxRecoveriesPerRun := integer toNumber (prop? continuity "max_recoveries_per_run") 8 }
          coordination :=
            { status := text (prop? coordination "status") 60
              framework := textOrNull (prop? coordination "framework") 80
              services :=
                (((items (prop? coordination "services")).take 8).map fun item => text (some item) 80).filter
                  fun service => service ≠ [] }
          agents := agents
          artifacts := artifacts
          checklist := checklist
          timeline := cleanTimeline toNumber (prop value "timeline")
          publishedAt := text (prop? (prop value "provenance") "published_at") 40 }
  | _ => .error "body must be an object"

/-- a record that passes is of the run it was sent for, in a known status, with artifacts that are fine -/
theorem normalizeConsoleRun_run {value : JsValue} {runId : Units} {r : ConsoleRun}
    (h : normalizeConsoleRun toNumber value runId = .ok r) :
    r.runId = runId ∧ isRunId (unitChars runId) = true ∧ r.status ∈ runStatuses.map encode ∧
      isWorkspaceId (unitChars r.workspaceId) = true ∧ (∀ a ∈ r.artifacts, a.Fine) ∧
      r.artifacts.Pairwise fun a b => a.filename ≠ b.filename := by
  cases value with
  | obj kvs =>
    simp only [normalizeConsoleRun] at h
    split_ifs at h with hrun hstatus htime hworkspace
    push Not at hrun hstatus
    obtain ⟨artifacts, hartifacts, h⟩ := Py.bind_ok h
    cases h
    obtain ⟨hpattern, hsame⟩ := hrun
    rw [hsame] at hpattern
    exact ⟨hsame, by simpa using hpattern, hstatus.2, by simpa using hworkspace, normalizeArtifacts_listed hartifacts⟩
  | _ => cases h

end Records

end Rally.Worker
