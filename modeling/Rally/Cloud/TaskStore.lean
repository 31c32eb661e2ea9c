/-
Tasks of the A2A protocol in Firestore (`cloud/a2a_store.py`): saved under their owner, listed by page, newest first.

- `saved_apart`: an owner's saved tasks have different ids.
- `Follows`: what a client sees that asks for one page after another, until there is no token for a next one.
- `pages_exact`: these are the tasks that one listing returns, each matching task once and none of another owner, as long as
  no page begins at a task with an empty token.
- `empty_id`: the pages stop before a task without an id, whose token is empty. Only a task with nothing at all is saved
  as no task (`Task.blank`).
-/
import Rally.Core.FixedWidth
import Rally.Core.Base64
import Rally.Core.Dict
import Rally.Core.Value

namespace Rally.Cloud.TaskStore

open FixedWidth

/-! ## Tasks -/

/-- a `Timestamp` of the years 1 to 9999 -/
structure Timestamp where
  seconds : ℤ
  nanos : ℕ
  early : -62135596800 ≤ seconds
  late : seconds < 253402300800
  small : nanos < 10 ^ 9
deriving DecidableEq

/-- the second since the year 1 -/
def Timestamp.second (t : Timestamp) : ℕ := (t.seconds + 62135596800).toNat

structure Status where
  state : ℕ
  timestamp : Option Timestamp
deriving DecidableEq

structure Task where
  id : String
  contextId : String
  status : Option Status
  /-- its other fields as they are serialised -/
  rest : List UInt8
deriving DecidableEq

/-- `SerializeToString` gives no bytes -/
def Task.blank (task : Task) : Prop := task.id = "" ∧ task.contextId = "" ∧ task.status = none ∧ task.rest = []

instance (task : Task) : Decidable task.blank := by unfold Task.blank; infer_instance

/-- the timestamp, where the task has a status and that has one -/
def Task.timestamp (task : Task) : Option Timestamp := task.status.bind Status.timestamp

/-- `task.status.state`; the state of no status is 0 -/
def Task.state (task : Task) : ℕ := (task.status.map Status.state).getD 0

/-- what comes with the libraries: the text of a date and time, page tokens, hashes -/
structure Platform where
  second : ℕ → List Char
  encodePageToken : String → String
  /-- `none` where it raises -/
  decodePageToken : String → Option String
  sha256 : String → String
  defaultPageSize : ℤ

/-- the fraction of a second with 0, 3, 6 or 9 digits, and the `Z` -/
def fraction (nanos : ℕ) : List Char :=
  if nanos = 0 then ['Z']
  else if nanos % 10 ^ 6 = 0 then '.' :: (pad 3 (nanos / 10 ^ 6) ++ ['Z'])
  else if nanos % 10 ^ 3 = 0 then '.' :: (pad 6 (nanos / 10 ^ 3) ++ ['Z'])
  else '.' :: (pad 9 nanos ++ ['Z'])

/-- `ToJsonString` -/
def toJsonString (P : Platform) (t : Timestamp) : List Char := P.second t.second ++ fraction t.nanos

/-! ## The store -/

structure Record where
  owner : String
  taskId : String
  contextId : String
  state : ℕ
  statusTimestamp : List Char
  /-- `task_proto`, if there is one that is not empty -/
  taskProto : Option Task

/-- the collection `rally_a2a_tasks` -/
abbrev Collection := List (String × Record)

inductive Err where
  | invalidParams (text : String)
  /-- an index that is out of range -/
  | index
  /-- a client that has not come to the last page -/
  | endless
deriving DecidableEq

section Store

variable (P : Platform)

def documentId (owner taskId : String) : String := P.sha256 (owner ++ "\x00" ++ taskId)

/-- the text a task is sorted by -/
def timestampText (task : Task) : List Char := (task.timestamp.map (toJsonString P)).getD []

/-- `save` -/
def save (owner : String) (task : Task) (docs : Collection) : Collection :=
  Dict.upsert docs (documentId P owner task.id) fun _ =>
    ⟨owner, task.id, task.contextId, task.state, timestampText P task, if task.blank then none else some task⟩

/-- `get` -/
def get (owner taskId : String) (docs : Collection) : Option Task :=
  (Dict.get? docs (documentId P owner taskId)).bind Record.taskProto

/-- `delete` -/
def delete (owner taskId : String) (docs : Collection) : Collection := Dict.erase docs (documentId P owner taskId)

structure ListTasksRequest where
  contextId : String := ""
  status : ℕ := 0
  statusTimestampAfter : Option Timestamp := none
  pageSize : ℤ := 0
  pageToken : String := ""

/-- `ListTasksResponse`; a token that is not set is the empty text -/
structure ListTasksResponse where
  tasks : List Task
  nextPageToken : String
  pageSize : ℤ
  totalSize : ℕ
deriving DecidableEq

/-- the tasks of the owner's documents -/
def ownerTasks (docs : Collection) (owner : String) : List Task :=
  (docs.filter fun d => d.2.owner = owner).filterMap fun d => d.2.taskProto

/-- the filters of a request -/
def fits (params : ListTasksRequest) (task : Task) : Bool :=
  (params.contextId = "" || task.contextId = params.contextId) && (params.status = 0 || task.state = params.status) &&
    match params.statusTimestampAfter with
    | none => true
    | some threshold => task.timestamp.any fun t => ¬ toJsonString P t < toJsonString P threshold

/-- the order of `tasks.sort(…, reverse=True)`: by text and id, the larger first -/
def Sorts (a b : Task) : Prop :=
  timestampText P b < timestampText P a ∨ timestampText P b = timestampText P a ∧ b.id ≤ a.id

instance : DecidableRel (Sorts P) := fun a b => by unfold Sorts; infer_instance

/-- all tasks that match, in order -/
def listing (params : ListTasksRequest) (tasks : List Task) : List Task :=
  (tasks.filter (fits P params)).insertionSort (Sorts P)

end Store

/-- `l[i]` -/
def index {α : Type} (l : List α) (i : ℤ) : Option α :=
  if 0 ≤ i then l[i.toNat]? else if 0 ≤ l.length + i then l[(l.length + i).toNat]? else none

/-- `l[i:j]` for an `i` of the list -/
def slice {α : Type} (l : List α) (i : ℕ) (j : ℤ) : List α :=
  (l.take (if 0 ≤ j then j else l.length + j).toNat).drop i

section Pages

variable (P : Platform)

/-- where a page starts: at the task that the token names -/
def pageStart (params : ListTasksRequest) (tasks : List Task) : Except Err ℕ :=
  if params.pageToken = "" then .ok 0
  else
    match P.decodePageToken params.pageToken with
    | none => .error (.invalidParams "Page token is not a valid base64-encoded cursor.")
    | some startTaskId =>
      match tasks.findIdx? fun task => task.id = startTaskId with
      | none => .error (.invalidParams ("Invalid page token: " ++ params.pageToken))
      | some i => .ok i

/-- the page of a listing -/
def page (params : ListTasksRequest) (tasks : List Task) : Except Err ListTasksResponse := do
  let start ← pageStart P params tasks
  let pageSize := if params.pageSize = 0 then P.defaultPageSize else params.pageSize
  let stop : ℤ := start + pageSize
  if stop < tasks.length then
    match index tasks stop with
    | none => .error .index
    | some task => .ok ⟨slice tasks start stop, P.encodePageToken task.id, pageSize, tasks.length⟩
  else .ok ⟨slice tasks start stop, "", pageSize, tasks.length⟩

/-- `list` -/
def list (docs : Collection) (owner : String) (params : ListTasksRequest) : Except Err ListTasksResponse :=
  page P params (listing P params (ownerTasks docs owner))

/-- a client that asks with the token of the last answer as long as there is one, at most so many times -/
def follow (ask : String → Except Err ListTasksResponse) : ℕ → String → Except Err (List Task)
  | 0, _ => .error .endless
  | n + 1, token => do
    let response ← ask token
    if response.nextPageToken = "" then .ok response.tasks
    else do
      let rest ← follow ask n response.nextPageToken
      .ok (response.tasks ++ rest)

end Pages

/-! ## Saved tasks -/

/-- every document that holds a task has the id that goes with it and its owner -/
def Saved (P : Platform) (docs : Collection) : Prop :=
  Dict.Ok docs ∧ ∀ d ∈ docs, ∀ task, d.2.taskProto = some task → d.1 = documentId P d.2.owner task.id

section Saved

variable {P : Platform} {docs : Collection} {owner : String} {task : Task}

theorem mem_upsert {κ α : Type} [DecidableEq κ] {d : List (κ × α)} {k : κ} {f : Option α → α} {p : κ × α}
    (h : p ∈ Dict.upsert d k f) : p ∈ d ∨ p.1 = k ∧ ∃ old, p.2 = f old := by
  induction d with
  | nil =>
    rw [List.mem_singleton.1 h]
    exact Or.inr ⟨rfl, none, rfl⟩
  | cons q d ih =>
    rw [Dict.upsert] at h
    split_ifs at h with hk
    · rcases List.mem_cons.1 h with rfl | h
      · exact Or.inr ⟨hk, _, rfl⟩
      · exact Or.inl (List.mem_cons_of_mem _ h)
    · rcases List.mem_cons.1 h with rfl | h
      · exact Or.inl List.mem_cons_self
      · exact (ih h).imp_left (List.mem_cons_of_mem _)

theorem Saved.save (h : Saved P docs) : Saved P (save P owner task docs) := by
  refine ⟨Dict.ok_upsert h.1 _ _, fun d hd held hheld => ?_⟩
  rcases mem_upsert hd with hold | ⟨hkey, -, hnew⟩
  · exact h.2 d hold held hheld
  · rw [hnew] at hheld
    split_ifs at hheld
    rw [hkey, hnew, Option.some.inj hheld]

theorem Saved.delete {taskId : String} (h : Saved P docs) : Saved P (delete P owner taskId docs) :=
  ⟨h.1.sublist ((List.filter_sublist).map _), fun d hd => h.2 d (List.mem_of_mem_filter hd)⟩

/-- an owner's tasks have different ids -/
theorem saved_apart (h : Saved P docs) (owner : String) : ((ownerTasks docs owner).map Task.id).Nodup := by
  obtain ⟨hkeys, hdocs⟩ := h
  -- the tasks that are held, by the keys they are held under
  have hmap : ∀ l : Collection, (∀ d ∈ l, ∀ task, d.2.taskProto = some task → d.1 = documentId P owner task.id) →
      ((l.filterMap fun d => d.2.taskProto).map fun task => documentId P owner task.id).Sublist (l.map Prod.fst) := by
    intro l hl
    induction l with
    | nil => exact List.Sublist.slnil
    | cons d l ih =>
      obtain ⟨hd, hl⟩ := List.forall_mem_cons.1 hl
      cases htask : d.2.taskProto with
      | none =>
        simp only [List.filterMap_cons, htask, List.map_cons]
        exact (ih hl).cons _
      | some task =>
        simp only [List.filterMap_cons, htask, List.map_cons, ← hd task htask]
        exact (ih hl).cons_cons _
  have howned : ((docs.filter fun d => d.2.owner = owner).map Prod.fst).Nodup :=
    hkeys.sublist ((List.filter_sublist).map _)
  refine List.Nodup.of_map (documentId P owner) ?_
  rw [List.map_map]
  refine howned.sublist (hmap _ fun d hd task htask => ?_)
  obtain ⟨hmem, howner⟩ := List.mem_filter.1 hd
  rw [hdocs d hmem task htask, of_decide_eq_true howner]

end Saved

/-! ## Page after page -/

section Follow

variable {P : Platform} {docs : Collection} {owner : String} {params : ListTasksRequest} {tasks : List Task} {k i : ℕ}

/-- a token of a task leads back to it -/
def Decodes (P : Platform) (tasks : List Task) : Prop :=
  ∀ task ∈ tasks, P.decodePageToken (P.encodePageToken task.id) = some task.id

/-- no page after the first starts at a task whose token is empty -/
def Marked (P : Platform) (k : ℕ) (tasks : List Task) : Prop :=
  ∀ j task, 0 < j → tasks[j * k]? = some task → P.encodePageToken task.id ≠ ""

/-- the token of a position; there is none for the first page -/
def tokenAt (P : Platform) (tasks : List Task) (i : ℕ) : String :=
  if i = 0 then "" else (tasks[i]?.map fun task => P.encodePageToken task.id).getD ""

/-- a task is found by its id -/
theorem findIdx?_id (hids : (tasks.map Task.id).Nodup) {task : Task} (h : tasks[i]? = some task) :
    tasks.findIdx? (fun other => other.id = task.id) = some i := by
  cases hfound : tasks.findIdx? (fun other => other.id = task.id) with
  | none =>
    have hnone := List.findIdx?_eq_none_iff.1 hfound task (List.mem_of_getElem? h)
    simp at hnone
  | some j =>
    obtain ⟨hj, hsame, -⟩ := List.findIdx?_eq_some_iff_getElem.1 hfound
    have hids' : (tasks.map Task.id)[j]? = (tasks.map Task.id)[i]? := by
      rw [List.getElem?_map, List.getElem?_map, h, List.getElem?_eq_getElem hj]
      simpa using hsame
    rw [(List.getElem?_inj (by simpa using hj) hids).1 hids']

/-- the position of a token is where its page starts -/
theorem pageStart_at (hids : (tasks.map Task.id).Nodup) (hdecodes : Decodes P tasks)
    (hi : i = 0 ∨ i < tasks.length ∧ tokenAt P tasks i ≠ "") :
    pageStart P { params with pageToken := tokenAt P tasks i } tasks = .ok i := by
  unfold pageStart
  rcases hi with rfl | ⟨hlt, htoken⟩
  · simp [tokenAt]
  · have htask : tasks[i]? = some tasks[i] := List.getElem?_eq_getElem hlt
    have h0 : i ≠ 0 := fun h0 => htoken (if_pos h0)
    have heq : tokenAt P tasks i = P.encodePageToken tasks[i].id := by
      rw [tokenAt, if_neg h0, htask]
      rfl
    rw [heq] at htoken ⊢
    simp only [if_neg htoken, hdecodes _ (List.getElem_mem hlt)]
    rw [findIdx?_id hids htask]

/-- the page from a position: what follows of the listing, up to the size of a page, and the token of the next position -/
theorem page_of_start (hstart : pageStart P params tasks = .ok i) (hk : 0 < k) (hsize : params.pageSize = k) :
    page P params tasks =
      .ok ⟨(tasks.drop i).take k, if i + k < tasks.length then tokenAt P tasks (i + k) else "", k, tasks.length⟩ := by
  have hk0 : ¬ (k : ℤ) = 0 := by omega
  have hslice : slice tasks i ((i : ℤ) + k) = (tasks.drop i).take k := by
    unfold slice
    rw [if_pos (by omega), show ((i : ℤ) + k).toNat = i + k by omega, List.take_drop]
  unfold page
  rw [hstart]
  simp only [bind, Except.bind, hsize, hk0, if_false, hslice]
  by_cases hlt : i + k < tasks.length
  · have hindex : index tasks ((i : ℤ) + k) = some tasks[i + k] := by
      unfold index
      rw [if_pos (by omega), show ((i : ℤ) + k).toNat = i + k by omega]
      exact List.getElem?_eq_getElem hlt
    rw [if_pos (by omega), if_pos hlt, hindex, tokenAt, if_neg (by omega), List.getElem?_eq_getElem hlt]
    rfl
  · rw [if_neg (by omega), if_neg hlt]

/-- the first page, of any size, is the beginning of the listing -/
theorem list_first (hk : 0 < k) : ∃ token, list P docs owner { params with pageSize := k, pageToken := "" } =
    .ok ⟨(listing P params (ownerTasks docs owner)).take k, token, k, (listing P params (ownerTasks docs owner)).length⟩ :=
  ⟨_, @page_of_start P { params with pageSize := k, pageToken := "" } _ k 0 (if_pos rfl) hk rfl⟩

/-- from a page on, the client sees the rest of the listing -/
theorem follow_at (hids : (tasks.map Task.id).Nodup) (hdecodes : Decodes P tasks) (hmarked : Marked P k tasks) (hk : 0 < k)
    (hsize : params.pageSize = k) {j n : ℕ} (hj : j = 0 ∨ j * k < tasks.length) (hn : tasks.length < j * k + n) :
    follow (fun token => page P { params with pageToken := token } tasks) n (tokenAt P tasks (j * k)) =
      .ok (tasks.drop (j * k)) := by
  have hstart : ∀ j, j = 0 ∨ j * k < tasks.length → j * k = 0 ∨ j * k < tasks.length ∧ tokenAt P tasks (j * k) ≠ "" := by
    intro j hj
    rcases Nat.eq_zero_or_pos j with rfl | hpos
    · exact Or.inl (Nat.zero_mul k)
    · have hlt := hj.resolve_left hpos.ne'
      have htask : tasks[j * k]? = some tasks[j * k] := List.getElem?_eq_getElem hlt
      refine Or.inr ⟨hlt, ?_⟩
      rw [tokenAt, if_neg (Nat.mul_pos hpos hk).ne', htask]
      exact hmarked j _ hpos htask
  induction n generalizing j with
  | zero => rcases hj with rfl | hlt <;> omega
  | succ n ih =>
    have hnext : j * k + k = (j + 1) * k := (Nat.succ_mul j k).symm
    rw [follow, page_of_start (pageStart_at hids hdecodes (hstart j hj)) hk hsize, hnext]
    simp only [bind, Except.bind]
    by_cases hlt : (j + 1) * k < tasks.length
    · have htoken := ((hstart (j + 1) (Or.inr hlt)).resolve_left (Nat.mul_pos j.succ_pos hk).ne').2
      rw [if_pos hlt, if_neg htoken, ih (Or.inr hlt) (by omega)]
      simp only [← hnext]
      rw [← List.drop_drop, List.take_append_drop]
    · rw [if_neg hlt, if_pos rfl, List.take_of_length_le]
      rw [List.length_drop]
      omega

theorem mem_ownerTasks {task : Task} :
    task ∈ ownerTasks docs owner ↔ ∃ d ∈ docs, d.2.owner = owner ∧ d.2.taskProto = some task := by
  simp [ownerTasks, List.mem_filterMap, and_assoc]

theorem mem_listing {task : Task} : task ∈ listing P params tasks ↔ task ∈ tasks ∧ fits P params task = true := by
  rw [listing, List.mem_insertionSort, List.mem_filter]

/-- a listing has no id twice, as the tasks have not -/
theorem listing_nodup (h : (tasks.map Task.id).Nodup) : ((listing P params tasks).map Task.id).Nodup :=
  (((List.perm_insertionSort _ _).map _).nodup_iff).2 (h.sublist ((List.filter_sublist).map _))

/-- **Pages are exact.** An owner's tasks have different ids, and tokens lead back to them. Whoever asks for page after page
comes to the last one, and has seen what one listing of all returns: each task of the owner that matches, once. This is so
as long as no page after the first starts at a task whose token is empty. -/
theorem pages_exact (hids : ((ownerTasks docs owner).map Task.id).Nodup) (hdecodes : Decodes P (ownerTasks docs owner))
    (hk : 0 < k) (hsize : params.pageSize = k) (hmarked : Marked P k (listing P params (ownerTasks docs owner))) :
    ∃ visited,
      (∀ n, visited.length < n →
        follow (fun token => list P docs owner { params with pageToken := token }) n "" = .ok visited) ∧
      (∀ m : ℕ, 0 < m → visited.length ≤ m →
        list P docs owner { params with pageSize := m, pageToken := "" } = .ok ⟨visited, "", m, visited.length⟩) ∧
      visited.Nodup ∧
      ∀ task, task ∈ visited ↔
        (∃ d ∈ docs, d.2.owner = owner ∧ d.2.taskProto = some task) ∧ fits P params task = true := by
  have hlisted : ((listing P params (ownerTasks docs owner)).map Task.id).Nodup := listing_nodup hids
  have hdecoded : Decodes P (listing P params (ownerTasks docs owner)) := fun task htask =>
    hdecodes task (mem_listing.1 htask).1
  refine ⟨listing P params (ownerTasks docs owner), fun n hn => ?_, fun m hm hle => ?_, hlisted.of_map _, fun task => ?_⟩
  · have hfollow := @follow_at P params _ k hlisted hdecoded hmarked hk hsize 0 n (Or.inl rfl) (by omega)
    rw [Nat.zero_mul, List.drop_zero] at hfollow
    exact hfollow
  · have hpage := @page_of_start P { params with pageSize := m, pageToken := "" } (listing P params (ownerTasks docs owner)) m 0
      (if_pos rfl) hm rfl
    rw [if_neg (by omega), List.drop_zero, List.take_of_length_le hle] at hpage
    exact hpage
  · rw [mem_listing, mem_ownerTasks]

end Follow

/-! ### A task without an id -/

/-- base64 of the characters of an id, as long as they are bytes -/
def samplePlatform : Platform where
  second := isoSecond
  encodePageToken id := .ofList (Base64.encode (id.toList.map fun c => .ofNat c.toNat))
  decodePageToken token := (Base64.decode token.toList).map fun bytes => .ofList (bytes.map fun b => .ofNat b.toNat)
  sha256 := id
  defaultPageSize := 50

/-- the collection of an owner with two tasks -/
def sampleDocs (first second : String) : Collection :=
  save samplePlatform "owner" ⟨first, "context", none, []⟩ (save samplePlatform "owner" ⟨second, "context", none, []⟩ [])

/-- one task a page -/
def samplePage : ListTasksRequest := { pageSize := 1 }

theorem pages_exact_sample : ∃ visited, ∀ n, visited.length < n →
    follow (fun token => list samplePlatform (sampleDocs "a" "b") "owner" { samplePage with pageToken := token }) n "" =
      .ok visited := by
  have hexact := @pages_exact samplePlatform (sampleDocs "a" "b") "owner" samplePage 1 (by decide)
    (by unfold Decodes; decide) Nat.one_pos rfl (fun j task hj htask => ?_)
  · obtain ⟨visited, hfollow, -⟩ := hexact
    exact ⟨visited, hfollow⟩
  · have hmem := (mem_listing.1 (List.mem_of_getElem? htask)).1
    have hids : ∀ task ∈ ownerTasks (sampleDocs "a" "b") "owner", samplePlatform.encodePageToken task.id ≠ "" := by
      decide
    exact hids task hmem

/-- the pages of two tasks end after the first, as the token of the second is empty -/
theorem empty_id :
    (ownerTasks (sampleDocs "" "b") "owner").map Task.id = ["b", ""] ∧
      (∀ task ∈ ownerTasks (sampleDocs "" "b") "owner",
        samplePlatform.decodePageToken (samplePlatform.encodePageToken task.id) = some task.id) ∧
      follow (fun token => list samplePlatform (sampleDocs "" "b") "owner" { samplePage with pageToken := token }) 3 "" =
        .ok [⟨"b", "context", none, []⟩] := by
  decide

end Rally.Cloud.TaskStore
