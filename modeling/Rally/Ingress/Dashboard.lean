/-
What the runner makes of an accepted dashboard job (`classify_dashboard` and the branches of `collect` in
`src/ingress.py`, the choice `serve` makes in `src/runner.py`), against what the Worker told the user.

Texts are code points on this side (`Wire.received`), so the two programs count and trim differently.

- `dashboardDetail`: the checks of `classify_dashboard`, in order.
- `titleOk_iff`, `goalOk_iff`: what these ask of a title and a goal beyond what the Worker asked.
- `accepted_runnable`: a job the Worker accepted and stored runs, with its fields, exactly when it is `Legible`; if not,
  it is quarantined.
- `tab_quarantined`: a title with a tab in it is accepted and quarantined.
-/
import Rally.Worker.Jobs

namespace Rally.Ingress

open Wire Rally.Worker

/-! ## The checks -/

/-- what a commission from the dashboard brings; it has no message id -/
structure DashboardDetail where
  task : List ℕ
  subject : List ℕ
  sender : String
  runId : List ℕ
  requestKey : List ℕ
  sourceRunId : Option (List ℕ)
  secondWind : Option Bool
  workspaceId : List ℕ
deriving DecidableEq

inductive DashboardVerdict where
  | commission (detail : DashboardDetail)
  | ignored (why : String)
deriving DecidableEq

/-- `d.get(key)` -/
def getKey (kvs : List (List ℕ × PyValue)) (key : String) : PyValue := (kvs.lookup (points key)).getD .null

/-- `set(d) == {…}` -/
def keysAre (kvs : List (List ℕ × PyValue)) (keys : List String) : Bool :=
  kvs.all (fun kv => (keys.map points).contains kv.1) && keys.all fun key => kvs.any fun kv => kv.1 = points key

def asDict : PyValue → Option (List (List ℕ × PyValue))
  | .obj kvs => some kvs
  | _ => none

def asText : PyValue → Option (List ℕ)
  | .str s => some s
  | _ => none

/-- `type(v) is int and v == 1` -/
def isOne : PyValue → Bool
  | .num (.int n) => n = 1
  | _ => false

/-- a value that must be absent, or a text of the pattern -/
def optionalText (fits : List ℕ → Bool) : PyValue → Option (Option (List ℕ))
  | .null => some none
  | .str s => if fits s then some (some s) else none
  | _ => none

/-- a value that must be absent, or a truth value -/
def optionalBool : PyValue → Option (Option Bool)
  | .null => some none
  | .bool b => some (some b)
  | _ => none

/-- `c.isspace()` of a code point -/
def pyBlank (n : ℕ) : Bool := Py.isSpace (Char.ofNat n)

/-- the digits Python's `\d` holds -/
def pyDigit (c : Char) : Bool := (Py.digit? c).isSome

/-- the checks of a title -/
def titleOk (s : List ℕ) : Bool :=
  s ≠ [] && s = trimBy pyBlank s && s.length ≤ 160 && !s.contains 10 && !s.contains 13 &&
    !s.any fun n => n < 32 || n = 127

/-- the checks of a goal -/
def goalOk (s : List ℕ) : Bool :=
  s ≠ [] && s = trimBy pyBlank s && s.length ≤ 6000 &&
    !s.any fun n => (n < 32 && n ≠ 10 && n ≠ 9) || n = 127

/-- the task of a dashboard commission -/
def dashboardTask (title goal : List ℕ) (source : Option (List ℕ)) : List ℕ :=
  title ++ points "\n\nGoal:\n" ++ goal ++
    match source with
    | some s => points "\n\nContinue from Rally run " ++ s ++ points "."
    | none => []

/-- the `job` of an envelope -/
structure DashboardJob where
  title : List ℕ
  goal : List ℕ
  sourceRunId : Option (List ℕ)
  secondWind : Option Bool
deriving DecidableEq

/-- the checks of the job -/
def dashboardJob (v : PyValue) : Option DashboardJob := do
  let job ← asDict v
  guard (keysAre job ["title", "goal", "source_run_id", "second_wind"])
  let title ← asText (getKey job "title")
  let goal ← asText (getKey job "goal")
  guard (titleOk title ∧ goalOk goal)
  let sourceRunId ← optionalText (fun s => isRunId (pointChars s)) (getKey job "source_run_id")
  let secondWind ← optionalBool (getKey job "second_wind")
  some ⟨title, goal, sourceRunId, secondWind⟩

/-- the checks of the authority: the sender and the workspace -/
def dashboardAuthority (v : PyValue) : Option (String × List ℕ) := do
  let authority ← asDict v
  guard (keysAre authority ["user_id", "email", "workspace_id"])
  let userId ← asText (getKey authority "user_id")
  let workspaceId ← asText (getKey authority "workspace_id")
  let email ← asText (getKey authority "email")
  let sender ← validEmail Py.lower (.str (String.ofList (pointChars email)))
  guard (isUserId (pointChars userId) ∧ isWorkspaceId (pointChars workspaceId))
  some (sender, workspaceId)

/-- the id of the run, where the fields that mark an envelope are in order -/
def dashboardRun (kvs : List (List ℕ × PyValue)) : Option (List ℕ) := do
  guard (keysAre kvs ["source", "schema_version", "run_id", "accepted_at", "request_fingerprint", "job", "authority"])
  let source ← asText (getKey kvs "source")
  guard (source = points "dashboard" ∧ isOne (getKey kvs "schema_version"))
  let runId ← asText (getKey kvs "run_id")
  let acceptedAt ← asText (getKey kvs "accepted_at")
  let fingerprint ← asText (getKey kvs "request_fingerprint")
  guard (isRunId (pointChars runId) ∧ isTimestamp pyDigit (pointChars acceptedAt) ∧
    isSha256Hex (pointChars fingerprint))
  some runId

/-- the detail of an envelope that passes every check -/
def dashboardDetail (payload : PyValue) : Option DashboardDetail := do
  let kvs ← asDict payload
  let runId ← dashboardRun kvs
  let job ← dashboardJob (getKey kvs "job")
  let (sender, workspaceId) ← dashboardAuthority (getKey kvs "authority")
  some ⟨dashboardTask job.title job.goal job.sourceRunId, job.title, sender, runId, runId, job.sourceRunId,
    job.secondWind, workspaceId⟩

/-- `classify_dashboard` -/
def classifyDashboard (payload : PyValue) : DashboardVerdict :=
  match dashboardDetail payload with
  | some detail => .commission detail
  | none => .ignored "invalid dashboard commission envelope"

/-- what `collect` makes of a stored payload before it asks the mail provider -/
inductive Collected where
  /-- an event of the mail provider -/
  | event
  | dashboard (verdict : DashboardVerdict)
  | unsupported
deriving DecidableEq

/-- the branches of `collect` -/
def collect (payload : PyValue) : Collected :=
  match payload with
  | .obj kvs =>
    if kvs.any fun kv => kv.1 = points "type" then .event
    else if asText (getKey kvs "source") = some (points "dashboard") then .dashboard (classifyDashboard payload)
    else .unsupported
  | _ => .unsupported

/-- whether `serve` quarantines and acknowledges it without running anything -/
def quarantines : Collected → Bool
  | .dashboard (.commission _) => false
  | .dashboard (.ignored _) => true
  | .unsupported => true
  | .event => false

/-! ## Lookups -/

@[simp] theorem getKey_cons (k : String) (v : PyValue) (kvs : List (List ℕ × PyValue)) (key : String) :
    getKey ((points k, v) :: kvs) key = if key = k then v else getKey kvs key := by
  unfold getKey
  by_cases h : key = k
  · subst h
    simp
  · have hne : (points key == points k) = false := by
      simpa [points_inj] using h
    simp [List.lookup_cons, hne, h]

/-- the received envelope -/
theorem received_envelope (runId acceptedAt fingerprint : Units) (job : Job) (identity : Identity) :
    received (envelope runId acceptedAt fingerprint job identity) =
      .obj [(points "source", .str (points "dashboard")), (points "schema_version", .num (.int 1)),
        (points "run_id", .str (decode runId)), (points "accepted_at", .str (decode acceptedAt)),
        (points "request_fingerprint", .str (decode fingerprint)),
        (points "job", .obj [(points "title", .str (decode job.title)), (points "goal", .str (decode job.goal)),
          (points "source_run_id", received (orNull job.sourceRunId)),
          (points "second_wind", match job.secondWind with | some b => .bool b | none => .null)]),
        (points "authority", .obj [(points "user_id", received (orNull identity.userId)),
          (points "email", received (orNull identity.email)),
          (points "workspace_id", .str (decode identity.workspaceId))])] := by
  have hone : receivedNumber 1 = .int 1 := by
    unfold receivedNumber
    rw [if_pos (by norm_num)]
    rfl
  cases h : job.secondWind <;>
    simp [envelope, Job.value, Identity.value, received, receivedMembers, decode_encode, hone, h]

/-! ## Texts on both ends -/

/-- the blanks of Python among the code points -/
theorem pyBlank_iff {n : ℕ} : pyBlank n = true ↔ (9 ≤ n ∧ n ≤ 13) ∨ (0x1c ≤ n ∧ n ≤ 0x20) ∨ n = 0x85 ∨ n = 0xa0 ∨
    n = 0x1680 ∨ (0x2000 ≤ n ∧ n ≤ 0x200a) ∨ n = 0x2028 ∨ n = 0x2029 ∨ n = 0x202f ∨ n = 0x205f ∨ n = 0x3000 := by
  unfold pyBlank
  by_cases hvalid : n.isValidChar
  · have hn : (Char.ofNat n).toNat = n := by
      rw [Char.ofNat, dif_pos hvalid]
      rfl
    simp only [Py.isSpace, hn, Bool.or_eq_true, Bool.and_eq_true, decide_eq_true_eq]
    omega
  · have hnul : Char.ofNat n = '\x00' := by
      simp [Char.ofNat, hvalid]
      rfl
    rw [hnul]
    unfold Nat.isValidChar at hvalid
    constructor
    · intro h
      exact absurd h (by decide)
    · intro h
      omega

/-- a code unit that is a blank for Python, not for JavaScript, and no control character the Worker refuses, is U+0085 -/
theorem pyBlank_unit {u : UInt16} (hjs : jsBlank u = false) (hsafe : unsafeControl u = false) :
    pyBlank u.toNat = true ↔ u.toNat = 0x85 := by
  rw [pyBlank_iff]
  simp only [jsBlank, unsafeControl, Bool.or_eq_false_iff, Bool.and_eq_false_iff, decide_eq_false_iff_not] at hjs hsafe
  omega

theorem pyBlank_lt {n : ℕ} (h : pyBlank n = true) : n < 0xd800 := by
  rw [pyBlank_iff] at h
  omega

/-- a text the Worker trimmed is trimmed for Python, unless U+0085 stands at one of its ends -/
theorem trimmed_iff {limit : ℕ} {s : Units} (h : Clean limit s) :
    decode s = trimBy pyBlank (decode s) ↔ (∀ u ∈ s.head?, u.toNat ≠ 0x85) ∧ ∀ u ∈ s.getLast?, u.toNat ≠ 0x85 := by
  have hhead : ∀ u ∈ s.head?, pyBlank u.toNat = true ↔ u.toNat = 0x85 :=
    fun u hu => pyBlank_unit (h.head u hu) (h.safe u (List.mem_of_mem_head? hu))
  have hlast : ∀ u ∈ s.getLast?, pyBlank u.toNat = true ↔ u.toNat = 0x85 :=
    fun u hu => pyBlank_unit (h.last u hu) (h.safe u (List.mem_of_mem_getLast? hu))
  rw [eq_comm, trimBy_eq_self]
  constructor
  · rintro ⟨hfirst, hfinal⟩
    constructor
    · intro u hu h85
      have hblank := (hhead u hu).2 h85
      exact absurd hblank (by simp [hfirst _ ((head_decode (pyBlank_lt hblank)).2 ⟨u, hu, rfl⟩)])
    · intro u hu h85
      have hblank := (hlast u hu).2 h85
      exact absurd hblank (by simp [hfinal _ ((last_decode (pyBlank_lt hblank)).2 ⟨u, hu, rfl⟩)])
  · rintro ⟨hfirst, hfinal⟩
    constructor
    · intro n hn
      by_contra hblank
      simp only [Bool.not_eq_false] at hblank
      obtain ⟨u, hu, rfl⟩ := (head_decode (pyBlank_lt hblank)).1 hn
      exact hfirst u hu ((hhead u hu).1 hblank)
    · intro n hn
      by_contra hblank
      simp only [Bool.not_eq_false] at hblank
      obtain ⟨u, hu, rfl⟩ := (last_decode (pyBlank_lt hblank)).1 hn
      exact hfinal u hu ((hlast u hu).1 hblank)

/-- what is left of a clean text is not empty, nor longer -/
theorem clean_decode {limit : ℕ} {s : Units} (h : Clean limit s) :
    decode s ≠ [] ∧ (decode s).length ≤ limit := by
  obtain ⟨u, t, rfl⟩ := List.exists_cons_of_ne_nil h.nonempty
  exact ⟨decode_ne_nil, (length_decode_le _).trans h.length⟩

/-- a control character of a clean text is a tab or a line break -/
theorem clean_control {limit : ℕ} {s : Units} (h : Clean limit s) {n : ℕ} (hn : n ∈ decode s)
    (hc : n < 32 ∨ n = 127) : n = 9 ∨ n = 10 ∨ n = 13 := by
  obtain ⟨u, hu, rfl⟩ := (mem_decode (by omega)).1 hn
  have hsafe := h.safe u hu
  simp only [unsafeControl, Bool.or_eq_false_iff, Bool.and_eq_false_iff, decide_eq_false_iff_not] at hsafe
  omega

/-- a title the Worker took is one for Python when it has no tab and U+0085 at neither end -/
theorem titleOk_iff {job : Job} (h : job.Normal) : titleOk (decode job.title) = true ↔
    (∀ u ∈ job.title, u.toNat ≠ 9) ∧ (∀ u ∈ job.title.head?, u.toNat ≠ 0x85) ∧
      ∀ u ∈ job.title.getLast?, u.toNat ≠ 0x85 := by
  obtain ⟨hne, hlength⟩ := clean_decode h.title
  have hbreak : ∀ n ∈ decode job.title, n ≠ 10 ∧ n ≠ 13 := by
    intro n hn
    by_contra hbad
    obtain ⟨u, hu, rfl⟩ := (mem_decode (by omega)).1 hn
    have hline := h.oneLine u hu
    simp only [lineBreak, Bool.or_eq_false_iff, decide_eq_false_iff_not] at hline
    omega
  unfold titleOk
  simp only [Bool.and_eq_true, decide_eq_true_eq, Bool.not_eq_true', List.any_eq_false, List.contains_eq_mem,
    decide_eq_false_iff_not, Bool.or_eq_true, not_or, trimmed_iff h.title]
  constructor
  · rintro ⟨⟨⟨⟨⟨-, hends⟩, -⟩, -⟩, -⟩, hsafe⟩
    refine ⟨fun u hu h9 => ?_, hends⟩
    have hmem : 9 ∈ decode job.title := (mem_decode (by omega)).2 ⟨u, hu, h9⟩
    exact absurd (hsafe 9 hmem).1 (by omega)
  · rintro ⟨htab, hends⟩
    refine ⟨⟨⟨⟨⟨hne, hends⟩, hlength⟩, fun h10 => (hbreak 10 h10).1 rfl⟩, fun h13 => (hbreak 13 h13).2 rfl⟩, ?_⟩
    intro n hn
    by_contra hc
    have hcontrol := clean_control h.title hn (by omega)
    have hno := hbreak n hn
    obtain ⟨u, hu, h9⟩ := (mem_decode (by omega)).1 hn
    exact htab u hu (by omega)

/-- a goal the Worker took is one for Python when it has no carriage return and U+0085 at neither end -/
theorem goalOk_iff {job : Job} (h : job.Normal) : goalOk (decode job.goal) = true ↔
    (∀ u ∈ job.goal, u.toNat ≠ 13) ∧ (∀ u ∈ job.goal.head?, u.toNat ≠ 0x85) ∧
      ∀ u ∈ job.goal.getLast?, u.toNat ≠ 0x85 := by
  obtain ⟨hne, hlength⟩ := clean_decode h.goal
  unfold goalOk
  simp only [Bool.and_eq_true, decide_eq_true_eq, Bool.not_eq_true', List.any_eq_false, Bool.or_eq_true, not_or,
    trimmed_iff h.goal]
  constructor
  · rintro ⟨⟨⟨-, hends⟩, -⟩, hsafe⟩
    refine ⟨fun u hu h13 => ?_, hends⟩
    have hmem : 13 ∈ decode job.goal := (mem_decode (by omega)).2 ⟨u, hu, h13⟩
    exact absurd (hsafe 13 hmem).1 (by omega)
  · rintro ⟨hreturn, hends⟩
    refine ⟨⟨⟨hne, hends⟩, hlength⟩, ?_⟩
    intro n hn
    by_contra hc
    have hcontrol := clean_control h.goal hn (by omega)
    obtain ⟨u, hu, h13⟩ := (mem_decode (by omega)).1 hn
    exact hreturn u hu (by omega)

/-! ## Patterns on both ends -/

theorem nul_not_mem {p : Char → Bool} (hp : p '\x00' = false) {s : List Char} (h : s.all p = true) : '\x00' ∉ s := by
  intro hmem
  rw [List.all_eq_true] at h
  exact absurd (h _ hmem) (by simp [hp])

theorem isRunId_points {s : Units} (h : isRunId (unitChars s) = true) : pointChars (decode s) = unitChars s := by
  apply chars_decode
  simp only [isRunId, Bool.and_eq_true, decide_eq_true_eq] at h
  obtain ⟨⟨⟨hfront, -⟩, -⟩, hrest⟩ := h
  rw [← List.take_append_drop 2 (unitChars s), List.mem_append, not_or]
  exact ⟨by rw [hfront]; decide, nul_not_mem (by decide) hrest⟩

theorem isUserId_points {s : Units} (h : isUserId (unitChars s) = true) : pointChars (decode s) = unitChars s := by
  apply chars_decode
  simp only [isUserId, Bool.and_eq_true] at h
  exact nul_not_mem (by decide) h.2

theorem isWorkspaceId_points {s : Units} (h : isWorkspaceId (unitChars s) = true) :
    pointChars (decode s) = unitChars s := by
  apply chars_decode
  simp only [isWorkspaceId, Bool.and_eq_true] at h
  exact nul_not_mem (by decide) h.2

theorem isSha256Hex_points {s : Units} (h : isSha256Hex (unitChars s) = true) :
    pointChars (decode s) = unitChars s := by
  apply chars_decode
  simp only [isSha256Hex, Bool.and_eq_true] at h
  exact nul_not_mem (by decide) h.2

theorem nul_fits_nothing {c : Char} (h : c ≠ '\x00') :
    (if c = '0' then jsDigit '\x00' else decide (c = '\x00')) = false := by
  have hnul : jsDigit '\x00' = false := by decide
  simp [hnul, h]

theorem isTimestamp_points {s : Units} (h : isTimestamp jsDigit (unitChars s) = true) :
    pointChars (decode s) = unitChars s := by
  apply chars_decode
  simp only [isTimestamp, Bool.and_eq_true, decide_eq_true_eq] at h
  obtain ⟨⟨hlength, hshape⟩, hend⟩ := h
  rw [← List.take_append_drop 19 (unitChars s), List.mem_append, not_or]
  constructor
  · intro hmem
    obtain ⟨i, hi, hnul⟩ := List.mem_iff_getElem.1 hmem
    have hi19 : i < "0000-00-00T00:00:00".toList.length := by
      rw [hlength] at hi
      simpa using hi
    have hi' : i < (unitChars s).length := by
      rw [List.length_take] at hi
      omega
    have hzip : ("0000-00-00T00:00:00".toList[i], (unitChars s)[i]) ∈
        "0000-00-00T00:00:00".toList.zip (unitChars s) :=
      List.mem_iff_getElem.2 ⟨i, by simp; omega, by simp⟩
    have hfits := List.all_eq_true.1 hshape _ hzip
    rw [List.getElem_take] at hnul
    rw [hnul] at hfits
    have hno : ∀ c ∈ "0000-00-00T00:00:00".toList, c ≠ '\x00' := by simp
    exact absurd hfits (by rw [nul_fits_nothing (hno _ (List.getElem_mem hi19))]; simp)
  · intro hmem
    split at hend
    · rename_i hdrop
      rw [hdrop] at hmem
      exact absurd hmem (by decide)
    · rename_i rest hdrop
      simp only [Bool.and_eq_true, decide_eq_true_eq] at hend
      obtain ⟨⟨hlast, -⟩, hall⟩ := hend
      rw [hdrop, ← List.dropLast_append_getLast? _ hlast] at hmem
      rcases List.mem_cons.1 hmem with hdot | hmem
      · exact absurd hdot (by decide)
      · rcases List.mem_append.1 hmem with hdigit | hz
        · exact nul_not_mem (by decide) hall hdigit
        · exact absurd hz (by decide)
    · cases hend

/-- a time for JavaScript is one for Python -/
theorem isTimestamp_py {s : List Char} (h : isTimestamp jsDigit s = true) : isTimestamp pyDigit s = true := by
  have hdigit : ∀ c, jsDigit c = true → pyDigit c = true := by
    intro c hc
    have hn : c.val.toNat = c.toNat := rfl
    simp only [jsDigit, Char.isDigit, Bool.and_eq_true, decide_eq_true_eq, ge_iff_le, UInt32.le_iff_toNat_le, hn] at hc
    have hrange : 0x30 ≤ c.toNat ∧ c.toNat < 0x30 + 10 := by
      obtain ⟨h1, h2⟩ := hc
      simp at h1 h2
      omega
    simp only [pyDigit, Py.digit?, Py.digitZeros]
    rw [List.findSome?_cons, if_pos hrange]
    rfl
  have hall : ∀ ds : List Char, ds.all jsDigit = true → ds.all pyDigit = true :=
    fun ds hds => List.all_eq_true.2 fun c hc => hdigit c (List.all_eq_true.1 hds c hc)
  simp only [isTimestamp, Bool.and_eq_true, decide_eq_true_eq] at h ⊢
  obtain ⟨⟨hlength, hshape⟩, hend⟩ := h
  refine ⟨⟨hlength, List.all_eq_true.2 fun p hp => ?_⟩, ?_⟩
  · have hfits := List.all_eq_true.1 hshape p hp
    by_cases h0 : p.1 = '0'
    · simp only [h0, if_true] at hfits ⊢
      simpa using hdigit _ (by simpa using hfits)
    · simpa [h0] using hfits
  · split at hend
    · rfl
    · simp only [Bool.and_eq_true] at hend ⊢
      exact ⟨hend.1, hall _ hend.2⟩
    · cases hend

/-! ## Addresses on both ends -/

theorem isAlphanum_range {c : Char} (h : c.isAlphanum = true) : 48 ≤ c.toNat ∧ c.toNat < 127 := by
  have hn : c.val.toNat = c.toNat := rfl
  delta Char.isAlphanum Char.isAlpha Char.isUpper Char.isLower Char.isDigit at h
  simp only [Bool.or_eq_true, Bool.and_eq_true, decide_eq_true_eq, ge_iff_le, UInt32.le_iff_toNat_le, hn] at h
  simp at h
  omega

theorem isLocalChar_range {c : Char} (h : isLocalChar c = true) : 33 ≤ c.toNat ∧ c.toNat < 127 := by
  have hsymbols : ∀ c ∈ ".!#$%&'*+/=?^_`\x7b|\x7d~-".toList, 33 ≤ c.toNat ∧ c.toNat < 127 := by simp
  unfold isLocalChar at h
  rcases Bool.or_eq_true _ _ ▸ h with h | h
  · have hrange := isAlphanum_range h
    omega
  · exact hsymbols c (by simpa using h)

/-- a simple address is one for Python, and has only printing ASCII characters -/
theorem isSimpleEmail_isEmail {s : List Char} (h : isSimpleEmail s = true) :
    isEmail s = true ∧ ∀ c ∈ s, 33 ≤ c.toNat ∧ c.toNat < 127 := by
  unfold isSimpleEmail at h
  split at h
  swap
  · cases h
  rename_i name domain hsplit
  simp only [Bool.and_eq_true] at h
  obtain ⟨⟨⟨⟨⟨⟨⟨⟨⟨⟨h1, h2⟩, hname⟩, h3⟩, h4⟩, hdomain⟩, h5⟩, h6⟩, h7⟩, hdot⟩, hlabels⟩ := h
  have hs : s = name ++ '@' :: domain := by
    have hjoin := @List.intercalate_splitOn _ s _ _ '@'
    rw [hsplit] at hjoin
    simpa [List.intercalate] using hjoin.symm
  constructor
  · have htwo : 2 ≤ (domain.splitOn '.').length := by
      by_contra hlt
      obtain ⟨label, hlabel⟩ := List.length_eq_one_iff.1
        (Nat.le_antisymm (by omega) (List.length_pos_iff.2 (List.splitOn_ne_nil '.' domain)))
      have hjoin := @List.intercalate_splitOn _ domain _ _ '.'
      rw [hlabel] at hjoin
      obtain rfl : label = domain := by simpa [List.intercalate] using hjoin
      have hfit : domainLabel label = true := List.all_eq_true.1 hlabels label (by simp [hlabel])
      have hdot' : '.' ∈ label := by simpa using hdot
      simp only [domainLabel, Bool.and_eq_true, List.all_eq_true] at hfit
      exact absurd (hfit.1.1.2 '.' hdot') (by decide)
    unfold isEmail
    rw [hsplit]
    simp [h1, h2, hname, h3, h4, hdomain, h5, h6, h7, htwo, hlabels]
  · intro c hc
    rw [hs] at hc
    rcases List.mem_append.1 hc with hc | hc
    · exact isLocalChar_range (List.all_eq_true.1 hname c hc)
    · rcases List.mem_cons.1 hc with rfl | hc
      · decide
      · have hchar := List.all_eq_true.1 hdomain c hc
        simp only [Bool.or_eq_true, decide_eq_true_eq] at hchar
        rcases hchar with (halnum | rfl) | rfl
        · have hrange := isAlphanum_range halnum
          omega
        · decide
        · decide

/-- lower case has no capital letters -/
theorem lowerChars_capital {t : List Char} : ∀ c ∈ lowerChars t, ¬ (65 ≤ c.toNat ∧ c.toNat ≤ 90) := by
  have hlower : ∀ c : Char, ¬ (65 ≤ c.toLower.toNat ∧ c.toLower.toNat ≤ 90) := by
    intro c
    have hn : c.val.toNat = c.toNat := rfl
    unfold Char.toLower
    split_ifs with h
    · simp only [ge_iff_le, UInt32.le_iff_toNat_le, hn] at h
      have hshift : ('a'.val - 'A'.val).toNat = 32 := by decide
      simp only [Char.toNat, UInt32.toNat_add, hshift]
      simp only [Char.toNat] at h
      simp at h
      omega
    · simp only [ge_iff_le, UInt32.le_iff_toNat_le, hn] at h
      simpa using h
  intro c hc
  rw [lowerChars_eq] at hc
  obtain ⟨d, -, hd⟩ := List.mem_flatMap.1 hc
  split at hd
  · rcases List.mem_cons.1 hd with rfl | hd
    · decide
    · obtain rfl := List.mem_singleton.1 hd
      decide
  · obtain rfl := List.mem_singleton.1 hd
    decide
  · obtain rfl := List.mem_singleton.1 hd
    exact hlower d

/-- an address the Worker normalized is the one Python finds in it -/
theorem validEmail_simple {t : List Char} (h : isSimpleEmail (lowerChars t) = true) :
    validEmail Py.lower (.str (String.ofList (lowerChars t))) = some (String.ofList (lowerChars t)) := by
  obtain ⟨hemail, hrange⟩ := isSimpleEmail_isEmail h
  have hstrip : Py.strip (String.ofList (lowerChars t)) = String.ofList (lowerChars t) := by
    have hblank : ∀ c ∈ lowerChars t, Py.isSpace c = false := by
      intro c hc
      obtain ⟨h1, h2⟩ := hrange c hc
      simp only [Py.isSpace, Bool.or_eq_false_iff, Bool.and_eq_false_iff, decide_eq_false_iff_not]
      omega
    have htrim : trimBy Py.isSpace (lowerChars t) = lowerChars t :=
      trimBy_eq_self.2 ⟨fun c hc => hblank c (List.mem_of_mem_head? hc), fun c hc => hblank c (List.mem_of_mem_getLast? hc)⟩
    unfold Py.strip
    rw [String.toList_ofList]
    exact congrArg String.ofList htrim
  have hlower : Py.lower (String.ofList (lowerChars t)) = String.ofList (lowerChars t) := by
    have hagain : lowerChars (lowerChars t) = lowerChars t := by
      rw [lowerChars_map fun c hc => ?_]
      · conv_rhs => rw [← List.map_id (lowerChars t)]
        refine List.map_congr_left fun c hc => ?_
        have hcap := lowerChars_capital c hc
        have hn : c.val.toNat = c.toNat := rfl
        unfold Char.toLower
        refine dif_neg ?_
        simp only [ge_iff_le, UInt32.le_iff_toNat_le, hn]
        simpa using hcap
      · obtain ⟨h1, h2⟩ := hrange c hc
        omega
    rw [← String.ofList_toList (s := Py.lower (String.ofList (lowerChars t)))]
    exact congrArg String.ofList hagain
  unfold validEmail
  dsimp only
  rw [hstrip, hlower, String.toList_ofList, if_pos hemail]

theorem pointChars_encode (s : List Char) : pointChars (decode (encode (String.ofList s))) = s := by
  rw [decode_encode]
  simp [points, pointChars, Function.comp_def]

/-! ## Accepted means runnable -/

/-- what both programs read alike: no tab in the title, no carriage return in the goal, and U+0085 at no end -/
structure Legible (job : Job) : Prop where
  title : (∀ u ∈ job.title, u.toNat ≠ 9) ∧ (∀ u ∈ job.title.head?, u.toNat ≠ 0x85) ∧
    ∀ u ∈ job.title.getLast?, u.toNat ≠ 0x85
  goal : (∀ u ∈ job.goal, u.toNat ≠ 13) ∧ (∀ u ∈ job.goal.head?, u.toNat ≠ 0x85) ∧
    ∀ u ∈ job.goal.getLast?, u.toNat ≠ 0x85

/-- the commission of a job: its own title, goal, source and choices, for the user the Worker knows -/
def commissionOf (runId : Units) (job : Job) (identity : Identity) (sender : String) : DashboardDetail :=
  { task := dashboardTask (decode job.title) (decode job.goal) (job.sourceRunId.map decode)
    subject := decode job.title
    sender := sender
    runId := decode runId
    requestKey := decode runId
    sourceRunId := job.sourceRunId.map decode
    secondWind := job.secondWind
    workspaceId := decode identity.workspaceId }

theorem optionalText_source {source : Option Units} (h : ∀ s ∈ source, isRunId (unitChars s) = true) :
    optionalText (fun s => isRunId (pointChars s)) (received (orNull source)) = some (source.map decode) := by
  cases source with
  | none => rfl
  | some s =>
    have hs := h s rfl
    simp [orNull, received, optionalText, isRunId_points hs, hs]

theorem optionalBool_wind (wind : Option Bool) :
    optionalBool (match wind with | some b => .bool b | none => .null) = some wind := by
  cases wind <;> rfl

theorem guard_bind {α : Type} (p : Prop) [Decidable p] (x : Option α) :
    ((guard p : Option Unit).bind fun _ => x) = if p then x else none := by
  unfold guard
  split_ifs <;> rfl

theorem dashboardJob_received {job : Job} (h : ∀ s ∈ job.sourceRunId, isRunId (unitChars s) = true) :
    dashboardJob (.obj [(points "title", .str (decode job.title)), (points "goal", .str (decode job.goal)),
      (points "source_run_id", received (orNull job.sourceRunId)),
      (points "second_wind", match job.secondWind with | some b => .bool b | none => .null)]) =
    if titleOk (decode job.title) ∧ goalOk (decode job.goal) then
      some ⟨decode job.title, decode job.goal, job.sourceRunId.map decode, job.secondWind⟩
    else none := by
  have hkeys : ∀ v₁ v₂ v₃ v₄ : PyValue, keysAre [(points "title", v₁), (points "goal", v₂),
      (points "source_run_id", v₃), (points "second_wind", v₄)]
      ["title", "goal", "source_run_id", "second_wind"] = true := by
    intro v₁ v₂ v₃ v₄
    simp [keysAre, points_inj]
  simp only [dashboardJob, asDict, Option.bind_eq_bind, Option.bind_some, guard_bind, hkeys, getKey_cons, if_true]
  simp [asText, optionalText_source h, optionalBool_wind]

theorem dashboardAuthority_received {userId email : Units} {identity : Identity} {sender : String}
    (huser : identity.userId = some userId) (hemail : identity.email = some email) (hvalid : identity.Valid)
    (hsender : validEmail Py.lower (.str (String.ofList (pointChars (decode email)))) = some sender) :
    dashboardAuthority (.obj [(points "user_id", received (orNull identity.userId)),
      (points "email", received (orNull identity.email)), (points "workspace_id", .str (decode identity.workspaceId))]) =
    some (sender, decode identity.workspaceId) := by
  have hkeys : ∀ v₁ v₂ v₃ : PyValue, keysAre [(points "user_id", v₁), (points "email", v₂),
      (points "workspace_id", v₃)] ["user_id", "email", "workspace_id"] = true := by
    intro v₁ v₂ v₃
    simp [keysAre, points_inj]
  have hid := hvalid.user userId huser
  have hid' : isUserId (pointChars (decode userId)) = true := by
    rw [isUserId_points hid]
    exact hid
  have hworkspace : isWorkspaceId (pointChars (decode identity.workspaceId)) = true := by
    rw [isWorkspaceId_points hvalid.workspace]
    exact hvalid.workspace
  rw [huser, hemail]
  simp only [dashboardAuthority, asDict, Option.bind_eq_bind, Option.bind_some, guard_bind, hkeys, getKey_cons, if_true,
    orNull, received]
  simp [asText, hsender, hid', hworkspace]

theorem dashboardRun_of {kvs : List (List ℕ × PyValue)} {runId acceptedAt fingerprint : List ℕ}
    (hkeys : keysAre kvs ["source", "schema_version", "run_id", "accepted_at", "request_fingerprint", "job",
      "authority"] = true)
    (hsource : getKey kvs "source" = .str (points "dashboard"))
    (hversion : getKey kvs "schema_version" = .num (.int 1)) (hid : getKey kvs "run_id" = .str runId)
    (hat : getKey kvs "accepted_at" = .str acceptedAt)
    (hprint : getKey kvs "request_fingerprint" = .str fingerprint)
    (h : isRunId (pointChars runId) = true ∧ isTimestamp pyDigit (pointChars acceptedAt) = true ∧
      isSha256Hex (pointChars fingerprint) = true) : dashboardRun kvs = some runId := by
  have hone : isOne (.num (.int 1)) = true := rfl
  unfold dashboardRun
  rw [hsource, hversion, hid, hat, hprint]
  simp only [Option.bind_eq_bind, guard_bind, hkeys, asText, Option.bind_some, hone, h, true_and, if_true]

theorem dashboardRun_received {runId acceptedAt fingerprint : Units} {job authority : PyValue}
    (hrun : isRunId (unitChars runId) = true) (htime : isTimestamp jsDigit (unitChars acceptedAt) = true)
    (hfingerprint : isSha256Hex (unitChars fingerprint) = true) :
    dashboardRun [(points "source", .str (points "dashboard")), (points "schema_version", .num (.int 1)),
      (points "run_id", .str (decode runId)), (points "accepted_at", .str (decode acceptedAt)),
      (points "request_fingerprint", .str (decode fingerprint)), (points "job", job),
      (points "authority", authority)] = some (decode runId) := by
  refine @dashboardRun_of _ _ (decode acceptedAt) (decode fingerprint) ?_ ?_ ?_ ?_ ?_ ?_ ?_
  · simp [keysAre, points_inj]
  · simp
  · simp
  · simp
  · simp
  · simp
  · rw [isRunId_points hrun, isTimestamp_points htime, isSha256Hex_points hfingerprint]
    exact ⟨hrun, isTimestamp_py htime, hfingerprint⟩

/-- an envelope with valid fields is a commission when its title and its goal are -/
theorem dashboardDetail_envelope {runId acceptedAt fingerprint userId email : Units} {job : Job} {identity : Identity}
    {sender : String} (hrun : isRunId (unitChars runId) = true)
    (htime : isTimestamp jsDigit (unitChars acceptedAt) = true)
    (hfingerprint : isSha256Hex (unitChars fingerprint) = true)
    (hsource : ∀ s ∈ job.sourceRunId, isRunId (unitChars s) = true)
    (huser : identity.userId = some userId) (hemail : identity.email = some email) (hvalid : identity.Valid)
    (hsender : validEmail Py.lower (.str (String.ofList (pointChars (decode email)))) = some sender) :
    dashboardDetail (received (envelope runId acceptedAt fingerprint job identity)) =
      if titleOk (decode job.title) ∧ goalOk (decode job.goal) then some (commissionOf runId job identity sender)
      else none := by
  rw [received_envelope]
  simp only [dashboardDetail, asDict, Option.bind_eq_bind, Option.bind_some]
  rw [dashboardRun_received hrun htime hfingerprint]
  simp only [Option.bind_some, getKey_cons]
  simp only [String.reduceEq, if_true, if_false]
  rw [dashboardJob_received hsource, dashboardAuthority_received huser hemail hvalid hsender]
  split_ifs <;> rfl

/-- the address a valid identity has, on both ends -/
theorem Identity.sender {identity : Identity} {email : Units} (hvalid : identity.Valid)
    (hemail : identity.email = some email) : ∃ sender,
    validEmail Py.lower (.str (String.ofList (pointChars (decode email)))) = some sender ∧
      points sender = decode email := by
  obtain ⟨t, rfl, ht⟩ := hvalid.email email hemail
  refine ⟨String.ofList (lowerChars t), ?_, (decode_encode _).symm⟩
  rw [pointChars_encode]
  exact validEmail_simple ht

/-- what the runner makes of a stored job -/
theorem accepted_classified {P : Platform} {draw : Draw} {views : Views} {request : Request} {workspace : Workspace}
    {credentials : Bool} {upstream : Upstream} {secret runId acceptedAt : Units} {message : Message} {body : JsValue}
    {job : Job} (hidentity : authenticatedWorkspace P credentials upstream secret = .ok workspace)
    (haccepted : createManualJob P draw views request workspace = (.accepted runId acceptedAt, some message))
    (hbody : request.body = .json body) (hjob : normalizeManualJob body = .ok job) :
    ∃ v sender, message.payload = some v ∧ workspace.identity.email.map decode = some (points sender) ∧
      (Legible job → classifyDashboard (received v) = .commission (commissionOf runId job workspace.identity sender)) ∧
      (¬ Legible job → classifyDashboard (received v) = .ignored "invalid dashboard commission envelope") ∧
      collect (received v) = .dashboard (classifyDashboard (received v)) := by
  obtain ⟨body', job', userId, email, hbody', hjob', huser, hemail, hstored⟩ := accepted_stores haccepted
  obtain rfl : body' = body := Body.json.inj (hbody'.symm.trans hbody)
  obtain rfl : job' = job := Except.ok.inj (hjob'.symm.trans hjob)
  have hnormal := normalizeManualJob_normal hjob
  have hvalid := authenticatedWorkspace_valid hidentity
  obtain ⟨sender, hsender, hpoints⟩ := Identity.sender hvalid hemail
  have hdetail := dashboardDetail_envelope hstored.run hstored.time hstored.fingerprint hnormal.source huser hemail
    hvalid hsender
  have hlegible : titleOk (decode job'.title) = true ∧ goalOk (decode job'.goal) = true ↔ Legible job' := by
    rw [titleOk_iff hnormal, goalOk_iff hnormal]
    exact ⟨fun h => ⟨h.1, h.2⟩, fun h => ⟨h.title, h.goal⟩⟩
  refine ⟨_, sender, hstored.payload, by rw [hemail, Option.map_some, hpoints], ?_, ?_, ?_⟩
  · intro h
    unfold classifyDashboard
    rw [hdetail, if_pos (hlegible.2 h)]
  · intro h
    unfold classifyDashboard
    rw [hdetail, if_neg fun hok => h (hlegible.1 hok)]
  · have hsource : ∀ kvs, asText (getKey ((points "source", .str (points "dashboard")) :: kvs) "source") =
        some (points "dashboard") := by
      intro kvs
      rw [getKey_cons, if_pos rfl]
      rfl
    rw [received_envelope]
    unfold collect
    dsimp only
    rw [if_neg (by simp [points_inj]), if_pos (hsource _)]

/-- **Accepted means runnable.** Whatever the request, the identity, the key and the other calls: a job answered 202 and
stored is a commission for the runner, with the run id the user was told, its title, goal, source run and authority,
exactly when it is legible; if it is not, it is quarantined and acknowledged away. -/
theorem accepted_runnable {P : Platform} {draw : Draw} {views : Views} {request : Request} {workspace : Workspace}
    {credentials : Bool} {upstream : Upstream} {secret runId acceptedAt : Units} {message : Message} {body : JsValue}
    {job : Job} (hidentity : authenticatedWorkspace P credentials upstream secret = .ok workspace)
    (haccepted : createManualJob P draw views request workspace = (.accepted runId acceptedAt, some message))
    (hbody : request.body = .json body) (hjob : normalizeManualJob body = .ok job) :
    ((∃ v sender, message.payload = some v ∧ workspace.identity.email.map decode = some (points sender) ∧
      classifyDashboard (received v) = .commission (commissionOf runId job workspace.identity sender)) ↔ Legible job) ∧
    ((∃ v, message.payload = some v ∧ quarantines (collect (received v)) = true) ↔ ¬ Legible job) := by
  obtain ⟨v, sender, hpayload, hemail, hrun, hignored, hcollect⟩ :=
    accepted_classified hidentity haccepted hbody hjob
  constructor
  · constructor
    · rintro ⟨v', sender', hpayload', -, hclassify⟩
      obtain rfl := Option.some.inj (hpayload.symm.trans hpayload')
      by_contra h
      rw [hignored h] at hclassify
      cases hclassify
    · intro h
      exact ⟨v, sender, hpayload, hemail, hrun h⟩
  · constructor
    · rintro ⟨v', hpayload', hquarantine⟩ h
      obtain rfl := Option.some.inj (hpayload.symm.trans hpayload')
      rw [hcollect, hrun h] at hquarantine
      cases hquarantine
    · intro h
      refine ⟨v, hpayload, ?_⟩
      rw [hcollect, hignored h]
      rfl

/-! ### Two jobs -/

/-- the digests of the two jobs below, of their event, and the key of their workspace -/
def samplePlatform : Platform where
  stringify v :=
    match prop v "title" with
    | some (.str title) => title
    | _ => []
  toText _ := []
  sha256Hex s :=
    if s = encode "Fix the login page" then encode "8c0ea3150080aff65723e99f07342d889fa9c368a9c62ae9e06fd74b1948b4a9"
    else if s = encode "Fix\tthe login page" then
      encode "78a9537bc33bf077074fdac723d63a6cf05fea5bf64522c86e381ae722aed659"
    else encode "ce355a15d4b1cd13f4ba3528b513845a2cb8949b47d52c76947085a96acd2969"
  hmacHex _ _ := encode "c4d35d4aeeb44d970b05905271fe2b60dde00491160f73242e5935ade95e33fa"

def sampleUpstream : Upstream :=
  .identity (.obj [(encode "uid", .str (encode "user-1")), (encode "email", .str (encode "Ann@example.com")),
    (encode "workspace_id", .str (encode "team-1"))])

def sampleWorkspace : Workspace :=
  ⟨encode "c4d35d4aeeb44d970b05905271fe2b60dde00491160f73242e5935ade95e33fa",
    ⟨some (encode "user-1"), some (encode "ann@example.com"), encode "team-1"⟩⟩

def sampleBody (title : String) : JsValue :=
  .obj [(encode "title", .str (encode title)), (encode "goal", .str (encode "All tests pass"))]

def sampleRequest (title : String) : Request := ⟨"application/json", encode "dashboard-key-0001", .json (sampleBody title)⟩

def sampleJob (title : String) : Job := ⟨encode title, encode "All tests pass", none, none⟩

def sampleDraw : Draw :=
  ⟨encode "2026-03-01T09:30:00.000Z", encode "6f1c2d3e-4a5b-4c6d-8e7f-9a0b1c2d3e4f",
    encode "0a1b2c3d-4e5f-4a6b-8c7d-9e0f1a2b3c4d"⟩

/-- an empty database -/
def sampleViews : Views := ⟨some [], some [], some [], some [], [], [], .done, [], true⟩

theorem sample_stored {title : String}
    (h : (createManualJob samplePlatform sampleDraw sampleViews (sampleRequest title) sampleWorkspace).1 =
      .accepted (newRunId sampleDraw) sampleDraw.now)
    (hsome : (createManualJob samplePlatform sampleDraw sampleViews (sampleRequest title) sampleWorkspace).2.isSome) :
    ∃ message, createManualJob samplePlatform sampleDraw sampleViews (sampleRequest title) sampleWorkspace =
      (.accepted (newRunId sampleDraw) sampleDraw.now, some message) := by
  obtain ⟨message, hmessage⟩ := Option.isSome_iff_exists.1 hsome
  exact ⟨message, Prod.ext h hmessage⟩

theorem sample_identity :
    authenticatedWorkspace samplePlatform true sampleUpstream (encode "partition-secret") = .ok sampleWorkspace := by
  decide +kernel

/-- a text with neither of two characters -/
theorem text_without {s : Units} {n m : ℕ} (h : (s.all fun u => u.toNat ≠ n && u.toNat ≠ m) = true) :
    (∀ u ∈ s, u.toNat ≠ n) ∧ (∀ u ∈ s.head?, u.toNat ≠ m) ∧ ∀ u ∈ s.getLast?, u.toNat ≠ m := by
  have hall : ∀ u ∈ s, u.toNat ≠ n ∧ u.toNat ≠ m := by simpa using h
  exact ⟨fun u hu => (hall u hu).1, fun u hu => (hall u (List.mem_of_mem_head? hu)).2,
    fun u hu => (hall u (List.mem_of_mem_getLast? hu)).2⟩

/-- an accepted job with a legible title runs -/
theorem accepted_runnable_sample : ∃ message, createManualJob samplePlatform sampleDraw sampleViews
      (sampleRequest "Fix the login page") sampleWorkspace =
        (.accepted (newRunId sampleDraw) sampleDraw.now, some message) ∧
    ∃ v sender, message.payload = some v ∧ sampleWorkspace.identity.email.map decode = some (points sender) ∧
      classifyDashboard (received v) = .commission
        (commissionOf (newRunId sampleDraw) (sampleJob "Fix the login page") sampleWorkspace.identity sender) := by
  obtain ⟨message, hmessage⟩ := @sample_stored "Fix the login page" (by decide +kernel) (by decide +kernel)
  have hjob : normalizeManualJob (sampleBody "Fix the login page") = .ok (sampleJob "Fix the login page") := by
    decide +kernel
  have hlegible : Legible (sampleJob "Fix the login page") :=
    ⟨text_without (by decide +kernel), text_without (by decide +kernel)⟩
  exact ⟨message, hmessage, (accepted_runnable sample_identity hmessage rfl hjob).1.2 hlegible⟩

/-- an accepted job whose title has a tab in it is quarantined -/
theorem tab_quarantined : ∃ message v, createManualJob samplePlatform sampleDraw sampleViews
      (sampleRequest "Fix\tthe login page") sampleWorkspace =
        (.accepted (newRunId sampleDraw) sampleDraw.now, some message) ∧
    message.payload = some v ∧
    classifyDashboard (received v) = .ignored "invalid dashboard commission envelope" ∧
    quarantines (collect (received v)) = true := by
  obtain ⟨message, hmessage⟩ := @sample_stored "Fix\tthe login page" (by decide +kernel) (by decide +kernel)
  have hjob : normalizeManualJob (sampleBody "Fix\tthe login page") = .ok (sampleJob "Fix\tthe login page") := by
    decide +kernel
  have htab : ¬ Legible (sampleJob "Fix\tthe login page") := by
    intro h
    exact h.title.1 9 (by decide +kernel) rfl
  obtain ⟨v, -, hpayload, -, -, hignored, hcollect⟩ := accepted_classified sample_identity hmessage rfl hjob
  refine ⟨message, v, hmessage, hpayload, hignored htab, ?_⟩
  rw [hcollect, hignored htab]
  rfl

end Rally.Ingress
