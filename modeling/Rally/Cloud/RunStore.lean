/-
The commission records of the control plane (`cloud/store.py`): one record of a run, found by its run id and by its
request key, in memory or in two Firestore collections.

- `MemoryRunStore` maps a request key to a run id and a run id to a record; `FirestoreRunStore` keeps the record in both
  collections, the request under a hash of its key. A transaction is one step.
- `Ledger` is what both are for: a record by request, the same record by run. `Ledger.put` writes both.
- `Lawful`: a store whose operations read and write a ledger. `memory_lawful`, `firestore_lawful`: both are.
-/
import Mathlib.Tactic

namespace Rally.Cloud

/-! ## Records -/

inductive RunStatus where
  | coordinating
  | coordinatorFailed
  | readyForRally
deriving DecidableEq, Repr

/-- `build_handoff`: the task, and the turns of its policy -/
structure Handoff where
  task : String
  maxTurns : ℤ
deriving DecidableEq, Repr

structure RunRecord where
  accepted : Bool
  duplicate : Bool
  runId : String
  requestKey : String
  status : RunStatus
  handoff : Handoff
  taskDigest : String
  attempts : ℕ
  createdAt : String
  updatedAt : String
  retentionUntil : String
  leaseExpiresAt : Option ℚ
  coordinatorRecord : Option String
  error : Option String
deriving DecidableEq, Repr

/-- `int(record.get("attempts") or 1)` -/
def RunRecord.attempt (r : RunRecord) : ℕ := if r.attempts = 0 then 1 else r.attempts

/-- a record whose coordination failed, or whose attempt ran out of time -/
def RunRecord.Reclaimable (r : RunRecord) (now : ℚ) : Prop :=
  r.status = .coordinatorFailed ∨ r.status = .coordinating ∧ r.leaseExpiresAt.getD 0 ≤ now

instance (r : RunRecord) (now : ℚ) : Decidable (r.Reclaimable now) := by unfold RunRecord.Reclaimable; infer_instance

/-- the next attempt on a record -/
def RunRecord.resume (r : RunRecord) (leaseExpiresAt : ℚ) (updatedAt : String) : RunRecord :=
  { r with
    status := .coordinating
    attempts := r.attempt + 1
    leaseExpiresAt := some leaseExpiresAt
    updatedAt := updatedAt
    error := none }

/-- another attempt owns the record -/
def fenced (current : Option RunRecord) (expected : ℕ) : Bool :=
  match current with
  | some current => current.attempts ≠ expected
  | none => false

/-- `RunStore` -/
structure RunStore (σ : Type) where
  create : RunRecord → σ → Bool × σ
  update : String → RunRecord → ℕ → σ → Bool × σ
  get : String → σ → Option RunRecord
  getByRequestKey : String → σ → Option RunRecord
  /-- the key, the new lease and time text, and the clock -/
  reclaim : String → ℚ → String → ℚ → σ → Option RunRecord × σ

/-! ## In memory -/

structure Memory where
  records : String → Option RunRecord
  requestKeys : String → Option String

def Memory.empty : Memory := ⟨fun _ => none, fun _ => none⟩

/-- a record under its run id, and its run id under its request key -/
def Memory.set (s : Memory) (runId : String) (record : RunRecord) : Memory :=
  ⟨Function.update s.records runId (some record), Function.update s.requestKeys record.requestKey (some runId)⟩

/-- the record of a request key -/
def Memory.byKey (s : Memory) (requestKey : String) : Option RunRecord :=
  match s.requestKeys requestKey with
  | some runId => if runId = "" then none else s.records runId
  | none => none

/-- `MemoryRunStore` -/
def MemoryRunStore : RunStore Memory where
  create record s :=
    if (s.requestKeys record.requestKey).isSome then (false, s) else (true, s.set record.runId record)
  update runId record expected s :=
    if fenced (s.records runId) expected then (false, s) else (true, s.set runId record)
  get runId s := s.records runId
  getByRequestKey requestKey s := s.byKey requestKey
  reclaim requestKey leaseExpiresAt updatedAt now s :=
    match s.requestKeys requestKey with
    | none => (none, s)
    | some runId =>
      match s.byKey requestKey with
      | none => (none, s)
      | some current =>
        if current.Reclaimable now then
          let resumed := current.resume leaseExpiresAt updatedAt
          (some resumed, ⟨Function.update s.records runId (some resumed),
            Function.update s.requestKeys requestKey (some runId)⟩)
        else (none, s)

/-! ## In Firestore -/

structure Firestore where
  runs : String → Option RunRecord
  requests : String → Option RunRecord

def Firestore.empty : Firestore := ⟨fun _ => none, fun _ => none⟩

/-- `FirestoreRunStore`; `requestId` is the hash that names a request's document -/
def FirestoreRunStore (requestId : String → String) : RunStore Firestore where
  create record s :=
    if (s.requests (requestId record.requestKey)).isSome then (false, s)
    else (true, ⟨Function.update s.runs record.runId (some record),
      Function.update s.requests (requestId record.requestKey) (some record)⟩)
  update runId record expected s :=
    if fenced (s.runs runId) expected then (false, s)
    else (true, ⟨Function.update s.runs runId (some record),
      Function.update s.requests (requestId record.requestKey) (some record)⟩)
  get runId s := s.runs runId
  getByRequestKey requestKey s := s.requests (requestId requestKey)
  reclaim requestKey leaseExpiresAt updatedAt now s :=
    match s.requests (requestId requestKey) with
    | none => (none, s)
    | some current =>
      if current.Reclaimable now then
        let resumed := current.resume leaseExpiresAt updatedAt
        (some resumed, ⟨Function.update s.runs resumed.runId (some resumed),
          Function.update s.requests (requestId requestKey) (some resumed)⟩)
      else (none, s)

/-! ## The ledger -/

/-- the records by request document and by run -/
structure Ledger where
  byDoc : String → Option RunRecord
  byRun : String → Option RunRecord

/-- a record in both places -/
def Ledger.put (doc : String → String) (L : Ledger) (r : RunRecord) : Ledger :=
  ⟨Function.update L.byDoc (doc r.requestKey) (some r), Function.update L.byRun r.runId (some r)⟩

/-- both indexes lead to the same records; `own` says which key may use which run id -/
structure Ledger.Coherent (doc : String → String) (own : String → String → Prop) (L : Ledger) : Prop where
  keyed : ∀ d r, L.byDoc d = some r → doc r.requestKey = d ∧ L.byRun r.runId = some r
  run : ∀ i r, L.byRun i = some r → r.runId = i ∧ L.byDoc (doc r.requestKey) = some r
  counted : ∀ i r, L.byRun i = some r → 1 ≤ r.attempts ∧ r.runId ≠ "" ∧ own r.runId r.requestKey

/-- a record that is new in both places, or takes the place of one of its run and request -/
def Ledger.Fits (doc : String → String) (L : Ledger) (r : RunRecord) : Prop :=
  L.byDoc (doc r.requestKey) = none ∧ L.byRun r.runId = none ∨
    ∃ c, L.byRun r.runId = some c ∧ doc c.requestKey = doc r.requestKey

section Ledger

variable {doc : String → String} {own : String → String → Prop} {L : Ledger} {r c : RunRecord}

/-- a record of another request is one of another run -/
theorem Ledger.Coherent.apart (h : L.Coherent doc own) (hfits : L.Fits doc r) {d : String} (hd : d ≠ doc r.requestKey)
    (hc : L.byDoc d = some c) : c.runId ≠ r.runId := by
  intro heq
  obtain ⟨hdoc, hrun⟩ := h.keyed d c hc
  rcases hfits with ⟨-, hnone⟩ | ⟨c', hc', hsame⟩
  · rw [heq, hnone] at hrun
    cases hrun
  · rw [heq, hc'] at hrun
    obtain rfl := Option.some.inj hrun
    exact hd (hdoc.symm.trans hsame)

/-- a record of another run is one of another request -/
theorem Ledger.Coherent.apart' (h : L.Coherent doc own) (hfits : L.Fits doc r) {i : String} (hi : i ≠ r.runId)
    (hc : L.byRun i = some c) : doc c.requestKey ≠ doc r.requestKey := by
  intro heq
  obtain ⟨hrun, hdoc⟩ := h.run i c hc
  rcases hfits with ⟨hnone, -⟩ | ⟨c', hc', hsame⟩
  · rw [heq, hnone] at hdoc
    cases hdoc
  · obtain ⟨hrun', hdoc'⟩ := h.run _ c' hc'
    rw [heq, ← hsame, hdoc'] at hdoc
    obtain rfl := Option.some.inj hdoc
    exact hi (hrun.symm.trans hrun')

theorem Ledger.put_coherent (h : L.Coherent doc own) (hfits : L.Fits doc r) (hcount : 1 ≤ r.attempts)
    (hid : r.runId ≠ "") (hown : own r.runId r.requestKey) : (L.put doc r).Coherent doc own := by
  refine ⟨fun d c hc => ?_, fun i c hc => ?_, fun i c hc => ?_⟩
  · simp only [Ledger.put] at hc ⊢
    by_cases hd : d = doc r.requestKey
    · subst hd
      rw [Function.update_self] at hc
      obtain rfl := Option.some.inj hc
      exact ⟨rfl, Function.update_self _ _ _⟩
    · rw [Function.update_of_ne hd] at hc
      rw [Function.update_of_ne (h.apart hfits hd hc)]
      exact h.keyed d c hc
  · simp only [Ledger.put] at hc ⊢
    by_cases hi : i = r.runId
    · subst hi
      rw [Function.update_self] at hc
      obtain rfl := Option.some.inj hc
      exact ⟨rfl, Function.update_self _ _ _⟩
    · rw [Function.update_of_ne hi] at hc
      rw [Function.update_of_ne (h.apart' hfits hi hc)]
      exact h.run i c hc
  · simp only [Ledger.put] at hc
    by_cases hi : i = r.runId
    · subst hi
      rw [Function.update_self] at hc
      obtain rfl := Option.some.inj hc
      exact ⟨hcount, hid, hown⟩
    · rw [Function.update_of_ne hi] at hc
      exact h.counted i c hc

end Ledger

/-! ## Lawful stores -/

/-- the operations of a store read and write its ledger -/
structure Lawful {σ : Type} (S : RunStore σ) (doc : String → String) (ledger : σ → Ledger) (Whole : σ → Prop) : Prop where
  get : ∀ i s, S.get i s = (ledger s).byRun i
  getByRequestKey : ∀ {own} k s, Whole s → (ledger s).Coherent doc own →
    S.getByRequestKey k s = (ledger s).byDoc (doc k)
  taken : ∀ {own r s c}, Whole s → (ledger s).Coherent doc own → (ledger s).byDoc (doc r.requestKey) = some c →
    S.create r s = (false, s)
  created : ∀ {own r s}, Whole s → (ledger s).Coherent doc own → (ledger s).byDoc (doc r.requestKey) = none →
    (ledger s).byRun r.runId = none → (S.create r s).1 = true ∧ Whole (S.create r s).2 ∧
      ledger (S.create r s).2 = (ledger s).put doc r
  overwritten : ∀ {own r s}, Whole s → (ledger s).Coherent doc own → (ledger s).byDoc (doc r.requestKey) = none →
    (ledger (S.create r s).2).byRun r.runId = some r
  refused : ∀ {i r s c n}, (ledger s).byRun i = some c → c.attempts ≠ n → S.update i r n s = (false, s)
  updated : ∀ {own r s c n}, Whole s → (ledger s).Coherent doc own → (ledger s).byRun r.runId = some c →
    c.attempts = n → doc c.requestKey = doc r.requestKey → (S.update r.runId r n s).1 = true ∧
      Whole (S.update r.runId r n s).2 ∧ ledger (S.update r.runId r n s).2 = (ledger s).put doc r
  absent : ∀ {own k l t now s}, Whole s → (ledger s).Coherent doc own → (ledger s).byDoc (doc k) = none →
    S.reclaim k l t now s = (none, s)
  busy : ∀ {own k l t now s c}, Whole s → (ledger s).Coherent doc own → (ledger s).byDoc (doc k) = some c →
    ¬ c.Reclaimable now → S.reclaim k l t now s = (none, s)
  reclaimed : ∀ {own k l t now s c}, Whole s → (ledger s).Coherent doc own → (ledger s).byDoc (doc k) = some c →
    c.Reclaimable now → (S.reclaim k l t now s).1 = some (c.resume l t) ∧ Whole (S.reclaim k l t now s).2 ∧
      ledger (S.reclaim k l t now s).2 = (ledger s).put doc (c.resume l t)

/-! ### Firestore -/

def Firestore.ledger (s : Firestore) : Ledger := ⟨s.requests, s.runs⟩

theorem firestore_lawful (requestId : String → String) :
    Lawful (FirestoreRunStore requestId) requestId Firestore.ledger fun _ => True where
  get _ _ := rfl
  getByRequestKey _ _ _ _ := rfl
  taken := by
    intro _ r s c _ _ hc
    simp only [Firestore.ledger] at hc
    simp [FirestoreRunStore, hc]
  created := by
    intro _ r s _ _ hnone _
    simp only [Firestore.ledger] at hnone
    simp [FirestoreRunStore, hnone, Firestore.ledger, Ledger.put]
  overwritten := by
    intro _ r s _ _ hnone
    simp only [Firestore.ledger] at hnone
    simp [FirestoreRunStore, hnone, Firestore.ledger]
  refused := by
    intro i r s c n hc hn
    simp only [Firestore.ledger] at hc
    simp [FirestoreRunStore, hc, fenced, hn]
  updated := by
    intro _ r s c n _ _ hc hn _
    simp only [Firestore.ledger] at hc
    simp [FirestoreRunStore, hc, fenced, hn, Firestore.ledger, Ledger.put]
  absent := by
    intro _ k l t now s _ _ hnone
    simp only [Firestore.ledger] at hnone
    simp [FirestoreRunStore, hnone]
  busy := by
    intro _ k l t now s c _ _ hc hbusy
    simp only [Firestore.ledger] at hc
    simp [FirestoreRunStore, hc, hbusy]
  reclaimed := by
    intro _ k l t now s c _ hcoherent hc hfree
    obtain ⟨hdoc, -⟩ := hcoherent.keyed _ _ hc
    simp only [Firestore.ledger] at hc
    simp [FirestoreRunStore, hc, hfree, Firestore.ledger, Ledger.put, RunRecord.resume, hdoc]

/-! ### Memory -/

def Memory.ledger (s : Memory) : Ledger := ⟨fun k => (s.requestKeys k).bind s.records, s.records⟩

/-- a request key leads to a record of that key -/
def Memory.Whole (s : Memory) : Prop :=
  ∀ k i, s.requestKeys k = some i → ∃ r, s.records i = some r ∧ r.requestKey = k

theorem Memory.byKey_eq {own : String → String → Prop} {s : Memory} (h : s.ledger.Coherent id own) (k : String) :
    s.byKey k = s.ledger.byDoc k := by
  simp only [Memory.byKey, Memory.ledger]
  cases hk : s.requestKeys k with
  | none => rfl
  | some i =>
    simp only [Option.bind_some]
    split_ifs with hi
    · cases hr : s.records i with
      | none => rfl
      | some r => exact absurd ((h.run i r hr).1.trans hi) (h.counted i r hr).2.1
    · rfl

/-- writing a record that fits writes the ledger -/
theorem Memory.ledger_set {own : String → String → Prop} {s : Memory} {r : RunRecord} (hwhole : s.Whole)
    (h : s.ledger.Coherent id own) (hfits : s.ledger.Fits id r) :
    (s.set r.runId r).Whole ∧ (s.set r.runId r).ledger = s.ledger.put id r := by
  have hother : ∀ k i, k ≠ r.requestKey → s.requestKeys k = some i → i ≠ r.runId := by
    intro k i hk hi heq
    obtain ⟨c, hc, hck⟩ := hwhole k i hi
    have hdoc : s.ledger.byDoc k = some c := by simp [Memory.ledger, hi, hc]
    exact h.apart hfits hk hdoc ((h.run i c hc).1.trans heq)
  constructor
  · intro k i hi
    simp only [Memory.set] at hi ⊢
    by_cases hk : k = r.requestKey
    · subst hk
      rw [Function.update_self] at hi
      obtain rfl := Option.some.inj hi
      exact ⟨r, Function.update_self _ _ _, rfl⟩
    · rw [Function.update_of_ne hk] at hi
      rw [Function.update_of_ne (hother k i hk hi)]
      exact hwhole k i hi
  · simp only [Memory.ledger, Memory.set, Ledger.put, id, Ledger.mk.injEq, and_true]
    funext k
    by_cases hk : k = r.requestKey
    · subst hk
      simp
    · rw [Function.update_of_ne hk, Function.update_of_ne hk]
      cases hi : s.requestKeys k with
      | none => rfl
      | some i => simp [Function.update_of_ne (hother k i hk hi)]

/-- a request key without a record is not in use -/
theorem Memory.unused {s : Memory} (hwhole : s.Whole) {k : String} (h : s.ledger.byDoc k = none) :
    s.requestKeys k = none := by
  cases hk : s.requestKeys k with
  | none => rfl
  | some i =>
    obtain ⟨r, hr, -⟩ := hwhole k i hk
    simp [Memory.ledger, hk, hr] at h

theorem memory_lawful : Lawful MemoryRunStore id Memory.ledger Memory.Whole where
  get _ _ := rfl
  getByRequestKey k s _ h := Memory.byKey_eq h k
  taken := by
    intro _ r s c _ _ hc
    have hsome : (s.requestKeys r.requestKey).isSome := by
      obtain ⟨i, hi, -⟩ := Option.bind_eq_some_iff.1 hc
      simp [show s.requestKeys r.requestKey = some i from hi]
    simp [MemoryRunStore, hsome]
  created := by
    intro _ r s hwhole h hnone hrun
    obtain ⟨hset, hledger⟩ := Memory.ledger_set hwhole h (Or.inl ⟨hnone, hrun⟩)
    have hunused : s.requestKeys r.requestKey = none := Memory.unused hwhole hnone
    simp [MemoryRunStore, hunused, hset, hledger]
  overwritten := by
    intro _ r s hwhole _ hnone
    have hunused : s.requestKeys r.requestKey = none := Memory.unused hwhole hnone
    simp [MemoryRunStore, hunused, Memory.ledger, Memory.set]
  refused := by
    intro i r s c n hc hn
    simp only [Memory.ledger] at hc
    simp [MemoryRunStore, hc, fenced, hn]
  updated := by
    intro _ r s c n hwhole h hc hn hdoc
    obtain ⟨hset, hledger⟩ := Memory.ledger_set hwhole h (Or.inr ⟨c, hc, hdoc⟩)
    simp only [Memory.ledger] at hc
    simp [MemoryRunStore, hc, fenced, hn, hset, hledger]
  absent := by
    intro _ k l t now s hwhole _ hnone
    have hunused : s.requestKeys k = none := Memory.unused hwhole hnone
    simp [MemoryRunStore, hunused]
  busy := by
    intro _ k l t now s c _ h hc hbusy
    obtain ⟨i, hi, -⟩ := Option.bind_eq_some_iff.1 hc
    have hi' : s.requestKeys k = some i := hi
    simp [MemoryRunStore, hi', Memory.byKey_eq h, show s.ledger.byDoc k = some c from hc, hbusy]
  reclaimed := by
    intro _ k l t now s c hwhole h hc hfree
    obtain ⟨i, hi, hic⟩ := Option.bind_eq_some_iff.1 hc
    have hi' : s.requestKeys k = some i := hi
    have hkey : s.byKey k = some c := (Memory.byKey_eq h k).trans hc
    have hsame : (⟨Function.update s.records i (some (c.resume l t)), Function.update s.requestKeys k (some i)⟩ : Memory) =
        s.set (c.resume l t).runId (c.resume l t) := by
      have hk : (c.resume l t).requestKey = k := (h.keyed _ _ hc).1
      have hrun : (c.resume l t).runId = i := (h.run i c hic).1
      rw [Memory.set, hk, hrun]
    have hrun : s.ledger.byRun (c.resume l t).runId = some c := (h.keyed _ _ hc).2
    obtain ⟨hset, hledger⟩ := Memory.ledger_set hwhole h (Or.inr ⟨c, hrun, rfl⟩)
    simp only [MemoryRunStore, hi', hkey, hfree, if_true]
    rw [hsame]
    exact ⟨trivial, hset, hledger⟩

end Rally.Cloud
