/-
The send ledger (`Ledger.check_and_reserve` of `src/transport.py`), shared by any number of processes: each call reads
the file, reads the clock, and then is refused, finds its reservation made, or writes the file anew through the one
temporary name. Nothing locks it.

Times are exact. Entries age out after a day, by the clock of the call that looks.

- `verdict`: the decision of a call. `step`: a call begins, does its next step, or is killed.
- `Held`: every reservation a call returned on is in the file, each grant as often as it was made, until it ages out.
  `Ceilings`: every grant was within the hourly and the daily ceiling, counting all grants.
- `ledger_keeps`: both hold in every interleaving in which a call that goes on to return finds the file as it read it and
  no other call about to write it.
- `grant_lost`: two calls read the file before either writes it. The second to write removes the first one's grant.
-/
import Mathlib.Tactic

namespace Rally.Transport

/-! ## The decision -/

/-- an entry of the ledger -/
structure Entry where
  run : String
  at_ : ℚ
  reservationKey : Option String
deriving DecidableEq

/-- the arguments of a call -/
structure Request where
  runId : String
  perRun : ℤ
  perHour : ℤ
  perDay : ℤ
  reservationKey : Option String
deriving DecidableEq

/-- less than a day old -/
def fresh (now : ℚ) (e : Entry) : Bool := now - e.at_ < 86400

/-- less than an hour old -/
def recent (now : ℚ) (e : Entry) : Bool := now - e.at_ < 3600

inductive Verdict where
  /-- `SendBlocked` -/
  | blocked (why : String)
  /-- an earlier attempt reserved this entry -/
  | reserved (e : Entry)
  /-- a new entry after these -/
  | reserve (e : Entry) (sends : List Entry)
deriving DecidableEq

/-- `reservation_key`, where it counts as true -/
def Request.key (r : Request) : Option String := r.reservationKey.filter fun k => k ≠ ""

/-- the entry of an earlier attempt of the same request -/
def Request.earlier (r : Request) (sends : List Entry) : Option Entry :=
  match r.key with
  | some k => sends.find? fun s => s.run = r.runId ∧ s.reservationKey = some k
  | none => none

/-- `check_and_reserve` between the read and the write -/
def verdict (r : Request) (sends : List Entry) (now : ℚ) : Verdict :=
  let sends := sends.filter (fresh now)
  match r.earlier sends with
  | some e => .reserved e
  | none =>
    if r.perRun ≤ sends.countP fun s => s.run = r.runId then .blocked s!"run {r.runId} hit its {r.perRun} send ceiling"
    else if r.perHour ≤ sends.countP (recent now) then .blocked s!"global hourly ceiling of {r.perHour} reached"
    else if r.perDay ≤ sends.length then .blocked s!"global daily ceiling of {r.perDay} reached"
    else .reserve ⟨r.runId, now, r.key⟩ sends

/-! ## The processes -/

/-- what a file holds: the dump of the ledger, or a part of one -/
inductive Content where
  | part
  | whole (sends : List Entry)
deriving DecidableEq

/-- the sends of the ledger file, unless it is unreadable -/
def read : Option Content → Option (List Entry)
  | none => some []
  | some (.whole sends) => some sends
  | some .part => none

/-- where a call stands -/
inductive Phase where
  | called
  | loaded (sends : List Entry)
  /-- it has decided to reserve `e` -/
  | deciding (e : Entry) (sends : List Entry)
  | opened (e : Entry) (sends : List Entry)
  | dumped (e : Entry) (sends : List Entry)
  | ended
deriving DecidableEq

structure Proc where
  request : Request
  phase : Phase
deriving DecidableEq

inductive Happening where
  /-- a call reads the clock -/
  | clock (now : ℚ)
  /-- a call returns: on a grant of its own, or on an earlier reservation -/
  | returned (r : Request) (e : Entry) (granted : Bool)
deriving DecidableEq

structure State where
  file : Option Content
  tmp : Option Content
  procs : List Proc
  log : List Happening
deriving DecidableEq

inductive Act where
  | call (r : Request)
  /-- process `i` does its next step; the clock says `now` -/
  | tick (i : ℕ) (now : ℚ)
  | kill (i : ℕ)

def State.goes (s : State) (i : ℕ) (p : Proc) (phase : Phase) : State :=
  { s with procs := s.procs.set i { p with phase := phase } }

/-- the next step of process `i` -/
def tick (s : State) (i : ℕ) (p : Proc) (now : ℚ) : State :=
  match p.phase with
  | .called =>
    match read s.file with
    | some sends => s.goes i p (.loaded sends)
    | none => s.goes i p .ended
  | .loaded sends =>
    let s := { s with log := s.log ++ [Happening.clock now] }
    match verdict p.request sends now with
    | .blocked _ => s.goes i p .ended
    | .reserved e => { s.goes i p .ended with log := s.log ++ [Happening.returned p.request e false] }
    | .reserve e sends => s.goes i p (.deciding e sends)
  | .deciding e sends => { s.goes i p (.opened e sends) with tmp := some .part }
  | .opened e sends => { s.goes i p (.dumped e sends) with tmp := some (.whole (sends ++ [e])) }
  | .dumped e _ =>
    match s.tmp with
    | some c =>
      { s.goes i p .ended with file := some c, tmp := none, log := s.log ++ [Happening.returned p.request e true] }
    | none => s.goes i p .ended
  | .ended => s

def step (s : State) : Act → State
  | .call r => { s with procs := s.procs ++ [⟨r, .called⟩] }
  | .tick i now =>
    match s.procs[i]? with
    | some p => tick s i p now
    | none => s
  | .kill i =>
    match s.procs[i]? with
    | some p => s.goes i p .ended
    | none => s

def run (s : State) (acts : List Act) : State := acts.foldl step s

/-- the ledger file, and nobody at it -/
def idle (file : Option Content) : State := ⟨file, none, [], []⟩

/-! ## What a ledger is for -/

/-- the reservations that calls returned on, with the grants marked, less what has aged out by a clock since -/
def age (l : List (Bool × Entry)) : Happening → List (Bool × Entry)
  | .clock now => l.filter fun x => fresh now x.2
  | .returned _ e granted => l ++ [(granted, e)]

def alive (log : List Happening) : List (Bool × Entry) := log.foldl age []

/-- the grants among them -/
def grants (log : List Happening) : List Entry := ((alive log).filter Prod.fst).map Prod.snd

/-- the ledger has every reservation, and each grant as often as it was made -/
structure Held (log : List Happening) (sends : List Entry) : Prop where
  all : ∀ x ∈ alive log, x.2 ∈ sends
  each : (grants log).Sublist sends

/-- within the ceilings of the request, a grant at `now` beside these -/
structure Within (r : Request) (now : ℚ) (granted : List Entry) : Prop where
  hour : (granted.countP (recent now) : ℤ) < r.perHour
  day : (granted.length : ℤ) < r.perDay

/-- every grant was within its ceilings, beside all the grants before it -/
def Ceilings (log : List Happening) : Prop :=
  ∀ front r e back, log = front ++ .returned r e true :: back → Within r e.at_ (grants front)

/-! ## Orderly calls -/

/-- the entry a call is about to write, and the entries before it -/
def Phase.pending : Phase → Option (Entry × List Entry)
  | .deciding e sends => some (e, sends)
  | .opened e sends => some (e, sends)
  | .dumped e sends => some (e, sends)
  | _ => none

/-- the call goes on to return -/
def Verdict.returns : Verdict → Bool
  | .blocked _ => false
  | _ => true

/-- if the call goes on to return, the file is as it read it, and no call is about to write it -/
def undisturbed (s : State) (i : ℕ) (now : ℚ) : Bool :=
  match s.procs[i]? with
  | some ⟨r, .loaded sends⟩ =>
    !(verdict r sends now).returns || (decide (read s.file = some sends) && s.procs.all fun p => p.phase.pending.isNone)
  | _ => true

/-- a call that goes on to return does so undisturbed -/
def Orderly (s : State) : Act → Prop
  | .tick i now => undisturbed s i now = true
  | _ => True

/-- a history of such steps -/
def OrderlyRun : State → List Act → Prop
  | _, [] => True
  | s, a :: acts => Orderly s a ∧ OrderlyRun (step s a) acts

/-! ## The decision and the books -/

section Books

variable {r : Request} {e : Entry} {sends kept : List Entry} {now : ℚ} {log : List Happening}

/-- what a call reserves is new, within the ceilings, beside the entries that have not aged out -/
theorem verdict_reserve (h : verdict r sends now = .reserve e kept) :
    e.at_ = now ∧ kept = sends.filter (fresh now) ∧ Within r now kept := by
  unfold verdict at h
  simp only at h
  split at h
  · cases h
  · split_ifs at h with hrun hhour hday
    cases h
    exact ⟨rfl, rfl, not_le.1 hhour, not_le.1 hday⟩

/-- what a call finds reserved is in the ledger and has not aged out -/
theorem verdict_reserved (h : verdict r sends now = .reserved e) : e ∈ sends.filter (fresh now) := by
  unfold verdict at h
  simp only at h
  split at h
  · rename_i e' hearlier
    cases h
    unfold Request.earlier at hearlier
    split at hearlier
    · exact List.mem_of_find?_eq_some hearlier
    · cases hearlier
  · split_ifs at h

theorem alive_snoc (log : List Happening) (h : Happening) : alive (log ++ [h]) = age (alive log) h := by
  simp [alive, List.foldl_append]

theorem grants_clock (log : List Happening) (now : ℚ) :
    grants (log ++ [.clock now]) = (grants log).filter (fresh now) := by
  unfold grants
  rw [alive_snoc]
  simp only [age, List.filter_map, List.filter_filter]
  congr 1
  apply List.filter_congr
  intro x _
  simp [Bool.and_comm]

theorem grants_returned (log : List Happening) (r : Request) (e : Entry) (granted : Bool) :
    grants (log ++ [.returned r e granted]) = grants log ++ if granted then [e] else [] := by
  unfold grants
  rw [alive_snoc]
  cases granted <;> simp [age]

/-- a clock reading lets entries age -/
theorem Held.clock (h : Held log sends) (now : ℚ) : Held (log ++ [.clock now]) (sends.filter (fresh now)) := by
  constructor
  · intro x hx
    rw [alive_snoc] at hx
    obtain ⟨hx, hfresh⟩ := List.mem_filter.1 hx
    exact List.mem_filter.2 ⟨h.all x hx, hfresh⟩
  · rw [grants_clock]
    exact h.each.filter _

theorem Held.mono (h : Held log sends) (hsub : sends.Sublist kept) : Held log kept :=
  ⟨fun x hx => hsub.subset (h.all x hx), h.each.trans hsub⟩

/-- a call returns on an earlier reservation -/
theorem Held.reserved (h : Held log sends) (he : e ∈ sends) (r : Request) :
    Held (log ++ [.returned r e false]) sends := by
  constructor
  · intro x hx
    rw [alive_snoc] at hx
    rcases List.mem_append.1 hx with hx | hx
    · exact h.all x hx
    · rw [List.mem_singleton.1 hx]
      exact he
  · rw [grants_returned]
    simpa using h.each

/-- a grant is written -/
theorem Held.granted (h : Held log sends) (r : Request) (e : Entry) :
    Held (log ++ [.returned r e true]) (sends ++ [e]) := by
  constructor
  · intro x hx
    rw [alive_snoc] at hx
    rcases List.mem_append.1 hx with hx | hx
    · exact List.mem_append_left _ (h.all x hx)
    · rw [List.mem_singleton.1 hx]
      simp
  · rw [grants_returned]
    exact h.each.append (List.Sublist.refl _)

theorem Within.sub (h : Within r now sends) (hsub : kept.Sublist sends) : Within r now kept where
  hour := by
    have hle := hsub.countP_le (p := recent now)
    have hhour := h.hour
    omega
  day := by
    have hle := hsub.length_le
    have hday := h.day
    omega

theorem ceilings_snoc (h : Ceilings log) {x : Happening}
    (hx : ∀ r e, x = .returned r e true → Within r e.at_ (grants log)) : Ceilings (log ++ [x]) := by
  intro front r e back heq
  rcases List.eq_nil_or_concat' back with rfl | ⟨back', y, rfl⟩
  · obtain ⟨rfl, hlast⟩ := List.append_inj' heq rfl
    exact hx r e (List.cons.inj hlast).1
  · have hsplit : log ++ [x] = (front ++ .returned r e true :: back') ++ [y] := by rw [heq]; simp
    obtain ⟨hlog, -⟩ := List.append_inj' hsplit rfl
    exact h front r e back' hlog

end Books

/-! ## The invariant -/

/-- at most one call is about to write -/
def Alone (procs : List Proc) : Prop :=
  ∀ (i j : ℕ) (p q : Proc), procs[i]? = some p → procs[j]? = some q → p.phase.pending.isSome → q.phase.pending.isSome →
    i = j

structure Inv (s : State) : Prop where
  alone : Alone s.procs
  held : Held s.log ((read s.file).getD [])
  /-- what is about to be written has every reservation, and is within the ceilings -/
  pending : ∀ p ∈ s.procs, ∀ e sends, p.phase.pending = some (e, sends) → Held s.log sends ∧ Within p.request e.at_ sends
  dumped : ∀ p ∈ s.procs, ∀ e sends, p.phase = .dumped e sends → s.tmp = some (.whole (sends ++ [e]))
  ceilings : Ceilings s.log

section Inv

variable {s : State} {i : ℕ} {p q : Proc} {procs : List Proc}

theorem inv_idle (file : Option Content) : Inv (idle file) where
  alone := by intro i j p q hi; simp [idle] at hi
  held := ⟨fun x hx => by simp [idle, alive] at hx, List.nil_sublist _⟩
  pending := fun _ hp => (List.not_mem_nil hp).elim
  dumped := fun _ hp => (List.not_mem_nil hp).elim
  ceilings := by intro front r e back heq; simp [idle] at heq

/-- a call that is not about to write, or already was, leaves the others alone -/
theorem alone_set (h : Alone procs) (hi : procs[i]? = some p) (hq : q.phase.pending.isSome → p.phase.pending.isSome) :
    Alone (procs.set i q) := by
  have back : ∀ (j : ℕ) (x : Proc), (procs.set i q)[j]? = some x → x.phase.pending.isSome →
      ∃ y, procs[j]? = some y ∧ y.phase.pending.isSome := by
    intro j x hj hx
    by_cases hij : i = j
    · subst hij
      rw [List.getElem?_set_self (List.getElem?_eq_some_iff.1 hi).1] at hj
      cases hj
      exact ⟨p, hi, hq hx⟩
    · rw [List.getElem?_set_ne hij] at hj
      exact ⟨x, hj, hx⟩
  intro j k x y hj hk hx hy
  obtain ⟨x', hj', hx'⟩ := back j x hj hx
  obtain ⟨y', hk', hy'⟩ := back k y hk hy
  exact h j k x' y' hj' hk' hx' hy'

/-- the first call to be about to write -/
theorem alone_first (h : ∀ p ∈ procs, p.phase.pending = none) (i : ℕ) (q : Proc) : Alone (procs.set i q) := by
  have only : ∀ (j : ℕ) (x : Proc), (procs.set i q)[j]? = some x → x.phase.pending.isSome → i = j := by
    intro j x hj hx
    by_contra hij
    rw [List.getElem?_set_ne hij] at hj
    rw [h x (List.mem_of_getElem? hj)] at hx
    cases hx
  intro j k x y hj hk hx hy
  rw [← only j x hj hx, ← only k y hk hy]

/-- beside a call that is about to write, no other is -/
theorem others_idle (h : Alone procs) (hi : procs[i]? = some p) (hp : p.phase.pending.isSome) {x : Proc}
    (hx : x ∈ procs.set i q) : x = q ∨ x.phase.pending = none := by
  obtain ⟨j, hj⟩ := List.mem_iff_getElem?.1 hx
  by_cases hij : i = j
  · subst hij
    rw [List.getElem?_set_self (List.getElem?_eq_some_iff.1 hi).1] at hj
    exact Or.inl (Option.some.inj hj).symm
  · rw [List.getElem?_set_ne hij] at hj
    right
    cases hx' : x.phase.pending with
    | none => rfl
    | some d => exact absurd (h i j p x hi hj hp (by rw [hx']; rfl)) hij

theorem not_dumped {x : Proc} (h : x.phase.pending = none) {e : Entry} {sends : List Entry} : x.phase ≠ .dumped e sends := by
  intro hx
  rw [hx] at h
  cases h

/-- a call that ends, or goes on without anything to write -/
theorem goes_inv (h : Inv s) (hi : s.procs[i]? = some p) {phase : Phase} (hphase : phase.pending = none) :
    Inv (s.goes i p phase) where
  alone := alone_set h.alone hi fun hq => by rw [hphase] at hq; cases hq
  held := h.held
  pending := by
    intro x hx e sends he
    rcases List.mem_or_eq_of_mem_set hx with hx | rfl
    · exact h.pending x hx e sends he
    · rw [hphase] at he
      cases he
  dumped := by
    intro x hx e sends he
    rcases List.mem_or_eq_of_mem_set hx with hx | rfl
    · exact h.dumped x hx e sends he
    · exact absurd he (not_dumped hphase)
  ceilings := h.ceilings

/-- a clock reading -/
theorem clock_inv (h : Inv s) (now : ℚ) : Inv { s with log := s.log ++ [.clock now] } where
  alone := h.alone
  held := (h.held.clock now).mono List.filter_sublist
  pending := by
    intro x hx e sends he
    obtain ⟨hheld, hwithin⟩ := h.pending x hx e sends he
    exact ⟨(hheld.clock now).mono List.filter_sublist, hwithin⟩
  dumped := h.dumped
  ceilings := ceilings_snoc h.ceilings fun _ _ heq => nomatch heq

/-- nobody is about to write: the call returns on an earlier reservation -/
theorem reserved_inv (h : Inv s) (hnone : ∀ p ∈ s.procs, p.phase.pending = none) {e : Entry}
    (he : e ∈ (read s.file).getD []) (r : Request) : Inv { s with log := s.log ++ [.returned r e false] } where
  alone := h.alone
  held := h.held.reserved he r
  pending := by
    intro x hx e sends he
    rw [hnone x hx] at he
    cases he
  dumped := fun x hx e sends hphase => absurd hphase (not_dumped (hnone x hx))
  ceilings := ceilings_snoc h.ceilings fun _ _ heq => nomatch heq

/-- nobody is about to write: the call will -/
theorem reserve_inv (h : Inv s) (hnone : ∀ p ∈ s.procs, p.phase.pending = none) {e : Entry} {sends : List Entry}
    (hheld : Held s.log sends) (hwithin : Within p.request e.at_ sends) : Inv (s.goes i p (.deciding e sends)) where
  alone := alone_first hnone i _
  held := h.held
  pending := by
    intro x hx e' sends' he
    rcases List.mem_or_eq_of_mem_set hx with hx | rfl
    · rw [hnone x hx] at he
      cases he
    · cases he
      exact ⟨hheld, hwithin⟩
  dumped := by
    intro x hx e' sends' hphase
    rcases List.mem_or_eq_of_mem_set hx with hx | rfl
    · exact absurd hphase (not_dumped (hnone x hx))
    · cases hphase
  ceilings := h.ceilings

/-- the call that is about to write writes the temporary file -/
theorem write_inv (h : Inv s) (hi : s.procs[i]? = some p) {e : Entry} {sends : List Entry} {phase : Phase}
    {c : Content} (hp : p.phase.pending = some (e, sends)) (hphase : phase.pending = some (e, sends))
    (hdump : ∀ e' sends', phase = .dumped e' sends' → c = .whole (sends' ++ [e'])) :
    Inv { s.goes i p phase with tmp := some c } where
  alone := alone_set h.alone hi fun _ => by rw [hp]; rfl
  held := h.held
  pending := by
    intro x hx e' sends' he
    rcases List.mem_or_eq_of_mem_set hx with hx | rfl
    · exact h.pending x hx e' sends' he
    · have heq : phase.pending = some (e', sends') := he
      rw [hphase] at heq
      cases heq
      exact h.pending p (List.mem_of_getElem? hi) e sends hp
  dumped := by
    intro x hx e' sends' hx'
    rcases others_idle h.alone hi (by rw [hp]; rfl) hx with rfl | hidle
    · exact congrArg some (hdump e' sends' hx')
    · exact absurd hx' (not_dumped hidle)
  ceilings := h.ceilings

/-- it replaces the ledger, and returns -/
theorem replace_inv (h : Inv s) (hi : s.procs[i]? = some p) {e : Entry} {sends : List Entry}
    (hp : p.phase = .dumped e sends) :
    Inv { s.goes i p .ended with
      file := some (.whole (sends ++ [e])), tmp := none, log := s.log ++ [.returned p.request e true] } := by
  have hpending : p.phase.pending = some (e, sends) := by rw [hp]; rfl
  obtain ⟨hheld, hwithin⟩ := h.pending p (List.mem_of_getElem? hi) e sends hpending
  have hidle : ∀ x ∈ s.procs.set i { p with phase := .ended }, x.phase.pending = none := by
    intro x hx
    rcases others_idle h.alone hi (by rw [hpending]; rfl) hx with rfl | hx
    · rfl
    · exact hx
  refine ⟨alone_set h.alone hi (fun hq => nomatch hq), hheld.granted p.request e, fun x hx e' sends' he => ?_,
    fun x hx e' sends' he => absurd he (not_dumped (hidle x hx)), ceilings_snoc h.ceilings fun r e' heq => ?_⟩
  · rw [hidle x hx] at he
    cases he
  · cases heq
    exact hwithin.sub hheld.each

theorem tick_inv (h : Inv s) (hi : s.procs[i]? = some p) (now : ℚ) (ho : Orderly s (.tick i now)) :
    Inv (tick s i p now) := by
  obtain ⟨r, phase⟩ := p
  have quiet : ∀ sends, phase = .loaded sends → (verdict r sends now).returns = true →
      read s.file = some sends ∧ ∀ p ∈ s.procs, p.phase.pending = none := by
    rintro sends rfl hreturns
    simpa [Orderly, undisturbed, hi, hreturns] using ho
  unfold tick
  cases phase with
  | called =>
    simp only
    split
    · exact goes_inv h hi rfl
    · exact goes_inv h hi rfl
  | loaded sends =>
    have hclock := clock_inv h now
    simp only
    cases hv : verdict r sends now with
    | blocked why => exact goes_inv hclock hi rfl
    | reserved e =>
      obtain ⟨hread, hnone⟩ := quiet sends rfl (by rw [hv]; rfl)
      have he : e ∈ (read s.file).getD [] := by
        rw [hread]
        exact (List.mem_filter.1 (verdict_reserved hv)).1
      exact goes_inv (reserved_inv hclock hnone he r) hi rfl
    | reserve e kept =>
      obtain ⟨hread, hnone⟩ := quiet sends rfl (by rw [hv]; rfl)
      obtain ⟨hat, hkept, hwithin⟩ := verdict_reserve hv
      have hheld := h.held
      rw [hread] at hheld
      subst hkept
      refine reserve_inv hclock hnone (hheld.clock now) ?_
      rw [hat]
      exact hwithin
  | deciding e sends => exact write_inv h hi rfl rfl fun _ _ heq => nomatch heq
  | opened e sends =>
    refine write_inv h hi rfl rfl fun e' sends' heq => ?_
    cases heq
    rfl
  | dumped e sends =>
    have htmp := h.dumped _ (List.mem_of_getElem? hi) e sends rfl
    simp only [htmp]
    exact replace_inv h hi rfl
  | ended => exact h

theorem step_inv (h : Inv s) (a : Act) (ho : Orderly s a) : Inv (step s a) := by
  cases a with
  | call r =>
    have hnew : ∀ (j : ℕ) (x : Proc), (s.procs ++ [⟨r, .called⟩])[j]? = some x → x.phase.pending.isSome → s.procs[j]? = some x := by
      intro j x hj hx
      rw [List.getElem?_append] at hj
      split_ifs at hj
      · exact hj
      · have hx' := List.mem_of_getElem? hj
        rw [List.mem_singleton.1 hx'] at hx
        cases hx
    refine ⟨fun j k x y hj hk hx hy => h.alone j k x y (hnew j x hj hx) (hnew k y hk hy) hx hy, h.held, ?_, ?_, h.ceilings⟩
    · intro x hx e sends he
      rcases List.mem_append.1 hx with hx | hx
      · exact h.pending x hx e sends he
      · rw [List.mem_singleton.1 hx] at he
        cases he
    · intro x hx e sends he
      rcases List.mem_append.1 hx with hx | hx
      · exact h.dumped x hx e sends he
      · rw [List.mem_singleton.1 hx] at he
        cases he
  | tick i now =>
    simp only [step]
    split
    · rename_i p hi
      exact tick_inv h hi now ho
    · exact h
  | kill i =>
    simp only [step]
    split
    · rename_i p hi
      exact goes_inv h hi rfl
    · exact h

theorem run_inv (h : Inv s) (acts : List Act) (ho : OrderlyRun s acts) : Inv (run s acts) := by
  induction acts generalizing s with
  | nil => exact h
  | cons a acts ih => exact ih (step_inv h a ho.1) ho.2

end Inv

/-- **The ledger keeps.** In every interleaving of orderly calls, clock readings and kills: the file has every entry that
a call returned on, each grant as often as it was made, until it ages out; and every grant was within the hourly and
the daily ceiling, counting all the grants before it. -/
theorem ledger_keeps {file : Option Content} {acts : List Act} (ho : OrderlyRun (idle file) acts) :
    Held (run (idle file) acts).log ((read (run (idle file) acts).file).getD []) ∧
      Ceilings (run (idle file) acts).log :=
  have h := run_inv (inv_idle file) acts ho
  ⟨h.held, h.ceilings⟩

/-! ## A grant lost -/

instance (s : State) : (a : Act) → Decidable (Orderly s a)
  | .call _ => inferInstanceAs (Decidable True)
  | .tick i now => inferInstanceAs (Decidable (undisturbed s i now = true))
  | .kill _ => inferInstanceAs (Decidable True)

instance decidableOrderlyRun : (s : State) → (acts : List Act) → Decidable (OrderlyRun s acts)
  | _, [] => isTrue trivial
  | s, a :: acts => @instDecidableAnd _ _ inferInstance (decidableOrderlyRun (step s a) acts)

/-- an update of a run, with the ceilings of the source -/
def updateOf (runId : String) : Request := ⟨runId, 60, 30, 200, none⟩

/-- process `i` from its read to its return -/
def wholeCall (i : ℕ) (now : ℚ) : List Act := List.replicate 5 (.tick i now)

/-- two calls, one after the other -/
def inTurn : List Act := [.call (updateOf "r-a"), .call (updateOf "r-b")] ++ wholeCall 0 1000 ++ wholeCall 1 1001

/-- both grants are in the file -/
theorem ledger_keeps_sample :
    (run (idle none) inTurn).file = some (.whole [⟨"r-a", 1000, none⟩, ⟨"r-b", 1001, none⟩]) ∧
    Held (run (idle none) inTurn).log ((read (run (idle none) inTurn).file).getD []) ∧
    Ceilings (run (idle none) inTurn).log := by
  have hkeeps := @ledger_keeps none inTurn (by decide +kernel)
  exact ⟨by decide +kernel, hkeeps.1, hkeeps.2⟩

/-- the second call reads before the first writes -/
def atOnce : List Act :=
  [.call (updateOf "r-a"), .call (updateOf "r-b"), .tick 1 1000] ++ wholeCall 0 1000 ++ List.replicate 4 (.tick 1 1001)

/-- **A grant is lost.** Both calls return, and the file has the second one's entry only. -/
theorem grant_lost : (run (idle none) atOnce).file = some (.whole [⟨"r-b", 1001, none⟩]) ∧
    grants (run (idle none) atOnce).log = [⟨"r-a", 1000, none⟩, ⟨"r-b", 1001, none⟩] ∧
    ¬ Held (run (idle none) atOnce).log ((read (run (idle none) atOnce).file).getD []) := by
  have hfile : (run (idle none) atOnce).file = some (.whole [⟨"r-b", 1001, none⟩]) := by decide
  have hgrants : grants (run (idle none) atOnce).log = [⟨"r-a", 1000, none⟩, ⟨"r-b", 1001, none⟩] := by decide +kernel
  refine ⟨hfile, hgrants, fun h => ?_⟩
  have hlen := h.each.length_le
  rw [hgrants, hfile] at hlen
  exact absurd hlen (by decide)

end Rally.Transport
