/-
One process at the send ledger (`Ledger.check_and_reserve` of `src/transport.py`), one call after the other. A call that
cannot write the file fails and leaves it.

The ledger keeps a reservation until a call comes a day or more later: then it drops out of the hourly and the daily
window, out of the count of its run and out of reach of its key.

- `retained`: the ledger has every grant that is less than a day old, as often as it was made.
- `per_run_kept`: no run is granted more than its ceiling where no call comes a day or more after a grant of its run.
  `long_run_exceeds`: a run of more than a day.
- `windows_kept`: the hourly and the daily ceiling hold in every window that leaves one end out, a call that is refused
  leaves the ledger, and the calls of one key take one slot within a day. `both_ends_and_no_key`: a window with both its
  ends, and the key `""`, which is none.
- `call_alone`: a call here is a call there, with no other process about.
-/
import Rally.Core.Trace
import Rally.Transport.Ledger

namespace Rally.Ceilings

open Transport (Request Content Verdict Within verdict read fresh recent)

/-! ## One call -/

structure Call where
  request : Request
  /-- `time.time()` -/
  now : ℚ
  /-- the file can be written and replaced -/
  written : Bool
deriving DecidableEq

inductive Result where
  /-- `SendBlocked` -/
  | refused (why : String)
  /-- `OSError` -/
  | failed
  /-- returned, on an earlier reservation -/
  | found (e : Transport.Entry)
  /-- returned, on a new reservation -/
  | granted (e : Transport.Entry)
deriving DecidableEq

/-- `check_and_reserve` -/
def checkAndReserve (file : Option Content) (c : Call) : Result × Option Content :=
  match read file with
  | none => (.refused "send ledger unreadable, failing closed", file)
  | some sends =>
    match verdict c.request sends c.now with
    | .blocked why => (.refused why, file)
    | .reserved e => (.found e, file)
    | .reserve e kept => if c.written then (.granted e, some (.whole (kept ++ [e]))) else (.failed, file)

/-- the new reservation of a call -/
def Result.grant : Result → List Transport.Entry
  | .granted e => [e]
  | _ => []

def Result.isRefused : Result → Bool
  | .refused _ => true
  | _ => false

def Result.isFound : Result → Bool
  | .found _ => true
  | _ => false

/-! ## One call after the other -/

/-- a call leaves the ledger so -/
def Leaves (file : Option Content) (c : Call) (file' : Option Content) : Prop := (checkAndReserve file c).2 = file'

/-- calls on record -/
abbrev Calls := List (Entry (Option Content) Call)

/-- what came of a call on record -/
def result (e : Entry (Option Content) Call) : Result := (checkAndReserve e.before e.act).1

/-- the reservations that the calls were granted -/
def granted (tr : Calls) : List Transport.Entry := tr.flatMap fun e => (result e).grant

/-- the clock does not go back -/
def Clocked (tr : Calls) : Prop := tr.Pairwise fun e e' => e.act.now ≤ e'.act.now

section Calls

variable {file file' : Option Content} {c : Call} {tr : Calls} {g : Transport.Entry} {now : ℚ}

/-- an entry of a run -/
def ofRun (runId : String) (g : Transport.Entry) : Bool := g.run = runId

/-- a new reservation of a request, within its ceilings beside these -/
structure New (r : Request) (now : ℚ) (g : Transport.Entry) (kept : List Transport.Entry) : Prop where
  eq : g = ⟨r.runId, now, r.key⟩
  first : r.earlier kept = none
  run : (kept.countP (ofRun r.runId) : ℤ) < r.perRun
  within : Within r now kept

theorem verdict_new {r : Request} {sends kept : List Transport.Entry} (h : verdict r sends now = .reserve g kept) :
    New r now g kept := by
  obtain ⟨-, rfl, hwithin⟩ := Transport.verdict_reserve h
  simp only [verdict] at h
  split at h
  · cases h
  · rename_i hfirst
    split_ifs at h with hrun
    cases h
    exact ⟨rfl, hfirst, not_le.1 hrun, hwithin⟩

/-- a grant is new, within every ceiling of its request, and goes beside the entries that have not aged out -/
theorem checkAndReserve_granted (h : (checkAndReserve file c).1 = .granted g) :
    ∃ sends, read file = some sends ∧ verdict c.request sends c.now = .reserve g (sends.filter (fresh c.now)) ∧
      (checkAndReserve file c).2 = some (.whole (sends.filter (fresh c.now) ++ [g])) := by
  unfold checkAndReserve at h ⊢
  cases hread : read file with
  | none => simp [hread] at h
  | some sends =>
    simp only [hread] at h ⊢
    cases hv : verdict c.request sends c.now with
    | blocked why => simp [hv] at h
    | reserved e => simp [hv] at h
    | reserve e kept =>
      obtain ⟨-, rfl, -⟩ := Transport.verdict_reserve hv
      simp only [hv] at h ⊢
      split_ifs at h ⊢ with hw
      cases h
      exact ⟨sends, rfl, hv, rfl⟩

/-- any other call leaves the ledger -/
theorem checkAndReserve_leaves (h : (checkAndReserve file c).1.grant = []) : (checkAndReserve file c).2 = file := by
  unfold checkAndReserve at h ⊢
  cases hread : read file with
  | none => rfl
  | some sends =>
    simp only [hread] at h ⊢
    cases hv : verdict c.request sends c.now with
    | blocked why => rfl
    | reserved e => rfl
    | reserve e kept =>
      simp only [hv] at h ⊢
      split_ifs at h ⊢
      · cases h
      · rfl

theorem checkAndReserve_found (h : (checkAndReserve file c).1 = .found g) :
    ∃ sends, read file = some sends ∧ c.request.earlier (sends.filter (fresh c.now)) = some g := by
  unfold checkAndReserve at h
  cases hread : read file with
  | none => simp [hread] at h
  | some sends =>
    refine ⟨sends, rfl, ?_⟩
    simp only [hread] at h
    cases hearlier : c.request.earlier (sends.filter (fresh c.now)) with
    | some e => simpa [verdict, hearlier] using h
    | none =>
      simp only [verdict, hearlier] at h
      split_ifs at h

theorem grant_of_found {r : Result} (h : r.isFound = true) : r.grant = [] := by
  cases r with
  | found e => rfl
  | _ => cases h

theorem grant_of_refused {r : Result} (h : r.isRefused = true) : r.grant = [] := by
  cases r with
  | refused why => rfl
  | _ => cases h

theorem grant_cases (r : Result) : r.grant = [] ∨ ∃ g, r = .granted g := by
  cases r with
  | granted g => exact Or.inr ⟨g, rfl⟩
  | _ => exact Or.inl rfl

/-- a grant is for the run of its call -/
theorem run_of_grant (h : g ∈ (checkAndReserve file c).1.grant) : g.run = c.request.runId := by
  rcases grant_cases (checkAndReserve file c).1 with hnone | ⟨g', hg⟩
  · rw [hnone] at h
    cases h
  · rw [hg, Result.grant, List.mem_singleton] at h
    obtain ⟨sends, -, hv, -⟩ := checkAndReserve_granted hg
    rw [h, (verdict_new hv).eq]

theorem granted_snoc (tr : Calls) (e : Entry (Option Content) Call) : granted (tr ++ [e]) = granted tr ++ (result e).grant := by
  simp [granted]

theorem Clocked.front {e : Entry (Option Content) Call} (h : Clocked (tr ++ [e])) :
    Clocked tr ∧ ∀ e' ∈ tr, e'.act.now ≤ e.act.now := by
  obtain ⟨hfront, -, hlast⟩ := List.pairwise_append.1 h
  exact ⟨hfront, fun e' he' => hlast e' he' e (List.mem_singleton_self e)⟩

/-- a later look finds fewer entries fresh -/
theorem fresh_mono {e : Transport.Entry} {now later : ℚ} (hle : now ≤ later) (h : fresh later e = true) :
    fresh now e = true := by
  simp only [fresh, decide_eq_true_eq] at h ⊢
  linarith

theorem recent_fresh {e : Transport.Entry} (h : recent now e = true) : fresh now e = true := by
  simp only [recent, fresh, decide_eq_true_eq] at h ⊢
  linarith

theorem filter_fresh (l : List Transport.Entry) {now later : ℚ} (hle : now ≤ later) :
    (l.filter (fresh now)).filter (fresh later) = l.filter (fresh later) := by
  rw [List.filter_filter]
  apply List.filter_congr
  intro e _
  cases h : fresh later e with
  | false => simp
  | true => simp [fresh_mono hle h]

/-- **Retained.** The ledger has every grant that is less than a day old, as often as it was made. -/
theorem retained (h : Trace Leaves file tr file') (hclock : Clocked tr) (hnow : ∀ e ∈ tr, e.act.now ≤ now) :
    ((granted tr).filter (fresh now)).Sublist ((read file').getD []) := by
  induction h generalizing now with
  | nil => exact List.nil_sublist _
  | @snoc tr file₁ file₂ c hrun hnext ih =>
    obtain ⟨hfront, hlast⟩ := hclock.front
    have hc : c.now ≤ now := hnow _ (List.mem_append_right tr (List.mem_singleton_self _))
    rw [granted_snoc]
    rcases grant_cases (checkAndReserve file₁ c).1 with hnone | ⟨g, hg⟩
    · have hleft : file₂ = file₁ := by rw [← hnext, checkAndReserve_leaves hnone]
      simp only [result, hnone, List.append_nil, hleft]
      exact ih hfront fun e he => hnow e (List.mem_append_left _ he)
    · obtain ⟨sends, hread, -, hfile⟩ := checkAndReserve_granted hg
      have hheld := ih hfront hlast
      rw [hread, Option.getD_some] at hheld
      have hkept := hheld.filter (fresh c.now)
      rw [filter_fresh _ le_rfl] at hkept
      have hread' : read file₂ = some (sends.filter (fresh c.now) ++ [g]) := by
        rw [← hnext, hfile]
        rfl
      rw [hread', Option.getD_some, ← filter_fresh _ hc]
      simp only [result, hg, Result.grant, List.filter_append]
      exact (List.filter_sublist.trans hkept).append (List.filter_sublist.trans List.filter_sublist)

/-- beside the grants before it that are less than a day old, a new one is within the ceilings -/
theorem granted_beside {front back : Calls} {e : Entry (Option Content) Call} (h : Trace Leaves file tr file')
    (hclock : Clocked tr) (hsplit : tr = front ++ e :: back) (hg : result e = .granted g) :
    ∃ kept, ((granted front).filter (fresh e.act.now)).Sublist kept ∧ New e.act.request e.act.now g kept := by
  subst hsplit
  have hrun := h.before
  have hfront : Clocked (front ++ [e]) := hclock.sublist (by simp)
  obtain ⟨sends, hread, hv, -⟩ := checkAndReserve_granted hg
  have hheld := retained hrun hfront.front.1 hfront.front.2
  rw [hread, Option.getD_some] at hheld
  have hkept := hheld.filter (fresh e.act.now)
  rw [filter_fresh _ le_rfl] at hkept
  exact ⟨_, hkept, verdict_new hv⟩

/-- a window has no more grants than each of them could find there -/
theorem granted_countP_le {window : Transport.Entry → Bool} {limit : ℕ} (tr : Calls)
    (hgrant : ∀ front e back g, tr = front ++ e :: back → result e = .granted g → window g = true →
      (granted front).countP window < limit) : (granted tr).countP window ≤ limit := by
  induction tr using List.reverseRecOn with
  | nil => simp [granted]
  | append_singleton tr e ih =>
    have hfront := ih fun front e' back g heq hg => hgrant front e' (back ++ [e]) g (by simp [heq]) hg
    rw [granted_snoc, List.countP_append]
    rcases grant_cases (result e) with hnone | ⟨g, hg⟩
    · rw [hnone]
      exact hfront
    · -- the last grant of the window finds all the others
      rw [hg, Result.grant, List.countP_singleton]
      split_ifs with hwindow
      · have hlast := hgrant tr e [] g rfl hg hwindow
        omega
      · exact hfront

end Calls

/-! ## The ceiling of a run -/

/-- no call comes a day or more after a grant of its run -/
def WithinADay (tr : Calls) : Prop :=
  tr.Pairwise fun e e' => e'.act.request.runId = e.act.request.runId → ∀ g ∈ (result e).grant, fresh e'.act.now g = true

/-- **The ceiling of a run.** However many calls there are, and for whatever runs, a run is granted no more than its
ceiling, if none of its calls comes a day or more after one of its grants. -/
theorem per_run_kept {file file' : Option Content} {tr : Calls} (h : Trace Leaves file tr file') (hclock : Clocked tr)
    (hday : WithinADay tr) (runId : String) (perRun : ℕ)
    (hlimit : ∀ e ∈ tr, e.act.request.runId = runId → e.act.request.perRun ≤ perRun) :
    (granted tr).countP (ofRun runId) ≤ perRun := by
  refine granted_countP_le tr fun front e back g hsplit hg hrun => ?_
  obtain ⟨kept, hkept, hnew⟩ := granted_beside h hclock hsplit hg
  have hsame : e.act.request.runId = runId := by simpa [ofRun, hnew.eq] using hrun
  -- none of its grants has aged out
  have hall : (granted front).countP (ofRun runId) = ((granted front).filter (fresh e.act.now)).countP (ofRun runId) := by
    rw [List.countP_filter]
    apply List.countP_congr
    intro x hx
    simp only [ofRun, decide_eq_true_eq, Bool.and_eq_true]
    refine ⟨fun hx' => ⟨hx', ?_⟩, fun hx' => hx'.1⟩
    obtain ⟨e', he', hgrant⟩ := List.mem_flatMap.1 hx
    rw [WithinADay, hsplit, List.pairwise_append] at hday
    refine hday.2.2 e' he' e (List.mem_cons_self) ?_ x hgrant
    rw [hsame, ← hx', run_of_grant hgrant]
  have hle := hkept.countP_le (p := ofRun runId)
  have hceiling := hnew.run
  rw [hsame] at hceiling
  have hperRun := hlimit e (by rw [hsplit]; simp) hsame
  omega

/-- the ledger after a call -/
def leave (file : Option Content) (c : Call) : Option Content := (checkAndReserve file c).2

/-- the calls from an empty ledger on -/
def callsOf (cs : List Call) : Calls := entries leave none cs

theorem trace_callsOf (cs : List Call) : ∃ file, Trace Leaves none (callsOf cs) file :=
  trace_entries Leaves leave none cs fun e he => (entries_after e he).symm

/-- a call with the ceilings of the source, one for the run -/
def once (runId : String) (key : Option String) (now : ℚ) : Call := ⟨⟨runId, 1, 30, 200, key⟩, now, true⟩

/-- the third call is refused, as the first is less than a day old -/
theorem per_run_kept_sample :
    let tr := callsOf [once "r-a" none 0, once "r-b" none 40000, once "r-a" none 86399]
    (granted tr).length = 2 ∧ (granted tr).countP (ofRun "r-a") ≤ 1 := by
  intro tr
  obtain ⟨file, h⟩ := trace_callsOf [once "r-a" none 0, once "r-b" none 40000, once "r-a" none 86399]
  exact ⟨by decide +kernel, per_run_kept h (by unfold Clocked; decide +kernel) (by unfold WithinADay; decide +kernel) "r-a" 1
    (by decide)⟩

/-- **A run of more than a day.** The first grant of a run whose ceiling is one is a day old when the second is made. -/
theorem long_run_exceeds : ∃ file, Trace Leaves none (callsOf [once "r-a" none 0, once "r-a" none 86400]) file ∧
    Clocked (callsOf [once "r-a" none 0, once "r-a" none 86400]) ∧
    (∀ e ∈ callsOf [once "r-a" none 0, once "r-a" none 86400], e.act.request.perRun = 1) ∧
    (granted (callsOf [once "r-a" none 0, once "r-a" none 86400])).countP (ofRun "r-a") = 2 := by
  obtain ⟨file, h⟩ := trace_callsOf [once "r-a" none 0, once "r-a" none 86400]
  exact ⟨file, h, by unfold Clocked; decide +kernel, by decide +kernel, by decide +kernel⟩

/-! ## The windows -/

/-- within so many seconds from `w` on -/
def startingAt (len w : ℚ) (g : Transport.Entry) : Bool := w ≤ g.at_ ∧ g.at_ < w + len

/-- within so many seconds up to `w` -/
def endingAt (len w : ℚ) (g : Transport.Entry) : Bool := w - len < g.at_ ∧ g.at_ ≤ w

/-- every window of so many seconds, one end left out, has at most `limit` of them -/
def Sliding (len : ℚ) (limit : ℕ) (l : List Transport.Entry) : Prop :=
  ∀ w, l.countP (startingAt len w) ≤ limit ∧ l.countP (endingAt len w) ≤ limit

section Windows

variable {file file' : Option Content} {tr : Calls}

/-- the grants of a window in which all are less than an hour apart -/
theorem hour_countP_le (h : Trace Leaves file tr file') (hclock : Clocked tr) {perHour : ℕ}
    (hlimit : ∀ e ∈ tr, e.act.request.perHour ≤ perHour) {window : Transport.Entry → Bool}
    (hwindow : ∀ x y, window x = true → window y = true → recent x.at_ y = true) :
    (granted tr).countP window ≤ perHour := by
  refine granted_countP_le tr fun front e back g hsplit hg hin => ?_
  obtain ⟨kept, hkept, hnew⟩ := granted_beside h hclock hsplit hg
  have hat : g.at_ = e.act.now := by rw [hnew.eq]
  have hle : (granted front).countP window ≤ ((granted front).filter (fresh e.act.now)).countP (recent e.act.now) := by
    rw [List.countP_filter]
    refine List.countP_mono_left fun x _ hx => ?_
    have hrecent := hwindow g x hin hx
    rw [hat] at hrecent
    rw [hrecent, recent_fresh hrecent]
    rfl
  have hceiling := (hnew.within.sub hkept).hour
  have hperHour := hlimit e (by rw [hsplit]; simp)
  omega

/-- the grants of a window in which all are less than a day apart -/
theorem day_countP_le (h : Trace Leaves file tr file') (hclock : Clocked tr) {perDay : ℕ}
    (hlimit : ∀ e ∈ tr, e.act.request.perDay ≤ perDay) {window : Transport.Entry → Bool}
    (hwindow : ∀ x y, window x = true → window y = true → fresh x.at_ y = true) :
    (granted tr).countP window ≤ perDay := by
  refine granted_countP_le tr fun front e back g hsplit hg hin => ?_
  obtain ⟨kept, hkept, hnew⟩ := granted_beside h hclock hsplit hg
  have hat : g.at_ = e.act.now := by rw [hnew.eq]
  have hle : (granted front).countP window ≤ ((granted front).filter (fresh e.act.now)).length := by
    rw [← List.countP_eq_length_filter]
    refine List.countP_mono_left fun x _ hx => ?_
    have hfresh := hwindow g x hin hx
    rwa [hat] at hfresh
  have hceiling := (hnew.within.sub hkept).day
  have hperDay := hlimit e (by rw [hsplit]; simp)
  omega

theorem sliding_hour (h : Trace Leaves file tr file') (hclock : Clocked tr) {perHour : ℕ}
    (hlimit : ∀ e ∈ tr, e.act.request.perHour ≤ perHour) : Sliding 3600 perHour (granted tr) := by
  intro w
  constructor
  · refine hour_countP_le h hclock hlimit fun x y hx hy => ?_
    simp only [startingAt, recent, decide_eq_true_eq] at hx hy ⊢
    linarith [hx.2, hy.1]
  · refine hour_countP_le h hclock hlimit fun x y hx hy => ?_
    simp only [endingAt, recent, decide_eq_true_eq] at hx hy ⊢
    linarith [hx.2, hy.1]

theorem sliding_day (h : Trace Leaves file tr file') (hclock : Clocked tr) {perDay : ℕ}
    (hlimit : ∀ e ∈ tr, e.act.request.perDay ≤ perDay) : Sliding 86400 perDay (granted tr) := by
  intro w
  constructor
  · refine day_countP_le h hclock hlimit fun x y hx hy => ?_
    simp only [startingAt, fresh, decide_eq_true_eq] at hx hy ⊢
    linarith [hx.2, hy.1]
  · refine day_countP_le h hclock hlimit fun x y hx hy => ?_
    simp only [endingAt, fresh, decide_eq_true_eq] at hx hy ⊢
    linarith [hx.2, hy.1]

end Windows

/-! ## One slot a key -/

/-- a reservation of the run under the key -/
def ofKey (r : Request) (g : Transport.Entry) : Bool := g.run = r.runId ∧ g.reservationKey = r.key

/-- the call is for the run and under the key of the other -/
def SameKey (c c' : Call) : Prop := c'.request.runId = c.request.runId ∧ c'.request.key = c.request.key

/-- While no call comes a day after a reservation under a key, the later calls under the key find it and leave the ledger:
all of them take the one slot that the first was granted, or none if the first found its own. -/
def OneSlot (tr : Calls) : Prop :=
  ∀ front e later back g, tr = front ++ e :: (later ++ back) → result e = .granted g ∨ result e = .found g →
    e.act.request.key ≠ none → (∀ e' ∈ later, e'.act.now - g.at_ < 86400) →
      (∀ e' ∈ later, SameKey e.act e'.act → (result e').isFound = true ∧ e'.after = e'.before) ∧
        (granted (e :: later)).countP (ofKey e.act.request) = (result e).grant.length

section Slots

variable {file file' : Option Content} {c : Call} {tr : Calls} {g : Transport.Entry}

/-- the entry is in the ledger -/
def Has (file : Option Content) (g : Transport.Entry) : Prop := ∃ sends, read file = some sends ∧ g ∈ sends

/-- until a call comes a day later, an entry stays -/
theorem has_step (h : Has file g) (hfresh : fresh c.now g = true) : Has (checkAndReserve file c).2 g := by
  rcases grant_cases (checkAndReserve file c).1 with hnone | ⟨g', hg⟩
  · rw [checkAndReserve_leaves hnone]
    exact h
  · obtain ⟨sends, hread, hmem⟩ := h
    obtain ⟨sends', hread', -, hfile⟩ := checkAndReserve_granted hg
    rw [hread] at hread'
    cases hread'
    exact ⟨_, congrArg read hfile, List.mem_append_left _ (List.mem_filter.2 ⟨hmem, hfresh⟩)⟩

theorem has_run (h : Trace Leaves file tr file') (hhas : Has file g) (hfresh : ∀ e ∈ tr, fresh e.act.now g = true) :
    Has file' g := by
  induction h with
  | nil => exact hhas
  | snoc hrun hnext ih =>
    rw [← hnext]
    exact has_step (ih fun e he => hfresh e (List.mem_append_left _ he))
      (hfresh _ (List.mem_append_right _ (List.mem_singleton_self _)))

/-- a call under the key of an entry that is in the ledger finds one -/
theorem found_of_has (hhas : Has file g) (hfresh : fresh c.now g = true) (hof : ofKey c.request g = true)
    (hkey : c.request.key ≠ none) : (checkAndReserve file c).1.isFound = true := by
  obtain ⟨sends, hread, hmem⟩ := hhas
  obtain ⟨k, hk⟩ := Option.ne_none_iff_exists'.1 hkey
  have hsome : ((sends.filter (fresh c.now)).find? fun s => s.run = c.request.runId ∧ s.reservationKey = some k).isSome := by
    rw [List.find?_isSome]
    refine ⟨g, List.mem_filter.2 ⟨hmem, hfresh⟩, ?_⟩
    simpa [ofKey, hk] using hof
  obtain ⟨e, he⟩ := Option.isSome_iff_exists.1 hsome
  have hearlier : c.request.earlier (sends.filter (fresh c.now)) = some e := by
    rw [Request.earlier, hk]
    exact he
  simp [checkAndReserve, hread, verdict, hearlier, Result.isFound]

/-- a call that returns leaves its reservation in the ledger -/
theorem has_returned (h : (checkAndReserve file c).1 = .granted g ∨ (checkAndReserve file c).1 = .found g) :
    Has (checkAndReserve file c).2 g ∧ ofKey c.request g = true := by
  rcases h with h | h
  · obtain ⟨sends, -, hv, hfile⟩ := checkAndReserve_granted h
    refine ⟨⟨_, congrArg read hfile, List.mem_append_right _ (List.mem_singleton_self g)⟩, ?_⟩
    simp [ofKey, (verdict_new hv).eq]
  · rw [checkAndReserve_leaves (by rw [h]; rfl)]
    obtain ⟨sends, hread, hearlier⟩ := checkAndReserve_found h
    unfold Request.earlier at hearlier
    split at hearlier
    · rename_i k hk
      refine ⟨⟨sends, hread, List.mem_of_mem_filter (List.mem_of_find?_eq_some hearlier)⟩, ?_⟩
      simpa [ofKey, hk] using List.find?_some hearlier
    · cases hearlier

theorem one_slot (h : Trace Leaves file tr file') : OneSlot tr := by
  rintro front e later back g rfl hreturned hkey hday
  have hafter : Leaves e.before e.act e.after := h.entry e (by simp)
  obtain ⟨hhas, hof⟩ := has_returned hreturned
  rw [hafter] at hhas
  obtain ⟨s, hfront, hrest⟩ := (show Trace Leaves file ((front ++ [e]) ++ (later ++ back)) file' by simpa using h).split
  rw [hfront.last] at hrest
  obtain ⟨t, hlater, -⟩ := hrest.split
  have hfound : ∀ e' ∈ later, SameKey e.act e'.act → (result e').isFound = true := by
    intro e' he' hsame
    obtain ⟨l, l', rfl⟩ := List.append_of_mem he'
    have hstill := has_run hlater.before hhas fun x hx => decide_eq_true (hday x (by simp [hx]))
    refine found_of_has hstill (decide_eq_true (hday e' he')) ?_ (by rw [hsame.2]; exact hkey)
    rw [ofKey, hsame.1, hsame.2]
    exact hof
  refine ⟨fun e' he' hsame => ⟨hfound e' he' hsame, ?_⟩, ?_⟩
  · rw [← hlater.entry e' he', checkAndReserve_leaves]
    exact grant_of_found (hfound e' he' hsame)
  · have hlone : (granted later).countP (ofKey e.act.request) = 0 := by
      rw [List.countP_eq_zero]
      intro g' hg' hof'
      obtain ⟨e', he', hgrant⟩ := List.mem_flatMap.1 hg'
      rcases grant_cases (result e') with hnone | ⟨g'', hg''⟩
      · rw [hnone] at hgrant
        cases hgrant
      · rw [hg'', Result.grant, List.mem_singleton] at hgrant
        subst hgrant
        obtain ⟨sends, -, hv, -⟩ := checkAndReserve_granted hg''
        have hsame : SameKey e.act e'.act := by simpa [ofKey, (verdict_new hv).eq, SameKey] using hof'
        have hnot := grant_of_found (hfound e' he' hsame)
        rw [hg''] at hnot
        cases hnot
    have hsplit : granted (e :: later) = (result e).grant ++ granted later := by simp [granted]
    rw [hsplit, List.countP_append, hlone, Nat.add_zero]
    rcases hreturned with hg | hg
    · simp [hg, Result.grant, hof]
    · simp [hg, Result.grant]

end Slots

/-- a call that is refused leaves the ledger -/
def RefusedLeaves (tr : Calls) : Prop := ∀ e ∈ tr, (result e).isRefused = true → e.after = e.before

/-- **The windows.** Every window of an hour or of a day that leaves one of its ends out has no more grants than the
ceiling, for whatever runs; a call that is refused leaves the ledger; the calls of a run under one key, which is not `""`,
take one slot within a day. -/
theorem windows_kept {file file' : Option Content} {tr : Calls} (h : Trace Leaves file tr file') (hclock : Clocked tr)
    (perHour perDay : ℕ) (hlimit : ∀ e ∈ tr, e.act.request.perHour ≤ perHour ∧ e.act.request.perDay ≤ perDay) :
    Sliding 3600 perHour (granted tr) ∧ Sliding 86400 perDay (granted tr) ∧ RefusedLeaves tr ∧ OneSlot tr := by
  refine ⟨sliding_hour h hclock fun e he => (hlimit e he).1, sliding_day h hclock fun e he => (hlimit e he).2, ?_,
    one_slot h⟩
  intro e he hrefused
  rw [← h.entry e he, checkAndReserve_leaves]
  exact grant_of_refused hrefused

/-- the third call finds the reservation of the first, the fourth is refused -/
theorem windows_kept_sample :
    let tr := callsOf [once "r-a" (some "k") 0, once "r-b" none 3599, once "r-a" (some "k") 86399, once "r-a" none 86399]
    tr.map (fun e => (result e).isFound) = [false, false, true, false] ∧
    Sliding 3600 30 (granted tr) ∧ Sliding 86400 200 (granted tr) ∧ RefusedLeaves tr ∧ OneSlot tr := by
  intro tr
  obtain ⟨file, h⟩ := trace_callsOf
    [once "r-a" (some "k") 0, once "r-b" none 3599, once "r-a" (some "k") 86399, once "r-a" none 86399]
  exact ⟨by decide +kernel, windows_kept h (by unfold Clocked; decide +kernel) 30 200 (by decide +kernel)⟩

/-- two calls of a run under the key `""` -/
def emptyKey : List Call := List.replicate 2 ⟨⟨"r-a", 60, 30, 200, some ""⟩, 1000, true⟩

/-- two calls an hour apart, with a ceiling of one an hour -/
def anHourApart : List Call := [⟨⟨"r-a", 60, 1, 200, none⟩, 0, true⟩, ⟨⟨"r-a", 60, 1, 200, none⟩, 3600, true⟩]

/-- **Both ends, and no key.** The hour from 0 to 3600, with both its ends, has two grants where the ceiling is one. Two
calls of a run take two slots under the one key `""`. -/
theorem both_ends_and_no_key :
    (∃ file, Trace Leaves none (callsOf anHourApart) file ∧ Clocked (callsOf anHourApart) ∧
      (granted (callsOf anHourApart)).countP (fun g => 0 ≤ g.at_ ∧ g.at_ ≤ 0 + 3600) = 2) ∧
    (∃ file, Trace Leaves none (callsOf emptyKey) file ∧ Clocked (callsOf emptyKey) ∧
      (granted (callsOf emptyKey)).length = 2) := by
  obtain ⟨file, h⟩ := trace_callsOf anHourApart
  obtain ⟨file', h'⟩ := trace_callsOf emptyKey
  exact ⟨⟨file, h, by unfold Clocked; decide +kernel, by decide +kernel⟩, file', h', by unfold Clocked; decide +kernel,
    by decide +kernel⟩

/-! ## Among the processes -/

section Alone

open Transport (State Proc Phase)

variable {s : State} {i : ℕ} {p : Proc} {now : ℚ}

theorem set_at {procs : List Proc} (h : procs[i]? = some p) (q : Proc) : (procs.set i q)[i]? = some q :=
  List.getElem?_set_self (List.getElem?_eq_some_iff.1 h).1

theorem run_tick (h : s.procs[i]? = some p) (acts : List Transport.Act) :
    Transport.run s (.tick i now :: acts) = Transport.run (Transport.tick s i p now) acts := by
  simp [Transport.run, Transport.step, h]

theorem run_ended {r : Request} (h : s.procs[i]? = some ⟨r, .ended⟩) (n : ℕ) :
    Transport.run s (List.replicate n (.tick i now)) = s := by
  induction n with
  | zero => rfl
  | succ n ih =>
    rw [List.replicate_succ, run_tick h]
    exact ih

/-- from its decision on, the process writes the ledger -/
theorem run_deciding {r : Request} {e : Transport.Entry} {kept : List Transport.Entry}
    (h : s.procs[i]? = some ⟨r, .deciding e kept⟩) :
    (Transport.run s (List.replicate 3 (.tick i now))).file = some (.whole (kept ++ [e])) := by
  rw [List.replicate_succ, run_tick h, List.replicate_succ, run_tick (p := ⟨r, .opened e kept⟩) (set_at h _),
    List.replicate_succ, run_tick (p := ⟨r, .dumped e kept⟩) (set_at (set_at h _) _)]
  rfl

/-- once it has read the ledger, it decides -/
theorem run_loaded {r : Request} {sends : List Transport.Entry} (h : s.procs[i]? = some ⟨r, .loaded sends⟩)
    (hread : read s.file = some sends) :
    (Transport.run s (List.replicate 4 (.tick i now))).file = leave s.file ⟨r, now, true⟩ := by
  rw [List.replicate_succ, run_tick h]
  simp only [Transport.tick, leave, checkAndReserve, hread]
  cases verdict r sends now with
  | blocked why =>
    simp only
    rw [run_ended (r := r) (set_at h _)]
    rfl
  | reserved e =>
    simp only
    rw [run_ended (r := r) (set_at h _)]
    rfl
  | reserve e kept =>
    exact run_deciding (r := r) (set_at h _)

theorem run_called {r : Request} (h : s.procs[i]? = some ⟨r, .called⟩) :
    (Transport.run s (List.replicate 5 (.tick i now))).file = leave s.file ⟨r, now, true⟩ := by
  rw [List.replicate_succ, run_tick h]
  cases hread : read s.file with
  | none =>
    simp only [Transport.tick, leave, checkAndReserve, hread]
    rw [run_ended (r := r) (set_at h _)]
    rfl
  | some sends =>
    simp only [Transport.tick, hread]
    exact run_loaded (r := r) (set_at h _) hread

/-- **A call alone.** The process makes its call while nobody else is at the ledger, which is then as the call here leaves
it. -/
theorem call_alone (s : State) (r : Request) (now : ℚ) :
    (Transport.run s (.call r :: Transport.wholeCall s.procs.length now)).file = leave s.file ⟨r, now, true⟩ := by
  have hcalled : (Transport.step s (.call r)).procs[s.procs.length]? = some ⟨r, .called⟩ := by
    simp [Transport.step]
  have hrun := @run_called _ _ now _ hcalled
  simpa only [Transport.run, Transport.wholeCall, List.foldl_cons, Transport.step] using hrun

end Alone

end Rally.Ceilings
