/-
The books of Second Wind (`start_second_wind`, `finish_second_wind` and `unrecovered_block_ids` of `src/runner.py`),
over all commands, turns and crashes of a run.

A recovery is written twice: as the active one and at the end of the history. It is closed in the history when the
backup's turn is accepted or another recovery starts, and by the latest record with its id. Ids are numbered by the
counter, and the counter is the length of the history, so no two records have one id.

- `Accounts`: what holds of the record of a run. `edit_accounted`: every edit keeps it.
- `second_wind_accounts`: so every state saved has it.
-/
import Rally.Runner.Session

namespace Rally.Runner

open Py Rally.Envelope

/-! ## The books -/

/-- the records of recoveries that are under way -/
def underWay (history : List Recovery) : List Recovery := history.filter fun r => r.status = "active"

/-- the recoveries from a block name different items -/
def TriedOnce (history : List Recovery) : Prop :=
  history.Pairwise fun r r' => r.kind = "blocked" → r'.kind = "blocked" → ∀ id ∈ r.items, id ∉ r'.items

def recoveryId (n : ℕ) : String := s!"sw-{n}"

structure Accounts (c : Continuity) : Prop where
  used : c.recoveriesUsed = c.history.length
  bound : c.recoveriesUsed ≤ c.maxRecoveries
  numbered : c.history.map (fun r => r.id) = (List.range c.history.length).map fun i => recoveryId (i + 1)
  active : underWay c.history = c.active.toList
  tried : TriedOnce c.history

/-- the record of the run, if it has one, is in order -/
def Accounted (s : RunState) : Prop := ∀ c, s.continuity = some c → Accounts c

theorem recoveryId_inj {m n : ℕ} (h : recoveryId m = recoveryId n) : m = n := by
  apply toString_inj
  simpa [recoveryId] using h

theorem recoveryId_ne (n : ℕ) : recoveryId n ≠ "" := by
  intro h
  have h' := congrArg String.toList h
  simp [recoveryId] at h'

theorem Accounts.ids {c : Continuity} (h : Accounts c) : (c.history.map fun r => r.id).Nodup := by
  rw [h.numbered]
  refine List.nodup_range.map ?_
  intro m n hmn
  exact Nat.succ.inj (recoveryId_inj hmn)

/-- the policy of a new run: no recovery yet -/
theorem continuityPolicy_spec {cfg : Cfg} {c : Continuity} (h : continuityPolicy cfg = .ok c) :
    c.recoveriesUsed = 0 ∧ 0 ≤ c.maxRecoveries ∧ c.active = none ∧ c.history = [] := by
  unfold continuityPolicy at h
  split at h
  · cases h
    exact ⟨rfl, le_max_left _ _, rfl, rfl⟩
  · cases h
  · cases h
    exact ⟨rfl, le_max_left _ _, rfl, rfl⟩

theorem policy_accounts {cfg : Cfg} {c : Continuity} (h : continuityPolicy cfg = .ok c) : Accounts c := by
  obtain ⟨hused, hmax, hactive, hhistory⟩ := continuityPolicy_spec h
  refine ⟨?_, ?_, ?_, ?_, ?_⟩
  · rw [hused, hhistory]; rfl
  · rw [hused]; exact hmax
  · rw [hhistory]; rfl
  · rw [hactive, hhistory]; rfl
  · rw [hhistory]; exact List.Pairwise.nil

theorem continuityOf_accounts {s : RunState} {cfg : Cfg} {c : Continuity} (hs : Accounted s)
    (h : continuityOf s cfg = .ok c) : Accounts c := by
  unfold continuityOf at h
  cases hc : s.continuity with
  | some d =>
    rw [hc] at h
    cases h
    exact hs c hc
  | none =>
    rw [hc] at h
    exact policy_accounts h

/-! ## Closing a record -/

/-- one record closed -/
def closeRecord (id status outcome : String) (r : Recovery) : Recovery :=
  if r.id = id then { r with status := status, outcome := takeChars outcome 800 } else r

@[simp] theorem closeRecord_id (id status outcome : String) (r : Recovery) :
    (closeRecord id status outcome r).id = r.id := by
  unfold closeRecord; split_ifs <;> rfl

@[simp] theorem closeRecord_kind (id status outcome : String) (r : Recovery) :
    (closeRecord id status outcome r).kind = r.kind := by
  unfold closeRecord; split_ifs <;> rfl

@[simp] theorem closeRecord_items (id status outcome : String) (r : Recovery) :
    (closeRecord id status outcome r).items = r.items := by
  unfold closeRecord; split_ifs <;> rfl

theorem closeFirst_eq {id status outcome : String} {l : List Recovery} (h : (l.map fun r => r.id).Nodup) :
    setRecoveryStatus.go id status outcome l = l.map (closeRecord id status outcome) := by
  induction l with
  | nil => rfl
  | cons r l ih =>
    obtain ⟨hr, hl⟩ := List.nodup_cons.1 h
    rw [setRecoveryStatus.go, List.map_cons]
    by_cases hid : r.id = id
    · -- no other record has this id
      have hrest : l.map (closeRecord id status outcome) = l.map (fun r => r) := by
        apply List.map_congr_left
        intro r' hr'
        unfold closeRecord
        rw [if_neg]
        intro hid'
        exact hr (List.mem_map.2 ⟨r', hr', hid'.trans hid.symm⟩)
      rw [if_pos hid, hrest]
      simp [closeRecord, hid]
    · rw [if_neg hid, ih hl]
      simp [closeRecord, hid]

theorem setRecoveryStatus_eq {history : List Recovery} {id status outcome : String}
    (h : (history.map fun r => r.id).Nodup) :
    setRecoveryStatus history id status outcome = history.map (closeRecord id status outcome) := by
  unfold setRecoveryStatus
  rw [closeFirst_eq (by rw [List.map_reverse]; exact List.nodup_reverse.2 h), ← List.map_reverse,
    List.reverse_reverse]

theorem triedOnce_close {history : List Recovery} (h : TriedOnce history) (id status outcome : String) :
    TriedOnce (history.map (closeRecord id status outcome)) := by
  refine List.pairwise_map.2 (h.imp ?_)
  intro r r' hrr
  simpa using hrr

/-- closing the record under way leaves none under way -/
theorem underWay_close {history : List Recovery} {r : Recovery} {status outcome : String}
    (h : underWay history = [r]) (hst : status ≠ "active") :
    underWay (history.map (closeRecord r.id status outcome)) = [] := by
  refine List.filter_eq_nil_iff.2 ?_
  intro x hx
  obtain ⟨y, hy, rfl⟩ := List.mem_map.1 hx
  unfold closeRecord
  split_ifs with hid
  · simpa using hst
  · intro hact
    have hmem : y ∈ underWay history := List.mem_filter.2 ⟨hy, hact⟩
    rw [h, List.mem_singleton] at hmem
    exact hid (by rw [hmem])

/-- the books after the active recovery is closed -/
theorem Accounts.close {c : Continuity} (h : Accounts c) {r : Recovery} (hr : c.active = some r) {status : String}
    (outcome : String) (hst : status ≠ "active") :
    Accounts { c with active := none, history := setRecoveryStatus c.history r.id status outcome } := by
  rw [setRecoveryStatus_eq h.ids]
  refine ⟨?_, h.bound, ?_, ?_, triedOnce_close h.tried _ _ _⟩
  · simpa using h.used
  · rw [List.map_map, List.length_map, ← h.numbered]
    apply List.map_congr_left
    intro x _
    simp
  · exact underWay_close (by rw [h.active, hr]; rfl) hst

/-! ## Starting one -/

theorem sortedIds_mem {ids : List Value} {names : List String} (h : sortedIds ids = .ok names) :
    ∀ name ∈ names, .str name ∈ ids := by
  obtain ⟨all, hall, h⟩ := bind_ok h
  cases h
  intro name hname
  rw [List.mem_insertionSort, List.mem_dedup] at hname
  obtain ⟨i, hi, rfl⟩ := List.getElem_of_mem hname
  have hmap := mapM_ok hall
  have hi' : i < ids.length := by rw [hmap.length_eq]; exact hi
  have hval := hmap.get hi' hi
  simp only [List.get_eq_getElem] at hval
  have hstr : ids[i] = .str all[i] := by
    unfold Value.asStr at hval
    split at hval
    · cases hval; assumption
    · cases hval
  exact hstr ▸ List.getElem_mem hi'

/-- no item that a recovery from a block has named is offered again -/
theorem unrecovered_untried {s : RunState} {cfg : Cfg} {c : Continuity} (hc : continuityOf s cfg = .ok c) {id : String}
    (h : .str id ∈ unrecoveredBlockIds s) : ∀ r ∈ c.history, r.kind = "blocked" → id ∉ r.items := by
  intro r hr hkind hid
  obtain ⟨it, hit, hitid⟩ := List.mem_map.1 h
  have hfree := (List.mem_filter.1 hit).2
  have hcont : s.continuity = some c := by
    unfold continuityOf at hc
    cases hs : s.continuity with
    | some d => rw [hs] at hc; cases hc; rfl
    | none =>
      rw [hs] at hc
      rw [(continuityPolicy_spec hc).2.2.2] at hr
      cases hr
  have hattempt : id ∈ (c.history.filter fun r => r.kind = "blocked").flatMap fun r => r.items :=
    List.mem_flatMap.2 ⟨r, List.mem_filter.2 ⟨hr, by simpa using hkind⟩, hid⟩
  simp [hcont, hitid] at hfree
  exact hfree.2 r hr hkind hid

/-- the books after a new recovery: what was under way is closed, and the new one is under way -/
theorem Accounts.start {c : Continuity} (h : Accounts c) (hroom : c.recoveriesUsed < c.maxRecoveries) {r : Recovery}
    {history : List Recovery} (hids : history.map (fun r => r.id) = c.history.map fun r => r.id)
    (hnone : underWay history = []) (htried : TriedOnce history) (hid : r.id = recoveryId (c.recoveriesUsed + 1))
    (hst : r.status = "active")
    (hnew : r.kind = "blocked" → ∀ r' ∈ history, r'.kind = "blocked" → ∀ id ∈ r'.items, id ∉ r.items) :
    Accounts { c with recoveriesUsed := c.recoveriesUsed + 1, active := some r, history := history ++ [r] } := by
  have hlen : history.length = c.history.length := by
    simpa using congrArg List.length hids
  refine ⟨?_, ?_, ?_, ?_, ?_⟩
  · simp [h.used, hlen]
  · dsimp only
    push_cast
    omega
  · simp only [List.map_append, List.map_cons, List.map_nil, List.length_append, List.length_cons, List.length_nil,
      zero_add, List.range_succ, hids, hlen, h.numbered, hid, h.used]
  · have hsplit : underWay (history ++ [r]) = underWay history ++ underWay [r] := List.filter_append _ _
    have hone : underWay [r] = [r] := List.filter_singleton.trans (by simp [hst])
    rw [hsplit, hnone, hone]
    rfl
  · refine List.pairwise_append.2 ⟨htried, List.pairwise_singleton _ _, ?_⟩
    intro r' hr' x hx hkind hkind'
    rw [List.mem_singleton.1 hx] at hkind' ⊢
    exact hnew hkind' r' hr' hkind

/-- what a handoff needs to know of the items it names -/
theorem startSecondWind_accounted {s t : RunState} {cfg : Cfg} {kind fromActor detail : String} {ids : List Value}
    {made : Bool} (hs : Accounted s) (h : startSecondWind s cfg kind fromActor detail ids = .ok (made, t))
    (hids : kind = "blocked" → ids = unrecoveredBlockIds s) : Accounted t := by
  obtain ⟨c, hc, h⟩ := bind_ok h
  have hacc := continuityOf_accounts hs hc
  split_ifs at h with hoff
  · cases h
    intro d hd
    cases hd
    exact hacc
  · obtain ⟨items, hitems, h⟩ := bind_ok h
    cases h
    intro d hd
    cases hd
    have hroom : c.recoveriesUsed < c.maxRecoveries := by
      have h' := not_or.1 hoff
      omega
    -- the names of a handoff from a block are untried ones
    have hnew : kind = "blocked" → ∀ r ∈ c.history, r.kind = "blocked" → ∀ id ∈ r.items, id ∉ items := by
      intro hkind r hr hrk id hid hmem
      have hval := sortedIds_mem hitems id hmem
      rw [hids hkind] at hval
      exact unrecovered_untried hc hval r hr hrk hid
    cases hactive : c.active with
    | none =>
      have hnone : underWay c.history = [] := by rw [hacc.active, hactive]; rfl
      exact hacc.start hroom rfl hnone hacc.tried rfl rfl hnew
    | some prior =>
      have hclosed := @Accounts.close c hacc prior hactive "failed"
        "The recovery model also failed before an accepted continuation." (by decide)
      have hprior : prior.id ≠ "" := by
        have hmem : prior ∈ underWay c.history := by rw [hacc.active, hactive]; exact List.mem_singleton_self _
        have hid : prior.id ∈ c.history.map fun r => r.id := List.mem_map_of_mem (List.mem_filter.1 hmem).1
        rw [hacc.numbered] at hid
        obtain ⟨i, -, hi⟩ := List.mem_map.1 hid
        rw [← hi]
        exact recoveryId_ne _
      simp only [if_neg hprior]
      refine hacc.start hroom ?_ hclosed.active hclosed.tried rfl rfl ?_
      · rw [setRecoveryStatus_eq hacc.ids, List.map_map]
        apply List.map_congr_left
        intro r _
        simp
      · intro hkind r hr
        rw [setRecoveryStatus_eq hacc.ids] at hr
        obtain ⟨r', hr', rfl⟩ := List.mem_map.1 hr
        simpa using hnew hkind r' hr'

theorem finishSecondWind_accounted {s : RunState} (hs : Accounted s) (actor : String) :
    Accounted (finishSecondWind s actor) := by
  unfold finishSecondWind
  split
  · exact hs
  · rename_i c hc
    split
    · exact hs
    · rename_i r hr
      split_ifs
      · exact hs
      · intro d hd
        rw [← Option.some.inj hd]
        apply (hs c hc).close hr
        split_ifs <;> simp

theorem Accounted.same {s t : RunState} (hs : Accounted s) (h : t.continuity = s.continuity) : Accounted t := by
  intro c hc
  exact hs c (h ▸ hc)

/-- an edit of the loop keeps the books in order -/
theorem loopEdit_accounted {P : Runtime} {cfg : Cfg} {s t : RunState} (h : LoopEdit P cfg s t) (hs : Accounted s) :
    Accounted t := by
  cases h with
  | halt h => exact hs.same rfl
  | reprompt => exact hs.same rfl
  | notice escaped => cases escaped <;> exact hs.same rfl
  | review hfleet hrev =>
    obtain ⟨_, -, hrev⟩ := bind_ok hrev
    obtain ⟨c, hc, hrev⟩ := bind_ok hrev
    obtain ⟨_, -, hrev⟩ := bind_ok hrev
    obtain ⟨_, -, hrev⟩ := bind_ok hrev
    obtain ⟨_, -, hrev⟩ := bind_ok hrev
    cases hrev
    intro d hd
    cases hd
    exact continuityOf_accounts hs hc
  | failure hwind => exact startSecondWind_accounted hs hwind fun hkind => absurd hkind (by decide)
  | block hwind => exact startSecondWind_accounted hs hwind fun _ => rfl
  | thread m => exact hs.same rfl
  | advance actor =>
    unfold advance
    apply finishSecondWind_accounted
    exact hs.same rfl

theorem workEdit_accounted {P : Runtime} {cfg : Cfg} {s t : RunState} (h : WorkEdit P cfg s t) (hs : Accounted s) :
    Accounted t := by
  cases h with
  | loop hedit => exact loopEdit_accounted hedit hs
  | workdir dir => exact hs.same rfl
  | coordinator status => exact hs.same rfl
  | note happ =>
    refine hs.same ?_
    unfold applyHumanNote at happ
    simp only at happ
    split_ifs at happ
    · cases happ; rfl
    · cases happ; rfl
    · obtain ⟨item, -, happ⟩ := bind_ok happ
      cases happ
      rfl
    · cases happ; rfl

theorem edit_accounted {P : Runtime} {cfg : Cfg} (s t : RunState) (h : Edit P cfg s t) (hs : Accounted s) :
    Accounted t := by
  cases h with
  | work hedit => exact workEdit_accounted hedit hs
  | record text halt key => exact hs.same rfl
  | adopt hbare => exact hs.same rfl
  | settle d st id hfound hpend hst => exact hs.same rfl

/-- a run as it is created, with the policy of its day -/
def Unrecovered (s : RunState) : Prop := ∀ c, s.continuity = some c → ∃ cfg, continuityPolicy cfg = .ok c

/-- **Second Wind keeps its books.** In every state saved by any sequence of commands, cut short anywhere: the counter
is the length of the history and within the limit, no two recoveries have one id, the recoveries under way are the one
in `active` or none, and no item is named by two recoveries from a block. -/
theorem second_wind_accounts {P : Runtime} {cfg : Cfg} {s₀ : RunState} (h0 : Unrecovered s₀) {jobs : List Job} {e : Ev}
    (he : e ∈ session P cfg s₀ jobs) {t : RunState} (ht : e.saved = some t) {c : Continuity}
    (hc : t.continuity = some c) :
    c.recoveriesUsed = c.history.length ∧ c.recoveriesUsed ≤ c.maxRecoveries ∧
      (c.history.map fun r => r.id).Nodup ∧ (c.history.filter fun r => r.status = "active") = c.active.toList ∧
      c.history.Pairwise fun r r' => r.kind = "blocked" → r'.kind = "blocked" → ∀ id ∈ r.items, id ∉ r'.items := by
  have hstart : Accounted s₀ := by
    intro d hd
    obtain ⟨cfg₀, hpolicy⟩ := h0 d hd
    exact policy_accounts hpolicy
  have hacc := session_keeps edit_accounted hstart jobs e he t ht c hc
  exact ⟨hacc.used, hacc.bound, hacc.ids, hacc.active, hacc.tried⟩

/-- two agents with two handoffs at most -/
def twoWinds : Cfg := { twoAgents with secondWind := true }

/-- claude scopes an item and calls it blocked, agy fails on it, and claude calls it blocked again -/
def blockedTwice : List Job :=
  [⟨.commission none none,
    workOf
      [replyOf (envelopeOf [(.str "c1", "open", .none)]),
       replyOf (envelopeOf [(.str "c1", "blocked", .none)]),
       ⟨.failed "exit 1", none, none, .broken⟩,
       replyOf (envelopeOf [(.str "c1", "blocked", .none)])], none⟩]

/-- the event saves a record with two recoveries -/
def Ev.savesTwo (e : Ev) : Bool := (e.saved.bind fun s => s.continuity).any fun c => c.recoveriesUsed = 2

/-- two recoveries, one after the other, and the books of both -/
theorem second_wind_accounts_sample : ∃ e t c, e ∈ session plainText twoWinds newRun blockedTwice ∧ e.saved = some t ∧
    t.continuity = some c ∧ c.history.length = 2 ∧ c.recoveriesUsed ≤ c.maxRecoveries ∧
    (c.history.map fun r => r.id).Nodup := by
  have hany : (session plainText twoWinds newRun blockedTwice).any Ev.savesTwo = true := by decide
  obtain ⟨e, he, htwo⟩ := List.any_eq_true.1 hany
  obtain ⟨c, hc, hused⟩ := (Option.any_eq_true _ _).1 htwo
  obtain ⟨t, ht, htc⟩ := Option.bind_eq_some_iff.1 hc
  have hnew : Unrecovered newRun := by
    intro d hd
    cases hd
  obtain ⟨hlen, hbound, hids, -⟩ := second_wind_accounts hnew he ht htc
  exact ⟨e, t, c, he, ht, htc, by simpa [hlen] using hused, hbound, hids⟩

end Rally.Runner
