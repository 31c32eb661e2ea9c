/-
The custody that a Second Wind handoff grants (`start_second_wind`, `take_turn` and `finish_second_wind` of
`src/runner.py`, `reconcile` of `src/envelope.py`), over all commands, turns and crashes of a run.

While a handoff is in force for the actor whose turn it is, `reconcile` lets that actor take over the items it names.
`finish_second_wind` ends the handoff after the actor's accepted turn; a turn whose update is refused does not come so
far.

- `taken_by_handoff`: an item that is blocked, or in work under an owner, changes hands in an accepted turn only under a
  handoff in force for its actor that names the item.
- `custody_once`: after an accepted turn under a handoff that handoff is never in force again, in every run in which no
  update of such a turn is refused.
- `custody_twice`: a turn whose update is refused, and a retry in which the same handoff takes over another item.
-/
import Rally.Runner.Guidance
import Rally.Runner.Journal

namespace Rally.Runner

open Py Rally.Envelope

/-! ## Handoffs in force -/

/-- the handoff in force for the actor whose turn it is -/
def handoffOf (s : RunState) : Option Recovery := (activeOf s).filter fun r => r.toActor = s.actor

/-- the accepted turn of the file `s` that is saved as `t` gives the item under this key, blocked or in work under an
owner, to another -/
structure TakenOver (s t : RunState) (k : Key) (owner : Value) : Prop where
  before : ∃ old, kept s.checklist k = some old ∧ old.owner ≠ owner ∧
    (old.state = .blocked ∨ (old.state = .claimed ∧ old.owner ≠ .none))
  after : ∃ x ∈ t.checklist, x.id.key? = some k ∧ x.owner = owner

section Handoff

variable {P : Runtime} {cfg : Cfg} {s t u v : RunState} {actor : String}

theorem handoffOf_eq_some {r : Recovery} : handoffOf s = some r ↔ activeOf s = some r ∧ r.toActor = s.actor := by
  simp [handoffOf, Option.filter_eq_some_iff]

/-- what `reconcile` may give away is what the handoff in force names -/
theorem recoveryItems_eq {c : Continuity} (h : c.active = activeOf s) :
    recoveryItems c s.actor = ((handoffOf s).map fun r => r.items).getD [] := by
  unfold recoveryItems handoffOf
  rw [h]
  cases activeOf s with
  | none => rfl
  | some r =>
    simp only [Option.filter, decide_eq_true_eq]
    split_ifs <;> rfl

/-- the only move by which such an item changes hands is the recovery -/
theorem move_taken {rm : ℤ} {recoverable : Bool} {old x : Item} (h : Move actor rm recoverable old x)
    (howner : old.owner ≠ x.owner) (hstate : old.state = .blocked ∨ (old.state = .claimed ∧ old.owner ≠ .none)) :
    recoverable = true ∧ x.owner = .str actor := by
  cases h with
  | keep => exact absurd rfl howner
  | recover _ _ granted => exact ⟨granted, rfl⟩
  | verify => exact absurd rfl howner
  | reject => exact absurd rfl howner
  | claim o was =>
    rw [was] at hstate
    rcases hstate with h | ⟨h, -⟩ <;> cases h
  | submit e was own =>
    rcases hstate with hblocked | ⟨-, hnone⟩
    · rw [hblocked] at was
      rcases was with h | h <;> cases h
    · rcases own with h | h
      · exact absurd h hnone
      · exact absurd h howner
  | flag => exact absurd rfl howner

/-- **Custody by handoff.** An accepted turn gives such an item to nobody but its actor, under the handoff in force. -/
theorem taken_by_handoff {f : RunState} (hmem : Over f s) (hacc : Accepts P cfg s f.actor u v) {k : Key} {owner : Value}
    (h : TakenOver f u k owner) :
    ∃ r, handoffOf f = some r ∧ owner = .str r.toActor ∧ ∃ id ∈ r.items, k = .str id := by
  obtain ⟨⟨env, commit, narrative, hrev⟩, -⟩ := hacc
  obtain ⟨c, vs, hc, hrec, -⟩ := review_spec hrev
  obtain ⟨⟨old, hold, howner, hstate⟩, x, hx, hxk, rfl⟩ := h
  have hitems : recoveryItems c f.actor = ((handoffOf f).map fun r => r.items).getD [] :=
    recoveryItems_eq ((continuityOf_spec hc).1.trans hmem.active)
  rw [hmem.checklist, hitems] at hrec
  obtain ⟨k', hk', ⟨old', hold', hmove⟩ | ⟨hnew, -⟩⟩ := reconcile_origin hrec x hx
  · obtain rfl : k = k' := Option.some.inj (hxk.symm.trans hk')
    obtain rfl : old = old' := Option.some.inj (hold.symm.trans hold')
    obtain ⟨hgranted, hactor⟩ := move_taken hmove howner hstate
    cases hforce : handoffOf f with
    | none => simp [hforce] at hgranted
    | some r =>
      simp only [hforce, Option.map_some, Option.getD_some, List.any_eq_true, decide_eq_true_eq] at hgranted
      exact ⟨r, rfl, by rw [hactor, (handoffOf_eq_some.1 hforce).2], hgranted⟩
  · obtain rfl : k = k' := Option.some.inj (hxk.symm.trans hk')
    rw [hold] at hnew
    cases hnew

/-! ## The end of a handoff -/

theorem finish_active (s : RunState) (actor : String) :
    activeOf (finishSecondWind s actor) = (activeOf s).filter (fun r => r.toActor ≠ actor) ∧
      usedOf (finishSecondWind s actor) = usedOf s := by
  unfold finishSecondWind
  cases hc : s.continuity with
  | none => simp [activeOf, usedOf, hc]
  | some c =>
    simp only
    cases hr : c.active with
    | none => simp [activeOf, hc, hr]
    | some r =>
      simp only
      split_ifs with hactor hall
      · simp [activeOf, hc, hr, Option.filter, hactor]
      all_goals
        have hsame : r.toActor = actor := not_not.1 hactor
        simp [activeOf, usedOf, hc, hr, Option.filter, hsame]

/-- an accepted turn ends the handoff in force, and no other -/
theorem advance_active {f : RunState} (hmem : Over f s) (hacc : Accepts P cfg s f.actor u v) :
    activeOf (advance P cfg v f.actor) = (activeOf f).filter (fun r => r.toActor ≠ f.actor) ∧
      usedOf (advance P cfg v f.actor) = usedOf f := by
  obtain ⟨⟨env, commit, narrative, hrev⟩, hmail⟩ := hacc
  have hu := hmem.toSteady.trans (steady_review hrev)
  have hv : activeOf v = activeOf f ∧ usedOf v = usedOf f := by
    rcases hmail with rfl | rfl
    · exact ⟨hu.active, hu.used⟩
    · exact ⟨hu.active, hu.used⟩
  obtain ⟨hactive, hused⟩ := finish_active
    { v with
      digestStreak := if digest P v.checklist = v.lastDigest then v.digestStreak + 1 else 0
      lastDigest := digest P v.checklist, turn := v.turn + 1, actor := nextActor v cfg f.actor } f.actor
  constructor
  · rw [← hv.1]
    exact hactive
  · rw [← hv.2]
    exact hused

end Handoff

/-! ## Handoffs over a run -/

/-- the handoffs of a run are numbered by its counter -/
def Numbered (s : RunState) : Prop := ∀ r, activeOf s = some r → ∃ n ≤ usedOf s, r.id = recoveryId n

/-- the handoff with this id is over for good -/
structure IsOver (id : String) (s : RunState) : Prop where
  made : ∃ n ≤ usedOf s, id = recoveryId n
  gone : ∀ r, activeOf s = some r → r.id ≠ id

/-- what may become of the handoff in a state: it stays or ends, or the next one takes its place -/
inductive Onward (s t : RunState) : Prop where
  | stays (used : usedOf t = usedOf s) (active : ∀ r, activeOf t = some r → activeOf s = some r)
  | next (r : Recovery) (used : usedOf t = usedOf s + 1) (active : activeOf t = some r)
      (number : r.id = recoveryId (usedOf s + 1))

/-- the save of a turn whose update is refused -/
def Ev.refused : Ev → Bool
  | .save .sendBlocked _ => true
  | _ => false

/-- no update of a turn under a handoff is refused -/
def Spared : RunState → List Ev → Prop
  | _, [] => True
  | s, e :: l => (e.refused = true → handoffOf s = none) ∧ Spared (e.saved.getD s) l

instance decidableSpared : (s : RunState) → (l : List Ev) → Decidable (Spared s l)
  | _, [] => isTrue trivial
  | s, e :: l => @instDecidableAnd _ _ inferInstance (decidableSpared (e.saved.getD s) l)

section Run

variable {P : Runtime} {cfg : Cfg} {f s t : RunState} {last : Option String} {e : Ev} {id : String} {l : List Ev}

theorem Steady.onward (h : Steady s t) : Onward s t := .stays h.used fun r hr => by rwa [h.active] at hr

theorem startSecondWind_onward {kind fromActor detail : String} {ids : List Value}
    (h : startSecondWind s cfg kind fromActor detail ids = .ok (true, t)) : Onward s t := by
  obtain ⟨c, hc, h⟩ := bind_ok h
  obtain ⟨-, hused⟩ := continuityOf_spec hc
  split_ifs at h
  · cases h
  obtain ⟨items, -, h⟩ := bind_ok h
  cases h
  exact .next _ (by rw [← hused]; rfl) rfl (by rw [← hused]; rfl)

theorem Steady.before {u : RunState} (h : Steady s t) (h' : Onward t u) : Onward s u := by
  cases h' with
  | stays used active => exact .stays (used.trans h.used) fun r hr => by rw [← h.active]; exact active r hr
  | next r used active number =>
    rw [h.used] at used number
    exact .next r used active number

/-- whatever is written, the handoff stays or ends, or the next one takes its place -/
theorem writes_onward (h : Writes P cfg f last e) : Onward f (e.saved.getD f) := by
  cases h with
  | steady _ same => exact same.onward
  | handoff memory made => exact memory.before (startSecondWind_onward made)
  | note memory _ => exact .stays memory.used fun r hr => by rw [← memory.active]; exact hr
  | delivered memory => exact .stays memory.used fun r hr => by rw [← memory.active]; exact hr
  | turn memory accepted =>
    obtain ⟨hactive, hused⟩ := advance_active memory accepted
    refine .stays hused fun r hr => ?_
    change activeOf (advance P cfg _ f.actor) = some r at hr
    rw [hactive] at hr
    exact (Option.filter_eq_some_iff.1 hr).1
  | sendBlocked memory accepted =>
    obtain ⟨⟨env, commit, narrative, hrev⟩, -⟩ := accepted
    exact ((memory.toSteady.trans (steady_review hrev)).halted _).onward
  | _ => exact (Steady.refl f).onward

theorem Numbered.onward (h : Numbered s) (ht : Onward s t) : Numbered t := by
  cases ht with
  | stays used active =>
    intro r hr
    rw [used]
    exact h r (active r hr)
  | next r used active number =>
    intro r' hr'
    obtain rfl : r = r' := Option.some.inj (active.symm.trans hr')
    exact ⟨usedOf s + 1, used.ge, number⟩

theorem IsOver.onward (h : IsOver id s) (ht : Onward s t) : IsOver id t := by
  obtain ⟨⟨n, hn, hid⟩, hgone⟩ := h
  cases ht with
  | stays used active => exact ⟨⟨n, used ▸ hn, hid⟩, fun r hr => hgone r (active r hr)⟩
  | next r used active number =>
    refine ⟨⟨n, by omega, hid⟩, fun r' hr' heq => ?_⟩
    obtain rfl : r = r' := Option.some.inj (active.symm.trans hr')
    -- the next handoff has the next number
    have hsame : usedOf s + 1 = n := recoveryId_inj (number.symm.trans (heq.trans hid))
    omega

/-- what every write keeps, every file of the journal has -/
theorem journal_keeps {q : RunState → Prop} (hq : ∀ s t, q s → Onward s t → q t) {p : Page}
    (h : (journal P cfg).Accepts p l) (h0 : q p.file) : q (Exec.persist Ev.saved p.file l) := by
  induction h with
  | nil => exact h0
  | cons fine _ ih => exact ih (hq _ _ h0 (writes_onward fine))

theorem Spared.at_event {before rest : List Ev} (h : Spared s (before ++ e :: rest)) (hrefused : e.refused = true) :
    handoffOf (Exec.persist Ev.saved s before) = none := by
  induction before generalizing s with
  | nil => exact h.1 hrefused
  | cons x before ih => exact ih h.2

/-- a turn accepted under a handoff, with its update, ends it for good -/
theorem turn_ends {m : Mark} {r : Recovery} (hm : m.ofTurn = true) (h : Writes P cfg f last (.save m t))
    (hspared : (Ev.save m t).refused = true → handoffOf f = none)
    (hn : Numbered f) (hr : handoffOf f = some r) : IsOver r.id t := by
  obtain ⟨hactive, hactor⟩ := handoffOf_eq_some.1 hr
  obtain ⟨n, hle, hid⟩ := hn r hactive
  cases h with
  | turn memory accepted =>
    obtain ⟨hafter, hused⟩ := advance_active memory accepted
    refine ⟨⟨n, hused ▸ hle, hid⟩, fun r' hr' => ?_⟩
    rw [hafter, hactive] at hr'
    simp [Option.filter, hactor] at hr'
  | sendBlocked =>
    have hnone := hspared rfl
    rw [hr] at hnone
    cases hnone
  | steady other _ => rw [hm] at other; cases other
  | _ => cases hm

/-- the checklist an accepted turn saves is the one `reconcile` returned -/
theorem turn_taken {m : Mark} {k : Key} {owner : Value} (hm : m.ofTurn = true) (h : Writes P cfg f last (.save m t))
    (htaken : TakenOver f t k owner) :
    ∃ r, handoffOf f = some r ∧ owner = .str r.toActor ∧ ∃ id ∈ r.items, k = .str id := by
  cases h with
  | turn memory accepted =>
    refine taken_by_handoff memory accepted ⟨htaken.before, ?_⟩
    have hlist := (advance_spec P cfg _ f.actor).1 ▸ htaken.after
    rcases accepted.mailed with rfl | rfl
    · exact hlist
    · exact hlist
  | sendBlocked memory accepted => exact taken_by_handoff memory accepted ⟨htaken.before, htaken.after⟩
  | steady other _ => rw [hm] at other; cases other
  | _ => cases hm

end Run

/-- **One turn of custody.** In every run of commands, each cut short anywhere, in which no update of a turn under a
handoff is refused: an accepted turn gives a blocked item, or one in work under an owner, only to the actor of the
handoff in force, if that names the item; and whatever follows it, that handoff is not in force again. -/
theorem custody_once {P : Runtime} {cfg : Cfg} {s : RunState} {jobs : List Job} (hnew : activeOf s = none)
    (hspared : Spared s (session P cfg s jobs)) {before rest : List Ev} {m : Mark} {t : RunState}
    (hlog : session P cfg s jobs = before ++ .save m t :: rest) (hturn : m.ofTurn = true) :
    (∀ k owner, TakenOver (Exec.persist Ev.saved s before) t k owner →
      ∃ r, handoffOf (Exec.persist Ev.saved s before) = some r ∧ owner = .str r.toActor ∧
        ∃ id ∈ r.items, k = .str id) ∧
      ∀ r, handoffOf (Exec.persist Ev.saved s before) = some r → ∀ n r',
        activeOf (Exec.persist Ev.saved t (rest.take n)) = some r' → r'.id ≠ r.id := by
  have hacc := session_journal P cfg s jobs
  rw [hlog] at hacc hspared
  have hwrites : Writes P cfg (Exec.persist Ev.saved s before) ((journal P cfg).after ⟨s, none⟩ before).mailed
      (.save m t) := journal_after P cfg ⟨s, none⟩ before ▸ hacc.fine_at
  rw [Monitor.accepts_append, Monitor.accepts_cons] at hacc
  obtain ⟨hbefore, -, hrest⟩ := hacc
  have hnumbered : Numbered (Exec.persist Ev.saved s before) :=
    journal_keeps (fun _ _ => Numbered.onward) hbefore fun r hr => by rw [hnew] at hr; cases hr
  refine ⟨fun k owner => turn_taken hturn hwrites, fun r hr n => ?_⟩
  have hover := turn_ends hturn hwrites hspared.at_event hnumbered hr
  exact (journal_keeps (fun _ _ => IsOver.onward) (hrest.take n) hover).gone

/-! ## Two recoveries -/

/-- two agents, with mail and Second Wind -/
def recovering : Cfg := { twoAgents with secondWind := true, mailEnabled := true }

/-- a turn that puts these items in work -/
def claimingTurn (ids : List String) (owner : String) (mail : MailOutcome) : TurnInput :=
  ⟨.replied (some (envelopeOf (ids.map fun id => (.str id, "claimed", .str owner)))), none, none, mail⟩

/-- claude puts two items in work and fails; agy takes over the first, with this outcome of its update -/
def recoveredJob (mail : MailOutcome) : Job where
  op := .commission none none
  cut := none
  work :=
    { workOf [claimingTurn ["c1", "c2"] "claude" (.sent "m0"), claimingTurn [] "agy" (.sent "m1"), failedTurn,
        claimingTurn ["c1"] "agy" mail] with mail := .sent "m2" }

/-- a recovery that goes through -/
theorem custody_once_sample : ∃ before t rest r,
    session plainText recovering newRun [recoveredJob (.sent "m3")] = before ++ .save .turn t :: rest ∧
      handoffOf (Exec.persist Ev.saved newRun before) = some r ∧
      TakenOver (Exec.persist Ev.saved newRun before) t (.str "c1") (.str "agy") ∧
      ∀ n r', activeOf (Exec.persist Ev.saved t (rest.take n)) = some r' → r'.id ≠ r.id := by
  have hspared : Spared newRun (session plainText recovering newRun [recoveredJob (.sent "m3")]) := by decide
  have honce := @custody_once plainText recovering newRun [recoveredJob (.sent "m3")] rfl hspared
    [_, _, _, _, _, _, _, _, _, _] [] .turn _ rfl rfl
  exact ⟨[_, _, _, _, _, _, _, _, _, _], _, [], _, rfl, rfl, ⟨⟨_, rfl, by decide, .inr ⟨rfl, by decide⟩⟩, _,
    List.mem_cons_self, rfl, rfl⟩, honce.2 _ rfl⟩

/-- **Custody taken twice.** The update of the recovery turn is refused, a retry lets the same agent go on, and the same
handoff takes over the second item. -/
theorem custody_twice : ∃ before t between u rest r,
    session plainText recovering newRun
        [recoveredJob (.refused "full"), ⟨.retry, workOf [claimingTurn ["c2"] "agy" (.sent "m3")], none⟩] =
      before ++ .save .sendBlocked t :: (between ++ .save .turn u :: rest) ∧
    handoffOf (Exec.persist Ev.saved newRun before) = some r ∧
    TakenOver (Exec.persist Ev.saved newRun before) t (.str "c1") (.str "agy") ∧
    handoffOf (Exec.persist Ev.saved t between) = some r ∧
    TakenOver (Exec.persist Ev.saved t between) u (.str "c2") (.str "agy") := by
  refine ⟨[_, _, _, _, _, _, _, _, _], _, [_, _, _, _, _, _, _, _], _, [], _, rfl, rfl, ?_, rfl, ?_⟩
  · exact ⟨⟨_, rfl, by decide, .inr ⟨rfl, by decide⟩⟩, _, List.mem_cons_self, rfl, rfl⟩
  · exact ⟨⟨_, rfl, by decide, .inr ⟨rfl, by decide⟩⟩, _, List.mem_cons_self, rfl, rfl⟩

end Rally.Runner
