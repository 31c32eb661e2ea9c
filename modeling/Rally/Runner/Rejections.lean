/-
The bound on rejections (`_norm` and `reconcile` of `src/envelope.py`, `apply_human_note` of `src/runner.py`) over whole
runs: whether the `rejections` of an item counts the turns that sent it back.

`reconcile` counts in one branch and copies the counter in all others. A new item takes its counter from the reply, and
where a reply lists an id twice, the later entry's item is the one that the next turn works on.

- `reconcile_entry`: the entry of the proposal that an accepted item is made of.
- `rejections_counted`: in every run in which new items start without rejections and no id that counts is listed twice,
  the counter is the number of rejections, each one beyond the bound disputes the item, and no item is sent back more
  often than the bound allows.
- `rejections_forged`: a scoping turn that starts an item with a negative counter, and an item sent back beyond the
  bound.
-/
import Rally.Runner.Ids

namespace Rally.Envelope

open Py

/-! ## Entries of a proposal -/

/-- the entries of a proposal -/
def entriesOf (proposed : Value) : List Value :=
  match proposed.iter with
  | .ok raws => raws
  | .error _ => []

/-- the entry claims its item -/
def claims (raw : Value) : Bool :=
  match raw.get "state" with
  | .ok v => v = .str "claimed"
  | .error _ => false

/-- the reply of `actor` rejects the item kept under this key: it awaits verification, belongs to somebody else, and an
entry of the reply claims it -/
def rejects (prev : List Item) (proposed : Value) (actor : String) (k : Key) : Bool :=
  (kept prev k).any (fun old => old.state = .awaitingVerification ∧ old.owner ≠ .str actor) &&
    (entriesOf proposed).any fun raw => rawKey raw = some k ∧ claims raw

/-- an entry that starts a new item starts it without rejections. Once the scope is closed none does. -/
def startsAtZero (prev : List Item) (proposed : Value) (allowNew : Bool) : Bool :=
  (entriesOf proposed).all fun raw =>
    match rawKey raw, norm raw with
    | some k, .ok it => !allowNew || (kept prev k).isSome || decide (it.rejections = 0)
    | _, _ => true

section Entries

variable {prev out : List Item} {proposed : Value} {actor : String} {rm : ℤ} {allowNew : Bool} {items : List String}
  {vs : List Violation}

/-- what the loop adds to its list is made of the entries it went through -/
theorem reconcileLoop_entry {C : Ctx} {a a' : Acc} {raws : List Value} (h : reconcileLoop C a raws = .ok a') :
    ∀ x ∈ a'.out, x ∈ a.out ∨ ∃ raw ∈ raws, ∃ it k, norm raw = .ok it ∧ rawKey raw = some k ∧
      ((Dict.get? C.by_id k = none ∧ C.allowNew = true ∧ it.id.key? = some k ∧ x = (admission it).1) ∨
        ∃ o old rec, Dict.get? C.by_id k = some (o, old) ∧ x = (transition old it C.actor C.rejectionsMax rec).1) := by
  induction raws generalizing a with
  | nil =>
    cases h
    exact fun x hx => .inl hx
  | cons raw raws ih =>
    obtain ⟨b, hb, h⟩ := bind_ok h
    intro x hx
    rcases ih h x hx with hx | ⟨raw', hraw', hmade⟩
    · obtain ⟨it, hit, hcase⟩ := reconcileItem_cases hb
      have hkey := rawKey_norm hit
      rcases hcase with ⟨-, rfl⟩ | ⟨k, hk, hid, -, hout⟩
      · exact .inl hx
      · rw [if_neg hid, hk] at hkey
        rcases hout with ⟨hnone, hnew, hout⟩ | ⟨-, -, hout⟩ | ⟨o, old, rec, hsome, -, hout⟩
        · rw [hout] at hx
          rcases List.mem_append.1 hx with hx | hx
          · exact .inl hx
          · exact .inr ⟨raw, List.mem_cons_self, it, k, hit, hkey, .inl ⟨hnone, hnew, hk, List.mem_singleton.1 hx⟩⟩
        · rw [hout] at hx
          exact .inl hx
        · rw [hout] at hx
          rcases List.mem_append.1 hx with hx | hx
          · exact .inl hx
          · exact .inr ⟨raw, List.mem_cons_self, it, k, hit, hkey, .inr ⟨o, old, rec, hsome, List.mem_singleton.1 hx⟩⟩
    · exact .inr ⟨raw', List.mem_cons_of_mem _ hraw', hmade⟩

/-- **The entry behind an accepted item**: it is new and as its entry has it, or the kept item moved by its entry, or a
kept item that the proposal does not mention. -/
theorem reconcile_entry (h : reconcile prev proposed actor rm allowNew items = .ok (out, vs)) :
    ∀ x ∈ out, ∃ k, x.id.key? = some k ∧
      ((∃ raw ∈ entriesOf proposed, ∃ it, norm raw = .ok it ∧ rawKey raw = some k ∧
          ((kept prev k = none ∧ allowNew = true ∧ x = (admission it).1) ∨
            ∃ old rec, kept prev k = some old ∧ x = (transition old it actor rm rec).1)) ∨
        (k ∉ proposedKeys proposed ∧ kept prev k = some x)) := by
  obtain ⟨d, hd, h⟩ := bind_ok h
  obtain ⟨raws, hraws, h⟩ := bind_ok h
  obtain ⟨a, ha, h⟩ := bind_ok h
  cases h
  obtain ⟨hok, hkeys, -⟩ := byId_spec hd
  have hC : KeysOk d := by
    intro k o old hget
    obtain ⟨it, -, -, hk, rfl⟩ := hkeys k o old hget
    exact hk
  have hkept : ∀ k, kept prev k = (Dict.get? d k).map fun p => p.2 := by intro k; simp [kept, hd]
  have hentries : entriesOf proposed = raws := by simp [entriesOf, hraws]
  have hlist : proposedKeys proposed = raws.filterMap rawKey := by simp [proposedKeys, hraws]
  intro x hx
  rcases List.mem_append.1 hx with hx | hx
  · rcases reconcileLoop_entry ha x hx with hx | ⟨raw, hraw, it, k, hit, hkey, hmade⟩
    · cases hx
    · rcases hmade with ⟨hnone, hnew, hk, rfl⟩ | ⟨o, old, rec, hget, rfl⟩
      · refine ⟨k, by rw [(admission_state it).1, hk], .inl ⟨raw, hentries ▸ hraw, it, hit, hkey, .inl ⟨?_, hnew, rfl⟩⟩⟩
        simp [hkept, hnone]
      · have hold : kept prev k = some old := by simp [hkept, hget]
        refine ⟨k, ?_, .inl ⟨raw, hentries ▸ hraw, it, hit, hkey, .inr ⟨old, rec, hold, rfl⟩⟩⟩
        rw [(transition_move old it actor rm rec).id_eq]
        exact hC k o old hget
  · obtain ⟨⟨k, o, old⟩, hp, rfl⟩ := List.mem_map.1 hx
    have hget := (Dict.mem_iff hok).1 (List.mem_filter.1 hp).1
    have hunseen : k ∉ a.seen := by simpa using (List.mem_filter.1 hp).2
    refine ⟨k, hC k o old hget, .inr ⟨fun hin => hunseen ?_, by simp [hkept, hget]⟩⟩
    have hgrown := reconcileLoop_grown (C := ⟨d, actor, rm, allowNew, items⟩) hC ha
    exact (hgrown.seen k).2 (.inr (hlist ▸ hin))

/-- the state of a normalised entry -/
theorem claims_norm {raw : Value} {it : Proposed} (h : norm raw = .ok it) :
    claims raw = decide (ItemState.ofValue it.state = some .claimed) := by
  obtain ⟨_, -, h⟩ := bind_ok h
  obtain ⟨_, -, h⟩ := bind_ok h
  obtain ⟨v, hv, h⟩ := bind_ok h
  obtain ⟨_, -, h⟩ := bind_ok h
  obtain ⟨_, -, h⟩ := bind_ok h
  obtain ⟨_, -, h⟩ := bind_ok h
  obtain ⟨_, -, h⟩ := bind_ok h
  obtain ⟨_, -, h⟩ := bind_ok h
  cases h
  simp only [claims, hv, ItemState.ofValue_eq, ItemState.text]

/-- the kept item awaits verification, belongs to somebody else, and is claimed -/
def SentBack (old : Item) (it : Proposed) (actor : String) : Prop :=
  old.state = .awaitingVerification ∧ old.owner ≠ .str actor ∧ ItemState.ofValue it.state = some .claimed

/-- an item that is sent back is counted, and disputed beyond the bound -/
theorem transition_sentBack {old : Item} {it : Proposed} (h : SentBack old it actor) (rm : ℤ) (rec : Bool) :
    (transition old it actor rm rec).1.rejections = old.rejections + 1 ∧
      (transition old it actor rm rec).1.state = if old.rejections + 1 > rm then .disputed else .claimed := by
  obtain ⟨hwas, hother, hnow⟩ := h
  unfold transition
  simp only [hwas, hnow, Value.eq_str, hother, decide_false, Bool.false_eq_true, if_false, reduceCtorEq, or_self,
    false_and, and_false, Option.some.injEq, and_self, if_true]
  split_ifs <;> exact ⟨rfl, rfl⟩

/-- any other keeps its counter, and does not go from waiting to work -/
theorem transition_other {old : Item} {it : Proposed} (h : ¬ SentBack old it actor) (rm : ℤ) (rec : Bool) :
    (transition old it actor rm rec).1.rejections = old.rejections ∧
      (old.state = .awaitingVerification → (transition old it actor rm rec).1.state ≠ .claimed) := by
  unfold transition
  simp only [Value.eq_str, Value.same_str, Value.same_none, decide_eq_true_eq]
  split_ifs with hrec hkeep hdone hawait hown hrej hown' hmax hclaim hsub hown' hflag
  · obtain ⟨-, hwas, -⟩ := hrec
    exact ⟨rfl, fun hw => by rcases hwas with h | h <;> rw [h] at hw <;> cases hw⟩
  · exact ⟨rfl, fun hw hc => by rw [hw] at hc; cases hc⟩
  · exact ⟨rfl, fun hw => absurd hw hawait⟩
  · exact ⟨rfl, fun hw hc => by rw [hw] at hc; cases hc⟩
  · exact ⟨rfl, fun _ hc => by cases hc⟩
  · exact ⟨rfl, fun hw hc => by rw [hw] at hc; cases hc⟩
  · exact absurd ⟨hrej.2, hown', hrej.1⟩ h
  · exact absurd ⟨hrej.2, hown', hrej.1⟩ h
  · exact ⟨rfl, fun hw => by rw [hclaim.2] at hw; cases hw⟩
  · exact ⟨rfl, fun _ hc => by cases hc⟩
  · exact ⟨rfl, fun hw hc => by rw [hw] at hc; cases hc⟩
  · refine ⟨rfl, fun _ hc => ?_⟩
    rcases hflag with h | h <;> rw [h] at hc <;> cases hc
  · exact ⟨rfl, fun hw hc => by rw [hw] at hc; cases hc⟩

/-- two entries with one id that counts are one entry -/
theorem entry_unique {raws : List Value} {p : Key → Bool} (h : ((raws.filterMap rawKey).filter p).Nodup) {x y : Value}
    {k : Key} (hx : x ∈ raws) (hy : y ∈ raws) (hxk : rawKey x = some k) (hyk : rawKey y = some k) (hk : p k = true) :
    x = y := by
  have listed : ∀ {z : Value} {l : List Value}, z ∈ l → rawKey z = some k → k ∈ (l.filterMap rawKey).filter p :=
    fun hz hzk => List.mem_filter.2 ⟨List.mem_filterMap.2 ⟨_, hz, hzk⟩, hk⟩
  induction raws with
  | nil => cases hx
  | cons raw raws ih =>
    have hrest : ((raws.filterMap rawKey).filter p).Nodup := by
      cases hraw : rawKey raw with
      | none => rwa [List.filterMap_cons_none hraw] at h
      | some l =>
        rw [List.filterMap_cons_some hraw] at h
        exact h.sublist ((List.sublist_cons_self _ _).filter p)
    have hlast : ∀ {z : Value}, z ∈ raws → rawKey z = some k → rawKey raw ≠ some k := by
      intro z hz hzk hraw
      rw [List.filterMap_cons_some hraw, List.filter_cons_of_pos hk] at h
      exact (List.nodup_cons.1 h).1 (listed hz hzk)
    rcases List.mem_cons.1 hx with hxr | hxr <;> rcases List.mem_cons.1 hy with hyr | hyr
    · rw [hxr, hyr]
    · exact absurd (hxr ▸ hxk) (hlast hyr hyk)
    · exact absurd (hyr ▸ hyk) (hlast hxr hxk)
    · exact ih hrest hxr hyr

theorem proposedKeys_eq (proposed : Value) : proposedKeys proposed = (entriesOf proposed).filterMap rawKey := by
  unfold proposedKeys entriesOf
  cases proposed.iter <;> rfl

/-- whether the reply rejects a kept item, from the one entry it has for it -/
theorem rejects_entry (honce : ((proposedKeys proposed).filter fun k => allowNew || (kept prev k).isSome).Nodup)
    {raw : Value} {it : Proposed} {k : Key} {old : Item} (hraw : raw ∈ entriesOf proposed) (hit : norm raw = .ok it)
    (hkey : rawKey raw = some k) (hold : kept prev k = some old) :
    rejects prev proposed actor k = true ↔ SentBack old it actor := by
  rw [proposedKeys_eq] at honce
  have hall : (entriesOf proposed).any (fun raw => rawKey raw = some k ∧ claims raw) = claims raw := by
    rw [Bool.eq_iff_iff, List.any_eq_true]
    constructor
    · rintro ⟨raw', hraw', hboth⟩
      obtain ⟨hkey', hclaims⟩ := of_decide_eq_true hboth
      rwa [entry_unique honce hraw hraw' hkey hkey' (by simp [hold])]
    · exact fun hclaims => ⟨raw, hraw, by simp [hkey, hclaims]⟩
  simp only [rejects, hall, hold, Option.any_some, Bool.and_eq_true, decide_eq_true_eq, claims_norm hit, SentBack,
    and_assoc]

theorem admission_rejections (it : Proposed) : (admission it).1.rejections = it.rejections := by
  unfold admission
  split <;> rfl

/-- a rejected item is kept, and the proposal lists it -/
theorem rejects_spec {k : Key} (h : rejects prev proposed actor k = true) :
    (∃ old, kept prev k = some old) ∧ k ∈ proposedKeys proposed := by
  simp only [rejects, Bool.and_eq_true] at h
  obtain ⟨hold, hlist⟩ := h
  obtain ⟨raw, hraw, hboth⟩ := List.any_eq_true.1 hlist
  constructor
  · cases hk : kept prev k with
    | none => rw [hk] at hold; cases hold
    | some old => exact ⟨old, rfl⟩
  · rw [proposedKeys_eq]
    exact List.mem_filterMap.2 ⟨raw, hraw, (of_decide_eq_true hboth).1⟩

/-- a new item of such a proposal has no rejections -/
theorem startsAtZero_spec (h : startsAtZero prev proposed true = true) {raw : Value} {it : Proposed} {k : Key}
    (hraw : raw ∈ entriesOf proposed) (hit : norm raw = .ok it) (hkey : rawKey raw = some k)
    (hnone : kept prev k = none) : it.rejections = 0 := by
  have hentry := List.all_eq_true.1 h raw hraw
  simpa [hkey, hit, hnone] using hentry

end Entries

end Rally.Envelope

namespace Rally.Runner

open Py Rally.Envelope

/-! ## The counter over a run -/

/-- the step is an accepted turn that rejects the item under this key -/
def rejectsAt (k : Key) (e : Entry RunState Act) : Bool :=
  match e.act with
  | .turn actor env => rejects e.before.checklist (proposedOf env) actor k
  | _ => false

/-- how many accepted turns rejected the item -/
def rejectionsOf (tr : List (Entry RunState Act)) (k : Key) : ℕ := tr.countP (rejectsAt k)

/-- the step is an accepted turn that finds the item awaiting verification and leaves it in work -/
def returnsAt (k : Key) (e : Entry RunState Act) : Bool :=
  match e.act with
  | .turn _ _ =>
    (kept e.before.checklist k).any (fun old => old.state = .awaitingVerification) &&
      e.after.checklist.any fun x => x.id.key? = some k ∧ x.state = .claimed
  | _ => false

/-- an accepted turn lists each id that counts once, and starts new items without rejections -/
def FairAt (e : Entry RunState Act) : Prop :=
  ∀ actor env, e.act = .turn actor env →
    ListedOnce e.before.checklist (proposedOf env) (e.before.turn ≤ 1) ∧
      startsAtZero e.before.checklist (proposedOf env) (e.before.turn ≤ 1) = true

instance (e : Entry RunState Act) : Decidable (FairAt e) :=
  match h : e.act with
  | .turn actor env =>
    decidable_of_iff (ListedOnce e.before.checklist (proposedOf env) (e.before.turn ≤ 1) ∧
        startsAtZero e.before.checklist (proposedOf env) (e.before.turn ≤ 1) = true) <| by
      constructor
      · rintro hboth _ _ hact
        rw [h] at hact
        cases hact
        exact hboth
      · exact fun hfair => hfair actor env h
  | .handoff => isTrue fun _ _ hact => by rw [h] at hact; cases hact
  | .note _ => isTrue fun _ _ hact => by rw [h] at hact; cases hact
  | .rest => isTrue fun _ _ hact => by rw [h] at hact; cases hact

/-- the counters of a checklist are those of the turns so far, and a rejected item is still there -/
structure Tallied (tr : List (Entry RunState Act)) (items : List Item) : Prop where
  counted : ∀ x ∈ items, ∀ k, x.id.key? = some k → x.rejections = rejectionsOf tr k
  present : ∀ k, 0 < rejectionsOf tr k → ∃ x ∈ items, x.id.truthy = true ∧ x.id.key? = some k

section Tally

variable {P : Runtime} {cfg : Cfg} {tr : List (Entry RunState Act)} {s t : RunState} {a : Act} {actor : String}
  {env : Env}

theorem rejectionsOf_snoc (tr : List (Entry RunState Act)) (e : Entry RunState Act) (k : Key) :
    rejectionsOf (tr ++ [e]) k = rejectionsOf tr k + if rejectsAt k e then 1 else 0 := by
  simp [rejectionsOf, List.countP_append, List.countP_singleton]

theorem reopenItem_fields (it : Item) : (reopenItem it).id = it.id ∧ (reopenItem it).rejections = it.rejections := by
  unfold reopenItem
  split_ifs <;> exact ⟨rfl, rfl⟩

/-- the counter of a kept item -/
theorem Tallied.kept (h : Tallied tr s.checklist) {k : Key} {old : Item} (hold : kept s.checklist k = some old) :
    old.rejections = rejectionsOf tr k := by
  obtain ⟨y, hy, -, hk, rfl⟩ := kept_mem hold
  exact h.counted y hy k hk

/-- what is not kept was not rejected -/
theorem Tallied.unkept (h : Tallied tr s.checklist) {d : List (Key × (Value × Item))} (hd : byId s.checklist = .ok d)
    {k : Key} (hnone : Envelope.kept s.checklist k = none) : rejectionsOf tr k = 0 := by
  by_contra hpos
  obtain ⟨x, hx, htrue, hk⟩ := h.present k (Nat.pos_of_ne_zero hpos)
  have hsome := ((byId_spec hd).2.2 k).2 ⟨x, hx, htrue, hk⟩
  obtain ⟨p, hp⟩ := Option.isSome_iff_exists.1 hsome
  simp [Envelope.kept, hd, hp] at hnone

/-- one accepted turn -/
theorem turn_tallied (h : Tallied tr s.checklist) (hfair : FairAt ⟨s, .turn actor env, t⟩) {commit : Option String}
    {narrative : Value} (hrev : review P cfg s actor env commit = .ok (t, narrative)) :
    Tallied (tr ++ [⟨s, .turn actor env, t⟩]) t.checklist ∧
      ∀ k, rejectsAt k ⟨s, .turn actor env, t⟩ = true → ∃ x ∈ t.checklist, x.id.key? = some k ∧
        x.state = if (rejectionsOf tr k : ℤ) + 1 > cfg.rejectionsMax then .disputed else .claimed := by
  obtain ⟨c, vs, -, hrec, -⟩ := review_spec hrev
  obtain ⟨honce, hzero⟩ := hfair actor env rfl
  have hentry := reconcile_entry hrec
  obtain ⟨d, hd, -⟩ := bind_ok hrec
  -- what a rejection makes of the item, and what anything else does
  have hmade : ∀ x ∈ t.checklist, ∀ k, x.id.key? = some k →
      x.rejections = rejectionsOf tr k + (if rejects s.checklist (proposedOf env) actor k then 1 else 0 : ℕ) ∧
        (rejects s.checklist (proposedOf env) actor k = true →
          x.state = if (rejectionsOf tr k : ℤ) + 1 > cfg.rejectionsMax then .disputed else .claimed) := by
    intro x hx k hk
    obtain ⟨k', hk', hcase⟩ := hentry x hx
    obtain rfl : k' = k := Option.some.inj (hk'.symm.trans hk)
    rcases hcase with ⟨raw, hraw, it, hit, hkey, ⟨hnone, hnew, rfl⟩ | ⟨old, rec, hold, rfl⟩⟩ | ⟨hunlisted, hold⟩
    · have hno : rejects s.checklist (proposedOf env) actor k' = false := by simp [rejects, hnone]
      rw [hnew] at hzero
      rw [hno, h.unkept hd hnone, admission_rejections, startsAtZero_spec hzero hraw hit hkey hnone]
      simp
    · have hiff := @rejects_entry _ _ actor _ honce raw it k' old hraw hit hkey hold
      by_cases hback : SentBack old it actor
      · obtain ⟨hcount, hstate⟩ := transition_sentBack hback cfg.rejectionsMax rec
        rw [hcount, hstate, hiff.2 hback, h.kept hold]
        simp
      · have hno : rejects s.checklist (proposedOf env) actor k' = false := by
          rw [Bool.eq_false_iff]
          exact fun hr => hback (hiff.1 hr)
        rw [(transition_other hback cfg.rejectionsMax rec).1, hno, h.kept hold]
        simp
    · have hno : rejects s.checklist (proposedOf env) actor k' = false := by
        rw [Bool.eq_false_iff]
        exact fun hr => hunlisted (rejects_spec hr).2
      rw [hno, h.kept hold]
      simp
  have hstays : ∀ k, (∃ x ∈ s.checklist, x.id.truthy = true ∧ x.id.key? = some k) →
      ∃ x ∈ t.checklist, x.id.truthy = true ∧ x.id.key? = some k := by
    rintro k ⟨x, hx, htrue, hk⟩
    obtain ⟨y, hy, hyk⟩ := (reconcile_keys hrec k).2 (.inl ⟨x, hx, htrue, hk⟩)
    exact ⟨y, hy, by rw [Value.truthy_of_key hyk hk, htrue], hyk⟩
  have hrejected : ∀ k, rejects s.checklist (proposedOf env) actor k = true →
      ∃ x ∈ t.checklist, x.id.truthy = true ∧ x.id.key? = some k := by
    intro k hr
    obtain ⟨⟨old, hold⟩, -⟩ := rejects_spec hr
    obtain ⟨y, hy, htrue, hyk, -⟩ := kept_mem hold
    exact hstays k ⟨y, hy, htrue, hyk⟩
  refine ⟨⟨fun x hx k hk => ?_, fun k hpos => ?_⟩, fun k hr => ?_⟩
  · rw [rejectionsOf_snoc, (hmade x hx k hk).1]
    push_cast
    rfl
  · rw [rejectionsOf_snoc] at hpos
    by_cases hr : rejects s.checklist (proposedOf env) actor k = true
    · exact hrejected k hr
    · have hfront : 0 < rejectionsOf tr k := by
        have hno : rejectsAt k ⟨s, .turn actor env, t⟩ = false := Bool.eq_false_iff.2 hr
        simpa [hno] using hpos
      exact hstays k (h.present k hfront)
  · obtain ⟨x, hx, -, hk⟩ := hrejected k hr
    exact ⟨x, hx, hk, (hmade x hx k hk).2 hr⟩

/-- an item that goes from waiting back to work was rejected, within the bound -/
theorem turn_returned (h : Tallied tr s.checklist) (hfair : FairAt ⟨s, .turn actor env, t⟩) {commit : Option String}
    {narrative : Value} (hrev : review P cfg s actor env commit = .ok (t, narrative)) {k : Key}
    (hback : returnsAt k ⟨s, .turn actor env, t⟩ = true) :
    rejectsAt k ⟨s, .turn actor env, t⟩ = true ∧ (rejectionsOf tr k : ℤ) + 1 ≤ cfg.rejectionsMax := by
  obtain ⟨c, vs, -, hrec, -⟩ := review_spec hrev
  obtain ⟨honce, -⟩ := hfair actor env rfl
  simp only [returnsAt, Bool.and_eq_true] at hback
  obtain ⟨hwait, hclaimed⟩ := hback
  obtain ⟨x, hx, hboth⟩ := List.any_eq_true.1 hclaimed
  obtain ⟨hk, hstate⟩ := of_decide_eq_true hboth
  cases hold : kept s.checklist k with
  | none => rw [hold] at hwait; cases hwait
  | some old =>
    rw [hold, Option.any_some, decide_eq_true_eq] at hwait
    obtain ⟨k', hk', hcase⟩ := reconcile_entry hrec x hx
    obtain rfl : k' = k := Option.some.inj (hk'.symm.trans hk)
    rcases hcase with ⟨raw, hraw, it, hit, hkey, ⟨hnone, -, -⟩ | ⟨old', rec, hold', rfl⟩⟩ | ⟨-, hold'⟩
    · rw [hold] at hnone
      cases hnone
    · obtain rfl : old = old' := Option.some.inj (hold.symm.trans hold')
      have hsent : SentBack old it actor := by
        by_contra hno
        exact (transition_other hno cfg.rejectionsMax rec).2 hwait hstate
      refine ⟨(rejects_entry honce hraw hit hkey hold).2 hsent, ?_⟩
      rw [(transition_sentBack hsent cfg.rejectionsMax rec).2, h.kept hold] at hstate
      by_contra hover
      rw [if_pos (not_le.1 hover)] at hstate
      cases hstate
    · obtain rfl : old = x := Option.some.inj (hold.symm.trans hold')
      rw [hwait] at hstate
      cases hstate

/-- **One step of the tally.** -/
theorem step_tallied (h : Tallied tr s.checklist) (hstep : Step P cfg s a t) (hfair : FairAt ⟨s, a, t⟩) :
    Tallied (tr ++ [⟨s, a, t⟩]) t.checklist := by
  have hquiet : ∀ {a}, (∀ k, rejectsAt k ⟨s, a, t⟩ = false) → ∀ k, rejectionsOf (tr ++ [⟨s, a, t⟩]) k = rejectionsOf tr k := by
    intro a hno k
    rw [rejectionsOf_snoc, hno k]
    rfl
  have hsame : ∀ {a}, (∀ k, rejectsAt k ⟨s, a, t⟩ = false) → t.checklist = s.checklist →
      Tallied (tr ++ [⟨s, a, t⟩]) t.checklist := by
    intro a hno hlist
    rw [hlist]
    exact ⟨fun x hx k hk => by rw [hquiet hno, h.counted x hx k hk],
      fun k hpos => h.present k (by rwa [hquiet hno] at hpos)⟩
  cases hstep with
  | turn _ hrev => exact (turn_tallied h hfair hrev).1
  | handoff hmade => exact hsame (fun _ => rfl) (startSecondWind_spec hmade).1
  | rest hlist _ => exact hsame (fun _ => rfl) hlist
  | note happ =>
    obtain ⟨-, -, -, hlist | hlist | ⟨-, item, hitem, hlist⟩⟩ := applyHumanNote_spec happ
    · exact hsame (fun _ => rfl) hlist
    · -- reopened items keep their counters
      rw [hlist]
      refine ⟨fun x hx k hk => ?_, fun k hpos => ?_⟩
      · obtain ⟨y, hy, rfl⟩ := List.mem_map.1 hx
        obtain ⟨hid, hcount⟩ := reopenItem_fields y
        rw [hquiet fun _ => rfl, hcount]
        exact h.counted y hy k (hid ▸ hk)
      · rw [hquiet fun _ => rfl] at hpos
        obtain ⟨y, hy, htrue, hk⟩ := h.present k hpos
        exact ⟨reopenItem y, List.mem_map_of_mem hy, by rw [(reopenItem_fields y).1, htrue],
          by rw [(reopenItem_fields y).1, hk]⟩
    · -- the revision item has an id of its own, which was never rejected
      rw [hlist]
      refine ⟨fun x hx k hk => ?_, fun k hpos => ?_⟩
      · rw [hquiet fun _ => rfl]
        rcases List.mem_append.1 hx with hx | hx
        · exact h.counted x hx k hk
        · rw [List.mem_singleton.1 hx] at hk ⊢
          have hzero : rejectionsOf tr k = 0 := by
            by_contra hpos
            obtain ⟨y, hy, -, hyk⟩ := h.present k (Nat.pos_of_ne_zero hpos)
            exact revision_fresh hitem y hy ⟨k, hyk, hk⟩
          rw [hzero]
          obtain ⟨numbers, -, hitem⟩ := bind_ok hitem
          cases hitem
          rfl
      · rw [hquiet fun _ => rfl] at hpos
        obtain ⟨y, hy, hyk⟩ := h.present k hpos
        exact ⟨y, List.mem_append_left _ hy, hyk⟩

end Tally

/-- what the counters of a run say -/
structure Counted (cfg : Cfg) (tr : List (Entry RunState Act)) (s : RunState) : Prop where
  counter : ∀ x ∈ s.checklist, ∀ k, x.id.key? = some k → x.rejections = rejectionsOf tr k
  /-- a rejection within the bound puts the item back to work, any other disputes it -/
  disputed : ∀ front e back k, tr = front ++ e :: back → rejectsAt k e = true → ∃ x ∈ e.after.checklist,
    x.id.key? = some k ∧ x.state = if (rejectionsOf front k : ℤ) + 1 > cfg.rejectionsMax then .disputed else .claimed
  rejected : ∀ e ∈ tr, ∀ k, returnsAt k e = true → rejectsAt k e = true
  bounded : ∀ k, (tr.countP (returnsAt k) : ℤ) ≤ max 0 cfg.rejectionsMax

theorem run_counted {P : Runtime} {cfg : Cfg} {s₀ s : RunState} {tr : List (Entry RunState Act)}
    (hrun : Run P cfg s₀ tr s) (h0 : s₀.checklist = []) (hfair : ∀ e ∈ tr, FairAt e) :
    Tallied tr s.checklist ∧ Counted cfg tr s ∧ ∀ k, tr.countP (returnsAt k) ≤ rejectionsOf tr k := by
  induction hrun with
  | nil =>
    have hnil : Tallied [] s₀.checklist := ⟨by simp [h0], fun k hpos => absurd hpos (lt_irrefl 0)⟩
    refine ⟨hnil, ⟨hnil.counted, fun front e back k h => ?_, fun _ he => (List.not_mem_nil he).elim, fun k => ?_⟩,
      fun k => le_rfl⟩
    · exact absurd h (by simp)
    · simp
  | @snoc tr s t a hfront hstep ih =>
    obtain ⟨htally, hcounted, hfewer⟩ := ih fun e he => hfair e (List.mem_append_left _ he)
    have hlast : FairAt ⟨s, a, t⟩ := hfair _ (List.mem_append_right _ List.mem_cons_self)
    have hnext := step_tallied htally hstep hlast
    -- what the last step does, where it is a turn
    have hturn : ∀ k, (rejectsAt k ⟨s, a, t⟩ = true → ∃ x ∈ t.checklist, x.id.key? = some k ∧
          x.state = if (rejectionsOf tr k : ℤ) + 1 > cfg.rejectionsMax then .disputed else .claimed) ∧
        (returnsAt k ⟨s, a, t⟩ = true →
          rejectsAt k ⟨s, a, t⟩ = true ∧ (rejectionsOf tr k : ℤ) + 1 ≤ cfg.rejectionsMax) := by
      intro k
      cases hstep with
      | turn _ hrev => exact ⟨(turn_tallied htally hlast hrev).2 k, turn_returned htally hlast hrev⟩
      | _ => exact ⟨fun h => (by cases h), fun h => (by cases h)⟩
    have hcount : ∀ k : Key, (tr ++ [(⟨s, a, t⟩ : Entry RunState Act)]).countP (returnsAt k) =
        tr.countP (returnsAt k) + if returnsAt k ⟨s, a, t⟩ then 1 else 0 := by
      intro k
      simp [List.countP_append, List.countP_singleton]
    refine ⟨hnext, ⟨hnext.counted, ?_, ?_, fun k => ?_⟩, fun k => ?_⟩
    · intro front e back k hsplit hr
      rcases List.eq_nil_or_concat' back with rfl | ⟨back, e', rfl⟩
      · obtain ⟨rfl, he⟩ := List.append_inj' hsplit rfl
        rw [← List.singleton_inj.1 he] at hr ⊢
        exact (hturn k).1 hr
      · have hsplit' : tr ++ [⟨s, a, t⟩] = (front ++ e :: back) ++ [e'] := by simpa using hsplit
        obtain ⟨rfl, -⟩ := List.append_inj' hsplit' rfl
        exact hcounted.disputed front e back k rfl hr
    · intro e he k hr
      rcases List.mem_append.1 he with he | he
      · exact hcounted.rejected e he k hr
      · rw [List.mem_singleton.1 he] at hr ⊢
        exact ((hturn k).2 hr).1
    · rw [hcount]
      split_ifs with hr
      · obtain ⟨-, hbound⟩ := (hturn k).2 hr
        have hle := hfewer k
        push_cast
        exact le_max_of_le_right (by omega)
      · simpa using hcounted.bounded k
    · rw [hcount, rejectionsOf_snoc]
      have hle := hfewer k
      split_ifs with hr hrej
      · omega
      · exact absurd ((hturn k).2 hr).1 hrej
      · omega
      · omega

/-- **The bound on rejections.** In every run from an empty checklist whose accepted turns list no id that counts twice
and start new items without rejections: the counter of an item is the number of accepted turns that rejected it, each
rejection beyond the bound disputes it, and it goes from waiting back to work by rejections only, and no more often than
the bound allows. -/
theorem rejections_counted {P : Runtime} {cfg : Cfg} {s₀ s : RunState} {tr : List (Entry RunState Act)}
    (hrun : Run P cfg s₀ tr s) (h0 : s₀.checklist = []) (hfair : ∀ e ∈ tr, FairAt e) : Counted cfg tr s :=
  (run_counted hrun h0 hfair).2.1

/-- accepted turns one after the other, on record -/
def record (P : Runtime) (cfg : Cfg) (s : RunState) :
    List (String × Env) → Except Err (List (Entry RunState Act) × RunState)
  | [] => .ok ([], s)
  | (actor, env) :: rest => do
    if actor ∈ cfg.agents then
      let (t, _) ← review P cfg s actor env none
      let (tr, u) ← record P cfg t rest
      .ok (⟨s, .turn actor env, t⟩ :: tr, u)
    else .error .keyError

theorem record_run {P : Runtime} {cfg : Cfg} {s t : RunState} {l : List (String × Env)} {tr : List (Entry RunState Act)}
    (h : record P cfg s l = .ok (tr, t)) : Run P cfg s tr t := by
  induction l generalizing s tr with
  | nil => cases h; exact .nil
  | cons p l ih =>
    obtain ⟨actor, env⟩ := p
    simp only [record] at h
    split_ifs at h with hfleet
    obtain ⟨⟨u, narrative⟩, hrev, h⟩ := bind_ok h
    obtain ⟨⟨tr', t'⟩, htr, h⟩ := bind_ok h
    cases h
    exact (Trace.single (.turn hfleet hrev)).append (ih htr)

/-- claude scopes `c1` with this counter, and submits it three times; agy sends it back each time -/
def sentBackThrice (rejections : ℤ) : List (String × Env) :=
  let submit := ("claude", envelopeOf [(.str "c1", "awaiting-verification", .str "claude")])
  let reject := ("agy", envelopeOf [(.str "c1", "claimed", .str "claude")])
  [("claude", [("rally_version", .int 1), ("narrative", .str "scope"), ("checklist", .list [.dict
      [("id", .str "c1"), ("state", .str "open"), ("rejections", .int rejections)]])]),
   submit, reject, submit, reject, submit, reject]

/-- a run as it is played, with what it says of its end -/
theorem record_ok {l : List (String × Env)} {α : Type} {f : List (Entry RunState Act) × RunState → α} {x : α}
    (h : (record plainText twoAgents newRun l).map f = .ok x) :
    ∃ tr s, Run plainText twoAgents newRun tr s ∧ f (tr, s) = x := by
  cases hrec : record plainText twoAgents newRun l with
  | error e => rw [hrec] at h; cases h
  | ok r =>
    rw [hrec] at h
    exact ⟨r.1, r.2, record_run hrec, Except.ok.inj h⟩

/-- two rejections within the bound, and the third that disputes -/
theorem rejections_counted_sample : ∃ tr s, Run plainText twoAgents newRun tr s ∧
    s.checklist = [⟨.str "c1", .str "", .disputed, .str "claude", .none, .none, 3⟩] ∧
    rejectionsOf tr (.str "c1") = 3 ∧ Counted twoAgents tr s := by
  obtain ⟨tr, s, hrun, heq⟩ := @record_ok (sentBackThrice 0) _
    (fun r => (r.2.checklist, rejectionsOf r.1 (.str "c1"), decide (∀ e ∈ r.1, FairAt e)))
    ([⟨.str "c1", .str "", .disputed, .str "claude", .none, .none, 3⟩], 3, true) (by decide +kernel)
  obtain ⟨hlist, hrest⟩ := Prod.mk.inj heq
  obtain ⟨hcount, hfair⟩ := Prod.mk.inj hrest
  exact ⟨tr, s, hrun, hlist, hcount, rejections_counted hrun rfl (of_decide_eq_true hfair)⟩

/-- **A forged counter.** claude starts `c1` with five rejections in hand: agy rejects it three times under a bound of
two, and it is in work again, with a counter of minus two. -/
theorem rejections_forged : ∃ tr s, Run plainText twoAgents newRun tr s ∧
    s.checklist = [⟨.str "c1", .str "", .claimed, .str "claude", .none, .none, -2⟩] ∧
    rejectionsOf tr (.str "c1") = 3 ∧ twoAgents.rejectionsMax = 2 ∧ ¬ Counted twoAgents tr s := by
  obtain ⟨tr, s, hrun, heq⟩ := @record_ok (sentBackThrice (-5)) _
    (fun r => (r.2.checklist, rejectionsOf r.1 (.str "c1")))
    ([⟨.str "c1", .str "", .claimed, .str "claude", .none, .none, -2⟩], 3) (by decide +kernel)
  obtain ⟨hlist, hcount⟩ := Prod.mk.inj heq
  refine ⟨tr, s, hrun, hlist, hcount, rfl, fun h => ?_⟩
  have hitem := h.counter _ (hlist ▸ List.mem_cons_self) (.str "c1") rfl
  rw [hcount] at hitem
  cases hitem

end Rally.Runner
