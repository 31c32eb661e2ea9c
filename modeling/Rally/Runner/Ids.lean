/-
Identity of checklist items: whether two items of the authoritative checklist can have one id.

`reconcile` judges each proposed entry against the previous checklist alone and appends what it accepts, so an id that
the proposal lists twice is accepted twice: a kept item is moved once for each entry, a new one admitted once for each.
`validate_shape` reports the repetition as advice. What the proposal does not mention is restored once.

- `reconcile_list`: the ids of an accepted checklist, in order, exactly.
- `ids_unique`: an accepted checklist has distinct ids exactly when the entries that count have; in a run of such turns
  every checklist has, whatever notes and recoveries do.
- `repeated_id_admitted`: the scoping turn lists `c1` twice, and the checklist has two items `c1`.
-/
import Rally.Runner.Scope

namespace Rally.Envelope

open Py

/-! ## The ids of an accepted checklist -/

/-- the hash key of an item's id -/
def Item.key? (it : Item) : Option Key := it.id.key?

/-- the entries of a proposal that count: ids the checklist keeps, and any id while the scope is open -/
def countedKeys (prev : List Item) (proposed : Value) (allowNew : Bool) : List Key :=
  (proposedKeys proposed).filter fun k => allowNew || (kept prev k).isSome

theorem reconcileItem_keys {C : Ctx} (hC : KeysOk C.by_id) {a a' : Acc} {raw : Value}
    (h : reconcileItem C a raw = .ok a') :
    a'.out.map Item.key? = a.out.map Item.key? ++
      (((rawKey raw).toList.filter fun k => C.allowNew || (Dict.get? C.by_id k).isSome).map some) := by
  obtain ⟨it, hit, hcase⟩ := reconcileItem_cases h
  have hraw := rawKey_norm hit
  rcases hcase with ⟨hid, rfl⟩ | ⟨k, hk, hid, hseen, hout⟩
  · rw [hraw, if_pos hid]
    simp
  · rw [hraw, if_neg hid, hk]
    rcases hout with ⟨hnone, hnew, hout⟩ | ⟨hnone, hnew, hout⟩ | ⟨o, old, rec, hsome, hrec, hout⟩
    · have hx : (admission it).1.key? = some k := by
        unfold Item.key?
        rw [(admission_state it).1, hk]
      simp [hout, hnew, hx]
    · simp [hout, hnone, hnew]
    · have hx : (transition old it C.actor C.rejectionsMax rec).1.key? = some k := by
        unfold Item.key?
        rw [(transition_move old it C.actor C.rejectionsMax rec).id_eq]
        exact hC k o old hsome
      simp [hout, hsome, hx]

theorem reconcileLoop_keys {C : Ctx} (hC : KeysOk C.by_id) {a a' : Acc} {raws : List Value}
    (h : reconcileLoop C a raws = .ok a') :
    a'.out.map Item.key? = a.out.map Item.key? ++
      (((raws.filterMap rawKey).filter fun k => C.allowNew || (Dict.get? C.by_id k).isSome).map some) := by
  induction raws generalizing a with
  | nil => cases h; simp
  | cons raw raws ih =>
    obtain ⟨b, hb, h⟩ := bind_ok h
    rw [ih h, reconcileItem_keys hC hb, List.append_assoc, ← List.map_append, ← List.filter_append]
    cases hraw : rawKey raw <;> simp [hraw]

/-- **The ids of an accepted checklist**, in order: those the proposal lists that count, each as often as it is listed,
and then the kept ones that it does not list, once each. -/
theorem reconcile_list {prev out : List Item} {proposed : Value} {actor : String} {rm : ℤ} {allowNew : Bool}
    {items : List String} {vs : List Violation} (h : reconcile prev proposed actor rm allowNew items = .ok (out, vs)) :
    ∃ back : List Key, back.Nodup ∧ (∀ k ∈ back, k ∉ proposedKeys proposed) ∧
      out.map Item.key? = (countedKeys prev proposed allowNew ++ back).map some := by
  obtain ⟨d, hd, h⟩ := bind_ok h
  obtain ⟨raws, hraws, h⟩ := bind_ok h
  obtain ⟨a, ha, h⟩ := bind_ok h
  cases h
  obtain ⟨hok, hkeys, -⟩ := byId_spec hd
  have hC : KeysOk d := by
    intro k o old hget
    obtain ⟨it, -, -, hk, rfl⟩ := hkeys k o old hget
    exact hk
  have hlist : proposedKeys proposed = raws.filterMap rawKey := by simp [proposedKeys, hraws]
  have hcount : countedKeys prev proposed allowNew =
      (raws.filterMap rawKey).filter fun k => allowNew || (Dict.get? d k).isSome := by
    unfold countedKeys
    rw [hlist]
    apply List.filter_congr
    intro k _
    simp [kept, hd]
  have hseen := (reconcileLoop_grown (C := ⟨d, actor, rm, allowNew, items⟩) hC ha).seen
  refine ⟨(restored ⟨d, actor, rm, allowNew, items⟩ a.seen).map Prod.fst, ?_, ?_, ?_⟩
  · exact List.Nodup.sublist (List.filter_sublist.map Prod.fst) hok
  · intro k hk
    obtain ⟨p, hp, rfl⟩ := List.mem_map.1 hk
    have hnot : p.1 ∉ a.seen := by simpa using (List.mem_filter.1 hp).2
    rw [hlist]
    intro hmem
    exact hnot ((hseen p.1).2 (Or.inr hmem))
  · have hback : (restored ⟨d, actor, rm, allowNew, items⟩ a.seen).map (fun p => p.2.2.key?) =
        (restored ⟨d, actor, rm, allowNew, items⟩ a.seen).map (fun p => some p.1) := by
      apply List.map_congr_left
      intro p hp
      exact hC p.1 p.2.1 p.2.2 ((Dict.mem_iff hok).1 (List.mem_filter.1 hp).1)
    have hout := reconcileLoop_keys (C := ⟨d, actor, rm, allowNew, items⟩) hC ha
    rw [List.map_append, hout, List.map_map, hcount, List.map_append, List.map_map]
    simpa [Function.comp_def] using hback

end Rally.Envelope

namespace Rally.Runner

open Py Rally.Envelope

/-! ## Distinct ids -/

/-- no two items have one id -/
def UniqueIds (items : List Item) : Prop := items.Pairwise fun x y => ¬ SameId x y

/-- the entries of the proposal that count have distinct ids -/
def ListedOnce (prev : List Item) (proposed : Value) (allowNew : Bool) : Prop :=
  (countedKeys prev proposed allowNew).Nodup

instance (prev : List Item) (proposed : Value) (allowNew : Bool) : Decidable (ListedOnce prev proposed allowNew) :=
  inferInstanceAs (Decidable (List.Nodup _))

theorem sameId_iff (x y : Item) : SameId x y ↔ x.key? = y.key? ∧ x.key?.isSome := by
  unfold SameId Item.key?
  constructor
  · rintro ⟨k, hx, hy⟩
    rw [hx, hy]
    exact ⟨rfl, rfl⟩
  · rintro ⟨heq, hsome⟩
    obtain ⟨k, hk⟩ := Option.isSome_iff_exists.1 hsome
    exact ⟨k, hk, heq ▸ hk⟩

theorem uniqueIds_iff {items : List Item} {ks : List Key} (h : items.map Item.key? = ks.map some) :
    UniqueIds items ↔ ks.Nodup := by
  have hsome : ∀ x ∈ items, x.key?.isSome := by
    intro x hx
    have hmem : x.key? ∈ ks.map some := h ▸ List.mem_map_of_mem hx
    obtain ⟨k, -, hk⟩ := List.mem_map.1 hmem
    rw [← hk]
    rfl
  calc UniqueIds items ↔ items.Pairwise fun x y => x.key? ≠ y.key? := by
        apply List.Pairwise.iff_of_mem
        intro x y hx _
        rw [sameId_iff]
        simp [hsome x hx]
    _ ↔ (items.map Item.key?).Nodup := List.pairwise_map.symm
    _ ↔ ks.Nodup := by rw [h, List.nodup_map_iff (Option.some_injective _)]

/-- an accepted checklist has distinct ids exactly when the entries that count have -/
theorem unique_iff_listed {prev out : List Item} {proposed : Value} {actor : String} {rm : ℤ} {allowNew : Bool}
    {items : List String} {vs : List Violation} (h : reconcile prev proposed actor rm allowNew items = .ok (out, vs)) :
    UniqueIds out ↔ ListedOnce prev proposed allowNew := by
  obtain ⟨back, hback, hnew, hout⟩ := reconcile_list h
  rw [uniqueIds_iff hout]
  constructor
  · intro hnodup
    exact (List.nodup_append.1 hnodup).1
  · intro honce
    refine List.nodup_append.2 ⟨honce, hback, ?_⟩
    rintro k hk l hl rfl
    exact hnew k hl (List.mem_filter.1 hk).1

/-! ## The revision item of a note -/

theorem digit?_ascii {c : Char} (h : c.isDigit = true) : digit? c = some (c.toNat - 48) := by
  have hrange : 48 ≤ c.toNat ∧ c.toNat ≤ 57 := by
    simpa [Char.isDigit, UInt32.le_iff_toNat_le] using h
  have hfirst : 48 ≤ c.toNat ∧ c.toNat < 48 + 10 := by omega
  simp [digit?, digitZeros, hfirst]

/-- the digits of a number read back -/
theorem digits_read (n : ℕ) : (Nat.toDigits 10 n).mapM digit? = some ((Nat.toDigits 10 n).map fun c => c.toNat - 48) ∧
    ofDigits ((Nat.toDigits 10 n).map fun c => c.toNat - 48) = n := by
  have hdigit : ∀ c ∈ Nat.toDigits 10 n, c.isDigit = true := fun c hc =>
    Nat.isDigit_of_mem_toDigits (by decide) (by decide) hc
  constructor
  · generalize Nat.toDigits 10 n = cs at hdigit
    induction cs with
    | nil => rfl
    | cons c cs ih =>
      have hrest := ih fun c hc => hdigit c (List.mem_cons_of_mem _ hc)
      simp [List.mapM_cons, digit?_ascii (hdigit c List.mem_cons_self), hrest]
  · calc ofDigits ((Nat.toDigits 10 n).map fun c => c.toNat - 48) = Nat.ofDigitChars 10 (Nat.toDigits 10 n) 0 := by
          rw [Nat.ofDigitChars_eq_foldl, ofDigits, List.foldl_map]
          rfl
      _ = n := Nat.ofDigitChars_ten_toDigits

/-- the number in an id that the runner makes -/
theorem idNumber_made {n : ℕ} {m : Option ℕ} (h : idNumber (.str s!"c{n}") = .ok m) : m = some n := by
  have htext : (s!"c{n}").toList = 'c' :: Nat.toDigits 10 n := by
    simp [toString, Nat.toList_repr]
  obtain ⟨hread, hval⟩ := digits_read n
  unfold idNumber at h
  cases hds : Nat.toDigits 10 n with
  | nil => exact absurd hds Nat.toDigits_ne_nil
  | cons d ds =>
    rw [hds] at htext hread hval
    simp only [htext, hread] at h
    split_ifs at h
    cases h
    rw [hval]

/-- the item a note adds has an id of its own -/
theorem revision_fresh {prev : List Item} {text : String} {item : Item} (h : revisionItem prev text = .ok item) :
    ∀ x ∈ prev, ¬ SameId x item := by
  obtain ⟨numbers, hnumbers, h⟩ := bind_ok h
  cases h
  rintro x hx ⟨k, hxk, hk⟩
  cases hk
  have hid : x.id = _ := Value.key?_eq_str.1 hxk
  obtain ⟨i, hi, rfl⟩ := List.getElem_of_mem hx
  have hall := mapM_ok hnumbers
  have hi' : i < numbers.length := by rw [← hall.length_eq]; exact hi
  have hnumber := hall.get hi hi'
  simp only [List.get_eq_getElem, hid] at hnumber
  have hmade := idNumber_made hnumber
  have hmem : (numbers.filterMap id).foldl max 0 + 1 ∈ numbers.filterMap id :=
    List.mem_filterMap.2 ⟨numbers[i], List.getElem_mem hi', hmade⟩
  rw [List.foldl_max] at hmem
  have hle := List.le_max?_getD_of_mem hmem (k := 0)
  omega

/-! ## Whole runs -/

theorem uniqueIds_reopened {items : List Item} (h : UniqueIds items) : UniqueIds (items.map reopenItem) := by
  have hid : ∀ it, (reopenItem it).id = it.id := by
    intro it
    unfold reopenItem
    split_ifs <;> rfl
  refine List.pairwise_map.2 (h.imp ?_)
  intro x y hxy
  simpa only [SameId, hid] using hxy

/-- an accepted turn lists each id that counts once -/
def ListsOnce (e : Entry RunState Act) : Prop :=
  ∀ actor env, e.act = .turn actor env → ListedOnce e.before.checklist (proposedOf env) (e.before.turn ≤ 1)

theorem step_unique {P : Runtime} {cfg : Cfg} {e : Entry RunState Act} (h : Step P cfg e.before e.act e.after)
    (honce : ListsOnce e) (h0 : UniqueIds e.before.checklist) : UniqueIds e.after.checklist := by
  obtain ⟨s, a, t⟩ := e
  cases h with
  | turn _ hrev =>
    obtain ⟨c, vs, -, hrec, -⟩ := review_spec hrev
    exact (unique_iff_listed hrec).2 (honce _ _ rfl)
  | handoff hmade => rwa [(startSecondWind_spec hmade).1]
  | rest hsame _ => rwa [hsame]
  | note happ =>
    obtain ⟨-, -, -, hcl | hcl | ⟨-, item, hitem, hcl⟩⟩ := applyHumanNote_spec happ
    · rwa [hcl]
    · rw [hcl]
      exact uniqueIds_reopened h0
    · rw [hcl]
      refine List.pairwise_append.2 ⟨h0, List.pairwise_singleton _ _, ?_⟩
      intro x hx y hy
      rw [List.mem_singleton.1 hy]
      exact revision_fresh hitem x hx

/-- **Identity of items.** Whatever the previous checklist, an accepted one has distinct ids exactly when the proposal
lists no id twice that counts: none that the checklist keeps, and none at all while the scope is open. In every run
from an empty checklist whose turns do so, no two items ever have one id. -/
theorem ids_unique {P : Runtime} {cfg : Cfg} {s₀ s : RunState} {tr : List (Entry RunState Act)}
    (hrun : Run P cfg s₀ tr s) (h0 : s₀.checklist = []) :
    (∀ prev proposed actor rm allowNew items out vs,
      reconcile prev proposed actor rm allowNew items = .ok (out, vs) →
        (UniqueIds out ↔ ListedOnce prev proposed allowNew)) ∧
      ((∀ e ∈ tr, ListsOnce e) →
        UniqueIds s.checklist ∧ ∀ e ∈ tr, UniqueIds e.before.checklist ∧ UniqueIds e.after.checklist) := by
  refine ⟨fun _ _ _ _ _ _ _ _ hrec => unique_iff_listed hrec, ?_⟩
  induction hrun with
  | nil =>
    intro _
    have hnil : UniqueIds s₀.checklist := by simp [h0, UniqueIds]
    exact ⟨hnil, by simp⟩
  | snoc hfront hnext ih =>
    intro honce
    obtain ⟨hs, hall⟩ := ih fun e he => honce e (List.mem_append_left _ he)
    have ht := step_unique hnext (honce _ (List.mem_append_right _ List.mem_cons_self)) hs
    refine ⟨ht, ?_⟩
    intro e he
    rcases List.mem_append.1 he with he | he
    · exact hall e he
    · rw [List.mem_singleton.1 he]
      exact ⟨hs, ht⟩

/-- a scoping turn with two ids, each listed once -/
theorem ids_unique_sample : ∃ e s, Run plainText twoAgents newRun [e] s ∧ s.checklist.length = 2 ∧
    UniqueIds s.checklist := by
  have hplay : (review plainText twoAgents newRun "claude" (envelopeOf [(.str "c1", "open", .none),
      (.str "c2", "open", .none)]) none).map (fun r => r.1.checklist.length) = .ok 2 := by decide
  cases hrev : review plainText twoAgents newRun "claude" (envelopeOf [(.str "c1", "open", .none),
      (.str "c2", "open", .none)]) none with
  | error e => rw [hrev] at hplay; cases hplay
  | ok r =>
    obtain ⟨s, narrative⟩ := r
    rw [hrev] at hplay
    have hrun : Run plainText twoAgents newRun _ s := Trace.single (.turn (by decide) hrev)
    refine ⟨_, s, hrun, Except.ok.inj hplay, ((ids_unique hrun rfl).2 ?_).1⟩
    intro e he actor env hact
    rw [List.mem_singleton.1 he] at hact ⊢
    cases hact
    show ListedOnce newRun.checklist _ (newRun.turn ≤ 1)
    decide

/-- **One id, two items.** The scoping turn lists `c1` twice, and both entries are admitted. -/
theorem repeated_id_admitted : ∃ tr s, Run plainText twoAgents newRun tr s ∧
    s.checklist.map (fun it => it.id) = [.str "c1", .str "c1"] ∧ ¬ UniqueIds s.checklist := by
  have hplay : (playTurns plainText twoAgents newRun (scoping [.str "c1", .str "c1"])).map (fun s => s.checklist) =
      .ok [⟨.str "c1", .str "", .opened, .none, .none, .none, 0⟩,
        ⟨.str "c1", .str "", .opened, .none, .none, .none, 0⟩] := by decide
  cases hrun : playTurns plainText twoAgents newRun (scoping [.str "c1", .str "c1"]) with
  | error e => rw [hrun] at hplay; cases hplay
  | ok s =>
    obtain ⟨tr, htr⟩ := playTurns_run hrun
    rw [hrun] at hplay
    have hlist : s.checklist = [⟨.str "c1", .str "", .opened, .none, .none, .none, 0⟩,
      ⟨.str "c1", .str "", .opened, .none, .none, .none, 0⟩] := Except.ok.inj hplay
    refine ⟨tr, s, htr, by rw [hlist]; rfl, ?_⟩
    rw [hlist, @uniqueIds_iff _ [.str "c1", .str "c1"] rfl]
    decide

end Rally.Runner
