/-
Who an accepted checklist gives its items to (`reconcile` of `src/envelope.py`).

`Move` says what can become of an item; here the entry the proposal made for it is kept in view, as a claim of an open
item and a new item take their owner from it.

- `reconcile_accepted`: every accepted item is the transition of a listed entry, the admission of one, or the kept item
  put back.
- `custody_assigned`: an item changes hands only to the actor, or, while it is open, to the owner its entry claims it
  for; an item of another agent changes its state only by a verdict, a flag, a recovery that names it or such a claim.
- `custody_given_away`: checklists in which `claude` claims an item for `agy`, files a new one under `agy` and claims an
  open item that `agy` owns.
-/
import Rally.Envelope

namespace Rally.Envelope

open Py

/-! ## Where an accepted item comes from -/

/-- the proposal has this entry under the key -/
def Listed (raws : List Value) (k : Key) (it : Proposed) : Prop :=
  ∃ raw ∈ raws, norm raw = .ok it ∧ it.id ≠ .none ∧ it.id.key? = some k

/-- the item accepted under a key, with the entry it was made from -/
inductive Accepted (C : Ctx) (raws : List Value) (k : Key) : Item → Prop where
  | admitted (it : Proposed) (listed : Listed raws k it) (fresh : Dict.get? C.by_id k = none) (scope : C.allowNew = true) :
    Accepted C raws k (admission it).1
  | moved (it : Proposed) (o : Value) (old : Item) (listed : Listed raws k it)
      (held : Dict.get? C.by_id k = some (o, old)) :
    Accepted C raws k (transition old it C.actor C.rejectionsMax (C.recoverable.any fun s => k = .str s)).1
  | restored (o : Value) (old : Item) (held : Dict.get? C.by_id k = some (o, old)) : Accepted C raws k old

theorem Listed.mono {raws more : List Value} {k : Key} {it : Proposed} (hsub : ∀ raw ∈ raws, raw ∈ more)
    (h : Listed raws k it) : Listed more k it := by
  obtain ⟨raw, hraw, hit⟩ := h
  exact ⟨raw, hsub raw hraw, hit⟩

theorem Accepted.mono {C : Ctx} {raws more : List Value} {k : Key} {x : Item} (hsub : ∀ raw ∈ raws, raw ∈ more)
    (h : Accepted C raws k x) : Accepted C more k x := by
  cases h with
  | admitted it listed fresh scope => exact .admitted it (listed.mono hsub) fresh scope
  | moved it o old listed held => exact .moved it o old (listed.mono hsub) held
  | restored o _ held => exact .restored o x held

theorem Accepted.key {C : Ctx} (hC : KeysOk C.by_id) {raws : List Value} {k : Key} {x : Item}
    (h : Accepted C raws k x) : x.id.key? = some k := by
  cases h with
  | admitted it listed =>
    obtain ⟨raw, -, -, -, hk⟩ := listed
    rw [(admission_state it).1, hk]
  | moved it o old listed held =>
    rw [(transition_move old it C.actor C.rejectionsMax _).id_eq]
    exact hC k o old held
  | restored o _ held => exact hC k o x held

/-- one entry adds at most the item accepted for it -/
theorem reconcileItem_accepted {C : Ctx} {a a' : Acc} {raw : Value} (h : reconcileItem C a raw = .ok a') :
    ∀ x ∈ a'.out, x ∈ a.out ∨ ∃ k, Accepted C [raw] k x := by
  obtain ⟨it, hit, ⟨-, rfl⟩ | ⟨k, hk, hid, -, hout⟩⟩ := reconcileItem_cases h
  · exact fun x hx => Or.inl hx
  · have hlisted : Listed [raw] k it := ⟨raw, List.mem_singleton_self raw, hit, hid, hk⟩
    intro x hx
    rcases hout with ⟨hnone, hnew, hout⟩ | ⟨-, -, hout⟩ | ⟨o, old, rec, hsome, rfl, hout⟩
    · rw [hout, List.mem_append, List.mem_singleton] at hx
      rcases hx with hx | rfl
      · exact Or.inl hx
      · exact Or.inr ⟨k, .admitted it hlisted hnone hnew⟩
    · rw [hout] at hx
      exact Or.inl hx
    · rw [hout, List.mem_append, List.mem_singleton] at hx
      rcases hx with hx | rfl
      · exact Or.inl hx
      · exact Or.inr ⟨k, .moved it o old hlisted hsome⟩

theorem reconcileLoop_accepted {C : Ctx} {raws : List Value} {a a' : Acc} (h : reconcileLoop C a raws = .ok a') :
    ∀ x ∈ a'.out, x ∈ a.out ∨ ∃ k, Accepted C raws k x := by
  induction raws generalizing a with
  | nil =>
    cases h
    exact fun x hx => Or.inl hx
  | cons raw raws ih =>
    obtain ⟨b, hb, h⟩ := bind_ok h
    intro x hx
    rcases ih h x hx with hx | ⟨k, hx⟩
    · rcases reconcileItem_accepted hb x hx with hx | ⟨k, hx⟩
      · exact Or.inl hx
      · exact Or.inr ⟨k, hx.mono (by simp)⟩
    · exact Or.inr ⟨k, hx.mono fun r hr => List.mem_cons_of_mem raw hr⟩

section Accepted

variable {prev out : List Item} {proposed : Value} {actor : String} {rm : ℤ} {allowNew : Bool} {items : List String}
  {vs : List Violation}

/-- **Each accepted item beside its entry.** -/
theorem reconcile_accepted (h : reconcile prev proposed actor rm allowNew items = .ok (out, vs)) :
    ∃ d raws, byId prev = .ok d ∧ proposed.iter = .ok raws ∧
      ∀ x ∈ out, ∃ k, x.id.key? = some k ∧ Accepted ⟨d, actor, rm, allowNew, items⟩ raws k x := by
  obtain ⟨d, hd, h⟩ := bind_ok h
  obtain ⟨raws, hraws, h⟩ := bind_ok h
  obtain ⟨a, ha, h⟩ := bind_ok h
  cases h
  obtain ⟨hok, hkeys, -⟩ := byId_spec hd
  have hC : KeysOk d := by
    intro k o old hget
    obtain ⟨it, -, -, hk, rfl⟩ := hkeys k o old hget
    exact hk
  refine ⟨d, raws, hd, hraws, fun x hx => ?_⟩
  have hacc : ∃ k, Accepted ⟨d, actor, rm, allowNew, items⟩ raws k x := by
    rcases List.mem_append.1 hx with hx | hx
    · rcases reconcileLoop_accepted ha x hx with hx | hx
      · cases hx
      · exact hx
    · obtain ⟨⟨k, o, old⟩, hp, rfl⟩ := List.mem_map.1 hx
      exact ⟨k, .restored o old ((Dict.mem_iff hok).1 (List.mem_filter.1 hp).1)⟩
  obtain ⟨k, hacc⟩ := hacc
  exact ⟨k, hacc.key hC, hacc⟩

/-! ## Custody -/

/-- the ways `actor` may change the state of an item that another agent owns -/
inductive OthersMove (actor : String) (named : Prop) (old x : Item) : Prop where
  | verified (was : old.state = .awaitingVerification) (now : x.state = .done) (by' : x.verifiedBy = .str actor)
  | rejected (was : old.state = .awaitingVerification) (counted : x.rejections = old.rejections + 1)
  | flagged (now : x.state = .blocked ∨ x.state = .disputed)
  | recovered (granted : named) (taken : x.owner = .str actor)
  | claimed (was : old.state = .opened) (now : x.state = .claimed)

/-- a change of hands by the entry that claims an open item -/
structure ClaimedFor (raws : List Value) (k : Key) (old x : Item) : Prop where
  was : old.state = .opened
  now : x.state = .claimed
  entry : ∃ it, Listed raws k it ∧ it.state = .str "claimed" ∧ x.owner = it.owner

/-- what becomes of the custody of the item kept under a key -/
structure CustodyKept (raws : List Value) (actor : String) (items : List String) (k : Key) (old x : Item) : Prop where
  assigned : x.owner ≠ old.owner → x.owner = .str actor ∨ ClaimedFor raws k old x
  others : old.owner ≠ .none → old.owner ≠ .str actor → x.state ≠ old.state →
    OthersMove actor (∃ id ∈ items, k = .str id) old x

/-- the owner a new item starts with: the one its entry names, if it starts as open or claimed -/
def startOwner (it : Proposed) : Value :=
  if it.state = .str "open" ∨ it.state = .str "claimed" then it.owner else .none

theorem admission_owner (it : Proposed) : (admission it).1.owner = startOwner it := by
  unfold admission startOwner
  split
  · rename_i h
    simp [ItemState.ofValue_eq.1 h, ItemState.text]
  · rename_i h
    simp [ItemState.ofValue_eq.1 h, ItemState.text]
  · rename_i hopen hclaimed
    rw [if_neg]
    rintro (h | h)
    · exact hopen (ItemState.ofValue_eq.2 h)
    · exact hclaimed (ItemState.ofValue_eq.2 h)

/-- the owner after a transition: the one before, the actor, or the one the entry claims the open item for -/
theorem transition_owner (old : Item) (it : Proposed) (actor : String) (rm : ℤ) (rec : Bool) :
    (transition old it actor rm rec).1.owner = old.owner ∨ (transition old it actor rm rec).1.owner = .str actor ∨
      (old.state = .opened ∧ (transition old it actor rm rec).1.state = .claimed ∧ it.state = .str "claimed" ∧
        (transition old it actor rm rec).1.owner = it.owner) := by
  unfold transition
  simp only [Value.eq_str, Value.same_str, Value.same_none, decide_eq_true_eq]
  split_ifs with hrec hkeep hdone hawait hown hrej hown' hmax hclaim hsub hown' hflag
  · exact Or.inr (Or.inl rfl)
  · exact Or.inl rfl
  · exact Or.inl rfl
  · exact Or.inl rfl
  · exact Or.inl rfl
  · exact Or.inl rfl
  · exact Or.inl rfl
  · exact Or.inl rfl
  · -- a claim: the owner the entry names, else the actor
    simp only [Value.orElse]
    split_ifs
    · exact Or.inr (Or.inr ⟨hclaim.2, trivial, ItemState.ofValue_eq.1 hclaim.1, rfl⟩)
    · exact Or.inr (Or.inl rfl)
  · simp only [Value.orElse]
    split_ifs
    · exact Or.inl rfl
    · exact Or.inr (Or.inl rfl)
  · exact Or.inl rfl
  · exact Or.inl rfl
  · exact Or.inl rfl

/-- the moves open to an agent that does not own the item -/
theorem Move.others {rec : Bool} {old x : Item} (h : Move actor rm rec old x) (howned : old.owner ≠ .none)
    (hother : old.owner ≠ .str actor) (hstate : x.state ≠ old.state) : OthersMove actor (rec = true) old x := by
  cases h with
  | keep => exact absurd rfl hstate
  | recover st evidence granted was target => exact .recovered granted rfl
  | verify evidence was other => exact .verified was rfl rfl
  | reject evidence was other => exact .rejected was rfl
  | claim owner was => exact .claimed was rfl
  | submit evidence was own =>
    rcases own with h | h
    · exact absurd h howned
    · exact absurd h hother
  | flag st evidence target => exact .flagged target

theorem OthersMove.imp {named other : Prop} {old x : Item} (hto : named → other) (h : OthersMove actor named old x) :
    OthersMove actor other old x := by
  cases h with
  | verified was now by' => exact .verified was now by'
  | rejected was counted => exact .rejected was counted
  | flagged now => exact .flagged now
  | recovered granted taken => exact .recovered (hto granted) taken
  | claimed was now => exact .claimed was now

/-- an entry moved under its key keeps the custody of the item -/
theorem transition_custody {raws : List Value} {k : Key} {old : Item} {it : Proposed} (hit : Listed raws k it) :
    CustodyKept raws actor items k old (transition old it actor rm (items.any fun s => k = .str s)).1 where
  assigned hne := by
    rcases transition_owner old it actor rm (items.any fun s => k = .str s) with h | h | ⟨hwas, hnow, hst, howner⟩
    · exact absurd h hne
    · exact Or.inl h
    · exact Or.inr ⟨hwas, hnow, it, hit, hst, howner⟩
  others howned hother hstate := by
    have hmove := transition_move old it actor rm (items.any fun s => k = .str s)
    refine (hmove.others howned hother hstate).imp fun hany => ?_
    simpa using hany

/-- **Custody.** An accepted item changes hands only to the actor or, by a claim of an open item, to the owner its entry
names; a new item has the owner its entry starts it with; and an item of another agent changes its state only by a
verdict on it, a flag, a recovery that names it, or a claim while it is open. -/
theorem custody_assigned (h : reconcile prev proposed actor rm allowNew items = .ok (out, vs)) :
    ∃ raws, proposed.iter = .ok raws ∧ ∀ x ∈ out, ∃ k, x.id.key? = some k ∧
      ((∃ old, kept prev k = some old ∧ CustodyKept raws actor items k old x) ∨
        (kept prev k = none ∧ ∃ it, Listed raws k it ∧ x.owner = startOwner it)) := by
  obtain ⟨d, raws, hd, hraws, hacc⟩ := reconcile_accepted h
  have hkept : ∀ k, kept prev k = (Dict.get? d k).map fun p => p.2 := by
    intro k
    simp [kept, hd]
  refine ⟨raws, hraws, fun x hx => ?_⟩
  obtain ⟨k, hk, hx⟩ := hacc x hx
  refine ⟨k, hk, ?_⟩
  cases hx with
  | admitted it listed fresh scope =>
    refine Or.inr ⟨?_, it, listed, admission_owner it⟩
    rw [hkept]
    simpa using fresh
  | moved it o old listed held =>
    refine Or.inl ⟨old, ?_, transition_custody listed⟩
    rw [hkept]
    simp [held]
  | restored o _ held =>
    refine Or.inl ⟨x, ?_, ⟨fun hne => absurd rfl hne, fun _ _ hne => absurd rfl hne⟩⟩
    rw [hkept]
    simp [held]

end Accepted

/-! ## Custody given to somebody else -/

def itemOf (id : String) (st : ItemState) (owner : Value) : Item := ⟨.str id, .str "d", st, owner, .none, .none, 0⟩

def entryOf (id state : String) (owner : Value) : Value :=
  .dict [("id", .str id), ("description", .str "d"), ("state", .str state), ("owner", owner), ("verified_by", .none),
    ("evidence", .none), ("rejections", .int 0)]

/-- `claude` claims the open item `c1` for `agy`, files the new item `c2` under `agy`, and claims for itself the open
item `c3` that `agy` owns -/
theorem custody_given_away :
    reconcile [itemOf "c1" .opened .none] (.list [entryOf "c1" "claimed" (.str "agy")]) "claude" 2 false [] =
        .ok ([itemOf "c1" .claimed (.str "agy")], []) ∧
      reconcile [] (.list [entryOf "c2" "open" (.str "agy")]) "claude" 2 true [] =
        .ok ([itemOf "c2" .opened (.str "agy")], []) ∧
      reconcile [itemOf "c3" .opened (.str "agy")] (.list [entryOf "c3" "claimed" .none]) "claude" 2 false [] =
        .ok ([itemOf "c3" .claimed (.str "claude")], []) := by
  decide

/-- a checklist with every kind of change by `claude`: a claim, a verdict and a recovery -/
theorem custody_assigned_sample :
    ∃ raws, (Value.list [entryOf "c1" "claimed" .none, entryOf "c2" "done" (.str "agy"),
        entryOf "c3" "awaiting-verification" .none]).iter = .ok raws ∧
      ∀ x ∈ [itemOf "c1" .claimed (.str "claude"),
          { itemOf "c2" .done (.str "agy") with verifiedBy := .str "claude" },
          itemOf "c3" .awaitingVerification (.str "claude")],
        ∃ k, x.id.key? = some k ∧
          ((∃ old, kept [itemOf "c1" .opened .none, itemOf "c2" .awaitingVerification (.str "agy"),
              itemOf "c3" .blocked (.str "codex")] k = some old ∧ CustodyKept raws "claude" ["c3"] k old x) ∨
            (kept [itemOf "c1" .opened .none, itemOf "c2" .awaitingVerification (.str "agy"),
              itemOf "c3" .blocked (.str "codex")] k = none ∧ ∃ it, Listed raws k it ∧ x.owner = startOwner it)) := by
  have hrun : reconcile [itemOf "c1" .opened .none, itemOf "c2" .awaitingVerification (.str "agy"),
        itemOf "c3" .blocked (.str "codex")]
      (.list [entryOf "c1" "claimed" .none, entryOf "c2" "done" (.str "agy"),
        entryOf "c3" "awaiting-verification" .none]) "claude" 2 false ["c3"] =
      .ok ([itemOf "c1" .claimed (.str "claude"), { itemOf "c2" .done (.str "agy") with verifiedBy := .str "claude" },
        itemOf "c3" .awaitingVerification (.str "claude")], []) := by
    decide
  exact custody_assigned hrun

end Rally.Envelope
