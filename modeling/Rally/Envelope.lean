/-
The checklist state machine (`src/envelope.py`): the shape check and `reconcile`, which decides the legal transitions
among those an agent proposes and reverts the rest. The reply's envelope is arbitrary decoded JSON.

An authoritative item has one of the six states. Its other fields are whatever value the item was created with, as
only `state` is checked when a new item is admitted. Messages are data (`Problem`, `Violation`) with the text the code
builds from them beside it.

- `transition_move`: the only ways an item of the authoritative checklist can change in one accepted turn.
- `reconcile_origin`: every accepted item is either such a change of the item kept under its id, or a new open or
  claimed item admitted while the scope is open.
- `reconcile_keys`: the ids accepted are those the previous checklist keeps and, while the scope is open, those the
  proposal lists.
-/
import Rally.Core.Value
import Rally.Core.Dict

namespace Rally.Envelope

open Py

/-! ## Items -/

inductive ItemState where
  | opened
  | claimed
  | awaitingVerification
  | done
  | blocked
  | disputed
deriving DecidableEq, Repr

/-- the string in the JSON -/
def ItemState.text : ItemState → String
  | .opened => "open"
  | .claimed => "claimed"
  | .awaitingVerification => "awaiting-verification"
  | .done => "done"
  | .blocked => "blocked"
  | .disputed => "disputed"

def states : List ItemState := [.opened, .claimed, .awaitingVerification, .done, .blocked, .disputed]

/-- the state a JSON value names, if it is one of the six strings -/
def ItemState.ofValue (v : Value) : Option ItemState := states.find? fun st => v = .str st.text

theorem ItemState.ofValue_text (st : ItemState) : ItemState.ofValue (.str st.text) = some st := by
  cases st <;> decide

theorem ItemState.ofValue_eq {v : Value} {st : ItemState} : ItemState.ofValue v = some st ↔ v = .str st.text := by
  constructor
  · intro h
    simpa using List.find?_some h
  · rintro rfl
    exact ItemState.ofValue_text st

/-- one item of the authoritative checklist -/
structure Item where
  id : Value
  description : Value
  state : ItemState
  owner : Value
  verifiedBy : Value
  evidence : Value
  rejections : ℤ
deriving DecidableEq, Repr

/-- an entry of a proposed checklist after `_norm`: any value may stand in any field -/
structure Proposed where
  id : Value
  description : Value
  state : Value
  owner : Value
  verifiedBy : Value
  evidence : Value
  rejections : ℤ
deriving DecidableEq, Repr

/-- `_norm` on an entry of the reply -/
def norm (raw : Value) : Except Err Proposed := do
  let id ← raw.get "id"
  let description ← raw.get "description"
  let state ← raw.get "state"
  let owner ← raw.get "owner"
  let verifiedBy ← raw.get "verified_by"
  let evidence ← raw.get "evidence"
  let rejections ← (← raw.get "rejections").orElse (.int 0) |>.toInt
  .ok ⟨id, description.orElse (.str ""), state, owner, verifiedBy, evidence, rejections⟩

/-- `_norm` on an item of the previous checklist -/
def Item.norm (it : Item) : Item := { it with description := it.description.orElse (.str "") }

/-! ## Shape check -/

def agents : List String := ["claude", "agy", "codex"]

inductive Problem where
  | version
  | narrative
  | checklist
  | notObject (i : ℕ)
  | needsId (i : ℕ)
  | duplicateId (id : String)
  | invalidState (id state : Value)
  | invalidOwner (id owner : Value)
deriving DecidableEq, Repr

def Problem.text (P : Runtime) : Problem → String
  | .version => "rally_version must be 1"
  | .narrative => "narrative must be a non-empty string"
  | .checklist => "checklist must be a non-empty array"
  | .notObject i => s!"checklist[{i}] is not an object"
  | .needsId i => s!"checklist[{i}] needs a string id"
  | .duplicateId id => s!"duplicate checklist id {P.repr (.str id)}"
  | .invalidState id state => s!"checklist[{id.toStr P}] has invalid state {P.repr state}"
  | .invalidOwner id owner => s!"checklist[{id.toStr P}] has invalid owner {P.repr owner}"

/-- `v not in S` for a set of strings: the member test hashes `v` -/
def notIn (v : Value) (S : List String) : Except Err Bool := do
  let k ← v.key
  .ok (S.all fun s => k ≠ .str s)

/-- the id check of one entry, and the string ids seen so far -/
def validateId (i : ℕ) (iid : Value) (seen : List String) : List Problem × List String :=
  match iid with
  | .str s =>
    if s = "" then ([.needsId i], seen)
    else if s ∈ seen then ([.duplicateId s], seen)
    else ([], s :: seen)
  | _ => ([.needsId i], seen)

/-- the checks of one entry -/
def validateItem (i : ℕ) (raw : Value) (seen : List String) : Except Err (List Problem × List String) :=
  match raw with
  | .dict kvs => do
    let get := fun k => (kvs.lookup k).getD Value.none
    let (idProblems, seen) := validateId i (get "id") seen
    let badState ← notIn (get "state") (states.map ItemState.text)
    let badOwner ← if get "owner" = .none then .ok false else notIn (get "owner") agents
    .ok (idProblems ++ (if badState then [Problem.invalidState (get "id") (get "state")] else [])
      ++ (if badOwner then [Problem.invalidOwner (get "id") (get "owner")] else []), seen)
  | _ => .ok ([.notObject i], seen)

def validateItems (i : ℕ) (seen : List String) : List Value → Except Err (List Problem)
  | [] => .ok []
  | raw :: rest => do
    let (ps, seen) ← validateItem i raw seen
    let qs ← validateItems (i + 1) seen rest
    .ok (ps ++ qs)

/-- an envelope: the object `extract` found in a reply -/
abbrev Env := List (String × Value)

/-- `env.get(k)` -/
def Env.get (env : Env) (k : String) : Value := (env.lookup k).getD .none

/-- `validate_shape` -/
def validateShape (env : Env) : Except Err (List Problem) := do
  let version := if (env.get "rally_version").eq (.int 1) then [] else [Problem.version]
  let narrative := match env.get "narrative" with
    | .str s => if strip s = "" then [Problem.narrative] else []
    | _ => [Problem.narrative]
  match env.get "checklist" with
  | .list (x :: xs) => do
    let items ← validateItems 0 [] (x :: xs)
    .ok (version ++ narrative ++ items)
  | _ => .ok (version ++ narrative ++ [Problem.checklist])

/-! ## Transitions -/

inductive Violation where
  | scopeClosed (id : Value)
  | newMustStart (id state : Value)
  | doneRequires (id : Value) (was : ItemState)
  | ownWork (id : Value) (actor : String)
  | ownRejection (id : Value)
  | notOwner (id owner : Value) (actor : String)
  | illegal (id : Value) (was : ItemState) (now : Value)
  | dropped (id : Value)
deriving DecidableEq, Repr

def Violation.text (P : Runtime) : Violation → String
  | .scopeClosed id =>
    s!"{id.toStr P}: scope is closed, new items are only allowed during negotiation. Raise it in your narrative instead."
  | .newMustStart id state => s!"new item {id.toStr P} must start as open or claimed, not {state.toStr P}"
  | .doneRequires id was => s!"{id.toStr P}: done requires awaiting-verification first, was {was.text}"
  | .ownWork id actor => s!"{id.toStr P}: {actor} owns this item and cannot verify its own work"
  | .ownRejection id => s!"{id.toStr P}: cannot reject your own item"
  | .notOwner id owner actor => s!"{id.toStr P}: owned by {owner.toStr P}, {actor} may not advance it"
  | .illegal id was now => s!"{id.toStr P}: illegal transition {was.text} -> {now.toStr P}"
  | .dropped id => s!"{id.toStr P}: item was dropped from the checklist, restored"

/-- a proposed item with an id the checklist does not have -/
def admission (it : Proposed) : Item × List Violation :=
  match ItemState.ofValue it.state with
  | some .opened => (⟨it.id, it.description, .opened, it.owner, it.verifiedBy, it.evidence, it.rejections⟩, [])
  | some .claimed => (⟨it.id, it.description, .claimed, it.owner, it.verifiedBy, it.evidence, it.rejections⟩, [])
  | _ =>
    (⟨it.id, it.description, .opened, .none, it.verifiedBy, it.evidence, it.rejections⟩,
      [.newMustStart it.id it.state])

/-- the item `actor` proposes under the id of `old`: what is accepted in its place -/
def transition (old : Item) (it : Proposed) (actor : String) (rejectionsMax : ℤ) (recoverable : Bool) :
    Item × List Violation :=
  let was := old.state
  let now := ItemState.ofValue it.state
  let evidence := it.evidence.orElse old.evidence
  -- custody granted by the runner for one recovery handoff
  if recoverable ∧ (was = .claimed ∨ was = .blocked) ∧ (now = some .claimed ∨ now = some .awaitingVerification) then
    ({ old with state := now.getD was, owner := .str actor, verifiedBy := .none, evidence := evidence }, [])
  else if now = some was ∧ old.owner.eq it.owner then
    ({ old with evidence := evidence, description := it.description.orElse old.description }, [])
  else if now = some .done then
    if was ≠ .awaitingVerification then (old, [.doneRequires it.id was])
    else if old.owner.eq (.str actor) then (old, [.ownWork it.id actor])
    else ({ old with state := .done, verifiedBy := .str actor, evidence := evidence }, [])
  else if now = some .claimed ∧ was = .awaitingVerification then
    if old.owner.eq (.str actor) then (old, [.ownRejection it.id])
    else
      let count := old.rejections + 1
      if count > rejectionsMax then ({ old with state := .disputed, rejections := count, evidence := evidence }, [])
      else ({ old with state := .claimed, rejections := count, evidence := evidence }, [])
  else if now = some .claimed ∧ was = .opened then
    ({ old with state := .claimed, owner := it.owner.orElse (.str actor) }, [])
  else if now = some .awaitingVerification ∧ (was = .claimed ∨ was = .opened) then
    if ¬ (old.owner.same .none ∨ old.owner.same (.str actor)) then (old, [.notOwner it.id old.owner actor])
    else
      ({ old with state := .awaitingVerification, owner := old.owner.orElse (.str actor), evidence := evidence }, [])
  else if now = some .blocked ∨ now = some .disputed then
    ({ old with state := now.getD was, evidence := evidence }, [])
  else (old, [.illegal it.id was it.state])

/-! ## `reconcile` -/

/-- `by_id`: the previous items under their ids, with the id object first used as the key. Items whose id counts as
false are left out. -/
def byId (prev : List Item) : Except Err (List (Key × (Value × Item))) := do
  let rows ← (prev.filter fun it => it.id.truthy).mapM fun it => do
    let k ← it.id.key
    .ok (k, it)
  .ok (Dict.build Prod.fst (fun r o => ((o.map Prod.fst).getD r.2.id, r.2.norm)) rows)

/-- the lists `reconcile` builds -/
structure Acc where
  out : List Item
  violations : List Violation
  seen : List Key
deriving DecidableEq, Repr

/-- the hash key of the id of a raw entry: nothing for an entry without an id -/
def rawKey (raw : Value) : Option Key :=
  match raw.get "id" with
  | .ok .none => none
  | .ok v => v.key?
  | .error _ => none

/-- what stays fixed during one `reconcile` -/
structure Ctx where
  by_id : List (Key × (Value × Item))
  actor : String
  rejectionsMax : ℤ
  allowNew : Bool
  recoverable : List String

/-- one round of the loop over the proposed items -/
def reconcileItem (C : Ctx) (a : Acc) (raw : Value) : Except Err Acc := do
  let it ← norm raw
  if it.id = .none then .ok a
  else
    let k ← it.id.key
    let a := { a with seen := k :: a.seen }
    match Dict.get? C.by_id k with
    | none =>
      if C.allowNew then
        let (x, vs) := admission it
        .ok { a with out := a.out ++ [x], violations := a.violations ++ vs }
      else .ok { a with violations := a.violations ++ [.scopeClosed it.id] }
    | some (_, old) =>
      let (x, vs) := transition old it C.actor C.rejectionsMax (C.recoverable.any fun s => k = .str s)
      .ok { a with out := a.out ++ [x], violations := a.violations ++ vs }

def reconcileLoop (C : Ctx) (a : Acc) : List Value → Except Err Acc
  | [] => .ok a
  | raw :: rest => do
    let a ← reconcileItem C a raw
    reconcileLoop C a rest

/-- the kept items the proposal did not mention -/
def restored (C : Ctx) (seen : List Key) : List (Key × (Value × Item)) := C.by_id.filter fun p => p.1 ∉ seen

/-- `reconcile` -/
def reconcile (prev : List Item) (proposed : Value) (actor : String) (rejectionsMax : ℤ) (allowNew : Bool)
    (recoveryItems : List String) : Except Err (List Item × List Violation) := do
  let by_id ← byId prev
  let C : Ctx := ⟨by_id, actor, rejectionsMax, allowNew, recoveryItems⟩
  let a ← reconcileLoop C ⟨[], [], []⟩ (← proposed.iter)
  let back := restored C a.seen
  .ok (a.out ++ back.map (fun p => p.2.2), a.violations ++ back.map (fun p => .dropped p.2.1))

/-- the hash keys of the ids a proposal lists -/
def proposedKeys (proposed : Value) : List Key :=
  match proposed.iter with
  | .ok raws => raws.filterMap rawKey
  | .error _ => []

/-- the item the previous checklist keeps under a key -/
def kept (prev : List Item) (k : Key) : Option Item :=
  match byId prev with
  | .ok d => (Dict.get? d k).map fun p => p.2
  | .error _ => none

/-- `is_complete` -/
def isComplete (items : List Item) : Bool := !items.isEmpty && items.all fun it => it.state = .done

/-- `blocking` -/
def blocking (items : List Item) : List Item := items.filter fun it => it.state = .blocked ∨ it.state = .disputed

/-- `digest` -/
def digest (P : Runtime) (items : List Item) : String :=
  let sorted := items.insertionSort fun a b => a.id.toStr P ≤ b.id.toStr P
  "|".intercalate (sorted.map fun it => s!"{it.id.toStr P}:{it.state.text}:{it.owner.toStr P}")

/-! ## What a transition can do -/

/-- what one accepted turn of `actor` can make of an item: the target, by kind of move -/
inductive Move (actor : String) (rejectionsMax : ℤ) (recoverable : Bool) (old : Item) : Item → Prop where
  /-- nothing moves; description and evidence may be rewritten -/
  | keep (description evidence : Value) :
    Move actor rejectionsMax recoverable old { old with description := description, evidence := evidence }
  /-- custody by a recovery handoff -/
  | recover (st : ItemState) (evidence : Value) (granted : recoverable = true)
      (was : old.state = .claimed ∨ old.state = .blocked) (target : st = .claimed ∨ st = .awaitingVerification) :
    Move actor rejectionsMax recoverable old
      { old with state := st, owner := .str actor, verifiedBy := .none, evidence := evidence }
  | verify (evidence : Value) (was : old.state = .awaitingVerification) (other : old.owner ≠ .str actor) :
    Move actor rejectionsMax recoverable old
      { old with state := .done, verifiedBy := .str actor, evidence := evidence }
  | reject (evidence : Value) (was : old.state = .awaitingVerification) (other : old.owner ≠ .str actor) :
    Move actor rejectionsMax recoverable old
      { old with
        state := if old.rejections + 1 > rejectionsMax then .disputed else .claimed
        rejections := old.rejections + 1
        evidence := evidence }
  | claim (owner : Value) (was : old.state = .opened) :
    Move actor rejectionsMax recoverable old { old with state := .claimed, owner := owner }
  | submit (evidence : Value) (was : old.state = .claimed ∨ old.state = .opened)
      (own : old.owner = .none ∨ old.owner = .str actor) :
    Move actor rejectionsMax recoverable old
      { old with state := .awaitingVerification, owner := .str actor, evidence := evidence }
  | flag (st : ItemState) (evidence : Value) (target : st = .blocked ∨ st = .disputed) :
    Move actor rejectionsMax recoverable old { old with state := st, evidence := evidence }

theorem Move.refl (actor : String) (rm : ℤ) (rec : Bool) (old : Item) : Move actor rm rec old old :=
  .keep old.description old.evidence

theorem Move.id_eq {actor : String} {rm : ℤ} {rec : Bool} {old x : Item} (h : Move actor rm rec old x) :
    x.id = old.id := by
  cases h <;> rfl

/-- every accepted change of an item is a move -/
theorem transition_move (old : Item) (it : Proposed) (actor : String) (rm : ℤ) (rec : Bool) :
    Move actor rm rec old (transition old it actor rm rec).1 := by
  have hreject : old.state = .awaitingVerification → old.owner ≠ .str actor → Move actor rm rec old
      { old with
        state := if old.rejections + 1 > rm then .disputed else .claimed
        rejections := old.rejections + 1
        evidence := it.evidence.orElse old.evidence } := fun hwas hother => .reject _ hwas hother
  unfold transition
  simp only [Value.eq_str, Value.same_str, Value.same_none, decide_eq_true_eq]
  split_ifs with hrec hkeep hdone hawait hown hrej hown' hmax hclaim hsub hown' hflag
  · obtain ⟨hr, hwas, hnow⟩ := hrec
    refine .recover _ _ hr hwas ?_
    rcases hnow with h | h <;> simp [h]
  · exact .keep _ _
  · exact .refl _ _ _ _
  · exact .refl _ _ _ _
  · exact .verify _ (not_not.1 hawait) hown
  · exact .refl _ _ _ _
  · have h := hreject hrej.2 hown'
    rwa [if_pos hmax] at h
  · have h := hreject hrej.2 hown'
    rwa [if_neg hmax] at h
  · exact .claim _ hclaim.2
  · have howner : old.owner.orElse (.str actor) = .str actor := by
      rcases hown' with h | h <;> rw [h] <;> simp [Value.orElse, Value.truthy]
    rw [howner]
    exact .submit _ hsub.2 hown'
  · exact .refl _ _ _ _
  · refine .flag _ _ ?_
    rcases hflag with h | h <;> simp [h]
  · exact .refl _ _ _ _

/-- a newly admitted item is open or claimed, under the id proposed -/
theorem admission_state (it : Proposed) :
    (admission it).1.id = it.id ∧ ((admission it).1.state = .opened ∨ (admission it).1.state = .claimed) := by
  unfold admission
  split <;> simp

/-! ## What `reconcile` accepts -/

/-- one round of the loop: the entry has no id, or its key is now seen and it was admitted, refused or moved -/
theorem reconcileItem_cases {C : Ctx} {a a' : Acc} {raw : Value} (h : reconcileItem C a raw = .ok a') :
    ∃ it, norm raw = .ok it ∧
      ((it.id = .none ∧ a' = a) ∨
        ∃ k, it.id.key? = some k ∧ it.id ≠ .none ∧ a'.seen = k :: a.seen ∧
          ((Dict.get? C.by_id k = none ∧ C.allowNew = true ∧ a'.out = a.out ++ [(admission it).1]) ∨
            (Dict.get? C.by_id k = none ∧ C.allowNew = false ∧ a'.out = a.out) ∨
            ∃ o old rec, Dict.get? C.by_id k = some (o, old) ∧ rec = (C.recoverable.any fun s => k = .str s) ∧
              a'.out = a.out ++ [(transition old it C.actor C.rejectionsMax rec).1])) := by
  obtain ⟨it, hit, h⟩ := bind_ok h
  refine ⟨it, hit, ?_⟩
  by_cases hid : it.id = .none
  · rw [if_pos hid] at h
    exact Or.inl ⟨hid, (Except.ok.inj h).symm⟩
  · rw [if_neg hid] at h
    obtain ⟨k, hk, h⟩ := bind_ok h
    refine Or.inr ⟨k, Value.key_ok.1 hk, hid, ?_⟩
    cases hget : Dict.get? C.by_id k with
    | none =>
      cases hnew : C.allowNew <;> simp only [hget, hnew, Bool.false_eq_true, if_true, if_false] at h <;> cases h <;>
        simp
    | some p =>
      obtain ⟨o, old⟩ := p
      simp only [hget] at h
      cases h
      exact ⟨rfl, Or.inr (Or.inr ⟨o, old, _, rfl, rfl, rfl⟩)⟩

/-- where an accepted item comes from: the item kept under its key moved, or it is new -/
def Origin (C : Ctx) (ks : List Key) (x : Item) : Prop :=
  ∃ k, x.id.key? = some k ∧
    ((∃ o old, Dict.get? C.by_id k = some (o, old) ∧
        Move C.actor C.rejectionsMax (C.recoverable.any fun s => k = .str s) old x) ∨
      (Dict.get? C.by_id k = none ∧ C.allowNew = true ∧ k ∈ ks ∧ x.id ≠ .none ∧
        (x.state = .opened ∨ x.state = .claimed)))

/-- the keys of a `by_id` are those of the items under them -/
def KeysOk (d : List (Key × (Value × Item))) : Prop := ∀ k o old, Dict.get? d k = some (o, old) → old.id.key? = some k

/-- what a stretch of the loop does, `ks` being the keys of the entries it went through -/
structure Grown (C : Ctx) (ks : List Key) (a a' : Acc) : Prop where
  out : ∀ x ∈ a.out, x ∈ a'.out
  origin : ∀ x ∈ a'.out, x ∈ a.out ∨ Origin C ks x
  seen : ∀ k, k ∈ a'.seen ↔ k ∈ a.seen ∨ k ∈ ks
  listed : ∀ k ∈ ks, (C.allowNew = true ∨ (Dict.get? C.by_id k).isSome) → ∃ x ∈ a'.out, x.id.key? = some k

theorem Origin.mono {C : Ctx} {ks ls : List Key} {x : Item} (hsub : ∀ k ∈ ks, k ∈ ls) (h : Origin C ks x) :
    Origin C ls x := by
  obtain ⟨k, hk, h | ⟨h1, h2, h3, h4⟩⟩ := h
  · exact ⟨k, hk, Or.inl h⟩
  · exact ⟨k, hk, Or.inr ⟨h1, h2, hsub k h3, h4⟩⟩

theorem Grown.trans {C : Ctx} {ks ls : List Key} {a b c : Acc} (h1 : Grown C ks a b) (h2 : Grown C ls b c) :
    Grown C (ks ++ ls) a c where
  out := fun x hx => h2.out x (h1.out x hx)
  origin := by
    intro x hx
    rcases h2.origin x hx with hx | hx
    · rcases h1.origin x hx with hx | hx
      · exact Or.inl hx
      · exact Or.inr (hx.mono fun k hk => List.mem_append_left _ hk)
    · exact Or.inr (hx.mono fun k hk => List.mem_append_right _ hk)
  seen := by
    intro k
    rw [h2.seen, h1.seen, List.mem_append, or_assoc]
  listed := by
    intro k hk hnew
    rcases List.mem_append.1 hk with hk | hk
    · obtain ⟨x, hx, hxk⟩ := h1.listed k hk hnew
      exact ⟨x, h2.out x hx, hxk⟩
    · exact h2.listed k hk hnew

/-- the id of a normalised entry -/
theorem norm_id {raw : Value} {it : Proposed} (h : norm raw = .ok it) : raw.get "id" = .ok it.id := by
  obtain ⟨v, hv, h⟩ := bind_ok h
  obtain ⟨_, -, h⟩ := bind_ok h
  obtain ⟨_, -, h⟩ := bind_ok h
  obtain ⟨_, -, h⟩ := bind_ok h
  obtain ⟨_, -, h⟩ := bind_ok h
  obtain ⟨_, -, h⟩ := bind_ok h
  obtain ⟨_, -, h⟩ := bind_ok h
  obtain ⟨_, -, h⟩ := bind_ok h
  cases h
  exact hv

theorem rawKey_norm {raw : Value} {it : Proposed} (h : norm raw = .ok it) :
    rawKey raw = if it.id = .none then none else it.id.key? := by
  unfold rawKey
  rw [norm_id h]
  split <;> simp_all

theorem reconcileItem_grown {C : Ctx} (hC : KeysOk C.by_id) {a a' : Acc} {raw : Value}
    (h : reconcileItem C a raw = .ok a') : Grown C (rawKey raw).toList a a' := by
  obtain ⟨it, hit, hcase⟩ := reconcileItem_cases h
  have hraw := rawKey_norm hit
  rcases hcase with ⟨hid, rfl⟩ | ⟨k, hk, hid, hseen, hout⟩
  · rw [hraw, if_pos hid]
    exact ⟨fun _ hx => hx, fun _ hx => Or.inl hx, by simp, by simp⟩
  · rw [hraw, if_neg hid, hk]
    have seen : ∀ l, l ∈ a'.seen ↔ l ∈ a.seen ∨ l ∈ [k] := by
      intro l; rw [hseen]; simp [or_comm]
    rcases hout with ⟨hnone, hnew, hout⟩ | ⟨hnone, hnew, hout⟩ | ⟨o, old, rec, hsome, hrec, hout⟩
    · obtain ⟨hxid, hxst⟩ := admission_state it
      have hxk : (admission it).1.id.key? = some k := by rw [hxid, hk]
      refine ⟨by simp [hout]; tauto, ?_, seen, ?_⟩
      · intro x hx
        rw [hout] at hx
        rcases List.mem_append.1 hx with hx | hx
        · exact Or.inl hx
        · rw [List.mem_singleton] at hx
          subst hx
          exact Or.inr ⟨k, hxk, Or.inr ⟨hnone, hnew, by simp, by rwa [hxid], hxst⟩⟩
      · intro l hl _
        rw [Option.toList_some, List.mem_singleton] at hl
        subst hl
        exact ⟨_, by simp [hout], hxk⟩
    · refine ⟨by simp [hout], by simp [hout]; tauto, seen, ?_⟩
      intro l hl hadm
      rw [Option.toList_some, List.mem_singleton] at hl
      subst hl
      simp [hnone, hnew] at hadm
    · have hmove := transition_move old it C.actor C.rejectionsMax rec
      have hxk : (transition old it C.actor C.rejectionsMax rec).1.id.key? = some k := by
        rw [hmove.id_eq]; exact hC k o old hsome
      subst hrec
      refine ⟨by simp [hout]; tauto, ?_, seen, ?_⟩
      · intro x hx
        rw [hout] at hx
        rcases List.mem_append.1 hx with hx | hx
        · exact Or.inl hx
        · rw [List.mem_singleton] at hx
          subst hx
          exact Or.inr ⟨k, hxk, Or.inl ⟨o, old, hsome, hmove⟩⟩
      · intro l hl _
        rw [Option.toList_some, List.mem_singleton] at hl
        subst hl
        exact ⟨_, by simp [hout], hxk⟩

theorem reconcileLoop_grown {C : Ctx} (hC : KeysOk C.by_id) {a a' : Acc} {raws : List Value}
    (h : reconcileLoop C a raws = .ok a') : Grown C (raws.filterMap rawKey) a a' := by
  induction raws generalizing a with
  | nil =>
    cases h
    exact ⟨fun _ hx => hx, fun _ hx => Or.inl hx, by simp, by simp⟩
  | cons raw raws ih =>
    obtain ⟨b, hb, h⟩ := bind_ok h
    have hstep := (reconcileItem_grown hC hb).trans (ih h)
    cases hraw : rawKey raw <;> simpa [List.filterMap_cons, hraw] using hstep

/-- the checklist has an item with this key -/
def HasKey (items : List Item) (k : Key) : Prop := ∃ x ∈ items, x.id.key? = some k

theorem byId_spec {prev : List Item} {d : List (Key × (Value × Item))} (h : byId prev = .ok d) :
    Dict.Ok d ∧ (∀ k o old, Dict.get? d k = some (o, old) →
        ∃ it ∈ prev, it.id.truthy = true ∧ it.id.key? = some k ∧ old = it.norm) ∧
      ∀ k, (Dict.get? d k).isSome ↔ ∃ it ∈ prev, it.id.truthy = true ∧ it.id.key? = some k := by
  obtain ⟨rows, hrows, h⟩ := bind_ok h
  cases h
  -- the rows are the items with a true id, each beside its key
  have hrow : List.Forall₂ (fun (it : Item) (r : Key × Item) => it.id.key? = some r.1 ∧ r.2 = it)
      (prev.filter fun it => it.id.truthy) rows := by
    refine (mapM_ok hrows).imp fun it r hr => ?_
    obtain ⟨k, hk, hr⟩ := bind_ok hr
    cases hr
    exact ⟨Value.key_ok.1 hk, rfl⟩
  have hmem : ∀ r ∈ rows, r.2 ∈ prev ∧ r.2.id.truthy = true ∧ r.2.id.key? = some r.1 := by
    intro r hr
    obtain ⟨i, hi, rfl⟩ := List.getElem_of_mem hr
    have hi' : i < (prev.filter fun it => it.id.truthy).length := by rw [hrow.length_eq]; exact hi
    obtain ⟨hk, heq⟩ := hrow.get hi' hi
    simp only [List.get_eq_getElem] at hk heq
    have hin := List.mem_filter.1 (List.getElem_mem hi')
    rw [heq]
    exact ⟨hin.1, hin.2, hk⟩
  have hmem' : ∀ it ∈ prev, it.id.truthy = true → ∃ r ∈ rows, r.2 = it ∧ it.id.key? = some r.1 := by
    intro it hit htrue
    have hin : it ∈ prev.filter fun it => it.id.truthy := List.mem_filter.2 ⟨hit, htrue⟩
    obtain ⟨i, hi, hit'⟩ := List.getElem_of_mem hin
    have hi' : i < rows.length := by rw [← hrow.length_eq]; exact hi
    obtain ⟨hk, heq⟩ := hrow.get hi hi'
    simp only [List.get_eq_getElem, hit'] at hk heq
    exact ⟨rows[i], List.getElem_mem hi', heq, hk⟩
  refine ⟨Dict.ok_build _ _ _, ?_, ?_⟩
  · intro k o old hget
    obtain ⟨r, hr, hk, p, hp⟩ := Dict.get?_build hget
    obtain ⟨h1, h2, h3⟩ := hmem r hr
    exact ⟨r.2, h1, h2, by rw [h3, hk], (Prod.mk.inj hp).2⟩
  · intro k
    rw [Dict.get?_build_isSome]
    constructor
    · rintro ⟨r, hr, hk⟩
      obtain ⟨h1, h2, h3⟩ := hmem r hr
      exact ⟨r.2, h1, h2, by rw [h3, hk]⟩
    · rintro ⟨it, hit, htrue, hk⟩
      obtain ⟨r, hr, rfl, hrk⟩ := hmem' it hit htrue
      exact ⟨r, hr, Option.some.inj (hrk.symm.trans hk)⟩

theorem kept_mem {prev : List Item} {k : Key} {old : Item} (h : kept prev k = some old) :
    ∃ it ∈ prev, it.id.truthy = true ∧ it.id.key? = some k ∧ old = it.norm := by
  unfold kept at h
  split at h
  · rename_i d hd
    cases hg : Dict.get? d k with
    | none => rw [hg] at h; cases h
    | some p => rw [hg] at h; cases h; exact (byId_spec hd).2.1 k p.1 p.2 hg
  · cases h

/-- **Where accepted items come from.** -/
theorem reconcile_origin {prev out : List Item} {proposed : Value} {actor : String} {rm : ℤ} {allowNew : Bool}
    {items : List String} {vs : List Violation} (h : reconcile prev proposed actor rm allowNew items = .ok (out, vs)) :
    ∀ x ∈ out, ∃ k, x.id.key? = some k ∧
      ((∃ old, kept prev k = some old ∧ Move actor rm (items.any fun s => k = .str s) old x) ∨
        (kept prev k = none ∧ allowNew = true ∧ k ∈ proposedKeys proposed ∧ x.id ≠ .none ∧
          (x.state = .opened ∨ x.state = .claimed))) := by
  obtain ⟨d, hd, h⟩ := bind_ok h
  obtain ⟨raws, hraws, h⟩ := bind_ok h
  obtain ⟨a, ha, h⟩ := bind_ok h
  cases h
  obtain ⟨hok, hkeys, -⟩ := byId_spec hd
  have hC : KeysOk d := by
    intro k o old hget
    obtain ⟨it, -, -, hk, rfl⟩ := hkeys k o old hget
    exact hk
  have hgrown := reconcileLoop_grown (C := ⟨d, actor, rm, allowNew, items⟩) hC ha
  have hkept : ∀ k, kept prev k = (Dict.get? d k).map fun p => p.2 := by intro k; simp [kept, hd]
  have hlist : proposedKeys proposed = raws.filterMap rawKey := by simp [proposedKeys, hraws]
  intro x hx
  rcases List.mem_append.1 hx with hx | hx
  · rcases hgrown.origin x hx with hx | ⟨k, hk, ⟨o, old, hget, hmove⟩ | ⟨h1, h2, h3, h4⟩⟩
    · cases hx
    · exact ⟨k, hk, Or.inl ⟨old, by simp [hkept, hget], hmove⟩⟩
    · exact ⟨k, hk, Or.inr ⟨by simp [hkept, h1], h2, by rwa [hlist], h4⟩⟩
  · obtain ⟨⟨k, o, old⟩, hp, rfl⟩ := List.mem_map.1 hx
    have hget := (Dict.mem_iff hok).1 (List.mem_filter.1 hp).1
    exact ⟨k, hC k o old hget, Or.inl ⟨old, by simp [hkept, hget], .refl _ _ _ _⟩⟩

/-- **Which ids are accepted**: those the previous checklist keeps under a key, and, while the scope is open, those
the proposal lists. -/
theorem reconcile_keys {prev out : List Item} {proposed : Value} {actor : String} {rm : ℤ} {allowNew : Bool}
    {items : List String} {vs : List Violation} (h : reconcile prev proposed actor rm allowNew items = .ok (out, vs))
    (k : Key) : HasKey out k ↔
      (∃ it ∈ prev, it.id.truthy = true ∧ it.id.key? = some k) ∨ (allowNew = true ∧ k ∈ proposedKeys proposed) := by
  have horigin := reconcile_origin h
  obtain ⟨d, hd, h⟩ := bind_ok h
  obtain ⟨raws, hraws, h⟩ := bind_ok h
  obtain ⟨a, ha, h⟩ := bind_ok h
  cases h
  obtain ⟨hok, hkeys, hsome⟩ := byId_spec hd
  have hC : KeysOk d := by
    intro k o old hget
    obtain ⟨it, -, -, hk, rfl⟩ := hkeys k o old hget
    exact hk
  have hgrown := reconcileLoop_grown (C := ⟨d, actor, rm, allowNew, items⟩) hC ha
  have hlist : proposedKeys proposed = raws.filterMap rawKey := by simp [proposedKeys, hraws]
  constructor
  · rintro ⟨x, hx, hxk⟩
    obtain ⟨l, hl, ⟨old, hold, -⟩ | ⟨-, hnew, hin, -⟩⟩ := horigin x hx
    · obtain rfl : l = k := Option.some.inj (hl.symm.trans hxk)
      obtain ⟨it, hit, htrue, hk, -⟩ := kept_mem hold
      exact Or.inl ⟨it, hit, htrue, hk⟩
    · obtain rfl : l = k := Option.some.inj (hl.symm.trans hxk)
      exact Or.inr ⟨hnew, hin⟩
  · intro hcase
    by_cases hseen : k ∈ a.seen
    · -- listed by the proposal: moved, or admitted
      have hk : k ∈ raws.filterMap rawKey := by simpa using (hgrown.seen k).1 hseen
      obtain ⟨x, hx, hxk⟩ := hgrown.listed k hk (hcase.elim (fun h => Or.inr ((hsome k).2 h)) fun h => Or.inl h.1)
      exact ⟨x, List.mem_append_left _ hx, hxk⟩
    · -- not mentioned: restored
      rcases hcase with hprev | ⟨-, hin⟩
      · obtain ⟨⟨o, old⟩, hget⟩ := Option.isSome_iff_exists.1 ((hsome k).2 hprev)
        refine ⟨old, List.mem_append_right _ ?_, hC k o old hget⟩
        exact List.mem_map.2 ⟨(k, (o, old)), List.mem_filter.2 ⟨(Dict.mem_iff hok).2 hget, by simpa using hseen⟩, rfl⟩
      · exact absurd ((hgrown.seen k).2 (Or.inr (hlist ▸ hin))) hseen

end Rally.Envelope
