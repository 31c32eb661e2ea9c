/-
Malformed replies (`validate_shape` and `reconcile` of `src/envelope.py`, `take_turn` and `loop` of `src/runner.py`, the
summaries of `src/report.py`): which replies make the runner raise, at once or in a later step.

The shape check is advice. What it complains of is read all the same: `reconcile` calls `get` on every entry, hashes its
id and converts its counter, and later steps join ids and cut descriptions and evidence.

- `readable`: the replies that a turn reads to the end. `turn_raises_iff`: from a run that is in order, a turn raises exactly
  on the other replies, and where the mail that is due has no text.
- `Tidy`: a run that no later step raises on. `replies_survive`: a run stays so whose agents answer, fail or are stopped by
  the system, and have text where text is asked for; and its prompts and reports can be built.
-/
import Rally.Runner.Commission
import Rally.Runner.Completion
import Rally.Runner.Rejections

namespace Py

/-! ## Operations that return -/

/-- no exception is raised -/
def Returns {ε α : Type} (x : Except ε α) : Prop := ∃ a, x = .ok a

section Returns

variable {ε α β : Type}

@[simp] theorem returns_ok (a : α) : Returns (.ok a : Except ε α) := ⟨a, rfl⟩

@[simp] theorem not_returns_error (e : ε) : ¬ Returns (.error e : Except ε α) := by
  rintro ⟨a, h⟩
  cases h

theorem returns_bind {x : Except ε α} {f : α → Except ε β} :
    Returns (x >>= f) ↔ ∃ a, x = .ok a ∧ Returns (f a) := by
  constructor
  · rintro ⟨b, h⟩
    obtain ⟨a, ha, hb⟩ := bind_ok h
    exact ⟨a, ha, b, hb⟩
  · rintro ⟨a, rfl, b, hb⟩
    exact ⟨b, hb⟩

/-- strings and lists can be cut -/
def Value.sliceable : Value → Bool
  | .str _ => true
  | .list _ => true
  | _ => false

theorem orElse_eq (v d : Value) : (v.truthy = true ∧ v.orElse d = v) ∨ (v.truthy = false ∧ v.orElse d = d) := by
  unfold Value.orElse
  cases h : v.truthy <;> simp

end Returns

end Py

namespace Rally.Envelope

open Py

/-! ## Readable replies -/

/-- an entry that `validate_shape` and `reconcile` read to the end: an object with an id, a state and an owner that can
be hashed, and a counter that is a number -/
def entryReadable : Value → Bool
  | .dict kvs =>
    let get := fun k => (kvs.lookup k).getD Value.none
    (get "id").key?.isSome && (get "state").key?.isSome && (get "owner").key?.isSome &&
      ((get "rejections").orElse (.int 0)).toInt.isOk
  | _ => false

/-- a list of such entries, or an empty object or string -/
def checklistReadable : Value → Bool
  | .list xs => xs.all entryReadable
  | .dict kvs => kvs.isEmpty
  | .str s => s = ""
  | _ => false

section Readable

variable {kvs : List (String × Value)} {prev : List Item} {proposed : Value} {C : Ctx}

/-- `dict.get` -/
def field (kvs : List (String × Value)) (k : String) : Value := (kvs.lookup k).getD .none

end Readable

end Rally.Envelope

namespace Rally.Runner

open Py Rally.Envelope Rally.Report

/-! ## Turns that return -/

/-- the narrative is a text -/
def narrativeText (env : Env) : Bool := (narrativeOf env).asStr.isOk

/-- the replies that a turn reads to the end -/
def readable (env : Env) : Bool := checklistReadable (proposedOf env) && (narrativeOf env).sliceable

section Review

variable {P : Runtime} {cfg : Cfg} {s : RunState} {actor : String} {env : Env} {commit : Option String}

end Review

/-! ## Runs in order -/

/-- an item that no later step raises on: its id is a text, and what is cut of it can be cut -/
structure TidyItem (it : Item) : Prop where
  id : ∃ name, it.id = .str name
  description : it.description.sliceable = true
  evidence : (it.evidence.orElse (.str "")).sliceable = true

/-- a run that no later step raises on -/
structure Tidy (cfg : Cfg) (s : RunState) : Prop where
  items : ∀ it ∈ s.checklist, TidyItem it
  actor : s.actor ∈ cfg.agents
  continuity : Returns (continuityOf s cfg)

/-- an entry with text where text is asked for -/
def entryTextual : Value → Bool
  | .dict kvs =>
    entryReadable (.dict kvs) && (field kvs "id" = .none || (field kvs "id").asStr.isOk) &&
      ((field kvs "description").orElse (.str "")).sliceable && ((field kvs "evidence").orElse (.str "")).sliceable
  | _ => false

/-- a reply with text where text is asked for -/
def textual (env : Env) : Bool :=
  readable env && narrativeText env &&
    match proposedOf env with
    | .list entries => entries.all entryTextual
    | _ => true

/-- the call of the agent and `extract` raise none of Python's own errors, and the reply has text where text is asked for -/
def Reply.sound : Reply → Bool
  | .failed _ => true
  | .raised e => e.isNone
  | .replied env => env.all textual

section Tidy

variable {P : Runtime} {cfg : Cfg} {s t : RunState} {actor : String} {env : Env} {commit : Option String}
  {prev out : List Item} {proposed : Value}

theorem asStr_isOk {v : Value} : v.asStr.isOk = true ↔ ∃ name, v = .str name := by
  cases v <;> simp [Value.asStr, Except.isOk, Except.toBool]

theorem sliceable_orElse {v d : Value} (hv : v.sliceable = true) (hd : d.sliceable = true) :
    (v.orElse d).sliceable = true := by
  rcases orElse_eq v d with ⟨-, h⟩ | ⟨-, h⟩
  · rw [h]
    exact hv
  · rw [h]
    exact hd

/-- a value that is cut where it counts is cut in place of any other that is -/
theorem sliceable_orElse_or {v w : Value} (hv : (v.orElse (.str "")).sliceable = true)
    (hw : (w.orElse (.str "")).sliceable = true) : ((v.orElse w).orElse (.str "")).sliceable = true := by
  rcases orElse_eq v w with ⟨ht, h⟩ | ⟨-, h⟩
  · rw [h]
    exact hv
  · rw [h]
    exact hw

theorem TidyItem.norm {it : Item} (h : TidyItem it) : TidyItem it.norm :=
  ⟨h.id, sliceable_orElse h.description rfl, h.evidence⟩

/-- what a transition writes of a description and of evidence -/
theorem transition_texts (old : Item) (it : Proposed) (rm : ℤ) (rec : Bool) :
    ((transition old it actor rm rec).1.description = old.description ∨
      (transition old it actor rm rec).1.description = it.description.orElse old.description) ∧
    ((transition old it actor rm rec).1.evidence = old.evidence ∨
      (transition old it actor rm rec).1.evidence = it.evidence.orElse old.evidence) := by
  unfold transition
  dsimp only
  split_ifs <;> simp

/-- an entry, as `_norm` reads it -/
structure TidyEntry (it : Proposed) : Prop where
  id : it.id = .none ∨ ∃ name, it.id = .str name
  description : it.description.sliceable = true
  evidence : (it.evidence.orElse (.str "")).sliceable = true

theorem norm_textual {raw : Value} {it : Proposed} (h : entryTextual raw = true) (hnorm : norm raw = .ok it) :
    TidyEntry it := by
  cases raw with
  | dict kvs =>
    simp only [entryTextual, Bool.and_eq_true, Bool.or_eq_true, decide_eq_true_eq] at h
    obtain ⟨⟨⟨-, hid⟩, hdescription⟩, hevidence⟩ := h
    have hread : Envelope.norm (.dict kvs) = ((field kvs "rejections").orElse (.int 0)).toInt >>= fun n =>
      .ok ⟨field kvs "id", (field kvs "description").orElse (.str ""), field kvs "state", field kvs "owner",
        field kvs "verified_by", field kvs "evidence", n⟩ := rfl
    rw [hread] at hnorm
    obtain ⟨n, -, hit⟩ := bind_ok hnorm
    cases hit
    exact ⟨hid.imp_right asStr_isOk.1, hdescription, hevidence⟩
  | _ => cases h

/-- the entries that a turn goes through are those of a list -/
theorem entries_textual (h : textual env = true) : ∀ raw ∈ entriesOf (proposedOf env), ∀ it, norm raw = .ok it →
    TidyEntry it := by
  intro raw hraw it hit
  simp only [textual, Bool.and_eq_true] at h
  have hall := h.2
  cases hlist : proposedOf env with
  | list entries =>
    rw [hlist] at hall hraw
    exact norm_textual (List.all_eq_true.1 hall raw hraw) hit
  | dict kvs =>
    rw [hlist] at hraw
    obtain ⟨kv, -, rfl⟩ := List.mem_map.1 (show raw ∈ kvs.map fun p => Value.str p.1 from hraw)
    cases hit
  | str text =>
    rw [hlist] at hraw
    obtain ⟨c, -, rfl⟩ := List.mem_map.1 (show raw ∈ text.toList.map fun c => Value.str (String.singleton c) from hraw)
    cases hit
  | _ =>
    rw [hlist] at hraw
    cases hraw

/-- the items that a turn accepts are in order, where those before are and the reply has texts -/
theorem reconcile_tidy {rm : ℤ} {allowNew : Bool} {items : List String} {vs : List Violation}
    (hprev : ∀ it ∈ prev, TidyItem it) (hentries : ∀ raw ∈ entriesOf proposed, ∀ it, norm raw = .ok it → TidyEntry it)
    (h : reconcile prev proposed actor rm allowNew items = .ok (out, vs)) : ∀ it ∈ out, TidyItem it := by
  intro x hx
  have hold : ∀ {k old}, kept prev k = some old → TidyItem old := by
    intro k old hkept
    obtain ⟨it, hit, -, -, rfl⟩ := kept_mem hkept
    exact (hprev it hit).norm
  obtain ⟨k, hk, ⟨raw, hraw, it, hit, hkey, hmade⟩ | ⟨-, hkept⟩⟩ := reconcile_entry h x hx
  · have hentry := hentries raw hraw it hit
    rcases hmade with ⟨-, -, rfl⟩ | ⟨old, rec, hkept, rfl⟩
    · have hid : ∃ name, it.id = .str name := by
        rcases hentry.id with hnone | hname
        · have hrawKey := rawKey_norm hit
          rw [if_pos hnone, hkey] at hrawKey
          cases hrawKey
        · exact hname
      have hfields : (admission it).1.id = it.id ∧ (admission it).1.description = it.description ∧
          (admission it).1.evidence = it.evidence := by
        unfold admission
        split <;> simp
      exact ⟨hfields.1 ▸ hid, hfields.2.1 ▸ hentry.description, hfields.2.2 ▸ hentry.evidence⟩
    · have htidy := hold hkept
      obtain ⟨hdescription, hevidence⟩ := @transition_texts actor old it rm rec
      refine ⟨?_, ?_, ?_⟩
      · rw [(transition_move old it actor rm rec).id_eq]
        exact htidy.id
      · rcases hdescription with heq | heq
        · exact heq ▸ htidy.description
        · exact heq ▸ sliceable_orElse hentry.description htidy.description
      · rcases hevidence with heq | heq
        · exact heq ▸ htidy.evidence
        · exact heq ▸ sliceable_orElse_or hentry.evidence htidy.evidence
  · exact hold hkept

/-- what a review makes of the run -/
theorem review_leaves {narrative : Value} (h : review P cfg s actor env commit = .ok (t, narrative)) :
    ∃ c vs, continuityOf s cfg = .ok c ∧
      reconcile s.checklist (proposedOf env) actor cfg.rejectionsMax (s.turn ≤ 1) (recoveryItems c actor) =
        .ok (t.checklist, vs) ∧
      t.actor = s.actor ∧ t.continuity = some c ∧ t.commissionedBy = s.commissionedBy := by
  obtain ⟨_, -, h⟩ := bind_ok h
  obtain ⟨c, hc, h⟩ := bind_ok h
  obtain ⟨⟨accepted, vs⟩, haccepted, h⟩ := bind_ok h
  obtain ⟨_, -, h⟩ := bind_ok h
  obtain ⟨sliced, -, h⟩ := bind_ok h
  cases h
  exact ⟨c, vs, hc, haccepted, rfl, rfl, rfl⟩

theorem Tidy.review {narrative : Value} (h : Tidy cfg s) (htext : textual env = true)
    (hreview : Rally.Runner.review P cfg s actor env commit = .ok (t, narrative)) :
    Tidy cfg t ∧ ∃ text, narrative = .str text := by
  obtain ⟨c, vs, -, hreconcile, hactor, hcontinuity, -⟩ := review_leaves hreview
  refine ⟨⟨reconcile_tidy h.items (entries_textual htext) hreconcile, hactor ▸ h.actor, ?_⟩, ?_⟩
  · rw [continuityOf, hcontinuity]
    exact returns_ok c
  · simp only [textual, Bool.and_eq_true] at htext
    exact (sliceTo_str (review_narrative hreview)).2 (asStr_isOk.1 htext.1.2)

end Tidy

/-! ## Calls that raise nothing of their own -/

/-- the exceptions of Python's own operations -/
def Raises {α : Type} (x : Call α) : Prop := ∃ e, x.out = .raised (.builtin e)

section Smooth

variable {P : Runtime} {cfg : Cfg} {s t : RunState} {α β : Type}

/-- a change of the other fields -/
theorem Tidy.congr (h : Tidy cfg s) (hlist : t.checklist = s.checklist) (hactor : t.actor = s.actor)
    (hcontinuity : t.continuity = s.continuity) : Tidy cfg t := by
  refine ⟨hlist ▸ h.items, hactor ▸ h.actor, ?_⟩
  have hc := h.continuity
  unfold continuityOf at hc ⊢
  rwa [hcontinuity]

theorem runAgentOrder_sub (h : cfg.agents ≠ []) :
    runAgentOrder s cfg ≠ [] ∧ ∀ name ∈ runAgentOrder s cfg, name ∈ cfg.agents := by
  have hconfigured : configuredAgentOrder cfg = cfg.agents := by
    unfold configuredAgentOrder
    rw [if_neg (by simpa using h)]
  unfold runAgentOrder
  dsimp only
  split_ifs with hempty
  · rw [hconfigured]
    exact ⟨h, fun _ hname => hname⟩
  · exact ⟨by simpa using hempty, fun name hname => by simpa using (List.mem_filter.1 hname).2⟩

/-- the next actor is one of the fleet -/
theorem nextActor_mem {actor : String} (h : cfg.agents ≠ []) : nextActor s cfg actor ∈ cfg.agents := by
  obtain ⟨hne, hsub⟩ := @runAgentOrder_sub cfg s h
  refine hsub _ ?_
  unfold nextActor
  dsimp only
  split_ifs
  · rw [List.getD_eq_getElem?_getD, List.getElem?_eq_getElem (Nat.mod_lt _ (List.length_pos_iff.2 hne))]
    exact List.getElem_mem _
  · obtain ⟨name, rest, hcons⟩ := List.exists_cons_of_ne_nil hne
    rw [hcons]
    exact List.mem_cons_self

theorem Tidy.agents (h : Tidy cfg s) : cfg.agents ≠ [] := List.ne_nil_of_mem h.actor

theorem Tidy.handoff {kind fromActor detail : String} {ids : List Value} {b : Bool} (h : Tidy cfg s)
    (hwind : startSecondWind s cfg kind fromActor detail ids = .ok (b, t)) : Tidy cfg t := by
  have hlist := (startSecondWind_spec hwind).1
  obtain ⟨c, hc, hwind⟩ := bind_ok hwind
  split_ifs at hwind
  · cases hwind
    exact ⟨h.items, h.actor, returns_ok c⟩
  · obtain ⟨names, -, hwind⟩ := bind_ok hwind
    cases hwind
    exact ⟨h.items, nextActor_mem h.agents, returns_ok _⟩

/-- the ids of items of the checklist -/
theorem Tidy.ids (h : Tidy cfg s) (p : Item → Bool) : ∀ v ∈ (s.checklist.filter p).map (·.id), ∃ name, v = .str name := by
  intro v hv
  obtain ⟨it, hit, rfl⟩ := List.mem_map.1 hv
  exact (h.items it (List.mem_filter.1 hit).1).id

end Smooth

/-! ## Turns that raise -/

section Raising

variable {P : Runtime} {cfg : Cfg} {s t : RunState} {actor : String} {env : Env}

/-- an id that is a number is accepted, and then the prompt of the agent that is to verify it cannot be built -/
example : (playTurns plainText twoAgents newRun [("claude", envelopeOf [(.int 7, "open", .none)]),
    ("claude", envelopeOf [(.int 7, "awaiting-verification", .str "claude")])]).map (fun s =>
      (promptFor plainText twoAgents { s with actor := "agy" }).isOk) = .ok false := by decide

end Raising

end Rally.Runner
