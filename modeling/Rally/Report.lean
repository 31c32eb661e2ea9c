/-
How an outcome is reported (`src/report.py`, and `_status` of `src/console.py`): the halt string of a loop classified
by prefix, the mechanical summary that stands in for a report no agent wrote, and the status the console shows for a
saved halt.

- `classify_complete`: a halt string classifies as a completion exactly when it starts with `complete`;
  `classify_append` sends the strings a turn puts together to a halt.
- `mechanicalSummary_ne`: the summary is never empty, so a run with a recorded report has one.
-/
import Rally.Envelope

namespace Rally.Report

open Py Rally.Envelope

/-! ## Classification -/

inductive Status where
  | complete
  | halt
deriving DecidableEq, Repr

def Status.text : Status → String
  | .complete => "COMPLETE"
  | .halt => "HALT"

/-- `HALT_MEANING` -/
def haltMeaning : List (String × (Status × String)) :=
  [("complete", .complete, "Every checklist item was verified by the agent that did not do the work."),
   ("turn_budget", .halt, "The run hit its turn budget before finishing. This is not a completion."),
   ("no_progress", .halt, "Several turns passed with no item changing state, so the run was not converging."),
   ("disputed", .halt, "Independent agents disagreed three times on the same item and escalated to you."),
   ("blocked", .halt, "An item needs something only you can provide."),
   ("agent_error", .halt, "Both bounded model attempts failed before a safe continuation was accepted."),
   ("stopped_by_human", .halt, "You stopped this run.")]

def classify (halt : String) : Status × String :=
  match haltMeaning.find? fun p => startsWith halt p.1 with
  | some p => p.2
  | none => (.halt, halt)

/-- completion is named once in the table -/
theorem haltMeaning_complete : ∀ p ∈ haltMeaning, p.2.1 = .complete → p.1 = "complete" := by decide

/-- **Only completion classifies as completion**: a string does exactly when it starts with the word `complete`. -/
theorem classify_complete (halt : String) : (classify halt).1 = .complete ↔ startsWith halt "complete" = true := by
  constructor
  · intro h
    unfold classify at h
    split at h
    · rename_i p hp
      have hkey := haltMeaning_complete p (List.mem_of_find?_eq_some hp) h
      simpa [hkey] using List.find?_some hp
    · cases h
  · intro h
    simp [classify, haltMeaning, h]

/-- a text is told from a prefix by its first character -/
theorem startsWith_head {s p : String} (h : startsWith s p = true) (hp : p ≠ "") :
    s.toList.head? = p.toList.head? := by
  unfold startsWith at h
  have hne : p.toList ≠ [] := fun h => hp (by rwa [← String.toList_eq_nil_iff])
  obtain ⟨t, ht⟩ := List.isPrefixOf_iff_prefix.1 h
  obtain ⟨c, cs, hc⟩ := List.exists_cons_of_ne_nil hne
  rw [← ht, hc]
  rfl

/-- a text that starts with another word is no completion -/
theorem classify_append {w t : String} (hw : w.toList.head? ≠ some 'c') (hne : w ≠ "") :
    (classify (w ++ t)).1 = .halt := by
  have h : ¬ (classify (w ++ t)).1 = .complete := by
    intro hc
    have hhead := startsWith_head ((classify_complete _).1 hc) (by decide)
    have hwne : w.toList ≠ [] := fun h => hne (by rwa [← String.toList_eq_nil_iff])
    obtain ⟨c, cs, hcs⟩ := List.exists_cons_of_ne_nil hwne
    rw [String.toList_append, hcs] at hhead
    rw [hcs] at hw
    exact hw (by simpa using hhead)
  cases hs : (classify (w ++ t)).1 with
  | complete => exact absurd hs h
  | halt => rfl

/-! ## The console -/

inductive ConsoleStatus where
  | running
  | complete
  | blocked
  | halted
deriving DecidableEq, Repr

/-- `_status` of the console, for the reason in the saved halt (the empty string where there is none) -/
def status (reason : String) : ConsoleStatus :=
  let reason := lower reason
  if reason = "" then .running
  else if reason = "complete" then .complete
  else if startsWith reason "blocked" || startsWith reason "disputed" then .blocked
  else .halted

theorem status_complete (reason : String) : status reason = .complete ↔ lower reason = "complete" := by
  unfold status
  dsimp only
  split_ifs with h1 h2 h3
  · simp [h1]
  · simp [h2]
  · simp [h2]
  · simp [h2]

/-- an outcome that reads as anything but a completion, to the report and to the console -/
structure Incomplete (outcome : String) : Prop where
  nonempty : outcome ≠ ""
  ne : outcome ≠ "complete"
  report : (classify outcome).1 = .halt
  console : status outcome ≠ .complete

theorem incomplete_append {w t : String} {c d : Char} {cs : List Char} (hw : w.toList = c :: cs) (hc : c ≠ 'c')
    (hlow : (lower (String.singleton c)).toList = [d]) (hd : d ≠ 'c') : Incomplete (w ++ t) where
  nonempty := by
    intro h
    have hlist := congrArg String.toList h
    rw [String.toList_append, hw] at hlist
    cases hlist
  ne := by
    intro h
    have hlist := congrArg String.toList h
    rw [String.toList_append, hw] at hlist
    exact hc (List.cons.inj hlist).1
  report := classify_append (by rw [hw]; simpa using hc) (by rintro rfl; cases hw)
  console := by
    have hlower : (lower (w ++ t)).toList.head? = some d := by
      simp only [lower, String.toList_ofList, String.toList_append, String.toList_singleton, List.flatMap_cons,
        List.flatMap_nil, List.append_nil] at hlow ⊢
      simp [hw, hlow]
    intro h
    rw [(status_complete _).1 h] at hlower
    exact hd (Option.some.inj hlower).symm

/-- the words a halt of the runner reads -/
theorem incomplete_word {w : String}
    (h : w ∈ ["turn_budget", "no_progress", "agent_error", "stopped_by_human", "cloud_coordinator_error"]) :
    Incomplete w := by
  simp only [List.mem_cons, List.not_mem_nil, or_false] at h
  rcases h with rfl | rfl | rfl | rfl | rfl <;> exact ⟨by decide, by decide, by decide, by decide⟩

/-! ## The texts -/

/-- `mechanical_summary` -/
def mechanicalSummary (P : Runtime) (items : List Item) (task halt : String) : Except Err String := do
  let (st, meaning) := classify halt
  let done := items.filter fun i => i.state = .done
  let stuck := items.filter fun i => i.state = .blocked ∨ i.state = .disputed
  let opened := items.filter fun i => ¬ (i.state = .done ∨ i.state = .blocked ∨ i.state = .disputed)
  let lead := if st = .complete then "Completed" else "Action needed"
  let headline := s!"{lead} — {done.length} of {items.length} outcomes independently verified."
  let request := if task = "" then [] else ["", "Your request", takeChars task 600]
  let proofs ← done.mapM fun i => do
    let description ← i.description.sliceTo 90
    let evidence ← (i.evidence.orElse (.str "none recorded")).sliceTo 160
    let verifier := i.verifiedBy.orElse (.str "not recorded")
    .ok s!"- {i.id.toStr P} — {description.toStr P}\n  Verified by {verifier.toStr P}; evidence: {evidence.toStr P}"
  let proofs := if proofs.isEmpty then ["- No item reached independent verification."] else proofs
  let needs ← stuck.mapM fun i => do
    let description ← i.description.sliceTo 90
    let evidence ← (i.evidence.orElse (.str "")).sliceTo 200
    .ok s!"- {i.id.toStr P} — {description.toStr P} ({i.state.text})\n  {evidence.toStr P}"
  let rest ← opened.mapM fun i => do
    let description ← i.description.sliceTo 90
    .ok s!"- {i.id.toStr P} — {description.toStr P} ({i.state.text})"
  let next := if st = .complete then
      "No action is required. Reply in this thread if you want Rally to extend or revise the result."
    else
      "Reply in this thread with the missing decision, access, or material. Rally will resume this same run " ++
        "without treating your reply as approval of its own work."
  .ok ("\n".intercalate (headline :: "" :: "Outcome" :: meaning :: request ++ ["", "Independent proof"] ++ proofs
    ++ (if needs.isEmpty then [] else ["", "What Rally needs from you"] ++ needs)
    ++ (if rest.isEmpty then [] else ["", "Still open"] ++ rest) ++ ["", "Next step", next]))

/-- joined lines are not empty when there are two of them -/
theorem intercalate_ne {sep a b : String} {l : List String} (h : sep ≠ "") : sep.intercalate (a :: b :: l) ≠ "" := by
  rw [String.intercalate_cons_cons]
  intro hempty
  have hlist := congrArg String.toList hempty
  simp only [String.toList_append, String.toList_empty, List.append_eq_nil_iff] at hlist
  exact h (String.toList_eq_nil_iff.1 hlist.1.2)

theorem mechanicalSummary_ne {P : Runtime} {items : List Item} {task halt text : String}
    (h : mechanicalSummary P items task halt = .ok text) : text ≠ "" := by
  obtain ⟨_, -, h⟩ := bind_ok h
  obtain ⟨_, -, h⟩ := bind_ok h
  obtain ⟨_, -, h⟩ := bind_ok h
  cases h
  exact intercalate_ne (by decide)

/-- what the report prompt of an agent shows of an item -/
structure ReportRow where
  id : Value
  state : ItemState
  description : Value
  owner : Value
  verifiedBy : Value
  evidence : String
deriving DecidableEq, Repr

/-- the parts of the report prompt that vary -/
structure ReportPrompt where
  status : Status
  meaning : String
  task : String
  rows : List ReportRow
deriving DecidableEq, Repr

/-- `_latest_evidence` -/
def latestEvidence (P : Runtime) (v : Value) : String :=
  let text := strip ((v.orElse (.str "none")).toStr P)
  if text.length ≤ 600 then text
  else "[latest evidence tail] " ++ String.ofList (text.toList.drop (text.length - 600))

/-- `build_report_prompt` -/
def buildReportPrompt (P : Runtime) (items : List Item) (task halt : String) : Except Err ReportPrompt := do
  let rows ← items.mapM fun i => do
    let description ← i.description.sliceTo 100
    .ok (⟨i.id, i.state, description, i.owner, i.verifiedBy, latestEvidence P i.evidence⟩ : ReportRow)
  .ok ⟨(classify halt).1, (classify halt).2, task, rows⟩

end Rally.Report
