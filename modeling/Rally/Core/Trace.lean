/-
Runs of a labelled transition relation, with every step on record: the state before, the label and the state after.

- `Trace.append`, `Trace.split`: runs compose and come apart.
- `Trace.inv`: what holds at first and is kept by each step holds all along. `Trace.rel`: what relates the two ends of
  each step and is reflexive and transitive relates the ends of a run.
- `Reaches`: some run leads from one state to the other. `entries`: the steps of a program that is given its labels.
-/
import Mathlib.Tactic

/-- one step of a run -/
structure Entry (σ α : Type) where
  before : σ
  act : α
  after : σ

/-- the runs from `s₀`, the last step at the end -/
inductive Trace {σ α : Type} (step : σ → α → σ → Prop) (s₀ : σ) : List (Entry σ α) → σ → Prop where
  | nil : Trace step s₀ [] s₀
  | snoc {tr : List (Entry σ α)} {s t : σ} {a : α} (run : Trace step s₀ tr s) (next : step s a t) :
    Trace step s₀ (tr ++ [⟨s, a, t⟩]) t

/-- some run leads from `s` to `t` -/
def Reaches {σ α : Type} (step : σ → α → σ → Prop) (s t : σ) : Prop := ∃ tr : List (Entry σ α), Trace step s tr t

namespace Trace

variable {σ α : Type} {step : σ → α → σ → Prop} {s₀ s t : σ} {tr tr' : List (Entry σ α)}

theorem single {a : α} (h : step s a t) : Trace step s [⟨s, a, t⟩] t := .snoc .nil h

/-- an empty run ends where it starts -/
theorem nil_end (h : Trace step s₀ [] s) : s = s₀ := by
  generalize hl : ([] : List (Entry σ α)) = l at h
  cases h with
  | nil => rfl
  | snoc _ _ => exact absurd hl (by simp)

theorem append (h : Trace step s₀ tr s) (h' : Trace step s tr' t) : Trace step s₀ (tr ++ tr') t := by
  induction h' with
  | nil => simpa using h
  | snoc _ hnext ih => rw [← List.append_assoc]; exact .snoc ih hnext

theorem split (h : Trace step s₀ (tr ++ tr') t) : ∃ s, Trace step s₀ tr s ∧ Trace step s tr' t := by
  generalize hl : tr ++ tr' = l at h
  induction h generalizing tr' with
  | nil =>
    obtain ⟨rfl, rfl⟩ := List.append_eq_nil_iff.1 hl
    exact ⟨s₀, .nil, .nil⟩
  | snoc hrun hnext ih =>
    rcases List.eq_nil_or_concat' tr' with rfl | ⟨l', e, rfl⟩
    · rw [List.append_nil] at hl
      subst hl
      exact ⟨_, .snoc hrun hnext, .nil⟩
    · rw [← List.append_assoc] at hl
      obtain ⟨hfront, hlast⟩ := List.append_inj' hl rfl
      obtain ⟨s, h1, h2⟩ := ih hfront
      rw [hlast]
      exact ⟨s, h1, .snoc h2 hnext⟩

/-- the part of a run that led to a step -/
theorem before {e : Entry σ α} (h : Trace step s₀ (tr ++ e :: tr') t) : Trace step s₀ tr e.before := by
  obtain ⟨u, hu, -⟩ := (show Trace step s₀ ((tr ++ [e]) ++ tr') t by simpa using h).split
  generalize hl : tr ++ [e] = l at hu
  cases hu with
  | nil => exact absurd hl (by simp)
  | snoc hrun hnext =>
    obtain ⟨rfl, hlast⟩ := List.append_inj' hl rfl
    rw [List.singleton_inj.1 hlast]
    exact hrun

/-- a run ends where its last step does -/
theorem last {e : Entry σ α} (h : Trace step s₀ (tr ++ [e]) t) : t = e.after := by
  generalize hl : tr ++ [e] = l at h
  cases h with
  | nil => exact absurd hl (by simp)
  | snoc hrun hnext =>
    obtain ⟨-, hlast⟩ := List.append_inj' hl rfl
    rw [List.singleton_inj.1 hlast]

/-- the steps on record are steps -/
theorem entry (h : Trace step s₀ tr s) : ∀ e ∈ tr, step e.before e.act e.after := by
  induction h with
  | nil => intro e he; cases he
  | snoc _ hnext ih =>
    intro e he
    rcases List.mem_append.1 he with he | he
    · exact ih e he
    · rw [List.mem_singleton] at he
      subst he
      exact hnext

/-- an invariant holds at the end of a run and on both sides of every step -/
theorem inv {p : σ → Prop} (h : Trace step s₀ tr s) (h0 : p s₀) (hstep : ∀ s a t, p s → step s a t → p t) :
    p s ∧ ∀ e ∈ tr, p e.before ∧ p e.after := by
  induction h with
  | nil => exact ⟨h0, fun e he => nomatch he⟩
  | snoc _ hnext ih =>
    have hlast := hstep _ _ _ ih.1 hnext
    refine ⟨hlast, fun e he => ?_⟩
    rcases List.mem_append.1 he with he | he
    · exact ih.2 e he
    · rw [List.mem_singleton] at he
      subst he
      exact ⟨ih.1, hlast⟩

/-- a preorder that every step of a run respects relates its ends -/
theorem rel {r : σ → σ → Prop} (h : Trace step s₀ tr s) (hrefl : ∀ s, r s s) (htrans : ∀ s t u, r s t → r t u → r s u)
    (hstep : ∀ e ∈ tr, r e.before e.after) : r s₀ s := by
  induction h with
  | nil => exact hrefl _
  | snoc _ _ ih =>
    exact htrans _ _ _ (ih fun e he => hstep e (List.mem_append_left _ he))
      (hstep _ (List.mem_append_right _ List.mem_cons_self))

end Trace

/-- the steps through a list of labels -/
def entries {σ α : Type} (f : σ → α → σ) : σ → List α → List (Entry σ α)
  | _, [] => []
  | s, a :: l => ⟨s, a, f s a⟩ :: entries f (f s a) l

theorem entries_after {σ α : Type} {f : σ → α → σ} {s : σ} {l : List α} :
    ∀ e ∈ entries f s l, e.after = f e.before e.act := by
  induction l generalizing s with
  | nil => intro e he; cases he
  | cons a l ih =>
    intro e he
    rcases List.mem_cons.1 he with rfl | he
    · rfl
    · exact ih e he

/-- where each is a step, they make a run -/
theorem trace_entries {σ α : Type} (step : σ → α → σ → Prop) (f : σ → α → σ) (s : σ) (l : List α)
    (h : ∀ e ∈ entries f s l, step e.before e.act e.after) : ∃ t, Trace step s (entries f s l) t := by
  induction l generalizing s with
  | nil => exact ⟨s, .nil⟩
  | cons a l ih =>
    obtain ⟨t, ht⟩ := ih (f s a) fun e he => h e (List.mem_cons_of_mem _ he)
    exact ⟨t, (Trace.single (h _ List.mem_cons_self)).append ht⟩

namespace Reaches

variable {σ α : Type} {step : σ → α → σ → Prop} {s t u : σ}

theorem refl (s : σ) : Reaches step s s := ⟨[], .nil⟩

theorem one {a : α} (h : step s a t) : Reaches step s t := ⟨_, .single h⟩

theorem trans (h : Reaches step s t) (h' : Reaches step t u) : Reaches step s u :=
  ⟨_, h.choose_spec.append h'.choose_spec⟩

end Reaches
