/-
Dictionaries in which each step of a run writes one key at most.

- `write`: the dictionary after a step that gives a key a value, or takes it away.
- `LastWrite w k r tr`: some step of the run `tr` gives `r` to `k`, and none after it writes to `k`.
- `get?_run`: from a dictionary without `k`, a run leads to one with `r` under `k` if and only if that was its last write.
-/
import Rally.Core.Dict
import Rally.Core.Trace

namespace Dict

variable {κ ρ σ α : Type}

/-! ## Writes on record -/

/-- no step writes to `k` -/
def Untouched (w : σ → α → Option (κ × Option ρ)) (k : κ) (tr : List (Entry σ α)) : Prop :=
  ∀ e ∈ tr, ∀ v, w e.before e.act ≠ some (k, v)

/-- some step gives `r` to `k`, and no later one writes to `k` -/
def LastWrite (w : σ → α → Option (κ × Option ρ)) (k : κ) (r : ρ) (tr : List (Entry σ α)) : Prop :=
  ∃ pre e post, tr = pre ++ e :: post ∧ w e.before e.act = some (k, some r) ∧ Untouched w k post

section Runs

variable {w : σ → α → Option (κ × Option ρ)} {k : κ} {r : ρ} {tr : List (Entry σ α)}

theorem not_lastWrite_nil : ¬ LastWrite w k r [] := by
  rintro ⟨pre, e, post, h, -⟩
  exact absurd h.symm (by simp)

/-- the last write of a run with one more step -/
theorem lastWrite_snoc {e : Entry σ α} : LastWrite w k r (tr ++ [e]) ↔
    w e.before e.act = some (k, some r) ∨ LastWrite w k r tr ∧ ∀ v, w e.before e.act ≠ some (k, v) := by
  constructor
  · rintro ⟨pre, e', post, h, hwrites, hlast⟩
    rcases List.eq_nil_or_concat' post with rfl | ⟨post', x, rfl⟩
    · obtain ⟨-, he⟩ := List.append_inj' h rfl
      rw [List.singleton_inj.1 he]
      exact .inl hwrites
    · rw [← List.cons_append, ← List.append_assoc] at h
      obtain ⟨htr, he⟩ := List.append_inj' h rfl
      rw [List.singleton_inj.1 he]
      refine .inr ⟨⟨pre, e', post', htr, hwrites, fun y hy => hlast y (List.mem_append_left _ hy)⟩, ?_⟩
      exact hlast x (List.mem_append_right _ (List.mem_singleton.2 rfl))
  · rintro (h | ⟨⟨pre, e', post, rfl, hwrites, hlast⟩, hother⟩)
    · exact ⟨tr, e, [], rfl, h, fun e' he' => absurd he' List.not_mem_nil⟩
    · refine ⟨pre, e', post ++ [e], by simp, hwrites, ?_⟩
      intro x hx
      rcases List.mem_append.1 hx with hx | hx
      · exact hlast x hx
      · rw [List.mem_singleton.1 hx]
        exact hother

/-- a write that is undone comes again later -/
theorem LastWrite.after {pre post : List (Entry σ α)} {e : Entry σ α} {v : Option ρ}
    (h : LastWrite w k r (pre ++ e :: post)) (he : w e.before e.act = some (k, v)) (hv : v ≠ some r) :
    ∃ x ∈ post, w x.before x.act = some (k, some r) := by
  obtain ⟨before, x, since, hsplit, hx, hsince⟩ := h
  have hne : e ≠ x := by
    rintro rfl
    exact hv (congrArg Prod.snd (Option.some.inj (he.symm.trans hx)))
  rcases List.append_eq_append_iff.1 hsplit with ⟨l, -, hrest⟩ | ⟨l, -, hrest⟩
  · cases l with
    | nil => exact absurd (List.cons.inj hrest).1 hne
    | cons y l => exact ⟨x, by rw [(List.cons.inj hrest).2]; simp, hx⟩
  · cases l with
    | nil => exact absurd (List.cons.inj hrest).1.symm hne
    | cons y l => exact absurd he (hsince e (by rw [(List.cons.inj hrest).2]; simp) v)

end Runs

/-! ## Written dictionaries -/

variable [DecidableEq κ]

/-- the dictionary after a write, if there is one -/
def write : Option (κ × Option ρ) → List (κ × ρ) → List (κ × ρ)
  | none, d => d
  | some (k, some r), d => upsert d k fun _ => r
  | some (k, none), d => erase d k

theorem get?_write_same (k : κ) (v : Option ρ) (d : List (κ × ρ)) : get? (write (some (k, v)) d) k = v := by
  cases v with
  | none => rw [write, get?_erase, if_pos rfl]
  | some r => rw [write, get?_upsert, if_pos rfl]

/-- what is under a key that is not written stays -/
theorem get?_write_other {w : Option (κ × Option ρ)} {k : κ} (h : ∀ v, w ≠ some (k, v)) (d : List (κ × ρ)) :
    get? (write w d) k = get? d k := by
  match w with
  | none => rfl
  | some (l, v) =>
    have hne : l ≠ k := by
      intro hl
      exact h v (by rw [hl])
    cases v with
    | none => rw [write, get?_erase, if_neg hne]
    | some r => rw [write, get?_upsert, if_neg hne]

section Runs

variable {w : σ → α → Option (κ × Option ρ)} {m : σ → List (κ × ρ)} {step : σ → α → σ → Prop} {s₀ s : σ} {k : κ} {r : ρ}
  {tr : List (Entry σ α)}

/-- **Last writes.** What a run leaves under a key that was not there is what it wrote there last. -/
theorem get?_run (hw : ∀ s a t, step s a t → m t = write (w s a) (m s)) (run : Trace step s₀ tr s)
    (h₀ : get? (m s₀) k = none) : get? (m s) k = some r ↔ LastWrite w k r tr := by
  induction run with
  | nil =>
    rw [h₀]
    constructor
    · intro h
      cases h
    · intro h
      exact absurd h not_lastWrite_nil
  | @snoc tr s t a _ hnext ih =>
    rw [lastWrite_snoc, hw s a t hnext]
    by_cases hother : ∀ v, w s a ≠ some (k, v)
    · rw [get?_write_other hother, ih]
      constructor
      · intro h
        exact .inr ⟨h, hother⟩
      · rintro (h | h)
        · exact absurd h (hother _)
        · exact h.1
    · obtain ⟨v, hv⟩ := not_forall.1 hother
      rw [not_not.1 hv, get?_write_same]
      constructor
      · intro h
        exact .inl (by rw [h])
      · rintro (h | h)
        · exact congrArg Prod.snd (Option.some.inj h)
        · exact absurd rfl (h.2 v)

end Runs

end Dict
