/-
Safety monitors: an automaton that reads a trace and says of each event whether it is fine where it stands.

- `Monitor.Accepts`: every event of a trace is fine, in the state the events before it lead to.
- `accepts_append`, `Accepts.take`: traces compose, and a part of an accepted trace is accepted.
- `Accepts.of_all`: a trace of events that are fine in a state they do not leave.
- `Guards`: what a procedure makes visible is accepted, and what it returns is in a relation to where the monitor ends.
  `guards_bind`, `guards_pre`, `guards_attempt` carry it through a procedure.
-/
import Rally.Core.Exec

structure Monitor (ε τ : Type) where
  next : τ → ε → τ
  fine : τ → ε → Prop

namespace Monitor

variable {ε τ : Type} (M : Monitor ε τ)

/-- the state after a trace -/
def after (t : τ) (l : List ε) : τ := l.foldl M.next t

/-- every event is fine where it stands -/
inductive Accepts : τ → List ε → Prop where
  | nil {t : τ} : Accepts t []
  | cons {t : τ} {e : ε} {l : List ε} (fine : M.fine t e) (rest : Accepts (M.next t e) l) : Accepts t (e :: l)

@[simp] theorem after_nil (t : τ) : M.after t [] = t := rfl
@[simp] theorem after_cons (t : τ) (e : ε) (l : List ε) : M.after t (e :: l) = M.after (M.next t e) l := rfl
@[simp] theorem accepts_nil (t : τ) : M.Accepts t [] := .nil
@[simp] theorem accepts_cons (t : τ) (e : ε) (l : List ε) :
    M.Accepts t (e :: l) ↔ M.fine t e ∧ M.Accepts (M.next t e) l :=
  ⟨fun h => by cases h with | cons hfine hrest => exact ⟨hfine, hrest⟩, fun h => .cons h.1 h.2⟩

theorem after_append (t : τ) (l m : List ε) : M.after t (l ++ m) = M.after (M.after t l) m := by
  simp [after, List.foldl_append]

theorem accepts_append (t : τ) (l m : List ε) :
    M.Accepts t (l ++ m) ↔ M.Accepts t l ∧ M.Accepts (M.after t l) m := by
  induction l generalizing t with
  | nil => simp
  | cons e l ih => simp [ih, and_assoc]

variable {M}

theorem Accepts.single {t : τ} {e : ε} (h : M.fine t e) : M.Accepts t [e] := .cons h .nil

theorem Accepts.take {t : τ} {l : List ε} (h : M.Accepts t l) (n : ℕ) : M.Accepts t (l.take n) := by
  rw [← List.take_append_drop n l, accepts_append] at h
  exact h.1

/-- events that are fine in a state they do not leave -/
theorem Accepts.of_all {t : τ} {l : List ε} (h : ∀ e ∈ l, M.fine t e ∧ M.next t e = t) :
    M.Accepts t l ∧ M.after t l = t := by
  induction l with
  | nil => exact ⟨.nil, rfl⟩
  | cons e l ih =>
    obtain ⟨hfine, hnext⟩ := h e List.mem_cons_self
    obtain ⟨hacc, hafter⟩ := ih fun e he => h e (List.mem_cons_of_mem _ he)
    rw [accepts_cons, after_cons, hnext]
    exact ⟨⟨hfine, hacc⟩, hafter⟩

/-- an event of an accepted trace is fine in the state before it -/
theorem Accepts.fine_at {t : τ} {l m : List ε} {e : ε} (h : M.Accepts t (l ++ e :: m)) : M.fine (M.after t l) e :=
  ((M.accepts_cons _ _ _).1 ((M.accepts_append t l (e :: m)).1 h).2).1

/-! ## Procedures under a monitor -/

section Guards

variable {ξ σ α β : Type} {t : τ}

/-- the events of `x` are accepted from `t`; a result, the memory and the state of the monitor then satisfy `q` -/
def Guards (M : Monitor ε τ) (t : τ) (x : Exec ε ξ σ α) (q : α → σ → τ → Prop) : Prop :=
  M.Accepts t x.evs ∧ ∀ a, x.out = .ret a → q a x.mem (M.after t x.evs)

theorem guards_done {s : σ} {a : α} {q : α → σ → τ → Prop} (h : q a s t) :
    M.Guards t (Exec.done s a : Exec ε ξ σ α) q :=
  ⟨.nil, fun _ hb => by cases hb; exact h⟩

theorem guards_raise {s : σ} {e : ξ} {q : α → σ → τ → Prop} : M.Guards t (Exec.raise s e : Exec ε ξ σ α) q :=
  ⟨.nil, fun _ hb => nomatch hb⟩

theorem guards_pre {l : List ε} {x : Exec ε ξ σ α} {q : α → σ → τ → Prop} (hl : M.Accepts t l)
    (hx : M.Guards (M.after t l) x q) : M.Guards t (x.pre l) q := by
  refine ⟨?_, fun a ha => ?_⟩
  · rw [Exec.pre_evs, accepts_append]
    exact ⟨hl, hx.1⟩
  · rw [Exec.pre_evs, after_append]
    exact hx.2 a ha

theorem guards_bind {x : Exec ε ξ σ α} {f : σ → α → Exec ε ξ σ β} {r : α → σ → τ → Prop} {q : β → σ → τ → Prop}
    (hx : M.Guards t x r) (hf : ∀ a s u, r a s u → M.Guards u (f s a) q) : M.Guards t (x.bind f) q := by
  unfold Exec.bind
  cases h : x.out with
  | ret a => exact guards_pre hx.1 (hf a _ _ (hx.2 a h))
  | raised e => exact ⟨hx.1, fun _ hb => nomatch hb⟩
  | running => exact ⟨hx.1, fun _ hb => nomatch hb⟩

theorem guards_attempt {η : Type} {s : σ} {wrap : η → ξ} {x : Except η β} {f : β → Exec ε ξ σ α}
    {q : α → σ → τ → Prop} (hf : ∀ b, x = .ok b → M.Guards t (f b) q) : M.Guards t (Exec.attempt s wrap x f) q := by
  cases x with
  | ok b => exact hf b rfl
  | error e => exact guards_raise

/-- a procedure whose events leave the monitor where it is -/
theorem guards_of_holds {x : Exec ε ξ σ α} {p : ε → Prop} {r : σ → Prop} (h : x.Holds p r)
    (hp : ∀ e, p e → M.fine t e ∧ M.next t e = t) : M.Guards t x fun _ s u => r s ∧ u = t := by
  obtain ⟨hacc, hafter⟩ := Accepts.of_all fun e he => hp e (h.1 e he)
  exact ⟨hacc, fun _ _ => ⟨h.2, hafter⟩⟩

end Guards

end Monitor
