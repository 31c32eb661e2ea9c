/-
Procedures whose answers from outside are relied on: where a monitor accepts their events, what they return or raise, their
variables and the state of the monitor at the end are related. Nothing here is about one program.

- `Relies M t p s q`: from the variables `s` and the monitor's state `t`. One rule for each way to build a procedure; what is
  awaited may be taken to be fine.
-/
import Rally.Core.Monitor
import Rally.Core.Proc

namespace Proc

variable {ε ξ σ τ α β : Type} {M : Monitor ε τ} {s : σ} {t : τ}

/-- where the events of `p` are accepted from `t`, its end satisfies `q` -/
def Relies (M : Monitor ε τ) (t : τ) (p : Proc ε ξ σ α) (s : σ) (q : Except ξ α → σ → τ → Prop) : Prop :=
  M.Accepts t (p s).evs → q (p s).out (p s).mem (M.after t (p s).evs)

theorem Relies.mono {p : Proc ε ξ σ α} {q r : Except ξ α → σ → τ → Prop} (h : Relies M t p s q)
    (hq : ∀ o u v, q o u v → r o u v) : Relies M t p s r := fun haccepts => hq _ _ _ (h haccepts)

/-- the variables at the end are those of the run -/
theorem Relies.mem {p : Proc ε ξ σ α} {q : Except ξ α → σ → τ → Prop} (h : Relies M t p s q) :
    Relies M t p s fun o u v => q o u v ∧ u = (p s).mem := fun haccepts => ⟨h haccepts, rfl⟩

theorem relies_ret {q : Except ξ α → σ → τ → Prop} {a : α} (h : q (.ok a) s t) :
    Relies M t (ret a : Proc ε ξ σ α) s q := fun _ => h

theorem relies_raise {q : Except ξ α → σ → τ → Prop} {e : ξ} (h : q (.error e) s t) :
    Relies M t (raise e : Proc ε ξ σ α) s q := fun _ => h

theorem relies_set {q : Except ξ Unit → σ → τ → Prop} {f : σ → σ} (h : q (.ok ()) (f s) t) :
    Relies M t (set f : Proc ε ξ σ Unit) s q := fun _ => h

theorem relies_lift {q : Except ξ α → σ → τ → Prop} {x : Except ξ α} (h : q x s t) :
    Relies M t (lift x : Proc ε ξ σ α) s q := fun _ => h

theorem relies_refuse {q : Except ξ Unit → σ → τ → Prop} {p : Prop} [Decidable p] {e : ξ} (hyes : p → q (.error e) s t)
    (hno : ¬ p → q (.ok ()) s t) : Relies M t (refuse p e : Proc ε ξ σ Unit) s q := by
  unfold refuse
  split_ifs with h
  · exact relies_raise (hyes h)
  · exact relies_ret (hno h)

theorem relies_await {q : Except ξ α → σ → τ → Prop} {ev : Except ξ α → ε} {answer : Except ξ α}
    (h : M.fine t (ev answer) → q answer s (M.next t (ev answer))) :
    Relies M t (await ev answer : Proc ε ξ σ α) s q := fun haccepts => h ((M.accepts_cons _ _ _).1 haccepts).1

/-- the variables may be looked at -/
theorem relies_get {q : Except ξ β → σ → τ → Prop} {f : σ → Proc ε ξ σ β} (h : Relies M t (f s) s q) :
    Relies M t (get >>= f) s q := h

theorem relies_bind {q : Except ξ β → σ → τ → Prop} {r : Except ξ α → σ → τ → Prop} {x : Proc ε ξ σ α}
    {f : α → Proc ε ξ σ β} (hx : Relies M t x s r) (hf : ∀ a u v, r (.ok a) u v → Relies M v (f a) u q)
    (he : ∀ e u v, r (.error e) u v → q (.error e) u v) : Relies M t (x >>= f) s q := by
  change Relies M t (seq x f) s q
  intro haccepts
  cases h : x s with
  | mk evs mem out =>
    cases out with
    | ok a =>
      simp only [seq, h, Monitor.accepts_append, Monitor.after_append] at haccepts ⊢
      have hends := hx (by rw [h]; exact haccepts.1)
      rw [h] at hends
      exact hf a mem _ hends haccepts.2
    | error e =>
      simp only [seq, h] at haccepts ⊢
      have hends := hx (by rw [h]; exact haccepts)
      rw [h] at hends
      exact he e mem _ hends

theorem relies_attempt {q r : Except ξ α → σ → τ → Prop} {x : Proc ε ξ σ α} {h : ξ → Proc ε ξ σ α}
    (hx : Relies M t x s r) (ha : ∀ a u v, r (.ok a) u v → q (.ok a) u v)
    (hh : ∀ e u v, r (.error e) u v → Relies M v (h e) u q) : Relies M t (attempt x h) s q := by
  intro haccepts
  cases hrun : x s with
  | mk evs mem out =>
    cases out with
    | ok a =>
      simp only [attempt, hrun] at haccepts ⊢
      have hends := hx (by rw [hrun]; exact haccepts)
      rw [hrun] at hends
      exact ha a mem _ hends
    | error e =>
      simp only [attempt, hrun, Monitor.accepts_append, Monitor.after_append] at haccepts ⊢
      have hends := hx (by rw [hrun]; exact haccepts.1)
      rw [hrun] at hends
      exact hh e mem _ hends haccepts.2

/-- a cleanup runs in any case -/
theorem relies_cleanup {r : σ → τ → Prop} {q : Except ξ α → σ → τ → Prop} {x : Proc ε ξ σ α} {y : Proc ε ξ σ Unit}
    (hx : Relies M t x s fun _ u v => r u v)
    (hy : ∀ u v, r u v → Relies M v y u fun _ u' v' => ∀ o, q o u' v') : Relies M t (cleanup x y) s q := by
  intro haccepts
  simp only [cleanup, Monitor.accepts_append, Monitor.after_append] at haccepts ⊢
  exact hy _ _ (hx haccepts.1) haccepts.2 _

end Proc
