/-
Procedures under a monitor: the events of a procedure are accepted, and what it returns or raises, its variables and the
state of the monitor at the end are related. Nothing here is about one program.

- `Watches M t p s q`: from the variables `s` and the monitor's state `t`. One rule for each way to build a procedure.
-/
import Rally.Core.Monitor
import Rally.Core.Proc

namespace Proc

variable {ε ξ σ τ α β : Type} {M : Monitor ε τ} {s : σ} {t : τ}

/-- the events of `p` are accepted from `t`, and its end satisfies `q` -/
structure Watches (M : Monitor ε τ) (t : τ) (p : Proc ε ξ σ α) (s : σ) (q : Except ξ α → σ → τ → Prop) : Prop where
  accepts : M.Accepts t (p s).evs
  ends : q (p s).out (p s).mem (M.after t (p s).evs)

theorem Watches.mono {p : Proc ε ξ σ α} {q r : Except ξ α → σ → τ → Prop} (h : Watches M t p s q)
    (hq : ∀ o u v, q o u v → r o u v) : Watches M t p s r := ⟨h.accepts, hq _ _ _ h.ends⟩

theorem watches_ret {q : Except ξ α → σ → τ → Prop} {a : α} (h : q (.ok a) s t) :
    Watches M t (ret a : Proc ε ξ σ α) s q := ⟨.nil, h⟩

theorem watches_raise {q : Except ξ α → σ → τ → Prop} {e : ξ} (h : q (.error e) s t) :
    Watches M t (raise e : Proc ε ξ σ α) s q := ⟨.nil, h⟩

theorem watches_set {q : Except ξ Unit → σ → τ → Prop} {f : σ → σ} (h : q (.ok ()) (f s) t) :
    Watches M t (set f : Proc ε ξ σ Unit) s q := ⟨.nil, h⟩

theorem watches_lift {q : Except ξ α → σ → τ → Prop} {x : Except ξ α} (h : q x s t) :
    Watches M t (lift x : Proc ε ξ σ α) s q := ⟨.nil, h⟩

theorem watches_refuse {q : Except ξ Unit → σ → τ → Prop} {p : Prop} [Decidable p] {e : ξ} (hyes : p → q (.error e) s t)
    (hno : ¬ p → q (.ok ()) s t) : Watches M t (refuse p e : Proc ε ξ σ Unit) s q := by
  unfold refuse
  split_ifs with h
  · exact watches_raise (hyes h)
  · exact watches_ret (hno h)

theorem watches_await {q : Except ξ α → σ → τ → Prop} {ev : Except ξ α → ε} {answer : Except ξ α}
    (hfine : M.fine t (ev answer)) (h : q answer s (M.next t (ev answer))) :
    Watches M t (await ev answer : Proc ε ξ σ α) s q := ⟨.single hfine, h⟩

/-- the variables may be looked at -/
theorem watches_get {q : Except ξ β → σ → τ → Prop} {f : σ → Proc ε ξ σ β} (h : Watches M t (f s) s q) :
    Watches M t (get >>= f) s q := ⟨h.accepts, h.ends⟩

theorem watches_bind {q : Except ξ β → σ → τ → Prop} {r : Except ξ α → σ → τ → Prop} {x : Proc ε ξ σ α}
    {f : α → Proc ε ξ σ β} (hx : Watches M t x s r) (hf : ∀ a u v, r (.ok a) u v → Watches M v (f a) u q)
    (he : ∀ e u v, r (.error e) u v → q (.error e) u v) : Watches M t (x >>= f) s q := by
  change Watches M t (seq x f) s q
  obtain ⟨haccepts, hends⟩ := hx
  cases h : x s with
  | mk evs mem out =>
    rw [h] at haccepts hends
    cases out with
    | ok a =>
      obtain ⟨haccepts', hends'⟩ := hf a mem _ hends
      constructor
      · simp only [seq, h, Monitor.accepts_append]
        exact ⟨haccepts, haccepts'⟩
      · simpa only [seq, h, Monitor.after_append] using hends'
    | error e =>
      constructor
      · simpa only [seq, h] using haccepts
      · simpa only [seq, h] using he e mem _ hends

theorem watches_attempt {q r : Except ξ α → σ → τ → Prop} {x : Proc ε ξ σ α} {h : ξ → Proc ε ξ σ α}
    (hx : Watches M t x s r) (ha : ∀ a u v, r (.ok a) u v → q (.ok a) u v)
    (hh : ∀ e u v, r (.error e) u v → Watches M v (h e) u q) : Watches M t (attempt x h) s q := by
  obtain ⟨haccepts, hends⟩ := hx
  cases hrun : x s with
  | mk evs mem out =>
    rw [hrun] at haccepts hends
    cases out with
    | ok a =>
      constructor
      · simpa only [attempt, hrun] using haccepts
      · simpa only [attempt, hrun] using ha a mem _ hends
    | error e =>
      obtain ⟨haccepts', hends'⟩ := hh e mem _ hends
      constructor
      · simp only [attempt, hrun, Monitor.accepts_append]
        exact ⟨haccepts, haccepts'⟩
      · simpa only [attempt, hrun, Monitor.after_append] using hends'

/-- a cleanup runs in any case -/
theorem watches_cleanup {r : σ → τ → Prop} {q : Except ξ α → σ → τ → Prop} {x : Proc ε ξ σ α} {y : Proc ε ξ σ Unit}
    (hx : Watches M t x s fun _ u v => r u v)
    (hy : ∀ u v, r u v → Watches M v y u fun _ u' v' => ∀ o, q o u' v') : Watches M t (cleanup x y) s q := by
  obtain ⟨haccepts, hends⟩ := hx
  obtain ⟨haccepts', hends'⟩ := hy _ _ hends
  constructor
  · simp only [cleanup, Monitor.accepts_append]
    exact ⟨haccepts, haccepts'⟩
  · simp only [cleanup, Monitor.after_append]
    exact hends' _

/-- a procedure that is watched whatever it comes to, then another one -/
theorem watches_then {r : σ → τ → Prop} {x : Proc ε ξ σ α} {f : α → Proc ε ξ σ β} (hx : Watches M t x s fun _ u v => r u v)
    (hf : ∀ a u v, r u v → Watches M v (f a) u fun _ u v => r u v) : Watches M t (x >>= f) s fun _ u v => r u v :=
  watches_bind hx hf fun _ _ _ h => h

end Proc
