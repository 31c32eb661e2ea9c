/-
Procedures with local variables that wait for answers from outside, leave a trace and may raise.

A `Proc` goes from the values of its local variables to one `Run`: the events, in order, the variables at the end, and
what it returned or raised. Variables set before an exception keep their values, as handlers see them. Answers from
outside are given with the call that waits for them, and stand in the trace.

- `Proc.await`, `Proc.raise`, `Proc.lift`, `Proc.refuse`, `Proc.set`: the primitive steps.
- `Proc.attempt` and `Proc.cleanup`: `try ... except` and `try ... finally`.
- `Returns p s l t a`: `p` returns `a`. `returns_bind`, `returns_attempt`, `returns_cleanup` and the lemmas on the
  primitive steps say what a procedure that returned went through.
- `run_bind`, `run_attempt` and their forms at an exception: the run of a whole from the runs of its parts.
- `Keeps I q p s`: `p` keeps the invariant `I` of the variables and raises only what `q` allows; with one rule for each
  way to build a procedure.
-/
import Mathlib.Tactic

/-- one run of a procedure: events `ε`, exceptions `ξ`, local variables `σ`, result `α` -/
structure Run (ε ξ σ α : Type) where
  evs : List ε
  mem : σ
  out : Except ξ α

/-- a procedure, by the run it makes from given values of its local variables -/
def Proc (ε ξ σ α : Type) : Type := σ → Run ε ξ σ α

namespace Proc

variable {ε ξ σ α β : Type}

/-- nothing more to do -/
def ret (a : α) : Proc ε ξ σ α := fun s => ⟨[], s, .ok a⟩

/-- then -/
def seq (x : Proc ε ξ σ α) (f : α → Proc ε ξ σ β) : Proc ε ξ σ β := fun s =>
  match (x s).out with
  | .ok a => ⟨(x s).evs ++ (f a (x s).mem).evs, (f a (x s).mem).mem, (f a (x s).mem).out⟩
  | .error e => ⟨(x s).evs, (x s).mem, .error e⟩

instance : Monad (Proc ε ξ σ) where
  pure := ret
  bind := seq

/-- the values of the local variables -/
def get : Proc ε ξ σ σ := fun s => ⟨[], s, .ok s⟩

/-- assignments -/
def set (f : σ → σ) : Proc ε ξ σ Unit := fun s => ⟨[], f s, .ok ()⟩

def raise (e : ξ) : Proc ε ξ σ α := fun s => ⟨[], s, .error e⟩

/-- raise where the condition holds -/
def refuse (p : Prop) [Decidable p] (e : ξ) : Proc ε ξ σ Unit := if p then raise e else ret ()

/-- a computation that may raise but waits for nothing -/
def lift (x : Except ξ α) : Proc ε ξ σ α := fun s => ⟨[], s, x⟩

/-- wait for an answer; the call and its answer go to the trace -/
def await (ev : Except ξ α → ε) (answer : Except ξ α) : Proc ε ξ σ α := fun s => ⟨[ev answer], s, answer⟩

/-- `try: x except e: h e` -/
def attempt (x : Proc ε ξ σ α) (h : ξ → Proc ε ξ σ α) : Proc ε ξ σ α := fun s =>
  match (x s).out with
  | .ok a => ⟨(x s).evs, (x s).mem, .ok a⟩
  | .error e => ⟨(x s).evs ++ (h e (x s).mem).evs, (h e (x s).mem).mem, (h e (x s).mem).out⟩

/-- `try: x finally: y`: an exception of `y` replaces the outcome of `x` -/
def cleanup (x : Proc ε ξ σ α) (y : Proc ε ξ σ Unit) : Proc ε ξ σ α := fun s =>
  ⟨(x s).evs ++ (y (x s).mem).evs, (y (x s).mem).mem,
    match (y (x s).mem).out with
    | .ok _ => (x s).out
    | .error e => .error e⟩

/-! ## Runs that end -/

/-- from the variables `s`, the procedure returns `a` after the events `l`, with the variables `t` -/
def Returns (p : Proc ε ξ σ α) (s : σ) (l : List ε) (t : σ) (a : α) : Prop := p s = ⟨l, t, .ok a⟩

/-- the procedure raises `e` -/
def Raises (p : Proc ε ξ σ α) (s : σ) (l : List ε) (t : σ) (e : ξ) : Prop := p s = ⟨l, t, .error e⟩

section Returns

variable {s t : σ} {l : List ε} {a : α} {b : β}

/-- a procedure returns what its run ends with -/
theorem returns_out {p : Proc ε ξ σ α} (h : (p s).out = .ok a) : Returns p s (p s).evs (p s).mem a := by
  unfold Returns
  rw [← h]

theorem raises_out {p : Proc ε ξ σ α} {e : ξ} (h : (p s).out = .error e) : Raises p s (p s).evs (p s).mem e := by
  unfold Raises
  rw [← h]

/-- a procedure returns or raises -/
theorem returns_or_raises (p : Proc ε ξ σ α) (s : σ) :
    (∃ l t a, Returns p s l t a) ∨ ∃ l t e, Raises p s l t e := by
  cases h : (p s).out with
  | ok a => exact .inl ⟨(p s).evs, (p s).mem, a, returns_out h⟩
  | error e => exact .inr ⟨(p s).evs, (p s).mem, e, raises_out h⟩

theorem returns_ret {a' : α} (h : Returns (ret a' : Proc ε ξ σ α) s l t a) : l = [] ∧ t = s ∧ a = a' := by
  cases h
  exact ⟨rfl, rfl, rfl⟩

theorem returns_set {f : σ → σ} {u : Unit} (h : Returns (set f : Proc ε ξ σ Unit) s l t u) : l = [] ∧ t = f s := by
  cases h
  exact ⟨rfl, rfl⟩

theorem returns_get {u : σ} (h : Returns (get : Proc ε ξ σ σ) s l t u) : l = [] ∧ t = s ∧ u = s := by
  cases h
  exact ⟨rfl, rfl, rfl⟩

theorem not_returns_raise {e : ξ} : ¬ Returns (raise e : Proc ε ξ σ α) s l t a := by
  intro h
  cases h

theorem returns_refuse {p : Prop} [Decidable p] {e : ξ} {u : Unit}
    (h : Returns (refuse p e : Proc ε ξ σ Unit) s l t u) : ¬ p ∧ l = [] ∧ t = s := by
  unfold refuse at h
  split_ifs at h with hp
  · exact absurd h not_returns_raise
  · exact ⟨hp, (returns_ret h).1, (returns_ret h).2.1⟩

theorem returns_lift {x : Except ξ α} (h : Returns (lift x : Proc ε ξ σ α) s l t a) : x = .ok a ∧ l = [] ∧ t = s := by
  cases x with
  | ok b => cases h; exact ⟨rfl, rfl, rfl⟩
  | error e => cases h

theorem returns_await {ev : Except ξ α → ε} {answer : Except ξ α}
    (h : Returns (await ev answer : Proc ε ξ σ α) s l t a) : answer = .ok a ∧ l = [ev (.ok a)] ∧ t = s := by
  cases answer with
  | ok b => cases h; exact ⟨rfl, rfl, rfl⟩
  | error e => cases h

/-- a sequence that returned went through both parts -/
theorem returns_bind {x : Proc ε ξ σ α} {f : α → Proc ε ξ σ β} (h : Returns (x >>= f) s l t b) :
    ∃ l₁ u a l₂, Returns x s l₁ u a ∧ Returns (f a) u l₂ t b ∧ l = l₁ ++ l₂ := by
  unfold Returns at h
  change seq x f s = _ at h
  unfold seq at h
  cases hx : x s with
  | mk evs mem out =>
    rw [hx] at h
    cases out with
    | ok a =>
      obtain ⟨hevs, hmem, hout⟩ := Run.mk.inj h
      refine ⟨evs, mem, a, (f a mem).evs, hx, ?_, hevs.symm⟩
      unfold Returns
      rw [← hmem, ← hout]
    | error e => cases h

/-- a handled procedure that returned did so itself, or its handler did -/
theorem returns_attempt {x : Proc ε ξ σ α} {h' : ξ → Proc ε ξ σ α} (h : Returns (attempt x h') s l t a) :
    Returns x s l t a ∨ ∃ l₁ u e l₂, Raises x s l₁ u e ∧ Returns (h' e) u l₂ t a ∧ l = l₁ ++ l₂ := by
  unfold Returns attempt at h
  cases hx : x s with
  | mk evs mem out =>
    rw [hx] at h
    cases out with
    | ok b =>
      cases h
      exact .inl hx
    | error e =>
      obtain ⟨hevs, hmem, hout⟩ := Run.mk.inj h
      refine .inr ⟨evs, mem, e, (h' e mem).evs, hx, ?_, hevs.symm⟩
      unfold Returns
      rw [← hmem, ← hout]

/-- a cleaned up procedure that returned did so itself, and so did the cleanup -/
theorem returns_cleanup {x : Proc ε ξ σ α} {y : Proc ε ξ σ Unit} (h : Returns (cleanup x y) s l t a) :
    ∃ l₁ u l₂, Returns x s l₁ u a ∧ Returns y u l₂ t () ∧ l = l₁ ++ l₂ := by
  unfold Returns cleanup at h
  cases hx : x s with
  | mk evs mem out =>
    cases hy : y mem with
    | mk evs' mem' out' =>
      simp only [hx, hy] at h
      cases out' with
      | ok u =>
        cases h
        exact ⟨evs, mem, evs', hx, hy, rfl⟩
      | error e => cases h

/-- a sequence that raised did so in its first part, or after it -/
theorem raises_bind {x : Proc ε ξ σ α} {f : α → Proc ε ξ σ β} {e : ξ} (h : Raises (x >>= f) s l t e) :
    Raises x s l t e ∨ ∃ l₁ u a l₂, Returns x s l₁ u a ∧ Raises (f a) u l₂ t e ∧ l = l₁ ++ l₂ := by
  unfold Raises at h
  change seq x f s = _ at h
  unfold seq at h
  cases hx : x s with
  | mk evs mem out =>
    rw [hx] at h
    cases out with
    | ok a =>
      obtain ⟨hevs, hmem, hout⟩ := Run.mk.inj h
      refine .inr ⟨evs, mem, a, (f a mem).evs, hx, ?_, hevs.symm⟩
      unfold Raises
      rw [← hmem, ← hout]
    | error e' =>
      cases h
      exact .inl hx

theorem raises_await {ev : Except ξ α → ε} {answer : Except ξ α} {e : ξ}
    (h : Raises (await ev answer : Proc ε ξ σ α) s l t e) : answer = .error e ∧ l = [ev (.error e)] ∧ t = s := by
  cases answer with
  | ok b => cases h
  | error e' => cases h; exact ⟨rfl, rfl, rfl⟩

theorem raises_lift {x : Except ξ α} {e : ξ} (h : Raises (lift x : Proc ε ξ σ α) s l t e) :
    x = .error e ∧ l = [] ∧ t = s := by
  cases x with
  | ok b => cases h
  | error e' => cases h; exact ⟨rfl, rfl, rfl⟩

/-- the run of a sequence, by the run of its first part -/
theorem run_bind {x : Proc ε ξ σ α} {f : α → Proc ε ξ σ β} (h : Returns x s l t a) :
    (x >>= f) s = ⟨l ++ (f a t).evs, (f a t).mem, (f a t).out⟩ := by
  change seq x f s = _
  unfold Returns at h
  simp only [seq, h]

theorem run_bind_raised {x : Proc ε ξ σ α} {f : α → Proc ε ξ σ β} {e : ξ} (h : Raises x s l t e) :
    (x >>= f) s = ⟨l, t, .error e⟩ := by
  change seq x f s = _
  unfold Raises at h
  simp only [seq, h]

theorem run_attempt {x : Proc ε ξ σ α} {k : ξ → Proc ε ξ σ α} (h : Returns x s l t a) : attempt x k s = ⟨l, t, .ok a⟩ := by
  unfold Returns at h
  simp only [attempt, h]

theorem run_attempt_raised {x : Proc ε ξ σ α} {k : ξ → Proc ε ξ σ α} {e : ξ} (h : Raises x s l t e) :
    attempt x k s = ⟨l ++ (k e t).evs, (k e t).mem, (k e t).out⟩ := by
  unfold Raises at h
  simp only [attempt, h]

end Returns

/-! ## Invariants of the variables -/

section Keeps

variable {I : σ → Prop} {q q' : ξ → Prop} {s : σ}

/-- from the variables `s`, the invariant holds at the end, and an exception is one of those allowed -/
structure Keeps (I : σ → Prop) (q : ξ → Prop) (p : Proc ε ξ σ α) (s : σ) : Prop where
  mem : I (p s).mem
  raises : ∀ e, (p s).out = .error e → q e

theorem Keeps.mono {p : Proc ε ξ σ α} (h : Keeps I q p s) (hq : ∀ e, q e → q' e) : Keeps I q' p s :=
  ⟨h.mem, fun e he => hq e (h.raises e he)⟩

theorem keeps_ret (hs : I s) (a : α) : Keeps I q (ret a : Proc ε ξ σ α) s := ⟨hs, fun _ he => nomatch he⟩

theorem keeps_set {f : σ → σ} (hs : I (f s)) : Keeps I q (set f : Proc ε ξ σ Unit) s := ⟨hs, fun _ he => nomatch he⟩

theorem keeps_raise (hs : I s) {e : ξ} (he : q e) : Keeps I q (raise e : Proc ε ξ σ α) s := by
  refine ⟨hs, fun e' he' => ?_⟩
  cases he'
  exact he

theorem keeps_refuse (hs : I s) {p : Prop} [Decidable p] {e : ξ} (he : q e) :
    Keeps I q (refuse p e : Proc ε ξ σ Unit) s := by
  unfold refuse
  split_ifs
  · exact keeps_raise hs he
  · exact keeps_ret hs ()

theorem keeps_lift (hs : I s) {x : Except ξ α} (hx : ∀ e, x = .error e → q e) :
    Keeps I q (lift x : Proc ε ξ σ α) s := ⟨hs, hx⟩

theorem keeps_await (hs : I s) {ev : Except ξ α → ε} {answer : Except ξ α} (ha : ∀ e, answer = .error e → q e) :
    Keeps I q (await ev answer : Proc ε ξ σ α) s := ⟨hs, ha⟩

theorem keeps_bind {x : Proc ε ξ σ α} {f : α → Proc ε ξ σ β} (hx : Keeps I q x s)
    (hf : ∀ a u, I u → Keeps I q (f a) u) : Keeps I q (x >>= f) s := by
  change Keeps I q (seq x f) s
  obtain ⟨hmem, hraises⟩ := hx
  cases h : x s with
  | mk evs mem out =>
    rw [h] at hmem hraises
    cases out with
    | ok a =>
      obtain ⟨hmem', hraises'⟩ := hf a mem hmem
      constructor
      · simpa only [seq, h] using hmem'
      · simpa only [seq, h] using hraises'
    | error e =>
      constructor
      · simpa only [seq, h] using hmem
      · simpa only [seq, h, Except.error.injEq] using hraises

/-- the variables may be looked at -/
theorem keeps_get {f : σ → Proc ε ξ σ β} (h : Keeps I q (f s) s) : Keeps I q (get >>= f) s := ⟨h.mem, h.raises⟩

theorem keeps_attempt {r : ξ → Prop} {x : Proc ε ξ σ α} {h : ξ → Proc ε ξ σ α} (hx : Keeps I r x s)
    (hh : ∀ e u, r e → I u → Keeps I q (h e) u) : Keeps I q (attempt x h) s := by
  obtain ⟨hmem, hraises⟩ := hx
  cases hrun : x s with
  | mk evs mem out =>
    rw [hrun] at hmem hraises
    cases out with
    | ok a =>
      constructor
      · simpa only [attempt, hrun] using hmem
      · intro e he
        simp only [attempt, hrun] at he
        cases he
    | error e =>
      obtain ⟨hmem', hraises'⟩ := hh e mem (hraises e rfl) hmem
      constructor
      · simpa only [attempt, hrun] using hmem'
      · simpa only [attempt, hrun] using hraises'

theorem keeps_cleanup {x : Proc ε ξ σ α} {y : Proc ε ξ σ Unit} (hx : Keeps I q x s)
    (hy : ∀ u, I u → Keeps I q y u) : Keeps I q (cleanup x y) s := by
  obtain ⟨hmem, hraises⟩ := hx
  obtain ⟨hmem', hraises'⟩ := hy _ hmem
  refine ⟨hmem', fun e he => ?_⟩
  unfold cleanup at he
  simp only at he
  split at he
  · exact hraises e he
  · rename_i e' hout
    cases he
    exact hraises' _ hout

end Keeps

end Proc
