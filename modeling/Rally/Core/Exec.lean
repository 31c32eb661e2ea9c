/-
Executions that write their whole state to a file as they go and may be cut short at any point.

An `Exec` is what one call of a procedure does: the events it makes visible, in order (writes of the whole state among
them), the state in memory at the end, and how it ended: it returned, it raised, or its inputs ran out before it got
there. A crash is a prefix of the events: the file then holds the last state written (`persist`).

- `Exec.bind`, `Exec.pre`, `Exec.attempt`: sequencing.
- `Holds p q`: every event satisfies `p` and the state in memory `q`. `holds_bind`, `holds_pre`, `holds_attempt` carry
  it through a procedure.
- `persist_mem`, `persist_inv`: what the file holds wherever a procedure is cut.
-/
import Mathlib.Tactic

/-- how a procedure ended -/
inductive Out (ξ α : Type) where
  | ret (a : α)
  | raised (e : ξ)
  | running
deriving DecidableEq, Repr

/-- one call of a procedure: events `ε`, exceptions `ξ`, state `σ`, result `α` -/
structure Exec (ε ξ σ α : Type) where
  evs : List ε
  mem : σ
  out : Out ξ α
deriving DecidableEq, Repr

namespace Exec

variable {ε ξ σ α β : Type}

/-- events before -/
def pre (l : List ε) (x : Exec ε ξ σ α) : Exec ε ξ σ α := { x with evs := l ++ x.evs }

/-- then -/
def bind (x : Exec ε ξ σ α) (f : σ → α → Exec ε ξ σ β) : Exec ε ξ σ β :=
  match x.out with
  | .ret a => (f x.mem a).pre x.evs
  | .raised e => ⟨x.evs, x.mem, .raised e⟩
  | .running => ⟨x.evs, x.mem, .running⟩

/-- nothing more to do -/
def done (s : σ) (a : α) : Exec ε ξ σ α := ⟨[], s, .ret a⟩

/-- an exception -/
def raise (s : σ) (e : ξ) : Exec ε ξ σ α := ⟨[], s, .raised e⟩

/-- go on with the value of `x`, or let what it raises through -/
def attempt {η : Type} (s : σ) (wrap : η → ξ) (x : Except η β) (f : β → Exec ε ξ σ α) : Exec ε ξ σ α :=
  match x with
  | .ok b => f b
  | .error e => raise s (wrap e)

@[simp] theorem pre_evs (l : List ε) (x : Exec ε ξ σ α) : (x.pre l).evs = l ++ x.evs := rfl
@[simp] theorem pre_mem (l : List ε) (x : Exec ε ξ σ α) : (x.pre l).mem = x.mem := rfl
@[simp] theorem pre_out (l : List ε) (x : Exec ε ξ σ α) : (x.pre l).out = x.out := rfl

/-- a sequence that returned went through both parts -/
theorem bind_ret {x : Exec ε ξ σ α} {f : σ → α → Exec ε ξ σ β} {b : β} (h : (x.bind f).out = .ret b) :
    ∃ a, x.out = .ret a ∧ (f x.mem a).out = .ret b ∧ x.bind f = (f x.mem a).pre x.evs := by
  unfold bind at h ⊢
  cases hx : x.out with
  | ret a => rw [hx] at h; exact ⟨a, rfl, h, rfl⟩
  | raised e => rw [hx] at h; cases h
  | running => rw [hx] at h; cases h

theorem bind_of_ret {x : Exec ε ξ σ α} {f : σ → α → Exec ε ξ σ β} {a : α} (h : x.out = .ret a) :
    x.bind f = (f x.mem a).pre x.evs := by
  unfold bind; rw [h]

/-- a sequence is its first part, or both -/
theorem evs_bind (x : Exec ε ξ σ α) (f : σ → α → Exec ε ξ σ β) :
    (x.bind f).evs = x.evs ∨ ∃ a, x.out = .ret a ∧ (x.bind f).evs = x.evs ++ (f x.mem a).evs := by
  unfold bind
  cases x.out with
  | ret a => exact Or.inr ⟨a, rfl, rfl⟩
  | raised e => exact Or.inl rfl
  | running => exact Or.inl rfl

/-- what holds of the events of both parts, where the first leaves the memory alone -/
theorem evs_bind_all {p : ε → Prop} {x : Exec ε ξ σ α} {f : σ → α → Exec ε ξ σ β} {s : σ} (hmem : x.mem = s)
    (hx : ∀ e ∈ x.evs, p e) (hf : ∀ a, ∀ e ∈ (f s a).evs, p e) : ∀ e ∈ (x.bind f).evs, p e := by
  intro e he
  rcases evs_bind x f with heq | ⟨a, -, heq⟩
  · exact hx e (heq ▸ he)
  · rw [heq, hmem] at he
    rcases List.mem_append.1 he with he | he
    · exact hx e he
    · exact hf a e he

theorem attempt_ret {η : Type} {s : σ} {wrap : η → ξ} {x : Except η β} {f : β → Exec ε ξ σ α} {a : α}
    (h : (attempt s wrap x f).out = .ret a) : ∃ b, x = .ok b ∧ attempt s wrap x f = f b := by
  cases x with
  | ok b => exact ⟨b, rfl, rfl⟩
  | error e => cases h

/-! ## Properties of a procedure -/

section Holds

variable {p : ε → Prop} {q : σ → Prop}

/-- every event satisfies `p`, and the state in memory `q` -/
def Holds (p : ε → Prop) (q : σ → Prop) (x : Exec ε ξ σ α) : Prop := (∀ e ∈ x.evs, p e) ∧ q x.mem

theorem holds_done {s : σ} {a : α} (hs : q s) : Holds p q (done s a : Exec ε ξ σ α) :=
  ⟨fun _ he => (List.not_mem_nil he).elim, hs⟩

theorem holds_raise {s : σ} {e : ξ} (hs : q s) : Holds p q (raise s e : Exec ε ξ σ α) :=
  ⟨fun _ he => (List.not_mem_nil he).elim, hs⟩

theorem holds_pre {l : List ε} {x : Exec ε ξ σ α} (hl : ∀ e ∈ l, p e) (hx : Holds p q x) : Holds p q (x.pre l) := by
  refine ⟨fun e he => ?_, hx.2⟩
  rcases List.mem_append.1 he with he | he
  · exact hl e he
  · exact hx.1 e he

theorem holds_bind {x : Exec ε ξ σ α} {f : σ → α → Exec ε ξ σ β} (hx : Holds p q x)
    (hf : ∀ a, x.out = .ret a → Holds p q (f x.mem a)) : Holds p q (x.bind f) := by
  unfold bind
  cases h : x.out with
  | ret a => exact holds_pre hx.1 (hf a h)
  | raised e => exact hx
  | running => exact hx

theorem holds_attempt {η : Type} {s : σ} {wrap : η → ξ} {x : Except η β} {f : β → Exec ε ξ σ α} (hs : q s)
    (hf : ∀ b, x = .ok b → Holds p q (f b)) : Holds p q (attempt s wrap x f) := by
  cases x with
  | ok b => exact hf b rfl
  | error e => exact holds_raise hs

theorem Holds.mono {p' : ε → Prop} {q' : σ → Prop} {x : Exec ε ξ σ α} (h : Holds p q x) (hp : ∀ e, p e → p' e)
    (hq : ∀ s, q s → q' s) : Holds p' q' x :=
  ⟨fun e he => hp e (h.1 e he), hq _ h.2⟩

end Holds

/-! ## States written -/

section Saves

variable (saved : ε → Option σ)

/-- the file after a stretch of events: the last state written, or what it held -/
def persist (file : σ) (l : List ε) : σ := l.foldl (fun f e => (saved e).getD f) file

theorem persist_append (file : σ) (l m : List ε) :
    persist saved file (l ++ m) = persist saved (persist saved file l) m := by
  simp [persist, List.foldl_append]

theorem persist_snoc (file : σ) (l : List ε) (e : ε) :
    persist saved file (l ++ [e]) = (saved e).getD (persist saved file l) := by
  simp [persist, List.foldl_append]

/-- the file holds what it held or a state that was written -/
theorem persist_mem (file : σ) (l : List ε) :
    persist saved file l = file ∨ ∃ e ∈ l, saved e = some (persist saved file l) := by
  induction l using List.reverseRecOn with
  | nil => exact Or.inl rfl
  | append_singleton l e ih =>
    rw [persist_snoc]
    cases he : saved e with
    | some s => exact Or.inr ⟨e, by simp, by rw [he]; rfl⟩
    | none =>
      rcases ih with ih | ⟨e', he', hs⟩
      · exact Or.inl ih
      · exact Or.inr ⟨e', List.mem_append_left _ he', hs⟩

/-- the file satisfies what it did, if every state written does -/
theorem persist_inv {q : σ → Prop} {file : σ} {l : List ε} (hfile : q file)
    (hl : ∀ e ∈ l, ∀ s, saved e = some s → q s) : q (persist saved file l) := by
  rcases persist_mem saved file l with heq | ⟨e, he, hs⟩
  · rw [heq]; exact hfile
  · exact hl e he _ hs

end Saves

end Exec
