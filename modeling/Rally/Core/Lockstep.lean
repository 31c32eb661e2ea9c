/-
Two machines that are given the same inputs: when do they answer alike? Nothing here is about one program.

- `replies`: what a machine answers to a list of inputs. `Along`: each input is fine in the state it meets.
- `replies_eq_iff_of`: where a relation of the two states is kept and tells which inputs are answered alike, the answers
  agree exactly if each input is such a one. `replies_eq_iff` is for all inputs.
- `spared`: a history without the inputs that are dropped. `counter_final`: what a counter has moved by at the end.
-/
import Mathlib.Tactic

namespace Lockstep

variable {σ τ ι ω : Type}

/-- the state after a list of inputs -/
def final (f : σ → ι → ω × σ) (s : σ) (l : List ι) : σ := l.foldl (fun s i => (f s i).2) s

/-- the answers to a list of inputs -/
def replies (f : σ → ι → ω × σ) (s : σ) : List ι → List ω
  | [] => []
  | i :: l => (f s i).1 :: replies f (f s i).2 l

/-- the inputs that are not dropped for the state they meet in the whole history -/
def spared (f : σ → ι → ω × σ) (drop : σ → ι → Bool) (s : σ) : List ι → List ι
  | [] => []
  | i :: l => if drop s i then spared f drop (f s i).2 l else i :: spared f drop (f s i).2 l

/-- each input is fine in the state it meets -/
def Along (f : σ → ι → ω × σ) (ok : σ → ι → Prop) (s : σ) : List ι → Prop
  | [] => True
  | i :: l => ok s i ∧ Along f ok (f s i).2 l

instance instDecidableAlong (f : σ → ι → ω × σ) (ok : σ → ι → Prop) [∀ s i, Decidable (ok s i)] (s : σ) (l : List ι) :
    Decidable (Along f ok s l) :=
  match l with
  | [] => isTrue trivial
  | i :: l =>
    have := instDecidableAlong f ok (f s i).2 l
    inferInstanceAs (Decidable (ok s i ∧ Along f ok (f s i).2 l))

variable {f : σ → ι → ω × σ} {g : τ → ι → ω × τ} {ok : σ → ι → Prop} {R : σ → τ → Prop}

/-- **The same answers.** If related states answer alike exactly to the inputs that are fine, and stay related where
they are, then two histories of these inputs agree exactly if every input is fine where it stands. -/
theorem replies_eq_iff_of {p : ι → Prop} (hanswer : ∀ s t i, p i → R s t → ((f s i).1 = (g t i).1 ↔ ok s i))
    (hkeep : ∀ s t i, p i → R s t → ok s i → R (f s i).2 (g t i).2) {s : σ} {t : τ} (h : R s t) (l : List ι)
    (hl : ∀ i ∈ l, p i) : replies f s l = replies g t l ↔ Along f ok s l := by
  induction l generalizing s t with
  | nil => exact iff_of_true rfl trivial
  | cons i l ih =>
    obtain ⟨hi, hl⟩ := List.forall_mem_cons.1 hl
    rw [replies, replies, List.cons.injEq, hanswer s t i hi h, Along]
    exact and_congr_right fun hok => ih (hkeep s t i hi h hok) hl

/-- the same of all inputs -/
theorem replies_eq_iff (hanswer : ∀ s t i, R s t → ((f s i).1 = (g t i).1 ↔ ok s i))
    (hkeep : ∀ s t i, R s t → ok s i → R (f s i).2 (g t i).2) {s : σ} {t : τ} (h : R s t) (l : List ι) :
    replies f s l = replies g t l ↔ Along f ok s l :=
  replies_eq_iff_of (fun s t i _ => hanswer s t i) (fun s t i _ => hkeep s t i) h l fun _ _ => trivial

/-- what every input keeps holds at the end -/
theorem final_inv {p : σ → Prop} (hkeep : ∀ s i, p s → p (f s i).2) {s : σ} (h : p s) (l : List ι) : p (final f s l) := by
  induction l generalizing s with
  | nil => exact h
  | cons i l ih => exact ih (hkeep s i h)

/-- what no dropped input counts for is counted as before -/
theorem countP_spared {drop : σ → ι → Bool} {p : ι → Bool} (h : ∀ s i, drop s i = true → p i = false) (s : σ) (l : List ι) :
    (spared f drop s l).countP p = l.countP p := by
  induction l generalizing s with
  | nil => rfl
  | cons i l ih =>
    rw [spared, List.countP_cons]
    split_ifs with hdrop hp hp
    · rw [h s i hdrop] at hp
      cases hp
    · rw [ih, Nat.add_zero]
    · rw [List.countP_cons, if_pos hp, ih]
    · rw [List.countP_cons, if_neg hp, ih]

/-- a counter that each input moves by what it counts for -/
theorem counter_final {count : σ → ℕ} {p : ι → Bool} {l : List ι}
    (h : ∀ s, ∀ i ∈ l, count (f s i).2 = count s + if p i = true then 1 else 0) (s : σ) :
    count (final f s l) = count s + l.countP p := by
  induction l generalizing s with
  | nil => rfl
  | cons i l ih =>
    obtain ⟨hi, hl⟩ : (∀ s, count (f s i).2 = count s + if p i = true then 1 else 0) ∧ _ :=
      ⟨fun s => h s i List.mem_cons_self, fun s j hj => h s j (List.mem_cons_of_mem i hj)⟩
    rw [show final f s (i :: l) = final f (f s i).2 l from rfl, ih hl, hi, List.countP_cons]
    omega

end Lockstep
