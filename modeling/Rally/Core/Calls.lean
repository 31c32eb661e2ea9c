/-
Calls that run together on one shared state. A call is a program over atomic operations; each operation finds the state
as the others left it, and an input that says what the outside does (a clock, a failure, an answer).

- `Call`, `Call.bind`: programs over operations `O` with answers `A`.
- `Rely`: what calls may count on. Each step of a call is within `rel`; a token a call owns is kept by all others, and a
  token newly taken was not issued before, so that no two calls own one.
- `Meets`: while others keep to it, a call keeps to it and to what it guarantees itself, and its result satisfies `q`.
  `meets_done`, `meets_ask`, `meets_step`, `Meets.mono` make it; `Meets.result`, `Meets.next` use it.
- `Asks p`: every operation of a call satisfies `p`, whatever it is answered. `Path`: how a call got from one place to
  another.
- `System`, `System.Step`: calls start, proceed one operation at a time in any order, and other things happen.
- `run_within`, `run_guar`, `run_meets`: what holds of each call alone holds of every run. `run_path`: each call goes its
  own way, through states of the run. `drive`: a run given by its moves.
-/
import Rally.Core.Trace

/-- a program over operations `O` with answers `A` and a result `ρ` -/
inductive Call (O : Type) (A : O → Type) (ρ : Type) where
  | done (r : ρ)
  | ask (o : O) (k : A o → Call O A ρ)

/-- what calls on a shared state may count on -/
structure Rely (σ τ : Type) where
  rel : σ → σ → Prop
  /-- what a token stands for is left alone -/
  keeps : τ → σ → σ → Prop
  issued : σ → τ → Prop
  refl : ∀ s, rel s s
  trans : ∀ {s t u}, rel s t → rel t u → rel s u
  keeps_refl : ∀ x s, keeps x s s
  keeps_trans : ∀ {x s t u}, keeps x s t → keeps x t u → keeps x s u
  issued_mono : ∀ {s t x}, rel s t → issued s x → issued t x

/-- without tokens -/
def Rely.plain {σ : Type} (rel : σ → σ → Prop) (refl : ∀ s, rel s s) (trans : ∀ {s t u}, rel s t → rel t u → rel s u) :
    Rely σ Empty where
  rel := rel
  keeps _ _ _ := True
  issued _ _ := True
  refl := refl
  trans := trans
  keeps_refl _ _ := trivial
  keeps_trans _ _ := trivial
  issued_mono _ _ := trivial

namespace Call

variable {σ ι κ τ O ρ β : Type} {A : O → Type}

/-- no operation is excluded -/
def always : O → σ → Prop := fun _ _ => True

instance (o : O) (s : σ) : Decidable (always o s) := isTrue trivial

/-- the result of a finished call -/
def result : Call O A ρ → Option ρ
  | .done r => some r
  | .ask _ _ => none

/-- then -/
def bind : Call O A ρ → (ρ → Call O A β) → Call O A β
  | .done r, f => f r
  | .ask o k, f => .ask o fun a => (k a).bind f

@[simp] theorem bind_done (r : ρ) (f : ρ → Call O A β) : (Call.done r : Call O A ρ).bind f = f r := rfl
@[simp] theorem bind_ask (o : O) (k : A o → Call O A ρ) (f : ρ → Call O A β) :
    (Call.ask o k).bind f = .ask o fun a => (k a).bind f := rfl

/-! ## What a call does while others run -/

section Meets

variable (exec : (o : O) → ι → σ → σ × A o) (ok : O → σ → Prop) (L : Rely σ τ) (G : σ → σ → Prop)

/-- what others may do meanwhile to a call that owns these tokens -/
def Meanwhile (own : Set τ) (s t : σ) : Prop := L.rel s t ∧ ∀ x ∈ own, L.keeps x s t

/-- a step of a call that owns these tokens, and owns those after it -/
structure Move (own own' : Set τ) (s t : σ) : Prop where
  rel : L.rel s t
  guar : G s t
  others : ∀ x, x ∉ own → L.issued s x → L.keeps x s t
  taken : ∀ x ∈ own', x ∈ own ∨ ¬ L.issued s x
  issued : ∀ x ∈ own', L.issued t x

/-- as long as operations are done only where they are `ok` and others keep to `L`, the call keeps to `L` and to `G`,
and its result satisfies `q` -/
def Meets (q : ρ → σ → Prop) : Call O A ρ → Set τ → σ → Prop
  | .done r, own, s => ∀ t, Meanwhile L own s t → q r t
  | .ask o k, own, s => ∀ t, Meanwhile L own s t → ok o t → ∀ i, ∃ own', Move L G own own' t (exec o i t).1 ∧
      Meets q (k (exec o i t).2) own' (exec o i t).1

variable {exec ok L G} {q : ρ → σ → Prop} {own : Set τ} {s t u : σ}

theorem Meanwhile.refl (s : σ) : Meanwhile L own s s := ⟨L.refl s, fun x _ => L.keeps_refl x s⟩

theorem Meanwhile.trans (h : Meanwhile L own s t) (h' : Meanwhile L own t u) : Meanwhile L own s u :=
  ⟨L.trans h.1 h'.1, fun x hx => L.keeps_trans (h.2 x hx) (h'.2 x hx)⟩

theorem meets_done {r : ρ} (h : ∀ t, Meanwhile L own s t → q r t) : Meets exec ok L G q (.done r) own s := h

theorem meets_ask {o : O} {k : A o → Call O A ρ}
    (h : ∀ t, Meanwhile L own s t → ok o t → ∀ i, ∃ own', Move L G own own' t (exec o i t).1 ∧
      Meets exec ok L G q (k (exec o i t).2) own' (exec o i t).1) : Meets exec ok L G q (.ask o k) own s := h

/-- an operation of a call that owns nothing and takes nothing -/
theorem meets_step {o : O} {k : A o → Call O A ρ}
    (h : ∀ t, L.rel s t → ok o t → ∀ i, L.rel t (exec o i t).1 ∧ G t (exec o i t).1 ∧
      (∀ x, L.issued t x → L.keeps x t (exec o i t).1) ∧ Meets exec ok L G q (k (exec o i t).2) ∅ (exec o i t).1) :
    Meets exec ok L G q (.ask o k) ∅ s := by
  intro t hst hok i
  obtain ⟨hrel, hguar, hkeeps, hrest⟩ := h t hst.1 hok i
  exact ⟨∅, ⟨hrel, hguar, fun x _ => hkeeps x, fun x hx => hx.elim, fun x hx => hx.elim⟩, hrest⟩

theorem Meets.stable {c : Call O A ρ} (h : Meets exec ok L G q c own s) (hst : Meanwhile L own s t) :
    Meets exec ok L G q c own t := by
  cases c with
  | done r => exact fun u htu => h u (hst.trans htu)
  | ask o k => exact fun u htu => h u (hst.trans htu)

theorem Meets.mono {q' : ρ → σ → Prop} {c : Call O A ρ} (h : Meets exec ok L G q c own s) (hq : ∀ r t, q r t → q' r t) :
    Meets exec ok L G q' c own s := by
  induction c generalizing s own with
  | done r => exact fun t hst => hq r t (h t hst)
  | ask o k ih =>
    intro t hst hok i
    obtain ⟨own', hmove, hrest⟩ := h t hst hok i
    exact ⟨own', hmove, ih _ hrest⟩

theorem Meets.result {r : ρ} (h : Meets exec ok L G q (.done r) own s) : q r s := h s (Meanwhile.refl s)

theorem Meets.next {o : O} {k : A o → Call O A ρ} (h : Meets exec ok L G q (.ask o k) own s) (hok : ok o s) (i : ι) :
    ∃ own', Move L G own own' s (exec o i s).1 ∧ Meets exec ok L G q (k (exec o i s).2) own' (exec o i s).1 :=
  h s (Meanwhile.refl s) hok i

end Meets

-- the rules above are all that is used of it
attribute [irreducible] Meets

/-- every operation of the call, whatever the answers, satisfies `p` -/
def Asks (p : O → Prop) : Call O A ρ → Prop
  | .done _ => True
  | .ask o k => p o ∧ ∀ a, Asks p (k a)

theorem asks_done {p : O → Prop} {r : ρ} : Asks p (.done r : Call O A ρ) := trivial

theorem asks_ask {p : O → Prop} {o : O} {k : A o → Call O A ρ} : Asks p (.ask o k) ↔ p o ∧ ∀ a, Asks p (k a) := Iff.rfl

attribute [irreducible] Asks

/-- from one place of a call to another, with its operations done in these states -/
def Path (exec : (o : O) → ι → σ → σ × A o) : List σ → Call O A ρ → Call O A ρ → Prop
  | [], c, d => c = d
  | s :: ss, .ask o k, d => ∃ i, Path exec ss (k (exec o i s).2) d
  | _ :: _, .done _, _ => False

section Path

variable {exec : (o : O) → ι → σ → σ × A o} {ss : List σ} {c d : Call O A ρ}

theorem path_done {r : ρ} : Path exec ss (.done r) d ↔ ss = [] ∧ d = .done r := by
  cases ss with
  | nil => simp [Path, eq_comm]
  | cons s ss => simp [Path]

theorem path_ask {o : O} {k : A o → Call O A ρ} :
    Path exec ss (.ask o k) d ↔ ss = [] ∧ d = .ask o k ∨ ∃ s rest i, ss = s :: rest ∧ Path exec rest (k (exec o i s).2) d := by
  cases ss with
  | nil => simp [Path, eq_comm]
  | cons s ss => simp [Path]

theorem Path.snoc {o : O} {k : A o → Call O A ρ} (h : Path exec ss c (.ask o k)) (i : ι) (s : σ) :
    Path exec (ss ++ [s]) c (k (exec o i s).2) := by
  induction ss generalizing c with
  | nil =>
    obtain rfl : c = .ask o k := h
    exact ⟨i, rfl⟩
  | cons s' ss ih =>
    cases c with
    | done r => exact h.elim
    | ask o' k' =>
      obtain ⟨i', hrest⟩ := h
      exact ⟨i', ih hrest⟩

theorem Path.asks {p : O → Prop} (h : Path exec ss c d) (hc : c.Asks p) : d.Asks p := by
  induction ss generalizing c with
  | nil => exact (show c = d from h) ▸ hc
  | cons s ss ih =>
    cases c with
    | done r => exact h.elim
    | ask o k =>
      obtain ⟨i, hrest⟩ := h
      exact ih hrest ((asks_ask.1 hc).2 _)

theorem asks_bind {p : O → Prop} {f : ρ → Call O A β} (hc : c.Asks p) (hf : ∀ r, (f r).Asks p) : (c.bind f).Asks p := by
  induction c with
  | done r => exact hf r
  | ask o k ih => exact asks_ask.2 ⟨(asks_ask.1 hc).1, fun a => ih a ((asks_ask.1 hc).2 a)⟩

end Path

end Call

/-! ## Runs -/

/-- the shared state and the calls made so far, each with its arguments -/
structure System (σ κ O : Type) (A : O → Type) (ρ : Type) where
  shared : σ
  calls : List (κ × Call O A ρ)

/-- a call is made, the `n`th call does its next operation, or something else happens -/
inductive Turn (κ ι : Type) where
  | call (a : κ)
  | act (n : ℕ) (i : ι)
  | other

namespace System

variable {σ ι κ τ O ρ : Type} {A : O → Type}

inductive Step (exec : (o : O) → ι → σ → σ × A o) (ok : O → σ → Prop) (code : κ → Call O A ρ) (other : σ → σ → Prop) :
    System σ κ O A ρ → Turn κ ι → System σ κ O A ρ → Prop where
  | call {s : σ} {calls : List (κ × Call O A ρ)} (a : κ) :
    Step exec ok code other ⟨s, calls⟩ (.call a) ⟨s, calls ++ [(a, code a)]⟩
  | act {s : σ} {calls : List (κ × Call O A ρ)} {n : ℕ} {a : κ} {o : O} {k : A o → Call O A ρ} (i : ι)
    (next : calls[n]? = some (a, .ask o k)) (fine : ok o s) :
    Step exec ok code other ⟨s, calls⟩ (.act n i) ⟨(exec o i s).1, calls.set n (a, k (exec o i s).2)⟩
  | other {s t : σ} {calls : List (κ × Call O A ρ)} (happens : other s t) :
    Step exec ok code other ⟨s, calls⟩ .other ⟨t, calls⟩

variable {exec : (o : O) → ι → σ → σ × A o} {ok : O → σ → Prop} {code : κ → Call O A ρ} {other : σ → σ → Prop}
  {L : Rely σ τ} {G : κ → σ → σ → Prop} {q : κ → ρ → σ → Prop} {s₀ : σ} {S T : System σ κ O A ρ}
  {tr : List (Entry (System σ κ O A ρ) (Turn κ ι))}

/-- every call does what it should from where it is, and no token has two owners -/
structure Sound (exec : (o : O) → ι → σ → σ × A o) (ok : O → σ → Prop) (L : Rely σ τ) (G : κ → σ → σ → Prop)
    (q : κ → ρ → σ → Prop) (s₀ : σ) (own : ℕ → Set τ) (S : System σ κ O A ρ) : Prop where
  reached : L.rel s₀ S.shared
  calls : ∀ n (c : κ × Call O A ρ), S.calls[n]? = some c → c.2.Meets exec ok L (G c.1) (q c.1) (own n) S.shared
  issued : ∀ n, ∀ x ∈ own n, L.issued S.shared x
  apart : ∀ n m, n ≠ m → ∀ x ∈ own n, x ∉ own m

/-- the hypotheses under which what holds of each call holds of every run -/
structure Runs (exec : (o : O) → ι → σ → σ × A o) (ok : O → σ → Prop) (code : κ → Call O A ρ) (other : σ → σ → Prop)
    (L : Rely σ τ) (G : κ → σ → σ → Prop) (q : κ → ρ → σ → Prop) (s₀ : σ) : Prop where
  code : ∀ a s, L.rel s₀ s → (code a).Meets exec ok L (G a) (q a) ∅ s
  other : ∀ s t, L.rel s₀ s → other s t → L.rel s t ∧ ∀ x, L.issued s x → L.keeps x s t

theorem sound_call {a : κ} {s : σ} {calls : List (κ × Call O A ρ)} {own : ℕ → Set τ}
    (hruns : Runs exec ok code other L G q s₀) (h : Sound exec ok L G q s₀ own ⟨s, calls⟩) :
    Sound exec ok L G q s₀ (Function.update own calls.length ∅) ⟨s, calls ++ [(a, code a)]⟩ := by
  refine ⟨h.reached, fun n c hc => ?_, fun n x hx => ?_, fun n m hnm x hx hx' => ?_⟩
  · dsimp only at hc
    rcases lt_trichotomy n calls.length with hn | rfl | hn
    · rw [List.getElem?_append_left hn] at hc
      rw [Function.update_of_ne hn.ne]
      exact h.calls n c hc
    · rw [List.getElem?_concat_length] at hc
      obtain rfl := Option.some.inj hc
      rw [Function.update_self]
      exact hruns.code a s h.reached
    · rw [List.getElem?_eq_none (by simp; omega)] at hc
      cases hc
  · rcases eq_or_ne n calls.length with rfl | hn
    · rw [Function.update_self] at hx; exact hx.elim
    · rw [Function.update_of_ne hn] at hx; exact h.issued n x hx
  · rcases eq_or_ne n calls.length with rfl | hn
    · rw [Function.update_self] at hx; exact hx.elim
    rcases eq_or_ne m calls.length with rfl | hm
    · rw [Function.update_self] at hx'; exact hx'.elim
    rw [Function.update_of_ne hn] at hx
    rw [Function.update_of_ne hm] at hx'
    exact h.apart n m hnm x hx hx'

theorem sound_act {n : ℕ} {a : κ} {o : O} {k : A o → Call O A ρ} {s : σ} {calls : List (κ × Call O A ρ)}
    {own : ℕ → Set τ} (i : ι) (hnext : calls[n]? = some (a, .ask o k)) (hfine : ok o s)
    (h : Sound exec ok L G q s₀ own ⟨s, calls⟩) :
    L.rel s (exec o i s).1 ∧ G a s (exec o i s).1 ∧
      ∃ own', Sound exec ok L G q s₀ own' ⟨(exec o i s).1, calls.set n (a, k (exec o i s).2)⟩ := by
  obtain ⟨mine, hmove, hrest⟩ := (h.calls n _ hnext).next hfine i
  have hlength : n < calls.length := (List.getElem?_eq_some_iff.1 hnext).1
  -- nobody else owns what the acting call owns or takes
  have hforeign : ∀ m, m ≠ n → ∀ x ∈ own m, x ∉ mine := by
    intro m hm x hx hmine
    rcases hmove.taken x hmine with hx' | hx'
    · exact h.apart m n hm x hx hx'
    · exact hx' (h.issued m x hx)
  refine ⟨hmove.rel, hmove.guar, Function.update own n mine, ⟨L.trans h.reached hmove.rel, fun m c hc => ?_, fun m x hx => ?_,
    fun m m' hmm x hx hx' => ?_⟩⟩
  · dsimp only at hc
    rcases eq_or_ne m n with rfl | hm
    · rw [List.getElem?_set_self hlength] at hc
      obtain rfl := Option.some.inj hc
      rw [Function.update_self]
      exact hrest
    · rw [List.getElem?_set_ne hm.symm] at hc
      rw [Function.update_of_ne hm]
      exact (h.calls m c hc).stable
        ⟨hmove.rel, fun x hx => hmove.others x (h.apart m n hm x hx) (h.issued m x hx)⟩
  · rcases eq_or_ne m n with rfl | hm
    · rw [Function.update_self] at hx; exact hmove.issued x hx
    · rw [Function.update_of_ne hm] at hx; exact L.issued_mono hmove.rel (h.issued m x hx)
  · rcases eq_or_ne m n with rfl | hm
    · rw [Function.update_self] at hx
      rw [Function.update_of_ne hmm.symm] at hx'
      exact hforeign m' hmm.symm x hx' hx
    · rw [Function.update_of_ne hm] at hx
      rcases eq_or_ne m' n with rfl | hm'
      · rw [Function.update_self] at hx'; exact hforeign m hm x hx hx'
      · rw [Function.update_of_ne hm'] at hx'; exact h.apart m m' hmm x hx hx'

theorem step_sound {m : Turn κ ι} {own : ℕ → Set τ} (hruns : Runs exec ok code other L G q s₀)
    (h : Sound exec ok L G q s₀ own S) (hstep : Step exec ok code other S m T) :
    L.rel S.shared T.shared ∧ ∃ own', Sound exec ok L G q s₀ own' T := by
  cases hstep with
  | call a => exact ⟨L.refl _, _, sound_call hruns h⟩
  | act i hnext hfine =>
    obtain ⟨hrel, -, hsound⟩ := sound_act i hnext hfine h
    exact ⟨hrel, hsound⟩
  | other hhappens =>
    obtain ⟨hrel, hkeeps⟩ := hruns.other _ _ h.reached hhappens
    exact ⟨hrel, own, L.trans h.reached hrel,
      fun n c hc => (h.calls n c hc).stable ⟨hrel, fun x hx => hkeeps x (h.issued n x hx)⟩,
      fun n x hx => L.issued_mono hrel (h.issued n x hx), h.apart⟩

theorem run_sound (hruns : Runs exec ok code other L G q s₀) (h : Trace (Step exec ok code other) ⟨s₀, []⟩ tr S) :
    (∃ own, Sound exec ok L G q s₀ own S) ∧
      ∀ e ∈ tr, (∃ own, Sound exec ok L G q s₀ own e.before) ∧ ∃ own, Sound exec ok L G q s₀ own e.after :=
  h.inv ⟨fun _ => ∅, L.refl s₀, fun _ _ hc => (by simp at hc), fun _ _ hx => hx.elim, fun _ _ _ _ hx => hx.elim⟩
    fun _ _ _ hs hstep => (step_sound hruns hs.choose_spec hstep).2

/-- each step of a run stays within `rel`, and so does the run -/
theorem run_within (hruns : Runs exec ok code other L G q s₀) (h : Trace (Step exec ok code other) ⟨s₀, []⟩ tr S) :
    L.rel s₀ S.shared ∧ ∀ e ∈ tr, L.rel s₀ e.before.shared ∧ L.rel e.before.shared e.after.shared := by
  obtain ⟨⟨own, hsound⟩, hall⟩ := run_sound hruns h
  refine ⟨hsound.reached, fun e he => ?_⟩
  obtain ⟨own', hbefore⟩ := (hall e he).1
  exact ⟨hbefore.reached, (step_sound hruns hbefore (h.entry e he)).1⟩

/-- each operation of a call keeps to what the call guarantees -/
theorem run_guar (hruns : Runs exec ok code other L G q s₀) (h : Trace (Step exec ok code other) ⟨s₀, []⟩ tr S) {n : ℕ}
    {i : ι} {c : κ × Call O A ρ} : ∀ e ∈ tr, e.act = .act n i → e.before.calls[n]? = some c →
      G c.1 e.before.shared e.after.shared := by
  rintro ⟨before, m, after⟩ he rfl hc
  obtain ⟨own, hsound⟩ := ((run_sound hruns h).2 _ he).1
  have hstep := h.entry _ he
  dsimp only at hstep hc hsound ⊢
  cases hstep with
  | act i hnext hfine =>
    obtain rfl := Option.some.inj (hnext.symm.trans hc)
    exact (sound_act i hnext hfine hsound).2.1

/-- what a finished call returned is as it should be -/
theorem run_meets (hruns : Runs exec ok code other L G q s₀) (h : Trace (Step exec ok code other) ⟨s₀, []⟩ tr S) {a : κ}
    {r : ρ} (hdone : (a, .done r) ∈ S.calls) : q a r S.shared := by
  obtain ⟨own, hsound⟩ := (run_sound hruns h).1
  obtain ⟨n, hn⟩ := List.getElem?_of_mem hdone
  exact (hsound.calls n _ hn).result

/-- a call that acts does its next operation -/
theorem step_act {n : ℕ} {i : ι} {a : κ} {o : O} {k : A o → Call O A ρ} (h : Step exec ok code other S (.act n i) T)
    (hnext : S.calls[n]? = some (a, .ask o k)) : T.shared = (exec o i S.shared).1 := by
  cases h with
  | act i hn hfine => cases Option.some.inj (hn.symm.trans hnext); rfl

/-- calls stay, with their arguments -/
theorem step_args {m : Turn κ ι} (h : Step exec ok code other S m T) :
    S.calls.map Prod.fst <+: T.calls.map Prod.fst := by
  cases h with
  | call a => simp
  | act i hnext hfine =>
    rename_i s calls n a o k
    obtain ⟨hlength, hn⟩ := List.getElem?_eq_some_iff.1 hnext
    have heq : (calls.map Prod.fst).set n a = calls.map Prod.fst := by
      have hself := List.set_getElem_self (show n < (calls.map Prod.fst).length by simpa using hlength)
      rwa [List.getElem_map, hn] at hself
    dsimp only
    rw [List.map_set, heq]
  | other _ => exact List.prefix_refl _

/-- in a run of calls whose operations all satisfy `p`, each operation done does -/
theorem run_asks {p : O → Prop} (h : Trace (Step exec Call.always code other) ⟨s₀, []⟩ tr S)
    (hcode : ∀ a ∈ S.calls.map Prod.fst, (code a).Asks p) :
    Trace (Step exec (fun o _ => p o) code other) ⟨s₀, []⟩ tr S ∧ ∀ c ∈ S.calls, c.2.Asks p := by
  induction h with
  | nil => exact ⟨.nil, fun _ hc => nomatch hc⟩
  | snoc hrun hnext ih =>
    obtain ⟨htrace, hasks⟩ := ih fun a ha => hcode a ((step_args hnext).subset ha)
    cases hnext with
    | call a =>
      refine ⟨.snoc htrace (.call a), fun c hc => ?_⟩
      rcases List.mem_append.1 hc with hc | hc
      · exact hasks c hc
      · rw [List.mem_singleton] at hc
        subst hc
        exact hcode a (by simp)
    | act i hn _ =>
      have hacting := Call.asks_ask.1 (hasks _ (List.mem_of_getElem? hn))
      refine ⟨.snoc htrace (.act i hn hacting.1), fun c hc => ?_⟩
      rcases List.mem_or_eq_of_mem_set hc with hc | rfl
      · exact hasks c hc
      · exact hacting.2 _
    | other hhappens => exact ⟨.snoc htrace (.other hhappens), hasks⟩

/-! ### The way of a call -/

/-- the states in which the `n`th call did its operations -/
def visited (n : ℕ) (tr : List (Entry (System σ κ O A ρ) (Turn κ ι))) : List σ :=
  tr.filterMap fun e =>
    match e.act with
    | .act m _ => if m = n then some e.before.shared else none
    | _ => none

theorem mem_visited {n : ℕ} {s : σ} (h : s ∈ visited n tr) :
    ∃ e ∈ tr, (∃ i, e.act = .act n i) ∧ e.before.shared = s := by
  obtain ⟨⟨before, act, after⟩, he, hs⟩ := List.mem_filterMap.1 h
  cases act with
  | act m i =>
    dsimp only at hs
    split_ifs at hs with hm
    subst hm
    exact ⟨_, he, ⟨i, rfl⟩, Option.some.inj hs⟩
  | _ => cases hs

/-- each call got where it is on its own way, through states of the run -/
theorem run_path (h : Trace (Step exec ok code other) ⟨s₀, []⟩ tr S) :
    (∀ n, S.calls.length ≤ n → visited n tr = []) ∧
      ∀ n a c, S.calls[n]? = some (a, c) → (code a).Path exec (visited n tr) c := by
  induction h with
  | nil => exact ⟨fun _ _ => rfl, fun n a c hc => (by simp at hc)⟩
  | snoc hrun hnext ih =>
    rename_i tr S T m
    obtain ⟨hnone, hpath⟩ := ih
    have hvisited : ∀ n, visited n (tr ++ [⟨S, m, T⟩]) = visited n tr ++ visited n [⟨S, m, T⟩] :=
      fun n => List.filterMap_append
    cases hnext with
    | call a' =>
      refine ⟨fun n hn => ?_, fun n a c hc => ?_⟩
      · simp only [List.length_append, List.length_singleton] at hn
        rw [hvisited, hnone n (show _ ≤ n by dsimp only; omega)]
        rfl
      · rw [hvisited, show visited n [⟨_, Turn.call a', _⟩] = [] from rfl, List.append_nil]
        dsimp only at hc
        rw [List.getElem?_append] at hc
        split_ifs at hc with hn
        · exact hpath n a c hc
        · obtain ⟨hlt, heq⟩ := List.getElem?_eq_some_iff.1 hc
          simp only [List.getElem_singleton, Prod.mk.injEq] at heq
          obtain ⟨rfl, rfl⟩ := heq
          rw [hnone n (by dsimp only; omega)]
          rfl
    | act i hn hfine =>
      rename_i s calls k a' o q
      have hlength : k < calls.length := (List.getElem?_eq_some_iff.1 hn).1
      refine ⟨fun n hle => ?_, fun n a c hc => ?_⟩
      · simp only [List.length_set] at hle
        have hne : k ≠ n := by omega
        rw [hvisited, hnone n hle]
        simp [visited, hne]
      · rw [hvisited]
        rcases eq_or_ne k n with rfl | hne
        · simp only [List.getElem?_set_self hlength, Option.some.injEq, Prod.mk.injEq] at hc
          obtain ⟨rfl, rfl⟩ := hc
          rw [show visited k [⟨_, Turn.act k i, _⟩] = [s] by simp [visited]]
          exact (hpath k _ _ hn).snoc i s
        · simp only [List.getElem?_set_ne hne] at hc
          rw [show visited n [⟨_, Turn.act k i, _⟩] = [] by simp [visited, hne], List.append_nil]
          exact hpath n a c hc
    | other hhappens =>
      refine ⟨fun n hle => ?_, fun n a c hc => ?_⟩
      · rw [hvisited, hnone n hle]
        rfl
      · rw [hvisited, show visited n [⟨_, Turn.other, _⟩] = [] from rfl, List.append_nil]
        exact hpath n a c hc

/-- and so it did before each step of the run -/
theorem entry_path (h : Trace (Step exec ok code other) ⟨s₀, []⟩ tr S) {e : Entry (System σ κ O A ρ) (Turn κ ι)}
    (he : e ∈ tr) : ∃ tr', tr' <+: tr ∧ ∀ n a c, e.before.calls[n]? = some (a, c) → (code a).Path exec (visited n tr') c := by
  obtain ⟨front, back, rfl⟩ := List.append_of_mem he
  exact ⟨front, List.prefix_append _ _, fun n a c => (run_path h.before).2 n a c⟩

/-! ## Driving a system -/

section Drive

variable (exec : (o : O) → ι → σ → σ × A o) (ok : O → σ → Prop) [∀ o s, Decidable (ok o s)] (code : κ → Call O A ρ)

/-- a call is made, or the `n`th call does its next operation -/
def next (S : System σ κ O A ρ) : Turn κ ι → Option (System σ κ O A ρ)
  | .call a => some ⟨S.shared, S.calls ++ [(a, code a)]⟩
  | .act n i =>
    match S.calls[n]? with
    | some (a, .ask o k) =>
      if ok o S.shared then some ⟨(exec o i S.shared).1, S.calls.set n (a, k (exec o i S.shared).2)⟩ else none
    | _ => none
  | .other => none

/-- these moves one after the other -/
def drive (S : System σ κ O A ρ) : List (Turn κ ι) → Option (System σ κ O A ρ)
  | [] => some S
  | m :: ms => (next exec ok code S m).bind fun T => drive T ms

variable {exec ok code}

theorem next_step {m : Turn κ ι} (h : next exec ok code S m = some T) : Step exec ok code other S m T := by
  cases m with
  | call a => cases h; exact .call a
  | act n i =>
    simp only [next] at h
    split at h
    · rename_i a o k hn
      split_ifs at h with hok
      cases h
      exact .act i hn hok
    · cases h
  | other => cases h

theorem drive_trace {ms : List (Turn κ ι)} (h : drive exec ok code S ms = some T) :
    ∃ tr, Trace (Step exec ok code other) S tr T := by
  induction ms generalizing S with
  | nil => cases h; exact ⟨[], .nil⟩
  | cons m ms ih =>
    obtain ⟨U, hU, hT⟩ := Option.bind_eq_some_iff.1 h
    obtain ⟨tr, htr⟩ := ih hT
    exact ⟨_, (Trace.single (next_step hU)).append htr⟩

theorem drive_append (ms ms' : List (Turn κ ι)) :
    drive exec ok code S (ms ++ ms') = (drive exec ok code S ms).bind fun U => drive exec ok code U ms' := by
  induction ms generalizing S with
  | nil => rfl
  | cons m ms ih =>
    simp only [List.cons_append, drive, Option.bind_assoc]
    exact congrArg (Option.bind _) (funext fun U => ih)

/-- the last move of a run is its last step -/
theorem drive_last {ms : List (Turn κ ι)} {m : Turn κ ι} (h : drive exec ok code S (ms ++ [m]) = some T) :
    ∃ tr U, Trace (Step exec ok code other) S (tr ++ [⟨U, m, T⟩]) T := by
  rw [drive_append] at h
  obtain ⟨U, hU, hT⟩ := Option.bind_eq_some_iff.1 h
  obtain ⟨V, hV, hlast⟩ := Option.bind_eq_some_iff.1 hT
  obtain rfl := Option.some.inj hlast
  obtain ⟨tr, htr⟩ := drive_trace hU
  exact ⟨tr, U, htr.snoc (next_step hV)⟩

end Drive

end System
