/-
Texts of a fixed width that sort as the numbers they print, and the date and time of a second as one of them. Nothing here
is about one program.

- `Fixed`: a text for each number below a bound, of one length, in the order of the numbers. `Fixed.pad`: decimals with
  leading zeros. `Fixed.join`: two such texts with a separator between them.
- `isoSecond`: `YYYY-MM-DDTHH:MM:SS` of a second since the year 1, in the proleptic Gregorian calendar. `isoSecond_fixed`.
- `append_lt_append`, `append_lt_left`: of two texts the first difference decides.
-/
import Mathlib.Tactic

namespace FixedWidth

/-! ## Texts and their order -/

variable {a b c d : List Char}

/-- the first difference decides -/
theorem append_lt_append (hlen : a.length = b.length) (h : a < b) : a ++ c < b ++ d := by
  induction a generalizing b with
  | nil =>
    cases b with
    | nil => exact absurd h (List.lt_irrefl _)
    | cons y b => cases hlen
  | cons x a ih =>
    cases b with
    | nil => cases hlen
    | cons y b =>
      rw [List.cons_append, List.cons_append, List.cons_lt_cons_iff]
      rcases List.cons_lt_cons_iff.1 h with hlt | ⟨heq, hlt⟩
      · exact Or.inl hlt
      · exact Or.inr ⟨heq, ih (by simpa using hlen) hlt⟩

theorem append_lt_left (a : List Char) (h : b < c) : a ++ b < a ++ c := by
  induction a with
  | nil => exact h
  | cons x a ih => exact List.cons_lt_cons_iff.2 (Or.inr ⟨rfl, ih⟩)

/-- a text for each number below `N`, of length `w`, in the order of the numbers -/
structure Fixed (t : ℕ → List Char) (N w : ℕ) : Prop where
  length : ∀ n < N, (t n).length = w
  mono : ∀ m n, m < n → n < N → t m < t n

section Fixed

variable {t p : ℕ → List Char} {N A w u v m n : ℕ}

theorem Fixed.inj (h : Fixed t N w) (hm : m < N) (hn : n < N) (heq : t m = t n) : m = n := by
  rcases Nat.lt_trichotomy m n with hlt | hsame | hlt
  · exact absurd (h.mono m n hlt hn) (heq ▸ List.lt_irrefl _)
  · exact hsame
  · exact absurd (h.mono n m hlt hm) (heq ▸ List.lt_irrefl _)

/-- two texts one after the other: the second counts where the first is the same -/
theorem Fixed.join (hp : Fixed p A u) (sep : List Char) {q : ℕ → ℕ} {r : ℕ → List Char} (hq : ∀ n < N, q n < A)
    (hlen : ∀ n < N, (r n).length = v) (hlex : ∀ m n, m < n → n < N → q m < q n ∨ q m = q n ∧ r m < r n) :
    Fixed (fun n => p (q n) ++ (sep ++ r n)) N (u + (sep.length + v)) := by
  constructor
  · intro n hn
    rw [List.length_append, List.length_append, hp.length _ (hq n hn), hlen n hn]
  · intro m n hlt hn
    have hm := hlt.trans hn
    rcases hlex m n hlt hn with hfirst | ⟨hsame, hsecond⟩
    · exact append_lt_append ((hp.length _ (hq m hm)).trans (hp.length _ (hq n hn)).symm) (hp.mono _ _ hfirst (hq n hn))
    · simp only [hsame]
      exact append_lt_left _ (append_lt_left _ hsecond)

/-! ## Decimals -/

/-- the last `w` decimal digits -/
def pad : ℕ → ℕ → List Char
  | 0, _ => []
  | w + 1, n => pad w (n / 10) ++ [Nat.digitChar (n % 10)]

theorem pad_length (w n : ℕ) : (pad w n).length = w := by
  induction w generalizing n with
  | zero => rfl
  | succ w ih => rw [pad, List.length_append, ih, List.length_singleton]

theorem digitChar_lt {m n : ℕ} (h : m < n) (hn : n < 10) : Nat.digitChar m < Nat.digitChar n := by
  interval_cases n <;> interval_cases m <;> decide

theorem Fixed.pad (w : ℕ) : Fixed (pad w) (10 ^ w) w := by
  refine ⟨fun n _ => pad_length w n, ?_⟩
  induction w with
  | zero =>
    intro m n hlt hn
    omega
  | succ w ih =>
    intro m n hlt hn
    have hn10 : n / 10 < 10 ^ w := by omega
    rcases (Nat.div_le_div_right hlt.le : m / 10 ≤ n / 10).lt_or_eq with hdiv | hdiv
    · exact append_lt_append (by rw [pad_length, pad_length]) (ih _ _ hdiv hn10)
    · simp only [FixedWidth.pad, hdiv]
      exact append_lt_left _ (List.cons_lt_cons_iff.2 (Or.inl (digitChar_lt (by omega) (by omega))))

/-- digits are digits -/
theorem mem_pad {w n : ℕ} {x : Char} (h : x ∈ FixedWidth.pad w n) : '0' ≤ x ∧ x ≤ '9' := by
  induction w generalizing n with
  | zero => cases h
  | succ w ih =>
    rcases List.mem_append.1 h with h | h
    · exact ih h
    · rw [List.mem_singleton.1 h]
      have hlt : n % 10 < 10 := Nat.mod_lt _ (by decide)
      interval_cases n % 10 <;> decide

/-- the digits of a number are those of its quotient, and then those of the rest -/
theorem pad_add (w v n : ℕ) : FixedWidth.pad (w + v) n = FixedWidth.pad w (n / 10 ^ v) ++ FixedWidth.pad v (n % 10 ^ v) := by
  induction v generalizing n with
  | zero => simp [FixedWidth.pad]
  | succ v ih =>
    have hdiv : n / 10 / 10 ^ v = n / 10 ^ (v + 1) := by rw [Nat.div_div_eq_div_mul, pow_succ']
    have hmod : n / 10 % 10 ^ v = n % 10 ^ (v + 1) / 10 := by rw [pow_succ', Nat.mod_mul_right_div_self]
    have hlast : n % 10 = n % 10 ^ (v + 1) % 10 := by rw [pow_succ', Nat.mod_mul_right_mod]
    rw [← Nat.add_assoc, FixedWidth.pad, ih, FixedWidth.pad, hdiv, hmod, hlast, List.append_assoc]

end Fixed

/-! ## Parts of a number -/

section Parts

variable {f : ℕ → ℕ} {K m n : ℕ}

/-- how many of the boundaries a number has passed -/
def part (f : ℕ → ℕ) (K n : ℕ) : ℕ := Nat.findGreatest (fun k => f k ≤ n) K

theorem part_le : part f K n ≤ K := Nat.findGreatest_le K

/-- the boundary is passed -/
theorem boundary_le (h0 : f 0 = 0) : f (part f K n) ≤ n :=
  @Nat.findGreatest_spec 0 (fun k => f k ≤ n) _ K (Nat.zero_le K) (by simp [h0])

/-- the next one is not -/
theorem lt_boundary (h : part f K n < K) : n < f (part f K n + 1) :=
  not_le.1 (@Nat.findGreatest_is_greatest _ (fun k => f k ≤ n) _ K (Nat.lt_succ_self _) h)

/-- a larger number is in a later part, or further on in the same -/
theorem part_lex (h0 : f 0 = 0) (hlt : m < n) :
    part f K m < part f K n ∨ part f K m = part f K n ∧ m - f (part f K m) < n - f (part f K n) := by
  have hle : part f K m ≤ part f K n := Nat.findGreatest_mono_left (fun k hk => hk.trans hlt.le) K
  rcases hle.lt_or_eq with hpart | hpart
  · exact Or.inl hpart
  · refine Or.inr ⟨hpart, ?_⟩
    have hm : f (part f K m) ≤ m := boundary_le h0
    rw [hpart] at hm ⊢
    omega

/-- what lies behind the boundary is shorter than a part can be -/
theorem rest_lt (h0 : f 0 = 0) {L : ℕ} (hstep : ∀ k < K, f (k + 1) ≤ f k + L) (hend : n < f K + L) :
    n - f (part f K n) < L := by
  have hle : f (part f K n) ≤ n := boundary_le h0
  rcases (part_le : part f K n ≤ K).lt_or_eq with hlt | heq
  · exact Nat.sub_lt_left_of_lt_add hle ((lt_boundary hlt).trans_le (hstep _ hlt))
  · rw [heq] at hle ⊢
    exact Nat.sub_lt_left_of_lt_add hle hend

end Parts

/-! ## Dates and times -/

/-- the days of the years before the year `y + 1` -/
def daysBefore (y : ℕ) : ℕ := 365 * y + y / 4 - y / 100 + y / 400

def isLeap (y : ℕ) : Bool := (y + 1) % 4 = 0 && ((y + 1) % 100 ≠ 0 || (y + 1) % 400 = 0)

/-- the days of the months before one, counted from 0 -/
def monthStart (leap : Bool) (m : ℕ) : ℕ :=
  [0, 31, 59, 90, 120, 151, 181, 212, 243, 273, 304, 334].getD m 365 + if leap && 2 ≤ m then 1 else 0

/-- `MM-DD` of a day of a year -/
def isoDay (leap : Bool) (day : ℕ) : List Char :=
  let m := part (monthStart leap) 11 day
  pad 2 (m + 1) ++ (['-'] ++ pad 2 (day - monthStart leap m + 1))

/-- `YYYY-MM-DD` of a day since the year 1 -/
def isoDate (days : ℕ) : List Char :=
  let y := part daysBefore 9998 days
  pad 4 (y + 1) ++ (['-'] ++ isoDay (isLeap y) (days - daysBefore y))

/-- `HH:MM:SS` of a second of a day -/
def isoTime (second : ℕ) : List Char :=
  pad 2 (second / 3600) ++ ([':'] ++ (pad 2 (second / 60 % 60) ++ ([':'] ++ pad 2 (second % 60))))

/-- the days of the years 1 to 9999 -/
def allDays : ℕ := 3652059

/-- `YYYY-MM-DDTHH:MM:SS` of a second since the year 1 -/
def isoSecond (second : ℕ) : List Char := isoDate (second / 86400) ++ (['T'] ++ isoTime (second % 86400))

theorem isoDay_fixed (leap : Bool) : Fixed (isoDay leap) 366 5 := by
  have h0 : monthStart leap 0 = 0 := by cases leap <;> rfl
  have hrest : ∀ day < 366, day - monthStart leap (part (monthStart leap) 11 day) < 98 := by
    intro day hday
    refine rest_lt h0 (fun k hk => ?_) ?_
    · cases leap <;> interval_cases k <;> decide
    · cases leap <;> simp [monthStart] <;> omega
  have hpadded : ∀ m n, m < n → n < 98 → pad 2 (m + 1) < pad 2 (n + 1) := fun m n hlt hn =>
    (Fixed.pad 2).mono _ _ (by omega) (by omega)
  refine Fixed.join (Fixed.pad 2) ['-'] (q := fun day => part (monthStart leap) 11 day + 1) (fun n _ => ?_)
    (fun n _ => pad_length 2 _) fun m n hlt hn => ?_
  · have hle : part (monthStart leap) 11 n ≤ 11 := part_le
    omega
  · rcases part_lex h0 hlt (K := 11) with hpart | ⟨hpart, hday⟩
    · exact Or.inl (Nat.succ_lt_succ hpart)
    · exact Or.inr ⟨congrArg Nat.succ hpart, hpadded _ _ hday (hrest n hn)⟩

theorem isoDate_fixed : Fixed isoDate allDays 10 := by
  have hrest : ∀ days < allDays, days - daysBefore (part daysBefore 9998 days) < 366 := by
    intro days hdays
    refine rest_lt rfl (fun k _ => ?_) ?_
    · unfold daysBefore
      omega
    · unfold allDays at hdays
      simp [daysBefore]
      omega
  refine Fixed.join (Fixed.pad 4) ['-'] (q := fun days => part daysBefore 9998 days + 1)
    (r := fun days => isoDay (isLeap (part daysBefore 9998 days)) (days - daysBefore (part daysBefore 9998 days)))
    (fun n _ => ?_) (fun n hn => (isoDay_fixed _).length _ (hrest n hn)) fun m n hlt hn => ?_
  · have hle : part daysBefore 9998 n ≤ 9998 := part_le
    omega
  · rcases part_lex rfl hlt (K := 9998) (f := daysBefore) with hpart | ⟨hpart, hday⟩
    · exact Or.inl (Nat.succ_lt_succ hpart)
    · refine Or.inr ⟨congrArg Nat.succ hpart, ?_⟩
      simp only [hpart] at hday ⊢
      exact (isoDay_fixed _).mono _ _ hday (hrest n hn)

theorem isoTime_fixed : Fixed isoTime 86400 8 := by
  have hminute : Fixed (fun s => pad 2 (s / 60 % 60) ++ ([':'] ++ pad 2 (s % 60))) 3600 5 := by
    refine Fixed.join (Fixed.pad 2) [':'] (q := fun s => s / 60 % 60) (fun n _ => by omega) (fun n _ => pad_length 2 _)
      fun m n hlt hn => ?_
    by_cases hsame : m / 60 = n / 60
    · exact Or.inr ⟨by rw [hsame], (Fixed.pad 2).mono _ _ (by omega) (by omega)⟩
    · exact Or.inl (by omega)
  have hshift : ∀ s, pad 2 (s / 60 % 60) ++ ([':'] ++ pad 2 (s % 60)) =
      pad 2 (s % 3600 / 60 % 60) ++ ([':'] ++ pad 2 (s % 3600 % 60)) := fun s => by
    rw [show s % 3600 / 60 % 60 = s / 60 % 60 by omega, show s % 3600 % 60 = s % 60 by omega]
  refine @Fixed.join _ 86400 _ _ 5 (Fixed.pad 2) [':'] (fun s => s / 3600)
    (fun s => pad 2 (s / 60 % 60) ++ ([':'] ++ pad 2 (s % 60))) (fun n hn => by omega)
    (fun n _ => by simp [pad_length]) fun m n hlt hn => ?_
  by_cases hsame : m / 3600 = n / 3600
  · refine Or.inr ⟨hsame, ?_⟩
    rw [hshift m, hshift n]
    exact hminute.mono _ _ (by omega) (Nat.mod_lt _ (by decide))
  · exact Or.inl (by omega)

/-- **The date and time of a second** take 19 characters, and sort as the seconds do, up to the end of the year 9999. -/
theorem isoSecond_fixed : Fixed isoSecond (allDays * 86400) 19 := by
  refine Fixed.join isoDate_fixed ['T'] (q := fun s => s / 86400) (r := fun s => isoTime (s % 86400))
    (fun n hn => by unfold allDays at hn ⊢; omega) (fun n _ => isoTime_fixed.length _ (Nat.mod_lt _ (by decide)))
    fun m n hlt hn => ?_
  by_cases hsame : m / 86400 = n / 86400
  · exact Or.inr ⟨hsame, isoTime_fixed.mono _ _ (by omega) (Nat.mod_lt _ (by decide))⟩
  · exact Or.inl (by omega)

example : isoSecond 62135596800 = "1970-01-01T00:00:00".toList := by decide +kernel

end FixedWidth
