/-
Times of A2A tasks as texts (`list` of `cloud/a2a_store.py`): tasks are filtered by `status_timestamp_after` and sorted by
comparing what `ToJsonString` prints, with 0, 3, 6 or 9 digits of a second as needed.

- `text_lt_iff`: texts are in the order of the instants, but for two in the same second where one is the other cut to the
  digits it is printed with (`Cut`): the shorter text is the larger one, as `Z` comes after every digit.
- `chronological_exact`: a listing has exactly the tasks at or after the threshold, newest first, if and only if there is no
  such pair among the threshold and the tasks' times (`Unmixed`).
- `half_second`: half past a whole second is taken to be before it, and a microsecond later still to be earlier.
-/
import Mathlib.Data.String.Basic
import Rally.Cloud.TaskStore

namespace Rally.Cloud.TaskStore

open FixedWidth

/-! ## Instants -/

/-- nanoseconds since 1970 -/
def Timestamp.instant (t : Timestamp) : ℤ := t.seconds * 10 ^ 9 + t.nanos

/-- how many digits of nanoseconds are not printed -/
def unprinted (nanos : ℕ) : ℕ :=
  if nanos = 0 then 9 else if nanos % 10 ^ 6 = 0 then 6 else if nanos % 10 ^ 3 = 0 then 3 else 0

/-- the one is the other, cut to the digits that it is printed with itself -/
def Cut (a b : Timestamp) : Prop :=
  a.seconds = b.seconds ∧ a.nanos < b.nanos ∧ b.nanos / 10 ^ unprinted a.nanos * 10 ^ unprinted a.nanos = a.nanos

instance (a b : Timestamp) : Decidable (Cut a b) := by unfold Cut; infer_instance

section Fractions

variable {m n e f : ℕ}

/-- the digits and the `Z` -/
def body (e n : ℕ) : List Char := pad (9 - e) (n / 10 ^ e) ++ ['Z']

theorem unprinted_dvd (n : ℕ) : n / 10 ^ unprinted n * 10 ^ unprinted n = n := by
  unfold unprinted
  split_ifs with h0 h6 h3
  · omega
  · omega
  · omega
  · omega

theorem fraction_eq (h0 : n ≠ 0) : fraction n = '.' :: body (unprinted n) n ∧ unprinted n ≤ 6 := by
  unfold fraction unprinted body
  rw [if_neg h0, if_neg h0]
  split_ifs <;> simp

/-- the first digits of a text, cut where fewer are printed -/
theorem body_split (he : e ≤ f) (hf : f ≤ 9) : body e n = pad (9 - f) (n / 10 ^ f) ++ (pad (f - e) (n / 10 ^ e % 10 ^ (f - e)) ++ ['Z']) := by
  have hdigits : 9 - e = 9 - f + (f - e) := by omega
  rw [body, hdigits, pad_add, Nat.div_div_eq_div_mul, ← pow_add, Nat.add_sub_cancel' he, List.append_assoc]

/-- a difference in the digits that both print decides -/
theorem body_lt (hf : max e f ≤ 9) (hn : n < 10 ^ 9) (h : m / 10 ^ max e f < n / 10 ^ max e f) : body e m < body f n := by
  rw [body_split (le_max_left e f) hf, body_split (le_max_right e f) hf]
  refine append_lt_append (by rw [pad_length, pad_length]) ((Fixed.pad _).mono _ _ h ?_)
  rw [Nat.div_lt_iff_lt_mul (by positivity), ← pow_add, Nat.sub_add_cancel hf]
  exact hn

/-- where one is printed with more digits, it comes before the other -/
theorem body_lt_cut (he : f < e) (h9 : e ≤ 9) (h : m / 10 ^ e = n / 10 ^ e) : body f n < body e m := by
  rw [body_split he.le h9, body, h]
  refine append_lt_left _ ?_
  obtain ⟨d, hd⟩ : ∃ d, e - f = d + 1 := ⟨e - f - 1, by omega⟩
  rw [hd]
  cases hdigits : pad (d + 1) (n / 10 ^ f % 10 ^ (d + 1)) with
  | nil => exact absurd (congrArg List.length hdigits) (by rw [pad_length]; exact Nat.succ_ne_zero d)
  | cons x digits =>
    have hx : x ≤ '9' := (mem_pad (hdigits ▸ List.mem_cons_self)).2
    exact List.cons_lt_cons_iff.2 (Or.inl (@lt_of_le_of_lt Char _ x '9' 'Z' hx (by decide)))

/-- the fractions of one second: in order, but for one that is the other cut -/
theorem fraction_lt (hlt : m < n) (hn : n < 10 ^ 9) :
    if n / 10 ^ unprinted m * 10 ^ unprinted m = m then fraction n < fraction m else fraction m < fraction n := by
  have hn0 : n ≠ 0 := by omega
  obtain ⟨hfn, hn6⟩ := fraction_eq hn0
  have hnd := unprinted_dvd n
  by_cases hm0 : m = 0
  · subst hm0
    rw [if_pos (by rw [unprinted, if_pos rfl, Nat.div_eq_of_lt hn, Nat.zero_mul]), hfn]
    exact List.cons_lt_cons_iff.2 (Or.inl (by decide))
  · obtain ⟨hfm, hm6⟩ := fraction_eq hm0
    have hmd := unprinted_dvd m
    rw [hfm, hfn, List.cons_lt_cons_iff, List.cons_lt_cons_iff]
    have hmono : ∀ g, m / 10 ^ g ≤ n / 10 ^ g := fun g => Nat.div_le_div_right hlt.le
    split_ifs with hcut
    · refine Or.inr ⟨rfl, body_lt_cut ?_ (by omega) ?_⟩
      · -- were as many digits of `n` left out, cutting it would change nothing
        by_contra hle
        have hdvd : 10 ^ unprinted m ∣ n :=
          (pow_dvd_pow 10 (not_lt.1 hle)).trans (Dvd.intro_left _ hnd)
        rw [Nat.div_mul_cancel hdvd] at hcut
        omega
      · rw [← Nat.mul_div_cancel (n / 10 ^ unprinted m) (show 0 < 10 ^ unprinted m by positivity), hcut]
    · refine Or.inr ⟨rfl, body_lt (by omega) hn ?_⟩
      rcases le_total (unprinted n) (unprinted m) with hle | hle
      · rw [max_eq_left hle]
        refine lt_of_le_of_ne (hmono _) fun heq => hcut ?_
        rw [← heq, hmd]
      · rw [max_eq_right hle]
        refine lt_of_le_of_ne (hmono _) fun heq => ?_
        have hback : n ≤ m := by
          rw [← hnd, ← heq]
          exact Nat.div_mul_le_self _ _
        omega

end Fractions

section Texts

variable {P : Platform} {a b : Timestamp}

theorem second_lt (t : Timestamp) : t.second < allDays * 86400 := by
  have hearly := t.early
  have hlate := t.late
  unfold Timestamp.second allDays
  omega

/-- the texts of two instants, the first one earlier -/
theorem text_of_lt (hsecond : Fixed P.second (allDays * 86400) 19) (h : a.instant < b.instant) :
    if Cut a b then toJsonString P b < toJsonString P a else toJsonString P a < toJsonString P b := by
  have ha := a.small
  have hb := b.small
  have hae := a.early
  have hbe := b.early
  unfold Timestamp.instant at h
  unfold toJsonString
  rcases lt_trichotomy a.seconds b.seconds with hlt | heq | hgt
  · rw [if_neg fun hcut => hlt.ne hcut.1]
    have hab : a.second < b.second := by
      unfold Timestamp.second
      omega
    exact append_lt_append ((hsecond.length _ (second_lt a)).trans (hsecond.length _ (second_lt b)).symm)
      (hsecond.mono _ _ hab (second_lt b))
  · have hnanos : a.nanos < b.nanos := by omega
    have hsame : a.second = b.second := by rw [Timestamp.second, heq, Timestamp.second]
    have hfraction := fraction_lt hnanos hb
    rw [hsame]
    by_cases hcut : b.nanos / 10 ^ unprinted a.nanos * 10 ^ unprinted a.nanos = a.nanos
    · rw [if_pos hcut] at hfraction
      rw [if_pos (show Cut a b from ⟨heq, hnanos, hcut⟩)]
      exact append_lt_left _ hfraction
    · rw [if_neg hcut] at hfraction
      rw [if_neg fun h : Cut a b => hcut h.2.2]
      exact append_lt_left _ hfraction
  · omega

theorem Cut.lt (h : Cut a b) : a.instant < b.instant := by
  have hsecond := h.1
  have hnanos := h.2.1
  unfold Timestamp.instant
  omega

/-- **The order of the texts** is that of the instants, but for a cut one. -/
theorem text_lt_iff (hsecond : Fixed P.second (allDays * 86400) 19) :
    toJsonString P a < toJsonString P b ↔ (a.instant < b.instant ∧ ¬ Cut a b) ∨ Cut b a := by
  rcases lt_trichotomy a.instant b.instant with hlt | heq | hgt
  · have htext := text_of_lt hsecond hlt
    have hback : ¬ Cut b a := fun hcut => absurd hcut.lt (not_lt.2 hlt.le)
    by_cases hcut : Cut a b
    · rw [if_pos hcut] at htext
      exact iff_of_false (List.lt_asymm htext) (by simp [hcut, hback])
    · rw [if_neg hcut] at htext
      exact iff_of_true htext (Or.inl ⟨hlt, hcut⟩)
  · have hseconds : a.seconds = b.seconds ∧ a.nanos = b.nanos := by
      have ha := a.small
      have hb := b.small
      unfold Timestamp.instant at heq
      omega
    have htext : toJsonString P a = toJsonString P b := by
      rw [toJsonString, toJsonString, Timestamp.second, Timestamp.second, hseconds.1, hseconds.2]
    refine iff_of_false (htext ▸ List.lt_irrefl _) ?_
    rintro (⟨hlt, -⟩ | hcut)
    · exact absurd heq hlt.ne
    · exact absurd heq hcut.lt.ne'
  · have htext := text_of_lt hsecond hgt
    by_cases hcut : Cut b a
    · rw [if_pos hcut] at htext
      exact iff_of_true htext (Or.inr hcut)
    · rw [if_neg hcut] at htext
      exact iff_of_false (List.lt_asymm htext) (by simp [hcut, hgt.le])

end Texts

/-! ## Listings -/

section Listing

variable {P : Platform} {docs : Collection} {owner : String} {params : ListTasksRequest} {tasks : List Task}
  {threshold : Timestamp}

/-- the filters other than that of time -/
def fitsOtherwise (params : ListTasksRequest) (task : Task) : Bool :=
  (params.contextId = "" || task.contextId = params.contextId) && (params.status = 0 || task.state = params.status)

/-- the tasks at or after the threshold, newest first -/
structure Chronological (params : ListTasksRequest) (threshold : Timestamp) (tasks visited : List Task) : Prop where
  exact : ∀ task, task ∈ visited ↔ task ∈ tasks ∧ fitsOtherwise params task = true ∧
    ∃ t, task.timestamp = some t ∧ threshold.instant ≤ t.instant
  newest : visited.Pairwise fun a b => ∀ s t, a.timestamp = some s → b.timestamp = some t → t.instant ≤ s.instant

/-- no time is another one cut, of the threshold and the times of tasks, and of those that are not before it -/
structure Unmixed (params : ListTasksRequest) (threshold : Timestamp) (tasks : List Task) : Prop where
  apart : ∀ task ∈ tasks, fitsOtherwise params task = true → ∀ t, task.timestamp = some t →
    ¬ Cut t threshold ∧ ¬ Cut threshold t
  ordered : ∀ a ∈ tasks, fitsOtherwise params a = true → ∀ b ∈ tasks, fitsOtherwise params b = true → ∀ s t,
    a.timestamp = some s → b.timestamp = some t → threshold.instant ≤ s.instant → threshold.instant ≤ t.instant → ¬ Cut s t

instance : Std.Total (Sorts P) where
  total a b := by
    unfold Sorts
    rcases @lt_trichotomy (List Char) _ (timestampText P a) (timestampText P b) with hlt | heq | hgt
    · exact Or.inr (Or.inl hlt)
    · rcases @le_total String _ a.id b.id with hle | hle
      · exact Or.inr (Or.inr ⟨heq, hle⟩)
      · exact Or.inl (Or.inr ⟨heq.symm, hle⟩)
    · exact Or.inl (Or.inl hgt)

instance : IsTrans Task (Sorts P) where
  trans a b c hab hbc := by
    unfold Sorts at hab hbc ⊢
    rcases hab with hlt | ⟨heq, hle⟩
    · rcases hbc with hlt' | ⟨heq', -⟩
      · exact Or.inl (List.lt_trans hlt' hlt)
      · exact Or.inl (heq' ▸ hlt)
    · rcases hbc with hlt' | ⟨heq', hle'⟩
      · exact Or.inl (heq ▸ hlt')
      · exact Or.inr ⟨heq'.trans heq, String.le_trans hle' hle⟩

theorem listing_sorted : (listing P params tasks).Pairwise (Sorts P) := List.pairwise_insertionSort _ _

/-- what the filter lets through -/
theorem fits_after {task : Task} : fits P { params with statusTimestampAfter := some threshold } task = true ↔
    fitsOtherwise params task = true ∧
      ∃ t, task.timestamp = some t ∧ ¬ toJsonString P t < toJsonString P threshold := by
  unfold fits fitsOtherwise
  rw [Bool.and_eq_true]
  refine and_congr_right fun _ => ?_
  cases task.timestamp with
  | none => simp
  | some t => simp

/-- the texts of two tasks with times -/
theorem timestampText_some {task : Task} {t : Timestamp} (h : task.timestamp = some t) :
    timestampText P task = toJsonString P t := by
  rw [timestampText, h]
  rfl

/-- a listing of times that are not mixed is chronological -/
theorem Unmixed.chronological (hsecond : Fixed P.second (allDays * 86400) 19) (h : Unmixed params threshold tasks) :
    Chronological params threshold tasks
      (listing P { params with statusTimestampAfter := some threshold } tasks) := by
  have hexact : ∀ task, task ∈ listing P { params with statusTimestampAfter := some threshold } tasks ↔
      task ∈ tasks ∧ fitsOtherwise params task = true ∧ ∃ t, task.timestamp = some t ∧ threshold.instant ≤ t.instant := by
    intro task
    rw [mem_listing, fits_after]
    refine and_congr_right fun htask => and_congr_right fun hfits => exists_congr fun t => and_congr_right fun ht => ?_
    obtain ⟨hcut, hcut'⟩ := h.apart task htask hfits t ht
    rw [text_lt_iff hsecond]
    simp [hcut, hcut']
  refine ⟨hexact, (List.Pairwise.and_mem.1 listing_sorted).imp fun hab s t hs ht => ?_⟩
  obtain ⟨ha, hb, hsorts⟩ := hab
  obtain ⟨hta, hfa, s', hs', hle⟩ := (hexact _).1 ha
  obtain ⟨htb, hfb, t', ht', hle'⟩ := (hexact _).1 hb
  obtain rfl : s = s' := Option.some.inj (hs.symm.trans hs')
  obtain rfl : t = t' := Option.some.inj (ht.symm.trans ht')
  have hcut := h.ordered _ hta hfa _ htb hfb s t hs ht hle hle'
  -- a later time would have the larger text
  by_contra hlater
  have htext := text_of_lt hsecond (not_le.1 hlater)
  rw [if_neg hcut] at htext
  unfold Sorts at hsorts
  rw [timestampText_some hs, timestampText_some ht] at hsorts
  rcases hsorts with hlt | ⟨heq, -⟩
  · exact List.lt_asymm hlt htext
  · exact List.lt_irrefl _ (heq ▸ htext)

/-- the time of one task is that of the other, cut -/
def Mixes (a b : Task) : Prop :=
  ∃ s t, Cut s t ∧ ((a.timestamp = some s ∧ b.timestamp = some t) ∨ (a.timestamp = some t ∧ b.timestamp = some s))

instance : Std.Symm fun a b => ¬ Mixes a b where
  symm a b hab := by
    rintro ⟨s, t, hcut, hba | hba⟩
    · exact hab ⟨s, t, hcut, Or.inr hba.symm⟩
    · exact hab ⟨s, t, hcut, Or.inl hba.symm⟩

/-- a chronological listing is one of times that are not mixed -/
theorem Chronological.unmixed (hsecond : Fixed P.second (allDays * 86400) 19)
    (h : Chronological params threshold tasks (listing P { params with statusTimestampAfter := some threshold } tasks)) :
    Unmixed params threshold tasks := by
  constructor
  · intro task htask hfits t ht
    have hmem : task ∈ listing P { params with statusTimestampAfter := some threshold } tasks ↔
        ¬ toJsonString P t < toJsonString P threshold := by
      rw [mem_listing, fits_after]
      simp [htask, hfits, ht]
    have hafter : task ∈ listing P { params with statusTimestampAfter := some threshold } tasks ↔
        threshold.instant ≤ t.instant := by
      rw [h.exact]
      simp [htask, hfits, ht]
    rw [hmem, text_lt_iff hsecond] at hafter
    constructor
    · intro hcut
      have hback : ¬ Cut threshold t := fun hcut' => absurd hcut'.lt (not_lt.2 hcut.lt.le)
      exact absurd (hafter.1 (by simp [hcut, hback])) (not_le.2 hcut.lt)
    · exact fun hcut => (hafter.2 hcut.lt.le) (Or.inr hcut)
  · intro a ha hfa b hb hfb s t hs ht hle hle' hcut
    have hmema := (h.exact a).2 ⟨ha, hfa, s, hs, hle⟩
    have hmemb := (h.exact b).2 ⟨hb, hfb, t, ht, hle'⟩
    have htext := text_of_lt hsecond hcut.lt
    rw [if_pos hcut] at htext
    have hne : a ≠ b := by
      rintro rfl
      rw [hs] at ht
      cases ht
      exact lt_irrefl _ hcut.lt
    -- the later time has the smaller text, so it stands behind the earlier one
    have hapart : (listing P { params with statusTimestampAfter := some threshold } tasks).Pairwise fun x y => ¬ Mixes x y := by
      refine (listing_sorted.and h.newest).imp fun {x y} hxy => ?_
      rintro ⟨s, t, hcut, ⟨hx, hy⟩ | ⟨hx, hy⟩⟩
      · exact absurd (hxy.2 s t hx hy) (not_le.2 hcut.lt)
      · have htext := text_of_lt hsecond hcut.lt
        rw [if_pos hcut] at htext
        have hsorts := hxy.1
        unfold Sorts at hsorts
        rw [timestampText_some hx, timestampText_some hy] at hsorts
        rcases hsorts with hlt | ⟨heq, -⟩
        · exact List.lt_asymm hlt htext
        · exact List.lt_irrefl _ (heq ▸ htext)
    exact hapart.forall hmema hmemb hne ⟨s, t, hcut, Or.inl ⟨hs, ht⟩⟩

/-- **When listings are chronological.** A listing after a threshold returns exactly the tasks at or after it that match
otherwise, newest first, if and only if no time is another one cut to the digits it is printed with. -/
theorem chronological_exact (hsecond : Fixed P.second (allDays * 86400) 19) :
    (∃ visited, Chronological params threshold (ownerTasks docs owner) visited ∧ ∀ k : ℕ, 0 < k → ∃ token,
      list P docs owner { params with statusTimestampAfter := some threshold, pageSize := k, pageToken := "" } =
        .ok ⟨visited.take k, token, k, visited.length⟩) ↔
      Unmixed params threshold (ownerTasks docs owner) := by
  constructor
  · rintro ⟨visited, hchronological, hpages⟩
    obtain ⟨l, hl⟩ : ∃ l, listing P { params with statusTimestampAfter := some threshold } (ownerTasks docs owner) = l := ⟨_, rfl⟩
    obtain ⟨token, hpage⟩ := hpages (visited.length + l.length + 1) (Nat.succ_pos _)
    obtain ⟨token', hpage'⟩ := @list_first P docs owner { params with statusTimestampAfter := some threshold }
      (visited.length + l.length + 1) (Nat.succ_pos _)
    rw [hpage, hl] at hpage'
    have htake := congrArg ListTasksResponse.tasks (Except.ok.inj hpage')
    simp only at htake
    rw [List.take_of_length_le (by omega), List.take_of_length_le (by omega)] at htake
    rw [htake, ← hl] at hchronological
    exact hchronological.unmixed hsecond
  · exact fun h => ⟨_, h.chronological hsecond, fun k hk =>
      @list_first P docs owner { params with statusTimestampAfter := some threshold } k hk⟩

end Listing

/-! ### Half a second -/

/-- noon of a day in 2023, and so many nanoseconds -/
def noon (nanos : ℕ) (h : nanos < 10 ^ 9) : Timestamp := ⟨1700049600, nanos, by decide, by decide, h⟩

/-- a task with a time -/
def timed (id : String) (t : Timestamp) : Task := ⟨id, "", some ⟨1, some t⟩, []⟩

/-- a task of half a second past noon, and one a microsecond later -/
def noonDocs : Collection :=
  save samplePlatform "owner" (timed "first" (noon 500000000 (by decide)))
    (save samplePlatform "owner" (timed "second" (noon 500001000 (by decide))) [])

/-- the ids on a page -/
def idsOf (answer : Except Err ListTasksResponse) : List String :=
  match answer with
  | .ok response => response.tasks.map Task.id
  | .error _ => []

theorem chronological_exact_sample :
    ¬ ∃ visited, Chronological {} (noon 0 (by decide)) (ownerTasks noonDocs "owner") visited ∧ ∀ k : ℕ, 0 < k → ∃ token,
      list samplePlatform noonDocs "owner" { statusTimestampAfter := some (noon 0 (by decide)), pageSize := k, pageToken := "" } =
        .ok ⟨visited.take k, token, k, visited.length⟩ := by
  refine fun h => ?_
  have hunmixed := (chronological_exact isoSecond_fixed).1 h
  exact (hunmixed.apart (timed "first" (noon 500000000 (by decide))) (by decide) (by decide) _ rfl).2 (by decide)

/-- both are missing from the tasks since noon; since a second before, the older one comes first -/
theorem half_second :
    idsOf (list samplePlatform noonDocs "owner" { statusTimestampAfter := some (noon 0 (by decide)) }) = [] ∧
      idsOf (list samplePlatform noonDocs "owner"
        { statusTimestampAfter := some ⟨1700049599, 0, by decide, by decide, by decide⟩ }) = ["first", "second"] ∧
      (noon 0 (by decide)).instant < (noon 500000000 (by decide)).instant ∧
      (noon 500000000 (by decide)).instant < (noon 500001000 (by decide)).instant := by
  decide +kernel

end Rally.Cloud.TaskStore
