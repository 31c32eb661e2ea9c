/-
How often a sign-in link may be asked for (`request_magic_link` of `cloud/control_plane.py` and `reserve_request` of both
stores of `cloud/magic_links.py`): five times an address and ten thousand times in all, in each window of 15 minutes.

- `Limiter`: a store as its two counters show it, with what a request does to them. Both stores are one
  (`memoryLimiter`, `firestoreLimiter`), where no two of the rate keys in play are the same.
- `refusals_spill`: a request is counted whether it is refused or not. The requests of one address that go beyond its limit
  turn away another address exactly if they are what fills the ten thousand.
- `address_closes_all`: one address does so alone.
-/
import Rally.Cloud.MagicLinks

namespace Rally.Cloud.MagicLinks

/-! ## The handler -/

/-- the configuration of the site, and what the handler takes from Python -/
structure Site where
  strip : String → String
  casefold : String → String
  /-- `_valid_email` -/
  valid : String → Bool
  /-- a digest in hexadecimal -/
  hexdigest : String → String
  /-- the items of `RALLY_ALLOWED_USER_EMAILS`, stripped and folded -/
  allowed : List String

/-- a request for a link: its address, the clock and how Firestore ends -/
structure Visit where
  email : String
  now : ℤ
  commit : Commit := .done

section Handler

variable (W : Site) (K : Keys)

/-- `_approved_magic_link_email` -/
def approvedEmail (value : String) : Option String :=
  let normalized := W.casefold (W.strip value)
  if W.valid normalized ∧ normalized ∈ W.allowed then some normalized else none

/-- `candidate` -/
def candidate (v : Visit) : String := W.casefold (W.strip v.email)

/-- `rate_subject`: the address a request is counted under -/
def rateSubject (v : Visit) : String :=
  match approvedEmail W (candidate W v) with
  | some approved => if approved ≠ "" then approved else "unapproved:" ++ W.hexdigest (candidate W v)
  | none => "unapproved:" ++ W.hexdigest (candidate W v)

/-- `request_magic_link`: what goes to the delivery queue, if anything does -/
def requestMagicLink {σ : Type} (reserve : String → σ → Reply × σ) (s : σ) (v : Visit) : Option (Option String) × σ :=
  match reserve (rateSubject W v) s with
  | (.allowed true, s) => (some (approvedEmail W (candidate W v)), s)
  | (_, s) => (none, s)

def Memory.visit (s : Memory) (v : Visit) : Option (Option String) × Memory :=
  requestMagicLink W (Memory.reserveRequest K v.now) s v

def Firestore.visit (s : Firestore) (v : Visit) : Option (Option String) × Firestore :=
  requestMagicLink W (Firestore.reserveRequest K v.commit v.now) s v

end Handler

/-! ## Two counters -/

/-- the window of a time -/
def window (now : ℤ) : ℤ := timestamp now / rateWindowSeconds

/-- whether a transaction of Firestore is applied -/
def Commit.applied : Commit → Bool
  | .done => true
  | .raised applied _ => applied

/-- what a store does to its two counters at the requests of a list -/
structure Limiter (W : Site) (σ : Type) (visits : List Visit) where
  visit : σ → Visit → Option (Option String) × σ
  /-- the count of an address -/
  own : σ → String → ℕ
  /-- the count of all -/
  total : σ → ℕ
  /-- the requests that are counted -/
  counts : Visit → Bool
  /-- the requests that get an answer -/
  answers : Visit → Bool
  queued : ∀ s, ∀ v ∈ visits, (visit s v).1.isSome = true ↔
    answers v = true ∧ own s (rateSubject W v) < emailRateLimit ∧ total s < globalRateLimit
  own_after : ∀ s, ∀ u ∈ visits, ∀ v ∈ visits, own (visit s v).2 (rateSubject W u) =
    own s (rateSubject W u) + if (counts v && rateSubject W v = rateSubject W u) = true then 1 else 0
  total_after : ∀ s, ∀ v ∈ visits, total (visit s v).2 = total s + if counts v = true then 1 else 0

/-- the requests of one window under rate keys that are told apart -/
structure OneWindow (W : Site) (K : Keys) (w : ℤ) (visits : List Visit) : Prop where
  window : ∀ v ∈ visits, window v.now = w
  apart : ∀ u ∈ visits, ∀ v ∈ visits, rateKey K "email" (rateSubject W u) w = rateKey K "email" (rateSubject W v) w →
    rateSubject W u = rateSubject W v
  global : ∀ v ∈ visits, rateKey K "email" (rateSubject W v) w ≠ rateKey K "global" "all" w

section Stores

variable {W : Site} {K : Keys} {w : ℤ} {visits : List Visit}

/-- the counter of an address in memory -/
def Memory.own (K : Keys) (w : ℤ) (s : Memory) (address : String) : ℕ := Memory.count s.rates (rateKey K "email" address w)

def Memory.total (K : Keys) (w : ℤ) (s : Memory) : ℕ := Memory.count s.rates (rateKey K "global" "all" w)

def Firestore.own (K : Keys) (w : ℤ) (s : Firestore) (address : String) : ℕ :=
  Firestore.count s.rates (rateKey K "email" address w)

def Firestore.total (K : Keys) (w : ℤ) (s : Firestore) : ℕ := Firestore.count s.rates (rateKey K "global" "all" w)

/-- the handler changes the store as the reservation does -/
theorem requestMagicLink_state {σ : Type} (reserve : String → σ → Reply × σ) (s : σ) (v : Visit) :
    (requestMagicLink W reserve s v).2 = (reserve (rateSubject W v) s).2 := by
  unfold requestMagicLink
  split <;> simp [*]

/-- something is queued exactly where the reservation is allowed -/
theorem requestMagicLink_queued {σ : Type} (reserve : String → σ → Reply × σ) (s : σ) (v : Visit) :
    (requestMagicLink W reserve s v).1.isSome = true ↔ (reserve (rateSubject W v) s).1 = .allowed true := by
  unfold requestMagicLink
  split <;> simp_all

/-- one request of a window counts under its own address and under all -/
theorem OneWindow.same_key (h : OneWindow W K w visits) {u v : Visit} (hu : u ∈ visits) (hv : v ∈ visits) :
    rateKey K "email" (rateSubject W v) w = rateKey K "email" (rateSubject W u) w ↔ rateSubject W v = rateSubject W u :=
  ⟨h.apart v hv u hu, fun he => by rw [he]⟩

/-- the store in memory -/
def memoryLimiter (h : OneWindow W K w visits) : Limiter W Memory visits where
  visit := Memory.visit W K
  own := Memory.own K w
  total := Memory.total K w
  counts := fun _ => true
  answers := fun _ => true
  queued := by
    intro s v hv
    have hw : timestamp v.now / rateWindowSeconds = w := h.window v hv
    rw [Memory.visit, requestMagicLink_queued]
    simp [Memory.reserveRequest, hw, Memory.own, Memory.total]
  own_after := by
    intro s u hu v hv
    have hw : timestamp v.now / rateWindowSeconds = w := h.window v hv
    rw [Memory.visit, requestMagicLink_state]
    simp only [Memory.reserveRequest, hw, Memory.own, List.foldl_cons, List.foldl_nil, Memory.count_counted,
      if_neg (h.global u hu).symm, h.same_key hu hv, Bool.true_and, decide_eq_true_eq]
    split_ifs with hsame
    · rw [hsame]
    · rfl
  total_after := by
    intro s v hv
    have hw : timestamp v.now / rateWindowSeconds = w := h.window v hv
    rw [Memory.visit, requestMagicLink_state]
    simp only [Memory.reserveRequest, hw, Memory.total, List.foldl_cons, List.foldl_nil, Memory.count_counted,
      if_neg (h.global v hv), if_true]

/-- the store in Firestore: a transaction that raises may have counted -/
def firestoreLimiter (h : OneWindow W K w visits) : Limiter W Firestore visits where
  visit := Firestore.visit W K
  own := Firestore.own K w
  total := Firestore.total K w
  counts := fun v => v.commit.applied
  answers := fun v => v.commit = .done
  queued := by
    intro s v hv
    have hw : timestamp v.now / rateWindowSeconds = w := h.window v hv
    rw [Firestore.visit, requestMagicLink_queued]
    cases hc : v.commit <;> simp [Firestore.reserveRequest, Firestore.guarded, hw, Firestore.own, Firestore.total]
  own_after := by
    intro s u hu v hv
    have hw : timestamp v.now / rateWindowSeconds = w := h.window v hv
    have hwritten : ∀ rates : List (String × RateDocument), ∀ d d' : RateDocument,
        Firestore.count (Dict.upsert (Dict.upsert rates (rateKey K "email" (rateSubject W v) w) fun _ => d)
          (rateKey K "global" "all" w) fun _ => d') (rateKey K "email" (rateSubject W u) w) =
        if rateSubject W v = rateSubject W u then d.count else
          Firestore.count rates (rateKey K "email" (rateSubject W u) w) := fun rates d d' => by
      simp only [Firestore.count_upsert, if_neg (h.global u hu).symm, h.same_key hu hv]
    rw [Firestore.visit, requestMagicLink_state]
    cases hc : v.commit with
    | done =>
      simp only [Firestore.reserveRequest, Firestore.guarded, hw, Firestore.own, List.map_cons, List.map_nil,
        List.zip_cons_cons, List.zip_nil_right, List.foldl_cons, List.foldl_nil, hwritten, Commit.applied, Bool.true_and,
        decide_eq_true_eq]
      split_ifs with hsame
      · rw [hsame]
      · rfl
    | raised applied call =>
      cases applied with
      | false => simp [Firestore.reserveRequest, Firestore.guarded, Firestore.own, Commit.applied]
      | true =>
        simp only [Firestore.reserveRequest, Firestore.guarded, hw, Firestore.own, List.map_cons, List.map_nil,
          List.zip_cons_cons, List.zip_nil_right, List.foldl_cons, List.foldl_nil, if_true, hwritten, Commit.applied,
          Bool.true_and, decide_eq_true_eq]
        split_ifs with hsame
        · rw [hsame]
        · rfl
  total_after := by
    intro s v hv
    have hw : timestamp v.now / rateWindowSeconds = w := h.window v hv
    rw [Firestore.visit, requestMagicLink_state]
    cases hc : v.commit with
    | done =>
      simp [Firestore.reserveRequest, Firestore.guarded, hw, Firestore.total, Firestore.count_upsert, Commit.applied]
    | raised applied call =>
      cases applied <;>
        simp [Firestore.reserveRequest, Firestore.guarded, hw, Firestore.total, Firestore.count_upsert, Commit.applied]

end Stores

/-! ## With and without the requests of one address -/

section Excess

variable {σ : Type} {W : Site}

/-- a request of an address that has used up its limit -/
def excess (W : Site) (own : σ → String → ℕ) (address : String) (s : σ) (v : Visit) : Bool :=
  rateSubject W v = address && emailRateLimit ≤ own s address

/-- the history without what the address asked beyond its limit -/
def moderate (W : Site) (visit : σ → Visit → Option (Option String) × σ) (own : σ → String → ℕ) (address : String) (s : σ)
    (before : List Visit) : List Visit :=
  Lockstep.spared visit (excess W own address) s before

/-- a request is turned away only for what the address asked beyond its limit -/
def Spoiled (W : Site) (visit : σ → Visit → Option (Option String) × σ) (own : σ → String → ℕ) (address : String) (s : σ)
    (before : List Visit) (v : Visit) : Prop :=
  (visit (Lockstep.final visit s before) v).1 = none ∧
    (visit (Lockstep.final visit s (moderate W visit own address s before)) v).1.isSome = true

variable {before : List Visit} {v : Visit} {address : String} (L : Limiter W σ (before ++ [v]))

theorem mem_spared {ι ω : Type} {f : σ → ι → ω × σ} {drop : σ → ι → Bool} {s : σ} {l : List ι} {i : ι}
    (h : i ∈ Lockstep.spared f drop s l) : i ∈ l := by
  induction l generalizing s with
  | nil => exact h
  | cons j l ih =>
    rw [Lockstep.spared] at h
    split_ifs at h
    · exact List.mem_cons_of_mem j (ih h)
    · rcases List.mem_cons.1 h with rfl | h
      · exact List.mem_cons_self
      · exact List.mem_cons_of_mem j (ih h)

/-- the counters at the end of a history of these requests -/
theorem Limiter.final_own {l : List Visit} (hl : ∀ u ∈ l, u ∈ before) (s : σ) :
    L.own (Lockstep.final L.visit s l) (rateSubject W v) =
      L.own s (rateSubject W v) + l.countP fun u => L.counts u && rateSubject W u = rateSubject W v :=
  @Lockstep.counter_final _ _ _ L.visit (fun s => L.own s (rateSubject W v)) _ l
    (fun s u hu => L.own_after s v (by simp) u (List.mem_append_left _ (hl u hu))) s

theorem Limiter.final_total {l : List Visit} (hl : ∀ u ∈ l, u ∈ before) (s : σ) :
    L.total (Lockstep.final L.visit s l) = L.total s + l.countP L.counts :=
  Lockstep.counter_final (fun s u hu => L.total_after s u (List.mem_append_left _ (hl u hu))) s

/-- a request is turned away for them exactly if they fill what is left of the allowance of all -/
theorem Limiter.spoiled_iff (hne : rateSubject W v ≠ address) (s : σ) :
    Spoiled W L.visit L.own address s before v ↔
      L.answers v = true ∧
      (L.own s (rateSubject W v) + before.countP fun u => L.counts u && rateSubject W u = rateSubject W v) < emailRateLimit ∧
      globalRateLimit ≤ L.total s + before.countP L.counts ∧
      L.total s + (moderate W L.visit L.own address s before).countP L.counts < globalRateLimit := by
  have hmoderate : ∀ u ∈ moderate W L.visit L.own address s before, u ∈ before := fun u hu => mem_spared hu
  have hsame : (moderate W L.visit L.own address s before).countP (fun u => L.counts u && rateSubject W u = rateSubject W v) =
      before.countP fun u => L.counts u && rateSubject W u = rateSubject W v := by
    refine Lockstep.countP_spared (fun s u hdrop => ?_) s before
    have hu : rateSubject W u = address := by simpa using (Bool.and_eq_true_iff.1 hdrop).1
    simp [hu, hne.symm]
  rw [Spoiled, ← Option.not_isSome_iff_eq_none, L.queued _ v (by simp), L.queued _ v (by simp),
    L.final_own (fun _ => id), L.final_own hmoderate, L.final_total (fun _ => id), L.final_total hmoderate, hsame]
  constructor
  · rintro ⟨hwith, hanswers, hown, htotal⟩
    exact ⟨hanswers, hown, by_contra fun hlt => hwith ⟨hanswers, hown, not_le.1 hlt⟩, htotal⟩
  · rintro ⟨hanswers, hown, hfull, htotal⟩
    exact ⟨fun hwith => absurd hwith.2.2 (not_lt.2 hfull), hanswers, hown, htotal⟩

/-- an address is left no more than its limit -/
theorem Limiter.moderate_le {l : List Visit} (hl : ∀ u ∈ l, u ∈ before ∧ rateSubject W u = address ∧ L.counts u = true) (s : σ) :
    (moderate W L.visit L.own address s l).length ≤ emailRateLimit - L.own s address := by
  induction l generalizing s with
  | nil => exact Nat.zero_le _
  | cons u l ih =>
    obtain ⟨⟨hu, hsubject, hcounts⟩, hl⟩ := List.forall_mem_cons.1 hl
    have hafter : L.own (L.visit s u).2 address = L.own s address + 1 := by
      have hown := L.own_after s u (List.mem_append_left _ hu) u (List.mem_append_left _ hu)
      rwa [hsubject, hcounts, decide_eq_true rfl, Bool.and_self, if_pos rfl] at hown
    have hrest := ih hl (L.visit s u).2
    unfold moderate at hrest ⊢
    rw [Lockstep.spared]
    split_ifs with hdrop
    · omega
    · have hroom : L.own s address < emailRateLimit := by simpa [excess, hsubject] using hdrop
      rw [List.length_cons]
      omega

end Excess

/-- **What refused requests cost.** In either store every request that is counted takes one of the ten thousand of its
window and one of its address, of no other, whether it is refused or not; and what one address asks beyond its limit turns
away a request of another address, which it would not have been without, exactly if that fills the ten thousand. -/
theorem refusals_spill {W : Site} {K : Keys} {w : ℤ} {before : List Visit} {v : Visit} {address : String}
    (h : OneWindow W K w (before ++ [v])) (hne : rateSubject W v ≠ address) :
    (∀ s : Memory,
      (∀ u ∈ before ++ [v], Memory.total K w (Memory.visit W K s u).2 = Memory.total K w s + 1 ∧
        ∀ x ∈ before ++ [v], Memory.own K w (Memory.visit W K s u).2 (rateSubject W x) =
          Memory.own K w s (rateSubject W x) + if rateSubject W u = rateSubject W x then 1 else 0) ∧
      (Spoiled W (Memory.visit W K) (Memory.own K w) address s before v ↔
        Memory.own K w s (rateSubject W v) + (before.countP fun u => rateSubject W u = rateSubject W v) < emailRateLimit ∧
        globalRateLimit ≤ Memory.total K w s + before.length ∧
        Memory.total K w s + (moderate W (Memory.visit W K) (Memory.own K w) address s before).length < globalRateLimit)) ∧
    ∀ s : Firestore,
      (∀ u ∈ before ++ [v],
        Firestore.total K w (Firestore.visit W K s u).2 = Firestore.total K w s + (if u.commit.applied then 1 else 0) ∧
        ∀ x ∈ before ++ [v], Firestore.own K w (Firestore.visit W K s u).2 (rateSubject W x) =
          Firestore.own K w s (rateSubject W x) +
            if u.commit.applied ∧ rateSubject W u = rateSubject W x then 1 else 0) ∧
      (Spoiled W (Firestore.visit W K) (Firestore.own K w) address s before v ↔
        v.commit = .done ∧
        (Firestore.own K w s (rateSubject W v) +
          before.countP fun u => u.commit.applied && rateSubject W u = rateSubject W v) < emailRateLimit ∧
        globalRateLimit ≤ Firestore.total K w s + before.countP (fun u => u.commit.applied) ∧
        Firestore.total K w s + (moderate W (Firestore.visit W K) (Firestore.own K w) address s before).countP
          (fun u => u.commit.applied) < globalRateLimit) := by
  constructor
  · intro s
    refine ⟨fun u hu => ⟨(memoryLimiter h).total_after s u hu, fun x hx => ?_⟩, ?_⟩
    · have hown := (memoryLimiter h).own_after s x hx u hu
      simpa [memoryLimiter] using hown
    · have hspoiled := (memoryLimiter h).spoiled_iff hne s
      simpa [memoryLimiter] using hspoiled
  · intro s
    refine ⟨fun u hu => ⟨(firestoreLimiter h).total_after s u hu, fun x hx => ?_⟩, ?_⟩
    · have hown := (firestoreLimiter h).own_after s x hx u hu
      simpa [firestoreLimiter] using hown
    · have hspoiled := (firestoreLimiter h).spoiled_iff hne s
      simpa [firestoreLimiter] using hspoiled

/-! ### Ten thousand requests of one address -/

def sampleSite : Site := ⟨id, id, fun _ => true, id, ["owner@example.com"]⟩

/-- a request of somebody unknown -/
def stranger : Visit := ⟨"mallory@example.com", sampleNow, .done⟩

/-- the first request of the owner -/
def ownersVisit : Visit := ⟨"owner@example.com", sampleNow, .done⟩

def flood (n : ℕ) : List Visit := List.replicate n stranger

theorem flood_oneWindow (n : ℕ) : OneWindow sampleSite sampleKeys (window sampleNow) (flood n ++ [ownersVisit]) := by
  have hmem : ∀ v ∈ flood n ++ [ownersVisit], v = stranger ∨ v = ownersVisit := fun v hv =>
    (List.mem_append.1 hv).imp List.eq_of_mem_replicate List.mem_singleton.1
  have hkeys : rateKey sampleKeys "email" (rateSubject sampleSite stranger) (window sampleNow) ≠
      rateKey sampleKeys "email" (rateSubject sampleSite ownersVisit) (window sampleNow) := by decide +kernel
  constructor
  · intro v hv
    rcases hmem v hv with rfl | rfl <;> rfl
  · intro u hu v hv heq
    rcases hmem u hu with rfl | rfl <;> rcases hmem v hv with rfl | rfl
    · rfl
    · exact absurd heq hkeys
    · exact absurd heq.symm hkeys
    · rfl
  · exact fun v _ => sampleKeys_apart _ _

theorem stranger_apart : rateSubject sampleSite ownersVisit ≠ rateSubject sampleSite stranger := by decide

/-- a stranger counts for nobody else, and little of what they ask is within their limit -/
theorem Limiter.flood_counts {σ : Type} (n : ℕ) (L : Limiter sampleSite σ (flood n ++ [ownersVisit]))
    (hcounts : L.counts stranger = true) (s : σ) :
    (flood n).countP (fun u => L.counts u && rateSubject sampleSite u = rateSubject sampleSite ownersVisit) = 0 ∧
      (flood n).countP L.counts = n ∧
      (moderate sampleSite L.visit L.own (rateSubject sampleSite stranger) s (flood n)).length < globalRateLimit := by
  refine ⟨List.countP_eq_zero.2 fun u hu => ?_, ?_, ?_⟩
  · simp [List.eq_of_mem_replicate hu, stranger_apart.symm]
  · unfold flood
    rw [List.countP_replicate, if_pos hcounts]
  · have hfew := @Limiter.moderate_le _ _ _ _ (rateSubject sampleSite stranger) L (flood n)
      (fun u hu => ⟨hu, by rw [List.eq_of_mem_replicate hu], by rw [List.eq_of_mem_replicate hu, hcounts]⟩) s
    exact (hfew.trans (Nat.sub_le _ _)).trans_lt (by decide)

/-- the ten thousandth request of a stranger is the one that keeps the owner out -/
theorem refusals_spill_sample :
    (Spoiled sampleSite (Memory.visit sampleSite sampleKeys) (Memory.own sampleKeys (window sampleNow))
        (rateSubject sampleSite stranger) ⟨[], []⟩ (flood globalRateLimit) ownersVisit ∧
      Memory.own sampleKeys (window sampleNow) (Memory.visit sampleSite sampleKeys ⟨[], []⟩ stranger).2
        (rateSubject sampleSite stranger) = 1) ∧
    ¬ Spoiled sampleSite (Memory.visit sampleSite sampleKeys) (Memory.own sampleKeys (window sampleNow))
        (rateSubject sampleSite stranger) ⟨[], []⟩ (flood (globalRateLimit - 1)) ownersVisit := by
  have hlast := (refusals_spill (flood_oneWindow globalRateLimit) stranger_apart).1 ⟨[], []⟩
  have hbefore := (refusals_spill (flood_oneWindow (globalRateLimit - 1)) stranger_apart).1 ⟨[], []⟩
  obtain ⟨hothers, -, hfew⟩ := (memoryLimiter (flood_oneWindow globalRateLimit)).flood_counts _ rfl ⟨[], []⟩
  have hempty : Memory.total sampleKeys (window sampleNow) ⟨[], []⟩ = 0 := rfl
  have howner : Memory.own sampleKeys (window sampleNow) ⟨[], []⟩ (rateSubject sampleSite ownersVisit) = 0 := rfl
  refine ⟨⟨hlast.2.2 ⟨?_, ?_, ?_⟩, ?_⟩, fun hspoiled => ?_⟩
  · rw [howner]
    simpa [memoryLimiter] using hothers.trans_lt (by decide : 0 < emailRateLimit)
  · rw [hempty, flood, List.length_replicate, Nat.zero_add]
  · rw [hempty, Nat.zero_add]
    exact hfew
  · have hstranger : stranger ∈ flood globalRateLimit ++ [ownersVisit] :=
      List.mem_append_left _ (List.mem_replicate.2 ⟨by decide, rfl⟩)
    have hown := (hlast.1 stranger hstranger).2 stranger hstranger
    rwa [if_pos rfl] at hown
  · have hfull := (hbefore.2.1 hspoiled).2.1
    rw [hempty, flood, List.length_replicate, Nat.zero_add] at hfull
    exact absurd hfull (by decide)

/-- enough requests of the stranger close a store that has counted nothing yet to the owner -/
theorem Limiter.flood_spoils {σ : Type} {n : ℕ} (hn : globalRateLimit ≤ n) (L : Limiter sampleSite σ (flood n ++ [ownersVisit]))
    (hcounts : L.counts stranger = true) (hanswers : L.answers ownersVisit = true) {s : σ}
    (hown : L.own s (rateSubject sampleSite ownersVisit) = 0) (htotal : L.total s = 0) :
    Spoiled sampleSite L.visit L.own (rateSubject sampleSite stranger) s (flood n) ownersVisit := by
  obtain ⟨hothers, hall, hfew⟩ := L.flood_counts n hcounts s
  refine (L.spoiled_iff stranger_apart s).2 ⟨hanswers, ?_, ?_, ?_⟩
  · rw [hown, hothers]
    decide
  · rw [htotal, hall, Nat.zero_add]
    exact hn
  · rw [htotal, Nat.zero_add]
    exact List.countP_le_length.trans_lt hfew

/-- a stranger who asks ten thousand times keeps the owner out of either store; five times would not -/
theorem address_closes_all :
    Spoiled sampleSite (Memory.visit sampleSite sampleKeys) (Memory.own sampleKeys (window sampleNow))
        (rateSubject sampleSite stranger) ⟨[], []⟩ (flood globalRateLimit) ownersVisit ∧
      Spoiled sampleSite (Firestore.visit sampleSite sampleKeys) (Firestore.own sampleKeys (window sampleNow))
        (rateSubject sampleSite stranger) ⟨[], []⟩ (flood globalRateLimit) ownersVisit :=
  ⟨(memoryLimiter (flood_oneWindow _)).flood_spoils le_rfl rfl rfl rfl rfl,
    (firestoreLimiter (flood_oneWindow _)).flood_spoils le_rfl rfl (by decide) rfl rfl⟩

end Rally.Cloud.MagicLinks
