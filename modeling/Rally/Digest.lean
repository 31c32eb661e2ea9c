/-
The fingerprint of a checklist (`digest` of `src/envelope.py`), by which the runner sees that a turn changed nothing: what
it prints of the items, against their ids, states and owners.

- `Respelling`: the ways in which other ids, states and owners print the same. A colon changes sides between an id and an
  owner, or a bar is one in an owner and not one between two rows.
- `alike_iff`: these are all ways there are.
- `digest_exact`: for two checklists, the fingerprint tells whether they have the same triples exactly when they are neither
  `Shuffled` nor `Confused`.
- `plain_exact`: it does for `Plain` checklists. `Shuffled.alike`, `Confused.odd`: where it does not, two ids print alike,
  or a value has a colon or a bar or reads as another.
- `none_unseen`: a claimed item whose owner is the text `None`, and one without an owner.
-/
import Rally.Envelope

namespace Rally.Envelope

open Py

/-! ## Rows -/

/-- what the fingerprint is to tell of an item -/
def triple (it : Item) : Value × ItemState × Value := (it.id, it.state, it.owner)

/-- the same ids, states and owners, each as often -/
def SameTriples (a b : List Item) : Prop := (a.map triple).Perm (b.map triple)

/-- the items in the order of the fingerprint -/
def inOrder (P : Runtime) (items : List Item) : List Item := items.insertionSort fun a b => a.id.toStr P ≤ b.id.toStr P

/-- what an item shows of itself: its id and its owner as they are printed, and its state -/
structure Row where
  id : List Char
  state : ItemState
  owner : List Char

def Row.text (r : Row) : List Char := r.id ++ ':' :: (r.state.text.toList ++ ':' :: r.owner)

def row (P : Runtime) (it : Item) : Row := ⟨(it.id.toStr P).toList, it.state, (it.owner.toStr P).toList⟩

/-- the rows of the fingerprint -/
def rows (P : Runtime) (items : List Item) : List Row := (inOrder P items).map (row P)

/-- the items whose ids print so, in the order of the checklist -/
def called (P : Runtime) (id : String) (items : List Item) : List Item := items.filter fun it => it.id.toStr P = id

/-- rows that print like others -/
inductive Respelling : List Row → List Row → Prop where
  /-- an owner that starts with a state: its own state goes to the id -/
  | state {front back : List Row} {id owner : List Char} {st st' : ItemState} :
      Respelling (front ++ ⟨id, st, st'.text.toList ++ ':' :: owner⟩ :: back)
        (front ++ ⟨id ++ ':' :: st.text.toList, st', owner⟩ :: back)
  /-- an owner with a state between two colons: what is before it goes to the id -/
  | owner {front back : List Row} {id part owner : List Char} {st st' : ItemState} :
      Respelling (front ++ ⟨id, st, part ++ ':' :: (st'.text.toList ++ ':' :: owner)⟩ :: back)
        (front ++ ⟨id ++ ':' :: (st.text.toList ++ ':' :: part), st', owner⟩ :: back)
  /-- a row that is the end of the owner before it -/
  | row {front back : List Row} {id owner : List Char} {st : ItemState} {r : Row} :
      Respelling (front ++ ⟨id, st, owner⟩ :: r :: back) (front ++ ⟨id, st, owner ++ '|' :: r.text⟩ :: back)

/-- any number of these steps, one after the other, in either direction -/
def Alike : List Row → List Row → Prop := Relation.EqvGen Respelling

/-- the same items, of which those with one printed id are in another order, which shows -/
def Shuffled (P : Runtime) (a b : List Item) : Prop :=
  SameTriples a b ∧ ∃ id, ¬ Alike ((called P id a).map (row P)) ((called P id b).map (row P))

/-- other items, whose rows print like theirs -/
def Confused (P : Runtime) (a b : List Item) : Prop := ¬ SameTriples a b ∧ Alike (rows P a) (rows P b)

/-- an id without colons and bars -/
def PlainId (id : Value) : Prop := ∃ s, id = .str s ∧ ':' ∉ s.toList ∧ '|' ∉ s.toList

/-- no owner, or one without bars that does not read as none -/
def PlainOwner (owner : Value) : Prop := owner = .none ∨ ∃ s, owner = .str s ∧ '|' ∉ s.toList ∧ s ≠ "None"

def PlainItem (it : Item) : Prop := PlainId it.id ∧ PlainOwner it.owner

/-- a checklist of such items, each id once -/
structure Plain (items : List Item) : Prop where
  each : ∀ it ∈ items, PlainItem it
  once : (items.map fun it => it.id).Nodup

section Digest

variable {P : Runtime} {a b : List Item}

/-- the rows with bars between them -/
def printed (rs : List Row) : List Char := ['|'].intercalate (rs.map Row.text)

theorem digest_toList (P : Runtime) (items : List Item) : (digest P items).toList = printed (rows P items) := by
  have hrow : ∀ it, (s!"{it.id.toStr P}:{it.state.text}:{it.owner.toStr P}" : String).toList = (row P it).text := by
    intro it
    simp [row, Row.text, toString]
  rw [digest, printed, rows, String.toList_intercalate, List.map_map, List.map_map]
  exact congrArg _ (List.map_congr_left fun it _ => hrow it)

@[simp]
theorem printed_nil : printed [] = [] := rfl

theorem printed_singleton (r : Row) : printed [r] = r.text := by simp [printed, List.intercalate]

theorem printed_cons_cons (r r' : Row) (rs : List Row) : printed (r :: r' :: rs) = r.text ++ '|' :: printed (r' :: rs) := by
  simp [printed, List.intercalate]

theorem text_ne_nil (r : Row) : r.text ≠ [] := by simp [Row.text]

theorem printed_eq_nil {rs : List Row} : printed rs = [] ↔ rs = [] := by
  constructor
  · intro h
    cases rs with
    | nil => rfl
    | cons r rs =>
      cases rs with
      | nil => exact absurd (printed_singleton r ▸ h) (text_ne_nil r)
      | cons r' rs => simp [printed_cons_cons] at h
  · rintro rfl
    rfl

/-- the rows with a bar behind each -/
def barred (rs : List Row) : List Char := rs.flatMap fun r => r.text ++ ['|']

theorem barred_eq_nil {rs : List Row} : barred rs = [] ↔ rs = [] := by
  cases rs <;> simp [barred]

theorem barred_printed {rs : List Row} (h : rs ≠ []) : barred rs = printed rs ++ ['|'] := by
  induction rs with
  | nil => exact absurd rfl h
  | cons r rs ih =>
    cases rs with
    | nil => simp [barred, printed_singleton]
    | cons r' rs =>
      rw [barred, List.flatMap_cons, ← barred, ih (by simp), printed_cons_cons]
      simp

theorem printed_barred {x y : List Row} : printed x = printed y ↔ barred x = barred y := by
  by_cases hx : x = []
  · subst hx
    exact ⟨fun h => by rw [printed_eq_nil.1 h.symm], fun h => by rw [barred_eq_nil.1 h.symm]⟩
  · by_cases hy : y = []
    · subst hy
      exact ⟨fun h => by rw [printed_eq_nil.1 h], fun h => by rw [barred_eq_nil.1 h]⟩
    · rw [barred_printed hx, barred_printed hy, List.append_left_inj]

/-! ## Respellings -/

theorem Respelling.printed {x y : List Row} (h : Respelling x y) : printed x = printed y := by
  rw [printed_barred]
  cases h <;> simp [barred, Row.text]

/-- the first row of a respelled list takes in all that follow -/
theorem alike_one (r : Row) (rs : List Row) : ∃ r', Alike (r :: rs) [r'] := by
  induction rs generalizing r with
  | nil => exact ⟨r, .refl _⟩
  | cons r' rs ih =>
    obtain ⟨r'', hrest⟩ := ih ⟨r.id, r.state, r.owner ++ '|' :: r'.text⟩
    exact ⟨r'', .trans _ _ _ (.rel _ _ (@Respelling.row [] rs r.id r.owner r.state r')) hrest⟩

/-- a state has no colon, so that a text is cut behind one in one way -/
theorem cut_colon {x y u v : List Char} (hx : ':' ∉ x) (hu : ':' ∉ u) (h : x ++ ':' :: y = u ++ ':' :: v) :
    x = u ∧ y = v := by
  have hrun : ∀ {x y : List Char}, ':' ∉ x → (x ++ ':' :: y).takeWhile (· ≠ ':') = x := by
    intro x y hx
    rw [List.takeWhile_append_of_pos fun c hc => by simpa using fun h : c = ':' => hx (h ▸ hc)]
    simp
  have hfront := congrArg (List.takeWhile (· ≠ ':')) h
  rw [hrun hx, hrun hu] at hfront
  subst hfront
  exact ⟨rfl, (List.cons.inj (List.append_cancel_left h)).2⟩

theorem state_colon (st : ItemState) : ':' ∉ st.text.toList := by
  cases st <;> decide

theorem state_inj {st st' : ItemState} (h : st.text.toList = st'.text.toList) : st = st' := by
  have htext := String.toList_inj.1 h
  cases st <;> cases st' <;> first | rfl | exact absurd htext (by decide)

/-- a row whose id goes on behind that of another which prints the same -/
theorem alike_longer {id more owner owner' : List Char} {st st' : ItemState}
    (h : ':' :: (st.text.toList ++ ':' :: owner) = more ++ ':' :: (st'.text.toList ++ ':' :: owner')) :
    Alike [⟨id, st, owner⟩] [⟨id ++ more, st', owner'⟩] := by
  cases more with
  | nil =>
    obtain ⟨hstate, rfl⟩ := cut_colon (state_colon _) (state_colon _) (List.cons.inj h).2
    obtain rfl := state_inj hstate
    rw [List.append_nil]
    exact .refl _
  | cons c more =>
    obtain ⟨rfl, htail⟩ := List.cons.inj h
    -- the first colon of the rest ends the state of the shorter row
    by_cases hcolon : ':' ∈ more
    · obtain ⟨word, part, rfl, hword⟩ := List.eq_append_cons_of_mem hcolon
      rw [List.append_eq, List.append_assoc, List.cons_append] at htail
      obtain ⟨rfl, rfl⟩ := cut_colon (state_colon _) hword htail
      exact .rel _ _ (@Respelling.owner [] [] id part owner' st st')
    · obtain ⟨rfl, rfl⟩ := cut_colon (state_colon _) hcolon htail
      exact .rel _ _ (@Respelling.state [] [] id owner' st st')

/-- one row that prints like another -/
theorem alike_row {r r' : Row} (h : r.text = r'.text) : Alike [r] [r'] := by
  rcases List.append_eq_append_iff.1 h with ⟨more, hid, htail⟩ | ⟨more, hid, htail⟩
  · have hlonger := @alike_longer r.id more r.owner r'.owner r.state r'.state htail
    rwa [← hid] at hlonger
  · have hlonger := @alike_longer r'.id more r'.owner r.owner r'.state r.state htail
    rw [← hid] at hlonger
    exact .symm _ _ hlonger

theorem Alike.printed {x y : List Row} (h : Alike x y) : printed x = printed y := by
  induction h with
  | rel x y hstep => exact hstep.printed
  | refl x => rfl
  | symm x y _ ih => exact ih.symm
  | trans x y z _ _ ih ih' => exact ih.trans ih'

/-- **Respellings.** Rows print alike exactly when they are respelled. -/
theorem alike_iff {x y : List Row} : Alike x y ↔ printed x = printed y := by
  refine ⟨Alike.printed, fun h => ?_⟩
  cases x with
  | nil =>
    obtain rfl := printed_eq_nil.1 h.symm
    exact .refl _
  | cons r x =>
    cases y with
    | nil => exact absurd (printed_eq_nil.1 h) (by simp)
    | cons r' y =>
      obtain ⟨one, hone⟩ := alike_one r x
      obtain ⟨one', hone'⟩ := alike_one r' y
      have htext : one.text = one'.text := by
        rw [← printed_singleton, ← printed_singleton, ← hone.printed, h, hone'.printed]
      exact .trans _ _ _ hone (.trans _ _ _ (alike_row htext) (.symm _ _ hone'))

/-! ## Orders -/

/-- what is in order has its least key in front -/
theorem group_front {α κ : Type} [DecidableEq κ] {le : κ → κ → Prop} (hanti : ∀ k k', le k k' → le k' k → k = k')
    {key : α → κ} {k : κ} {x : List α} (hsort : x.Pairwise fun t t' => le (key t) (key t')) (hle : ∀ t ∈ x, le k (key t)) :
    x = x.filter (key · = k) ++ x.filter (key · ≠ k) := by
  induction x with
  | nil => rfl
  | cons t x ih =>
    obtain ⟨hhead, htail⟩ := List.pairwise_cons.1 hsort
    by_cases hkey : key t = k
    · rw [List.filter_cons_of_pos (by simpa), List.filter_cons_of_neg (by simpa), List.cons_append]
      exact congrArg (t :: ·) (ih htail fun u hu => hle u (List.mem_cons_of_mem _ hu))
    · have hlt : ∀ u ∈ t :: x, key u ≠ k := by
        intro u hu heq
        have hfirst := hle t List.mem_cons_self
        rcases List.mem_cons.1 hu with rfl | hu
        · exact hkey heq
        · exact hkey (hanti _ _ (heq ▸ hhead u hu) hfirst)
      rw [List.filter_eq_nil_iff.2 fun u hu => by simpa using hlt u hu,
        List.filter_eq_self.2 fun u hu => by simpa using hlt u hu, List.nil_append]

/-- two orders of one list by the same keys give one text exactly when the parts of each key do -/
theorem flatMap_groups {α β κ : Type} [DecidableEq κ] {le : κ → κ → Prop} (hrefl : ∀ k, le k k)
    (hanti : ∀ k k', le k k' → le k' k → k = k') {key : α → κ} {u : α → List β} {x y : List α} (hperm : x.Perm y)
    (hx : x.Pairwise fun t t' => le (key t) (key t')) (hy : y.Pairwise fun t t' => le (key t) (key t')) :
    x.flatMap u = y.flatMap u ↔ ∀ k, (x.filter (key · = k)).flatMap u = (y.filter (key · = k)).flatMap u := by
  induction hn : x.length using Nat.strong_induction_on generalizing x y with
  | _ n ih =>
    cases x with
    | nil =>
      obtain rfl := hperm.nil_eq
      simp
    | cons t x =>
      obtain ⟨hleast, -⟩ := List.pairwise_cons.1 hx
      have hlex : ∀ t' ∈ t :: x, le (key t) (key t') := by
        intro t' ht'
        rcases List.mem_cons.1 ht' with rfl | ht'
        · exact hrefl _
        · exact hleast t' ht'
      have hsplit := group_front hanti hx hlex
      have hsplit' := group_front hanti hy fun t' ht' => hlex t' (hperm.mem_iff.2 ht')
      have hrest := @ih ((t :: x).filter (key · ≠ key t)).length (by
        rw [← hn, List.filter_cons_of_neg (by simp)]
        exact Nat.lt_succ_of_le (List.length_filter_le _ _)) _ (y.filter (key · ≠ key t)) (hperm.filter _)
        (hx.filter _) (hy.filter _) rfl
      have hlength := ((hperm.filter (key · = key t)).flatMap_right u).length_eq
      have hother : ∀ (z : List α) k, k ≠ key t → (z.filter (key · ≠ key t)).filter (key · = k) = z.filter (key · = k) := by
        intro z k hk
        rw [List.filter_filter]
        refine List.filter_congr fun t' _ => ?_
        by_cases hkey : key t' = k
        · simp [hkey, hk]
        · simp [hkey]
      constructor
      · intro h k
        rw [hsplit, hsplit', List.flatMap_append, List.flatMap_append] at h
        obtain ⟨hfront, hback⟩ := List.append_inj h hlength
        by_cases hk : k = key t
        · rw [hk]
          exact hfront
        · have hpart := hrest.1 hback k
          rwa [hother _ k hk, hother _ k hk] at hpart
      · intro h
        have hback : ((t :: x).filter (key · ≠ key t)).flatMap u = (y.filter (key · ≠ key t)).flatMap u := by
          refine hrest.2 fun k => ?_
          by_cases hk : k = key t
          · have hnone : ∀ z : List α, (z.filter (key · ≠ key t)).filter (key · = k) = [] := by
              intro z
              rw [List.filter_eq_nil_iff]
              intro t' ht'
              have hne := (List.mem_filter.1 ht').2
              simpa [hk] using hne
            rw [hnone, hnone]
          · rw [hother _ k hk, hother _ k hk]
            exact h k
        rw [hsplit, hsplit', List.flatMap_append, List.flatMap_append, h (key t), hback]

theorem mem_inOrder {it : Item} : it ∈ inOrder P a ↔ it ∈ a := (List.perm_insertionSort _ a).mem_iff

/-- the order is stable -/
theorem called_inOrder (id : String) : called P id (inOrder P a) = called P id a := by
  have hsorted : (called P id a).Pairwise fun x y => x.id.toStr P ≤ y.id.toStr P :=
    List.pairwise_of_forall_mem_list fun x hx y hy => by
      have hidx : x.id.toStr P = id := by simpa using (List.mem_filter.1 hx).2
      have hidy : y.id.toStr P = id := by simpa using (List.mem_filter.1 hy).2
      have hsame := hidx.trans hidy.symm
      exact hsame ▸ String.le_refl _
  have hsub := (List.sublist_insertionSort hsorted List.filter_sublist).filter fun it => it.id.toStr P = id
  have hperm : (called P id (inOrder P a)).Perm (called P id a) := (List.perm_insertionSort _ a).filter _
  simp only [called, List.filter_filter, Bool.and_self] at hsub
  exact (hsub.eq_of_length hperm.length_eq.symm).symm

theorem SameTriples.called (h : SameTriples a b) (id : String) :
    ((called P id a).map triple).Perm ((called P id b).map triple) := by
  have hgroup : ∀ items, (items.map triple).filter (fun t => t.1.toStr P = id) = (Envelope.called P id items).map triple :=
    fun items => List.filter_map
  rw [← hgroup, ← hgroup]
  exact h.filter _

/-- the same items have one fingerprint exactly when those of each printed id are respelled -/
theorem digest_groups (h : SameTriples a b) :
    digest P a = digest P b ↔ ∀ id, Alike ((called P id a).map (row P)) ((called P id b).map (row P)) := by
  have hbarred : ∀ items, barred (rows P items) = ((inOrder P items).map triple).flatMap fun t =>
      (Row.mk (t.1.toStr P).toList t.2.1 (t.2.2.toStr P).toList).text ++ ['|'] := by
    intro items
    rw [barred, rows, List.flatMap_map, List.flatMap_map]
    rfl
  have hsort : ∀ items, ((inOrder P items).map triple).Pairwise fun t t' => t.1.toStr P ≤ t'.1.toStr P := by
    intro items
    rw [List.pairwise_map]
    exact List.pairwise_insertionSort _ items
  have hperm : ((inOrder P a).map triple).Perm ((inOrder P b).map triple) :=
    ((List.perm_insertionSort _ a).map _).trans (h.trans ((List.perm_insertionSort _ b).map _).symm)
  rw [← String.toList_inj, digest_toList, digest_toList, printed_barred, hbarred, hbarred,
    flatMap_groups String.le_refl (fun _ _ => String.le_antisymm) hperm (hsort a) (hsort b)]
  refine forall_congr' fun id => ?_
  have hgroup : ∀ items,
      ((inOrder P items).map triple).filter (fun t => t.1.toStr P = id) = (called P id items).map triple := by
    intro items
    rw [← @called_inOrder P items id]
    exact List.filter_map
  rw [alike_iff, printed_barred, hgroup, hgroup, barred, barred, List.flatMap_map, List.flatMap_map, List.flatMap_map,
    List.flatMap_map]
  rfl

/-- **Exactness.** The fingerprint tells whether two checklists have the same triples exactly when they are neither shuffled
nor confused. -/
theorem digest_exact : (digest P a = digest P b ↔ SameTriples a b) ↔ ¬ Shuffled P a b ∧ ¬ Confused P a b := by
  have hconfused : digest P a = digest P b ↔ Alike (rows P a) (rows P b) := by
    rw [← String.toList_inj, digest_toList, digest_toList, alike_iff]
  rw [Shuffled, Confused, ← hconfused]
  by_cases hsame : SameTriples a b
  · rw [digest_groups hsame]
    simp [hsame]
  · simp [hsame]

/-! ## Plain checklists -/

theorem plain_row {it : Item} (h : PlainItem it) : '|' ∉ (row P it).text := by
  obtain ⟨⟨s, hid, -, hbar⟩, howner⟩ := h
  have hstate : '|' ∉ it.state.text.toList := by cases it.state <;> decide
  have htext : '|' ∉ (it.owner.toStr P).toList := by
    rcases howner with hnone | ⟨o, ho, hobar, -⟩
    · have hword : '|' ∉ "None".toList := by decide
      rwa [hnone]
    · rwa [ho]
  rw [row, Row.text, hid]
  simp only [Value.toStr, List.mem_append, List.mem_cons, not_or]
  exact ⟨hbar, by decide, hstate, by decide, htext⟩

/-- plain rows are printed by one triple -/
theorem plain_triple {it it' : Item} (h : PlainItem it) (h' : PlainItem it') (heq : (row P it).text = (row P it').text) :
    triple it = triple it' := by
  obtain ⟨⟨s, hid, hcolon, -⟩, howner⟩ := h
  obtain ⟨⟨s', hid', hcolon', -⟩, howner'⟩ := h'
  rw [row, row, hid, hid'] at heq
  obtain ⟨hids, hrest⟩ := cut_colon hcolon hcolon' heq
  obtain ⟨hstates, howners⟩ := cut_colon (state_colon _) (state_colon _) hrest
  have hsame : it.state = it'.state := state_inj hstates
  have howned : it.owner = it'.owner := by
    have htext := String.toList_inj.1 howners
    rcases howner with ho | ⟨o, ho, -, hno⟩ <;> rcases howner' with ho' | ⟨o', ho', -, hno'⟩ <;> rw [ho, ho'] at htext ⊢
    · exact absurd htext.symm hno'
    · exact absurd htext hno
    · exact congrArg Value.str htext
  rw [triple, triple, hsame, howned, hid, hid', String.toList_inj.1 hids]

/-- rows without bars that print alike -/
theorem texts_of_printed {x y : List Row} (hx : ∀ r ∈ x, '|' ∉ r.text) (hy : ∀ r ∈ y, '|' ∉ r.text)
    (h : printed x = printed y) : x.map Row.text = y.map Row.text := by
  by_cases hnil : x = []
  · subst hnil
    rw [printed_eq_nil.1 h.symm]
  · have hnil' : y ≠ [] := fun hy => hnil (printed_eq_nil.1 (h.trans (printed_eq_nil.2 hy)))
    have hbars : ∀ {z : List Row}, (∀ r ∈ z, '|' ∉ r.text) → ∀ t ∈ z.map Row.text, '|' ∉ t := by
      intro z hz t ht
      obtain ⟨r, hr, rfl⟩ := List.mem_map.1 ht
      exact hz r hr
    have hcut := congrArg (List.splitOn '|') h
    rwa [printed, printed, List.splitOn_intercalate '|' (hbars hx) (by simpa), List.splitOn_intercalate '|' (hbars hy)
      (by simpa)] at hcut

theorem map_eq_of_map_eq {α β γ : Type} {f : α → β} {g : α → γ} {xs ys : List α}
    (h : ∀ x ∈ xs, ∀ y ∈ ys, f x = f y → g x = g y) (heq : xs.map f = ys.map f) : xs.map g = ys.map g := by
  induction xs generalizing ys with
  | nil =>
    obtain rfl : ys = [] := by simpa using heq.symm
    rfl
  | cons x xs ih =>
    cases ys with
    | nil => cases heq
    | cons y ys =>
      obtain ⟨hhead, htail⟩ := List.cons.inj heq
      have hrest := ih (fun x hx y hy => h x (List.mem_cons_of_mem _ hx) y (List.mem_cons_of_mem _ hy)) htail
      rw [List.map_cons, List.map_cons, h x List.mem_cons_self y List.mem_cons_self hhead, hrest]

/-- plain checklists are not confused -/
theorem plain_unconfused (ha : ∀ it ∈ a, PlainItem it) (hb : ∀ it ∈ b, PlainItem it) : ¬ Confused P a b := by
  rintro ⟨hdiffer, halike⟩
  have hbars : ∀ {items : List Item}, (∀ it ∈ items, PlainItem it) → ∀ r ∈ rows P items, '|' ∉ r.text := by
    intro items hitems r hr
    obtain ⟨it, hit, rfl⟩ := List.mem_map.1 hr
    exact plain_row (hitems it (mem_inOrder.1 hit))
  have htexts := texts_of_printed (hbars ha) (hbars hb) halike.printed
  rw [rows, rows, List.map_map, List.map_map] at htexts
  have htriples : (inOrder P a).map triple = (inOrder P b).map triple :=
    map_eq_of_map_eq (fun x hx y hy => plain_triple (ha x (mem_inOrder.1 hx)) (hb y (mem_inOrder.1 hy))) htexts
  have hperm : ∀ items : List Item, ((inOrder P items).map triple).Perm (items.map triple) := fun items =>
    (List.perm_insertionSort _ items).map triple
  exact hdiffer ((hperm a).symm.trans (htriples ▸ hperm b))

/-- where no two items of one checklist print the same id, the order is told by what is printed -/
theorem unshuffled (ha : ∀ x ∈ a, ∀ y ∈ a, x.id.toStr P = y.id.toStr P → triple x = triple y) : ¬ Shuffled P a b := by
  rintro ⟨hsame, id, hdiffer⟩
  have hperm := @SameTriples.called P _ _ hsame id
  have hequal : (called P id a).map triple = (called P id b).map triple := by
    cases hgroup : called P id a with
    | nil =>
      rw [hgroup] at hperm
      exact hperm.nil_eq
    | cons x xs =>
      have hcalled : ∀ {y}, y ∈ called P id a → y ∈ a ∧ y.id.toStr P = id := fun hy => by
        simpa [called] using hy
      obtain ⟨hx, hidx⟩ := hcalled (hgroup ▸ List.mem_cons_self)
      have hone : (called P id a).map triple = List.replicate (called P id a).length (triple x) := by
        rw [List.eq_replicate_iff]
        refine ⟨List.length_map _, fun t ht => ?_⟩
        obtain ⟨y, hy, rfl⟩ := List.mem_map.1 ht
        exact ha y (hcalled hy).1 x hx ((hcalled hy).2.trans hidx.symm)
      rw [← hgroup]
      rw [hone] at hperm ⊢
      exact (List.perm_replicate.1 hperm.symm).symm
  have hrows : ∀ items : List Item, items.map (row P) = (items.map triple).map fun t =>
      Row.mk (t.1.toStr P).toList t.2.1 (t.2.2.toStr P).toList := by
    intro items
    rw [List.map_map]
    rfl
  rw [hrows, hrows, hequal] at hdiffer
  exact hdiffer (.refl _)

/-- **Shuffled checklists** have two items whose ids print alike. -/
theorem Shuffled.alike (h : Shuffled P a b) :
    ∃ x ∈ a, ∃ y ∈ a, x.id.toStr P = y.id.toStr P ∧ triple x ≠ triple y := by
  by_contra hnone
  push Not at hnone
  exact unshuffled hnone h

/-- **Confused checklists** have an item that is not plain. -/
theorem Confused.odd (h : Confused P a b) : ∃ it, (it ∈ a ∨ it ∈ b) ∧ ¬ PlainItem it := by
  by_contra hnone
  push Not at hnone
  exact plain_unconfused (fun it hit => hnone it (Or.inl hit)) (fun it hit => hnone it (Or.inr hit)) h

theorem Plain.unshuffled (h : Plain a) : ¬ Shuffled P a b := by
  refine Envelope.unshuffled fun x hx y hy heq => ?_
  obtain ⟨⟨s, hs, -⟩, -⟩ := h.each x hx
  obtain ⟨⟨s', hs', -⟩, -⟩ := h.each y hy
  rw [hs, hs'] at heq
  have hid : x.id = y.id := by rw [hs, hs']; exact congrArg Value.str heq
  rw [List.inj_on_of_nodup_map h.once hx hy hid]

/-- **Plain checklists** are told apart. -/
theorem plain_exact (ha : Plain a) (hb : Plain b) : digest P a = digest P b ↔ SameTriples a b :=
  digest_exact.2 ⟨ha.unshuffled, plain_unconfused ha.each hb.each⟩

/-- plain items with one fingerprint are the same -/
theorem same_of_digest (ha : ∀ it ∈ a, PlainItem it) (hb : ∀ it ∈ b, PlainItem it) (h : digest P a = digest P b) :
    SameTriples a b := by
  by_contra hdiffer
  refine @plain_unconfused P a b ha hb ⟨hdiffer, alike_iff.2 ?_⟩
  rw [← digest_toList, ← digest_toList, h]

end Digest

/-- **An owner unseen.** An open item of nobody, and one of an agent called `None`, have one fingerprint. -/
theorem none_unseen :
    digest ⟨fun _ => "", lower⟩ [⟨.str "c1", .str "", .opened, .none, .none, .none, 0⟩] =
        digest ⟨fun _ => "", lower⟩ [⟨.str "c1", .str "", .opened, .str "None", .none, .none, 0⟩] ∧
      ¬ SameTriples [⟨.str "c1", .str "", .opened, .none, .none, .none, 0⟩]
        [⟨.str "c1", .str "", .opened, .str "None", .none, .none, 0⟩] := by
  refine ⟨rfl, fun h => ?_⟩
  have hmem := h.mem_iff.1 List.mem_cons_self
  simp [triple] at hmem

end Rally.Envelope
