/-
Two dictionaries that hold the same things under different keys. Nothing here is about one program.

- `assign`: an assignment or a deletion, by what is under the key afterwards. `assign_get?`: to assign what is there
  changes nothing.
- `Renamed`: entry by entry, the keys of one are those of the other under `f`, and the values are related.
- `Renamed.get?`, `Renamed.assign`: where no other key in use has the same name, lookups agree and assignments keep this.
-/
import Rally.Core.Dict

namespace Dict

variable {κ κ' α β : Type} [DecidableEq κ] [DecidableEq κ']

/-- what is under a key afterwards -/
def assign (d : List (κ × α)) (k : κ) : Option α → List (κ × α)
  | some a => upsert d k fun _ => a
  | none => erase d k

theorem get?_assign (d : List (κ × α)) (k l : κ) (o : Option α) :
    get? (assign d k o) l = if k = l then o else get? d l := by
  cases o with
  | none => exact get?_erase d k l
  | some a => exact get?_upsert d k l fun _ => a

theorem assign_get? (d : List (κ × α)) (k : κ) : assign d k (get? d k) = d := by
  induction d with
  | nil => rfl
  | cons p d ih =>
    obtain ⟨l, b⟩ := p
    rw [get?_cons]
    by_cases hl : l = k
    · rw [if_pos hl]
      simp [assign, upsert, hl]
    · rw [if_neg hl]
      generalize get? d k = o at ih ⊢
      cases o with
      | none =>
        simp only [assign, erase, List.filter_cons, ne_eq, hl, not_false_iff, decide_true, if_true] at ih ⊢
        rw [ih]
      | some a =>
        simp only [assign, upsert, if_neg hl] at ih ⊢
        rw [ih]

theorem mem_erase {d : List (κ × α)} {k : κ} {p : κ × α} : p ∈ erase d k ↔ p ∈ d ∧ p.1 ≠ k := by
  simp [erase]

theorem mem_upsert {d : List (κ × α)} {k : κ} {a : α} {p : κ × α} (h : p ∈ upsert d k fun _ => a) :
    p ∈ d ∨ p = (k, a) := by
  induction d with
  | nil => exact .inr (List.mem_singleton.1 h)
  | cons q d ih =>
    obtain ⟨l, b⟩ := q
    rw [upsert] at h
    split_ifs at h with hl
    · rcases List.mem_cons.1 h with rfl | h
      · exact .inr (by rw [hl])
      · exact .inl (List.mem_cons_of_mem _ h)
    · rcases List.mem_cons.1 h with rfl | h
      · exact .inl List.mem_cons_self
      · exact (ih h).imp_left (List.mem_cons_of_mem _)

theorem mem_assign {d : List (κ × α)} {k : κ} {o : Option α} {p : κ × α} (h : p ∈ assign d k o) :
    p ∈ d ∨ ∃ a ∈ o, p = (k, a) := by
  cases o with
  | none => exact .inl (mem_erase.1 h).1
  | some a => exact (mem_upsert h).imp_right fun h => ⟨a, rfl, h⟩

theorem ok_assign {d : List (κ × α)} (h : Ok d) (k : κ) (o : Option α) : Ok (assign d k o) := by
  cases o with
  | none => exact List.Nodup.sublist (List.filter_sublist.map Prod.fst) h
  | some a => exact ok_upsert h k _

/-- the same dictionary under other keys -/
def Renamed (f : κ → κ') (R : κ → α → β → Prop) (d : List (κ × α)) (e : List (κ' × β)) : Prop :=
  List.Forall₂ (fun p q => f p.1 = q.1 ∧ R p.1 p.2 q.2) d e

section Renamed

variable {f : κ → κ'} {R : κ → α → β → Prop} {d : List (κ × α)} {e : List (κ' × β)} {k : κ}

omit [DecidableEq κ] [DecidableEq κ'] in
theorem Renamed.mem_left (h : Renamed f R d e) {p : κ × α} (hp : p ∈ d) : ∃ q ∈ e, f p.1 = q.1 ∧ R p.1 p.2 q.2 := by
  induction h with
  | nil => cases hp
  | cons hpq _ ih =>
    rcases List.mem_cons.1 hp with rfl | hp
    · exact ⟨_, List.mem_cons_self, hpq⟩
    · obtain ⟨q, hq, h⟩ := ih hp
      exact ⟨q, List.mem_cons_of_mem _ hq, h⟩

omit [DecidableEq κ] [DecidableEq κ'] in
theorem Renamed.mem_right (h : Renamed f R d e) {q : κ' × β} (hq : q ∈ e) : ∃ p ∈ d, f p.1 = q.1 ∧ R p.1 p.2 q.2 := by
  induction h with
  | nil => cases hq
  | cons hpq _ ih =>
    rcases List.mem_cons.1 hq with rfl | hq
    · exact ⟨_, List.mem_cons_self, hpq⟩
    · obtain ⟨p, hp, h⟩ := ih hq
      exact ⟨p, List.mem_cons_of_mem _ hp, h⟩

theorem Renamed.get? (h : Renamed f R d e) (hk : ∀ p ∈ d, f p.1 = f k → p.1 = k) :
    Option.Rel (R k) (get? d k) (get? e (f k)) := by
  induction h with
  | nil => exact .none
  | @cons p q d e hpq _ ih =>
    obtain ⟨hname, hvalue⟩ := hpq
    have hother := fun p hp => hk p (List.mem_cons_of_mem _ hp)
    rw [get?_cons, get?_cons, ← hname]
    by_cases hp : p.1 = k
    · rw [if_pos hp, if_pos (congrArg f hp)]
      exact .some (hp ▸ hvalue)
    · rw [if_neg hp, if_neg fun hf => hp (hk p List.mem_cons_self hf)]
      exact ih hother

theorem Renamed.upsert (h : Renamed f R d e) (hk : ∀ p ∈ d, f p.1 = f k → p.1 = k) {a : α} {b : β} (hab : R k a b) :
    Renamed f R (upsert d k fun _ => a) (upsert e (f k) fun _ => b) := by
  induction h with
  | nil => exact .cons ⟨rfl, hab⟩ .nil
  | @cons p q d e hpq h ih =>
    have hother := fun p hp => hk p (List.mem_cons_of_mem _ hp)
    unfold Dict.upsert
    rw [← hpq.1]
    by_cases hp : p.1 = k
    · rw [if_pos hp, if_pos (congrArg f hp)]
      exact .cons ⟨rfl, hp ▸ hab⟩ h
    · rw [if_neg hp, if_neg fun hf => hp (hk p List.mem_cons_self hf)]
      exact .cons ⟨rfl, hpq.2⟩ (ih hother)

theorem Renamed.erase (h : Renamed f R d e) (hk : ∀ p ∈ d, f p.1 = f k → p.1 = k) :
    Renamed f R (erase d k) (erase e (f k)) := by
  induction h with
  | nil => exact .nil
  | @cons p q d e hpq _ ih =>
    have hother := fun p hp => hk p (List.mem_cons_of_mem _ hp)
    unfold Dict.erase at ih ⊢
    rw [List.filter_cons, List.filter_cons, ← hpq.1]
    by_cases hp : p.1 = k
    · rw [if_neg (by simp [hp]), if_neg (by simp [hp])]
      exact ih hother
    · have hname : f p.1 ≠ f k := fun hf => hp (hk p List.mem_cons_self hf)
      rw [if_pos (by simp [hp]), if_pos (by simp [hname])]
      exact .cons hpq (ih hother)

theorem Renamed.assign (h : Renamed f R d e) (hk : ∀ p ∈ d, f p.1 = f k → p.1 = k) {o : Option α} {o' : Option β}
    (ho : Option.Rel (R k) o o') : Renamed f R (assign d k o) (assign e (f k) o') := by
  cases ho with
  | none => exact h.erase hk
  | some hab => exact h.upsert hk hab

end Renamed

end Dict
