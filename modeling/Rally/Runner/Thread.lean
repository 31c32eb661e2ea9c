/-
The mail thread of a run (`mail_turn`, `mail_report` and `handle_note` of `src/runner.py`), over all commands, turns and
crashes: the Message-ID, In-Reply-To and References of the messages that go out, and `thread_references`.

The id of an update is made of the run, the turn and the actor. The id of a report is made of the run alone, whatever the
generation, and a note joins the thread under the id it came with, also where it comes again.

- `thread_apart`: where one generation of reports is mailed and each note brings an id of its own, two messages with one
  id are about one turn or one report, no message answers or refers to itself, and no reference is listed twice.
- `noted_brings`: the id a note brings to the thread is the one it came with.
- `thread_tangled`: a commission is reported and retried: the second report has the id of the first, answers itself, and
  leaves its id in the references twice.
-/
import Rally.Runner.Delivery
import Rally.Runner.Journal

namespace Rally.Runner

open Py Rally.Envelope Rally.Report

/-! ## Messages -/

/-- what a message is about -/
inductive Subject where
  | turn (n : ℕ)
  | report (generation : ℕ)
deriving DecidableEq

/-- a message, with the headers that place it in the thread -/
structure Message where
  subject : Subject
  messageId : String
  inReplyTo : Option String
  references : List String
deriving DecidableEq

/-- the message the next one replies to -/
def priorOf (s : RunState) : Option String := s.threadMessageId.filter fun m => m ≠ ""

/-- the references of the next message -/
def referencesOf (s : RunState) : List String :=
  match priorOf s with
  | some prior => if prior ∈ s.threadReferences then s.threadReferences else s.threadReferences ++ [prior]
  | none => s.threadReferences

/-- the message that `mail_turn` or `mail_report` makes of a mail in the state `s` -/
def messageOf (s : RunState) : Mail → Message
  | .update _ turn actor _ => ⟨.turn turn, updateId s.runId turn actor, priorOf s, referencesOf s⟩
  | .report _ _ _ _ => ⟨.report (deliveryOf s).generation, reportId s.runId, priorOf s, referencesOf s⟩

/-- the message an event sends, where the file is `s` -/
def Ev.message (s : RunState) : Ev → Option Message
  | .send m => some (messageOf s m)
  | _ => none

/-- the messages of a run, in order -/
def outbox : RunState → List Ev → List Message
  | _, [] => []
  | s, e :: l => (e.message s).toList ++ outbox (e.saved.getD s) l

/-- an id that the run gives a message of its own -/
inductive Own (runId : String) : String → Prop where
  | update (turn : ℕ) (actor : String) : Own runId (updateId runId turn actor)
  | report : Own runId (reportId runId)

/-- the id that a note brings to the thread, from the files before and after -/
def broughtId (s t : RunState) : Option String :=
  if t.threadReferences = s.threadReferences then none else t.threadMessageId

section Messages

variable {f s t : RunState} {runId : String}

theorem updateId_toList (runId : String) (n : ℕ) (actor : String) : ∃ rest, (updateId runId n actor).toList =
    '<' :: runId.toList ++ '-' :: (Nat.toDigits 10 n ++ '-' :: rest) := by
  refine ⟨actor.toList ++ "@updates.agent9.dev>".toList, ?_⟩
  simp [updateId, toString, String.toList_append]

theorem reportId_toList (runId : String) : ∃ rest, (reportId runId).toList =
    '<' :: runId.toList ++ '-' :: 'r' :: rest := by
  refine ⟨"eport@updates.agent9.dev>".toList, ?_⟩
  simp [reportId, toString, String.toList_append]

/-- the turn can be read off the id of its update -/
theorem updateId_inj {m n : ℕ} {a b : String} (h : updateId runId m a = updateId runId n b) : m = n := by
  obtain ⟨x, hx⟩ := updateId_toList runId m a
  obtain ⟨y, hy⟩ := updateId_toList runId n b
  have hlist : Nat.toDigits 10 m ++ '-' :: x = Nat.toDigits 10 n ++ '-' :: y := by
    have := hx.symm.trans ((congrArg String.toList h).trans hy)
    simpa using this
  have hread : ∀ k rest, (Nat.toDigits 10 k ++ '-' :: rest).takeWhile (fun c => c.isDigit) = Nat.toDigits 10 k := by
    intro k rest
    rw [List.takeWhile_append_of_pos fun c hc => Nat.isDigit_of_mem_toDigits (by decide) (by decide) hc]
    simp
  have hdigits : Nat.toDigits 10 m = Nat.toDigits 10 n := by
    rw [← hread m x, hlist, hread n y]
  calc m = Nat.ofDigitChars 10 (Nat.toDigits 10 m) 0 := Nat.ofDigitChars_ten_toDigits.symm
    _ = Nat.ofDigitChars 10 (Nat.toDigits 10 n) 0 := by rw [hdigits]
    _ = n := Nat.ofDigitChars_ten_toDigits

theorem updateId_ne_reportId (n : ℕ) (a : String) : updateId runId n a ≠ reportId runId := by
  intro h
  obtain ⟨x, hx⟩ := updateId_toList runId n a
  obtain ⟨y, hy⟩ := reportId_toList runId
  have hlist : Nat.toDigits 10 n ++ '-' :: x = 'r' :: y := by
    have := hx.symm.trans ((congrArg String.toList h).trans hy)
    simpa using this
  cases hd : Nat.toDigits 10 n with
  | nil => exact Nat.toDigits_ne_nil hd
  | cons c cs =>
    have hdigit : c.isDigit = true :=
      Nat.isDigit_of_mem_toDigits (by decide) (by decide) (hd ▸ List.mem_cons_self : c ∈ Nat.toDigits 10 n)
    rw [hd, List.cons_append] at hlist
    obtain ⟨rfl, -⟩ := List.cons.inj hlist
    cases hdigit

/-- what a message adds to the thread: its references and its own id -/
theorem threadOn_references (s : RunState) (m : String) : (threadOn s m).threadReferences = referencesOf s ++ [m] := by
  unfold threadOn referencesOf priorOf
  cases s.threadMessageId with
  | none => rfl
  | some prior =>
    by_cases hempty : prior = ""
    · simp [hempty, Option.filter]
    · simp [hempty, Option.filter]

/-- joining a thread from the memory, told from the file -/
theorem Steady.threadOn_references (h : Steady f s) (m : String) :
    (threadOn s m).threadReferences = referencesOf f ++ [m] := by
  have hprior : priorOf s = priorOf f := by rw [priorOf, priorOf, h.messageId]
  have hrefs : referencesOf s = referencesOf f := by rw [referencesOf, referencesOf, hprior, h.references]
  rw [Runner.threadOn_references, hrefs]

/-- whatever id joins the thread, the references get longer -/
theorem Steady.threadOn_brings (h : Steady f s) (m : String) : broughtId f (threadOn s m) = some m := by
  have hlonger : (threadOn s m).threadReferences ≠ f.threadReferences := by
    rw [h.threadOn_references]
    intro heq
    have hlen := congrArg List.length heq
    unfold referencesOf at hlen
    split at hlen
    · split_ifs at hlen <;> simp at hlen
    · simp at hlen
  rw [broughtId, if_neg hlonger]
  rfl

/-- **The id a note brings** to the thread is the one it came with. -/
theorem noted_brings {n : Note} (h : noted s n = .ok t) : broughtId s t = n.messageId.filter fun m => m ≠ "" := by
  obtain ⟨u, hu, h⟩ := bind_ok h
  have hsteady := level_note hu
  cases h
  split
  · rename_i m hm
    exact (hsteady.threadOn_brings m).trans hm.symm
  · rename_i hm
    rw [broughtId, if_pos hsteady.references, hm]

end Messages

/-! ## The thread over a run -/

/-- what keeps the thread sound: one generation of reports is mailed, and a note brings an id that is new to the thread
and that the run gives no message -/
def apart : Monitor Ev Page where
  next p e := ⟨e.saved.getD p.file, e.mailed.or p.mailed⟩
  fine p e := match e with
    | .send (.report _ _ _ key) => ∀ k, p.mailed = some k → k = key
    | .save (.noteApplied _) t =>
      ∀ m, broughtId p.file t = some m → m ∉ p.file.threadReferences ∧ ¬ Own p.file.runId m
    | _ => True

/-- a run without reports, whose thread is the commission, if that came by mail -/
structure Fresh (s : RunState) : Prop where
  thread : s.threadReferences = s.threadMessageId.toList
  given : ∀ m, s.threadMessageId = some m → m ≠ "" ∧ ¬ Own s.runId m
  unreported : s.reportDelivery = none

/-- the report of this generation is settled, or another came after it -/
def Slip.Past (g : ℕ) (p : Slip) : Prop := g < p.generation ∨ (g = p.generation ∧ p.Settled)

/-- the thread of a page holds no id that a message to come may have -/
structure Sound (runId : String) (p : Page) : Prop where
  run : p.file.runId = runId
  nodup : p.file.threadReferences.Nodup
  joined : ∀ m, priorOf p.file = some m → m ∈ p.file.threadReferences
  earlier : ∀ n a, updateId runId n a ∈ p.file.threadReferences → n < p.file.turn
  reported : reportId runId ∈ p.file.threadReferences → ∃ g, p.mailed = some (reportKey runId g) ∧ (slip p.file).Past g

/-- a state with the run, the turn and the thread of another -/
structure SameThread (f t : RunState) : Prop where
  runId : t.runId = f.runId
  turn : t.turn = f.turn
  messageId : t.threadMessageId = f.threadMessageId
  references : t.threadReferences = f.threadReferences

/-- a message of the run under its id, which it neither answers nor refers to -/
structure Message.Placed (runId : String) (m : Message) : Prop where
  named : (∃ n a, m.subject = .turn n ∧ m.messageId = updateId runId n a) ∨
    ∃ g, m.subject = .report g ∧ m.messageId = reportId runId
  answers : m.inReplyTo ≠ some m.messageId
  refers : m.messageId ∉ m.references

section Run

variable {P : Runtime} {cfg : Cfg} {f s t : RunState} {k : Option String} {runId : String} {e : Ev}

theorem fine_past {p : Slip} {g : ℕ} (h : p.Fine e) (hp : p.Past g) : (deliveries.next p e).Past g := by
  rcases fine_cases h with ⟨halt, text, key, t, rfl, ht⟩ | ⟨m, t, rfl, -, hmoves⟩ | ⟨-, -, hnext⟩
  · have hgen : t.reportGeneration = p.generation + 1 := congrArg Slip.generation ht
    have hle : g ≤ p.generation := hp.elim (fun h => h.le) fun h => h.1.le
    exact .inl (by change g < t.reportGeneration; omega)
  · rcases hp with hlt | ⟨rfl, hsettled⟩
    · exact .inl (hlt.trans_le hmoves.generation_le)
    · have hsame : slip t = p := hmoves.settled hsettled
      exact .inr ⟨(congrArg Slip.generation hsame).symm, by change (slip t).Settled; rwa [hsame]⟩
  · rwa [hnext]

theorem Steady.sameThread (h : Steady f t) : SameThread f t := ⟨h.runId, h.turn, h.messageId, h.references⟩

theorem Sound.references (h : Sound runId ⟨f, k⟩) : referencesOf f = f.threadReferences := by
  unfold referencesOf
  split
  · rename_i m hm
    rw [if_pos (h.joined m hm)]
  · rfl

/-- a save that leaves the thread alone -/
theorem Sound.same (h : Sound runId ⟨f, k⟩) (hsame : SameThread f t) (hpast : ∀ g, (slip f).Past g → (slip t).Past g) :
    Sound runId ⟨t, k⟩ where
  run := hsame.runId.trans h.run
  nodup := hsame.references ▸ h.nodup
  joined m hm := by
    have hprior : priorOf t = priorOf f := by rw [priorOf, priorOf, hsame.messageId]
    rw [hprior] at hm
    exact hsame.references ▸ h.joined m hm
  earlier n a hn := by
    rw [hsame.references] at hn
    exact hsame.turn ▸ h.earlier n a hn
  reported hr := by
    rw [hsame.references] at hr
    obtain ⟨g, hg, hp⟩ := h.reported hr
    exact ⟨g, hg, hpast g hp⟩

/-- a save with one more id on the thread -/
theorem Sound.join (h : Sound runId ⟨f, k⟩) {m : String} (hrun : t.runId = f.runId)
    (hprior : t.threadMessageId = some m) (hrefs : t.threadReferences = referencesOf f ++ [m])
    (hturn : f.turn ≤ t.turn) (hnew : m ∉ f.threadReferences) (hupdate : ∀ n a, m = updateId runId n a → n < t.turn)
    (hreport : m = reportId runId → ∃ g, k = some (reportKey runId g) ∧ (slip t).Past g)
    (hpast : ∀ g, (slip f).Past g → (slip t).Past g) : Sound runId ⟨t, k⟩ := by
  rw [h.references] at hrefs
  have hmem : ∀ x, x ∈ t.threadReferences → x ∈ f.threadReferences ∨ x = m := by
    intro x hx
    rw [hrefs] at hx
    simpa using hx
  refine ⟨hrun.trans h.run, ?_, ?_, ?_, ?_⟩
  · change t.threadReferences.Nodup
    rw [hrefs]
    exact h.nodup.append (List.nodup_singleton m) fun x hx hxm => hnew (List.mem_singleton.1 hxm ▸ hx)
  · intro x hx
    have hxm : m = x := by
      have hfilter := (Option.filter_eq_some_iff.1 hx).1
      exact Option.some.inj (hprior.symm.trans hfilter)
    change x ∈ t.threadReferences
    rw [hrefs, ← hxm]
    simp
  · intro n a hn
    rcases hmem _ hn with hn | hn
    · exact (h.earlier n a hn).trans_le hturn
    · exact hupdate n a hn.symm
  · intro hr
    rcases hmem _ hr with hr | hr
    · obtain ⟨g, hg, hp⟩ := h.reported hr
      exact ⟨g, hg, hpast g hp⟩
    · exact hreport hr.symm

/-- an unsettled report was not mailed before, under an id on the thread -/
theorem Sound.unsettled (h : Sound runId ⟨f, k⟩) (hfiled : (slip f).Filed) {d : Delivery}
    (hfound : f.reportDelivery = some d) (hpend : d.status = .pending) (hk : ∀ x, k = some x → x = d.idempotencyKey) :
    reportId runId ∉ f.threadReferences := by
  intro hr
  obtain ⟨g, hg, hpast⟩ := h.reported hr
  have hkey : d.idempotencyKey = reportKey runId f.reportGeneration := h.run ▸ (hfiled d hfound).2
  have hgen : g = f.reportGeneration := reportKey_inj ((hk _ hg).trans hkey)
  rcases hpast with hlt | ⟨-, d', hd', hst⟩
  · exact absurd hgen hlt.ne
  · obtain rfl : d = d' := Option.some.inj (hfound.symm.trans hd')
    exact hst hpend

theorem startSecondWind_sameThread {kind fromActor detail : String} {ids : List Value}
    (h : startSecondWind s cfg kind fromActor detail ids = .ok (true, t)) : SameThread s t := by
  obtain ⟨c, hc, h⟩ := bind_ok h
  split_ifs at h
  · cases h
  obtain ⟨items, -, h⟩ := bind_ok h
  cases h
  exact ⟨rfl, rfl, rfl, rfl⟩

theorem SameThread.trans {u : RunState} (h : SameThread s t) (h' : SameThread t u) : SameThread s u :=
  ⟨h'.runId.trans h.runId, h'.turn.trans h.turn, h'.messageId.trans h.messageId, h'.references.trans h.references⟩

/-- `advance` ends the turn and leaves the thread as the mail left it -/
theorem advance_thread (s : RunState) (actor : String) :
    (advance P cfg s actor).runId = s.runId ∧ (advance P cfg s actor).turn = s.turn + 1 ∧
      (advance P cfg s actor).threadMessageId = s.threadMessageId ∧
      (advance P cfg s actor).threadReferences = s.threadReferences := by
  unfold advance
  obtain ⟨c, hc⟩ := finishSecondWind_spec
    { s with
      digestStreak := if digest P s.checklist = s.lastDigest then s.digestStreak + 1 else 0
      lastDigest := digest P s.checklist, turn := s.turn + 1, actor := nextActor s cfg actor } actor
  rw [hc]
  exact ⟨rfl, rfl, rfl, rfl⟩

/-- an accepted turn, its update on the thread if it was mailed -/
theorem Sound.turn (h : Sound runId ⟨f, k⟩) {u v : RunState} (hmem : Over f s) (hacc : Accepts P cfg s f.actor u v)
    (hpast : ∀ g, (slip f).Past g → (slip (advance P cfg v f.actor)).Past g) :
    Sound runId ⟨advance P cfg v f.actor, k⟩ := by
  obtain ⟨⟨env, commit, narrative, hrev⟩, hmail⟩ := hacc
  have hu := hmem.toSteady.trans (steady_review hrev)
  obtain ⟨hrun, hturn, hid, hrefs⟩ := @advance_thread P cfg v f.actor
  rcases hmail with rfl | rfl
  · -- the turn counts, and the thread stays
    refine ⟨(hrun.trans hu.runId).trans h.run, ?_, fun m hm => ?_, fun n a hn => ?_, fun hr => ?_⟩
    · change (advance P cfg v f.actor).threadReferences.Nodup
      rw [hrefs, hu.references]
      exact h.nodup
    · have hprior : priorOf (advance P cfg v f.actor) = priorOf f := by rw [priorOf, priorOf, hid, hu.messageId]
      change m ∈ (advance P cfg v f.actor).threadReferences
      rw [hrefs, hu.references]
      exact h.joined m (hprior ▸ hm)
    · have hn' : updateId runId n a ∈ f.threadReferences := by
        rw [← hu.references, ← hrefs]
        exact hn
      have hlt : n < f.turn := h.earlier n a hn'
      change n < (advance P cfg v f.actor).turn
      rw [hturn, hu.turn]
      omega
    · have hr' : reportId runId ∈ f.threadReferences := by
        rw [← hu.references, ← hrefs]
        exact hr
      obtain ⟨g, hg, hp⟩ := h.reported hr'
      exact ⟨g, hg, hpast g hp⟩
  · have hown : updateId u.runId u.turn f.actor = updateId runId f.turn f.actor := by
      rw [hu.runId, hu.turn, ← h.run]
    rw [hown] at hrun hturn hid hrefs hpast ⊢
    have hturn' : (advance P cfg (threadOn u (updateId runId f.turn f.actor)) f.actor).turn = f.turn + 1 := by
      rw [hturn]
      exact congrArg (· + 1) hu.turn
    refine h.join (hrun.trans hu.runId) hid (hrefs.trans (hu.threadOn_references _)) (by omega) (fun hmem => ?_)
      (fun n a hn => ?_) (fun hr => absurd hr (updateId_ne_reportId _ _)) hpast
    · exact absurd (h.earlier _ _ hmem) (lt_irrefl _)
    · rw [hturn', ← updateId_inj hn]
      omega

/-- **One step of the thread.** -/
theorem sound_step (h : Sound runId ⟨f, k⟩) (hfiled : (slip f).Filed) (hw : Writes P cfg f k e) (hd : (slip f).Fine e)
    (ha : apart.fine ⟨f, k⟩ e) : Sound runId (apart.next ⟨f, k⟩ e) := by
  have hpast : ∀ g, (slip f).Past g → (deliveries.next (slip f) e).Past g := fun g => fine_past hd
  cases hw with
  | dispatch | writeReport | resuming | update => exact h
  | steady other same => exact h.same same.sameThread hpast
  | handoff memory made => exact h.same (memory.sameThread.trans (startSecondWind_sameThread made)) hpast
  | @note s key m memory given =>
    obtain ⟨hnew, hother⟩ := ha m (memory.threadOn_brings m)
    have hrun : f.runId = runId := h.run
    refine h.join memory.runId rfl (memory.threadOn_references m) memory.turn.ge hnew (fun n a hm => ?_) (fun hm => ?_) hpast
    · exact absurd (hrun ▸ hm ▸ .update n a) hother
    · exact absurd (hrun ▸ hm ▸ .report) hother
  | turn memory accepted => exact h.turn memory accepted hpast
  | sendBlocked memory accepted =>
    obtain ⟨⟨env, commit, narrative, hrev⟩, -⟩ := accepted
    exact h.same ((memory.toSteady.trans (steady_review hrev)).halted _).sameThread hpast
  | report found unsettled =>
    refine ⟨h.run, h.nodup, h.joined, h.earlier, fun hr => ?_⟩
    exact absurd hr (h.unsettled hfiled found unsettled ha)
  | @delivered s d memory found unsettled mailed settled =>
    have hkey : d.idempotencyKey = reportKey runId f.reportGeneration := h.run ▸ (hfiled d found).2
    have hnew : reportId runId ∉ f.threadReferences :=
      h.unsettled hfiled found unsettled fun x hx => Option.some.inj (hx.symm.trans mailed)
    have hrun : f.runId = runId := h.run
    rw [hrun] at hpast ha hd ⊢
    refine h.join memory.runId rfl (memory.threadOn_references _) memory.turn.ge hnew (fun n a hm => ?_) (fun _ => ?_) hpast
    · exact absurd hm.symm (updateId_ne_reportId n a)
    · obtain ⟨id, hs⟩ := settled
      have hsettled : (slip (threadOn s (reportId runId))).Settled := ⟨_, hs, by simp⟩
      have hle : f.reportGeneration ≤ s.reportGeneration := Slip.Moves.generation_le hd
      exact ⟨f.reportGeneration, mailed.trans (congrArg some hkey), hle.lt_or_eq.imp_right (⟨·, hsettled⟩)⟩

/-- a message goes out under an id that the thread does not hold -/
theorem message_placed (h : Sound runId ⟨f, k⟩) (hfiled : (slip f).Filed) (hw : Writes P cfg f k e)
    (ha : apart.fine ⟨f, k⟩ e) {m : Message} (hm : e.message f = some m) :
    m.Placed runId ∧ ∀ g, m.subject = .report g →
      e.mailed = some (reportKey runId g) ∧ ∀ x, k = some x → x = reportKey runId g := by
  have hrun : f.runId = runId := h.run
  have placed : ∀ m : Message, m.inReplyTo = priorOf f → m.references = referencesOf f →
      m.messageId ∉ f.threadReferences → m.inReplyTo ≠ some m.messageId ∧ m.messageId ∉ m.references := by
    intro m hprior hrefs hnew
    rw [hprior, hrefs, h.references]
    exact ⟨fun heq => hnew (h.joined _ heq), hnew⟩
  cases hw with
  | @update s human text memory =>
    cases hm
    have hnew : updateId f.runId s.turn f.actor ∉ f.threadReferences := fun hmem => by
      rw [hrun, memory.turn] at hmem
      exact absurd (h.earlier _ _ hmem) (lt_irrefl _)
    obtain ⟨hanswers, hrefers⟩ := placed (messageOf f (.update human s.turn f.actor text)) rfl rfl hnew
    exact ⟨⟨.inl ⟨_, _, rfl, by rw [← hrun]; rfl⟩, hanswers, hrefers⟩, fun g hg => by cases hg⟩
  | @report d human text status found unsettled =>
    cases hm
    have hof : deliveryOf f = d := by simp [deliveryOf, found]
    have hnew : reportId f.runId ∉ f.threadReferences := hrun ▸ h.unsettled hfiled found unsettled ha
    obtain ⟨hanswers, hrefers⟩ := placed (messageOf f (.report human status text d.idempotencyKey)) rfl rfl hnew
    obtain ⟨hgen, hkey⟩ := hfiled d found
    refine ⟨⟨.inr ⟨_, rfl, by rw [← hrun]; rfl⟩, hanswers, hrefers⟩, fun g hg => ?_⟩
    have hg' : d.generation = g := by
      rw [← hof]
      exact Subject.report.inj hg
    have hown : d.idempotencyKey = reportKey runId g := by
      rw [hkey, ← hg', hgen, ← hrun]
      rfl
    exact ⟨congrArg some hown, fun x hx => (ha x hx).trans hown⟩
  | _ => cases hm

end Run

/-- an event that mails a report sends a message about one -/
theorem message_of_mailed {f : RunState} {e : Ev} {m : Message} {key : String} (hm : e.message f = some m)
    (h : e.mailed = some key) : ∃ g, m.subject = .report g := by
  cases e with
  | send m' => cases m' with
    | update human n actor text => cases h
    | report human st text key' =>
      cases hm
      exact ⟨_, rfl⟩
  | _ => cases hm

/-- the messages of a run, and the files it leaves -/
structure Threaded (s : RunState) (l : List Ev) : Prop where
  distinct : (outbox s l).Pairwise fun x y => x.subject ≠ y.subject → x.messageId ≠ y.messageId
  placed : ∀ m ∈ outbox s l, m.inReplyTo ≠ some m.messageId ∧ m.messageId ∉ m.references
  references : ∀ e ∈ l, ∀ t, e.saved = some t → t.threadReferences.Nodup

/-- two messages of the run, the second about no other report than the first, if both are about reports -/
theorem Message.Placed.distinct {runId : String} {x y : Message} (hx : x.Placed runId) (hy : y.Placed runId)
    (hreport : ∀ g g', x.subject = .report g → y.subject = .report g' → g = g') (h : x.subject ≠ y.subject) :
    x.messageId ≠ y.messageId := by
  rcases hx.named with ⟨m, a, hxs, hxi⟩ | ⟨g, hxs, hxi⟩ <;> rcases hy.named with ⟨n, b, hys, hyi⟩ | ⟨g', hys, hyi⟩
  · rw [hxi, hyi]
    exact fun heq => h (by rw [hxs, hys, updateId_inj heq])
  · rw [hxi, hyi]
    exact updateId_ne_reportId m a
  · rw [hxi, hyi]
    exact (updateId_ne_reportId n b).symm
  · exact absurd (by rw [hxs, hys, hreport g g' hxs hys]) h

/-- **A run of the thread.** -/
theorem run_threaded {P : Runtime} {cfg : Cfg} {runId : String} {p : Page} {l : List Ev}
    (hj : (journal P cfg).Accepts p l) (hd : deliveries.Accepts (slip p.file) l) (ha : apart.Accepts p l)
    (hfiled : (slip p.file).Filed) (h : Sound runId p) :
    Threaded p.file l ∧ ∀ m ∈ outbox p.file l, m.Placed runId ∧
      ∀ g, m.subject = .report g → ∀ x, p.mailed = some x → x = reportKey runId g := by
  induction hj with
  | nil =>
    have hnone : ∀ {α : Type} {q : α → Prop}, ∀ m ∈ ([] : List α), q m := fun m hm => (List.not_mem_nil hm).elim
    exact ⟨⟨.nil, hnone, hnone⟩, hnone⟩
  | @cons p e l hw _ ih =>
    obtain ⟨f, k⟩ := p
    rw [Monitor.accepts_cons] at hd ha
    obtain ⟨hfine, hd⟩ := hd
    obtain ⟨hapart, ha⟩ := ha
    have hnext : deliveries.next (slip f) e = slip (e.saved.getD f) := by
      simp only [deliveries]
      cases e.saved <;> rfl
    rw [hnext] at hd
    have hfiled' := (fine_filed hfine hfiled).2
    rw [hnext] at hfiled'
    have hsound := sound_step h hfiled hw hfine hapart
    obtain ⟨hrest, hall⟩ := ih hd ha hfiled' hsound
    have hsaved : ∀ e' ∈ e :: l, ∀ t, e'.saved = some t → t.threadReferences.Nodup := by
      intro e' he' t ht
      rcases List.mem_cons.1 he' with rfl | he'
      · have hnodup := hsound.nodup
        simpa [apart, ht] using hnodup
      · exact hrest.references e' he' t ht
    -- a report that follows a mailed one is of its generation
    have hlast : ∀ m ∈ outbox (e.saved.getD f) l, m.Placed runId ∧
        ∀ g, m.subject = .report g → ∀ x, e.mailed.or k = some x → x = reportKey runId g := hall
    cases hm : e.message f with
    | none =>
      have hbox : outbox f (e :: l) = outbox (e.saved.getD f) l := by simp [outbox, hm]
      have hmailed : e.mailed = none := by
        cases e with
        | send m => cases hm
        | _ => rfl
      rw [hmailed, Option.none_or] at hlast
      exact ⟨⟨hbox ▸ hrest.distinct, hbox ▸ hrest.placed, hsaved⟩, hbox ▸ hlast⟩
    | some m =>
      have hbox : outbox f (e :: l) = m :: outbox (e.saved.getD f) l := by simp [outbox, hm]
      obtain ⟨hplace, hreport⟩ := message_placed h hfiled hw hapart hm
      refine ⟨⟨?_, ?_, hsaved⟩, ?_⟩
      · change (outbox f (e :: l)).Pairwise _
        rw [hbox]
        refine .cons (fun y hy => ?_) hrest.distinct
        obtain ⟨hplace', hreport'⟩ := hlast y hy
        refine hplace.distinct hplace' fun g g' hg hg' => ?_
        have hk : e.mailed.or k = some (reportKey runId g) := by rw [(hreport g hg).1, Option.some_or]
        exact reportKey_inj (hreport' g' hg' _ hk)
      · change ∀ x ∈ outbox f (e :: l), _
        rw [hbox]
        exact List.forall_mem_cons.2 ⟨⟨hplace.answers, hplace.refers⟩, hrest.placed⟩
      · change ∀ x ∈ outbox f (e :: l), _
        rw [hbox]
        refine List.forall_mem_cons.2 ⟨⟨hplace, fun g hg => (hreport g hg).2⟩, fun y hy => ?_⟩
        obtain ⟨hplace', hreport'⟩ := hlast y hy
        refine ⟨hplace', fun g hg x hx => hreport' g hg x ?_⟩
        cases hkey : e.mailed with
        | none => rwa [Option.none_or]
        | some key =>
          obtain ⟨g', hg'⟩ := message_of_mailed hm hkey
          obtain ⟨hown, hprev⟩ := hreport g' hg'
          rw [Option.some_or, ← hkey, hown, hprev x hx]

/-- **One thread.** In every run of commands, each cut short anywhere, in which reports of one generation are mailed and
each note brings an id of its own: messages about different turns or reports have different ids, no message answers or
refers to itself, and no file lists a reference twice. -/
theorem thread_apart {P : Runtime} {cfg : Cfg} {s : RunState} {jobs : List Job} (hfresh : Fresh s)
    (hapart : apart.Accepts ⟨s, none⟩ (session P cfg s jobs)) : Threaded s (session P cfg s jobs) := by
  obtain ⟨hthread, hgiven, hunreported⟩ := hfresh
  have hfiled : (slip s).Filed := fun d hd => by
    rw [show (slip s).delivery = s.reportDelivery from rfl, hunreported] at hd
    cases hd
  have hown : ∀ m, Own s.runId m → m ∉ s.threadReferences := by
    intro m hm hmem
    rw [hthread, Option.mem_toList] at hmem
    exact (hgiven m hmem).2 hm
  have hsound : Sound s.runId ⟨s, none⟩ := by
    refine ⟨rfl, ?_, fun m hm => ?_, fun n a hn => absurd hn (hown _ (.update n a)), fun hr =>
      absurd hr (hown _ .report)⟩
    · change s.threadReferences.Nodup
      rw [hthread]
      cases s.threadMessageId <;> simp
    · change m ∈ s.threadReferences
      rw [hthread, Option.mem_toList]
      exact (Option.filter_eq_some_iff.1 hm).1
  exact (run_threaded (session_journal P cfg s jobs) (session_deliveries jobs) hapart hfiled hsound).1

/-! ## Two reports -/

/-- a turn that scopes an item and is mailed, a failed agent, and what becomes of the report's mail -/
def scopedThenFailed (mail : MailOutcome) : Work :=
  { workOf [mailedReply (.sent "re_0") (envelopeOf [(.str "c1", "open", .none)]), failingTurn] with mail := mail }

theorem q2_ne : "q2" ≠ "" := by decide

/-- the report of the commission is refused, and a note by mail is reported -/
def refusedThenNoted : List Job :=
  [⟨.commission none none, scopedThenFailed (.refused "daily ceiling"), none⟩,
   ⟨.note ⟨"q2", "go on", some "ann@example.com", some "<n1@example.com>", q2_ne⟩, scopedThenFailed (.sent "re_2"),
    none⟩]

/-- an id that came with other mail -/
theorem foreign_sample : ¬ Own "r-1" "<n1@example.com>" := by
  intro h
  generalize hid : "<n1@example.com>" = m at h
  cases h with
  | update n actor =>
    obtain ⟨rest, hrest⟩ := updateId_toList "r-1" n actor
    rw [← hid] at hrest
    simp at hrest
  | report => exact absurd hid (by decide)

/-- an update, a note, another update and a report on one thread -/
theorem thread_apart_sample :
    (outbox newRun (session plainText mailedAgents newRun refusedThenNoted)).map (fun m => (m.subject, m.messageId)) =
      [(.turn 0, "<r-1-0-claude@updates.agent9.dev>"), (.turn 1, "<r-1-1-agy@updates.agent9.dev>"),
       (.report 2, "<r-1-report@updates.agent9.dev>")] ∧
    Threaded newRun (session plainText mailedAgents newRun refusedThenNoted) := by
  refine ⟨by decide, thread_apart ⟨rfl, nofun, rfl⟩ ?_⟩
  have hnote : ∀ m, some "<n1@example.com>" = some m →
      m ∉ ["<r-1-0-claude@updates.agent9.dev>"] ∧ ¬ Own "r-1" m := by
    rintro m h
    cases h
    exact ⟨by decide, foreign_sample⟩
  iterate 8 refine .cons trivial ?_
  refine .cons hnote ?_
  iterate 9 refine .cons trivial ?_
  refine .cons (fun k hk => by cases hk) ?_
  exact .cons trivial .nil

/-- an agent that fails at once, twice, with a report each time -/
def reportedTwice : List Job :=
  [⟨.commission none none, { workOf [failingTurn] with mail := .sent "re_1" }, none⟩,
   ⟨.retry, { workOf [failingTurn] with mail := .sent "re_2" }, none⟩]

/-- **A tangled thread.** A commission is reported and retried: the second report has the id of the first, answers and
refers to itself, and leaves its id in the references twice. -/
theorem thread_tangled :
    outbox newRun (session plainText mailedAgents newRun reportedTwice) =
      [⟨.report 1, "<r-1-report@updates.agent9.dev>", none, []⟩,
       ⟨.report 2, "<r-1-report@updates.agent9.dev>", some "<r-1-report@updates.agent9.dev>",
        ["<r-1-report@updates.agent9.dev>"]⟩] ∧
    (∃ e ∈ session plainText mailedAgents newRun reportedTwice, ∃ t, e.saved = some t ∧
      t.threadReferences = ["<r-1-report@updates.agent9.dev>", "<r-1-report@updates.agent9.dev>"]) ∧
    ¬ Threaded newRun (session plainText mailedAgents newRun reportedTwice) := by
  have houtbox : outbox newRun (session plainText mailedAgents newRun reportedTwice) =
      [⟨.report 1, "<r-1-report@updates.agent9.dev>", none, []⟩,
       ⟨.report 2, "<r-1-report@updates.agent9.dev>", some "<r-1-report@updates.agent9.dev>",
        ["<r-1-report@updates.agent9.dev>"]⟩] := by decide
  refine ⟨houtbox, ⟨_, List.getLast_mem (List.cons_ne_nil _ _), _, rfl, rfl⟩, fun h => ?_⟩
  have hdistinct := h.distinct
  rw [houtbox] at hdistinct
  exact absurd hdistinct (by decide)

end Rally.Runner
