import TapeService.Lemmas.Footprints

/-!
# Scored documents

A score is followed by a removal: `POST /score` removes the entry itself, and the listener removes it once
more. A document that is put into the tape while one of these removals is still to come does not stay.
-/

namespace TapeService

open Interleaving Interleaving.Program Interleaving.Protocol Python

section
variable [DatetimeLib]

/-- A removal of the document that its score has set off is still to come. -/
inductive Pending (userId d : Int) (w : World service) : Prop
  | queued (h : ⟨some userId, some d⟩ ∈ w.state.db.notifications)
  | handled {i : Nat} (hs : .started i (.handle ⟨some userId, some d⟩) ∈ w.log)
      (hr : ∀ r, .called i (.zrem (entriesKey userId) d) r ∉ w.log)
  | submitted {i : Nat} {payload : ScoreRequest} {role id : Int} {p : ScorePayload} {t : Option String}
      (hj : .started i (.submitScore userId payload) ∈ w.log) (hd : payload.documentId = d)
      (hs : .called i (.scoreSave userId d role p t) (.ok id) ∈ w.log)
      (hr : ∀ r, .called i (.zrem (entriesKey userId) d) r ∉ w.log)

/-- A document that is put into the tape has no score yet, or a removal of it is still to come. -/
def AddsInTime (userId : Int) (c : Conf service) (l : Label service) : Prop :=
  ∀ d p, (c.call? l).map Prod.snd = some (.zaddNx (entriesKey userId) d p) →
    d ∉ c.world.state.tape userId → c.world.state.db.Scored userId d → Pending userId d c.world

/-- A document without a score may be put into the tape at any time. -/
def addsUnscored (userId : Int) (c : Conf service) (l : Label service) : Bool :=
  match (c.call? l).map Prod.snd with
  | some (.zaddNx _ d _) => ¬ c.world.state.db.Scored userId d
  | _ => true

theorem AddsInTime.of_unscored {userId : Int} {c : Conf service} {l : Label service}
    (h : addsUnscored userId c l) : AddsInTime userId c l := by
  intro d p hcall _ hscored
  simp [addsUnscored, hcall, hscored] at h

/-- The user and the document of a request that has returned the id of its score. -/
def scoredDocument? (t : Thread service) : Option (Int × Int) :=
  match t.job, t.outcome? with
  | .submitScore userId payload, some (.ok (.scored _)) => some (userId, payload.documentId)
  | _, _ => none

theorem scoredDocument?_eq_some {t : Thread service} {userId d : Int}
    (h : scoredDocument? t = some (userId, d)) :
    ∃ payload id, t.job = .submitScore userId payload ∧ payload.documentId = d ∧
      t.outcome? = some (.ok (.scored id)) := by
  unfold scoredDocument? at h
  split at h
  · rename_i payload id hjob hr
    cases h
    exact ⟨payload, id, hjob, rfl, hr⟩
  · cases h

namespace ScoredGone

variable {userId : Int} {i : Nat} {w : World service} {s : State}

/-- Every scored document that is in the tape is about to be removed. -/
def protocol (userId : Int) : Protocol service where
  inv w := ∀ d ∈ w.state.tape userId, w.state.db.Scored userId d → Pending userId d w
  guar w _ s := ∀ d, w.state.db.Scored userId d → s.db.Scored userId d
  rely _ _ _ _ := True
  may w _ c := ∀ d p, c = .zaddNx (entriesKey userId) d p → d ∉ w.state.tape userId →
    w.state.db.Scored userId d → Pending userId d w
  faults := False

/-- What is pending stays so unless the step is the removal, or takes the notification off the queue. -/
theorem Pending.push {d : Int} {ev : Event service} (h : Pending userId d w)
    (hn : ⟨some userId, some d⟩ ∈ w.state.db.notifications →
      ⟨some userId, some d⟩ ∈ s.db.notifications ∨
        ∃ j, ev = .started j (.handle ⟨some userId, some d⟩) ∧ w.Fresh j)
    (hev : ∀ j r, ev ≠ .called j (.zrem (entriesKey userId) d) r) : Pending userId d (w.push ev s) := by
  cases h with
  | queued h =>
      rcases hn h with h | ⟨j, rfl, hfresh⟩
      · exact .queued h
      · refine .handled (i := j) List.mem_cons_self fun r hr => ?_
        rcases List.mem_cons.mp hr with hr | hr
        · cases hr
        · exact hfresh _ hr rfl
  | @handled j hs hr =>
      refine .handled (List.mem_cons_of_mem _ hs) fun r hr' => ?_
      rcases List.mem_cons.mp hr' with hr' | hr'
      · exact hev j r hr'.symm
      · exact hr r hr'
  | @submitted j _ _ _ _ _ hj hd hs hr =>
      refine .submitted (List.mem_cons_of_mem _ hj) hd (List.mem_cons_of_mem _ hs) fun r hr' => ?_
      rcases List.mem_cons.mp hr' with hr' | hr'
      · exact hev j r hr'.symm
      · exact hr r hr'

theorem good_of_call {c : Call} (hw : (protocol userId).inv w) (hm : (protocol userId).may w i c)
    {r : Except Exn c.Reply} (hr : (protocol userId).Answers c w.state r s) :
    (protocol userId).Good i w (.called i c r) s := by
  obtain ⟨rfl, rfl⟩ := hr.of_faultless id
  refine ⟨fun d hd hscored => ?_, fun d h => exec_scored h, fun _ _ => trivial⟩
  have hpush : Pending userId d w →
      Pending userId d (w.push (.called i c (exec c w.state).1) (exec c w.state).2) := by
    intro h
    refine Pending.push h (fun hn => .inl (exec_mem_notifications hn)) fun j r he => ?_
    cases he
    rw [World.push_state, exec_zrem_tape, Redis.ZSet.mem_zrem] at hd
    exact hd.2 rfl
  by_cases hin : d ∈ w.state.tape userId
  · by_cases hold : w.state.db.Scored userId d
    · exact hpush (hw d hin hold)
    · exact .queued (exec_announced hold hscored)
  · obtain ⟨p, rfl⟩ := exec_mem_tape hin hd
    exact hpush (hm d p rfl hin hscored)

/-- Whatever a program calls keeps the protocol. -/
theorem keeps {α : Type} {A : World service → Prop} {p : Prog α} (hA : (protocol userId).Persistent A) :
    (protocol userId).Keeps i A p := by
  refine Keeps.of_persistent hA ?_
  induction p with
  | ret a => trivial
  | raise e => trivial
  | call c k ih => exact ⟨fun w hw _ hm r s hr => good_of_call hw hm hr, ih⟩

theorem good_of_tape {ev : Event service} (hw : (protocol userId).inv w)
    (ht : s.tape userId = w.state.tape userId)
    (hscored : ∀ d, w.state.db.Scored userId d → s.db.Scored userId d)
    (hannounced : ∀ d, ¬ w.state.db.Scored userId d → s.db.Scored userId d →
      ⟨some userId, some d⟩ ∈ s.db.notifications)
    (hn : ∀ d, ⟨some userId, some d⟩ ∈ w.state.db.notifications →
      ⟨some userId, some d⟩ ∈ s.db.notifications ∨
        ∃ j, ev = .started j (.handle ⟨some userId, some d⟩) ∧ w.Fresh j)
    (hev : ∀ j c r, ev ≠ .called j c r) : (protocol userId).Good i w ev s := by
  refine ⟨fun d hd hs => ?_, hscored, fun _ _ => trivial⟩
  by_cases hold : w.state.db.Scored userId d
  · rw [World.push_state, ht] at hd
    exact Pending.push (hw d hd hold) (hn d) fun j r => hev j _ r
  · exact .queued (hannounced d hold hs)

/-! ## The removals -/

/-- The document has been asked to be removed by thread `i`. -/
def Asked (userId d : Int) (i : Nat) (w : World service) : Prop :=
  ∃ r, .called i (.zrem (entriesKey userId) d) r ∈ w.log

theorem persistent_asked {d : Int} : (protocol userId).Persistent (Asked userId d i) := by
  intro w ev s _ ⟨r, hr⟩
  exact ⟨r, List.mem_cons_of_mem _ hr⟩

theorem persistent_true : (protocol userId).Persistent fun _ => True :=
  fun _ _ _ _ _ => trivial

theorem removeEntry_triple {A : World service → Prop} (hA : (protocol userId).Stable i A) {d : Int} :
    (protocol userId).Triple i A (removeEntry userId d) fun _ => Asked userId d i :=
  Triple.perform hA fun _ hw _ hm r _ hr => ⟨good_of_call hw hm hr, r, List.mem_cons_self⟩

theorem handle_triple {d : Int} :
    (protocol userId).Triple i (fun _ => True) (handle (Notification.payload ⟨some userId, some d⟩))
      fun _ => Asked userId d i := by
  refine Triple.tryCatch (Q := fun _ => Asked userId d i) ?_ (fun _ _ _ h => h)
    fun _ => Triple.ret fun _ _ h => h
  exact Triple.bind (removeEntry_triple (Stable.true i)) (fun removed => keeps persistent_asked)
    fun _ _ _ h => h

/-- Thread `i` has not saved a score. -/
def Unsaved (i : Nat) (w : World service) : Prop :=
  ∀ u d r p t id, .called i (.scoreSave u d r p t) (.ok id) ∉ w.own i

theorem stable_unsaved : (protocol userId).Stable i (Unsaved i) := by
  intro w ev s _ _ hev _ _ h
  rwa [Unsaved, World.own_push_of_ne hev]

def HasScore (userId d : Int) (w : World service) : Prop := w.state.db.Scored userId d

theorem persistent_hasScore {d : Int} : (protocol userId).Persistent (HasScore userId d) :=
  fun _ _ _ hg h => hg d h

theorem scoreSave_triple {d r : Int} {p : ScorePayload} {t : Option String} :
    (protocol userId).Triple i (Unsaved i) (scoreSave userId d r p t)
      (upon (fun _ => HasScore userId d) (Unsaved i)) := by
  refine Triple.tryCatch (Q := upon (fun _ => HasScore userId d) (Unsaved i)) ?_
    (fun _ _ _ h => h) fun e => by cases e <;> exact Triple.raise fun _ _ h => h
  refine Triple.perform stable_unsaved fun w hw h hm x s hx => ?_
  refine ⟨good_of_call hw hm hx, ?_⟩
  obtain ⟨rfl, rfl⟩ := hx.of_faultless id
  cases hx : (exec (.scoreSave userId d r p t) w.state).1 with
  | ok id => exact Platform.scored_of_insertScore hx rfl rfl
  | error e =>
      intro u d' r' p' t' id hmem
      rw [World.own_push rfl] at hmem
      rcases List.mem_cons.mp hmem with he | hmem
      · cases he
      · exact h u d' r' p' t' id hmem

theorem submitScore_triple {payload : ScoreRequest} :
    (protocol userId).Triple i (Unsaved i) (submitScore userId payload)
      (upon (fun _ w => HasScore userId payload.documentId w ∧ Asked userId payload.documentId i w)
        fun w => Unsaved i w ∨ Asked userId payload.documentId i w) := by
  refine Triple.bind (Q := upon (fun _ => HasScore userId payload.documentId) (Unsaved i)) ?_
    (fun scoreId => ?_) fun _ _ _ h => .inl h
  · refine Triple.tryCatch scoreSave_triple (fun _ _ _ h => h) fun e => ?_
    cases e <;> exact Triple.raise fun _ _ h => h
  · have hboth : (protocol userId).Persistent fun w =>
        HasScore userId payload.documentId w ∧ Asked userId payload.documentId i w :=
      fun w ev s hg h => ⟨persistent_hasScore w ev s hg h.1, persistent_asked w ev s hg h.2⟩
    refine Triple.bind (Q := fun _ w => HasScore userId payload.documentId w ∧
      Asked userId payload.documentId i w) ?_ (fun _ => ?_) fun _ _ _ h => .inr h.2
    · refine Triple.perform persistent_hasScore.stable fun w hw h hm r s hr => ?_
      have hg := good_of_call hw hm hr
      exact ⟨hg, persistent_hasScore w _ s hg.guar h, r, List.mem_cons_self⟩
    · exact Triple.conseq ((keeps hboth).upon fun _ _ h => Or.inr h.2) (fun _ _ h => h) fun _ _ _ h => h

/-! ## The outline -/

/-- A handler has asked for its removal when it ends, and so has a request that has saved a score. -/
structure Post (userId : Int) (i : Nat) (job : Job) (r : Except Exn Out) (w : World service) : Prop where
  handled : ∀ d, job = .handle ⟨some userId, some d⟩ → Asked userId d i w
  submitted : ∀ payload, job = .submitScore userId payload →
    Unsaved i w ∨ Asked userId payload.documentId i w
  scored : ∀ payload id, job = .submitScore userId payload → r = .ok (.scored id) →
    HasScore userId payload.documentId w

theorem body_triple {job : Job} :
    (protocol userId).Triple i (Unsaved i) (Job.body i job) (Post userId i job) := by
  by_cases hh : ∃ d, job = .handle ⟨some userId, some d⟩
  · obtain ⟨d, rfl⟩ := hh
    refine Triple.map (Triple.conseq handle_triple (fun _ _ _ => trivial) fun _ _ _ h => h) fun r w _ h => ?_
    refine ⟨fun d' hj => ?_, nofun, nofun⟩
    cases hj
    exact h
  · by_cases hs : ∃ payload, job = .submitScore userId payload
    · obtain ⟨payload, rfl⟩ := hs
      refine Triple.map submitScore_triple fun r w _ h => ⟨nofun, fun payload' hj => ?_, ?_⟩
      · cases hj
        cases r with
        | ok id => exact .inr h.2
        | error e => exact h
      · intro payload' id hj hr
        cases hj
        cases r with
        | ok id => exact h.1
        | error e => cases hr
    · refine Triple.conseq (keeps persistent_true) (fun _ _ _ => trivial) fun r w _ _ => ?_
      exact ⟨fun d hj => absurd ⟨d, hj⟩ hh, fun payload hj => absurd ⟨payload, hj⟩ hs,
        fun payload _ hj => absurd ⟨payload, hj⟩ hs⟩

def outline (userId : Int) :
    Outline service fun c l => l.Faultless ∧ AddsInTime userId c l where
  toProtocol := protocol userId
  post := Post userId
  post_stable i job r w ev s _ _ hev hg h := by
    refine ⟨fun d hj => persistent_asked w ev s hg (h.handled d hj), fun payload hj => ?_,
      fun payload id hj hr => persistent_hasScore w ev s hg (h.scored payload id hj hr)⟩
    rcases h.submitted payload hj with h | h
    · left
      rwa [Unsaved, World.own_push_of_ne hev]
    · exact .inr (persistent_asked w ev s hg h)
  may_ok c i t q hok hi hq d p he := hok.2 d p (by rw [Conf.call?_run hi hq, he]; rfl)
  may_fail _ _ _ _ _ _ hok _ _ := hok.1.elim
  start_ok c job s _ hw hfresh hs := by
    have hscores : s.db.scores = c.world.state.db.scores := Job.begin_scores hs
    have hg : (protocol userId).Good c.threads.length c.world (.started c.threads.length job) s := by
      refine good_of_tape hw (Job.begin_tape hs) (fun d h => ?_) (fun d h h' => ?_) (fun d hn => ?_) (by simp)
      · rwa [Platform.Scored, hscores]
      · rw [Platform.Scored, hscores] at h'
        exact absurd h' h
      · rcases Job.begin_keeps_notification hs hn with h | rfl
        · exact .inl h
        · exact .inr ⟨_, rfl, hfresh⟩
    refine ⟨hg, body_triple _ hg.inv fun u d r p t id hmem => ?_⟩
    rw [World.own_push rfl, World.own_of_fresh hfresh] at hmem
    simp at hmem
  crash_ok _ _ hok := hok.1.elim
  env_ok c e s hok hw hs := by
    have hg : (protocol userId).Good 0 c.world (.env e) s :=
      good_of_tape hw (Env.apply_tape hs) (fun d h => Env.apply_scored hs h)
        (fun d h h' => Env.apply_announced hs h h') (fun d hn => .inl (Env.apply_mem_notifications hs hn)) (by simp)
    exact ⟨hg.inv, hg.guar, fun _ _ _ _ => trivial⟩

end ScoredGone

/-- In the runs in which no document is put into the tape after its removals, nothing that a request has
scored is left in the tape once the user's requests, generations and notifications are done. -/
theorem not_mem_of_submitScore (db : Platform) {userId : Int} {c : Conf service}
    (h : Reach (fun c l => l.Faultless ∧ AddsInTime userId c l) ⟨.empty, db⟩ c) (hidle : Idle userId c)
    (hnone : ∀ n ∈ c.world.state.db.notifications, n.userId ≠ some userId) {t : Thread service} {d : Int}
    (ht : t ∈ c.threads) (hscored : scoredDocument? t = some (userId, d)) :
    d ∉ c.world.state.tape userId := by
  obtain ⟨payload, id, hjob, rfl, hr⟩ := scoredDocument?_eq_some hscored
  have hinit : (ScoredGone.outline userId).inv ⟨⟨.empty, db⟩, []⟩ :=
    fun d hd => absurd hd (Redis.ZSet.not_mem_empty d)
  have hc : (ScoredGone.outline userId).Holds c := Outline.holds_of_reach hinit h
  have hend : ∀ {i job}, .started i job ∈ c.world.log → job.user? = some userId →
      ∃ r, ScoredGone.Post userId i job r c.world := by
    intro i job hs huser
    obtain ⟨t, ht, rfl⟩ := h.logged i job hs
    have hmem := List.mem_of_getElem? ht
    obtain ⟨r, hr⟩ := h.outcome_of_ended (fun _ _ hok => hok.1) hmem (hidle t hmem huser)
    exact ⟨r, hc.outcome ht hr⟩
  obtain ⟨i, hi⟩ := List.getElem?_of_mem ht
  have hscored := (hc.outcome hi hr).scored payload id hjob rfl
  intro hmem
  cases hc.inv payload.documentId hmem hscored with
  | queued hq => exact hnone _ hq rfl
  | handled hs hr =>
      obtain ⟨r, hpost⟩ := hend hs rfl
      obtain ⟨r, hasked⟩ := hpost.handled _ rfl
      exact hr r hasked
  | @submitted j payload' role id' p t' hj hd hs hr =>
      obtain ⟨r, hpost⟩ := hend hj rfl
      rcases hpost.submitted payload' rfl with hunsaved | ⟨r, hasked⟩
      · exact hunsaved _ _ _ _ _ _ (World.mem_own.mpr ⟨hs, rfl⟩)
      · exact hr r (hd ▸ hasked)

end

section
open scoped Python.Utc

/-- The second of two articles is scored, and its notification is handled. -/
def Sample.scored : List (Label service) :=
  Sample.build ++ .start (.submitScore 1 (Sample.request 8)) :: Sample.runs 2 3 ++
    .start (.handle ⟨some 1, some 8⟩) :: Sample.runs 3 2

theorem scored_not_mem :
    8 ∉ ((Sample.start [Sample.article 7, Sample.article 8]).play Sample.scored).world.state.tape 1 := by
  have hobeys : (Sample.start [Sample.article 7, Sample.article 8]).Obeys
      (fun c l => l.Faultless ∧ addsUnscored 1 c l) Sample.scored := by
    decide +kernel
  have hscored : ∃ t ∈ ((Sample.start [Sample.article 7, Sample.article 8]).play Sample.scored).threads,
      scoredDocument? t = some (1, 8) := by
    decide +kernel
  obtain ⟨t, ht, hscored⟩ := hscored
  have hreach : Reach (fun c l => l.Faultless ∧ AddsInTime 1 c l)
      ⟨.empty, .start [Sample.article 7, Sample.article 8]⟩
      ((Sample.start [Sample.article 7, Sample.article 8]).play Sample.scored) :=
    Steps.play (hobeys.mono fun c l h => ⟨h.1, AddsInTime.of_unscored h.2⟩)
  exact not_mem_of_submitScore _ hreach (by decide +kernel) (by decide +kernel) ht hscored

/-- The score and both of its removals fall between the candidate query and the `ZADD`. -/
def Sample.overtaken : List (Label service) :=
  .start (.writeConfig 1 (Sample.update .asc [1])) :: Sample.runs 0 9 ++
    .start (.generate 1 true) :: Sample.runs 1 9 ++
    .start (.submitScore 1 (Sample.request 7)) :: Sample.runs 2 3 ++
    .start (.handle ⟨some 1, some 7⟩) :: Sample.runs 3 2 ++ Sample.runs 1 20

theorem scored_document_returns :
    ¬ ∀ (db : Platform) (c : Conf service), Reach (S := service) (fun _ l => l.Faultless) ⟨.empty, db⟩ c →
      Idle 1 c →
      (∀ n ∈ c.world.state.db.notifications, n.userId ≠ some 1) →
      ∀ t ∈ c.threads, ∀ d, scoredDocument? t = some (1, d) → d ∉ c.world.state.tape 1 := by
  intro h
  have hobeys : (Sample.start [Sample.article 7]).Obeys (fun _ l => l.Faultless) Sample.overtaken := by
    decide +kernel
  have hscored : ∃ t ∈ ((Sample.start [Sample.article 7]).play Sample.overtaken).threads,
      scoredDocument? t = some (1, 7) := by
    decide +kernel
  have hmem : 7 ∈ ((Sample.start [Sample.article 7]).play Sample.overtaken).world.state.tape 1 := by
    decide +kernel
  obtain ⟨t, ht, hscored⟩ := hscored
  have hreach : Reach (S := service) (fun _ l => l.Faultless) ⟨.empty, .start [Sample.article 7]⟩
      ((Sample.start [Sample.article 7]).play Sample.overtaken) := Steps.play hobeys
  exact h _ _ hreach (by decide +kernel) (by decide +kernel) t ht 7 hscored hmem

end

end TapeService
