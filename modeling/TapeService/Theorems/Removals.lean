import TapeService.Lemmas.Footprints

/-!
# Removals

A document leaves a tape in a deletion of the whole tape by a generation of its own user, or else because
it is scored: whoever removes a single entry has seen the row that stands for the score, or a notification
that the trigger of that row has sent.
-/

namespace TapeService

open Interleaving Interleaving.Program Interleaving.Protocol Python

/-- Every notification that waits for its delivery belongs to a row of `score.score`. -/
def Platform.Announced (db : Platform) : Prop :=
  ∀ n ∈ db.notifications, ∀ u d, n.userId = some u → n.documentId = some d → db.Scored u d

theorem Platform.Announced.insertScore {db : Platform} {row : ScoreRow} (h : db.Announced) :
    (db.insertScore row).2.Announced := by
  intro n hn u d hu hd
  rcases db.insertScore_cases row with ⟨-, -, hnot⟩ | ⟨-, hs, hnot⟩ <;> rw [hnot] at hn
  · exact (h n hn u d hu hd).insertScore
  · rcases List.mem_append.mp hn with hn | hn
    · exact (h n hn u d hu hd).insertScore
    · obtain rfl := List.mem_singleton.mp hn
      refine ⟨(db.scoreSeq, row), ?_, hu, hd⟩
      rw [hs]
      exact List.mem_append_right _ (List.mem_singleton.mpr rfl)

namespace Removals

/-- A call that removes no entry and inserts no score. -/
def Reads : Call → Prop
  | .zrem _ _ => False
  | .multiZcardDel _ => False
  | .scoreSave _ _ _ _ _ => False
  | _ => True

theorem Reads.tape {c : Call} (h : Reads c) {s : State} {u d : Int} (hd : d ∈ s.tape u) :
    d ∈ (exec c s).2.tape u := by
  by_cases he : c.EditsTape u
  · cases c with
    | zaddNx key m p =>
        obtain rfl : key = entriesKey u := he
        rw [exec_zaddNx_tape]
        exact Redis.ZSet.mem_zaddNx.mpr (.inl hd)
    | zrem key m => exact h.elim
    | multiZcardDel key => exact h.elim
    | _ => exact he.elim
  · rwa [exec_tape he]

end Removals

section
variable [DatetimeLib]

namespace Removals

/-- Thread `i` was started for the job. -/
def Started (i : Nat) (job : Job) (w : World service) : Prop := .started i job ∈ w.log

/-- The step deletes the whole tape of the user, and belongs to a generation for that user. -/
def BulkDeletion (userId : Int) (w : World service) (ev : Event service) : Prop :=
  ∃ i dirty r, ev = .called i (.multiZcardDel (entriesKey userId)) r ∧ Started i (.generate userId dirty) w

/-- Scores stay, and a document that leaves a tape is scored unless the whole tape is deleted. -/
def protocol : Protocol service where
  inv w := w.state.db.Announced
  guar w ev s := (∀ u d, w.state.db.Scored u d → s.db.Scored u d) ∧
    ∀ u d, d ∈ w.state.tape u → d ∉ s.tape u → BulkDeletion u w ev ∨ w.state.db.Scored u d
  rely _ _ _ _ := True
  may _ _ _ := True
  faults := True

variable {i : Nat} {w : World service} {ev : Event service} {s : State}

theorem persistent_started {job : Job} : protocol.Persistent (Started i job) :=
  fun _ _ _ _ h => List.mem_cons_of_mem _ h

theorem persistent_scored {u d : Int} : protocol.Persistent fun w => w.state.db.Scored u d :=
  fun _ _ _ hg h => hg.1 u d h

theorem persistent_scored_all {u : Int} {ds : List Int} :
    protocol.Persistent fun w => ∀ d ∈ ds, w.state.db.Scored u d :=
  fun _ _ _ hg h d hd => hg.1 u d (h d hd)

/-- A step that removes nothing and inserts no score. -/
theorem good_of_tape (hw : protocol.inv w) (ht : ∀ u d, d ∈ w.state.tape u → d ∈ s.tape u)
    (hdb : s.db = w.state.db) : protocol.Good i w ev s where
  inv := by
    show s.db.Announced
    rw [hdb]
    exact hw
  guar := ⟨fun u d h => hdb ▸ h, fun u d hd hd' => absurd (ht u d hd) hd'⟩
  rely _ _ := trivial

theorem Reads.safe {A : World service → Prop} {c : Call} (h : Reads c) : protocol.Safe i A c := by
  intro w hw _ _ r s hr
  rcases hr.state with rfl | rfl
  · exact good_of_tape hw (fun _ _ hd => hd) rfl
  · refine good_of_tape hw (fun _ _ hd => h.tape hd) (exec_db ?_)
    cases c <;> first | exact h.elim | exact id

/-- An entry may be removed once its document is scored. -/
theorem zrem_safe {u d : Int} :
    protocol.Safe i (fun w => w.state.db.Scored u d) (.zrem (entriesKey u) d) := by
  intro w hw hscored _ r s hr
  rcases hr.state with rfl | rfl
  · exact good_of_tape hw (fun _ _ hd => hd) rfl
  · refine ⟨hw, ⟨fun _ _ h => h, fun u' d' hd hd' => .inr ?_⟩, fun _ _ => trivial⟩
    by_cases hu : u' = u
    · subst hu
      rw [exec_zrem_tape, Redis.ZSet.mem_zrem, not_and_not_right] at hd'
      exact hd' hd ▸ hscored
    · rw [exec_tape (by simpa [Call.EditsTape] using Ne.symm hu)] at hd'
      exact absurd hd hd'

theorem multiZcardDel_safe {u : Int} {dirty : Bool} :
    protocol.Safe i (Started i (.generate u dirty)) (.multiZcardDel (entriesKey u)) := by
  intro w hw hstarted _ r s hr
  rcases hr.state with rfl | rfl
  · exact good_of_tape hw (fun _ _ hd => hd) rfl
  · refine ⟨hw, ⟨fun _ _ h => h, fun u' d' hd hd' => .inl ?_⟩, fun _ _ => trivial⟩
    by_cases hu : u' = u
    · subst hu
      exact ⟨i, dirty, r, rfl, hstarted⟩
    · rw [exec_tape (by simpa [Call.EditsTape] using Ne.symm hu)] at hd'
      exact absurd hd hd'

theorem scoreSave_safe {u d r : Int} {p : ScorePayload} {t : Option String} {A : World service → Prop} :
    protocol.Safe i A (.scoreSave u d r p t) := by
  intro w hw _ _ r s hr
  rcases hr.state with rfl | rfl
  · exact good_of_tape hw (fun _ _ hd => hd) rfl
  · exact ⟨Platform.Announced.insertScore hw,
      ⟨fun _ _ h => h.insertScore, fun _ _ hd hd' => absurd hd hd'⟩, fun _ _ => trivial⟩

theorem keeps_true {α : Type} {p : Prog α} (hp : p.Uses Reads) : protocol.Keeps i (fun _ => True) p :=
  Keeps.of_persistent (fun _ _ _ _ _ => trivial) (hp.mono fun _ h => h.safe)

/-! ## The jobs -/

theorem generateForUser_triple {t : String} {u : Int} {dirty : Bool} :
    protocol.Keeps i (Started i (.generate u dirty)) (generateForUser t u dirty) := by
  refine Keeps.of_persistent persistent_started (generateForUser_uses.mono fun c hc => ?_)
  cases c with
  | multiZcardDel key =>
      obtain rfl : key = entriesKey u := hc.1
      exact multiZcardDel_safe
  | zrem key m => exact hc.elim
  | scoreSave _ _ _ _ _ => exact hc.elim
  | _ => exact Reads.safe trivial

theorem filterAlreadyScored_triple {u : Int} {docIds : List Int} :
    protocol.Triple i (fun _ => True) (filterAlreadyScored u docIds) fun r =>
      match r with
      | .ok alreadyScored => fun w => ∀ d ∈ alreadyScored, w.state.db.Scored u d
      | .error _ => fun _ => True := by
  unfold filterAlreadyScored
  split
  · exact Triple.ret fun _ _ _ _ hd => (nomatch hd)
  · refine Triple.perform (Stable.true i) fun w hw _ hm r s hr => ?_
    refine ⟨Reads.safe (A := fun _ => True) (c := .scoredAmong u docIds) trivial w hw trivial hm r s hr, ?_⟩
    cases r with
    | error e => trivial
    | ok alreadyScored =>
        obtain ⟨rfl, hrows⟩ := hr.of_ok
        obtain rfl : w.state.db.scoredAmong u docIds = alreadyScored := Except.ok.inj hrows
        exact fun d hd => Platform.scored_of_mem_scoredAmong hd

theorem readRows_triple {u : Int} {cfg : TapeConfig} {rows : List (Int × Int)} :
    protocol.Triple i (fun _ => True) (readRows u cfg rows) fun _ _ => True := by
  refine Triple.bind (keeps_true (fetchByIds_uses fun _ => trivial)) (fun docs => ?_) fun _ _ _ _ => trivial
  refine Triple.bind filterAlreadyScored_triple (fun alreadyScored => ?_) fun _ _ _ _ => trivial
  refine Triple.bind (Keeps.of_persistent persistent_scored_all (rolesBySource_uses
    (fun _ => Reads.safe trivial) fun _ => Reads.safe trivial)) (fun rolesBySrc => ?_) fun _ _ _ _ => trivial
  refine Triple.bind (Keeps.of_persistent persistent_scored_all (pageItems_uses (fun d hd => ?_)
    fun _ _ => Reads.safe trivial)) (fun items => Triple.ret fun _ _ _ => trivial) fun _ _ _ _ => trivial
  exact fun w hw h => zrem_safe w hw (h d hd)

theorem readTape_triple {u : Int} {after : Option Nat} :
    protocol.Triple i (fun _ => True) (readTape u after) fun _ _ => True := by
  refine Triple.bind (keeps_true (uses_ask trivial)) (fun locked => ?_) fun _ _ _ _ => trivial
  split
  · exact Triple.raise fun _ _ _ => trivial
  · refine Triple.bind (keeps_true (getConfig_uses trivial)) (fun cfg => ?_) fun _ _ _ _ => trivial
    cases cfg with
    | none => exact Triple.ret fun _ _ _ => trivial
    | some cfg =>
        refine Triple.bind (keeps_true (listEntriesPage_uses (fun _ _ => trivial) fun _ _ => trivial))
          (fun rows => ?_) fun _ _ _ _ => trivial
        split
        · exact keeps_true (Uses.bind (uses_ask trivial) fun _ => trivial)
        · exact readRows_triple

theorem scoreSave_triple {u d r : Int} {p : ScorePayload} {t : Option String} :
    protocol.Triple i (fun _ => True) (scoreSave u d r p t) fun x =>
      match x with
      | .ok _ => fun w => w.state.db.Scored u d
      | .error _ => fun _ => True := by
  refine Triple.tryCatch (Q := fun x => match x with
    | .ok _ => fun w => w.state.db.Scored u d
    | .error _ => fun _ => True) ?_ (fun _ _ _ h => h) fun e => ?_
  · refine Triple.perform (Stable.true i) fun w hw _ hm x s hx => ?_
    refine ⟨scoreSave_safe (A := fun _ => True) w hw trivial hm x s hx, ?_⟩
    cases x with
    | error e => trivial
    | ok id =>
        obtain ⟨rfl, hid⟩ := hx.of_ok
        exact Platform.scored_of_insertScore hid rfl rfl
  · cases e <;> exact Triple.raise fun _ _ _ => trivial

theorem submitScore_triple {u : Int} {payload : ScoreRequest} :
    protocol.Triple i (fun _ => True) (submitScore u payload) fun _ _ => True := by
  refine Triple.bind (Q := fun x => match x with
    | .ok _ => fun w => w.state.db.Scored u payload.documentId
    | .error _ => fun _ => True) ?_ (fun scoreId => ?_) fun _ _ _ _ => trivial
  · refine Triple.tryCatch scoreSave_triple (fun _ _ _ h => h) fun e => ?_
    cases e <;> exact Triple.raise fun _ _ _ => trivial
  · refine Triple.conseq (Keeps.of_persistent persistent_scored ?_) (fun _ _ h => h) fun _ _ _ _ => trivial
    exact Uses.bind (uses_ask zrem_safe) fun _ => Uses.bind (uses_ask (Reads.safe trivial)) fun _ => trivial

/-- The handler removes the entry that the notification is about, and the notification was announced. -/
theorem handle_triple {n : Notification} :
    protocol.Triple i (fun w => ∀ u d, n.userId = some u → n.documentId = some d → w.state.db.Scored u d)
      (handle n.payload) fun _ _ => True := by
  cases h : decodePayload n.payload with
  | error e =>
      exact Triple.conseq (keeps_true (handle_uses_of_error h)) (fun _ _ _ => trivial)
        fun _ _ _ _ => trivial
  | ok x =>
      obtain ⟨u, d⟩ := x
      obtain ⟨hu, hd⟩ := decodePayload_eq_ok h
      refine Triple.conseq (Keeps.of_persistent persistent_scored ((handle_uses h).mono fun c hc => ?_))
        (fun w _ hA => hA u d hu hd) fun _ _ _ _ => trivial
      cases c with
      | zrem key m =>
          obtain ⟨rfl, rfl⟩ := hc
          exact zrem_safe
      | publish _ _ => exact Reads.safe trivial
      | _ => exact hc.elim

/-- What thread `i` knows when it is started for the job. -/
def pre (i : Nat) (job : Job) (w : World service) : Prop :=
  Started i job w ∧ ∀ n u d, job = .handle n → n.userId = some u → n.documentId = some d →
    w.state.db.Scored u d

theorem body_triple {job : Job} : protocol.Triple i (pre i job) (Job.body i job) fun _ _ => True := by
  cases job with
  | generate u dirty =>
      refine Triple.map (Triple.conseq generateForUser_triple (fun _ _ h => h.1) fun _ _ _ h => h) ?_
      exact fun _ _ _ _ => trivial
  | readTape u after =>
      exact Triple.map (Triple.conseq readTape_triple (fun _ _ _ => trivial) fun _ _ _ h => h)
        fun _ _ _ _ => trivial
  | submitScore u payload =>
      exact Triple.map (Triple.conseq submitScore_triple (fun _ _ _ => trivial) fun _ _ _ h => h)
        fun _ _ _ _ => trivial
  | handle n =>
      refine Triple.map (Triple.conseq handle_triple (fun _ _ h u d => h.2 n u d rfl) fun _ _ _ h => h) ?_
      exact fun _ _ _ _ => trivial
  | readConfig u =>
      refine Triple.conseq (keeps_true ((Job.body_uses i _).mono fun c hc => ?_))
        (fun _ _ _ => trivial) fun _ _ _ _ => trivial
      cases c <;> trivial
  | writeConfig u payload =>
      refine Triple.conseq (keeps_true ((Job.body_uses i _).mono fun c hc => ?_))
        (fun _ _ _ => trivial) fun _ _ _ _ => trivial
      cases c <;> trivial

def outline : Outline service fun _ _ => True where
  toProtocol := protocol
  post _ _ _ _ := True
  post_stable _ _ _ _ _ _ _ _ _ _ _ := trivial
  may_ok _ _ _ _ _ _ _ := trivial
  may_fail _ _ _ _ _ _ _ _ _ := ⟨trivial, trivial⟩
  start_ok c job s _ hw _ hs := by
    have hscored : ∀ u d, c.world.state.db.Scored u d → s.db.Scored u d := by
      intro u d h
      rwa [Platform.Scored, Job.begin_scores hs]
    have hg : protocol.Good c.threads.length c.world (.started c.threads.length job) s := by
      refine ⟨fun n hn u d hu hd => hscored u d (hw n (Job.begin_notifications hs hn) u d hu hd),
        ⟨hscored, fun u d hd hd' => absurd ?_ hd'⟩, fun _ _ => trivial⟩
      rwa [Job.begin_tape hs]
    refine ⟨hg, body_triple _ hg.inv ⟨List.mem_cons_self, fun n u d hn hu hd => ?_⟩⟩
    subst hn
    exact hscored u d (hw n (Job.mem_notifications_of_begin hs) u d hu hd)
  crash_ok _ _ _ hw := good_of_tape hw (fun _ _ h => h) rfl
  env_ok c e s _ hw hs := by
    refine ⟨?_, ⟨fun u d h => Env.apply_scored hs h, fun u d hd hd' => absurd ?_ hd'⟩,
      fun _ _ _ _ => trivial⟩
    · show s.db.Announced
      rcases Env.apply_scores hs with ⟨hscores, hnot⟩ | ⟨row, hdb⟩
      · intro n hn u d hu hd
        rw [hnot] at hn
        exact Env.apply_scored hs (hw n hn u d hu hd)
      · exact hdb ▸ Platform.Announced.insertScore hw
    · rwa [Env.apply_tape hs]

end Removals

/-- Whatever runs at the same time, fails or dies: when a document leaves the tape of a user, then the whole
tape is deleted by a generation for that user, or the document is scored by the user. -/
theorem scored_of_leaves {s : State} (hs : s.db.Announced) {c c' : Conf service} {l : Label service}
    (h : Reach (fun _ _ => True) s c) (hstep : c.step l = some c') {u d : Int}
    (hd : d ∈ c.world.state.tape u) (hd' : d ∉ c'.world.state.tape u) :
    (∃ i t dirty r, c'.world.log = .called i (.multiZcardDel (entriesKey u)) r :: c.world.log ∧
        c.threads[i]? = some t ∧ t.job = .generate u dirty) ∨
      c.world.state.db.Scored u d := by
  have hinit : Removals.outline.inv ⟨s, []⟩ := hs
  have hc : Removals.outline.Holds c := Outline.holds_of_reach hinit h
  obtain ⟨-, ev, hworld, hguar⟩ := hc.step trivial hstep
  rcases hguar.2 u d hd hd' with ⟨i, dirty, r, rfl, hstarted⟩ | hscored
  · obtain ⟨t, ht, hjob⟩ := h.logged i _ hstarted
    refine .inl ⟨i, t, dirty, r, ?_, ht, hjob⟩
    rw [hworld, World.push_log]
  · exact .inr hscored

end

section
open scoped Python.Utc

/-- A tape with one article, whose score is saved while its entry is still there. -/
def Sample.saved : Conf service :=
  (Sample.start [Sample.article 7]).play
    (Sample.build ++ [.start (.submitScore 1 (Sample.request 7)), .run 2])

theorem saved_scored_of_leaves :
    ∃ c', Sample.saved.step (.run 2) = some c' ∧ 7 ∈ Sample.saved.world.state.tape 1 ∧
      7 ∉ c'.world.state.tape 1 ∧
      ((∃ i t dirty r, c'.world.log = .called i (.multiZcardDel (entriesKey 1)) r :: Sample.saved.world.log ∧
          Sample.saved.threads[i]? = some t ∧ t.job = .generate 1 dirty) ∨
        Sample.saved.world.state.db.Scored 1 7) := by
  have hstep : (Sample.saved.step (.run 2)).map (fun c => decide (7 ∈ c.world.state.tape 1)) = some false := by
    decide +kernel
  have hd : 7 ∈ Sample.saved.world.state.tape 1 := by decide +kernel
  obtain ⟨c', hc', hd'⟩ := Option.map_eq_some_iff.mp hstep
  have hreach : Reach (S := service) (fun _ _ => True) ⟨.empty, .start [Sample.article 7]⟩ Sample.saved :=
    Steps.play (Conf.Obeys.of_labels fun _ _ _ => trivial)
  have hnone : (Platform.start [Sample.article 7]).Announced := fun _ hn => (nomatch hn)
  exact ⟨c', hc', hd, of_decide_eq_false hd',
    scored_of_leaves hnone hreach hc' hd (of_decide_eq_false hd')⟩

end

end TapeService
