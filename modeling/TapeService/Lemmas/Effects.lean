import TapeService.Model.Service

/-!
# What a call changes

The parts of the state that belong to one user, and the calls that change them. A call that does not edit
a part leaves it as it is, whether the call is answered or raises.
-/

namespace TapeService

open Interleaving Python

/-! ## The parts of the state -/

namespace State

def tape (s : State) (userId : Int) : Tape := s.redis.zsets (entriesKey userId)

def lock (s : State) (userId : Int) : Option String := s.redis.strings (lockKey userId)

def cfg (s : State) (userId : Int) : Hash := s.redis.hashes (cfgKey userId)

def sourceSet (s : State) (userId : Int) : List Int := s.redis.sets (cfgSourcesKey userId)

end State

theorem put_self {β : Type} (f : String → β) (key : String) (v : β) : put f key v key = v := by
  simp [put]

theorem put_of_ne {β : Type} (f : String → β) {key key' : String} (v : β) (h : key' ≠ key) :
    put f key v key' = f key' := by
  simp [put, h]

/-! ## Edits -/

/-- The call may change the entries of the user. -/
def Call.EditsTape (userId : Int) : Call → Prop
  | .zaddNx key _ _ => key = entriesKey userId
  | .zrem key _ => key = entriesKey userId
  | .multiZcardDel key => key = entriesKey userId
  | _ => False

/-- The call deletes the entries of the user. -/
def Call.deletesTape (userId : Int) : Call → Bool
  | .multiZcardDel key => key = entriesKey userId
  | _ => false

/-- The call may change the lock of the user. -/
def Call.EditsLock (userId : Int) : Call → Prop
  | .setNxEx key _ => key = lockKey userId
  | .evalRelease key _ => key = lockKey userId
  | _ => False

/-- The call may change the config hash of the user. -/
def Call.EditsCfg (userId : Int) : Call → Prop
  | .hset key _ => key = cfgKey userId
  | .multiReplaceSources _ _ hashKey => hashKey = cfgKey userId
  | _ => False

/-- The call may change the source set of the user. -/
def Call.EditsSources (userId : Int) : Call → Prop
  | .multiReplaceSources key _ _ => key = cfgSourcesKey userId
  | _ => False

/-- The call may insert a score. -/
def Call.EditsScores : Call → Prop
  | .scoreSave _ _ _ _ _ => True
  | _ => False

variable {c : Call} {s : State} {userId : Int}

theorem exec_tape (h : ¬ c.EditsTape userId) : (exec c s).2.tape userId = s.tape userId := by
  cases c with
  | zaddNx key m p => exact put_of_ne _ _ (Ne.symm h)
  | zrem key m => exact put_of_ne _ _ (Ne.symm h)
  | multiZcardDel key => exact put_of_ne _ _ (Ne.symm h)
  | setNxEx key t => simp only [exec]; split <;> rfl
  | evalRelease key t => simp only [exec]; split <;> rfl
  | _ => rfl

theorem exec_lock (h : ¬ c.EditsLock userId) : (exec c s).2.lock userId = s.lock userId := by
  cases c with
  | setNxEx key t =>
      simp only [exec]
      split
      · exact put_of_ne _ _ (Ne.symm h)
      · rfl
  | evalRelease key t =>
      simp only [exec]
      split
      · exact put_of_ne _ _ (Ne.symm h)
      · rfl
  | _ => rfl

theorem exec_cfg (h : ¬ c.EditsCfg userId) : (exec c s).2.cfg userId = s.cfg userId := by
  cases c with
  | hset key m => exact put_of_ne _ _ (Ne.symm h)
  | multiReplaceSources key ids hashKey => exact put_of_ne _ _ (Ne.symm h)
  | setNxEx key t => simp only [exec]; split <;> rfl
  | evalRelease key t => simp only [exec]; split <;> rfl
  | _ => rfl

theorem exec_sourceSet (h : ¬ c.EditsSources userId) :
    (exec c s).2.sourceSet userId = s.sourceSet userId := by
  cases c with
  | multiReplaceSources key ids hashKey => exact put_of_ne _ _ (Ne.symm h)
  | setNxEx key t => simp only [exec]; split <;> rfl
  | evalRelease key t => simp only [exec]; split <;> rfl
  | _ => rfl

theorem exec_db (h : ¬ c.EditsScores) : (exec c s).2.db = s.db := by
  cases c with
  | scoreSave u d r p t => exact absurd trivial h
  | setNxEx key t => simp only [exec]; split <;> rfl
  | evalRelease key t => simp only [exec]; split <;> rfl
  | _ => rfl

/-! ## The edits of a tape -/

theorem exec_zaddNx_tape {m p : Int} :
    (exec (.zaddNx (entriesKey userId) m p) s).2.tape userId = (s.tape userId).zaddNx m p :=
  put_self _ _ _

theorem exec_zrem_tape {m : Int} :
    (exec (.zrem (entriesKey userId) m) s).2.tape userId = (s.tape userId).zrem m :=
  put_self _ _ _

theorem exec_multiZcardDel_tape :
    (exec (.multiZcardDel (entriesKey userId)) s).2.tape userId = .empty :=
  put_self _ _ _

theorem exec_zaddNx_reply {m p : Int} :
    (exec (.zaddNx (entriesKey userId) m p) s).1 = .ok (if m ∈ s.tape userId then 0 else 1) := rfl

theorem exec_zrem_reply {m : Int} :
    (exec (.zrem (entriesKey userId) m) s).1 = .ok (if m ∈ s.tape userId then 1 else 0) := rfl

/-- A call other than a `ZADD` on the user's entries removes entries at most. -/
theorem exec_tape_subset (h : ∀ m p, c ≠ .zaddNx (entriesKey userId) m p) :
    ((exec c s).2.tape userId).rows ⊆ (s.tape userId).rows := by
  by_cases he : c.EditsTape userId
  · cases c with
    | zaddNx key m p => exact absurd (congrArg (Call.zaddNx · m p) he) (h m p)
    | zrem key m =>
        obtain rfl : key = entriesKey userId := he
        rw [exec_zrem_tape]
        exact fun x hx => (Redis.ZSet.mem_rows_zrem.mp hx).1
    | multiZcardDel key =>
        obtain rfl : key = entriesKey userId := he
        rw [exec_multiZcardDel_tape]
        exact List.nil_subset _
    | _ => exact he.elim
  · rw [exec_tape he]
    exact fun _ hx => hx

/-! ## The lock -/

/-- Every call but the insertion of a score is answered. -/
theorem exec_ok (h : ¬ c.EditsScores) : ∃ a, (exec c s).1 = .ok a := by
  cases c with
  | scoreSave u d r p t => exact absurd trivial h
  | setNxEx key t => simp only [exec]; split <;> exact ⟨_, rfl⟩
  | _ => exact ⟨_, rfl⟩

theorem exec_setNxEx_lock {t : String} :
    (exec (.setNxEx (lockKey userId) t) s).2.lock userId = (s.lock userId).or (some t) := by
  unfold State.lock
  simp only [exec]
  split
  · rename_i h
    simp only [h, Option.none_or]
    exact put_self _ _ _
  · rename_i h
    simp [h]

theorem exec_exists_reply : (exec (.exists (lockKey userId)) s).1 = .ok (s.lock userId).isSome := rfl

theorem exec_setNxEx_reply {t : String} :
    (exec (.setNxEx (lockKey userId) t) s).1 = .ok (s.lock userId).isNone := by
  unfold State.lock
  simp only [exec]
  split <;> simp_all

theorem exec_evalRelease_lock {t : String} :
    (exec (.evalRelease (lockKey userId) t) s).2.lock userId =
      if s.lock userId = some t then none else s.lock userId := by
  unfold State.lock
  simp only [exec]
  split
  · exact put_self _ _ _
  · rfl

/-! ## The scores -/

namespace Platform

/-- Of a row that it cannot be called with, `score.save` never hears. -/
theorem insertScore_unstorable (db : Platform) {row : ScoreRow} (h : ¬ row.Storable) :
    ∃ e, (e = .dataError ∧ ¬ row.HasText ∨ e = .undefinedFunction ∧ ¬ row.HasIntegers) ∧
      db.insertScore row = (.error e, db) := by
  unfold insertScore
  by_cases htext : row.HasText
  · have hints : ¬ row.HasIntegers := fun hints => h ⟨htext, hints⟩
    exact ⟨.undefinedFunction, .inr ⟨rfl, hints⟩, by rw [if_neg (not_not.mpr htext), if_pos hints]⟩
  · exact ⟨.dataError, .inl ⟨rfl, htext⟩, if_pos htext⟩

theorem insertScore_duplicate {db : Platform} {row : ScoreRow} (hrow : row.Storable) (h : db.Duplicate row) :
    db.insertScore row = (.error .uniqueViolation, { db with scoreSeq := db.scoreSeq + 1 }) := by
  unfold insertScore
  rw [if_neg (not_not.mpr hrow.1), if_neg (not_not.mpr hrow.2)]
  exact if_pos h

theorem insertScore_dangling {db : Platform} {row : ScoreRow} (hrow : row.Storable) (h : ¬ db.Duplicate row)
    (h' : ¬ db.ReferencesExist row) :
    db.insertScore row = (.error .foreignKeyViolation, { db with scoreSeq := db.scoreSeq + 1 }) := by
  unfold insertScore
  rw [if_neg (not_not.mpr hrow.1), if_neg (not_not.mpr hrow.2)]
  exact (if_neg h).trans (if_pos h')

theorem insertScore_accepted {db : Platform} {row : ScoreRow} (hrow : row.Storable) (h : ¬ db.Duplicate row)
    (h' : db.ReferencesExist row) :
    db.insertScore row = (.ok db.scoreSeq, { db with
      scoreSeq := db.scoreSeq + 1
      scores := db.scores ++ [(db.scoreSeq, row)]
      notifications := db.notifications ++ [⟨row.userId, row.documentId⟩] }) := by
  unfold insertScore
  rw [if_neg (not_not.mpr hrow.1), if_neg (not_not.mpr hrow.2)]
  exact (if_neg h).trans (if_neg (not_not.mpr h'))

/-- An insert fails and leaves the rows as they are, or it adds the row and announces it. -/
theorem insertScore_cases (db : Platform) (row : ScoreRow) :
    ((∃ e, (db.insertScore row).1 = .error e) ∧ (db.insertScore row).2.scores = db.scores ∧
        (db.insertScore row).2.notifications = db.notifications) ∨
      ((db.insertScore row).1 = .ok db.scoreSeq ∧
        (db.insertScore row).2.scores = db.scores ++ [(db.scoreSeq, row)] ∧
        (db.insertScore row).2.notifications = db.notifications ++ [⟨row.userId, row.documentId⟩]) := by
  by_cases hrow : row.Storable
  · by_cases hdup : db.Duplicate row
    · rw [insertScore_duplicate hrow hdup]
      exact .inl ⟨⟨_, rfl⟩, rfl, rfl⟩
    by_cases hrefs : db.ReferencesExist row
    · rw [insertScore_accepted hrow hdup hrefs]
      exact .inr ⟨rfl, rfl, rfl⟩
    · rw [insertScore_dangling hrow hdup hrefs]
      exact .inl ⟨⟨_, rfl⟩, rfl, rfl⟩
  · obtain ⟨e, -, he⟩ := db.insertScore_unstorable hrow
    rw [he]
    exact .inl ⟨⟨_, rfl⟩, rfl, rfl⟩

/-- An insert touches the scores only. -/
theorem insertScore_frame {db : Platform} {row : ScoreRow} :
    ∃ scores scoreSeq notifications, (db.insertScore row).2 = { db with scores, scoreSeq, notifications } := by
  unfold insertScore
  split
  · exact ⟨_, _, _, rfl⟩
  split
  · exact ⟨_, _, _, rfl⟩
  dsimp only
  split
  · exact ⟨_, _, _, rfl⟩
  split <;> exact ⟨_, _, _, rfl⟩

theorem insertScore_documents {db : Platform} {row : ScoreRow} :
    (db.insertScore row).2.documents = db.documents := by
  obtain ⟨scores, scoreSeq, notifications, h⟩ := @insertScore_frame db row
  rw [h]

theorem Scored.insertScore {db : Platform} {row : ScoreRow} {u d : Int} (h : db.Scored u d) :
    (db.insertScore row).2.Scored u d := by
  obtain ⟨s, hs, hu, hd⟩ := h
  refine ⟨s, ?_, hu, hd⟩
  rcases db.insertScore_cases row with ⟨-, he, -⟩ | ⟨-, he, -⟩ <;> rw [he]
  · exact hs
  · exact List.mem_append_left _ hs

/-- A row that an insert reports is there. -/
theorem scored_of_insertScore {db : Platform} {row : ScoreRow} {id u d : Int}
    (h : (db.insertScore row).1 = .ok id) (hu : row.userId = some u) (hd : row.documentId = some d) :
    (db.insertScore row).2.Scored u d := by
  rcases db.insertScore_cases row with ⟨⟨e, he⟩, -⟩ | ⟨-, hs, -⟩
  · rw [he] at h
    cases h
  · refine ⟨(db.scoreSeq, row), ?_, hu, hd⟩
    rw [hs]
    exact List.mem_append_right _ (List.mem_singleton.mpr rfl)

theorem mem_notifications_insertScore {db : Platform} {row : ScoreRow} {n : Notification}
    (h : n ∈ db.notifications) : n ∈ (db.insertScore row).2.notifications := by
  rcases db.insertScore_cases row with ⟨-, -, hn⟩ | ⟨-, -, hn⟩ <;> rw [hn]
  · exact h
  · exact List.mem_append_left _ h

/-- The trigger announces every score that was not there before. -/
theorem announced_of_insertScore {db : Platform} {row : ScoreRow} {u d : Int} (h : ¬ db.Scored u d)
    (h' : (db.insertScore row).2.Scored u d) :
    ⟨some u, some d⟩ ∈ (db.insertScore row).2.notifications := by
  obtain ⟨s, hs, hu, hd⟩ := h'
  rcases db.insertScore_cases row with ⟨-, he, -⟩ | ⟨-, he, hn⟩ <;> rw [he] at hs
  · exact absurd ⟨s, hs, hu, hd⟩ h
  · rcases List.mem_append.mp hs with hs | hs
    · exact absurd ⟨s, hs, hu, hd⟩ h
    · obtain rfl := List.mem_singleton.mp hs
      rw [hn, ← hu, ← hd]
      exact List.mem_append_right _ (List.mem_singleton.mpr rfl)

theorem mem_scoredAmong {db : Platform} {u d : Int} {ids : List Int} :
    d ∈ db.scoredAmong u ids ↔ db.Scored u d ∧ d ∈ ids := by
  constructor
  · intro h
    obtain ⟨s, hs, hd⟩ := List.mem_filterMap.mp h
    split at hd
    · rename_i hu
      obtain ⟨hd, hid⟩ := Option.filter_eq_some_iff.mp hd
      exact ⟨⟨s, hs, hu, hd⟩, by simpa using hid⟩
    · cases hd
  · rintro ⟨⟨s, hs, hu, hd⟩, hid⟩
    refine List.mem_filterMap.mpr ⟨s, hs, ?_⟩
    rw [if_pos hu, hd]
    simpa using hid

theorem scored_of_mem_scoredAmong {db : Platform} {u d : Int} {ids : List Int}
    (h : d ∈ db.scoredAmong u ids) : db.Scored u d :=
  (mem_scoredAmong.mp h).1

end Platform

theorem exec_scored {d : Int} (h : s.db.Scored userId d) : (exec c s).2.db.Scored userId d := by
  by_cases hc : c.EditsScores
  · cases c with
    | scoreSave u d r p t => exact h.insertScore
    | _ => exact hc.elim
  · rwa [exec_db hc]

theorem exec_mem_notifications {n : Notification} (h : n ∈ s.db.notifications) :
    n ∈ (exec c s).2.db.notifications := by
  by_cases hc : c.EditsScores
  · cases c with
    | scoreSave u d r p t => exact Platform.mem_notifications_insertScore h
    | _ => exact hc.elim
  · rwa [exec_db hc]

theorem exec_announced {d : Int} (h : ¬ s.db.Scored userId d) (h' : (exec c s).2.db.Scored userId d) :
    ⟨some userId, some d⟩ ∈ (exec c s).2.db.notifications := by
  by_cases hc : c.EditsScores
  · cases c with
    | scoreSave u d r p t => exact Platform.announced_of_insertScore h h'
    | _ => exact hc.elim
  · rw [exec_db hc] at h'
    exact absurd h' h

/-- Only a `ZADD` puts a document into the tape. -/
theorem exec_mem_tape {d : Int} (h : d ∉ s.tape userId) (h' : d ∈ (exec c s).2.tape userId) :
    ∃ p, c = .zaddNx (entriesKey userId) d p := by
  by_cases hc : ∃ m p, c = .zaddNx (entriesKey userId) m p
  · obtain ⟨m, p, rfl⟩ := hc
    rw [exec_zaddNx_tape] at h'
    rcases Redis.ZSet.mem_zaddNx.mp h' with h' | rfl
    · exact absurd h' h
    · exact ⟨p, rfl⟩
  · obtain ⟨p, hp⟩ := Redis.ZSet.mem_iff.mp h'
    have hsub : ((exec c s).2.tape userId).rows ⊆ (s.tape userId).rows :=
      exec_tape_subset fun m p he => hc ⟨m, p, he⟩
    exact absurd (Redis.ZSet.mem_iff.mpr ⟨p, hsub hp⟩) h

/-! ## The surroundings -/

/-- The surroundings do not touch the store, apart from the locks. -/
theorem Env.apply_redis {e : Env} {s' : State} (h : e.apply s = some s') :
    s'.redis = { s.redis with strings := s'.redis.strings } := by
  cases e with
  | expireLock u => cases h; rfl
  | insertDocument d =>
      simp only [Env.apply] at h
      split at h
      · cases h
      · cases h; rfl
  | deleteDocument id =>
      simp only [Env.apply] at h
      split at h
      · cases h
      · cases h; rfl
  | insertScore row => cases h; rfl

theorem Env.apply_tape {e : Env} {s' : State} (h : e.apply s = some s') :
    s'.tape userId = s.tape userId := by
  unfold State.tape
  rw [Env.apply_redis h]

theorem Env.apply_cfg {e : Env} {s' : State} (h : e.apply s = some s') : s'.cfg userId = s.cfg userId := by
  unfold State.cfg
  rw [Env.apply_redis h]

theorem Env.apply_sourceSet {e : Env} {s' : State} (h : e.apply s = some s') :
    s'.sourceSet userId = s.sourceSet userId := by
  unfold State.sourceSet
  rw [Env.apply_redis h]

theorem Env.apply_lock {e : Env} {s' : State} (h : e.apply s = some s') (he : e ≠ .expireLock userId) :
    s'.lock userId = s.lock userId := by
  cases e with
  | expireLock u =>
      cases h
      refine put_of_ne _ _ fun hk => he ?_
      rw [lockKey_inj.mp hk]
  | insertDocument d =>
      simp only [Env.apply] at h
      split at h
      · cases h
      · cases h; rfl
  | deleteDocument id =>
      simp only [Env.apply] at h
      split at h
      · cases h
      · cases h; rfl
  | insertScore row => cases h; rfl

/-- The surroundings leave the scores and the notifications alone, or they insert a score. -/
theorem Env.apply_scores {e : Env} {s' : State} (h : e.apply s = some s') :
    (s'.db.scores = s.db.scores ∧ s'.db.notifications = s.db.notifications) ∨
      ∃ row, s'.db = (s.db.insertScore row).2 := by
  cases e with
  | expireLock u => cases h; exact .inl ⟨rfl, rfl⟩
  | insertDocument doc =>
      simp only [Env.apply] at h
      split at h
      · cases h
      · cases h; exact .inl ⟨rfl, rfl⟩
  | deleteDocument id =>
      simp only [Env.apply] at h
      split at h
      · cases h
      · cases h; exact .inl ⟨rfl, rfl⟩
  | insertScore row => cases h; exact .inr ⟨row, rfl⟩

theorem Env.apply_scored {e : Env} {s' : State} (h : e.apply s = some s') {u d : Int}
    (hd : s.db.Scored u d) : s'.db.Scored u d := by
  rcases Env.apply_scores h with ⟨hs, -⟩ | ⟨row, hs⟩
  · rwa [Platform.Scored, hs]
  · exact hs ▸ hd.insertScore

theorem Env.apply_mem_notifications {e : Env} {s' : State} (h : e.apply s = some s') {n : Notification}
    (hn : n ∈ s.db.notifications) : n ∈ s'.db.notifications := by
  rcases Env.apply_scores h with ⟨-, hs⟩ | ⟨row, hs⟩
  · rwa [hs]
  · rw [hs]
    exact Platform.mem_notifications_insertScore hn

theorem Env.apply_announced {e : Env} {s' : State} (h : e.apply s = some s') {u d : Int}
    (hold : ¬ s.db.Scored u d) (hnew : s'.db.Scored u d) : ⟨some u, some d⟩ ∈ s'.db.notifications := by
  rcases Env.apply_scores h with ⟨hs, -⟩ | ⟨row, hs⟩
  · rw [Platform.Scored, hs] at hnew
    exact absurd hnew hold
  · rw [hs] at hnew ⊢
    exact Platform.announced_of_insertScore hold hnew

section
variable [DatetimeLib]

/-- Starting a thread takes at most a notification off the queue. -/
theorem Job.begin_eq {job : Job} {s' : State} (h : job.begin s = some s') :
    ∃ ns, s' = { s with db := { s.db with notifications := ns } } := by
  cases job with
  | handle n =>
      simp only [Job.begin] at h
      split at h
      · cases h
      · split at h
        · cases h; exact ⟨_, rfl⟩
        · cases h
  | _ => cases h; exact ⟨s.db.notifications, rfl⟩

theorem Job.begin_redis {job : Job} {s' : State} (h : job.begin s = some s') : s'.redis = s.redis := by
  obtain ⟨ns, rfl⟩ := Job.begin_eq h
  rfl

theorem Job.begin_scores {job : Job} {s' : State} (h : job.begin s = some s') :
    s'.db.scores = s.db.scores := by
  obtain ⟨ns, rfl⟩ := Job.begin_eq h
  rfl

theorem Job.begin_tape {job : Job} {s' : State} (h : job.begin s = some s') :
    s'.tape userId = s.tape userId := by
  unfold State.tape
  rw [Job.begin_redis h]

theorem Job.begin_lock {job : Job} {s' : State} (h : job.begin s = some s') :
    s'.lock userId = s.lock userId := by
  unfold State.lock
  rw [Job.begin_redis h]

theorem Job.begin_notifications {job : Job} {s' : State} (h : job.begin s = some s') :
    s'.db.notifications ⊆ s.db.notifications := by
  cases job with
  | handle n =>
      simp only [Job.begin] at h
      split at h
      · cases h
      · rename_i ns hns
        split at h
        · cases h
          rw [hns]
          exact List.subset_cons_self _ _
        · cases h
  | _ => cases h; exact fun _ hn => hn

/-- A notification that is handled was waiting. -/
theorem Job.mem_notifications_of_begin {n : Notification} {s' : State}
    (h : (Job.handle n).begin s = some s') : n ∈ s.db.notifications := by
  simp only [Job.begin] at h
  split at h
  · cases h
  · rename_i n' ns hns
    split at h
    · rename_i hn
      rw [hns, hn]
      exact List.mem_cons_self
    · cases h

/-- Only the handler of a notification takes it off the queue. -/
theorem Job.begin_keeps_notification {job : Job} {n : Notification} {s' : State}
    (h : job.begin s = some s') (hn : n ∈ s.db.notifications) :
    n ∈ s'.db.notifications ∨ job = .handle n := by
  cases job with
  | handle n' =>
      simp only [Job.begin] at h
      split at h
      · cases h
      · rename_i m ns hns
        split at h
        · rename_i hm
          cases h
          rw [hns] at hn
          rcases List.mem_cons.mp hn with rfl | hn
          · exact .inr (hm ▸ rfl)
          · exact .inl hn
        · cases h
  | _ => cases h; exact .inl hn

end

end TapeService
