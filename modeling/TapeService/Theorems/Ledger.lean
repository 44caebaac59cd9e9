import TapeService.Interleaving.Outbox
import TapeService.Theorems.ScoreAnswers

/-!
# The ledger of the scores

Whatever fails or dies on the way, `score.score` only grows: every row gets an id that is greater than all before and
is announced once, in the order of the ids. A request that is answered with an id has its own row under this id, and
a request is told that its document has been scored already only when the row is there.
-/

namespace TapeService

open Interleaving Interleaving.Program Interleaving.Protocol Python

/-- What the serial and the primary key make sure of. -/
structure Platform.Kept (db : Platform) : Prop where
  increasing : db.scores.Pairwise fun x y => x.1 < y.1
  below : ∀ x ∈ db.scores, x.1 < db.scoreSeq
  pk : db.ScorePk

/-- The exceptions that `POST /score` turns into the answer that the document has been scored already. -/
def Exn.saysScored : Exn → Bool
  | .uniqueViolation => true
  | .alreadyScored => true
  | .apiError .alreadyScored _ => true
  | _ => false

/-- What the trigger sends for the row. -/
def ScoreRow.notice (row : ScoreRow) : Notification := ⟨row.userId, row.documentId⟩

namespace Ledger

/-- The table grows by the rows `new`, while the notifications `taken` are delivered. -/
structure Grows (db db' : Platform) (taken : List Notification) (new : List (Int × ScoreRow)) : Prop where
  scores : db'.scores = db.scores ++ new
  notices : taken ++ db'.notifications = db.notifications ++ new.map fun x => x.2.notice
  seq : db.scoreSeq ≤ db'.scoreSeq
  fresh : ∀ x ∈ new, db.scoreSeq ≤ x.1
  kept : db.Kept → db'.Kept

variable {db db' db'' : Platform} {row : ScoreRow}

theorem Grows.refl (db : Platform) : Grows db db [] [] := ⟨by simp, by simp, Int.le_refl _, nofun, id⟩

theorem Grows.trans {taken taken' : List Notification} {new new' : List (Int × ScoreRow)}
    (h : Grows db db' taken new) (h' : Grows db' db'' taken' new') :
    Grows db db'' (taken ++ taken') (new ++ new') where
  scores := by rw [h'.scores, h.scores, List.append_assoc]
  notices := by rw [List.append_assoc, h'.notices, ← List.append_assoc, h.notices, List.append_assoc, List.map_append]
  seq := h.seq.trans h'.seq
  fresh x hx := by
    rcases List.mem_append.mp hx with hx | hx
    · exact h.fresh x hx
    · exact h.seq.trans (h'.fresh x hx)
  kept := h'.kept ∘ h.kept

theorem Grows.of_scores {taken : List Notification} (hscores : db'.scores = db.scores)
    (hnotices : taken ++ db'.notifications = db.notifications) (hseq : db.scoreSeq ≤ db'.scoreSeq) :
    Grows db db' taken [] where
  scores := by rw [hscores, List.append_nil]
  notices := by rw [hnotices, List.map_nil, List.append_nil]
  seq := hseq
  fresh := nofun
  kept h := by
    refine ⟨hscores ▸ h.increasing, fun x hx => (h.below x (hscores ▸ hx)).trans_le hseq, ?_⟩
    rw [Platform.ScorePk, hscores]
    exact h.pk

/-- The insert adds the row, or it is refused and says why. -/
theorem grows_insertScore (db : Platform) (row : ScoreRow) :
    ((db.insertScore row).1 = .ok db.scoreSeq ∧ Grows db (db.insertScore row).2 [] [(db.scoreSeq, row)]) ∨
      (∃ e, (db.insertScore row).1 = .error e ∧ (e.saysScored = true → (db.insertScore row).2.Duplicate row)) ∧
        Grows db (db.insertScore row).2 [] [] := by
  by_cases hrow : row.Storable
  swap
  · obtain ⟨e, he, hinsert⟩ := db.insertScore_unstorable hrow
    rw [hinsert]
    refine .inr ⟨⟨e, rfl, fun hsays => ?_⟩, .refl _⟩
    rcases he with ⟨rfl, -⟩ | ⟨rfl, -⟩ <;> exact absurd hsays Bool.false_ne_true
  by_cases hdup : db.Duplicate row
  · rw [Platform.insertScore_duplicate hrow hdup]
    exact .inr ⟨⟨_, rfl, fun _ => hdup⟩, .of_scores rfl rfl (by simp)⟩
  by_cases hrefs : db.ReferencesExist row
  · rw [Platform.insertScore_accepted hrow hdup hrefs]
    refine .inl ⟨rfl, rfl, rfl, ?_, ?_, fun h => ⟨?_, ?_, ?_⟩⟩
    · show db.scoreSeq ≤ db.scoreSeq + 1
      omega
    · intro x hx
      obtain rfl := List.mem_singleton.mp hx
      exact Int.le_refl _
    · refine List.pairwise_append.mpr ⟨h.increasing, List.pairwise_singleton _ _, fun x hx y hy => ?_⟩
      obtain rfl := List.mem_singleton.mp hy
      exact h.below x hx
    · intro x hx
      show x.1 < db.scoreSeq + 1
      rcases List.mem_append.mp hx with hx | hx
      · have := h.below x hx
        omega
      · obtain rfl := List.mem_singleton.mp hx
        exact Int.lt_succ _
    · refine List.pairwise_append.mpr ⟨h.pk, List.pairwise_singleton _ _, fun x hx y hy hsame => hdup ?_⟩
      obtain rfl := List.mem_singleton.mp hy
      obtain ⟨hu, hr, hd, hu', hr', hd'⟩ := hsame
      exact ⟨x, hx, hu, hr, hd, hu ▸ hu', hr ▸ hr', hd ▸ hd'⟩
  · rw [Platform.insertScore_dangling hrow hdup hrefs]
    exact .inr ⟨⟨_, rfl, fun h => absurd h Bool.false_ne_true⟩, .of_scores rfl rfl (by simp)⟩

theorem grows_exec {s : State} {q : Call} : ∃ new, Grows s.db (exec q s).2.db [] new := by
  by_cases hq : q.EditsScores
  · cases q with
    | scoreSave u d role score comment =>
        rcases grows_insertScore s.db ⟨score, comment, some d, some u, some role⟩ with ⟨-, h⟩ | ⟨-, h⟩
        · exact ⟨_, h⟩
        · exact ⟨_, h⟩
    | _ => exact hq.elim
  · rw [exec_db hq]
    exact ⟨[], .refl _⟩

theorem grows_env {e : Env} {s s' : State} (h : e.apply s = some s') : ∃ new, Grows s.db s'.db [] new := by
  cases e with
  | expireLock u =>
      cases h
      exact ⟨[], .refl _⟩
  | insertDocument d =>
      simp only [Env.apply, Option.ite_none_left_eq_some] at h
      obtain ⟨-, h⟩ := h
      cases h
      exact ⟨[], .of_scores rfl rfl (Int.le_refl _)⟩
  | deleteDocument id =>
      simp only [Env.apply, Option.ite_none_left_eq_some] at h
      obtain ⟨-, h⟩ := h
      cases h
      exact ⟨[], .of_scores rfl rfl (Int.le_refl _)⟩
  | insertScore row =>
      cases h
      rcases grows_insertScore s.db row with ⟨-, h⟩ | ⟨-, h⟩
      · exact ⟨_, h⟩
      · exact ⟨_, h⟩

/-- The primary key tells rows with different ids apart. -/
theorem distinct_of_pk (h : db.Kept) {id id' u u' : Int} {q q' : ScoreRequest} (hid : id' ≠ id)
    (hx : (id, scoreRow u q) ∈ db.scores) (hy : (id', scoreRow u' q') ∈ db.scores) :
    ¬ (u' = u ∧ q'.roleId = q.roleId ∧ q'.documentId = q.documentId) := by
  rintro ⟨hu, hrole, hd⟩
  have hsymm : Std.Symm fun x y : Int × ScoreRow => ¬ (x.2.userId = y.2.userId ∧ x.2.roleId = y.2.roleId ∧
      x.2.documentId = y.2.documentId ∧ x.2.userId ≠ none ∧ x.2.roleId ≠ none ∧ x.2.documentId ≠ none) := by
    refine ⟨fun x y hne hsame => hne ?_⟩
    obtain ⟨hu, hrole, hd, hu', hrole', hd'⟩ := hsame
    exact ⟨hu.symm, hrole.symm, hd.symm, hu ▸ hu', hrole ▸ hrole', hd ▸ hd'⟩
  have hpk := List.Pairwise.forall h.pk hy hx fun he => hid (congrArg Prod.fst he)
  exact hpk ⟨congrArg some hu, congrArg some hrole, congrArg some hd, nofun, nofun, nofun⟩

end Ledger

section
variable [DatetimeLib]

/-- A call that raises does not pretend that the table has refused the row. -/
def Honest (_ : Conf service) : Label service → Prop
  | .fail _ e _ => e.saysScored = false
  | _ => True

/-- The notification that the listener takes up in the step. -/
def taken? : Event service → Option Notification
  | .started _ (.handle n) => some n
  | _ => none

/-- The insert that is answered in the step: its thread, the id and the row. -/
def answered? : Event service → Option (Nat × Int × ScoreRow)
  | .called i (.scoreSave u d role score comment) (.ok id) => some (i, id, ⟨score, comment, some d, some u, some role⟩)
  | _ => none

/-- The row of which the step says that it is there already. -/
def refused? : Event service → Option ScoreRow
  | .called _ (.scoreSave u d role score comment) (.error e) =>
      if e.saysScored = true then some ⟨score, comment, some d, some u, some role⟩ else none
  | _ => none

namespace Ledger

variable {db₀ : Platform} {w : World service} {ev : Event service} {s : State} {new : List (Int × ScoreRow)}
  {c c' : Conf service} {l : Label service}

structure Inv (db₀ : Platform) (w : World service) : Prop where
  grows : ∃ new, Grows db₀ w.state.db (record taken? w.log) new
  kept : w.state.db.Kept
  answered : ∀ x ∈ record answered? w.log, x.2 ∈ w.state.db.scores ∧ db₀.scoreSeq ≤ x.2.1
  increasing : (record answered? w.log).Pairwise fun x y => x.2.1 < y.2.1
  refused : ∀ row ∈ record refused? w.log, w.state.db.Duplicate row

theorem Inv.push (h : Inv db₀ w) (hgrows : Grows w.state.db s.db (taken? ev).toList new)
    (hanswered : ∀ x, answered? ev = some x → x.2 ∈ new)
    (hrefused : ∀ row, refused? ev = some row → s.db.Duplicate row) :
    Inv db₀ (w.push ev s) where
  grows := by
    obtain ⟨before, hbefore⟩ := h.grows
    refine ⟨before ++ new, ?_⟩
    rw [World.push_log, record_cons]
    exact hbefore.trans hgrows
  kept := hgrows.kept h.kept
  answered x hx := by
    obtain ⟨before, hbefore⟩ := h.grows
    rw [World.push_log, record_cons] at hx
    rw [World.push_state, hgrows.scores]
    rcases List.mem_append.mp hx with hx | hx
    · obtain ⟨hmem, hle⟩ := h.answered x hx
      exact ⟨List.mem_append_left _ hmem, hle⟩
    · have hx := hanswered x (Option.mem_toList.mp hx)
      exact ⟨List.mem_append_right _ hx, hbefore.seq.trans (hgrows.fresh _ hx)⟩
  increasing := by
    rw [World.push_log, record_cons]
    refine List.pairwise_append.mpr ⟨h.increasing, ?_, fun x hx y hy => ?_⟩
    · cases answered? ev with
      | none => exact List.Pairwise.nil
      | some y => exact List.pairwise_singleton _ _
    · have hy := hgrows.fresh _ (hanswered y (Option.mem_toList.mp hy))
      exact (h.kept.below _ (h.answered x hx).1).trans_le hy
  refused row hrow := by
    rw [World.push_log, record_cons] at hrow
    rcases List.mem_append.mp hrow with hrow | hrow
    · obtain ⟨x, hx, hsame⟩ := h.refused row hrow
      refine ⟨x, ?_, hsame⟩
      rw [World.push_state, hgrows.scores]
      exact List.mem_append_left _ hx
    · exact hrefused row (Option.mem_toList.mp hrow)

theorem Inv.quiet (h : Inv db₀ w) (hanswered : answered? ev = none) (hrefused : refused? ev = none)
    (hgrows : Grows w.state.db s.db (taken? ev).toList []) : Inv db₀ (w.push ev s) :=
  h.push hgrows (fun _ hx => nomatch hanswered.symm.trans hx) fun _ hrow => nomatch hrefused.symm.trans hrow

theorem not_editsScores {q : Call} (hq : ¬ q.EditsScores) {i : Nat} {r : Except Exn q.Reply} :
    taken? (.called i q r) = none ∧ answered? (.called i q r) = none ∧ refused? (.called i q r) = none := by
  cases q with
  | scoreSave => exact absurd trivial hq
  | _ => exact ⟨rfl, rfl, rfl⟩

theorem Inv.run (h : Inv db₀ w) {i : Nat} {q : Call} :
    Inv db₀ (w.push (.called i q (exec q w.state).1) (exec q w.state).2) := by
  by_cases hq : q.EditsScores
  · cases q with
    | scoreSave u d role score comment =>
        rcases grows_insertScore w.state.db ⟨score, comment, some d, some u, some role⟩ with
          ⟨hok, hgrows⟩ | ⟨⟨e, he, hdup⟩, hgrows⟩
        · refine h.push hgrows (fun x hx => ?_) fun row hrow => ?_
          · simp only [exec, hok, answered?, Option.some.injEq] at hx
            subst hx
            exact List.mem_singleton.mpr rfl
          · simp only [exec, hok, refused?] at hrow
            cases hrow
        · refine h.push hgrows (fun x hx => ?_) fun row hrow => ?_
          · simp only [exec, he, answered?] at hx
            cases hx
          · simp only [exec, he, refused?, Option.ite_none_right_eq_some, Option.some.injEq] at hrow
            obtain ⟨hcause, rfl⟩ := hrow
            exact hdup hcause
    | _ => exact hq.elim
  · obtain ⟨htaken, hanswered, hrefused⟩ := not_editsScores hq (i := i) (r := (exec q w.state).1)
    refine h.quiet hanswered hrefused ?_
    rw [htaken, exec_db hq]
    exact .refl _

theorem Inv.fail (h : Inv db₀ w) {i : Nat} {q : Call} {e : Exn} (he : e.saysScored = false) (done : Bool) :
    Inv db₀ (w.push (.called i q (.error e)) (if done then (exec q w.state).2 else w.state)) := by
  have hanswered : answered? (.called i q (.error e)) = none := by cases q <;> rfl
  have hrefused : refused? (.called i q (.error e)) = none := by
    cases q with
    | scoreSave => simp [refused?, he]
    | _ => rfl
  obtain ⟨new, hnew⟩ : ∃ new, Grows w.state.db (if done then (exec q w.state).2 else w.state).db [] new := by
    cases done with
    | true => exact grows_exec
    | false => exact ⟨[], .refl _⟩
  exact h.push (show Grows _ _ _ new from hnew) (fun _ hx => nomatch hanswered.symm.trans hx) fun _ hrow =>
    nomatch hrefused.symm.trans hrow

theorem Inv.start (h : Inv db₀ w) {i : Nat} {job : Job} (hs : job.begin w.state = some s) :
    Inv db₀ (w.push (.started i job) s) := by
  have hscores : s.db.scores = w.state.db.scores := Job.begin_scores hs
  refine h.quiet rfl rfl (.of_scores hscores ?_ ?_)
  · cases job with
    | handle n =>
        simp only [Job.begin] at hs
        split at hs
        · cases hs
        · rename_i n' ns hns
          split at hs
          · rename_i hn
            cases hs
            rw [hns, hn]
            rfl
          · cases hs
    | _ => cases hs; rfl
  · obtain ⟨ns, rfl⟩ := Job.begin_eq hs
    exact Int.le_refl _

theorem Inv.step (h : Inv db₀ c.world) (hok : Honest c l) (hs : c.StepTo l c') : Inv db₀ c'.world := by
  cases hs with
  | start hs => exact h.start hs
  | run hi => exact h.run
  | @fail i e done job q k hi => exact h.fail hok done
  | crash hi => exact h.quiet rfl rfl (.refl _)
  | env hs =>
      obtain ⟨new, hnew⟩ := grows_env hs
      exact h.push hnew (fun _ hx => nomatch hx) fun _ hx => nomatch hx

theorem Inv.reach {s : State} (hs : s.db.Kept) (h : Reach Honest s c) : Inv s.db c.world := by
  induction h with
  | refl => exact ⟨⟨[], .refl _⟩, hs, nofun, List.Pairwise.nil, nofun⟩
  | tail _ hstep ih =>
      obtain ⟨l, hok, hl⟩ := hstep
      exact ih.step hok (Conf.stepTo_of_step hl)

/-! ## The answers -/

/-- What the answer of a thread says about its insert. -/
def Told (i : Nat) : Job → Except Exn Out → List (Event service) → Prop
  | .submitScore u q, .ok (.scored id), log => (i, id, scoreRow u q) ∈ record answered? log
  | .submitScore u q, .error e, log =>
      e.saysScored = true → scoreRow u q ∈ record refused? log ∨ ∃ id, (i, id, scoreRow u q) ∈ record answered? log
  | _, _, _ => True

theorem mem_record_push {β : Type} {f : Event service → Option β} {x : β} (h : x ∈ record f w.log) :
    x ∈ record f (w.push ev s).log := by
  rw [World.push_log, record_cons]
  exact List.mem_append_left _ h

theorem Told.lasting {i : Nat} {job : Job} {r : Except Exn Out} :
    Lasting fun w : World service => Told i job r w.log := by
  intro w ev s h
  unfold Told at h ⊢
  split at h
  · exact mem_record_push h
  · intro he
    rcases h he with h | ⟨id, h⟩
    · exact .inl (mem_record_push h)
    · exact .inr ⟨id, mem_record_push h⟩
  · trivial

/-- What comes after the insert returns the id that it was given. -/
theorem cleanUp_triple {i : Nat} {u d id : Int} {A : World service → Prop} (hA : Lasting A) :
    free.Triple i A (Scoring.cleanUp u d id) (upon (fun a w => a = id ∧ A w) A) := by
  have hkeeps : ∀ {α : Type} (p : Prog α), free.Triple i A p (upon (fun _ => A) A) := fun p =>
    (hA.always p).upon fun _ _ h => h
  exact Triple.seq (hkeeps _) fun _ => Triple.seq (hkeeps _) fun _ => Triple.pure fun _ _ h => ⟨rfl, h⟩

theorem submitScore_told {i : Nat} {u : Int} {q : ScoreRequest} :
    free.Triple i (fun _ => True) (submitScore u q) fun r (w : World service) =>
      Told i (.submitScore u q) (r.map Out.scored) w.log := by
  rw [ScoreAnswers.submitScore_eq]
  refine fun w _ _ => ⟨fun _ => True, trivial, Stable.true i, fun w _ _ _ r s _ =>
    ⟨⟨trivial, trivial, fun _ _ => trivial⟩, ?_⟩⟩
  cases r with
  | ok id =>
      have hinserted : Lasting fun w : World service => (i, id, scoreRow u q) ∈ record answered? w.log :=
        fun _ _ _ => mem_record_push
      refine Triple.conseq (cleanUp_triple hinserted) (fun _ _ h => h) (fun r w _ h => ?_) _ trivial
        (mem_record.mpr ⟨_, List.mem_cons_self, rfl⟩)
      cases r with
      | ok a =>
          obtain ⟨rfl, h⟩ := h
          exact h
      | error e => exact fun _ => .inr ⟨id, h⟩
  | error e =>
      have hrefused : e.saysScored = true → scoreRow u q ∈ record refused? (w.push (.called i
          (.scoreSave u q.documentId q.roleId (scoreRow u q).score q.comment) (.error e)) s).log :=
        fun he => mem_record.mpr ⟨_, List.mem_cons_self, if_pos he⟩
      cases e with
      | uniqueViolation => exact fun _ => .inl (hrefused rfl)
      | alreadyScored => exact fun _ => .inl (hrefused rfl)
      | _ => exact fun he => .inl (hrefused he)

theorem body_told {i : Nat} {job : Job} :
    free.Triple i (fun _ => True) (Job.body i job) fun r (w : World service) => Told i job r w.log := by
  cases job with
  | submitScore u q => exact Triple.map submitScore_told fun _ _ _ h => h
  | _ => exact Triple.conseq (Keeps.of_persistent (fun _ _ _ _ _ => trivial) (Uses.of_forall (fun _ _ _ _ _ _ _ _ =>
      ⟨trivial, trivial, fun _ _ => trivial⟩) _)) (fun _ _ h => h) fun r _ _ _ => by cases r <;> trivial

def outline : Outline service Honest where
  toProtocol := free
  post i job r w := Told i job r w.log
  post_stable _ _ _ w ev s _ _ _ _ h := Told.lasting w ev s h
  may_ok _ _ _ _ _ _ _ := trivial
  may_fail _ _ _ _ _ _ _ _ _ := ⟨trivial, trivial⟩
  start_ok _ _ _ _ _ _ _ := ⟨⟨trivial, trivial, fun _ _ => trivial⟩, body_told _ trivial trivial⟩
  crash_ok _ _ _ _ := ⟨trivial, trivial, fun _ _ => trivial⟩
  env_ok _ _ _ _ _ _ := ⟨trivial, trivial, fun _ _ _ _ => trivial⟩

end Ledger

/-- Thread `i` has answered the request of the user with the id. -/
def Acknowledged (c : Conf service) (i : Nat) (userId : Int) (q : ScoreRequest) (id : Int) : Prop :=
  ∃ t, c.threads[i]? = some t ∧ t.job = .submitScore userId q ∧ t.returned? = some (.scored id)

/-- Thread `i` has answered the request of the user by saying that the document has been scored already. -/
def Declined (c : Conf service) (i : Nat) (userId : Int) (q : ScoreRequest) : Prop :=
  ∃ t e, c.threads[i]? = some t ∧ t.job = .submitScore userId q ∧ t.outcome? = some (.error e) ∧ e.saysScored = true

namespace Ledger

variable {c : Conf service} {i : Nat} {u : Int} {q : ScoreRequest}

theorem mem_answered (h : outline.Holds c) {id : Int} (ha : Acknowledged c i u q id) :
    (i, id, scoreRow u q) ∈ record answered? c.world.log := by
  obtain ⟨t, ht, hjob, hr⟩ := ha
  have htold : Told i t.job (.ok (.scored id)) c.world.log := h.outcome ht (Thread.outcome_of_returned hr)
  rw [hjob] at htold
  exact htold

theorem duplicate_of_declined {db₀ : Platform} (hinv : Inv db₀ c.world) (h : outline.Holds c) (hd : Declined c i u q) :
    c.world.state.db.Duplicate (scoreRow u q) := by
  obtain ⟨t, e, ht, hjob, hr, he⟩ := hd
  have htold : Told i t.job (.error e) c.world.log := h.outcome ht hr
  rw [hjob] at htold
  rcases htold he with hmem | ⟨id, hmem⟩
  · exact hinv.refused _ hmem
  · exact ⟨_, (hinv.answered _ hmem).1, rfl, rfl, rfl, nofun, nofun, nofun⟩

end Ledger

/-- Whatever fails or dies: the table keeps its rows and gets new ones under increasing ids, and the database notifies
of each once and in that order. A request that was answered with an id has its row under this id, and no two
requests get the same id, or ids for the same user, role and document. A request that was told that the document has
been scored already was told the truth. -/
theorem scores_kept {s : State} (hs : s.db.Kept) {c : Conf service} (h : Reach Honest s c) :
    ∃ new, c.world.state.db.scores = s.db.scores ++ new ∧ c.world.state.db.Kept ∧
      record taken? c.world.log ++ c.world.state.db.notifications =
        s.db.notifications ++ new.map (fun x => x.2.notice) ∧
      (∀ i u q id, Acknowledged c i u q id → (id, scoreRow u q) ∈ new) ∧
      (∀ i j u u' q q' id id', i ≠ j → Acknowledged c i u q id → Acknowledged c j u' q' id' →
        id' ≠ id ∧ ¬ (u' = u ∧ q'.roleId = q.roleId ∧ q'.documentId = q.documentId)) ∧
      ∀ i u q, Declined c i u q → c.world.state.db.Duplicate (scoreRow u q) := by
  have hinv : Ledger.Inv s.db c.world := Ledger.Inv.reach hs h
  have hholds : Ledger.outline.Holds c := Outline.holds_of_reach trivial h
  obtain ⟨new, hgrows⟩ := hinv.grows
  refine ⟨new, hgrows.scores, hinv.kept, hgrows.notices, fun i u q id ha => ?_, ?_, fun i u q hd =>
    Ledger.duplicate_of_declined hinv hholds hd⟩
  · obtain ⟨hmem, hle⟩ := hinv.answered _ (Ledger.mem_answered hholds ha)
    rw [hgrows.scores] at hmem
    rcases List.mem_append.mp hmem with hmem | hmem
    · have hlt : id < s.db.scoreSeq := hs.below _ hmem
      exact absurd hle (Int.not_le.mpr hlt)
    · exact hmem
  · intro i j u u' q q' id id' hij ha ha'
    have hmem := Ledger.mem_answered hholds ha
    have hmem' := Ledger.mem_answered hholds ha'
    have hdistinct : ((record answered? c.world.log).map fun x => x.2.1).Nodup :=
      List.pairwise_map.mpr (hinv.increasing.imp fun hlt => ne_of_lt hlt)
    have hid : id' ≠ id := fun he =>
      hij (congrArg Prod.fst (List.inj_on_of_nodup_map hdistinct hmem hmem' he.symm))
    exact ⟨hid, Ledger.distinct_of_pk hinv.kept hid (hinv.answered _ hmem).1 (hinv.answered _ hmem').1⟩

end

section
open scoped Python.Utc

/-- A request that breaks off after its insert, the same request again, and one for another article. -/
def Sample.retries : Conf service :=
  (Sample.start [Sample.article 6, Sample.article 7]).play
    [.start (.submitScore 1 (Sample.request 6)), .run 0, .fail 0 .callFailed false,
      .start (.submitScore 1 (Sample.request 6)), .run 1,
      .start (.submitScore 1 (Sample.request 7)), .run 2, .run 2, .run 2]

theorem scores_kept_retries : ∃ new, Sample.retries.world.state.db.scores = new ∧
    (3, scoreRow 1 (Sample.request 7)) ∈ new ∧
    Sample.retries.world.state.db.Duplicate (scoreRow 1 (Sample.request 6)) := by
  have hkept : (Sample.start [Sample.article 6, Sample.article 7]).world.state.db.Kept :=
    ⟨List.Pairwise.nil, nofun, List.Pairwise.nil⟩
  have hreach : Reach Honest (Sample.start [Sample.article 6, Sample.article 7]).world.state Sample.retries :=
    Steps.play ⟨trivial, trivial, rfl, trivial, trivial, trivial, trivial, trivial, trivial, trivial⟩
  obtain ⟨new, hscores, -, -, hrow, -, hdeclined⟩ := scores_kept hkept hreach
  exact ⟨new, hscores, hrow 2 1 _ 3 ⟨_, rfl, rfl, rfl⟩, hdeclined 1 1 _ ⟨_, _, rfl, rfl, rfl, rfl⟩⟩

end

end TapeService
