import TapeService.Interleaving.Attempts
import TapeService.Theorems.Scoring

/-!
# The answers to scores

`POST /score` inserts the row first and removes the entry of the tape then. When the second does not get
through, the request is answered with an error, and the client that repeats it is told that the document has
been scored already: that answer does not look at the tape.
-/

namespace TapeService

open Interleaving Interleaving.Program

/-- `score_pk`: no two rows share a user, a role and a document. -/
def Platform.ScorePk (db : Platform) : Prop :=
  db.scores.Pairwise fun x y => ¬ (x.2.userId = y.2.userId ∧ x.2.roleId = y.2.roleId ∧
    x.2.documentId = y.2.documentId ∧ x.2.userId ≠ none ∧ x.2.roleId ≠ none ∧ x.2.documentId ≠ none)

/-- A request with its answer and the state at that moment. -/
structure Answered where
  request : ScoreRequest
  answer : Except Exn Int
  state : State

/-- Of the requests that `score.save` can be called for, none names an entry of the tape whose row is there already,
and no two name the same entry under the same role, unless a reference of the row is missing. -/
structure Fresh (userId : Int) (s : State) (requests : List ScoreRequest) : Prop where
  unscored : ∀ q ∈ requests, (scoreRow userId q).Storable → q.documentId ∈ s.tape userId →
    ¬ s.db.Duplicate (scoreRow userId q)
  once : requests.Pairwise fun p q => (scoreRow userId p).Storable → (scoreRow userId q).Storable →
    p.documentId = q.documentId → p.roleId = q.roleId → p.documentId ∈ s.tape userId →
      ¬ s.db.ReferencesExist (scoreRow userId p)

namespace ScoreAnswers

variable {userId : Int} {s s' : State} {q : ScoreRequest} {r : Except Exn Int}
  {log : List (Attempt signature State)}

/-! ## The rows -/

/-- What the insert leaves when it does not succeed: the serial has advanced. -/
def advanced (s : State) : State := { s with db := { s.db with scoreSeq := s.db.scoreSeq + 1 } }

/-- What the insert leaves when it succeeds. -/
def scored (userId : Int) (q : ScoreRequest) (s : State) : State :=
  { s with db := (s.db.insertScore (scoreRow userId q)).2 }

/-- The ways in which a request ends. -/
inductive Outcome (userId : Int) (q : ScoreRequest) (s : State) : Except Exn Int → State → Prop
  | lost : Outcome userId q s (.error .callFailed) s
  | unstorable (hrow : ¬ (scoreRow userId q).Storable) (e : Exn)
      (he : s.db.insertScore (scoreRow userId q) = (.error e, s.db)) : Outcome userId q s (.error e) s
  | duplicate (hrow : (scoreRow userId q).Storable) (hdup : s.db.Duplicate (scoreRow userId q)) :
      Outcome userId q s (.error (.apiError .alreadyScored "this document has already been scored by you"))
        (advanced s)
  | refused (hrow : (scoreRow userId q).Storable) (hdup : ¬ s.db.Duplicate (scoreRow userId q))
      (hrefs : ¬ s.db.ReferencesExist (scoreRow userId q)) :
      Outcome userId q s (.error .foreignKeyViolation) (advanced s)
  | left (haccepted : ¬ s.db.Refuses (scoreRow userId q)) :
      Outcome userId q s (.error .callFailed) (scored userId q s)
  | removed (haccepted : ¬ s.db.Refuses (scoreRow userId q))
      (r : Except Exn Int) (hr : r = .error .callFailed ∨ r = .ok s.db.scoreSeq) :
      Outcome userId q s r (exec (.zrem (entriesKey userId) q.documentId) (scored userId q s)).2

/-- How the request goes on when the insert has been answered. -/
def goOn (userId : Int) (q : ScoreRequest) : Except Exn Int → Prog Int
  | .ok scoreId => Scoring.cleanUp userId q.documentId scoreId
  | .error .uniqueViolation => .raise (.apiError .alreadyScored "this document has already been scored by you")
  | .error .alreadyScored => .raise (.apiError .alreadyScored "this document has already been scored by you")
  | .error e => .raise e

theorem submitScore_eq :
    submitScore userId q =
      .call (.scoreSave userId q.documentId q.roleId (scoreRow userId q).score q.comment) (goOn userId q) := by
  refine congrArg (Program.call _) (funext fun r => ?_)
  rcases r with e | scoreId
  · cases e <;> rfl
  · rfl

/-- What the later requests go by. -/
structure Later (userId : Int) (q : ScoreRequest) (s s' : State) : Prop where
  tape : ∀ d, d ∈ s'.tape userId → d ∈ s.tape userId
  refs : ∀ row, s'.db.ReferencesExist row ↔ s.db.ReferencesExist row
  pk : s.db.ScorePk → s'.db.ScorePk
  rows : s'.db.scores = s.db.scores ∨
    ¬ s.db.Refuses (scoreRow userId q) ∧ s'.db.scores = s.db.scores ++ [(s.db.scoreSeq, scoreRow userId q)]

theorem Later.refl : Later userId q s s where
  tape _ h := h
  refs _ := Iff.rfl
  pk h := h
  rows := .inl rfl

theorem advanced_later : Later userId q s (advanced s) where
  tape _ h := h
  refs _ := Iff.rfl
  pk h := h
  rows := .inl rfl

theorem scored_scores (haccepted : ¬ s.db.Refuses (scoreRow userId q)) :
    (scored userId q s).db.scores = s.db.scores ++ [(s.db.scoreSeq, scoreRow userId q)] :=
  (Scoring.insertScore_of_not_refuses haccepted).2

theorem scored_later (haccepted : ¬ s.db.Refuses (scoreRow userId q)) :
    Later userId q s (scored userId q s) where
  tape _ h := h
  refs row := by
    obtain ⟨scores, scoreSeq, notifications, hdb⟩ := @Platform.insertScore_frame s.db (scoreRow userId q)
    rw [scored, hdb]
    rfl
  pk h := by
    rw [Platform.ScorePk, scored_scores haccepted]
    refine List.pairwise_append.mpr ⟨h, List.pairwise_singleton _ _, fun x hx y hy hsame => ?_⟩
    obtain rfl := List.mem_singleton.mp hy
    obtain ⟨hu, hr, hd, -⟩ := hsame
    have hdup : s.db.Duplicate (scoreRow userId q) :=
      ⟨x, hx, hu, hr, hd, by simp [scoreRow], by simp [scoreRow], by simp [scoreRow]⟩
    exact haccepted (.inr (.inl hdup))
  rows := .inr ⟨haccepted, scored_scores haccepted⟩

/-- Only the tape changes when the entry is removed. -/
theorem Later.removed (h : Later userId q s s') :
    Later userId q s (exec (.zrem (entriesKey userId) q.documentId) s').2 where
  tape d hd := by
    rw [exec_zrem_tape] at hd
    exact h.tape d (Redis.ZSet.mem_zrem.mp hd).1
  refs := h.refs
  pk := h.pk
  rows := h.rows

theorem Outcome.later (h : Outcome userId q s r s') : Later userId q s s' := by
  cases h with
  | lost => exact .refl
  | unstorable _ _ _ => exact .refl
  | duplicate _ _ => exact advanced_later
  | refused _ _ _ => exact advanced_later
  | left haccepted => exact scored_later haccepted
  | removed haccepted r hr => exact (scored_later haccepted).removed

/-- A request that finds the later requests fresh leaves them fresh. -/
theorem Later.fresh {qs : List ScoreRequest} (h : Later userId q s s') (hfresh : Fresh userId s (q :: qs)) :
    Fresh userId s' qs := by
  obtain ⟨hq, hqs⟩ := List.pairwise_cons.mp hfresh.once
  constructor
  · rintro p hp hrow hd ⟨x, hx, hsame⟩
    rcases h.rows with hrows | ⟨haccepted, hrows⟩
    · rw [hrows] at hx
      exact hfresh.unscored p (List.mem_cons_of_mem _ hp) hrow (h.tape _ hd) ⟨x, hx, hsame⟩
    · simp only [Platform.Refuses, not_or, not_not] at haccepted
      rw [hrows] at hx
      rcases List.mem_append.mp hx with hx | hx
      · exact hfresh.unscored p (List.mem_cons_of_mem _ hp) hrow (h.tape _ hd) ⟨x, hx, hsame⟩
      · obtain rfl := List.mem_singleton.mp hx
        obtain ⟨-, hrole, hdoc, -⟩ := hsame
        have hdoc : q.documentId = p.documentId := Option.some.inj hdoc
        exact hq p hp haccepted.1 hrow hdoc (Option.some.inj hrole) (hdoc ▸ h.tape _ hd) haccepted.2.2
  · refine hqs.imp fun hpair hrow hrow' hdoc hrole hd hrefs => hpair hrow hrow' hdoc hrole (h.tape _ hd) ?_
    exact (h.refs _).mp hrefs

end ScoreAnswers

open ScoreAnswers

/-- Article 7 is in the tape of user 1, and nobody has scored it. -/
def Sample.waiting : State :=
  (exec (.zaddNx (entriesKey 1) 7 0) { redis := .empty, db := .start [Sample.article 7] }).2

end TapeService
