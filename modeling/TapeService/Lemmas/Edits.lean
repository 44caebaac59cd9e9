import TapeService.Lemmas.Effects

/-!
# The edits of a tape

What the events of a log have done to the tape of one user, as the answers to the calls tell it.
-/

namespace TapeService

open Interleaving Python

inductive Edit where
  | added (documentId position : Int)
  | removed (documentId : Int)
  | emptied
  deriving DecidableEq

def Edit.apply (t : Tape) : Edit → Tape
  | .added d p => t.zaddNx d p
  | .removed d => t.zrem d
  | .emptied => .empty

/-- The edit that an answered call is, if it has changed the tape of the user. -/
def Call.edit? (userId : Int) : (c : Call) → Except Exn c.Reply → Option Edit
  | .zaddNx key d p, .ok n => if key = entriesKey userId ∧ n = 1 then some (.added d p) else none
  | .zrem key d, .ok n => if key = entriesKey userId ∧ n = 1 then some (.removed d) else none
  | .multiZcardDel key, .ok _ => if key = entriesKey userId then some .emptied else none
  | _, _ => none

variable {c : Call} {s : State} {userId : Int}

theorem Call.edit?_of_not_edits {r : Except Exn c.Reply} (h : ¬ c.EditsTape userId) :
    c.edit? userId r = none := by
  cases r with
  | error e => cases c <;> rfl
  | ok a => cases c <;> simp_all [edit?, EditsTape]

theorem Call.edit?_ne_added {r : Except Exn c.Reply} {d p : Int}
    (h : ∀ m q, c ≠ .zaddNx (entriesKey userId) m q) : c.edit? userId r ≠ some (.added d p) := by
  intro he
  cases r with
  | error e => cases c <;> cases he
  | ok a =>
      cases c with
      | zaddNx key m q =>
          simp only [edit?] at he
          split at he
          · rename_i hkey
            exact h m q (hkey.1 ▸ rfl)
          · cases he
      | _ => simp [edit?] at he

theorem Call.eq_of_edit?_emptied {r : Except Exn c.Reply} (h : c.edit? userId r = some .emptied) :
    c = .multiZcardDel (entriesKey userId) := by
  cases r with
  | error e => cases c <;> cases h
  | ok a => cases c <;> simp_all [edit?]

/-- An answered call does to the tape what its edit says. -/
theorem exec_edit (c : Call) (s : State) (userId : Int) :
    (exec c s).2.tape userId =
      (c.edit? userId (exec c s).1).elim (s.tape userId) (Edit.apply (s.tape userId)) := by
  by_cases he : c.EditsTape userId
  · cases c with
    | zaddNx key m p =>
        obtain rfl : key = entriesKey userId := he
        by_cases hm : m ∈ s.tape userId
        · simp [exec_zaddNx_tape, exec_zaddNx_reply, Call.edit?, hm, Redis.ZSet.zaddNx_of_mem hm]
        · simp [exec_zaddNx_tape, exec_zaddNx_reply, Call.edit?, Edit.apply, hm]
    | zrem key m =>
        obtain rfl : key = entriesKey userId := he
        by_cases hm : m ∈ s.tape userId
        · simp [exec_zrem_tape, exec_zrem_reply, Call.edit?, Edit.apply, hm]
        · simp [exec_zrem_tape, exec_zrem_reply, Call.edit?, hm, Redis.ZSet.zrem_of_not_mem hm]
    | multiZcardDel key =>
        obtain rfl : key = entriesKey userId := he
        have hedit : Call.edit? userId (.multiZcardDel (entriesKey userId))
            (exec (.multiZcardDel (entriesKey userId)) s).1 = some .emptied := if_pos rfl
        simp only [exec_multiZcardDel_tape, hedit, Option.elim_some, Edit.apply]
    | _ => exact he.elim
  · rw [exec_tape he, Call.edit?_of_not_edits he]
    rfl

variable [DatetimeLib]

def edit? (userId : Int) : Event service → Option Edit
  | .called _ c r => c.edit? userId r
  | _ => none

/-- The entries that were put into the tape since it was last emptied, the newest first. -/
def placed (userId : Int) : List (Event service) → List (Int × Int)
  | [] => []
  | ev :: log =>
      match edit? userId ev with
      | some (.added d p) => (d, p) :: placed userId log
      | some .emptied => []
      | _ => placed userId log

/-- The step empties the tape of the user. -/
def Empties (userId : Int) (c : Conf service) (l : Label service) : Prop :=
  (c.call? l).map Prod.snd = some (.multiZcardDel (entriesKey userId))

instance (userId : Int) (c : Conf service) (l : Label service) : Decidable (Empties userId c l) :=
  inferInstanceAs (Decidable (_ = _))

/-- As long as the tape is not emptied, what was placed stays placed. -/
theorem placed_append {userId : Int} {newer log : List (Event service)}
    (h : ∀ ev ∈ newer, edit? userId ev ≠ some .emptied) :
    placed userId log <:+ placed userId (newer ++ log) := by
  induction newer with
  | nil => exact List.suffix_refl _
  | cons ev newer ih =>
      have ih := ih fun ev' hev' => h ev' (by simp [hev'])
      have hev := h ev (by simp)
      simp only [List.cons_append, placed]
      split
      · exact ih.trans (List.suffix_cons _ _)
      · rename_i hedit
        exact absurd hedit hev
      · exact ih

/-- The events of steps that do not empty the tape. -/
theorem newer_of_not_empties {userId : Int} {ok : Conf service → Label service → Prop}
    {c c' : Conf service} (h : Steps (fun c l => ok c l ∧ ¬ Empties userId c l) c c') :
    ∃ newer, c'.world.log = newer ++ c.world.log ∧ ∀ ev ∈ newer, edit? userId ev ≠ some .emptied := by
  induction h with
  | refl => exact ⟨[], rfl, by simp⟩
  | @tail c₁ c₂ _ hstep ih =>
      obtain ⟨newer, hlog, hnewer⟩ := ih
      obtain ⟨l, ⟨-, hl⟩, hst⟩ := hstep
      have hev : ∃ ev, c₂.world.log = ev :: c₁.world.log ∧ edit? userId ev ≠ some .emptied := by
        cases Conf.stepTo_of_step hst with
        | start hs => exact ⟨_, rfl, by simp [edit?]⟩
        | @run i job q k hi =>
            refine ⟨_, rfl, fun hedit => hl ?_⟩
            obtain rfl := Call.eq_of_edit?_emptied hedit
            simp [Empties, Conf.call?, hi, Thread.next?]
        | @fail i e done job q k hi => exact ⟨_, rfl, by cases q <;> simp [edit?, Call.edit?]⟩
        | crash hi => exact ⟨_, rfl, by simp [edit?]⟩
        | env hs => exact ⟨_, rfl, by simp [edit?]⟩
      obtain ⟨ev, hlog₂, hev⟩ := hev
      refine ⟨ev :: newer, by simp [hlog₂, hlog], fun ev' hev' => ?_⟩
      rcases List.mem_cons.mp hev' with rfl | hev'
      · exact hev
      · exact hnewer ev' hev'

end TapeService
