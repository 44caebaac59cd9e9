import TapeService.Interleaving.Attempts
import TapeService.Lemmas.Effects

/-!
# What a run changes in a tape

The entries that the calls of a run have inserted into a tape and deleted from it, as the tape before each
call and the tape after it show them.
-/

namespace TapeService

open Interleaving Redis

/-- The calls of a run, the oldest first. -/
abbrev Log := List (Attempt signature State)

/-- What the call leaves. -/
def stateAfter (x : Attempt signature State) : State := if x.failed then x.before else (exec x.call x.before).2

/-- The entries that the call puts into the tape, as (document, position). -/
def inserted (userId : Int) (x : Attempt signature State) : List (Int × Int) :=
  ZSet.newRows (x.before.tape userId) ((stateAfter x).tape userId)

/-- The entries that the call takes out of the tape. -/
def deleted (userId : Int) (x : Attempt signature State) : List (Int × Int) :=
  ZSet.newRows ((stateAfter x).tape userId) (x.before.tape userId)

variable {c : Call} {s : State} {userId : Int}

@[simp] theorem stateAfter_answered : stateAfter ⟨c, s, false⟩ = (exec c s).2 := rfl

@[simp] theorem inserted_failed : inserted userId ⟨c, s, true⟩ = [] :=
  ZSet.newRows_of_subset fun _ hx => hx

@[simp] theorem deleted_failed : deleted userId ⟨c, s, true⟩ = [] :=
  ZSet.newRows_of_subset fun _ hx => hx

theorem inserted_of_not_edits (h : ¬ c.EditsTape userId) : inserted userId ⟨c, s, false⟩ = [] := by
  rw [inserted, stateAfter_answered, exec_tape h]
  exact ZSet.newRows_of_subset fun _ hx => hx

theorem deleted_of_not_edits (h : ¬ c.EditsTape userId) : deleted userId ⟨c, s, false⟩ = [] := by
  rw [deleted, stateAfter_answered, exec_tape h]
  exact ZSet.newRows_of_subset fun _ hx => hx

theorem inserted_zaddNx {m p : Int} :
    inserted userId ⟨.zaddNx (entriesKey userId) m p, s, false⟩ = if m ∈ s.tape userId then [] else [(m, p)] := by
  rw [inserted, stateAfter_answered, exec_zaddNx_tape]
  exact ZSet.newRows_zaddNx

theorem rows_subset_zaddNx {m p : Int} :
    (s.tape userId).rows ⊆ ((exec (.zaddNx (entriesKey userId) m p) s).2.tape userId).rows := by
  rw [exec_zaddNx_tape]
  exact fun _ hx => ZSet.mem_rows_zaddNx.mpr (.inl hx)

theorem deleted_zaddNx {m p : Int} : deleted userId ⟨.zaddNx (entriesKey userId) m p, s, false⟩ = [] :=
  ZSet.newRows_of_subset rows_subset_zaddNx

theorem inserted_multiZcardDel : inserted userId ⟨.multiZcardDel (entriesKey userId), s, false⟩ = [] := by
  rw [inserted, stateAfter_answered, exec_multiZcardDel_tape]
  exact ZSet.newRows_of_subset (List.nil_subset _)

theorem deleted_multiZcardDel :
    deleted userId ⟨.multiZcardDel (entriesKey userId), s, false⟩ = (s.tape userId).rows := by
  rw [deleted, stateAfter_answered, exec_multiZcardDel_tape]
  exact ZSet.newRows_empty

end TapeService
