import TapeService.Lemmas.Positions

/-!
# The representation of a tape

While the lock of a user outlives its holder, only the holder adds entries. So the positions of a tape stay
pairwise distinct and non-negative.
-/

namespace TapeService

open Interleaving Interleaving.Protocol Python

section
variable [DatetimeLib]

/-- The holder of the lock may add. -/
def Tenure.byLock (userId : Int) : Tenure userId LockOutlives where
  holds := HoldsLock userId
  may _ _ _ := True
  may_call _ _ _ _ _ _ := trivial
  unique _ _ _ hi hj := token_inj.mp (Option.some.inj (hi.symm.trans hj))
  taken _ _ _ h := holdsLock_of_acquired h
  called i j w q r s _ hown hs _ hij h := by
    rcases hs with rfl | rfl
    · exact h
    · rcases hij with hij | hl
      · exact hown.lock hij h
      · exact (exec_lock hl).trans h
  started _ _ _ _ _ _ hl h := hl.trans h
  crashed _ _ _ _ h := h
  env _ _ _ _ _ hok hs hi hrun h := hok.lock hs hi hrun h

/-- The positions of a tape are pairwise distinct and non-negative in every reachable configuration, and a
document keeps its position over all steps that find it in the tape. -/
theorem tape_valid_and_positions_fixed (db : Platform) {c : Conf service}
    (h : Reach LockOutlives ⟨.empty, db⟩ c) (userId : Int) :
    (c.world.state.tape userId).Valid ∧
      ∀ d p q c', Steps (fun c l => LockOutlives c l ∧ d ∈ c.world.state.tape userId) c c' →
        (d, p) ∈ (c.world.state.tape userId).rows → (d, q) ∈ (c'.world.state.tape userId).rows →
        p = q := by
  have hc : (Positions.outline (.byLock userId)).Holds c :=
    Positions.holds_of_reach (.byLock userId) (s := ⟨.empty, db⟩) Tape.valid_empty h
  refine ⟨hc.inv, fun d p q c' hs hp hq => ?_⟩
  induction hs generalizing q with
  | refl => exact Redis.ZSet.score_unique hp hq
  | @tail c₁ c₂ hs hstep ih =>
      obtain ⟨l, ⟨hok, hd⟩, hl⟩ := hstep
      obtain ⟨q₁, hq₁⟩ := Redis.ZSet.mem_iff.mp hd
      obtain ⟨-, ev, -, hguar⟩ := (hc.steps (Steps.mono (fun _ _ h => h.1) hs)).step hok hl
      exact (ih q₁ hq₁).trans (hguar d q₁ q hq₁ hq)

end

section
open scoped Python.Utc

theorem build_valid_and_positions_fixed :
    (((Sample.start [Sample.article 7, Sample.article 8]).play Sample.build).world.state.tape 1).rows =
        [(7, 0), (8, 1)] ∧
      (((Sample.start [Sample.article 7, Sample.article 8]).play Sample.build).world.state.tape 1).Valid := by
  have hreach : Reach LockOutlives ⟨.empty, .start [Sample.article 7, Sample.article 8]⟩
      ((Sample.start [Sample.article 7, Sample.article 8]).play Sample.build) := by
    refine Steps.play (Conf.Obeys.of_labels fun l hl c userId he => ?_)
    simp [he, Sample.build, Sample.runs] at hl
  exact ⟨by decide +kernel, (tape_valid_and_positions_fixed _ hreach 1).1⟩

end

end TapeService
