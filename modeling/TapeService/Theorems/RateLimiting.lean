import Mathlib.Algebra.Order.Ring.Rat
import TapeService.Lemmas.Limiter

/-!
# The limiter as a sliding window

Over any sequence of calls at times that do not go back, `allow` admits a call exactly when fewer calls than
the capacity have been admitted for its key in the window behind it.
-/

namespace TapeService

section
variable {τ : Type} [LinearOrder τ] [AddCommGroup τ]

/-- How many of the calls for the key that have been admitted lie in the closed interval. -/
def admittedWithin (capacity : Nat) (window : τ) (key : String) (calls : List (τ × String)) (first last : τ) : Nat :=
  ((TokenBucket.new capacity window).admitted key calls).countP fun x => first ≤ x ∧ x ≤ last

/-- The answer to a call that follows the given ones. -/
def answerAfter (capacity : Nat) (window : τ) (before : List (τ × String)) (t : τ) (key : String) : Bool :=
  (((TokenBucket.new capacity window).after before).allow t key).1

/-- The answers to the calls for the key. -/
def answersFor (b : TokenBucket τ) (key : String) (calls : List (τ × String)) : List Bool :=
  ((calls.zip (b.answers calls)).filter fun x => x.1.2 = key).map Prod.snd

/-- The law of a sliding window, for the calls one after the other. -/
structure ExactWindow (capacity : Nat) (window : τ) (calls : List (τ × String)) : Prop where
  admits : ∀ before t key later, calls = before ++ (t, key) :: later →
    (answerAfter capacity window before t key = true ↔
      admittedWithin capacity window key before (t - window) t < capacity)
  bounded : ∀ key t, admittedWithin capacity window key calls t (t + window) ≤ capacity
  /-- After a call that is denied the later ones are answered as without it. -/
  undelayed : ∀ before t key later, calls = before ++ (t, key) :: later →
    answerAfter capacity window before t key = false →
      ((TokenBucket.new capacity window).after (before ++ [(t, key)])).answers later =
        ((TokenBucket.new capacity window).after before).answers later
  /-- The calls for one key are answered as if there were no others. -/
  unaffected : ∀ key, answersFor (.new capacity window) key calls =
    (TokenBucket.new capacity window).answers (calls.filter fun c => c.2 = key)

namespace RateLimiting

variable {b b' : TokenBucket τ} {key : String} {capacity : Nat} {window : τ} {calls : List (τ × String)}

/-- Two limiters that have kept the same for the key answer its calls alike. -/
theorem answersFor_eq (hcapacity : b.capacity = b'.capacity) (hwindow : b.window = b'.window)
    (hevents : b.events key = b'.events key) :
    answersFor b key calls = b'.answers (calls.filter fun c => c.2 = key) := by
  induction calls generalizing b b' with
  | nil => rfl
  | cons c calls ih =>
      have hcons : answersFor b key (c :: calls) =
          (if c.2 = key then [(b.allow c.1 c.2).1] else []) ++ answersFor (b.allow c.1 c.2).2 key calls := by
        by_cases hc : c.2 = key <;> simp [answersFor, TokenBucket.answers, hc]
      rw [hcons]
      by_cases hc : c.2 = key
      · have hanswer : (b.allow c.1 c.2).1 = (b'.allow c.1 c.2).1 := by
          rw [TokenBucket.allow_answer, TokenBucket.allow_answer, hcapacity, hwindow, hc, hevents]
        have hkept : (b.allow c.1 c.2).2.events key = (b'.allow c.1 c.2).2.events key := by
          subst hc
          rw [TokenBucket.allow_events_self, TokenBucket.allow_events_self, hcapacity, hwindow, hevents]
        rw [if_pos hc, List.filter_cons_of_pos (by simpa using hc), hanswer,
          ih (by simpa using hcapacity) (by simpa using hwindow) hkept]
        rfl
      · rw [if_neg hc, List.filter_cons_of_neg (by simpa using hc),
          ih (by simpa using hcapacity) (by simpa using hwindow)
            ((TokenBucket.allow_events_of_ne (Ne.symm hc)).trans hevents)]
        rfl

variable [IsOrderedAddMonoid τ]

/-- What the limiter keeps after calls at times that do not go back. -/
theorem tracks_after (hsorted : calls.Pairwise fun c c' => c.1 ≤ c'.1) {t : τ} (ht : ∀ c ∈ calls, c.1 ≤ t) :
    ((TokenBucket.new capacity window).after calls).Tracks
      (fun key => (TokenBucket.new capacity window).admitted key calls) t := by
  cases calls with
  | nil => exact TokenBucket.tracks_new
  | cons c calls =>
      have hfirst : ∀ c' ∈ c :: calls, c.1 ≤ c'.1 := by
        intro c' hc'
        rcases List.mem_cons.mp hc' with rfl | hc'
        · exact le_rfl
        · exact (List.pairwise_cons.mp hsorted).1 c' hc'
      exact TokenBucket.tracks_new.after hsorted hfirst (ht c List.mem_cons_self) ht

theorem tracks_before {before later : List (τ × String)} {t : τ}
    (hsorted : (before ++ (t, key) :: later).Pairwise fun c c' => c.1 ≤ c'.1) :
    ((TokenBucket.new capacity window).after before).Tracks
      (fun key => (TokenBucket.new capacity window).admitted key before) t := by
  obtain ⟨hbefore, -, hlast⟩ := List.pairwise_append.mp hsorted
  exact tracks_after hbefore fun c hc => hlast c hc _ List.mem_cons_self

theorem admits_iff {before later : List (τ × String)} {t : τ}
    (hsorted : (before ++ (t, key) :: later).Pairwise fun c c' => c.1 ≤ c'.1) :
    answerAfter capacity window before t key = true ↔
      admittedWithin capacity window key before (t - window) t < capacity := by
  have htracks : ((TokenBucket.new capacity window).after before).Tracks
      (fun key => (TokenBucket.new capacity window).admitted key before) t := tracks_before hsorted
  have hiff := (htracks key).allow_iff le_rfl
  rw [TokenBucket.after_capacity, TokenBucket.after_window] at hiff
  rw [answerAfter, TokenBucket.allow_answer, TokenBucket.after_capacity, TokenBucket.after_window]
  exact hiff

theorem admitted_le (hsorted : calls.Pairwise fun c c' => c.1 ≤ c'.1) (key : String) (t : τ) :
    admittedWithin capacity window key calls t (t + window) ≤ capacity := by
  rcases List.eq_nil_or_concat calls with rfl | ⟨before, last, rfl⟩
  · exact Nat.zero_le _
  · rw [List.concat_eq_append] at hsorted ⊢
    have hlast : ∀ c ∈ before ++ [last], c.1 ≤ last.1 := by
      intro c hc
      rcases List.mem_append.mp hc with hc | hc
      · exact (List.pairwise_append.mp hsorted).2.2 c hc last (List.mem_singleton.mpr rfl)
      · rw [List.mem_singleton.mp hc]
    have htracks : ((TokenBucket.new capacity window).after (before ++ [last])).Tracks
        (fun key => (TokenBucket.new capacity window).admitted key (before ++ [last])) last.1 :=
      tracks_after hsorted hlast
    have hbounded := (htracks key).bounded t
    rw [TokenBucket.after_capacity, TokenBucket.after_window] at hbounded
    exact hbounded

theorem answers_after_denied {before later : List (τ × String)} {t : τ}
    (hsorted : (before ++ (t, key) :: later).Pairwise fun c c' => c.1 ≤ c'.1)
    (hdenied : answerAfter capacity window before t key = false) :
    ((TokenBucket.new capacity window).after (before ++ [(t, key)])).answers later =
      ((TokenBucket.new capacity window).after before).answers later := by
  have htracks : ((TokenBucket.new capacity window).after before).Tracks
      (fun key => (TokenBucket.new capacity window).admitted key before) t := tracks_before hsorted
  have hsame := htracks.allow le_rfl key
  rw [answerAfter] at hdenied
  simp only [hdenied, Bool.false_eq_true, and_false, if_false, List.append_nil] at hsame
  obtain ⟨hlater, hrest⟩ := List.pairwise_cons.mp (List.pairwise_append.mp hsorted).2.1
  rw [TokenBucket.after_concat]
  exact TokenBucket.answers_congr hsame htracks TokenBucket.allow_capacity TokenBucket.allow_window hrest hlater

end RateLimiting

open RateLimiting

theorem limiter_exact [IsOrderedAddMonoid τ] {capacity : Nat} {window : τ} {calls : List (τ × String)}
    (hsorted : calls.Pairwise fun c c' => c.1 ≤ c'.1) : ExactWindow capacity window calls where
  admits _ _ _ _ hcalls := admits_iff (hcalls ▸ hsorted)
  bounded := admitted_le hsorted
  undelayed _ _ _ _ hcalls := answers_after_denied (hcalls ▸ hsorted)
  unaffected _ := answersFor_eq rfl rfl rfl

end

/-- Two keys under a limit of one call in half a second. -/
theorem two_keys_limited :
    ExactWindow 1 (1 / 2 : Rat) [(0, "a"), (0, "b"), (1 / 4, "a"), (1 / 2, "a"), (3 / 4, "a")] :=
  limiter_exact (by decide +kernel)

example : (TokenBucket.new 1 (1 / 2 : Rat)).answers [(0, "a"), (0, "b"), (1 / 4, "a"), (1 / 2, "a"), (3 / 4, "a")] =
    [true, true, false, false, true] := by decide +kernel

end TapeService
