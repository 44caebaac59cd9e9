import TapeService.Lemmas.Effects
import TapeService.Limiting.SlidingWindow
import TapeService.Model.Login

/-!
# The limiter over a sequence of calls

Key by key the limiter is a sliding window: what it has kept for a key records the times at which calls for
the key have been admitted.
-/

namespace TapeService

namespace TokenBucket

variable {τ : Type} [LinearOrder τ] [AddCommGroup τ] {b b' : TokenBucket τ} {now : τ} {key : String}

theorem allow_eq :
    b.allow now key =
      ((SlidingWindow.allow b.capacity b.window now (b.events key)).1,
        { b with events := put b.events key (SlidingWindow.allow b.capacity b.window now (b.events key)).2 }) := by
  by_cases hfull : b.capacity ≤ ((b.events key).dropWhile fun t => t < now - b.window).length
  · simp [TokenBucket.allow, SlidingWindow.allow, SlidingWindow.prune, hfull]
  · simp [TokenBucket.allow, SlidingWindow.allow, SlidingWindow.prune, hfull]

@[simp] theorem allow_capacity : (b.allow now key).2.capacity = b.capacity := by rw [allow_eq]

@[simp] theorem allow_window : (b.allow now key).2.window = b.window := by rw [allow_eq]

theorem allow_answer :
    (b.allow now key).1 = (SlidingWindow.allow b.capacity b.window now (b.events key)).1 := by rw [allow_eq]

theorem allow_events_self :
    (b.allow now key).2.events key = (SlidingWindow.allow b.capacity b.window now (b.events key)).2 := by
  rw [allow_eq]
  exact put_self _ _ _

theorem allow_events_of_ne {key' : String} (h : key' ≠ key) : (b.allow now key).2.events key' = b.events key' := by
  rw [allow_eq]
  exact put_of_ne _ _ h

/-! ## Sequences of calls -/

/-- The answers to calls at the given times for the given keys, one after the other. -/
def answers (b : TokenBucket τ) : List (τ × String) → List Bool
  | [] => []
  | c :: calls => (b.allow c.1 c.2).1 :: (b.allow c.1 c.2).2.answers calls

/-- What is left of the limiter after the calls. -/
def after (b : TokenBucket τ) (calls : List (τ × String)) : TokenBucket τ :=
  calls.foldl (fun b c => (b.allow c.1 c.2).2) b

/-- The times of the calls for the key that have been answered with True. -/
def admitted (b : TokenBucket τ) (key : String) (calls : List (τ × String)) : List τ :=
  (calls.zip (b.answers calls)).filterMap fun x => if x.1.2 = key ∧ x.2 then some x.1.1 else none

theorem length_answers {calls : List (τ × String)} : (b.answers calls).length = calls.length := by
  induction calls generalizing b with
  | nil => rfl
  | cons c calls ih => simp [answers, ih]

theorem answers_append {calls calls' : List (τ × String)} :
    b.answers (calls ++ calls') = b.answers calls ++ (b.after calls).answers calls' := by
  induction calls generalizing b with
  | nil => rfl
  | cons c calls ih => exact congrArg (_ :: ·) ih

theorem after_concat {calls : List (τ × String)} {c : τ × String} :
    b.after (calls ++ [c]) = ((b.after calls).allow c.1 c.2).2 := by
  simp [after]

theorem admitted_concat {calls : List (τ × String)} {c : τ × String} :
    b.admitted key (calls ++ [c]) =
      b.admitted key calls ++ if c.2 = key ∧ ((b.after calls).allow c.1 c.2).1 then [c.1] else [] := by
  unfold admitted
  rw [answers_append, List.zip_append length_answers.symm, List.filterMap_append]
  congr 1
  simp only [answers, List.zip_cons_cons, List.zip_nil_left, List.filterMap_cons, List.filterMap_nil]
  by_cases h : c.2 = key ∧ ((b.after calls).allow c.1 c.2).1 = true
  · simp only [if_pos h]
  · simp only [if_neg h]

@[simp] theorem after_capacity {calls : List (τ × String)} : (b.after calls).capacity = b.capacity := by
  induction calls using List.reverseRecOn with
  | nil => rfl
  | append_singleton calls c ih => rw [after_concat, allow_capacity, ih]

@[simp] theorem after_window {calls : List (τ × String)} : (b.after calls).window = b.window := by
  induction calls using List.reverseRecOn with
  | nil => rfl
  | append_singleton calls c ih => rw [after_concat, allow_window, ih]

/-! ## What the limiter keeps -/

/-- For each key, the limiter keeps the record of the times at which calls have been admitted. -/
def Tracks (b : TokenBucket τ) (passed : String → List τ) (now : τ) : Prop :=
  ∀ key, SlidingWindow.Records b.capacity b.window (passed key) (b.events key) now

theorem tracks_new {capacity : Nat} {window : τ} : (new capacity window).Tracks (fun _ => []) now :=
  fun _ => .nil

variable [IsOrderedAddMonoid τ] {passed : String → List τ} {now' : τ}

theorem Tracks.allow (h : b.Tracks passed now) (hn : now ≤ now') (key : String) :
    (b.allow now' key).2.Tracks
      (fun k => passed k ++ if key = k ∧ (b.allow now' key).1 then [now'] else []) now' := by
  intro k
  rw [allow_capacity, allow_window]
  beta_reduce
  by_cases hk : key = k
  · subst hk
    rw [allow_events_self, allow_answer]
    have hstep := (h key).allow hn
    cases hanswer : (SlidingWindow.allow b.capacity b.window now' (b.events key)).1 <;> simpa [hanswer] using hstep
  · rw [allow_events_of_ne (Ne.symm hk), if_neg fun hc => hk hc.1, List.append_nil]
    exact (h k).mono hn

/-- After calls at times that do not go back, the limiter keeps what has been admitted. -/
theorem Tracks.after {calls : List (τ × String)} (h : b.Tracks (fun _ => []) now)
    (hsorted : calls.Pairwise fun c c' => c.1 ≤ c'.1) (hnow : ∀ c ∈ calls, now ≤ c.1) {t : τ} (hle : now ≤ t)
    (ht : ∀ c ∈ calls, c.1 ≤ t) : (b.after calls).Tracks (fun key => b.admitted key calls) t := by
  induction calls using List.reverseRecOn generalizing t with
  | nil => exact fun key => (h key).mono hle
  | append_singleton calls c ih =>
      obtain ⟨hcalls, -, hlast⟩ := List.pairwise_append.mp hsorted
      have hc : now ≤ c.1 := hnow c (by simp)
      have hbefore := ih hcalls (fun c' hc' => hnow c' (by simp [hc'])) hc fun c' hc' =>
        hlast c' hc' c (List.mem_singleton.mpr rfl)
      have hstep := hbefore.allow le_rfl c.2
      rw [after_concat]
      intro key
      beta_reduce
      rw [admitted_concat]
      exact (hstep key).mono (ht c (by simp))

theorem answers_congr {calls : List (τ × String)} (h : b.Tracks passed now) (h' : b'.Tracks passed now)
    (hcapacity : b.capacity = b'.capacity) (hwindow : b.window = b'.window)
    (hsorted : calls.Pairwise fun c c' => c.1 ≤ c'.1) (hnow : ∀ c ∈ calls, now ≤ c.1) :
    b.answers calls = b'.answers calls := by
  induction calls generalizing b b' passed now with
  | nil => rfl
  | cons c calls ih =>
      obtain ⟨hc, hcalls⟩ := List.pairwise_cons.mp hsorted
      have hle : now ≤ c.1 := hnow c List.mem_cons_self
      have hanswer : (b.allow c.1 c.2).1 = (b'.allow c.1 c.2).1 := by
        rw [Bool.eq_iff_iff, allow_answer, allow_answer, (h c.2).allow_iff hle, (h' c.2).allow_iff hle, hcapacity,
          hwindow]
      have hstep := h.allow hle c.2
      have hstep' := h'.allow hle c.2
      rw [← hanswer] at hstep'
      exact congrArg₂ (· :: ·) hanswer (ih hstep hstep' (by simpa using hcapacity) (by simpa using hwindow) hcalls hc)

end TokenBucket

end TapeService
