import Mathlib.Algebra.Order.Group.Unbundled.Basic
import Mathlib.Algebra.Order.Monoid.Defs
import Mathlib.Data.List.Basic

/-!
# Sliding windows

A limiter keeps the times of the requests that it has let pass, the oldest first. A request passes when fewer
than `limit` of them are left after those that are older than the window have been dropped. If the times
never go back, no interval of the length of the window contains more than `limit` requests that passed.
-/

namespace SlidingWindow

variable {τ : Type} [LinearOrder τ]

/-- Drops the times before `cutoff` from the front. -/
def prune (cutoff : τ) (q : List τ) : List τ := q.dropWhile fun x => x < cutoff

theorem prune_of_forall {cutoff : τ} {q : List τ} (h : ∀ x ∈ q, cutoff ≤ x) : prune cutoff q = q := by
  cases q with
  | nil => rfl
  | cons x q => simp [prune, h x]

theorem prune_eq_filter {cutoff : τ} {q : List τ} (h : q.Pairwise (· ≤ ·)) :
    prune cutoff q = q.filter fun x => cutoff ≤ x := by
  induction q with
  | nil => rfl
  | cons x q ih =>
      obtain ⟨hx, hq⟩ := List.pairwise_cons.mp h
      by_cases hc : x < cutoff
      · simpa [prune, hc] using ih hq
      · have hall : ∀ y ∈ x :: q, cutoff ≤ y := by
          intro y hy
          rcases List.mem_cons.mp hy with rfl | hy
          · exact not_lt.mp hc
          · exact (not_lt.mp hc).trans (hx y hy)
        rw [prune_of_forall hall, List.filter_eq_self.mpr fun y hy => decide_eq_true (hall y hy)]

variable [AddCommGroup τ]

/-- The answer to a request, with the times that are kept after it. -/
def allow (limit : Nat) (window now : τ) (q : List τ) : Bool × List τ :=
  if limit ≤ (prune (now - window) q).length then (false, prune (now - window) q)
  else (true, prune (now - window) q ++ [now])

/-- How many of the times lie in the interval of length `window` that starts at `t`. -/
def within (window t : τ) (xs : List τ) : Nat := xs.countP fun x => t ≤ x ∧ x ≤ t + window

/-- What the kept times `q` say about the times at which requests have passed. -/
structure Records (limit : Nat) (window : τ) (passed q : List τ) (now : τ) : Prop where
  sorted : q.Pairwise (· ≤ ·)
  kept_le : ∀ x ∈ q, x ≤ now
  passed_le : ∀ x ∈ passed, x ≤ now
  /-- No time that still counts has been dropped. -/
  recent : ∀ t, now - window ≤ t → passed.countP (fun x => t ≤ x) = q.countP fun x => t ≤ x
  bounded : ∀ t, within window t passed ≤ limit

variable {limit : Nat} {window now now' : τ} {passed q : List τ}

theorem Records.nil : Records limit window [] [] now where
  sorted := .nil
  kept_le _ hx := nomatch hx
  passed_le _ hx := nomatch hx
  recent _ _ := rfl
  bounded _ := Nat.zero_le _

theorem Records.prune (h : Records limit window passed q now) :
    Records limit window passed (prune (now - window) q) now := by
  have hq : SlidingWindow.prune (now - window) q = _ := prune_eq_filter h.sorted
  refine ⟨?_, ?_, h.passed_le, fun t ht => ?_, h.bounded⟩
  · rw [hq]
    exact h.sorted.filter _
  · rw [hq]
    exact fun x hx => h.kept_le x (List.mem_of_mem_filter hx)
  · rw [hq, h.recent t ht, List.countP_filter]
    refine List.countP_congr fun x _ => ?_
    simp only [decide_eq_true_eq, Bool.and_eq_true, iff_self_and]
    exact ht.trans

variable [IsOrderedAddMonoid τ]

/-- Time passes. -/
theorem Records.mono (h : Records limit window passed q now) (hn : now ≤ now') :
    Records limit window passed q now' where
  sorted := h.sorted
  kept_le x hx := (h.kept_le x hx).trans hn
  passed_le x hx := (h.passed_le x hx).trans hn
  recent t ht := h.recent t ((sub_le_sub_right hn window).trans ht)
  bounded := h.bounded

theorem Records.pass (h : Records limit window passed q now) (hroom : q.length < limit) :
    Records limit window (passed ++ [now]) (q ++ [now]) now where
  sorted := by
    refine List.pairwise_append.mpr ⟨h.sorted, List.pairwise_singleton _ _, fun x hx y hy => ?_⟩
    obtain rfl := List.mem_singleton.mp hy
    exact h.kept_le x hx
  kept_le x hx := by
    rcases List.mem_append.mp hx with hx | hx
    · exact h.kept_le x hx
    · exact (List.mem_singleton.mp hx).le
  passed_le x hx := by
    rcases List.mem_append.mp hx with hx | hx
    · exact h.passed_le x hx
    · exact (List.mem_singleton.mp hx).le
  recent t ht := by rw [List.countP_append, List.countP_append, h.recent t ht]
  bounded t := by
    unfold within
    rw [List.countP_append]
    by_cases hin : t ≤ now ∧ now ≤ t + window
    · -- Everything in the interval has passed since `now - window`, so it is kept.
      have hkept : within window t passed ≤ q.length :=
        calc within window t passed ≤ passed.countP fun x => t ≤ x :=
              List.countP_mono_left fun x _ hx => by simp_all
          _ = q.countP fun x => t ≤ x := h.recent t (sub_le_iff_le_add.mpr hin.2)
          _ ≤ q.length := List.countP_le_length
      unfold within at hkept
      simp only [List.countP_singleton, hin, and_self, decide_true, if_true]
      omega
    · have := h.bounded t
      unfold within at this
      simpa [List.countP_singleton, hin] using this

theorem Records.allow (h : Records limit window passed q now) (hn : now ≤ now') :
    Records limit window (if (allow limit window now' q).1 then passed ++ [now'] else passed)
      (allow limit window now' q).2 now' := by
  have hp := (h.mono hn).prune
  unfold SlidingWindow.allow
  split
  · exact hp
  · exact hp.pass (Nat.lt_of_not_le ‹_›)

/-- A request passes exactly when fewer than `limit` of those that have passed lie in the window behind it. -/
theorem Records.allow_iff (h : Records limit window passed q now) (hn : now ≤ now') :
    (SlidingWindow.allow limit window now' q).1 = true ↔
      (passed.countP fun x => now' - window ≤ x ∧ x ≤ now') < limit := by
  have hcount : (SlidingWindow.prune (now' - window) q).length =
      passed.countP fun x => now' - window ≤ x ∧ x ≤ now' :=
    calc (SlidingWindow.prune (now' - window) q).length
        = q.countP fun x => now' - window ≤ x := by rw [prune_eq_filter h.sorted, List.countP_eq_length_filter]
      _ = passed.countP fun x => now' - window ≤ x := ((h.mono hn).recent _ le_rfl).symm
      _ = passed.countP fun x => now' - window ≤ x ∧ x ≤ now' :=
          List.countP_congr fun x hx => by simp [(h.mono hn).passed_le x hx]
  rw [SlidingWindow.allow, hcount]
  split
  · simp only [Bool.false_eq_true, false_iff]
    omega
  · simp only [true_iff]
    omega

theorem prune_replicate {n : Nat} (hw : 0 ≤ window) :
    SlidingWindow.prune (now - window) (.replicate n now) = .replicate n now :=
  prune_of_forall fun x hx => by
    rw [List.eq_of_mem_replicate hx]
    exact sub_le_self now hw

theorem allow_replicate {n : Nat} (hn : n < limit) (hw : 0 ≤ window) :
    SlidingWindow.allow limit window now (.replicate n now) = (true, .replicate (n + 1) now) := by
  unfold SlidingWindow.allow
  rw [prune_replicate hw, List.length_replicate, if_neg (Nat.not_le.mpr hn), List.replicate_succ']

theorem allow_full (hw : 0 ≤ window) :
    (SlidingWindow.allow limit window now (.replicate limit now)).1 = false := by
  unfold SlidingWindow.allow
  rw [prune_replicate hw, List.length_replicate, if_pos (Nat.le_refl _)]

/-! ## Times that arrive out of order

A request reads the clock before it gets to the limiter, and others may overtake it in between. Then the kept times
are not sorted any more, and of the interval behind a request there can be more than `limit` that have passed. What
is left is a bound on those that the limiter has let pass and whose time still counts at the moment.
-/

/-- What the kept times `q` say about the times of the requests that have passed until `now`. -/
structure Covers (limit : Nat) (window : τ) (passed q : List τ) (now : τ) : Prop where
  /-- No time that still counts has been dropped. -/
  recent : ∀ t, now - window ≤ t → passed.countP (fun x => t ≤ x) ≤ q.countP fun x => t ≤ x
  length_le : q.length ≤ limit

omit [AddCommGroup τ] [IsOrderedAddMonoid τ] in
theorem countP_prune {cutoff t : τ} (h : cutoff ≤ t) :
    (SlidingWindow.prune cutoff q).countP (fun x => t ≤ x) = q.countP fun x => t ≤ x := by
  induction q with
  | nil => rfl
  | cons x q ih =>
      by_cases hx : x < cutoff
      · have hold : ¬ t ≤ x := not_le.mpr (hx.trans_le h)
        have hdrop : SlidingWindow.prune cutoff (x :: q) = SlidingWindow.prune cutoff q := by
          simp [SlidingWindow.prune, hx]
        rw [hdrop, ih, List.countP_cons_of_neg (by simpa using hold)]
      · simp [SlidingWindow.prune, hx]

omit [IsOrderedAddMonoid τ] in
theorem length_allow_le {stamp : τ} (h : q.length ≤ limit) :
    (SlidingWindow.allow limit window stamp q).2.length ≤ limit := by
  have hprune : (SlidingWindow.prune (stamp - window) q).length ≤ q.length :=
    (List.dropWhile_sublist _).length_le
  unfold SlidingWindow.allow
  split
  · exact hprune.trans h
  · simp only [List.length_append, List.length_singleton]
    omega

omit [IsOrderedAddMonoid τ] in
theorem Covers.nil : Covers limit window [] [] now where
  recent _ _ := Nat.le_refl _
  length_le := Nat.zero_le _

/-- Time passes. -/
theorem Covers.mono (h : Covers limit window passed q now) (hn : now ≤ now') :
    Covers limit window passed q now' where
  recent t ht := h.recent t ((sub_le_sub_right hn window).trans ht)
  length_le := h.length_le

/-- A request is counted that has read the clock at some time until now. -/
theorem Covers.allow (h : Covers limit window passed q now) {stamp : τ} (hstamp : stamp ≤ now) :
    Covers limit window (if (allow limit window stamp q).1 then stamp :: passed else passed)
      (allow limit window stamp q).2 now := by
  refine ⟨fun t ht => ?_, length_allow_le h.length_le⟩
  have hkept : (SlidingWindow.prune (stamp - window) q).countP (fun x => t ≤ x) = q.countP fun x => t ≤ x :=
    countP_prune ((sub_le_sub_right hstamp window).trans ht)
  have hrecent := h.recent t ht
  unfold SlidingWindow.allow
  split
  · simp only [Bool.false_eq_true, ↓reduceIte]
    omega
  · simp only [↓reduceIte, List.countP_cons, List.countP_append, List.countP_nil]
    omega

/-- The answer can be lost once the request has been counted. -/
theorem Covers.lost (h : Covers limit window passed q now) {stamp : τ} (hstamp : stamp ≤ now) :
    Covers limit window passed (SlidingWindow.allow limit window stamp q).2 now where
  recent t ht := by
    refine le_trans ?_ ((h.allow hstamp).recent t ht)
    split
    · rw [List.countP_cons]
      omega
    · exact Nat.le_refl _
  length_le := length_allow_le h.length_le

omit [IsOrderedAddMonoid τ] in
theorem Covers.bounded (h : Covers limit window passed q now) :
    passed.countP (fun x => now - window ≤ x) ≤ limit :=
  (h.recent _ le_rfl).trans (List.countP_le_length.trans h.length_le)

end SlidingWindow
