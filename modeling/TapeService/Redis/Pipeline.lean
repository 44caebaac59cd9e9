import TapeService.Redis.ZSet

/-!
# Pipelines of `ZADD NX`

What a pipeline of `ZADD NX` commands with consecutive scores makes of a sorted set: those of the members
that are not there yet come after all others, in the order of the commands.
-/

namespace Redis

variable {α : Type}

/-- The elements with consecutive numbers. -/
def numbered : List α → Int → List (α × Int)
  | [], _ => []
  | x :: xs, n => (x, n) :: numbered xs (n + 1)

variable {xs : List α} {n : Int}

@[simp] theorem map_fst_numbered : (numbered xs n).map Prod.fst = xs := by
  induction xs generalizing n with
  | nil => rfl
  | cons x xs ih => exact congrArg (x :: ·) ih

theorem le_of_mem_numbered {x : α × Int} (h : x ∈ numbered xs n) : n ≤ x.2 := by
  induction xs generalizing n with
  | nil => cases h
  | cons y xs ih =>
      rcases List.mem_cons.mp h with rfl | h
      · exact le_rfl
      · have := ih h
        omega

theorem numbered_increasing : (numbered xs n).Pairwise fun x y => x.2 < y.2 := by
  induction xs generalizing n with
  | nil => exact .nil
  | cons x xs ih =>
      refine List.pairwise_cons.mpr ⟨fun y hy => ?_, ih⟩
      have := le_of_mem_numbered hy
      exact Int.lt_of_add_one_le this

theorem numbered_eq_zipIdx {k : Nat} : numbered xs k = (xs.zipIdx k).map fun x => (x.1, (x.2 : Int)) := by
  induction xs generalizing k with
  | nil => rfl
  | cons x xs ih =>
      have hk : (k : Int) + 1 = (k + 1 : Nat) := rfl
      rw [numbered, hk, ih]
      rfl

namespace ZSet

variable {name : α → String} [DecidableEq α] {z : ZSet name} {m : α} {ms : List α}

/-- `ZADD NX` of one member after the other, with scores from `n` on. -/
def zaddAll (z : ZSet name) : List α → Int → ZSet name
  | [], _ => z
  | m :: ms, n => (z.zaddNx m n).zaddAll ms (n + 1)

/-- What the commands answer. -/
def replies (z : ZSet name) : List α → Int → List Nat
  | [], _ => []
  | m :: ms, n => (if m ∈ z then 0 else 1) :: (z.zaddNx m n).replies ms (n + 1)

@[simp] theorem mem_zaddAll : m ∈ z.zaddAll ms n ↔ m ∈ z ∨ m ∈ ms := by
  induction ms generalizing z n with
  | nil => simp [zaddAll]
  | cons m' ms ih => simp [zaddAll, ih, mem_zaddNx, or_assoc]

theorem zaddAll_of_mem (h : ∀ m ∈ ms, m ∈ z) : z.zaddAll ms n = z := by
  induction ms generalizing n with
  | nil => rfl
  | cons m ms ih =>
      rw [zaddAll, zaddNx_of_mem (h m (by simp))]
      exact ih fun m hm => h m (by simp [hm])

theorem replies_of_nodup (h : ms.Nodup) : z.replies ms n = ms.map fun m => if m ∈ z then 0 else 1 := by
  induction ms generalizing z n with
  | nil => rfl
  | cons m ms ih =>
      obtain ⟨hm, hms⟩ := List.nodup_cons.mp h
      rw [replies, ih hms, List.map_cons]
      congr 1
      refine List.map_congr_left fun m' hm' => ?_
      have hne : m' ≠ m := fun he => hm (he ▸ hm')
      simp [mem_zaddNx, hne]

/-- The new members come after all others, in the order of the commands. -/
theorem rows_zaddAll (hbelow : ∀ x ∈ z.rows, x.2 < n) (hms : ms.Nodup) :
    (z.zaddAll ms n).rows = z.rows ++ (numbered ms n).filter (·.1 ∉ z) := by
  induction ms generalizing z n with
  | nil => simp [zaddAll, numbered]
  | cons m ms ih =>
      obtain ⟨hm, hms⟩ := List.nodup_cons.mp hms
      rw [zaddAll, numbered]
      by_cases hz : m ∈ z
      · rw [zaddNx_of_mem hz, List.filter_cons_of_neg (by simpa using hz)]
        exact ih (fun x hx => lt_trans (hbelow x hx) (Int.lt_succ n)) hms
      · have hrows := rows_zaddNx_of_gt hz hbelow
        have hbelow' : ∀ x ∈ (z.zaddNx m n).rows, x.2 < n + 1 := by
          intro x hx
          rcases mem_rows_zaddNx.mp hx with hx | ⟨-, rfl⟩
          · exact lt_trans (hbelow x hx) (Int.lt_succ n)
          · exact Int.lt_succ n
        have hsame : (numbered ms (n + 1)).filter (·.1 ∉ z.zaddNx m n) = (numbered ms (n + 1)).filter (·.1 ∉ z) := by
          refine List.filter_congr fun x hx => ?_
          have hx : x.1 ∈ ms := by simpa using List.mem_map_of_mem (f := Prod.fst) hx
          have hne : x.1 ≠ m := fun he => hm (he ▸ hx)
          simp [mem_zaddNx, hne]
        rw [ih hbelow' hms, hrows, hsame, List.filter_cons_of_pos (by simpa using hz), List.append_assoc]
        rfl

end ZSet

end Redis
