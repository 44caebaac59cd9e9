import Mathlib.Data.List.Sort
import Mathlib.Data.List.TakeDrop
import Mathlib.Data.String.Basic

/-!
# Sorted sets

A sorted set maps members to scores and lists them by rank: by score first, and members with the same
score by their text. Scores are whole numbers (Redis keeps doubles, which are exact below 2^53).
-/

namespace Redis

variable {α : Type}

/-- The rank order; `name` is the text of a member. -/
def Rank (name : α → String) (a b : α × Int) : Prop :=
  a.2 < b.2 ∨ a.2 = b.2 ∧ name a.1 ≤ name b.1

instance (name : α → String) : DecidableRel (Rank name) :=
  fun a b => inferInstanceAs (Decidable (a.2 < b.2 ∨ a.2 = b.2 ∧ name a.1 ≤ name b.1))

instance (name : α → String) : Std.Total (Rank name) where
  total a b := by
    rcases lt_trichotomy a.2 b.2 with h | h | h
    · exact Or.inl (Or.inl h)
    · rcases le_total (name a.1) (name b.1) with hn | hn
      · exact Or.inl (Or.inr ⟨h, hn⟩)
      · exact Or.inr (Or.inr ⟨h.symm, hn⟩)
    · exact Or.inr (Or.inl h)

instance (name : α → String) : IsTrans (α × Int) (Rank name) where
  trans a b c := by
    rintro (hab | ⟨hab, nab⟩) (hbc | ⟨hbc, nbc⟩)
    · exact Or.inl (lt_trans hab hbc)
    · exact Or.inl (hbc ▸ hab)
    · exact Or.inl (hab ▸ hbc)
    · exact Or.inr ⟨hab.trans hbc, nab.trans nbc⟩

theorem Rank.le {name : α → String} {a b : α × Int} (h : Rank name a b) : a.2 ≤ b.2 := by
  rcases h with h | h <;> omega

/-- The members with their scores, in rank order. -/
structure ZSet (name : α → String) where
  rows : List (α × Int)
  nodup : (rows.map Prod.fst).Nodup
  ranked : rows.Pairwise (Rank name)

namespace ZSet

variable {name : α → String}

@[ext] theorem ext {z z' : ZSet name} (h : z.rows = z'.rows) : z = z' := by
  cases z; cases z'; cases h; rfl

def empty : ZSet name where
  rows := []
  nodup := List.nodup_nil
  ranked := List.Pairwise.nil

instance : Inhabited (ZSet name) := ⟨empty⟩

def members (z : ZSet name) : List α := z.rows.map Prod.fst

instance : Membership α (ZSet name) := ⟨fun z m => m ∈ z.members⟩

theorem mem_iff {z : ZSet name} {m : α} : m ∈ z ↔ ∃ p, (m, p) ∈ z.rows := by
  show m ∈ z.rows.map Prod.fst ↔ _
  simp

@[simp] theorem rows_empty : (empty : ZSet name).rows = [] := rfl

@[simp] theorem not_mem_empty (m : α) : m ∉ (empty : ZSet name) := by
  simp [mem_iff]

theorem score_unique {z : ZSet name} {m : α} {p q : Int} (hp : (m, p) ∈ z.rows)
    (hq : (m, q) ∈ z.rows) : p = q := by
  have := List.inj_on_of_nodup_map z.nodup hp hq rfl
  simpa using this

/-! ## Reading -/

/-- `ZCARD key`. -/
def zcard (z : ZSet name) : Nat := z.rows.length

/-- `ZRANGE key start stop`: the ranks from `start` to `stop`, a negative one counting from the end. -/
def zrange (z : ZSet name) (start stop : Int) : List (α × Int) :=
  let n : Int := z.rows.length
  let lo := if start < 0 then max 0 (start + n) else start
  let hi := if stop < 0 then stop + n else stop
  (z.rows.drop lo.toNat).take (hi + 1 - lo).toNat

/-- `ZRANGEBYSCORE key (after +inf LIMIT 0 count`; a negative count is no limit. -/
def zrangebyscore (z : ZSet name) (after count : Int) : List (α × Int) :=
  let rows := z.rows.filter fun x => after < x.2
  if count < 0 then rows else rows.take count.toNat

theorem zrange_sublist {z : ZSet name} {start stop : Int} : (z.zrange start stop).Sublist z.rows :=
  (List.take_sublist _ _).trans (List.drop_sublist _ _)

theorem zrangebyscore_sublist {z : ZSet name} {after count : Int} :
    (z.zrangebyscore after count).Sublist z.rows := by
  unfold zrangebyscore
  split
  · exact List.filter_sublist
  · exact (List.take_sublist _ _).trans List.filter_sublist

theorem zrange_zero {z : ZSet name} {n : Int} (hn : 1 ≤ n) :
    z.zrange 0 (n - 1) = z.rows.take n.toNat := by
  have : ¬ n - 1 < 0 := by omega
  simp [zrange, this]

theorem zrange_last {z : ZSet name} : z.zrange (-1) (-1) = z.rows.getLast?.toList := by
  by_cases h : z.rows = []
  · simp [zrange, h]
  · have hpos : 0 < z.rows.length := List.length_pos_iff.mpr h
    have hlo : (max 0 (-1 + (z.rows.length : Int))).toNat = z.rows.length - 1 := by omega
    have hn : (-1 + (z.rows.length : Int) + 1 - max 0 (-1 + (z.rows.length : Int))).toNat = 1 := by omega
    show (z.rows.drop (max 0 (-1 + (z.rows.length : Int))).toNat).take
      (-1 + (z.rows.length : Int) + 1 - max 0 (-1 + (z.rows.length : Int))).toNat = _
    rw [hlo, hn, List.drop_length_sub_one h, List.getLast?_eq_some_getLast h]
    rfl

/-- The last row has the highest score. -/
theorem le_getLast {z : ZSet name} {x y : α × Int} (hx : z.rows.getLast? = some x) (hy : y ∈ z.rows) :
    y.2 ≤ x.2 := by
  obtain ⟨l, h⟩ := List.getLast?_eq_some_iff.mp hx
  rw [h] at hy
  rcases List.mem_append.mp hy with hy | hy
  · have hr := z.ranked
    rw [h, List.pairwise_append] at hr
    exact (hr.2.2 y hy x (by simp)).le
  · simp only [List.mem_singleton] at hy
    exact hy ▸ le_rfl

/-! ## Updates -/

variable [DecidableEq α]

instance (m : α) (z : ZSet name) : Decidable (m ∈ z) :=
  inferInstanceAs (Decidable (m ∈ z.members))

/-- `ZADD key NX score member`: a member that is there keeps its score. -/
def zaddNx (z : ZSet name) (m : α) (score : Int) : ZSet name :=
  if h : m ∈ z then z
  else
    { rows := z.rows.orderedInsert (Rank name) (m, score)
      nodup := by
        have hp := (List.perm_orderedInsert (Rank name) (m, score) z.rows).map Prod.fst
        exact hp.nodup_iff.mpr (List.nodup_cons.mpr ⟨h, z.nodup⟩)
      ranked := z.ranked.orderedInsert (m, score) _ }

/-- `ZREM key member`. -/
def zrem (z : ZSet name) (m : α) : ZSet name where
  rows := z.rows.filter fun x => x.1 ≠ m
  nodup := z.nodup.sublist (List.filter_sublist.map Prod.fst)
  ranked := z.ranked.sublist List.filter_sublist

/-! ## Rows after an update -/

theorem zaddNx_of_mem {z : ZSet name} {m : α} (h : m ∈ z) (s : Int) : z.zaddNx m s = z :=
  dif_pos h

theorem zrem_of_not_mem {z : ZSet name} {m : α} (h : m ∉ z) : z.zrem m = z := by
  apply ext
  refine List.filter_eq_self.mpr fun x hx => ?_
  have hne : x.1 ≠ m := fun he => h (mem_iff.mpr ⟨x.2, he ▸ hx⟩)
  simpa using hne

theorem mem_rows_zaddNx {z : ZSet name} {m : α} {s : Int} {x : α × Int} :
    x ∈ (z.zaddNx m s).rows ↔ x ∈ z.rows ∨ m ∉ z ∧ x = (m, s) := by
  unfold zaddNx
  split
  · simp [*]
  · simp [*, List.mem_orderedInsert, or_comm]

theorem mem_rows_zrem {z : ZSet name} {m : α} {x : α × Int} :
    x ∈ (z.zrem m).rows ↔ x ∈ z.rows ∧ x.1 ≠ m := by
  simp [zrem]

theorem mem_zaddNx {z : ZSet name} {m d : α} {s : Int} : d ∈ z.zaddNx m s ↔ d ∈ z ∨ d = m := by
  simp only [mem_iff, mem_rows_zaddNx, Prod.mk.injEq]
  constructor
  · rintro ⟨p, h | ⟨_, h, _⟩⟩
    · exact Or.inl ⟨p, h⟩
    · exact Or.inr h
  · rintro (⟨p, h⟩ | rfl)
    · exact ⟨p, Or.inl h⟩
    · by_cases h : d ∈ z
      · obtain ⟨p, hp⟩ := mem_iff.mp h
        exact ⟨p, Or.inl hp⟩
      · exact ⟨s, Or.inr ⟨by simpa [mem_iff] using h, rfl, rfl⟩⟩

theorem mem_zrem {z : ZSet name} {m d : α} : d ∈ z.zrem m ↔ d ∈ z ∧ d ≠ m := by
  simp [mem_iff, mem_rows_zrem]

/-- The rows of `z'` that `z` does not have. -/
def newRows (z z' : ZSet name) : List (α × Int) := z'.rows.filter (· ∉ z.rows)

theorem newRows_of_subset {z z' : ZSet name} (h : z'.rows ⊆ z.rows) : newRows z z' = [] :=
  List.filter_eq_nil_iff.mpr fun x hx => by simpa using h hx

theorem newRows_empty {z : ZSet name} : newRows empty z = z.rows :=
  List.filter_eq_self.mpr fun x _ => by simp

theorem newRows_zaddNx {z : ZSet name} {m : α} {s : Int} :
    newRows z (z.zaddNx m s) = if m ∈ z then [] else [(m, s)] := by
  by_cases hm : m ∈ z
  · rw [if_pos hm, zaddNx_of_mem hm]
    exact newRows_of_subset fun _ hx => hx
  · have hrows : (z.zaddNx m s).rows = z.rows.orderedInsert (Rank name) (m, s) := by
      rw [zaddNx, dif_neg hm]
    have hperm : (newRows z (z.zaddNx m s)).Perm (((m, s) :: z.rows).filter (· ∉ z.rows)) := by
      rw [newRows, hrows]
      exact (List.perm_orderedInsert (Rank name) (m, s) z.rows).filter _
    have hnew : (m, s) ∉ z.rows := fun h => hm (mem_iff.mpr ⟨s, h⟩)
    have hold : z.rows.filter (· ∉ z.rows) = [] := newRows_of_subset fun _ hx => hx
    rw [List.filter_cons_of_pos (by simpa using hnew), hold] at hperm
    rw [if_neg hm, List.perm_singleton.mp hperm]

/-- A member whose score is above all others goes to the end. -/
theorem rows_zaddNx_of_gt {z : ZSet name} {m : α} {s : Int} (hm : m ∉ z)
    (hs : ∀ x ∈ z.rows, x.2 < s) : (z.zaddNx m s).rows = z.rows ++ [(m, s)] := by
  have key : ∀ l : List (α × Int), (∀ x ∈ l, x.2 < s) →
      l.orderedInsert (Rank name) (m, s) = l ++ [(m, s)] := by
    intro l hl
    induction l with
    | nil => rfl
    | cons y l ih =>
        have hy : ¬ Rank name (m, s) y := by
          intro h
          have := h.le
          have := hl y (by simp)
          omega
        rw [List.orderedInsert_of_not_le _ _ hy, ih fun x hx => hl x (by simp [hx])]
        rfl
  simp only [zaddNx, hm, ↓reduceDIte]
  exact key z.rows hs

end ZSet

/-! ## Filling up -/

section
variable [DecidableEq α]

/-- `x` at the end of the list, unless it is there already. -/
def insertLast (xs : List α) (x : α) : List α := if x ∈ xs then xs else xs ++ [x]

/-- The list with those of `ys` that it lacks at its end, in their order. -/
def fillUp (xs ys : List α) : List α := ys.foldl insertLast xs

variable {xs ys : List α}

@[simp] theorem mem_insertLast {x y : α} : y ∈ insertLast xs x ↔ y ∈ xs ∨ y = x := by
  unfold insertLast
  split
  · rename_i hx
    exact ⟨.inl, fun h => h.elim id fun he => he ▸ hx⟩
  · simp

@[simp] theorem fillUp_nil : fillUp xs [] = xs := rfl

theorem fillUp_cons {y : α} : fillUp xs (y :: ys) = fillUp (insertLast xs y) ys := rfl

theorem fillUp_of_subset (h : ∀ y ∈ ys, y ∈ xs) : fillUp xs ys = xs := by
  induction ys with
  | nil => rfl
  | cons y ys ih =>
      rw [fillUp_cons, insertLast, if_pos (h y (by simp))]
      exact ih fun y hy => h y (by simp [hy])

/-- What is there already may be left out. -/
theorem fillUp_filter {zs : List α} (h : ∀ z ∈ zs, z ∈ xs) : fillUp xs (ys.filter (· ∉ zs)) = fillUp xs ys := by
  induction ys generalizing xs with
  | nil => rfl
  | cons y ys ih =>
      by_cases hy : y ∈ zs
      · rw [List.filter_cons_of_neg (by simpa using hy), fillUp_cons, insertLast, if_pos (h y hy)]
        exact ih h
      · rw [List.filter_cons_of_pos (by simpa using hy), fillUp_cons, fillUp_cons]
        exact ih fun z hz => mem_insertLast.mpr (.inl (h z hz))

/-- Only what is missing counts. -/
theorem fillUp_congr {zs : List α} (h : ys.filter (· ∉ xs) = zs.filter (· ∉ xs)) : fillUp xs ys = fillUp xs zs := by
  have hself : ∀ ws : List α, fillUp xs (ws.filter (· ∉ xs)) = fillUp xs ws := fun _ => fillUp_filter fun _ hx => hx
  rw [← hself ys, h, hself zs]

theorem filter_insertLast {y : α} : ys.filter (· ∉ insertLast xs y) = (ys.filter (· ∉ xs)).filter (· ≠ y) := by
  rw [List.filter_filter]
  exact List.filter_congr fun z _ => by simp [not_or, and_comm]

theorem ZSet.members_zaddNx_of_gt {name : α → String} {z : ZSet name} {m : α} {s : Int}
    (hs : ∀ x ∈ z.rows, x.2 < s) : (z.zaddNx m s).members = insertLast z.members m := by
  by_cases hm : m ∈ z
  · rw [zaddNx_of_mem hm]
    exact (if_pos hm).symm
  · rw [members, rows_zaddNx_of_gt hm hs, List.map_append]
    exact (if_neg hm).symm

end

end Redis
