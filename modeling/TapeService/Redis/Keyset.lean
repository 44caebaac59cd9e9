import Mathlib.Data.List.Basic
import Mathlib.Order.Lattice

/-!
# Paging by key

A client pages through rows that are listed by an increasing key: it asks for the next rows beyond the key
of the last row that it got. The rows may be others for every page. What is among them all the time is got
exactly once.
-/

namespace Keyset

variable {α κ : Type} (key : α → κ)

/-- The cursor for the next page: a page that is not full is the last one. -/
def next (n : Nat) (xs : List α) : Option κ := if xs.length = n then xs.getLast?.map key else none

variable {key} in
theorem exists_of_next {n : Nat} {xs : List α} {a : κ} (h : next key n xs = some a) :
    xs.length = n ∧ ∃ y, xs.getLast? = some y ∧ key y = a := by
  simpa [next] using h

variable [LinearOrder κ]

/-- The row lies beyond the cursor. -/
def Beyond (after : Option κ) (x : α) : Prop := ∀ a ∈ after, a < key x

instance (after : Option κ) (x : α) : Decidable (Beyond key after x) :=
  inferInstanceAs (Decidable (∀ a ∈ after, _))

/-- The first `n` rows beyond the cursor. -/
def page (after : Option κ) (n : Nat) (rows : List α) : List α := (rows.filter fun x => Beyond key after x).take n

/-- The rows are listed by their keys. -/
def Increasing (rows : List α) : Prop := rows.Pairwise fun x y => key x < key y

variable {key} {after : Option κ} {n : Nat} {rows : List α} {x : α} {a : κ}

theorem page_sublist : (page key after n rows).Sublist rows :=
  (List.take_sublist _ _).trans List.filter_sublist

theorem beyond_of_mem_page (h : x ∈ page key after n rows) : Beyond key after x := by
  simpa using (List.mem_filter.mp (List.mem_of_mem_take h)).2

theorem le_next (hs : Increasing key rows) (h : next key n (page key after n rows) = some a)
    (hx : x ∈ page key after n rows) : key x ≤ a := by
  obtain ⟨-, y, hy, rfl⟩ := exists_of_next h
  obtain ⟨front, hfront⟩ := List.getLast?_eq_some_iff.mp hy
  have hpage : Increasing key (page key after n rows) := hs.sublist page_sublist
  rw [hfront] at hx hpage
  rcases List.mem_append.mp hx with hx | hx
  · exact le_of_lt ((List.pairwise_append.mp hpage).2.2 x hx y (by simp))
  · rw [List.mem_singleton.mp hx]

theorem lt_next (h : next key n (page key after n rows) = some a) : ∀ b ∈ after, b < a := by
  obtain ⟨-, y, hy, rfl⟩ := exists_of_next h
  exact beyond_of_mem_page (List.mem_of_getLast? hy)

/-- What the page misses comes after a row that yields the cursor. -/
theorem exists_next_of_missed {R : α → α → Prop} (hn : 1 ≤ n) (hs : rows.Pairwise R) (hx : x ∈ rows)
    (hb : Beyond key after x) (hmiss : x ∉ page key after n rows) :
    ∃ y, next key n (page key after n rows) = some (key y) ∧ R y x := by
  have hfilter : x ∈ rows.filter fun x => Beyond key after x := by simp [hx, hb]
  have hdrop : x ∈ (rows.filter fun x => Beyond key after x).drop n := by
    rw [← List.take_append_drop n (rows.filter fun x => Beyond key after x), List.mem_append] at hfilter
    exact hfilter.resolve_left hmiss
  have hlen : (page key after n rows).length = n := by
    have := List.length_pos_of_mem hdrop
    rw [List.length_drop] at this
    rw [page, List.length_take]
    omega
  have hne : page key after n rows ≠ [] := by
    rw [← List.length_pos_iff]
    omega
  refine ⟨(page key after n rows).getLast hne, ?_, ?_⟩
  · rw [next, if_pos hlen, List.getLast?_eq_some_getLast hne]
    rfl
  · have hall : (rows.filter fun x => Beyond key after x).Pairwise R := hs.sublist List.filter_sublist
    rw [← List.take_append_drop n (rows.filter fun x => Beyond key after x)] at hall
    exact (List.pairwise_append.mp hall).2.2 _ (List.getLast_mem hne) x hdrop

/-- What the page misses lies beyond the cursor that it yields. -/
theorem next_of_missed (hn : 1 ≤ n) (hs : Increasing key rows) (hx : x ∈ rows) (hb : Beyond key after x)
    (hmiss : x ∉ page key after n rows) : ∃ a, next key n (page key after n rows) = some a ∧ a < key x := by
  obtain ⟨y, hy, hlt⟩ := exists_next_of_missed hn hs hx hb hmiss
  exact ⟨key y, hy, hlt⟩

/-! ## The whole walk -/

/-- The pages that a client gets from a cursor on, where the rows satisfy `P` whenever a page is read. -/
inductive Walk (key : α → κ) (P : List α → Prop) : Option κ → List (List α) → Prop
  | last {after : Option κ} {n : Nat} {rows : List α} (hn : 1 ≤ n) (hrows : P rows)
      (hnext : next key n (page key after n rows) = none) : Walk key P after [page key after n rows]
  | step {after : Option κ} {n : Nat} {rows : List α} {a : κ} {pages : List (List α)} (hn : 1 ≤ n) (hrows : P rows)
      (hnext : next key n (page key after n rows) = some a) (hrest : Walk key P (some a) pages) :
      Walk key P after (page key after n rows :: pages)

variable {P : List α → Prop} {pages : List (List α)}

theorem Walk.beyond (h : Walk key P after pages) : ∀ x ∈ pages.flatten, Beyond key after x := by
  induction h with
  | last hn hrows hnext => simpa using fun x hx => beyond_of_mem_page hx
  | step hn hrows hnext _ ih =>
      intro x hx
      rcases List.mem_append.mp hx with hx | hx
      · exact beyond_of_mem_page hx
      · exact fun b hb => lt_trans (lt_next hnext b hb) (ih x hx _ rfl)

/-- The keys go up over all pages. -/
theorem Walk.increasing (hP : ∀ rows, P rows → Increasing key rows) (h : Walk key P after pages) :
    Increasing key pages.flatten := by
  induction h with
  | last hn hrows hnext => simpa [Increasing] using (hP _ hrows).sublist page_sublist
  | step hn hrows hnext hrest ih =>
      refine List.pairwise_append.mpr ⟨(hP _ hrows).sublist page_sublist, ih, fun x hx y hy => ?_⟩
      exact lt_of_le_of_lt (le_next (hP _ hrows) hnext hx) (hrest.beyond y hy _ rfl)

/-- A row that is there whenever a page is read is in exactly one page. -/
theorem Walk.once [BEq α] [LawfulBEq α] (hP : ∀ rows, P rows → Increasing key rows ∧ x ∈ rows)
    (h : Walk key P after pages) (hx : Beyond key after x) : pages.countP (x ∈ ·) = 1 := by
  induction h with
  | @last after n rows hn hrows hnext =>
      obtain ⟨hs, hmem⟩ := hP _ hrows
      have hpage : x ∈ page key after n rows := by
        by_contra hmiss
        obtain ⟨a, ha, -⟩ := next_of_missed hn hs hmem hx hmiss
        rw [hnext] at ha
        cases ha
      simp [hpage]
  | @step after n rows a pages hn hrows hnext hrest ih =>
      obtain ⟨hs, hmem⟩ := hP _ hrows
      by_cases hpage : x ∈ page key after n rows
      · have hlater : pages.countP (x ∈ ·) = 0 := by
          refine List.countP_eq_zero.mpr fun xs hxs hin => ?_
          have := hrest.beyond x (List.mem_flatten.mpr ⟨xs, hxs, by simpa using hin⟩) a rfl
          exact absurd (le_next hs hnext hpage) (not_le.mpr this)
        rw [List.countP_cons_of_pos (by simpa using hpage), hlater]
      · obtain ⟨b, hb, hlt⟩ := next_of_missed hn hs hmem hx hpage
        rw [hnext] at hb
        cases hb
        rw [List.countP_cons_of_neg (by simpa using hpage)]
        refine ih fun c hc => ?_
        cases hc
        exact hlt

end Keyset
