import Mathlib.Algebra.Order.Monoid.Defs
import Mathlib.Data.List.Chain
import Mathlib.Data.List.Induction

/-!
# Leases

A lease ends a fixed time after it has been granted, and it ends when it has not been used for a while. A use
renews it as long as it has not ended, and a lease that has ended or has been revoked does not come back.
-/

namespace Leases

variable {α τ : Type}

inductive Act (α : Type) where
  | grant (owner : α)
  | use
  | revoke

structure Lease (α τ : Type) where
  owner : α
  granted : τ
  used : τ

/-- The last element of a list is the one in question, or one of those after it. -/
theorem concat_eq {β : Type} {xs before after : List β} {x y : β} (h : xs ++ [x] = before ++ y :: after) :
    after = [] ∧ x = y ∨ ∃ after', after = after' ++ [x] ∧ xs = before ++ y :: after' := by
  induction after using List.reverseRecOn with
  | nil => exact .inl ⟨rfl, List.head_eq_of_cons_eq (List.append_inj' h rfl).2⟩
  | append_singleton after' z =>
      have h : xs ++ [x] = (before ++ y :: after') ++ [z] := by rw [h, List.append_assoc]; rfl
      obtain ⟨hxs, hx⟩ := List.append_inj' h rfl
      obtain rfl := List.head_eq_of_cons_eq hx
      exact .inr ⟨after', rfl, hxs⟩

variable [LinearOrder τ] [Add τ] (idle absolute : τ)

/-- The lease has not ended. -/
def Alive (now : τ) (l : Lease α τ) : Prop := now < l.used + idle ∧ now < l.granted + absolute

instance (now : τ) (l : Lease α τ) : Decidable (Alive idle absolute now l) := inferInstanceAs (Decidable (_ ∧ _))

def step (l : Option (Lease α τ)) (x : τ × Act α) : Option (Lease α τ) :=
  match x.2 with
  | .grant owner => some { owner, granted := x.1, used := x.1 }
  | .use => (l.filter fun l => Alive idle absolute x.1 l).map fun l => { l with used := x.1 }
  | .revoke => none

/-- What is left of the lease after the acts. -/
def run (acts : List (τ × Act α)) : Option (Lease α τ) := acts.foldl (step idle absolute) none

/-- The acts have kept the lease alive. -/
structure Renews (l : Lease α τ) (acts : List (τ × Act α)) : Prop where
  uses : ∀ x ∈ acts, x.2 = .use
  gaps : (l.granted :: acts.map Prod.fst).IsChain fun a b => b < a + idle
  within : ∀ x ∈ acts, x.1 < l.granted + absolute
  last : (l.granted :: acts.map Prod.fst).getLast? = some l.used

variable {idle absolute} {acts : List (τ × Act α)} {l : Lease α τ} {now : τ}

theorem run_append {more : List (τ × Act α)} :
    run idle absolute (acts ++ more) = more.foldl (step idle absolute) (run idle absolute acts) :=
  List.foldl_append

theorem run_concat {x : τ × Act α} :
    run idle absolute (acts ++ [x]) = step idle absolute (run idle absolute acts) x :=
  run_append

theorem Renews.nil {owner : α} {t : τ} : Renews idle absolute ⟨owner, t, t⟩ [] where
  uses _ h := by cases h
  gaps := List.isChain_singleton _
  within _ h := by cases h
  last := rfl

theorem renews_concat :
    Renews idle absolute l (acts ++ [(now, .use)]) ↔
      l.used = now ∧
        ∃ used, Renews idle absolute { l with used } acts ∧ Alive idle absolute now { l with used } := by
  have htimes : l.granted :: (acts ++ [(now, Act.use)]).map Prod.fst = (l.granted :: acts.map Prod.fst) ++ [now] := by
    simp
  constructor
  · intro h
    have hgaps := h.gaps
    have hlast := h.last
    rw [htimes, List.isChain_append] at hgaps
    rw [htimes, List.getLast?_concat] at hlast
    obtain ⟨used, hused⟩ : ∃ used, (l.granted :: acts.map Prod.fst).getLast? = some used := ⟨_, List.getLast?_cons⟩
    refine ⟨(Option.some.inj hlast).symm, used, ?_, hgaps.2.2 used hused now rfl, ?_⟩
    · exact ⟨fun x hx => h.uses x (List.mem_append_left _ hx), hgaps.1,
        fun x hx => h.within x (List.mem_append_left _ hx), hused⟩
    · exact h.within (now, .use) (by simp)
  · rintro ⟨hnow, used, h, hidle, habsolute⟩
    refine ⟨fun x hx => ?_, ?_, fun x hx => ?_, ?_⟩
    · rcases List.mem_append.mp hx with hx | hx
      · exact h.uses x hx
      · rw [List.mem_singleton.mp hx]
    · rw [htimes, List.isChain_append]
      refine ⟨h.gaps, List.isChain_singleton _, fun a ha b hb => ?_⟩
      obtain rfl : used = a := Option.some.inj (h.last.symm.trans ha)
      obtain rfl : now = b := Option.some.inj hb
      exact hidle
    · rcases List.mem_append.mp hx with hx | hx
      · exact h.within x hx
      · rw [List.mem_singleton.mp hx]
        exact habsolute
    · rw [htimes, List.getLast?_concat, hnow]

theorem step_use_of_alive (h : Alive idle absolute now l) :
    step idle absolute (some l) (now, .use) = some { l with used := now } := by
  simp [step, Option.filter, h]

theorem step_use_of_dead {l : Option (Lease α τ)} (h : ∀ l', l = some l' → ¬ Alive idle absolute now l') :
    step idle absolute l (now, .use) = none := by
  rw [step, Option.filter_eq_none_iff.mpr fun l' hl => by simpa using h l' hl]
  rfl

/-- A lease is there when a grant is followed by uses that keep it alive, and by nothing else. -/
theorem run_eq_some :
    run idle absolute acts = some l ↔
      ∃ before after, acts = before ++ (l.granted, .grant l.owner) :: after ∧ Renews idle absolute l after := by
  induction acts using List.reverseRecOn generalizing l with
  | nil => simp [run]
  | append_singleton acts x ih =>
      obtain ⟨t, act⟩ := x
      rw [run_concat]
      cases act with
      | grant owner =>
          constructor
          · rintro h
            obtain rfl : _ = l := Option.some.inj h
            exact ⟨acts, [], rfl, .nil⟩
          · rintro ⟨before, after, hacts, h⟩
            rcases concat_eq hacts with ⟨rfl, hx⟩ | ⟨after', rfl, -⟩
            · obtain ⟨o, g, u⟩ := l
              cases hx
              obtain rfl : g = u := Option.some.inj h.last
              rfl
            · cases h.uses (t, .grant owner) (by simp)
      | use =>
          constructor
          · intro h
            obtain ⟨l', hl', rfl⟩ := Option.map_eq_some_iff.mp h
            obtain ⟨hrun, halive⟩ := Option.filter_eq_some_iff.mp hl'
            obtain ⟨before, after, rfl, hrenews⟩ := ih.mp hrun
            have halive : Alive idle absolute t l' := by simpa using halive
            refine ⟨before, after ++ [(t, .use)], by simp, ?_⟩
            exact renews_concat.mpr ⟨rfl, l'.used, hrenews, halive⟩
          · rintro ⟨before, after, hacts, h⟩
            rcases concat_eq hacts with ⟨rfl, hx⟩ | ⟨after', rfl, rfl⟩
            · cases hx
            · obtain ⟨rfl, used, hrenews, halive⟩ := renews_concat.mp h
              have hrun : run idle absolute _ = some { l with used } := ih.mpr ⟨before, after', rfl, hrenews⟩
              rw [hrun]
              exact step_use_of_alive halive
      | revoke =>
          constructor
          · intro h
            cases h
          · rintro ⟨before, after, hacts, h⟩
            rcases concat_eq hacts with ⟨rfl, hx⟩ | ⟨after', rfl, -⟩
            · cases hx
            · cases h.uses (t, .revoke) (by simp)

/-- A lease is alive when it has been granted, has only been used since, its time is not over, and no gap between
two uses in a row, from the grant up to now, has been too long. -/
theorem alive_iff {owner : α} {start : τ} (hnow : ∀ x ∈ acts, x.1 ≤ now) :
    (∃ l, run idle absolute acts = some l ∧ Alive idle absolute now l ∧ l.owner = owner ∧ l.granted = start) ↔
      ∃ before after, acts = before ++ (start, .grant owner) :: after ∧ (∀ x ∈ after, x.2 = .use) ∧
        now < start + absolute ∧ (start :: after.map Prod.fst ++ [now]).IsChain fun a b => b < a + idle := by
  constructor
  · rintro ⟨l, hrun, ⟨hidle, habsolute⟩, rfl, rfl⟩
    obtain ⟨before, after, hacts, h⟩ := run_eq_some.mp hrun
    refine ⟨before, after, hacts, h.uses, habsolute, List.isChain_append.mpr ⟨h.gaps, List.isChain_singleton _, ?_⟩⟩
    intro a ha b hb
    obtain rfl : l.used = a := Option.some.inj (h.last.symm.trans ha)
    obtain rfl : now = b := Option.some.inj hb
    exact hidle
  · rintro ⟨before, after, hacts, huses, habsolute, hgaps⟩
    obtain ⟨hgaps, -, hlast⟩ := List.isChain_append.mp hgaps
    obtain ⟨used, hused⟩ : ∃ used, (start :: after.map Prod.fst).getLast? = some used := ⟨_, List.getLast?_cons⟩
    refine ⟨⟨owner, start, used⟩, run_eq_some.mpr ⟨before, after, hacts, ?_⟩,
      ⟨hlast used hused now rfl, habsolute⟩, rfl, rfl⟩
    refine ⟨huses, hgaps, fun x hx => lt_of_le_of_lt (hnow x ?_) habsolute, hused⟩
    rw [hacts]
    exact List.mem_append_right _ (List.mem_cons_of_mem _ hx)

end Leases
