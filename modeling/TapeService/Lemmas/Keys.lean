import TapeService.Model.Worker

/-!
# The keys of the store

The names of all keys are texts of one flat key space. No two keys share a name, so the store is the same as one
map for each type of value, and the user of a config is read off the name of its hash.
-/

namespace TapeService

open Python

/-! ## Names -/

inductive StoreKey where
  | cfg (userId : Int)
  | cfgSources (userId : Int)
  | entries (userId : Int)
  | runs (userId : Int)
  | lock (userId : Int)
  | runCounter
  deriving DecidableEq

def StoreKey.name : StoreKey → String
  | .cfg userId => cfgKey userId
  | .cfgSources userId => cfgSourcesKey userId
  | .entries userId => entriesKey userId
  | .runs userId => runsKey userId
  | .lock userId => lockKey userId
  | .runCounter => runCounterKey

/-- The text of a number is made of digits, after a minus sign at most. -/
theorem mem_toString {n : Int} {c : Char} (h : c ∈ (toString n).toList) : c.isDigit ∨ c = '-' := by
  have hd : ∀ (m : Nat), c ∈ m.repr.toList → c.isDigit := by
    intro m hc
    rw [Nat.toList_repr] at hc
    exact Nat.isDigit_of_mem_toDigits (by decide) (by decide) hc
  rw [Int.toString_eq_repr, Int.repr_eq_if] at h
  split at h
  · exact .inl (hd _ h)
  · rw [String.toList_append, List.mem_append] at h
    rcases h with h | h
    · right
      simpa using h
    · exact .inl (hd _ h)

/-- No number starts like the `src:` of a source set. -/
theorem repr_ne_src {n : Int} {cs : List Char} : n.repr.toList ≠ 's' :: cs := by
  intro h
  have hs : 's' ∈ (toString n).toList := by
    rw [Int.toString_eq_repr, h]
    exact List.mem_cons_self
  exact absurd (mem_toString hs) (by decide)

theorem repr_toList_inj {m n : Int} : m.repr.toList = n.repr.toList ↔ m = n := by
  rw [String.toList_inj, ← Int.toString_eq_repr, ← Int.toString_eq_repr, toString_inj]

theorem StoreKey.name_injective : Function.Injective StoreKey.name := by
  intro k k' h
  replace h := congrArg String.toList h
  -- Two names of one family differ in their number, the others within their first words.
  cases k <;> cases k' <;>
    simp_all [StoreKey.name, cfgKey, cfgSourcesKey, entriesKey, runsKey, lockKey, runCounterKey,
      String.toList_append, repr_toList_inj, repr_ne_src, repr_ne_src.symm]

/-! ## The users that a tick serves -/

theorem startsWith_cfgSourcesKey {userId : Int} : startsWith (cfgSourcesKey userId) "tape:cfg:src:" = true := by
  simp [startsWith, cfgSourcesKey, String.toList_append]

theorem startsWith_cfgKey {userId : Int} : startsWith (cfgKey userId) "tape:cfg:src:" = false := by
  cases h : userId.repr.toList with
  | nil => simp [startsWith, cfgKey, String.toList_append, h]
  | cons c cs =>
      have hc : 's' ≠ c := by
        rintro rfl
        exact repr_ne_src h
      simp [startsWith, cfgKey, String.toList_append, h, List.isPrefixOf, hc]

/-- The user whose config hash has the name. -/
def listedUser? (key : String) : Option Int :=
  if startsWith key "tape:cfg:src:" then none else Python.int (removePrefix key "tape:cfg:")

theorem listedUser?_cfgKey {userId : Int} : listedUser? (cfgKey userId) = some userId := by
  rw [listedUser?, startsWith_cfgKey, cfgKey, removePrefix_append, int_toString]
  rfl

theorem listedUser?_cfgSourcesKey {userId : Int} : listedUser? (cfgSourcesKey userId) = none :=
  if_pos startsWith_cfgSourcesKey

end TapeService
