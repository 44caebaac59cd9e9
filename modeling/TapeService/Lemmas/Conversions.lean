import TapeService.Python

/-!
# Conversions that fail

Which exceptions `int` and item access raise, for each shape of a JSON value.
-/

namespace Python

/-- An infinite float, such as `Infinity` and `1e999`. -/
def Json.Infinite (v : Json) : Prop := ∃ negative, v = .float (.inf negative)

variable {v : Json} {key : String} {e : Error}

theorem Json.toInt_error (h : v.toInt = .error e) : e = .typeError ∨ e = .valueError ∨ e = .overflowError := by
  cases v with
  | float x =>
      cases x with
      | finite m k => cases h
      | inf negative => cases h; exact .inr (.inr rfl)
      | nan => cases h; exact .inr (.inl rfl)
  | str s =>
      simp only [Json.toInt] at h
      split at h
      · cases h; exact .inr (.inl rfl)
      · split at h
        · cases h
        · cases h; exact .inr (.inl rfl)
  | int n => cases h
  | bool b => cases h
  | _ => cases h; exact .inl rfl

theorem Json.toInt_eq_overflowError : v.toInt = .error .overflowError ↔ v.Infinite := by
  constructor
  · intro h
    cases v with
    | float x =>
        cases x with
        | inf negative => exact ⟨negative, rfl⟩
        | _ => cases h
    | str s =>
        simp only [Json.toInt] at h
        split at h
        · cases h
        · split at h <;> cases h
    | _ => cases h
  · rintro ⟨negative, rfl⟩
    rfl

theorem Json.getItem_error (h : v.getItem key = .error e) : e = .keyError ∨ e = .typeError := by
  cases v with
  | obj fields =>
      simp only [Json.getItem] at h
      split at h
      · cases h
      · cases h; exact .inl rfl
  | _ => cases h; exact .inr rfl

theorem raised_of_bind {α β : Type} {x : Except Error α} {f : α → Except Error β} (h : x >>= f = .error e) :
    x = .error e ∨ ∃ a, f a = .error e := by
  cases x with
  | ok a => exact .inr ⟨a, h⟩
  | error e' => cases h; exact .inl rfl

/-- `int(value[key])`. -/
def Json.intItem (v : Json) (key : String) : Except Error Int := do (← v.getItem key).toInt

theorem Json.intItem_error (h : v.intItem key = .error e) :
    e = .keyError ∨ e = .typeError ∨ e = .valueError ∨ e = .overflowError := by
  rcases raised_of_bind h with h | ⟨x, h⟩
  · exact (Json.getItem_error h).imp id .inl
  · exact .inr (Json.toInt_error h)

theorem Json.intItem_eq_overflowError :
    v.intItem key = .error .overflowError ↔ ∃ x, v.getItem key = .ok x ∧ x.Infinite := by
  cases hx : v.getItem key with
  | error e =>
      rw [Json.intItem, hx]
      constructor
      · intro h
        cases h
        exact absurd (Json.getItem_error hx) (by simp)
      · rintro ⟨x, h, -⟩
        cases h
  | ok x =>
      rw [Json.intItem, hx]
      constructor
      · exact fun h => ⟨x, rfl, Json.toInt_eq_overflowError.mp h⟩
      · rintro ⟨x', h, hinf⟩
        cases h
        exact Json.toInt_eq_overflowError.mpr hinf

/-! ## Items that are set -/

theorem Json.getItem_setItem_of_ne {v' x : Json} {k : String} (h : v.setItem key x = .ok v') (hk : k ≠ key) :
    v'.getItem k = v.getItem k := by
  cases v with
  | obj fields =>
      have hother : ∀ f : String × Json, (if f.1 = key then (key, x) else f).1 = f.1 := by
        intro f
        split
        · rename_i hf
          exact hf.symm
        · rfl
      have hfind : ∀ fs : List (String × Json),
          ((fs.map fun f => if f.1 = key then (key, x) else f).find? fun f => f.1 = k) =
            fs.find? fun f => f.1 = k := by
        intro fs
        induction fs with
        | nil => rfl
        | cons f fs ih =>
            rw [List.map_cons, List.find?_cons, List.find?_cons, hother, ih]
            split
            · rename_i hf
              have hne : f.1 ≠ key := fun he => hk ((of_decide_eq_true hf).symm.trans he)
              rw [if_neg hne]
            · rfl
      simp only [Json.setItem] at h
      split at h
      · cases h
        simp only [Json.getItem, hfind]
      · cases h
        have hlast : ([(key, x)] : List (String × Json)).find? (fun f => f.1 = k) = none := by
          simpa using Ne.symm hk
        simp only [Json.getItem, List.find?_append, hlast, Option.or_none]
  | _ => cases h

end Python
