import TapeService.Interleaving.Sequential
import TapeService.Lemmas.Pages

/-!
# The functions when nothing interferes

What each function returns and leaves behind when it runs alone and every call is answered.
-/

namespace TapeService

open Interleaving Interleaving.Program Python

variable {s s' : State} {userId : Int}

@[simp] theorem ask_eval (c : Call) (s : State) : (ask c).eval exec s = exec c s := by
  rw [ask, eval_perform]

/-! ## Reads of the store -/

theorem getConfigSources_eval :
    (getConfigSources userId).eval exec s = (.ok ((s.sourceSet userId).insertionSort (· ≤ ·)), s) := rfl

theorem maxPosition_eval :
    (maxPosition userId).eval exec s = (.ok ((((s.tape userId).rows.getLast?).map Prod.snd).getD (-1)), s) := by
  have hlast : (Client.zrange (entriesKey userId) (-1) (-1)).eval exec s =
      (.ok (s.tape userId).rows.getLast?.toList, s) := by
    rw [← Redis.ZSet.zrange_last]
    rfl
  unfold maxPosition
  rw [eval_bind_ok hlast]
  cases (s.tape userId).rows.getLast? <;> rfl

/-- With a limit of at least 1, a page is made of the first entries beyond the cursor. -/
theorem listEntriesPage_eval {after : Option Nat} {limit : Int} (hl : 1 ≤ limit) :
    (listEntriesPage userId (after.map Int.ofNat) limit).eval exec s =
      (.ok ((Keyset.page Prod.snd (after.map Int.ofNat) limit.toNat (s.tape userId).rows).map Prod.swap), s) := by
  cases after with
  | none =>
      have hrows : (Client.zrange (entriesKey userId) 0 (limit - 1)).eval exec s =
          (.ok (Keyset.page Prod.snd none limit.toNat (s.tape userId).rows), s) := by
        rw [← zrange_page hl]
        rfl
      exact eval_bind_ok hrows _
  | some a =>
      have hrows : (Client.zrangebyscore (entriesKey userId) (Int.ofNat a) limit).eval exec s =
          (.ok (Keyset.page Prod.snd (some (Int.ofNat a)) limit.toNat (s.tape userId).rows), s) := by
        rw [← zrangebyscore_page hl]
        rfl
      exact eval_bind_ok hrows _

/-- Whatever else it does, the loop over the rows shows those that come with a document and have no score. -/
theorem pageItems_entries {displayMode : String} {docs : List Document} {alreadyScored : List Int}
    {rolesBySrc : List (Int × List RoleRef)} {rows : List (Int × Int)} {items : List TapeItem} {s s' : State}
    (h : (pageItems userId displayMode docs alreadyScored rolesBySrc rows).eval exec s = (.ok items, s')) :
    items.map TapeItem.entry = shownRows docs alreadyScored (rows.map Prod.swap) := by
  induction rows generalizing s items with
  | nil =>
      cases h
      rfl
  | cons row rows ih =>
      obtain ⟨position, docId⟩ := row
      unfold pageItems at h
      split at h
      · rename_i hscored
        rw [List.map_cons, shownRows_cons_of_scored hscored]
        obtain ⟨removed, s₁, -, h⟩ := eval_bind_eq_ok h
        split at h
        · obtain ⟨-, s₂, -, h⟩ := eval_bind_eq_ok h
          exact ih h
        · exact ih h
      · rename_i hscored
        cases hd : docs.find? (·.id = docId) with
        | none =>
            simp only [hd] at h
            rw [List.map_cons, shownRows_cons_of_missing hd]
            exact ih h
        | some d =>
            simp only [hd] at h
            obtain ⟨items', s₁, hitems, h⟩ := eval_bind_eq_ok h
            cases h
            have hid : d.id = docId := by simpa using List.find?_some hd
            have hentry : (tapeItem displayMode rolesBySrc position d).entry = (docId, position) := by
              simp [TapeItem.entry, tapeItem, hid]
            rw [List.map_cons, List.map_cons, hentry, ih hitems]
            exact (shownRows_cons hscored hd).symm

section
variable [DatetimeLib]

theorem getConfig_eval :
    (getConfig userId).eval exec s =
      (if (s.cfg userId).entries = [] then .ok none else (decodeConfig userId (s.cfg userId)).map some, s) := by
  have hraw : (Client.hgetall (cfgKey userId)).eval exec s = (.ok (s.cfg userId), s) := rfl
  unfold getConfig
  rw [eval_bind_ok hraw]
  split
  · rfl
  · cases hcfg : decodeConfig userId (s.cfg userId) with
    | ok cfg => rfl
    | error e => rfl

end

end TapeService
