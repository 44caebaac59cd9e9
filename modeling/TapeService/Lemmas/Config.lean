import TapeService.Lemmas.Effects

/-!
# The config of a user

What the writes to the config hash leave of it, and that the record decoded from it depends on nothing else
than its fields.
-/

namespace TapeService

open Interleaving Python

namespace Hash

variable {h : Hash} {field : String}

theorem get_insert (key value : String) :
    Hash.get (AList.insert key value h) field = if field = key then some value else h.get field := by
  unfold Hash.get
  split
  · rename_i he
    subst he
    exact AList.lookup_insert h
  · rename_i hne
    exact AList.lookup_insert_ne hne

theorem get_hset_dirty (value : String) :
    (h.hset [("dirty", value)]).get field = if field = "dirty" then some value else h.get field :=
  get_insert _ _

theorem hset_dirty_entries {value : String} : (h.hset [("dirty", value)]).entries ≠ [] := by
  intro hnil
  have hget : (h.hset [("dirty", value)]).get "dirty" = some value := (get_hset_dirty value).trans (if_pos rfl)
  have hempty : h.hset [("dirty", value)] = ∅ := AList.ext hnil
  rw [hempty] at hget
  cases hget

theorem get_hset_of_not_mem {mapping : List (String × String)} (hf : field ∉ mapping.map Prod.fst) :
    (h.hset mapping).get field = h.get field := by
  induction mapping generalizing h with
  | nil => rfl
  | cons x mapping ih =>
      simp only [List.map_cons, List.mem_cons, not_or] at hf
      rw [hset, List.foldl_cons]
      exact (ih hf.2).trans ((get_insert _ _).trans (if_neg hf.1))

/-- A field that is written once is what was written. -/
theorem get_hset_of_mem {mapping : List (String × String)} (hnodup : (mapping.map Prod.fst).Nodup)
    {x : String × String} (hx : x ∈ mapping) : (h.hset mapping).get x.1 = some x.2 := by
  induction mapping generalizing h with
  | nil => cases hx
  | cons y mapping ih =>
      simp only [List.map_cons, List.nodup_cons] at hnodup
      rw [hset, List.foldl_cons]
      rcases List.mem_cons.mp hx with rfl | hx
      · exact (get_hset_of_not_mem hnodup.1).trans ((get_insert _ _).trans (if_pos rfl))
      · exact ih hnodup.2 hx

end Hash

variable {userId : Int} {c : Call} {s : State}

/-- Apart from the dirty flag, a field changes when the config is written only. -/
theorem exec_cfg_get (hc : ∀ mapping, c = .hset (cfgKey userId) mapping → mapping = [("dirty", "0")])
    {field : String} (hf : field ≠ "dirty") :
    ((exec c s).2.cfg userId).get field = (s.cfg userId).get field := by
  by_cases he : c.EditsCfg userId
  · cases c with
    | hset key mapping =>
        obtain rfl : key = cfgKey userId := he
        obtain rfl := hc mapping rfl
        simp [exec, State.cfg, State.setHash, put_self, Hash.get_hset_dirty, hf]
    | multiReplaceSources key ids hashKey =>
        obtain rfl : hashKey = cfgKey userId := he
        simp [exec, State.cfg, State.setHash, State.setSet, put_self, Hash.get_hset_dirty, hf]
    | _ => exact he.elim
  · rw [exec_cfg he]

section
variable [DatetimeLib]

theorem Hash.get_configMapping_dirty {h : Hash} {ordering : Ordering} {displayMode : DisplayMode}
    {pageSize : Int} {dateFrom dateTo : Option Datetime} :
    (h.hset (configMapping ordering displayMode pageSize dateFrom dateTo)).get "dirty" = some "1" := by
  simp only [Hash.hset, configMapping, List.foldl_cons, List.foldl_nil]
  rw [Hash.get_insert, if_pos rfl]

/-- Hashes that differ in the dirty flag at most are decoded alike. -/
theorem decodeConfig_congr {h h' : Hash} (hget : ∀ field, field ≠ "dirty" → h'.get field = h.get field) :
    decodeConfig userId h' =
      (decodeConfig userId h).map fun cfg => { cfg with dirty := h'.get "dirty" = some "1" } := by
  simp only [decodeConfig, hget "page_size" (by decide), hget "date_from" (by decide), hget "date_to" (by decide),
    hget "ordering" (by decide), hget "display_mode" (by decide)]
  cases valueOr (Python.int ((h.get "page_size").getD "20")) with
  | error e => rfl
  | ok pageSize =>
      cases isoOrNone (h.get "date_from") with
      | error e => rfl
      | ok dateFrom => cases isoOrNone (h.get "date_to") <;> rfl

/-- A config stays readable when its dirty flag is cleared. -/
theorem decodeConfig_clean {h : Hash} {cfg : TapeConfig} (hdec : decodeConfig userId h = .ok cfg) :
    decodeConfig userId (h.hset [("dirty", "0")]) = .ok { cfg with dirty := false } := by
  rw [decodeConfig_congr fun field hf => (Hash.get_hset_dirty "0").trans (if_neg hf), hdec, Hash.get_hset_dirty]
  rfl

end

end TapeService
