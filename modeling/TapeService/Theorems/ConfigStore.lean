import TapeService.Theorems.Isolation

/-!
# The config store

The hashes and the source sets refine a map from users to payloads: what `GET /config` shows of a user is
the payload of the last `PUT /config` that was accepted, marked until a full generation has taken it up.
-/

namespace TapeService

open Interleaving Interleaving.Program Python

section
variable [DatetimeLib]

/-! ## The map -/

/-- What is stored for a user: a payload, and whether it waits to be taken up. -/
structure Stored where
  payload : ConfigUpdate
  dirty : Bool

abbrev Store := Int → Option Stored

/-- What the store is told: a `PUT` with its answer, or a generation and whether it has rebuilt or wiped the
tape. -/
inductive StoreEvent where
  | accepted (userId : Int) (payload : ConfigUpdate)
  | rejected (userId : Int) (payload : ConfigUpdate)
  | generated (userId : Int) (dirty completed : Bool)
  | other

/-- The generation has taken up what was stored for the user. -/
def StoreEvent.TakesUp (userId : Int) : StoreEvent → Prop
  | .generated u dirty completed => u = userId ∧ dirty = true ∧ completed = true
  | _ => False

def StoreEvent.apply (m : Store) : StoreEvent → Store
  | .accepted userId payload => Function.update m userId (some { payload, dirty := true })
  | .generated userId true true => Function.update m userId ((m userId).map fun x => { x with dirty := false })
  | _ => m

/-- The map after the events, of which the last comes first. -/
def Store.of : List StoreEvent → Store
  | [] => fun _ => none
  | ev :: trace => ev.apply (Store.of trace)

/-- The payload that was accepted last. -/
def lastAccepted (userId : Int) : List StoreEvent → Option ConfigUpdate
  | [] => none
  | .accepted u payload :: trace => if u = userId then some payload else lastAccepted userId trace
  | _ :: trace => lastAccepted userId trace

/-- The events after the last `PUT` of the user that was accepted. -/
def sinceAccepted (userId : Int) : List StoreEvent → List StoreEvent
  | [] => []
  | .accepted u payload :: trace =>
      if u = userId then [] else .accepted u payload :: sinceAccepted userId trace
  | ev :: trace => ev :: sinceAccepted userId trace

/-! ## The runs -/

/-- The generation returns, having deleted the entries: for a rebuild, or because there are no sources. -/
def Completes (token : String) (userId : Int) (dirty : Bool) (s : State) : Prop :=
  (∃ a, ((generateForUser token userId dirty).eval exec s).1 = .ok a) ∧
    .multiZcardDel (entriesKey userId) ∈ (generateForUser token userId dirty).calls exec s

/-- The states that are reached from an empty store when the requests and the generations do not overlap.
Anything else may happen in between that leaves the configs as they are. -/
inductive StoreRun : State → List StoreEvent → Prop
  | start {s : State} (hhashes : ∀ key, s.redis.hashes key = ∅) (hsets : ∀ key, s.redis.sets key = []) :
      StoreRun s []
  | accept {s s' : State} {trace : List StoreEvent} {userId : Int} {payload : ConfigUpdate} {answer : ConfigResponse}
      (hrun : StoreRun s trace) (h : (writeConfig userId payload).eval exec s = (.ok answer, s')) :
      StoreRun s' (.accepted userId payload :: trace)
  | reject {s s' : State} {trace : List StoreEvent} {userId : Int} {payload : ConfigUpdate} {e : Exn}
      (hrun : StoreRun s trace) (h : (writeConfig userId payload).eval exec s = (.error e, s')) :
      StoreRun s' (.rejected userId payload :: trace)
  | generate {s s' : State} {trace : List StoreEvent} {userId : Int} {token : String} {dirty completed : Bool}
      {r : Except Exn (Kind × Nat)} (hrun : StoreRun s trace)
      (h : (generateForUser token userId dirty).eval exec s = (r, s'))
      (hdone : completed = true ↔ Completes token userId dirty s) :
      StoreRun s' (.generated userId dirty completed :: trace)
  | other {s s' : State} {trace : List StoreEvent} (hrun : StoreRun s trace)
      (hcfg : ∀ userId, s'.cfg userId = s.cfg userId)
      (hsources : ∀ userId, s'.sourceSet userId = s.sourceSet userId) :
      StoreRun s' (.other :: trace)

/-! ## What is shown -/

/-- The answer when there is no config. -/
structure ShowsDefaults (answer : ConfigResponse) : Prop where
  ordering : answer.ordering = "desc"
  displayMode : answer.displayMode = "compact"
  pageSize : answer.pageSize = 20
  dateFrom : answer.dateFrom = none
  dateTo : answer.dateTo = none
  dirty : answer.dirty = false
  selectedSourceIds : answer.selectedSourceIds = []

/-- The answer shows the payload; its sources are sorted and each comes once. -/
structure ShowsPayload (payload : ConfigUpdate) (answer : ConfigResponse) : Prop where
  ordering : answer.ordering = payload.ordering.text
  displayMode : answer.displayMode = payload.displayMode.text
  pageSize : answer.pageSize = payload.pageSize
  dateFrom : answer.dateFrom = payload.dateFrom
  dateTo : answer.dateTo = payload.dateTo
  sorted : answer.selectedSourceIds.Pairwise (· < ·)
  selected : ∀ id, id ∈ answer.selectedSourceIds ↔ id ∈ payload.selectedSourceIds

namespace ConfigStore

variable {userId : Int} {s s' : State} {payload : ConfigUpdate} {trace : List StoreEvent}

/-! ## The map and the events -/

theorem apply_of_ne {m : Store} {u : Int} (hu : u ≠ userId) :
    (StoreEvent.accepted u payload).apply m userId = m userId :=
  Function.update_of_ne (Ne.symm hu) _ _

theorem apply_generated {m : Store} {u : Int} {dirty completed : Bool} :
    (StoreEvent.generated u dirty completed).apply m userId =
      if u = userId ∧ dirty = true ∧ completed = true then (m userId).map fun x => { x with dirty := false }
      else m userId := by
  cases dirty <;> cases completed <;> try simp [StoreEvent.apply]
  by_cases hu : u = userId
  · subst hu
    simp
  · rw [Function.update_of_ne (Ne.symm hu), if_neg hu]

/-- What is stored is what was accepted last. -/
theorem of_payload : (Store.of trace userId).map (·.payload) = lastAccepted userId trace := by
  induction trace with
  | nil => rfl
  | cons ev trace ih =>
      rw [Store.of]
      cases ev with
      | accepted u payload =>
          rw [lastAccepted]
          split
          · rename_i hu
            subst hu
            simp [StoreEvent.apply]
          · rename_i hu
            rw [apply_of_ne hu, ih]
      | rejected u payload => exact ih
      | generated u dirty completed =>
          rw [apply_generated]
          simp only [lastAccepted, ← ih]
          split
          · cases Store.of trace userId <;> rfl
          · rfl
      | other => exact ih

/-- It is clean when something since then has taken it up. -/
theorem of_dirty {x : Stored} (h : Store.of trace userId = some x) :
    x.dirty = true ↔ ∀ ev ∈ sinceAccepted userId trace, ¬ ev.TakesUp userId := by
  induction trace generalizing x with
  | nil => cases h
  | cons ev trace ih =>
      rw [Store.of] at h
      cases ev with
      | accepted u payload =>
          rw [sinceAccepted]
          split
          · rename_i hu
            subst hu
            obtain rfl : { payload, dirty := true } = x := by simpa [StoreEvent.apply] using h
            simp
          · rename_i hu
            rw [apply_of_ne hu] at h
            simp [ih h, StoreEvent.TakesUp]
      | rejected u payload => simp [ih h, sinceAccepted, StoreEvent.TakesUp]
      | generated u dirty completed =>
          rw [apply_generated] at h
          simp only [sinceAccepted, List.forall_mem_cons]
          split at h
          · rename_i hup
            obtain ⟨y, -, rfl⟩ := Option.map_eq_some_iff.mp h
            simp [StoreEvent.TakesUp, hup]
          · rename_i hup
            rw [ih h]
            exact (and_iff_right hup).symm
      | other => simp [ih h, sinceAccepted, StoreEvent.TakesUp]

/-! ## What a hash and a set stand for -/

/-- The hash and the source set of a user stand for what is stored. -/
def Represents (x : Option Stored) (cfg : Hash) (sources : List Int) : Prop :=
  match x with
  | none => cfg = ∅ ∧ sources = []
  | some x => (∀ kv ∈ configMapping x.payload.ordering x.payload.displayMode x.payload.pageSize x.payload.dateFrom
      x.payload.dateTo, kv.1 ≠ "dirty" → cfg.get kv.1 = some kv.2) ∧
      cfg.get "dirty" = some (if x.dirty then "1" else "0") ∧ sources = x.payload.selectedSourceIds.dedup

/-- The record that is read. -/
def config (userId : Int) (x : Stored) : TapeConfig where
  userId
  ordering := x.payload.ordering.text
  displayMode := x.payload.displayMode.text
  pageSize := x.payload.pageSize
  dateFrom := x.payload.dateFrom
  dateTo := x.payload.dateTo
  dirty := x.dirty

theorem isoOrNone_isoformat (t : Option Datetime) :
    isoOrNone (some ((t.map DatetimeLib.isoformat).getD "")) = .ok t := by
  cases t with
  | none => rfl
  | some t =>
      simp [isoOrNone, DatetimeLib.isoformat_ne_empty, DatetimeLib.fromisoformat_isoformat, valueOr, Except.map]

variable {x : Stored} {o : Option Stored} {cfg : Hash} {sources : List Int}

theorem Represents.entries (h : Represents (some x) cfg sources) : cfg.entries ≠ [] := by
  intro hnil
  have hget := h.2.1
  have hempty : cfg = ∅ := AList.ext hnil
  rw [hempty] at hget
  cases hget

/-- Every field is decoded to what was written. -/
theorem Represents.decode (h : Represents (some x) cfg sources) :
    decodeConfig userId cfg = .ok (config userId x) := by
  obtain ⟨hfields, hdirty, -⟩ := h
  obtain ⟨hordering, hmode, hsize, hfrom, hto⟩ : cfg.get "ordering" = some x.payload.ordering.text ∧
      cfg.get "display_mode" = some x.payload.displayMode.text ∧
      cfg.get "page_size" = some (toString x.payload.pageSize) ∧
      cfg.get "date_from" = some ((x.payload.dateFrom.map DatetimeLib.isoformat).getD "") ∧
      cfg.get "date_to" = some ((x.payload.dateTo.map DatetimeLib.isoformat).getD "") := by
    simpa [configMapping] using hfields
  simp only [decodeConfig, hordering, hmode, hsize, hfrom, hto, hdirty, isoOrNone_isoformat, Option.getD_some,
    int_toString, valueOr]
  cases hx : x.dirty <;> simp [config, hx] <;> rfl

/-! ## The requests -/

omit [DatetimeLib] in
theorem hydrateSources_eval :
    ∃ available, (hydrateSources userId).eval exec s = (.ok (s.db.usersSources userId, available), s) := by
  have hallowed : (sourcesFor userId).eval exec s = (.ok (s.db.usersSources userId), s) := ask_eval _ s
  obtain ⟨names, hnames⟩ :
      ∃ names, (fetchSourceNames (s.db.usersSources userId)).eval exec s = (.ok names, s) := by
    unfold fetchSourceNames
    split
    · exact ⟨_, rfl⟩
    · exact ⟨_, ask_eval (.sourceNames _) s⟩
  exact ⟨_, (eval_bind_ok hallowed _).trans (eval_bind_ok hnames _)⟩

def Shows (answer : ConfigResponse) : Option Stored → Prop
  | none => ShowsDefaults answer
  | some x => ShowsPayload x.payload answer ∧ answer.dirty = x.dirty

/-- A request that reads the config shows what is stored. -/
theorem readConfig_eval (h : Represents o (s.cfg userId) (s.sourceSet userId)) :
    ∃ answer, (readConfig userId).eval exec s = (.ok answer, s) ∧ Shows answer o := by
  obtain ⟨available, havailable⟩ := @hydrateSources_eval userId s
  cases o with
  | none =>
      obtain ⟨hcfg, hsources⟩ := h
      have hread : (getConfig userId).eval exec s = (.ok none, s) := by
        rw [getConfig_eval, if_pos (by rw [hcfg]; rfl)]
      refine ⟨_, (eval_bind_ok hread _).trans ((eval_bind_ok getConfigSources_eval _).trans
        (eval_bind_ok havailable _)), ?_⟩
      exact ⟨rfl, rfl, rfl, rfl, rfl, rfl, by rw [hsources]; rfl⟩
  | some x =>
      have hread : (getConfig userId).eval exec s = (.ok (some (config userId x)), s) := by
        rw [getConfig_eval, if_neg h.entries, h.decode]
        rfl
      refine ⟨_, (eval_bind_ok hread _).trans ((eval_bind_ok getConfigSources_eval _).trans
        (eval_bind_ok havailable _)), ⟨rfl, rfl, rfl, rfl, rfl, ?_, fun id => ?_⟩, rfl⟩
      · rw [h.2.2]
        exact (List.sortedLE_insertionSort.sortedLT_of_nodup
          ((List.perm_insertionSort _ _).nodup_iff.mpr (List.nodup_dedup _))).pairwise
      · rw [h.2.2]
        simp

/-- What an accepted request leaves. -/
def written (userId : Int) (payload : ConfigUpdate) (s : State) : State :=
  (exec (.multiReplaceSources (cfgSourcesKey userId) payload.selectedSourceIds (cfgKey userId))
    (exec (.hset (cfgKey userId) (configMapping payload.ordering payload.displayMode payload.pageSize payload.dateFrom
      payload.dateTo)) s).2).2

theorem written_represents :
    Represents (some { payload, dirty := true }) ((written userId payload s).cfg userId)
      ((written userId payload s).sourceSet userId) := by
  have hcfg : (written userId payload s).cfg userId = ((s.cfg userId).hset (configMapping payload.ordering
      payload.displayMode payload.pageSize payload.dateFrom payload.dateTo)).hset [("dirty", "1")] := by
    simp [written, exec, State.cfg, State.setHash, State.setSet, put_self]
  refine ⟨fun kv hkv hne => ?_, ?_, ?_⟩
  · rw [hcfg, Hash.get_hset_dirty, if_neg hne]
    exact Hash.get_hset_of_mem (by simp [configMapping]) hkv
  · rw [hcfg, Hash.get_hset_dirty]
    rfl
  · simp [written, exec, State.sourceSet, State.setHash, State.setSet, put_self]

theorem written_of_ne {v : Int} (hv : v ≠ userId) :
    (written userId payload s).cfg v = s.cfg v ∧ (written userId payload s).sourceSet v = s.sourceSet v := by
  have hkey : cfgKey userId ≠ cfgKey v := fun h => hv (cfgKey_inj.mp h).symm
  have hset : cfgSourcesKey userId ≠ cfgSourcesKey v := fun h => hv (cfgSourcesKey_inj.mp h).symm
  refine ⟨Eq.trans (exec_cfg ?_) (exec_cfg ?_), Eq.trans (exec_sourceSet ?_) (exec_sourceSet id)⟩
  · exact hkey
  · exact hkey
  · exact hset

/-- A request is refused before it has written anything. -/
theorem writeConfig_eval :
    (∃ e, (writeConfig userId payload).eval exec s = (.error e, s)) ∨
      ∃ answer, (writeConfig userId payload).eval exec s = (.ok answer, written userId payload s) := by
  obtain ⟨available, havailable⟩ := @hydrateSources_eval userId s
  unfold writeConfig
  rw [eval_bind_ok havailable]
  dsimp only
  split
  · exact .inl ⟨_, rfl⟩
  · obtain ⟨answer, hread, -⟩ := readConfig_eval (@written_represents _ userId s payload)
    exact .inr ⟨answer, hread⟩

/-! ## The generations -/

variable {token : String} {dirty : Bool}

theorem not_completes_incremental : ¬ Completes token userId false s := fun h => by
  have huses : (generateForUser token userId false).Uses (GenerateCall token userId false) := generateForUser_uses
  exact Bool.noConfusion (calls_of_uses huses s _ h.2).2

theorem not_completes_unconfigured (h : (s.cfg userId).entries = []) : ¬ Completes token userId true s := by
  have hread : (getConfig userId).eval exec s = (.ok none, s) := by rw [getConfig_eval, if_pos h]
  rintro ⟨-, hmem⟩
  rw [generateForUser, mem_calls_bind (getConfig_uses (by simp)) hread] at hmem
  cases hmem

/-- The part of a generation that comes after the config and the sources have been read. -/
def enter (token : String) (userId : Int) (dirty : Bool) (cfg : TapeConfig) (sources : List Int) :
    Prog (Kind × Nat) := do
  if sources = [] then
    if dirty then
      let _ ← deleteAllEntries userId
      clearDirty userId
      return (.skipped, 0)
    else
      return (.skipped, 0)
  else
    let got ← acquireLock userId token
    if got then
      (withLock userId token true (regenerate userId dirty cfg sources)).tryFinally
        (publish userId (.lockReleased userId))
    else
      withLock userId token false (return (.skipped, 0))

theorem deletes_iff {cfg : TapeConfig} (hcfg : (s.cfg userId).entries ≠ [])
    (hdec : decodeConfig userId (s.cfg userId) = .ok cfg) :
    .multiZcardDel (entriesKey userId) ∈ (generateForUser token userId true).calls exec s ↔
      .multiZcardDel (entriesKey userId) ∈
        (enter token userId true cfg ((s.view userId).sources.insertionSort (· ≤ ·))).calls exec s := by
  have hread : (getConfig userId).eval exec s = (.ok (some cfg), s) := by
    rw [getConfig_eval, if_neg hcfg, hdec]
    rfl
  rw [generateForUser, mem_calls_bind (getConfig_uses (by simp)) hread]
  exact mem_calls_bind (getConfigSources_uses (by simp)) getConfigSources_eval _

omit [DatetimeLib] in
theorem eval_of_yields {α : Type} {p : Prog α} {a : α} {v' : View} {out : List (Int × Int)}
    (h : (aspect userId).Yields p (s.view userId) a v' out) : ∃ s', p.eval exec s = (.ok a, s') := by
  obtain ⟨s', heval, -⟩ := h s rfl
  exact ⟨s', heval⟩

omit [DatetimeLib] in
theorem perform_mem_calls {c : Call} : c ∈ (ask c).calls exec s := List.mem_cons_self

omit [DatetimeLib] in
theorem mem_calls_left {α β : Type} {p : Prog α} {f : Except Exn α → Prog β} {c : Call} (h : c ∈ p.calls exec s) :
    c ∈ (p.andThen f).calls exec s := by
  rw [calls_andThen]
  exact List.mem_append_left _ h

section
variable {cfg : TapeConfig}

theorem regenerate_deletes {sources : List Int} :
    .multiZcardDel (entriesKey userId) ∈ (regenerate userId true cfg sources).calls exec s := by
  have hframe : ∀ event t, (publish userId event).eval exec t = (.ok (), t) := fun _ _ => ask_eval _ _
  obtain ⟨runId, s', hrun⟩ : ∃ runId s', (createRun userId .full).eval exec s = (.ok runId, s') := ⟨_, _, rfl⟩
  refine (mem_calls_bind (uses_ask (by simp)) (hframe _ _) _).mpr ?_
  refine (mem_calls_bind (createRun_uses (by simp) (by simp)) hrun _).mpr ?_
  refine (mem_calls_bind (uses_ask (by simp)) (hframe _ _) _).mpr ?_
  exact mem_calls_left (mem_calls_left perform_mem_calls)

theorem completes_of_no_sources (hcfg : (s.cfg userId).entries ≠ [])
    (hdec : decodeConfig userId (s.cfg userId) = .ok cfg) (hsources : (s.view userId).sources = []) :
    Completes token userId true s := by
  have hnil : (s.view userId).sources.insertionSort (· ≤ ·) = [] := by rw [hsources]; rfl
  have hy : (aspect userId).Yields (generateForUser token userId true) (s.view userId) _ _ _ :=
    generateForUser_no_sources hcfg hdec hsources
  obtain ⟨s', heval⟩ := eval_of_yields hy
  refine ⟨⟨_, congrArg Prod.fst heval⟩, (deletes_iff hcfg hdec).mpr ?_⟩
  rw [enter, if_pos hnil]
  exact mem_calls_left perform_mem_calls

theorem completes_of_ready (h : (s.view userId).Ready userId cfg) : Completes token userId true s := by
  have hy : (aspect userId).Yields (generateForUser token userId true) (s.view userId) _ _ _ :=
    generateForUser_yields h
  have hgot : (aspect userId).Yields (acquireLock userId token) (s.view userId) true _ _ := acquireLock_free h.lock
  obtain ⟨s', heval⟩ := eval_of_yields hy
  obtain ⟨s₁, hs₁⟩ := eval_of_yields hgot
  refine ⟨⟨_, congrArg Prod.fst heval⟩, (deletes_iff h.configured h.decoded).mpr ?_⟩
  rw [enter, if_neg (insertionSort_ne_nil h.sources)]
  refine (mem_calls_bind (uses_ask (by simp)) hs₁ _).mpr ?_
  exact mem_calls_left (mem_calls_left regenerate_deletes)

/-- A generation that does not obtain the lock deletes nothing. -/
theorem not_completes_locked (hcfg : (s.cfg userId).entries ≠ [])
    (hdec : decodeConfig userId (s.cfg userId) = .ok cfg) (hsources : (s.view userId).sources ≠ [])
    (hlock : s.lock userId ≠ none) : ¬ Completes token userId true s := by
  have hgot : (aspect userId).Yields (acquireLock userId token) (s.view userId) false _ _ := acquireLock_held hlock
  obtain ⟨s₁, hs₁⟩ := eval_of_yields hgot
  rintro ⟨-, hmem⟩
  rw [deletes_iff hcfg hdec, enter, if_neg (insertionSort_ne_nil hsources)] at hmem
  cases (mem_calls_bind (uses_ask (by simp)) hs₁ _).mp hmem

end

theorem after_sources {w : View} : (w.after userId dirty).sources = w.sources := by
  unfold View.after
  split
  · rfl
  · split
    · rfl
    · split
      · cases dirty <;> rfl
      · split
        · cases dirty <;> rfl
        · rfl

theorem after_incremental_cfg {w : View} : (w.after userId false).cfg = w.cfg := by
  unfold View.after
  split
  · rfl
  · split
    · rfl
    · split
      · rfl
      · split <;> rfl

theorem after_locked {w : View} {cfg : TapeConfig} (hcfg : w.cfg.entries ≠ [])
    (hdec : decodeConfig userId w.cfg = .ok cfg) (hsources : w.sources ≠ []) (hlock : w.lock ≠ none) :
    w.after userId dirty = w := by
  simp [View.after, hcfg, hdec, hsources, hlock]

/-- The flag is cleared by a generation that completes, and nothing else happens to the config. -/
theorem after_cfg (h : Represents o (s.cfg userId) (s.sourceSet userId)) :
    Completes token userId dirty s ∧ dirty = true ∧ o.isSome ∧
        ((s.view userId).after userId dirty).cfg = (s.cfg userId).hset [("dirty", "0")] ∨
      ¬ Completes token userId dirty s ∧ ((s.view userId).after userId dirty).cfg = s.cfg userId := by
  cases dirty with
  | false => exact .inr ⟨not_completes_incremental, after_incremental_cfg⟩
  | true =>
      cases o with
      | none =>
          have hcfg : (s.view userId).cfg.entries = [] := by
            rw [State.view_cfg, h.1]
            rfl
          refine .inr ⟨not_completes_unconfigured hcfg, ?_⟩
          rw [View.after, if_pos hcfg]
          rfl
      | some x =>
          have hdec : decodeConfig userId (s.view userId).cfg = .ok (config userId x) := h.decode
          by_cases hsources : (s.view userId).sources = []
          · refine .inl ⟨completes_of_no_sources h.entries hdec hsources, rfl, rfl, ?_⟩
            rw [Isolation.after_no_sources h.entries hdec hsources]
            rfl
          · by_cases hlock : (s.view userId).lock = none
            · have hready : (s.view userId).Ready userId (config userId x) := ⟨h.entries, hdec, hsources, hlock⟩
              refine .inl ⟨completes_of_ready hready, rfl, rfl, ?_⟩
              rw [hready.after]
              rfl
            · refine .inr ⟨not_completes_locked h.entries hdec hsources hlock, ?_⟩
              rw [after_locked h.entries hdec hsources hlock]
              rfl

theorem generate_other {v : Int} {r : Except Exn (Kind × Nat)} (hv : userId ≠ v)
    (hgen : (generateForUser token userId dirty).eval exec s = (r, s')) : s'.view v = s.view v := by
  have htrans : ∀ a b c : State, b.view v = a.view v → c.view v = b.view v → c.view v = a.view v :=
    fun _ _ _ hb hc => hc.trans hb
  have hrel : ((generateForUser token userId dirty).eval exec s).2.view v = s.view v :=
    eval_rel (R := fun a b => b.view v = a.view v) (fun _ => rfl) htrans generateForUser_uses
      (fun c hc s => exec_view (Isolation.quiet_of_generate hc hv)) s
  rwa [hgen] at hrel

/-! ## The refinement -/

theorem Represents.clean (h : Represents (some x) cfg sources) :
    Represents (some { x with dirty := false }) (cfg.hset [("dirty", "0")]) sources := by
  refine ⟨fun kv hkv hne => ?_, ?_, h.2.2⟩
  · rw [Hash.get_hset_dirty, if_neg hne]
    exact h.1 kv hkv hne
  · rw [Hash.get_hset_dirty]
    rfl

/-- Whatever happens, the hashes and the sets stand for the map. -/
theorem represents (h : StoreRun s trace) (v : Int) :
    Represents (Store.of trace v) (s.cfg v) (s.sourceSet v) := by
  induction h with
  | start hhashes hsets => exact ⟨hhashes _, hsets _⟩
  | @accept s s' trace u payload answer hrun h ih =>
      rcases @writeConfig_eval _ u s payload with ⟨e, he⟩ | ⟨answer', hanswer⟩
      · cases h.symm.trans he
      · obtain rfl : s' = written u payload s := congrArg Prod.snd (h.symm.trans hanswer)
        by_cases hv : v = u
        · subst hv
          simpa [Store.of, StoreEvent.apply] using written_represents
        · rw [Store.of, apply_of_ne (Ne.symm hv), (written_of_ne hv).1, (written_of_ne hv).2]
          exact ih
  | @reject s s' trace u payload e hrun h ih =>
      rcases @writeConfig_eval _ u s payload with ⟨e', he⟩ | ⟨answer', hanswer⟩
      · obtain rfl : s' = s := congrArg Prod.snd (h.symm.trans he)
        exact ih
      · cases h.symm.trans hanswer
  | @generate s s' trace u token dirty completed r hrun h hdone ih =>
      rw [Store.of, apply_generated]
      by_cases hu : u = v
      · subst hu
        have hview : s'.view u = (s.view u).after u dirty := by rw [← generateForUser_view (t := token) s, h]
        have hcfg : s'.cfg u = ((s.view u).after u dirty).cfg := congrArg View.cfg hview
        have hsources : s'.sourceSet u = ((s.view u).after u dirty).sources := congrArg View.sources hview
        rw [hcfg, hsources, after_sources]
        rcases after_cfg ih with ⟨hc, hdirty, hsome, hcfg⟩ | ⟨hc, hcfg⟩
        · obtain ⟨x, hx⟩ := Option.isSome_iff_exists.mp hsome
          rw [hx] at ih
          rw [if_pos ⟨rfl, hdirty, hdone.mpr hc⟩, hcfg, hx]
          exact ih.clean
        · rw [if_neg fun h => hc (hdone.mp h.2.2), hcfg]
          exact ih
      · have hother : s'.view v = s.view v := generate_other hu h
        have hcfg : s'.cfg v = s.cfg v := congrArg View.cfg hother
        have hsources : s'.sourceSet v = s.sourceSet v := congrArg View.sources hother
        rw [if_neg fun h => hu h.1, hcfg, hsources]
        exact ih
  | other hrun hcfg hsources ih =>
      rw [hcfg, hsources]
      exact ih

end ConfigStore

open ConfigStore in
/-- `GET /config` shows the payload that was accepted last, and whether it has been taken up since. -/
theorem config_refines_map {s : State} {trace : List StoreEvent} (h : StoreRun s trace) (userId : Int) :
    ∃ answer, (readConfig userId).eval exec s = (.ok answer, s) ∧
      match lastAccepted userId trace with
      | none => ShowsDefaults answer
      | some payload => ShowsPayload payload answer ∧
          (answer.dirty = true ↔ ∀ ev ∈ sinceAccepted userId trace, ¬ ev.TakesUp userId) := by
  obtain ⟨answer, heval, hshows⟩ := readConfig_eval (represents h userId)
  refine ⟨answer, heval, ?_⟩
  rw [← of_payload]
  cases hx : Store.of trace userId with
  | none =>
      rw [hx] at hshows
      exact hshows
  | some x =>
      rw [hx] at hshows
      refine ⟨hshows.1, ?_⟩
      rw [hshows.2]
      exact of_dirty hx

end

/-! ## Examples -/

section
open scoped Python.Utc

namespace Sample

def vacant : State := { redis := .empty, db := .start [article 6] }

/-- User 1 selects the source. -/
def selecting : State := ((writeConfig 1 (update .asc [1, 1])).eval exec vacant).2

def takenUp : State := ((generateForUser "a" 1 true).eval exec selecting).2

/-- The user asks for a source that is not offered. -/
def refused : State := ((writeConfig 1 (update .desc [5])).eval exec takenUp).2

theorem selecting_run : StoreRun selecting [.accepted 1 (update .asc [1, 1])] := by
  have hstart : StoreRun vacant [] := .start (fun _ => rfl) fun _ => rfl
  have hok : ((writeConfig 1 (update .asc [1, 1])).eval exec vacant).1.isOk = true := by decide +kernel
  cases h : ((writeConfig 1 (update .asc [1, 1])).eval exec vacant).1 with
  | ok answer => exact .accept hstart (eval_eq_of_fst h)
  | error e => simp [h, Except.isOk, Except.toBool] at hok

theorem selecting_completes : Completes "a" 1 true selecting := by
  refine ⟨?_, by decide +kernel⟩
  have hok : ((generateForUser "a" 1 true).eval exec selecting).1.isOk = true := by decide +kernel
  cases h : ((generateForUser "a" 1 true).eval exec selecting).1 with
  | ok a => exact ⟨a, rfl⟩
  | error e => simp [h, Except.isOk, Except.toBool] at hok

theorem refused_run : StoreRun refused
    [.rejected 1 (update .desc [5]), .generated 1 true true, .accepted 1 (update .asc [1, 1])] := by
  have htaken := StoreRun.generate selecting_run (eval_eq_of_fst rfl) (iff_of_true rfl selecting_completes)
  have hok : ((writeConfig 1 (update .desc [5])).eval exec takenUp).1.isOk = false := by decide +kernel
  cases h : ((writeConfig 1 (update .desc [5])).eval exec takenUp).1 with
  | ok answer => simp [h, Except.isOk, Except.toBool] at hok
  | error e => exact .reject htaken (eval_eq_of_fst h)

end Sample

theorem refused_shows_accepted :
    ∃ answer, (readConfig 1).eval exec Sample.refused = (.ok answer, Sample.refused) ∧
      ShowsPayload (Sample.update .asc [1, 1]) answer ∧ (answer.dirty = true ↔
        ∀ ev ∈ sinceAccepted 1 [.rejected 1 (Sample.update .desc [5]), .generated 1 true true,
          .accepted 1 (Sample.update .asc [1, 1])], ¬ ev.TakesUp 1) :=
  config_refines_map Sample.refused_run 1

end

end TapeService
