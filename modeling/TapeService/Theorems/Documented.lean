import TapeService.Interleaving.Answers
import TapeService.Lemmas.Config
import TapeService.Theorems.Scoring

/-!
# What the service answers

However the requests, the worker and the listener interleave, and whatever dies on the way, as long as the calls
to Redis and to the database get through: every request is answered with a response that its schema admits, or
with one of the errors that it documents. A score that the database does not take is the exception.
-/

namespace TapeService

open Interleaving Interleaving.Program Python

/-! ## Scores -/

/-- How an insert is refused that `submit_score` has no answer for. -/
def Unanswered (row : ScoreRow) (e : Exn) : Prop :=
  e = .foreignKeyViolation ∨ e = .dataError ∧ ¬ row.HasText ∨ e = .undefinedFunction ∧ ¬ row.HasIntegers

theorem Platform.insertScore_answer (db : Platform) (row : ScoreRow) :
    (∃ scoreId : Int, (db.insertScore row).1 = .ok scoreId) ∨ (db.insertScore row).1 = .error .uniqueViolation ∨
      ∃ e, (db.insertScore row).1 = .error e ∧ Unanswered row e := by
  by_cases hrow : row.Storable
  · by_cases hdup : db.Duplicate row
    · rw [Platform.insertScore_duplicate hrow hdup]
      exact .inr (.inl rfl)
    by_cases hrefs : db.ReferencesExist row
    · rw [Platform.insertScore_accepted hrow hdup hrefs]
      exact .inl ⟨_, rfl⟩
    · rw [Platform.insertScore_dangling hrow hdup hrefs]
      exact .inr (.inr ⟨_, rfl, .inl rfl⟩)
  · obtain ⟨e, he, hinsert⟩ := db.insertScore_unstorable hrow
    rw [hinsert]
    exact .inr (.inr ⟨e, rfl, .inr he⟩)

/-! ## Configs -/

theorem Ordering.text_cases (ordering : Ordering) : ordering.text = "asc" ∨ ordering.text = "desc" := by
  cases ordering
  · exact .inl rfl
  · exact .inr rfl

theorem DisplayMode.text_cases (displayMode : DisplayMode) :
    displayMode.text = "compact" ∨ displayMode.text = "detailed" := by
  cases displayMode
  · exact .inl rfl
  · exact .inr rfl

section
variable [DatetimeLib]

/-- What may stand in a field of a config hash. -/
def LegalField (field text : String) : Prop :=
  match field with
  | "ordering" => ∃ ordering : Ordering, text = ordering.text
  | "display_mode" => ∃ displayMode : DisplayMode, text = displayMode.text
  | "page_size" => ∃ pageSize : Int, text = toString pageSize ∧ 1 ≤ pageSize ∧ pageSize ≤ 200
  | "date_from" => text = "" ∨ ∃ t : Datetime, text = DatetimeLib.isoformat t
  | "date_to" => text = "" ∨ ∃ t : Datetime, text = DatetimeLib.isoformat t
  | _ => True

def Hash.Legal (h : Hash) : Prop := ∀ field text, h.get field = some text → LegalField field text

/-- What `ConfigResponse` and `TapePage` admit, and the bounds of the page size. -/
structure LegalConfig (ordering displayMode : String) (pageSize : Int) : Prop where
  ordering : ordering = "asc" ∨ ordering = "desc"
  displayMode : displayMode = "compact" ∨ displayMode = "detailed"
  pageSize : 1 ≤ pageSize ∧ pageSize ≤ 200

namespace Hash

variable {h : Hash}

theorem Legal.empty : Hash.Legal (∅ : Hash) := fun _ _ hget => nomatch hget

theorem Legal.hset (hlegal : h.Legal) {mapping : List (String × String)}
    (hmapping : ∀ x ∈ mapping, LegalField x.1 x.2) : (h.hset mapping).Legal := by
  induction mapping generalizing h with
  | nil => exact hlegal
  | cons x mapping ih =>
      refine ih (fun field text hget => ?_) fun y hy => hmapping y (List.mem_cons_of_mem _ hy)
      rw [get_insert] at hget
      split at hget
      · rename_i hfield
        obtain rfl := Option.some.inj hget
        exact hfield ▸ hmapping x List.mem_cons_self
      · exact hlegal field text hget

theorem isoOrNone_of_legal {o : Option String}
    (h : ∀ text, o = some text → text = "" ∨ ∃ t : Datetime, text = DatetimeLib.isoformat t) :
    ∃ t, isoOrNone o = .ok t := by
  cases o with
  | none => exact ⟨none, rfl⟩
  | some text =>
      by_cases hempty : text = ""
      · exact ⟨none, if_pos hempty⟩
      · rcases h text rfl with he | ⟨t, rfl⟩
        · exact absurd he hempty
        · refine ⟨some t, (if_neg hempty).trans ?_⟩
          rw [DatetimeLib.fromisoformat_isoformat]
          rfl

/-- A legal hash is read as a legal config; so are the defaults that stand for missing fields. -/
theorem Legal.decode (hlegal : h.Legal) (userId : Int) :
    ∃ cfg, decodeConfig userId h = .ok cfg ∧ LegalConfig cfg.ordering cfg.displayMode cfg.pageSize := by
  have hsize : ∃ n : Int, Python.int ((h.get "page_size").getD "20") = some n ∧ 1 ≤ n ∧ n ≤ 200 := by
    cases hget : h.get "page_size" with
    | none => exact ⟨20, by decide, by decide, by decide⟩
    | some text =>
        obtain ⟨n, rfl, hn⟩ := hlegal "page_size" text hget
        exact ⟨n, int_toString n, hn⟩
  obtain ⟨n, hn, hbounds⟩ := hsize
  obtain ⟨dateFrom, hfrom⟩ := isoOrNone_of_legal fun text hget => hlegal "date_from" text hget
  obtain ⟨dateTo, hto⟩ := isoOrNone_of_legal fun text hget => hlegal "date_to" text hget
  refine ⟨_, by rw [decodeConfig, hn, hfrom, hto]; rfl, ?_, ?_, hbounds⟩
  · cases hget : h.get "ordering" with
    | none => exact .inr rfl
    | some text =>
        obtain ⟨ordering, rfl⟩ := hlegal "ordering" text hget
        exact ordering.text_cases
  · cases hget : h.get "display_mode" with
    | none => exact .inl rfl
    | some text =>
        obtain ⟨displayMode, rfl⟩ := hlegal "display_mode" text hget
        exact displayMode.text_cases

end Hash

theorem configMapping_legal (payload : ConfigUpdate) :
    ∀ x ∈ configMapping payload.ordering payload.displayMode payload.pageSize payload.dateFrom payload.dateTo,
      LegalField x.1 x.2 := by
  have hdate : ∀ o : Option Datetime, (o.map DatetimeLib.isoformat).getD "" = "" ∨
      ∃ t : Datetime, (o.map DatetimeLib.isoformat).getD "" = DatetimeLib.isoformat t := by
    intro o
    cases o with
    | none => exact .inl rfl
    | some t => exact .inr ⟨t, rfl⟩
  intro x hx
  simp only [configMapping, List.mem_cons, List.not_mem_nil, or_false] at hx
  rcases hx with rfl | rfl | rfl | rfl | rfl | rfl
  · exact ⟨payload.ordering, rfl⟩
  · exact ⟨payload.displayMode, rfl⟩
  · exact ⟨payload.pageSize, rfl, payload.pageSize_bounds⟩
  · exact hdate payload.dateFrom
  · exact hdate payload.dateTo
  · trivial

/-! ## The property -/

structure LegalPage (p : TapePage) : Prop where
  length : p.items.length ≤ 200
  displayMode : p.displayMode = "compact" ∨ p.displayMode = "detailed"
  state : p.state = .ok ↔ p.items ≠ []

/-- What a job may end with. -/
def Documented : Job → Except Exn Out → Prop
  | .readTape _ _, r =>
      (∃ p, r = .ok (.page p) ∧ LegalPage p) ∨ r = .error (.apiError .tapeLocked "tape is regenerating")
  | .submitScore userId payload, r =>
      (∃ scoreId, r = .ok (.scored scoreId)) ∨
        r = .error (.apiError .alreadyScored "this document has already been scored by you") ∨
          ∃ e, r = .error e ∧ Unanswered (scoreRow userId payload) e
  | .readConfig _, r => ∃ c, r = .ok (.config c) ∧ LegalConfig c.ordering c.displayMode c.pageSize
  | .writeConfig _ payload, r =>
      (∃ c, r = .ok (.config c) ∧ LegalConfig c.ordering c.displayMode c.pageSize) ∨
        ∃ bad, bad ≠ [] ∧ bad ⊆ payload.selectedSourceIds ∧
          r = .error (.apiError .forbidden ("sources not permitted for this user: " ++ listText bad))
  | .generate _ _, r => ∃ kind added, r = .ok (.generated kind added)
  | .handle _, r => r = .ok .handled

namespace Documented

/-! ## The answers -/

/-- How a call can be answered when it does not fail and the hashes are legal. -/
def Answer : (c : Call) → Except Exn c.Reply → Prop
  | .hgetall _, r => ∃ h : Hash, r = .ok h ∧ h.Legal
  | .zrange _ start stop, r =>
      ∃ rows : List (Int × Int), r = .ok rows ∧ (0 ≤ start → 0 ≤ stop → (rows.length : Int) ≤ max 0 (stop + 1 - start))
  | .zrangebyscore _ _ count, r =>
      ∃ rows : List (Int × Int), r = .ok rows ∧ (0 ≤ count → (rows.length : Int) ≤ count)
  | .scoreSave userId documentId roleId score comment, r =>
      (∃ scoreId : Int, r = .ok scoreId) ∨ r = .error .uniqueViolation ∨
        ∃ e, r = .error e ∧ Unanswered ⟨score, comment, some documentId, some userId, some roleId⟩ e
  | _, r => ∃ a, r = .ok a

theorem exec_answer {c : Call} {s : State} (hs : ∀ key, (s.redis.hashes key).Legal) : Answer c (exec c s).1 := by
  cases c with
  | hgetall key => exact ⟨_, rfl, hs key⟩
  | zrange key start stop =>
      refine ⟨_, rfl, fun hstart hstop => ?_⟩
      have hlength : ((s.redis.zsets key).zrange start stop).length ≤ (stop + 1 - start).toNat := by
        simp only [Redis.ZSet.zrange, not_lt.mpr hstart, not_lt.mpr hstop, ↓reduceIte]
        exact List.length_take_le _ _
      omega
  | zrangebyscore key after count =>
      refine ⟨_, rfl, fun hcount => ?_⟩
      have hlength : ((s.redis.zsets key).zrangebyscore after count).length ≤ count.toNat := by
        simp only [Redis.ZSet.zrangebyscore, not_lt.mpr hcount, ↓reduceIte]
        exact List.length_take_le _ _
      omega
  | scoreSave userId documentId roleId score comment =>
      exact s.db.insertScore_answer _
  | setNxEx key token =>
      simp only [exec]
      split <;> exact ⟨_, rfl⟩
  | _ => exact ⟨_, rfl⟩

/-- A call that raises nothing by itself. -/
def Ordinary : Call → Prop
  | .scoreSave _ _ _ _ _ => False
  | _ => True

theorem Ordinary.ok {c : Call} (hc : Ordinary c) (r : Except Exn c.Reply) (hr : Answer c r) : ∃ a, r = .ok a := by
  cases c with
  | hgetall key => exact ⟨_, hr.choose_spec.1⟩
  | zrange key start stop => exact ⟨_, hr.choose_spec.1⟩
  | zrangebyscore key after count => exact ⟨_, hr.choose_spec.1⟩
  | scoreSave userId documentId roleId score comment => exact hc.elim
  | _ => exact hr

variable {userId : Int}

theorem ask_settles {c : Call} (hc : Ordinary c) : (ask c).Settles Answer (Returned fun _ => True) :=
  Settles.perform.mono fun r hr => by
    obtain ⟨a, rfl⟩ := hc.ok r hr
    trivial

theorem plain_settles {α : Type} {p : Prog α} (hp : p.Plain) (huses : p.Uses Ordinary) :
    p.Settles Answer (Returned fun _ => True) :=
  Settles.of_plain hp (huses.mono fun _ hc r hr => hc.ok r hr)

/-! ## The store -/

theorem getConfig_settles : (getConfig userId).Settles Answer
    (Returned fun o => ∀ cfg, o = some cfg → LegalConfig cfg.ordering cfg.displayMode cfg.pageSize) := by
  have hhash : (Client.hgetall (cfgKey userId)).Settles Answer (Returned Hash.Legal) :=
    Settles.perform.mono fun r hr => by
      obtain ⟨h, rfl, hlegal⟩ := hr
      exact hlegal
  refine Settles.bind hhash fun raw hraw => ?_
  split
  · exact nofun
  · obtain ⟨cfg, hcfg, hlegal⟩ := hraw.decode userId
    rw [hcfg]
    exact fun cfg' he => by
      cases he
      exact hlegal

theorem getConfigSources_settles : (getConfigSources userId).Settles Answer (Returned fun _ => True) :=
  Settles.bind (ask_settles trivial) fun _ _ => trivial

theorem hydrateSources_settles : (hydrateSources userId).Settles Answer (Returned fun _ => True) := by
  refine Settles.bind (ask_settles trivial) fun allowed _ =>
    Settles.bind (Q := fun _ => True) ?_ fun _ _ => trivial
  unfold fetchSourceNames
  split
  · trivial
  · exact ask_settles trivial

theorem listEntriesPage_settles {after : Option Int} {limit : Int} (hlimit : 1 ≤ limit) :
    (listEntriesPage userId after limit).Settles Answer (Returned fun rows => (rows.length : Int) ≤ limit) := by
  cases after with
  | none =>
      have hrows : (Client.zrange (entriesKey userId) 0 (limit - 1)).Settles Answer
          (Returned fun rows => (rows.length : Int) ≤ limit) :=
        Settles.perform.mono fun r hr => by
          obtain ⟨rows, rfl, hlength⟩ := hr
          have := hlength le_rfl (by omega)
          show (rows.length : Int) ≤ limit
          omega
      exact Settles.bind hrows fun rows h => le_of_eq_of_le (congrArg Nat.cast (List.length_map _)) h
  | some a =>
      have hrows : (Client.zrangebyscore (entriesKey userId) a limit).Settles Answer
          (Returned fun rows => (rows.length : Int) ≤ limit) :=
        Settles.perform.mono fun r hr => by
          obtain ⟨rows, rfl, hlength⟩ := hr
          exact hlength (by omega)
      exact Settles.bind hrows fun rows h => le_of_eq_of_le (congrArg Nat.cast (List.length_map _)) h

/-! ## The handlers -/

theorem readConfig_settles : (readConfig userId).Settles Answer
    (Returned fun c => LegalConfig c.ordering c.displayMode c.pageSize) := by
  refine Settles.bind getConfig_settles fun cfg hcfg => Settles.bind getConfigSources_settles fun selected _ =>
    Settles.bind hydrateSources_settles fun available _ => ?_
  cases cfg with
  | none => exact ⟨.inr rfl, .inl rfl, by simp⟩
  | some cfg => exact hcfg cfg rfl

theorem writeConfig_settles {payload : ConfigUpdate} : (writeConfig userId payload).Settles Answer fun r =>
    (∃ c, r = .ok c ∧ LegalConfig c.ordering c.displayMode c.pageSize) ∨
      ∃ bad, bad ≠ [] ∧ bad ⊆ payload.selectedSourceIds ∧
        r = .error (.apiError .forbidden ("sources not permitted for this user: " ++ listText bad)) := by
  refine Settles.bind hydrateSources_settles fun allowed _ => ?_
  obtain ⟨allowed, available⟩ := allowed
  simp only
  split
  · rename_i hbad
    refine .inr ⟨_, fun he => hbad ?_, fun d hd => ?_, rfl⟩
    · have hperm := List.perm_insertionSort (· ≤ ·)
        (payload.selectedSourceIds.dedup.filter fun d => decide (d ∉ allowed))
      rw [he] at hperm
      exact List.nil_perm.mp hperm
    · have hmem := (List.perm_insertionSort _ _).subset hd
      exact List.mem_dedup.mp (List.mem_filter.mp hmem).1
  · refine Settles.bind (ask_settles trivial) fun _ _ => Settles.bind (ask_settles trivial) fun _ _ =>
      Settles.bind (ask_settles trivial) fun _ _ => readConfig_settles.mono fun r hr => ?_
    cases r with
    | ok c => exact .inl ⟨c, rfl, hr⟩
    | error e => exact hr.elim

/-- Neither handler of the insert knows the other refusals. -/
theorem scoreSave_settles {payload : ScoreRequest} :
    (scoreSave userId payload.documentId payload.roleId (scoreRow userId payload).score payload.comment).Settles Answer
      fun r => (∃ scoreId, r = .ok scoreId) ∨ r = .error .alreadyScored ∨
        ∃ e, r = .error e ∧ Unanswered (scoreRow userId payload) e := by
  refine Settles.andThen Settles.perform fun r hr => ?_
  rcases hr with ⟨scoreId, rfl⟩ | rfl | ⟨e, rfl, he⟩
  · exact .inl ⟨scoreId, rfl⟩
  · exact .inr (.inl rfl)
  · have hcases := he
    rcases hcases with rfl | ⟨rfl, -⟩ | ⟨rfl, -⟩ <;> exact .inr (.inr ⟨_, rfl, he⟩)

theorem submitScore_settles {payload : ScoreRequest} : (submitScore userId payload).Settles Answer fun r =>
    (∃ scoreId, r = .ok scoreId) ∨
      r = .error (.apiError .alreadyScored "this document has already been scored by you") ∨
        ∃ e, r = .error e ∧ Unanswered (scoreRow userId payload) e := by
  refine Settles.andThen (Q := fun r => (∃ scoreId, r = .ok scoreId) ∨
    r = .error (.apiError .alreadyScored "this document has already been scored by you") ∨
      ∃ e, r = .error e ∧ Unanswered (scoreRow userId payload) e) ?_ fun r hr => ?_
  · refine Settles.andThen scoreSave_settles fun r hr => ?_
    rcases hr with ⟨scoreId, rfl⟩ | rfl | ⟨e, rfl, he⟩
    · exact .inl ⟨scoreId, rfl⟩
    · exact .inr (.inl rfl)
    · have hcases := he
      rcases hcases with rfl | ⟨rfl, -⟩ | ⟨rfl, -⟩ <;> exact .inr (.inr ⟨_, rfl, he⟩)
  · rcases hr with ⟨scoreId, rfl⟩ | rfl | ⟨e, rfl, he⟩
    · exact Settles.bind (ask_settles trivial) fun _ _ => Settles.bind (ask_settles trivial) fun _ _ =>
        .inl ⟨scoreId, rfl⟩
    · exact .inr (.inl rfl)
    · exact .inr (.inr ⟨e, rfl, he⟩)

theorem rolesBySource_settles {sourceIds : List Int} :
    (rolesBySource userId sourceIds).Settles Answer (Returned fun _ => True) := by
  have hper : ∀ sids, (rolesPerSource userId sids).Settles Answer (Returned fun _ => True) := by
    intro sids
    induction sids with
    | nil => trivial
    | cons sid sids ih => exact Settles.bind (ask_settles trivial) fun _ _ => Settles.bind ih fun _ _ => trivial
  refine Settles.bind (hper _) fun _ _ => Settles.bind (Q := fun _ => True) ?_ fun _ _ => trivial
  unfold fetchRoleNames
  split
  · trivial
  · exact ask_settles trivial

theorem pageItems_settles {displayMode : String} {docs : List Document} {alreadyScored : List Int}
    {rolesBySrc : List (Int × List RoleRef)} (rows : List (Int × Int)) :
    (pageItems userId displayMode docs alreadyScored rolesBySrc rows).Settles Answer
      (Returned fun items => items.length ≤ rows.length) := by
  induction rows with
  | nil => exact Nat.le_refl _
  | cons row rows ih =>
      obtain ⟨position, docId⟩ := row
      have hskip : (pageItems userId displayMode docs alreadyScored rolesBySrc rows).Settles Answer
          (Returned fun items => items.length ≤ ((position, docId) :: rows).length) :=
        ih.mono fun r hr => by
          cases r with
          | ok items => exact Nat.le_succ_of_le hr
          | error e => exact hr
      unfold pageItems
      split
      · refine Settles.bind (ask_settles trivial) fun removed _ => ?_
        split
        · exact Settles.bind (ask_settles trivial) fun _ _ => hskip
        · exact hskip
      · split
        · exact hskip
        · exact Settles.bind ih fun items h => Nat.succ_le_succ h

theorem readRows_settles {cfg : TapeConfig} {rows : List (Int × Int)}
    (hcfg : LegalConfig cfg.ordering cfg.displayMode cfg.pageSize) (hrows : (rows.length : Int) ≤ cfg.pageSize) :
    (readRows userId cfg rows).Settles Answer (Returned LegalPage) := by
  refine Settles.bind (Q := fun _ => True) ?_ fun docs _ => Settles.bind (Q := fun _ => True) ?_ fun alreadyScored _ =>
    Settles.bind rolesBySource_settles fun rolesBySrc _ =>
      Settles.bind (pageItems_settles rows) fun items hitems => ⟨?_, hcfg.displayMode, ?_⟩
  · unfold fetchByIds
    split
    · trivial
    · exact ask_settles trivial
  · unfold filterAlreadyScored
    split
    · trivial
    · exact ask_settles trivial
  · have := hcfg.pageSize.2
    simp only
    omega
  · by_cases hempty : items = []
    · simp [hempty]
    · simp [hempty]

theorem readTape_settles {after : Option Nat} : (readTape userId after).Settles Answer fun r =>
    (∃ p, r = .ok p ∧ LegalPage p) ∨ r = .error (.apiError .tapeLocked "tape is regenerating") := by
  have hpage : ∀ r : Except Exn TapePage, Returned LegalPage r →
      (∃ p, r = .ok p ∧ LegalPage p) ∨ r = .error (.apiError .tapeLocked "tape is regenerating") := by
    intro r hr
    cases r with
    | ok p => exact .inl ⟨p, rfl, hr⟩
    | error e => exact hr.elim
  refine Settles.bind (ask_settles trivial) fun locked _ => ?_
  split
  · exact .inr rfl
  · refine Settles.bind getConfig_settles fun cfg hcfg => ?_
    cases cfg with
    | none => exact .inl ⟨_, rfl, Nat.zero_le _, .inl rfl, by simp⟩
    | some cfg =>
        have hlegal := hcfg cfg rfl
        refine Settles.bind (listEntriesPage_settles hlegal.pageSize.1) fun rows hrows => ?_
        split
        · refine Settles.bind (ask_settles trivial) fun total _ => .inl ⟨_, rfl, Nat.zero_le _, hlegal.displayMode, ?_⟩
          simp only [ne_eq, not_true_eq_false, iff_false]
          split <;> nofun
        · exact (readRows_settles hlegal hrows).mono hpage

/-! ## The worker -/

theorem publish_settles {event : Frame} : (publish userId event).Settles Answer (Returned fun _ => True) :=
  ask_settles trivial

theorem completeRun_settles {runId : Int} {kind : Kind} {added removed : Nat} :
    (completeRun userId runId kind added removed).Settles Answer (Returned fun _ => True) :=
  Settles.bind (ask_settles trivial) fun _ _ => Settles.bind publish_settles fun _ _ =>
    Settles.bind publish_settles fun _ _ => trivial

theorem fill_settles {cfg : TapeConfig} {sources : List Int} {dirty : Bool} {kind : Kind} {runId : Int}
    {base : Base} : (fill userId cfg sources dirty kind runId base).Settles Answer (Returned fun _ => True) := by
  refine Settles.bind (plain_settles candidatesForUser_plain (candidatesForUser_uses fun _ _ _ _ => trivial))
    fun docIds _ => Settles.bind (plain_settles appendEntries_plain (appendEntries_uses fun _ _ => trivial))
      fun appended _ => Settles.bind (Settles.forM appended fun _ => publish_settles) fun _ _ => ?_
  split
  · exact Settles.bind (ask_settles trivial) fun _ _ => completeRun_settles
  · exact completeRun_settles

theorem regenerate_settles {dirty : Bool} {cfg : TapeConfig} {sources : List Int} :
    (regenerate userId dirty cfg sources).Settles Answer (Returned fun _ => True) := by
  refine Settles.bind publish_settles fun _ _ =>
    Settles.bind (plain_settles createRun_plain (createRun_uses trivial fun _ => trivial)) fun runId _ =>
      Settles.bind publish_settles fun _ _ =>
        (plain_settles prepare_plain (prepare_uses (fun _ => trivial) fun _ _ => trivial)).andThen fun r hr => ?_
  cases r with
  | ok base => exact fill_settles.tryCatch _
  | error e => exact hr.elim

theorem generateForUser_settles {t : String} {dirty : Bool} :
    (generateForUser t userId dirty).Settles Answer (Returned fun _ => True) := by
  refine Settles.bind getConfig_settles fun cfg _ => ?_
  cases cfg with
  | none => trivial
  | some cfg =>
      refine Settles.bind getConfigSources_settles fun sources _ => ?_
      split
      · split
        · exact Settles.bind (ask_settles trivial) fun _ _ => Settles.bind (ask_settles trivial) fun _ _ => trivial
        · trivial
      · refine Settles.bind (ask_settles trivial) fun got _ => ?_
        split
        · refine Settles.tryFinally (Settles.tryFinally regenerate_settles ?_) publish_settles
          exact ask_settles (c := .evalRelease (lockKey userId) t) trivial
        · exact Settles.tryFinally (Q := Returned fun _ => True) trivial trivial

/-- What the trigger has written is read, or refused as a bad payload. -/
theorem handle_settles (n : Notification) : (handle n.payload).Settles Answer (Returned fun _ => True) := by
  unfold handle
  cases hdecode : decodePayload n.payload with
  | error e =>
      have hbad : badPayload e = true := by
        obtain ⟨userId, documentId⟩ := n
        cases userId with
        | none => cases hdecode; rfl
        | some userId =>
            cases documentId with
            | none => cases hdecode; rfl
            | some documentId => cases hdecode
      simp only [hbad, ↓reduceIte]
      trivial
  | ok x =>
      have hremove : (removeEntry x.1 x.2).Settles Answer (Returned fun _ => True) := ask_settles trivial
      refine Settles.tryCatch (Settles.bind hremove fun removed _ => ?_) _
      split
      · exact publish_settles
      · trivial

theorem body_settles (i : Nat) (job : Job) : (Job.body i job).Settles Answer (Documented job) := by
  cases job with
  | generate userId dirty =>
      exact generateForUser_settles.map fun r hr => by
        cases r with
        | ok x => exact ⟨x.1, x.2, rfl⟩
        | error e => exact hr.elim
  | readTape userId after =>
      exact readTape_settles.map fun r hr => by
        rcases hr with ⟨p, rfl, hp⟩ | rfl
        · exact .inl ⟨p, rfl, hp⟩
        · exact .inr rfl
  | submitScore userId payload =>
      exact submitScore_settles.map fun r hr => by
        rcases hr with ⟨scoreId, rfl⟩ | rfl | ⟨e, rfl, he⟩
        · exact .inl ⟨scoreId, rfl⟩
        · exact .inr (.inl rfl)
        · exact .inr (.inr ⟨e, rfl, he⟩)
  | readConfig userId =>
      exact readConfig_settles.map fun r hr => by
        cases r with
        | ok c => exact ⟨c, rfl, hr⟩
        | error e => exact hr.elim
  | writeConfig userId payload =>
      exact writeConfig_settles.map fun r hr => by
        rcases hr with ⟨c, rfl, hc⟩ | ⟨bad, hne, hsub, rfl⟩
        · exact .inl ⟨c, rfl, hc⟩
        · exact .inr ⟨bad, hne, hsub, rfl⟩
  | handle n =>
      exact (handle_settles n).map fun r hr => by
        cases r with
        | ok x => rfl
        | error e => exact hr.elim

/-! ## The state -/

/-- What is written to a hash is legal. -/
def Writes : Call → Prop
  | .hset _ mapping => ∀ x ∈ mapping, LegalField x.1 x.2
  | _ => True

theorem writes_of_jobCall {i : Nat} {job : Job} {c : Call} (h : JobCall i job c) : Writes c := by
  have hdirty : ∀ x ∈ [("dirty", "0")], LegalField x.1 x.2 := by
    intro x hx
    obtain rfl := List.mem_singleton.mp hx
    trivial
  cases c with
  | hset key mapping =>
      cases job with
      | generate userId dirty =>
          obtain ⟨-, rfl, -⟩ := h
          exact hdirty
      | writeConfig userId payload =>
          obtain ⟨-, rfl⟩ := h
          exact configMapping_legal payload
      | handle n =>
          obtain ⟨u, d, -, hc⟩ := h
          exact hc.elim
      | _ => exact h.elim
  | _ => trivial

theorem exec_legal {c : Call} (hc : Writes c) {s : State} (hs : ∀ key, (s.redis.hashes key).Legal) (key : String) :
    ((exec c s).2.redis.hashes key).Legal := by
  cases c with
  | hset key' mapping =>
      by_cases hk : key = key'
      · subst hk
        simp only [exec, State.setHash, put_self]
        exact (hs key).hset hc
      · simp only [exec, State.setHash, put_of_ne _ _ hk]
        exact hs key
  | multiReplaceSources key' sourceIds hashKey =>
      by_cases hk : key = hashKey
      · subst hk
        simp only [exec, State.setHash, State.setSet, put_self]
        refine (hs key).hset fun x hx => ?_
        obtain rfl := List.mem_singleton.mp hx
        trivial
      · simp only [exec, State.setHash, State.setSet, put_of_ne _ _ hk]
        exact hs key
  | setNxEx key' token =>
      simp only [exec]
      split <;> exact hs key
  | evalRelease key' token =>
      simp only [exec]
      split <;> exact hs key
  | _ => exact hs key

end Documented

/-- From an empty store, and as long as no call fails, every thread that ends does so with a documented answer, and
every config in the store can be read. -/
theorem answers_documented {s : State} (hs : ∀ key, s.redis.hashes key = ∅) {c : Conf service}
    (h : Reach (fun _ l => l.Answered) s c) :
    (∀ key, (c.world.state.redis.hashes key).Legal) ∧
      ∀ (i : Nat) t r, c.threads[i]? = some t → t.outcome? = some r → Documented t.job r := by
  refine h.settled (I := fun s => ∀ key, (s.redis.hashes key).Legal) (fun _ _ h => h) (fun c s hs => ?_)
    Job.body_uses (fun i job c s hc hs => ?_) (fun job s s' hs' hs => ?_) (fun e s s' hs' hs => ?_)
    Documented.body_settles fun key => hs key ▸ Hash.Legal.empty
  · exact Documented.exec_answer hs
  · exact Documented.exec_legal (Documented.writes_of_jobCall hc) hs
  · rw [Job.begin_redis hs']
    exact hs
  · rw [Env.apply_redis hs']
    exact hs

end

section
open scoped Python.Utc

/-- The user selects a source that he may not see. -/
def Sample.oversteps : Conf service :=
  (Sample.start []).play (.start (.writeConfig 1 (Sample.update .asc [1, 2])) :: Sample.runs 0 9)

theorem Sample.oversteps_reach : Reach (fun _ l => l.Answered) (Sample.start []).world.state Sample.oversteps :=
  Steps.play (Conf.Obeys.of_labels fun l hl _ => (by decide : ∀ l ∈ _, l.Answered) l hl)

theorem answers_documented_oversteps : Documented (.writeConfig 1 (Sample.update .asc [1, 2]))
    (.error (.apiError .forbidden "sources not permitted for this user: [2]")) :=
  (answers_documented (fun _ => rfl) Sample.oversteps_reach).2 0
    ⟨.writeConfig 1 (Sample.update .asc [1, 2]),
      some (.raise (.apiError .forbidden "sources not permitted for this user: [2]"))⟩ _ rfl rfl

end

end TapeService
