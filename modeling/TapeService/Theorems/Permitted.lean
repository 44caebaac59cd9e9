import TapeService.Lemmas.Outlines
import TapeService.Lemmas.Pages
import TapeService.Lemmas.Permissions

/-!
# Permitted documents

The whitelist is checked when a config is written, and the roles are looked up when a page is made. Between
the two, the source sets and the tapes hold permitted sources only.
-/

namespace TapeService

open Interleaving Interleaving.Program Interleaving.Protocol Python

namespace Permitted

/-- The calls that add to a tape or to a source set. -/
def Adds : Call → Prop
  | .zaddNx _ _ _ => True
  | .multiReplaceSources _ _ _ => True
  | _ => False

structure Inv (src : Int → Int) (db : Platform) (s : State) : Prop where
  tables : s.db.tables = db.tables
  documents : ∀ d ∈ s.db.documents, d.sourceid = src d.id
  sets : ∀ userId, ∀ x ∈ s.sourceSet userId, x ∈ db.usersSources userId
  tapes : ∀ userId, ∀ d ∈ s.tape userId, src d ∈ db.usersSources userId

variable {src : Int → Int} {db : Platform} {userId : Int} {i : Nat} {s : State} {c : Call}

theorem Inv.exec (h : Inv src db s) (hc : ¬ Adds c) : Inv src db (exec c s).2 where
  tables := exec_db_tables.1.trans h.tables
  documents := by
    rw [exec_db_tables.2]
    exact h.documents
  sets u := by
    rw [exec_sourceSet fun he => hc (by cases c <;> trivial)]
    exact h.sets u
  tapes u d hd := by
    obtain ⟨p, hp⟩ := Redis.ZSet.mem_iff.mp hd
    have hsub : ((TapeService.exec c s).2.tape u).rows ⊆ (s.tape u).rows :=
      exec_tape_subset fun m p he => hc (he ▸ trivial)
    exact h.tapes u d (Redis.ZSet.mem_iff.mpr ⟨p, hsub hp⟩)

theorem Inv.zaddNx (h : Inv src db s) {d p : Int} (hd : src d ∈ db.usersSources userId) :
    Inv src db (TapeService.exec (.zaddNx (entriesKey userId) d p) s).2 where
  tables := h.tables
  documents := h.documents
  sets := h.sets
  tapes u e he := by
    by_cases hu : u = userId
    · subst hu
      rw [exec_zaddNx_tape, Redis.ZSet.mem_zaddNx] at he
      rcases he with he | rfl
      · exact h.tapes u e he
      · exact hd
    · have hkey : entriesKey userId ≠ entriesKey u := fun hk => hu (entriesKey_inj.mp hk).symm
      have htape : (TapeService.exec (.zaddNx (entriesKey userId) d p) s).2.tape u = s.tape u := exec_tape hkey
      exact h.tapes u e (htape ▸ he)

theorem Inv.replace (h : Inv src db s) {ids : List Int} (hids : ∀ x ∈ ids, x ∈ db.usersSources userId)
    {key : String} :
    Inv src db (TapeService.exec (.multiReplaceSources (cfgSourcesKey userId) ids key) s).2 where
  tables := h.tables
  documents := h.documents
  sets u x hx := by
    by_cases hu : u = userId
    · subst hu
      have hset : (TapeService.exec (.multiReplaceSources (cfgSourcesKey u) ids key) s).2.sourceSet u = ids.dedup :=
        put_self _ _ _
      rw [hset, List.mem_dedup] at hx
      exact hids x hx
    · have hkey : cfgSourcesKey userId ≠ cfgSourcesKey u := fun hk => hu (cfgSourcesKey_inj.mp hk).symm
      have hset : (TapeService.exec (.multiReplaceSources (cfgSourcesKey userId) ids key) s).2.sourceSet u =
          s.sourceSet u := exec_sourceSet hkey
      exact h.sets u x (hset ▸ hx)
  tapes := h.tapes

theorem Inv.of_env (h : Inv src db s) {e : Env} {s' : State} (hs : e.apply s = some s')
    (he : ∀ d, e = .insertDocument d → d.sourceid = src d.id) : Inv src db s' where
  tables := (Env.apply_tables hs).trans h.tables
  documents d hd := by
    rcases Env.mem_documents hs hd with hd | rfl
    · exact h.documents d hd
    · exact he d rfl
  sets u := (Env.apply_sourceSet hs).symm ▸ h.sets u
  tapes u := (Env.apply_tape hs).symm ▸ h.tapes u

theorem lookup_map {β : Type} {f : Int → β} {xs : List Int} {x : Int} (h : x ∈ xs) :
    (xs.map fun y => (y, f y)).lookup x = some (f x) := by
  induction xs with
  | nil => cases h
  | cons y ys ih =>
      rw [List.map_cons, List.lookup_cons]
      by_cases hxy : x = y
      · simp [hxy]
      · simpa [beq_eq_false_iff_ne.mpr hxy] using ih (by simpa [hxy] using h)

theorem mem_pageSourceIds {docs : List Document} {alreadyScored docIds : List Int} {docId : Int} {d : Document}
    (hid : docId ∈ docIds) (hscored : docId ∉ alreadyScored) (hd : docs.find? (·.id = docId) = some d) :
    d.sourceid ∈ pageSourceIds docs alreadyScored docIds :=
  List.mem_dedup.mpr (List.mem_filterMap.mpr ⟨docId, hid, by rw [if_neg hscored, hd]; rfl⟩)

theorem not_adds_of_reports (h : Reports userId c) : ¬ Adds c := by
  cases c <;> first | exact id | exact h.elim

theorem not_adds_of_closes (h : Closes userId i c) : ¬ Adds c := by
  rcases h with h | rfl
  · exact not_adds_of_reports h
  · exact id

end Permitted

section
variable [DatetimeLib]

/-- A document that comes in has the source that is fixed for its id. -/
def KeepsSources (src : Int → Int) (_ : Conf service) : Label service → Prop
  | .env (.insertDocument d) => d.sourceid = src d.id
  | _ => True

instance (src : Int → Int) (c : Conf service) (l : Label service) : Decidable (KeepsSources src c l) := by
  unfold KeepsSources
  split <;> infer_instance

namespace Permitted

theorem Inv.of_begin {src : Int → Int} {db : Platform} {s s' : State} {job : Job} (h : Inv src db s)
    (hs : job.begin s = some s') : Inv src db s' := by
  obtain ⟨ns, rfl⟩ := Job.begin_eq hs
  exact ⟨h.tables, h.documents, h.sets, h.tapes⟩

def protocol (src : Int → Int) (db : Platform) : Protocol service where
  inv w := Inv src db w.state
  guar _ _ _ := True
  rely _ _ _ _ := True
  may _ _ _ := True
  faults := True

variable {src : Int → Int} {db : Platform} {userId : Int} {i : Nat} {w : World service} {s : State}
  {ev : Event service} {c : Call}

theorem Inv.good (h : Inv src db s) : (protocol src db).Good i w ev s :=
  ⟨h, trivial, fun _ _ => trivial⟩

/-! ## The rules -/

theorem ask_triple {Q : c.Reply → Prop} (hc : ¬ Adds c)
    (hQ : ∀ s, Inv src db s → ∀ a, (TapeService.exec c s).1 = .ok a → Q a) :
    (protocol src db).Triple i (fun _ => True) (ask c) (upon (fun a _ => Q a) fun _ => True) := by
  refine Triple.perform (Stable.true i) fun w hw _ _ r s hr => ⟨?_, ?_⟩
  · rcases hr.state with rfl | rfl
    · exact Inv.good hw
    · exact Inv.good (Inv.exec hw hc)
  · cases r with
    | error e => trivial
    | ok a => exact hQ _ hw a hr.of_ok.2

theorem known_triple {α : Type} {p : Prog α} {K : Prop} {R : Except Exn α → World service → Prop}
    (h : K → (protocol src db).Triple i (fun _ => True) p R) : (protocol src db).Triple i (fun _ => K) p R :=
  fun w hw hK => h hK w hw trivial

theorem quiet {K : Prop} (hc : ¬ Adds c) : (protocol src db).Quiet i (fun _ => K) c := by
  intro w hw hK _ r s hr
  refine ⟨?_, hK⟩
  rcases hr.state with rfl | rfl
  · exact Inv.good hw
  · exact Inv.good (Inv.exec hw hc)

theorem keeps {α : Type} {p : Prog α} {K : Prop} (hp : p.Uses fun c => ¬ Adds c) :
    (protocol src db).Triple i (fun _ => K) p (upon (fun _ _ => K) fun _ => True) :=
  (Keeps.of_uses (fun _ _ _ _ _ _ _ _ h => h) (hp.mono fun _ => quiet)).upon fun _ _ _ => trivial

/-! ## The generation -/

theorem candidates_triple {sources existing : List Int} {dateFrom dateTo : Option Datetime} {ordering : String}
    (hsources : ∀ x ∈ sources, x ∈ db.usersSources userId) (hne : sources ≠ []) :
    (protocol src db).Triple i (fun _ => True) (candidatesForUser userId sources dateFrom dateTo ordering existing)
      (upon (fun docIds _ => ∀ d ∈ docIds, src d ∈ db.usersSources userId) fun _ => True) := by
  unfold candidatesForUser
  rw [if_neg hne]
  refine Triple.seq (ask_triple (Q := fun rows => ∀ d ∈ rows, src d ∈ db.usersSources userId) id ?_) fun rows => ?_
  · intro s hs a ha d hd
    cases ha
    obtain ⟨doc, hdoc, rfl, hsource⟩ := Platform.document_of_mem_candidates hd
    exact hs.documents doc hdoc ▸ hsources _ hsource
  · split
    · exact Triple.pure fun _ _ h => h
    · exact Triple.pure fun _ _ h d hd => h d (List.mem_of_mem_filter hd)

theorem zadd_triple {docId position : Int} (hd : src docId ∈ db.usersSources userId) :
    (protocol src db).Triple i (fun _ => True) (Client.zaddNx (entriesKey userId) docId position)
      fun _ _ => True := by
  refine Triple.perform (Stable.true i) fun w hw _ _ r s hr => ⟨?_, trivial⟩
  rcases hr.state with rfl | rfl
  · exact Inv.good hw
  · exact Inv.good (Inv.zaddNx hw hd)

/-- The sources that a worker has read are permitted, and so are the documents that it is going to add. -/
def generate (src : Int → Int) (db : Platform) (i : Nat) (userId : Int) (dirty : Bool) :
    GenerateOutline (protocol src db) i userId dirty where
  begun _ := True
  configured _ _ := True
  sourced _ sources _ := ∀ x ∈ sources, x ∈ db.usersSources userId
  wiped _ _ := True
  held _ sources _ := ∀ x ∈ sources, x ∈ db.usersSources userId
  measured _ sources _ _ := ∀ x ∈ sources, x ∈ db.usersSources userId
  ready _ sources _ _ := ∀ x ∈ sources, x ∈ db.usersSources userId
  adding _ docIds _ _ := ∀ d ∈ docIds, src d ∈ db.usersSources userId
  announced _ := True
  ended _ := True
  failed _ := True
  getConfig := Triple.conseq (keeps (getConfig_uses id)) (fun _ _ h => h) fun r _ _ _ => by
    rcases r with e | _ | cfg <;> trivial
  getConfigSources _ := by
    refine Triple.seq (ask_triple (Q := fun members => ∀ x ∈ members, x ∈ db.usersSources userId) id ?_) fun members =>
      Triple.pure fun w _ h x hx => h x (by simpa using hx)
    intro s hs a ha
    cases ha
    exact hs.sets userId
  leave _ _ _ _ _ := trivial
  wipe _ _ := Triple.conseq (keeps (uses_ask id)) (fun _ _ _ => trivial) fun r _ _ _ => by cases r <;> trivial
  wipe_clear _ _ := keeps (uses_ask id)
  acquire _ _ _ := Triple.conseq (keeps (uses_ask id)) (fun _ _ h => h) fun r _ _ h => by
    rcases r with e | _ | _
    · trivial
    · trivial
    · exact h
  held_reports _ _ _ hc := keeps (uses_ask (not_adds_of_reports hc))
  delete _ _ _ := keeps (uses_ask id)
  last _ _ _ := keeps (maxPosition_uses id)
  page _ _ _ _ := keeps (listEntriesPage_uses (fun _ _ => id) fun _ _ => id)
  candidates cfg sources base hne := known_triple fun hsources => candidates_triple hsources hne
  zadd added docId docIds position := known_triple fun hdocs => by
    refine Triple.conseq (zadd_triple (hdocs docId (by simp))) (fun _ _ h => h) fun r _ _ _ => ?_
    cases r with
    | error e => trivial
    | ok r => exact fun d hd => hdocs d (by simp [hd])
  announce added position := Triple.conseq (keeps (K := True) (Uses.forM added fun _ _ => uses_ask id))
    (fun _ _ _ => trivial) fun r _ _ _ => by cases r <;> trivial
  clear _ := keeps (uses_ask id)
  keep _ _ _ _ := trivial
  ended_failed _ _ _ := trivial
  ended_stable := Stable.true i
  ended_quiet _ hc := quiet (not_adds_of_closes hc)
  failed_stable := Stable.true i
  failed_quiet _ hc := quiet (not_adds_of_closes hc)

/-! ## The handlers -/

theorem hydrateSources_triple :
    (protocol src db).Triple i (fun _ => True) (hydrateSources userId)
      (upon (fun x _ => x.1 = db.usersSources userId) fun _ => True) := by
  refine Triple.seq (ask_triple (Q := fun allowed => allowed = db.usersSources userId) id ?_) fun allowed => ?_
  · intro s hs a ha
    cases ha
    exact Platform.usersSources_congr hs.tables
  · refine Triple.seq (keeps ?_) fun names => Triple.pure fun _ _ h => h
    unfold fetchSourceNames
    split
    · trivial
    · exact uses_ask id

/-- The sources that a request writes have passed the whitelist. -/
theorem writeConfig_triple {payload : ConfigUpdate} :
    (protocol src db).Triple i (fun _ => True) (writeConfig userId payload) fun _ _ => True := by
  refine Triple.bind hydrateSources_triple (fun allowed => ?_) fun _ _ _ _ => trivial
  obtain ⟨allowed, available⟩ := allowed
  refine known_triple fun hallowed => ?_
  simp only
  split
  · exact Triple.raise fun _ _ _ => trivial
  · rename_i hbad
    have hids : ∀ x ∈ payload.selectedSourceIds, x ∈ db.usersSources userId := by
      intro x hx
      by_contra hnot
      have hmem : x ∈ payload.selectedSourceIds.dedup.filter (· ∉ allowed) :=
        List.mem_filter.mpr ⟨List.mem_dedup.mpr hx, by simpa [show allowed = _ from hallowed] using hnot⟩
      rw [not_not.mp hbad] at hmem
      cases hmem
    refine Triple.bind (keeps (uses_ask id)) (fun _ => ?_) fun _ _ _ _ => trivial
    refine Triple.bind (Q := fun _ _ => True) (Triple.perform (Stable.true i) fun w hw _ _ r s hr => ⟨?_, trivial⟩)
      (fun _ => ?_) fun _ _ _ _ => trivial
    · rcases hr.state with rfl | rfl
      · exact Inv.good hw
      · exact Inv.good (Inv.replace hw hids)
    · refine Triple.bind (keeps (uses_ask id)) (fun _ => ?_) fun _ _ _ _ => trivial
      refine Triple.conseq (keeps (readConfig_uses.mono fun c hc hadds => ?_)) (fun _ _ h => h) fun _ _ _ _ => trivial
      cases c <;> first | exact hadds | exact hc

/-- The item is of a permitted source, and its roles are those for the source. -/
def Shown (db : Platform) (userId : Int) (item : TapeItem) : Prop :=
  item.document.sourceId ∈ db.usersSources userId ∧
    item.roles.map (·.id) = db.usersRolesForSource userId item.document.sourceId

theorem rolesPerSource_triple (sids : List Int) :
    (protocol src db).Triple i (fun _ => True) (rolesPerSource userId sids)
      (upon (fun perSource _ => perSource = sids.map fun sid => (sid, db.usersRolesForSource userId sid))
        fun _ => True) := by
  induction sids with
  | nil => exact Triple.pure fun _ _ _ => rfl
  | cons sid sids ih =>
      refine Triple.seq (ask_triple (Q := fun rids => rids = db.usersRolesForSource userId sid) id ?_) fun rids => ?_
      · intro s hs a ha
        cases ha
        exact Platform.usersRolesForSource_congr hs.tables
      · refine known_triple fun hrids => Triple.seq ih fun rest => Triple.pure fun w _ hrest => ?_
        rw [hrids, show rest = _ from hrest, List.map_cons]

theorem rolesBySource_triple {sids : List Int} :
    (protocol src db).Triple i (fun _ => True) (rolesBySource userId sids)
      (upon (fun rolesBySrc _ => ∀ sid ∈ sids,
        ((rolesBySrc.lookup sid).getD []).map RoleRef.id = db.usersRolesForSource userId sid) fun _ => True) := by
  refine Triple.seq (rolesPerSource_triple sids) fun perSource => known_triple fun hper => ?_
  refine Triple.seq (keeps (K := True) ?_) fun names => Triple.pure fun w _ _ sid hsid => ?_
  · unfold fetchRoleNames
    split
    · trivial
    · exact uses_ask id
  · simp only [show perSource = _ from hper, List.map_map]
    rw [show ((fun x : Int × List Int =>
        (x.1, x.2.map fun rid => ({ id := rid, name := names.lookup rid } : RoleRef))) ∘
      fun sid => (sid, db.usersRolesForSource userId sid)) = fun sid => (sid, (db.usersRolesForSource userId sid).map
        fun rid => ({ id := rid, name := names.lookup rid } : RoleRef)) from rfl, lookup_map hsid]
    simp [Function.comp_def]

theorem pageItems_triple {displayMode : String} {docs : List Document} {alreadyScored : List Int}
    {rolesBySrc : List (Int × List RoleRef)} (rows : List (Int × Int))
    (h : ∀ row ∈ rows, row.2 ∉ alreadyScored → ∀ d, docs.find? (·.id = row.2) = some d →
      Shown db userId (tapeItem displayMode rolesBySrc row.1 d)) :
    (protocol src db).Triple i (fun _ => True) (pageItems userId displayMode docs alreadyScored rolesBySrc rows)
      (upon (fun items _ => ∀ item ∈ items, Shown db userId item) fun _ => True) := by
  induction rows with
  | nil => exact Triple.pure fun _ _ _ => nofun
  | cons row rows ih =>
      have hrest := ih fun row' hrow' => h row' (List.mem_cons_of_mem _ hrow')
      obtain ⟨position, docId⟩ := row
      unfold pageItems
      split
      · refine Triple.seq (keeps (K := True) (uses_ask id)) fun removed => ?_
        split
        · exact Triple.seq (keeps (K := True) (uses_ask id)) fun _ => hrest
        · exact hrest
      · rename_i hscored
        cases hd : docs.find? (·.id = docId) with
        | none => exact hrest
        | some d =>
            refine Triple.seq hrest fun items => Triple.pure fun w _ hitems item hitem => ?_
            rcases List.mem_cons.mp hitem with rfl | hitem
            · exact h (position, docId) List.mem_cons_self hscored d hd
            · exact hitems item hitem

theorem listEntriesPage_triple {after : Option Int} {limit : Int} :
    (protocol src db).Triple i (fun _ => True) (listEntriesPage userId after limit)
      (upon (fun rows _ => ∀ row ∈ rows, src row.2 ∈ db.usersSources userId) fun _ => True) := by
  have hrows : ∀ {s : State}, Inv src db s → ∀ rows : List (Int × Int), rows ⊆ (s.tape userId).rows →
      ∀ row ∈ rows, src row.1 ∈ db.usersSources userId :=
    fun hs rows hsub row hrow => hs.tapes userId row.1 (Redis.ZSet.mem_iff.mpr ⟨row.2, hsub hrow⟩)
  have hpage : ∀ rows : List (Int × Int), (protocol src db).Triple i
      (fun _ => ∀ row ∈ rows, src row.1 ∈ db.usersSources userId) (pure (rows.map fun row => (row.2, row.1)))
      (upon (fun rows _ => ∀ row ∈ rows, src row.2 ∈ db.usersSources userId) fun _ => True) := by
    refine fun rows => Triple.pure fun w _ h row hrow => ?_
    obtain ⟨row', hrow', rfl⟩ := List.mem_map.mp hrow
    exact h row' hrow'
  cases after with
  | none =>
      refine Triple.seq (ask_triple (Q := fun rows => ∀ row ∈ rows, src row.1 ∈ db.usersSources userId) id ?_) hpage
      intro s hs a ha
      cases ha
      exact hrows hs _ Redis.ZSet.zrange_sublist.subset
  | some a =>
      refine Triple.seq (ask_triple (Q := fun rows => ∀ row ∈ rows, src row.1 ∈ db.usersSources userId) id ?_) hpage
      intro s hs a ha
      cases ha
      exact hrows hs _ Redis.ZSet.zrangebyscore_sublist.subset

theorem fetchByIds_triple {ids : List Int} :
    (protocol src db).Triple i (fun _ => True) (fetchByIds ids)
      (upon (fun (docs : List Document) _ => ∀ d ∈ docs, d.sourceid = src d.id) fun _ => True) := by
  unfold fetchByIds
  split
  · exact Triple.pure fun _ _ _ => nofun
  · refine ask_triple (c := .fetchByIds ids) (Q := fun docs => ∀ d ∈ docs, d.sourceid = src d.id) id ?_
    intro s hs a ha
    cases ha
    exact fun d hd => hs.documents d (List.mem_of_mem_filter hd)

theorem readRows_triple {cfg : TapeConfig} {rows : List (Int × Int)}
    (hrows : ∀ row ∈ rows, src row.2 ∈ db.usersSources userId) :
    (protocol src db).Triple i (fun _ => True) (readRows userId cfg rows)
      (upon (fun page _ => ∀ item ∈ page.items, Shown db userId item) fun _ => True) := by
  refine Triple.seq fetchByIds_triple fun docs => known_triple fun hdocs => ?_
  refine Triple.seq (keeps (K := True) (filterAlreadyScored_uses fun _ => id)) fun alreadyScored => ?_
  refine Triple.seq rolesBySource_triple fun rolesBySrc => known_triple fun hroles => ?_
  refine Triple.seq (pageItems_triple rows fun row hrow hscored d hd => ?_) fun items => Triple.pure fun _ _ h => h
  have hid : d.id = row.2 := by simpa using List.find?_some hd
  have hsource : d.sourceid = src row.2 := hid ▸ hdocs d (List.mem_of_find?_eq_some hd)
  have hpermitted : d.sourceid ∈ db.usersSources userId := hsource ▸ hrows row hrow
  exact ⟨hpermitted, hroles d.sourceid (mem_pageSourceIds (List.mem_map_of_mem hrow) hscored hd)⟩

theorem readTape_triple {after : Option Nat} :
    (protocol src db).Triple i (fun _ => True) (readTape userId after)
      (upon (fun page _ => ∀ item ∈ page.items, Shown db userId item) fun _ => True) := by
  refine Triple.seq (keeps (K := True) (uses_ask id)) fun locked => ?_
  cases locked with
  | true => exact Triple.raise fun _ _ _ => trivial
  | false =>
      refine Triple.seq (keeps (K := True) (getConfig_uses id)) fun cfg => ?_
      cases cfg with
      | none => exact Triple.pure fun _ _ _ => nofun
      | some cfg =>
          refine Triple.seq listEntriesPage_triple fun rows => known_triple fun hrows => ?_
          split
          · exact Triple.seq (keeps (K := True) (uses_ask id)) fun total => Triple.pure fun _ _ _ => nofun
          · exact readRows_triple hrows

/-! ## The outline -/

def post (db : Platform) (job : Job) (r : Except Exn Out) : Prop :=
  ∀ userId after page, job = .readTape userId after → r = .ok (.page page) → ∀ item ∈ page.items, Shown db userId item

theorem body_triple {job : Job} :
    (protocol src db).Triple i (fun _ => True) (Job.body i job) fun r _ => post db job r := by
  cases job with
  | readTape u after =>
      refine Triple.map readTape_triple fun r w _ h userId' after' page hj hr => ?_
      cases hj
      cases r with
      | error e => cases hr
      | ok x => cases hr; exact h
  | generate u dirty => exact Triple.map (generate src db i u dirty).triple fun _ _ _ _ => nofun
  | writeConfig u payload => exact Triple.map writeConfig_triple fun _ _ _ _ => nofun
  | submitScore u payload =>
      refine Triple.map (keeps (K := True) (submitScore_uses.mono fun c hc hadds => ?_)) fun _ _ _ _ => nofun
      cases c <;> first | exact hadds | exact hc
  | readConfig u =>
      refine Triple.map (keeps (K := True) (readConfig_uses.mono fun c hc hadds => ?_)) fun _ _ _ _ => nofun
      cases c <;> first | exact hadds | exact hc
  | handle n =>
      refine Triple.map (keeps (K := True) ((handle_uses_decoded n.payload).mono fun c hc hadds => ?_))
        fun _ _ _ _ => nofun
      obtain ⟨u, d, -, hc⟩ := hc
      cases c <;> first | exact hadds | exact hc

def outline (src : Int → Int) (db : Platform) : Outline service (KeepsSources src) where
  toProtocol := protocol src db
  post _ job r _ := post db job r
  post_stable _ _ _ _ _ _ _ _ _ _ h := h
  may_ok _ _ _ _ _ _ _ := trivial
  may_fail _ _ _ _ _ _ _ _ _ := ⟨trivial, trivial⟩
  start_ok c job s _ hw _ hs := by
    have hinv : Inv src db s := hw.of_begin hs
    exact ⟨hinv.good, body_triple _ hinv trivial⟩
  crash_ok _ _ _ hw := Inv.good hw
  env_ok c e s hok hw hs := by
    refine ⟨hw.of_env hs fun d hd => ?_, trivial, fun _ _ _ _ => trivial⟩
    subst hd
    exact hok

end Permitted

/-- Whatever page a user gets, its documents come from sources that some role permits, and each item lists
exactly the roles that do. -/
theorem shown_permitted {src : Int → Int} {db : Platform} (hfk : db.ForeignKeys)
    (hsrc : ∀ d ∈ db.documents, d.sourceid = src d.id) {c : Conf service}
    (h : Reach (KeepsSources src) ⟨.empty, db⟩ c) {i : Nat} {userId : Int} {after : Option Nat} {page : TapePage}
    (hpage : c.threads[i]?.bind page? = some (userId, after, page)) :
    ∀ item ∈ page.items, item.document.sourceId ∈ db.usersSources userId ∧ item.roles ≠ [] ∧
      (item.roles.map (·.id)).Nodup ∧
      ∀ roleId, roleId ∈ item.roles.map (·.id) ↔ db.Permits userId roleId item.document.sourceId := by
  have hinit : (Permitted.outline src db).inv ⟨⟨.empty, db⟩, []⟩ :=
    ⟨rfl, hsrc, fun _ _ hx => (nomatch hx), fun _ d hd => absurd hd (Redis.ZSet.not_mem_empty d)⟩
  obtain ⟨t, ht, hpage⟩ := Option.bind_eq_some_iff.mp hpage
  obtain ⟨hjob, hr⟩ := page?_eq_some hpage
  intro item hitem
  obtain ⟨hsource, hroles⟩ := (Outline.holds_of_reach hinit h).outcome ht hr userId after page hjob rfl item hitem
  have hiff : ∀ roleId, roleId ∈ item.roles.map (·.id) ↔ db.Permits userId roleId item.document.sourceId := by
    intro roleId
    rw [hroles]
    exact Platform.mem_usersRolesForSource hfk
  refine ⟨hsource, fun hnil => ?_, hroles ▸ List.nodup_dedup _, hiff⟩
  obtain ⟨-, roleId, hpermits⟩ := Platform.mem_usersSources.mp hsource
  have hmem := (hiff roleId).mpr hpermits
  rw [hnil] at hmem
  cases hmem

end

section
open scoped Python.Utc

/-- A tape is built and read. -/
def Sample.readBuilt : Conf service :=
  (Sample.start [Sample.article 7]).play (Sample.build ++ .start (.readTape 1 none) :: Sample.runs 2 10)

def Sample.shownPage : TapePage :=
  { items := [tapeItem "compact" [(1, [⟨1, some "analyst"⟩])] 0 (Sample.article 7)], nextPosition := none, state := .ok
    displayMode := "compact" }

theorem built_shown_permitted :
    Sample.shownPage.items.length = 1 ∧ ∀ item ∈ Sample.shownPage.items,
      item.document.sourceId ∈ (Platform.start [Sample.article 7]).usersSources 1 ∧
      item.roles ≠ [] ∧ (item.roles.map (·.id)).Nodup ∧
      ∀ roleId, roleId ∈ item.roles.map (·.id) ↔
        (Platform.start [Sample.article 7]).Permits 1 roleId item.document.sourceId := by
  have hfk : (Platform.start [Sample.article 7]).ForeignKeys :=
    ⟨by decide +kernel, by decide +kernel, by decide +kernel⟩
  have hobeys : (Sample.start [Sample.article 7]).Obeys (KeepsSources fun _ => 1)
      (Sample.build ++ .start (.readTape 1 none) :: Sample.runs 2 10) := by
    decide +kernel
  have hreach : Reach (KeepsSources fun _ => 1) ⟨.empty, .start [Sample.article 7]⟩ Sample.readBuilt :=
    Steps.play hobeys
  have hpage : Sample.readBuilt.threads[2]?.bind page? = some (1, none, Sample.shownPage) := by decide +kernel
  exact ⟨rfl, shown_permitted hfk (by decide +kernel) hreach hpage⟩

end

end TapeService
