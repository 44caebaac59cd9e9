import TapeService.Lemmas.Config
import TapeService.Lemmas.Footprints

/-!
# Concurrent updates of a config

A `PUT /config` writes the hash first and the source set in a step of its own. What is stored in the end is
the payload of one request, if the sets are replaced in the order in which the hashes were written.
-/

namespace TapeService

open Interleaving Interleaving.Program Interleaving.Protocol Python

/-! ## The writes -/

/-- The fields that the call writes into the config hash, unless it only clears the dirty flag. -/
def Call.upserts? (userId : Int) : Call → Option (List (String × String))
  | .hset key mapping => if key = cfgKey userId ∧ mapping ≠ [("dirty", "0")] then some mapping else none
  | _ => none

/-- The ids that the call replaces the source set with. -/
def Call.replaces? (userId : Int) : Call → Option (List Int)
  | .multiReplaceSources key sourceIds _ => if key = cfgSourcesKey userId then some sourceIds else none
  | _ => none

def Call.Writes (userId : Int) (c : Call) : Prop := c.upserts? userId ≠ none ∨ c.replaces? userId ≠ none

theorem exec_of_not_writes {userId : Int} {c : Call} (h : ¬ c.Writes userId) (s : State) :
    (∀ field, field ≠ "dirty" → ((exec c s).2.cfg userId).get field = (s.cfg userId).get field) ∧
      (exec c s).2.sourceSet userId = s.sourceSet userId := by
  obtain ⟨hu, hr⟩ := not_or.mp h
  refine ⟨fun field hf => exec_cfg_get (fun mapping he => ?_) hf, exec_sourceSet fun he => ?_⟩
  · subst he
    by_contra hne
    simp [Call.upserts?, hne] at hu
  · cases c with
    | multiReplaceSources key ids hashKey => simp [Call.replaces?, show key = cfgSourcesKey userId from he] at hr
    | _ => exact he

section
variable [DatetimeLib]

/-- The thread has replaced the source set of the user. -/
def Replaced (userId : Int) (i : Nat) (log : List (Event service)) : Prop :=
  ∃ ev ∈ log, (ev.made? (Call.replaces? userId)).map Prod.fst = some i

/-- The source set is replaced only while the request that has written the hash last is the same one, or has
still to replace the set. -/
def MayReplace (userId : Int) (w : World service) (i : Nat) (q : Call) : Prop :=
  (q.replaces? userId).isSome → ∀ x ∈ lastMade? (Call.upserts? userId) w.log, x.1 = i ∨ ¬ Replaced userId x.1 w.log

def ReplacesInOrder (userId : Int) (c : Conf service) (l : Label service) : Prop :=
  ∀ x ∈ c.call? l, MayReplace userId c.world x.1 x.2

instance (userId : Int) (i : Nat) (log : List (Event service)) : Decidable (Replaced userId i log) :=
  inferInstanceAs (Decidable (∃ ev ∈ log, _ = _))

instance (userId : Int) (w : World service) (i : Nat) (q : Call) : Decidable (MayReplace userId w i q) :=
  inferInstanceAs (Decidable (_ → ∀ x ∈ lastMade? _ _, _ ∨ ¬ _))

instance (userId : Int) (c : Conf service) (l : Label service) : Decidable (ReplacesInOrder userId c l) :=
  inferInstanceAs (Decidable (∀ x ∈ c.call? l, _))

/-- What is stored is the payload. -/
def Stores (userId : Int) (payload : ConfigUpdate) (s : State) : Prop :=
  (∀ x ∈ configMapping payload.ordering payload.displayMode payload.pageSize payload.dateFrom payload.dateTo,
    x.1 ≠ "dirty" → (s.cfg userId).get x.1 = some x.2) ∧
    ∀ d, d ∈ s.sourceSet userId ↔ d ∈ payload.selectedSourceIds

/-- Every request that has written something of the config has returned. -/
def UpdatesFinished (userId : Int) (c : Conf service) : Prop :=
  ∀ i t payload, c.threads[i]? = some t → t.job = .writeConfig userId payload →
    t.returned?.isSome ∨ ∀ q r, .called i q r ∈ c.world.log → ¬ q.Writes userId

variable {userId : Int} {i : Nat} {w : World service} {s : State}
  {ev : Event service} {log : List (Event service)}

theorem Replaced.cons (h : Replaced userId i log) : Replaced userId i (ev :: log) := by
  obtain ⟨ev', hev', hi⟩ := h
  exact ⟨ev', List.mem_cons_of_mem _ hev', hi⟩

theorem replaced_of_cons (h : Replaced userId i (ev :: log))
    (hev : (ev.made? (Call.replaces? userId)).map Prod.fst ≠ some i) :
    Replaced userId i log := by
  obtain ⟨ev', hev', hi⟩ := h
  rcases List.mem_cons.mp hev' with rfl | hev'
  · exact absurd hi hev
  · exact ⟨ev', hev', hi⟩

theorem JobCall.writer {job : Job} {c : Call} (h : JobCall i job c) (hc : c.Writes userId) :
    ∃ payload, job = .writeConfig userId payload ∧
      (∀ m ∈ c.upserts? userId, m = configMapping payload.ordering payload.displayMode payload.pageSize
        payload.dateFrom payload.dateTo) ∧
      ∀ ids ∈ c.replaces? userId, ids = payload.selectedSourceIds := by
  cases job with
  | writeConfig u payload =>
      have hu : u = userId := by
        rcases hc with hc | hc <;> cases c <;>
          simp_all [JobCall, WriteConfigCall, ReadConfigCall, Call.upserts?, Call.replaces?]
      subst hu
      refine ⟨payload, rfl, fun m hm => ?_, fun ids hids => ?_⟩
      · cases c <;> simp_all [JobCall, WriteConfigCall, Call.upserts?]
      · cases c <;> simp_all [JobCall, WriteConfigCall, Call.replaces?]
  | handle n =>
      obtain ⟨u, d, -, h⟩ := h
      rcases hc with hc | hc <;> cases c <;> simp_all [HandleCall, Call.upserts?, Call.replaces?]
  | generate u dirty =>
      rcases hc with hc | hc <;> cases c <;> simp_all [JobCall, GenerateCall, Call.upserts?, Call.replaces?]
  | readTape u after =>
      rcases hc with hc | hc <;> cases c <;> simp_all [JobCall, ReadTapeCall, Call.upserts?, Call.replaces?]
  | submitScore u payload =>
      rcases hc with hc | hc <;> cases c <;> simp_all [JobCall, SubmitScoreCall, Call.upserts?, Call.replaces?]
  | readConfig u =>
      rcases hc with hc | hc <;> cases c <;> simp_all [JobCall, ReadConfigCall, Call.upserts?, Call.replaces?]

namespace ConfigUpdates

/-- A write of thread `i` has raised: it may have taken effect or not. -/
def TornBy (userId : Int) (i : Nat) (log : List (Event service)) : Prop :=
  ∃ q e, .called i q (.error e) ∈ log ∧ q.Writes userId

def Upserted (userId : Int) (i : Nat) (log : List (Event service)) : Prop :=
  ∃ ev ∈ log, (ev.made? (Call.upserts? userId)).map Prod.fst = some i

/-- What is stored comes from the last writes, and who has written the hash last has replaced the set last. -/
structure Paired (userId : Int) (w : World service) : Prop where
  hash : ∀ x ∈ lastMade? (Call.upserts? userId) w.log, ∀ kv ∈ x.2, kv.1 ≠ "dirty" →
    (w.state.cfg userId).get kv.1 = some kv.2
  sources : ∀ x ∈ lastMade? (Call.replaces? userId) w.log, w.state.sourceSet userId = x.2.dedup
  order : ∀ x ∈ lastMade? (Call.upserts? userId) w.log, Replaced userId x.1 w.log →
    (lastMade? (Call.replaces? userId) w.log).map Prod.fst = some x.1

def protocol (userId : Int) : Protocol service where
  inv w := (∃ i, TornBy userId i w.log) ∨ Paired userId w
  guar _ _ _ := True
  rely _ _ _ _ := True
  may := MayReplace userId
  faults := True

/-- The event is a write of thread `i`. -/
def Wrote (userId : Int) (i : Nat) (ev : Event service) : Prop := ∃ q r, ev = .called i q r ∧ q.Writes userId

theorem not_wrote_of_thread (h : ev.thread? ≠ some i) : ¬ Wrote userId i ev := by
  rintro ⟨q, r, rfl, -⟩
  exact h rfl

theorem not_wrote_called {j : Nat} {c : Call} {r : Except Exn c.Reply} (h : ¬ c.Writes userId) :
    ¬ Wrote userId j (.called i c r) := by
  rintro ⟨q, r', he, hq⟩
  cases he
  exact h hq

/-- Thread `i` has not replaced the set yet. -/
def Begun (userId : Int) (i : Nat) (w : World service) : Prop :=
  ¬ Replaced userId i w.log ∧ ¬ TornBy userId i w.log

def Halfway (userId : Int) (i : Nat) (w : World service) : Prop :=
  Upserted userId i w.log ∧ ¬ TornBy userId i w.log

def Done (userId : Int) (i : Nat) (w : World service) : Prop :=
  Upserted userId i w.log ∧ Replaced userId i w.log ∧ ¬ TornBy userId i w.log

theorem TornBy.cons (h : TornBy userId i log) : TornBy userId i (ev :: log) := by
  obtain ⟨q, e, hmem, hq⟩ := h
  exact ⟨q, e, List.mem_cons_of_mem _ hmem, hq⟩

theorem tornBy_of_cons (h : TornBy userId i (ev :: log))
    (hev : ∀ q e, ev = .called i q (.error e) → ¬ q.Writes userId) :
    TornBy userId i log := by
  obtain ⟨q, e, hmem, hq⟩ := h
  rcases List.mem_cons.mp hmem with he | hmem
  · exact absurd hq (hev q e he.symm)
  · exact ⟨q, e, hmem, hq⟩

theorem tornBy_of_ok {j : Nat} {c : Call} {a : c.Reply} (h : TornBy userId i (.called j c (.ok a) :: log)) :
    TornBy userId i log :=
  tornBy_of_cons h fun _ _ he => by cases he

theorem Upserted.cons (h : Upserted userId i log) : Upserted userId i (ev :: log) := by
  obtain ⟨ev', hev', hi⟩ := h
  exact ⟨ev', List.mem_cons_of_mem _ hev', hi⟩

theorem tornBy_of_unwritten (hev : ¬ Wrote userId i ev) (h : TornBy userId i (ev :: log)) : TornBy userId i log :=
  tornBy_of_cons h fun q e he hq => hev ⟨q, .error e, he, hq⟩

theorem replaced_of_unwritten (hev : ¬ Wrote userId i ev) (h : Replaced userId i (ev :: log)) :
    Replaced userId i log := by
  refine replaced_of_cons h fun hi => hev ?_
  obtain ⟨⟨j, ids⟩, hmade, rfl⟩ := Option.map_eq_some_iff.mp hi
  cases ev with
  | called k c r =>
      obtain ⟨ids', hids, he⟩ := Option.map_eq_some_iff.mp hmade
      cases he
      exact ⟨c, r, rfl, .inr (by simp [hids])⟩
  | _ => cases hmade

theorem begun_push (w : World service) (ev : Event service) (s : State) (hev : ¬ Wrote userId i ev)
    (h : Begun userId i w) : Begun userId i (w.push ev s) :=
  ⟨fun hr => h.1 (replaced_of_unwritten hev hr), fun ht => h.2 (tornBy_of_unwritten hev ht)⟩

theorem halfway_push (w : World service) (ev : Event service) (s : State) (hev : ¬ Wrote userId i ev)
    (h : Halfway userId i w) : Halfway userId i (w.push ev s) :=
  ⟨h.1.cons, fun ht => h.2 (tornBy_of_unwritten hev ht)⟩

theorem done_push (w : World service) (ev : Event service) (s : State) (hev : ¬ Wrote userId i ev)
    (h : Done userId i w) : Done userId i (w.push ev s) :=
  ⟨h.1.cons, h.2.1.cons, fun ht => h.2.2 (tornBy_of_unwritten hev ht)⟩

/-! ## The steps -/

theorem made?_of_unwritten (hev : ∀ j, ¬ Wrote userId j ev) :
    ev.made? (Call.upserts? userId) = none ∧ ev.made? (Call.replaces? userId) = none := by
  cases ev with
  | called j c r =>
      constructor <;> refine Option.map_eq_none_iff.mpr (by_contra fun hne => hev j ⟨c, r, rfl, ?_⟩)
      · exact .inl hne
      · exact .inr hne
  | _ => exact ⟨rfl, rfl⟩

theorem good_of_unwritten (hw : (protocol userId).inv w) (hev : ∀ j, ¬ Wrote userId j ev)
    (hcfg : ∀ field, field ≠ "dirty" → (s.cfg userId).get field = (w.state.cfg userId).get field)
    (hsrc : s.sourceSet userId = w.state.sourceSet userId) : (protocol userId).Good i w ev s := by
  obtain ⟨hu, hr⟩ := made?_of_unwritten hev
  refine ⟨?_, trivial, fun _ _ => trivial⟩
  rcases hw with ⟨j, ht⟩ | hp
  · exact .inl ⟨j, ht.cons⟩
  · refine .inr ⟨fun x hx kv hkv hd => ?_, fun x hx => ?_, fun x hx hrep => ?_⟩
    · rw [World.push_log, lastMade?_cons, hu] at hx
      exact (hcfg _ hd).trans (hp.hash x hx kv hkv hd)
    · rw [World.push_log, lastMade?_cons, hr] at hx
      exact hsrc.trans (hp.sources x hx)
    · rw [World.push_log, lastMade?_cons, hu] at hx
      rw [World.push_log, lastMade?_cons, hr]
      exact hp.order x hx (replaced_of_unwritten (hev x.1) hrep)

theorem good_of_torn (ht : TornBy userId i (ev :: w.log)) : (protocol userId).Good i w ev s :=
  ⟨.inl ⟨i, ht⟩, trivial, fun _ _ => trivial⟩

theorem good_of_upsert (hw : (protocol userId).inv w) (hb : ¬ Replaced userId i w.log)
    {mapping : List (String × String)} (hne : mapping ≠ [("dirty", "0")]) (hnodup : (mapping.map Prod.fst).Nodup) :
    (protocol userId).Good i w (.called i (.hset (cfgKey userId) mapping) (.ok ()))
      (exec (.hset (cfgKey userId) mapping) w.state).2 := by
  refine ⟨?_, trivial, fun _ _ => trivial⟩
  have hu : (Event.called i (.hset (cfgKey userId) mapping) (.ok ()) : Event service).made?
      (Call.upserts? userId) = some (i, mapping) := by
    simp [Event.made?, Call.upserts?, hne]
  rcases hw with ⟨j, ht⟩ | hp
  · exact .inl ⟨j, ht.cons⟩
  · refine .inr ⟨fun x hx kv hkv _ => ?_, hp.sources, fun x hx hrep => ?_⟩
    · rw [World.push_log, lastMade?_cons, hu] at hx
      cases hx
      simp only [exec, World.push_state, State.cfg, State.setHash, put_self]
      exact Hash.get_hset_of_mem hnodup hkv
    · rw [World.push_log, lastMade?_cons, hu] at hx
      cases hx
      exact absurd (replaced_of_cons hrep (by simp [Event.made?, Call.replaces?])) hb

/-- Who replaces the set has written the hash last, or the one who has is still to replace the set. -/
theorem good_of_replace (hw : (protocol userId).inv w) {ids : List Int}
    (hm : MayReplace userId w i (.multiReplaceSources (cfgSourcesKey userId) ids (cfgKey userId))) :
    (protocol userId).Good i w
      (.called i (.multiReplaceSources (cfgSourcesKey userId) ids (cfgKey userId)) (.ok ()))
      (exec (.multiReplaceSources (cfgSourcesKey userId) ids (cfgKey userId)) w.state).2 := by
  refine ⟨?_, trivial, fun _ _ => trivial⟩
  have hr : (Event.called i (.multiReplaceSources (cfgSourcesKey userId) ids (cfgKey userId)) (.ok ()) :
      Event service).made? (Call.replaces? userId) = some (i, ids) := by
    simp [Event.made?, Call.replaces?]
  rcases hw with ⟨j, ht⟩ | hp
  · exact .inl ⟨j, ht.cons⟩
  · refine .inr ⟨fun x hx kv hkv hd => ?_, fun x hx => ?_, fun x hx hrep => ?_⟩
    · exact (exec_cfg_get (fun _ he => by cases he) hd).trans (hp.hash x hx kv hkv hd)
    · rw [World.push_log, lastMade?_cons, hr] at hx
      cases hx
      exact put_self _ _ _
    · rw [World.push_log, lastMade?_cons, hr]
      by_cases hxi : i = x.1
      · exact congrArg some hxi
      · have hnot := (hm (by simp [Call.replaces?]) x hx).resolve_left fun he => hxi he.symm
        refine absurd (replaced_of_cons hrep ?_) hnot
        simpa [hr] using hxi

/-! ## The jobs -/

theorem quiet_of_not_writes {A : World service → Prop} (hA : ∀ w ev s, ¬ Wrote userId i ev → A w → A (w.push ev s))
    {c : Call} (hc : ¬ c.Writes userId) : (protocol userId).Quiet i A c := by
  intro w hw hAw _ r s hr
  have hev : ∀ j, ¬ Wrote userId j (.called i c r) := fun j => not_wrote_called hc
  refine ⟨?_, hA w _ s (hev i) hAw⟩
  obtain ⟨hcfg, hsrc⟩ := exec_of_not_writes hc w.state
  rcases hr.state with rfl | rfl
  · exact good_of_unwritten hw hev (fun _ _ => rfl) rfl
  · exact good_of_unwritten hw hev hcfg hsrc

theorem stable_of_push {A : World service → Prop} (hA : ∀ w ev s, ¬ Wrote userId i ev → A w → A (w.push ev s)) :
    (protocol userId).Stable i A :=
  fun w ev s _ _ hev _ _ h => hA w ev s (not_wrote_of_thread hev) h

theorem keeps_of_not_writes {α : Type} {A : World service → Prop}
    (hA : ∀ w ev s, ¬ Wrote userId i ev → A w → A (w.push ev s)) {p : Prog α}
    (hp : p.Uses fun c : Call => ¬ c.Writes userId) :
    (protocol userId).Triple i A p (upon (fun _ => A) fun _ => True) :=
  (Keeps.of_uses (stable_of_push hA) (hp.mono fun _ hc => quiet_of_not_writes hA hc)).upon fun _ _ _ => trivial

theorem upsert_triple {payload : ConfigUpdate} :
    (protocol userId).Triple i (Begun userId i)
      (upsertConfig userId payload.ordering payload.displayMode payload.pageSize payload.dateFrom payload.dateTo)
      (upon (fun _ => Halfway userId i) fun _ => True) := by
  have hne : configMapping payload.ordering payload.displayMode payload.pageSize payload.dateFrom payload.dateTo ≠
      [("dirty", "0")] := by
    simp [configMapping]
  refine Triple.perform (stable_of_push begun_push) fun w hw h hm r s hr => ?_
  cases r with
  | error e =>
      refine ⟨good_of_torn ⟨_, e, List.mem_cons_self, .inl ?_⟩, trivial⟩
      simp [Call.upserts?, hne]
  | ok a =>
      obtain ⟨rfl, -⟩ := hr.of_ok
      refine ⟨good_of_upsert hw h.1 hne (by simp [configMapping]), ⟨_, List.mem_cons_self, ?_⟩, fun ht => ?_⟩
      · simp [Event.made?, Call.upserts?, hne]
      · exact h.2 (tornBy_of_ok ht)

theorem replace_triple {ids : List Int} :
    (protocol userId).Triple i (Halfway userId i) (setConfigSources userId ids)
      (upon (fun _ => Done userId i) fun _ => True) := by
  refine Triple.perform (stable_of_push halfway_push) fun w hw h hm r s hr => ?_
  cases r with
  | error e =>
      refine ⟨good_of_torn ⟨_, e, List.mem_cons_self, .inr ?_⟩, trivial⟩
      simp [Call.replaces?]
  | ok a =>
      obtain ⟨rfl, -⟩ := hr.of_ok
      refine ⟨good_of_replace hw hm, h.1.cons, ⟨_, List.mem_cons_self, ?_⟩, fun ht => ?_⟩
      · simp [Event.made?, Call.replaces?]
      · exact h.2 (tornBy_of_ok ht)

theorem writeConfig_triple {payload : ConfigUpdate} :
    (protocol userId).Triple i (Begun userId i) (writeConfig userId payload)
      (upon (fun _ => Done userId i) fun _ => True) := by
  have hread : ∀ c : Call, ReadConfigCall userId c → ¬ c.Writes userId := by
    intro c hc hw
    rcases hw with hw | hw <;> cases c <;> simp_all [ReadConfigCall, Call.upserts?, Call.replaces?]
  have hhydrate : (hydrateSources userId).Uses (ReadConfigCall userId) := hydrateSources_uses rfl fun _ => trivial
  refine Triple.seq (keeps_of_not_writes begun_push (hhydrate.mono hread)) fun allowed => ?_
  obtain ⟨allowed, available⟩ := allowed
  simp only
  split
  · exact Triple.raise fun _ _ _ => trivial
  · refine Triple.seq upsert_triple fun _ => Triple.seq replace_triple fun _ => ?_
    refine Triple.seq (keeps_of_not_writes done_push (uses_ask ?_)) fun _ =>
      keeps_of_not_writes done_push (readConfig_uses.mono hread)
    rintro (hw | hw) <;> simp [Call.upserts?, Call.replaces?] at hw

theorem begun_of_fresh (h : w.Fresh i) : Begun userId i w := by
  refine ⟨fun ⟨ev, hev, hi⟩ => ?_, fun ⟨q, e, hmem, _⟩ => h _ hmem rfl⟩
  obtain ⟨⟨j, ids⟩, hmade, rfl⟩ := Option.map_eq_some_iff.mp hi
  cases ev with
  | called k c r =>
      obtain ⟨ids', -, he⟩ := Option.map_eq_some_iff.mp hmade
      cases he
      exact h _ hev rfl
  | _ => cases hmade

def post (userId : Int) (i : Nat) (job : Job) (r : Except Exn Out) (w : World service) : Prop :=
  ∀ payload out, job = .writeConfig userId payload → r = .ok out → Done userId i w

theorem body_triple {job : Job} :
    (protocol userId).Triple i (Begun userId i) (Job.body i job) (post userId i job) := by
  by_cases hjob : ∃ payload, job = .writeConfig userId payload
  · obtain ⟨payload, rfl⟩ := hjob
    refine Triple.map writeConfig_triple fun r w _ h _ out _ hr => ?_
    cases r with
    | error e => cases hr
    | ok x => exact h
  · refine Triple.conseq (keeps_of_not_writes begun_push ((Job.body_uses i job).mono fun c hc hw => ?_))
      (fun _ _ h => h) fun _ _ _ _ payload _ h _ => absurd ⟨payload, h⟩ hjob
    obtain ⟨payload, h, -⟩ := hc.writer hw
    exact hjob ⟨payload, h⟩

def outline (userId : Int) : Outline service (ReplacesInOrder userId) where
  toProtocol := protocol userId
  post := post userId
  post_stable i job r w ev s _ _ hev _ h payload out hj hr :=
    done_push w ev s (not_wrote_of_thread hev) (h payload out hj hr)
  may_ok c i t q hok hi hq := hok (i, q) (Conf.call?_run hi hq)
  may_fail c i e done t q hok hi hq := ⟨trivial, hok (i, q) (Conf.call?_run hi hq)⟩
  start_ok c job s _ hw hfresh hs := by
    have hev : ∀ j, ¬ Wrote userId j (.started c.threads.length job) := fun j ⟨_, _, he, _⟩ => nomatch he
    have hredis := Job.begin_redis hs
    have hg : (protocol userId).Good c.threads.length c.world (.started c.threads.length job) s :=
      good_of_unwritten hw hev (fun _ _ => by simp [State.cfg, hredis]) (by simp [State.sourceSet, hredis])
    exact ⟨hg, body_triple _ hg.inv (begun_push _ _ _ (hev _) (begun_of_fresh hfresh))⟩
  crash_ok c i _ hw := good_of_unwritten hw (fun j ⟨_, _, he, _⟩ => nomatch he) (fun _ _ => rfl) rfl
  env_ok c e s _ hw hs := by
    have hg : (protocol userId).Good 0 c.world (.env e) s :=
      good_of_unwritten hw (fun j ⟨_, _, he, _⟩ => nomatch he) (fun _ _ => by rw [Env.apply_cfg hs])
        (Env.apply_sourceSet hs)
    exact ⟨hg.inv, trivial, fun _ _ _ _ => trivial⟩

theorem exists_lastMade {β : Type} {f : Call → Option β} (h : ∃ ev ∈ log, (ev.made? f).map Prod.fst = some i) :
    ∃ x, lastMade? f log = some x := by
  obtain ⟨ev, hev, hi⟩ := h
  refine Option.isSome_iff_exists.mp (List.findSome?_isSome_iff.mpr ⟨ev, hev, ?_⟩)
  obtain ⟨x, hx, -⟩ := Option.map_eq_some_iff.mp hi
  simp [hx]

theorem called_of_lastMade {β : Type} {f : Call → Option β} {x : Nat × β} (h : lastMade? f log = some x) :
    ∃ q r, .called x.1 q r ∈ log ∧ f q = some x.2 := by
  obtain ⟨ev, hev, hmade⟩ := List.exists_of_findSome?_eq_some h
  cases ev with
  | called k c r =>
      obtain ⟨v, hv, rfl⟩ := Option.map_eq_some_iff.mp hmade
      exact ⟨c, r, hev, hv⟩
  | _ => cases hmade

end ConfigUpdates

open ConfigUpdates in
/-- When the updates are finished, what is stored is the payload of one of them. -/
theorem stores_one_of_replacesInOrder {c : Conf service} (h : Reach (ReplacesInOrder userId) s c)
    (hfin : UpdatesFinished userId c)
    (hsome : ∃ t ∈ c.threads, (∃ payload, t.job = .writeConfig userId payload) ∧ t.returned?.isSome) :
    ∃ t ∈ c.threads, ∃ payload, t.job = .writeConfig userId payload ∧ t.returned?.isSome ∧
      Stores userId payload c.world.state := by
  have hinit : (outline userId).inv ⟨s, []⟩ := .inr ⟨nofun, nofun, nofun⟩
  have hc : (outline userId).Holds c := Outline.holds_of_reach hinit h
  -- Every write was made by a request that has returned, and so got through.
  have hwriter : ∀ {i q r}, .called i q r ∈ c.world.log → q.Writes userId →
      ∃ t payload, c.threads[i]? = some t ∧ t.job = .writeConfig userId payload ∧ t.returned?.isSome ∧
        Done userId i c.world ∧ JobCall i (.writeConfig userId payload) q := by
    intro i q r hmem hq
    obtain ⟨t, ht, hjob⟩ := h.called Job.body_uses hmem
    obtain ⟨payload, hp, -⟩ := hjob.writer hq
    rcases hfin i t payload ht hp with hret | hnone
    · obtain ⟨out, hout⟩ := Option.isSome_iff_exists.mp hret
      exact ⟨t, payload, ht, hp, hret, hc.outcome ht (Thread.outcome_of_returned hout) payload out hp rfl, hp ▸ hjob⟩
    · exact absurd hq (hnone q r hmem)
  have hpaired : Paired userId c.world := by
    refine hc.inv.resolve_left fun ⟨i, q, e, hmem, hq⟩ => ?_
    obtain ⟨t, payload, -, -, -, hdone, -⟩ := hwriter hmem hq
    exact hdone.2.2 ⟨q, e, hmem, hq⟩
  obtain ⟨t₀, ht₀, ⟨payload₀, hp₀⟩, hret₀⟩ := hsome
  obtain ⟨i₀, hi₀⟩ := List.mem_iff_getElem?.mp ht₀
  obtain ⟨out₀, hout₀⟩ := Option.isSome_iff_exists.mp hret₀
  have hdone₀ : Done userId i₀ c.world := hc.outcome hi₀ (Thread.outcome_of_returned hout₀) payload₀ out₀ hp₀ rfl
  obtain ⟨x, hx⟩ := exists_lastMade hdone₀.1
  obtain ⟨q, r, hmem, hq⟩ := called_of_lastMade hx
  have hwrites : q.Writes userId := .inl (by simp [hq])
  obtain ⟨t, payload, ht, hp, hret, hdone, hjob⟩ := hwriter hmem hwrites
  -- Who has written the hash last has replaced the set last.
  obtain ⟨y, hy, hyx⟩ := Option.map_eq_some_iff.mp (hpaired.order x hx hdone.2.1)
  obtain ⟨q', r', hmem', hq'⟩ := called_of_lastMade hy
  have hwrites' : q'.Writes userId := .inr (by simp [hq'])
  obtain ⟨t', payload', ht', hp', -, -, hjob'⟩ := hwriter hmem' hwrites'
  rw [hyx, ht] at ht'
  cases ht'
  obtain rfl : payload = payload' := by
    rw [hp] at hp'
    cases hp'
    rfl
  obtain ⟨p₁, hp₁, hmapping, -⟩ := hjob.writer hwrites
  obtain ⟨p₂, hp₂, -, hids⟩ := hjob'.writer hwrites'
  cases hp₁
  cases hp₂
  refine ⟨t, List.mem_of_getElem? ht, payload, hp, hret, fun kv hkv hd => ?_, fun d => ?_⟩
  · exact hpaired.hash x hx kv (hmapping _ hq ▸ hkv) hd
  · rw [hpaired.sources y hy, hids _ hq', List.mem_dedup]

end

section
open scoped Python.Utc

namespace Sample

/-- Two updates have written the hash, one after the other. -/
def twoUpdates : List (Label service) :=
  .start (.writeConfig 1 (update .asc [1])) :: .start (.writeConfig 1 (update .desc [])) :: runs 0 3 ++ runs 1 3

/-- The source sets are replaced in the same order, and the other way round. -/
def inOrder : Conf service := (start []).play (twoUpdates ++ runs 0 1 ++ runs 1 6 ++ runs 0 5)

def crossed : Conf service := (start []).play (twoUpdates ++ runs 1 6 ++ runs 0 6)

/-- The payload of the update that the thread serves. -/
def payload? (t : Thread service) : Option ConfigUpdate :=
  match t.job with
  | .writeConfig userId payload => if userId = 1 then some payload else none
  | _ => none

theorem payload?_eq_some {t : Thread service} {payload : ConfigUpdate} :
    payload? t = some payload ↔ t.job = .writeConfig 1 payload := by
  unfold payload?
  split <;> simp_all

theorem finished_of_returned {c : Conf service} (h : ∀ t ∈ c.threads, t.returned?.isSome) : UpdatesFinished 1 c :=
  fun _ t _ ht _ => .inl (h t (List.mem_of_getElem? ht))

theorem exists_update {c : Conf service} (h : ∃ t ∈ c.threads, (payload? t).isSome ∧ t.returned?.isSome) :
    ∃ t ∈ c.threads, (∃ payload, t.job = .writeConfig 1 payload) ∧ t.returned?.isSome := by
  obtain ⟨t, ht, hp, hret⟩ := h
  obtain ⟨payload, hp⟩ := Option.isSome_iff_exists.mp hp
  exact ⟨t, ht, ⟨payload, payload?_eq_some.mp hp⟩, hret⟩

end Sample

theorem inOrder_stores_one :
    ∃ t ∈ Sample.inOrder.threads, ∃ payload, t.job = .writeConfig 1 payload ∧ t.returned?.isSome ∧
      Stores 1 payload Sample.inOrder.world.state := by
  have hobeys : (Sample.start []).Obeys (ReplacesInOrder 1)
      (Sample.twoUpdates ++ Sample.runs 0 1 ++ Sample.runs 1 6 ++ Sample.runs 0 5) := by
    decide +kernel
  have hreach : Reach (ReplacesInOrder 1) (Sample.start []).world.state Sample.inOrder := Steps.play hobeys
  have hfin : UpdatesFinished 1 Sample.inOrder := Sample.finished_of_returned (by decide +kernel)
  exact stores_one_of_replacesInOrder hreach hfin (Sample.exists_update (by decide +kernel))

/-- The second update replaces the source set before the first one does. -/
theorem updates_mixed :
    ¬ ∀ (s : State) (c : Conf service), Reach (S := service) (fun _ l => l.Faultless) s c → UpdatesFinished 1 c →
      (∃ t ∈ c.threads, (∃ payload, t.job = .writeConfig 1 payload) ∧ t.returned?.isSome) →
      ∃ t ∈ c.threads, ∃ payload, t.job = .writeConfig 1 payload ∧ t.returned?.isSome ∧
        Stores 1 payload c.world.state := by
  intro h
  have hobeys : (Sample.start []).Obeys (fun _ l => l.Faultless)
      (Sample.twoUpdates ++ Sample.runs 1 6 ++ Sample.runs 0 6) := by
    decide +kernel
  have hreach : Reach (S := service) (fun _ l => l.Faultless) (Sample.start []).world.state Sample.crossed :=
    Steps.play hobeys
  have hfin : UpdatesFinished 1 Sample.crossed := Sample.finished_of_returned (by decide +kernel)
  obtain ⟨t, ht, payload, hp, -, hhash, hset⟩ :=
    h _ _ hreach hfin (Sample.exists_update (by decide +kernel))
  -- Neither payload selects the source in descending order, and that is what is stored.
  have hpayloads : ∀ t ∈ Sample.crossed.threads, ∀ p ∈ Sample.payload? t, p.ordering = .desc →
      1 ∉ p.selectedSourceIds := by
    decide +kernel
  have hordering : (Sample.crossed.world.state.cfg 1).get "ordering" = some "desc" := by decide +kernel
  have hone : 1 ∈ Sample.crossed.world.state.sourceSet 1 := by decide +kernel
  have hstored := hhash ("ordering", payload.ordering.text) (by simp [configMapping]) (by simp)
  have hdesc : payload.ordering = .desc := by
    rw [hordering] at hstored
    cases hord : payload.ordering with
    | asc => simp [hord, Ordering.text] at hstored
    | desc => rfl
  exact hpayloads t ht payload (Sample.payload?_eq_some.mpr hp) hdesc ((hset 1).mp hone)

end

end TapeService
