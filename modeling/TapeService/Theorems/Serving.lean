import TapeService.Theorems.Authentication
import TapeService.Theorems.Ledger
import TapeService.Theorems.Permitted
import TapeService.Theorems.WebRefinement

/-!
# What is served behind the web

A request that the service has answered was let through as the user whom its session names. So what is known of the
answers of the service holds for the clients of the web: the documents on a page are those that the user of the
session may see, and a score is recorded under that user.
-/

namespace TapeService.Web

open Interleaving Interleaving.Program Interleaving.Protocol Python

section
variable [DatetimeLib]

namespace Serving

/-- The first call of the handler of a request; it names the user. -/
def opening? : Job → Option TapeService.Call
  | .readTape userId _ => some (.exists (lockKey userId))
  | .submitScore userId q => some (.scoreSave userId q.documentId q.roleId (scoreRow userId q).score q.comment)
  | .readConfig userId => some (.hgetall (cfgKey userId))
  | .writeConfig userId _ => some (.sourcesFor userId)
  | _ => none

variable {i : Nat} {job job' : Job} {q : TapeService.Call} {req : Request} {u u' : Int}

theorem body_opening (h : opening? job = some q) : ∃ k, Job.body i job = .call q k := by
  cases job <;> cases h <;> exact ⟨_, rfl⟩

theorem exists_opening (h : req.job? u = some job) : ∃ q, opening? job = some q := by
  cases req <;> cases h <;> exact ⟨_, rfl⟩

/-- The handlers for two users do not begin alike. -/
theorem user_eq_of_opening (h : req.job? u = some job) (hq : opening? job = some q) (h' : req.job? u' = some job')
    (hcall : JobCall i job' q) : u = u' := by
  cases req with
  | readTape =>
      cases h
      cases h'
      cases hq
      exact lockKey_inj.mp hcall
  | submitScore =>
      cases h
      cases h'
      cases hq
      exact hcall.1
  | readConfig =>
      cases h
      cases h'
      cases hq
      exact cfgKey_inj.mp hcall
  | writeConfig =>
      cases h
      cases h'
      cases hq
      exact hcall
  | _ => cases h

/-- A thread that has ended has made its first call. -/
def outline : Outline service fun _ _ => True where
  toProtocol := free
  post i job _ w := ∀ q, opening? job = some q → ∃ r, .called i q r ∈ w.log
  post_stable _ _ _ _ _ _ _ _ _ _ h q hq := by
    obtain ⟨r, hr⟩ := h q hq
    exact ⟨r, List.mem_cons_of_mem _ hr⟩
  may_ok _ _ _ _ _ _ _ := trivial
  may_fail _ _ _ _ _ _ _ _ _ := ⟨trivial, trivial⟩
  start_ok c job s _ _ _ _ := by
    refine ⟨⟨trivial, trivial, fun _ _ => trivial⟩, ?_⟩
    cases hq : opening? job with
    | none =>
        exact wp_mono (fun _ _ _ _ q he => nomatch he) trivial
          (Keeps.of_persistent (A := fun _ => True) (fun _ _ _ _ _ => trivial) (Uses.of_forall (fun _ _ _ _ _ _ _ _ =>
            ⟨trivial, trivial, fun _ _ => trivial⟩) _) _ trivial trivial)
    | some q =>
        obtain ⟨k, hk⟩ := body_opening (i := c.threads.length) hq
        rw [show service.body c.threads.length job = .call q k from hk]
        refine ⟨fun _ => True, trivial, Stable.true _, fun w _ _ _ r s _ =>
          ⟨⟨trivial, trivial, fun _ _ => trivial⟩, ?_⟩⟩
        have hlasting : Lasting fun w : World service => .called c.threads.length q r ∈ w.log :=
          fun _ _ _ h => List.mem_cons_of_mem _ h
        refine wp_mono (fun _ _ _ h q' hq' => ?_) trivial (hlasting.always (k r) _ trivial List.mem_cons_self)
        obtain rfl := Option.some.inj hq'
        exact ⟨r, h⟩
  crash_ok _ _ _ _ := ⟨trivial, trivial, fun _ _ => trivial⟩
  env_ok _ _ _ _ _ _ := ⟨trivial, trivial, fun _ _ _ _ => trivial⟩

end Serving

end

section
variable [DatetimeLib] [HashLib] {settings : Settings} {ok : Conf (web settings) → Label (web settings) → Prop}
  {Q : Label service → Prop} {s : (web settings).State} {c : Conf (web settings)} {i : Nat} {t : Thread (web settings)}
  {req : Request}

/-- A request that the service has answered is one of the user whom its session names: in some run of the service,
which leaves the same state, the handler has given this answer for that user. -/
theorem Serving.served (hok : (front settings).Admits ok Q) (hs : s.2.sessions.entries = fun _ => none)
    (h : Reach ok s c) (ht : c.threads[i]? = some t) (hjob : t.job = .inr req) {out : Out}
    (hout : t.returned? = some (.inl out)) :
    ∃ (userId : Int) (d : Conf service) (t' : Thread service), Admitted c.world.log i req.cookie? userId ∧
      Reach (fun _ l => Q l) s.1 d ∧ d.world.state = c.world.state.1 ∧ d.threads[i]? = some t' ∧
      req.job? userId = some t'.job ∧ t'.outcome? = some (.ok out) := by
  obtain ⟨d, hd, hsim⟩ := Front.refines hok h (fun _ => .readTape 0 none) fun _ _ => rfl
  obtain ⟨t', ht', hb⟩ := hsim.threads i t ht
  obtain ⟨wjob, code⟩ := t
  obtain rfl : wjob = .inr req := hjob
  obtain rfl : code = some (.ret (.inl out)) := by
    have hr := Thread.outcome_of_returned hout
    unfold Thread.outcome? at hr
    split at hr
    · rename_i hcode
      cases hr
      exact hcode
    · cases hr
    · cases hr
  obtain ⟨job, rfl, has⟩ := hb.of_returned
  obtain ⟨userId, hasked⟩ := WebRefinement.runs_of_as has
  obtain ⟨q, hq⟩ := Serving.exists_opening hasked
  obtain ⟨r, hr⟩ := (Outline.holds_of_reach (O := Serving.outline) trivial
    (Steps.mono (fun _ _ _ => trivial) hd)).outcome ht' rfl q hq
  have hcalled : .called i (.inl q) r ∈ c.world.log := by
    have hshown : Event.called i q r ∈ d.world.log.filterMap Front.shown? := List.mem_filterMap.mpr ⟨_, hr, rfl⟩
    rw [hsim.shown] at hshown
    obtain ⟨ev, hev, hbehind⟩ := List.mem_filterMap.mp hshown
    exact Front.eq_of_behind hbehind ▸ hev
  have hauth : (Authentication.outline settings).Holds c :=
    Outline.holds_of_reach (Authentication.Inv.init hs) (Steps.mono (fun _ _ _ => trivial) h)
  obtain ⟨wjob, hstarted, hallowed⟩ := hauth.inv.calls i (.inl q) r hcalled
  obtain ⟨t₁, ht₁, rfl⟩ := h.logged i wjob hstarted
  obtain rfl := Option.some.inj (ht.symm.trans ht₁)
  obtain ⟨userId', job', hasked', hcall, hadmitted⟩ := hallowed
  obtain rfl := Serving.user_eq_of_opening hasked hq hasked' hcall
  exact ⟨userId, d, _, hadmitted, hd, hsim.state, ht', hasked, rfl⟩

/-- A document that comes in has the source that is fixed for its id. -/
def KeepsSources (src : Int → Int) (_ : Conf (web settings)) : Label (web settings) → Prop
  | .env (.inl (.insertDocument d)) => d.sourceid = src d.id
  | _ => True

instance (src : Int → Int) (c : Conf (web settings)) (l : Label (web settings)) : Decidable (KeepsSources src c l) := by
  unfold KeepsSources
  split <;> infer_instance

/-- Every page that a client of the web gets shows documents that some role of the user of its session permits, each
with exactly the roles that do. No step changes the tables of the roles. -/
theorem page_permitted {src : Int → Int} (hfk : s.1.db.ForeignKeys)
    (hsrc : ∀ d ∈ s.1.db.documents, d.sourceid = src d.id) (hredis : s.1.redis = .empty)
    (hs : s.2.sessions.entries = fun _ => none) (h : Reach (KeepsSources src) s c) (ht : c.threads[i]? = some t)
    {cookie : Option String} {after : Option Nat} (hjob : t.job = .inr (.readTape cookie after)) {page : TapePage}
    (hpage : t.returned? = some (.inl (.page page))) :
    ∃ userId, Admitted c.world.log i cookie userId ∧ ∀ item ∈ page.items,
      item.document.sourceId ∈ s.1.db.usersSources userId ∧
      ∀ roleId, roleId ∈ item.roles.map (·.id) ↔ s.1.db.Permits userId roleId item.document.sourceId := by
  have hadmits : (front settings).Admits (KeepsSources src)
      (fun l => ∀ d, l = .env (.insertDocument d) → d.sourceid = src d.id) := by
    refine ⟨fun _ => nofun, fun _ _ _ => nofun, fun _ _ _ _ _ => nofun, fun _ _ _ => nofun, fun c e he d hd => ?_⟩
    cases hd
    exact he
  obtain ⟨userId, d, t', hadmitted, hd, -, ht', hasked, hr⟩ := Serving.served hadmits hs h ht hjob hpage
  have hjob' : t'.job = .readTape userId after := (Option.some.inj hasked).symm
  have hreach : Reach (TapeService.KeepsSources src) s.1 d := by
    refine Steps.mono (fun c l hl => ?_) hd
    unfold TapeService.KeepsSources
    split
    · exact hl _ rfl
    · trivial
  have hinit : (Permitted.outline src s.1.db).inv ⟨s.1, []⟩ := by
    refine ⟨rfl, hsrc, fun u x hx => ?_, fun u d hd => ?_⟩
    · rw [State.sourceSet, hredis] at hx
      cases hx
    · rw [State.tape, hredis] at hd
      exact absurd hd (Redis.ZSet.not_mem_empty d)
  refine ⟨userId, hadmitted, fun item hitem => ?_⟩
  obtain ⟨hsource, hroles⟩ :=
    (Outline.holds_of_reach hinit hreach).outcome ht' hr userId after page hjob' rfl item hitem
  refine ⟨hsource, fun roleId => ?_⟩
  rw [hroles]
  exact Platform.mem_usersRolesForSource hfk

/-- A call that raises does not pretend that the table has refused a row. -/
def Honest (_ : Conf (web settings)) : Label (web settings) → Prop
  | .fail _ e _ => e.saysScored = false
  | _ => True

instance (c : Conf (web settings)) (l : Label (web settings)) : Decidable (Honest c l) := by
  unfold Honest
  split <;> infer_instance

/-- A score that a client of the web has been told of is recorded under the user of its session, as the request has it,
and the id that the client was told names this row only. -/
theorem score_recorded (hkept : s.1.db.Kept) (hs : s.2.sessions.entries = fun _ => none) (h : Reach Honest s c)
    (ht : c.threads[i]? = some t) {cookie : Option String} {payload : ScoreRequest}
    (hjob : t.job = .inr (.submitScore cookie payload)) {id : Int}
    (hscored : t.returned? = some (.inl (.scored id))) :
    ∃ userId, Admitted c.world.log i cookie userId ∧
      (id, scoreRow userId payload) ∈ c.world.state.1.db.scores ∧
      (∀ row, (id, row) ∈ c.world.state.1.db.scores → row = scoreRow userId payload) ∧
      ∀ row, (id, row) ∉ s.1.db.scores := by
  have hadmits : (front settings).Admits Honest (fun l => ∀ i e done, l = .fail i e done → e.saysScored = false) := by
    refine ⟨fun _ => nofun, fun _ _ _ => nofun, fun c i e done he _ _ _ hl => ?_, fun _ _ _ => nofun,
      fun _ _ _ => nofun⟩
    cases hl
    exact he
  obtain ⟨userId, d, t', hadmitted, hd, hstate, ht', hasked, hr⟩ := Serving.served hadmits hs h ht hjob hscored
  have hreach : Reach TapeService.Honest s.1 d := by
    refine Steps.mono (fun c l hl => ?_) hd
    unfold TapeService.Honest
    split
    · exact hl _ _ _ rfl
    · trivial
  have hinv : Ledger.Inv s.1.db d.world := Ledger.Inv.reach hkept hreach
  have hholds : Ledger.outline.Holds d := Outline.holds_of_reach trivial hreach
  have hacknowledged : Acknowledged d i userId payload id :=
    ⟨t', ht', (Option.some.inj hasked).symm, by rw [Thread.returned?, hr]; rfl⟩
  obtain ⟨hrow, hfresh⟩ := hinv.answered _ (Ledger.mem_answered hholds hacknowledged)
  have hids : (d.world.state.db.scores.map Prod.fst).Nodup :=
    List.pairwise_map.mpr (hinv.kept.increasing.imp fun hlt => ne_of_lt hlt)
  rw [← hstate]
  refine ⟨userId, hadmitted, hrow, fun row hother => ?_, fun row hold => ?_⟩
  · exact congrArg Prod.snd (List.inj_on_of_nodup_map hids hother hrow rfl)
  · have hlt : id < s.1.db.scoreSeq := hkept.below _ hold
    exact absurd hfresh (Int.not_le.mpr hlt)

end

section
open scoped Python.Utc Sessions.Sample

namespace Sample

/-- The small deployment with an article. -/
def stocked : Conf (web .default) :=
  .init ({ redis := .empty, db := .start [TapeService.Sample.article 6] }, start.world.state.2)

/-- The expert logs in, selects the source, reads the tape that the worker has built, and scores the article. -/
def served : Conf (web .default) :=
  stocked.play (login ++
    .start (.inr (.writeConfig (some Sessions.Sample.raw) (TapeService.Sample.update .asc [1]))) :: runs 1 12 ++
    .start (.inl (.generate 1 true)) :: runs 2 30 ++
    .start (.inr (.readTape (some Sessions.Sample.raw) none)) :: runs 3 14 ++
    .start (.inr (.submitScore (some Sessions.Sample.raw) (TapeService.Sample.request 6))) :: runs 4 7)

def page : TapePage where
  items := [tapeItem "compact" [(1, [⟨1, some "analyst"⟩])] 0 (TapeService.Sample.article 6)]
  nextPosition := none
  state := .ok
  displayMode := "compact"

end Sample

set_option maxRecDepth 4000 in
theorem page_permitted_served : Sample.page.items.length = 1 ∧
    ∃ userId, Admitted Sample.served.world.log 3 (some Sessions.Sample.raw) userId ∧ ∀ item ∈ Sample.page.items,
      item.document.sourceId ∈ Sample.stocked.world.state.1.db.usersSources userId ∧
      ∀ roleId, roleId ∈ item.roles.map (·.id) ↔
        Sample.stocked.world.state.1.db.Permits userId roleId item.document.sourceId := by
  have hfk : Sample.stocked.world.state.1.db.ForeignKeys := ⟨by decide +kernel, by decide +kernel, by decide +kernel⟩
  have hsrc : ∀ d ∈ Sample.stocked.world.state.1.db.documents, d.sourceid = 1 := by decide +kernel
  obtain ⟨t, ht, hjob⟩ : ∃ t, Sample.served.threads[3]? = some t ∧
      t.job = .inr (.readTape (some Sessions.Sample.raw) none) := Option.map_eq_some_iff.mp rfl
  have hpage : t.returned? = some (.inl (.page Sample.page)) := by
    obtain rfl := Option.some.inj ht
    rfl
  have hreach : Reach (KeepsSources fun _ => 1) Sample.stocked.world.state Sample.served :=
    Steps.play (Conf.Obeys.of_labels fun l hl _ =>
      (by decide : ∀ l ∈ _, KeepsSources (fun _ => 1) Sample.stocked l) l hl)
  exact ⟨rfl, page_permitted hfk hsrc rfl rfl hreach ht hjob hpage⟩

set_option maxRecDepth 4000 in
theorem score_recorded_served : ∃ userId, Admitted Sample.served.world.log 4 (some Sessions.Sample.raw) userId ∧
    (1, scoreRow userId (TapeService.Sample.request 6)) ∈ Sample.served.world.state.1.db.scores := by
  have hkept : Sample.stocked.world.state.1.db.Kept := ⟨List.Pairwise.nil, nofun, List.Pairwise.nil⟩
  obtain ⟨t, ht, hjob⟩ : ∃ t, Sample.served.threads[4]? = some t ∧
      t.job = .inr (.submitScore (some Sessions.Sample.raw) (TapeService.Sample.request 6)) :=
    Option.map_eq_some_iff.mp rfl
  have hscored : t.returned? = some (.inl (.scored 1)) := by
    obtain rfl := Option.some.inj ht
    rfl
  have hreach : Reach Honest Sample.stocked.world.state Sample.served :=
    Steps.play (Conf.Obeys.of_labels fun l hl _ => (by decide : ∀ l ∈ _, Honest Sample.stocked l) l hl)
  obtain ⟨userId, hadmitted, hrow, -⟩ := score_recorded hkept rfl hreach ht hjob hscored
  exact ⟨userId, hadmitted, hrow⟩

end

end TapeService.Web
