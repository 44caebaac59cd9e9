import TapeService.Lemmas.Web

/-!
# The web refines the service

What the whole does to the tapes, the configs and the scores is what the service does in some run of its own, in
which the requests that the web has let through are jobs for the users of their sessions. So whatever holds of
the service in every run holds behind the web.
-/

namespace TapeService.Web

open Interleaving Interleaving.Program Python

section
variable [DatetimeLib] [HashLib] {settings : Settings}

/-- What a thread of the web can be to the service. -/
def Runs : Job ⊕ Request → Job → Prop
  | .inl job, job' => job' = job
  | .inr req, job' => ∃ userId, req.job? userId = some job'

/-- The thread of the service that stands for a thread of the web: one that has not begun while the request is
in front of the service, and the same program once it has been let through. -/
def Stands (i : Nat) (t : Thread (web settings)) (t' : Thread service) : Prop :=
  ((∃ req, t.job = .inr req) ∧ (∀ q, t.next? ≠ some (.inl q)) ∧ t'.code = some (service.body i t'.job)) ∨
    Runs t.job t'.job ∧ t.code = t'.code.map fun p => .inl <$> p.inl

namespace WebRefinement

theorem guard_returns (i : Nat) (req : Request) : (guard settings i req).Returns
    (Sum.elim (fun job => ∃ userId, req.job? userId = some job) fun _ => True) := by
  cases req with
  | login body fwd host raw => exact Returns.bind fun _ => trivial
  | logout cookie => exact Returns.bind fun _ => trivial
  | me cookie => exact Returns.bind fun _ => trivial
  | readTape cookie after => exact Returns.bind fun userId => ⟨userId, rfl⟩
  | submitScore cookie payload => exact Returns.bind fun userId => ⟨userId, rfl⟩
  | readConfig cookie => exact Returns.bind fun userId => ⟨userId, rfl⟩
  | writeConfig cookie payload => exact Returns.bind fun userId => ⟨userId, rfl⟩
  | ws cookie origin turns => exact Returns.bind fun _ => trivial

theorem runs_of_as {i : Nat} {wjob : (web settings).Job} {job : Job} (h : (front settings).As i wjob job) :
    Runs wjob job := by
  cases wjob with
  | inl job' => exact h
  | inr req => exact Returns.of_gives (guard_returns i req) h

theorem stands_of_behind {i : Nat} {job : Job} {t : Thread (web settings)} {t' : Thread service}
    (h : (front settings).Behind i job t t') : Stands i t t' := by
  cases h with
  | @waiting req g hundecided hgives =>
      refine .inl ⟨⟨req, rfl⟩, fun q hq => ?_, rfl⟩
      cases g with
      | ret a =>
          cases a with
          | inl job' => exact hundecided job' rfl
          | inr a => cases hq
      | raise e => cases hq
      | call q' k => cases hq
  | lost => exact .inl ⟨⟨_, rfl⟩, nofun, rfl⟩
  | through has => exact .inr ⟨runs_of_as has, rfl⟩
  | dead has => exact .inr ⟨runs_of_as has, rfl⟩

end WebRefinement

/-- Every run of the whole, with failing calls and crashes if the run has them, is a run of the service: it leaves
the same state by the same calls with the same answers, and every thread that has been let through runs the
handler of its request. -/
theorem web_refines_service {ok : Conf (web settings) → Label (web settings) → Prop} {Q : Label service → Prop}
    (hok : (front settings).Admits ok Q) {s : (web settings).State} {c : Conf (web settings)} (h : Reach ok s c) :
    ∃ d : Conf service, Reach (fun _ l => Q l) s.1 d ∧ d.world.state = c.world.state.1 ∧
      d.world.log.filterMap Front.shown? = c.world.log.filterMap (front settings).behind? ∧
      d.threads.length = c.threads.length ∧
      ∀ i t, c.threads[i]? = some t → ∃ t', d.threads[i]? = some t' ∧ Stands i t t' := by
  obtain ⟨d, hd, hsim⟩ := Front.refines hok h (fun _ => .readTape 0 none) fun _ _ => rfl
  refine ⟨d, hd, hsim.state, hsim.shown, hsim.length, fun i t ht => ?_⟩
  obtain ⟨t', ht', hb⟩ := hsim.threads i t ht
  exact ⟨t', ht', WebRefinement.stands_of_behind hb⟩

end

section
open scoped Python.Utc Sessions.Sample

/-- The expert logs in and reads the config. -/
def Sample.readsConfig : Conf (web .default) :=
  Sample.start.play (Sample.login ++ .start (.inr (.readConfig (some Sessions.Sample.raw))) :: Sample.runs 1 7)

theorem web_refines_service_readConfig : ∃ d : Conf service,
    Reach (fun _ _ => True) Sample.start.world.state.1 d ∧ d.world.state = Sample.readsConfig.world.state.1 ∧
      d.world.log.filterMap Front.shown? = Sample.readsConfig.world.log.filterMap (front .default).behind? ∧
      d.threads.length = 2 ∧
      ∀ i t, Sample.readsConfig.threads[i]? = some t → ∃ t', d.threads[i]? = some t' ∧ Stands i t t' :=
  web_refines_service Front.Admits.all (Steps.play (Conf.Obeys.of_labels fun _ _ _ => trivial))

example : (Sample.readsConfig.world.log.filterMap (front .default).behind?).length = 4 := rfl

end

end TapeService.Web
