import TapeService.Theorems.Listening.Main
import TapeService.Theorems.Listening.Thread

/-!
# What the listener hears

Each connection of the listener is sent the notifications from one place in the queue of the server on, and its thread
takes them up in their order without a gap. As long as no `join` has timed out there is one thread at a time that makes
calls, and no notification is taken up twice.
-/

namespace TapeService.Listener

open Interleaving Interleaving.Program Interleaving.Protocol

namespace Listening

variable {db₀ : Platform} {w : World listener} {ev : Event listener} {s : Whole} {i k : Nat}
  {log : List (Event listener)}

/-! ## All jobs -/

theorem body_triple {k : Nat} {turns : List Bool} :
    (protocol db₀).Triple i (Ready i k) (Job.body (.run k turns)) fun _ _ => True := by
  refine Triple.tryFinally run_triple fun r => ?_
  exact Triple.conseq exit_triple (fun _ _ h => h) fun r _ _ _ => by cases r <;> trivial

theorem started_good (hw : Inv db₀ w) {job : Job} {s₂ : State} (hconnections : s₂.connections = w.state.2.connections)
    (hpublished : s₂.published = w.state.2.published) (hended : s₂.ended = w.state.2.ended)
    (hthread : s₂.thread = w.state.2.thread) (hmade : s₂.made = w.state.2.made)
    (hlaunched : s₂.launched ⊆ w.state.2.launched) (hjob : ∀ k turns, job = .run k turns → k ∈ w.state.2.launched)
    (hcensus : Census (w.push (.started i job) (w.state.1, s₂))) :
    (protocol db₀).Good i w (.started i job) (w.state.1, s₂) := by
  refine ⟨hw.same rfl (by intros; nofun) hconnections hpublished hcensus fun hj k hk hend => ?_, fun _ _ _ _ _ _ =>
    nofun, fun j _ => ⟨fun k turns _ => ?_, fun ms _ => ?_⟩⟩
  · simp only [World.push_state, hmade, hended, hthread] at hk hend ⊢
    exact hw.alone (Joined.of_push hj) k hk hend
  · exact ⟨by rw [hconnections], fun he => hended ▸ he, fun _ _ _ => nofun⟩
  · refine ⟨hthread, hmade, hlaunched, fun k hk => hended ▸ hk, fun a k turns he => ?_⟩
    cases he
    exact hjob k turns rfl

/-- What holds of thread `k` before it is started holds when it starts. -/
theorem Unborn.started (h : Unborn k w) {job : Job} {s₂ : State} (hconnections : s₂.connections = w.state.2.connections)
    (hended : s₂.ended = w.state.2.ended) : Unborn k (w.push (.started i job) (w.state.1, s₂)) where
  running he := h.running (hended ▸ he)
  silent := by
    rw [World.push_state, hconnections]
    exact h.silent
  unbroken j x e hmem := h.unbroken j x e ((List.mem_cons.mp hmem).resolve_left nofun)

theorem mem_started {job : Job} {j : Nat} {job' : Job} {s : Whole}
    (h : .started j job' ∈ (w.push (.started i job) s).log) : j = i ∧ job' = job ∨ .started j job' ∈ w.log := by
  rcases List.mem_cons.mp h with he | h
  · cases he
    exact .inl ⟨rfl, rfl⟩
  · exact .inr h

theorem not_started_of_fresh (h : w.Fresh i) (job : Job) : .started i job ∉ w.log := fun hmem => h _ hmem rfl

theorem jobs_started (h : Census w) (hfresh : w.Fresh i) {job : Job} (j : Nat) (a b : Job)
    (ha : .started j a ∈ (w.push (.started i job) s).log) (hb : .started j b ∈ (w.push (.started i job) s).log) :
    a = b := by
  rcases mem_started ha with ⟨rfl, rfl⟩ | ha'
  · rcases mem_started hb with ⟨-, rfl⟩ | hb'
    · rfl
    · exact absurd hb' (not_started_of_fresh hfresh _)
  · rcases mem_started hb with ⟨rfl, rfl⟩ | hb'
    · exact absurd ha' (not_started_of_fresh hfresh _)
    · exact h.jobs j a b ha' hb'

theorem start_main (hw : Inv db₀ w) (hfresh : w.Fresh i) {methods : List Method} (hmain : w.state.2.main = false) :
    (protocol db₀).Good i w (.started i (.main methods)) (w.state.1, { w.state.2 with main := true }) := by
  have hnone : ∀ j ms, .started j (.main ms) ∉ w.log := by
    intro j ms hmem
    cases hmain.symm.trans (hw.census.mains j ms hmem).1
  refine started_good hw rfl rfl rfl rfl rfl (fun _ h => h) (fun _ _ => nofun) ⟨jobs_started hw.census hfresh,
    fun j ms hj => ⟨rfl, fun j' ms' hj' => ?_⟩, fun j k turns hj => ?_, hw.census.launched, hw.census.nodup,
    fun k hk => ?_⟩
  · rcases mem_started hj with ⟨rfl, -⟩ | hj
    · rcases mem_started hj' with ⟨rfl, -⟩ | hj'
      · rfl
      · exact absurd hj' (hnone _ _)
    · exact absurd hj (hnone _ _)
  · have hold := (List.mem_cons.mp hj).resolve_left nofun
    obtain ⟨hmade, hl, ho⟩ := hw.census.runs j k turns hold
    exact ⟨hmade, hl, fun j' turns' hj' => ho j' turns' ((List.mem_cons.mp hj').resolve_left nofun)⟩
  · exact (hw.census.unborn k fun j turns hmem => hk j turns (List.mem_cons_of_mem _ hmem)).started rfl rfl

theorem start_run (hw : Inv db₀ w) (hfresh : w.Fresh i) {turns : List Bool} (hk : k ∈ w.state.2.launched) :
    (protocol db₀).Good i w (.started i (.run k turns))
        (w.state.1, { w.state.2 with launched := w.state.2.launched.erase k }) ∧
      Ready i k (w.push (.started i (.run k turns))
        (w.state.1, { w.state.2 with launched := w.state.2.launched.erase k })) := by
  have hnone : ∀ j turns, .started j (.run k turns) ∉ w.log := fun j turns hmem =>
    (hw.census.runs j k turns hmem).2.1 hk
  have hunborn : Unborn k w := hw.census.unborn k hnone
  refine ⟨started_good hw rfl rfl rfl rfl rfl List.erase_subset (fun m turns' he => ?_) ⟨jobs_started hw.census hfresh,
    fun j ms hj => ?_, fun j m turns' hj => ?_, fun m hm => hw.census.launched m (List.erase_subset hm),
    hw.census.nodup.erase k, fun m hm => ?_⟩, ⟨⟨turns, List.mem_cons_self⟩, hunborn.running⟩, hunborn.silent,
    (hunborn.started rfl rfl).unbroken⟩
  · cases he
    exact hk
  · obtain ⟨hmain, ho⟩ := hw.census.mains j ms ((List.mem_cons.mp hj).resolve_left nofun)
    exact ⟨hmain, fun j' ms' hj' => ho j' ms' ((List.mem_cons.mp hj').resolve_left nofun)⟩
  · rcases mem_started hj with ⟨rfl, he⟩ | hj
    · cases he
      refine ⟨hw.census.launched _ hk, fun hm => (hw.census.nodup.mem_erase_iff.mp hm).1 rfl, fun j' turns'' hj' => ?_⟩
      rcases mem_started hj' with ⟨rfl, -⟩ | hj'
      · rfl
      · exact absurd hj' (hnone _ _)
    · obtain ⟨hmade, hl, ho⟩ := hw.census.runs j m turns' hj
      refine ⟨hmade, fun hm => hl (List.erase_subset hm), fun j' turns'' hj' => ?_⟩
      rcases mem_started hj' with ⟨-, he⟩ | hj'
      · cases he
        exact absurd hj (hnone _ _)
      · exact ho j' turns'' hj'
  · exact (hw.census.unborn m fun j turns' hmem => hm j turns' (List.mem_cons_of_mem _ hmem)).started rfl rfl

def outline (db₀ : Platform) : Outline listener fun _ _ => True where
  toProtocol := protocol db₀
  post _ _ _ _ := True
  post_stable _ _ _ _ _ _ _ _ _ _ _ := trivial
  may_ok _ _ _ _ _ _ _ := trivial
  may_fail _ _ _ _ _ _ _ _ _ := ⟨trivial, trivial⟩
  start_ok c job s _ hw hfresh hs := by
    obtain ⟨s₂, hbegin, rfl⟩ := Option.map_eq_some_iff.mp hs
    cases job with
    | main methods =>
        simp only [Job.begin, Option.ite_none_left_eq_some] at hbegin
        obtain ⟨hmain, he⟩ := hbegin
        cases he
        have hg : (protocol db₀).Good _ _ (.started _ (.main methods)) _ :=
          start_main hw hfresh (by simpa using hmain)
        exact ⟨hg, main_triple methods _ hg.inv ⟨methods, List.mem_cons_self⟩⟩
    | run k turns =>
        simp only [Job.begin, Option.ite_none_right_eq_some] at hbegin
        obtain ⟨hk, he⟩ := hbegin
        cases he
        obtain ⟨hg, hready⟩ : (protocol db₀).Good _ _ (.started _ (.run k turns)) _ ∧ Ready _ k _ :=
          start_run hw hfresh hk
        exact ⟨hg, body_triple _ hg.inv hready⟩
  crash_ok c i _ hw := (Background.refl c.world.state).good hw trivial fun _ _ _ _ _ _ => nofun
  env_ok c e s _ hw hs := by
    have hgood : ∀ {new : List (Int × ScoreRow)}, Background c.world.state s new →
        Inv db₀ (c.world.push (.env e) s) ∧ (protocol db₀).guar c.world (.env e) s ∧
          ∀ i t, c.threads[i]? = some t → ¬ t.Ended → (protocol db₀).rely i c.world (.env e) s := fun hb =>
      ⟨hw.background hb trivial, fun _ _ _ _ _ _ => nofun, fun _ _ _ _ =>
        ⟨fun _ _ _ => hb.leavesRun trivial, fun _ _ => hb.leavesMain trivial⟩⟩
    cases e with
    | call q =>
        cases hs
        obtain ⟨new, hgrows⟩ := Ledger.grows_exec (s := c.world.state.1) (q := q)
        exact hgood (.deliver hw.notifications hgrows)
    | service e =>
        obtain ⟨s₁, hs₁, rfl⟩ := Option.map_eq_some_iff.mp hs
        obtain ⟨new, hgrows⟩ := Ledger.grows_env hs₁
        exact hgood (.deliver hw.notifications hgrows)
    | arrive k =>
        simp only [Env.apply] at hs
        split at hs
        · cases hs
        · rename_i n ns hsent
          cases hs
          exact hgood (.setConnection rfl rfl fun _ _ _ h => h.arrive hsent)
    | lose k =>
        cases hs
        exact hgood (Background.close _ k)

theorem Inv.init {s : TapeService.State} (hs : s.db.notifications = []) : Inv s.db ⟨(s, .start), []⟩ where
  notifications := hs
  lines := ⟨[], (List.append_nil _).symm, rfl, fun _ =>
    ⟨fun _ => ⟨rfl, rfl, rfl, rfl⟩, Nat.le_refl _, List.nil_prefix, fun _ => List.nil_prefix, fun _ hl => nomatch hl⟩⟩
  inTurn _ := trivial
  census := ⟨fun _ _ _ h => absurd h List.not_mem_nil, fun _ _ h => absurd h List.not_mem_nil,
    fun _ _ _ h => absurd h List.not_mem_nil, nofun, List.nodup_nil, fun _ _ =>
      ⟨List.not_mem_nil, rfl, fun _ _ _ h => absurd h List.not_mem_nil⟩⟩
  alone _ _ hk := absurd hk (Nat.not_lt_zero _)
  ordered _ _ _ _ hk := nomatch hk

end Listening

/-- What is taken up from a connection are the notifications from one row of `score.score` on, in their order and
without a gap, and its thread handles each before the next one is taken up. While the connection is open and nothing
has gone wrong, those that have not been taken up are still on their way. If no `join` has timed out, the
notifications of a connection come after all that were taken up from the connections before it. -/
theorem heard_in_order {s : TapeService.State} (hs : s.db.notifications = []) {c : Conf listener}
    (h : Reach (fun _ _ => True) (s, State.start) c) :
    ∃ new, c.world.state.1.db.scores = s.db.scores ++ new ∧ ∀ k,
      let x := c.world.state.2.connections k
      let rest := (new.map fun row => row.2.notice).drop x.since
      heard k c.world.log <+: rest ∧ InTurn k c.world.log ∧
      (Unbroken k c.world.log → x.listening = true → x.opened = true →
        heard k c.world.log ++ (x.fetched ++ (x.arrived ++ x.sent)) = rest) ∧
      (Joined c.world.log → ∀ k' < k, x.listening = true → (c.world.state.2.connections k').listening = true →
        (c.world.state.2.connections k').since + (heard k' c.world.log).length ≤ x.since) := by
  have hholds : (Listening.outline s.db).Holds c := Outline.holds_of_reach (Listening.Inv.init hs) h
  have hinv : Listening.Inv s.db c.world := hholds.inv
  obtain ⟨new, hscores, -, hlines⟩ := hinv.lines
  exact ⟨new, hscores, fun k => ⟨(hlines k).heard, hinv.inTurn k, (hlines k).complete, fun hj k' hlt hk hk' =>
    hinv.ordered hj k' k hlt hk' hk⟩⟩

/-- As long as no `join` has timed out, a thread of the listener that is still running is the one that the object names,
and there is no other; so none is left running after `stop`. -/
theorem listens_alone {s : TapeService.State} (hs : s.db.notifications = []) {c : Conf listener}
    (h : Reach (fun _ _ => True) (s, State.start) c) (hj : Joined c.world.log) {i k : Nat} {turns : List Bool}
    {t : Thread listener} (ht : c.threads[i]? = some t) (hjob : t.job = .run k turns) (hrun : ¬ t.Ended) :
    c.world.state.2.thread = some k ∧
      ∀ (j : Nat) t' k' turns', c.threads[j]? = some t' → t'.job = .run k' turns' → ¬ t'.Ended → j = i := by
  have hholds : (Listening.outline s.db).Holds c := Outline.holds_of_reach (Listening.Inv.init hs) h
  have hinv : Listening.Inv s.db c.world := hholds.inv
  have hnamed : ∀ (j : Nat) (t' : Thread listener) k' turns', c.threads[j]? = some t' → t'.job = .run k' turns' →
      ¬ t'.Ended → c.world.state.2.thread = some k' := by
    rintro j ⟨job, code⟩ k' turns' ht' rfl hrun'
    rcases code with _ | p
    · exact absurd rfl hrun'
    cases p with
    | ret a => exact absurd rfl hrun'
    | raise e => exact absurd rfl hrun'
    | call q f =>
        obtain ⟨c', hstep, r, hlog⟩ : ∃ c', c.step (.run j) = some c' ∧
            ∃ r, c'.world.log = .called j q r :: c.world.log := by
          simp only [Conf.step, ht']
          exact ⟨_, rfl, _, rfl⟩
        obtain ⟨-, ev, hev, hguar⟩ := hholds.step trivial hstep
        have hcalled : ev = .called j q r := (List.cons.inj ((congrArg World.log hev).symm.trans hlog)).1
        exact hguar hj j q r k' turns' hcalled (h.started ht')
  refine ⟨hnamed i t k turns ht hjob hrun, fun j t' k' turns' ht' hjob' hrun' => ?_⟩
  have hk : k = k' :=
    Option.some.inj ((hnamed i t k turns ht hjob hrun).symm.trans (hnamed j t' k' turns' ht' hjob' hrun'))
  subst hk
  exact (hinv.census.runs i k turns (hjob ▸ h.started ht)).2.2 j turns' (hjob' ▸ h.started ht')

def Sample.before : TapeService.State where
  redis := .empty
  db := .start [TapeService.Sample.article 6, TapeService.Sample.article 7, TapeService.Sample.article 8]

/-- Someone scores the article. -/
def Sample.scores (id : Int) : Label listener :=
  .env (.service (.insertScore (scoreRow 1 (TapeService.Sample.request id))))

/-- A listener hears of a score, is stopped and is started again. It hears of the next score then, and one more is on
its way. -/
def Sample.heard : Conf listener :=
  (Conf.init (Sample.before, .start)).play (.start (.main [.start, .stop, .start]) :: List.replicate 4 (.run 0) ++
    .start (.run 0 [false, false, false]) :: List.replicate 4 (.run 1) ++ [Sample.scores 6, .env (.arrive 0)] ++
    List.replicate 2 (.run 1) ++ .run 0 :: List.replicate 5 (.run 1) ++ List.replicate 8 (.run 0) ++
    .start (.run 1 [false, false]) :: List.replicate 4 (.run 2) ++
    [Sample.scores 7, Sample.scores 8, .env (.arrive 1)] ++ List.replicate 2 (.run 2))

/-- Waiting for notifications of connection `k` has gone wrong. -/
def breaks (k : Nat) : Event listener → Bool
  | .called _ (.inr (.notifies k' _)) (.error _) => k' = k
  | _ => false

theorem Unbroken.of_breaks {k : Nat} {log : List (Event listener)} (h : ∀ ev ∈ log, breaks k ev = false) :
    Unbroken k log :=
  fun _ _ _ hmem => of_decide_eq_false (h _ hmem) rfl

theorem Sample.heard_reach : Reach (fun _ _ => True) (Sample.before, State.start) Sample.heard :=
  Steps.play (Conf.Obeys.of_labels fun _ _ _ => trivial)

set_option maxRecDepth 4000 in
theorem Sample.heard_joined : Joined Sample.heard.world.log := by decide +kernel

set_option maxRecDepth 4000 in
theorem heard_in_order_heard : ∃ new, Sample.heard.world.state.1.db.scores = new ∧
    heard 0 Sample.heard.world.log <+: (new.map fun row => row.2.notice) ∧
    heard 1 Sample.heard.world.log <+: (new.map fun row => row.2.notice).drop 1 ∧ InTurn 1 Sample.heard.world.log ∧
    heard 1 Sample.heard.world.log ++ [⟨some 1, some 8⟩] = (new.map fun row => row.2.notice).drop 1 ∧
    0 + (heard 0 Sample.heard.world.log).length ≤ 1 := by
  obtain ⟨new, hscores, hheard⟩ := heard_in_order rfl Sample.heard_reach
  obtain ⟨hbefore, -, -, -⟩ := hheard 0
  obtain ⟨hbegins, hturn, hcomplete, hafter⟩ := hheard 1
  have hunbroken : Unbroken 1 Sample.heard.world.log := .of_breaks (by decide +kernel)
  exact ⟨new, hscores, hbefore, hbegins, hturn, hcomplete hunbroken rfl rfl,
    hafter Sample.heard_joined 0 Nat.zero_lt_one rfl rfl⟩

set_option maxRecDepth 4000 in
theorem listens_alone_heard : Sample.heard.world.state.2.thread = some 1 := by
  have hrun : ∃ t, Sample.heard.threads[2]? = some t ∧ t.job = .run 1 [false, false] ∧ ¬ t.Ended :=
    ⟨_, rfl, rfl, nofun⟩
  obtain ⟨t, ht, hjob, hrun⟩ := hrun
  exact (listens_alone rfl Sample.heard_reach Sample.heard_joined ht hjob hrun).1

end TapeService.Listener
