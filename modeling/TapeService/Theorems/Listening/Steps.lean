import TapeService.Theorems.Listening.Invariant

/-!
# The steps of the listener

What the steps of one thread may do to the others, and the steps that leave the threads of the listener alone: those
of the handler, of the surroundings and of the object itself.
-/

namespace TapeService.Listener

open Interleaving Interleaving.Program Interleaving.Protocol

namespace Listening

variable {db₀ : Platform} {w : World listener} {ev : Event listener} {s : Whole} {i k : Nat}
  {log : List (Event listener)}

/-! ## The protocol -/

/-- What the others leave to thread `k` of the listener. -/
structure LeavesRun (k : Nat) (w : World listener) (ev : Event listener) (s : Whole) : Prop where
  listening : (s.2.connections k).listening = (w.state.2.connections k).listening
  ended : k ∈ s.2.ended → k ∈ w.state.2.ended
  notifies : ∀ j x r, ev ≠ .called j (.inr (.notifies k x)) r

/-- What the others leave to the main thread. -/
structure LeavesMain (w : World listener) (ev : Event listener) (s : Whole) : Prop where
  thread : s.2.thread = w.state.2.thread
  made : s.2.made = w.state.2.made
  launched : s.2.launched ⊆ w.state.2.launched
  ended : w.state.2.ended ⊆ s.2.ended
  started : ∀ j k turns, ev = .started j (.run k turns) → k ∈ w.state.2.launched

def protocol (db₀ : Platform) : Protocol listener where
  inv := Inv db₀
  guar w ev _ := Joined w.log → ∀ i q r k turns, ev = .called i q r → .started i (.run k turns) ∈ w.log →
    w.state.2.thread = some k
  rely i w ev s := (∀ k turns, .started i (.run k turns) ∈ w.log → LeavesRun k w ev s) ∧
    ∀ methods, .started i (.main methods) ∈ w.log → LeavesMain w ev s
  may _ _ _ := True
  faults := True

/-! ## Steps that leave the threads alone -/

/-- The event starts nothing and takes nothing up. -/
def Plain : Event listener → Prop
  | .started _ _ => False
  | .called _ (.inr (.notifies _ _)) _ => False
  | _ => True

theorem Plain.heard (h : Plain ev) : heard? ev = none := by
  unfold heard?
  split
  · exact h.elim
  · rfl

theorem Plain.hears (h : Plain ev) (k : Nat) : hears k ev = false :=
  hears_eq_false_iff.mpr fun _ he => nomatch h.heard.symm.trans he

theorem Plain.not_started (h : Plain ev) (i : Nat) (job : Job) : ev ≠ .started i job := by
  rintro rfl
  exact h

theorem Plain.not_notifies (h : Plain ev) (i k : Nat) (x : Bool) (r : Except Exn (Option Notification)) :
    ev ≠ .called i (.inr (.notifies k x)) r := by
  rintro rfl
  exact h

/-- Only the connections and the database change. -/
structure Background (s s' : Whole) (new : List (Int × ScoreRow)) : Prop where
  scores : s'.1.db.scores = s.1.db.scores ++ new
  notifications : s.1.db.notifications = [] → s'.1.db.notifications = []
  published : s'.2.published = s.2.published + new.length
  thread : s'.2.thread = s.2.thread
  made : s'.2.made = s.2.made
  launched : s'.2.launched = s.2.launched
  ended : s'.2.ended = s.2.ended
  main : s'.2.main = s.2.main
  listening : ∀ k, (s'.2.connections k).listening = (s.2.connections k).listening
  since : ∀ k, (s'.2.connections k).since = (s.2.connections k).since
  lines : ∀ k ns h u, Line ns h (s.2.connections k) u →
    Line (ns ++ new.map fun x => x.2.notice) h (s'.2.connections k) u

theorem Background.of_same {s : Whole} {s₂ : State} (hconnections : s₂.connections = s.2.connections)
    (hpublished : s₂.published = s.2.published) (hthread : s₂.thread = s.2.thread) (hmade : s₂.made = s.2.made)
    (hlaunched : s₂.launched = s.2.launched) (hended : s₂.ended = s.2.ended) (hmain : s₂.main = s.2.main) :
    Background s (s.1, s₂) [] :=
  ⟨(List.append_nil _).symm, id, hpublished, hthread, hmade, hlaunched, hended, hmain, fun _ => by rw [hconnections],
    fun _ => by rw [hconnections], fun _ _ _ _ h => by rwa [hconnections, List.map_nil, List.append_nil]⟩

theorem Background.refl (s : Whole) : Background s s [] := .of_same rfl rfl rfl rfl rfl rfl rfl

/-- The database grows, and what is new is sent. -/
theorem Background.deliver {s : Whole} {s₁ : TapeService.State} {new : List (Int × ScoreRow)}
    (hs : s.1.db.notifications = []) (h : Ledger.Grows s.1.db s₁.db [] new) :
    Background s (deliver (s₁, s.2)) new := by
  have hnotices : s₁.db.notifications = new.map fun x => x.2.notice := by
    have := h.notices
    rwa [hs] at this
  refine ⟨h.scores, fun _ => rfl, ?_, rfl, rfl, rfl, rfl, rfl, fun k => ?_, fun k => ?_, fun k ns h' u hl => ?_⟩
  · simp only [Listener.deliver, hnotices, List.length_map]
  · simp only [Listener.deliver, Connection.send]
    split <;> rfl
  · simp only [Listener.deliver, Connection.send]
    split <;> rfl
  · simp only [Listener.deliver, hnotices]
    exact hl.send _

theorem Background.setConnection {s : Whole} {k : Nat} {x : Connection}
    (hlistening : x.listening = (s.2.connections k).listening) (hsince : x.since = (s.2.connections k).since)
    (hline : ∀ ns h u, Line ns h (s.2.connections k) u → Line ns h x u) :
    Background s (s.1, s.2.setConnection k x) [] := by
  have hconnections : ∀ j, (s.2.setConnection k x).connections j = if j = k then x else s.2.connections j := by
    intro j
    simp only [State.setConnection, Function.update_apply]
  refine ⟨by simp, id, rfl, rfl, rfl, rfl, rfl, rfl, fun j => ?_, fun j => ?_, fun j ns h u hl => ?_⟩
  · rw [hconnections]
    split
    · rename_i hj
      exact hj ▸ hlistening
    · rfl
  · rw [hconnections]
    split
    · rename_i hj
      exact hj ▸ hsince
    · rfl
  · rw [hconnections, List.map_nil, List.append_nil]
    split
    · rename_i hj
      exact hline ns h u (hj ▸ hl)
    · exact hl

theorem Background.close (s : Whole) (k : Nat) :
    Background s (s.1, s.2.setConnection k (s.2.connections k).close) [] :=
  .setConnection rfl rfl fun _ _ _ h => h.close

theorem Census.push (h : Census w) (hev : ∀ i job, ev ≠ .started i job) (hmade : w.state.2.made ≤ s.2.made)
    (hlaunched : s.2.launched = w.state.2.launched) (hmain : s.2.main = w.state.2.main)
    (hunborn : ∀ k, (∀ i turns, .started i (.run k turns) ∉ w.log) → Unborn k w → Unborn k (w.push ev s)) :
    Census (w.push ev s) := by
  have hstarted : ∀ i job, .started i job ∈ (w.push ev s).log → .started i job ∈ w.log := fun i job hmem =>
    (List.mem_cons.mp hmem).resolve_left fun he => hev i job he.symm
  refine ⟨fun i job job' hi hj => h.jobs i job job' (hstarted _ _ hi) (hstarted _ _ hj), fun i methods hi => ?_,
    fun i k turns hi => ?_, ?_, ?_, ?_⟩
  · obtain ⟨hm, ho⟩ := h.mains i methods (hstarted _ _ hi)
    exact ⟨hmain.trans hm, fun j methods' hj => ho j methods' (hstarted _ _ hj)⟩
  · obtain ⟨hk, hl, ho⟩ := h.runs i k turns (hstarted _ _ hi)
    simp only [World.push_state, hlaunched]
    exact ⟨hk.trans_le hmade, hl, fun j turns' hj => ho j turns' (hstarted _ _ hj)⟩
  · simp only [World.push_state, hlaunched]
    exact fun k hk => (h.launched k hk).trans_le hmade
  · simp only [World.push_state, hlaunched]
    exact h.nodup
  · intro k hk
    have hk' : ∀ i turns, .started i (.run k turns) ∉ w.log := fun i turns hmem =>
      hk i turns (List.mem_cons_of_mem _ hmem)
    exact hunborn k hk' (h.unborn k hk')

theorem Inv.background (h : Inv db₀ w) {new : List (Int × ScoreRow)} (hb : Background w.state s new) (hev : Plain ev) :
    Inv db₀ (w.push ev s) := by
  have hheard : ∀ k, heard k (w.push ev s).log = heard k w.log := heard_none hev.heard
  have hunbroken : ∀ k, Unbroken k (w.push ev s).log ↔ Unbroken k w.log := by
    refine fun k => ⟨Unbroken.of_push, fun hu i x e hmem => ?_⟩
    rcases List.mem_cons.mp hmem with he | hmem
    · exact hev.not_notifies i k x _ he.symm
    · exact hu i x e hmem
  refine ⟨hb.notifications h.notifications, ?_, fun k => InTurn.skip (h.inTurn k) (hev.hears k), ?_,
    fun hj k hk hend => ?_, fun hj k k' hlt hk hk' => ?_⟩
  · obtain ⟨old, hscores, hpublished, hlines⟩ := h.lines
    refine ⟨old ++ new, by rw [World.push_state, hb.scores, hscores, List.append_assoc], by
      rw [World.push_state, hb.published, hpublished, List.length_append], fun k => ?_⟩
    rw [hheard, hunbroken, List.map_append]
    exact hb.lines k _ _ _ (hlines k)
  · exact h.census.push hev.not_started hb.made.ge hb.launched hb.main fun k _ hk =>
      ⟨fun he => hk.running (hb.ended ▸ he), (hb.listening k).trans hk.silent, (hunbroken k).mpr hk.unbroken⟩
  · rw [World.push_state, hb.made] at hk ⊢
    rw [World.push_state, hb.ended] at hend
    rw [hb.thread]
    exact h.alone (Joined.of_push hj) k hk hend
  · rw [World.push_state, hb.listening] at hk hk'
    rw [World.push_state, hb.since, hb.since, hheard]
    exact h.ordered (Joined.of_push hj) k k' hlt hk hk'

theorem Background.leavesRun {new : List (Int × ScoreRow)} (hb : Background w.state s new) (hev : Plain ev) :
    LeavesRun k w ev s where
  listening := hb.listening k
  ended h := hb.ended ▸ h
  notifies j x r := hev.not_notifies j k x r

theorem Background.leavesMain {new : List (Int × ScoreRow)} (hb : Background w.state s new) (hev : Plain ev) :
    LeavesMain w ev s where
  thread := hb.thread
  made := hb.made
  launched := fun _ hk => hb.launched ▸ hk
  ended := fun _ hk => hb.ended.symm ▸ hk
  started _ _ _ he := absurd he (hev.not_started _ _)

theorem Background.good {new : List (Int × ScoreRow)} (hb : Background w.state s new) (h : Inv db₀ w) (hev : Plain ev)
    (hguar : (protocol db₀).guar w ev s) : (protocol db₀).Good i w ev s :=
  ⟨h.background hb hev, hguar, fun _ _ => ⟨fun _ _ _ => hb.leavesRun hev, fun _ _ => hb.leavesMain hev⟩⟩

/-! ## Assertions -/

/-- The assertion survives every step that leaves thread `i` alone. -/
def Robust (db₀ : Platform) (i : Nat) (A : World listener → Prop) : Prop :=
  ∀ w ev s, Inv db₀ w → (protocol db₀).rely i w ev s → A w → A (w.push ev s)

variable {A : World listener → Prop}

theorem Robust.stable (hA : Robust db₀ i A) : (protocol db₀).Stable i A := fun w ev s hw _ _ _ hr h => hA w ev s hw hr h

/-- Thread `i` is thread `k` of the listener and has not ended. -/
structure Live (i k : Nat) (w : World listener) : Prop where
  started : ∃ turns, .started i (.run k turns) ∈ w.log
  running : k ∉ w.state.2.ended

/-- It has not begun to listen. -/
structure Ready (i k : Nat) (w : World listener) : Prop extends Live i k w where
  silent : (w.state.2.connections k).listening = false
  unbroken : Unbroken k w.log

/-- It has handled what it has heard. -/
structure Serving (i k : Nat) (w : World listener) : Prop extends Live i k w where
  unbroken : Unbroken k w.log
  settled : Settled k w.log

theorem LeavesRun.hears (h : LeavesRun k w ev s) : hears k ev = false := by
  refine hears_eq_false_iff.mpr fun n he => ?_
  unfold heard? at he
  split at he
  · cases he
    exact h.notifies _ _ _ rfl
  · cases he

theorem LeavesRun.unbroken (h : LeavesRun k w ev s) : Unbroken k (w.push ev s).log ↔ Unbroken k w.log := by
  refine ⟨Unbroken.of_push, fun hu i x e hmem => ?_⟩
  rcases List.mem_cons.mp hmem with he | hmem
  · exact h.notifies i x _ he.symm
  · exact hu i x e hmem

theorem live_robust : Robust db₀ i (Live i k) := by
  rintro w ev s - ⟨hr, -⟩ ⟨⟨turns, hs⟩, hrun⟩
  exact ⟨⟨turns, List.mem_cons_of_mem _ hs⟩, fun he => hrun ((hr k turns hs).ended he)⟩

theorem ready_robust : Robust db₀ i (Ready i k) := by
  intro w ev s hw hr h
  obtain ⟨turns, hs⟩ := h.started
  have hleaves : LeavesRun k w ev s := hr.1 k turns hs
  exact ⟨live_robust w ev s hw hr h.toLive, hleaves.listening.trans h.silent, hleaves.unbroken.mpr h.unbroken⟩

theorem serving_robust : Robust db₀ i (Serving i k) := by
  intro w ev s hw hr h
  obtain ⟨turns, hs⟩ := h.started
  have hleaves : LeavesRun k w ev s := hr.1 k turns hs
  exact ⟨live_robust w ev s hw hr h.toLive, hleaves.unbroken.mpr h.unbroken, Settled.skip h.settled hleaves.hears⟩

theorem Live.guar (h : Live i k w) (hw : Inv db₀ w) (q : listener.Call) (r : Except Exn (listener.Reply q)) :
    (protocol db₀).guar w (.called i q r) s := by
  intro hj j q' r' k' turns' he hs
  cases he
  obtain ⟨turns, hs'⟩ := h.started
  obtain ⟨rfl, -⟩ := Job.run.inj (hw.census.jobs i _ _ hs hs')
  exact (hw.alone hj _ (hw.census.runs i _ turns' hs).1 h.running).2

theorem Inv.same (h : Inv db₀ w) (hheard : heard? ev = none)
    (hnotifies : ∀ j k x r, ev ≠ .called j (.inr (.notifies k x)) r) {s₂ : State}
    (hconnections : s₂.connections = w.state.2.connections) (hpublished : s₂.published = w.state.2.published)
    (hcensus : Census (w.push ev (w.state.1, s₂))) (halone : Alone (w.push ev (w.state.1, s₂))) :
    Inv db₀ (w.push ev (w.state.1, s₂)) := by
  obtain ⟨new, hscores, hpub, hlines⟩ := h.lines
  have hsame : ∀ k, heard k (ev :: w.log) = heard k w.log := heard_none hheard
  have hskip : ∀ k, hears k ev = false := fun k => hears_eq_false_iff.mpr fun _ he => nomatch hheard.symm.trans he
  refine ⟨h.notifications, ⟨new, hscores, hpublished.trans hpub, fun k => ?_⟩,
    fun k => InTurn.skip (h.inTurn k) (hskip k), hcensus, halone, fun hj a b hab ha hb => ?_⟩
  · have hunbroken : Unbroken k (ev :: w.log) ↔ Unbroken k w.log :=
      ⟨fun hu j x e hmem => hu j x e (List.mem_cons_of_mem _ hmem), fun hu j x e hmem =>
        hu j x e ((List.mem_cons.mp hmem).resolve_left fun he => hnotifies j k x _ he.symm)⟩
    rw [World.push_log, hsame, hunbroken]
    simp only [World.push_state, hconnections]
    exact hlines k
  · simp only [World.push_state, hconnections] at ha hb ⊢
    rw [World.push_log, hsame]
    exact h.ordered (Joined.of_push hj) a b hab ha hb

/-! ## Calls that leave the threads alone -/

/-- The calls of the listener that change neither the threads nor the connections. -/
def Idle : Call → Prop
  | .getThread => True
  | .clearStop => True
  | .setStop => True
  | .getConn => True
  | .join _ => True
  | .setConn _ => True
  | .isStopSet => True
  | .clearConn => True
  | _ => False

/-- The calls of the handler, and those that change no more than a connection to be closed. -/
def Mild : listener.Call → Prop
  | .inl _ => True
  | .inr (.close _) => True
  | .inr c => Idle c

theorem Mild.plain {q : listener.Call} (hq : Mild q) (r : Except Exn (listener.Reply q)) : Plain (.called i q r) := by
  cases q with
  | inl c => trivial
  | inr c =>
      cases c <;> first
        | exact hq.elim
        | trivial

theorem Mild.background {q : listener.Call} (hq : Mild q) (hw : Inv db₀ w) {r : Except Exn (listener.Reply q)}
    (hr : (protocol db₀).Answers q w.state r s) : ∃ new, Background w.state s new := by
  rcases hr.state with rfl | rfl
  · exact ⟨[], .refl _⟩
  cases q with
  | inl c =>
      obtain ⟨new, hgrows⟩ := Ledger.grows_exec (s := w.state.1) (q := c)
      exact ⟨new, .deliver hw.notifications hgrows⟩
  | inr c =>
      refine ⟨[], ?_⟩
      cases c <;> first
        | exact hq.elim
        | exact Background.close w.state _
        | exact .of_same rfl rfl rfl rfl rfl rfl rfl

/-- The assertion is about a thread whose calls are those of the listener's current thread, if it is one at all. -/
def Guards (db₀ : Platform) (i : Nat) (A : World listener → Prop) : Prop :=
  ∀ w, Inv db₀ w → A w → ∀ q r s, (protocol db₀).guar w (.called i q r) s

theorem Live.guards : Guards db₀ i (Live i k) := fun _ hw h q r _ => h.guar hw q r

theorem Ready.guards : Guards db₀ i (Ready i k) := fun _ hw h q r _ => h.toLive.guar hw q r

theorem Serving.guards : Guards db₀ i (Serving i k) := fun _ hw h q r _ => h.toLive.guar hw q r

theorem mild_good {q : listener.Call} (hq : Mild q) (hw : Inv db₀ w) {r : Except Exn (listener.Reply q)}
    (hr : (protocol db₀).Answers q w.state r s) (hguar : (protocol db₀).guar w (.called i q r) s) :
    (protocol db₀).Good i w (.called i q r) s ∧ (protocol db₀).rely i w (.called i q r) s := by
  obtain ⟨new, hb⟩ := hq.background hw hr
  exact ⟨hb.good hw (hq.plain r) hguar, fun _ _ _ => hb.leavesRun (hq.plain r), fun _ _ => hb.leavesMain (hq.plain r)⟩

theorem mild_quiet {q : listener.Call} (hq : Mild q) (hA : Robust db₀ i A) (hguar : Guards db₀ i A) :
    (protocol db₀).Quiet i A q := by
  intro w hw h _ r s hr
  obtain ⟨hg, hrely⟩ := mild_good hq hw hr (hguar w hw h q r s)
  exact ⟨hg, hA w _ s hw hrely h⟩

theorem mild_keeps {α : Type} {p : Prog α} (hp : p.Uses Mild) (hA : Robust db₀ i A) (hguar : Guards db₀ i A) :
    (protocol db₀).Keeps i A p :=
  Keeps.of_uses hA.stable (hp.mono fun _ hq => mild_quiet hq hA hguar)

theorem ask_eq (c : Call) :
    ask c = (Program.perform (S := listener.toSignature) (.inr c) : Program listener.toSignature Exn _) :=
  inr_perform (S := TapeService.signature) (T := signature) c

theorem unmoved_good {q : listener.Call} {r : Except Exn (listener.Reply q)} (hq : Plain (.called i q r))
    (hw : Inv db₀ w) (hA : Robust db₀ i A) (hguar : Guards db₀ i A) (h : A w) :
    (protocol db₀).Good i w (.called i q r) w.state ∧ A (w.push (.called i q r) w.state) := by
  have hb : Background w.state w.state [] := .refl _
  exact ⟨hb.good hw hq (hguar w hw h q r _),
    hA w _ _ hw ⟨fun _ _ _ => hb.leavesRun hq, fun _ _ => hb.leavesMain hq⟩ h⟩

theorem mild_triple {c : Call} (hc : Mild (.inr c)) (hA : Robust db₀ i A) (hguar : Guards db₀ i A)
    {E : World listener → Prop} (hE : ∀ w, A w → E w) :
    (protocol db₀).Triple i A (ask c) (upon (fun _ => A) E) :=
  (mild_keeps (Uses.inr (Uses.perform hc)) hA hguar).upon fun w _ => hE w

theorem upon_const {α : Type} {B : World listener → Prop} {r : Except Exn α} (h : upon (fun _ : α => B) B r w) :
    B w := by
  cases r <;> exact h

end Listening

end TapeService.Listener
