import TapeService.Theorems.Listening.Steps

/-!
# A thread of the listener

`_run` is the one to make the calls of its connection, and it handles what it has taken up before it takes up more.
-/

namespace TapeService.Listener

open Interleaving Interleaving.Program Interleaving.Protocol

namespace Listening

variable {db₀ : Platform} {w : World listener} {ev : Event listener} {s : Whole} {i k : Nat}
  {log : List (Event listener)} {A : World listener → Prop}

/-! ## The connection of a thread -/

theorem Inv.reline (h : Inv db₀ w) (hlive : Live i k w) {x : Connection} (hev : ∀ i job, ev ≠ .started i job)
    (hskip : ∀ j, j ≠ k → hears j ev = false)
    (hunbroken : ∀ j, j ≠ k → (Unbroken j (ev :: w.log) ↔ Unbroken j w.log))
    (hline : ∀ ns, ns.length = w.state.2.published →
      Line ns (heard k w.log) (w.state.2.connections k) (Unbroken k w.log) →
      Line ns (heard k (ev :: w.log)) x (Unbroken k (ev :: w.log)))
    (hplace : x.listening = true → (w.state.2.connections k).listening = true ∧
      x.since = (w.state.2.connections k).since ∨ x.since = w.state.2.published)
    (hsettled : hears k ev = true → Settled k w.log) :
    Inv db₀ (w.push ev (w.state.1, w.state.2.setConnection k x)) := by
  have hheard : ∀ j, j ≠ k → heard j (ev :: w.log) = heard j w.log := fun j hj => heard_skip (hskip j hj)
  obtain ⟨new, hscores, hpublished, hlines⟩ := h.lines
  obtain ⟨turns, hs⟩ := hlive.started
  have hmade : k < w.state.2.made := (h.census.runs i k turns hs).1
  have hself : (w.state.2.setConnection k x).connections k = x := Function.update_self ..
  have hother : ∀ j, j ≠ k → (w.state.2.setConnection k x).connections j = w.state.2.connections j := fun j hj =>
    Function.update_of_ne hj ..
  have hlength : (new.map fun x => x.2.notice).length = w.state.2.published := by rw [List.length_map, hpublished]
  have hnew : ∀ j, Line (new.map fun x => x.2.notice) (heard j (ev :: w.log))
      ((w.state.2.setConnection k x).connections j) (Unbroken j (ev :: w.log)) := by
    intro j
    by_cases hj : j = k
    · subst hj
      rw [hself]
      exact hline _ hlength (hlines j)
    · rw [hother j hj, hheard j hj, hunbroken j hj]
      exact hlines j
  refine ⟨h.notifications, ⟨new, hscores, hpublished, hnew⟩, fun j => ⟨h.inTurn j, fun hj => ?_⟩, ?_,
    fun hj => h.alone (Joined.of_push hj), fun hjoined a b hab ha hb => ?_⟩
  · obtain rfl : j = k := by
      by_contra hne
      exact nomatch (hskip j hne).symm.trans hj
    exact hsettled hj
  · refine h.census.push hev le_rfl rfl rfl fun j hj hun => ?_
    have hjk : j ≠ k := fun he => hj i turns (he ▸ hs)
    exact ⟨hun.running, (congrArg Connection.listening (hother j hjk)).trans hun.silent,
      (hunbroken j hjk).mpr hun.unbroken⟩
  · simp only [World.push_state, World.push_log] at ha hb ⊢
    have hbmade : b < w.state.2.made := by
      by_cases hbk : b = k
      · exact hbk ▸ hmade
      · exact h.census.tuned (hother b hbk ▸ hb)
    have hlast := (h.alone (Joined.of_push hjoined) k hmade hlive.running).1
    have hak : a ≠ k := by omega
    rw [hother a hak] at ha ⊢
    rw [hheard a hak]
    by_cases hbk : b = k
    · subst hbk
      rw [hself] at hb ⊢
      rcases hplace hb with ⟨hold, hsince⟩ | hsince
      · rw [hsince]
        exact h.ordered (Joined.of_push hjoined) a b hab ha hold
      · have hline' := hlines a
        have hle := hline'.heard.length_le
        have hle' := hline'.since
        rw [List.length_drop, hlength] at hle
        omega
    · rw [hother b hbk] at hb ⊢
      exact h.ordered (Joined.of_push hjoined) a b hab ha hb

/-- The calls that only the thread of connection `k` makes of it. -/
def OfConnection (k : Nat) : Call → Prop
  | .connect j => j = k
  | .listen j => j = k
  | .notifies j _ => j = k
  | _ => False

section
variable {c : Call} {r : Except Exn c.Reply}

theorem OfConnection.hears (hc : OfConnection k c) {j : Nat} (hj : j ≠ k) :
    hears j (.called i (.inr c) r) = false := by
  refine hears_eq_false_iff.mpr fun n he => hj ?_
  cases c with
  | notifies m x =>
      obtain rfl : m = k := hc
      rcases r with e | _ | n
      · cases he
      · cases he
      · cases he
        rfl
  | _ => cases he

theorem OfConnection.unbroken (hc : OfConnection k c) {j : Nat} (hj : j ≠ k) :
    Unbroken j (.called i (.inr c) r :: log) ↔ Unbroken j log := by
  refine ⟨fun h i x e hmem => h i x e (List.mem_cons_of_mem _ hmem), fun h i x e hmem => ?_⟩
  rcases List.mem_cons.mp hmem with he | hmem
  · cases he
    exact hj hc
  · exact h i x e hmem

theorem OfConnection.good (hc : OfConnection k c) (hw : Inv db₀ w) (hlive : Live i k w) {x : Connection}
    (hline : ∀ ns, ns.length = w.state.2.published →
      Line ns (Listener.heard k w.log) (w.state.2.connections k) (Unbroken k w.log) →
      Line ns (Listener.heard k (.called i (.inr c) r :: w.log)) x (Unbroken k (.called i (.inr c) r :: w.log)))
    (hplace : x.listening = true → (w.state.2.connections k).listening = true ∧
      x.since = (w.state.2.connections k).since ∨ x.since = w.state.2.published)
    (hsettled : Listener.hears k (.called i (.inr c) r) = true → Settled k w.log) :
    (protocol db₀).Good i w (.called i (.inr c) r) (w.state.1, w.state.2.setConnection k x) := by
  obtain ⟨turns, hs⟩ := hlive.started
  refine ⟨hw.reline hlive (fun _ _ he => nomatch he) (fun j hj => hc.hears hj) (fun j hj => hc.unbroken hj) hline hplace
    hsettled, hlive.guar hw _ _, fun j hji => ⟨fun m turns' hm => ?_, fun _ _ => ?_⟩⟩
  · have hmk : m ≠ k := by
      rintro rfl
      exact hji ((hw.census.runs i m turns hs).2.2 j turns' hm)
    refine ⟨congrArg Connection.listening (Function.update_of_ne hmk ..), id, fun a y r' he => ?_⟩
    cases he
    exact hmk hc
  · exact ⟨rfl, rfl, fun _ h => h, fun _ h => h, fun _ _ _ he => nomatch he⟩

end

theorem setConnection_self (s : State) (k : Nat) : s.setConnection k (s.connections k) = s := by
  simp only [State.setConnection, Function.update_eq_self]

theorem connections_self (s : State) (k : Nat) (x : Connection) : (s.setConnection k x).connections k = x :=
  Function.update_self ..

theorem Live.push (h : Live i k w) (hended : s.2.ended = w.state.2.ended) : Live i k (w.push ev s) := by
  obtain ⟨turns, hs⟩ := h.started
  refine ⟨⟨turns, List.mem_cons_of_mem _ hs⟩, fun he => h.running ?_⟩
  rw [World.push_state, hended] at he
  exact he

/-! ## The calls of a thread -/

theorem connect_triple : (protocol db₀).Triple i (Ready i k) (ask (.connect k))
    (upon (fun _ => Ready i k) (Live i k)) := by
  rw [ask_eq]
  refine Triple.perform ready_robust.stable fun w hw h _ r s hr => ?_
  have hboth : (protocol db₀).Good i w (.called i (.inr (.connect k)) r) s ∧
      Ready i k (w.push (.called i (.inr (.connect k)) r) s) := by
    rcases hr.state with rfl | rfl
    · exact unmoved_good trivial hw ready_robust Ready.guards h
    · have hsilent : ((w.state.2.setConnection k .new).connections k).listening = false := by rw [connections_self]; rfl
      have hheard : heard k (.called i (.inr (.connect k)) r :: w.log) = heard k w.log := heard_none rfl k
      have hunbroken : Unbroken k (.called i (.inr (.connect k)) r :: w.log) :=
        Unbroken.push (s := w.state) h.unbroken fun _ _ => nofun
      refine ⟨OfConnection.good (c := .connect k) rfl hw h.toLive (fun ns _ hl => ?_) (fun hl => nomatch hl)
        (fun he => nomatch he), h.toLive.push rfl, hsilent, hunbroken⟩
      rw [hheard]
      have := hl.connect h.silent
      exact ⟨this.silent, this.since, this.heard, fun _ => this.pending h.unbroken, fun _ => this.complete h.unbroken⟩
  cases r with
  | ok a => exact hboth
  | error e => exact ⟨hboth.1, hboth.2.toLive⟩

theorem listen_triple : (protocol db₀).Triple i (Ready i k) (ask (.listen k))
    (upon (fun _ => Serving i k) (Live i k)) := by
  rw [ask_eq]
  refine Triple.perform ready_robust.stable fun w hw h _ r s hr => ?_
  have hnone : heard k w.log = [] := by
    obtain ⟨new, -, -, hlines⟩ := hw.lines
    exact ((hlines k).silent h.silent).1
  have hheard : heard k (.called i (.inr (.listen k)) r :: w.log) = [] := (heard_none rfl k).trans hnone
  have hunbroken : Unbroken k (.called i (.inr (.listen k)) r :: w.log) :=
    Unbroken.push (s := w.state) h.unbroken fun _ _ => nofun
  have hboth : (protocol db₀).Good i w (.called i (.inr (.listen k)) r) s ∧
      Live i k (w.push (.called i (.inr (.listen k)) r) s) := by
    have hunmoved : s = w.state → (protocol db₀).Good i w (.called i (.inr (.listen k)) r) s ∧
        Live i k (w.push (.called i (.inr (.listen k)) r) s) := by
      rintro rfl
      exact unmoved_good trivial hw live_robust Live.guards h.toLive
    rcases hr.state with rfl | rfl
    · exact hunmoved rfl
    · by_cases ho : (w.state.2.connections k).opened = true
      · have hs : (listener.exec (.inr (.listen k)) w.state).2 = (w.state.1, w.state.2.setConnection k
            { w.state.2.connections k with listening := true, since := w.state.2.published }) := by
          simp only [exec, if_pos ho]
        rw [hs]
        refine ⟨OfConnection.good (c := .listen k) rfl hw h.toLive (fun ns hns hl => ?_) (fun _ => .inr rfl)
          (fun he => nomatch he), h.toLive.push rfl⟩
        rw [hheard, ← hns]
        have := hl.listen h.silent
        rw [hnone] at this
        exact ⟨this.silent, this.since, this.heard, fun _ => this.pending h.unbroken, fun _ => this.complete h.unbroken⟩
      · have hs : (listener.exec (.inr (.listen k)) w.state).2 = w.state := by
          simp only [exec, if_neg ho]
        exact hunmoved hs
  cases r with
  | ok a => exact ⟨hboth.1, hboth.2, hunbroken, Settled.of_heard_nil hheard⟩
  | error e => exact hboth

/-- It has taken up `n` last. -/
structure Hearing (i k : Nat) (n : Notification) (w : World listener) : Prop extends Live i k w where
  unbroken : Unbroken k w.log
  last : ∃ x, w.log.find? (hears k) = some (.called i (.inr (.notifies k x)) (.ok (some n)))

theorem hearing_robust {n : Notification} : Robust db₀ i (Hearing i k n) := by
  intro w ev s hw hr h
  obtain ⟨turns, hs⟩ := h.started
  have hleaves : LeavesRun k w ev s := hr.1 k turns hs
  exact ⟨live_robust w ev s hw hr h.toLive, hleaves.unbroken.mpr h.unbroken,
    h.last.imp fun x hx => (find_skip hleaves.hears).trans hx⟩

theorem exec_notifies (s : State) (k : Nat) (x : Bool) :
    exec (.notifies k x) s = (.ok none, s) ∨ exec (.notifies k x) s = (.error .callFailed, s) ∨
      ∃ n y, exec (.notifies k x) s = (.ok (some n), s.setConnection k y) ∧ y.listening = (s.connections k).listening ∧
        y.since = (s.connections k).since ∧ ∀ ns h u, u → Line ns h (s.connections k) u → Line ns (h ++ [n]) y u := by
  cases hf : (s.connections k).fetched with
  | cons n rest =>
      refine .inr (.inr ⟨n, { s.connections k with fetched := rest }, ?_, rfl, rfl, fun ns h u hu hl => hl.yield hu hf⟩)
      simp only [exec, hf]
  | nil =>
      by_cases ho : (s.connections k).opened = true
      · cases x with
        | true =>
            refine .inl ?_
            simp only [exec, hf, ho, not_true_eq_false, if_false, if_true]
        | false =>
            cases ha : (s.connections k).arrived with
            | nil =>
                refine .inl ?_
                simp only [exec, hf, ho, ha, not_true_eq_false, if_false, Bool.false_eq_true]
            | cons n rest =>
                refine .inr (.inr ⟨n, { s.connections k with arrived := [], fetched := rest }, ?_, rfl, rfl,
                  fun ns h u hu hl => hl.take hu hf ha ho⟩)
                simp only [exec, hf, ho, ha, not_true_eq_false, if_false, Bool.false_eq_true]
      · refine .inr (.inl ?_)
        simp only [exec, hf, if_pos ho]

def waited (i k : Nat) (x : Bool) (r : Except Exn (Option Notification)) : Event listener :=
  .called i (.inr (.notifies k x)) r

theorem notifies_good (hw : Inv db₀ w) (h : Serving i k w) {x : Bool} {r : Except Exn (Option Notification)}
    {y : Connection}
    (hlistening : y.listening = (w.state.2.connections k).listening)
    (hsince : y.since = (w.state.2.connections k).since)
    (hline : ∀ ns, Line ns (heard k w.log) (w.state.2.connections k) (Unbroken k w.log) →
      Line ns (heard k (waited i k x r :: w.log)) y (Unbroken k (waited i k x r :: w.log))) :
    (protocol db₀).Good i w (waited i k x r) (w.state.1, w.state.2.setConnection k y) ∧
      Live i k (w.push (waited i k x r) (w.state.1, w.state.2.setConnection k y)) :=
  ⟨OfConnection.good (c := .notifies k x) rfl hw h.toLive (fun ns _ hl => hline ns hl)
    (fun hy => .inl ⟨hlistening.symm.trans hy, hsince⟩) fun _ => h.settled, h.toLive.push rfl⟩

/-- When `notifies` raises, what it has taken is lost, and the thread takes up no more. -/
theorem notifies_error (hw : Inv db₀ w) (h : Serving i k w) {x : Bool} {e : Exn} {y : Connection}
    (hlistening : y.listening = (w.state.2.connections k).listening)
    (hsince : y.since = (w.state.2.connections k).since)
    (hsilent : ∀ ns, Line ns (heard k w.log) (w.state.2.connections k) (Unbroken k w.log) →
      (w.state.2.connections k).listening = false → y.fetched = [] ∧ y.arrived = [] ∧ y.sent = []) :
    (protocol db₀).Good i w (waited i k x (.error e)) (w.state.1, w.state.2.setConnection k y) ∧
      Live i k (w.push (waited i k x (.error e)) (w.state.1, w.state.2.setConnection k y)) := by
  have hheard : heard k (waited i k x (.error e) :: w.log) = heard k w.log := heard_none rfl k
  refine notifies_good hw h hlistening hsince fun ns hl => ?_
  rw [hheard]
  exact hl.spoil hlistening hsince (hsilent ns hl) fun hu => hu i x e List.mem_cons_self

theorem notifies_none (hw : Inv db₀ w) (h : Serving i k w) {x : Bool} :
    (protocol db₀).Good i w (waited i k x (.ok none)) w.state ∧
      Serving i k (w.push (waited i k x (.ok none)) w.state) := by
  have hheard : heard k (waited i k x (.ok none) :: w.log) = heard k w.log := heard_none rfl k
  have hgood := notifies_good (x := x) (r := .ok none) (y := w.state.2.connections k) hw h rfl rfl fun ns hl => by
    rw [hheard]
    exact ⟨hl.silent, hl.since, hl.heard, fun _ => hl.pending h.unbroken, fun _ => hl.complete h.unbroken⟩
  rw [setConnection_self] at hgood
  exact ⟨hgood.1, hgood.2, Unbroken.push h.unbroken fun _ _ he => (nomatch he), Settled.skip h.settled rfl⟩

theorem notifies_some (hw : Inv db₀ w) (h : Serving i k w) {x : Bool} {n : Notification} {y : Connection}
    (hlistening : y.listening = (w.state.2.connections k).listening)
    (hsince : y.since = (w.state.2.connections k).since)
    (hline : ∀ ns h u, u → Line ns h (w.state.2.connections k) u → Line ns (h ++ [n]) y u) :
    (protocol db₀).Good i w (waited i k x (.ok (some n))) (w.state.1, w.state.2.setConnection k y) ∧
      Hearing i k n (w.push (waited i k x (.ok (some n))) (w.state.1, w.state.2.setConnection k y)) := by
  have hheard : heard k (waited i k x (.ok (some n)) :: w.log) = heard k w.log ++ [n] := heard_some rfl
  have hgood := notifies_good (x := x) (r := .ok (some n)) (y := y) hw h hlistening hsince fun ns hl => by
    rw [hheard]
    have := hline ns _ _ h.unbroken hl
    exact ⟨this.silent, this.since, this.heard, fun _ => this.pending h.unbroken, fun _ => this.complete h.unbroken⟩
  have hlast : (waited i k x (.ok (some n)) :: w.log).find? (hears k) = some (waited i k x (.ok (some n))) :=
    List.find?_cons_of_pos (decide_eq_true rfl)
  exact ⟨hgood.1, hgood.2, Unbroken.push h.unbroken fun _ _ he => (nomatch he), x, hlast⟩

theorem notifies_raised (hw : Inv db₀ w) (h : Serving i k w) {x : Bool} {e : Exn}
    (hs : s = w.state ∨ s = (w.state.1, (exec (.notifies k x) w.state.2).2)) :
    (protocol db₀).Good i w (waited i k x (.error e)) s ∧ Live i k (w.push (waited i k x (.error e)) s) := by
  have hunmoved : s = w.state → (protocol db₀).Good i w (waited i k x (.error e)) s ∧
      Live i k (w.push (waited i k x (.error e)) s) := by
    rintro rfl
    have := notifies_error (x := x) (e := e) (y := w.state.2.connections k) hw h rfl rfl fun ns hl hsilent =>
      (hl.silent hsilent).2
    rwa [setConnection_self] at this
  rcases hs with hs | hs
  · exact hunmoved hs
  · rcases exec_notifies w.state.2 k x with he | he | ⟨n, y, he, hlistening, hsince, hline⟩
    · exact hunmoved (by rw [hs, he])
    · exact hunmoved (by rw [hs, he])
    · rw [hs, he]
      refine notifies_error hw h hlistening hsince fun ns hl hsilent => ?_
      have hempty := (hline ns _ _ h.unbroken hl).silent (hlistening.trans hsilent)
      exact absurd hempty.1 (by simp)

theorem notifies_triple {x : Bool} : (protocol db₀).Triple i (Serving i k) (ask (.notifies k x))
    (upon (fun r => r.elim (Serving i k) (Hearing i k)) (Live i k)) := by
  rw [ask_eq]
  refine Triple.perform serving_robust.stable fun w hw h _ r s hr => ?_
  cases r with
  | error e => exact notifies_raised hw h hr.state
  | ok o =>
      obtain ⟨rfl, ha⟩ := hr.of_ok
      replace ha : (exec (.notifies k x) w.state.2).1 = .ok o := ha
      rcases exec_notifies w.state.2 k x with he | he | ⟨n, y, he, hlistening, hsince, hline⟩
      · rw [he] at ha
        cases ha
        show (protocol db₀).Good i w (waited i k x (.ok none)) (w.state.1, (exec (.notifies k x) w.state.2).2) ∧
          Serving i k (w.push (waited i k x (.ok none)) (w.state.1, (exec (.notifies k x) w.state.2).2))
        rw [he]
        exact notifies_none hw h
      · rw [he] at ha
        cases ha
      · rw [he] at ha
        cases ha
        show (protocol db₀).Good i w (waited i k x (.ok (some n))) (w.state.1, (exec (.notifies k x) w.state.2).2) ∧
          Hearing i k n (w.push (waited i k x (.ok (some n))) (w.state.1, (exec (.notifies k x) w.state.2).2))
        rw [he]
        exact notifies_some hw h hlistening hsince hline

/-! ## `_run` -/

/-- Once the removal has been tried, the notification is handled. -/
theorem zrem_triple {n : Notification} {u d : Int} (hn : decodePayload n.payload = .ok (u, d)) :
    (protocol db₀).Triple i (Hearing i k n)
      (Program.perform (S := listener.toSignature) (.inl (.zrem (entriesKey u) d)) : Program _ Exn _)
      fun _ => Serving i k := by
  refine Triple.perform hearing_robust.stable fun w hw h _ r s hr => ?_
  obtain ⟨hg, hrely⟩ := mild_good (q := .inl (.zrem (entriesKey u) d)) trivial hw hr (h.toLive.guar hw _ _)
  have hhearing := hearing_robust w _ s hw hrely h
  refine ⟨hg, hhearing.toLive, hhearing.unbroken, fun j y m hm u' d' hd => ?_⟩
  obtain ⟨x, hx⟩ := hhearing.last
  cases hx.symm.trans hm
  rw [hn] at hd
  cases hd
  rw [World.push_log, List.takeWhile_cons_of_pos rfl]
  exact ⟨r, List.mem_cons_self⟩

theorem handle_triple {n : Notification} : (protocol db₀).Triple i (Hearing i k n)
    ((handle n.payload).inl : Prog Unit) (upon (fun _ => Serving i k) (Live i k)) := by
  cases hn : decodePayload n.payload with
  | error e =>
      have hvacuous : ∀ w, Hearing i k n w → Serving i k w := by
        refine fun w h => ⟨h.toLive, h.unbroken, fun j y m hm u d hd => ?_⟩
        obtain ⟨x, hx⟩ := h.last
        cases hx.symm.trans hm
        cases hn.symm.trans hd
      unfold handle
      rw [hn]
      simp only
      split
      · exact Triple.pure fun w _ h => hvacuous w h
      · exact Triple.raise fun w _ h => h.toLive
  | ok x =>
      obtain ⟨u, d⟩ := x
      unfold handle
      rw [hn]
      simp only
      unfold Program.tryCatch
      rw [inl_andThen, inl_bind]
      have hremove : ((removeEntry u d).inl : Prog Nat) =
          (Program.perform (S := listener.toSignature) (.inl (.zrem (entriesKey u) d)) : Program _ Exn _) :=
        inl_perform _
      rw [hremove]
      refine Triple.andThen (Q := fun _ => Serving i k) ?_ fun r => ?_
      · refine Triple.bind (zrem_triple hn) (fun removed => ?_) fun _ _ _ h => h
        split
        · exact mild_keeps (Uses.inl (Uses.perform trivial)) serving_robust Serving.guards
        · exact Triple.ret fun _ _ h => h
      · cases r <;> exact Triple.pure fun _ _ h => h

theorem serve_triple (turns : List Bool) : (protocol db₀).Triple i (Serving i k) (serve k turns)
    (upon (fun _ => Live i k) (Live i k)) := by
  induction turns with
  | nil => exact Triple.raise fun _ _ h => h.toLive
  | cons expired turns ih =>
      refine Triple.seq notifies_triple fun o => ?_
      cases o with
      | none =>
          refine Triple.seq (mild_triple (c := .isStopSet) trivial serving_robust Serving.guards fun _ h => h.toLive)
            fun stopped => ?_
          split
          · exact Triple.pure fun _ _ h => h.toLive
          · exact ih
      | some n => exact Triple.seq handle_triple fun _ => ih

theorem live_mild {c : Call} (hc : Mild (.inr c)) : (protocol db₀).Triple i (Live i k) (ask c) fun _ => Live i k :=
  mild_keeps (Uses.inr (Uses.perform hc)) live_robust Live.guards

theorem connected_triple {turns : List Bool} : (protocol db₀).Triple i (Ready i k) (connected k turns)
    (upon (fun _ => Live i k) (Live i k)) := by
  refine Triple.seq (mild_triple (c := .setConn k) trivial ready_robust Ready.guards fun _ h => h.toLive) fun _ => ?_
  refine Triple.seq listen_triple fun _ => ?_
  refine Triple.seq (mild_triple (c := .isStopSet) trivial serving_robust Serving.guards fun _ h => h.toLive)
    fun stopped => ?_
  split
  · exact Triple.pure fun _ _ h => h.toLive
  · exact serve_triple turns

theorem run_triple {turns : List Bool} : (protocol db₀).Triple i (Ready i k) (run k turns) fun _ => Live i k := by
  refine Triple.tryFinally (Q := fun _ => Live i k) (Triple.tryCatch (Q := fun _ => Live i k) ?_ (fun _ _ _ h => h)
    fun e => ?_) fun r => ?_
  · refine Triple.bind (Q := upon (fun _ => Ready i k) (Live i k)) connect_triple (fun _ => ?_) fun _ _ _ h => h
    refine Triple.tryFinally (Q := fun _ => Live i k) (Triple.conseq connected_triple (fun _ _ h => h) fun _ _ _ h =>
      upon_const h) fun r => ?_
    exact Triple.conseq (live_mild (c := .close k) trivial) (fun _ _ h => h) fun r _ _ h => by cases r <;> exact h
  · cases e <;> exact fun _ _ h => h
  · exact Triple.conseq (live_mild (c := .clearConn) trivial) (fun _ _ h => h) fun r _ _ h => by cases r <;> exact h

theorem exit_triple : (protocol db₀).Triple i (Live i k) (ask (.exit k)) fun _ _ => True := by
  rw [ask_eq]
  refine Triple.perform live_robust.stable fun w hw h _ r s hr => ⟨?_, trivial⟩
  rcases hr.state with rfl | rfl
  · exact (unmoved_good (q := .inr (.exit k)) trivial hw live_robust Live.guards h).1
  obtain ⟨turns, hs⟩ := h.started
  refine ⟨hw.same rfl (by intros; nofun) rfl rfl ?_ fun hj m hm hend => ?_, h.guar hw _ _, fun j hji =>
    ⟨fun m turns' hm => ?_, fun _ _ => ?_⟩⟩
  · refine hw.census.push (fun _ _ => nofun) le_rfl rfl rfl fun j hj hun =>
      ⟨fun he => ?_, hun.silent, Unbroken.push hun.unbroken fun _ _ => nofun⟩
    rcases List.mem_cons.mp he with rfl | he
    · exact hj i turns hs
    · exact hun.running he
  · exact hw.alone (Joined.of_push hj) m hm fun he => hend (List.mem_cons_of_mem _ he)
  · have hmk : m ≠ k := by
      rintro rfl
      exact hji ((hw.census.runs i m turns hs).2.2 j turns' hm)
    exact ⟨rfl, fun he => (List.mem_cons.mp he).resolve_left hmk, fun _ _ _ => nofun⟩
  · exact ⟨rfl, rfl, fun _ h => h, fun _ h => List.mem_cons_of_mem _ h, fun _ _ _ => nofun⟩

end Listening

end TapeService.Listener
