import TapeService.Theorems.Listening.Steps

/-!
# The main thread

`start` makes a thread when the object names none, and `stop` forgets it when `join` has returned.
-/

namespace TapeService.Listener

open Interleaving Interleaving.Program Interleaving.Protocol

namespace Listening

variable {db₀ : Platform} {w : World listener} {ev : Event listener} {s : Whole} {i k : Nat}
  {log : List (Event listener)} {A : World listener → Prop}

/-! ## The main thread -/

/-- Thread `i` is the main thread. -/
def Main (i : Nat) (w : World listener) : Prop := ∃ methods, .started i (.main methods) ∈ w.log

/-- No thread of the listener is left. -/
def Vacant (i : Nat) (w : World listener) : Prop := Main i w ∧ w.state.2.thread = none

/-- Thread `k` of the listener has been made and not been started. -/
structure Fresh (i k : Nat) (w : World listener) : Prop where
  main : Main i w
  made : k < w.state.2.made
  launched : k ∉ w.state.2.launched
  started : ∀ j turns, .started j (.run k turns) ∉ w.log

def Leaving (i k : Nat) (w : World listener) : Prop := Main i w ∧ w.state.2.thread = some k

/-- If the thread has been joined, it has ended. -/
def Over (i : Nat) (w : World listener) : Prop :=
  Main i w ∧ (Joined w.log → ∀ k, w.state.2.thread = some k → k ∈ w.state.2.ended)

theorem main_robust : Robust db₀ i (Main i) := by
  rintro w ev s - - ⟨methods, h⟩
  exact ⟨methods, List.mem_cons_of_mem _ h⟩

theorem vacant_robust : Robust db₀ i (Vacant i) := by
  rintro w ev s hw hr ⟨⟨methods, hm⟩, h⟩
  exact ⟨⟨methods, List.mem_cons_of_mem _ hm⟩, (hr.2 methods hm).thread.trans h⟩

theorem fresh_robust : Robust db₀ i (Fresh i k) := by
  intro w ev s hw hr h
  obtain ⟨methods, hm⟩ := h.main
  have hleaves : LeavesMain w ev s := hr.2 methods hm
  refine ⟨⟨methods, List.mem_cons_of_mem _ hm⟩, hleaves.made.symm ▸ h.made, fun hl => h.launched (hleaves.launched hl),
    fun j turns hmem => ?_⟩
  rcases List.mem_cons.mp hmem with he | hmem
  · exact h.launched (hleaves.started j k turns he.symm)
  · exact h.started j turns hmem

theorem leaving_robust : Robust db₀ i (Leaving i k) := by
  rintro w ev s hw hr ⟨⟨methods, hm⟩, h⟩
  exact ⟨⟨methods, List.mem_cons_of_mem _ hm⟩, (hr.2 methods hm).thread.trans h⟩

theorem over_robust : Robust db₀ i (Over i) := by
  rintro w ev s hw hr ⟨⟨methods, hm⟩, h⟩
  have hleaves : LeavesMain w ev s := hr.2 methods hm
  refine ⟨⟨methods, List.mem_cons_of_mem _ hm⟩, fun hj k hk => hleaves.ended (h (Joined.of_push hj) k ?_)⟩
  exact hleaves.thread.symm.trans hk

theorem Main.guar (h : Main i w) (hw : Inv db₀ w) (q : listener.Call) (r : Except Exn (listener.Reply q)) :
    (protocol db₀).guar w (.called i q r) s := by
  rintro - j q' r' k turns he hs
  cases he
  obtain ⟨methods, hm⟩ := h
  cases hw.census.jobs i _ _ hs hm

theorem Main.guards : Guards db₀ i (Main i) := fun _ hw h q r _ => h.guar hw q r

theorem main_good (hw : Inv db₀ w) (hmain : Main i w) {q : listener.Call} {r : Except Exn (listener.Reply q)}
    (hq : Plain (.called i q r)) {s₂ : State} (hconnections : s₂.connections = w.state.2.connections)
    (hpublished : s₂.published = w.state.2.published) (hended : s₂.ended = w.state.2.ended)
    (hcensus : Census (w.push (.called i q r) (w.state.1, s₂)))
    (halone : Alone (w.push (.called i q r) (w.state.1, s₂))) :
    (protocol db₀).Good i w (.called i q r) (w.state.1, s₂) := by
  obtain ⟨methods, hm⟩ := hmain
  refine ⟨hw.same hq.heard (fun j k x r' => hq.not_notifies j k x r') hconnections hpublished hcensus halone,
    Main.guar ⟨methods, hm⟩ hw q r, fun j hji => ⟨fun k turns _ => ?_, fun ms hms => ?_⟩⟩
  · exact ⟨by rw [hconnections], fun he => hended ▸ he, fun a x r' => hq.not_notifies a k x r'⟩
  · exact absurd ((hw.census.mains i methods hm).2 j ms hms) hji

theorem Unborn.push {q : listener.Call} {r : Except Exn (listener.Reply q)} (h : Unborn k w)
    (hq : Plain (.called i q r)) (hconnections : s.2.connections = w.state.2.connections)
    (hended : s.2.ended = w.state.2.ended) : Unborn k (w.push (.called i q r) s) where
  running he := h.running (hended ▸ he)
  silent := by
    rw [World.push_state, hconnections]
    exact h.silent
  unbroken := Unbroken.push h.unbroken fun x e => hq.not_notifies i k x (.error e)

theorem newThread_triple : (protocol db₀).Triple i (Vacant i) (ask .newThread) (upon (Fresh i) (Main i)) := by
  rw [ask_eq]
  refine Triple.perform vacant_robust.stable fun w hw ⟨hmain, hvacant⟩ _ r s hr => ?_
  have hgood : (protocol db₀).Good i w (.called i (.inr .newThread) r) s := by
    rcases hr.state with rfl | rfl
    · exact (unmoved_good (q := .inr .newThread) trivial hw main_robust Main.guards hmain).1
    · refine main_good (q := .inr .newThread) hw hmain trivial rfl rfl rfl ?_ fun hj k hk hend => ?_
      · exact hw.census.push (fun _ _ => nofun) (Nat.le_succ _) rfl rfl fun k _ hun => hun.push trivial rfl rfl
      · by_cases hlast : k = w.state.2.made
        · exact ⟨hlast ▸ rfl, hlast ▸ rfl⟩
        · have hk' : k < w.state.2.made + 1 := hk
          -- There was no thread, so all that have been made before have ended.
          have hold := hw.alone (Joined.of_push hj) k (by omega) hend
          cases hvacant.symm.trans hold.2
  obtain ⟨methods, hm⟩ := hmain
  refine ⟨hgood, ?_⟩
  cases r with
  | error e => exact ⟨methods, List.mem_cons_of_mem _ hm⟩
  | ok k =>
      obtain ⟨rfl, ha⟩ := hr.of_ok
      obtain rfl : w.state.2.made = k := Except.ok.inj ha
      refine ⟨⟨methods, List.mem_cons_of_mem _ hm⟩, Nat.lt_succ_self _, fun hl => ?_, fun j turns hmem => ?_⟩
      · exact absurd (hw.census.launched _ hl) (Nat.lt_irrefl _)
      · have hstarted := (List.mem_cons.mp hmem).resolve_left nofun
        exact absurd (hw.census.runs j _ turns hstarted).1 (Nat.lt_irrefl _)

theorem startThread_triple : (protocol db₀).Triple i (Fresh i k) (ask (.startThread k)) fun _ => Main i := by
  rw [ask_eq]
  refine Triple.perform fresh_robust.stable fun w hw h _ r s hr =>
    ⟨?_, h.main.imp fun _ hm => List.mem_cons_of_mem _ hm⟩
  rcases hr.state with rfl | rfl
  · exact (unmoved_good (q := .inr (.startThread k)) trivial hw main_robust Main.guards h.main).1
  refine main_good (q := .inr (.startThread k)) hw h.main trivial rfl rfl rfl ?_ fun hj => hw.alone (Joined.of_push hj)
  have hstarted : ∀ j job, .started j job ∈ (.called i (.inr (.startThread k)) r :: w.log : List (Event listener)) →
      .started j job ∈ w.log := fun j job hmem => (List.mem_cons.mp hmem).resolve_left nofun
  refine ⟨fun a job job' hi hj => hw.census.jobs a job job' (hstarted _ _ hi) (hstarted _ _ hj), fun a ms ha => ?_,
    fun a m turns ha => ?_, fun m hm => ?_, hw.census.nodup.cons h.launched, fun m hm => ?_⟩
  · obtain ⟨hm, ho⟩ := hw.census.mains a ms (hstarted _ _ ha)
    exact ⟨hm, fun j ms' hj => ho j ms' (hstarted _ _ hj)⟩
  · obtain ⟨hmade, hl, ho⟩ := hw.census.runs a m turns (hstarted _ _ ha)
    refine ⟨hmade, fun hl' => ?_, fun j turns' hj => ho j turns' (hstarted _ _ hj)⟩
    rcases List.mem_cons.mp hl' with rfl | hl'
    · exact h.started a turns (hstarted _ _ ha)
    · exact hl hl'
  · rcases List.mem_cons.mp hm with rfl | hm
    · exact h.made
    · exact hw.census.launched m hm
  · exact (hw.census.unborn m fun a turns hmem => hm a turns (List.mem_cons_of_mem _ hmem)).push trivial rfl rfl

theorem getThread_triple : (protocol db₀).Triple i (Main i) (ask .getThread)
    (upon (fun o => o.elim (Vacant i) (Leaving i)) (Main i)) := by
  rw [ask_eq]
  refine Triple.perform main_robust.stable fun w hw hmain _ r s hr => ?_
  obtain ⟨hg, hrely⟩ := mild_good (q := .inr .getThread) trivial hw hr (hmain.guar hw _ _)
  have hmain' : Main i (w.push (.called i (.inr .getThread) r) s) := main_robust w _ s hw hrely hmain
  refine ⟨hg, ?_⟩
  cases r with
  | error e => exact hmain'
  | ok o =>
      obtain ⟨rfl, ha⟩ := hr.of_ok
      have ho : w.state.2.thread = o := Except.ok.inj ha
      cases o with
      | none => exact ⟨hmain', ho⟩
      | some k => exact ⟨hmain', ho⟩

theorem join_triple : (protocol db₀).Triple i (Leaving i k) (ask (.join k)) (upon (fun _ => Over i) (Main i)) := by
  rw [ask_eq]
  refine Triple.perform leaving_robust.stable fun w hw ⟨hmain, hthread⟩ _ r s hr => ?_
  obtain ⟨hg, hrely⟩ := mild_good (q := .inr (.join k)) trivial hw hr (hmain.guar hw _ _)
  have hmain' : Main i (w.push (.called i (.inr (.join k)) r) s) := main_robust w _ s hw hrely hmain
  refine ⟨hg, ?_⟩
  cases r with
  | error e => exact hmain'
  | ok b =>
      obtain ⟨rfl, ha⟩ := hr.of_ok
      refine ⟨hmain', fun hj m hm => ?_⟩
      obtain rfl : k = m := Option.some.inj (hthread.symm.trans hm)
      obtain rfl : decide (k ∈ w.state.2.ended) = b := Except.ok.inj ha
      by_contra hend
      have hfalse : decide (k ∈ w.state.2.ended) = false := decide_eq_false hend
      cases hj (.called i (.inr (.join k)) (.ok false)) (hfalse ▸ List.mem_cons_self)

theorem clearThread_triple : (protocol db₀).Triple i (Over i) (ask .clearThread) fun _ => Main i := by
  rw [ask_eq]
  refine Triple.perform over_robust.stable fun w hw ⟨hmain, hover⟩ _ r s hr =>
    ⟨?_, hmain.imp fun _ hm => List.mem_cons_of_mem _ hm⟩
  rcases hr.state with rfl | rfl
  · exact (unmoved_good (q := .inr .clearThread) trivial hw main_robust Main.guards hmain).1
  refine main_good (q := .inr .clearThread) hw hmain trivial rfl rfl rfl ?_ fun hj k hk hend => ?_
  · exact hw.census.push (fun _ _ => nofun) le_rfl rfl rfl fun k _ hun => hun.push trivial rfl rfl
  · have hold := hw.alone (Joined.of_push hj) k hk hend
    exact absurd (hover (Joined.of_push hj) k hold.2) hend

theorem start_triple : (protocol db₀).Triple i (Main i) start fun _ => Main i := by
  have hrest : (protocol db₀).Triple i (Main i) start (upon (fun _ => Main i) (Main i)) := by
    refine Triple.seq getThread_triple fun o => ?_
    cases o with
    | some k => exact Triple.pure fun _ _ h => h.1
    | none =>
        have hclear : (protocol db₀).Triple i (Vacant i) (ask .clearStop) (upon (fun _ => Vacant i) (Main i)) :=
          mild_triple (c := .clearStop) trivial vacant_robust (fun _ hw h q r _ => h.1.guar hw q r) fun _ h => h.1
        refine Triple.seq hclear fun _ => Triple.seq newThread_triple fun k => ?_
        exact Triple.conseq startThread_triple (fun _ _ h => h) fun r _ _ h => by cases r <;> exact h
  exact Triple.conseq hrest (fun _ _ h => h) fun _ _ _ h => upon_const h

/-- The end of `stop`, by what it does with the thread that it finds. -/
theorem leave_triple {p : Option Nat → Prog Unit} (hnone : p none = pure ())
    (hsome : ∀ k, p (some k) = (ask (.join k) : Prog Bool) >>= fun _ => ask .clearThread) :
    (protocol db₀).Triple i (Main i) ((ask .getThread : Prog (Option Nat)) >>= p)
      (upon (fun _ => Main i) (Main i)) := by
  refine Triple.seq getThread_triple fun o => ?_
  cases o with
  | none =>
      rw [hnone]
      exact Triple.pure fun _ _ h => h.1
  | some k =>
      rw [hsome]
      refine Triple.seq join_triple fun _ => ?_
      exact Triple.conseq clearThread_triple (fun _ _ h => h) fun r _ _ h => by cases r <;> exact h

theorem stop_triple : (protocol db₀).Triple i (Main i) stop fun _ => Main i := by
  have hmild : ∀ {c : Call}, Mild (.inr c) →
      (protocol db₀).Triple i (Main i) (ask c) (upon (fun _ => Main i) (Main i)) :=
    fun hc => mild_triple hc main_robust Main.guards fun _ h => h
  have hrest : (protocol db₀).Triple i (Main i) stop (upon (fun _ => Main i) (Main i)) := by
    refine Triple.seq (hmild (c := .setStop) trivial) fun _ => Triple.seq (hmild (c := .getConn) trivial) fun o => ?_
    split
    · refine Triple.seq (hmild (c := .getConn) trivial) fun o => ?_
      cases o with
      | none => exact leave_triple rfl fun _ => rfl
      | some k =>
          refine Triple.seq (Q := fun _ => Main i) ?_ fun _ => leave_triple rfl fun _ => rfl
          refine Triple.tryCatch (hmild (c := .close k) trivial) (fun _ _ _ h => h) fun e => ?_
          exact Triple.pure fun _ _ h => h
    · exact leave_triple rfl fun _ => rfl
  exact Triple.conseq hrest (fun _ _ h => h) fun _ _ _ h => upon_const h

theorem main_triple (methods : List Method) :
    (protocol db₀).Triple i (Main i) (methods.forM Method.body) fun _ _ => True := by
  have hmethod : ∀ m : Method, (protocol db₀).Triple i (Main i) m.body (upon (fun _ => Main i) (Main i)) := by
    intro m
    cases m with
    | start => exact Triple.conseq start_triple (fun _ _ h => h) fun r _ _ h => by cases r <;> exact h
    | stop => exact Triple.conseq stop_triple (fun _ _ h => h) fun r _ _ h => by cases r <;> exact h
  exact Triple.conseq (Triple.forM methods hmethod) (fun _ _ h => h) fun _ _ _ _ => trivial

end Listening

end TapeService.Listener
