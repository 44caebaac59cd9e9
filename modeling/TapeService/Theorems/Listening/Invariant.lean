import TapeService.Interleaving.Outbox
import TapeService.Model.Listener
import TapeService.Theorems.Ledger

/-!
# What the connections of the listener have heard

A connection is sent the notifications from one place in the queue of the server on. What is taken up from it, what
has been fetched and what is still on its way are what the server has sent, in this order.
-/

namespace TapeService.Listener

open Interleaving Interleaving.Program Interleaving.Protocol

/-! ## The property -/

/-- A notification that is taken up, with the connection. -/
def heard? : Event listener → Option (Nat × Notification)
  | .called _ (.inr (.notifies k _)) (.ok (some n)) => some (k, n)
  | _ => none

/-- The notifications that have been taken up from connection `k`, in their order. -/
def heard (k : Nat) (log : List (Event listener)) : List Notification :=
  ((record heard? log).filter fun x => x.1 = k).map Prod.snd

/-- A `join` that has returned before its thread ended. -/
def timedOut : Event listener → Bool
  | .called _ (.inr (.join _)) (.ok false) => true
  | _ => false

/-- Every `join` has seen its thread end. -/
def Joined (log : List (Event listener)) : Prop := ∀ ev ∈ log, timedOut ev = false

instance (log : List (Event listener)) : Decidable (Joined log) :=
  inferInstanceAs (Decidable (∀ ev ∈ log, timedOut ev = false))

/-- Nothing has gone wrong in waiting for the notifications of connection `k`. -/
def Unbroken (k : Nat) (log : List (Event listener)) : Prop :=
  ∀ i x e, .called i (.inr (.notifies k x)) (.error e) ∉ log

/-- The step takes up something from connection `k`. -/
def hears (k : Nat) (ev : Event listener) : Bool := (heard? ev).any fun x => x.1 = k

/-- Thread `i` has tried to remove the entry that the notification is about. -/
def Handled (i : Nat) (n : Notification) (log : List (Event listener)) : Prop :=
  ∀ u d, decodePayload n.payload = .ok (u, d) → ∃ r, .called i (.inl (.zrem (entriesKey u) d)) r ∈ log

/-- What was last taken up from connection `k` has been handled since by the thread that took it up. -/
def Settled (k : Nat) (log : List (Event listener)) : Prop :=
  ∀ i x n, log.find? (hears k) = some (.called i (.inr (.notifies k x)) (.ok (some n))) →
    Handled i n (log.takeWhile fun ev => !hears k ev)

/-- Nothing has been taken up from connection `k` before what was taken up last had been handled. -/
def InTurn (k : Nat) : List (Event listener) → Prop
  | [] => True
  | ev :: log => InTurn k log ∧ (hears k ev = true → Settled k log)

namespace Listening

/-! ## Connections -/

/-- A connection where `ns` have been published and `h` have been taken up. -/
structure Line (ns h : List Notification) (x : Connection) (unbroken : Prop) : Prop where
  silent : x.listening = false → h = [] ∧ x.fetched = [] ∧ x.arrived = [] ∧ x.sent = []
  since : x.since ≤ ns.length
  heard : h <+: ns.drop x.since
  pending : unbroken → h ++ x.fetched <+: ns.drop x.since
  complete : unbroken → x.listening = true → x.opened = true →
    h ++ (x.fetched ++ (x.arrived ++ x.sent)) = ns.drop x.since

variable {ns h : List Notification} {x : Connection} {u : Prop}

theorem Line.close (hx : Line ns h x u) : Line ns h x.close u where
  silent hl := ⟨(hx.silent hl).1, (hx.silent hl).2.1, rfl, rfl⟩
  since := hx.since
  heard := hx.heard
  pending := hx.pending
  complete _ _ ho := nomatch ho

theorem prefix_drop_append {l ns new : List Notification} {m : Nat} (hm : m ≤ ns.length) (h : l <+: ns.drop m) :
    l <+: (ns ++ new).drop m := by
  rw [List.drop_append_of_le_length hm]
  exact h.trans (List.prefix_append _ _)

theorem Line.send (hx : Line ns h x u) (new : List Notification) : Line (ns ++ new) h (x.send new) u := by
  have hsince : x.since ≤ (ns ++ new).length := by
    rw [List.length_append]
    exact hx.since.trans (Nat.le_add_right _ _)
  have hsent : ∀ hs : (x.opened && x.listening) = true, x.send new = { x with sent := x.sent ++ new } :=
    fun hs => if_pos hs
  by_cases hs : (x.opened && x.listening) = true
  · obtain ⟨ho, hl⟩ := Bool.and_eq_true_iff.mp hs
    rw [hsent hs]
    refine ⟨fun hl' => (nomatch hl.symm.trans hl'), hsince, prefix_drop_append hx.since hx.heard, fun hu =>
      prefix_drop_append hx.since (hx.pending hu), fun hu _ _ => ?_⟩
    rw [List.drop_append_of_le_length hx.since, ← hx.complete hu hl ho]
    simp only [List.append_assoc]
  · rw [Connection.send, if_neg hs]
    refine ⟨hx.silent, hsince, prefix_drop_append hx.since hx.heard, fun hu =>
      prefix_drop_append hx.since (hx.pending hu), fun _ hl ho => absurd (by rw [ho, hl]; rfl) hs⟩

theorem Line.arrive (hx : Line ns h x u) {n : Notification} {rest : List Notification} (hs : x.sent = n :: rest) :
    Line ns h { x with sent := rest, arrived := x.arrived ++ [n] } u where
  silent hl := by
    have hsent : x.sent = [] := (hx.silent hl).2.2.2
    rw [hs] at hsent
    cases hsent
  since := hx.since
  heard := hx.heard
  pending := hx.pending
  complete hu hl ho := by
    rw [← hx.complete hu hl ho, hs]
    simp only [List.append_assoc, List.singleton_append]

theorem Line.connect (hx : Line ns h x u) (hl : x.listening = false) : Line ns h .new u := by
  obtain ⟨rfl, -, -, -⟩ := hx.silent hl
  exact ⟨fun _ => ⟨rfl, rfl, rfl, rfl⟩, Nat.zero_le _, List.nil_prefix, fun _ => List.nil_prefix,
    fun _ hl => nomatch hl⟩

theorem Line.listen (hx : Line ns h x u) (hl : x.listening = false) :
    Line ns h { x with listening := true, since := ns.length } u := by
  obtain ⟨rfl, hf, ha, hs⟩ := hx.silent hl
  refine ⟨fun hl => (nomatch hl), Nat.le_refl _, List.nil_prefix, fun _ => ?_, fun _ _ _ => ?_⟩
  · simp only [hf, List.nil_append, List.nil_prefix]
  · simp only [hf, ha, hs, List.nil_append, List.drop_length]

theorem Line.yield (hx : Line ns h x u) (hu : u) {n : Notification} {rest : List Notification}
    (hf : x.fetched = n :: rest) : Line ns (h ++ [n]) { x with fetched := rest } u := by
  have hpending : h ++ [n] ++ rest <+: ns.drop x.since := by
    rw [← List.append_cons, ← hf]
    exact hx.pending hu
  refine ⟨fun hl => ?_, hx.since, (List.prefix_append _ _).trans hpending, fun _ => hpending, fun _ hl ho => ?_⟩
  · have hfetched : x.fetched = [] := (hx.silent hl).2.1
    rw [hf] at hfetched
    cases hfetched
  · rw [← hx.complete hu hl ho, hf]
    simp

/-- All that has arrived is taken, and the first of it is yielded. -/
theorem Line.take (hx : Line ns h x u) (hu : u) {n : Notification} {rest : List Notification} (hf : x.fetched = [])
    (ha : x.arrived = n :: rest) (ho : x.opened = true) :
    Line ns (h ++ [n]) { x with arrived := [], fetched := rest } u := by
  have hl : x.listening = true := by
    by_contra hl
    have harrived : x.arrived = [] := (hx.silent (by simpa using hl)).2.2.1
    rw [ha] at harrived
    cases harrived
  have hcomplete : h ++ [n] ++ rest ++ x.sent = ns.drop x.since := by
    rw [← hx.complete hu hl ho, hf, ha]
    simp
  have hpending : h ++ [n] ++ rest <+: ns.drop x.since := hcomplete ▸ List.prefix_append _ _
  refine ⟨fun hl' => (nomatch hl.symm.trans hl'), hx.since, (List.prefix_append _ _).trans hpending, fun _ => hpending,
    fun _ _ _ => ?_⟩
  rw [← hcomplete]
  simp

/-- What `notifies` loses when it raises is lost. -/
theorem Line.spoil (hx : Line ns h x u) {y : Connection} (hl : y.listening = x.listening) (hs : y.since = x.since)
    (hsilent : x.listening = false → y.fetched = [] ∧ y.arrived = [] ∧ y.sent = []) {u' : Prop} (hu : ¬ u') :
    Line ns h y u' where
  silent hy := ⟨(hx.silent (hl ▸ hy)).1, hsilent (hl ▸ hy)⟩
  since := hs ▸ hx.since
  heard := hs ▸ hx.heard
  pending h := absurd h hu
  complete h := absurd h hu

/-! ## The invariant -/

variable {db₀ : Platform} {w : World listener} {ev : Event listener} {s : Whole} {i k : Nat}
  {log : List (Event listener)}

theorem heard_none (h : heard? ev = none) (k : Nat) : heard k (ev :: log) = heard k log := by
  rw [heard, record_cons_none h, heard]

theorem heard_some {n : Notification} (h : heard? ev = some (k, n)) : heard k (ev :: log) = heard k log ++ [n] := by
  rw [heard, record_cons_some h, List.filter_append, List.map_append, heard]
  simp

theorem heard_other {n : Notification} {j : Nat} (h : heard? ev = some (j, n)) (hj : j ≠ k) :
    heard k (ev :: log) = heard k log := by
  rw [heard, record_cons_some h, List.filter_append, heard]
  simp [hj]

theorem hears_eq_false_iff : hears k ev = false ↔ ∀ n, heard? ev ≠ some (k, n) := by
  unfold hears
  rcases heard? ev with _ | ⟨j, n⟩ <;> simp

theorem heard_skip (h : hears k ev = false) : heard k (ev :: log) = heard k log := by
  cases hev : heard? ev with
  | none => exact heard_none hev k
  | some x =>
      obtain ⟨j, n⟩ := x
      refine heard_other hev ?_
      rintro rfl
      exact hears_eq_false_iff.mp h n hev

theorem find_skip (h : hears k ev = false) : (ev :: log).find? (hears k) = log.find? (hears k) :=
  List.find?_cons_of_neg (by simp [h])

/-- What has been taken up has been heard. -/
theorem mem_heard {x : Bool} {n : Notification}
    (h : log.find? (hears k) = some (.called i (.inr (.notifies k x)) (.ok (some n)))) : n ∈ heard k log := by
  have hmem : (k, n) ∈ record heard? log := mem_record.mpr ⟨_, List.mem_of_find?_eq_some h, rfl⟩
  exact List.mem_map.mpr ⟨(k, n), List.mem_filter.mpr ⟨hmem, decide_eq_true rfl⟩, rfl⟩

theorem Handled.cons {n : Notification} (h : Handled i n log) : Handled i n (ev :: log) := by
  intro u d hd
  obtain ⟨r, hmem⟩ := h u d hd
  exact ⟨r, List.mem_cons_of_mem _ hmem⟩

theorem Settled.skip (h : Settled k log) (hev : hears k ev = false) : Settled k (ev :: log) := by
  intro i x n hn
  rw [find_skip hev] at hn
  rw [List.takeWhile_cons_of_pos (by rw [hev]; rfl)]
  exact Handled.cons (h i x n hn)

theorem Settled.of_heard_nil (h : heard k log = []) : Settled k log := fun i x n hn => by
  have hmem : n ∈ heard k log := mem_heard hn
  rw [h] at hmem
  cases hmem

theorem InTurn.skip (h : InTurn k log) (hev : hears k ev = false) : InTurn k (ev :: log) :=
  ⟨h, fun he => nomatch hev.symm.trans he⟩

/-- Thread `k` has done nothing yet. -/
structure Unborn (k : Nat) (w : World listener) : Prop where
  running : k ∉ w.state.2.ended
  silent : (w.state.2.connections k).listening = false
  unbroken : Unbroken k w.log

/-- Who has been started, and who can be. -/
structure Census (w : World listener) : Prop where
  jobs : ∀ i job job', .started i job ∈ w.log → .started i job' ∈ w.log → job = job'
  mains : ∀ i methods, .started i (.main methods) ∈ w.log →
    w.state.2.main = true ∧ ∀ j methods', .started j (.main methods') ∈ w.log → j = i
  runs : ∀ i k turns, .started i (.run k turns) ∈ w.log →
    k < w.state.2.made ∧ k ∉ w.state.2.launched ∧ ∀ j turns', .started j (.run k turns') ∈ w.log → j = i
  launched : ∀ k ∈ w.state.2.launched, k < w.state.2.made
  nodup : w.state.2.launched.Nodup
  unborn : ∀ k, (∀ i turns, .started i (.run k turns) ∉ w.log) → Unborn k w

theorem Census.tuned (h : Census w) (hl : (w.state.2.connections k).listening = true) : k < w.state.2.made := by
  by_contra hk
  have hnone : ∀ i turns, .started i (.run k turns) ∉ w.log := fun i turns hmem => hk (h.runs i k turns hmem).1
  cases hl.symm.trans (h.unborn k hnone).silent

/-- As long as no `join` has timed out, the thread that has not ended is the last one that was made. -/
def Alone (w : World listener) : Prop :=
  Joined w.log → ∀ k, k < w.state.2.made → k ∉ w.state.2.ended → k + 1 = w.state.2.made ∧ w.state.2.thread = some k

/-- What the connections of different threads have heard does not overlap. -/
def Ordered (w : World listener) : Prop :=
  Joined w.log → ∀ k k', k < k' → (w.state.2.connections k).listening = true →
    (w.state.2.connections k').listening = true →
    (w.state.2.connections k).since + (heard k w.log).length ≤ (w.state.2.connections k').since

structure Inv (db₀ : Platform) (w : World listener) : Prop where
  notifications : w.state.1.db.notifications = []
  lines : ∃ new, w.state.1.db.scores = db₀.scores ++ new ∧ w.state.2.published = new.length ∧
    ∀ k, Line (new.map fun x => x.2.notice) (heard k w.log) (w.state.2.connections k) (Unbroken k w.log)
  inTurn : ∀ k, InTurn k w.log
  census : Census w
  alone : Alone w
  ordered : Ordered w

theorem Joined.of_push (h : Joined (w.push ev s).log) : Joined w.log := fun ev hmem =>
  h ev (List.mem_cons_of_mem _ hmem)

theorem Unbroken.of_push (h : Unbroken k (w.push ev s).log) : Unbroken k w.log := fun i x e hmem =>
  h i x e (List.mem_cons_of_mem _ hmem)

theorem Unbroken.push {q : listener.Call} {r : Except Exn (listener.Reply q)} (h : Unbroken k w.log)
    (hr : ∀ x e, (.called i q r : Event listener) ≠ .called i (.inr (.notifies k x)) (.error e)) :
    Unbroken k (w.push (.called i q r) s).log := by
  intro j x e hmem
  rcases List.mem_cons.mp hmem with he | hmem
  · cases he
    exact hr x e rfl
  · exact h j x e hmem

end Listening

end TapeService.Listener
