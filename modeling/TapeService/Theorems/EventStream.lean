import TapeService.Interleaving.Outbox
import TapeService.Lemmas.Edits
import TapeService.Lemmas.Outlines

/-!
# The event stream

A client mirrors the tape from the frames about added and removed entries. Every frame is published after
the change that it reports, by the thread that has made the change; the mirror is faithful as long as these
threads publish in the order of their changes.
-/

namespace TapeService

open Interleaving Interleaving.Program Interleaving.Protocol Python

/-- The document whose entry an edit is about, and whether it was added. -/
def Edit.entry? : Edit → Option (Int × Bool)
  | .added d _ => some (d, true)
  | .removed d => some (d, false)
  | .emptied => none

/-- What is about the document `d`, as an item of thread `i`. -/
def tagged (i : Nat) (d : Int) (o : Option (Int × Bool)) : Option (Nat × Bool) :=
  (o.filter fun x => x.1 = d).map fun x => (i, x.2)

theorem tagged_eq_some {i : Nat} {d : Int} {o : Option (Int × Bool)} {x : Nat × Bool} :
    tagged i d o = some x ↔ o = some (d, x.2) ∧ x.1 = i := by
  obtain ⟨j, k⟩ := x
  cases o with
  | none => simp [tagged]
  | some y =>
      obtain ⟨e, k'⟩ := y
      by_cases he : e = d <;> simp [tagged, Option.filter, he]
      tauto

theorem tagged_eq_none {i : Nat} {d : Int} {o : Option (Int × Bool)} (h : ∀ k, o ≠ some (d, k)) :
    tagged i d o = none := by
  cases ht : tagged i d o with
  | none => rfl
  | some x => exact absurd (tagged_eq_some.mp ht).1 (h x.2)

namespace EventStream

variable {userId d : Int}

/-- The calls that neither change the entry of the document nor publish a frame about it. -/
def Silent (userId d : Int) : Call → Prop
  | .zaddNx key e _ => key = entriesKey userId → e ≠ d
  | .zrem key e => key = entriesKey userId → e ≠ d
  | .multiZcardDel key => key ≠ entriesKey userId
  | .publish channel event => channel = channelFor userId → ∀ k, event.entry? ≠ some (d, k)
  | _ => True

theorem ReadConfigCall.silent {u userId d : Int} {c : Call} (h : ReadConfigCall u c) : Silent userId d c := by
  cases c <;> trivial

theorem Silent.edit? {c : Call} (h : Silent userId d c) {r : Except Exn c.Reply} (k : Bool) :
    (c.edit? userId r).bind Edit.entry? ≠ some (d, k) := by
  intro he
  obtain ⟨edit, hedit, hentry⟩ := Option.bind_eq_some_iff.mp he
  cases r with
  | error e => cases c <;> cases hedit
  | ok a =>
      cases c with
      | zaddNx key e p =>
          obtain ⟨⟨hkey, -⟩, rfl⟩ : (key = entriesKey userId ∧ a = 1) ∧ Edit.added e p = edit := by
            simpa [Call.edit?] using hedit
          cases hentry
          exact h hkey rfl
      | zrem key e =>
          obtain ⟨⟨hkey, -⟩, rfl⟩ : (key = entriesKey userId ∧ a = 1) ∧ Edit.removed e = edit := by
            simpa [Call.edit?] using hedit
          cases hentry
          exact h hkey rfl
      | multiZcardDel key => simp [Call.edit?, show key ≠ entriesKey userId from h] at hedit
      | _ => cases hedit

theorem Reports.silent {c : Call} (h : Reports userId c) : Silent userId d c := by
  cases c with
  | publish channel event => simp [Silent, h.2]
  | incr => trivial
  | xadd => trivial
  | _ => exact h.elim

theorem Closes.silent {i : Nat} {c : Call} (h : Closes userId i c) : Silent userId d c := by
  rcases h with h | rfl
  · exact Reports.silent h
  · trivial

theorem Silent.mem_tape {c : Call} {s : State} (h : Silent userId d c) :
    d ∈ (exec c s).2.tape userId ↔ d ∈ s.tape userId := by
  by_cases he : c.EditsTape userId
  · cases c with
    | zaddNx key e p =>
        obtain rfl : key = entriesKey userId := he
        have hne : d ≠ e := (h rfl).symm
        simp [exec_zaddNx_tape, Redis.ZSet.mem_zaddNx, hne]
    | zrem key e =>
        obtain rfl : key = entriesKey userId := he
        have hne : d ≠ e := (h rfl).symm
        simp [exec_zrem_tape, Redis.ZSet.mem_zrem, hne]
    | multiZcardDel key => exact absurd he h
    | _ => exact he.elim
  · rw [exec_tape he]

/-- The frames that the pairs of `append_entries` call for. -/
def addedKinds (d : Int) (added : List (Int × Int)) : List Bool :=
  (added.filter fun entry => entry.2 = d).map fun _ => true

theorem addedKinds_append_ne {added : List (Int × Int)} {e p : Int} (h : e ≠ d) :
    addedKinds d (added ++ [(p, e)]) = addedKinds d added := by
  simp [addedKinds, List.filter_append, h]

/-- The frames that a removal calls for. -/
def removedKinds (d e : Int) (removed : Nat) : List Bool :=
  if removed ≠ 0 ∧ e = d then [false] else []

@[simp] theorem removedKinds_zero (d e : Int) : removedKinds d e 0 = [] := rfl

theorem removedKinds_of_ne {e : Int} (n : Nat) (h : e ≠ d) : removedKinds d e n = [] := by
  simp [removedKinds, h]

theorem removedKinds_self {n : Nat} (h : n ≠ 0) : removedKinds d d n = [false] := by
  simp [removedKinds, h]

end EventStream

section
variable [DatetimeLib]

/-- The insertion (`true`) or removal (`false`) of the document that an event is, with its thread. -/
def change? (userId d : Int) : Event service → Option (Nat × Bool)
  | .called i c r => tagged i d ((c.edit? userId r).bind Edit.entry?)
  | _ => none

/-- The frame about the document that an event is, with its publisher. -/
def frame? (userId d : Int) : Event service → Option (Nat × Bool)
  | .called i (.publish channel event) _ =>
      if channel = channelFor userId then tagged i d event.entry? else none
  | _ => none

def changes (userId d : Int) (log : List (Event service)) : List (Nat × Bool) :=
  record (change? userId d) log

def frames (userId d : Int) (log : List (Event service)) : List (Nat × Bool) :=
  record (frame? userId d) log

/-- A frame about the document, once it is published. -/
def Announces (userId d : Int) : Call → Prop
  | .publish channel event => channel = channelFor userId ∧ event.entry?.map Prod.fst = some d
  | _ => False

instance (userId d : Int) (c : Call) : Decidable (Announces userId d c) := by
  cases c <;> simp only [Announces] <;> infer_instance

/-- A frame about the document is published by the thread that has made the oldest change without one. -/
def PublishesInOrder (userId d : Int) (c : Conf service) (l : Label service) : Prop :=
  ∀ x ∈ c.call? l, Announces userId d x.2 → Next x.1 (changes userId d c.world.log) (frames userId d c.world.log)

instance (userId d : Int) (c : Conf service) (l : Label service) :
    Decidable (PublishesInOrder userId d c l) :=
  inferInstanceAs (Decidable (∀ x ∈ c.call? l, _))

/-- Whether the step starts no full generation of the user. -/
def incremental (userId : Int) : Label service → Bool
  | .start (.generate u dirty) => u ≠ userId ∨ dirty = false
  | _ => true

/-- The frames about the document tell its insertions and removals one by one; when nothing is in progress
for the user, they have told all of them. -/
structure Faithful (userId d : Int) (c : Conf service) : Prop where
  told : (frames userId d c.world.log).map Prod.snd <+: (changes userId d c.world.log).map Prod.snd
  complete : Idle userId c →
    (frames userId d c.world.log).map Prod.snd = (changes userId d c.world.log).map Prod.snd
  mirrors : Idle userId c → frames userId d c.world.log ≠ [] →
    (d ∈ c.world.state.tape userId ↔ (frames userId d c.world.log).getLast?.map Prod.snd = some true)

namespace EventStream

variable {userId d : Int} {i : Nat} {w : World service} {s : State}

theorem thread_of_change? {ev : Event service} {x : Nat × Bool} (h : change? userId d ev = some x) :
    ev.thread? = some x.1 := by
  cases ev with
  | called i c r => exact congrArg some (tagged_eq_some.mp h).2.symm
  | _ => cases h

theorem frame?_publish {c : Call} {r : Except Exn c.Reply} {x : Nat × Bool}
    (h : frame? userId d (.called i c r) = some x) :
    ∃ event, c = .publish (channelFor userId) event ∧ event.entry? = some (d, x.2) ∧ x.1 = i := by
  cases c with
  | publish channel event =>
      simp only [frame?] at h
      split at h
      · rename_i hchannel
        obtain ⟨he, hx⟩ := tagged_eq_some.mp h
        exact ⟨event, hchannel ▸ rfl, he, hx⟩
      · cases h
  | _ => cases h

theorem thread_of_frame? {ev : Event service} {x : Nat × Bool} (h : frame? userId d ev = some x) :
    ev.thread? = some x.1 := by
  cases ev with
  | called i c r =>
      obtain ⟨event, -, -, hx⟩ := frame?_publish h
      exact congrArg some hx.symm
  | _ => cases h

def protocol (userId d : Int) : Protocol service where
  inv w := frames userId d w.log <+: changes userId d w.log ∧
    (changes userId d w.log = [] ∨
      (d ∈ w.state.tape userId ↔ (changes userId d w.log).getLast?.map Prod.snd = some true))
  guar _ _ _ := True
  rely _ _ _ _ := True
  may w i c := Announces userId d c → Next i (changes userId d w.log) (frames userId d w.log)
  faults := False

/-- Thread `i` still has to publish the given frames about the document. -/
def Owing (userId d : Int) (i : Nat) (ks : List Bool) (w : World service) : Prop :=
  Owes i (changes userId d w.log) (frames userId d w.log) ks

theorem stable_owing {ks : List Bool} : (protocol userId d).Stable i (Owing userId d i ks) := by
  intro w ev s _ _ hev _ _ h
  have hchange : ((change? userId d ev).toList.filter fun x => x.1 = i) = [] := by
    cases hc : change? userId d ev with
    | none => rfl
    | some x =>
        have : x.1 ≠ i := fun hx => hev (hx ▸ thread_of_change? hc)
        simp [this]
  have hframe : ((frame? userId d ev).toList.filter fun x => x.1 = i) = [] := by
    cases hc : frame? userId d ev with
    | none => rfl
    | some x =>
        have : x.1 ≠ i := fun hx => hev (hx ▸ thread_of_frame? hc)
        simp [this]
  simpa [Owing, Owes, changes, frames, record_cons, List.filter_append, hchange, hframe] using h

theorem Silent.frame? {c : Call} (h : Silent userId d c) {r : Except Exn c.Reply} :
    frame? userId d (.called i c r) = none := by
  cases hf : TapeService.frame? userId d (.called i c r) with
  | none => rfl
  | some x =>
      obtain ⟨event, rfl, he, -⟩ := frame?_publish hf
      exact absurd he (h rfl x.2)

/-- A step that is not about the document. -/
theorem good_of_none {ev : Event service} (hw : (protocol userId d).inv w)
    (hc : change? userId d ev = none) (hf : frame? userId d ev = none)
    (ht : d ∈ s.tape userId ↔ d ∈ w.state.tape userId) : (protocol userId d).Good i w ev s := by
  refine ⟨?_, trivial, fun _ _ => trivial⟩
  simpa [protocol, changes, frames, record_cons_none hc, record_cons_none hf, ht] using hw

theorem owing_of_none {ev : Event service} {ks : List Bool} (hc : change? userId d ev = none)
    (hf : frame? userId d ev = none) (h : Owing userId d i ks w) : Owing userId d i ks (w.push ev s) := by
  simpa [Owing, changes, frames, record_cons_none hc, record_cons_none hf] using h

theorem silent_quiet {c : Call} (h : Silent userId d c) {ks : List Bool} :
    (protocol userId d).Quiet i (Owing userId d i ks) c := by
  intro w hw howes _ r s hr
  obtain ⟨rfl, rfl⟩ := hr.of_faultless id
  have hc : change? userId d (.called i c (exec c w.state).1) = none := tagged_eq_none h.edit?
  exact ⟨good_of_none hw hc h.frame? h.mem_tape, owing_of_none hc h.frame? howes⟩

theorem silent_keeps {α : Type} {ks : List Bool} {p : Prog α} (hp : p.Uses (Silent userId d)) :
    (protocol userId d).Keeps i (Owing userId d i ks) p :=
  Keeps.of_uses stable_owing (hp.mono fun _ h => silent_quiet h)

/-! ## A change, and the frame about it -/

/-- A call that changes the entry of the document leaves its thread with one more frame to publish. -/
theorem change_step {c : Call} {k : Bool} {ks : List Bool} (hw : (protocol userId d).inv w)
    (howes : Owing userId d i ks w)
    (hc : change? userId d (.called i c (exec c w.state).1) = some (i, k))
    (hf : frame? userId d (.called i c (exec c w.state).1) = none)
    (ht : d ∈ (exec c w.state).2.tape userId ↔ k = true) :
    (protocol userId d).Good i w (.called i c (exec c w.state).1) (exec c w.state).2 ∧
      Owing userId d i (ks ++ [k]) (w.push (.called i c (exec c w.state).1) (exec c w.state).2) := by
  refine ⟨⟨⟨?_, .inr ?_⟩, trivial, fun _ _ => trivial⟩, ?_⟩
  · simp only [World.push_log, changes, frames, record_cons_some hc, record_cons_none hf]
    exact hw.1.trans (List.prefix_append _ _)
  · simpa [changes, record_cons_some hc] using ht
  · simp only [Owing, Owes, World.push_log, changes, frames, record_cons_some hc, record_cons_none hf,
      List.filter_append, List.map_append] at howes ⊢
    simp [howes]

/-- The frame about the next change is the one that its thread owes. -/
theorem publish_triple {event : Frame} {k : Bool} {ks : List Bool} {E : World service → Prop}
    (he : event.entry? = some (d, k)) :
    (protocol userId d).Triple i (Owing userId d i (k :: ks)) (publish userId event)
      (upon (fun _ => Owing userId d i ks) E) := by
  refine Triple.perform stable_owing fun w hw howes hm r s hr => ?_
  obtain ⟨rfl, rfl⟩ := hr.of_faultless id
  have hc : change? userId d (.called i (.publish (channelFor userId) event)
      (exec (.publish (channelFor userId) event) w.state).1) = none := tagged_eq_none fun k => by simp [Call.edit?]
  have hf : frame? userId d (.called i (.publish (channelFor userId) event)
      (exec (.publish (channelFor userId) event) w.state).1) = some (i, k) := by
    simp [frame?, tagged, he]
  refine ⟨⟨⟨?_, ?_⟩, trivial, fun _ _ => trivial⟩, ?_⟩
  · simp only [World.push_log, changes, frames, record_cons_none hc, record_cons_some hf]
    exact (hm ⟨rfl, by simp [he]⟩).announce hw.1 howes
  · simp only [World.push_log, changes, record_cons_none hc]
    exact hw.2
  · show Owes i _ _ ks
    simp only [Owing, Owes, World.push_log, changes, frames, record_cons_none hc, record_cons_some hf,
      List.filter_append, List.map_append] at howes ⊢
    simp [howes]

/-- A thread that owes no frame about the document does not get to publish one. -/
theorem publish_triple_of_nil {event : Frame} {k : Bool} {Q : Except Exn Unit → World service → Prop}
    (he : event.entry? = some (d, k)) :
    (protocol userId d).Triple i (Owing userId d i []) (publish userId event) Q :=
  Triple.perform stable_owing fun _ hw howes hm _ _ _ =>
    absurd howes ((hm ⟨rfl, by simp [he]⟩).not_owes_nil hw.1)

/-- `ZADD`: the thread owes a frame when the entry is new. -/
theorem zadd_triple {added : List (Int × Int)} {e p : Int} {E : World service → Prop} :
    (protocol userId d).Triple i (Owing userId d i (addedKinds d added))
      (Client.zaddNx (entriesKey userId) e p)
      (upon (fun r => Owing userId d i (addedKinds d (if r = 1 then added ++ [(p, e)] else added))) E) := by
  refine Triple.perform stable_owing fun w hw howes hm r s hr => ?_
  by_cases hmem : e ∈ w.state.tape userId
  · obtain ⟨rfl, rfl⟩ := hr.of_faultless id
    have hreply : (exec (.zaddNx (entriesKey userId) e p) w.state).1 = .ok 0 := by
      simp [exec_zaddNx_reply, hmem]
    have hc : change? userId d (.called i (.zaddNx (entriesKey userId) e p)
        (exec (.zaddNx (entriesKey userId) e p) w.state).1) = none :=
      tagged_eq_none fun k => by simp [hreply, Call.edit?]
    have ht : d ∈ (exec (.zaddNx (entriesKey userId) e p) w.state).2.tape userId ↔
        d ∈ w.state.tape userId := by
      rw [exec_zaddNx_tape, Redis.ZSet.zaddNx_of_mem hmem]
    refine ⟨good_of_none hw hc rfl ht, ?_⟩
    simpa [hreply, upon] using owing_of_none hc rfl howes
  · by_cases hed : e = d
    · subst hed
      obtain ⟨rfl, rfl⟩ := hr.of_faultless id
      have hreply : (exec (.zaddNx (entriesKey userId) e p) w.state).1 = .ok 1 := by
        simp [exec_zaddNx_reply, hmem]
      have hc : change? userId e (.called i (.zaddNx (entriesKey userId) e p)
          (exec (.zaddNx (entriesKey userId) e p) w.state).1) = some (i, true) := by
        simp [change?, hreply, Call.edit?, Edit.entry?, tagged]
      have ht : e ∈ (exec (.zaddNx (entriesKey userId) e p) w.state).2.tape userId ↔ true = true := by
        simp [exec_zaddNx_tape, Redis.ZSet.mem_zaddNx]
      obtain ⟨hg, howes⟩ := change_step hw howes hc rfl ht
      refine ⟨hg, ?_⟩
      simpa [hreply, upon, addedKinds, List.filter_append] using howes
    · obtain ⟨hg, howes⟩ := silent_quiet (c := .zaddNx (entriesKey userId) e p) (fun _ => hed) w hw howes hm r s hr
      refine ⟨hg, ?_⟩
      cases r with
      | error x => exact absurd (hr.of_faultless id).1 (by simp [exec])
      | ok n =>
          have hkinds : addedKinds d (if n = 1 then added ++ [(p, e)] else added) = addedKinds d added := by
            split
            · exact addedKinds_append_ne hed
            · rfl
          simpa [upon, hkinds] using howes

/-- `ZREM`: the thread owes a frame when the entry was there. -/
theorem removeEntry_triple {e : Int} {E : World service → Prop} :
    (protocol userId d).Triple i (Owing userId d i []) (removeEntry userId e)
      (upon (fun n => Owing userId d i (removedKinds d e n)) E) := by
  refine Triple.perform stable_owing fun w hw howes hm r s hr => ?_
  by_cases hed : e = d
  · subst hed
    obtain ⟨rfl, rfl⟩ := hr.of_faultless id
    by_cases hmem : e ∈ w.state.tape userId
    · have hreply : (exec (.zrem (entriesKey userId) e) w.state).1 = .ok 1 := by
        simp [exec_zrem_reply, hmem]
      have hc : change? userId e (.called i (.zrem (entriesKey userId) e)
          (exec (.zrem (entriesKey userId) e) w.state).1) = some (i, false) := by
        simp [change?, hreply, Call.edit?, Edit.entry?, tagged]
      have ht : e ∈ (exec (.zrem (entriesKey userId) e) w.state).2.tape userId ↔ false = true := by
        simp [exec_zrem_tape, Redis.ZSet.mem_zrem]
      obtain ⟨hg, howes⟩ := change_step hw howes hc rfl ht
      refine ⟨hg, ?_⟩
      simpa [hreply, upon, removedKinds] using howes
    · have hreply : (exec (.zrem (entriesKey userId) e) w.state).1 = .ok 0 := by
        simp [exec_zrem_reply, hmem]
      have hc : change? userId e (.called i (.zrem (entriesKey userId) e)
          (exec (.zrem (entriesKey userId) e) w.state).1) = none :=
        tagged_eq_none fun k => by simp [hreply, Call.edit?]
      have ht : e ∈ (exec (.zrem (entriesKey userId) e) w.state).2.tape userId ↔
          e ∈ w.state.tape userId := by
        rw [exec_zrem_tape, Redis.ZSet.zrem_of_not_mem hmem]
      refine ⟨good_of_none hw hc rfl ht, ?_⟩
      simpa [hreply, upon] using owing_of_none hc rfl howes
  · obtain ⟨hg, howes⟩ := silent_quiet (c := .zrem (entriesKey userId) e) (fun _ => hed) w hw howes hm r s hr
    refine ⟨hg, ?_⟩
    cases r with
    | error x => exact absurd (hr.of_faultless id).1 (by simp [exec])
    | ok n => simpa [upon, removedKinds_of_ne n hed] using howes

/-- A frame about another document. -/
theorem publish_triple_of_silent {event : Frame} {ks : List Bool} {E : World service → Prop}
    (h : Silent userId d (.publish (channelFor userId) event)) :
    (protocol userId d).Triple i (Owing userId d i ks) (publish userId event)
      (upon (fun _ => Owing userId d i ks) E) := by
  refine Triple.perform stable_owing fun w hw howes hm r s hr => ?_
  obtain ⟨hg, howes⟩ := silent_quiet h w hw howes hm r s hr
  refine ⟨hg, ?_⟩
  cases r with
  | error x => exact absurd (hr.of_faultless id).1 (by simp [exec])
  | ok n => exact howes

/-- The frame about a removal that has taken place. -/
theorem publishRemoved_triple {e : Int} {n : Nat} (hn : n ≠ 0) {E : World service → Prop} :
    (protocol userId d).Triple i (Owing userId d i (removedKinds d e n))
      (publish userId (.tapeEntryRemoved userId e)) (upon (fun _ => Owing userId d i []) E) := by
  by_cases hed : e = d
  · subst hed
    rw [removedKinds_self hn]
    exact publish_triple rfl
  · rw [removedKinds_of_ne n hed]
    exact publish_triple_of_silent fun _ k he => hed (Prod.mk.inj (Option.some.inj he)).1

/-! ## The programs -/

theorem announce_triple (added : List (Int × Int)) {E : World service → Prop} :
    (protocol userId d).Triple i (Owing userId d i (addedKinds d added))
      (added.forM fun entry => publish userId (.tapeEntryAdded userId entry.1 entry.2))
      (upon (fun _ => Owing userId d i []) E) := by
  induction added with
  | nil => exact Triple.pure fun _ _ h => h
  | cons entry added ih =>
      obtain ⟨p, e⟩ := entry
      refine Triple.seq (Q := fun _ => Owing userId d i (addedKinds d added)) ?_ fun _ => ih
      by_cases hed : e = d
      · have hkinds : addedKinds d ((p, e) :: added) = true :: addedKinds d added := by
          simp [addedKinds, hed]
        rw [hkinds]
        exact publish_triple (by simp [Frame.entry?, hed])
      · have hkinds : addedKinds d ((p, e) :: added) = addedKinds d added := by
          simp [addedKinds, hed]
        rw [hkinds]
        exact publish_triple_of_silent fun _ k he => hed (Prod.mk.inj (Option.some.inj he)).1

theorem silent_upon {α : Type} {p : Prog α} (hp : p.Uses (Silent userId d)) :
    (protocol userId d).Triple i (Owing userId d i []) p
      (upon (fun _ => Owing userId d i []) (Owing userId d i [])) :=
  (silent_keeps hp).upon fun _ _ h => h

def generate (userId d : Int) (i : Nat) : GenerateOutline (protocol userId d) i userId false where
  begun := Owing userId d i []
  configured _ := Owing userId d i []
  sourced _ _ := Owing userId d i []
  wiped _ := Owing userId d i []
  held _ _ := Owing userId d i []
  measured _ _ _ := Owing userId d i []
  ready _ _ _ := Owing userId d i []
  adding added _ _ := Owing userId d i (addedKinds d added)
  announced := Owing userId d i []
  ended := Owing userId d i []
  failed := Owing userId d i []
  getConfig := Triple.conseq (silent_upon (getConfig_uses trivial)) (fun _ _ h => h) fun r _ _ h => by
    rcases r with e | _ | cfg <;> exact h
  getConfigSources _ := silent_upon (getConfigSources_uses trivial)
  leave _ _ _ _ h := h
  wipe := nofun
  wipe_clear := nofun
  acquire _ _ _ := Triple.conseq (silent_upon (uses_ask trivial)) (fun _ _ h => h) fun r _ _ h => by
    rcases r with e | _ | _ <;> exact h
  held_reports _ _ c hc := silent_upon (uses_ask (Reports.silent hc))
  delete := nofun
  last _ _ _ := silent_upon (maxPosition_uses trivial)
  page _ _ _ _ := silent_upon (listEntriesPage_uses (fun _ _ => trivial) fun _ _ => trivial)
  candidates _ _ _ _ := silent_upon (candidatesForUser_uses fun _ _ _ _ => trivial)
  zadd _ _ _ _ := zadd_triple
  announce added _ := announce_triple added
  clear := nofun
  keep _ _ _ h := h
  ended_failed _ _ h := h
  ended_stable := stable_owing
  ended_quiet _ hc := silent_quiet (Closes.silent hc)
  failed_stable := stable_owing
  failed_quiet _ hc := silent_quiet (Closes.silent hc)

/-- A request publishes its frame whether there was an entry to remove or not; where there was none, it is
not its turn. -/
theorem submitScore_triple {payload : ScoreRequest} :
    (protocol userId d).Triple i (Owing userId d i []) (submitScore userId payload)
      (upon (fun _ => Owing userId d i []) (Owing userId d i [])) := by
  refine Triple.seq (silent_upon (Uses.tryCatch (Uses.tryCatch (uses_ask trivial) fun e => ?_) fun e => ?_))
    fun scoreId => Triple.seq removeEntry_triple fun n => ?_
  · split <;> trivial
  · split <;> trivial
  · refine Triple.seq (Q := fun _ => Owing userId d i []) ?_ fun _ => Triple.pure fun _ _ h => h
    by_cases hn : n = 0
    · subst hn
      by_cases hed : payload.documentId = d
      · subst hed
        exact publish_triple_of_nil rfl
      · exact publish_triple_of_silent fun _ k he => hed (Prod.mk.inj (Option.some.inj he)).1
    · exact publishRemoved_triple hn

theorem handle_triple {document : Int} :
    (protocol userId d).Triple i (Owing userId d i []) (handle (Notification.payload ⟨some userId, some document⟩))
      (upon (fun _ => Owing userId d i []) (Owing userId d i [])) := by
  refine Triple.tryCatch (Triple.seq removeEntry_triple fun n => ?_) (fun _ _ _ h => h)
    fun _ => Triple.ret fun _ _ h => h
  split
  · rename_i hn
    exact publishRemoved_triple hn
  · rename_i hn
    obtain rfl : n = 0 := by simpa using hn
    exact Triple.pure fun _ _ h => h

theorem pageItems_triple {displayMode : String} {docs : List Document} {alreadyScored : List Int}
    {rolesBySrc : List (Int × List RoleRef)} (rows : List (Int × Int)) :
    (protocol userId d).Triple i (Owing userId d i [])
      (pageItems userId displayMode docs alreadyScored rolesBySrc rows)
      (upon (fun _ => Owing userId d i []) (Owing userId d i [])) := by
  induction rows with
  | nil => exact Triple.pure fun _ _ h => h
  | cons row rows ih =>
      obtain ⟨position, docId⟩ := row
      unfold pageItems
      split
      · refine Triple.seq removeEntry_triple fun n => ?_
        split
        · rename_i hn
          exact Triple.seq (publishRemoved_triple hn) fun _ => ih
        · rename_i hn
          obtain rfl : n = 0 := by simpa using hn
          exact ih
      · split
        · exact ih
        · exact Triple.seq ih fun _ => Triple.pure fun _ _ h => h

theorem readTape_triple {after : Option Nat} :
    (protocol userId d).Triple i (Owing userId d i []) (readTape userId after)
      (upon (fun _ => Owing userId d i []) (Owing userId d i [])) := by
  refine Triple.seq (silent_upon (uses_ask trivial)) fun locked => ?_
  split
  · exact Triple.raise fun _ _ h => h
  · refine Triple.seq (silent_upon (getConfig_uses trivial)) fun cfg => ?_
    cases cfg with
    | none => exact Triple.pure fun _ _ h => h
    | some cfg =>
        refine Triple.seq (silent_upon (listEntriesPage_uses (fun _ _ => trivial) fun _ _ => trivial))
          fun rows => ?_
        split
        · exact Triple.seq (silent_upon (uses_ask trivial)) fun _ => Triple.pure fun _ _ h => h
        · refine Triple.seq (silent_upon (fetchByIds_uses fun _ => trivial)) fun docs =>
            Triple.seq (silent_upon (filterAlreadyScored_uses fun _ => trivial)) fun scored =>
              Triple.seq (silent_upon (rolesBySource_uses (fun _ => trivial) fun _ => trivial)) fun roles =>
                Triple.seq (pageItems_triple rows) fun _ => Triple.pure fun _ _ h => h

/-! ## The outline -/

theorem WriteConfigCall.silent {u : Int} {payload : ConfigUpdate} {c : Call} (h : WriteConfigCall u payload c) :
    Silent userId d c := by
  cases c with
  | publish channel event =>
      obtain ⟨-, rfl⟩ := h
      exact fun _ k hk => nomatch hk
  | _ => trivial

theorem JobCall.silent {job : Job} (hj : job.user? ≠ some userId) {c : Call} (h : JobCall i job c) :
    Silent userId d c := by
  cases job with
  | generate u dirty =>
      have hu : u ≠ userId := by simpa [Job.user?] using hj
      cases c <;> simp_all [JobCall, GenerateCall, Silent]
  | readTape u after =>
      have hu : u ≠ userId := by simpa [Job.user?] using hj
      cases c <;> simp_all [JobCall, ReadTapeCall, Silent]
  | submitScore u payload =>
      have hu : u ≠ userId := by simpa [Job.user?] using hj
      cases c <;> simp_all [JobCall, SubmitScoreCall, Silent]
  | readConfig u => exact ReadConfigCall.silent h
  | writeConfig u payload => exact WriteConfigCall.silent h
  | handle n =>
      obtain ⟨u, document, hdecode, hc⟩ := h
      have hu : u ≠ userId := by
        rintro rfl
        exact hj (decodePayload_eq_ok hdecode).1
      cases c <;> simp_all [HandleCall, Silent]

theorem body_triple {job : Job} (hjob : job ≠ .generate userId true) :
    (protocol userId d).Triple i (Owing userId d i []) (Job.body i job) fun _ => Owing userId d i [] := by
  have hmap : ∀ {α : Type} {p : Prog α} {f : α → Out}, (protocol userId d).Triple i (Owing userId d i []) p
      (upon (fun _ => Owing userId d i []) (Owing userId d i [])) →
      (protocol userId d).Triple i (Owing userId d i []) (f <$> p) fun _ => Owing userId d i [] :=
    fun h => Triple.map h fun r _ _ h => by cases r <;> exact h
  by_cases huser : job.user? = some userId
  · cases job with
    | generate u dirty =>
        cases huser
        cases dirty with
        | true => exact absurd rfl hjob
        | false => exact hmap (generate userId d i).triple
    | readTape u after => cases huser; exact hmap readTape_triple
    | submitScore u payload => cases huser; exact hmap submitScore_triple
    | readConfig u => exact hmap (silent_upon (readConfig_uses.mono fun _ hc => ReadConfigCall.silent hc))
    | writeConfig u payload => exact hmap (silent_upon (writeConfig_uses.mono fun _ hc => WriteConfigCall.silent hc))
    | handle n =>
        obtain ⟨user, document⟩ := n
        cases huser
        cases document with
        | none => exact hmap (silent_upon (handle_uses_of_error rfl))
        | some document => exact hmap handle_triple
  · exact silent_keeps ((Job.body_uses i job).mono fun c hc => JobCall.silent huser hc)

def outline (userId d : Int) : Outline service fun c l =>
    l.Faultless ∧ incremental userId l ∧ PublishesInOrder userId d c l where
  toProtocol := protocol userId d
  post i _ _ := Owing userId d i []
  post_stable _ _ _ w ev s hw hw' hev hg h := stable_owing w ev s hw hw' hev hg trivial h
  may_ok c i t q hok hi hq := hok.2.2 (i, q) (Conf.call?_run hi hq)
  may_fail _ _ _ _ _ _ hok _ _ := hok.1.elim
  start_ok c job s hok hw hfresh hs := by
    have hg : (protocol userId d).Good c.threads.length c.world (.started c.threads.length job) s :=
      good_of_none hw rfl rfl (by rw [Job.begin_tape hs])
    have hjob : job ≠ .generate userId true := by
      rintro rfl
      simp [incremental] at hok
    refine ⟨hg, body_triple hjob _ hg.inv ?_⟩
    have hnone : ∀ {f : Event service → Option (Nat × Bool)},
        (∀ ev x, f ev = some x → ev.thread? = some x.1) →
        (record f c.world.log).filter (fun x => x.1 = c.threads.length) = [] := by
      intro f hf
      rw [← record_own hf, World.own_of_fresh hfresh, record_nil]
    refine owing_of_none rfl rfl ?_
    simp [Owing, Owes, changes, frames, hnone fun _ _ => thread_of_change?,
      hnone fun _ _ => thread_of_frame?]
  crash_ok _ _ hok := hok.1.elim
  env_ok c e s hok hw hs := by
    have hg : (protocol userId d).Good 0 c.world (.env e) s :=
      good_of_none hw rfl rfl (by rw [Env.apply_tape hs])
    exact ⟨hg.inv, hg.guar, fun _ _ _ _ => trivial⟩

end EventStream

/-- In the runs in which every frame about the document is published by whoever has made the oldest change
without one, the frames about the document are faithful. -/
theorem faithful_of_publishesInOrder {s : State} {userId d : Int} {c : Conf service}
    (h : Reach (fun c l => l.Faultless ∧ incremental userId l ∧ PublishesInOrder userId d c l) s c) :
    Faithful userId d c := by
  have hinit : (EventStream.outline userId d).inv ⟨s, []⟩ := ⟨List.nil_prefix, .inl rfl⟩
  have hc : (EventStream.outline userId d).Holds c := Outline.holds_of_reach hinit h
  have hcomplete : Idle userId c → frames userId d c.world.log = changes userId d c.world.log := by
    refine fun hidle => eq_of_owes_nil hc.inv.1 fun x hx => ?_
    obtain ⟨ev, hev, hchange⟩ := mem_record.mp hx
    cases ev with
    | called i q r =>
        obtain rfl : x.1 = i := (tagged_eq_some.mp hchange).2
        obtain ⟨t, ht, hq⟩ := h.called Job.body_uses hev
        have huser : t.job.user? = some userId := by
          by_contra hne
          exact (EventStream.JobCall.silent hne hq).edit? x.2 (tagged_eq_some.mp hchange).1
        have hmem := List.mem_of_getElem? ht
        obtain ⟨r, hr⟩ := h.outcome_of_ended (fun _ _ hok => hok.1) hmem (hidle t hmem huser)
        exact hc.outcome ht hr
    | _ => cases hchange
  constructor
  · exact hc.inv.1.map Prod.snd
  · exact fun hidle => by rw [hcomplete hidle]
  · intro hidle hne
    rw [hcomplete hidle] at hne ⊢
    exact hc.inv.2.resolve_left hne

end

section
open scoped Python.Utc

/-- A tape is filled from a selection, and its only entry is scored. -/
def Sample.shown : List (Label service) :=
  .start (.writeConfig 1 (Sample.update .asc [1])) :: Sample.runs 0 9 ++
    .start (.generate 1 false) :: Sample.runs 1 30 ++ .start (.submitScore 1 (Sample.request 7)) :: Sample.runs 2 3

theorem shown_faithful : Faithful 1 7 ((Sample.start [Sample.article 7]).play Sample.shown) := by
  have hobeys : (Sample.start [Sample.article 7]).Obeys
      (fun c l => l.Faultless ∧ incremental 1 l ∧ PublishesInOrder 1 7 c l) Sample.shown := by
    decide +kernel
  exact faithful_of_publishesInOrder (Steps.play hobeys)

/-- A score of a document that is in no tape is announced as a removal. -/
theorem unfaithful_removal :
    ¬ ∀ (s : State) (c : Conf service), Reach (S := service) (fun _ l => l.Faultless ∧ incremental 1 l) s c →
      Faithful 1 7 c := by
  intro h
  have hobeys : (Sample.start [Sample.article 7]).Obeys (fun _ l => l.Faultless ∧ incremental 1 l)
      (.start (.submitScore 1 (Sample.request 7)) :: Sample.runs 0 3) := by
    decide +kernel
  exact absurd (h _ _ (Steps.play hobeys)).told (by decide +kernel)

end

end TapeService
