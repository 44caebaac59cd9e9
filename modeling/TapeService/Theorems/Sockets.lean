import TapeService.Theorems.Authentication

/-!
# What the clients of the event stream receive

A client whose WebSocket has been accepted receives the frames that are published on the channel of its user
once its thread has subscribed: in order, none twice, and never the frame of another user. While the socket is
subscribed at most one of them is neither received nor in its buffer, the one that the thread has in hand.
-/

namespace TapeService.Web

open Interleaving Interleaving.Program Interleaving.Protocol Python

section
variable [DatetimeLib] [HashLib] {settings : Settings}

/-! ## What the log shows -/

/-- The frame that the step publishes on the channel, whether or not the call fails. -/
def tried? (channel : String) : Event (web settings) → Option Frame
  | .called _ (.inl (.publish channel' event)) _ => if channel' = channel then some event else none
  | _ => none

/-- The frame that the step publishes on the channel, if the call does not fail. -/
def published? (channel : String) : Event (web settings) → Option Frame
  | .called _ (.inl (.publish channel' event)) (.ok _) => if channel' = channel then some event else none
  | _ => none

/-- The step is the subscription for socket `i`. -/
def subscribes (i : Nat) : Event (web settings) → Bool
  | .called _ (.inr (.inr (.subscribe j _))) _ => decide (j = i)
  | _ => false

/-- What the steps since the subscription for socket `i` show, in their order. -/
def since (f : Event (web settings) → Option Frame) (i : Nat) : List (Event (web settings)) → List Frame
  | [] => []
  | ev :: log => if subscribes i ev then [] else since f i log ++ (f ev).toList

def Message.frame? : Message → Option Frame
  | .subscribe => none
  | .message event => some event

/-- The frames that are still to be read. -/
def Socket.unread (k : Socket) : List Frame := k.buffer.filterMap Message.frame?

namespace Sockets

variable {log : List (Event (web settings))} {ev : Event (web settings)} {i : Nat} {channel : String}
  {f : Event (web settings) → Option Frame} {l : List Frame} {k k' : Socket}

theorem since_cons (h : subscribes i ev = false) : since f i (ev :: log) = since f i log ++ (f ev).toList := by
  rw [since, if_neg (by simp [h])]

theorem published_eq (channel : String) (ev : Event (web settings)) :
    published? channel ev = none ∨ published? channel ev = tried? channel ev := by
  unfold published? tried?
  split
  · exact .inr rfl
  · exact .inl rfl

/-- The frames that have reached the socket: all that were published, and of those whose call failed some. -/
def Delivered (log : List (Event (web settings))) (i : Nat) (channel : String) (l : List Frame) : Prop :=
  (since (published? channel) i log).Sublist l ∧ l.Sublist (since (tried? channel) i log)

theorem Delivered.lost (h : Delivered log i channel l) (hsub : subscribes i ev = false)
    (hev : published? channel ev = none) : Delivered (ev :: log) i channel l := by
  refine ⟨?_, ?_⟩
  · rw [since_cons hsub, hev]
    simpa using h.1
  · rw [since_cons hsub]
    exact h.2.trans (List.sublist_append_left _ _)

theorem Delivered.published (h : Delivered log i channel l) (hsub : subscribes i ev = false) {event : Frame}
    (hev : tried? channel ev = some event) : Delivered (ev :: log) i channel (l ++ [event]) := by
  refine ⟨?_, ?_⟩
  · rw [since_cons hsub]
    refine h.1.append ?_
    rcases published_eq channel ev with hnone | hsome
    · rw [hnone]
      exact List.nil_sublist _
    · rw [hsome, hev]
      exact List.Sublist.refl _
  · rw [since_cons hsub, hev]
    exact h.2.append (List.Sublist.refl _)

/-! ## Sockets -/

/-- Nothing has been subscribed for the socket. -/
def Silent (k : Socket) : Prop := k.channel = none ∧ k.received = [] ∧ k.buffer = []

def Idle (k : Socket) : Prop := Silent k ∧ k.accepted = false ∧ k.closed = none

def Opened (k : Socket) : Prop := Silent k ∧ k.accepted = true ∧ k.closed = none

def Refused (k : Socket) : Prop := Silent k ∧ k.accepted = false ∧ k.closed = some 1008

/-- The thread serves a WebSocket whose origin is allowed. -/
def Origin (i : Nat) (log : List (Event (web settings))) : Prop :=
  ∃ cookie origin turns, .started i (.inr (.ws cookie origin turns)) ∈ log ∧ originAllowed settings origin = true

theorem Origin.mono (h : Origin i log) :
    Origin i (ev :: log) := by
  obtain ⟨cookie, origin, turns, hs, ho⟩ := h
  exact ⟨cookie, origin, turns, List.mem_cons_of_mem _ hs, ho⟩

/-- The channel has been subscribed for the socket of an accepted client. -/
structure Fed (log : List (Event (web settings))) (i : Nat) (channel : String) (k : Socket) : Prop where
  subscribed : ∃ r, .called i (.inr (.inr (.subscribe i channel))) r ∈ log
  origin : Origin i log
  accepted : k.accepted = true
  closed : k.closed = none
  received : k.received.Sublist (since (tried? channel) i log)

/-- The subscription is in force, with one frame in the hands of the thread or none. -/
def Live (log : List (Event (web settings))) (i : Nat) (channel : String) (held : Option Frame) (k : Socket) : Prop :=
  k.channel = some channel ∧ Delivered log i channel (k.received ++ held.toList ++ k.unread)

/-- All that a socket can be. -/
def Known (log : List (Event (web settings))) (i : Nat) (k : Socket) : Prop :=
  Silent k ∨ ∃ channel, Fed log i channel k ∧ (k.channel = none ∨ ∃ held, Live log i channel held k)

variable {w : World (web settings)} {s : (web settings).State}

/-- What a step of another thread does to the socket: it lets the client go, or publishes something. -/
inductive Passive (i : Nat) (w : World (web settings)) : Event (web settings) → (web settings).State → Prop where
  | quiet {ev : Event (web settings)} {s : (web settings).State} (connected : Bool)
      (hsub : subscribes i ev = false) (hev : ∀ channel, tried? channel ev = none)
      (hs : s.2.sockets i = { w.state.2.sockets i with connected }) : Passive i w ev s
  | publish {j : Nat} {channel : String} {event : Frame} {r : Except Exn Unit} {s : (web settings).State}
      (hs : s.2 = w.state.2.deliver channel event ∨ s.2 = w.state.2 ∧ ∃ e, r = .error e) :
      Passive i w (.called j (.inl (.publish channel event)) r) s

theorem Passive.not_subscribes (h : Passive i w ev s) : subscribes i ev = false := by
  cases h with
  | quiet connected hsub hev hs => exact hsub
  | publish hs => rfl

theorem Passive.socket (h : Passive i w ev s) :
    ∃ connected buffer, s.2.sockets i = { w.state.2.sockets i with connected, buffer } ∧
      ((w.state.2.sockets i).channel = none → buffer = (w.state.2.sockets i).buffer) := by
  cases h with
  | quiet connected hsub hev hs => exact ⟨connected, _, hs, fun _ => rfl⟩
  | @publish j channel event r _ hs =>
      rcases hs with hs | ⟨hs, -⟩
      · by_cases hc : (w.state.2.sockets i).channel = some channel
        · exact ⟨_, _, by rw [hs, deliver_of_eq hc], fun h => nomatch hc.symm.trans h⟩
        · exact ⟨_, _, by rw [hs, deliver_of_ne hc], fun _ => rfl⟩
      · exact ⟨_, _, by rw [hs], fun _ => rfl⟩

theorem Passive.silent (h : Passive i w ev s) (hk : Silent (w.state.2.sockets i)) : Silent (s.2.sockets i) := by
  obtain ⟨connected, buffer, hs, hbuffer⟩ := h.socket
  rw [hs]
  exact ⟨hk.1, hk.2.1, (hbuffer hk.1).trans hk.2.2⟩

theorem Passive.fed (h : Passive i w ev s) (hk : Fed w.log i channel (w.state.2.sockets i)) :
    Fed (ev :: w.log) i channel (s.2.sockets i) := by
  obtain ⟨connected, buffer, hs, -⟩ := h.socket
  rw [hs]
  obtain ⟨r, hr⟩ := hk.subscribed
  refine ⟨⟨r, List.mem_cons_of_mem _ hr⟩, hk.origin.mono, hk.accepted, hk.closed, ?_⟩
  rw [since_cons h.not_subscribes]
  exact hk.received.trans (List.sublist_append_left _ _)

/-- What is published while the socket is subscribed is put into its buffer. -/
theorem Passive.live (h : Passive i w ev s) {held : Option Frame}
    (hk : Live w.log i channel held (w.state.2.sockets i)) : Live (ev :: w.log) i channel held (s.2.sockets i) := by
  obtain ⟨hchannel, hdelivered⟩ := hk
  have hnot := h.not_subscribes
  cases h with
  | quiet connected hsub hev hs =>
      rw [hs]
      refine ⟨hchannel, hdelivered.lost hsub ?_⟩
      rcases published_eq channel ev with hnone | hsome
      · exact hnone
      · rw [hsome, hev]
  | @publish j channel' event r _ hs =>
      rcases hs with hs | ⟨hs, hlost⟩
      · by_cases hc : channel' = channel
        · subst hc
          rw [hs, deliver_of_eq hchannel]
          refine ⟨hchannel, ?_⟩
          have hunread : ({ w.state.2.sockets i with
              buffer := (w.state.2.sockets i).buffer ++ [.message event] } : Socket).unread =
                (w.state.2.sockets i).unread ++ [event] := List.filterMap_append
          rw [hunread, ← List.append_assoc]
          exact hdelivered.published hnot (if_pos rfl)
        · have hother : (w.state.2.sockets i).channel ≠ some channel' := by
            rw [hchannel]
            exact fun he => hc (Option.some.inj he).symm
          rw [hs, deliver_of_ne hother]
          refine ⟨hchannel, hdelivered.lost hnot ?_⟩
          cases r with
          | ok a => exact if_neg hc
          | error e => rfl
      · obtain ⟨e, rfl⟩ := hlost
        rw [hs]
        exact ⟨hchannel, hdelivered.lost hnot rfl⟩

theorem Passive.known (h : Passive i w ev s) (hk : Known w.log i (w.state.2.sockets i)) :
    Known (ev :: w.log) i (s.2.sockets i) := by
  rcases hk with hsilent | ⟨channel, hfed, hover | ⟨held, hlive⟩⟩
  · exact .inl (h.silent hsilent)
  · obtain ⟨connected, buffer, hs, -⟩ := h.socket
    exact .inr ⟨channel, h.fed hfed, .inl (by rw [hs]; exact hover)⟩
  · exact .inr ⟨channel, h.fed hfed, .inr ⟨held, h.live hlive⟩⟩

/-! ## The protocol -/

structure Inv (w : World (web settings)) : Prop where
  sockets : ∀ i, Known w.log i (w.state.2.sockets i)
  fresh : ∀ i, w.Fresh i → Idle (w.state.2.sockets i)

def protocol (settings : Settings) : Protocol (web settings) where
  inv := Inv
  guar w ev s := ∀ i, ev.thread? ≠ some i → Passive i w ev s
  rely _ _ _ _ := True
  may _ _ _ := True
  faults := True

theorem Inv.push (h : Inv w)
    (hstep : ∀ i, Passive i w ev s ∨ ev.thread? = some i ∧ Known (ev :: w.log) i (s.2.sockets i)) :
    Inv (w.push ev s) where
  sockets i := by
    rcases hstep i with hp | ⟨-, hk⟩
    · exact hp.known (h.sockets i)
    · exact hk
  fresh i hfresh := by
    rcases hstep i with hp | ⟨hev, -⟩
    · obtain ⟨hsilent, haccepted, hclosed⟩ := h.fresh i fun ev hev => hfresh ev (List.mem_cons_of_mem _ hev)
      obtain ⟨connected, buffer, hs, -⟩ := hp.socket
      refine ⟨hp.silent hsilent, ?_, ?_⟩
      · rw [World.push_state, hs]
        exact haccepted
      · rw [World.push_state, hs]
        exact hclosed
    · exact absurd hev (hfresh ev List.mem_cons_self)

/-- The call is not about socket `i`. -/
def Elsewhere (i : Nat) : (web settings).Call → Prop
  | .inr (.inr c) => c.socket? ≠ some i
  | _ => True

theorem passive_of_publish {j : Nat} {event : Frame} {r : Except Exn Unit}
    (hr : (protocol settings).Answers (.inl (.publish channel event)) w.state r s) :
    Passive i w (.called j (.inl (.publish channel event)) r) s := by
  refine .publish ?_
  rcases hr with hr | ⟨-, rfl | rfl, he⟩
  · exact .inl (congrArg (fun x => x.2.2) hr).symm
  · exact .inr ⟨rfl, he⟩
  · exact .inl rfl

theorem passive_of_elsewhere {q : (web settings).Call} (hq : Elsewhere i q) {j : Nat}
    {r : Except Exn ((web settings).Reply q)} (hr : (protocol settings).Answers q w.state r s) :
    Passive i w (.called j q r) s := by
  have hquiet : subscribes i (.called j q r) = false → (∀ channel, tried? channel (.called j q r) = none) →
      ((web settings).exec q w.state).2.2.sockets i = w.state.2.sockets i → Passive i w (.called j q r) s := by
    intro hsub hev hs
    refine .quiet (w.state.2.sockets i).connected hsub hev ?_
    rcases hr.state with rfl | rfl
    · rfl
    · exact hs
  rcases q with q | q | q
  · cases q with
    | publish channel event => exact passive_of_publish hr
    | _ => exact hquiet rfl (fun _ => rfl) rfl
  · exact hquiet rfl (fun _ => rfl) rfl
  · have hother : ∀ j, q.socket? = some j → i ≠ j := fun j hj he => hq (he ▸ hj)
    cases q with
    | accept j => exact hquiet rfl (fun _ => rfl) (Function.update_of_ne (hother j rfl) _ _)
    | close j code => exact hquiet rfl (fun _ => rfl) (Function.update_of_ne (hother j rfl) _ _)
    | subscribe j channel =>
        exact hquiet (decide_eq_false (hother j rfl).symm) (fun _ => rfl) (Function.update_of_ne (hother j rfl) _ _)
    | listen j => exact hquiet rfl (fun _ => rfl) (Function.update_of_ne (hother j rfl) _ _)
    | aclose j => exact hquiet rfl (fun _ => rfl) (Function.update_of_ne (hother j rfl) _ _)
    | sendText j data =>
        refine hquiet rfl (fun _ => rfl) ?_
        simp only [exec]
        split
        · exact Function.update_of_ne (hother j rfl) _ _
        · rfl
    | unsubscribe j channel =>
        refine hquiet rfl (fun _ => rfl) ?_
        simp only [exec]
        split
        · exact Function.update_of_ne (hother j rfl) _ _
        · rfl
    | allow bucket now key =>
        refine hquiet rfl (fun _ => rfl) ?_
        simp only [exec]
        split <;> rfl
    | authByToken token =>
        refine hquiet rfl (fun _ => rfl) ?_
        simp only [exec]
        split <;> rfl
    | _ => exact hquiet rfl (fun _ => rfl) rfl

theorem own_good {c : Call} (hc : c.socket? = some i) (h : Inv w) {r : Except Exn c.Reply}
    (hr : (protocol settings).Answers (.inr (.inr c)) w.state r s)
    (hown : Known (.called i (.inr (.inr c)) r :: w.log) i (s.2.sockets i)) :
    (protocol settings).Good i w (.called i (.inr (.inr c)) r) s := by
  have hother : ∀ j, j ≠ i → Passive j w (.called i (.inr (.inr c)) r) s := fun j hj =>
    passive_of_elsewhere (q := .inr (.inr c)) (fun he => hj (Option.some.inj (he.symm.trans hc))) hr
  refine ⟨h.push fun j => ?_, fun j hj => hother j fun he => hj (he ▸ rfl), fun _ _ => trivial⟩
  by_cases hj : j = i
  · subst hj
    exact .inr ⟨rfl, hown⟩
  · exact .inl (hother j hj)

/-- The steps of the others keep the assertion of thread `i`. -/
def Resting (i : Nat) (A : World (web settings) → Prop) : Prop := ∀ w ev s, Passive i w ev s → A w → A (w.push ev s)

variable {A : World (web settings) → Prop} {job : (web settings).Job}

theorem Resting.stable (hA : Resting i A) : (protocol settings).Stable i A :=
  fun w ev s _ _ hev hg _ h => hA w ev s (hg i hev) h

theorem keeps {α : Type} {p : Program (web settings).toSignature Exn α} (hA : Resting i A)
    (hp : p.Uses fun q => ∀ j, Elsewhere j q) :
    (protocol settings).Triple i A p (upon (fun _ => A) fun _ => True) := by
  refine (Keeps.of_uses hA.stable (hp.mono fun q hq w hw hAw _ r s hr => ⟨⟨?_, ?_, fun _ _ => trivial⟩, ?_⟩)).upon
    fun _ _ _ => trivial
  · exact hw.push fun j => .inl (passive_of_elsewhere (hq j) hr)
  · exact fun j _ => passive_of_elsewhere (hq j) hr
  · exact hA w _ s (passive_of_elsewhere (hq i) hr) hAw

/-! ## The calls about the socket -/

theorem socket_of_answers {c : Call} (hc : c.socket? = some i) {r : Except Exn c.Reply}
    (hr : (protocol settings).Answers (.inr (.inr c)) w.state r s) :
    s.2.sockets i = w.state.2.sockets i ∨ s.2.sockets i = c.act (w.state.2.sockets i) := by
  rcases hr.state with rfl | rfl
  · exact .inl rfl
  · exact .inr (exec_socket hc w.state.2)

theorem socket_of_ok {c : Call} (hc : c.socket? = some i) {a : c.Reply}
    (hr : (protocol settings).Answers (.inr (.inr c)) w.state (.ok a) s) :
    s.2.sockets i = c.act (w.state.2.sockets i) := by
  rw [hr.of_ok.1]
  exact exec_socket hc w.state.2

theorem Fed.of_eq (h : Fed log i channel k) (haccepted : k'.accepted = k.accepted) (hclosed : k'.closed = k.closed)
    (hreceived : k'.received.Sublist (since (tried? channel) i log)) : Fed log i channel k' :=
  ⟨h.subscribed, h.origin, haccepted.trans h.accepted, hclosed.trans h.closed, hreceived⟩

theorem Live.received {held : Option Frame} (h : Live log i channel held k) :
    k.received.Sublist (since (tried? channel) i log) := by
  refine List.Sublist.trans ?_ h.2.2
  rw [List.append_assoc]
  exact List.sublist_append_left _ _

/-- The next message leaves the buffer for the hands of the thread. -/
theorem Live.listen (h : Live log i channel none k) :
    Live log i channel (k.buffer.head?.bind Message.frame?) { k with buffer := k.buffer.tail } := by
  refine ⟨h.1, ?_⟩
  have hlist : k.received ++ (k.buffer.head?.bind Message.frame?).toList ++
      ({ k with buffer := k.buffer.tail } : Socket).unread = k.received ++ Option.toList none ++ k.unread := by
    rw [List.append_assoc, List.append_assoc, Socket.unread, Socket.unread]
    rcases k.buffer with _ | ⟨_ | event, buffer⟩ <;> rfl
  show Delivered log i channel (k.received ++ _ ++ _)
  rw [hlist]
  exact h.2

theorem Live.send {data : Frame} (h : Live log i channel (some data) k) :
    Live log i channel none { k with received := k.received ++ [data] } := by
  refine ⟨h.1, ?_⟩
  have hunread : ({ k with received := k.received ++ [data] } : Socket).unread = k.unread := rfl
  simpa [hunread] using h.2

/-! ## Rules -/

/-- An assertion about what has happened and about the socket of the thread. -/
def At (i : Nat) (B : List (Event (web settings)) → Socket → Prop) (w : World (web settings)) : Prop :=
  B w.log (w.state.2.sockets i)

variable {B E : List (Event (web settings)) → Socket → Prop}

/-- What the others can change of a socket is whether its client is there, and the buffer if it is subscribed. -/
theorem resting_socket {L : List (Event (web settings)) → Prop} {P : Socket → Prop}
    (hL : ∀ ev log, L log → L (ev :: log))
    (hP : ∀ k connected buffer, (k.channel = none → buffer = k.buffer) → P k → P { k with connected, buffer }) :
    Resting i (At i fun log k => L log ∧ P k) := by
  intro w ev s hp ⟨hlog, hk⟩
  obtain ⟨connected, buffer, hs, hbuffer⟩ := hp.socket
  refine ⟨hL ev w.log hlog, ?_⟩
  rw [World.push_state, hs]
  exact hP _ connected buffer hbuffer hk

/-- The rule for a call of the thread about its socket: whatever comes of it, the socket is as it was or as the call
makes it. -/
theorem own_triple {c : Call} (hc : c.socket? = some i)
    (hnot : ∀ r, subscribes i (.called i (.inr (.inr c)) r : Event (web settings)) = false)
    {Q : c.Reply → List (Event (web settings)) → Socket → Prop} (hB : Resting i (At i B))
    (hknown : ∀ log k, B log k → Known log i k ∧ Known log i (c.act k))
    (hok : ∀ log s a, B log (s.sockets i) → (exec settings c s).1 = .ok a → Q a log (c.act (s.sockets i)))
    (herror : ∀ log k, B log k → E log k ∧ E log (c.act k)) :
    (protocol settings).Triple i (At i B) (run (ask c)) (upon (fun a => At i (Q a)) (At i E)) := by
  rw [run_ask]
  refine Triple.perform hB.stable fun w hw h _ r s hr => ?_
  have hpushed : B (.called i (.inr (.inr c)) r :: w.log) (w.state.2.sockets i) :=
    hB w _ w.state (.quiet _ (hnot r) (fun _ => rfl) rfl) h
  refine ⟨own_good hc hw hr ?_, ?_⟩
  · rcases socket_of_answers hc hr with hs | hs
    · exact hs ▸ (hknown _ _ hpushed).1
    · exact hs ▸ (hknown _ _ hpushed).2
  · cases r with
    | ok a =>
        have hs := socket_of_ok hc hr
        show Q a _ (s.2.sockets i)
        rw [hs]
        exact hok _ w.state.2 a hpushed hr.of_ok.2
    | error e =>
        show E _ (s.2.sockets i)
        rcases socket_of_answers hc hr with hs | hs
        · exact hs ▸ (herror _ _ hpushed).1
        · exact hs ▸ (herror _ _ hpushed).2

/-! ## The loop -/

/-- Thread `i` reads the channel, with a frame in hand or none. -/
def Reading (i : Nat) (channel : String) (held : Option Frame) (log : List (Event (web settings))) (k : Socket) :
    Prop :=
  Fed log i channel k ∧ Live log i channel held k

/-- The client has been accepted. -/
def Done (k : Socket) : Prop := k.accepted = true ∧ k.closed = none

theorem Reading.known {held : Option Frame} (h : Reading i channel held log k) : Known log i k :=
  .inr ⟨channel, h.1, .inr ⟨held, h.2⟩⟩

theorem Reading.done {held : Option Frame} (h : Reading i channel held log k) : Done k := ⟨h.1.accepted, h.1.closed⟩

theorem Reading.resting {held : Option Frame} :
    Resting i (At i (Reading i channel held) : World (web settings) → Prop) :=
  fun _ _ _ hp h => ⟨hp.fed h.1, hp.live h.2⟩

theorem Reading.listen (h : Reading i channel none log k) :
    Reading i channel (k.buffer.head?.bind Message.frame?) log { k with buffer := k.buffer.tail } :=
  ⟨h.1.of_eq rfl rfl h.1.received, h.2.listen⟩

theorem Reading.send {data : Frame} (h : Reading i channel (some data) log k) :
    Reading i channel none log { k with received := k.received ++ [data] } :=
  ⟨h.1.of_eq rfl rfl h.2.send.received, h.2.send⟩

theorem Reading.sendText {data : Frame} (h : Reading i channel (some data) log k) :
    ∃ held, Reading i channel held log (Call.act (.sendText i data) k) := by
  by_cases hconnected : k.connected = true
  · simp only [Call.act, hconnected, ↓reduceIte]
    exact ⟨none, hconnected ▸ h.send⟩
  · simp only [Call.act, hconnected]
    exact ⟨some data, h⟩

theorem listen_triple : (protocol settings).Triple i (At i (Reading i channel none)) (run (ask (.listen i)))
    (upon (fun message => At i (Reading i channel (message.bind Message.frame?))) (At i fun _ => Done)) := by
  refine own_triple rfl (fun _ => rfl) Reading.resting (fun log k h => ⟨h.known, h.listen.known⟩)
    (fun log s a h ha => ?_) fun log k h => ⟨h.done, h.listen.done⟩
  obtain rfl : (s.sockets i).buffer.head? = a := Except.ok.inj ha
  exact h.listen

theorem sendText_triple {data : Frame} : (protocol settings).Triple i (At i (Reading i channel (some data)))
    (run (ask (.sendText i data)))
    (upon (fun sent => At i fun log k => Done k ∧ (sent = true → Reading i channel none log k))
      (At i fun _ => Done)) := by
  refine own_triple rfl (fun _ => rfl) Reading.resting (fun log k h => ?_) (fun log s a h ha => ?_) fun log k h => ?_
  · obtain ⟨held, hsent⟩ := h.sendText
    exact ⟨h.known, hsent.known⟩
  · obtain ⟨held, hsent⟩ := h.sendText
    refine ⟨hsent.done, fun ha' => ?_⟩
    subst ha'
    by_cases hconnected : (s.sockets i).connected = true
    · simp only [Call.act, hconnected, ↓reduceIte]
      exact hconnected ▸ h.send
    · simp [exec, hconnected] at ha
  · obtain ⟨held, hsent⟩ := h.sendText
    exact ⟨h.done, hsent.done⟩

theorem forward_triple (turns : Nat) : (protocol settings).Triple i (At i (Reading i channel none))
    (run (forward i turns)) (upon (fun _ => At i fun _ => Done) (At i fun _ => Done)) := by
  induction turns with
  | zero => exact Triple.pure fun w _ h => h.done
  | succ turns ih =>
      refine run_seq listen_triple fun message => ?_
      rcases message with _ | _ | data
      · exact ih
      · exact ih
      · refine run_seq sendText_triple fun sent => ?_
        cases sent with
        | true => exact Triple.conseq ih (fun w _ h => h.2 rfl) fun _ _ _ h => h
        | false => exact Triple.pure fun w _ h => h.1

theorem Done.resting : Resting i (At i (fun _ => Done) : World (web settings) → Prop) :=
  fun w ev s hp h =>
    (resting_socket (L := fun _ => True) (fun _ _ _ => trivial) (fun _ _ _ _ hk => hk) w ev s hp ⟨trivial, h⟩).2

theorem Known.cut (h : Known log i k) : Known log i { k with channel := none } := by
  rcases h with hsilent | ⟨channel, hfed, -⟩
  · exact .inl ⟨rfl, hsilent.2⟩
  · exact .inr ⟨channel, hfed.of_eq rfl rfl hfed.received, .inl rfl⟩

/-- The cleaning up ends the subscription, as far as its calls do not fail. -/
theorem cleanUp_triple : (protocol settings).Triple i (At i fun _ => Done) (run (cleanUp i channel))
    (upon (fun _ => At i fun _ => Done) (At i fun _ => Done)) := by
  have hquiet : ∀ c : Call, c.socket? = some i →
      (∀ r, subscribes i (.called i (.inr (.inr c)) r : Event (web settings)) = false) →
      (∀ k, c.act k = k ∨ c.act k = { k with channel := none }) →
      (protocol settings).Quiet i (At i fun _ => Done) (.inr (.inr c)) := by
    intro c hc hnot hact w hw h _ r s hr
    have hpassive : Passive i w (.called i (.inr (.inr c)) r) w.state := .quiet _ (hnot r) (fun _ => rfl) rfl
    have hknown := hpassive.known (hw.sockets i)
    have hs : s.2.sockets i = w.state.2.sockets i ∨ s.2.sockets i = { w.state.2.sockets i with channel := none } := by
      rcases socket_of_answers hc hr with hs | hs
      · exact .inl hs
      · rcases hact (w.state.2.sockets i) with he | he
        · exact .inl (hs.trans he)
        · exact .inr (hs.trans he)
    refine ⟨own_good hc hw hr ?_, ?_⟩
    · rcases hs with hs | hs
      · exact hs ▸ hknown
      · exact hs ▸ hknown.cut
    · show Done (s.2.sockets i)
      rcases hs with hs | hs
      · exact hs ▸ h
      · exact hs ▸ h
  refine (Keeps.of_uses Done.resting.stable (run_uses (cleanUp_uses (hquiet _ rfl (fun _ => rfl) fun k => ?_)
    (hquiet _ rfl (fun _ => rfl) fun k => .inr rfl)))).upon fun _ _ h => h
  by_cases hk : k.channel = some channel
  · exact .inr (if_pos hk)
  · exact .inl (if_neg hk)

/-! ## The request -/

theorem Idle.resting {L : List (Event (web settings)) → Prop} (hL : ∀ ev log, L log → L (ev :: log)) :
    Resting i (At i fun log k => L log ∧ Idle k) :=
  resting_socket hL fun _ _ _ hbuffer h => ⟨⟨h.1.1, h.1.2.1, (hbuffer h.1.1).trans h.1.2.2⟩, h.2⟩

theorem Opened.resting {L : List (Event (web settings)) → Prop} (hL : ∀ ev log, L log → L (ev :: log)) :
    Resting i (At i fun log k => L log ∧ Opened k) :=
  resting_socket hL fun _ _ _ hbuffer h => ⟨⟨h.1.1, h.1.2.1, (hbuffer h.1.1).trans h.1.2.2⟩, h.2⟩

theorem close_triple : (protocol settings).Triple i (At i fun _ k => True ∧ Idle k) (run (ask (.close i 1008)))
    (upon (fun _ => At i fun _ => Refused) fun _ => True) :=
  Triple.conseq (own_triple (E := fun _ _ => True) (Q := fun _ _ => Refused) rfl (fun _ => rfl)
    (Idle.resting fun _ _ _ => trivial) (fun _ _ h => ⟨.inl h.2.1, .inl h.2.1⟩)
    (fun _ _ _ h _ => ⟨h.2.1, h.2.2.1, rfl⟩) fun _ _ _ => ⟨trivial, trivial⟩) (fun _ _ h => h)
    fun r _ _ h => by cases r <;> exact h

theorem accept_triple : (protocol settings).Triple i (At i fun log k => Origin i log ∧ Idle k)
    (run (ask (.accept i))) (upon (fun _ => At i fun log k => Origin i log ∧ Opened k) fun _ => True) :=
  Triple.conseq (own_triple (E := fun _ _ => True) (Q := fun _ log k => Origin i log ∧ Opened k) rfl (fun _ => rfl)
    (Idle.resting fun _ _ => Origin.mono) (fun _ _ h => ⟨.inl h.2.1, .inl h.2.1⟩)
    (fun _ _ _ h _ => ⟨h.1, h.2.1, rfl, h.2.2.2⟩) fun _ _ _ => ⟨trivial, trivial⟩) (fun _ _ h => h)
    fun r _ _ h => by cases r <;> exact h

/-- With the subscription begins what the client is to receive. -/
theorem reading_of_subscribe {r : Except Exn Unit} (horigin : Origin i log) (hk : Opened k) :
    Reading i channel none (.called i (.inr (.inr (.subscribe i channel))) r :: log)
      (Call.act (.subscribe i channel) k) := by
  obtain ⟨⟨-, hreceived, hbuffer⟩, haccepted, hclosed⟩ := hk
  have hsince : ∀ f : Event (web settings) → Option Frame,
      since f i (.called i (.inr (.inr (.subscribe i channel))) r :: log) = [] := fun f =>
    if_pos (decide_eq_true rfl)
  refine ⟨⟨⟨r, List.mem_cons_self⟩, horigin.mono, haccepted, hclosed, ?_⟩, rfl, ?_⟩
  · rw [hsince]
    exact hreceived ▸ List.Sublist.refl _
  · have hempty : (Call.act (.subscribe i channel) k).received ++ Option.toList none ++
        (Call.act (.subscribe i channel) k).unread = [] := by
      simp [Call.act, Socket.unread, hreceived, hbuffer, Message.frame?]
    rw [hempty, Delivered, hsince, hsince]
    exact ⟨List.Sublist.refl _, List.Sublist.refl _⟩

theorem subscribe_triple : (protocol settings).Triple i (At i fun log k => Origin i log ∧ Opened k)
    (run (ask (.subscribe i channel))) (upon (fun _ => At i (Reading i channel none)) (At i fun _ => Done)) := by
  rw [run_ask]
  refine Triple.perform (Opened.resting fun _ _ => Origin.mono).stable fun w hw ⟨horigin, hk⟩ _ r s hr => ?_
  have hreading : Reading i channel none (.called i (.inr (.inr (.subscribe i channel))) r :: w.log)
      (Call.act (.subscribe i channel) (w.state.2.sockets i)) := reading_of_subscribe horigin hk
  have hs := socket_of_answers rfl hr
  refine ⟨own_good rfl hw hr ?_, ?_⟩
  · rcases hs with hs | hs
    · exact hs ▸ .inl hk.1
    · exact hs ▸ hreading.known
  · cases r with
    | ok a =>
        have hs := socket_of_ok rfl hr
        show Reading i channel none _ (s.2.sockets i)
        exact hs ▸ hreading
    | error e =>
        show Done (s.2.sockets i)
        rcases hs with hs | hs
        · exact hs ▸ hk.2
        · exact hs ▸ hreading.done

theorem wsEndpoint_triple {cookie origin : Option String} {turns : Nat} : (protocol settings).Triple i
    (At i fun log k => .started i (.inr (.ws cookie origin turns)) ∈ log ∧ Idle k)
    (run (wsEndpoint settings i cookie origin turns))
    (upon (fun a => At i fun _ k => a = .refused → Refused k) fun _ => True) := by
  have hstarted : ∀ ev (log : List (Event (web settings))), .started i (.inr (.ws cookie origin turns)) ∈ log →
      .started i (.inr (.ws cookie origin turns)) ∈ ev :: log := fun _ _ => List.mem_cons_of_mem _
  have hrefuse : (protocol settings).Triple i
      (At i fun log k => .started i (.inr (.ws cookie origin turns)) ∈ log ∧ Idle k)
      (run (do
        ask (.close i 1008)
        return Answer.refused))
      (upon (fun a => At i fun _ k => a = .refused → Refused k) fun _ => True) :=
    run_seq (Triple.conseq close_triple (fun _ _ h => ⟨trivial, h.2⟩) fun _ _ _ h => h) fun _ =>
      Triple.pure fun _ _ h _ => h
  unfold wsEndpoint
  by_cases horigin : originAllowed settings origin = true
  · simp only [horigin, not_true_eq_false, ↓reduceIte]
    have hsession : (protocol settings).Triple i
        (At i fun log k => .started i (.inr (.ws cookie origin turns)) ∈ log ∧ Idle k)
        (run (socketSession settings cookie))
        (upon (fun _ => At i fun log k => .started i (.inr (.ws cookie origin turns)) ∈ log ∧ Idle k)
          fun _ => True) :=
      keeps (Idle.resting hstarted) (run_uses (socketSession_uses (fun _ _ => trivial) cookie))
    refine run_seq hsession fun o => ?_
    cases o with
    | none => exact hrefuse
    | some sess =>
        refine run_seq (Triple.conseq accept_triple (fun _ _ h => ⟨⟨cookie, origin, turns, h.1, horigin⟩, h.2⟩)
          fun _ _ _ h => h) fun _ => run_seq (Q := fun _ => At i fun _ => Done) ?_ fun _ =>
            Triple.pure fun _ _ _ he => nomatch he
        rw [run_tryFinally]
        refine Triple.tryFinally (run_seq subscribe_triple fun _ => forward_triple turns) fun r => ?_
        refine Triple.conseq cleanUp_triple (fun _ _ h => by cases r <;> exact h) fun r' _ _ h => ?_
        cases r' with
        | ok _ => cases r <;> first | exact h | trivial
        | error e => trivial
  · simp only [horigin]
    exact hrefuse

theorem elsewhere_of_front {req : Request} (hreq : ∀ cookie origin turns, req ≠ .ws cookie origin turns)
    {q : Sessions.Call ⊕ Call} (h : Sum.elim (fun _ => True) (FrontCall i req) q) (j : Nat) :
    Elsewhere j (.inr q : (web settings).Call) := by
  cases q with
  | inl q => trivial
  | inr q =>
      cases req with
      | ws cookie origin turns => exact absurd rfl (hreq cookie origin turns)
      | login body fwd host raw => cases q <;> first | exact False.elim h | exact (Option.some_ne_none j).symm
      | _ => exact False.elim h

theorem guard_triple {req : Request} : (protocol settings).Triple i
    (At i fun log k => .started i (.inr req) ∈ log ∧ Idle k) (run (guard settings i req))
    (upon (fun x => At i fun _ k => ∀ cookie origin turns, req = .ws cookie origin turns → x = .inr .refused →
      Refused k) fun _ => True) := by
  by_cases hreq : ∃ cookie origin turns, req = .ws cookie origin turns
  · obtain ⟨cookie, origin, turns, rfl⟩ := hreq
    exact run_seq wsEndpoint_triple fun a => Triple.pure fun _ _ h _ _ _ _ ha => h (Sum.inr.inj ha)
  · refine Triple.conseq (keeps (A := fun _ => True) (fun _ _ _ _ _ => trivial)
      (run_uses ((guard_uses i req).mono fun q hq => elsewhere_of_front (fun cookie origin turns he =>
        hreq ⟨cookie, origin, turns, he⟩) hq))) (fun _ _ _ => trivial) fun r _ _ _ => ?_
    cases r with
    | ok x => exact fun cookie origin turns he => absurd ⟨cookie, origin, turns, he⟩ hreq
    | error e => trivial

/-- What holds of the socket when its thread has been answered. -/
def Post (job : (web settings).Job) (r : Except Exn (Out ⊕ Answer)) (k : Socket) : Prop :=
  ∀ cookie origin turns, job = .inr (.ws cookie origin turns) → r = .ok (.inr .refused) → Refused k

theorem body_triple : (protocol settings).Triple i (At i fun log k => .started i job ∈ log ∧ Idle k)
    ((web settings).body i job) (fun r => At i fun _ => Post job r) := by
  have hinner : ∀ job' : Job, (protocol settings).Triple i (fun _ => True)
      ((Sum.inl <$> (service.body i job').inl : Program (web settings).toSignature Exn (Out ⊕ Answer)))
      (upon (fun out _ => ∃ out', out = .inl out') fun _ => True) := fun job' =>
    Triple.seq (keeps (A := fun _ => True) (fun _ _ _ _ _ => trivial)
      (Uses.inl (Uses.of_forall (fun _ _ => trivial) _))) fun out => Triple.pure fun _ _ _ => ⟨out, rfl⟩
  cases job with
  | inl job' =>
      exact Triple.conseq (hinner job') (fun _ _ _ => trivial) fun _ _ _ _ _ _ _ he => nomatch he
  | inr req =>
      have h : (protocol settings).Triple i (At i fun log k => .started i (.inr req) ∈ log ∧ Idle k)
          (run (guard settings i req) >>= (front settings).rest i)
          (upon (fun out => At i fun _ k => ∀ cookie origin turns, req = .ws cookie origin turns →
            out = .inr .refused → Refused k) fun _ => True) := by
        refine Triple.seq guard_triple fun x => ?_
        cases x with
        | inl job' =>
            refine Triple.conseq (hinner job') (fun _ _ _ => trivial) fun r _ _ hr => ?_
            cases r with
            | ok out =>
                obtain ⟨out', rfl⟩ := hr
                exact fun _ _ _ _ he => nomatch he
            | error e => trivial
        | inr a =>
            exact Triple.pure fun _ _ h cookie origin turns he ha =>
              h cookie origin turns he (congrArg Sum.inr (Sum.inr.inj ha))
      refine Triple.conseq h (fun _ _ h => h) fun r w _ hr cookie origin turns he hrefused => ?_
      subst hrefused
      exact hr cookie origin turns (Sum.inr.inj he) rfl

/-- Steps that are no calls, and leave the sockets alone but for a client that goes away. -/
theorem passive_of_other (hcall : ∀ i q r, ev ≠ .called i q r)
    (hs : ∀ i, ∃ connected, s.2.sockets i = { w.state.2.sockets i with connected }) (i : Nat) : Passive i w ev s := by
  obtain ⟨connected, hs⟩ := hs i
  refine .quiet connected ?_ (fun channel => ?_) hs
  · cases ev with
    | called i q r => exact absurd rfl (hcall i q r)
    | _ => rfl
  · cases ev with
    | called i q r => exact absurd rfl (hcall i q r)
    | _ => rfl

theorem env_sockets {e : (web settings).Env} {s s' : (web settings).State} (h : (web settings).env e s = some s')
    (i : Nat) : ∃ connected, s'.2.sockets i = { s.2.sockets i with connected } := by
  cases e with
  | inl e =>
      obtain ⟨s₁, -, rfl⟩ := Option.map_eq_some_iff.mp h
      exact ⟨_, rfl⟩
  | inr e =>
      obtain ⟨s₂, hs₂, rfl⟩ := Option.map_eq_some_iff.mp h
      cases e with
      | disconnect j =>
          cases hs₂
          by_cases hj : i = j
          · subst hj
            exact ⟨false, Function.update_self _ _ _⟩
          · exact ⟨_, Function.update_of_ne hj _ _⟩
      | _ =>
          cases hs₂
          exact ⟨_, rfl⟩

theorem Refused.passive (h : Passive i w ev s) (hk : Refused (w.state.2.sockets i)) : Refused (s.2.sockets i) := by
  obtain ⟨connected, buffer, hs, hbuffer⟩ := h.socket
  rw [hs]
  exact ⟨⟨hk.1.1, hk.1.2.1, (hbuffer hk.1.1).trans hk.1.2.2⟩, hk.2⟩

def outline (settings : Settings) : Outline (web settings) fun _ _ => True where
  toProtocol := protocol settings
  post i job r := At i fun _ => Post job r
  post_stable i job r w ev s _ _ hev hg h cookie origin turns hjob hr :=
    Refused.passive (hg i hev) (h cookie origin turns hjob hr)
  may_ok _ _ _ _ _ _ _ := trivial
  may_fail _ _ _ _ _ _ _ _ _ := ⟨trivial, trivial⟩
  start_ok c job s _ hw hfresh hs := by
    have hstate : s.2 = c.world.state.2 := by
      cases job with
      | inl job =>
          obtain ⟨s₁, -, rfl⟩ := Option.map_eq_some_iff.mp hs
          rfl
      | inr req =>
          cases hs
          rfl
    have hpassive : ∀ i, Passive i c.world (.started c.threads.length job) s :=
      passive_of_other (fun _ _ _ he => nomatch he) fun i => ⟨_, by rw [hstate]⟩
    have hinv : Inv (c.world.push (.started c.threads.length job) s) := hw.push fun i => .inl (hpassive i)
    refine ⟨⟨hinv, fun i _ => hpassive i, fun _ _ => trivial⟩, body_triple _ hinv ⟨List.mem_cons_self, ?_⟩⟩
    rw [World.push_state, hstate]
    exact hw.fresh _ hfresh
  crash_ok c i _ hw := by
    have hpassive : ∀ j, Passive j c.world (.crashed i) c.world.state :=
      passive_of_other (fun _ _ _ he => nomatch he) fun j => ⟨_, rfl⟩
    exact ⟨hw.push fun j => .inl (hpassive j), fun j _ => hpassive j, fun _ _ => trivial⟩
  env_ok c e s _ hw hs := by
    have hpassive : ∀ j, Passive j c.world (.env e) s :=
      passive_of_other (fun _ _ _ he => nomatch he) (env_sockets hs)
    exact ⟨hw.push fun j => .inl (hpassive j), fun j _ => hpassive j, fun _ _ _ _ => trivial⟩

theorem Inv.init {s : (web settings).State} (h : ∀ i, s.2.sockets i = .opening) : Inv ⟨s, []⟩ where
  sockets i := .inl (by rw [h i]; exact ⟨rfl, rfl, rfl⟩)
  fresh i _ := by
    rw [h i]
    exact ⟨⟨rfl, rfl, rfl⟩, rfl, rfl⟩

def Addressed : (web settings).Call → Prop
  | .inl q => q.Addressed
  | .inr _ => True

theorem body_addressed (i : Nat) (job : (web settings).Job) : ((web settings).body i job).Uses Addressed := by
  have hbody : ∀ job', (Sum.inl <$> (service.body i job').inl :
      Program (web settings).toSignature Exn (Out ⊕ Answer)).Uses Addressed := fun job' =>
    Uses.bind (Uses.inl (Job.body_addressed i job')) fun _ => trivial
  cases job with
  | inl job' => exact hbody job'
  | inr req =>
      refine Uses.bind (Uses.inr (Uses.of_forall (fun _ => trivial) _)) fun x => ?_
      cases x with
      | inl job' => exact hbody job'
      | inr a => trivial

theorem mem_since {event : Frame} (h : event ∈ since (tried? channel) i log) :
    ∃ j r, .called j (.inl (.publish channel event)) r ∈ log := by
  induction log with
  | nil => cases h
  | cons ev log ih =>
      unfold since at h
      split at h
      · cases h
      · rcases List.mem_append.mp h with h | h
        · obtain ⟨j, r, hr⟩ := ih h
          exact ⟨j, r, List.mem_cons_of_mem _ hr⟩
        · have hev := Option.mem_toList.mp h
          unfold tried? at hev
          split at hev
          · rename_i j channel' event' r _ _
            split at hev
            · rename_i hchannel
              obtain rfl := Option.some.inj hev
              subst hchannel
              exact ⟨j, r, List.mem_cons_self⟩
            · cases hev
          · cases hev

/-- What is published on the channel of a user names that user. -/
theorem userId_of_since {s : (web settings).State} {c : Conf (web settings)} (h : Reach (fun _ _ => True) s c)
    {userId : Int} {event : Frame} (hevent : event ∈ since (tried? (channelFor userId)) i c.world.log) :
    event.userId = userId := by
  obtain ⟨j, r, hr⟩ := mem_since hevent
  obtain ⟨t, -, haddressed⟩ := h.called body_addressed hr
  exact (channelFor_inj.mp haddressed).symm

end Sockets

/-- The client of a WebSocket receives frames only if its session names a user and its origin is allowed, and then
frames of that user, which were published after the subscription, in their order and each at most once. While the
subscription is in force, what was published has been received, is in the buffer, or is the one frame that the
thread has taken from there. A socket that is refused has been closed with 1008 and receives nothing. -/
theorem socket_receives {s : (web settings).State} (hsockets : ∀ i, s.2.sockets i = .opening)
    (hentries : s.2.sessions.entries = fun _ => none) {c : Conf (web settings)} (h : Reach (fun _ _ => True) s c)
    {i : Nat} {cookie origin : Option String} {turns : Nat} {t : Thread (web settings)} (ht : c.threads[i]? = some t)
    (hjob : t.job = .inr (.ws cookie origin turns)) {k : Socket} (hk : c.world.state.2.sockets i = k) :
    ((k.channel = none ∧ k.received = []) ∨
      ∃ userId, Admitted c.world.log i cookie userId ∧ originAllowed settings origin = true ∧
        k.accepted = true ∧ k.closed = none ∧ (∀ event ∈ k.received, event.userId = userId) ∧
        k.received.Sublist (since (tried? (channelFor userId)) i c.world.log) ∧
        (k.channel = none ∨ k.channel = some (channelFor userId) ∧ ∃ held : Option Frame,
          (since (published? (channelFor userId)) i c.world.log).Sublist (k.received ++ held.toList ++ k.unread) ∧
          (k.received ++ held.toList ++ k.unread).Sublist (since (tried? (channelFor userId)) i c.world.log))) ∧
    (t.returned? = some (.inr .refused) →
      k.channel = none ∧ k.received = [] ∧ k.accepted = false ∧ k.closed = some 1008) := by
  subst hk
  have hholds : (Sockets.outline settings).Holds c := Outline.holds_of_reach (Sockets.Inv.init hsockets) h
  have hauth : (Authentication.outline settings).Holds c :=
    Outline.holds_of_reach (Authentication.Inv.init hentries) h
  have hstarted : ∀ job, .started i job ∈ c.world.log → job = .inr (.ws cookie origin turns) := by
    intro job hs
    obtain ⟨t', ht', rfl⟩ := h.logged i job hs
    obtain rfl := Option.some.inj (ht.symm.trans ht')
    exact hjob
  refine ⟨?_, fun hreturned => ?_⟩
  · rcases hholds.inv.sockets i with hsilent | ⟨channel, hfed, hlive⟩
    · exact .inl ⟨hsilent.1, hsilent.2.1⟩
    · obtain ⟨r, hsubscribed⟩ := hfed.subscribed
      obtain ⟨job, hs, hallowed⟩ := hauth.inv.calls i _ r hsubscribed
      obtain rfl := hstarted job hs
      obtain ⟨userId, rfl, hadmitted⟩ := hallowed
      obtain ⟨cookie', origin', turns', hs', horigin⟩ := hfed.origin
      cases hstarted _ hs'
      refine .inr ⟨userId, hadmitted, horigin, hfed.accepted, hfed.closed, fun event hevent =>
        Sockets.userId_of_since h (hfed.received.subset hevent), hfed.received, ?_⟩
      rcases hlive with hover | ⟨held, hchannel, hdelivered⟩
      · exact .inl hover
      · exact .inr ⟨hchannel, held, hdelivered⟩
  · have hpost := hholds.outcome ht (Thread.outcome_of_returned hreturned)
    obtain ⟨hsilent, haccepted, hclosed⟩ := hpost cookie origin turns hjob rfl
    exact ⟨hsilent.1, hsilent.2.1, haccepted, hclosed⟩

end

section
open scoped Python.Utc Sessions.Sample

/-- The expert logs in, listens, and changes the config. -/
def Sample.listens : Conf (web .default) :=
  Sample.start.play (Sample.login ++ .start (.inr (.ws (some Sessions.Sample.raw) none 3)) :: Sample.runs 1 6 ++
    .start (.inr (.writeConfig (some Sessions.Sample.raw) (TapeService.Sample.update .asc []))) :: Sample.runs 2 8 ++
    Sample.runs 1 2)

set_option maxRecDepth 4000 in
theorem socket_receives_listens : ∃ userId, Admitted Sample.listens.world.log 1 (some Sessions.Sample.raw) userId ∧
    [Frame.scheduleQueued 1 "config_dirty"].Sublist
      (since (tried? (channelFor userId)) 1 Sample.listens.world.log) := by
  obtain ⟨t, ht, hjob⟩ : ∃ t, Sample.listens.threads[1]? = some t ∧
      t.job = .inr (.ws (some Sessions.Sample.raw) none 3) := Option.map_eq_some_iff.mp rfl
  have hk : Sample.listens.world.state.2.sockets 1 = { Socket.opening with
      accepted := true
      channel := some "tape:events:1"
      received := [.scheduleQueued 1 "config_dirty"] } := rfl
  rcases (socket_receives (fun _ => rfl) rfl (Steps.play (Conf.Obeys.of_labels fun _ _ _ => trivial)) ht hjob hk).1 with
    ⟨hnone, -⟩ | ⟨userId, hadmitted, -, -, -, -, hreceived, -⟩
  · cases hnone
  · exact ⟨userId, hadmitted, hreceived⟩

end

end TapeService.Web
