import TapeService.Interleaving.System

/-!
# Rely and guarantee

A protocol says what every thread keeps true (`inv`), what every step of a run does (`guar`), and what
thread `i` may count on while others run (`rely i`). An assertion of thread `i` is stable when the steps
of the others keep it. `wp` is the weakest precondition of a program under such interference: before each
call the thread has a stable assertion, and its own call keeps the protocol.

An outline gives an assertion to the program of every job, and then the invariant holds in every reachable
configuration and every step of a run satisfies the guarantee.
-/

namespace Interleaving

variable {S : System}

structure Protocol (S : System) where
  inv : World S → Prop
  /-- What every step of a run satisfies. -/
  guar : World S → Event S → S.State → Prop
  /-- What thread `i` counts on for the steps of the others. -/
  rely : Nat → World S → Event S → S.State → Prop
  /-- The condition under which the runs in question let thread `i` perform a call. -/
  may : World S → Nat → S.Call → Prop
  /-- Whether calls can raise. -/
  faults : Prop

namespace Protocol

variable (P : Protocol S)

/-- A step of thread `i` that keeps the protocol. -/
structure Good (i : Nat) (w : World S) (ev : Event S) (s : S.State) : Prop where
  inv : P.inv (w.push ev s)
  guar : P.guar w ev s
  rely : ∀ j, j ≠ i → P.rely j w ev s

/-- The assertion `A` of thread `i` survives the steps of the others. -/
def Stable (i : Nat) (A : World S → Prop) : Prop :=
  ∀ w ev s, P.inv w → P.inv (w.push ev s) → ev.thread? ≠ some i → P.guar w ev s → P.rely i w ev s →
    A w → A (w.push ev s)

/-- The answers that call `c` can get in state `s`, with the state it leaves. -/
def Answers (c : S.Call) (s : S.State) (r : Except S.Exn (S.Reply c)) (s' : S.State) : Prop :=
  S.exec c s = (r, s') ∨ P.faults ∧ (s' = s ∨ s' = (S.exec c s).2) ∧ ∃ e, r = .error e

variable {P} in
/-- However a call is answered, it has taken effect or it has not. -/
theorem Answers.state {c : S.Call} {s s' : S.State} {r : Except S.Exn (S.Reply c)}
    (h : P.Answers c s r s') : s' = s ∨ s' = (S.exec c s).2 := by
  rcases h with h | ⟨_, h, _⟩
  · exact .inr (congrArg Prod.snd h).symm
  · exact h

variable {P} in
theorem Answers.of_faultless {c : S.Call} {s s' : S.State} {r : Except S.Exn (S.Reply c)}
    (h : P.Answers c s r s') (hP : ¬ P.faults) : r = (S.exec c s).1 ∧ s' = (S.exec c s).2 := by
  rcases h with h | ⟨hf, _⟩
  · exact ⟨(congrArg Prod.fst h).symm, (congrArg Prod.snd h).symm⟩
  · exact absurd hf hP

variable {P} in
theorem Answers.of_ok {c : S.Call} {s s' : S.State} {a : S.Reply c} (h : P.Answers c s (.ok a) s') :
    s' = (S.exec c s).2 ∧ (S.exec c s).1 = .ok a := by
  rcases h with h | ⟨_, _, e, he⟩
  · exact ⟨(congrArg Prod.snd h).symm, congrArg Prod.fst h⟩
  · cases he

variable {α β : Type}

def wp (i : Nat) : Program S.toSignature S.Exn α → (Except S.Exn α → World S → Prop) → World S → Prop
  | .ret a, Q, w => Q (.ok a) w
  | .raise e, Q, w => Q (.error e) w
  | .call c k, Q, w => ∃ A : World S → Prop, A w ∧ P.Stable i A ∧
      ∀ w, P.inv w → A w → P.may w i c → ∀ r s, P.Answers c w.state r s →
        P.Good i w (.called i c r) s ∧ wp i (k r) Q (w.push (.called i c r) s)

/-- Started where `A` holds, the program keeps the protocol and ends with `Q`. -/
def Triple (i : Nat) (A : World S → Prop) (p : Program S.toSignature S.Exn α)
    (Q : Except S.Exn α → World S → Prop) : Prop :=
  ∀ w, P.inv w → A w → P.wp i p Q w

/-- The program keeps the protocol and the assertion `A`. -/
def Keeps (i : Nat) (A : World S → Prop) (p : Program S.toSignature S.Exn α) : Prop :=
  P.Triple i A p fun _ => A

variable {P}

theorem wp_mono {i : Nat} {p : Program S.toSignature S.Exn α} {Q R : Except S.Exn α → World S → Prop}
    (h : ∀ r w, P.inv w → Q r w → R r w) {w : World S} (hw : P.inv w) (hp : P.wp i p Q w) :
    P.wp i p R w := by
  induction p generalizing w with
  | ret a => exact h _ w hw hp
  | raise e => exact h _ w hw hp
  | call c k ih =>
      obtain ⟨A, hA, hst, hc⟩ := hp
      refine ⟨A, hA, hst, fun w hw hA hm r s hr => ?_⟩
      obtain ⟨hg, hk⟩ := hc w hw hA hm r s hr
      exact ⟨hg, ih r hg.inv hk⟩

theorem wp_andThen {i : Nat} {p : Program S.toSignature S.Exn α}
    {f : Except S.Exn α → Program S.toSignature S.Exn β} {Q : Except S.Exn β → World S → Prop}
    {w : World S} (hp : P.wp i p (fun r => P.wp i (f r) Q) w) : P.wp i (p.andThen f) Q w := by
  induction p generalizing w with
  | ret a => exact hp
  | raise e => exact hp
  | call c k ih =>
      obtain ⟨A, hA, hst, hc⟩ := hp
      refine ⟨A, hA, hst, fun w hw hA hm r s hr => ?_⟩
      obtain ⟨hg, hk⟩ := hc w hw hA hm r s hr
      exact ⟨hg, ih r hk⟩

/-- A program that still has a call to make does not mind a step of another thread. -/
theorem wp_stable {i : Nat} {c : S.Call} {k : Except S.Exn (S.Reply c) → Program S.toSignature S.Exn α}
    {Q : Except S.Exn α → World S → Prop} {w : World S} {ev : Event S} {s : S.State}
    (hp : P.wp i (.call c k) Q w) (hw : P.inv w) (hw' : P.inv (w.push ev s))
    (hev : ev.thread? ≠ some i) (hg : P.guar w ev s) (hr : P.rely i w ev s) :
    P.wp i (.call c k) Q (w.push ev s) := by
  obtain ⟨A, hA, hst, hc⟩ := hp
  exact ⟨A, hst w ev s hw hw' hev hg hr hA, hst, hc⟩

/-! ## Rules -/

theorem Stable.true (i : Nat) : P.Stable i fun _ => True :=
  fun _ _ _ _ _ _ _ _ _ => trivial

/-- What a thread has done itself is nothing that the others can change. -/
theorem Stable.own {i : Nat} (F : List (Event S) → Prop) : P.Stable i fun w => F (w.own i) := by
  intro w ev s _ _ hev _ _ h
  rwa [World.own_push_of_ne hev]

theorem Triple.ret {i : Nat} {A : World S → Prop} {a : α} {Q : Except S.Exn α → World S → Prop}
    (h : ∀ w, P.inv w → A w → Q (.ok a) w) : P.Triple i A (.ret a) Q :=
  h

theorem Triple.raise {i : Nat} {A : World S → Prop} {e : S.Exn} {Q : Except S.Exn α → World S → Prop}
    (h : ∀ w, P.inv w → A w → Q (.error e) w) : P.Triple i A (.raise e) Q :=
  h

theorem Triple.conseq {i : Nat} {A B : World S → Prop} {p : Program S.toSignature S.Exn α}
    {Q R : Except S.Exn α → World S → Prop} (h : P.Triple i B p Q) (hA : ∀ w, P.inv w → A w → B w)
    (hQ : ∀ r w, P.inv w → Q r w → R r w) : P.Triple i A p R :=
  fun w hw hAw => wp_mono hQ hw (h w hw (hA w hw hAw))

/-- The rule for one call: the assertion before it is stable, and every answer keeps the protocol. -/
theorem Triple.perform {i : Nat} {A : World S → Prop} {c : S.Call}
    {Q : Except S.Exn (S.Reply c) → World S → Prop} (hA : P.Stable i A)
    (h : ∀ w, P.inv w → A w → P.may w i c → ∀ r s, P.Answers c w.state r s →
      P.Good i w (.called i c r) s ∧ Q r (w.push (.called i c r) s)) :
    P.Triple i A (Program.perform c) Q := by
  intro w _ hAw
  refine ⟨A, hAw, hA, fun w hw hAw hm r s hr => ?_⟩
  obtain ⟨hg, hq⟩ := h w hw hAw hm r s hr
  refine ⟨hg, ?_⟩
  cases r with
  | ok a => exact hq
  | error e => exact hq

theorem Triple.andThen {i : Nat} {A : World S → Prop} {p : Program S.toSignature S.Exn α}
    {f : Except S.Exn α → Program S.toSignature S.Exn β} {Q : Except S.Exn α → World S → Prop}
    {R : Except S.Exn β → World S → Prop} (hp : P.Triple i A p Q)
    (hf : ∀ r, P.Triple i (Q r) (f r) R) : P.Triple i A (p.andThen f) R :=
  fun w hw hA => wp_andThen (wp_mono (fun r w hw hq => hf r w hw hq) hw (hp w hw hA))

theorem Triple.bind {i : Nat} {A : World S → Prop} {p : Program S.toSignature S.Exn α}
    {f : α → Program S.toSignature S.Exn β} {Q : Except S.Exn α → World S → Prop}
    {R : Except S.Exn β → World S → Prop} (hp : P.Triple i A p Q)
    (hf : ∀ a, P.Triple i (Q (.ok a)) (f a) R) (he : ∀ e w, P.inv w → Q (.error e) w → R (.error e) w) :
    P.Triple i A (p >>= f) R := by
  refine hp.andThen fun r => ?_
  cases r with
  | ok a => exact hf a
  | error e => exact Triple.raise (he e)

theorem Triple.map {i : Nat} {A : World S → Prop} {p : Program S.toSignature S.Exn α} {f : α → β}
    {Q : Except S.Exn α → World S → Prop} {R : Except S.Exn β → World S → Prop} (hp : P.Triple i A p Q)
    (hf : ∀ r w, P.inv w → Q r w → R (r.map f) w) : P.Triple i A (f <$> p) R :=
  Triple.bind hp (fun a => Triple.ret fun w hw h => hf (.ok a) w hw h) fun e w hw h => hf (.error e) w hw h

/-- `Q` of the result, or `E` when there is none. -/
def upon (Q : α → World S → Prop) (E : World S → Prop) : Except S.Exn α → World S → Prop
  | .ok a => Q a
  | .error _ => E

theorem Triple.seq {i : Nat} {A E : World S → Prop} {p : Program S.toSignature S.Exn α}
    {f : α → Program S.toSignature S.Exn β} {Q : α → World S → Prop} {R : β → World S → Prop}
    (hp : P.Triple i A p (upon Q E)) (hf : ∀ a, P.Triple i (Q a) (f a) (upon R E)) :
    P.Triple i A (p >>= f) (upon R E) :=
  Triple.bind hp hf fun _ _ _ h => h

theorem Triple.pure {i : Nat} {A E : World S → Prop} {a : α} {Q : α → World S → Prop}
    (h : ∀ w, P.inv w → A w → Q a w) : P.Triple i A (pure a) (upon Q E) :=
  h

/-- The rule for a loop over a list. -/
theorem Triple.forM {i : Nat} {A E : World S → Prop} {f : α → Program S.toSignature S.Exn PUnit} (xs : List α)
    (h : ∀ x, P.Triple i A (f x) (upon (fun _ => A) E)) : P.Triple i A (xs.forM f) (upon (fun _ => A) E) := by
  induction xs with
  | nil => exact Triple.pure fun _ _ hA => hA
  | cons x xs ih => exact Triple.seq (h x) fun _ => ih

theorem Keeps.upon {i : Nat} {A E : World S → Prop} {p : Program S.toSignature S.Exn α}
    (h : P.Keeps i A p) (hE : ∀ w, P.inv w → A w → E w) :
    P.Triple i A p (Protocol.upon (fun _ => A) E) :=
  Triple.conseq h (fun _ _ hA => hA) fun r w hw hA => by
    cases r with
    | ok a => exact hA
    | error e => exact hE w hw hA

theorem Triple.tryCatch {i : Nat} {A : World S → Prop} {p : Program S.toSignature S.Exn α}
    {h : S.Exn → Program S.toSignature S.Exn α} {Q R : Except S.Exn α → World S → Prop}
    (hp : P.Triple i A p Q) (hok : ∀ a w, P.inv w → Q (.ok a) w → R (.ok a) w)
    (hh : ∀ e, P.Triple i (Q (.error e)) (h e) R) : P.Triple i A (p.tryCatch h) R := by
  refine hp.andThen fun r => ?_
  cases r with
  | ok a => exact Triple.ret (hok a)
  | error e => exact hh e

/-- The rule for `finally`: what the cleaning up raises replaces the outcome. -/
theorem Triple.tryFinally {i : Nat} {A : World S → Prop} {p : Program S.toSignature S.Exn α}
    {f : Program S.toSignature S.Exn Unit} {Q R : Except S.Exn α → World S → Prop} (hp : P.Triple i A p Q)
    (hf : ∀ r, P.Triple i (Q r) f fun
      | .ok _ => R r
      | .error e => R (.error e)) : P.Triple i A (p.tryFinally f) R := by
  refine hp.andThen fun r => Triple.bind (hf r) (fun _ => ?_) fun _ _ _ h => h
  cases r with
  | ok a => exact Triple.ret fun _ _ h => h
  | error e => exact Triple.raise fun _ _ h => h

/-- The calls of thread `i` that keep the protocol and the assertion `A`, however they are answered. -/
def Quiet (P : Protocol S) (i : Nat) (A : World S → Prop) (c : S.Call) : Prop :=
  ∀ w, P.inv w → A w → P.may w i c → ∀ r s, P.Answers c w.state r s →
    P.Good i w (.called i c r) s ∧ A (w.push (.called i c r) s)

theorem Keeps.perform {i : Nat} {A : World S → Prop} {c : S.Call} (hA : P.Stable i A)
    (hc : P.Quiet i A c) : P.Keeps i A (Program.perform c) :=
  Triple.perform hA hc

/-- A program that makes quiet calls only keeps the assertion, whatever its control flow. -/
theorem Keeps.of_uses {i : Nat} {A : World S → Prop} {p : Program S.toSignature S.Exn α}
    (hA : P.Stable i A) (hp : p.Uses (P.Quiet i A)) : P.Keeps i A p := by
  intro w hw hAw
  induction p generalizing w with
  | ret a => exact hAw
  | raise e => exact hAw
  | call c k ih =>
      refine ⟨A, hAw, hA, fun w hw hAw hm r s hr => ?_⟩
      obtain ⟨hg, hA'⟩ := hp.1 w hw hAw hm r s hr
      exact ⟨hg, ih r (hp.2 r) _ hg.inv hA'⟩

/-- Every step of a run keeps the assertion. -/
def Persistent (A : World S → Prop) : Prop :=
  ∀ w ev s, P.guar w ev s → A w → A (w.push ev s)

theorem Persistent.stable {i : Nat} {A : World S → Prop} (h : P.Persistent A) : P.Stable i A :=
  fun w ev s _ _ _ hg _ hA => h w ev s hg hA

/-- The calls of thread `i` that keep the protocol where `A` holds. -/
def Safe (i : Nat) (A : World S → Prop) (c : S.Call) : Prop :=
  ∀ w, P.inv w → A w → P.may w i c → ∀ r s, P.Answers c w.state r s → P.Good i w (.called i c r) s

theorem Keeps.of_persistent {i : Nat} {A : World S → Prop} {p : Program S.toSignature S.Exn α}
    (hA : P.Persistent A) (hp : p.Uses (P.Safe i A)) : P.Keeps i A p :=
  Keeps.of_uses hA.stable (hp.mono fun _ hc w hw hAw hm r s hr =>
    ⟨hc w hw hAw hm r s hr, hA _ _ _ (hc w hw hAw hm r s hr).guar hAw⟩)

/-- The protocol that asks for nothing; what it says of a thread is said of the thread's own calls. -/
def free : Protocol S where
  inv _ := True
  guar _ _ _ := True
  rely _ _ _ _ := True
  may _ _ _ := True
  faults := True

/-- The assertion survives every step, as one about what has happened does. -/
def Lasting (A : World S → Prop) : Prop := ∀ w ev s, A w → A (w.push ev s)

theorem Lasting.and {A B : World S → Prop} (hA : Lasting A) (hB : Lasting B) : Lasting fun w => A w ∧ B w :=
  fun w ev s h => ⟨hA w ev s h.1, hB w ev s h.2⟩

/-- The rule for a call whose answer is to be remembered. -/
theorem Lasting.triple {i : Nat} {A : World S → Prop} (hA : Lasting A) {c : S.Call} :
    free.Triple i A (Program.perform c)
      (upon (fun a w => A w ∧ .called i c (.ok a) ∈ w.log) fun _ => True) := by
  refine Triple.perform (fun w ev s _ _ _ _ _ h => hA w ev s h) fun w _ h _ r s _ =>
    ⟨⟨trivial, trivial, fun _ _ => trivial⟩, ?_⟩
  cases r with
  | ok a => exact ⟨hA _ _ _ h, List.mem_cons_self⟩
  | error e => trivial

theorem Lasting.always {i : Nat} {A : World S → Prop} (hA : Lasting A) (p : Program S.toSignature S.Exn α) :
    free.Keeps i A p :=
  Keeps.of_uses (fun w ev s _ _ _ _ _ h => hA w ev s h) (Program.Uses.of_forall (fun _ _ _ h _ _ s _ =>
    ⟨⟨trivial, trivial, fun _ _ => trivial⟩, hA _ _ s h⟩) p)

theorem Lasting.keeps {i : Nat} {A : World S → Prop} (hA : Lasting A) (p : Program S.toSignature S.Exn α) :
    free.Triple i A p (upon (fun _ => A) fun _ => True) :=
  (hA.always p).upon fun _ _ _ => trivial

end Protocol

/-! ## Outlines -/

/-- A protocol together with an assertion for the program of every job that the runs of `ok` start. -/
structure Outline (S : System) (ok : Conf S → Label S → Prop) extends Protocol S where
  /-- What holds once the thread `i` with the given job has ended with an outcome. -/
  post : Nat → S.Job → Except S.Exn S.Out → World S → Prop
  post_stable : ∀ i job r w ev s, inv w → inv (w.push ev s) → ev.thread? ≠ some i → guar w ev s →
    post i job r w → post i job r (w.push ev s)
  may_ok : ∀ c i t q, ok c (.run i) → c.threads[i]? = some t → t.next? = some q → may c.world i q
  may_fail : ∀ c i e done t q, ok c (.fail i e done) → c.threads[i]? = some t → t.next? = some q →
    faults ∧ may c.world i q
  start_ok : ∀ c job s, ok c (.start job) → inv c.world → c.world.Fresh c.threads.length →
    S.start job c.world.state = some s →
    toProtocol.Good c.threads.length c.world (.started c.threads.length job) s ∧
      toProtocol.wp c.threads.length (S.body c.threads.length job) (post c.threads.length job)
        (c.world.push (.started c.threads.length job) s)
  crash_ok : ∀ c i, ok c (.crash i) → inv c.world →
    toProtocol.Good i c.world (.crashed i) c.world.state
  env_ok : ∀ c e s, ok c (.env e) → inv c.world → S.env e c.world.state = some s →
    inv (c.world.push (.env e) s) ∧ guar c.world (.env e) s ∧
      ∀ i t, c.threads[i]? = some t → ¬ t.Ended → rely i c.world (.env e) s

namespace Outline

variable {ok : Conf S → Label S → Prop} (O : Outline S ok)

/-- Every thread is somewhere in its proof outline. -/
structure Holds (c : Conf S) : Prop where
  inv : O.inv c.world
  log_lt : ∀ ev ∈ c.world.log, ∀ i, ev.thread? = some i → i < c.threads.length
  code : ∀ i t p, c.threads[i]? = some t → t.code = some p →
    O.wp i p (O.post i t.job) c.world

variable {O}

/-- A step that one thread takes leaves the other threads where they are in their outlines. -/
theorem Holds.others {c : Conf S} (h : O.Holds c) {i : Nat} {ev : Event S} {s : S.State}
    (hev : ev.thread? = some i) (hg : O.Good i c.world ev s) {j : Nat} (hj : j ≠ i) {t : Thread S}
    {p : Program S.toSignature S.Exn S.Out} (ht : c.threads[j]? = some t) (hp : t.code = some p) :
    O.wp j p (O.post j t.job) (c.world.push ev s) := by
  have hne : ev.thread? ≠ some j := by
    rw [hev]
    intro he
    exact hj (Option.some.inj he).symm
  have hwp := h.code j t p ht hp
  cases p with
  | ret a => exact O.post_stable j t.job _ _ _ _ h.inv hg.inv hne hg.guar hwp
  | raise e => exact O.post_stable j t.job _ _ _ _ h.inv hg.inv hne hg.guar hwp
  | call q k => exact Protocol.wp_stable hwp h.inv hg.inv hne hg.guar (hg.rely j hj)

theorem Holds.log_lt_push {c : Conf S} (h : O.Holds c) {ev : Event S} {s : S.State} {n : Nat}
    (hn : c.threads.length ≤ n) (hev : ∀ i, ev.thread? = some i → i < n) :
    ∀ ev' ∈ (c.world.push ev s).log, ∀ i, ev'.thread? = some i → i < n := by
  intro ev' hmem i hi
  rcases List.mem_cons.mp hmem with rfl | hmem
  · exact hev i hi
  · exact Nat.lt_of_lt_of_le (h.log_lt ev' hmem i hi) hn

/-- The step of a running thread: it moves on in its outline, and the others stay in theirs. -/
theorem Holds.thread_step {c : Conf S} (h : O.Holds c) {i : Nat} {t : Thread S} {ev : Event S}
    {s : S.State} {code : Option (Program S.toSignature S.Exn S.Out)} (hi : c.threads[i]? = some t)
    (hev : ev.thread? = some i) (hg : O.Good i c.world ev s)
    (hcode : ∀ p, code = some p → O.wp i p (O.post i t.job) (c.world.push ev s)) :
    O.Holds { world := c.world.push ev s, threads := c.threads.set i ⟨t.job, code⟩ } := by
  have hlt : i < c.threads.length := (List.getElem?_eq_some_iff.mp hi).1
  refine ⟨hg.inv, ?_, ?_⟩
  · simp only [List.length_set]
    refine h.log_lt_push (Nat.le_refl _) fun j hj => ?_
    rw [hev] at hj
    cases hj
    exact hlt
  · intro j t' p ht hp
    by_cases hj : j = i
    · subst hj
      simp only [List.getElem?_set_self hlt, Option.some.injEq] at ht
      subst ht
      exact hcode p hp
    · simp only [List.getElem?_set_ne (Ne.symm hj)] at ht
      exact h.others hev hg hj ht hp

theorem Holds.start_step {c : Conf S} (h : O.Holds c) {job : S.Job} {s : S.State}
    (hok : ok c (.start job)) (hs : S.start job c.world.state = some s) :
    O.Holds
        { world := c.world.push (.started c.threads.length job) s
          threads := c.threads ++ [⟨job, some (S.body c.threads.length job)⟩] } ∧
      O.guar c.world (.started c.threads.length job) s := by
  have hfresh : c.world.Fresh c.threads.length := by
    intro ev hev he
    exact Nat.lt_irrefl _ (h.log_lt ev hev _ he)
  obtain ⟨hg, hwp⟩ := O.start_ok c job s hok h.inv hfresh hs
  refine ⟨⟨hg.inv, ?_, ?_⟩, hg.guar⟩
  · refine h.log_lt_push (by simp) fun j hj => ?_
    cases hj
    simp
  · intro j t p ht hp
    by_cases hj : j < c.threads.length
    · rw [List.getElem?_append_left hj] at ht
      exact h.others rfl hg (by omega) ht hp
    · rw [List.getElem?_append_right (by omega)] at ht
      obtain ⟨hlt, he⟩ := List.getElem?_eq_some_iff.mp ht
      simp only [List.length_singleton] at hlt
      obtain rfl : j = c.threads.length := by omega
      simp only [Nat.sub_self, List.getElem_cons_zero] at he
      subst he
      cases hp
      exact hwp

theorem Holds.env_step {c : Conf S} (h : O.Holds c) {e : S.Env} {s : S.State}
    (hok : ok c (.env e)) (hs : S.env e c.world.state = some s) :
    O.Holds { world := c.world.push (.env e) s, threads := c.threads } ∧
      O.guar c.world (.env e) s := by
  obtain ⟨hinv, hguar, hrely⟩ := O.env_ok c e s hok h.inv hs
  refine ⟨⟨hinv, ?_, ?_⟩, hguar⟩
  · exact h.log_lt_push (Nat.le_refl _) fun j hj => nomatch hj
  · intro j t p ht hp
    have hne : (Event.env e : Event S).thread? ≠ some j := nofun
    have hwp := h.code j t p ht hp
    cases p with
    | ret a => exact O.post_stable j t.job _ _ _ _ h.inv hinv hne hguar hwp
    | raise x => exact O.post_stable j t.job _ _ _ _ h.inv hinv hne hguar hwp
    | call q k =>
        have hrun : ¬ t.Ended := by
          intro he
          simp [Thread.Ended, Thread.next?, hp] at he
        exact Protocol.wp_stable hwp h.inv hinv hne hguar (hrely j t ht hrun)

/-- One step keeps every thread in its outline and satisfies the guarantee. -/
theorem Holds.step {c c' : Conf S} {l : Label S} (h : O.Holds c) (hok : ok c l)
    (hstep : c.step l = some c') :
    O.Holds c' ∧ ∃ ev, c'.world = c.world.push ev c'.world.state ∧ O.guar c.world ev c'.world.state := by
  cases Conf.stepTo_of_step hstep with
  | start hs => exact ⟨(h.start_step hok hs).1, _, rfl, (h.start_step hok hs).2⟩
  | @run i job q k hi =>
      obtain ⟨A, hA, _, hc⟩ := h.code i _ _ hi rfl
      obtain ⟨hg, hk⟩ := hc _ h.inv hA (O.may_ok c i _ q hok hi rfl) _ _ (Or.inl rfl)
      refine ⟨h.thread_step hi rfl hg fun p hp => ?_, _, rfl, hg.guar⟩
      cases hp
      exact hk
  | @fail i e done job q k hi =>
      obtain ⟨A, hA, _, hc⟩ := h.code i _ _ hi rfl
      obtain ⟨hf, hm⟩ := O.may_fail c i e done _ q hok hi rfl
      have hs : (if done then (S.exec q c.world.state).2 else c.world.state) = c.world.state ∨
          (if done then (S.exec q c.world.state).2 else c.world.state) = (S.exec q c.world.state).2 := by
        cases done
        · exact .inl rfl
        · exact .inr rfl
      obtain ⟨hg, hk⟩ := hc _ h.inv hA hm _ _ (Or.inr ⟨hf, hs, e, rfl⟩)
      refine ⟨h.thread_step hi rfl hg fun p hp => ?_, _, rfl, hg.guar⟩
      cases hp
      exact hk
  | @crash i job q k hi =>
      have hg := O.crash_ok c i hok h.inv
      exact ⟨h.thread_step hi rfl hg fun p hp => (nomatch hp), _, rfl, hg.guar⟩
  | env hs => exact ⟨(h.env_step hok hs).1, _, rfl, (h.env_step hok hs).2⟩

theorem holds_init {s : S.State} (h : O.inv ⟨s, []⟩) : O.Holds (Conf.init s) :=
  ⟨h, fun _ hev => (nomatch hev), fun _ _ _ ht => by simp [Conf.init] at ht⟩

theorem Holds.steps {c c' : Conf S} (h : O.Holds c) (hs : Steps ok c c') : O.Holds c' := by
  induction hs with
  | refl => exact h
  | tail _ hstep ih =>
      obtain ⟨l, hok, hl⟩ := hstep
      exact (ih.step hok hl).1

/-- Every thread of every reachable configuration is in its outline. -/
theorem holds_of_reach {s : S.State} {c : Conf S} (h : O.inv ⟨s, []⟩) (hr : Reach ok s c) :
    O.Holds c :=
  (holds_init h).steps hr

/-- What the post-condition says of a thread that has ended. -/
theorem Holds.outcome {c : Conf S} (h : O.Holds c) {i : Nat} {t : Thread S}
    {r : Except S.Exn S.Out} (ht : c.threads[i]? = some t) (hr : t.outcome? = some r) :
    O.post i t.job r c.world := by
  obtain ⟨job, code⟩ := t
  cases code with
  | none => cases hr
  | some p =>
      cases p with
      | ret a => cases hr; exact h.code i _ _ ht rfl
      | raise e => cases hr; exact h.code i _ _ ht rfl
      | call q k => cases hr

end Outline

/-! ## The calls of a run -/

namespace Called

/-- Every call in the log is one that the job of its thread can make. -/
def protocol (C : Nat → S.Job → S.Call → Prop) : Protocol S where
  inv w := ∀ i q r, .called i q r ∈ w.log → ∃ job, .started i job ∈ w.log ∧ C i job q
  guar _ _ _ := True
  rely _ _ _ _ := True
  may _ _ _ := True
  faults := True

variable {C : Nat → S.Job → S.Call → Prop}

theorem inv_push {w : World S} {ev : Event S} {s : S.State} (hw : (protocol C).inv w)
    (hev : ∀ i q r, ev = .called i q r → ∃ job, .started i job ∈ w.log ∧ C i job q) :
    (protocol C).inv (w.push ev s) := by
  intro i q r hmem
  rcases List.mem_cons.mp hmem with rfl | hmem
  · obtain ⟨job, hs, hq⟩ := hev i q r rfl
    exact ⟨job, List.mem_cons_of_mem _ hs, hq⟩
  · obtain ⟨job, hs, hq⟩ := hw i q r hmem
    exact ⟨job, List.mem_cons_of_mem _ hs, hq⟩

def outline (ok : Conf S → Label S → Prop) (hC : ∀ i job, (S.body i job).Uses (C i job)) :
    Outline S ok where
  toProtocol := protocol C
  post _ _ _ _ := True
  post_stable _ _ _ _ _ _ _ _ _ _ _ := trivial
  may_ok _ _ _ _ _ _ _ := trivial
  may_fail _ _ _ _ _ _ _ _ _ := ⟨trivial, trivial⟩
  start_ok c job s _ hw _ _ := by
    have hinv : (protocol C).inv (c.world.push (.started c.threads.length job) s) :=
      inv_push hw fun _ _ _ he => nomatch he
    refine ⟨⟨hinv, trivial, fun _ _ => trivial⟩, ?_⟩
    have hstable : (protocol C).Stable c.threads.length fun w => .started c.threads.length job ∈ w.log :=
      fun _ _ _ _ _ _ _ _ h => List.mem_cons_of_mem _ h
    refine Protocol.Triple.conseq (Protocol.Keeps.of_uses hstable ((hC _ job).mono fun q hq => ?_))
      (fun _ _ h => h) (fun _ _ _ _ => trivial) _ hinv List.mem_cons_self
    intro w hw hs _ r s _
    refine ⟨⟨inv_push hw fun i q' r' he => ?_, trivial, fun _ _ => trivial⟩, List.mem_cons_of_mem _ hs⟩
    cases he
    exact ⟨job, hs, hq⟩
  crash_ok _ _ _ hw := ⟨inv_push hw fun _ _ _ he => (nomatch he), trivial, fun _ _ => trivial⟩
  env_ok _ _ _ _ hw _ := ⟨inv_push hw fun _ _ _ he => (nomatch he), trivial, fun _ _ _ _ => trivial⟩

end Called

/-- What holds of the calls of every program holds of the calls that the log shows. -/
theorem Reach.called {C : Nat → S.Job → S.Call → Prop} {ok : Conf S → Label S → Prop}
    (hC : ∀ i job, (S.body i job).Uses (C i job)) {s : S.State} {c : Conf S} (h : Reach ok s c)
    {i : Nat} {q : S.Call} {r : Except S.Exn (S.Reply q)} (hmem : .called i q r ∈ c.world.log) :
    ∃ t, c.threads[i]? = some t ∧ C i t.job q := by
  have hinit : (Called.outline ok hC).inv ⟨s, []⟩ := fun _ _ _ hmem => nomatch hmem
  obtain ⟨job, hs, hq⟩ := (Outline.holds_of_reach hinit h).inv i q r hmem
  obtain ⟨t, ht, rfl⟩ := h.logged i job hs
  exact ⟨t, ht, hq⟩

/-- What holds of the calls of every program holds of the call that a step performs. -/
theorem Reach.call {C : Nat → S.Job → S.Call → Prop} {ok : Conf S → Label S → Prop}
    (hC : ∀ i job, (S.body i job).Uses (C i job)) {s : S.State} {c c' : Conf S} {l : Label S}
    (h : Reach ok s c) (hok : ok c l) (hstep : c.step l = some c') {i : Nat} {q : S.Call}
    (hq : c.call? l = some (i, q)) : ∃ job, C i job q := by
  obtain ⟨r, hr⟩ := Conf.called_of_step hstep hq
  have hreach : Reach ok s c' := Relation.ReflTransGen.tail h ⟨l, hok, hstep⟩
  obtain ⟨t, -, ht⟩ := hreach.called hC hr
  exact ⟨t.job, ht⟩

end Interleaving
