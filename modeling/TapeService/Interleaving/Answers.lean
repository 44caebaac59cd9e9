import TapeService.Interleaving.Rely

/-!
# What the answers decide

What a program ends with as long as its calls are answered in a certain way, whatever the state is and whatever
the others do. When the system answers so in every state that its programs leave, that is what the threads of
every run without failing calls end with (`Reach.settled`).
-/

namespace Interleaving

namespace Program

variable {S : Signature} {ε α β : Type} {C : (c : S.Call) → Except ε (S.Reply c) → Prop}

/-- However its calls are answered within `C`, the program ends with `Q`. -/
def Settles (C : (c : S.Call) → Except ε (S.Reply c) → Prop) (Q : Except ε α → Prop) : Program S ε α → Prop
  | .ret a => Q (.ok a)
  | .raise e => Q (.error e)
  | .call c k => ∀ r, C c r → (k r).Settles C Q

/-- A result that satisfies `Q`, and no exception. -/
def Returned (Q : α → Prop) : Except ε α → Prop
  | .ok a => Q a
  | .error _ => False

theorem Settles.mono {Q R : Except ε α → Prop} {p : Program S ε α} (hp : p.Settles C Q) (h : ∀ r, Q r → R r) :
    p.Settles C R := by
  induction p with
  | ret a => exact h _ hp
  | raise e => exact h _ hp
  | call c k ih => exact fun r hr => ih r (hp r hr)

theorem Settles.andThen {Q : Except ε α → Prop} {R : Except ε β → Prop} {p : Program S ε α}
    {f : Except ε α → Program S ε β} (hp : p.Settles C Q) (hf : ∀ r, Q r → (f r).Settles C R) :
    (p.andThen f).Settles C R := by
  induction p with
  | ret a => exact hf _ hp
  | raise e => exact hf _ hp
  | call c k ih => exact fun r hr => ih r (hp r hr)

theorem Settles.ofExcept {Q : Except ε α → Prop} {r : Except ε α} (h : Q r) :
    (ofExcept r : Program S ε α).Settles C Q := by
  cases r <;> exact h

theorem Settles.perform {c : S.Call} : (perform c : Program S ε _).Settles C (C c) :=
  fun _ hr => Settles.ofExcept hr

theorem Settles.bind {Q : α → Prop} {R : Except ε β → Prop} {p : Program S ε α} {f : α → Program S ε β}
    (hp : p.Settles C (Returned Q)) (hf : ∀ a, Q a → (f a).Settles C R) : (p >>= f).Settles C R := by
  refine hp.andThen fun r hr => ?_
  cases r with
  | ok a => exact hf a hr
  | error e => exact hr.elim

theorem Settles.map {Q : Except ε α → Prop} {R : Except ε β → Prop} {p : Program S ε α} {f : α → β}
    (hp : p.Settles C Q) (h : ∀ r, Q r → R (r.map f)) : (f <$> p).Settles C R := by
  refine hp.andThen fun r hr => ?_
  cases r with
  | ok a => exact h _ hr
  | error e => exact h _ hr

theorem Settles.tryCatch {Q : α → Prop} {p : Program S ε α} (hp : p.Settles C (Returned Q))
    (h : ε → Program S ε α) : (p.tryCatch h).Settles C (Returned Q) := by
  refine hp.andThen fun r hr => ?_
  cases r with
  | ok a => exact hr
  | error e => exact hr.elim

theorem Settles.tryFinally {Q : Except ε α → Prop} {p : Program S ε α} {f : Program S ε Unit}
    (hp : p.Settles C Q) (hf : f.Settles C (Returned fun _ => True)) : (p.tryFinally f).Settles C Q :=
  hp.andThen fun _ hr => Settles.bind hf fun _ _ => Settles.ofExcept hr

theorem Settles.forM {f : α → Program S ε PUnit} (xs : List α)
    (hf : ∀ x, (f x).Settles C (Returned fun _ => True)) : (xs.forM f).Settles C (Returned fun _ => True) := by
  induction xs with
  | nil => trivial
  | cons x xs ih => exact Settles.bind (hf x) fun _ _ => ih

/-- A program that handles nothing returns when its calls do. -/
theorem Settles.of_plain {p : Program S ε α} (hp : p.Plain)
    (hC : p.Uses fun c => ∀ r, C c r → ∃ a, r = .ok a) : p.Settles C (Returned fun _ => True) := by
  induction p with
  | ret a => trivial
  | raise e => exact hp.elim
  | call c k ih =>
      intro r hr
      obtain ⟨a, rfl⟩ := hC.1 r hr
      exact ih _ (hp.2 a) (hC.2 _)

end Program

open Program

variable {S : System}

namespace Settled

variable {I : S.State → Prop} {C : (c : S.Call) → Except S.Exn (S.Reply c) → Prop}
  {D : Nat → S.Job → S.Call → Prop} {Q : Nat → S.Job → Except S.Exn S.Out → Prop}
  {ok : Conf S → Label S → Prop}

def protocol (I : S.State → Prop) : Protocol S where
  inv w := I w.state
  guar _ _ _ := True
  rely _ _ _ _ := True
  may _ _ _ := True
  faults := False

theorem triple {E : S.Call → Prop} (hC : ∀ c s, I s → C c (S.exec c s).1)
    (hE : ∀ c s, E c → I s → I (S.exec c s).2) {i : Nat} {R : Except S.Exn S.Out → Prop}
    {p : Program S.toSignature S.Exn S.Out} (hp : p.Settles C R) (huses : p.Uses E) :
    (protocol I).Triple i (fun _ => True) p fun r _ => R r := by
  intro w hw _
  induction p generalizing w with
  | ret a => exact hp
  | raise e => exact hp
  | call c k ih =>
      refine ⟨fun _ => True, trivial, fun _ _ _ _ _ _ _ _ h => h, fun w hw _ _ r s hr => ?_⟩
      obtain ⟨rfl, rfl⟩ := hr.of_faultless id
      have hs : I (S.exec c w.state).2 := hE c w.state huses.1 hw
      exact ⟨⟨hs, trivial, fun _ _ => trivial⟩, ih _ (hp _ (hC c w.state hw)) (huses.2 _) _ hs⟩

def outline (hok : ∀ c l, ok c l → l.Answered) (hC : ∀ c s, I s → C c (S.exec c s).1)
    (hD : ∀ i job, (S.body i job).Uses (D i job)) (hcall : ∀ i job c s, D i job c → I s → I (S.exec c s).2)
    (hstart : ∀ job s s', S.start job s = some s' → I s → I s')
    (henv : ∀ e s s', S.env e s = some s' → I s → I s')
    (hQ : ∀ i job, (S.body i job).Settles C (Q i job)) : Outline S ok where
  toProtocol := protocol I
  post i job r _ := Q i job r
  post_stable _ _ _ _ _ _ _ _ _ _ h := h
  may_ok _ _ _ _ _ _ _ := trivial
  may_fail c _ _ _ _ _ h _ _ := (hok c _ h).elim
  start_ok c job s _ hw _ hs := by
    have hinv : I s := hstart job _ s hs hw
    exact ⟨⟨hinv, trivial, fun _ _ => trivial⟩,
      triple hC (hcall _ job) (hQ _ job) (hD _ job) (c.world.push _ s) hinv trivial⟩
  crash_ok _ _ _ hw := ⟨hw, trivial, fun _ _ => trivial⟩
  env_ok c e s _ hw hs := ⟨henv e _ s hs hw, trivial, fun _ _ _ _ => trivial⟩

end Settled

/-- In a run without failing calls the threads end as the answers make them. -/
theorem Reach.settled {I : S.State → Prop} {C : (c : S.Call) → Except S.Exn (S.Reply c) → Prop}
    {D : Nat → S.Job → S.Call → Prop} {Q : Nat → S.Job → Except S.Exn S.Out → Prop} {ok : Conf S → Label S → Prop}
    (hok : ∀ c l, ok c l → l.Answered) (hC : ∀ c s, I s → C c (S.exec c s).1)
    (hD : ∀ i job, (S.body i job).Uses (D i job)) (hcall : ∀ i job c s, D i job c → I s → I (S.exec c s).2)
    (hstart : ∀ job s s', S.start job s = some s' → I s → I s')
    (henv : ∀ e s s', S.env e s = some s' → I s → I s')
    (hQ : ∀ i job, (S.body i job).Settles C (Q i job)) {s : S.State} (hs : I s) {c : Conf S} (h : Reach ok s c) :
    I c.world.state ∧ ∀ i t r, c.threads[i]? = some t → t.outcome? = some r → Q i t.job r := by
  have hholds := Outline.holds_of_reach (O := Settled.outline hok hC hD hcall hstart henv hQ) hs h
  exact ⟨hholds.inv, fun i t r ht hr => hholds.outcome ht hr⟩

end Interleaving
