import TapeService.Interleaving.Sequential

/-!
# Runs with their calls

The runs of one program over a state that others may change between its calls, with a record of every call
that it has made. A call that raises has had no effect. An assertion about the state and the record so far
is carried through a program as through one that runs alone, where the runs in question have at most one
call that raises.
-/

namespace Interleaving

/-- A call that was made: the state that it found, and whether it raised. -/
structure Attempt (S : Signature) (σ : Type) where
  call : S.Call
  before : σ
  failed : Bool

/-- At most one of the calls has raised. -/
def OneFault {S : Signature} {σ : Type} (log : List (Attempt S σ)) : Prop := log.countP (·.failed) ≤ 1

theorem OneFault.left {S : Signature} {σ : Type} {first later : List (Attempt S σ)} (h : OneFault (first ++ later)) :
    OneFault first := by
  rw [OneFault, List.countP_append] at h
  exact Nat.le_trans (Nat.le_add_right _ _) h

section
variable {S : Signature} {β σ : Type} {log first later : List (Attempt S σ)} {c : S.Call} {s : σ}

/-- The call that has raised, if any. -/
def fault? (log : List (Attempt S σ)) : Option S.Call := (log.find? (·.failed)).map (·.call)

/-- What `f` notes of the calls that were answered, in their order. -/
def noted (f : S.Call → Option β) (log : List (Attempt S σ)) : List β :=
  log.filterMap fun x => if x.failed then none else f x.call

theorem fault?_answered : fault? (log ++ [⟨c, s, false⟩]) = fault? log := by
  simp [fault?, List.find?_append]

theorem fault?_raised (h : fault? log = none) : fault? (log ++ [⟨c, s, true⟩]) = some c := by
  have hnone : log.find? (·.failed) = none := Option.map_eq_none_iff.mp h
  simp [fault?, List.find?_append, hnone]

theorem OneFault.fault? {x : Attempt S σ} (h : OneFault log) (hx : x ∈ log) (hf : x.failed = true) :
    Interleaving.fault? log = some x.call := by
  obtain ⟨first, later, rfl⟩ := List.append_of_mem hx
  have hfirst : first.find? (·.failed) = none := by
    rw [OneFault, List.countP_append, List.countP_cons_of_pos hf] at h
    have hzero : first.countP (·.failed) = 0 := by omega
    simpa using hzero
  simp [Interleaving.fault?, List.find?_append, hfirst, hf]

theorem exists_of_fault? (h : fault? log = some c) : ∃ x ∈ log, x.failed = true ∧ x.call = c := by
  obtain ⟨x, hx, rfl⟩ := Option.map_eq_some_iff.mp h
  exact ⟨x, List.mem_of_find?_eq_some hx, by simpa using List.find?_some hx, rfl⟩

theorem failed_of_fault? (h : fault? log = none) : ∀ x ∈ log, x.failed = false := by
  have hnone : log.find? (·.failed) = none := Option.map_eq_none_iff.mp h
  simpa using hnone

variable {f : S.Call → Option β}

theorem noted_append : noted f (first ++ later) = noted f first ++ noted f later := List.filterMap_append

@[simp] theorem noted_answered : noted f (log ++ [⟨c, s, false⟩]) = noted f log ++ (f c).toList := by
  rw [noted_append]
  cases h : f c <;> simp [noted, h]

@[simp] theorem noted_raised : noted f (log ++ [⟨c, s, true⟩]) = noted f log := by
  simp [noted]

end

namespace Program

variable {S : Signature} {ε α β σ : Type}

section
variable (exec : (c : S.Call) → σ → Except ε (S.Reply c) × σ) (env : σ → σ → Prop) (lost : ε)

/-- The program can end with `r` in `s'`, having made the calls of the log. Before each of them the others make
a change of `env`; then it is answered, or it raises `lost`. -/
def Runs : Program S ε α → σ → Except ε α → σ → List (Attempt S σ) → Prop
  | .ret a, s, r, s', log => r = .ok a ∧ s' = s ∧ log = []
  | .raise e, s, r, s', log => r = .error e ∧ s' = s ∧ log = []
  | .call c k, s, r, s', log => ∃ t later, env s t ∧
      (log = ⟨c, t, false⟩ :: later ∧ (k (exec c t).1).Runs (exec c t).2 r s' later ∨
        log = ⟨c, t, true⟩ :: later ∧ (k (.error lost)).Runs t r s' later)

/-- The run in which nobody else does anything and the calls raise as planned; those beyond the plan do not. -/
def play : Program S ε α → σ → List Bool → Except ε α × σ × List (Attempt S σ)
  | .ret a, s, _ => (.ok a, s, [])
  | .raise e, s, _ => (.error e, s, [])
  | .call c k, s, true :: plan =>
      let (r, s', log) := (k (.error lost)).play s plan
      (r, s', ⟨c, s, true⟩ :: log)
  | .call c k, s, plan =>
      let (r, s', log) := (k (exec c s).1).play (exec c s).2 plan.tail
      (r, s', ⟨c, s, false⟩ :: log)

/-- From a state and a record where `A` holds, and with at most one call that raises, the program ends
where `Q` holds. -/
def Leads (A : σ → List (Attempt S σ) → Prop) (p : Program S ε α)
    (Q : Except ε α → σ → List (Attempt S σ) → Prop) : Prop :=
  ∀ s log, A s log → ∀ r s' later, p.Runs exec Eq lost s r s' later → OneFault (log ++ later) → Q r s' (log ++ later)

end

variable {exec : (c : S.Call) → σ → Except ε (S.Reply c) × σ} {env : σ → σ → Prop} {lost : ε} {s s' : σ}
  {log : List (Attempt S σ)}

/-! ## The runs of composed programs -/

theorem runs_andThen {p : Program S ε α} {f : Except ε α → Program S ε β} {r : Except ε β} :
    (p.andThen f).Runs exec env lost s r s' log ↔
      ∃ q t first later, log = first ++ later ∧ p.Runs exec env lost s q t first ∧
        (f q).Runs exec env lost t r s' later := by
  induction p generalizing s log with
  | ret a =>
      constructor
      · exact fun h => ⟨_, _, [], log, rfl, ⟨rfl, rfl, rfl⟩, h⟩
      · rintro ⟨_, _, _, _, rfl, ⟨rfl, rfl, rfl⟩, h⟩
        exact h
  | raise e =>
      constructor
      · exact fun h => ⟨_, _, [], log, rfl, ⟨rfl, rfl, rfl⟩, h⟩
      · rintro ⟨_, _, _, _, rfl, ⟨rfl, rfl, rfl⟩, h⟩
        exact h
  | call c k ih =>
      simp only [andThen, Runs, ih]
      constructor
      · rintro ⟨t, rest, henv, ⟨rfl, q, u, first, later, rfl, hp, hf⟩ | ⟨rfl, q, u, first, later, rfl, hp, hf⟩⟩
        · exact ⟨q, u, _ :: first, later, rfl, ⟨t, first, henv, .inl ⟨rfl, hp⟩⟩, hf⟩
        · exact ⟨q, u, _ :: first, later, rfl, ⟨t, first, henv, .inr ⟨rfl, hp⟩⟩, hf⟩
      · rintro ⟨q, u, _, later, rfl, ⟨t, first, henv, ⟨rfl, hp⟩ | ⟨rfl, hp⟩⟩, hf⟩
        · exact ⟨t, first ++ later, henv, .inl ⟨rfl, q, u, first, later, rfl, hp, hf⟩⟩
        · exact ⟨t, first ++ later, henv, .inr ⟨rfl, q, u, first, later, rfl, hp, hf⟩⟩

theorem runs_ofExcept {q r : Except ε α} :
    (ofExcept q : Program S ε α).Runs exec env lost s r s' log ↔ r = q ∧ s' = s ∧ log = [] := by
  cases q <;> rfl

theorem runs_perform {c : S.Call} {r : Except ε (S.Reply c)} :
    (perform c : Program S ε _).Runs exec env lost s r s' log ↔
      ∃ t, env s t ∧ (r = (exec c t).1 ∧ s' = (exec c t).2 ∧ log = [⟨c, t, false⟩] ∨
        r = .error lost ∧ s' = t ∧ log = [⟨c, t, true⟩]) := by
  simp only [perform, Runs, runs_ofExcept]
  constructor
  · rintro ⟨t, _, henv, ⟨rfl, hr, hs, rfl⟩ | ⟨rfl, hr, hs, rfl⟩⟩
    · exact ⟨t, henv, .inl ⟨hr, hs, rfl⟩⟩
    · exact ⟨t, henv, .inr ⟨hr, hs, rfl⟩⟩
  · rintro ⟨t, henv, ⟨hr, hs, rfl⟩ | ⟨hr, hs, rfl⟩⟩
    · exact ⟨t, [], henv, .inl ⟨rfl, hr, hs, rfl⟩⟩
    · exact ⟨t, [], henv, .inr ⟨rfl, hr, hs, rfl⟩⟩

theorem runs_play (henv : ∀ s, env s s) (p : Program S ε α) (s : σ) (plan : List Bool) :
    p.Runs exec env lost s (p.play exec lost s plan).1 (p.play exec lost s plan).2.1
      (p.play exec lost s plan).2.2 := by
  induction p generalizing s plan with
  | ret a => exact ⟨rfl, rfl, rfl⟩
  | raise e => exact ⟨rfl, rfl, rfl⟩
  | call c k ih =>
      rcases plan with _ | ⟨_ | _, plan⟩
      · exact ⟨s, _, henv s, .inl ⟨rfl, ih _ _ _⟩⟩
      · exact ⟨s, _, henv s, .inl ⟨rfl, ih _ _ _⟩⟩
      · exact ⟨s, _, henv s, .inr ⟨rfl, ih _ _ _⟩⟩

/-- Where nobody else does anything and no call raises, the program is evaluated. -/
theorem Runs.eval {p : Program S ε α} {r : Except ε α} (h : p.Runs exec Eq lost s r s' log)
    (hall : ∀ x ∈ log, x.failed = false) : p.eval exec s = (r, s') := by
  induction p generalizing s log with
  | ret a =>
      obtain ⟨rfl, rfl, -⟩ := h
      rfl
  | raise e =>
      obtain ⟨rfl, rfl, -⟩ := h
      rfl
  | call c k ih =>
      obtain ⟨t, later, rfl, ⟨rfl, hk⟩ | ⟨rfl, -⟩⟩ := h
      · exact ih _ hk fun x hx => hall x (List.mem_cons_of_mem _ hx)
      · exact absurd (hall _ List.mem_cons_self) (by simp)

/-- A relation that the changes of the others and every call keep to is kept to by the run. -/
theorem Runs.rel {R : σ → σ → Prop} (hrefl : ∀ s, R s s) (htrans : ∀ s t u, R s t → R t u → R s u)
    (henv : ∀ s t, env s t → R s t) {C : S.Call → Prop} {p : Program S ε α} (hp : p.Uses C)
    (hC : ∀ c, C c → ∀ s, R s (exec c s).2) {r : Except ε α} (h : p.Runs exec env lost s r s' log) : R s s' := by
  induction p generalizing s log with
  | ret a => exact h.2.1 ▸ hrefl s
  | raise e => exact h.2.1 ▸ hrefl s
  | call c k ih =>
      obtain ⟨t, later, ht, ⟨-, hk⟩ | ⟨-, hk⟩⟩ := h
      · exact htrans _ _ _ (htrans _ _ _ (henv s t ht) (hC c hp.1 t)) (ih _ (hp.2 _) hk)
      · exact htrans _ _ _ (henv s t ht) (ih _ (hp.2 _) hk)

/-- The calls of a run are among those that the program can make. -/
theorem Runs.uses {C : S.Call → Prop} {p : Program S ε α} (hp : p.Uses C) {r : Except ε α}
    (h : p.Runs exec env lost s r s' log) : ∀ x ∈ log, C x.call := by
  induction p generalizing s log with
  | ret a => exact h.2.2 ▸ nofun
  | raise e => exact h.2.2 ▸ nofun
  | call c k ih =>
      obtain ⟨t, later, -, ⟨rfl, hk⟩ | ⟨rfl, hk⟩⟩ := h
      · exact List.forall_mem_cons.mpr ⟨hp.1, ih _ (hp.2 _) hk⟩
      · exact List.forall_mem_cons.mpr ⟨hp.1, ih _ (hp.2 _) hk⟩

/-! ## Assertions -/

variable {A B E : σ → List (Attempt S σ) → Prop} {Q R : Except ε α → σ → List (Attempt S σ) → Prop}

/-- `Q` of the result, or `E` when there is none. -/
def either (Q : α → σ → List (Attempt S σ) → Prop) (E : σ → List (Attempt S σ) → Prop) :
    Except ε α → σ → List (Attempt S σ) → Prop
  | .ok a => Q a
  | .error _ => E

theorem either_self : (either (fun _ => E) E : Except ε α → σ → List (Attempt S σ) → Prop) = fun _ => E := by
  funext r
  cases r <;> rfl

theorem Leads.ret {a : α} (h : ∀ s log, A s log → Q (.ok a) s log) : Leads exec lost A (.ret a) Q := by
  rintro s log hA _ _ _ ⟨rfl, rfl, rfl⟩ -
  rw [List.append_nil]
  exact h _ log hA

theorem Leads.raise {e : ε} (h : ∀ s log, A s log → Q (.error e) s log) : Leads exec lost A (.raise e) Q := by
  rintro s log hA _ _ _ ⟨rfl, rfl, rfl⟩ -
  rw [List.append_nil]
  exact h _ log hA

theorem Leads.ofExcept {r : Except ε α} (h : ∀ s log, A s log → Q r s log) :
    Leads exec lost A (Program.ofExcept r) Q := by
  cases r with
  | ok a => exact Leads.ret h
  | error e => exact Leads.raise h

theorem Leads.conseq {p : Program S ε α} (h : Leads exec lost B p Q) (hA : ∀ s log, A s log → B s log)
    (hQ : ∀ r s log, Q r s log → R r s log) : Leads exec lost A p R :=
  fun s log hs r s' later hp hone => hQ _ _ _ (h s log (hA s log hs) r s' later hp hone)

theorem Leads.andThen {p : Program S ε α} {f : Except ε α → Program S ε β}
    {R : Except ε β → σ → List (Attempt S σ) → Prop} (hp : Leads exec lost A p Q)
    (hf : ∀ r, Leads exec lost (Q r) (f r) R) : Leads exec lost A (p.andThen f) R := by
  intro s log hA r s' _ hrun hone
  obtain ⟨q, t, first, later, rfl, hfirst, hlater⟩ := runs_andThen.mp hrun
  rw [← List.append_assoc] at hone ⊢
  exact hf q t _ (hp s log hA q t first hfirst hone.left) r s' later hlater hone

/-- The rule for one call: it is answered, or it is the one that raises. -/
theorem Leads.perform {c : S.Call} {Q : Except ε (S.Reply c) → σ → List (Attempt S σ) → Prop}
    (hanswer : ∀ s log, A s log → Q (exec c s).1 (exec c s).2 (log ++ [⟨c, s, false⟩]))
    (hraise : ∀ s log, A s log → (∀ x ∈ log, x.failed = false) → Q (.error lost) s (log ++ [⟨c, s, true⟩])) :
    Leads exec lost A (perform c) Q := by
  intro s log hA r s' later hrun hone
  obtain ⟨t, rfl, ⟨rfl, rfl, rfl⟩ | ⟨rfl, rfl, rfl⟩⟩ := runs_perform.mp hrun
  · exact hanswer _ log hA
  · refine hraise _ log hA fun x hx => ?_
    rw [OneFault, List.countP_append] at hone
    have hzero : log.countP (·.failed) = 0 := by simpa using hone
    simpa using List.countP_eq_zero.mp hzero x hx

/-- `A` holds, and `f` is the call that has raised. -/
def Upto (f : Option S.Call) (A : σ → List (Attempt S σ) → Prop) (s : σ) (log : List (Attempt S σ)) : Prop :=
  fault? log = f ∧ A s log

/-- What does not depend on the state is a fact about the program that follows. -/
theorem Leads.of_fact {f : Option S.Call} {φ : Prop} {p : Program S ε α}
    (h : φ → Leads exec lost (Upto f A) p Q) : Leads exec lost (Upto f fun s log => φ ∧ A s log) p Q :=
  fun s log hs => h hs.2.1 s log ⟨hs.1, hs.2.2⟩

/-- The rule for a call that is answered, unless it is the one that raises; after that one all are answered. -/
theorem Leads.call {c : S.Call} {f : Option S.Call} {Q : S.Reply c → σ → List (Attempt S σ) → Prop}
    (hanswer : ∀ s log, A s log → ∃ a, (exec c s).1 = .ok a ∧ Q a (exec c s).2 (log ++ [⟨c, s, false⟩]))
    (hraise : f = none → ∀ s log, A s log → fault? log = none → E s (log ++ [⟨c, s, true⟩])) :
    Leads exec lost (Upto f A) (Program.perform c) (either (fun a => Upto f (Q a)) E) := by
  refine Leads.perform (fun s log h => ?_) fun s log h hall => ?_
  · obtain ⟨a, ha, hQ⟩ := hanswer s log h.2
    rw [ha]
    exact ⟨fault?_answered.trans h.1, hQ⟩
  · cases f with
    | none => exact hraise rfl s log h.2 h.1
    | some d =>
        obtain ⟨x, hx, hf, -⟩ := exists_of_fault? h.1
        rw [hall x hx] at hf
        cases hf

/-- A plain program keeps what its calls keep, up to the call that raises. -/
theorem Leads.plain {C : S.Call → Prop} {p : Program S ε α} (hp : p.Plain) (hu : p.Uses C)
    (hanswer : ∀ c, C c → ∀ s log, A s log →
      ∃ a, (exec c s).1 = .ok a ∧ A (exec c s).2 (log ++ [⟨c, s, false⟩]))
    (hraise : ∀ c, C c → ∀ s log, A s log → fault? log = none → E s (log ++ [⟨c, s, true⟩])) :
    Leads exec lost (Upto none A) p (either (fun _ => Upto none A) E) := by
  rintro s log ⟨hf, hA⟩ r s' later hrun -
  induction p generalizing s log later with
  | ret a =>
      obtain ⟨rfl, rfl, rfl⟩ := hrun
      rw [List.append_nil]
      exact ⟨hf, hA⟩
  | raise e => exact hp.elim
  | call c k ih =>
      obtain ⟨t, rest, rfl, ⟨rfl, hk⟩ | ⟨rfl, hk⟩⟩ := hrun
      · obtain ⟨a, ha, hA⟩ := hanswer c hu.1 _ _ hA
        rw [ha] at hk
        rw [List.append_cons]
        exact ih _ (hp.2 a) (hu.2 _) _ _ (fault?_answered.trans hf) hA _ hk
      · obtain ⟨e', he⟩ := hp.1 lost
        rw [he] at hk
        obtain ⟨rfl, rfl, rfl⟩ := hk
        exact hraise c hu.1 _ _ hA hf

theorem Leads.seq {p : Program S ε α} {f : α → Program S ε β} {Q : α → σ → List (Attempt S σ) → Prop}
    {R : β → σ → List (Attempt S σ) → Prop} (hp : Leads exec lost A p (either Q E))
    (hf : ∀ a, Leads exec lost (Q a) (f a) (either R E)) : Leads exec lost A (p >>= f) (either R E) := by
  refine hp.andThen fun r => ?_
  cases r with
  | ok a => exact hf a
  | error e => exact Leads.raise fun _ _ h => h

theorem Leads.pure {a : α} {Q : α → σ → List (Attempt S σ) → Prop} (h : ∀ s log, A s log → Q a s log) :
    Leads exec lost A (pure a) (either Q E) :=
  Leads.ret h

theorem Leads.tryCatch {p : Program S ε α} {h : ε → Program S ε α} (hp : Leads exec lost A p Q)
    (hok : ∀ a s log, Q (.ok a) s log → R (.ok a) s log) (hh : ∀ e, Leads exec lost (Q (.error e)) (h e) R) :
    Leads exec lost A (p.tryCatch h) R := by
  refine hp.andThen fun r => ?_
  cases r with
  | ok a => exact Leads.ret (hok a)
  | error e => exact hh e

/-- The rule for `finally`: what the cleaning up raises replaces the outcome. -/
theorem Leads.tryFinally {p : Program S ε α} {f : Program S ε Unit} (hp : Leads exec lost A p Q)
    (hf : ∀ r, Leads exec lost (Q r) f fun
      | .ok _ => R r
      | .error e => R (.error e)) : Leads exec lost A (p.tryFinally f) R := by
  refine hp.andThen fun r => Leads.andThen (hf r) fun q => ?_
  cases q with
  | error e => exact Leads.raise fun _ _ h => h
  | ok _ =>
      cases r with
      | ok a => exact Leads.ret fun _ _ h => h
      | error e => exact Leads.raise fun _ _ h => h

end Program

end Interleaving
