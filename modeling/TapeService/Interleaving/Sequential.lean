import TapeService.Interleaving.System

/-!
# Programs that run alone

What a program does when nothing else happens in between: `eval` when every call is answered, and `Ends`
when calls may also raise, before or after they have taken effect. `Steps.ends` and `exists_steps` say that
this is what a thread of a system does while the others rest.
-/

namespace Interleaving

namespace Program

variable {S : Signature} {ε α β σ : Type}

section
variable (exec : (c : S.Call) → σ → Except ε (S.Reply c) × σ)

/-- How the program ends when every call is answered. -/
def eval : Program S ε α → σ → Except ε α × σ
  | .ret a, s => (.ok a, s)
  | .raise e, s => (.error e, s)
  | .call c k, s => (k (exec c s).1).eval (exec c s).2

/-- The program can end with `r` in the state `s'`; with `faults` its calls can raise. -/
def Ends (faults : Prop) : Program S ε α → σ → Except ε α → σ → Prop
  | .ret a, s, r, s' => r = .ok a ∧ s' = s
  | .raise e, s, r, s' => r = .error e ∧ s' = s
  | .call c k, s, r, s' =>
      (k (exec c s).1).Ends faults (exec c s).2 r s' ∨
        faults ∧ ∃ e t, (t = s ∨ t = (exec c s).2) ∧ (k (.error e)).Ends faults t r s'

/-- The calls that the program makes when every call is answered, in order. -/
def calls : Program S ε α → σ → List S.Call
  | .ret _, _ => []
  | .raise _, _ => []
  | .call c k, s => c :: (k (exec c s).1).calls (exec c s).2

end

variable {exec : (c : S.Call) → σ → Except ε (S.Reply c) × σ} {faults : Prop} {s s' : σ}

/-! ## Evaluation -/

theorem eval_andThen (p : Program S ε α) (f : Except ε α → Program S ε β) (s : σ) :
    (p.andThen f).eval exec s = (f (p.eval exec s).1).eval exec (p.eval exec s).2 := by
  induction p generalizing s with
  | ret a => rfl
  | raise e => rfl
  | call c k ih => exact ih _ _

@[simp] theorem eval_pure (a : α) (s : σ) : (pure a : Program S ε α).eval exec s = (.ok a, s) := rfl

@[simp] theorem eval_ofExcept (r : Except ε α) (s : σ) :
    (ofExcept r : Program S ε α).eval exec s = (r, s) := by
  cases r <;> rfl

@[simp] theorem eval_perform (c : S.Call) (s : σ) :
    (perform c : Program S ε _).eval exec s = exec c s := by
  simp [perform, eval]

theorem eval_eq_of_fst {p : Program S ε α} {r : Except ε α} (h : (p.eval exec s).1 = r) :
    p.eval exec s = (r, (p.eval exec s).2) :=
  Prod.ext h rfl

theorem eval_bind_ok {p : Program S ε α} {a : α} (h : p.eval exec s = (.ok a, s')) (f : α → Program S ε β) :
    (p >>= f).eval exec s = (f a).eval exec s' := by
  rw [bind_eq, eval_andThen, h]

theorem eval_bind_error {p : Program S ε α} {e : ε} (h : p.eval exec s = (.error e, s'))
    (f : α → Program S ε β) : (p >>= f).eval exec s = (.error e, s') := by
  rw [bind_eq, eval_andThen, h]
  rfl

/-- What returns has returned at every stage. -/
theorem eval_bind_eq_ok {p : Program S ε α} {f : α → Program S ε β} {b : β} {s'' : σ}
    (h : (p >>= f).eval exec s = (.ok b, s'')) :
    ∃ a s', p.eval exec s = (.ok a, s') ∧ (f a).eval exec s' = (.ok b, s'') := by
  obtain ⟨r, s', hp⟩ : ∃ r s', p.eval exec s = (r, s') := ⟨_, _, rfl⟩
  cases r with
  | ok a => exact ⟨a, s', hp, eval_bind_ok hp f ▸ h⟩
  | error e =>
      rw [eval_bind_error hp] at h
      cases h

theorem eval_map_ok {p : Program S ε α} {a : α} (h : p.eval exec s = (.ok a, s')) (f : α → β) :
    (f <$> p).eval exec s = (.ok (f a), s') :=
  eval_bind_ok h _

theorem eval_map (p : Program S ε α) (f : α → β) (s : σ) :
    (f <$> p).eval exec s = ((p.eval exec s).1.map f, (p.eval exec s).2) := by
  obtain ⟨r, s', hp⟩ : ∃ r s', p.eval exec s = (r, s') := ⟨_, _, rfl⟩
  rw [hp]
  cases r with
  | ok a => exact eval_map_ok hp f
  | error e => exact eval_bind_error hp _

theorem calls_andThen (p : Program S ε α) (f : Except ε α → Program S ε β) (s : σ) :
    (p.andThen f).calls exec s = p.calls exec s ++ (f (p.eval exec s).1).calls exec (p.eval exec s).2 := by
  induction p generalizing s with
  | ret a => rfl
  | raise e => rfl
  | call c k ih => exact congrArg (c :: ·) (ih _ _)

theorem calls_of_uses {C : S.Call → Prop} {p : Program S ε α} (hp : p.Uses C) (s : σ) :
    ∀ c ∈ p.calls exec s, C c := by
  induction p generalizing s with
  | ret a => exact fun _ hc => nomatch hc
  | raise e => exact fun _ hc => nomatch hc
  | call c k ih =>
      intro c' hc'
      rcases List.mem_cons.mp hc' with rfl | hc'
      · exact hp.1
      · exact ih _ (hp.2 _) _ c' hc'

/-- A call that the first part cannot make is made by the second. -/
theorem mem_calls_bind {p : Program S ε α} {a : α} {c : S.Call} (hp : p.Uses (· ≠ c))
    (h : p.eval exec s = (.ok a, s')) (f : α → Program S ε β) :
    c ∈ (p >>= f).calls exec s ↔ c ∈ (f a).calls exec s' := by
  rw [bind_eq, calls_andThen, h, List.mem_append]
  exact or_iff_right fun hmem => calls_of_uses hp s c hmem rfl

/-! ## Ends -/

theorem ends_iff_eval {p : Program S ε α} {r : Except ε α} :
    p.Ends exec False s r s' ↔ p.eval exec s = (r, s') := by
  induction p generalizing s with
  | ret a => simp [Ends, eval, eq_comm]
  | raise e => simp [Ends, eval, eq_comm]
  | call c k ih => simp [Ends, eval, ih]

theorem Ends.mono {p : Program S ε α} {r : Except ε α} {more : Prop} (hf : faults → more)
    (h : p.Ends exec faults s r s') : p.Ends exec more s r s' := by
  induction p generalizing s with
  | ret a => exact h
  | raise e => exact h
  | call c k ih =>
      rcases h with h | ⟨hfaults, e, t, ht, h⟩
      · exact .inl (ih _ h)
      · exact .inr ⟨hf hfaults, e, t, ht, ih _ h⟩

theorem ends_eval (p : Program S ε α) (s : σ) : p.Ends exec faults s (p.eval exec s).1 (p.eval exec s).2 :=
  (ends_iff_eval.mpr rfl).mono False.elim

theorem ends_andThen {p : Program S ε α} {f : Except ε α → Program S ε β} {r : Except ε β} :
    (p.andThen f).Ends exec faults s r s' ↔
      ∃ q t, p.Ends exec faults s q t ∧ (f q).Ends exec faults t r s' := by
  induction p generalizing s with
  | ret a => exact ⟨fun h => ⟨_, _, ⟨rfl, rfl⟩, h⟩, fun ⟨_, _, ⟨hq, ht⟩, h⟩ => by subst hq ht; exact h⟩
  | raise e => exact ⟨fun h => ⟨_, _, ⟨rfl, rfl⟩, h⟩, fun ⟨_, _, ⟨hq, ht⟩, h⟩ => by subst hq ht; exact h⟩
  | call c k ih =>
      simp only [andThen, Ends, ih]
      constructor
      · rintro (⟨q, t, h, hf⟩ | ⟨hfaults, e, u, hu, q, t, h, hf⟩)
        · exact ⟨q, t, .inl h, hf⟩
        · exact ⟨q, t, .inr ⟨hfaults, e, u, hu, h⟩, hf⟩
      · rintro ⟨q, t, h | ⟨hfaults, e, u, hu, h⟩, hf⟩
        · exact .inl ⟨q, t, h, hf⟩
        · exact .inr ⟨hfaults, e, u, hu, q, t, h, hf⟩

/-- A relation that every call keeps to is kept to by the program. -/
theorem Ends.rel {R : σ → σ → Prop} (hrefl : ∀ s, R s s) (htrans : ∀ s t u, R s t → R t u → R s u)
    {C : S.Call → Prop} {p : Program S ε α} (hp : p.Uses C) (hC : ∀ c, C c → ∀ s, R s (exec c s).2)
    {r : Except ε α} (h : p.Ends exec faults s r s') : R s s' := by
  induction p generalizing s with
  | ret a => exact h.2 ▸ hrefl s
  | raise e => exact h.2 ▸ hrefl s
  | call c k ih =>
      rcases h with h | ⟨-, e, t, rfl | rfl, h⟩
      · exact htrans _ _ _ (hC c hp.1 s) (ih _ (hp.2 _) h)
      · exact ih _ (hp.2 _) h
      · exact htrans _ _ _ (hC c hp.1 s) (ih _ (hp.2 _) h)

theorem eval_rel {R : σ → σ → Prop} (hrefl : ∀ s, R s s) (htrans : ∀ s t u, R s t → R t u → R s u)
    {C : S.Call → Prop} {p : Program S ε α} (hp : p.Uses C) (hC : ∀ c, C c → ∀ s, R s (exec c s).2) (s : σ) :
    R s (p.eval exec s).2 :=
  have h : p.Ends exec False s (p.eval exec s).1 (p.eval exec s).2 := ends_eval p s
  h.rel hrefl htrans hp hC

end Program

/-! ## A thread while the others rest -/

variable {S : System}

/-- The steps of thread `i`; with `faults` its calls can raise. -/
def OnlyThread (faults : Prop) (i : Nat) (_ : Conf S) : Label S → Prop
  | .run j => j = i
  | .fail j _ _ => faults ∧ j = i
  | _ => False

/-- A thread that has run alone has ended as its program does. -/
theorem Steps.ends {faults : Prop} {i : Nat} {c c' : Conf S} (h : Steps (OnlyThread faults i) c c') {job : S.Job}
    {p : Program S.toSignature S.Exn S.Out} (hp : c.threads[i]? = some ⟨job, some p⟩) {t : Thread S}
    {r : Except S.Exn S.Out} (ht : c'.threads[i]? = some t) (hr : t.outcome? = some r) :
    p.Ends S.exec faults c.world.state r c'.world.state := by
  induction h using Relation.ReflTransGen.head_induction_on generalizing p with
  | refl =>
      obtain rfl := Option.some.inj (hp.symm.trans ht)
      cases p with
      | ret a => cases hr; exact ⟨rfl, rfl⟩
      | raise e => cases hr; exact ⟨rfl, rfl⟩
      | call q k => cases hr
  | @head c₁ c₂ hstep hs ih =>
      obtain ⟨l, hl, hstep⟩ := hstep
      have hlt := (List.getElem?_eq_some_iff.mp hp).1
      cases Conf.stepTo_of_step hstep with
      | start hs => exact hl.elim
      | run hj =>
          cases hl
          cases hp.symm.trans hj
          exact .inl (ih (List.getElem?_set_self hlt))
      | @fail j e done job q k hj =>
          obtain ⟨hf, rfl⟩ := hl
          cases hp.symm.trans hj
          refine .inr ⟨hf, e, _, ?_, ih (List.getElem?_set_self hlt)⟩
          cases done
          · exact .inl rfl
          · exact .inr rfl
      | crash hj => exact hl.elim
      | env hs => exact hl.elim

/-- However its program can end, a thread that runs alone can end. -/
theorem exists_steps {faults : Prop} {i : Nat} {c : Conf S} {job : S.Job}
    {p : Program S.toSignature S.Exn S.Out} (hp : c.threads[i]? = some ⟨job, some p⟩)
    {r : Except S.Exn S.Out} {s' : S.State} (h : p.Ends S.exec faults c.world.state r s') :
    ∃ c' t, Steps (OnlyThread faults i) c c' ∧ c'.world.state = s' ∧ c'.threads[i]? = some t ∧
      t.outcome? = some r := by
  induction p generalizing c with
  | ret a => exact ⟨c, _, .refl, h.2.symm, hp, by rw [h.1]; rfl⟩
  | raise e => exact ⟨c, _, .refl, h.2.symm, hp, by rw [h.1]; rfl⟩
  | call q k ih =>
      have hlt := (List.getElem?_eq_some_iff.mp hp).1
      rcases h with h | ⟨hf, e, t, ht, h⟩
      · let c₁ : Conf S :=
          { world := c.world.push (.called i q (S.exec q c.world.state).1) (S.exec q c.world.state).2
            threads := c.threads.set i ⟨job, some (k (S.exec q c.world.state).1)⟩ }
        have hstep : c.step (.run i) = some c₁ := by simp only [Conf.step, hp, c₁]
        obtain ⟨c', t, hs, hrest⟩ := ih _ (c := c₁) (List.getElem?_set_self hlt) h
        exact ⟨c', t, .head ⟨.run i, rfl, hstep⟩ hs, hrest⟩
      · obtain ⟨done, rfl⟩ : ∃ done : Bool, t = if done then (S.exec q c.world.state).2 else c.world.state := by
          rcases ht with rfl | rfl
          · exact ⟨false, rfl⟩
          · exact ⟨true, rfl⟩
        let c₁ : Conf S :=
          { world := c.world.push (.called i q (.error e))
              (if done then (S.exec q c.world.state).2 else c.world.state)
            threads := c.threads.set i ⟨job, some (k (.error e))⟩ }
        have hstep : c.step (.fail i e done) = some c₁ := by simp only [Conf.step, hp, c₁]
        obtain ⟨c', t, hs, hrest⟩ := ih _ (c := c₁) (List.getElem?_set_self hlt) h
        exact ⟨c', t, .head ⟨.fail i e done, ⟨hf, rfl⟩, hstep⟩ hs, hrest⟩

end Interleaving
