import TapeService.Interleaving.Sequential

/-!
# Programs seen from one side

A part of the state is all that some programs go by and change. What such a program returns, what it makes
of that part and which of its calls are worth noting follow from that part alone.
-/

namespace Interleaving

open Program

/-- The part of the states and what is noted of the calls. -/
structure Aspect (S : Signature) (ε σ ν τ : Type) where
  exec : (c : S.Call) → σ → Except ε (S.Reply c) × σ
  view : σ → ν
  note? : S.Call → Option τ

namespace Aspect

variable {S : Signature} {ε α β σ ν τ : Type} (A : Aspect S ε σ ν τ)

/-- The calls that are noted when the program runs alone. -/
def notes (p : Program S ε α) (s : σ) : List τ := (p.calls A.exec s).filterMap A.note?

/-- From every state that is seen as `v` the program returns `a`, with the state seen as `v'` and `out` noted. -/
def Yields (p : Program S ε α) (v : ν) (a : α) (v' : ν) (out : List τ) : Prop :=
  ∀ s, A.view s = v → ∃ s', p.eval A.exec s = (.ok a, s') ∧ A.view s' = v' ∧ A.notes p s = out

/-- The program returns something, and nothing of it is seen or noted. -/
def Passes (p : Program S ε α) : Prop :=
  ∀ s, ∃ a s', p.eval A.exec s = (.ok a, s') ∧ A.view s' = A.view s ∧ A.notes p s = []

variable {A} {a : α} {b : β} {v v' v'' : ν} {out out' : List τ} {p : Program S ε α}

theorem notes_andThen {f : Except ε α → Program S ε β} {r : Except ε α} {s s' : σ} (h : p.eval A.exec s = (r, s')) :
    A.notes (p.andThen f) s = A.notes p s ++ A.notes (f r) s' := by
  rw [notes, calls_andThen, List.filterMap_append, h]
  rfl

theorem Yields.pure : A.Yields (pure a) v a v [] := fun s hs => ⟨s, rfl, hs, rfl⟩

theorem Yields.andThen {f : Except ε α → Program S ε β} (hp : A.Yields p v a v' out)
    (hf : A.Yields (f (.ok a)) v' b v'' out') : A.Yields (p.andThen f) v b v'' (out ++ out') := by
  intro s hs
  obtain ⟨s', hp', hs', rfl⟩ := hp s hs
  obtain ⟨s'', hf', hs'', rfl⟩ := hf s' hs'
  exact ⟨s'', by rw [eval_andThen, hp', hf'], hs'', notes_andThen hp'⟩

theorem Yields.bind {f : α → Program S ε β} (hp : A.Yields p v a v' out) (hf : A.Yields (f a) v' b v'' out') :
    A.Yields (p >>= f) v b v'' (out ++ out') :=
  hp.andThen hf

theorem Yields.bind_nil {f : α → Program S ε β} (hp : A.Yields p v a v' []) (hf : A.Yields (f a) v' b v'' out) :
    A.Yields (p >>= f) v b v'' out :=
  hp.bind hf

theorem Yields.tryCatch {h : ε → Program S ε α} (hp : A.Yields p v a v' out) :
    A.Yields (p.tryCatch h) v a v' out := by
  have h' : A.Yields (p.tryCatch h) v a v' (out ++ []) := hp.andThen .pure
  rwa [List.append_nil] at h'

theorem Yields.tryFinally {f : Program S ε Unit} (hp : A.Yields p v a v' out) (hf : A.Yields f v' () v'' out') :
    A.Yields (p.tryFinally f) v a v'' (out ++ out') := by
  have h : A.Yields (f.bind fun _ => Pure.pure a) v' a v'' (out' ++ []) := hf.bind .pure
  rw [List.append_nil] at h
  exact hp.andThen h

theorem notes_perform {c : S.Call} {s : σ} :
    A.notes (Program.perform c : Program S ε _) s = (A.note? c).toList := by
  have hcalls : (Program.perform c : Program S ε _).calls A.exec s = [c] := by
    rw [Program.perform, calls]
    cases (A.exec c s).1 <;> rfl
  rw [notes, hcalls, List.filterMap_cons]
  cases A.note? c <;> rfl

theorem Yields.perform {c : S.Call} {a : S.Reply c}
    (h : ∀ s, A.view s = v → (A.exec c s).1 = .ok a ∧ A.view (A.exec c s).2 = v') :
    A.Yields (perform c) v a v' (A.note? c).toList := by
  intro s hs
  obtain ⟨ha, hs'⟩ := h s hs
  exact ⟨_, (eval_perform c s).trans (Prod.ext ha rfl), hs', notes_perform⟩

theorem Passes.perform {c : S.Call} (h : ∀ s, ∃ a, (A.exec c s).1 = .ok a)
    (hs : ∀ s, A.view (A.exec c s).2 = A.view s) (hn : A.note? c = none) :
    A.Passes (Program.perform c : Program S ε _) := by
  intro s
  obtain ⟨a, ha⟩ := h s
  exact ⟨a, _, (eval_perform c s).trans (Prod.ext ha rfl), hs s, by rw [notes_perform, hn]; rfl⟩

theorem Yields.of_eval (hp : p.Uses fun c => A.note? c = none)
    (h : ∀ s, A.view s = v → ∃ s', p.eval A.exec s = (.ok a, s') ∧ A.view s' = v') : A.Yields p v a v' [] := by
  intro s hs
  obtain ⟨s', hp', hs'⟩ := h s hs
  exact ⟨s', hp', hs', List.filterMap_eq_nil_iff.mpr (calls_of_uses hp s)⟩

theorem Passes.bind {f : α → Program S ε β} (hp : A.Passes p) (hf : ∀ a, A.Yields (f a) v b v' out) :
    A.Yields (p >>= f) v b v' out := by
  intro s hs
  obtain ⟨a, s₁, hp', hs₁, hnil⟩ := hp s
  obtain ⟨s', hf', hs', rfl⟩ := hf a s₁ (hs₁.trans hs)
  refine ⟨s', (eval_bind_ok hp' f).trans hf', hs', ?_⟩
  rw [bind_eq, notes_andThen hp', hnil]
  rfl

theorem Passes.yields {p : Program S ε Unit} (hp : A.Passes p) : A.Yields p v () v [] := by
  intro s hs
  obtain ⟨a, s', hp, hs', hnil⟩ := hp s
  exact ⟨s', hp, hs'.trans hs, hnil⟩

/-- A loop of steps that are not seen, each of which notes its own. -/
theorem Yields.forM {γ : Type} {f : γ → Program S ε PUnit} {g : γ → τ} (xs : List γ)
    (h : ∀ x, A.Yields (f x) v ⟨⟩ v [g x]) : A.Yields (xs.forM f) v ⟨⟩ v (xs.map g) := by
  induction xs with
  | nil => exact Yields.pure
  | cons x xs ih => exact (h x).bind ih

end Aspect

end Interleaving
