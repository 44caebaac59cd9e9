import Mathlib.Logic.Function.Basic

/-!
# Programs over calls

A program that talks to a store or a database is a tree of calls: it asks for something and goes on with
the answer, or with the exception that the call raised. Exceptions, `try`/`except` and `finally` are all
instances of one operation (`andThen`), so the rules about programs are proved for `andThen` only.
-/

namespace Interleaving

/-- The calls that a program can make, and what each of them answers with. -/
structure Signature where
  Call : Type
  Reply : Call → Type

inductive Program (S : Signature) (ε α : Type) where
  | ret (a : α)
  | raise (e : ε)
  | call (c : S.Call) (k : Except ε (S.Reply c) → Program S ε α)

namespace Program

variable {S : Signature} {ε α β γ : Type}

/-- Goes on with `f` when `p` has ended, whichever way it ended. -/
def andThen : Program S ε α → (Except ε α → Program S ε β) → Program S ε β
  | .ret a, f => f (.ok a)
  | .raise e, f => f (.error e)
  | .call c k, f => .call c fun r => (k r).andThen f

def ofExcept : Except ε α → Program S ε α
  | .ok a => .ret a
  | .error e => .raise e

def bind (p : Program S ε α) (f : α → Program S ε β) : Program S ε β :=
  p.andThen fun
    | .ok a => f a
    | .error e => .raise e

/-- `try: p except: h`. -/
def tryCatch (p : Program S ε α) (h : ε → Program S ε α) : Program S ε α :=
  p.andThen fun
    | .ok a => .ret a
    | .error e => h e

/-- `try: p finally: f`. An exception that `f` raises replaces the outcome of `p`. -/
def tryFinally (p : Program S ε α) (f : Program S ε Unit) : Program S ε α :=
  p.andThen fun r => f.bind fun _ => ofExcept r

instance : Monad (Program S ε) where
  pure := .ret
  bind := bind

def perform (c : S.Call) : Program S ε (S.Reply c) :=
  .call c ofExcept

theorem bind_eq (p : Program S ε α) (f : α → Program S ε β) :
    p >>= f = p.andThen fun | .ok a => f a | .error e => .raise e := rfl

/-! ## The calls of a program -/

/-- Every call that `p` can make satisfies `C`. -/
def Uses (C : S.Call → Prop) : Program S ε α → Prop
  | .ret _ => True
  | .raise _ => True
  | .call c k => C c ∧ ∀ r, (k r).Uses C

theorem Uses.of_forall {C : S.Call → Prop} (h : ∀ c, C c) (p : Program S ε α) : p.Uses C := by
  induction p with
  | ret a => trivial
  | raise e => trivial
  | call c k ih => exact ⟨h c, fun r => ih r⟩

theorem Uses.andThen {C : S.Call → Prop} {p : Program S ε α} {f : Except ε α → Program S ε β}
    (hp : p.Uses C) (hf : ∀ r, (f r).Uses C) : (p.andThen f).Uses C := by
  induction p with
  | ret a => exact hf _
  | raise e => exact hf _
  | call c k ih => exact ⟨hp.1, fun r => ih r (hp.2 r)⟩

theorem Uses.ofExcept {C : S.Call → Prop} (r : Except ε α) :
    (ofExcept r : Program S ε α).Uses C := by
  cases r <;> trivial

theorem Uses.perform {C : S.Call → Prop} {c : S.Call} (hc : C c) :
    (perform c : Program S ε _).Uses C :=
  ⟨hc, fun r => Uses.ofExcept r⟩

theorem Uses.bind {C : S.Call → Prop} {p : Program S ε α} {f : α → Program S ε β}
    (hp : p.Uses C) (hf : ∀ a, (f a).Uses C) : (p >>= f).Uses C := by
  refine hp.andThen fun r => ?_
  cases r with
  | ok a => exact hf a
  | error e => trivial

theorem Uses.tryCatch {C : S.Call → Prop} {p : Program S ε α} {h : ε → Program S ε α}
    (hp : p.Uses C) (hh : ∀ e, (h e).Uses C) : (p.tryCatch h).Uses C := by
  refine hp.andThen fun r => ?_
  cases r with
  | ok a => trivial
  | error e => exact hh e

theorem Uses.tryFinally {C : S.Call → Prop} {p : Program S ε α} {f : Program S ε Unit}
    (hp : p.Uses C) (hf : f.Uses C) : (p.tryFinally f).Uses C :=
  hp.andThen fun r => Uses.bind hf fun _ => Uses.ofExcept r

theorem Uses.mono {C D : S.Call → Prop} (h : ∀ c, C c → D c) {p : Program S ε α} (hp : p.Uses C) :
    p.Uses D := by
  induction p with
  | ret a => trivial
  | raise e => trivial
  | call c k ih => exact ⟨h c hp.1, fun r => ih r (hp.2 r)⟩

/-- A loop over a list makes only the calls of its body. -/
theorem Uses.forM {C : S.Call → Prop} {f : α → Program S ε PUnit} (xs : List α)
    (hf : ∀ x ∈ xs, (f x).Uses C) : (xs.forM f).Uses C := by
  induction xs with
  | nil => trivial
  | cons x xs ih =>
      refine Uses.bind (hf x (by simp)) fun _ => ih fun y hy => hf y (by simp [hy])

/-! ## Plain programs -/

/-- The program handles nothing: it raises when one of its calls does, and not otherwise. -/
def Plain : Program S ε α → Prop
  | .ret _ => True
  | .raise _ => False
  | .call _ k => (∀ e, ∃ e', k (.error e) = .raise e') ∧ ∀ a, (k (.ok a)).Plain

theorem Plain.perform {c : S.Call} : (perform c : Program S ε _).Plain := ⟨fun e => ⟨e, rfl⟩, fun _ => trivial⟩

theorem Plain.bind {p : Program S ε α} {f : α → Program S ε β} (hp : p.Plain) (hf : ∀ a, (f a).Plain) :
    (p >>= f).Plain := by
  induction p with
  | ret a => exact hf a
  | raise e => exact hp.elim
  | call c k ih =>
      refine ⟨fun e => ?_, fun a => ih _ (hp.2 a)⟩
      obtain ⟨e', he⟩ := hp.1 e
      exact ⟨e', congrArg (fun q => q >>= f) he⟩

theorem Plain.forM {f : α → Program S ε PUnit} (xs : List α) (hf : ∀ x, (f x).Plain) : (xs.forM f).Plain := by
  induction xs with
  | nil => trivial
  | cons x xs ih => exact Plain.bind (hf x) fun _ => ih

end Program

end Interleaving
