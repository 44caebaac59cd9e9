import TapeService.Interleaving.System

/-!
# Readings

What a thread has read last, and which threads have changed it since. While nobody has, what was read is
still current.
-/

namespace Interleaving

variable {S : System} {β : Type}

/-- What thread `i` reads in an event. -/
def Event.reads (read? : (c : S.Call) → Except S.Exn (S.Reply c) → Option β) (i : Nat) : Event S → Option β
  | .called j c r => if j = i then read? c r else none
  | _ => none

/-- The thread of a call that changes what is read. -/
def Event.changer? (changes : S.Call → Bool) : Event S → Option Nat
  | .called j c _ => if changes c then some j else none
  | _ => none

/-- What thread `i` has read last, with the threads that have changed it since, the latest first. -/
def reading (read? : (c : S.Call) → Except S.Exn (S.Reply c) → Option β) (changes : S.Call → Bool) (i : Nat) :
    List (Event S) → Option (β × List Nat)
  | [] => none
  | ev :: log =>
      match ev.reads read? i with
      | some v => some (v, [])
      | none => (reading read? changes i log).map fun x => (x.1, (ev.changer? changes).toList ++ x.2)

variable {read? : (c : S.Call) → Except S.Exn (S.Reply c) → Option β} {changes : S.Call → Bool} {i : Nat}
  {ev : Event S} {log : List (Event S)}

theorem Event.reads_of_thread_ne (h : ev.thread? ≠ some i) : ev.reads read? i = none := by
  cases ev with
  | called j c r => exact if_neg fun hj => h (congrArg some hj)
  | _ => rfl

@[simp] theorem Event.reads_called {c : S.Call} {r : Except S.Exn (S.Reply c)} :
    (Event.called i c r : Event S).reads read? i = read? c r :=
  if_pos rfl

theorem reading_of_reads {v : β} (h : ev.reads read? i = some v) :
    reading read? changes i (ev :: log) = some (v, []) := by
  simp [reading, h]

theorem reading_of_not_reads (h : ev.reads read? i = none) :
    reading read? changes i (ev :: log) =
      (reading read? changes i log).map fun x => (x.1, (ev.changer? changes).toList ++ x.2) := by
  simp [reading, h]

/-- Only calls read and change. -/
theorem reading_cons_of_not_called (h : ∀ j c r, ev ≠ .called j c r) :
    reading read? changes i (ev :: log) = reading read? changes i log := by
  cases ev with
  | called j c r => exact absurd rfl (h j c r)
  | _ =>
      rw [reading_of_not_reads rfl]
      cases reading read? changes i log <;> rfl

/-- What was read once stays read. -/
theorem reading_isSome_cons (h : (reading read? changes i log).isSome) :
    (reading read? changes i (ev :: log)).isSome := by
  cases hr : ev.reads read? i with
  | some v => simp [reading_of_reads hr]
  | none => simpa [reading_of_not_reads hr] using h

/-- The changes since the last reading only become more, until the thread reads again. -/
theorem exists_of_reading_cons (h : ev.reads read? i = none) {x : β × List Nat}
    (hx : reading read? changes i log = some x) :
    ∃ js, reading read? changes i (ev :: log) = some (x.1, js) ∧ x.2 ⊆ js ∧
      ∀ j, ev.changer? changes = some j → j ∈ js := by
  refine ⟨(ev.changer? changes).toList ++ x.2, by simp [reading_of_not_reads h, hx],
    List.subset_append_right _ _, fun j hj => ?_⟩
  simp [hj]

theorem Event.eq_of_changer? {j : Nat} (h : ev.changer? changes = some j) :
    ∃ c r, ev = .called j c r ∧ changes c := by
  cases ev with
  | called k c r =>
      simp only [Event.changer?, Option.ite_none_right_eq_some, Option.some.injEq] at h
      obtain ⟨hc, rfl⟩ := h
      exact ⟨c, r, rfl, hc⟩
  | _ => cases h

/-- Every thread that a reading names has made a change. -/
theorem exists_of_mem_reading {x : β × List Nat} (hx : reading read? changes i log = some x) {k : Nat}
    (hk : k ∈ x.2) : ∃ c r, .called k c r ∈ log ∧ changes c := by
  induction log generalizing x with
  | nil => cases hx
  | cons ev log ih =>
      cases hr : ev.reads read? i with
      | some v =>
          rw [reading_of_reads hr] at hx
          cases hx
          cases hk
      | none =>
          rw [reading_of_not_reads hr] at hx
          obtain ⟨y, hy, rfl⟩ := Option.map_eq_some_iff.mp hx
          rcases List.mem_append.mp hk with hk | hk
          · obtain ⟨c, r, rfl, hc⟩ := Event.eq_of_changer? (Option.mem_toList.mp hk)
            exact ⟨c, r, List.mem_cons_self, hc⟩
          · obtain ⟨c, r, hmem, hc⟩ := ih hy hk
            exact ⟨c, r, List.mem_cons_of_mem _ hmem, hc⟩

/-- What a thread has read and nobody has changed since is related by `R` to the state. -/
def Current (read? : (c : S.Call) → Except S.Exn (S.Reply c) → Option β) (changes : S.Call → Bool)
    (R : β → S.State → Prop) (w : World S) : Prop :=
  ∀ i v, reading read? changes i w.log = some (v, []) → R v w.state

theorem Current.push {R : β → S.State → Prop} {w : World S} {s : S.State} (h : Current read? changes R w)
    (hread : ∀ i v, ev.reads read? i = some v → R v s)
    (hkeep : ev.changer? changes = none → ∀ v, R v w.state → R v s) :
    Current read? changes R (w.push ev s) := by
  intro i v hv
  rw [World.push_log] at hv
  cases hr : ev.reads read? i with
  | some v' =>
      rw [reading_of_reads hr] at hv
      cases hv
      exact hread i v hr
  | none =>
      rw [reading_of_not_reads hr] at hv
      obtain ⟨x, hx, he⟩ := Option.map_eq_some_iff.mp hv
      obtain ⟨rfl, hnil⟩ := Prod.mk.inj he
      obtain ⟨hnone, hold⟩ := List.append_eq_nil_iff.mp hnil
      refine hkeep (by simpa using hnone) _ (h i x.1 ?_)
      rw [hx, ← hold]

end Interleaving
