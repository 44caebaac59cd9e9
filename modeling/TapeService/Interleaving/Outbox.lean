import TapeService.Interleaving.System

/-!
# Changes and their announcements

A log records two sequences: the changes that threads have made, and the announcements that they make of
them afterwards. When each announcement is about the oldest change that has none yet, the announcements
are a prefix of the changes; and when no thread owes one any more, the two are the same.
-/

namespace Interleaving

variable {S : System} {α κ : Type}

/-- The items that the events of a log stand for, the oldest first. -/
def record (f : Event S → Option α) (log : List (Event S)) : List α :=
  log.reverse.filterMap f

@[simp] theorem record_nil (f : Event S → Option α) : record f [] = [] := rfl

theorem record_cons (f : Event S → Option α) (ev : Event S) (log : List (Event S)) :
    record f (ev :: log) = record f log ++ (f ev).toList := by
  cases h : f ev <;> simp [record, List.filterMap_append, h]

theorem record_cons_none {f : Event S → Option α} {ev : Event S} (h : f ev = none) (log : List (Event S)) :
    record f (ev :: log) = record f log := by
  simp [record_cons, h]

theorem record_cons_some {f : Event S → Option α} {ev : Event S} {x : α} (h : f ev = some x)
    (log : List (Event S)) : record f (ev :: log) = record f log ++ [x] := by
  simp [record_cons, h]

theorem mem_record {f : Event S → Option α} {log : List (Event S)} {x : α} :
    x ∈ record f log ↔ ∃ ev ∈ log, f ev = some x := by
  simp [record]

/-- The part of a record that belongs to one thread. -/
theorem record_own {f : Event S → Option (Nat × κ)} (hf : ∀ ev x, f ev = some x → ev.thread? = some x.1)
    (w : World S) (i : Nat) : record f (w.own i) = (record f w.log).filter fun x => x.1 = i := by
  simp only [record, World.own, ← List.filter_reverse, List.filterMap_filter, List.filter_filterMap]
  congr 1
  funext ev
  cases h : f ev with
  | none => simp
  | some x =>
      have := hf ev x h
      by_cases hi : x.1 = i <;> simp [this, hi, Option.filter]

/-! ## Announcements in order -/

/-- What thread `i` still has to announce. -/
def Owes (i : Nat) (made announced : List (Nat × κ)) (rest : List κ) : Prop :=
  (made.filter fun x => x.1 = i).map Prod.snd = (announced.filter fun x => x.1 = i).map Prod.snd ++ rest

/-- The oldest change without an announcement is one of thread `i`. -/
def Next (i : Nat) (made announced : List (Nat × κ)) : Prop :=
  (made.drop announced.length).head?.map Prod.fst = some i

instance (i : Nat) (made announced : List (Nat × κ)) : Decidable (Next i made announced) :=
  inferInstanceAs (Decidable (_ = _))

theorem Next.split {i : Nat} {made announced : List (Nat × κ)} (h : Next i made announced)
    (hpre : announced <+: made) : ∃ k later, made = announced ++ (i, k) :: later := by
  obtain ⟨rest, rfl⟩ := hpre
  simp only [Next, List.drop_left] at h
  cases rest with
  | nil => simp at h
  | cons x later =>
      simp only [List.head?_cons, Option.map_some, Option.some.injEq] at h
      exact ⟨x.2, later, by rw [← h]⟩

/-- The announcement of the next change, by the thread that owes it, says what the change was. -/
theorem Next.announce {i : Nat} {made announced : List (Nat × κ)} {k : κ} {rest : List κ}
    (h : Next i made announced) (hpre : announced <+: made) (howes : Owes i made announced (k :: rest)) :
    announced ++ [(i, k)] <+: made := by
  obtain ⟨k', later, rfl⟩ := h.split hpre
  simp only [Owes, List.filter_append, List.map_append, List.append_cancel_left_eq, List.filter_cons,
    decide_true, if_true, List.map_cons, List.cons.injEq] at howes
  exact ⟨later, by simp [howes.1]⟩

/-- A thread that owes nothing does not have the next change. -/
theorem Next.not_owes_nil {i : Nat} {made announced : List (Nat × κ)} (h : Next i made announced)
    (hpre : announced <+: made) : ¬ Owes i made announced [] := by
  obtain ⟨k, later, rfl⟩ := h.split hpre
  simp [Owes]

theorem eq_of_owes_nil {made announced : List (Nat × κ)} (hpre : announced <+: made)
    (h : ∀ x ∈ made, Owes x.1 made announced []) : announced = made := by
  obtain ⟨rest, rfl⟩ := hpre
  cases rest with
  | nil => simp
  | cons x rest =>
      have := h x (by simp)
      simp [Owes] at this

end Interleaving
