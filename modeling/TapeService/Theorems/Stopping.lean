import TapeService.Lemmas.Evaluation
import TapeService.Model.Service

/-!
# Stopping

The state of a page is about the items of that page, its `next_position` about what lies behind them: a
page that shows nothing misses nothing up to its `next_position`, and nothing at all when it has none.
-/

namespace TapeService

open Interleaving Interleaving.Program Python

/-- The document exists and the user has not scored it. -/
def Showable (s : State) (userId documentId : Int) : Prop :=
  documentId ∈ s.db.documents.map (·.id) ∧ ¬ s.db.Scored userId documentId

instance (s : State) (userId documentId : Int) : Decidable (Showable s userId documentId) :=
  inferInstanceAs (Decidable (_ ∧ ¬ _))

/-- The row lies beyond the cursor that the request came with. -/
def BeyondCursor (after : Option Nat) (row : Int × Int) : Prop := Keyset.Beyond Prod.snd (after.map Int.ofNat) row

instance (after : Option Nat) (row : Int × Int) : Decidable (BeyondCursor after row) :=
  inferInstanceAs (Decidable (Keyset.Beyond _ _ _))

namespace Stopping

variable {s s' : State} {userId : Int}

theorem mem_scoredAmong {db : Platform} {d : Int} {ids : List Int} :
    d ∈ db.scoredAmong userId ids ↔ d ∈ ids ∧ db.Scored userId d := by
  simp only [Platform.scoredAmong, Platform.Scored, List.mem_filterMap]
  constructor
  · rintro ⟨row, hrow, h⟩
    split at h
    · rename_i hu
      obtain ⟨hd, hmem⟩ := Option.filter_eq_some_iff.mp h
      exact ⟨by simpa using hmem, row, hrow, hu, hd⟩
    · cases h
  · rintro ⟨hmem, row, hrow, hu, hd⟩
    exact ⟨row, hrow, by simp [hu, hd, hmem]⟩

theorem find?_documentsById {db : Platform} {d : Int} {ids : List Int} (hd : d ∈ ids) :
    ((db.documentsById ids).find? (·.id = d)).isSome ↔ d ∈ db.documents.map (·.id) := by
  simp only [List.find?_isSome, Platform.documentsById, List.mem_filter, List.mem_map, decide_eq_true_eq]
  constructor
  · rintro ⟨x, ⟨hx, -⟩, he⟩
    exact ⟨x, hx, he⟩
  · rintro ⟨x, hx, rfl⟩
    exact ⟨x, ⟨hx, hd⟩, rfl⟩

theorem mem_shownRows {rows : List (Int × Int)} {row : Int × Int} (h : row ∈ rows) :
    row ∈ shownRows (s.db.documentsById (rows.map Prod.fst)) (s.db.scoredAmong userId (rows.map Prod.fst)) rows ↔
      Showable s userId row.1 := by
  have hid : row.1 ∈ rows.map Prod.fst := List.mem_map_of_mem h
  simp only [shownRows, List.mem_filter, mem_scoredAmong, find?_documentsById hid, decide_eq_true_eq, h, hid,
    true_and, Showable]
  exact and_comm

section
variable [DatetimeLib] {cfg : TapeConfig} {after : Option Nat} {page : TapePage}

theorem readRows_spec {rows : List (Int × Int)} (hne : rows ≠ [])
    (h : (readRows userId cfg rows).eval exec s = (.ok page, s')) :
    (∀ row ∈ rows.map Prod.swap, Showable s userId row.1 → page.items ≠ []) ∧
      (page.state = .ok ↔ page.items ≠ []) ∧
      page.nextPosition = if (rows.length : Int) = cfg.pageSize then rows.getLast?.map Prod.fst else none := by
  have hids : rows.map Prod.snd = (rows.map Prod.swap).map Prod.fst := by simp [Function.comp_def]
  have hne' : rows.map Prod.snd ≠ [] := by simpa using hne
  unfold readRows fetchByIds filterAlreadyScored at h
  simp only [if_neg hne'] at h
  rw [eval_bind_ok (ask_eval _ _), eval_bind_ok (ask_eval _ _)] at h
  obtain ⟨rolesBySrc, s₁, -, h⟩ := eval_bind_eq_ok h
  obtain ⟨items, s₂, hitems, h⟩ := eval_bind_eq_ok h
  simp only [eval_pure, Prod.mk.injEq, Except.ok.injEq] at h
  obtain ⟨rfl, rfl⟩ := h
  refine ⟨fun row hrow hshow hnil => ?_, ?_, rfl⟩
  · have hnil : items = [] := hnil
    have hentries : items.map TapeItem.entry =
        shownRows (s.db.documentsById (rows.map Prod.snd)) (s.db.scoredAmong userId (rows.map Prod.snd))
          (rows.map Prod.swap) := pageItems_entries hitems
    have hmem := (mem_shownRows hrow).mpr hshow
    rw [← hids, ← hentries, hnil] at hmem
    cases hmem
  · by_cases hnil : items = [] <;> simp [hnil]

/-- The rows of a page that shows nothing, as its request read them. -/
theorem readTape_nothing (hcfg : (s.cfg userId).entries ≠ []) (hdec : decodeConfig userId (s.cfg userId) = .ok cfg)
    (hsize : 1 ≤ cfg.pageSize) (h : (readTape userId after).eval exec s = (.ok page, s'))
    (hstate : page.state ≠ .ok) :
    ∃ rows, rows = Keyset.page Prod.snd (after.map Int.ofNat) cfg.pageSize.toNat (s.tape userId).rows ∧
      (∀ row ∈ rows, ¬ Showable s userId row.1) ∧
      page.nextPosition = Keyset.next Prod.snd cfg.pageSize.toNat rows := by
  refine ⟨_, rfl, ?_⟩
  have hlocked : (isLocked userId).eval exec s = (.ok (s.lock userId).isSome, s) := rfl
  have hread : (getConfig userId).eval exec s = (.ok (some cfg), s) := by
    rw [getConfig_eval, if_neg hcfg, hdec]
    rfl
  unfold readTape at h
  rw [eval_bind_ok hlocked] at h
  split at h
  · cases h
  · rw [eval_bind_ok hread] at h
    simp only at h
    rw [eval_bind_ok (listEntriesPage_eval hsize)] at h
    generalize hrows : Keyset.page Prod.snd (after.map Int.ofNat) cfg.pageSize.toNat (s.tape userId).rows = rows at h ⊢
    split at h
    · rename_i hnil
      have hnil : rows = [] := by simpa using hnil
      obtain ⟨total, s₁, -, h⟩ := eval_bind_eq_ok h
      simp only [eval_pure, Prod.mk.injEq, Except.ok.injEq] at h
      obtain ⟨rfl, rfl⟩ := h
      subst hnil
      simp [Keyset.next]
    · rename_i hne
      obtain ⟨hshown, hok, hnext⟩ := readRows_spec hne h
      have hitems : page.items = [] := by
        by_contra hitems
        exact hstate (hok.mpr hitems)
      refine ⟨fun row hrow hshow => hshown row ?_ hshow hitems, ?_⟩
      · simpa [Function.comp_def] using hrow
      · have hlen : ((rows.map Prod.swap).length : Int) = cfg.pageSize ↔ rows.length = cfg.pageSize.toNat := by
          rw [List.length_map]
          omega
        rw [hnext, Keyset.next, if_congr hlen rfl rfl, List.getLast?_map, Option.map_map]
        rfl

end

end Stopping

/-! ## The property -/

section
variable [DatetimeLib]

/-- A page that shows nothing has a `next_position` when a showable entry lies beyond the cursor, and then
the entry does not lie before it, but beyond it when no two entries share a position. -/
theorem stopping_loses_nothing {s s' : State} {userId : Int} {cfg : TapeConfig} {after : Option Nat}
    {page : TapePage}
    (hcfg : (s.cfg userId).entries ≠ []) (hdec : decodeConfig userId (s.cfg userId) = .ok cfg)
    (hsize : 1 ≤ cfg.pageSize) (hread : (readTape userId after).eval exec s = (.ok page, s'))
    (hstate : page.state = .empty ∨ page.state = .preparing) :
    ∀ row ∈ (s.tape userId).rows, BeyondCursor after row → Showable s userId row.1 →
      ∃ p, page.nextPosition = some p ∧ p ≤ row.2 ∧ (((s.tape userId).rows.map Prod.snd).Nodup → p < row.2) := by
  intro row hrow hbeyond hshow
  have hstate : page.state ≠ .ok := by rcases hstate with h | h <;> simp [h]
  obtain ⟨rows, hrows, hnone, hnext⟩ := Stopping.readTape_nothing hcfg hdec hsize hread hstate
  have hmiss : row ∉ rows := fun hmem => hnone row hmem hshow
  have hranked := (s.tape userId).ranked
  rw [hnext]
  subst hrows
  obtain ⟨last, hlast, hrank⟩ := Keyset.exists_next_of_missed (by omega) hranked hrow hbeyond hmiss
  refine ⟨last.2, hlast, hrank.le, fun hnodup => lt_of_le_of_ne hrank.le fun he => ?_⟩
  -- Two entries at one position are one entry, and the last row of the page is not the missed one.
  obtain ⟨-, y, hy, hkey⟩ := Keyset.exists_of_next hlast
  have hy := List.mem_of_getLast? hy
  have : y = row := List.inj_on_of_nodup_map hnodup (Keyset.page_sublist.subset hy) hrow (hkey.trans he)
  exact hmiss (this ▸ hy)

end

section
open scoped Python.Utc

namespace Sample

theorem onePerPage : (1 : Int) ≤ 1 ∧ (1 : Int) ≤ 200 := by decide

/-- A tape of two articles that is read one entry at a time. The first one has been scored elsewhere, and the
notification is still to be handled. -/
def ahead : State :=
  ((start [article 7, article 8]).play
    (.start (.writeConfig 1 { update .asc [1] with pageSize := 1, pageSize_bounds := onePerPage }) :: runs 0 9 ++
      .start (.generate 1 true) :: runs 1 30 ++ [.env (.insertScore
        { score := ⟨1, none⟩, comment := none, documentId := some 7, userId := some 1, roleId := some 1 })]
    )).world.state

/-- The page without items, with a `next_position`. -/
def skipped : TapePage := { items := [], nextPosition := some 0, state := .empty, displayMode := "compact" }

theorem ahead_read : (readTape 1 none).eval exec ahead = (.ok skipped, ((readTape 1 none).eval exec ahead).2) :=
  eval_eq_of_fst (by decide +kernel)

theorem ahead_row : ((8, 1) : Int × Int) ∈ (ahead.tape 1).rows := by decide +kernel

theorem ahead_showable : Showable ahead 1 8 := by decide +kernel

end Sample

theorem ahead_loses_nothing : ∃ p, Sample.skipped.nextPosition = some p ∧ p < 1 := by
  have hcfg : (Sample.ahead.cfg 1).entries ≠ [] := by decide +kernel
  have hsize : (decodeConfig 1 (Sample.ahead.cfg 1)).map TapeConfig.pageSize = .ok 1 := by decide +kernel
  have hnodup : ((Sample.ahead.tape 1).rows.map Prod.snd).Nodup := by decide +kernel
  have hbeyond : BeyondCursor none (8, 1) := by decide
  cases hdec : decodeConfig 1 (Sample.ahead.cfg 1) with
  | error e => rw [hdec] at hsize; cases hsize
  | ok cfg =>
      have hsize : cfg.pageSize = 1 := by simpa [hdec, Except.map] using hsize
      obtain ⟨p, hp, -, hlt⟩ := stopping_loses_nothing hcfg hdec hsize.ge Sample.ahead_read (.inl rfl) (8, 1)
        Sample.ahead_row hbeyond Sample.ahead_showable
      exact ⟨p, hp, hlt hnodup⟩

/-- A page of scored entries is empty while others follow. -/
theorem skipped_before_showable :
    ∃ page s', (readTape 1 none).eval exec Sample.ahead = (.ok page, s') ∧ page.state = .empty ∧
      ∃ row ∈ (Sample.ahead.tape 1).rows, BeyondCursor none row ∧ Showable Sample.ahead 1 row.1 := by
  have hbeyond : BeyondCursor none (8, 1) := by decide
  exact ⟨Sample.skipped, _, Sample.ahead_read, rfl, (8, 1), Sample.ahead_row, hbeyond, Sample.ahead_showable⟩

end

end TapeService
