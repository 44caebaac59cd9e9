import TapeService.Lemmas.Generation
import TapeService.Model.Service

/-!
# Rebuilding

A full generation computes the configured tape: the documents that the config selects and the user has
not scored, in the configured order, whatever the tape was before.
-/

namespace TapeService

open Interleaving Interleaving.Program Python Redis

section
variable [DatetimeLib]

/-- `d` may stand before `d'`. -/
def TapeConfig.Before (cfg : TapeConfig) (d d' : Document) : Prop :=
  if cfg.ordering = "desc" then d'.published ≤ d.published else d.published ≤ d'.published

/-- The documents that the tape of the user is configured to hold, in order. -/
structure Configured (s : State) (userId : Int) (cfg : TapeConfig) (docs : List Document) : Prop where
  mem : ∀ d, d ∈ docs ↔ d ∈ s.db.documents ∧ (s.view userId).Selects userId cfg d
  once : docs.Nodup
  sorted : docs.Pairwise cfg.Before

end

/-- The documents at the positions from 0 on. -/
def listed (docs : List Document) : List (Int × Int) := docs.zipIdx.map fun x => (x.1.id, (x.2 : Int))

namespace Rebuilding

theorem numbered_ids {docs : List Document} : numbered (docs.map (·.id)) 0 = listed docs := by
  have h : numbered (docs.map (·.id)) ((0 : Nat) : Int) = _ := numbered_eq_zipIdx
  rw [listed]
  exact h.trans (by rw [List.zipIdx_map, List.map_map]; rfl)

section
variable [DatetimeLib] {s : State} {userId : Int} {cfg : TapeConfig} {docs : List Document}

theorem exists_configured (hids : (s.db.documents.map (·.id)).Nodup) :
    ∃ docs, (s.view userId).candidates userId cfg = docs.map (·.id) ∧ Configured s userId cfg docs := by
  let rows := s.db.candidateRows userId ((s.sourceSet userId).insertionSort (· ≤ ·))
    (cfg.dateFrom.map DatetimeLib.timestamptz) (cfg.dateTo.map DatetimeLib.timestamptz)
  have hmem : ∀ d, d ∈ rows ↔ d ∈ s.db.documents ∧ (s.view userId).Selects userId cfg d :=
    fun d => View.mem_candidateRows (s.view userId) userId cfg
  have hnodup : rows.Nodup := (List.Nodup.of_map _ hids).filter _
  have hconf : ∀ docs : List Document, docs.Perm rows → docs.Pairwise cfg.Before → Configured s userId cfg docs :=
    fun docs hp hs => ⟨fun d => hp.mem_iff.trans (hmem d), hp.nodup_iff.mpr hnodup, hs⟩
  by_cases hdesc : cfg.ordering = "desc"
  · refine ⟨rows.insertionSort fun a b => b.published ≤ a.published, ?_, hconf _ (List.perm_insertionSort _ _) ?_⟩
    · simp [View.candidates, Platform.candidates, hdesc, rows]
    · have := List.pairwise_insertionSort (fun a b : Document => b.published ≤ a.published) rows
      exact this.imp fun h => (if_pos hdesc).mpr h
  · refine ⟨rows.insertionSort fun a b => a.published ≤ b.published, ?_, hconf _ (List.perm_insertionSort _ _) ?_⟩
    · simp [View.candidates, Platform.candidates, hdesc, rows]
    · have := List.pairwise_insertionSort (fun a b : Document => a.published ≤ b.published) rows
      exact this.imp fun h => (if_neg hdesc).mpr h

theorem ids_nodup (h : Configured s userId cfg docs) (hids : (s.db.documents.map (·.id)).Nodup) :
    (docs.map (·.id)).Nodup :=
  h.once.map_on fun _ hd _ hd' he => List.inj_on_of_nodup_map hids ((h.mem _).mp hd).1 ((h.mem _).mp hd').1 he

/-- What is there before a full generation does not count. -/
theorem full_eval {t : String} (hcfg : (s.cfg userId).entries ≠ [])
    (hdec : decodeConfig userId (s.cfg userId) = .ok cfg)
    (hsources : s.sourceSet userId ≠ []) (hlock : s.lock userId = none)
    (hdocs : (s.view userId).candidates userId cfg = docs.map (·.id)) (hids : (docs.map (·.id)).Nodup) :
    ∃ s', (generateForUser t userId true).eval exec s = (.ok (.full, docs.length), s') ∧
      (s'.tape userId).rows = listed docs ∧ (s'.cfg userId).get "dirty" = some "0" ∧
      ((generateForUser t userId true).calls exec s).filterMap (Call.entryAdded? userId) =
        (listed docs).map Prod.swap := by
  have hoffered : (s.view userId).offered userId true cfg = docs.map (·.id) := by
    simp [View.offered, View.base, hdocs]
  have hnew : (numbered (docs.map (·.id)) 0).filter (·.1 ∉ (ZSet.empty : Tape)) = listed docs := by
    rw [← numbered_ids]
    exact List.filter_eq_self.mpr fun x _ => decide_eq_true (ZSet.not_mem_empty x.1)
  have happended : (s.view userId).appended userId true cfg = (listed docs).map Prod.swap := by
    have h : (s.view userId).appended userId true cfg =
        appendedPairs (docs.map (·.id)) ((ZSet.empty : Tape).replies (docs.map (·.id)) 0) 0 := by
      rw [← hoffered]
      rfl
    rw [h, appendedPairs_replies hids, hnew]
  have htape : ((s.view userId).outcome userId true cfg).tape = (ZSet.empty : Tape).zaddAll (docs.map (·.id)) 0 := by
    rw [← hoffered]
    rfl
  have hyields : (aspect userId).Yields (generateForUser t userId true) (s.view userId) _ _ _ :=
    generateForUser_yields ⟨hcfg, hdec, hsources, hlock⟩
  obtain ⟨s', heval, hview, hnotes⟩ := hyields s rfl
  have hview : s'.view userId = (s.view userId).outcome userId true cfg := hview
  refine ⟨s', ?_, ?_, ?_, hnotes.trans happended⟩
  · rw [happended] at heval
    simpa [listed] using heval
  · rw [← State.view_tape, hview, htape, ZSet.rows_zaddAll (by simp) hids, hnew]
    rfl
  · rw [← State.view_cfg, hview]
    exact (Hash.get_hset_dirty "0").trans (if_pos rfl)

end

end Rebuilding

/-! ## The property -/

section
variable [DatetimeLib]

/-- A full generation returns and leaves the configured documents at the positions from 0 on, with the dirty
flag cleared and one frame for each entry; for another previous tape it leaves the same. -/
theorem rebuild_computes_tape {s : State} {userId : Int} {cfg : TapeConfig} {t : String}
    (hcfg : (s.cfg userId).entries ≠ []) (hdec : decodeConfig userId (s.cfg userId) = .ok cfg)
    (hsources : s.sourceSet userId ≠ []) (hlock : s.lock userId = none)
    (hids : (s.db.documents.map (·.id)).Nodup) :
    ∃ docs s', Configured s userId cfg docs ∧
      (generateForUser t userId true).eval exec s = (.ok (.full, docs.length), s') ∧
      (s'.tape userId).rows = listed docs ∧ (s'.cfg userId).get "dirty" = some "0" ∧
      ((generateForUser t userId true).calls exec s).filterMap (Call.entryAdded? userId) =
        (listed docs).map Prod.swap ∧
      ∀ (s₂ : State) (t₂ : String), s₂.cfg userId = s.cfg userId → s₂.sourceSet userId = s.sourceSet userId →
        s₂.lock userId = none → s₂.db = s.db →
        ∃ s₂', (generateForUser t₂ userId true).eval exec s₂ = (.ok (.full, docs.length), s₂') ∧
          (s₂'.tape userId).rows = listed docs := by
  obtain ⟨docs, hdocs, hconf⟩ := @Rebuilding.exists_configured _ s userId cfg hids
  have hnodup := Rebuilding.ids_nodup hconf hids
  obtain ⟨s', heval, hrows, hflag, hframes⟩ :=
    @Rebuilding.full_eval _ s userId cfg docs t hcfg hdec hsources hlock hdocs hnodup
  refine ⟨docs, s', hconf, heval, hrows, hflag, hframes, fun s₂ t₂ hcfg₂ hsources₂ hlock₂ hdb₂ => ?_⟩
  have hdocs₂ : (s₂.view userId).candidates userId cfg = docs.map (·.id) := by
    rw [← hdocs]
    simp only [View.candidates, State.view_db, State.view_sources, hdb₂, hsources₂]
  obtain ⟨s₂', heval₂, hrows₂, -⟩ := @Rebuilding.full_eval _ s₂ userId cfg docs t₂ (hcfg₂ ▸ hcfg) (hcfg₂ ▸ hdec)
    (hsources₂ ▸ hsources) hlock₂ hdocs₂ hnodup
  exact ⟨s₂', heval₂, hrows₂⟩

end

section
open scoped Python.Utc

namespace Sample

/-- A tape that is in order, before the user scores an article elsewhere and asks for the newest first, from the
second day on. -/
def outdated : State :=
  ((start [article 6, article 7, article 8, article 9]).play (build ++
    .env (.insertScore
      { score := ⟨1, none⟩, comment := none, documentId := some 8, userId := some 1, roleId := some 1 }) ::
    .start (.writeConfig 1 { update .desc [1] with dateFrom := some (7 : Int) }) :: runs 2 9)).world.state

end Sample

theorem outdated_rebuilt :
    ∃ cfg docs s', Configured Sample.outdated 1 cfg docs ∧
      (generateForUser (token 3) 1 true).eval exec Sample.outdated = (.ok (.full, docs.length), s') ∧
      (s'.tape 1).rows = listed docs ∧ listed docs = [(9, 0), (7, 1)] := by
  have hcfg : (Sample.outdated.cfg 1).entries ≠ [] := by decide +kernel
  have hsources : Sample.outdated.sourceSet 1 ≠ [] := by decide +kernel
  have hlock : Sample.outdated.lock 1 = none := by decide +kernel
  have hids : (Sample.outdated.db.documents.map (·.id)).Nodup := by decide +kernel
  have hsize : (decodeConfig 1 (Sample.outdated.cfg 1)).map TapeConfig.pageSize = .ok 20 := by decide +kernel
  cases hdec : decodeConfig 1 (Sample.outdated.cfg 1) with
  | error e => rw [hdec] at hsize; cases hsize
  | ok cfg =>
      obtain ⟨docs, s', hconf, heval, hrows, -⟩ :=
        rebuild_computes_tape (t := token 3) hcfg hdec hsources hlock hids
      have htape :
          (((generateForUser (token 3) 1 true).eval exec Sample.outdated).2.tape 1).rows = [(9, 0), (7, 1)] := by
        decide +kernel
      rw [heval] at htape
      exact ⟨cfg, docs, s', hconf, heval, hrows, hrows ▸ htape⟩

end

end TapeService
