import TapeService.Lemmas.Generation
import TapeService.Model.Service

/-!
# Top-ups

What a full generation has built may afterwards be brought up to date by incremental generations: they add
exactly the documents that a full generation would list now and move nothing.
-/

namespace TapeService

open Interleaving Interleaving.Program Python Redis

/-- The documents of the user among those that the insert of the row has scored. -/
def newlyScored (userId : Int) (db : Platform) (row : ScoreRow) : List Int :=
  match (db.insertScore row).1 with
  | .ok _ => if row.userId = some userId then row.documentId.toList else []
  | .error _ => []

section
variable [DatetimeLib]

/-- What happens one after the other from `s₀` on while the config and the source set of the user stay as they
are, with the documents that the user has scored and that are still to be removed from the tape. -/
inductive History (userId : Int) (s₀ : State) : State → List Int → Prop
  | start : History userId s₀ s₀ []
  | document {s s' : State} {pending : List Int} (d : Document) (h : History userId s₀ s pending)
      (hs : (Env.insertDocument d).apply s = some s') : History userId s₀ s' pending
  | score {s : State} {pending : List Int} (row : ScoreRow) (h : History userId s₀ s pending) :
      History userId s₀ { s with db := (s.db.insertScore row).2 } (pending ++ newlyScored userId s.db row)
  | removal {s s' : State} {pending : List Int} (documentId : Int) (h : History userId s₀ s pending)
      (hs : ((removeEntry userId documentId).eval exec s).2 = s') :
      History userId s₀ s' (pending.filter (· ≠ documentId))
  | topUp {s s' : State} {pending : List Int} (t : String) (h : History userId s₀ s pending)
      (hs : ((generateForUser t userId false).eval exec s).2 = s') : History userId s₀ s' pending
  /-- Anything that is not about the user. -/
  | other {s s' : State} {pending : List Int} (h : History userId s₀ s pending)
      (hs : s'.view userId = s.view userId) : History userId s₀ s' pending

end

namespace TopUps

theorem scored_insert {userId : Int} {db : Platform} {row : ScoreRow} {d : Int}
    (h : (db.insertScore row).2.Scored userId d) :
    db.Scored userId d ∨ d ∈ newlyScored userId db row := by
  obtain ⟨x, hx, hu, hd⟩ := h
  rcases db.insertScore_cases row with ⟨-, hscores, -⟩ | ⟨hok, hscores, -⟩
  · exact .inl ⟨x, hscores ▸ hx, hu, hd⟩
  · rw [hscores] at hx
    rcases List.mem_append.mp hx with hx | hx
    · exact .inl ⟨x, hx, hu, hd⟩
    · obtain rfl := List.mem_singleton.mp hx
      right
      simp only [newlyScored, hok]
      rw [if_pos hu]
      exact Option.mem_toList.mpr hd

section
variable [DatetimeLib] {userId : Int} {cfg : TapeConfig} {v : View} {pending : List Int} {s s' : State}

/-- The tape holds nothing but what the config asks for and what is still to be removed. -/
structure Kept (userId : Int) (cfg : TapeConfig) (v : View) (pending : List Int) : Prop where
  ready : v.Ready userId cfg
  ids : (v.db.documents.map (·.id)).Nodup
  tape : ∀ d ∈ v.tape, d ∈ v.candidates userId cfg ∨ d ∈ pending

/-! ## What a generation makes of the tape -/

/-- The entries that an incremental generation adds. -/
def new (v : View) (userId : Int) (cfg : TapeConfig) : List (Int × Int) :=
  (numbered (v.offered userId false cfg) (v.base false).start).filter (·.1 ∉ v.tape)

theorem rows_topUp (hids : (v.db.documents.map (·.id)).Nodup) :
    (v.outcome userId false cfg).tape.rows = v.tape.rows ++ new v userId cfg :=
  ZSet.rows_zaddAll (fun _ hx => View.below_base hx) ((v.candidates_nodup userId cfg hids).filter _)

theorem appended_topUp (hids : (v.db.documents.map (·.id)).Nodup) :
    v.appended userId false cfg = (new v userId cfg).map Prod.swap :=
  appendedPairs_replies ((v.candidates_nodup userId cfg hids).filter _)

theorem new_sublist : ((new v userId cfg).map Prod.fst).Sublist (v.candidates userId cfg) := by
  have h : ((new v userId cfg).map Prod.fst).Sublist (v.offered userId false cfg) := by
    rw [← @map_fst_numbered _ (v.offered userId false cfg) (v.base false).start]
    exact List.filter_sublist.map _
  exact h.trans List.filter_sublist

theorem new_of_mem (h : ∀ d ∈ v.candidates userId cfg, d ∈ v.tape) : new v userId cfg = [] := by
  refine List.filter_eq_nil_iff.mpr fun x hx => ?_
  have hx : x.1 ∈ v.offered userId false cfg := by simpa using List.mem_map_of_mem (f := Prod.fst) hx
  simpa using h x.1 (List.mem_of_mem_filter hx)

/-! ## The history -/

theorem kept_document {s s' : State} {d : Document} (h : Kept userId cfg (s.view userId) pending)
    (hs : (Env.insertDocument d).apply s = some s') : Kept userId cfg (s'.view userId) pending := by
  simp only [Env.apply] at hs
  split at hs
  · cases hs
  · rename_i hnew
    cases hs
    simp only [not_or] at hnew
    refine ⟨⟨h.ready.configured, h.ready.decoded, h.ready.sources, h.ready.lock⟩, ?_, fun x hx => ?_⟩
    · show ((s.db.documents ++ [d]).map (·.id)).Nodup
      rw [List.map_append]
      exact List.nodup_append.mpr ⟨h.ids, List.nodup_singleton _, fun a ha b hb he => by
        rw [List.map_singleton, List.mem_singleton] at hb
        exact hnew.1 (hb ▸ he ▸ ha)⟩
    · rcases h.tape x hx with hx | hx
      · obtain ⟨doc, hdoc, hsel, rfl⟩ := (View.mem_candidates _ _ _).mp hx
        exact .inl ((View.mem_candidates _ _ _).mpr ⟨doc, List.mem_append_left _ hdoc, hsel, rfl⟩)
      · exact .inr hx

theorem kept_score {s : State} {row : ScoreRow} (h : Kept userId cfg (s.view userId) pending) :
    Kept userId cfg (State.view { s with db := (s.db.insertScore row).2 } userId)
      (pending ++ newlyScored userId s.db row) := by
  refine ⟨⟨h.ready.configured, h.ready.decoded, h.ready.sources, h.ready.lock⟩, ?_, fun x hx => ?_⟩
  · show ((s.db.insertScore row).2.documents.map (·.id)).Nodup
    rw [Platform.insertScore_documents]
    exact h.ids
  · rcases h.tape x hx with hx | hx
    · obtain ⟨doc, hdoc, ⟨hsource, hfrom, hto, hscored⟩, rfl⟩ := (View.mem_candidates _ _ _).mp hx
      by_cases hnow : (s.db.insertScore row).2.Scored userId doc.id
      · exact .inr (List.mem_append_right _ ((scored_insert hnow).resolve_left hscored))
      · refine .inl ((View.mem_candidates _ _ _).mpr ⟨doc, ?_, ⟨hsource, hfrom, hto, hnow⟩, rfl⟩)
        exact (@Platform.insertScore_documents s.db row).symm ▸ hdoc
    · exact .inr (List.mem_append_left _ hx)

theorem kept_removal {s : State} {d : Int} (h : Kept userId cfg (s.view userId) pending) :
    Kept userId cfg (((removeEntry userId d).eval exec s).2.view userId) (pending.filter (· ≠ d)) := by
  have hview : ((removeEntry userId d).eval exec s).2.view userId =
      { s.view userId with tape := (s.tape userId).zrem d } := by
    have htape := @exec_zrem_tape s userId d
    exact congrArg (fun t => { s.view userId with tape := t }) htape
  rw [hview]
  refine ⟨⟨h.ready.configured, h.ready.decoded, h.ready.sources, h.ready.lock⟩, h.ids, fun x hx => ?_⟩
  obtain ⟨hx, hne⟩ := ZSet.mem_zrem.mp hx
  rcases h.tape x hx with hx | hx
  · exact .inl hx
  · exact .inr (List.mem_filter.mpr ⟨hx, by simpa using hne⟩)

theorem kept_topUp (h : Kept userId cfg v pending) : Kept userId cfg (v.outcome userId false cfg) pending := by
  refine ⟨h.ready.toppedUp, h.ids, fun x hx => ?_⟩
  rcases View.mem_topUp.mp hx with hx | hx
  · exact h.tape x hx
  · exact .inl hx

theorem kept_rebuilt (h : v.Ready userId cfg) (hids : (v.db.documents.map (·.id)).Nodup) :
    Kept userId { cfg with dirty := false } (v.outcome userId true cfg) [] :=
  ⟨h.rebuilt, hids, fun _ hx => .inl (View.mem_rebuilt.mp hx)⟩

theorem History.kept {s₀ : State} (h₀ : Kept userId cfg (s₀.view userId) []) {s : State}
    (h : History userId s₀ s pending) : Kept userId cfg (s.view userId) pending := by
  induction h with
  | start => exact h₀
  | document d h hs ih => exact kept_document ih hs
  | score row h ih => exact kept_score ih
  | removal d h hs ih => exact hs ▸ kept_removal ih
  | topUp t h hs ih =>
      subst hs
      rw [generateForUser_view, ih.ready.after]
      exact kept_topUp ih
  | other h hs ih => exact hs ▸ ih

theorem topUp_eval {t : String} (h : Kept userId cfg (s.view userId) pending) :
    ∃ s', (generateForUser t userId false).eval exec s =
        (.ok (.incremental, (new (s.view userId) userId cfg).length), s') ∧
      s'.view userId = (s.view userId).outcome userId false cfg := by
  have hyields : (aspect userId).Yields (generateForUser t userId false) (s.view userId) _ _ _ :=
    generateForUser_yields h.ready
  obtain ⟨s', heval, hview, -⟩ := hyields s rfl
  rw [appended_topUp h.ids, List.length_map] at heval
  exact ⟨s', heval, hview⟩

end

end TopUps

/-! ## The property -/

section
variable [DatetimeLib]

/-- After a full generation and a history in which every scored document has been removed, one more
incremental generation adds `new` at the end: what was missing of the candidates, in their order. Then the
tape has the documents that a full generation would list, and yet another incremental one changes nothing. -/
theorem topUp_agrees {userId : Int} {s₀ s₁ s : State} {t₀ t : String} {n : Nat}
    (hids : (s₀.db.documents.map (·.id)).Nodup)
    (hrebuilt : (generateForUser t₀ userId true).eval exec s₀ = (.ok (.full, n), s₁))
    (hhistory : History userId s₁ s []) :
    ∃ cfg new s', decodeConfig userId (s.cfg userId) = .ok cfg ∧
      (generateForUser t userId false).eval exec s = (.ok (.incremental, new.length), s') ∧
      (s'.tape userId).rows = (s.tape userId).rows ++ new ∧
      (∀ x ∈ (s.tape userId).rows, ∀ y ∈ new, x.2 < y.2) ∧ (new.Pairwise fun x y => x.2 < y.2) ∧
      (new.map Prod.fst).Sublist ((s.view userId).candidates userId cfg) ∧
      (∀ t₁ d, d ∈ s'.tape userId ↔ d ∈ ((generateForUser t₁ userId true).eval exec s').2.tape userId) ∧
      ∀ t₂, ∃ s'', (generateForUser t₂ userId false).eval exec s' = (.ok (.incremental, 0), s'') ∧
        s''.view userId = s'.view userId := by
  obtain ⟨cfg₀, hready⟩ := of_generated (by simp) hrebuilt
  have hview₁ : s₁.view userId = (s₀.view userId).outcome userId true cfg₀ := by
    rw [← hready.after, ← generateForUser_view s₀, hrebuilt]
  let cfg : TapeConfig := { cfg₀ with dirty := false }
  have hkept : TopUps.Kept userId cfg (s.view userId) [] :=
    TopUps.History.kept (hview₁ ▸ TopUps.kept_rebuilt hready hids) hhistory
  obtain ⟨s', heval, hview⟩ := TopUps.topUp_eval (t := t) hkept
  have hkept' : TopUps.Kept userId cfg (s'.view userId) [] := hview ▸ TopUps.kept_topUp hkept
  have hrows : (s'.tape userId).rows = (s.tape userId).rows ++ TopUps.new (s.view userId) userId cfg := by
    rw [← State.view_tape, hview]
    exact TopUps.rows_topUp hkept.ids
  have hall : ∀ d ∈ (s'.view userId).candidates userId cfg, d ∈ (s'.view userId).tape := by
    rw [hview]
    exact fun d hd => View.mem_topUp.mpr (.inr hd)
  refine ⟨cfg, TopUps.new (s.view userId) userId cfg, s', hkept.ready.decoded, heval, hrows, fun x hx y hy => ?_, ?_,
    TopUps.new_sublist, fun t₁ d => ?_, fun t₂ => ?_⟩
  · exact lt_of_lt_of_le (View.below_base hx) (le_of_mem_numbered (List.mem_of_mem_filter hy))
  · exact numbered_increasing.sublist List.filter_sublist
  · rw [← State.view_tape, ← State.view_tape, generateForUser_view, hkept'.ready.after, View.mem_rebuilt]
    exact ⟨fun hd => (hkept'.tape d hd).resolve_right (List.not_mem_nil), hall d⟩
  · obtain ⟨s'', heval'', hview''⟩ := TopUps.topUp_eval (t := t₂) hkept'
    rw [TopUps.new_of_mem hall] at heval''
    exact ⟨s'', heval'', hview''.trans (View.outcome_of_mem hall)⟩

end

section
open scoped Python.Utc

namespace Sample

/-- A config that has just been saved, the tape that is built for it, and what has come of them when an article
has come in and another one has been scored and removed. -/
def unbuilt : State :=
  ((start [article 6, article 7, article 8]).play (.start (.writeConfig 1 (update .asc [1])) :: runs 0 9)).world.state

def wholeTape : State := ((generateForUser (token 1) 1 true).eval exec unbuilt).2

def grown : State :=
  { wholeTape with db := { wholeTape.db with documents := wholeTape.db.documents ++ [article 9] } }

def verdict : ScoreRow :=
  { score := ⟨1, none⟩, comment := none, documentId := some 7, userId := some 1, roleId := some 1 }

def thinned : State := ((removeEntry 1 7).eval exec { grown with db := (grown.db.insertScore verdict).2 }).2

theorem thinned_history : History 1 wholeTape thinned [] := by
  have hnew : ¬ ((article 9).id ∈ wholeTape.db.documents.map (·.id) ∨
      (article 9).sourceid ∉ wholeTape.db.sources.map (·.1)) := by decide +kernel
  have hdocument : (Env.insertDocument (article 9)).apply wholeTape = some grown := by
    rw [Env.apply, if_neg hnew]
    rfl
  have hpending : (([] ++ newlyScored 1 grown.db verdict).filter (· ≠ 7)) = [] := by decide +kernel
  have h : History 1 wholeTape thinned (([] ++ newlyScored 1 grown.db verdict).filter (· ≠ 7)) :=
    .removal 7 (.score verdict (.document (article 9) .start hdocument)) rfl
  rwa [hpending] at h

end Sample

theorem thinned_topUp :
    ∃ new s', (generateForUser (token 2) 1 false).eval exec Sample.thinned = (.ok (.incremental, new.length), s') ∧
      (Sample.thinned.tape 1).rows ++ new = [(6, 0), (8, 2), (9, 3)] := by
  have hids : (Sample.unbuilt.db.documents.map (·.id)).Nodup := by decide +kernel
  have hrebuilt : (generateForUser (token 1) 1 true).eval exec Sample.unbuilt = (.ok (.full, 3), Sample.wholeTape) :=
    eval_eq_of_fst (by decide +kernel)
  obtain ⟨cfg, new, s', -, heval, hrows, -⟩ := topUp_agrees (t := token 2) hids hrebuilt Sample.thinned_history
  have htape : (((generateForUser (token 2) 1 false).eval exec Sample.thinned).2.tape 1).rows =
      [(6, 0), (8, 2), (9, 3)] := by
    decide +kernel
  rw [heval] at htape
  exact ⟨new, s', heval, hrows ▸ htape⟩

end

end TapeService
