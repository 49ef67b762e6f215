import TreeRemoval.Proofs.FileSystem.Ground
import TreeRemoval.Proofs.Removal

/-! # Walks that keep their root

Without faults, a walk that keeps its root does below it what a walk of the whole tree does. It
leaves the root as an empty directory, and it counts nothing if it found one.
-/

namespace TreeRemoval

open World Deletion Visit

variable {w : World} {root : Path} {place : Location} {m : Float} {es : List (Name × Node)}
  {gc : Bool} {cap : Nat} {hcap : 0 < cap} {run : Run} {s : Session World}

abbrev Survey.belowRoot (root : Path) (es : List (Name × Node)) : Survey :=
  .ofEach root [] (Node.sortedEntries es) []

theorem Survey.failures_belowRoot (root : Path) (es : List (Name × Node)) :
    failures (belowRoot root es).visits = 0 :=
  failures_ofEach _ _ _ (ofEach_nil root [] (Node.sortedEntries es)).1

variable (hs : w.Site root place (.directory m es))

include hs

theorem World.Site.ends_walk_kept (hquiet : w.events = []) (hw : w.Follows s.state)
    (hf : s.state.files = w.files) :
    Ends ((deleter gc cap hcap).walk false root false) s
      (fun run s' => Reached w root place cap (Survey.belowRoot root es).visits run s')
      (fun _ _ => False) := by
  have hnone := Survey.failures_belowRoot root es
  have hevents : s.state.events = [] := by
    have hfresh := hw.events
    rw [hquiet] at hfresh
    exact List.map_eq_nil_iff.1 hfresh
  have hoff : Visit.Off [] [] := fun v hv => by cases hv
  have hb : (Node.directory m es).get? [] = some (.directory m es) := Node.get?_nil
  have hstart : Reached w root place cap [] (.start cap hcap) s := .start hw hf
  have hvisit : Ends
      ((deleter gc cap hcap).visit false root false maxDepth (root.descend []) (.start cap hcap)) s
      (fun r s' => Reached w root place cap (Survey.belowRoot root es).visits r.1 s')
      (fun _ _ => False) := by
    unfold maxDepth Deleter.visit
    apply Ends.bind (hstart.ends_opening hs hoff hb)
    rintro follows s₁ ⟨hr₁, hevents₁, hfollows⟩
    rw [hfollows.2 rfl]
    apply Ends.bind (hr₁.ends_listing hs hoff hb)
    rw [hevents₁, hevents]
    rintro _ s₂ ⟨hr₂, hevents₂, ⟨hrefused, -⟩ | ⟨-, rfl⟩⟩
    · cases hrefused
    have hfits : (root.descend []).Fits (FileSystem.maxPathBytes + 1) := by
      rw [Path.descend_nil]
      exact Path.fits_maxDepth hs.isAbsolute
    refine Ends.bind (Reached.ends_entries hs (fun hne hr => Reached.ends_visit hs (Or.inr hne) hr)
      hr₂ hcap hoff hb hfits) ?_
    rw [hevents₂]
    have hall : upTo cap (Survey.belowRoot root es).visits = (Survey.belowRoot root es).visits :=
      upTo_of_lt (by omega)
    rintro ⟨run, stop⟩ s₃ ⟨hr₃, hstop, -⟩
    change Reached w root place cap (upTo cap (Survey.belowRoot root es).visits) run s₃ at hr₃
    change stop = true ↔ cap ≤ failures (upTo cap (Survey.belowRoot root es).visits) at hstop
    rw [hall] at hr₃ hstop
    cases stop with
    | true =>
      have hfull := hstop.1 rfl
      omega
    | false =>
      rw [Path.descend_nil]
      exact Ends.of_ok (Deleter.leave_kept _ _ _ _) hr₃
  rw [Path.descend_nil] at hvisit
  unfold Deleter.walk
  exact Ends.bind hvisit fun r s' hr => Ends.pure hr

theorem World.Site.ends_deleteBelow_kept (hquiet : w.events = []) (hw : s.state = w) :
    Ends ((deleter gc cap hcap).deleteBelow false root false) s
      (Reached w root place cap (Survey.belowRoot root es).visits) (fun _ _ => False) := by
  unfold Deleter.deleteBelow
  apply Ends.bind (Q := fun _ s' => s'.state = w.now.2) (ends_reading (by rw [← hw]; rfl))
  intro startTime s₁ hw₁
  apply Ends.bind (Q := fun _ s' => s'.state = w.now.2) (ends_note hw₁)
  intro _ s₂ hw₂
  have hfollows : w.Follows s₂.state := by
    rw [hw₂]
    exact w.follows_now
  apply Ends.bind (hs.ends_walk_kept hquiet hfollows (by rw [hw₂]; rfl))
  intro run s₃ hr
  have hempty : run.failed.isEmpty = true := hr.isEmpty_iff.2 (Survey.failures_belowRoot root es)
  apply Ends.bind
    (Q := fun _ s' => Reached w root place cap (Survey.belowRoot root es).visits run s')
  · unfold Deleter.finish
    apply Ends.bind (Q := fun _ s' => s₃.state.Follows s'.state ∧ s'.state.files = s₃.state.files)
      (ends_reading ⟨s₃.state.follows_now, rfl⟩)
    rintro endTime s₄ ⟨hw₄, hf₄⟩
    rw [if_pos hempty]
    exact ends_note (hr.of_files hw₄ hf₄)
  · exact fun _ s₄ hr₄ => Ends.pure hr₄

variable (hr : Reached w root place cap (Survey.belowRoot root es).visits run s)

include hr

theorem Reached.isEmptyAt_of_kept : s.state.files.IsEmptyAt place := by
  have hroot : ⟨[], false⟩ ∉ (Survey.belowRoot root es).visits := by
    intro hv
    obtain ⟨e, -, he⟩ := Survey.prefix_of_mem_ofEach root [] _ _ _ hv
    simpa using he.length_le
  refine ⟨hr.formAt?_root hs hroot, fun n => ?_⟩
  have hnodup : (es.map (·.1)).Nodup := hs.nodup_entries Node.get?_nil
  have hsurvey : ∃ events, Survey.belowRoot root es =
      .ofEach root [] (Node.sortedEntries es) events := ⟨[], rfl⟩
  have hr' : Reached w root place cap ([] ++ (Survey.belowRoot root es).visits) run s := hr
  have hblocked := Reached.blocked_iff hs hsurvey hr' (fun v hv => by cases hv) Node.get?_nil hnodup
  by_contra hne
  have hstays := hblocked.2 ⟨n, by simpa using hne⟩
  rw [(Survey.ofEach_nil root [] (Node.sortedEntries es)).1] at hstays
  cases hstays

theorem Reached.resets_of_kept : w.files.Resets place s.state.files := by
  have hempty := hr.isEmptyAt_of_kept hs
  intro loc
  split
  · rename_i hp
    exact FileSystem.formAt?_above hempty.1 hp
  rename_i habove
  split
  · rename_i hp
    obtain ⟨rest, rfl⟩ := hp
    cases rest with
    | nil => simp at habove
    | cons n rest =>
      rw [FileSystem.formAt?_eq_none_iff, List.append_cons, FileSystem.get?_append, hempty.2 n]
      rfl
  · rename_i hp
    rw [hr.files.formAt?, if_neg]
    intro hgone
    obtain ⟨v, -, rfl⟩ := List.mem_map.1 hgone
    exact hp (List.prefix_append _ _)

theorem Reached.deleted_pos_iff_of_kept : 0 < run.deleted ↔ ¬ w.files.IsEmptyAt place := by
  have hform : w.files.formAt? place = some .directory := hs.formAt?_top
  rw [hr.deleted, List.length_pos_iff]
  constructor
  · rintro hne ⟨-, hnone⟩
    have hes : es = [] := List.isEmpty_iff.1 ((FileSystem.isEmpty_iff hs.there).2 hnone)
    exact hne (by simp [Survey.belowRoot, hes, Node.sortedEntries, Node.sortedEach, Survey.ofEach,
      gone])
  · intro hne hgone
    refine hne ⟨hform, fun n => ?_⟩
    have hafter := (hr.isEmptyAt_of_kept hs).2 n
    rw [hr.files.get?_eq_none_iff, hgone] at hafter
    simpa using hafter

end TreeRemoval
