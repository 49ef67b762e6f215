import TreeRemoval.Proofs.Deletion.Amid
import TreeRemoval.Proofs.Deletion.Tour

/-! # Replacements

A deletion while others make, replace and remove nodes as they like. If it succeeds, nothing was at
the root at some moment, or the root led to no directory just when it was listed: a listing that
finds no directory is taken for one that finds nothing, whatever else is there.
-/

namespace TreeRemoval

open World Deletion Chronicle

variable {others : Interference} {gc : Bool} {cap : Nat} {hcap : 0 < cap} {followSymlinks : Bool}
  {root p : Path}

namespace Incident

variable (i : Incident World)

def Lacks (p : Path) : Prop :=
  ∃ e : Errno, e.isMissing = true ∧
    i.state.files.lstat i.state.workingDirectory p.text = .error e

def ListsNone (p : Path) : Prop :=
  ∃ e, i.call = some ⟨.list, p.text, some (.system e)⟩ ∧ e.errno.isMissing = true

end Incident

namespace Chronicle

variable {c c' : Chronicle World}

/-- Nothing was at the path at some moment, or it led to no directory when it was listed. -/
def Vanished (c : Chronicle World) (p : Path) : Prop :=
  ∃ i ∈ c.past, i.Lacks p ∨ i.ListsNone p ∧ ¬ LeadsToDirectory i.state.files p

theorem Vanished.onward (h : c.Vanished p) (ho : Onward (fun _ _ => True) c c') :
    c'.Vanished p := by
  obtain ⟨i, hi, hv⟩ := h
  obtain ⟨_, hg⟩ := ho
  exact ⟨i, hg.mem_past hi, hv⟩

theorem vanished_of_missing (hp : p.Proper) (ha : p.isAbsolute = true) (ht : c.Told p.text)
    (hm : c.state.files.Missing p) : c.Vanished p := by
  obtain ⟨_, ⟨i, hi, -, hfiles⟩, -⟩ := ht
  refine ⟨i, hi, Or.inl ?_⟩
  rw [← hfiles] at hm
  exact (FileSystem.missing_iff_lstat hp ha _).1 hm

theorem vanished_of_list (hp : p.Proper) (ha : p.isAbsolute = true) {e : Errno} {cwd : String}
    (hm : e.isMissing = true) (ht : c.Tells ⟨.list, p.text, some (.system ⟨e, some p.text⟩)⟩)
    (he : c.state.files.list cwd p.text = .error e) : c.Vanished p := by
  obtain ⟨i, hi, hcall, hfiles⟩ := ht
  refine ⟨i, hi, Or.inr ⟨⟨_, hcall, hm⟩, ?_⟩⟩
  rw [hfiles]
  exact not_leadsToDirectory_of_list hp ha cwd he

theorem Clears.vanished (hp : p.Proper) (ha : p.isAbsolute = true)
    (h : Clears (fun _ _ => True) p c c') (ht : c'.Told p.text) : c'.Vanished p := by
  rcases h with ⟨c₁, time, -, hr, -⟩ | ⟨-, hm⟩
  · exact vanished_of_missing hp ha ht hr.missing
  · exact vanished_of_missing hp ha ht hm

theorem Clears.onward (h : Clears (fun _ _ => True) p c c') : Onward (fun _ _ => True) c c' := by
  rcases h with ⟨c₁, time, hg, -, hg'⟩ | ⟨hg, -⟩
  · exact onward_trans Interference.none.obeys_anything hg.onward hg'.onward
  · exact hg.onward

end Chronicle

def Stages.vanishing : Stages (Chronicle World) where
  On _ p _ s := s.state.state.Quiet ∧ p.Proper ∧ p.isAbsolute = true
  Open _ p _ s := s.state.state.Quiet ∧ p.Proper ∧ p.isAbsolute = true
  Ready p _ s := s.state.state.Quiet ∧ p.Proper ∧ p.isAbsolute = true
  Settled p run s := run.failed.items ≠ [] ∨ s.state.Vanished p
  Later run s run' s' := Onward (fun _ _ => True) s.state s'.state ∧
    (run.failed.items ≠ [] → run'.failed.items ≠ [])
  Stopped run _ := run.failed.items ≠ []
  Broken _ _ := True

theorem vanishingTour :
    Tour (chronicler others gc cap hcap) followSymlinks root true .vanishing where
  refl _ s := ⟨onward_refl others.obeys_anything s.state, id⟩
  trans h h' := ⟨onward_trans others.obeys_anything h.1 h'.1, h'.2 ∘ h.2⟩
  on_later := fun ⟨hq, hp⟩ hl => ⟨hl.1.quiet hq, hp⟩
  settled_later := fun hs hl => hs.imp hl.2 (·.onward hl.1)
  settled_stopped hne _ := Or.inl hne
  deep _ := trivial
  opening := by
    rintro - p run s ⟨hq, hp, ha⟩
    apply (Deleter.ends_shouldFollow_amid others.obeys_anything hq hp ha).mono _ fun _ _ _ => trivial
    rintro b s' ⟨-, c, hg, hg', -⟩
    have hl := onward_trans others.obeys_anything hg.onward hg'.onward
    refine ⟨⟨hl, id⟩, ?_⟩
    cases b <;> exact ⟨hl.quiet hq, hp, ha⟩
  listing := by
    rintro - p run s ⟨hq, hp, ha⟩
    apply (Deleter.ends_listChildren_amid others.obeys_anything hq hp ha).mono _ fun _ _ _ => trivial
    rintro r s' (⟨children, rfl, hg, hlisted⟩ | ⟨hg, -, e, htells, he, ⟨rfl, -⟩ | ⟨rfl, hm⟩⟩)
    · refine ⟨⟨hg.onward, id⟩, fun c hc => ?_, fun run' s'' hl _ => ?_⟩
      · obtain ⟨loc, -, -, hmem⟩ := hlisted
        obtain ⟨n, -, rfl⟩ := (hmem c).1 hc
        exact ⟨hg.world.quiet hq, hp.child n, ha⟩
      · exact ⟨hl.1.quiet (hg.world.quiet hq), hp, ha⟩
    · exact ⟨⟨hg.onward, id⟩, nofun, fun run' s'' hl _ => ⟨hl.1.quiet (hg.world.quiet hq), hp, ha⟩⟩
    · exact ⟨⟨hg.onward, id⟩, Or.inr (vanished_of_list hp ha hm htells he)⟩
  leaving := by
    rintro p run s ⟨hq, hp, ha⟩
    apply (Deleter.ends_leave_amid others.obeys_anything hq hp ha root run).mono _
      fun _ _ _ => trivial
    rintro r s' ⟨ht, ⟨hfailed, hgoes, hclears⟩ | ⟨hfailed, e, hg, -⟩⟩
    · refine ⟨⟨hclears.onward, fun hne => hfailed ▸ hne⟩, Or.inr (hclears.vanished hp ha ht), ?_⟩
      rw [hgoes]
      nofun
    · have hne : r.1.failed.items ≠ [] := by
        rw [hfailed]
        exact run.failed.items_insert_ne_nil _
      exact ⟨⟨hg.onward, fun _ => hne⟩, Or.inl hne, fun _ => hne⟩

/-- When the deletion of a tree amid others says yes, then nothing was at the root at some moment,
or the root was listed when it led to no directory. -/
theorem deleteTree_vanished {w : World} (hq : w.Quiet) {root : String}
    (ha : (Path.ofText root).isAbsolute = true) (others : Interference)
    (followSymlinks collectsGarbage : Bool) (cap : Nat) (hcap : 0 < cap) (log : List Log.Entry)
    (acts : List Act) :
    Ends ((World.chronicler others collectsGarbage cap hcap).deleteTree followSymlinks
      (.ofText root)) ⟨.start w, log, acts⟩
      (fun b s => b = true → ∃ i ∈ s.state.past, i.Lacks (.ofText root) ∨
        i.ListsNone (.ofText root) ∧ ¬ LeadsToDirectory i.state.files (.ofText root))
      (fun _ _ => True) := by
  have hp := Path.proper_ofText root
  have ho := others.obeys_anything
  have hlook := (ends_look? ho (c := .start w) hq hp ha).mono (fun _ _ h => And.intro h.1 h.2.2.2)
    fun _ _ h => h
  refine (Deleter.ends_deleteTree_amid (s := ⟨.start w, log, acts⟩) ho
    (Q := fun run s => s.state.state.Quiet ∧
      (run.failed.items ≠ [] ∨ s.state.Vanished (.ofText root)))
    (E := fun _ => True) hlook (fun h => h.1) fun s₁ hg => ?_).mono ?_ fun _ _ _ => trivial
  · have hq₁ := hg.world.quiet hq
    exact (vanishingTour.ends_walk ⟨hq₁, hp, ha⟩).mono (fun _ _ h => ⟨h.1.1.quiet hq₁, h.2⟩)
      fun _ _ h => h
  · rintro b s (⟨rfl, -⟩ | ⟨-, run, s₁, ⟨-, hsettled⟩, hempty, hg⟩) hb
    · cases hb
    · exact (hsettled.resolve_left fun hne => hne hempty).onward hg.onward

/-- Others put a file in place of a directory that is about to be listed. -/
def Interference.swap : Interference
  | 3 => [(Edit.apply · (.leaf (.ofText "/w") .file 0))]
  | _ => []

def World.lone : World := .make [.directory (.ofText "/w") 0] "/" none [] (.ofList [])

theorem deleteTree_vanished_swap :
    World.lone.Quiet ∧ (Path.ofText "/w").isAbsolute = true ∧
      ∃ s, (World.chronicler Interference.swap false 1 Nat.one_pos).deleteTree false (.ofText "/w")
          ⟨.start World.lone, [], []⟩ = .ok true s ∧
        ∃ i ∈ s.state.past, i.Lacks (.ofText "/w") ∨
          i.ListsNone (.ofText "/w") ∧ ¬ LeadsToDirectory i.state.files (.ofText "/w") := by
  have hq : World.lone.Quiet := by
    intro e he
    cases he
  have ha : (Path.ofText "/w").isAbsolute = true := by decide
  have hrun : ((World.chronicler Interference.swap false 1 Nat.one_pos).deleteTree false
      (.ofText "/w")).run' ⟨.start World.lone, [], []⟩ = some true := by decide +kernel
  obtain ⟨s, hm⟩ := exists_of_run' hrun
  exact ⟨hq, ha, s, hm,
    (deleteTree_vanished hq ha Interference.swap false false 1 Nat.one_pos [] []).ok hm rfl⟩

end TreeRemoval
