import TreeRemoval.Proofs.Deletion.Looking
import TreeRemoval.Proofs.Deletion.Tour
import TreeRemoval.Proofs.Emptying

/-! # Truthful answers

The deletion of a tree succeeds when nothing has failed. A node that a walk comes to is then gone,
whatever tells links from other nodes, so that the answer is the truth about the root.
-/

namespace TreeRemoval

open World Deletion

namespace World

/-- The deleter of a world when links are told by a predicate. -/
def deleterTelling (isSymlink : Path → EStateM Fault World Bool) (collectsGarbage : Bool)
    (cap : Nat) (h : 0 < cap) : Deleter World :=
  { deleter collectsGarbage cap h with isSymlink }

/-- Whenever the predicate is asked, it leaves the world alone. -/
def Harmless (w : World) (isSymlink : Path → EStateM Fault World Bool) : Prop :=
  ∀ p w', w.Follows w' → Ends (isSymlink p) w' (fun _ w'' => w'.Still w'') fun _ w'' => w'.Still w''

theorem Follows.harmless {w w' : World} {isSymlink : Path → EStateM Fault World Bool}
    (h : w.Follows w') (hs : w.Harmless isSymlink) : w'.Harmless isSymlink :=
  fun p w'' hw => hs p w'' (h.trans hw)

theorem harmless_look {w : World} (hc : w.Calm) :
    w.Harmless (SymlinkTest.run environment .look) := fun p w' hw =>
  (keeps_looking (hw.calm hc) .lstat p.text _).shows _ w' (.refl w')

end World

variable {w : World} {isSymlink : Path → EStateM Fault World Bool} {gc : Bool} {cap : Nat}
  {hcap : 0 < cap} {followSymlinks : Bool} {root : Path}

theorem listChildren_telling (p : Path) :
    (deleterTelling isSymlink gc cap hcap).listChildren p = (deleter gc cap hcap).listChildren p :=
  rfl

theorem leave_telling (includeRoot : Bool) (p : Path) (run : Run) :
    (deleterTelling isSymlink gc cap hcap).leave root includeRoot p run =
      (deleter gc cap hcap).leave root includeRoot p run := rfl

def Stages.settling (w : World) : Stages World where
  On _ p _ s := w.Follows s.state ∧ p.Proper ∧ p.isAbsolute = true
  Open _ p _ s := w.Follows s.state ∧ p.Proper ∧ p.isAbsolute = true ∧ '\x00' ∉ p.text.toList ∧
    LeadsToDirectory s.state.files p
  Ready p _ s := w.Follows s.state ∧ p.Proper ∧ p.isAbsolute = true
  Settled p run s := TreeRemoval.Settled w run s.state.files p
  Later := Walked
  Stopped run _ := run.failed.items ≠ []
  Broken _ _ := True

theorem settlingTour (hc : w.Calm) (hs : w.Harmless isSymlink) :
    Tour (deleterTelling isSymlink gc cap hcap) followSymlinks root true (.settling w) where
  refl run s := .of_advances (.refl s) run
  trans := .trans
  on_later := fun ⟨hw, hp⟩ hl => ⟨hw.trans hl.world, hp⟩
  settled_later := .walked
  settled_stopped := fun hne _ => Or.inl hne
  deep _ := trivial
  opening := by
    rintro - p run s ⟨hw, hp, ha⟩
    unfold Deleter.shouldFollow
    apply Ends.seq (ends_perform_keep (ends_isDirectory (hw.calm hc) hp ha)) fun _ _ _ => trivial
    rintro (_ | _) s₁ ⟨⟨hf, hfiles, hyes, -⟩, hl, -⟩
    · exact Ends.pure ⟨.of_advances (.of_world hf (le_of_eq hfiles) hl) run, hw.trans hf, hp, ha⟩
    obtain ⟨hnul, hdir⟩ := hyes rfl
    cases followSymlinks with
    | true =>
      exact Ends.pure ⟨.of_advances (.of_world hf (le_of_eq hfiles) hl) run, hw.trans hf, hp, ha,
        hnul, hfiles ▸ hdir⟩
    | false =>
      apply Ends.seq (ends_perform_keep (hs p s₁.state (hw.trans hf))) fun _ _ _ => trivial
      rintro link s₂ ⟨⟨hf₂, hfiles₂⟩, hl₂, -⟩
      have hfiles' := hfiles₂.trans hfiles
      have hwalked : Walked run s run s₂ :=
        .of_advances (.of_world (hf.trans hf₂) (le_of_eq hfiles') (hl₂.trans hl)) run
      cases link with
      | true => exact Ends.pure ⟨hwalked, hw.trans hwalked.world, hp, ha⟩
      | false => exact Ends.pure ⟨hwalked, hw.trans hwalked.world, hp, ha, hnul, hfiles' ▸ hdir⟩
  listing := by
    rintro - p run s ⟨hw, hp, ha, hnul, hdir⟩
    rw [listChildren_telling]
    apply (Deleter.ends_listChildren (hw.calm hc) hp ha hnul hdir).mono _ fun _ _ _ => trivial
    rintro r s₁ ⟨hadv, -, ⟨children, rfl, loc, -, -, hmem⟩ | ⟨rfl, -⟩ | ⟨rfl, hdeny⟩⟩
    · refine ⟨.of_advances hadv run, fun c hcm => ?_, fun run' s' hl _ => ?_⟩
      · obtain ⟨n, -, rfl⟩ := (hmem c).1 hcm
        exact ⟨hw.trans hadv.world, hp.child n, ha⟩
      · exact ⟨(hw.trans hadv.world).trans hl.world, hp, ha⟩
    · exact ⟨.of_advances hadv run, by simp, fun run' s' hl _ =>
        ⟨(hw.trans hadv.world).trans hl.world, hp, ha⟩⟩
    · exact ⟨.of_advances hadv run, Or.inr (Or.inr (hw.mayDeny hdeny))⟩
  leaving := by
    rintro p run s ⟨hw, hp, ha⟩
    rw [leave_telling]
    apply (Deleter.ends_leave (hw.calm hc) hp ha root true run).mono _ fun _ _ _ => trivial
    rintro r s₁ (⟨-, h, -⟩ | ⟨-, htouch, hbooked⟩)
    · cases h
    · exact ⟨⟨htouch.toAdvances, hbooked.failed, hbooked.interrupted⟩, hbooked.settled hw,
        hbooked.stopped⟩

theorem looking_telling_of {J : World → Prop} (hc : w.Calm) (hs : w.Harmless isSymlink)
    (hfollows : ∀ w', J w' → w.Follows w') (hJ : ∀ {w' w''}, J w' → w'.Still w'' → J w'') :
    (deleterTelling isSymlink gc cap hcap).Looking J where
  toLooking := environment_looking (fun _ hw => (hfollows _ hw).calm hc) hJ
  isSymlink p := fun w' hw =>
    (hs p w' (hfollows w' hw)).mono (fun _ _ h => hJ hw h) fun _ _ h => hJ hw h
  now w' hw := hJ hw ⟨follows_now w', rfl⟩

theorem looking_telling (hc : w.Calm) (hs : w.Harmless isSymlink) :
    (deleterTelling isSymlink gc cap hcap).Looking w.Still :=
  looking_telling_of hc hs (fun _ hw => hw.1) .trans

/-- When a deletion below a root succeeds, the root is missing. -/
theorem ends_deleteBelow_settled {s : Session World} (hc : w.Calm) (hh : w.Honest)
    (hs : w.Harmless isSymlink) (hp : root.Proper) (ha : root.isAbsolute = true)
    (hw : w.Follows s.state) :
    Ends ((deleterTelling isSymlink gc cap hcap).deleteBelow followSymlinks root true) s
      (fun _ s' => w.Follows s'.state ∧ s'.state.files.Missing root) (fun _ _ => True) := by
  unfold Deleter.deleteBelow
  apply Ends.bind (Q := fun _ s' => w.Follows s'.state) (ends_reading (hw.trans (follows_now _)))
  rintro startTime s₁ hw₁
  apply Ends.bind (Q := fun _ s' => w.Follows s'.state) (ends_note hw₁)
  rintro - s₂ hw₂
  apply Ends.seq ((settlingTour hc hs).ends_walk ⟨hw₂, hp, ha⟩) fun _ _ _ => trivial
  rintro run s₃ ⟨hwalked, hsettled⟩
  have hw₃ := hw₂.trans hwalked.world
  apply Ends.seq ((looking_telling (hw₃.calm hc) (hw₃.harmless hs)).ends_finish root startTime run
    (.refl s₃.state)) fun _ _ _ => trivial
  rintro - s₄ ⟨⟨hw₄, hfiles₄⟩, hnone⟩
  refine Ends.pure ⟨hw₃.trans hw₄, hfiles₄ ▸ ?_⟩
  rcases hsettled with hne | hmissing | hdeny
  · exact absurd hnone hne
  · exact hmissing
  · exact absurd hdeny (hh.not_mayDeny _)

/-- The deletion of a tree tells the truth: if it says yes, then the root was there and is gone; if
it says no, then the root was missing and nothing has changed. -/
theorem deleteTree_truthful (hc : w.Calm) (hh : w.Honest) (hs : w.Harmless isSymlink)
    {root : String} (ha : (Path.ofText root).isAbsolute = true)
    (followSymlinks collectsGarbage : Bool) (cap : Nat) (hcap : 0 < cap) (log : List Log.Entry)
    (acts : List Act) :
    Ends ((deleterTelling isSymlink collectsGarbage cap hcap).deleteTree followSymlinks
      (.ofText root)) ⟨w, log, acts⟩
      (fun b s =>
        (b = true →
          (∃ status, w.files.lstat w.workingDirectory (Path.ofText root).text = .ok status) ∧
          ∃ e : Errno, e.isMissing = true ∧
            s.state.files.lstat w.workingDirectory (Path.ofText root).text = .error e) ∧
        (b = false →
          (∃ e : Errno, e.isMissing = true ∧
            w.files.lstat w.workingDirectory (Path.ofText root).text = .error e) ∧
          s.state.files = w.files))
      (fun _ _ => True) := by
  have hp := Path.proper_ofText root
  unfold Deleter.deleteTree
  apply Ends.seq (ends_perform_keep (ends_look? hc hp ha)) fun _ _ _ => trivial
  rintro (_ | status) s₁ ⟨⟨hf, hfiles, hsome, hnone⟩, -⟩
  · apply Ends.bind (Q := fun _ s' => s'.state = s₁.state) (ends_note rfl)
    rintro - s₂ hs₂
    refine Ends.pure ⟨nofun, fun _ => ⟨?_, by rw [hs₂, hfiles]⟩⟩
    exact (FileSystem.missing_iff_lstat hp ha _).1 ((hnone rfl).resolve_right (hh.not_mayDeny _))
  · apply Ends.seq (ends_deleteBelow_settled hc hh hs hp ha hf) fun _ _ _ => trivial
    rintro run s₂ ⟨hw₂, hmissing⟩
    refine Ends.pure ⟨fun _ => ⟨⟨status, ?_⟩, ?_⟩, nofun⟩
    · exact (FileSystem.lstat_eq_ok_iff hp ha).2 (hsome status rfl).2
    · exact (FileSystem.missing_iff_lstat hp ha _).1 hmissing

/-- A file whose removal is reported as a failure although it is done. -/
def World.belated : World :=
  .make [.leaf (.ofText "/w/a") .file 0] "/" none
    [{ call := .unlink, moment := .after, disruption := some (.errno .eacces) }] (.ofList [])

theorem deleteTree_truthful_belated :
    World.belated.Calm ∧ World.belated.Honest ∧
      World.belated.Harmless (SymlinkTest.run environment .never) ∧
      (Path.ofText "/w").isAbsolute = true ∧
      ∃ s, (deleterTelling (SymlinkTest.run environment .never) false 1 Nat.one_pos).deleteTree
          false (.ofText "/w") ⟨World.belated, [], []⟩ = .ok true s ∧
        (∃ status, World.belated.files.lstat "/" "/w" = .ok status) ∧
        ∃ e : Errno, e.isMissing = true ∧ s.state.files.lstat "/" "/w" = .error e := by
  have hc : World.belated.Calm := by
    intro e he
    change e ∈ [_] at he
    rw [List.mem_singleton.1 he]
  have hh : World.belated.Honest := by
    intro e he errno hd
    change e ∈ [_] at he
    rw [List.mem_singleton.1 he] at hd
    cases hd
    rfl
  have hs : World.belated.Harmless (SymlinkTest.run environment .never) :=
    fun _ w' _ => Ends.pure (.refl w')
  have ha : (Path.ofText "/w").isAbsolute = true := by decide
  have hrun : ((deleterTelling (SymlinkTest.run environment .never) false 1 Nat.one_pos).deleteTree
      false (.ofText "/w")).run' ⟨World.belated, [], []⟩ = some true := by decide +kernel
  obtain ⟨s, hm⟩ := exists_of_run' hrun
  have h := (deleteTree_truthful hc hh hs ha false false 1 Nat.one_pos [] []).ok hm
  exact ⟨hc, hh, hs, ha, s, hm, h.1 rfl⟩

end TreeRemoval
