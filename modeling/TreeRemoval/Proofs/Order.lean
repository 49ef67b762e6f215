import TreeRemoval.Proofs.Deletion.Parallel
import TreeRemoval.Proofs.World.Rearrangement

/-! # The order of entries never matters

Whatever the order in which directories hold their entries, a deletion visits them by name. So two
runs on files that differ in this order alone do the same, say the same and end the same, whatever
faults, cancellations and edits others bring about.
-/

namespace TreeRemoval

open World

variable {isSymlink : Path → EStateM Fault (Traced World) Bool} {gc : Bool} {cap : Nat}
  {hcap : 0 < cap}

def World.tracedDeleter (isSymlink : Path → EStateM Fault (Traced World) Bool)
    (collectsGarbage : Bool) (cap : Nat) (h : 0 < cap) : Deleter (Traced World) where
  environment := environment.traced pauseText
  now := Traced.reading now
  isSymlink := isSymlink
  collectsGarbage := collectsGarbage
  maxReported := cap
  maxReported_pos := h

/-- The predicate for links does not depend on the order of entries. -/
def World.Unordered (isSymlink : Path → EStateM Fault (Traced World) Bool) : Prop :=
  ∀ p, Alike TracedAlike (fun _ => TracedAlike) (isSymlink p) (isSymlink p)

theorem World.unordered_symlinkTest (test : SymlinkTest) :
    Unordered (SymlinkTest.run (environment.traced pauseText) test) :=
  alike_symlinkTest test

theorem World.traced_attemptsLike (hs : Unordered isSymlink) (p : Path) :
    (tracedDeleter isSymlink gc cap hcap).AttemptsLike TracedAlike (fun _ => TracedAlike)
      (tracedDeleter isSymlink gc cap hcap) p where
  looksLike :=
    { looks := traced_looksLike
      isSymlink := hs
      now := fun _ _ h => ⟨(now_rearranged h.state).1, (now_rearranged h.state).2, h.trace⟩
      maxReported := rfl }
  rmdir := Traced.alike_always (alike_changing fun h => h.rmdir)
  unlink := Traced.alike_always (alike_changing fun h => h.unlink)
  pause := Traced.alike_always (alike_looking fun _ => rfl)
  collect := Traced.alike_always (alike_looking fun _ => rfl)
  collectsGarbage := rfl

/-- Deletions of a tree, and emptyings of a target, in worlds that differ in the order of entries
alone have the same result or fail with the same report, trace and log, and the worlds differ in the
order of entries alone afterwards. -/
theorem deletion_unordered {w w' : World} (h : w.Rearranges w') (hs : Unordered isSymlink)
    (followSymlinks collectsGarbage : Bool) (cap : Nat) (hcap : 0 < cap) (path : String)
    (trace : List TraceEntry) (log : List Log.Entry) (acts : List Act) :
    AlikeAt (Session.Alike TracedAlike) (fun _ => Session.Alike TracedAlike)
        ((tracedDeleter isSymlink collectsGarbage cap hcap).deleteTree followSymlinks (.ofText path))
        ((tracedDeleter isSymlink collectsGarbage cap hcap).deleteTree followSymlinks (.ofText path))
        ⟨⟨w, trace⟩, log, acts⟩ ⟨⟨w', trace⟩, log, acts⟩ ∧
      AlikeAt (Session.Alike TracedAlike) (fun _ => Session.Alike TracedAlike)
        ((tracedDeleter isSymlink collectsGarbage cap hcap).ensureEmpty followSymlinks (.ofText path))
        ((tracedDeleter isSymlink collectsGarbage cap hcap).ensureEmpty followSymlinks (.ofText path))
        ⟨⟨w, trace⟩, log, acts⟩ ⟨⟨w', trace⟩, log, acts⟩ := by
  have hattempts : ∀ p, (tracedDeleter isSymlink collectsGarbage cap hcap).AttemptsLike TracedAlike
      (fun _ => TracedAlike) (tracedDeleter isSymlink collectsGarbage cap hcap) p :=
    traced_attemptsLike hs
  have hmkdir : ∀ t, Alike TracedAlike (fun _ => TracedAlike)
      ((environment.traced pauseText).mkdir t) ((environment.traced pauseText).mkdir t) :=
    fun t => Traced.alike_onSuccess (alike_changing fun h => h.mkdir)
  have hstart : Session.Alike TracedAlike ⟨⟨w, trace⟩, log, acts⟩ ⟨⟨w', trace⟩, log, acts⟩ :=
    ⟨⟨h, rfl⟩, rfl, rfl⟩
  constructor
  · exact (Deleter.matches_deleteTree_of_alike hattempts inStep_alike hstart followSymlinks _).mono
      (fun _ _ _ _ h => h) fun _ _ _ _ h => ⟨h.1, h.2.1⟩
  · exact Deleter.matches_ensureEmpty_of_alike hattempts hmkdir inStep_alike hstart followSymlinks _

/-- A directory with two entries, to which another one is added as soon as the first is removed. -/
def World.crowded : World :=
  .make [.leaf (.ofText "/w/a") .file 0, .leaf (.ofText "/w/b") .file 0] "/" (some 1)
    [{ call := .unlink, moment := .after, times := some 1,
       edits := [.leaf (.ofText "/w/c") .file 5] }] (.ofList [1, 2])

def World.crowdedAgain : World :=
  { World.crowded with files := World.crowded.files.put (.ofText "/w/a") (.file 0) (.file 0) }

theorem deletion_unordered_crowded :
    World.crowded.files.list "/" "/w" ≠ World.crowdedAgain.files.list "/" "/w" ∧
      World.crowded.Rearranges World.crowdedAgain ∧
      Unordered (SymlinkTest.run (environment.traced pauseText) .look) ∧
      AlikeAt (Session.Alike TracedAlike) (fun _ => Session.Alike TracedAlike)
        ((tracedDeleter (SymlinkTest.run (environment.traced pauseText) .look) false 1
          Nat.one_pos).deleteTree false (.ofText "/w"))
        ((tracedDeleter (SymlinkTest.run (environment.traced pauseText) .look) false 1
          Nat.one_pos).deleteTree false (.ofText "/w"))
        ⟨⟨World.crowded, []⟩, [], []⟩ ⟨⟨World.crowdedAgain, []⟩, [], []⟩ := by
  have hlists : World.crowded.files.list "/" "/w" ≠ World.crowdedAgain.files.list "/" "/w" := by
    decide
  have hfiles : World.crowded.files.Rearranges World.crowdedAgain.files :=
    .put_self (by decide) rfl _
  have hworlds : World.crowded.Rearranges World.crowdedAgain := ⟨hfiles, rfl, rfl, rfl, rfl⟩
  have hs := unordered_symlinkTest .look
  exact ⟨hlists, hworlds, hs, (deletion_unordered hworlds hs false false 1 Nat.one_pos "/w" [] []
    []).1⟩

end TreeRemoval
