import TreeRemoval.Proofs.FileSystem.Passage
import TreeRemoval.Proofs.Reports
import TreeRemoval.Proofs.Truth

/-! # The emptied directory stays

A walk that keeps its root passes over the text of the root alone, but with links followed it comes
to the same directory by other texts. None of them can be used to remove the directory, since each
leads through an entry of it.
-/

namespace TreeRemoval

open World Deletion

namespace World

variable {w : World} {target : Path} {place : Location} {names : List Name}

structure Retains (w : World) (place : Location) (w' : World) : Prop where
  follows : w.Follows w'
  le : w'.files ≤ w.files
  directory : w'.files.formAt? place = some .directory

theorem Retains.still {w' w'' : World} (h : w.Retains place w') (h' : w'.Still w'') :
    w.Retains place w'' :=
  ⟨h.follows.trans h'.1, h'.2 ▸ h.le, h'.2 ▸ h.directory⟩

/-- A removal at an extension of a path retains the directory that the path leads to. -/
theorem keeps_changing_descend (hc : w.Calm) (hp : target.Proper) {arrival : Arrival}
    (hr : w.files.resolve w.workingDirectory true target.text = .ok arrival) (hne : names ≠ [])
    {c : Call} {change : FileSystem → String → Option Float → Except Errno FileSystem}
    (hchange : ∀ {fs workingDirectory time fs'}, change fs workingDirectory time = .ok fs' →
      fs.Detaches workingDirectory time (target.descend names).text fs') :
    Keeps (w.Retains arrival.place) (call c (target.descend names).text (changing change)) := by
  intro w₁ h₁
  have hremoved : ∀ {w₂ : World}, w₁.Follows w₂ →
      change w₁.files w₁.workingDirectory w₁.changeTime = .ok w₂.files →
      w.Retains arrival.place w₂ := by
    intro w₂ hw₂ hm
    have hdetaches := hchange hm
    rw [h₁.follows.workingDirectory] at hdetaches
    have hdir := hdetaches.formAt?_of_descend hp h₁.le hr h₁.directory hne
    obtain ⟨parent, name, node, -, -, -, hfiles⟩ := hdetaches
    refine ⟨h₁.follows.trans hw₂, ?_, hdir⟩
    rw [hfiles]
    exact le_trans (FileSystem.removeEntry_le _ _ _ _) h₁.le
  apply (ends_changing (h₁.follows.calm hc) change).mono
  · rintro - w₂ ⟨hw₂, -, hm⟩
    exact hremoved hw₂ hm
  · rintro f w₂ ⟨hw₂, ⟨hsame, -⟩ | ⟨hm, -⟩⟩
    · exact h₁.still ⟨hw₂, hsame⟩
    · exact hremoved hw₂ hm

end World

namespace Deleter

variable {w : World} {isSymlink : Path → EStateM Fault World Bool} {gc : Bool} {cap : Nat}
  {hcap : 0 < cap} {target : Path} {s : Session World} {arrival : Arrival}

section

variable (hc : w.Calm) (hs : w.Harmless isSymlink) (hp : target.Proper)
  (hr : w.files.resolve w.workingDirectory true target.text = .ok arrival)

include hc hs

theorem looking_retains {place : Location} :
    (deleterTelling isSymlink gc cap hcap).Looking (w.Retains place) :=
  looking_telling_of hc hs (fun _ h => h.follows) .still

include hp hr

theorem attempting_retains {names : List Name} (hne : names ≠ []) :
    (deleterTelling isSymlink gc cap hcap).Attempting (w.Retains arrival.place)
      (target.descend names) where
  looking := looking_retains hc hs
  rmdir := keeps_changing_descend hc hp hr hne FileSystem.rmdir_detaches
  unlink := keeps_changing_descend hc hp hr hne FileSystem.unlink_detaches
  pause w₁ h₁ := (keeps_looking (h₁.follows.calm hc) _ _ _ w₁ (.refl w₁)).mono
    (fun _ _ h => h₁.still h) fun _ _ h => h₁.still h
  collect w₁ h₁ := (keeps_looking (h₁.follows.calm hc) _ _ _ w₁ (.refl w₁)).mono
    (fun _ _ h => h₁.still h) fun _ _ h => h₁.still h

theorem ends_deleteBelow_retains (followSymlinks : Bool) (h : w.Retains arrival.place s.state) :
    Ends ((deleterTelling isSymlink gc cap hcap).deleteBelow followSymlinks target false) s
      (fun _ s' => w.Retains arrival.place s'.state)
      (fun _ s' => w.Retains arrival.place s'.state) := by
  have hlooks : (deleterTelling isSymlink gc cap hcap).Looking (w.Retains arrival.place) :=
    looking_retains hc hs
  have htour : Tour (deleterTelling isSymlink gc cap hcap) followSymlinks target false
      (.keeping (fun p => ∃ names, p = target.descend names) (w.Retains arrival.place)) := by
    apply hlooks.keepingTour
    · rintro _ ⟨names, rfl⟩ n
      exact ⟨names ++ [n], by simp⟩
    · rintro _ ⟨names, rfl⟩ hnot
      apply attempting_retains hc hs hp hr
      rintro rfl
      exact hnot ⟨target.descend_nil, rfl⟩
  apply hlooks.ends_deleteBelow hlooks (fun _ h => h) _ h
  intro s₁ h₁
  exact (htour.ends_walk ⟨⟨[], by simp⟩, h₁⟩).mono (fun _ _ h => h.1 h₁) fun _ _ h => h

end

/-- A path that is walked into leads to a directory. -/
theorem ends_shouldFollow_arrival (hc : w.Calm) (followSymlinks : Bool) (hw : w.Still s.state) :
    Ends ((deleterTelling isSymlink gc cap hcap).shouldFollow followSymlinks target) s
      (fun b _ => b = true →
        ∃ arrival, w.files.resolve w.workingDirectory true target.text = .ok arrival ∧
          w.files.formAt? arrival.place = some .directory)
      (fun _ _ => True) := by
  unfold shouldFollow
  apply Ends.seq (ends_perform_keep (ends_shows (hw.1.calm hc) (c := .stat) (t := target.text)
    (fun files cwd => files.stat cwd target.text) (·.kind = .directory))) fun _ _ _ => trivial
  rintro (_ | _) s₁ ⟨⟨-, -, hyes, -⟩, -⟩
  · exact Ends.pure nofun
  · obtain ⟨-, status, hstat, hkind⟩ := hyes rfl
    rw [hw.2, hw.1.workingDirectory] at hstat
    obtain ⟨arrival, node, hr, hn, rfl⟩ := FileSystem.exists_arrival_of_stat hstat
    have hform : node.form = .directory := Node.kind_eq_directory_iff.1 (of_decide_eq_true hkind)
    have hdir : w.files.formAt? arrival.place = some .directory := by
      rw [FileSystem.formAt?, hn, Option.map_some, hform]
    exact Ends.intro (fun _ _ _ _ => ⟨arrival, hr, hdir⟩) fun _ _ _ => trivial

end Deleter

/-- However the emptying of a target ends, if it keeps the target then the directory that the target
led to at the start is still there, whatever links lead back to it. -/
theorem ensureEmpty_retains {w : World} (hc : w.Calm) {isSymlink : Path → EStateM Fault World Bool}
    (hs : w.Harmless isSymlink) (target : String) (followSymlinks collectsGarbage : Bool)
    (cap : Nat) (hcap : 0 < cap) (log : List Log.Entry) (acts : List Act)
    (hkeeps : (deleterTelling isSymlink collectsGarbage cap hcap).KeepsTarget followSymlinks
      (.ofText target) ⟨w, log, acts⟩) :
    ∃ arrival, w.files.resolve w.workingDirectory true (Path.ofText target).text = .ok arrival ∧
      w.files.formAt? arrival.place = some .directory ∧
      Ends ((deleterTelling isSymlink collectsGarbage cap hcap).ensureEmpty followSymlinks
        (.ofText target)) ⟨w, log, acts⟩
        (fun _ s => w.Retains arrival.place s.state) (fun _ s => w.Retains arrival.place s.state) := by
  obtain ⟨status, s₁, s₂, hlook, hfollow⟩ := hkeeps
  have hlooks : (deleterTelling isSymlink collectsGarbage cap hcap).Looking w.Still :=
    looking_telling hc hs
  have hs₁ : w.Still s₁.state := ((hlooks.keeps_look? _).perform ⟨w, log, acts⟩ (.refl w)).ok hlook
  have hs₂ : w.Still s₂.state := (hlooks.keeps_shouldFollow _ _ s₁ hs₁).ok hfollow
  obtain ⟨arrival, hr, hd⟩ := (Deleter.ends_shouldFollow_arrival hc followSymlinks hs₁).ok hfollow rfl
  refine ⟨arrival, hr, hd, ?_⟩
  unfold Deleter.ensureEmpty
  apply Ends.bind_ok hlook
  apply Ends.bind_ok hfollow
  apply Ends.bind (Deleter.ends_deleteBelow_retains hc hs (Path.proper_ofText target) hr
    followSymlinks ⟨hs₂.1, le_of_eq hs₂.2, hs₂.2 ▸ hd⟩)
  exact fun _ _ h => Ends.pure h

/-- A directory with links back to it and to the one above it, in which one file cannot be
removed. -/
def World.encircled : World :=
  .make [.leaf (.ofText "/w/back") (.link "/w") 0, .leaf (.ofText "/w/up") (.link "..") 0,
    .leaf (.ofText "/w/x") .file 0] "/" none
    [{ call := .unlink, name := some "x", disruption := some (.errno .eacces) }] (.ofList [])

theorem ensureEmpty_retains_encircled :
    World.encircled.Calm ∧ World.encircled.Harmless (SymlinkTest.run environment .look) ∧
      (deleterTelling (SymlinkTest.run environment .look) false 1 Nat.one_pos).KeepsTarget true
        (.ofText "/w") ⟨World.encircled, [], []⟩ ∧
      ∃ arrival, World.encircled.files.resolve "/" true (Path.ofText "/w").text = .ok arrival ∧
        World.encircled.files.formAt? arrival.place = some .directory ∧
        Ends ((deleterTelling (SymlinkTest.run environment .look) false 1 Nat.one_pos).ensureEmpty
          true (.ofText "/w")) ⟨World.encircled, [], []⟩
          (fun _ s => World.encircled.Retains arrival.place s.state)
          (fun _ s => World.encircled.Retains arrival.place s.state) := by
  have hc : World.encircled.Calm := by
    intro e he
    change e ∈ [_] at he
    rw [List.mem_singleton.1 he]
  have hs : World.encircled.Harmless (SymlinkTest.run environment .look) := World.harmless_look hc
  have hkeeps : (deleterTelling (SymlinkTest.run environment .look) false 1 Nat.one_pos).KeepsTarget
      true (.ofText "/w") ⟨World.encircled, [], []⟩ := ⟨⟨.directory, 0⟩, _, _, rfl, rfl⟩
  exact ⟨hc, hs, hkeeps, ensureEmpty_retains hc hs "/w" true false 1 Nat.one_pos [] [] hkeeps⟩

end TreeRemoval
