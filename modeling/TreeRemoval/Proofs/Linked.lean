import TreeRemoval.Proofs.FileSystem.Passage
import TreeRemoval.Proofs.Reach
import TreeRemoval.Proofs.Truth

/-! # Where links lead a deletion

A deletion that follows links goes from directory to directory, by entries and by the links among
them. Its paths are resolved again at each call, in a file system that it makes smaller all the
time, yet they lead to nothing that could not be reached at the start.
-/

namespace TreeRemoval

open World Deletion

/-- The directories that one comes to from a root, from entry to entry and along the links among
them. -/
inductive FileSystem.Enters (fs : FileSystem) (root : Path) : Location → Prop
  | root {place : Location} (h : fs.locate true root = .ok place)
      (hd : fs.formAt? place = some .directory) : Enters fs root place
  | entry {place loc : Location} (name : Name) (h : Enters fs root place)
      (hr : fs.reach true linkLimit place [.enter name] = .ok loc)
      (hd : fs.formAt? loc = some .directory) : Enters fs root loc

namespace World

variable {w : World} {root : Path} {names : List Name} {place : Location} {fs : FileSystem}
  {reach reach' : Location → Prop}

def Admits (w : World) (root : Path) (place : Location) : Prop :=
  w.files.locate false root = .ok place ∨
    ∃ dir name, w.files.Enters root dir ∧ place = dir ++ [name]

theorem Confines.mono (h : w.Confines reach fs) (himp : ∀ place, reach place → reach' place) :
    w.Confines reach' fs :=
  ⟨h.1, fun place hout => h.2 place (mt (himp place) hout)⟩

/-- Names lead from a root to directories that one comes to from it. -/
theorem enters_of_locate (ha : root.isAbsolute = true)
    (hl : w.files.locate true (root.descend names) = .ok place)
    (hd : w.files.formAt? place = some .directory) : w.files.Enters root place := by
  induction names using List.reverseRecOn generalizing place with
  | nil => exact .root (by simpa using hl) hd
  | append_singleton names n ih =>
    rw [Path.descend_concat] at hl
    obtain ⟨mid, hmid, hdir, hr⟩ :=
      FileSystem.exists_locate_of_child (p := root.descend names) ha hl
    exact .entry n (ih hmid hdir) hr hd

theorem admits_of_locate (ha : root.isAbsolute = true)
    (hl : w.files.locate false (root.descend names) = .ok place) : w.Admits root place := by
  induction names using List.reverseRecOn with
  | nil => exact Or.inl (by simpa using hl)
  | append_singleton names n =>
    rw [Path.descend_concat] at hl
    obtain ⟨-, -, parent, hparent, hdir, rfl⟩ :=
      (FileSystem.locate_child_eq_ok_iff (p := root.descend names) ha).1 hl
    exact Or.inr ⟨parent, n, enters_of_locate ha hparent hdir, rfl⟩

theorem admits_of_meets (ha : root.isAbsolute = true) (h : w.Meets true root place) :
    w.Admits root place := by
  obtain ⟨names, -, hl⟩ := h
  exact admits_of_locate ha hl

end World

variable {isSymlink : Path → EStateM Fault World Bool} {gc : Bool} {cap : Nat} {hcap : 0 < cap}

theorem visit_telling (root : Path) (includeRoot : Bool) (depth : Nat) (p : Path) (run : Run) :
    (deleterTelling isSymlink gc cap hcap).visit true root includeRoot depth p run =
      (deleter gc cap hcap).visit true root includeRoot depth p run := by
  induction depth generalizing p run with
  | zero => rfl
  | succ depth ih =>
    have hvisit : (deleterTelling isSymlink gc cap hcap).visit true root includeRoot depth =
        (deleter gc cap hcap).visit true root includeRoot depth := by
      funext p run
      exact ih p run
    rw [Deleter.visit, Deleter.visit, hvisit]
    rfl

theorem walk_telling (root : Path) (includeRoot : Bool) :
    (deleterTelling isSymlink gc cap hcap).walk true root includeRoot =
      (deleter gc cap hcap).walk true root includeRoot := by
  unfold Deleter.walk
  dsimp only
  rw [visit_telling]
  rfl

/-- However a deletion that follows links ends, nothing was created, and it removed at most the
root's own node and entries of directories that one came to from the root at the start. -/
theorem deleteTree_admitted {w : World} (hc : w.Calm) (hs : w.Harmless isSymlink) {root : String}
    (ha : (Path.ofText root).isAbsolute = true) (collectsGarbage : Bool) (cap : Nat)
    (hcap : 0 < cap) (log : List Log.Entry) (acts : List Act) :
    Ends ((deleterTelling isSymlink collectsGarbage cap hcap).deleteTree true (.ofText root))
      ⟨w, log, acts⟩
      (fun _ s => w.Confines (w.Admits (.ofText root)) s.state.files)
      (fun _ s => w.Confines (w.Admits (.ofText root)) s.state.files) := by
  have hlooks : (deleterTelling isSymlink collectsGarbage cap hcap).Looking w.Still :=
    looking_telling hc hs
  have hkeeps : (deleterTelling isSymlink collectsGarbage cap hcap).Looking fun w' =>
      w.Follows w' ∧ w.Confines (w.Meets true (.ofText root)) w'.files :=
    looking_telling_of hc hs (fun _ h => h.1) fun h h' => ⟨h.1.trans h'.1, h'.2 ▸ h.2⟩
  have hwalk : ∀ s : Session World, w.Still s.state →
      Ends ((deleterTelling isSymlink collectsGarbage cap hcap).walk true (.ofText root) true) s
        (fun _ s' => w.Follows s'.state ∧ w.Confines (w.Meets true (.ofText root)) s'.state.files)
        fun _ s' => w.Follows s'.state ∧ w.Confines (w.Meets true (.ofText root)) s'.state.files := by
    intro s hs
    rw [walk_telling]
    exact Deleter.ends_walk_meets hc (Path.proper_ofText root) ha hs
  have hstart : ∀ w', w.Still w' →
      w.Follows w' ∧ w.Confines (w.Meets true (.ofText root)) w'.files :=
    fun w' h => ⟨h.1, h.2 ▸ .start w _⟩
  exact (hlooks.ends_deleteTree hkeeps hstart hwalk (.refl w)).mono
    (fun _ _ h => h.2.mono fun _ => admits_of_meets ha)
    fun _ _ h => h.2.mono fun _ => admits_of_meets ha

/-- A tree with a link to a directory outside of it, from which a link leads back, and with a link
to the directory above it. The first removal of an entry outside is done, but reported as a failure.
-/
def World.entangled : World :=
  .make [.leaf (.ofText "/w/out") (.link "/x/../y") 0, .leaf (.ofText "/w/up") (.link "..") 0,
    .leaf (.ofText "/y/back") (.link "/w") 0, .leaf (.ofText "/x/f") .file 0] "/" none
    [{ call := .unlink, name := some "back", moment := .after, times := some 1,
       disruption := some (.errno .eacces) }] (.ofList [])

theorem deleteTree_admitted_entangled :
    World.entangled.Calm ∧ World.entangled.Harmless (SymlinkTest.run environment .always) ∧
      (Path.ofText "/w").isAbsolute = true ∧
      Ends ((deleterTelling (SymlinkTest.run environment .always) false 1 Nat.one_pos).deleteTree true
          (.ofText "/w")) ⟨World.entangled, [], []⟩
        (fun _ s => World.entangled.Confines (World.entangled.Admits (.ofText "/w")) s.state.files)
        (fun _ s =>
          World.entangled.Confines (World.entangled.Admits (.ofText "/w")) s.state.files) := by
  have hc : World.entangled.Calm := by
    intro e he
    change e ∈ [_] at he
    rw [List.mem_singleton.1 he]
  have hs : World.entangled.Harmless (SymlinkTest.run environment .always) :=
    fun p w' _ => Ends.pure (.refl w')
  have ha : (Path.ofText "/w").isAbsolute = true := by decide
  exact ⟨hc, hs, ha, deleteTree_admitted hc hs ha false 1 Nat.one_pos [] []⟩

end TreeRemoval
