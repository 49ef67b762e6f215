import TreeRemoval.Proofs.Deletion.Tree

/-! # Confinement

A deletion that does not follow links removes nothing outside of the tree below its root, whatever
fails on the way, with one exception: a link that leads to a directory is walked into if the look
that would tell it from a directory fails.
-/

namespace TreeRemoval

open World

namespace World

/-- A directory that a link in the tree below a root leads to, while a look at the link may fail. -/
def Exposes (w : World) (root : Path) (place : Location) : Prop :=
  ∃ names, IsLinkAt w.files (root.descend names) ∧
    w.files.locate true (root.descend names) = .ok place ∧
    w.files.formAt? place = some .directory ∧ w.MayBlind .lstat (root.descend names).text

def Inside (w : World) (root : Path) (place : Location) : Prop :=
  ∃ top, (w.files.locate false root = .ok top ∨ w.Exposes root top) ∧ top <+: place ∧ top ≠ place

/-- Nothing is created, and what is out of reach keeps its form. -/
def Confines (w : World) (reach : Location → Prop) (fs : FileSystem) : Prop :=
  fs ≤ w.files ∧ ∀ place, ¬ reach place → fs.formAt? place = w.files.formAt? place

/-- A path below the root that leads to a place in reach, if anywhere. -/
def Reaching (w : World) (root : Path) (reach : Location → Prop) (p : Path) : Prop :=
  (∃ names, p = root.descend names) ∧ ∀ place, w.files.locate false p = .ok place → reach place

variable {w : World} {root : Path} {place : Location} {reach : Location → Prop} {fs fs' : FileSystem}

theorem Inside.append (h : w.Inside root place) (rest : Location) :
    w.Inside root (place ++ rest) := by
  obtain ⟨top, ht, hp, hne⟩ := h
  refine ⟨top, ht, hp.trans (List.prefix_append _ _), ?_⟩
  rintro rfl
  exact hne (hp.eq_of_length_le (by simp))

theorem inside_child (h : w.files.locate false root = .ok place ∨ w.Exposes root place) (n : Name) :
    w.Inside root (place ++ [n]) :=
  ⟨place, h, List.prefix_append _ _, by simp⟩

theorem Confines.start (w : World) (reach : Location → Prop) : w.Confines reach w.files :=
  ⟨le_refl _, fun _ _ => rfl⟩

theorem locate_or_exposes_of_opens {names : List Name} (hle : fs ≤ w.files)
    (hop : Opens w false fs (root.descend names) place) :
    w.files.locate false (root.descend names) = .ok place ∨ w.Exposes root place := by
  have hne : fs.formAt? place ≠ none := by rw [hop.directory]; simp
  have hleads := FileSystem.locate_mono hle hop.leads hne
  rcases hop.allowed with hf | hnot | hblind
  · cases hf
  · rcases FileSystem.locate_false_of_true hop.leads with hl | ⟨loc, target, hl, hlink⟩
    · exact Or.inl (FileSystem.locate_mono hle hl hne)
    · exact absurd ⟨loc, target, hl, hlink⟩ hnot
  · rcases FileSystem.locate_false_of_true hleads with hl | ⟨loc, target, hl, hlink⟩
    · exact Or.inl hl
    · exact Or.inr ⟨names, ⟨loc, target, hl, hlink⟩, hleads, hle place _ hop.directory, hblind⟩

theorem Confines.removes {p : Path} (h : w.Confines reach fs)
    (happend : ∀ {place}, reach place → ∀ rest, reach (place ++ rest)) (hr : w.Reaching root reach p)
    (hrem : fs.Removes w.changeTime p fs') : w.Confines reach fs' := by
  refine ⟨le_trans hrem.le h.1, fun place hout => ?_⟩
  obtain ⟨parent, name, hl, hn, -, rfl⟩ := hrem
  have hin : reach (parent ++ [name]) :=
    hr.2 _ (FileSystem.locate_mono h.1 hl (by rwa [Ne, FileSystem.formAt?_eq_none_iff]))
  rw [FileSystem.formAt?_removeEntry]
  split
  · rename_i hp
    obtain ⟨rest, rfl⟩ := hp
    exact absurd (happend hin rest) hout
  · exact h.2 place hout

/-- A child of a directory that is walked into leads below the root or an exposed directory. -/
theorem inside_of_opens {names : List Name} {n : Name} (ha : root.isAbsolute = true)
    (hreach : ∀ {place} (n : Name),
      w.files.locate false (root.descend names) = .ok place → w.Inside root (place ++ [n]))
    (hle : fs ≤ w.files) (hop : Opens w false fs (root.descend names) place) {loc : Location}
    (hloc : w.files.locate false ((root.descend names).child n) = .ok loc) : w.Inside root loc := by
  obtain ⟨-, -, parent, hparent, -, rfl⟩ :=
    (FileSystem.locate_child_eq_ok_iff (p := root.descend names) ha).1 hloc
  have hleads : w.files.locate true (root.descend names) = .ok place :=
    FileSystem.locate_mono hle hop.leads (by rw [hop.directory]; simp)
  rw [hleads] at hparent
  cases hparent
  rcases locate_or_exposes_of_opens hle hop with hl | hex
  · exact hreach n hl
  · exact inside_child (Or.inr hex) n

theorem reachingRoute (hp : root.Proper) (ha : root.isAbsolute = true)
    (hinside : ∀ {place}, w.Inside root place → reach place)
    (hbelow : ∀ {place} (n : Name), reach place → w.Inside root (place ++ [n])) :
    Route w false (fun _ p => w.Reaching root reach p) (w.Confines reach) where
  proper := by
    rintro - _ ⟨⟨names, rfl⟩, -⟩
    exact hp.descend names
  isAbsolute := by
    rintro - _ ⟨⟨names, rfl⟩, -⟩
    exact ha
  child := by
    rintro fs - _ place n hk ⟨⟨names, rfl⟩, ho⟩ hop -
    refine ⟨⟨names ++ [n], by simp⟩, fun loc hloc => hinside ?_⟩
    exact inside_of_opens ha (fun n hl => hbelow n (ho _ hl)) hk.1 hop hloc
  removes := by
    intro fs fs' _ p hk ho hrem
    refine hk.removes (fun {place} hr rest => ?_) ho hrem
    cases rest with
    | nil => rwa [List.append_nil]
    | cons n rest =>
      rw [List.append_cons]
      exact hinside ((hbelow n hr).append rest)

def InReach (w : World) (root : Path) (place : Location) : Prop :=
  w.files.locate false root = .ok place ∨ w.Inside root place

end World

/-- However a deletion without following links ends, nothing was created, and what is neither in the
tree below the root nor below an exposed directory is there as before. -/
theorem deleteTree_confined {w : World} (hc : w.Calm) {root : String}
    (ha : (Path.ofText root).isAbsolute = true) (collectsGarbage : Bool) (cap : Nat)
    (hcap : 0 < cap) (log : List Log.Entry) (acts : List Act) :
    Ends ((World.deleter collectsGarbage cap hcap).deleteTree false (.ofText root)) ⟨w, log, acts⟩
      (fun _ s => w.Confines (w.InReach (.ofText root)) s.state.files)
      (fun _ s => w.Confines (w.InReach (.ofText root)) s.state.files) := by
  have hbelow : ∀ {place} (n : Name), w.InReach (.ofText root) place →
      w.Inside (.ofText root) (place ++ [n]) := by
    rintro place n (hl | hin)
    · exact World.inside_child (Or.inl hl) n
    · exact hin.append [n]
  have hroute := World.reachingRoute (Path.proper_ofText root) ha Or.inr hbelow
  have hstart := World.Confines.start w (w.InReach (.ofText root))
  have hroot : w.Reaching (.ofText root) (w.InReach (.ofText root)) (.ofText root) :=
    ⟨⟨[], by simp⟩, fun place hl => Or.inl hl⟩
  apply (hroute.ends_deleteTree (s := ⟨w, log, acts⟩) hc (.refl w) hstart hroot).mono
  · exact fun b s h => h.1
  · rintro e s (hfails | ⟨hlooks, -⟩)
    · exact hfails.keeps
    · rw [hlooks.same]
      exact hstart

/-- A tree with a link out of it, at which every look fails. -/
def World.linkedOut : World :=
  .make [.leaf (.ofText "/w/l") (.link "/out") 0, .leaf (.ofText "/out/x") .file 0] "/" none
    [{ call := .lstat, path := some "/w/l", disruption := some (.errno .eacces) }] (.ofList [])

theorem deleteTree_confined_linkedOut :
    World.linkedOut.Calm ∧ (Path.ofText "/w").isAbsolute = true ∧
      Ends ((World.deleter false 1 Nat.one_pos).deleteTree false (.ofText "/w"))
        ⟨World.linkedOut, [], []⟩
        (fun _ s => World.linkedOut.Confines (World.linkedOut.InReach (.ofText "/w")) s.state.files)
        (fun _ s =>
          World.linkedOut.Confines (World.linkedOut.InReach (.ofText "/w")) s.state.files) := by
  have hc : World.linkedOut.Calm := by
    intro e he
    change e ∈ [_] at he
    rw [List.mem_singleton.1 he]
  have ha : (Path.ofText "/w").isAbsolute = true := by decide
  have h := deleteTree_confined hc ha false 1 Nat.one_pos [] []
  exact ⟨hc, ha, h⟩

end TreeRemoval
