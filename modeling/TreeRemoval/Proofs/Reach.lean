import TreeRemoval.Proofs.Confinement
import TreeRemoval.Proofs.Deletion.Looking
import TreeRemoval.Proofs.World.Making

/-! # Reach

Where a deletion can come to, links followed or not, with nobody else at work: by names from its
root, as long as each path on the way is one that a walk goes into. Whatever else was there stays
there, even if directories are made afterwards.
-/

namespace TreeRemoval

open World Deletion

namespace FileSystem

variable {fs fs' : FileSystem} {p : Path} {loc place : Location} {time : Option Float}
  {workingDirectory t : String}

theorem Removes.formAt?_eq (h : fs.Removes time p fs') (hne : fs.locate false p ≠ .ok place) :
    fs'.formAt? place = fs.formAt? place := by
  obtain ⟨parent, name, hl, -, hbelow, rfl⟩ := h
  rw [formAt?_removeEntry]
  split
  · rename_i hp
    obtain ⟨rest, rfl⟩ := hp
    cases rest with
    | nil => exact absurd (by simpa using hl) hne
    | cons n rest =>
      rw [eq_comm, formAt?_eq_none_iff, List.append_cons, get?_append, hbelow n]
      rfl
  · rfl

theorem mkdir_le (h : fs.mkdir workingDirectory time t = .ok fs') : fs ≤ fs' := by
  unfold mkdir at h
  cases hr : fs.resolve workingDirectory false t with
  | error e => rw [hr] at h; cases h
  | ok arrival =>
    have hs := resolve_sound hr
    rw [hr] at h
    cases arrival with
    | inside place => cases h
    | entry parent name node =>
      obtain ⟨hd, rfl⟩ := hs
      cases hn : fs.get? (parent ++ [name]) with
      | some node => simp [hn, bind, Except.bind] at h
      | none =>
        simp only [hn, bind, Except.bind, Except.ok.injEq] at h
        intro place form hform
        rw [← h, formAt?_touch, formAt?_put_directory hd hn, if_neg, hform]
        rintro rfl
        rw [formAt?_eq_none_iff.2 hn] at hform
        cases hform

end FileSystem

namespace World

variable {w : World} {followSymlinks : Bool} {root p : Path} {names : List Name} {place : Location}
  {fs fs' : FileSystem} {reach : Location → Prop}

/-- Names that a walk can go by from a root: each path on the way is walked into. -/
inductive Visits (w : World) (followSymlinks : Bool) (root : Path) : List Name → Prop
  | root : Visits w followSymlinks root []
  | child {names : List Name} {place : Location} (n : Name) (h : Visits w followSymlinks root names)
      (hop : Opens w followSymlinks w.files (root.descend names) place) :
      Visits w followSymlinks root (names ++ [n])

def Meets (w : World) (followSymlinks : Bool) (root : Path) (place : Location) : Prop :=
  ∃ names, w.Visits followSymlinks root names ∧
    w.files.locate false (root.descend names) = .ok place

/-- What was there and is out of reach is there as before. -/
def Spares (w : World) (reach : Location → Prop) (fs : FileSystem) : Prop :=
  ∀ place form, w.files.formAt? place = some form → ¬ reach place → fs.formAt? place = some form

theorem Confines.spares (h : w.Confines reach fs) : w.Spares reach fs :=
  fun place _ hform hout => (h.2 place hout).trans hform

theorem Spares.mono (h : w.Spares reach fs) (hle : fs ≤ fs') : w.Spares reach fs' :=
  fun place form hform hout => hle place form (h place form hform hout)

theorem opens_of_le (hle : fs ≤ w.files) (hop : Opens w followSymlinks fs p place) :
    Opens w followSymlinks w.files p place := by
  have hthere : fs.formAt? place ≠ none := by rw [hop.directory]; simp
  refine ⟨hop.readable, FileSystem.locate_mono hle hop.leads hthere, hle _ _ hop.directory, ?_⟩
  rcases hop.allowed with hf | hnot | hblind
  · exact Or.inl hf
  · refine Or.inr (Or.inl ?_)
    rintro ⟨loc, target, hl, hlink⟩
    rcases FileSystem.locate_false_of_true hop.leads with hl' | ⟨loc', target', hl', hlink'⟩
    · rw [FileSystem.locate_mono hle hl' hthere] at hl
      cases hl
      rw [hle _ _ hop.directory] at hlink
      cases hlink
    · exact hnot ⟨loc', target', hl', hlink'⟩
  · exact Or.inr (Or.inr hblind)

theorem meetingRoute (hp : root.Proper) (ha : root.isAbsolute = true) :
    Route w followSymlinks
      (fun _ p => ∃ names, p = root.descend names ∧ w.Visits followSymlinks root names)
      (w.Confines (w.Meets followSymlinks root)) where
  proper := by
    rintro - _ ⟨names, rfl, -⟩
    exact hp.descend names
  isAbsolute := by
    rintro - _ ⟨names, rfl, -⟩
    exact ha
  child := by
    rintro fs - _ place n hk ⟨names, rfl, hv⟩ hop -
    exact ⟨names ++ [n], by simp, .child n hv (opens_of_le hk.1 hop)⟩
  removes := by
    rintro fs fs' - _ hk ⟨names, rfl, hv⟩ hrem
    refine ⟨le_trans hrem.le hk.1, fun place hout => ?_⟩
    rw [hrem.formAt?_eq, hk.2 place hout]
    intro hl
    obtain ⟨parent, name, hl', hn, -⟩ := hrem
    rw [hl] at hl'
    cases hl'
    have hthere : fs.formAt? (parent ++ [name]) ≠ none := by
      rwa [Ne, FileSystem.formAt?_eq_none_iff]
    exact hout ⟨names, hv, FileSystem.locate_mono hk.1 hl hthere⟩

def GoesOn (w : World) (reach : Location → Prop) (w' : World) : Prop :=
  w.Follows w' ∧ w.Spares reach w'.files

theorem GoesOn.still {w' w'' : World} (h : w.GoesOn reach w') (h' : w'.Still w'') :
    w.GoesOn reach w'' :=
  ⟨h.1.trans h'.1, h'.2 ▸ h.2⟩

theorem Still.goesOn {w' : World} (h : w.Still w') : w.GoesOn reach w' :=
  ⟨h.1, h.2 ▸ fun _ _ hform _ => hform⟩

theorem keeps_mkdir (hc : w.Calm) (t : String) :
    Keeps (w.GoesOn reach) (environment.mkdir t) := by
  rintro w₁ ⟨hw₁, hs₁⟩
  apply (ends_changing (hw₁.calm hc) fun files cwd time => files.mkdir cwd time t).mono
  · rintro - w₂ ⟨hw₂, -, hm⟩
    exact ⟨hw₁.trans hw₂, hs₁.mono (FileSystem.mkdir_le hm)⟩
  · rintro f w₂ ⟨hw₂, ⟨hsame, -⟩ | ⟨hm, -⟩⟩
    · exact ⟨hw₁.trans hw₂, hsame ▸ hs₁⟩
    · exact ⟨hw₁.trans hw₂, hs₁.mono (FileSystem.mkdir_le hm)⟩

end World

namespace Deleter

variable {w : World} {gc : Bool} {cap : Nat} {hcap : 0 < cap} {followSymlinks : Bool} {root : Path}
  {includeRoot : Bool} {s : Session World} {reach : Location → Prop}

theorem looking_goesOn (hc : w.Calm) : (deleter gc cap hcap).Looking (w.GoesOn reach) :=
  deleter_looking (fun _ h => h.1.calm hc) fun h h' => h.still h'

theorem looking_still (hc : w.Calm) : (deleter gc cap hcap).Looking w.Still :=
  deleter_looking (fun _ h => h.1.calm hc) .trans

section

variable (hc : w.Calm) (hp : root.Proper) (ha : root.isAbsolute = true)

include hc hp ha

/-- A walk creates nothing and leaves alone what is out of reach, whether its root is kept or not.
-/
theorem ends_walk_meets (hs : w.Still s.state) :
    Ends ((deleter gc cap hcap).walk followSymlinks root includeRoot) s
      (fun _ s' => w.Follows s'.state ∧ w.Confines (w.Meets followSymlinks root) s'.state.files)
      (fun _ s' => w.Follows s'.state ∧
        w.Confines (w.Meets followSymlinks root) s'.state.files) := by
  have htour : Tour (deleter gc cap hcap) followSymlinks root includeRoot _ :=
    (meetingRoute hp ha).tour hc hs.1
  have hstart : w.Confines (w.Meets followSymlinks root) s.state.files := hs.2 ▸ .start w _
  apply (htour.ends_walk ⟨⟨[], by simp, .root⟩, .refl s, hstart⟩).mono
  · rintro run s' ⟨⟨hwalked, hkeeps⟩, -⟩
    exact ⟨hs.1.trans hwalked.world, hkeeps hstart⟩
  · rintro e s' hb
    exact ⟨hs.1.trans hb.world, hb.keeps⟩

theorem ends_walk_spares (hs : w.Still s.state) :
    Ends ((deleter gc cap hcap).walk followSymlinks root includeRoot) s
      (fun _ s' => w.GoesOn (w.Meets followSymlinks root) s'.state)
      (fun _ s' => w.GoesOn (w.Meets followSymlinks root) s'.state) :=
  (ends_walk_meets hc hp ha hs).mono (fun _ _ h => ⟨h.1, h.2.spares⟩) fun _ _ h => ⟨h.1, h.2.spares⟩

theorem ends_deleteBelow_spares (hs : w.Still s.state) :
    Ends ((deleter gc cap hcap).deleteBelow followSymlinks root includeRoot) s
      (fun _ s' => w.GoesOn (w.Meets followSymlinks root) s'.state)
      (fun _ s' => w.GoesOn (w.Meets followSymlinks root) s'.state) :=
  (looking_still hc).ends_deleteBelow (looking_goesOn hc) (fun _ h => h.goesOn)
    (fun _ h => ends_walk_spares hc hp ha h) hs

theorem ends_deleteTree_spares (hs : w.Still s.state) :
    Ends ((deleter gc cap hcap).deleteTree followSymlinks root) s
      (fun _ s' => w.GoesOn (w.Meets followSymlinks root) s'.state)
      (fun _ s' => w.GoesOn (w.Meets followSymlinks root) s'.state) :=
  (looking_still hc).ends_deleteTree (looking_goesOn hc) (fun _ h => h.goesOn)
    (fun _ h => ends_walk_spares hc hp ha h) hs

theorem ends_ensureEmpty_spares (hs : w.Still s.state) :
    Ends ((deleter gc cap hcap).ensureEmpty followSymlinks root) s
      (fun _ s' => w.GoesOn (w.Meets followSymlinks root) s'.state)
      (fun _ s' => w.GoesOn (w.Meets followSymlinks root) s'.state) := by
  have hlooks : (deleter gc cap hcap).Looking w.Still := looking_still hc
  have hmakes : Keeps (w.GoesOn (w.Meets followSymlinks root))
      (World.environment.ensureDirectory root) :=
    (environment_looking (fun _ h => h.1.calm hc) GoesOn.still).keeps_ensureDirectory
      (keeps_mkdir hc) root
  unfold ensureEmpty
  apply Ends.seq ((hlooks.keeps_look? root.text).perform s hs) fun _ _ h => h.goesOn
  rintro (_ | status) s₁ hs₁
  · exact Ends.bind (hmakes.perform s₁ hs₁.goesOn) fun _ _ h => Ends.pure h
  apply Ends.seq (hlooks.keeps_shouldFollow followSymlinks root s₁ hs₁) fun _ _ h => h.goesOn
  rintro (_ | _) s₂ hs₂
  · apply Ends.bind (ends_deleteTree_spares hc hp ha hs₂)
    intro _ s₃ h₃
    exact Ends.bind (hmakes.perform s₃ h₃) fun _ _ h => Ends.pure h
  · exact Ends.bind (ends_deleteBelow_spares hc hp ha hs₂) fun _ _ h => Ends.pure h

end

end Deleter

end TreeRemoval
