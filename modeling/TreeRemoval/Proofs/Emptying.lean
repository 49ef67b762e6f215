import TreeRemoval.Proofs.Confinement
import TreeRemoval.Proofs.FileSystem.Trail
import TreeRemoval.Proofs.World.Making

/-! # Emptying a target

When the emptying of a target succeeds, there is an empty directory at the target, with two
exceptions. The walk that keeps its root attempts no removal of it, so that a look or a listing of
the target that fails is no failure of the walk. And the walk may cut off the target's own path, if
that path leads through what is below the target.
-/

namespace TreeRemoval

open World Deletion

namespace FileSystem

variable {fs fs' : FileSystem} {p : Path} {place : Location}

theorem isEmptyDirectory_of_missing (ha : p.isAbsolute = true) (hle : fs' ≤ fs)
    (hl : fs.locate true p = .ok place)
    (hm : ∀ n, fs.get? (place ++ [n]) ≠ none → fs'.Missing (p.child n))
    (hd : LeadsToDirectory fs' p) : fs'.IsEmptyDirectory p := by
  obtain ⟨place', hl', hdir⟩ := hd
  have hsame := locate_mono hle hl' (by rw [hdir]; simp)
  rw [hl] at hsame
  cases hsame
  refine ⟨place, hl', hdir, fun n => ?_⟩
  by_contra hne
  exact hne ((hm n (get?_ne_none_of_le hle hne)).get?_entry ha hl' hdir)

theorem Missing.not_leadsToDirectory (h : fs.Missing p) : ¬ LeadsToDirectory fs p := by
  rintro ⟨place, hl, hd⟩
  rw [formAt?_eq_none_iff.2 (h.get?_eq_none_of_followed hl)] at hd
  cases hd

end FileSystem

namespace World

variable {w : World} {p : Path}

/-- No event claims that nothing is at a path. -/
def Honest (w : World) : Prop :=
  ∀ e ∈ w.events, ∀ errno, e.disruption = some (.errno errno) → errno.isMissing = false

theorem Honest.not_mayDeny (h : w.Honest) (t : String) : ¬ w.MayDeny t := by
  rintro ⟨moment, c, e, ⟨event, he, -, d, hd, hf⟩, hm⟩
  cases d with
  | errno errno =>
    cases hf
    rw [h event he errno hd] at hm
    cases hm
  | cancel | interrupt => cases hf

theorem ends_ensureDirectory (hc : w.Calm) (hp : p.Proper) (ha : p.isAbsolute = true)
    (hdots : ".." ∉ p.parts) (hm : w.files.Missing p) :
    Ends (environment.ensureDirectory p) w
      (fun _ w' => w.Follows w' ∧ w'.files.IsEmptyDirectory p) (fun _ _ => True) := by
  obtain ⟨names, hnames⟩ := hp.exists_descend hdots
  have hparts : p.parts = names.map Name.text := by rw [hnames]; simp [Path.descend]
  have hanchor : p.anchor ≠ .here := by simpa [Path.isAbsolute] using ha
  unfold Environment.ensureDirectory
  rw [hparts]
  refine Ends.awaited ((ends_makeDirectories hc hanchor names).mono ?_ fun _ _ _ => trivial)
  rintro - w' ⟨hf, hempty | ⟨-, hd⟩⟩
  · exact ⟨hf, hnames ▸ hempty⟩
  · exact absurd (hnames ▸ hd) hm.not_leadsToDirectory

def MayHide (w : World) (t : String) : Prop :=
  w.MayBlind .stat t ∨ w.MayBlind .lstat t ∨ w.MayBlind .list t

/-- The path passes through what is below the directory that it leads to. -/
def Loops (w : World) (p : Path) : Prop := ∃ place ∈ w.files.trail true p, w.Inside p place

theorem leadsToDirectory_of_confines {fs : FileSystem} (h : w.Confines (w.Inside p) fs)
    (hl : ¬ w.Loops p) (hd : LeadsToDirectory w.files p) : LeadsToDirectory fs p := by
  have hsame : ∀ place ∈ w.files.trail true p, fs.formAt? place = w.files.formAt? place :=
    fun place hm => h.2 place fun hin => hl ⟨place, hm, hin⟩
  obtain ⟨place, hplace, hdir⟩ := hd
  refine ⟨place, (FileSystem.locate_of_trail hsame).trans hplace, ?_⟩
  rw [hsame place (FileSystem.mem_trail_of_locate hplace), hdir]

/-- What is there when the emptying of a target has succeeded: an empty directory, unless a look at
the target or its listing failed and nothing was changed, or the target is gone because its path
loops. -/
def Emptied (w : World) (target : Path) (b : Bool) (fs : FileSystem) : Prop :=
  fs.IsEmptyDirectory target ∨ (b = false ∧ fs = w.files ∧ w.MayHide target.text) ∨
    ¬ LeadsToDirectory fs target ∧ w.Loops target

/-- What is known after the walk of a target that is kept: something failed, or a failing look or
listing hid what is there, or all children are missing. -/
def Kept (w : World) (cap : Nat) (hcap : 0 < cap) (target : Path) (run : Run) (fs : FileSystem) :
    Prop :=
  run.failed.items ≠ [] ∨
    (run = .start cap hcap ∧ fs = w.files ∧ w.MayHide target.text) ∨
    (w.Confines (w.Inside target) fs ∧ ∃ place, w.files.locate true target = .ok place ∧
      ∀ n, w.files.get? (place ++ [n]) ≠ none → fs.Missing (target.child n))

end World

namespace Deleter

variable {w : World} {gc : Bool} {cap : Nat} {hcap : 0 < cap} {target : Path} {s : Session World}

section Kept

variable (hc : w.Calm) (hw : w.Follows s.state) (hfiles : s.state.files = w.files) (hh : w.Honest)
  (hp : target.Proper) (ha : target.isAbsolute = true) {place : Location}
  (hop : Opens w false w.files target place)

include hc hw hfiles hh hp ha hop

/-- When the children of a target have been visited, something failed or all of them are missing. -/
theorem ends_visitChildren {children : List Path} (hlisted : Listed w.files target children) :
    Ends (visitEach ((deleter gc cap hcap).visit false target false FileSystem.maxPathBytes) children
        (.start cap hcap)) s
      (fun r s' => s.Advances s' ∧ w.Kept cap hcap target r.1 s'.state.files)
      (fun _ _ => True) := by
  obtain ⟨loc, hloc, hdir, hmem⟩ := hlisted
  rw [hop.leads] at hloc
  cases hloc
  have hroute := reachingRoute (w := w) hp ha (fun h => h) fun n h => h.append [n]
  have hon : ∀ c ∈ children, w.Reaching target (w.Inside target) c := by
    intro c hcm
    obtain ⟨n, hn, rfl⟩ := (hmem c).1 hcm
    refine ⟨⟨[n], ?_⟩, fun loc hl => ?_⟩
    · rw [← Path.child_descend, Path.descend_nil]
    · rw [← target.descend_nil] at hop hl
      exact inside_of_opens ha (fun m hl' => inside_child (Or.inl (by simpa using hl')) m)
        (le_refl _) hop hl
  have htour : Tour (deleter gc cap hcap) false target false _ := hroute.tour hc hw
  have hstart : w.Confines (w.Inside target) s.state.files := hfiles ▸ .start w _
  refine (htour.ends_visitEach (fun c _ run s' h => htour.ends_visit h) fun c hcm =>
    ⟨hon c hcm, .refl s, hstart⟩).mono ?_ fun _ _ _ => trivial
  rintro r s' ⟨⟨hwalked, hkeeps⟩, hsettled, -⟩
  refine ⟨hwalked.toAdvances, ?_⟩
  by_cases hne : r.1.failed.items = []
  · refine Or.inr (Or.inr ⟨hkeeps hstart, place, hop.leads, fun n hn => ?_⟩)
    rcases hsettled _ ((hmem _).2 ⟨n, hn, rfl⟩) with ⟨h, -⟩ | h | h | h
    · exact absurd (congrArg (·.parts.length) h) (by simp)
    · exact absurd hne h
    · exact h
    · exact absurd h (hh.not_mayDeny _)
  · exact Or.inl hne

theorem ends_walk_kept :
    Ends ((deleter gc cap hcap).walk false target false) s
      (fun run s' => s.Advances s' ∧ w.Kept cap hcap target run s'.state.files)
      (fun _ _ => True) := by
  have hblind : ¬ IsLinkAt w.files target ∨ w.MayBlind .lstat target.text :=
    hop.allowed.resolve_left (by simp)
  unfold Deleter.walk
  refine Ends.bind (Q := fun r s' => s.Advances s' ∧ w.Kept cap hcap target r.1 s'.state.files) ?_
    fun r s' h => Ends.pure h
  change Ends (Deleter.visit _ false target false (FileSystem.maxPathBytes + 1) target _) s _ _
  unfold Deleter.visit
  apply Ends.seq (ends_shouldFollow (hw.calm hc) hp ha) (fun _ _ _ => trivial)
  rintro (_ | _) s₁ ⟨h₁, hfiles₁, -, hyes, hno⟩
  · refine Ends.of_ok (leave_kept _ _ _ _) ⟨h₁, Or.inr (Or.inl ⟨rfl, hfiles₁.trans hfiles, ?_⟩)⟩
    rw [hfiles] at hno
    rcases hno rfl with h | h | h | ⟨-, h⟩
    · exact absurd ⟨place, hop.leads, hop.directory⟩ h
    · exact absurd h hop.readable
    · exact Or.inl (hw.mayBlind h)
    · exact Or.inr (Or.inl (hblind.resolve_left fun hn => hn h))
  have hw₁ := hw.trans h₁.world
  have hfs₁ := hfiles₁.trans hfiles
  apply Ends.seq (ends_listChildren (hw₁.calm hc) hp ha hop.readable
    (hfs₁ ▸ ⟨place, hop.leads, hop.directory⟩)) (fun _ _ _ => trivial)
  rintro r s₂ ⟨h₂, hfiles₂, hr⟩
  have hfs₂ := hfiles₂.trans hfs₁
  rw [hfs₁] at hr
  have h₁₂ := h₁.trans h₂
  rcases hr with ⟨children, rfl, hlisted⟩ | ⟨rfl, hb⟩ | ⟨rfl, hd⟩
  · apply Ends.bind (ends_visitChildren hc (hw₁.trans h₂.world) hfs₂ hh hp ha hop hlisted)
    rintro ⟨run, stop⟩ s₃ ⟨h₃, hkept⟩
    cases stop with
    | true => exact Ends.pure ⟨h₁₂.trans h₃, hkept⟩
    | false => exact Ends.of_ok (leave_kept _ _ _ _) ⟨h₁₂.trans h₃, hkept⟩
  · exact Ends.of_ok (leave_kept _ _ _ _)
      ⟨h₁₂, Or.inr (Or.inl ⟨rfl, hfs₂, Or.inr (Or.inr (hw₁.mayBlind hb))⟩)⟩
  · exact absurd (hw₁.mayDeny hd) (hh.not_mayDeny _)

theorem ends_deleteBelow_kept :
    Ends ((deleter gc cap hcap).deleteBelow false target false) s
      (fun run s' => w.Emptied target (0 < run.deleted) s'.state.files) (fun _ _ => True) := by
  unfold Deleter.deleteBelow
  apply Ends.bind (Q := fun _ s' => s.Looks s') (ends_reading (.reading s))
  rintro startTime s₁ h₁
  refine Ends.bind (Q := fun _ s' => s.Looks s')
    (ends_note (h₁.trans ⟨.note ?_, rfl⟩)) fun _ s₂ h₂ => ?_
  · simp
  apply Ends.seq (ends_walk_kept hc (hw.trans h₂.world) (h₂.same.trans hfiles) hh hp ha hop)
    (fun _ _ _ => trivial)
  rintro run s₃ ⟨h₃, hkept⟩
  have hw₃ := (hw.trans h₂.world).trans h₃.world
  apply Ends.seq ((Route.descending hp ha).ends_finish hc hw₃ trivial ⟨[], by simp⟩ run)
    (fun _ _ _ => trivial)
  rintro - s₄ ⟨-, hfiles₄, hnone⟩
  have hle : s₃.state.files ≤ w.files := by
    rw [← hfiles, ← h₂.same]
    exact h₃.files
  apply Ends.pure
  rw [hfiles₄]
  rcases hkept with h | ⟨rfl, hsame, hhide⟩ | ⟨hconf, loc, hloc, hmissing⟩
  · exact absurd hnone h
  · exact Or.inr (Or.inl ⟨by simp [Run.start], hsame, hhide⟩)
  · by_cases hd : LeadsToDirectory s₃.state.files target
    · exact Or.inl (FileSystem.isEmptyDirectory_of_missing ha hle hloc hmissing hd)
    · refine Or.inr (Or.inr ⟨hd, ?_⟩)
      by_contra hloops
      exact hd (leadsToDirectory_of_confines hconf hloops ⟨place, hop.leads, hop.directory⟩)

end Kept

end Deleter

/-- If the emptying of a target without double dots succeeds, and no event claims that something is
missing, then the target is emptied. -/
theorem ensureEmpty_empties {w : World} (hc : w.Calm) (hh : w.Honest) {target : String}
    (ha : (Path.ofText target).isAbsolute = true) (hdots : ".." ∉ (Path.ofText target).parts)
    (collectsGarbage : Bool) (cap : Nat) (hcap : 0 < cap) (log : List Log.Entry) (acts : List Act) :
    Ends ((World.deleter collectsGarbage cap hcap).ensureEmpty false (.ofText target)) ⟨w, log, acts⟩
      (fun b s => w.Emptied (.ofText target) b s.state.files) (fun _ _ => True) := by
  have hp := Path.proper_ofText target
  have hmake : ∀ {s : Session World}, w.Follows s.state → s.state.files.Missing (.ofText target) →
      Ends (perform (environment.ensureDirectory (.ofText target))) s
        (fun _ s' => s'.state.files.IsEmptyDirectory (.ofText target)) (fun _ _ => True) := by
    intro s hw hm
    exact ends_perform ((ends_ensureDirectory (hw.calm hc) hp ha hdots hm).mono (fun _ _ h => h.2)
      fun _ _ _ => trivial)
  unfold Deleter.ensureEmpty
  apply Ends.seq (ends_perform_keep (ends_look? hc hp ha)) (fun _ _ _ => trivial)
  rintro (_ | status) s₁ ⟨⟨hw₁, hfiles₁, -, hlook⟩, -, -⟩
  · have hm := (hlook rfl).resolve_right (hh.not_mayDeny _)
    exact Ends.bind (hmake hw₁ (hfiles₁ ▸ hm)) fun _ _ h => Ends.pure (Or.inl h)
  apply Ends.seq (Deleter.ends_shouldFollow (hw₁.calm hc) hp ha) (fun _ _ _ => trivial)
  rintro (_ | _) s₂ ⟨h₂, hfiles₂, -, hyes, -⟩
  · apply Ends.seq ((Route.descending hp ha).ends_deleteTree hc (hw₁.trans h₂.world) trivial
      ⟨[], by simp⟩) (fun _ _ _ => trivial)
    rintro b s₃ ⟨-, hlogs, hgone⟩
    have hm := hgone.resolve_right (hh.not_mayDeny _)
    exact Ends.bind (hmake ((hw₁.trans h₂.world).trans hlogs.world) hm) fun _ _ h =>
      Ends.pure (Or.inl h)
  · obtain ⟨hnul, ⟨place, hplace, hdir⟩, hallowed⟩ := hyes rfl
    rw [hfiles₁] at hplace hdir hallowed
    have hop : Opens w false w.files (.ofText target) place :=
      ⟨hnul, hplace, hdir, hallowed.imp_right (Or.imp_right hw₁.mayBlind)⟩
    exact Ends.bind (Deleter.ends_deleteBelow_kept hc (hw₁.trans h₂.world)
      (hfiles₂.trans hfiles₁) hh hp ha hop) fun run s₃ h => Ends.pure h

def World.unlisted : World :=
  .make [.leaf (.ofText "/w/x") .file 0] "/" none
    [{ call := .list, path := some "/w", disruption := some (.errno .eacces) }] (.ofList [])

theorem ensureEmpty_empties_unlisted :
    World.unlisted.Calm ∧ World.unlisted.Honest ∧ (Path.ofText "/w").isAbsolute = true ∧
      ".." ∉ (Path.ofText "/w").parts ∧
      Ends ((World.deleter false 1 Nat.one_pos).ensureEmpty false (.ofText "/w"))
        ⟨World.unlisted, [], []⟩
        (fun b s => World.unlisted.Emptied (.ofText "/w") b s.state.files) (fun _ _ => True) := by
  have hc : World.unlisted.Calm := by
    intro e he
    change e ∈ [_] at he
    rw [List.mem_singleton.1 he]
  have hh : World.unlisted.Honest := by
    intro e he errno hd
    change e ∈ [_] at he
    rw [List.mem_singleton.1 he] at hd
    cases hd
    rfl
  have ha : (Path.ofText "/w").isAbsolute = true := by decide
  have hdots : ".." ∉ (Path.ofText "/w").parts := by decide
  exact ⟨hc, hh, ha, hdots, ensureEmpty_empties hc hh ha hdots false 1 Nat.one_pos [] []⟩

end TreeRemoval
