import TreeRemoval.Command.Run
import TreeRemoval.Proofs.FileSystem.Ground
import TreeRemoval.Proofs.Protection
import TreeRemoval.Proofs.Reach

/-! # Protected directories in reach of the command

The check of a target looks at one path, and the work that follows reaches much more. What is
protected and still removed lies below the target, or below the directory that a followed link leads
to, or it is a link that the target names by two slashes.
-/

namespace TreeRemoval

open World Deletion

namespace FileSystem

variable {fs : FileSystem} {place loc : Location}

/-- An absolute path that goes by names through directories. -/
structure Plain (fs : FileSystem) (root : Path) (place : Location) : Prop where
  isAbsolute : root.isAbsolute = true
  eq_descend : root = (Path.mk root.anchor []).descend place
  parent : fs.formAt? place.dropLast = some .directory

namespace Plain

variable {root : Path}

theorem ofText {t : String} (ha : (Path.ofText t).isAbsolute = true)
    (hdots : ".." ∉ (Path.ofText t).parts)
    (hparent : fs.formAt? (Location.ofText t).dropLast = some .directory) :
    fs.Plain (.ofText t) (.ofText t) :=
  ⟨ha, Path.ofText_eq_descend hdots, hparent⟩

variable (h : fs.Plain root place)

include h

theorem normalize : root.normalize = root := by
  rw [h.eq_descend]
  exact Path.normalize_names _ _

theorem eq_path (ha : root.anchor = .root) : root = place.path := by
  rw [h.eq_descend, ha, Location.path_eq_descend]
  rfl

theorem formAt?_front {front : Location} (hp : front <+: place) (hne : front ≠ place) :
    fs.formAt? front = some .directory := by
  obtain ⟨back, rfl⟩ := hp
  have hback : back ≠ [] := fun hb => hne (by rw [hb, List.append_nil])
  refine formAt?_above h.parent ?_
  rw [List.dropLast_append_of_ne_nil hback]
  exact List.prefix_append _ _

theorem locate_eq (hl : fs.locate false root = .ok loc) : loc = place := by
  have hanchor : root.anchor ≠ .here := by simpa [Path.isAbsolute] using h.isAbsolute
  rw [h.eq_descend] at hl
  refine locate_descend_eq (p := ⟨root.anchor, []⟩) h.isAbsolute (locate_anchor hanchor) ?_ hl
  rintro front back hne rfl target hlink
  rw [List.nil_append, h.formAt?_front (List.prefix_append _ _) (by simpa using hne.symm)] at hlink
  cases hlink

theorem showsLinks (hn : ∀ target, fs.formAt? place ≠ some (.link target)) :
    fs.ShowsLinks root := by
  have hno : ∀ front, front <+: place → ∀ target, fs.formAt? front ≠ some (.link target) := by
    intro front hp target hlink
    by_cases he : front = place
    · exact hn target (he ▸ hlink)
    · rw [h.formAt?_front hp he] at hlink
      cases hlink
  intro loc hm target hlink
  unfold trail at hm
  rw [h.eq_descend, Path.steps_descend] at hm
  have hp : loc <+: [] ++ place := trailOf_names (fun front hp _ _ => hno front hp) hm
  exact absurd hlink (hno loc hp target)

theorem link_of_evades (hl : fs.locate false root = .ok place)
    (he : Target.Evades fs false root place) :
    root.anchor = .doubleRoot ∧ ∃ target, fs.formAt? place = some (.link target) := by
  obtain ⟨helsewhere, hcause⟩ := he
  rw [h.normalize] at helsewhere hcause
  constructor
  · cases hanchor : root.anchor with
    | here => simpa [Path.isAbsolute, hanchor] using h.isAbsolute
    | root => exact absurd (h.eq_path hanchor) helsewhere
    | doubleRoot => rfl
  · by_contra hn
    rcases hcause with hl' | ⟨-, hlink⟩ | hshort
    · exact hl' hl
    · exact hn hlink
    · exact hshort (h.showsLinks fun target ht => hn ⟨target, ht⟩)

end Plain

end FileSystem

namespace World

variable {w : World} {followSymlinks : Bool} {root : Path} {place loc : Location}
  {names : List Name}

/-- What a walk meets is below the place of its root, or below a directory that a link it follows
leads to. -/
theorem Visits.below_or_linked (hq : w.Quiet) (ha : root.isAbsolute = true)
    (hv : w.Visits followSymlinks root names)
    (hl : w.files.locate false (root.descend names) = .ok loc) :
    (∃ place, w.files.locate false root = .ok place ∧ place <+: loc) ∨
      ∃ front top, w.Visits followSymlinks root front ∧ followSymlinks = true ∧
        IsLinkAt w.files (root.descend front) ∧
        w.files.locate true (root.descend front) = .ok top ∧
        w.files.formAt? top = some .directory ∧ top <+: loc ∧ top ≠ loc := by
  induction hv generalizing loc with
  | root => exact Or.inl ⟨loc, by simpa using hl, List.prefix_rfl⟩
  | @child names place n hv hop ih =>
    rw [Path.descend_concat] at hl
    obtain ⟨-, -, parent, hparent, -, rfl⟩ :=
      (FileSystem.locate_child_eq_ok_iff (p := root.descend names) ha).1 hl
    rw [hop.leads] at hparent
    cases hparent
    by_cases hlink : IsLinkAt w.files (root.descend names)
    · have hfollow : followSymlinks = true := by
        rcases hop.allowed with hf | hnot | hblind
        · exact hf
        · exact absurd hlink hnot
        · exact absurd hblind hq.not_mayBlind
      exact Or.inr ⟨names, place, hv, hfollow, hlink, hop.leads, hop.directory,
        List.prefix_append _ _, by simp⟩
    · have hplace : w.files.locate false (root.descend names) = .ok place := by
        rcases FileSystem.locate_false_of_true hop.leads with hl' | ⟨loc, target, hl', hf⟩
        · exact hl'
        · exact absurd ⟨loc, target, hl', hf⟩ hlink
      rcases ih hplace with ⟨top, htop, hp⟩ | ⟨front, top, hv', hf, hlink', hleads, hd, hp, hne⟩
      · exact Or.inl ⟨top, htop, hp.trans (List.prefix_append _ _)⟩
      · refine Or.inr ⟨front, top, hv', hf, hlink', hleads, hd,
          hp.trans (List.prefix_append _ _), ?_⟩
        rintro rfl
        have hlength := hp.length_le
        rw [List.length_append, List.length_singleton] at hlength
        omega

end World

/-- What a deleter is that was made with both its procedures given. -/
theorem Deleter.eq_of_make_given {σ : Type} {env : Environment σ} {now : σ → Float × σ}
    {isSymlink : Path → EStateM Fault σ Bool} {gc : Bool} {level : String} {cap : Int}
    {registry registry' : Log.Registry} {d : Deleter σ}
    (h : make env ⟨.given now, .given isSymlink, gc, level, cap⟩ registry = .ok (d, registry')) :
    ∃ hcap, d = ⟨env, now, isSymlink, gc, cap.toNat, hcap⟩ := by
  simp only [make] at h
  split at h
  · cases hl : registry.setUp loggerName level .standardOutput with
    | error e => rw [hl] at h; cases h
    | ok r => rw [hl] at h; cases h; exact ⟨_, rfl⟩
  · cases h

namespace Command

variable {w : World} {o : Options} {p : Path}

/-- The work on a target takes away nothing out of reach. -/
theorem ends_work (hc : w.Calm) {gc : Bool} {cap : Nat} {hcap : 0 < cap} (hp : p.Proper)
    (ha : p.isAbsolute = true) {s : Session World} (hs : w.Still s.state) :
    Ends (work (deleter gc cap hcap) p o) s
      (fun _ s' => w.GoesOn (w.Meets o.followSymlinks p) s'.state)
      (fun _ s' => w.GoesOn (w.Meets o.followSymlinks p) s'.state) := by
  have hlast : ∀ deleted : Bool, Keeps
      (fun s' : Session World => w.GoesOn (w.Meets o.followSymlinks p) s'.state)
      (if !deleted then note .info "Nothing to delete" [("path", .text p.text)] else pure ()) := by
    rintro (_ | _)
    · exact .note _ _ _
    · exact .pure _
  unfold work
  apply Ends.seq (Keeps.note _ _ _ s hs) fun _ _ h => h.goesOn
  rintro - s₁ hs₁
  cases o.ensureEmpty with
  | true =>
    exact Ends.bind (Deleter.ends_ensureEmpty_spares hc hp ha hs₁) fun deleted s₂ h₂ =>
      hlast deleted s₂ h₂
  | false =>
    exact Ends.bind (Deleter.ends_deleteTree_spares hc hp ha hs₁) fun deleted s₂ h₂ =>
      hlast deleted s₂ h₂

/-- The command changes no files, or its target has passed the check and what is out of its reach is
spared. -/
theorem perform_spares (hq : w.Quiet) (ha : (Path.ofText o.path).isAbsolute = true) :
    (perform environment World.now o w).2.files = w.files ∨
      (∀ followLast place, w.files.locate followLast (.ofText o.path) = .ok place →
        w.files.formAt? place ≠ none → place.IsProtected →
          Target.Evades w.files followLast (.ofText o.path) place) ∧
      w.Spares (w.Meets o.followSymlinks (.ofText o.path))
        (perform environment World.now o w).2.files := by
  have hjudge := Target.ends_judge hq (Path.proper_ofText o.path) ha
  have hcheck : Target.check environment o.path = Target.judge environment (.ofText o.path) := by
    rw [Target.check_eq, if_pos ha]
  unfold perform
  rw [hcheck]
  cases hm : Target.judge environment (.ofText o.path) w with
  | error f w₁ => exact Or.inl (hjudge.error hm).2
  | ok r w₁ =>
    obtain ⟨hw₁, hpassed⟩ := hjudge.ok hm
    cases r with
    | error refusal => exact Or.inl hw₁.2
    | ok p =>
      obtain ⟨rfl, hevades⟩ := hpassed p rfl
      dsimp only
      split
      · exact Or.inl hw₁.2
      · rename_i d registry hmake
        obtain ⟨hcap, rfl⟩ := Deleter.eq_of_make_given hmake
        have hwork : Ends (work (deleter o.collectGarbage _ hcap) (.ofText o.path) o)
            { state := w₁ } _ _ :=
          ends_work hq.calm (Path.proper_ofText o.path) ha hw₁
        refine Or.inr ⟨hevades, ?_⟩
        split
        · rename_i s hm
          exact (hwork.ok hm).2
        · rename_i e s hm
          exact (hwork.error hm).2

end Command

namespace World

/-- How the check of a target overlooks a place that the work on it comes to. -/
inductive Overlooked (w : World) (followSymlinks : Bool) (root : Path) (place loc : Location) : Prop
  /-- The target is not protected, but something in it is. -/
  | inside (hroot : ¬ place.IsProtected) (hp : place <+: loc) (hne : place ≠ loc)
  /-- The target is a protected link, by a text with two slashes in front. -/
  | doubled (hanchor : root.anchor = .doubleRoot)
      (hlink : ∃ target, w.files.formAt? loc = some (.link target)) (hsame : loc = place)
  /-- A link is followed to a directory with something protected in it. Where the link is the
  target, that directory is not protected itself, unless its real path is not found out. -/
  | linked {names : List Name} {top : Location} (hfollow : followSymlinks = true)
      (hv : w.Visits followSymlinks root names) (hlink : IsLinkAt w.files (root.descend names))
      (hleads : w.files.locate true (root.descend names) = .ok top)
      (hdir : w.files.formAt? top = some .directory) (hp : top <+: loc) (hne : top ≠ loc)
      (hroot : names = [] → top.IsProtected → ¬ w.files.ShowsLinks root)

variable {w : World} {followSymlinks : Bool} {root : Path} {place loc : Location}

theorem Meets.overlooked (hq : w.Quiet) (hplain : w.files.Plain root place)
    (hcheck : ∀ followLast place, w.files.locate followLast root = .ok place →
      w.files.formAt? place ≠ none → place.IsProtected →
        Target.Evades w.files followLast root place)
    (hthere : w.files.formAt? loc ≠ none) (hprotected : loc.IsProtected)
    (hm : w.Meets followSymlinks root loc) : w.Overlooked followSymlinks root place loc := by
  obtain ⟨names, hv, hl⟩ := hm
  rcases hv.below_or_linked hq hplain.isAbsolute hl with
    ⟨place', hplace, hp⟩ | ⟨front, top, hv', hfollow, hlink, hleads, hdir, hp, hne⟩
  · obtain rfl := hplain.locate_eq hplace
    by_cases hroot : place'.IsProtected
    · obtain ⟨back, rfl⟩ := hp
      have hbelow : back ≠ [] → w.files.formAt? place' = some .directory := fun hb =>
        FileSystem.formAt?_of_append hb (FileSystem.formAt?_eq_none_iff.not.1 hthere)
      have hnone : w.files.formAt? place' ≠ none := by
        rcases eq_or_ne back [] with rfl | hb
        · simpa using hthere
        · simp [hbelow hb]
      obtain ⟨hanchor, target, hlink⟩ :=
        hplain.link_of_evades hplace (hcheck false place' hplace hnone hroot)
      -- Nothing is below a link.
      obtain rfl : back = [] := by
        by_contra hb
        rw [hbelow hb] at hlink
        cases hlink
      exact .doubled hanchor ⟨target, by simpa using hlink⟩ (List.append_nil _)
    · exact .inside hroot hp fun he => hroot (he ▸ hprotected)
  · refine .linked hfollow hv' hlink hleads hdir hp hne ?_
    rintro rfl hprotected
    rw [Path.descend_nil] at hleads
    obtain ⟨-, hl' | ⟨⟨⟩, -⟩ | hshort⟩ := hcheck true top hleads (by simp [hdir]) hprotected
    · rw [hplain.normalize] at hl'
      exact absurd hleads hl'
    · rwa [hplain.normalize] at hshort

end World

namespace Command

/-- With nobody else at work, a target that goes by names through directories is emptied or deleted
without harm to what is protected, unless the check overlooks it. -/
theorem run_overlooks {w : World} (hq : w.Quiet) {variableOf : String → Option String}
    {args : List String} {o : Options}
    (hargs : Request.ofArguments (Defaults.ofVariables variableOf) args = .perform o)
    (ha : (Path.ofText o.path).isAbsolute = true) (hdots : ".." ∉ (Path.ofText o.path).parts)
    (hparent : w.files.formAt? (Location.ofText o.path).dropLast = some .directory) {loc : Location}
    {form : Form} (hthere : w.files.formAt? loc = some form) (hprotected : loc.IsProtected)
    (hgone : (run environment World.now variableOf args w).2.files.formAt? loc ≠ some form) :
    w.Overlooked o.followSymlinks (.ofText o.path) (.ofText o.path) loc := by
  simp only [run, hargs] at hgone
  rcases perform_spares hq ha with hsame | ⟨hcheck, hspares⟩
  · rw [hsame] at hgone
    exact absurd hthere hgone
  · have hmeets : w.Meets o.followSymlinks (.ofText o.path) loc :=
      by_contra fun hout => hgone (hspares loc form hthere hout)
    exact hmeets.overlooked hq (.ofText ha hdots hparent) hcheck (by simp [hthere])
      hprotected

def installed : World :=
  .make [.leaf (.ofText "/usr/bin/ls") .file 0] "/" none [] (.ofList [])

/-- The directory around a protected one is deleted with it. -/
theorem run_overlooks_installed :
    installed.Quiet ∧
      Request.ofArguments (Defaults.ofVariables fun _ => none) ["/usr"] =
        .perform ⟨"/usr", false, false, false, "INFO"⟩ ∧
      (Path.ofText "/usr").isAbsolute = true ∧ ".." ∉ (Path.ofText "/usr").parts ∧
      installed.files.formAt? (Location.ofText "/usr").dropLast = some .directory ∧
      installed.files.formAt? (.ofText "/usr/bin/ls") = some .file ∧
      (Location.ofText "/usr/bin/ls").IsProtected ∧
      (run environment World.now (fun _ => none) ["/usr"] installed).2.files.formAt?
        (.ofText "/usr/bin/ls") ≠ some .file ∧
      installed.Overlooked false (.ofText "/usr") (.ofText "/usr") (.ofText "/usr/bin/ls") := by
  have hq : installed.Quiet := by
    intro e he
    cases he
  have hargs : Request.ofArguments (Defaults.ofVariables fun _ => none) ["/usr"] =
      .perform ⟨"/usr", false, false, false, "INFO"⟩ := by decide +kernel
  have ha : (Path.ofText "/usr").isAbsolute = true := by decide
  have hdots : ".." ∉ (Path.ofText "/usr").parts := by decide
  have hparent : installed.files.formAt? (Location.ofText "/usr").dropLast = some .directory := by
    decide +kernel
  have hthere : installed.files.formAt? (.ofText "/usr/bin/ls") = some .file := by decide +kernel
  have hprotected : (Location.ofText "/usr/bin/ls").IsProtected := by decide +kernel
  have hgone : (run environment World.now (fun _ => none) ["/usr"] installed).2.files.formAt?
      (.ofText "/usr/bin/ls") ≠ some .file := by decide +kernel
  exact ⟨hq, hargs, ha, hdots, hparent, hthere, hprotected, hgone,
    run_overlooks hq hargs ha hdots hparent hthere hprotected hgone⟩

end Command

end TreeRemoval
