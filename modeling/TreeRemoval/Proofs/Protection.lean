import TreeRemoval.Command.Run
import TreeRemoval.Proofs.World.RealPath

/-! # Protected directories

The directories that targets are kept away from, as places. The check of a target compares texts, so
that it keeps a path away from them only if the path is the text of the place that it leads to, or
its real path tells that place.
-/

namespace TreeRemoval

namespace Location

variable {place guarded : Location}

def protectedPlaces : List Location := Target.protectedPaths.map ofText

/-- The place of a protected directory or, the root apart, one below it. -/
def IsProtected (place : Location) : Prop :=
  ∃ guarded ∈ protectedPlaces, place = guarded ∨ guarded ≠ [] ∧ guarded <+: place

instance : DecidablePred IsProtected := fun place =>
  inferInstanceAs (Decidable (∃ guarded ∈ protectedPlaces,
    place = guarded ∨ guarded ≠ [] ∧ guarded <+: place))

theorem protectedPaths_eq :
    Target.protectedPaths = protectedPlaces.map fun place => place.path.text := by
  decide

theorem text_path (place : Location) :
    place.path.text = "/" ++ "/".intercalate (place.map Name.text) := by
  unfold Path.text
  exact if_neg fun h => by simpa [path, Anchor.text] using congrArg String.toList h

theorem text_path_inj : place.path.text = guarded.path.text ↔ place = guarded :=
  ⟨fun h => path_injective (Path.text_injective proper_path isAbsolute_path proper_path
    isAbsolute_path h), fun h => by rw [h]⟩

theorem text_path_append (hg : guarded ≠ []) {rest : Location} (hr : rest ≠ []) :
    (path (guarded ++ rest)).text =
      guarded.path.text ++ "/" ++ "/".intercalate (rest.map Name.text) := by
  rw [text_path, text_path, List.map_append, String.intercalate_append_of_ne_nil (by simpa using hg)
    (by simpa using hr), String.append_assoc, String.append_assoc, String.append_assoc]

end Location

namespace Target

variable {place guarded : Location}

theorem isWithin_iff {guarded t : String} :
    isWithin guarded t = true ↔
      t = guarded ∨ guarded ≠ "/" ∧ (guarded ++ "/").toList <+: t.toList := by
  simp [isWithin, List.isPrefixOf_iff_prefix]

theorem isWithin_path :
    isWithin guarded.path.text place.path.text = true ↔
      place = guarded ∨ guarded ≠ [] ∧ guarded <+: place := by
  have hroot : guarded.path.text = "/" ↔ guarded = [] := @Location.text_path_inj guarded []
  simp only [isWithin_iff, Location.text_path_inj, ne_eq, hroot]
  refine or_congr_right' fun hne => and_congr_right fun hg => ⟨?_, ?_⟩
  · rintro ⟨cs, hcs⟩
    have htext : place.path.text = guarded.path.text ++ "/" ++ String.ofList cs :=
      String.toList_injective (by simpa using hcs.symm)
    have hparts := congrArg (fun t => (Path.ofText t).parts) htext
    simp only [Path.parts_ofText_append, Path.ofText_text Location.proper_path
      Location.isAbsolute_path] at hparts
    obtain ⟨front, rest, rfl, hfront, -⟩ := List.map_eq_append_iff.1 hparts
    rw [(List.map_inj_right fun _ _ => Name.ext).1 hfront]
    exact List.prefix_append _ _
  · rintro ⟨rest, rfl⟩
    have hr : rest ≠ [] := fun hr => hne (by rw [hr, List.append_nil])
    rw [Location.text_path_append hg hr, String.toList_append, String.toList_append,
      String.toList_append]
    exact List.prefix_append _ _

theorem guardOf?_path : guardOf? place.path.text = none ↔ ¬ place.IsProtected := by
  simp only [guardOf?, List.find?_eq_none, Location.protectedPaths_eq, List.forall_mem_map,
    isWithin_path, Location.IsProtected, not_exists, not_and]

/-- How the place that a path leads to can escape the check of the path: the normalised path is not
the path of the place, and it leads elsewhere, or it comes to a link that its real path stands no
longer for, or a link on its way cannot be looked at by the path of its own place. -/
structure Evades (fs : FileSystem) (followLast : Bool) (p : Path) (place : Location) : Prop where
  elsewhere : p.normalize ≠ place.path
  cause : fs.locate followLast p.normalize ≠ .ok place ∨
    (followLast = false ∧ ∃ target, fs.formAt? place = some (.link target)) ∨
    ¬ fs.ShowsLinks p.normalize

theorem path_eq_of_not_evades {fs : FileSystem} {followLast : Bool} {p : Path}
    (h : ¬ Evades fs followLast p place) :
    p.normalize = place.path ∨
      fs.locate true p.normalize = .ok place ∧ fs.ShowsLinks p.normalize := by
  refine or_iff_not_imp_left.2 fun hne => ?_
  have hl : fs.locate followLast p.normalize = .ok place :=
    by_contra fun hc => h ⟨hne, Or.inl hc⟩
  have hshort : fs.ShowsLinks p.normalize := by_contra fun hc => h ⟨hne, Or.inr (Or.inr hc)⟩
  refine ⟨?_, hshort⟩
  cases followLast with
  | true => exact hl
  | false =>
    refine FileSystem.locate_true_of_not_link hl fun target ht => ?_
    exact h ⟨hne, Or.inr (Or.inl ⟨rfl, target, ht⟩)⟩

section

variable {σ : Type} (env : Environment σ)

def judge (target : Path) : EStateM Fault σ (Except Refusal Path) := do
  let normal := target.normalize.text
  let real ← env.realPath normal
  match guardOf? normal, guardOf? real with
  | some guarded, _ | none, some guarded => return .error ⟨normal, guarded⟩
  | none, none => return .ok target

theorem check_eq (t : String) :
    check env t =
      if (Path.ofText t).isAbsolute then judge env (.ofText t)
      else env.workingDirectory >>= fun cwd => judge env ((Path.ofText cwd).under (.ofText t)) := by
  unfold check judge
  cases h : (Path.ofText t).isAbsolute with
  | true =>
    simp only [h, if_true]
    refine (pure_bind _ _).trans (bind_congr fun real => ?_)
    cases guardOf? (Path.ofText t).normalize.text <;> cases guardOf? real <;> rfl
  | false =>
    simp only [h, Bool.false_eq_true, if_false]
    refine bind_congr fun cwd => (pure_bind _ _).trans (bind_congr fun real => ?_)
    cases guardOf? ((Path.ofText cwd).under (.ofText t)).normalize.text <;>
      cases guardOf? real <;> rfl

end

end Target

def World.pathOf (w : World) (t : String) : Path :=
  (Path.ofText w.workingDirectory).under (.ofText t)

theorem World.proper_pathOf (w : World) (t : String) : (w.pathOf t).Proper :=
  (Path.proper_ofText _).under (Path.proper_ofText t)

theorem World.isAbsolute_pathOf {w : World} (h : (Path.ofText w.workingDirectory).isAbsolute = true)
    (t : String) : (w.pathOf t).isAbsolute = true :=
  Path.isAbsolute_under h

namespace Target

variable {place : Location} {w : World} {p : Path}

/-- What has passed the check leads to no protected place, with links followed or not, unless it
escapes the check. -/
theorem ends_judge (hq : w.Quiet) (hp : p.Proper) (ha : p.isAbsolute = true) :
    Ends (judge World.environment p) w
      (fun r w' => w.Still w' ∧ ∀ q, r = .ok q → q = p ∧
        ∀ followLast place, w.files.locate followLast q = .ok place → w.files.formAt? place ≠ none →
          place.IsProtected → Evades w.files followLast q place)
      (fun _ w' => w.Still w') := by
  unfold judge
  have hkeeps := World.keeps_realPath hq.calm p.normalize.text w (.refl w)
  apply Ends.bind (Q := fun real w' => w.Still w' ∧ ∀ place,
    w.files.locate true p.normalize = .ok place → w.files.formAt? place ≠ none →
      w.files.ShowsLinks p.normalize → real = place.path.text)
  · refine Ends.intro (fun real w' hm => ⟨hkeeps.ok hm, ?_⟩) fun f w' hm => hkeeps.error hm
    intro place hl hthere hshort
    exact ((World.ends_realPath hq hp.normalize ha hl hthere hshort).ok hm).2.2
  rintro real w' ⟨hw, hreal⟩
  split
  · exact Ends.pure ⟨hw, nofun⟩
  · exact Ends.pure ⟨hw, nofun⟩
  · rename_i hnormal hguard
    refine Ends.pure ⟨hw, ?_⟩
    rintro _ ⟨⟩
    refine ⟨rfl, fun followLast place hl hthere hprotected => by_contra fun hevades => ?_⟩
    rcases path_eq_of_not_evades hevades with heq | ⟨hl', hshort⟩
    · rw [heq, guardOf?_path] at hnormal
      exact hnormal hprotected
    · rw [hreal place hl' hthere hshort, guardOf?_path] at hguard
      exact hguard hprotected

/-- Checking a target changes nothing. What passes is the target's path, and it leads to no
protected place unless it escapes the check. -/
theorem ends_check (hq : w.Quiet) (hcwd : (Path.ofText w.workingDirectory).isAbsolute = true)
    (t : String) :
    Ends (check World.environment t) w
      (fun r w' => w.Still w' ∧ ∀ p, r = .ok p → p = w.pathOf t ∧
        ∀ followLast place, w.files.locate followLast p = .ok place → w.files.formAt? place ≠ none →
          place.IsProtected → Evades w.files followLast p place)
      (fun _ w' => w.Still w') := by
  have hjudge := ends_judge hq (World.proper_pathOf w t) (World.isAbsolute_pathOf hcwd t)
  rw [check_eq]
  split
  · rename_i ha
    have hpath : w.pathOf t = .ofText t := if_pos ha
    rwa [hpath] at hjudge ⊢
  · refine Ends.seq World.ends_currentDirectory ?_ ?_
    · rintro f w' rfl
      exact .refl _
    · rintro cwd w' ⟨hsame, htext⟩
      rw [hsame, htext]
      exact hjudge

/-- If a target passes the check, then a protected place that it leads to, with a last link followed
or not, has escaped the check. -/
theorem check_evades (hq : w.Quiet) (hcwd : (Path.ofText w.workingDirectory).isAbsolute = true)
    {t : String} {w' : World} (hpassed : check World.environment t w = .ok (.ok p) w')
    {followLast : Bool} (hleads : w.files.locate followLast p = .ok place)
    (hthere : w.files.formAt? place ≠ none) (hprotected : place.IsProtected) :
    Evades w.files followLast p place := by
  obtain ⟨-, h⟩ := (ends_check hq hcwd t).ok hpassed
  exact (h p rfl).2 followLast place hleads hthere hprotected

/-- A link to a directory below a protected one. -/
def linkedIn : World :=
  .make [.directory (.ofText "/etc/sub") 0, .leaf (.ofText "/etc/passwd") .file 0,
    .leaf (.ofText "/a") (.link "/etc/sub") 0] "/" none [] (.ofList [])

/-- A double dot behind a link leads into a protected directory. -/
theorem check_evades_linkedIn :
    linkedIn.Quiet ∧ (Path.ofText linkedIn.workingDirectory).isAbsolute = true ∧
      (∃ w', check World.environment "/a/../passwd" linkedIn =
        .ok (.ok (.ofText "/a/../passwd")) w') ∧
      linkedIn.files.locate false (.ofText "/a/../passwd") = .ok (.ofText "/etc/passwd") ∧
      linkedIn.files.formAt? (.ofText "/etc/passwd") ≠ none ∧
      (Location.ofText "/etc/passwd").IsProtected ∧
      Evades linkedIn.files false (.ofText "/a/../passwd") (.ofText "/etc/passwd") := by
  have hq : linkedIn.Quiet := by
    intro e he
    cases he
  have hcwd : (Path.ofText linkedIn.workingDirectory).isAbsolute = true := by decide
  have hrun : (check World.environment "/a/../passwd").run' linkedIn =
      some (.ok (.ofText "/a/../passwd")) := by decide +kernel
  have hleads : linkedIn.files.locate false (.ofText "/a/../passwd") =
      .ok (.ofText "/etc/passwd") := by decide +kernel
  have hthere : linkedIn.files.formAt? (.ofText "/etc/passwd") ≠ none := by decide +kernel
  have hprotected : (Location.ofText "/etc/passwd").IsProtected := by decide +kernel
  obtain ⟨w', hpassed⟩ := exists_of_run' hrun
  exact ⟨hq, hcwd, ⟨w', hpassed⟩, hleads, hthere, hprotected,
    check_evades hq hcwd hpassed hleads hthere hprotected⟩

end Target

end TreeRemoval
