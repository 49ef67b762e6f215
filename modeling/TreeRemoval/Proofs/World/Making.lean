import Mathlib.Data.List.Induction
import TreeRemoval.Proofs.World.Answers

/-! # Making directories

What making a directory together with the missing ones above it does, with nobody else at work. The
directories that are made are empty, so that nothing but the next one is found below them.
-/

namespace TreeRemoval

namespace FileSystem

variable {fs fs' : FileSystem} {workingDirectory : String} {p : Path} {time : Option Float}

def IsEmptyDirectory (fs : FileSystem) (p : Path) : Prop :=
  ∃ place, fs.locate true p = .ok place ∧ fs.formAt? place = some .directory ∧
    ∀ n, fs.get? (place ++ [n]) = none

def Makes (fs : FileSystem) (p : Path) (fs' : FileSystem) : Prop :=
  ∃ new, fs.locate false p = .ok new ∧ fs.get? new = none ∧
    ∀ place, fs'.formAt? place = if place = new then some .directory else fs.formAt? place

theorem Makes.le (h : fs.Makes p fs') : fs ≤ fs' := by
  obtain ⟨new, -, hn, hf⟩ := h
  intro place form hform
  rw [hf]
  split
  · rename_i he
    rw [he, formAt?_eq_none_iff.2 hn] at hform
    cases hform
  · exact hform

theorem formAt?_put_directory {parent : Location} {name : Name} {m : Float}
    (hd : fs.formAt? parent = some .directory) (hn : fs.get? (parent ++ [name]) = none)
    (h : (Node.directory m []).WellFormed) (place : Location) :
    (fs.put (parent ++ [name]) (.directory m []) h).formAt? place =
      if place = parent ++ [name] then some .directory else fs.formAt? place := by
  rw [formAt?_eq, bareAt?_put_entry hd]
  by_cases hp : parent ++ [name] <+: place
  · obtain ⟨rest, rfl⟩ := hp
    rw [if_pos (List.prefix_append _ _), List.drop_left' (by simp)]
    cases rest with
    | nil => simp [Node.bare, Node.form]
    | cons n rest =>
      have hnone : fs.formAt? (parent ++ [name] ++ n :: rest) = none := by
        rw [formAt?_eq_none_iff, get?_append, hn]
        rfl
      rw [if_neg (by simp), hnone]
      rfl
  · rw [if_neg hp, if_neg (by rintro rfl; exact hp List.prefix_rfl), formAt?_eq]

theorem mkdir_makes (hp : p.Proper) (ha : p.isAbsolute = true)
    (h : fs.mkdir workingDirectory time p.text = .ok fs') : fs.Makes p fs' := by
  unfold mkdir at h
  cases hr : fs.resolve workingDirectory false p.text with
  | error e => rw [hr] at h; cases h
  | ok arrival =>
    obtain ⟨hl, hs⟩ := locate_of_resolve hp ha hr
    rw [hr] at h
    cases arrival with
    | inside place => cases h
    | entry parent name node =>
      obtain ⟨hd, rfl⟩ := hs
      cases hn : fs.get? (parent ++ [name]) with
      | some node => simp [hn, bind, Except.bind] at h
      | none =>
        simp only [hn, bind, Except.bind, Except.ok.injEq] at h
        refine ⟨parent ++ [name], hl, hn, fun place => ?_⟩
        rw [← h, formAt?_touch, formAt?_put_directory hd hn]

theorem Makes.isEmptyDirectory {n : Name} (ha : p.isAbsolute = true) (h : fs.Makes (p.child n) fs') :
    fs'.IsEmptyDirectory (p.child n) := by
  have hle := h.le
  obtain ⟨new, hl, hn, hf⟩ := h
  obtain ⟨hbytes, hname, parent, hparent, hdir, rfl⟩ := (locate_child_eq_ok_iff ha).1 hl
  have hnew : fs'.formAt? (parent ++ [n]) = some .directory := by rw [hf, if_pos rfl]
  have hparent' := locate_mono hle hparent (by rw [hdir]; simp)
  have hl' := (locate_child_eq_ok_iff ha).2
    ⟨hbytes, hname, parent, hparent', hle _ _ hdir, rfl⟩
  refine ⟨parent ++ [n], locate_true_of_not_link hl' (by simp [hnew]), hnew, fun m => ?_⟩
  rw [← formAt?_eq_none_iff, hf, if_neg (by simp), formAt?_eq_none_iff, get?_append, hn]
  rfl

theorem IsEmptyDirectory.get?_eq_none (ha : p.isAbsolute = true) (h : fs.IsEmptyDirectory p)
    {names : List Name} (hne : names ≠ []) {place : Location}
    (hl : fs.locate true (p.descend names) = .ok place) : fs.get? place = none := by
  obtain ⟨top, htop, -, hempty⟩ := h
  induction names using List.reverseRecOn generalizing place with
  | nil => exact absurd rfl hne
  | append_singleton names n ih =>
    rw [Path.descend_concat] at hl
    have hfalse : ∀ {loc}, fs.locate false ((p.descend names).child n) = .ok loc →
        fs.get? loc = none := by
      intro loc hloc
      obtain ⟨-, -, parent, hparent, hdir, rfl⟩ :=
        (locate_child_eq_ok_iff (p := p.descend names) ha).1 hloc
      by_cases hnil : names = []
      · rw [hnil, Path.descend_nil, htop] at hparent
        cases hparent
        exact hempty n
      · rw [get?_append, ih hnil hparent]
        rfl
    rcases locate_false_of_true hl with hl' | ⟨loc, target, hl', hlink⟩
    · exact hfalse hl'
    · rw [formAt?_eq_none_iff.2 (hfalse hl')] at hlink
      cases hlink

end FileSystem

namespace World

variable {w : World} {p : Path} {anchor : Anchor}

theorem ends_makeOne (hc : w.Calm) (hp : p.Proper) (ha : p.isAbsolute = true) :
    Ends (Environment.makeDirectories.makeOne environment p.text) w
      (fun _ w' => w.Follows w' ∧ (w.files.Makes p w'.files ∨
        w'.files = w.files ∧ LeadsToDirectory w.files p))
      (fun _ w' => w.Follows w' ∧ (w.files.Makes p w'.files ∨ w'.files = w.files)) := by
  unfold Environment.makeDirectories.makeOne
  apply Ends.bind (Q := fun r w' => w.Follows w' ∧ (w.files.Makes p w'.files ∨
    (∃ f, r = .error f) ∧ w'.files = w.files))
  · refine Ends.outcome ((ends_changing hc fun files cwd time => files.mkdir cwd time p.text).mono
      ?_ ?_)
    · rintro - w' ⟨hf, -, hm⟩
      exact ⟨hf, Or.inl (FileSystem.mkdir_makes hp ha hm)⟩
    · rintro f w' ⟨hf, ⟨hfiles, -⟩ | ⟨hm, -⟩⟩
      · exact ⟨hf, Or.inr ⟨⟨f, rfl⟩, hfiles⟩⟩
      · exact ⟨hf, Or.inl (FileSystem.mkdir_makes hp ha hm)⟩
  · rintro (f | _) w₁ ⟨hf, hm⟩
    · have hm' : w.files.Makes p w₁.files ∨ w₁.files = w.files := hm.imp_right And.right
      cases f with
      | system e =>
        refine Ends.bind ((ends_isDirectory (hf.calm hc) hp ha).mono (fun _ _ h => h) ?_) ?_
        · rintro f w₂ ⟨hf₂, hfiles, -⟩
          exact ⟨hf.trans hf₂, hfiles ▸ hm'⟩
        · rintro (_ | _) w₂ ⟨hf₂, hfiles, hyes, -⟩
          · exact Ends.throw ⟨hf.trans hf₂, hfiles ▸ hm'⟩
          · refine Ends.pure ⟨hf.trans hf₂, ?_⟩
            rw [hfiles]
            rcases hm' with hm' | hsame
            · exact Or.inl hm'
            · exact Or.inr ⟨hsame, hsame ▸ (hyes rfl).2⟩
      | nullByte | cancelled | interrupted => exact Ends.throw ⟨hf, hm'⟩
    · refine Ends.pure ⟨hf, Or.inl ?_⟩
      rcases hm with hm | ⟨⟨f, hr⟩, -⟩
      · exact hm
      · cases hr

theorem ends_pathExists (hc : w.Calm) {t : String} :
    Ends (environment.pathExists t) w (fun _ w' => w.Follows w' ∧ w'.files = w.files)
      (fun _ w' => w.Follows w' ∧ w'.files = w.files) :=
  (ends_shows hc (fun files cwd => files.stat cwd t) _).mono (fun _ _ h => ⟨h.1, h.2.1⟩)
    fun _ _ h => ⟨h.1, h.2.1⟩

/-- Nothing has changed, or a path on the way to the names is an empty directory now. -/
def Makings (fs : FileSystem) (anchor : Anchor) (names : List Name) (fs' : FileSystem) : Prop :=
  fs' = fs ∨ ∃ above below, names = above ++ below ∧
    fs'.IsEmptyDirectory ((Path.mk anchor []).descend above)

theorem Makings.concat {fs fs' : FileSystem} {names : List Name} (h : Makings fs anchor names fs')
    (n : Name) : Makings fs anchor (names ++ [n]) fs' := by
  rcases h with h | ⟨above, below, rfl, he⟩
  · exact Or.inl h
  · exact Or.inr ⟨above, below ++ [n], List.append_assoc .., he⟩

/-- There is an empty directory at the end of the names, or there was a directory before and nothing
has changed. -/
def Made (fs : FileSystem) (anchor : Anchor) (names : List Name) (fs' : FileSystem) : Prop :=
  fs'.IsEmptyDirectory ((Path.mk anchor []).descend names) ∨
    fs' = fs ∧ LeadsToDirectory fs ((Path.mk anchor []).descend names)

theorem Made.makings {fs fs' : FileSystem} {names : List Name} (h : Made fs anchor names fs') :
    Makings fs anchor names fs' := by
  rcases h with h | ⟨rfl, -⟩
  · exact Or.inr ⟨names, [], by simp, h⟩
  · exact Or.inl rfl

section Making

variable {w' : World} {names : List Name}

variable (hc : w.Calm) (ha : anchor ≠ .here)

include hc ha

/-- The root cannot be made, since it is there. -/
theorem ends_makeRoot :
    Ends (Environment.makeDirectories.makeOne environment (Path.mk anchor []).text) w
      (fun _ w' => w.Follows w' ∧ Made w.files anchor [] w'.files)
      (fun _ w' => w.Follows w' ∧ Makings w.files anchor [] w'.files) := by
  have habs : (Path.mk anchor []).isAbsolute = true := by simpa [Path.isAbsolute] using ha
  have hroot : ∀ {fs'}, ¬ w.files.Makes (.mk anchor []) fs' := by
    rintro fs' ⟨new, hl, hn, -⟩
    have hnil : new = [] := by
      unfold FileSystem.locate at hl
      split at hl
      · cases hl
      · rw [Path.steps, List.filterMap_nil, FileSystem.reach_nil] at hl
        cases hl
        rfl
    rw [hnil, ← FileSystem.formAt?_eq_none_iff, FileSystem.formAt?_root] at hn
    cases hn
  unfold Made
  rw [Path.descend_nil]
  apply (ends_makeOne hc (by simp [Path.Proper]) habs).mono
  · rintro - w' ⟨hf, hm | h⟩
    · exact absurd hm hroot
    · exact ⟨hf, Or.inr h⟩
  · rintro f w' ⟨hf, hm | h⟩
    · exact absurd hm hroot
    · exact ⟨hf, Or.inl h⟩

/-- What has been made of the directories above decides what the last call can find. -/
theorem ends_makeLast (n : Name) (hf : w.Follows w') (hm : Makings w.files anchor names w'.files) :
    Ends (Environment.makeDirectories.makeOne environment
        (Path.mk anchor (names.map Name.text ++ [n.text])).text) w'
      (fun _ w' => w.Follows w' ∧ Made w.files anchor (names ++ [n]) w'.files)
      (fun _ w' => w.Follows w' ∧ Makings w.files anchor (names ++ [n]) w'.files) := by
  have habs : (Path.mk anchor []).isAbsolute = true := by simpa [Path.isAbsolute] using ha
  have hp : ((Path.mk anchor []).descend names).Proper :=
    Path.Proper.descend (by simp [Path.Proper]) names
  have htext : Path.mk anchor (names.map Name.text ++ [n.text]) =
      ((Path.mk anchor []).descend names).child n := by
    simp [Path.descend, Path.child]
  unfold Made
  rw [htext, Path.descend_concat]
  apply (ends_makeOne (hf.calm hc) (hp.child n) habs).mono
  · rintro - w₂ ⟨hf', hmade | ⟨hsame, place, hl, hd⟩⟩
    · exact ⟨hf.trans hf', Or.inl (hmade.isEmptyDirectory habs)⟩
    · refine ⟨hf.trans hf', Or.inr ?_⟩
      rcases hm with hm | ⟨above, below, rfl, he⟩
      · exact ⟨hsame.trans hm, hm ▸ ⟨place, hl, hd⟩⟩
      · have hbelow : ((Path.mk anchor []).descend (above ++ below)).child n =
            ((Path.mk anchor []).descend above).descend (below ++ [n]) := by
          simp [Path.descend, Path.child]
        rw [hbelow] at hl
        have hnone := he.get?_eq_none
          (p := (Path.mk anchor []).descend above) habs (by simp) hl
        rw [FileSystem.formAt?_eq_none_iff.2 hnone] at hd
        cases hd
  · rintro f w₂ ⟨hf', hmade | hsame⟩
    · refine ⟨hf.trans hf', Or.inr ⟨names ++ [n], [], by simp, ?_⟩⟩
      rw [Path.descend_concat]
      exact hmade.isEmptyDirectory habs
    · exact ⟨hf.trans hf', hsame ▸ hm.concat n⟩

theorem ends_makeDirectories (names : List Name) :
    Ends (environment.makeDirectories anchor (names.map Name.text).reverse) w
      (fun _ w' => w.Follows w' ∧ Made w.files anchor names w'.files)
      (fun _ w' => w.Follows w' ∧ Makings w.files anchor names w'.files) := by
  induction names using List.reverseRecOn generalizing w with
  | nil => exact ends_makeRoot hc ha
  | append_singleton names n ih =>
    rw [List.map_append, List.reverse_append, List.map_singleton, List.reverse_singleton,
      List.singleton_append]
    unfold Environment.makeDirectories
    simp only [ne_eq, ha, not_false_eq_true, decide_true, Bool.true_or, if_true, List.reverse_cons,
      List.reverse_reverse]
    apply Ends.seq (ends_pathExists hc) (fun f w₁ h => ⟨h.1, Or.inl h.2⟩)
    rintro (_ | _) w₁ ⟨hf, hsame⟩
    rotate_left
    · exact ends_makeLast hc ha n hf (Or.inl hsame)
    have hrec := ih (hf.calm hc)
    rw [hsame] at hrec
    have hthrow : ∀ {w₂ f} {next : EStateM Fault World Unit}, w.Follows w₂ →
        Makings w.files anchor names w₂.files → Ends (throw f >>= fun _ : Unit => next) w₂
          (fun _ w' => w.Follows w' ∧ Made w.files anchor (names ++ [n]) w'.files)
          (fun _ w' => w.Follows w' ∧ Makings w.files anchor (names ++ [n]) w'.files) :=
      fun hf hm => Ends.bind (Q := fun _ _ => False) (Ends.throw ⟨hf, hm.concat n⟩) fun _ _ h => h.elim
    apply Ends.bind (Q := fun _ w₂ => w.Follows w₂ ∧ Makings w.files anchor names w₂.files)
      (Ends.outcome (hrec.mono (fun _ _ h => ⟨hf.trans h.1, h.2.makings⟩)
        fun _ _ h => ⟨hf.trans h.1, h.2⟩))
    rintro (f | _) w₂ ⟨hf₂, hm⟩
    · cases f with
      | system e =>
        simp only
        split
        · exact ends_makeLast hc ha n hf₂ hm
        · exact hthrow hf₂ hm
      | nullByte | cancelled | interrupted => exact hthrow hf₂ hm
    · exact ends_makeLast hc ha n hf₂ hm

end Making

end World

end TreeRemoval
