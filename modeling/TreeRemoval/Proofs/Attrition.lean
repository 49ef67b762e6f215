import TreeRemoval.Proofs.Deletion.Amid
import TreeRemoval.Proofs.Deletion.Tour

/-! # Attrition

A deletion while others take nodes away. Whatever vanishes between two calls counts as deleted, so
that nothing fails, unless a link that is followed loses its directory just when this is about to be
listed. The link then counts as gone, but it is still there.
-/

namespace TreeRemoval

open World Deletion Chronicle

def Step.name? : Step → Option Name
  | enter n => some n
  | stay | up => none

def Unfit (t : String) : Prop :=
  '\x00' ∈ t.toList ∨ FileSystem.maxPathBytes < t.utf8ByteSize ∨
    ∃ n, Step.enter n ∈ Step.ofPath t ∧ n.isTooLong = true

instance : DecidablePred Unfit := fun t =>
  have : Decidable (∃ n, Step.enter n ∈ Step.ofPath t ∧ n.isTooLong = true) :=
    decidable_of_iff (∃ s ∈ Step.ofPath t, ∃ n ∈ s.name?, n.isTooLong = true) (by
      constructor
      · rintro ⟨s, hs, n, hn, hlong⟩
        cases s with
        | enter m => cases hn; exact ⟨n, hs, hlong⟩
        | stay | up => cases hn
      · rintro ⟨n, hn, hlong⟩
        exact ⟨.enter n, hn, n, rfl, hlong⟩)
  inferInstanceAs (Decidable (_ ∨ _ ∨ _))

namespace FileSystem

variable {fs fs' before : FileSystem} {p base : Path} {loc place : Location} {n : Name}
  {workingDirectory : String} {time : Option Float} {e : Errno}

theorem unfit_or_locate_child (hp : p.Proper) (ha : p.isAbsolute = true)
    (hl : fs.locate true p = .ok place) (hd : fs.formAt? place = some .directory) (n : Name) :
    Unfit (p.child n).text ∨ ∃ loc, fs.locate false (p.child n) = .ok loc := by
  have hchild := locate_child ha hl hd n
  split at hchild
  · rename_i hlong
    refine Or.inl (Or.inr (hlong.imp_right fun ht => ⟨n, ?_, ht⟩))
    rw [Path.ofPath_text (hp.child n) ha, Path.steps_child]
    simp
  · exact Or.inr ⟨_, hchild⟩

theorem locate_or_enoent (hle : fs ≤ before) (hl : before.locate false p = .ok loc) :
    fs.locate false p = .error .enoent ∨ ∃ loc, fs.locate false p = .ok loc := by
  rcases locate_of_le hle hl with h | h | ⟨loc', h, -⟩
  · exact Or.inr ⟨_, h⟩
  · exact Or.inl h
  · exact Or.inr ⟨_, h⟩

/-- A look at what was somewhere before is refused at most because nothing is there. -/
theorem isMissing_of_lstat (hp : p.Proper) (ha : p.isAbsolute = true) (hle : fs ≤ before)
    (hl : before.locate false p = .ok loc) (he : fs.lstat workingDirectory p.text = .error e) :
    e.isMissing = true := by
  rw [lstat, except_map_eq_error_iff, lookup_eq_error_iff hp ha] at he
  rcases he with he | ⟨loc', -, -, rfl⟩
  · exact isMissing_of_locate hle hl he
  · rfl

/-- A directory at the path itself has no entries. -/
def Hollow (fs : FileSystem) (p : Path) : Prop :=
  ∀ loc, fs.locate false p = .ok loc → fs.formAt? loc = some .directory →
    ∀ n, fs.get? (loc ++ [n]) = none

theorem Hollow.of_le (h : fs.Hollow p) (hle : fs' ≤ fs) : fs'.Hollow p := by
  intro loc hl hd n
  by_contra hne
  exact get?_ne_none_of_le hle hne (h loc (locate_mono hle hl (by rw [hd]; simp)) (hle _ _ hd) n)

theorem hollow_of_not_leads (h : ¬ LeadsToDirectory fs p) : fs.Hollow p := fun loc hl hd _ =>
  absurd ⟨loc, locate_true_of_not_link hl (by simp [hd]), hd⟩ h

theorem hollow_of_link (h : IsLinkAt fs p) : fs.Hollow p := by
  obtain ⟨loc, target, hl, hlink⟩ := h
  intro loc' hl' hd
  rw [hl] at hl'
  cases hl'
  rw [hlink] at hd
  cases hd

/-- A removal of what was somewhere before, by the call for its kind, is refused at most because
nothing is there. -/
theorem refusal_of_hollow (hp : base.Proper) (ha : base.isAbsolute = true) (hle : fs ≤ before)
    {status : Status} (hs : before.lstat workingDirectory (base.child n).text = .ok status)
    (hh : fs.Hollow (base.child n))
    (he : (if status.kind = .directory then fs.rmdir workingDirectory time (base.child n).text
      else fs.unlink workingDirectory time (base.child n).text) = .error e) : e = .enoent := by
  have hpc := hp.child n
  obtain ⟨loc₀, node₀, hl₀, hg₀, rfl⟩ := (lstat_eq_ok_iff (p := base.child n) hpc ha).1 hs
  rcases locate_or_enoent hle hl₀ with hnone | ⟨loc, hl⟩
  · rw [locate_eq (p := base.child n) hpc ha workingDirectory, except_map_eq_error_iff] at hnone
    unfold rmdir unlink at he
    rw [hnone] at he
    split at he <;> cases he <;> rfl
  obtain ⟨-, -, place, -, -, rfl⟩ := (locate_child_eq_ok_iff ha).1 hl
  cases hg : fs.get? (place ++ [n]) with
  | none =>
    unfold rmdir unlink at he
    rw [resolve_child hp ha hl, hg] at he
    split at he <;> cases he <;> rfl
  | some node =>
    -- The node that was seen is still there, since nothing has come in its place.
    have hform : fs.formAt? (place ++ [n]) = some node.form := by rw [formAt?, hg]; rfl
    rw [locate_mono hle hl (by rw [hform]; simp)] at hl₀
    cases hl₀
    have hsame : node₀.form = node.form := by
      have := hle _ _ hform
      rw [formAt?, hg₀] at this
      exact Option.some.inj this
    have hkind : node₀.status.kind = .directory ↔ node.form = .directory := by
      rw [← hsame]
      exact Node.kind_eq_directory_iff
    by_cases hd : node.form = .directory
    · rw [if_pos (hkind.2 hd)] at he
      obtain ⟨m, es, rfl⟩ := Node.form_eq_directory_iff.1 hd
      rw [rmdir_child hp ha hl hg, if_pos ((isEmpty_iff hg).2 (hh _ hl (hd ▸ hform)))] at he
      cases he
    · have hfile : node.isDirectory = false := by
        rw [Bool.eq_false_iff, Ne, Node.isDirectory_iff_form]
        exact hd
      rw [if_neg (fun hk => hd (hkind.1 hk)), unlink_child hp ha hl hg hfile] at he
      cases he

end FileSystem

namespace Chronicle

variable {c c' : Chronicle World} {root p base : Path} {names : List Name} {n : Name}
  {followSymlinks : Bool} {others : Interference}

def Overlong (c : Chronicle World) : Prop :=
  ∃ i ∈ c.past, ∃ entry, i.call = some entry ∧ Unfit entry.text

instance (c : Chronicle World) : Decidable c.Overlong :=
  decidable_of_iff (∃ i ∈ c.past, ∃ entry ∈ i.call, Unfit entry.text) Iff.rfl

/-- A followed link below the root was there when its directory could not be found any more by a
listing. -/
def Stranded (c : Chronicle World) (root : Path) : Prop :=
  ∃ i ∈ c.past, ∃ names e,
    i.call = some ⟨.list, (root.descend names).text, some (.system e)⟩ ∧ e.errno.isMissing = true ∧
      IsLinkAt i.state.files (root.descend names)

def Excused (c : Chronicle World) (followSymlinks : Bool) (root : Path) : Prop :=
  followSymlinks = true ∧ c.Stranded root ∨ c.Overlong

theorem Excused.onward {R : FileSystem → FileSystem → Prop} (h : c.Excused followSymlinks root)
    (ho : Onward R c c') : c'.Excused followSymlinks root := by
  obtain ⟨_, hg⟩ := ho
  rcases h with ⟨hf, i, hi, h⟩ | ⟨i, hi, h⟩
  · exact Or.inl ⟨hf, i, hg.mem_past hi, h⟩
  · exact Or.inr ⟨i, hg.mem_past hi, h⟩

theorem Told.overlong {t : String} (h : c.Told t) (hu : Unfit t) : c.Overlong := by
  obtain ⟨entry, ⟨i, hi, hcall, -⟩, rfl⟩ := h
  exact ⟨i, hi, entry, hcall, hu⟩

theorem Told.excused {t : String} (h : c.Told t) (hu : Unfit t) : c.Excused followSymlinks root :=
  Or.inr (h.overlong hu)

structure Walks (root p : Path) (c : Chronicle World) : Prop where
  quiet : c.state.Quiet
  below : ∃ names, p = root.descend names

theorem Walks.onward {R : FileSystem → FileSystem → Prop} (h : Walks root p c)
    (ho : Onward R c c') : Walks root p c' := ⟨ho.quiet h.quiet, h.below⟩

theorem Walks.child (h : Walks root p c) (n : Name) : Walks root (p.child n) c := by
  obtain ⟨names, rfl⟩ := h.below
  exact ⟨h.quiet, names ++ [n], by simp⟩

def Sought (p : Path) (c : Chronicle World) : Prop :=
  Unfit p.text ∨ ∃ before loc, c.state.files ≤ before ∧ before.locate false p = .ok loc

/-- A path led to a directory before, and to no link unless links are followed. -/
def Entered (followSymlinks : Bool) (p : Path) (c : Chronicle World) : Prop :=
  (∃ before, c.state.files ≤ before ∧ LeadsToDirectory before p) ∧
    (followSymlinks = true ∨ ¬ IsLinkAt c.state.files p)

theorem Sought.onward (h : Sought p c) (ho : Onward (fun fs fs' => fs' ≤ fs) c c') :
    Sought p c' := by
  obtain ⟨_, hg⟩ := ho
  refine h.imp_right ?_
  rintro ⟨before, loc, hle, hl⟩
  exact ⟨before, loc, le_trans hg.files hle, hl⟩

theorem Entered.onward (h : Entered followSymlinks p c)
    (ho : Onward (fun fs fs' => fs' ≤ fs) c c') : Entered followSymlinks p c' := by
  obtain ⟨_, hg⟩ := ho
  obtain ⟨⟨before, hle, hd⟩, hlink⟩ := h
  refine ⟨⟨before, le_trans hg.files hle, hd⟩, hlink.imp_right fun hn => ?_⟩
  rintro ⟨loc, target, hl, hform⟩
  exact hn ⟨loc, target, FileSystem.locate_mono hg.files hl (by rw [hform]; simp),
    hg.files _ _ hform⟩

theorem Clears.gone (ho : others.Obeys fun fs fs' => fs' ≤ fs)
    (h : Clears (fun fs fs' => fs' ≤ fs) p c c') :
    Onward (fun fs fs' => fs' ≤ fs) c c' ∧ c'.state.files.Missing p := by
  rcases h with ⟨c₁, time, hg, hr, hg'⟩ | ⟨hg, hm⟩
  · exact ⟨onward_trans ho hg.onward (hg'.weaken fun _ => hr.le).onward, hr.missing⟩
  · exact ⟨hg.onward, hm⟩

end Chronicle

def Stages.wearing (root : Path) (followSymlinks : Bool) : Stages (Chronicle World) where
  On depth p _ s := Walks root p s.state ∧
    (s.state.Excused followSymlinks root ∨ p.Fits depth ∧ Sought p s.state)
  Open depth p _ s := Walks root p s.state ∧ (s.state.Excused followSymlinks root ∨
    p.Fits (depth + 1) ∧ Sought p s.state ∧ Entered followSymlinks p s.state)
  Ready p _ s := Walks root p s.state ∧
    (s.state.Excused followSymlinks root ∨ Sought p s.state ∧ s.state.state.files.Hollow p)
  Settled p _ s := s.state.Excused followSymlinks root ∨ s.state.state.files.Missing p
  Later run s run' s' := Onward (fun fs fs' => fs' ≤ fs) s.state s'.state ∧
    (run'.failed.items = run.failed.items ∨ s'.state.Excused followSymlinks root)
  Stopped _ s := s.state.Excused followSymlinks root
  Broken _ s := s.state.Excused followSymlinks root

namespace Chronicle

variable {c c' : Chronicle World} {root p base : Path} {names : List Name} {n : Name}
  {followSymlinks : Bool} {others : Interference} {e : Errno}

theorem hollow_of_shut (hle : c'.state.files ≤ c.state.files)
    (h : ¬ LeadsToDirectory c.state.files p ∨ IsLinkAt c'.state.files p) :
    c'.state.files.Hollow p := by
  rcases h with h | h
  · exact (FileSystem.hollow_of_not_leads h).of_le hle
  · exact FileSystem.hollow_of_link h

theorem hollow_of_listed (ha : p.isAbsolute = true) {children : List Path}
    (hlisted : Deleter.Listed c.state.files p children) (hle : c'.state.files ≤ c.state.files)
    (hm : ∀ child ∈ children, c'.state.files.Missing child) : c'.state.files.Hollow p := by
  obtain ⟨place, hl, -, hmem⟩ := hlisted
  intro loc hloc hd n
  have hlead := FileSystem.locate_true_of_not_link hloc (by simp [hd])
  have hsame := FileSystem.locate_mono hle hlead (by rw [hd]; simp)
  rw [hl] at hsame
  cases hsame
  by_contra hne
  have hlisted := (hmem _).2 ⟨n, FileSystem.get?_ne_none_of_le hle hne, rfl⟩
  exact hne ((hm _ hlisted).get?_entry ha hlead hd)

theorem missing_or_link_of_entered (h : Entered followSymlinks p c)
    (hd : ¬ LeadsToDirectory c.state.files p) :
    c.state.files.Missing p ∨ followSymlinks = true ∧ IsLinkAt c.state.files p := by
  obtain ⟨⟨before, hle, place, hl, hdir⟩, hlink⟩ := h
  obtain ⟨loc, hloc⟩ : ∃ loc, before.locate false p = .ok loc := by
    rcases FileSystem.locate_false_of_true hl with h | ⟨loc, -, h, -⟩
    · exact ⟨_, h⟩
    · exact ⟨_, h⟩
  rcases FileSystem.locate_of_le hle hloc with h | h | h
  · cases hform : c.state.files.formAt? loc with
    | none => exact Or.inl (Or.inr ⟨loc, h, FileSystem.formAt?_eq_none_iff.1 hform⟩)
    | some form =>
      cases form with
      | link target =>
        have hat : IsLinkAt c.state.files p := ⟨loc, target, h, hform⟩
        exact Or.inr ⟨hlink.resolve_right fun hn => hn hat, hat⟩
      | directory =>
        exact absurd ⟨_, FileSystem.locate_true_of_not_link h (by simp [hform]), hform⟩ hd
      | file | other =>
        have hlead := FileSystem.locate_true_of_not_link h (by simp [hform])
        rw [FileSystem.locate_mono hle hlead (by rw [hform]; simp)] at hl
        cases hl
        rw [hle _ _ hform] at hdir
        cases hdir
  · exact Or.inl (Or.inl ⟨_, rfl, h⟩)
  · exact Or.inl (Or.inr h)

theorem sought_child {place : Location} (hp : p.Proper) (ha : p.isAbsolute = true)
    (hl : c.state.files.locate true p = .ok place)
    (hd : c.state.files.formAt? place = some .directory) (n : Name) : Sought (p.child n) c := by
  apply (FileSystem.unfit_or_locate_child hp ha hl hd n).imp_right
  rintro ⟨loc, hchild⟩
  exact ⟨_, loc, le_refl _, hchild⟩

theorem not_balks {before : FileSystem} {loc : Location} (hp : base.Proper)
    (ha : base.isAbsolute = true) (hbefore : c'.state.files ≤ before)
    (hl : before.locate false (base.child n) = .ok loc) (hle : c'.state.files ≤ c.state.files)
    (hh : c'.state.files.Hollow (base.child n)) : ¬ Balks (base.child n) c c' e := by
  rintro (⟨hm, he⟩ | ⟨status, hs, hne, he⟩)
  · rw [FileSystem.isMissing_of_lstat (p := base.child n) (hp.child n) ha hbefore hl he] at hm
    cases hm
  · exact hne (FileSystem.refusal_of_hollow hp ha hle hs hh he)

end Chronicle

section

variable {others : Interference} {gc : Bool} {cap : Nat} {hcap : 0 < cap} {followSymlinks : Bool}
  {base : Path} {name : Name}

theorem Path.exists_child_of_descend (hp : base.Proper) (ha : base.isAbsolute = true)
    (name : Name) (names : List Name) : ∃ above : Path, ∃ n, above.Proper ∧ above.isAbsolute = true ∧
      (base.child name).descend names = above.child n := by
  rcases List.eq_nil_or_concat names with rfl | ⟨names, n, rfl⟩
  · exact ⟨base, name, hp, ha, Path.descend_nil _⟩
  · rw [List.concat_eq_append, Path.descend_concat]
    exact ⟨_, n, (hp.child name).descend names, ha, rfl⟩

section

variable (hp : base.Proper) (ha : base.isAbsolute = true)
  (ho : others.Obeys fun fs fs' => fs' ≤ fs) {depth : Nat} {p : Path} {run : Run}
  {s : Session (Chronicle World)}

include hp ha ho

theorem ends_opening_wearing
    (hon : (Stages.wearing (base.child name) followSymlinks).On (depth + 1) p run s) :
    Ends ((chronicler others gc cap hcap).shouldFollow followSymlinks p) s
      (fun b s' => (Stages.wearing (base.child name) followSymlinks).Later run s run s' ∧
        if b then (Stages.wearing (base.child name) followSymlinks).Open depth p run s'
        else (Stages.wearing (base.child name) followSymlinks).Ready p run s')
      (Stages.wearing (base.child name) followSymlinks).Broken := by
  obtain ⟨hw, h⟩ := hon
  obtain ⟨names, rfl⟩ := id hw.below
  apply (Deleter.ends_shouldFollow_amid ho hw.quiet ((hp.child name).descend names) ha).mono _
    fun _ _ h => h.elim
  rintro b s' ⟨ht, c, hg, hg', hyes, hno⟩
  have hl := onward_trans ho hg.onward hg'.onward
  refine ⟨⟨hl, Or.inl rfl⟩, ?_⟩
  cases b with
  | true =>
    refine ⟨hw.onward hl, h.imp (·.onward hl) fun ⟨hfits, hs⟩ => ⟨hfits, hs.onward hl, ?_⟩⟩
    obtain ⟨-, hdir, hlink⟩ := hyes rfl
    exact ⟨⟨_, hg'.files, hdir⟩, hlink⟩
  | false =>
    refine ⟨hw.onward hl, ?_⟩
    rcases hno rfl with hn | hshut
    · exact Or.inl (ht.excused (Or.inl hn))
    · exact h.imp (·.onward hl) fun ⟨_, hs⟩ =>
        ⟨hs.onward hl, hollow_of_shut hg'.files (hshut.imp_right And.right)⟩

/-- A listing leads on to the children that are there. A path that cannot be listed has vanished, or
it is a link that counts as gone. -/
theorem ends_listing_wearing
    (hopen : (Stages.wearing (base.child name) followSymlinks).Open depth p run s) :
    Ends ((chronicler others gc cap hcap).listChildren p) s
      (fun r s' => (Stages.wearing (base.child name) followSymlinks).Later run s run s' ∧
        match r with
        | none => (Stages.wearing (base.child name) followSymlinks).Settled p run s'
        | some children =>
          (∀ c ∈ children, (Stages.wearing (base.child name) followSymlinks).On depth c run s') ∧
            ∀ run' s'', (Stages.wearing (base.child name) followSymlinks).Later run s' run' s'' →
              (∀ c ∈ children,
                (Stages.wearing (base.child name) followSymlinks).Settled c run' s'') →
              (Stages.wearing (base.child name) followSymlinks).Ready p run' s'')
      (Stages.wearing (base.child name) followSymlinks).Broken := by
  obtain ⟨hw, h⟩ := hopen
  obtain ⟨names, rfl⟩ := id hw.below
  have hproper := (hp.child name).descend names
  refine (Deleter.ends_listChildren_amid ho hw.quiet hproper ha).mono ?_
    fun _ s' ⟨_, ht, hn⟩ => ht.excused (Or.inl hn)
  rintro r s' (⟨children, rfl, hg, hlisted⟩ | ⟨hg, -, e, htells, he, hr⟩)
  · refine ⟨⟨hg.onward, Or.inl rfl⟩, fun child hc => ?_, fun run' s'' hl hm => ?_⟩
    · obtain ⟨place, hplace, hdir, hmem⟩ := id hlisted
      obtain ⟨n, -, rfl⟩ := (hmem child).1 hc
      refine ⟨(hw.onward hg.onward).child n, h.imp (·.onward hg.onward) fun ⟨hfits, _⟩ => ?_⟩
      exact ⟨hfits.child ha (FileSystem.text_le_of_locate hplace) n,
        sought_child hproper ha hplace hdir n⟩
    · refine ⟨(hw.onward hg.onward).onward hl.1, or_iff_not_imp_left.2 fun hx => ?_⟩
      obtain ⟨_, hg'⟩ := id hl.1
      obtain ⟨-, hs, -⟩ := h.resolve_left fun hx' => hx ((hx'.onward hg.onward).onward hl.1)
      exact ⟨(hs.onward hg.onward).onward hl.1,
        hollow_of_listed ha hlisted hg'.files fun c hc => (hm c hc).resolve_left hx⟩
  have hd := not_leadsToDirectory_of_list hproper ha _ he
  rcases hr with ⟨rfl, -⟩ | ⟨rfl, hmissing⟩
  · refine ⟨⟨hg.onward, Or.inl rfl⟩, nofun, fun run' s'' hl _ => ?_⟩
    obtain ⟨_, hg'⟩ := id hl.1
    have hl' := onward_trans ho hg.onward hl.1
    exact ⟨hw.onward hl', h.imp (·.onward hl') fun ⟨_, hs, _⟩ =>
      ⟨hs.onward hl', (FileSystem.hollow_of_not_leads hd).of_le hg'.files⟩⟩
  · refine ⟨⟨hg.onward, Or.inl rfl⟩, or_iff_not_imp_left.2 fun hx => ?_⟩
    obtain ⟨-, -, hentered⟩ := h.resolve_left fun hx' => hx (hx'.onward hg.onward)
    refine (missing_or_link_of_entered (hentered.onward hg.onward) hd).resolve_right ?_
    rintro ⟨hf, hlink⟩
    obtain ⟨i, hi, hcall, hfiles⟩ := htells
    rw [← hfiles] at hlink
    exact hx (Or.inl ⟨hf, i, hi, names, _, hcall, hmissing, hlink⟩)

/-- What is left is cleared, since a refusal would need something to be there that is not hollow. -/
theorem ends_leaving_wearing
    (hready : (Stages.wearing (base.child name) followSymlinks).Ready p run s) :
    Ends ((chronicler others gc cap hcap).leave (base.child name) true p run) s
      ((Stages.wearing (base.child name) followSymlinks).Visited p run s)
      (Stages.wearing (base.child name) followSymlinks).Broken := by
  obtain ⟨hw, h⟩ := hready
  obtain ⟨names, rfl⟩ := id hw.below
  have hproper := (hp.child name).descend names
  refine (Deleter.ends_leave_amid ho hw.quiet hproper ha (base.child name) run).mono ?_
    fun _ s' ⟨_, ht, hn⟩ => ht.excused (Or.inl hn)
  rintro r s' ⟨ht, ⟨hfailed, hgoes, hclears⟩ | ⟨-, e, hg, c, hg₁, hg₂, hbalks⟩⟩
  · obtain ⟨hl, hm⟩ := hclears.gone ho
    refine ⟨⟨hl, Or.inl (by rw [hfailed])⟩, Or.inr hm, fun hstop => ?_⟩
    rw [hgoes] at hstop
    cases hstop
  · have hx : s'.state.Excused followSymlinks (base.child name) := by
      refine (h.imp (·.onward hg.onward) fun ⟨hs, hh⟩ => ?_).elim id id
      rcases hs with hu | ⟨before, loc, hle, hl⟩
      · exact ht.excused hu
      · obtain ⟨above, n, habove, haa, heq⟩ := Path.exists_child_of_descend hp ha name names
        rw [heq] at hl hh hbalks
        exact absurd hbalks (not_balks habove haa (le_trans hg.files hle) hl hg₂.files
          (hh.of_le hg.files))
    exact ⟨⟨hg.onward, Or.inr hx⟩, Or.inl hx, fun _ => hx⟩

theorem wearingTour :
    Tour (chronicler others gc cap hcap) followSymlinks (base.child name) true
      (.wearing (base.child name) followSymlinks) where
  refl _ s := ⟨onward_refl ho s.state, Or.inl rfl⟩
  trans h h' := by
    refine ⟨onward_trans ho h.1 h'.1, ?_⟩
    rcases h'.2 with he | hx
    · rw [he]
      exact h.2.imp_right (·.onward h'.1)
    · exact Or.inr hx
  on_later := fun ⟨hw, h⟩ hl =>
    ⟨hw.onward hl.1, h.imp (·.onward hl.1) (And.imp_right (·.onward hl.1))⟩
  settled_later := fun h hl => by
    obtain ⟨_, hg⟩ := hl.1
    exact h.imp (·.onward hl.1) (·.of_le hg.files)
  settled_stopped hx _ := Or.inl hx
  deep := by
    rintro p run s ⟨-, hx | ⟨hfits, -⟩⟩
    · exact hx
    · exact absurd hfits.1 (by decide)
  opening := ends_opening_wearing hp ha ho
  listing := ends_listing_wearing hp ha ho
  leaving := ends_leaving_wearing hp ha ho

end

end

theorem look?_amid_of_idle {others : Interference} {c : Chronicle World} (h : others c.calls = [])
    (t : String) : (amid others).look? t c = (amid .none).look? t c := by
  have hwait : c.wait others.steps = c.wait Interference.none.steps := by
    simp [wait, Interference.steps, Interference.none, h]
  have hcall : (amid others).lstat t c = (amid .none).lstat t c := by
    change Chronicle.call others.steps .lstat t _ c =
      Chronicle.call Interference.none.steps .lstat t _ c
    unfold Chronicle.call
    rw [hwait]
  have hanswer : outcome (awaited ((amid others).lstat t)) c =
      outcome (awaited ((amid .none).lstat t)) c := by
    unfold outcome awaited
    rw [hcall]
  change EStateM.bind _ _ c = EStateM.bind _ _ c
  unfold EStateM.bind
  rw [hanswer]

/-- The deletion of a tree succeeds while others take nodes away, once its root has been seen,
unless a followed link has been stranded or some path was too long. -/
theorem deleteTree_despite_removals {w : World} (hq : w.Quiet) {root : String}
    (ha : (Path.ofText root).isAbsolute = true) (hne : (Path.ofText root).parts ≠ [])
    (hlast : (Path.ofText root).parts.getLast? ≠ some "..") {status : Status}
    (hthere : w.files.lstat w.workingDirectory (Path.ofText root).text = .ok status)
    {places : Nat → List Location} (hfirst : places 0 = []) (followSymlinks collectsGarbage : Bool)
    (cap : Nat) (hcap : 0 < cap) (log : List Log.Entry) (acts : List Act) :
    Ends ((World.chronicler (.removals places) collectsGarbage cap hcap).deleteTree followSymlinks
      (.ofText root)) ⟨.start w, log, acts⟩
      (fun b s => b = true ∧ (s.state.state.files.Missing (.ofText root) ∨
        s.state.Excused followSymlinks (.ofText root)))
      (fun _ s => s.state.Excused followSymlinks (.ofText root)) := by
  have hp := Path.proper_ofText root
  have ho := Interference.obeys_removals places
  obtain ⟨base, name, hbase, hroot⟩ := hp.exists_eq_child hne hlast
  obtain ⟨loc, -, hleads, -⟩ := (FileSystem.lstat_eq_ok_iff hp ha).1 hthere
  -- The others start after the first look, so that it finds the root.
  have hlook : Ends ((amid (.removals places)).look? (Path.ofText root).text) (.start w)
      (fun r c => Goes (fun fs fs' => fs' ≤ fs) [] (.start w) c ∧ (r = none → False))
      (fun _ c => c.Excused followSymlinks (.ofText root)) := by
    have hidle : Interference.removals places (start w).calls = [] := by
      change (places 0).map _ = []
      rw [hfirst, List.map_nil]
    have h := ends_look? Interference.obeys_none (c := .start w) hq hp ha
    refine Ends.intro (fun r c hr => ?_) fun f c hr => ?_
    · rw [look?_amid_of_idle hidle] at hr
      obtain ⟨hg, -, -, hnone⟩ := h.ok hr
      refine ⟨hg.weaken fun he => le_of_eq he, fun hn => ?_⟩
      have hm := hnone hn
      rw [hg.files] at hm
      obtain ⟨e, -, he⟩ := (FileSystem.missing_iff_lstat hp ha w.workingDirectory).1 hm
      change w.files.lstat _ _ = _ at he
      rw [hthere] at he
      cases he
    · rw [look?_amid_of_idle hidle] at hr
      obtain ⟨hg, ht, ⟨-, hn⟩ | ⟨e, -, -, he⟩⟩ := h.error hr
      · exact ht.excused (Or.inl hn)
      · rw [hg.files] at he
        change w.files.lstat w.workingDirectory _ = _ at he
        rw [hthere] at he
        cases he
  refine (Deleter.ends_deleteTree_amid (s := ⟨.start w, log, acts⟩) ho
    (Q := fun run s => s.state.state.Quiet ∧
      (run.failed.items = [] ∨ s.state.Excused followSymlinks (.ofText root)) ∧
      (s.state.Excused followSymlinks (.ofText root) ∨
        s.state.state.files.Missing (.ofText root)))
    (E := fun s => s.state.Excused followSymlinks (.ofText root)) hlook (fun h => h.1)
    fun s₁ hg => ?_).mono ?_ ?_
  · have hon : (Stages.wearing (.ofText root) followSymlinks).On maxDepth (.ofText root)
        { failed := .empty cap hcap } s₁ :=
      ⟨⟨hg.world.quiet hq, [], by simp⟩, Or.inr ⟨Path.fits_maxDepth ha,
        Or.inr ⟨_, loc, hg.files, hleads⟩⟩⟩
    rw [hroot] at hon ha ⊢
    refine ((wearingTour hbase ha ho).ends_walk hon).mono ?_ fun _ _ h => h
    exact fun run s₂ h => ⟨h.1.1.quiet (hg.world.quiet hq), h.1.2, h.2⟩
  · rintro b s (⟨-, hn⟩ | ⟨rfl, run, s₁, ⟨-, -, hsettled⟩, -, hg⟩)
    · exact hn.elim
    · exact ⟨rfl, (hsettled.imp (·.onward hg.onward) (·.of_le hg.files)).symm⟩
  · rintro _ s (hx | ⟨-, hx⟩ | ⟨run, s₁, ⟨-, hfailed, -⟩, hne, hl⟩)
    · exact hx
    · exact hx
    · exact (hfailed.resolve_left hne).onward hl

/-- A tree with a file in a directory, with nobody else around. -/
def World.nested : World := .make [.leaf (.ofText "/w/a/x") .file 0] "/" none [] (.ofList [])

/-- Others take the directory away when it is about to be listed. -/
def Interference.theft : Nat → List Location
  | 4 => [.ofText "/w/a"]
  | _ => []

theorem deleteTree_despite_removals_theft :
    World.nested.Quiet ∧ (Path.ofText "/w").isAbsolute = true ∧ (Path.ofText "/w").parts ≠ [] ∧
      (Path.ofText "/w").parts.getLast? ≠ some ".." ∧
      (∃ status, World.nested.files.lstat World.nested.workingDirectory (Path.ofText "/w").text =
        .ok status) ∧
      Interference.theft 0 = [] ∧
      ∃ s, (World.chronicler (.removals Interference.theft) false 1 Nat.one_pos).deleteTree true
          (.ofText "/w") ⟨.start World.nested, [], []⟩ = .ok true s ∧
        (s.state.state.files.Missing (.ofText "/w") ∨ s.state.Excused true (.ofText "/w")) := by
  have hq : World.nested.Quiet := by
    intro e he
    cases he
  have ha : (Path.ofText "/w").isAbsolute = true := by decide
  have hne : (Path.ofText "/w").parts ≠ [] := by decide
  have hlast : (Path.ofText "/w").parts.getLast? ≠ some ".." := by decide
  have hthere : World.nested.files.lstat World.nested.workingDirectory (Path.ofText "/w").text =
      .ok ⟨.directory, 0⟩ := by rfl
  have hfirst : Interference.theft 0 = [] := rfl
  have hrun : ((World.chronicler (.removals Interference.theft) false 1 Nat.one_pos).deleteTree true
      (.ofText "/w")).run' ⟨.start World.nested, [], []⟩ = some true := by decide +kernel
  obtain ⟨s, hm⟩ := exists_of_run' hrun
  have h := deleteTree_despite_removals hq ha hne hlast hthere hfirst true false 1 Nat.one_pos [] []
  exact ⟨hq, ha, hne, hlast, ⟨_, hthere⟩, hfirst, s, hm, (h.ok hm).2⟩

end TreeRemoval
