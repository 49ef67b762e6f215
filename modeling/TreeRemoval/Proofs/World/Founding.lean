import TreeRemoval.Proofs.FileSystem.Ground
import TreeRemoval.Proofs.World.Making
import TreeRemoval.Proofs.World.Refusals

/-! # Founding directories

Where the way down to a place meets directories and then nothing, a directory is made at the place
together with the missing ones above it. Nothing refuses this if events refuse listings and removals
at most.
-/

namespace TreeRemoval

theorem FileSystem.exists_mkdir {fs : FileSystem} {p : Path} {place : Location} (hp : p.Proper)
    (ha : p.isAbsolute = true) (hl : fs.locate false p = .ok place) (hn : fs.formAt? place = none)
    (workingDirectory : String) (time : Option Float) :
    ∃ fs', fs.mkdir workingDirectory time p.text = .ok fs' := by
  rw [locate_eq hp ha workingDirectory] at hl
  obtain ⟨arrival, hr, rfl⟩ := except_map_eq_ok_iff.1 hl
  have hsound := resolve_sound hr
  cases arrival with
  | inside place => cases hn.symm.trans hsound
  | entry parent name node =>
    obtain ⟨-, rfl⟩ := hsound
    rw [show fs.get? (parent ++ [name]) = none from formAt?_eq_none_iff.1 hn] at hr
    unfold mkdir
    rw [hr]
    exact ⟨_, rfl⟩

namespace World.OnlyRefuses

variable {w : World} (h : w.OnlyRefuses) {p : Path} {anchor : Anchor} {place : Location}

include h

/-- Making one directory, where its path leads to a directory or to nothing. -/
theorem ends_makeOne (hp : p.Proper) (ha : p.isAbsolute = true) (ht : '\x00' ∉ p.text.toList)
    (hl : w.files.locate false p = .ok place)
    (hopen : w.files.formAt? place = some .directory ∨ w.files.formAt? place = none) :
    Ends (Environment.makeDirectories.makeOne environment p.text) w
      (fun _ w' => ∃ files, w' = { w with files } ∧ ∀ loc, files.formAt? loc =
        if loc = place then some .directory else w.files.formAt? loc) (fun _ _ => False) := by
  have hcall : Call.mkdir ≠ .list ∧ Call.mkdir ≠ .rmdir ∧ Call.mkdir ≠ .unlink := by decide
  have hsame : w.counting .mkdir p.text = w := by
    unfold counting
    rw [h.counting_other hcall]
  unfold Environment.makeDirectories.makeOne
  apply Ends.bind_outcome (h.ends_call ht (by rw [hsame]))
  · rintro ⟨⟩ w₁ ⟨-, files, hm, rfl⟩
    rw [hsame]
    refine Ends.pure ⟨files, rfl, ?_⟩
    obtain ⟨fs', hmkdir, he⟩ := except_map_eq_ok_iff.1 hm
    cases he
    obtain ⟨new, hl', -, hforms⟩ := FileSystem.mkdir_makes hp ha hmkdir
    rw [hl] at hl'
    cases hl'
    exact hforms
  · rintro f w₁ ⟨rfl, e, rfl, hwhy⟩
    rw [hsame]
    have hm : w.files.mkdir w.workingDirectory w.changeTime p.text = .error e.errno := by
      rcases hwhy with ⟨hrefused, -⟩ | ⟨-, hm⟩
      · rw [h.counting_other hcall] at hrefused
        cases hrefused
      · exact except_map_eq_error_iff.1 hm
    have hd : w.files.formAt? place = some .directory := by
      refine hopen.resolve_right fun hn => ?_
      obtain ⟨fs', hmkdir⟩ := FileSystem.exists_mkdir hp ha hl hn w.workingDirectory w.changeTime
      cases hm.symm.trans hmkdir
    have hleads : LeadsToDirectory w.files p :=
      ⟨place, FileSystem.locate_true_of_not_link hl (by simp [hd]), hd⟩
    apply Ends.bind (h.ends_isDirectory hp ha ht)
    rintro b _ ⟨rfl, hb⟩
    rw [hb.2 hleads]
    refine Ends.pure ⟨_, rfl, fun loc => ?_⟩
    split
    · rename_i he
      rw [he, hd]
    · rfl

theorem ends_pathExists (hp : p.Proper) (ha : p.isAbsolute = true) (ht : '\x00' ∉ p.text.toList) :
    Ends (environment.pathExists p.text) w
      (fun b w' => w' = w ∧
        (b = true ↔ ∃ place, w.files.locate true p = .ok place ∧ w.files.get? place ≠ none))
      (fun _ _ => False) := by
  have hstat : (∃ place, w.files.locate true p = .ok place ∧ w.files.get? place ≠ none) ↔
      ∃ status, w.files.stat w.workingDirectory p.text = .ok status := by
    simp only [FileSystem.stat_eq_ok_iff hp ha, Option.ne_none_iff_exists']
    constructor
    · rintro ⟨place, hl, node, hn⟩
      exact ⟨_, place, node, hl, hn, rfl⟩
    · rintro ⟨_, place, node, hl, hn, -⟩
      exact ⟨place, hl, node, hn⟩
  have hc : Call.stat ≠ .list ∧ Call.stat ≠ .rmdir ∧ Call.stat ≠ .unlink := by decide
  apply h.ends_test hc ht (h.ends_shows hc _ _)
  rw [hstat]
  apply (World.ends_shows h.calm (fun files cwd => files.stat cwd p.text) fun _ => true).mono
  · rintro b w' ⟨-, -, hyes, hno⟩
    refine ⟨fun hb => ?_, fun hb => (hno hb).imp_left ?_⟩
    · obtain ⟨-, status, hs, -⟩ := hyes hb
      exact ⟨status, hs⟩
    · rintro hnone ⟨status, hs⟩
      cases hnone status hs
  · rintro f w' ⟨-, -, -, hs⟩
    exact hs

section Making

variable (ha : anchor ≠ .here) {names : List Name} (hlong : ∀ n ∈ names, n.isTooLong = false)
  (hbytes : ((Path.mk anchor []).descend names).text.utf8ByteSize ≤ FileSystem.maxPathBytes)
  (ht : '\x00' ∉ ((Path.mk anchor []).descend names).text.toList)

include ha hlong hbytes ht

/-- The last directory is made once those above it are there. -/
theorem ends_makeLast (hground : w.files.IsGround names)
    (hd : w.files.formAt? names.dropLast = some .directory) :
    Ends (Environment.makeDirectories.makeOne environment
        ((Path.mk anchor []).descend names).text) w
      (fun _ w' => ∃ files, w' = { w with files } ∧ ∀ loc, files.formAt? loc =
        if loc = names then some .directory else w.files.formAt? loc) (fun _ _ => False) := by
  have habs : (Path.mk anchor []).isAbsolute = true := by simpa [Path.isAbsolute] using ha
  exact h.ends_makeOne (Path.Proper.descend (by simp [Path.Proper]) names) habs ht
    (FileSystem.locate_names_of_directory hlong hbytes hd) (hground _ List.prefix_rfl)

theorem ends_makeDirectories (hground : w.files.IsGround names) :
    Ends (environment.makeDirectories anchor (names.map Name.text).reverse) w
      (fun _ w' => ∃ files, w' = { w with files } ∧ w.files.Founds names files)
      (fun _ _ => False) := by
  have habs : (Path.mk anchor []).isAbsolute = true := by simpa [Path.isAbsolute] using ha
  induction names using List.reverseRecOn with
  | nil =>
    apply (h.ends_makeLast ha hlong hbytes ht hground w.files.formAt?_root).mono
    · rintro - _ ⟨files, rfl, hforms⟩
      refine ⟨files, rfl, fun loc => ?_⟩
      simp only [hforms, List.prefix_nil]
    · exact fun _ _ hf => hf
  | append_singleton names n ih =>
    have habove := hground.above (List.prefix_append names [n])
    have hlong' : ∀ m ∈ names, m.isTooLong = false :=
      fun m hm => hlong m (List.mem_append_left _ hm)
    have hbytes' : ((Path.mk anchor []).descend names).text.utf8ByteSize ≤
        FileSystem.maxPathBytes := by
      have hlt := Path.utf8ByteSize_text_lt_child (p := (Path.mk anchor []).descend names) habs n
      rw [Path.descend_concat] at hbytes
      omega
    have ht' : '\x00' ∉ ((Path.mk anchor []).descend names).text.toList := by
      rw [Path.mem_text_descend_iff habs (by decide)] at ht ⊢
      rintro (hn | ⟨m, hm, hc⟩)
      · exact ht (Or.inl hn)
      · exact ht (Or.inr ⟨m, List.mem_append_left _ hm, hc⟩)
    -- Whether the directories above are there or are made first, the last one is made in them.
    have hlast : ∀ {files}, w.files.Founds names files →
        Ends (Environment.makeDirectories.makeOne environment
            (Path.mk anchor (names.map Name.text ++ [n.text])).text) { w with files }
          (fun _ w' => ∃ files, w' = { w with files } ∧ w.files.Founds (names ++ [n]) files)
          (fun _ _ => False) := by
      intro files hfounds
      have hrefuses : ({ w with files } : World).OnlyRefuses := h
      have hd : files.formAt? (names ++ [n]).dropLast = some .directory := by
        rw [List.dropLast_concat]
        exact hfounds.directory
      have hends := hrefuses.ends_makeLast ha hlong hbytes ht (hfounds.isGround hground) hd
      rw [show (Path.mk anchor []).descend (names ++ [n]) =
        Path.mk anchor (names.map Name.text ++ [n.text]) by simp [Path.descend]] at hends
      apply hends.mono
      · rintro - _ ⟨files', rfl, hforms⟩
        exact ⟨files', rfl, hfounds.concat hforms⟩
      · exact fun _ _ hf => hf
    rw [List.map_append, List.reverse_append, List.map_singleton, List.reverse_singleton,
      List.singleton_append]
    unfold Environment.makeDirectories
    simp only [ne_eq, ha, not_false_eq_true, decide_true, Bool.true_or, if_true, List.reverse_cons,
      List.reverse_reverse]
    apply Ends.bind (h.ends_pathExists (p := (Path.mk anchor []).descend names)
      (Path.Proper.descend (by simp [Path.Proper]) names) habs ht')
    rintro (_ | _) w₁ ⟨hw, hthere⟩ <;> rw [hw]
    · apply Ends.bind_outcome (ih hlong' hbytes' ht' habove)
      · rintro - _ ⟨files, rfl, hfounds⟩
        exact hlast hfounds
      · exact fun _ _ hf => hf.elim
    · refine hlast (FileSystem.founds_refl ?_)
      -- A path that exists is no ground yet to be made, so that it is a directory.
      refine (habove _ List.prefix_rfl).resolve_right fun hn => ?_
      have hmissing := FileSystem.missing_names hlong' hbytes'
        (habove.above (List.dropLast_prefix names)) hn
      obtain ⟨loc, hl, hne⟩ := hthere.1 rfl
      exact hne (hmissing.get?_eq_none_of_followed hl)

theorem ends_ensureDirectory (hground : w.files.IsGround names) :
    Ends (environment.ensureDirectory ((Path.mk anchor []).descend names)) w
      (fun _ w' => ∃ files, w' = { w with files } ∧ w.files.Founds names files)
      (fun _ _ => False) :=
  Ends.awaited (h.ends_makeDirectories ha hlong hbytes ht hground)

end Making

end World.OnlyRefuses

end TreeRemoval
