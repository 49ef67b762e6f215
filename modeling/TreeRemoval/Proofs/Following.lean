import TreeRemoval.Proofs.Deletion.Amid
import TreeRemoval.Proofs.Emptying
import TreeRemoval.Proofs.FileSystem.Trail
import TreeRemoval.Proofs.Reach

/-! # Followed links

What a deletion leaves of the directories that it lists, links followed or not, with nobody else at
work. If it succeeds, each of them is empty or gone, unless it was cut off: the way there passed a
place that the walk came to from that very directory, by a cycle of links, and that it removed. What
is listed but not yet attempted then counts as gone.
-/

namespace TreeRemoval

open World Deletion Chronicle

namespace World

variable {w : World} {root p : Path} {names : List Name} {fs fs' : FileSystem} {t : String}
  {loc : Location} {children : List Path}

def Under (w : World) (p : Path) (loc : Location) : Prop :=
  ∃ names, w.files.locate false (p.descend names) = .ok loc

def Beyond (w : World) (p : Path) (loc : Location) : Prop := ∃ n, w.Under (p.child n) loc

theorem Beyond.under (h : w.Beyond p loc) : w.Under p loc := by
  obtain ⟨n, names, hl⟩ := h
  exact ⟨n :: names, by rwa [← Path.child_descend]⟩

/-- The way to a path passed a place beyond it that is gone. -/
def CutOff (w : World) (p : Path) (fs : FileSystem) : Prop :=
  ∃ loc ∈ w.files.trail true p, w.Beyond p loc ∧ fs.get? loc = none

/-- The text is that of a path from the root to a directory, which has no entries now, if it is
there at all, unless the path is cut off. -/
def Drained (w : World) (root : Path) (fs : FileSystem) (t : String) : Prop :=
  ∃ names place, t = (root.descend names).text ∧
    w.files.locate true (root.descend names) = .ok place ∧
    w.files.formAt? place = some .directory ∧
    ((∀ n, fs.get? (place ++ [n]) = none) ∨ w.CutOff (root.descend names) fs)

theorem get?_eq_none_of_le (hle : fs' ≤ fs) (h : fs.get? loc = none) : fs'.get? loc = none := by
  by_contra hne
  exact FileSystem.get?_ne_none_of_le hle hne h

theorem Drained.of_le (h : w.Drained root fs t) (hle : fs' ≤ fs) : w.Drained root fs' t := by
  obtain ⟨names, place, ht, hl, hd, h⟩ := h
  refine ⟨names, place, ht, hl, hd, ?_⟩
  rcases h with h | ⟨loc, hm, hb, hn⟩
  · exact Or.inl fun n => get?_eq_none_of_le hle (h n)
  · exact Or.inr ⟨loc, hm, hb, get?_eq_none_of_le hle hn⟩

theorem drained_of_listed (ha : root.isAbsolute = true) (hle : fs ≤ w.files) (hle' : fs' ≤ fs)
    (hlisted : Deleter.Listed fs (root.descend names) children)
    (hsame : ∀ loc, ¬ w.Beyond (root.descend names) loc → fs'.formAt? loc = fs.formAt? loc)
    (hm : ∀ c ∈ children, fs'.Missing c) : w.Drained root fs' (root.descend names).text := by
  obtain ⟨place, hl, hd, hmem⟩ := hlisted
  have hthere : fs.formAt? place ≠ none := by rw [hd]; simp
  refine ⟨names, place, rfl, FileSystem.locate_mono hle hl hthere, hle _ _ hd, ?_⟩
  by_cases hleads : LeadsToDirectory fs' (root.descend names)
  · obtain ⟨place', hl', -, hempty⟩ := FileSystem.isEmptyDirectory_of_missing
      (p := root.descend names) ha hle' hl (fun n hn => hm _ ((hmem _).2 ⟨n, hn, rfl⟩)) hleads
    obtain ⟨loc, hloc, hdir⟩ := hleads
    rw [hl'] at hloc
    cases hloc
    rw [FileSystem.locate_mono hle' hl' (by rw [hdir]; simp)] at hl
    cases hl
    exact Or.inl hempty
  -- The path no longer leads to its directory, so that something on its way has changed.
  · obtain ⟨loc, hmem, hne⟩ : ∃ loc ∈ fs.trail true (root.descend names),
        fs'.formAt? loc ≠ fs.formAt? loc := by
      by_contra hall
      push Not at hall
      refine hleads ⟨place, (FileSystem.locate_of_trail hall).trans hl, ?_⟩
      rw [hall place (FileSystem.mem_trail_of_locate hl), hd]
    rw [FileSystem.trail_of_le hle hl hthere] at hmem
    refine Or.inr ⟨loc, hmem, by_contra fun hb => hne (hsame loc hb), ?_⟩
    rw [← FileSystem.formAt?_eq_none_iff]
    cases hform : fs'.formAt? loc with
    | none => rfl
    | some form => exact absurd (hform.trans (hle' _ _ hform).symm) hne

/-- Nothing has changed out of reach, and each directory listed in the meantime is drained. -/
structure Sweeps (w : World) (root : Path) (reach : Location → Prop) (c c' : Chronicle World) :
    Prop where
  confines : c.state.Confines reach c'.state.files
  drained : ∀ t ∈ c'.listings, t ∈ c.listings ∨ w.Drained root c'.state.files t

namespace Sweeps

variable {reach reach' : Location → Prop} {c c' c'' : Chronicle World}

theorem of_goes (h : Goes (fun fs fs' => fs' = fs) [] c c') : w.Sweeps root reach c c' where
  confines := h.files ▸ .start _ _
  drained t ht := Or.inl (by simpa [h.listings] using ht)

theorem trans (h : w.Sweeps root reach c c') (h' : w.Sweeps root reach c' c'') :
    w.Sweeps root reach c c'' where
  confines := ⟨le_trans h'.confines.1 h.confines.1, fun place hout =>
    (h'.confines.2 place hout).trans (h.confines.2 place hout)⟩
  drained t ht := by
    rcases h'.drained t ht with ht | hd
    · exact (h.drained t ht).imp_right (·.of_le h'.confines.1)
    · exact Or.inr hd

theorem widen (h : w.Sweeps root reach c c') (hr : ∀ loc, reach loc → reach' loc) :
    w.Sweeps root reach' c c' :=
  ⟨⟨h.confines.1, fun place hout => h.confines.2 place fun hin => hout (hr place hin)⟩, h.drained⟩

theorem of_listing (h : w.Sweeps root reach c' c'')
    (hg : Goes (fun fs fs' => fs' = fs) [t] c c') (hd : w.Drained root c''.state.files t) :
    w.Sweeps root reach c c'' where
  confines := by
    have hsame : c'.state.files = c.state.files := hg.files
    unfold Confines
    rw [← hsame]
    exact h.confines
  drained t' ht := by
    rcases h.drained t' ht with ht | hd'
    · rw [hg.listings, List.mem_append, List.mem_singleton] at ht
      rcases ht with ht | rfl
      · exact Or.inl ht
      · exact Or.inr hd
    · exact Or.inr hd'

theorem of_clears (hle : c.state.files ≤ w.files) (h : Clears (fun fs fs' => fs' = fs) p c c') :
    w.Sweeps root (w.Under p) c c' := by
  rcases h with ⟨c₁, time, hg, hr, hg'⟩ | ⟨hg, -⟩
  · have hfiles : c₁.state.files = c.state.files := hg.files
    rw [hfiles] at hr
    refine ⟨⟨hr.le, fun place hout => hr.formAt?_eq fun hl => hout ⟨[], ?_⟩⟩, fun t ht => Or.inl ?_⟩
    · obtain ⟨parent, name, hl', hn, -⟩ := hr
      rw [hl] at hl'
      cases hl'
      rw [Path.descend_nil]
      exact FileSystem.locate_mono hle hl (by rwa [Ne, FileSystem.formAt?_eq_none_iff])
    · simpa [hg'.listings, hg.listings] using ht
  · exact of_goes hg

end Sweeps

/-- A part of a walk has come to its end: something failed, or some paths are missing and nothing
out of reach has changed. -/
structure Swept (w : World) (root : Path) (reach : Location → Prop) (paths : List Path) (run : Run)
    (s : Session (Chronicle World)) (r : Run × Bool) (s' : Session (Chronicle World)) : Prop where
  world : s.state.state.Follows s'.state.state
  files : s'.state.state.files ≤ s.state.state.files
  failed : run.failed.items ≠ [] → r.1.failed.items ≠ []
  swept : r.1.failed.items ≠ [] ∨ r.2 = false ∧ w.Sweeps root reach s.state s'.state ∧
    ∀ p ∈ paths, s'.state.state.files.Missing p

namespace Swept

variable {reach reach' : Location → Prop} {paths : List Path} {run : Run}
  {s s₁ s' : Session (Chronicle World)} {r : Run × Bool}

theorem after (hg : Goes (fun fs fs' => fs' = fs) [] s.state s₁.state)
    (h : w.Swept root reach paths run s₁ r s') : w.Swept root reach paths run s r s' where
  world := hg.world.trans h.world
  files := by rw [← hg.files]; exact h.files
  failed := h.failed
  swept := h.swept.imp_right fun ⟨hr, hs, hm⟩ => ⟨hr, (Sweeps.of_goes hg).trans hs, hm⟩

theorem widen (h : w.Swept root reach paths run s r s') (hr : ∀ loc, reach loc → reach' loc) :
    w.Swept root reach' paths run s r s' :=
  ⟨h.world, h.files, h.failed, h.swept.imp_right fun ⟨hgoes, hs, hm⟩ => ⟨hgoes, hs.widen hr, hm⟩⟩

/-- A directory has been listed, its children have been swept, and so has its own path. -/
theorem of_listed {s₂ s₃ : Session (Chronicle World)} {run₂ : Run}
    (ha : root.isAbsolute = true) (hle : s.state.state.files ≤ w.files)
    (hg : Goes (fun fs fs' => fs' = fs) [(root.descend names).text] s.state s₁.state)
    (hlisted : Deleter.Listed s₁.state.state.files (root.descend names) children)
    (h₂ : w.Swept root (w.Beyond (root.descend names)) children run s₁ (run₂, false) s₂)
    (h₃ : w.Swept root (w.Under (root.descend names)) [root.descend names] run₂ s₂ r s₃) :
    w.Swept root (w.Under (root.descend names)) [root.descend names] run s r s₃ := by
  have hsame : s₁.state.state.files = s.state.state.files := hg.files
  refine ⟨(hg.world.trans h₂.world).trans h₃.world, ?_, h₃.failed ∘ h₂.failed, ?_⟩
  · rw [← hsame]
    exact le_trans h₃.files h₂.files
  rcases h₂.swept with hne | ⟨-, hs₂, hm₂⟩
  · exact Or.inl (h₃.failed hne)
  refine h₃.swept.imp_right fun ⟨hr, hs₃, hm₃⟩ => ⟨hr, ?_, hm₃⟩
  have hdrained := drained_of_listed ha (hsame ▸ hle) h₂.files hlisted hs₂.confines.2 hm₂
  exact ((hs₂.widen fun _ => Beyond.under).trans hs₃).of_listing hg (hdrained.of_le h₃.files)

end Swept

end World

namespace Deleter

variable {w : World} {gc : Bool} {cap : Nat} {hcap : 0 < cap} {followSymlinks : Bool} {root p : Path}
  {names : List Name} {reach : Location → Prop} {run : Run} {s s₁ s' : Session (Chronicle World)}
  {r : Run × Bool}

section

variable (hq : s.state.state.Quiet) (hle : s.state.state.files ≤ w.files) (hp : root.Proper)
  (ha : root.isAbsolute = true)

include hq hle hp ha

theorem ends_leave_swept (names : List Name) (run : Run) :
    Ends ((chronicler .none gc cap hcap).leave root true (root.descend names) run) s
      (w.Swept root (w.Under (root.descend names)) [root.descend names] run s)
      (fun _ _ => True) := by
  have ho := Interference.obeys_none
  apply (ends_leave_amid ho hq (hp.descend names) ha root run).mono _ fun _ _ _ => trivial
  rintro r s' ⟨-, ⟨hfailed, hgoes, hclears⟩ | ⟨hfailed, e, hg, -⟩⟩
  · have hsweeps : w.Sweeps root _ s.state s'.state := .of_clears hle hclears
    refine ⟨?_, hsweeps.confines.1, fun hne => hfailed ▸ hne, Or.inr ⟨hgoes, hsweeps, ?_⟩⟩
    · rcases hclears with ⟨c₁, time, hg, -, hg'⟩ | ⟨hg, -⟩
      · exact hg.world.trans hg'.world
      · exact hg.world
    · rintro _ (_ | ⟨_, ⟨⟩⟩)
      rcases hclears with ⟨c₁, time, -, hr, -⟩ | ⟨-, hm⟩
      · exact hr.missing
      · exact hm
  · have hne : r.1.failed.items ≠ [] := by
      rw [hfailed]
      exact run.failed.items_insert_ne_nil _
    exact ⟨hg.world, le_of_eq hg.files, fun _ => hne, Or.inl hne⟩

omit hp ha in
/-- Visits to some paths sweep them, if each visit sweeps its own. -/
theorem ends_visitEach_swept {visit : Path → Run → Deletion (Chronicle World) (Run × Bool)}
    {children : List Path}
    (hv : ∀ c ∈ children, ∀ run (s : Session (Chronicle World)), s.state.state.Quiet →
      s.state.state.files ≤ w.files →
      Ends (visit c run) s (w.Swept root reach [c] run s) fun _ _ => True) :
    Ends (visitEach visit children run) s (w.Swept root reach children run s)
      (fun _ _ => True) := by
  induction children generalizing run s with
  | nil =>
    exact Ends.pure ⟨.refl _, le_refl _, id, Or.inr ⟨rfl,
      .of_goes (goes_refl Interference.obeys_none _), by simp⟩⟩
  | cons c rest ih =>
    unfold visitEach
    apply Ends.bind (hv c List.mem_cons_self run s hq hle)
    rintro ⟨run₁, stop⟩ s₁ h₁
    cases stop with
    | true =>
      exact Ends.pure ⟨h₁.world, h₁.files, h₁.failed, Or.inl (h₁.swept.resolve_right (by simp))⟩
    | false =>
      have hrest : Ends (visitEach visit rest run₁) s₁ (w.Swept root reach rest run₁ s₁)
          fun _ _ => True :=
        ih (h₁.world.quiet hq) (le_trans h₁.files hle) fun c' hc => hv c' (List.mem_cons_of_mem _ hc)
      refine hrest.mono ?_ fun _ _ h => h
      rintro r s₂ h₂
      refine ⟨h₁.world.trans h₂.world, le_trans h₂.files h₁.files, h₂.failed ∘ h₁.failed, ?_⟩
      rcases h₁.swept with hne | ⟨-, hs₁, hm₁⟩
      · exact Or.inl (h₂.failed hne)
      rcases h₂.swept with hne | ⟨hr, hs₂, hm₂⟩
      · exact Or.inl hne
      refine Or.inr ⟨hr, hs₁.trans hs₂, fun c' hc => ?_⟩
      rcases List.mem_cons.1 hc with rfl | hc
      · exact (hm₁ c' (List.mem_singleton_self c')).of_le h₂.files
      · exact hm₂ c' hc

/-- A visit sweeps its path and all beyond it. -/
theorem ends_visit_swept (hnames : ∃ names, p = root.descend names) (run : Run) (depth : Nat) :
    Ends ((chronicler .none gc cap hcap).visit followSymlinks root true depth p run) s
      (w.Swept root (w.Under p) [p] run s) (fun _ _ => True) := by
  have ho := Interference.obeys_none
  induction depth generalizing p run s with
  | zero => exact Ends.throw trivial
  | succ depth ih =>
    obtain ⟨names, rfl⟩ := hnames
    unfold visit
    apply Ends.seq (ends_shouldFollow_amid ho hq (hp.descend names) ha) fun _ _ _ => trivial
    rintro b s₁ ⟨-, c, hg, hg', hyes, -⟩
    have hg₁ : Goes _ [] s.state s₁.state := goes_trans ho hg hg'
    have hq₁ := hg₁.world.quiet hq
    have hle₁ : s₁.state.state.files ≤ w.files := by rw [hg₁.files]; exact hle
    cases b with
    | false =>
      exact (ends_leave_swept hq₁ hle₁ hp ha names run).mono (fun _ _ h => .after hg₁ h)
        fun _ _ h => h
    | true =>
      obtain ⟨-, hdir, -⟩ := hyes rfl
      apply Ends.seq (ends_listChildren_amid ho hq₁ (hp.descend names) ha) fun _ _ _ => trivial
      rintro r₂ s₂ (⟨children, rfl, hg₂, hlisted⟩ | ⟨hg₂, -, e, -, he, -⟩)
      rotate_left
      -- Nobody else is at work, so that what was a directory can be listed.
      · have hsame : s₂.state.state.files = c.state.files := hg₂.files.trans hg'.files
        rw [hsame] at he
        exact absurd hdir (not_leadsToDirectory_of_list (hp.descend names) ha _ he)
      have hq₂ := hg₂.world.quiet hq₁
      have hle₂ : s₂.state.state.files ≤ w.files := by rw [hg₂.files]; exact hle₁
      have hchildren : Ends (visitEach ((chronicler .none gc cap hcap).visit followSymlinks root true
          depth) children run) s₂ (w.Swept root (w.Beyond (root.descend names)) children run s₂)
          fun _ _ => True := by
        refine ends_visitEach_swept hq₂ hle₂ fun child hc run' s' hq' hle' => ?_
        obtain ⟨_, -, -, hmem⟩ := id hlisted
        obtain ⟨n, -, rfl⟩ := (hmem child).1 hc
        exact (ih hq' hle' ⟨names ++ [n], by simp⟩ run').mono
          (fun _ _ h => h.widen fun _ hu => ⟨n, hu⟩) fun _ _ h => h
      apply Ends.bind hchildren
      rintro ⟨run₃, stop⟩ s₃ h₃
      cases stop with
      | true =>
        have hne := h₃.swept.resolve_right (by simp)
        have hsame : s₂.state.state.files = s.state.state.files := hg₂.files.trans hg₁.files
        exact Ends.pure ⟨(hg₁.world.trans hg₂.world).trans h₃.world, hsame ▸ h₃.files, h₃.failed,
          Or.inl hne⟩
      | false =>
        exact (ends_leave_swept (h₃.world.quiet hq₂) (le_trans h₃.files hle₂) hp ha names run₃).mono
          (fun _ _ h₄ => (h₃.of_listed ha hle₁ hg₂ hlisted h₄).after hg₁) fun _ _ h => h

theorem ends_walk_swept :
    Ends ((chronicler .none gc cap hcap).walk followSymlinks root true) s
      (fun run s' => s.state.state.Follows s'.state.state ∧
        (run.failed.items ≠ [] ∨ w.Sweeps root (w.Under root) s.state s'.state))
      (fun _ _ => True) := by
  unfold walk
  apply Ends.bind (ends_visit_swept hq hle hp ha ⟨[], by simp⟩ _ maxDepth)
  rintro r s' h
  exact Ends.pure ⟨h.world, h.swept.imp_right fun ⟨_, hs, _⟩ => hs⟩

end

end Deleter

/-- When the deletion of a tree says yes, links followed or not, each directory that it listed has
no entries any more, unless the path by which it was listed has been cut off. -/
theorem deleteTree_drains {w : World} (hq : w.Quiet) {root : String}
    (ha : (Path.ofText root).isAbsolute = true) (followSymlinks collectsGarbage : Bool) (cap : Nat)
    (hcap : 0 < cap) (log : List Log.Entry) (acts : List Act) :
    Ends ((World.chronicler .none collectsGarbage cap hcap).deleteTree followSymlinks
      (.ofText root)) ⟨.start w, log, acts⟩
      (fun b s => b = true →
        ∀ t ∈ s.state.listings, w.Drained (.ofText root) s.state.state.files t)
      (fun _ _ => True) := by
  have hp := Path.proper_ofText root
  have ho := Interference.obeys_none
  have hlook := (ends_look? ho (c := .start w) hq hp ha).mono (fun _ _ h => And.intro h.1 h.2.2.2)
    fun _ _ h => h
  refine (Deleter.ends_deleteTree_amid (s := ⟨.start w, log, acts⟩) ho
    (Q := fun run s => s.state.state.Quiet ∧ (run.failed.items ≠ [] ∨
      ∀ t ∈ s.state.listings, w.Drained (.ofText root) s.state.state.files t))
    (E := fun _ => True) hlook (fun h => h.1) fun s₁ hg => ?_).mono ?_ fun _ _ _ => trivial
  · have hq₁ := hg.world.quiet hq
    have hfiles : s₁.state.state.files = w.files := hg.files
    refine (Deleter.ends_walk_swept hq₁ (le_of_eq hfiles) hp ha).mono ?_ fun _ _ h => h
    rintro run s₂ ⟨hworld, hswept⟩
    refine ⟨hworld.quiet hq₁, hswept.imp_right fun hs t ht => (hs.drained t ht).resolve_left ?_⟩
    rw [hg.listings]
    exact List.not_mem_nil
  · rintro b s (⟨rfl, -⟩ | ⟨-, run, s₁, ⟨-, hsettled⟩, hempty, hg⟩) hb
    · cases hb
    have hsame : s.state.state.files = s₁.state.state.files := hg.files
    rw [hg.listings, List.append_nil, hsame]
    exact hsettled.resolve_left fun hne => hne hempty

/-- A link in a tree, which leads to a directory elsewhere. -/
def World.linkedTo : World :=
  .make [.leaf (.ofText "/w/l") (.link "/d") 0, .leaf (.ofText "/d/x") .file 0] "/" none []
    (.ofList [])

theorem deleteTree_drains_linkedTo :
    World.linkedTo.Quiet ∧ (Path.ofText "/w").isAbsolute = true ∧
      ∃ s, (World.chronicler .none false 1 Nat.one_pos).deleteTree true (.ofText "/w")
          ⟨.start World.linkedTo, [], []⟩ = .ok true s ∧
        ∀ t ∈ s.state.listings, World.linkedTo.Drained (.ofText "/w") s.state.state.files t := by
  have hq : World.linkedTo.Quiet := by
    intro e he
    cases he
  have ha : (Path.ofText "/w").isAbsolute = true := by decide
  have hrun : ((World.chronicler .none false 1 Nat.one_pos).deleteTree true (.ofText "/w")).run'
      ⟨.start World.linkedTo, [], []⟩ = some true := by decide +kernel
  obtain ⟨s, hm⟩ := exists_of_run' hrun
  exact ⟨hq, ha, s, hm, (deleteTree_drains hq ha true false 1 Nat.one_pos [] []).ok hm rfl⟩

end TreeRemoval
