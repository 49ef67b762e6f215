import TreeRemoval.Proofs.FileSystem.Wear
import TreeRemoval.Proofs.Removal
import TreeRemoval.Proofs.Reports

/-! # New paths without a writer

If nobody writes below a root, a scan can only take directories for new paths that the deletion
itself has taken entries from. Such a directory fails when the walk leaves it, and what failed is no
new path. The exception are the directories above the path at which a walk stops: they are never
attempted.
-/

namespace TreeRemoval

open World Deletion

/-- The names lead nowhere but below the place of the root. -/
def Straight (w : World) (root : Path) (top names : Location) : Prop :=
  ∀ loc, w.files.locate false (root.descend names) = .ok loc → loc = top ++ names

def OnStraight (w : World) (root : Path) (top : Location) (_depth : Nat) (p : Path) : Prop :=
  ∃ names, p = root.descend names ∧ Straight w root top names

/-- The names on the way to some others. -/
def Above (names front : List Name) : Prop := front <+: names ∧ front ≠ names

theorem above_concat {names front : List Name} {n : Name} :
    Above (names ++ [n]) front ↔ front <+: names := by
  unfold Above
  rw [List.prefix_concat_iff]
  constructor
  · rintro ⟨rfl | h, hne⟩
    · exact absurd rfl hne
    · exact h
  · intro h
    refine ⟨Or.inr h, ?_⟩
    rintro rfl
    have hlength := h.length_le
    simp only [List.length_append, List.length_singleton] at hlength
    omega

theorem Above.exists_append {names front : List Name} (h : Above names front) :
    ∃ n rest, names = front ++ n :: rest := by
  obtain ⟨⟨back, rfl⟩, hne⟩ := h
  cases back with
  | nil => exact absurd (List.append_nil front).symm hne
  | cons n rest => exact ⟨n, rest, rfl⟩

/-- Every directory below the root that has lost an entry has failed, or is one that waits to be
attempted. -/
structure Explained (w : World) (root : Path) (top : Location) (waits : Location → Prop) (run : Run)
    (s : Session World) : Prop where
  world : w.Follows s.state
  wears : w.files.Wears s.state.files
  worn : s.state.files.locate false root = .ok top → ∀ names,
    s.state.files.get? (top ++ names) ≠ none → w.files.Worn s.state.files (top ++ names) →
      (root.descend names).normalize.text ∈ run.failed.items ∨ waits names

/-- A walk has stopped: the failure of some path has filled the set. -/
def Halted (w : World) (root : Path) (top : Location) (run : Run) (s : Session World) : Prop :=
  ∃ names, Explained w root top (Above names) run s ∧ run.failed.isFull = true ∧
    run.failed.items.getLast? = some (root.descend names).normalize.text

/-- Part of a walk is over, and it is known what waits unless the walk has stopped. -/
def Passed (w : World) (root : Path) (top : Location) (waits : Location → Prop) (r : Run × Bool)
    (s : Session World) : Prop :=
  if r.2 then Halted w root top r.1 s
  else Explained w root top waits r.1 s ∧ r.1.failed.isFull = false

theorem World.Escapes.report?_eq_none {w : World} {t : String} {e : Failure} (h : w.Escapes t e) :
    e.report? = none := by
  cases h <;> rfl

theorem Route.Broken.report?_eq_none {w : World} {On : Nat → Path → Prop}
    {Keeps : FileSystem → Prop} {s s' : Session World} {e : Failure}
    (h : Route.Broken w On Keeps s e s') : e.report? = none := by
  rcases h.cause with ⟨rfl, -⟩ | ⟨depth, p, -, he⟩
  · rfl
  · exact he.report?_eq_none

theorem Route.ScanFails.report?_eq_none {w : World} {On : Nat → Path → Prop} {fs : FileSystem}
    {top : String} {excluded : List String} {e : Failure}
    (h : Route.ScanFails w On fs top excluded e) : e.report? = none := by
  rcases h with ⟨rfl, -⟩ | ⟨depth, p, -, he | ⟨err, rfl, -⟩⟩
  · rfl
  · exact he.report?_eq_none
  · rfl

namespace BoundedSet

variable {s : BoundedSet} {p : String}

theorem mem_items_insert (h : s.isFull = false) : p ∈ (s.insert p).items := by
  rw [items_insert]
  split
  · rename_i hkept
    simpa [h] using hkept
  · simp

theorem getLast?_items_insert (h : s.isFull = false) (hfull : (s.insert p).isFull = true) :
    (s.insert p).items.getLast? = some p := by
  have hroom : ¬ s.capacity ≤ s.items.length := by
    rw [← isFull_iff, h]
    simp
  rw [isFull_iff, capacity_insert] at hfull
  rw [items_insert] at hfull ⊢
  split
  · rename_i hkept
    rw [if_pos hkept] at hfull
    exact absurd hfull hroom
  · exact List.getLast?_concat

end BoundedSet

namespace Explained

variable {w : World} {root : Path} {top : Location} {waits waits' : Location → Prop} {run : Run}
  {s s' : Session World}

theorem mono (h : Explained w root top waits run s) (hw : ∀ {names}, waits names → waits' names) :
    Explained w root top waits' run s :=
  ⟨h.world, h.wears, fun hl names hn hworn => (h.worn hl names hn hworn).imp_right hw⟩

theorem looks (h : Explained w root top waits run s) (hs : s.Looks s') :
    Explained w root top waits run s' :=
  ⟨h.world.trans hs.world, hs.same.symm ▸ h.wears, hs.same.symm ▸ h.worn⟩

theorem start (hw : w.Follows s.state) (hf : s.state.files = w.files) (run : Run) :
    Explained w root top waits run s :=
  ⟨hw, hf.symm ▸ .refl _, fun _ _ _ hworn =>
    absurd (hf ▸ hworn) (FileSystem.not_worn_self w.files _)⟩

end Explained

section Walk

variable {w : World} {root : Path} {top place names : Location} {fs : FileSystem} {gc : Bool}
  {cap : Nat} {hcap : 0 < cap} {run : Run} {r : Run × Bool} {s s' : Session World} {depth : Nat}

theorem Straight.nil (hl : w.files.locate false root = .ok top) : Straight w root top [] := by
  intro loc h
  rw [Path.descend_nil, hl] at h
  cases h
  simp

variable (hr : w.OnlyRefuses) (hp : root.Proper) (ha : root.isAbsolute = true)

include hr in
theorem Opens.locate_false {p : Path} (h : Opens w false fs p place) :
    fs.locate false p = .ok place := by
  apply (FileSystem.locate_false_of_true h.leads).resolve_right
  rcases h.allowed with hf | hlink | hblind
  · cases hf
  · exact hlink
  · exact absurd hblind (hr.not_mayBlind (by decide))

include hr ha in
theorem Straight.child (h : Straight w root top names) (hle : fs ≤ w.files)
    (hopens : Opens w false fs (root.descend names) place) (n : Name) :
    Straight w root top (names ++ [n]) := by
  intro loc hloc
  have hthere : fs.formAt? place ≠ none := by
    rw [hopens.directory]
    simp
  have hplace := h place (FileSystem.locate_mono hle (hopens.locate_false hr) hthere)
  rw [Path.descend_concat, FileSystem.locate_child_eq_ok_iff (p := root.descend names) ha] at hloc
  obtain ⟨-, -, parent, hparent, -, rfl⟩ := hloc
  rw [FileSystem.locate_mono hle hopens.leads hthere] at hparent
  cases hparent
  rw [hplace, List.append_assoc]

include hr hp ha in
theorem straightRoute (top : Location) :
    Route w false (OnStraight w root top) w.files.Wears where
  proper := by
    rintro _ _ ⟨names, rfl, -⟩
    exact hp.descend names
  isAbsolute := by
    rintro _ _ ⟨names, rfl, -⟩
    exact ha
  child := by
    rintro fs depth _ place n hwears ⟨names, rfl, hs⟩ hopens -
    exact ⟨names ++ [n], (Path.descend_concat root names n).symm,
      hs.child hr ha hwears.le hopens n⟩
  removes := fun hwears _ hrem => hwears.removes hrem

include ha in
/-- An attempt wears the directory of the node, which is above it. -/
theorem Explained.attempt (h : Explained w root top (· <+: names) run s)
    (hs : Straight w root top names) (ht : Deleter.Touches (root.descend names) s s')
    (hfailed : run.failed.items <+: r.1.failed.items)
    (hdone : s'.state.files.Missing (root.descend names) ∨
      (root.descend names).normalize.text ∈ r.1.failed.items) :
    Explained w root top (Above names) r.1 s' := by
  have hwears : w.files.Wears s'.state.files := by
    rcases ht.removes with he | hrem
    · exact he ▸ h.wears
    · exact h.wears.removes hrem
  refine ⟨h.world.trans ht.world, hwears, fun hl front hthere hworn => ?_⟩
  have hbefore := FileSystem.get?_ne_none_of_le ht.files hthere
  have htop : s'.state.files.formAt? top ≠ none := by
    intro hnone
    rw [FileSystem.formAt?_eq_none_iff] at hnone
    rw [FileSystem.get?_append, hnone] at hthere
    exact hthere rfl
  have hknown : w.files.Worn s.state.files (top ++ front) →
      (root.descend front).normalize.text ∈ r.1.failed.items ∨ Above names front := by
    intro hworn
    rcases h.worn (FileSystem.locate_mono ht.files hl htop) front hbefore hworn with hin | hfront
    · exact Or.inl (hfailed.subset hin)
    by_cases he : front = names
    · subst he
      rcases hdone with hmissing | hin
      · exact absurd (hmissing.get?_descend ha hl) hthere
      · exact Or.inl hin
    · exact Or.inr ⟨hfront, he⟩
  rcases ht.removes with he | hrem
  · exact hknown (he ▸ hworn)
  rcases hrem.worn hthere hworn with hworn | ⟨n, hn, hnode⟩
  · exact hknown hworn
  · -- The node that is gone was an entry of this directory, so its names end with the entry's.
    have hname : w.files.locate false (root.descend names) = .ok (top ++ front ++ [n]) :=
      FileSystem.locate_mono h.wears.le hn fun hnone =>
        hnode (FileSystem.formAt?_eq_none_iff.1 hnone)
    have he := hs _ hname
    rw [List.append_assoc, List.append_cancel_left_eq] at he
    subst he
    exact Or.inr (above_concat.2 List.prefix_rfl)

include hr hp ha

theorem ends_leave_passed (h : Explained w root top (· <+: names) run s)
    (hroom : run.failed.isFull = false) (hs : Straight w root top names) :
    Ends ((deleter gc cap hcap).leave root true (root.descend names) run) s
      (Passed w root top (Above names)) (fun e _ => e.report? = none) := by
  have hnext := h.world.onlyRefuses hr
  apply (Deleter.ends_leave hnext.calm (hp.descend names) ha root true run).mono
  · rintro ⟨run', full⟩ s' (⟨-, hkept, -⟩ | ⟨-, ht, hb⟩)
    · cases hkept
    have hsub : run.failed.items <+: run'.failed.items := hb.failed
    rcases hb.outcome with ⟨hsame, hgo, hgone⟩ | ⟨hinsert, hfull⟩
    · obtain rfl : full = false := hgo
      have hmissing := hgone.resolve_right hnext.not_mayDeny
      have hstill : run'.failed.isFull = false := by
        rw [show run'.failed = run.failed from hsame]
        exact hroom
      exact ⟨h.attempt (r := (run', false)) ha hs ht hsub (Or.inl hmissing), hstill⟩
    · have hin : (root.descend names).normalize.text ∈ run'.failed.items := by
        rw [show run'.failed = _ from hinsert]
        exact BoundedSet.mem_items_insert hroom
      have hafter := h.attempt (r := (run', full)) ha hs ht hsub (Or.inr hin)
      cases full with
      | false => exact ⟨hafter, hfull.symm⟩
      | true =>
        refine ⟨names, hafter, hfull.symm, ?_⟩
        rw [show run'.failed = _ from hinsert] at hfull ⊢
        exact BoundedSet.getLast?_items_insert hroom hfull.symm
  · rintro e s' ⟨-, he⟩
    exact he.report?_eq_none

omit hr hp ha in
theorem ends_visitEach_passed {visit : Path → Run → Deletion World (Run × Bool)}
    (hv : ∀ {n run s}, Straight w root top (names ++ [n]) →
      Explained w root top (Above (names ++ [n])) run s → run.failed.isFull = false →
      Ends (visit (root.descend (names ++ [n])) run) s
        (Passed w root top (Above (names ++ [n]))) (fun e _ => e.report? = none))
    {children : List Path}
    (hchildren : ∀ c ∈ children, ∃ n, c = root.descend (names ++ [n]) ∧
      Straight w root top (names ++ [n]))
    (h : Explained w root top (· <+: names) run s) (hroom : run.failed.isFull = false) :
    Ends (Deleter.visitEach visit children run) s (Passed w root top (· <+: names))
      (fun e _ => e.report? = none) := by
  induction children generalizing run s with
  | nil => exact Ends.pure ⟨h, hroom⟩
  | cons c rest ih =>
    obtain ⟨n, rfl, hs⟩ := hchildren c List.mem_cons_self
    unfold Deleter.visitEach
    apply Ends.bind (hv hs (h.mono above_concat.2) hroom)
    rintro ⟨run₁, stop⟩ s₁ hpassed
    cases stop with
    | true => exact Ends.pure hpassed
    | false =>
      obtain ⟨h₁, hroom₁⟩ := hpassed
      exact ih (fun c' hc => hchildren c' (List.mem_cons_of_mem _ hc)) (h₁.mono above_concat.1)
        hroom₁

/-- What waits before and after a visit is the same. -/
theorem ends_visit_passed (h : Explained w root top (Above names) run s)
    (hroom : run.failed.isFull = false) (hs : Straight w root top names) :
    Ends ((deleter gc cap hcap).visit false root true depth (root.descend names) run) s
      (Passed w root top (Above names)) (fun e _ => e.report? = none) := by
  induction depth generalizing names run s with
  | zero => exact Ends.throw rfl
  | succ depth ih =>
    have hroute := straightRoute hr hp ha top
    have hready : Explained w root top (· <+: names) run s := h.mono And.left
    unfold Deleter.visit
    have hon : OnStraight w root top depth (root.descend names) := ⟨names, rfl, hs⟩
    apply Ends.seq (hroute.ends_opening hr.calm h.world h.wears hon)
      fun _ _ hb => hb.1.report?_eq_none
    rintro (_ | _) s₁ ⟨hadv, hfiles, -, hopens⟩
    · exact ends_leave_passed hr hp ha (hready.looks ⟨hadv, hfiles⟩) hroom hs
    obtain ⟨place, hopens⟩ := hopens rfl
    have h₁ := hready.looks ⟨hadv, hfiles⟩
    rw [← hfiles] at hopens
    have hnext := h₁.world.onlyRefuses hr
    apply Ends.seq (Deleter.ends_listChildren hnext.calm (hp.descend names) ha hopens.readable
      ⟨place, hopens.leads, hopens.directory⟩) fun _ _ he => he.2.2.report?_eq_none
    rintro listed s₂ ⟨hadv₂, hfiles₂, hlisted⟩
    have h₂ := h₁.looks ⟨hadv₂, hfiles₂⟩
    obtain ⟨children, rfl, hchildren⟩ : ∃ children, listed = some children ∧
        ∀ c ∈ children, ∃ n, c = root.descend (names ++ [n]) ∧ Straight w root top (names ++ [n]) := by
      rcases hlisted with ⟨children, rfl, loc, -, -, hmem⟩ | ⟨rfl, -⟩ | ⟨-, hdeny⟩
      · refine ⟨children, rfl, fun c hc => ?_⟩
        obtain ⟨n, -, rfl⟩ := (hmem c).1 hc
        exact ⟨n, (Path.descend_concat root names n).symm, hs.child hr ha h₁.wears.le hopens n⟩
      · exact ⟨[], rfl, by simp⟩
      · exact absurd hdeny hnext.not_mayDeny
    apply Ends.bind (ends_visitEach_passed (fun hs h hroom => ih h hroom hs) hchildren h₂ hroom)
    rintro ⟨run₃, stop⟩ s₃ hpassed
    cases stop with
    | true => exact Ends.pure hpassed
    | false => exact ends_leave_passed hr hp ha hpassed.1 hpassed.2 hs

end Walk

/-- The deletion took an entry from a directory, and the walk stopped at a path below, so that the
directory was never attempted. -/
structure LeftWaiting (w : World) (root : Path) (fs : FileSystem) (report : Report)
    (top names : Location) : Prop where
  worn : w.files.Worn fs (top ++ names)
  moreFailures : report.moreFailures = true
  last : ∃ n rest, report.failedPaths.getLast? =
    some (root.descend (names ++ n :: rest)).normalize.text

/-- The text of a new path is that of a node below the root which had a late time already, or of a
directory that was left waiting. -/
def Unwritten (w : World) (root : Path) (fs : FileSystem) (report : Report) (t : String) : Prop :=
  ∃ top names, w.files.locate false root = .ok top ∧ names ≠ [] ∧
    t = (root.descend names).normalize.text ∧
    ((∃ old, w.files.get? (top ++ names) = some old ∧ old.modified ≥ w.clock.current) ∨
      LeftWaiting w root fs report top names)

section Report

variable {w : World} {root : Path} {top : Location} {gc : Bool} {cap : Nat} {hcap : 0 < cap}
  {run : Run} {r : Run × Bool} {s : Session World} {report : Report}

theorem Passed.explained (h : Passed w root top (Above []) r s) :
    Explained w root top (fun front => r.1.failed.isFull = true ∧ ∃ n rest,
      r.1.failed.items.getLast? = some (root.descend (front ++ n :: rest)).normalize.text) r.1 s := by
  obtain ⟨run, stop⟩ := r
  cases stop with
  | true =>
    obtain ⟨names, hexplained, hfull, hlast⟩ := h
    apply hexplained.mono
    intro front hfront
    obtain ⟨n, rest, rfl⟩ := hfront.exists_append
    exact ⟨hfull, n, rest, hlast⟩
  | false =>
    apply h.1.mono
    rintro front ⟨hfront, hne⟩
    exact absurd (List.prefix_nil.1 hfront) hne

variable (hr : w.OnlyRefuses) (hp : root.Proper) (ha : root.isAbsolute = true)

include hr hp ha

/-- A report takes nothing for new but what was left waiting. -/
theorem Passed.unwritten (hl : w.files.locate false root = .ok top)
    (h : Passed w root top (Above []) r s)
    (htells : Route.Tells w false (OnStraight w root top) s.state.files root w.clock.current r.1
      report) :
    ∀ t ∈ report.newPaths, Unwritten w root s.state.files report t := by
  intro t ht
  obtain ⟨-, _, loc, node, ⟨names, rfl, hs⟩, rfl, htop, hexcluded, hloc, hnode, hlate⟩ :=
    htells.found t ht
  obtain ⟨⟨place, hopens⟩, hfailed⟩ := htells.scanned (List.ne_nil_of_mem ht)
  have hexplained := h.explained
  have hle := hexplained.wears.le
  -- The root still leads to its place, and the path to the directory below it.
  have hroot : s.state.files.locate false root = .ok top := by
    have hplace := hopens.locate_false hr
    have hthere : s.state.files.formAt? place ≠ none := by
      rw [hopens.directory]
      simp
    rw [FileSystem.locate_mono hle hplace hthere] at hl
    cases hl
    exact hplace
  have hform : s.state.files.formAt? loc ≠ none := by
    rw [Ne, FileSystem.formAt?_eq_none_iff, hnode]
    simp
  obtain rfl : loc = top ++ names := hs loc (FileSystem.locate_mono hle hloc hform)
  have hnames : names ≠ [] := by
    rintro rfl
    exact htop (by rw [Path.descend_nil])
  refine ⟨top, names, hl, hnames, rfl, or_iff_not_imp_left.2 fun hold => ?_⟩
  have hworn : w.files.Worn s.state.files (top ++ names) := by
    apply hexplained.wears.worn_of_modified hnode
    intro old hbefore hsame
    exact hold ⟨old, hbefore, hsame ▸ hlate⟩
  rcases hexplained.worn hroot names (by rw [hnode]; simp) hworn with hin | ⟨hfull, n, rest, hlast⟩
  · refine absurd ?_ hexcluded
    rw [hfailed, List.mem_filter]
    exact ⟨hin, by simpa using htop⟩
  · refine ⟨hworn, htells.moreFailures.trans hfull, n, rest, ?_⟩
    have hbelow : (root.descend (names ++ n :: rest)).normalize.text ≠ root.normalize.text := by
      intro he
      have hnil : names ++ n :: rest = [] :=
        Path.normalize_descend_text_injective hp ha (he.trans (by rw [Path.descend_nil]))
      simp at hnil
    obtain ⟨front, hitems⟩ := List.getLast?_eq_some_iff.1 hlast
    rw [hfailed, hitems, List.filter_append]
    simp [hbelow]

theorem ends_deleteBelow_unwritten (hl : w.files.locate false root = .ok top)
    (hw : s.state = w) :
    Ends ((deleter gc cap hcap).deleteBelow false root true) s (fun _ _ => True)
      (fun e s' => ∀ report, e.report? = some report →
        ∀ t ∈ report.newPaths, Unwritten w root s'.state.files report t) := by
  have hroute := straightRoute hr hp ha top
  unfold Deleter.deleteBelow
  apply Ends.bind (Q := fun startTime s' => startTime = w.clock.current ∧ w.Follows s'.state ∧
    s'.state.files = w.files)
  · apply ends_reading
    rw [hw]
    exact ⟨rfl, w.follows_now, rfl⟩
  rintro _ s₁ ⟨rfl, hw₁, hf₁⟩
  apply ends_bind_note
  intro s₂ hs₂
  rw [← hs₂] at hw₁ hf₁
  have hstart : Explained w root top (Above []) (.start cap hcap) s₂ := .start hw₁ hf₁ _
  have hroom : (Run.start cap hcap).failed.isFull = false := by
    rw [← Bool.not_eq_true, BoundedSet.isFull_iff]
    exact Nat.not_le.2 hcap
  unfold Deleter.walk
  simp only [bind_assoc]
  apply Ends.seq (root.descend_nil ▸ ends_visit_passed hr hp ha hstart hroom (.nil hl))
    fun _ _ => Failure.forall_report
  intro r s₃ hpassed
  have h₃ := hpassed.explained
  rw [pure_bind]
  apply Ends.seq (hroute.ends_finish hr.calm h₃.world h₃.wears
    ⟨[], root.descend_nil.symm, .nil hl⟩ r.1)
  · rintro e s₄ ⟨hfiles, hreason⟩ report hreport
    rw [hfiles]
    rcases hreason with ⟨-, place, report', rfl, htells⟩ | ⟨-, hscan⟩
    · obtain rfl : report = report' := by
        cases hi : r.1.interrupted <;> rw [hi] at hreport <;> exact (Option.some.inj hreport).symm
      exact hpassed.unwritten hr hp ha hl htells
    · rw [hscan.report?_eq_none] at hreport
      cases hreport
  · exact fun _ _ _ => Ends.pure trivial

end Report

/-- When the deletion of a tree fails with nobody else at work, a path that the report calls new had
a late time from the start, or it is a directory that the deletion itself took an entry from, above
the path at which the walk stopped. -/
theorem deleteTree_newPaths_unwritten {w : World} (hr : w.OnlyRefuses) {root : String}
    (ha : (Path.ofText root).isAbsolute = true) (collectsGarbage : Bool) (cap : Nat)
    (hcap : 0 < cap) (log : List Log.Entry) (acts : List Act) :
    Ends ((deleter collectsGarbage cap hcap).deleteTree false (.ofText root)) ⟨w, log, acts⟩
      (fun _ _ => True)
      (fun e s => ∀ report, e.report? = some report →
        ∀ t ∈ report.newPaths, Unwritten w (.ofText root) s.state.files report t) := by
  have hp := Path.proper_ofText root
  unfold Deleter.deleteTree
  apply Ends.seq (ends_perform_keep ((World.ends_look? hr.calm hp ha).and (hr.ends_look?_same _)))
  · rintro _ s₁ ⟨f, rfl, -⟩
    exact Failure.forall_report rfl
  rintro (_ | status) s₁ ⟨⟨⟨-, -, hsome, -⟩, hsame⟩, -⟩
  · exact ends_bind_note fun _ _ => Ends.pure trivial
  · obtain ⟨-, top, -, hl, -⟩ := hsome status rfl
    exact Ends.bind (ends_deleteBelow_unwritten hr hp ha hl hsame) fun _ _ _ => Ends.pure trivial

def World.halved : World :=
  .make [.leaf (.ofText "/w/d/x") .file 0, .leaf (.ofText "/w/d/y") .file 0] "/" (some 2000)
    [{ call := .unlink, path := some "/w/d/y", disruption := some (.errno .eacces) }] (.ofList [])

def World.halvedTree : Node :=
  .directory 0 [(⟨"d", by decide, by decide, by decide, by decide⟩, .directory 0
    [(⟨"x", by decide, by decide, by decide, by decide⟩, .file 0),
      (⟨"y", by decide, by decide, by decide, by decide⟩, .file 0)])]

theorem World.sorted_halvedTree : World.halvedTree.sorted = World.halvedTree := by
  simp only [halvedTree, Node.sorted, Node.sortedEach, List.mergeSort_singleton]
  rw [List.mergeSort_of_pairwise]
  decide +kernel

theorem deleteTree_newPaths_unwritten_halved :
    World.halved.OnlyRefuses ∧ (Path.ofText "/w").isAbsolute = true ∧
      ∃ report s, (World.deleter false 1 Nat.one_pos).deleteTree false (.ofText "/w")
          ⟨World.halved, [], []⟩ =
            .error (.incomplete (Path.ofText "/w").normalize.text report) s ∧
        report.failedPaths = ["/w/d/y"] ∧ report.moreFailures = true ∧
        World.halved.files.Worn s.state.files (.ofText "/w/d") ∧
        ∀ t ∈ report.newPaths, Unwritten World.halved (.ofText "/w") s.state.files report t := by
  have hr : World.halved.OnlyRefuses := by
    intro e he
    change e ∈ [_] at he
    rw [List.mem_singleton.1 he]
    exact ⟨Or.inr (Or.inr rfl), rfl, rfl, .eacces, rfl, rfl⟩
  have ha : (Path.ofText "/w").isAbsolute = true := by decide
  have hends := deleteTree_newPaths_unwritten hr ha false 1 Nat.one_pos [] []
  have hlimits : (Path.ofText "/w").WithinLimits World.halvedTree :=
    Path.withinLimits_of_places (by decide +kernel)
  have hreadable : ∀ names ∈ World.halvedTree.places,
      '\x00' ∉ ((Path.ofText "/w").descend names).text.toList := by decide +kernel
  have hvisits : (World.halved.survey (.ofText "/w") World.halvedTree).visits =
      (Survey.ofNode (.ofText "/w") [] World.halvedTree World.halved.events).visits := by
    rw [World.survey, World.sorted_halvedTree]
  have hleads : World.halved.files.locate false (.ofText "/w") = .ok (.ofText "/w") := rfl
  have hthere : World.halved.files.get? (.ofText "/w") = some World.halvedTree := rfl
  have hsurveyed := deleteTree_surveyed hr ha (by decide) (by decide) hleads hthere (by decide) hlimits
    (fun names hn => hreadable names (Node.mem_places hn)) false 1 Nat.one_pos [] []
  rw [hvisits] at hsurveyed
  obtain ⟨report, s, hrun, htells, hloses⟩ := hsurveyed.2 (by decide +kernel)
  have hfailed : report.failedPaths = ["/w/d/y"] := by
    rw [htells.failedPaths]
    decide +kernel
  have hmore : report.moreFailures = true := by
    rw [htells.moreFailures]
    decide +kernel
  have hworn : World.halved.files.Worn s.state.files (.ofText "/w/d") := by
    refine ⟨⟨"x", by decide, by decide, by decide, by decide⟩, by decide +kernel, ?_⟩
    rw [hloses.get?_eq_none_iff]
    exact Or.inl (by decide +kernel)
  exact ⟨hr, ha, report, s, hrun, hfailed, hmore, hworn, hends.error hrun report rfl⟩

end TreeRemoval
