import TreeRemoval.Proofs.Removal
import TreeRemoval.Proofs.World.Idle

/-! # What a scan finds

With nobody else at work, a scan for new paths goes through the paths below the root in pre-order
and takes in those that were modified and did not fail, until there are as many as a report takes.
-/

namespace TreeRemoval

open FileSystem Deletion

namespace BoundedSet

variable {s : BoundedSet}

theorem foldl_insert_of_full (h : s.isFull = true) (ts : List String) : ts.foldl insert s = s := by
  induction ts with
  | nil => rfl
  | cons t ts ih => rw [List.foldl_cons, insert, if_pos (by rw [h]; rfl), ih]

theorem items_foldl_insert {ts : List String} (hn : (s.items ++ ts).Nodup)
    (hle : s.items.length ≤ s.capacity) :
    (ts.foldl insert s).items = (s.items ++ ts).take s.capacity := by
  induction ts generalizing s with
  | nil => rw [List.foldl_nil, List.append_nil, List.take_of_length_le hle]
  | cons t ts ih =>
    by_cases hfull : s.isFull = true
    · have hsize := s.isFull_iff.1 hfull
      rw [foldl_insert_of_full hfull, List.take_append_of_le_length hsize,
        List.take_of_length_le hle]
    · have hnew : t ∉ s.items := fun ht =>
        (List.nodup_append.1 hn).2.2 t ht t List.mem_cons_self rfl
      have hitems : (s.insert t).items = s.items ++ [t] := by
        rw [items_insert, if_neg (not_or.2 ⟨hfull, hnew⟩)]
      have hroom := mt s.isFull_iff.2 hfull
      rw [List.foldl_cons, ih, hitems, capacity_insert, List.append_assoc, List.singleton_append]
      · rw [hitems, List.append_assoc, List.singleton_append]
        exact hn
      · rw [hitems, capacity_insert, List.length_append, List.length_singleton]
        omega

end BoundedSet

namespace FileSystem

variable (fs : FileSystem) (workingDirectory : String) (startTime : Float)

def changedSince (p : Path) : Bool :=
  showsAt (fs.lstat workingDirectory p.text) (·.modified ≥ startTime)

/-- The absolute texts of those among some paths that have changed, without some texts. -/
def changedTexts (excluded : List String) (ps : List Path) : List String :=
  ((ps.filter (fs.changedSince workingDirectory startTime)).map
    fun p => (p.absolute workingDirectory).text).filter (· ∉ excluded)

/-- The new paths below a root: all below it in pre-order that have changed and did not fail. -/
def newTexts (followSymlinks : Bool) (failed : List String) (root : Path) : List String :=
  fs.changedTexts workingDirectory startTime failed
    (fs.pathsBelow workingDirectory followSymlinks root)

variable {fs workingDirectory startTime} {excluded failed : List String} {followSymlinks : Bool}
  {ps qs : List Path} {root : Path}

@[simp] theorem changedTexts_nil :
    fs.changedTexts workingDirectory startTime excluded [] = [] := rfl

@[simp] theorem changedTexts_append :
    fs.changedTexts workingDirectory startTime excluded (ps ++ qs) =
      fs.changedTexts workingDirectory startTime excluded ps ++
        fs.changedTexts workingDirectory startTime excluded qs := by
  simp [changedTexts]

theorem changedTexts_singleton (p : Path) :
    fs.changedTexts workingDirectory startTime excluded [p] =
      if fs.changedSince workingDirectory startTime p = true ∧
          (p.absolute workingDirectory).text ∉ excluded then
        [(p.absolute workingDirectory).text]
      else [] := by
  by_cases hchanged : fs.changedSince workingDirectory startTime p = true <;>
    by_cases hin : (p.absolute workingDirectory).text ∈ excluded <;>
      simp [changedTexts, hchanged, hin]

theorem changedTexts_cons (p : Path) (ps : List Path) :
    fs.changedTexts workingDirectory startTime excluded (p :: ps) =
      fs.changedTexts workingDirectory startTime excluded [p] ++
        fs.changedTexts workingDirectory startTime excluded ps := by
  rw [← changedTexts_append, List.singleton_append]

theorem changedTexts_flatMap {f : Path → List Path} :
    fs.changedTexts workingDirectory startTime excluded (ps.flatMap f) =
      ps.flatMap fun p => fs.changedTexts workingDirectory startTime excluded (f p) := by
  induction ps with
  | nil => rfl
  | cons p ps ih => rw [List.flatMap_cons, changedTexts_append, ih, List.flatMap_cons]

theorem nodup_newTexts (hroot : root.Proper) :
    (fs.newTexts workingDirectory startTime followSymlinks failed root).Nodup := by
  refine List.Nodup.filter _ (List.Nodup.map_on ?_ ((nodup_pathsBelow root).filter _))
  intro p hp q hq he
  obtain ⟨n, names, rfl⟩ := exists_descend_of_mem_pathsBelow (List.mem_filter.1 hp).1
  obtain ⟨m, names', rfl⟩ := exists_descend_of_mem_pathsBelow (List.mem_filter.1 hq).1
  rw [hroot.absolute_descend_injective workingDirectory he]

/-- A root is not among the paths below it. Whether it counts as failed makes no difference to them.
-/
theorem changedTexts_root (hroot : root.Proper) :
    fs.changedTexts workingDirectory startTime
        ((root.absolute workingDirectory).text ::
          failed.filter (· ≠ (root.absolute workingDirectory).text))
        (root :: fs.pathsBelow workingDirectory followSymlinks root) =
      fs.newTexts workingDirectory startTime followSymlinks failed root := by
  have hself : fs.changedTexts workingDirectory startTime
      ((root.absolute workingDirectory).text ::
        failed.filter (· ≠ (root.absolute workingDirectory).text)) [root] = [] := by
    rw [changedTexts, List.filter_eq_nil_iff]
    intro t ht
    obtain ⟨p, hp, rfl⟩ := List.mem_map.1 ht
    rw [List.mem_singleton.1 (List.mem_filter.1 hp).1]
    simp
  rw [changedTexts_cons, hself, List.nil_append]
  refine List.filter_congr fun t ht => ?_
  obtain ⟨p, hp, rfl⟩ := List.mem_map.1 ht
  obtain ⟨n, names, rfl⟩ := exists_descend_of_mem_pathsBelow (List.mem_filter.1 hp).1
  have hne : ((root.descend (n :: names)).absolute workingDirectory).text ≠
      (root.absolute workingDirectory).text := by
    intro he
    have hnames : n :: names = [] := hroot.absolute_descend_injective workingDirectory
      (by rw [he, root.descend_nil])
    cases hnames
  simp [hne]

end FileSystem

namespace World.AtRest

variable {fs : FileSystem} {workingDirectory : String} {On : String → Prop} {gc : Bool} {cap : Nat}
  {hcap : 0 < cap} {followSymlinks : Bool} {startTime : Float} {root p : Path} {top : String}
  {excluded : List String} {found : BoundedSet} {s : Session World} {names : List Name} {depth : Nat}

theorem ends_performed {α : Type} {m : EStateM Fault World α} {a : α}
    (h : Ends m s.state (fun a' w' => AtRest fs workingDirectory On w' ∧ a' = a) fun _ _ => False) :
    Ends (perform m) s (fun a' s' => AtRest fs workingDirectory On s'.state ∧ a' = a)
      fun _ _ => False :=
  ends_perform (h.mono (fun _ _ h => h) fun _ _ h => h)

variable (hs : AtRest fs workingDirectory On s.state)

include hs

theorem ends_shouldFollow (ht : On p.text) :
    Ends ((deleter gc cap hcap).shouldFollow followSymlinks p) s
      (fun b s' => AtRest fs workingDirectory On s'.state ∧
        b = fs.goesInto workingDirectory followSymlinks p) fun _ _ => False := by
  unfold Deleter.shouldFollow goesInto
  apply Ends.bind (ends_performed (hs.ends_isDirectory ht))
  rintro _ s₁ ⟨hs₁, rfl⟩
  cases showsAt (fs.stat workingDirectory p.text) (·.kind = .directory) with
  | false => exact Ends.pure ⟨hs₁, rfl⟩
  | true =>
    cases followSymlinks with
    | true => exact Ends.pure ⟨hs₁, rfl⟩
    | false =>
      apply Ends.bind (ends_performed (hs₁.ends_isLink ht))
      rintro _ s₂ ⟨hs₂, rfl⟩
      exact Ends.pure ⟨hs₂, by simp⟩

theorem ends_listChildren (ht : On p.text) {listed : List Name}
    (hl : fs.list workingDirectory p.text = .ok listed) :
    Ends ((deleter gc cap hcap).listChildren p) s
      (fun r s' => AtRest fs workingDirectory On s'.state ∧
        r = some (fs.childrenOf workingDirectory p)) fun _ _ => False := by
  unfold Deleter.listChildren
  apply Ends.bind (Q := fun r s' => AtRest fs workingDirectory On s'.state ∧
    r = .ok (fs.childrenOf workingDirectory p))
  · exact ends_observe ((hs.ends_children ht hl).mono
      (fun _ _ ⟨hw, hc⟩ => ⟨hw, congrArg Except.ok hc⟩) fun _ _ h => h.elim)
  · rintro _ s₁ ⟨hs₁, rfl⟩
    exact Ends.pure ⟨hs₁, rfl⟩

/-- Looking at a path takes it in if it has changed and may count. -/
theorem ends_inspect (ha : fs.Grounds workingDirectory p) (ht : On p.text)
    (hthere : (p.absolute workingDirectory).text = top ∨
      ∃ status, fs.lstat workingDirectory p.text = .ok status) :
    Ends ((deleter gc cap hcap).inspect startTime top excluded p found) s
      (fun r s' => AtRest fs workingDirectory On s'.state ∧
        r = (true, (fs.changedTexts workingDirectory startTime (top :: excluded) [p]).foldl
          BoundedSet.insert found)) fun _ _ => False := by
  unfold Deleter.inspect
  apply Ends.bind (ends_performed (hs.ends_absolute ha))
  rintro _ s₁ ⟨hs₁, rfl⟩
  rw [changedTexts_singleton]
  by_cases hcounts : (p.absolute workingDirectory).text = top ∨
      (p.absolute workingDirectory).text ∈ excluded
  · rw [if_pos hcounts, if_neg fun h => h.2 (List.mem_cons.2 hcounts)]
    exact Ends.pure ⟨hs₁, rfl⟩
  · obtain ⟨status, hl⟩ := hthere.resolve_left (not_or.1 hcounts).1
    rw [if_neg hcounts]
    apply Ends.bind (ends_performed (hs₁.ends_look? ht hl))
    rintro _ s₂ ⟨hs₂, rfl⟩
    refine Ends.pure ⟨hs₂, ?_⟩
    have hchanged : fs.changedSince workingDirectory startTime p = true ↔
        status.modified ≥ startTime := by
      rw [changedSince, hl]
      exact decide_eq_true_iff
    by_cases htime : status.modified ≥ startTime
    · rw [if_pos htime, if_pos ⟨hchanged.2 htime, mt List.mem_cons.1 hcounts⟩]
      rfl
    · rw [if_neg htime, if_neg fun h => htime (hchanged.1 h.1)]
      rfl

/-- A set that is full takes nothing more in, so that the scan may stop there. -/
theorem ends_scanEach {scan : Path → BoundedSet → Deletion World BoundedSet}
    {news : Path → List String} {children : List Path}
    (hscan : ∀ c ∈ children, ∀ {found} {s : Session World}, AtRest fs workingDirectory On s.state →
      Ends (scan c found) s
        (fun r s' => AtRest fs workingDirectory On s'.state ∧
          r = (news c).foldl BoundedSet.insert found) fun _ _ => False) :
    Ends (Deleter.scanEach scan children found) s
      (fun r s' => AtRest fs workingDirectory On s'.state ∧
        r = (children.flatMap news).foldl BoundedSet.insert found) fun _ _ => False := by
  induction children generalizing found s with
  | nil => exact Ends.pure ⟨hs, rfl⟩
  | cons c rest ih =>
    unfold Deleter.scanEach
    by_cases hfull : found.isFull = true
    · rw [if_pos hfull]
      exact Ends.pure ⟨hs, (BoundedSet.foldl_insert_of_full hfull _).symm⟩
    · rw [if_neg hfull]
      apply Ends.bind (hscan c List.mem_cons_self hs)
      rintro _ s₁ ⟨hs₁, rfl⟩
      rw [List.flatMap_cons, List.foldl_append]
      exact ih hs₁ fun c' hc' => hscan c' (List.mem_cons_of_mem _ hc')

end World.AtRest

/-- A call takes the path's text, as far as its length goes, and its last name. -/
structure Path.Callable (p : Path) : Prop where
  text : p.text.utf8ByteSize ≤ maxPathBytes
  name : p.name.utf8ByteSize ≤ Name.maxBytes

theorem Path.Callable.isTooLong_eq_false {p : Path} {n : Name} (h : (p.child n).Callable) :
    n.isTooLong = false := by
  have hname := h.name
  simp only [Path.name, Path.parts_child, List.getLast?_concat, Option.getD_some] at hname
  simpa [Name.isTooLong] using hname

namespace World.AtRest

variable {fs : FileSystem} {workingDirectory : String} {On : String → Prop} {gc : Bool} {cap : Nat}
  {hcap : 0 < cap} {followSymlinks : Bool} {startTime : Float} {root : Path} {top : String}
  {excluded : List String} {found : BoundedSet} {s : Session World}

/-- What a scan takes in are the changed paths of the enumeration. -/
theorem ends_scanBelow (hroot : root.Proper) (ha : fs.Grounds workingDirectory root)
    {depth : Nat} {names : List Name} (hdepth : maxDepth ≤ depth + names.length)
    (htext : (root.descend names).text.utf8ByteSize ≤ maxPathBytes)
    (hthere : ((root.descend names).absolute workingDirectory).text = top ∨
      ∃ status, fs.lstat workingDirectory (root.descend names).text = .ok status)
    (hon : ∀ p ∈ root.descend names ::
      fs.pathsBelow workingDirectory followSymlinks (root.descend names), On p.text)
    (hcallable : ∀ p ∈ fs.pathsBelow workingDirectory followSymlinks (root.descend names),
      p.Callable)
    (hs : AtRest fs workingDirectory On s.state) :
    Ends ((deleter gc cap hcap).scanBelow followSymlinks startTime top excluded depth
        (root.descend names) found) s
      (fun r s' => AtRest fs workingDirectory On s'.state ∧
        r = (fs.changedTexts workingDirectory startTime (top :: excluded) (root.descend names ::
          fs.pathsBelow workingDirectory followSymlinks (root.descend names))).foldl
            BoundedSet.insert found) fun _ _ => False := by
  -- The induction is on the levels that are left.
  induction depth generalizing names found s with
  | zero =>
    -- A path with that many names has a text beyond the limit.
    have hlength := root.two_mul_length_le_utf8ByteSize_text names
    unfold maxDepth at hdepth
    omega
  | succ depth ih =>
    have ht := hon _ List.mem_cons_self
    unfold Deleter.scanBelow
    apply Ends.bind (hs.ends_inspect (ha.descend names) ht hthere)
    rintro _ s₁ ⟨hs₁, rfl⟩
    apply Ends.bind (hs₁.ends_shouldFollow ht)
    rintro _ s₂ ⟨hs₂, rfl⟩
    rw [changedTexts_cons _ (fs.pathsBelow _ _ _), List.foldl_append]
    cases hinto : fs.goesInto workingDirectory followSymlinks (root.descend names) with
    | false =>
      rw [pathsBelow_eq_nil hinto]
      exact Ends.pure ⟨hs₂, rfl⟩
    | true =>
      obtain ⟨listed, hl⟩ := exists_list_of_goesInto hinto
      apply Ends.bind (hs₂.ends_listChildren ht hl)
      rintro _ s₃ ⟨hs₃, rfl⟩
      rw [pathsBelow_eq, if_pos hinto, changedTexts_flatMap]
      refine hs₃.ends_scanEach fun c hc found s hs => ?_
      obtain ⟨_, n, hl', hn, rfl⟩ := mem_childrenOf.1 hc
      have hbelow : ∀ q ∈ (root.descend names).child n ::
          fs.pathsBelow workingDirectory followSymlinks ((root.descend names).child n),
          q ∈ fs.pathsBelow workingDirectory followSymlinks (root.descend names) := fun q hq =>
        mem_pathsBelow_iff.2 ⟨hinto, _, n, hl', hn, List.mem_cons.1 hq⟩
      have hchild := hcallable _ (hbelow _ List.mem_cons_self)
      have hfound := exists_lstat_of_list (hroot.descend names) hl' hn hchild.text
        hchild.isTooLong_eq_false
      rw [← Path.descend_concat] at hbelow hchild hfound ⊢
      refine ih (by rw [List.length_append, List.length_singleton]; omega) hchild.text
        (Or.inr hfound) (fun q hq => ?_) (fun q hq => ?_) hs
      · exact hon q (List.mem_cons_of_mem _ (hbelow q hq))
      · exact hcallable q (hbelow q (List.mem_cons_of_mem _ hq))

theorem ends_newPaths (hroot : root.Proper) (ha : fs.Grounds workingDirectory root)
    (hinto : fs.goesInto workingDirectory followSymlinks root = true)
    (hon : ∀ p ∈ root :: fs.pathsBelow workingDirectory followSymlinks root, On p.text)
    (hcallable : ∀ p ∈ fs.pathsBelow workingDirectory followSymlinks root, p.Callable)
    (failed : List String) (hs : AtRest fs workingDirectory On s.state) :
    Ends ((deleter gc cap hcap).newPaths followSymlinks startTime
        (failed.filter (· ≠ (root.absolute workingDirectory).text)) root) s
      (fun r s' => AtRest fs workingDirectory On s'.state ∧
        r = (fs.newTexts workingDirectory startTime followSymlinks failed root).take cap)
      fun _ _ => False := by
  unfold Deleter.newPaths
  apply Ends.bind (ends_performed (hs.ends_absolute ha))
  rintro _ s₁ ⟨hs₁, rfl⟩
  have hself : root = root.descend [] := root.descend_nil.symm
  have hscan : Ends ((deleter gc cap hcap).scanBelow followSymlinks startTime
      (root.absolute workingDirectory).text
      (failed.filter (· ≠ (root.absolute workingDirectory).text)) maxDepth (root.descend [])
      (.empty cap hcap)) s₁ _ _ :=
    ends_scanBelow hroot ha (Nat.le_add_right _ _) (hself ▸ text_le_of_goesInto hinto)
      (Or.inl (by rw [← hself])) (by rwa [← hself]) (by rwa [← hself]) hs₁
  rw [← hself, changedTexts_root hroot] at hscan
  apply Ends.bind hscan
  rintro _ s₂ ⟨hs₂, rfl⟩
  exact Ends.pure ⟨hs₂, BoundedSet.items_foldl_insert (nodup_newTexts hroot) (Nat.zero_le _)⟩

/-- Filling in a report does not fail. -/
theorem ends_fillReport (run : Run) (descended : Bool) (failedPaths newPaths : List String)
    (ht : On root.text) (hs : AtRest fs workingDirectory On s.state) :
    Ends ((deleter gc cap hcap).fillReport root run descended failedPaths newPaths) s
      (fun report _ => report.newPaths = newPaths ∧ report.descended = descended ∧
        report.maxReported = cap) fun _ _ => False := by
  unfold Deleter.fillReport
  apply Ends.bind (ends_performed (hs.ends_isLink ht))
  rintro _ s₁ ⟨hs₁, rfl⟩
  apply Ends.bind (ends_performed (hs₁.ends_isDirectory ht))
  rintro _ s₂ ⟨-, rfl⟩
  exact Ends.pure ⟨rfl, rfl, rfl⟩

/-- A report on a root, gone into or not. -/
theorem ends_buildReport (hroot : root.Proper)
    (ha : fs.goesInto workingDirectory followSymlinks root = true → fs.Grounds workingDirectory root)
    (hon : ∀ p ∈ root :: fs.pathsBelow workingDirectory followSymlinks root, On p.text)
    (hcallable : ∀ p ∈ fs.pathsBelow workingDirectory followSymlinks root, p.Callable) (run : Run)
    (hs : AtRest fs workingDirectory On s.state) :
    Ends ((deleter gc cap hcap).buildReport followSymlinks root startTime run) s
      (fun report _ => report.newPaths =
          (fs.newTexts workingDirectory startTime followSymlinks run.failed.items root).take cap ∧
        report.descended = fs.goesInto workingDirectory followSymlinks root ∧
        report.maxReported = cap) fun _ _ => False := by
  have ht := hon root List.mem_cons_self
  rw [Deleter.buildReport_eq]
  apply Ends.bind (hs.ends_shouldFollow ht)
  rintro _ s₁ ⟨hs₁, rfl⟩
  cases hinto : fs.goesInto workingDirectory followSymlinks root with
  | false =>
    have hnone :
        fs.newTexts workingDirectory startTime followSymlinks run.failed.items root = [] := by
      rw [newTexts, pathsBelow_eq_nil hinto, changedTexts_nil]
    rw [hnone, List.take_nil]
    exact ends_fillReport run false _ [] ht hs₁
  | true =>
    apply Ends.bind (ends_performed (hs₁.ends_absolute (ha hinto)))
    rintro _ s₂ ⟨hs₂, rfl⟩
    apply Ends.bind (ends_newPaths hroot (ha hinto) hinto hon hcallable run.failed.items hs₂)
    rintro _ s₃ ⟨hs₃, rfl⟩
    exact ends_fillReport run true _ _ ht hs₃

end World.AtRest

/-- What a report says of new paths: the first of the paths below the root that have changed since
the start and did not fail, in pre-order and as many as a report takes. -/
theorem buildReport_newPaths {w : World} {root : String}
    (habsolute : (Path.ofText root).isAbsolute = true ∨
      (Path.ofText w.workingDirectory).isAbsolute = true ∧
        w.workingDirectory.utf8ByteSize ≤ maxPathBytes)
    {followSymlinks : Bool}
    (hidle : ∀ p ∈ .ofText root ::
      w.files.pathsBelow w.workingDirectory followSymlinks (.ofText root),
      ∀ e ∈ w.events, e.IsIdleAt p.text)
    (hcallable : ∀ p ∈ w.files.pathsBelow w.workingDirectory followSymlinks (.ofText root),
      p.Callable)
    (hreadable : ∀ p ∈ .ofText root ::
      w.files.pathsBelow w.workingDirectory followSymlinks (.ofText root), '\x00' ∉ p.text.toList)
    (gc : Bool) (cap : Nat) (hcap : 0 < cap) (startTime : Float) (run : Run) (log : List Log.Entry)
    (acts : List Act) :
    ∃ report s, (World.deleter gc cap hcap).buildReport followSymlinks (.ofText root) startTime run
        ⟨w, log, acts⟩ = .ok report s ∧
      report.descended = w.files.goesInto w.workingDirectory followSymlinks (.ofText root) ∧
      (report.descended = false → report.newPaths = []) ∧
      report.newPaths = (w.files.newTexts w.workingDirectory startTime followSymlinks
        run.failed.items (.ofText root)).take cap ∧
      (report.newPathsTruncated = true ↔ cap ≤ (w.files.newTexts w.workingDirectory startTime
        followSymlinks run.failed.items (.ofText root)).length) := by
  have hroot := Path.proper_ofText root
  have hgrounds : w.files.goesInto w.workingDirectory followSymlinks (.ofText root) = true →
      w.files.Grounds w.workingDirectory (.ofText root) := by
    intro hinto
    by_cases hhere : (Path.ofText root).isAbsolute = true
    · exact Or.inl hhere
    · obtain ⟨hwd, hbytes⟩ := habsolute.resolve_left hhere
      exact Or.inr (stat_workingDirectory_of_goesInto hroot (by simpa [Path.isAbsolute] using hhere)
        hwd hbytes hinto)
  have hs : World.AtRest w.files w.workingDirectory
      (fun t => ∃ p ∈ .ofText root ::
        w.files.pathsBelow w.workingDirectory followSymlinks (.ofText root), p.text = t)
      (Session.mk w log acts).state := by
    refine ⟨rfl, rfl, ?_, ?_⟩
    · rintro _ ⟨p, hp, rfl⟩
      exact hreadable p hp
    · rintro e he _ ⟨p, hp, rfl⟩
      exact hidle p hp e he
  obtain ⟨report, s, hreport, hnew, hdescended, hmax⟩ :=
    (World.AtRest.ends_buildReport hroot hgrounds (fun p hp => ⟨p, hp, rfl⟩) hcallable run
      hs).exists_ok
  refine ⟨report, s, hreport, hdescended, fun hnot => ?_, hnew, ?_⟩
  · have hnone : w.files.newTexts w.workingDirectory startTime followSymlinks run.failed.items
        (.ofText root) = [] := by
      rw [newTexts, pathsBelow_eq_nil (hdescended.symm.trans hnot), changedTexts_nil]
    rw [hnew, hnone, List.take_nil]
  · rw [Report.newPathsTruncated, decide_eq_true_iff, hmax, hnew, List.length_take]
    omega

/-- What a walk has left: a file and a directory that failed, and files that are new. One listing
was refused before. -/
def World.unsettled : World :=
  .make [.leaf (.ofText "/w/a") .file 0, .leaf (.ofText "/w/d/n") .file 2000,
      .leaf (.ofText "/w/z") .file 2000] "/" none
    [{ call := .list, times := some 1, disruption := some (.errno .eacces), seen := 1 }] (.ofList [])

theorem World.pathsBelow_unsettled :
    World.unsettled.files.pathsBelow "/" false (.ofText "/w") =
      [.ofText "/w/a", .ofText "/w/d", .ofText "/w/d/n", .ofText "/w/z"] := by
  have hw : World.unsettled.files.list "/" (Path.ofText "/w").text =
      .ok (Location.ofText "/a/d/z") := rfl
  have hd : World.unsettled.files.list "/" (Path.ofText "/w/d").text = .ok (Location.ofText "/n") :=
    rfl
  have hbelow : (Location.ofText "/a/d/z").map (Path.ofText "/w").child =
      [.ofText "/w/a", .ofText "/w/d", .ofText "/w/z"] := by decide
  have hdeeper : (Location.ofText "/n").map (Path.ofText "/w/d").child = [.ofText "/w/d/n"] := by
    decide
  rw [pathsBelow_eq, if_pos (by decide), childrenOf_of_sorted hw (by decide), hbelow]
  simp only [List.flatMap_cons, List.flatMap_nil]
  rw [pathsBelow_eq _ _ _ (.ofText "/w/d"), if_pos (by decide),
    childrenOf_of_sorted hd (by decide), hdeeper]
  simp only [List.flatMap_cons, List.flatMap_nil]
  rw [pathsBelow_eq_nil (by decide), pathsBelow_eq_nil (by decide), pathsBelow_eq_nil (by decide)]
  rfl

def Run.unsettled : Run :=
  { failed := ((BoundedSet.empty 2 Nat.two_pos).insert "/w/a").insert "/w/d"
    retries := 2
    failures := 2 }

theorem buildReport_newPaths_unsettled :
    (Path.ofText "/w").isAbsolute = true ∧
      (∀ p ∈ .ofText "/w" :: World.unsettled.files.pathsBelow "/" false (.ofText "/w"),
        ∀ e ∈ World.unsettled.events, e.IsIdleAt p.text) ∧
      (∀ p ∈ World.unsettled.files.pathsBelow "/" false (.ofText "/w"), p.Callable) ∧
      (∀ p ∈ .ofText "/w" :: World.unsettled.files.pathsBelow "/" false (.ofText "/w"),
        '\x00' ∉ p.text.toList) ∧
      ∃ report s, (World.deleter false 2 Nat.two_pos).buildReport false (.ofText "/w") 1000
          Run.unsettled ⟨World.unsettled, [], []⟩ = .ok report s ∧
        report.descended = World.unsettled.files.goesInto "/" false (.ofText "/w") ∧
        (report.descended = false → report.newPaths = []) ∧
        report.newPaths = (World.unsettled.files.newTexts "/" 1000 false ["/w/a", "/w/d"]
          (.ofText "/w")).take 2 ∧
        (report.newPathsTruncated = true ↔ 2 ≤ (World.unsettled.files.newTexts "/" 1000 false
          ["/w/a", "/w/d"] (.ofText "/w")).length) := by
  have ha : (Path.ofText "/w").isAbsolute = true := by decide
  have hidle : ∀ p ∈ .ofText "/w" :: World.unsettled.files.pathsBelow "/" false (.ofText "/w"),
      ∀ e ∈ World.unsettled.events, e.IsIdleAt p.text := by
    intro p _ e he moment c _ _
    change e ∈ [_] at he
    rw [List.mem_singleton.1 he]
    exact Or.inl ⟨1, rfl, Nat.le_refl 1⟩
  have hcallable : ∀ p ∈ World.unsettled.files.pathsBelow "/" false (.ofText "/w"), p.Callable := by
    rw [World.pathsBelow_unsettled]
    intro p hp
    have hlimits : ∀ p ∈ [Path.ofText "/w/a", .ofText "/w/d", .ofText "/w/d/n", .ofText "/w/z"],
        p.text.utf8ByteSize ≤ maxPathBytes ∧ p.name.utf8ByteSize ≤ Name.maxBytes := by decide
    exact ⟨(hlimits p hp).1, (hlimits p hp).2⟩
  have hreadable : ∀ p ∈ .ofText "/w" :: World.unsettled.files.pathsBelow "/" false (.ofText "/w"),
      '\x00' ∉ p.text.toList := by
    rw [World.pathsBelow_unsettled]
    decide
  exact ⟨ha, hidle, hcallable, hreadable,
    buildReport_newPaths (w := World.unsettled) (Or.inl ha) hidle hcallable hreadable false 2
      Nat.two_pos 1000 Run.unsettled [] []⟩

/-- A directory that failed is not new, but what is in it may be. -/
example : World.unsettled.files.newTexts "/" 1000 false ["/w/a", "/w/d"] (.ofText "/w") =
    ["/w/d/n", "/w/z"] := by
  rw [newTexts, World.pathsBelow_unsettled]
  decide

/-- Readable names are needed: otherwise no report comes about. -/
theorem buildReport_newPaths_garbled :
    (Path.ofText "/w").isAbsolute = true ∧
      (∀ p ∈ .ofText "/w" :: World.garbled.files.pathsBelow "/" false (.ofText "/w"),
        ∀ e ∈ World.garbled.events, e.IsIdleAt p.text) ∧
      (∀ p ∈ World.garbled.files.pathsBelow "/" false (.ofText "/w"), p.Callable) ∧
      ¬ ∃ report s, (World.deleter false 1 Nat.one_pos).buildReport false (.ofText "/w") 1000
        { failed := (BoundedSet.empty 1 Nat.one_pos).insert "/w", retries := 1, failures := 1 }
        ⟨World.garbled, [], []⟩ = .ok report s := by
  have hlist : World.garbled.files.list "/" (Path.ofText "/w").text =
      .ok (Location.ofText "/a\x00b") := rfl
  have hbelow : World.garbled.files.pathsBelow "/" false (.ofText "/w") = [.ofText "/w/a\x00b"] := by
    have hchild : (Location.ofText "/a\x00b").map (Path.ofText "/w").child =
        [.ofText "/w/a\x00b"] := by decide
    rw [pathsBelow_eq, if_pos (by decide), childrenOf_of_sorted hlist (by decide), hchild]
    simp only [List.flatMap_cons, List.flatMap_nil]
    rw [pathsBelow_eq_nil (by decide)]
    rfl
  have hcallable : ∀ p ∈ World.garbled.files.pathsBelow "/" false (.ofText "/w"), p.Callable := by
    rw [hbelow]
    intro p hp
    obtain rfl := List.mem_singleton.1 hp
    exact ⟨by decide, by decide⟩
  have hfails : ((World.deleter false 1 Nat.one_pos).buildReport false (.ofText "/w") 1000
      { failed := (BoundedSet.empty 1 Nat.one_pos).insert "/w", retries := 1, failures := 1 }).run'
      ⟨World.garbled, [], []⟩ = none := by decide +kernel
  refine ⟨by decide, fun _ _ _ he => ?_, hcallable, ?_⟩
  · cases he
  · rintro ⟨report, s, hs⟩
    obtain ⟨e, s', he⟩ := exists_error_of_run' hfails
    cases he.symm.trans hs

end TreeRemoval
