import TreeRemoval.Proofs.Deletion.Tree
import TreeRemoval.Proofs.Race

/-! # Reports of any environment

Whatever the calls of a deletion answer, the report that it may fail with is consistent: failed and
new paths are apart, as many as the cap allows, and all of them extend the root. Failures are
collected by the walk, new paths by the scan, and each step of either adds one path at most.
-/

namespace TreeRemoval

open Deletion

variable {σ α β : Type}

/-- Paths are listed once, within the cap and below the root's absolute path. The root is no new
path, and no failed one if it was walked into. -/
structure Report.Consistent (report : Report) (top : Path) (cap : Nat) : Prop where
  failed_nodup : report.failedPaths.Nodup
  failed_le : report.failedPaths.length ≤ cap
  new_nodup : report.newPaths.Nodup
  new_le : report.newPaths.length ≤ cap
  disjoint : report.failedPaths.Disjoint report.newPaths
  top_notMem_new : top.text ∉ report.newPaths
  descended_of_top : top.text ∈ report.failedPaths → report.descended = false
  descended_of_new : report.newPaths ≠ [] → report.descended = true
  below : ∀ t ∈ report.failedPaths ++ report.newPaths, ∃ names, t = (top.descend names).text

structure BoundedSet.Holds (s : BoundedSet) (cap : Nat) (P : String → Prop) : Prop where
  capacity : s.capacity = cap
  nodup : s.items.Nodup
  length_le : s.items.length ≤ cap
  each : ∀ t ∈ s.items, P t

namespace BoundedSet.Holds

variable {s : BoundedSet} {cap : Nat} {P : String → Prop} {t : String}

theorem empty (h : 0 < cap) : (BoundedSet.empty cap h).Holds cap P :=
  ⟨rfl, List.nodup_nil, Nat.zero_le cap, nofun⟩

theorem insert (h : s.Holds cap P) (ht : P t) : (s.insert t).Holds cap P := by
  refine ⟨(s.capacity_insert t).trans h.capacity, ?_, ?_, ?_⟩ <;> rw [s.items_insert]
  · split
    · exact h.nodup
    · rename_i hn
      exact List.nodup_append.2 ⟨h.nodup, by simp,
        fun a ha b hb hab => hn (Or.inr (List.mem_singleton.1 hb ▸ hab ▸ ha))⟩
  · split
    · exact h.length_le
    · rename_i hn
      have hroom := mt s.isFull_iff.2 (not_or.1 hn).1
      rw [h.capacity] at hroom
      rw [List.length_append, List.length_singleton]
      omega
  · split
    · exact h.each
    · intro u hu
      rcases List.mem_append.1 hu with hu | hu
      · exact h.each u hu
      · exact List.mem_singleton.1 hu ▸ ht

end BoundedSet.Holds

/-! ### Steps without a report -/

def Reportless (m : Deletion σ α) : Prop :=
  ∀ s, Ends m s (fun _ _ => True) fun e _ => e.report? = none

namespace Reportless

variable {m : Deletion σ α}

theorem perform (call : EStateM Fault σ α) : Reportless (perform call) := fun _ =>
  ends_perform (Ends.intro (fun _ _ _ => trivial) fun _ _ _ => rfl)

theorem of_alike (h : StepsAlike (Same fun _ : Session σ => True) (fun _ => Same fun _ => True) m m) :
    Reportless m :=
  fun _ => (StepsAlike.ends (J := fun _ => True) h trivial).mono (fun _ _ _ => trivial)
    fun _ _ h => h.2.1

theorem keeping (h : Reportless m) {K : Session σ → Prop} (hk : Keeps K m) {s : Session σ}
    (hs : K s) : Ends m s (fun _ s' => K s') fun e _ => e.report? = none :=
  ((hk s hs).and (h s)).mono (fun _ _ h => h.1) fun _ _ h => h.2

end Reportless

namespace Deleter

variable (d : Deleter σ) {followSymlinks : Bool} {root p : Path}

theorem attempting_anything (p : Path) : d.Attempting (fun _ => True) p :=
  have hkeeps : ∀ {α : Type} (call : EStateM Fault σ α), Keeps (fun _ => True) call :=
    fun _ _ _ => Ends.intro (fun _ _ _ => trivial) fun _ _ _ => trivial
  { stat := fun _ => hkeeps _
    lstat := fun _ => hkeeps _
    list := fun _ => hkeeps _
    workingDirectory := hkeeps _
    isSymlink := fun _ => hkeeps _
    now := fun _ _ => trivial
    rmdir := hkeeps _
    unlink := hkeeps _
    pause := hkeeps _
    collect := hkeeps _ }

theorem reportless_shouldFollow (followSymlinks : Bool) (p : Path) :
    Reportless (d.shouldFollow followSymlinks p) :=
  .of_alike ((d.attempting_anything p).attemptsLike.looksLike.shouldFollow (inStep_same _).abreast
    followSymlinks p)

theorem reportless_listChildren (p : Path) : Reportless (d.listChildren p) :=
  .of_alike ((d.attempting_anything p).attemptsLike.looksLike.listChildren (inStep_same _).abreast p)

theorem reportless_attempt (p : Path) : Reportless (d.attempt p) :=
  .of_alike ((d.attempting_anything p).attemptsLike.attempt (inStep_same _))

theorem ends_fillReport_eq (root : Path) (run : Run) (descended : Bool)
    (failedPaths newPaths : List String)
    (s : Session σ) :
    Ends (d.fillReport root run descended failedPaths newPaths) s
      (fun report _ => report.failedPaths = failedPaths ∧ report.newPaths = newPaths ∧
        report.descended = descended)
      fun e _ => e.report? = none := by
  unfold fillReport
  refine Ends.bind (Reportless.perform _ s) fun _ s₁ _ => ?_
  refine Ends.bind (Reportless.perform _ s₁) fun _ s₂ _ => ?_
  exact Ends.pure ⟨rfl, rfl, rfl⟩

/-! ### What a walk and a scan collect -/

/-- Whatever the calls of a deletion do, the working directory stays the same. -/
structure WorkingAt (J : σ → Prop) (workingDirectory : String) : Prop where
  looking : d.Looking J
  rmdir : ∀ t, Keeps J (d.environment.rmdir t)
  unlink : ∀ t, Keeps J (d.environment.unlink t)
  pause : Keeps J d.environment.pause
  collect : Keeps J d.environment.collect
  answers : ∀ s, J s →
    Ends d.environment.workingDirectory s (fun t _ => t = workingDirectory) fun _ _ => True

/-- The text of an extension of the root. Its names are none for the root itself, which is no failed
path if it is kept. -/
def Below (workingDirectory : String) (root : Path) (includeRoot : Bool) (t : String) : Prop :=
  ∃ names, t = ((root.absolute workingDirectory).descend names).text ∧
    (includeRoot = false → names ≠ [])

def New (workingDirectory : String) (root : Path) (excluded : List String) (t : String) : Prop :=
  t ≠ (root.absolute workingDirectory).text ∧ t ∉ excluded ∧
    Below workingDirectory root true t

variable {d} {J : σ → Prop} {workingDirectory : String} (hd : d.WorkingAt J workingDirectory)
  {s : Session σ}

include hd

theorem WorkingAt.attempting (p : Path) : d.Attempting J p where
  looking := hd.looking
  rmdir := hd.rmdir p.text
  unlink := hd.unlink p.text
  pause := hd.pause
  collect := hd.collect

theorem WorkingAt.ends_absolute (p : Path) (hs : J s.state) :
    Ends (d.absolute p) s (fun t s' => t = (p.absolute workingDirectory).text ∧ J s'.state)
      fun e _ => e.report? = none := by
  refine ((hd.looking.keeps_absolute p s hs).and ?_).mono (fun _ _ h => ⟨h.2, h.1⟩) fun _ _ h => h.2
  unfold Deleter.absolute Environment.absolute Path.absolute Path.under
  refine ends_perform (Ends.mono (E := fun _ _ => True) ?_ (fun _ _ h => h) fun _ _ _ => rfl)
  split
  · exact Ends.pure rfl
  · refine Ends.bind (hd.answers s.state hs) ?_
    rintro _ s' rfl
    exact Ends.pure rfl

/-- An attempt books one failure at most: the absolute path that it is about. -/
theorem WorkingAt.ends_deleteNode (run : Run) (p : Path) (hs : J s.state) :
    Ends (d.deleteNode run p) s
      (fun r s' => (r.1.failed = run.failed ∨
        r.1.failed = run.failed.insert (p.absolute workingDirectory).text) ∧ J s'.state)
      fun e _ => e.report? = none := by
  have hbook : ∀ {run' : Run} {s' : Session σ}, run'.failed = run.failed → J s'.state →
      Ends (deleteNode.book d p run') s'
        (fun r s'' => (r.1.failed = run.failed ∨
          r.1.failed = run.failed.insert (p.absolute workingDirectory).text) ∧ J s''.state)
        fun e _ => e.report? = none := by
    intro run' s' hf hs'
    unfold deleteNode.book
    refine Ends.bind (hd.ends_absolute p hs') ?_
    rintro _ s'' ⟨rfl, hs''⟩
    exact Ends.pure ⟨Or.inr (by rw [hf]), hs''⟩
  unfold deleteNode
  refine Ends.bind (((hd.attempting p).keeps_attempt s hs).and (d.reportless_attempt p s) |>.mono
    (fun _ _ h => h.1) fun _ _ h => h.2) fun r s₁ hs₁ => ?_
  cases r with
  | first | second => exact Ends.pure ⟨Or.inl rfl, hs₁⟩
  | stuck => exact hbook rfl hs₁
  | abandoned =>
    refine Ends.bind (hd.ends_absolute p hs₁) fun _ s₂ ⟨_, hs₂⟩ => ?_
    refine ends_bind_note fun s₃ h₃ => ?_
    exact Ends.bind (hd.ends_absolute p (h₃ ▸ hs₂)) fun _ s₄ ⟨_, hs₄⟩ => hbook rfl hs₄

end Deleter

def Deleter.OnWalk (J : σ → Prop) (root p : Path) (s : Session σ) : Prop :=
  J s.state ∧ ∃ names, p = root.descend names

def Stages.collecting (J : σ → Prop) (workingDirectory : String) (root : Path) (includeRoot : Bool)
    (cap : Nat) : Stages σ where
  On _ p _ s := Deleter.OnWalk J root p s
  Open _ p _ s := Deleter.OnWalk J root p s
  Ready p _ s := Deleter.OnWalk J root p s
  Settled _ _ _ := True
  Later run s run' s' := (J s.state → J s'.state) ∧
    (run.failed.Holds cap (Deleter.Below workingDirectory root includeRoot) →
      run'.failed.Holds cap (Deleter.Below workingDirectory root includeRoot))
  Stopped _ _ := True
  Broken e _ := e.report? = none

namespace Deleter.WorkingAt

variable {d : Deleter σ} {J : σ → Prop} {workingDirectory : String}
  {followSymlinks includeRoot : Bool} {root p : Path} {startTime : Float} {top : String}
  {excluded : List String} {found : BoundedSet} {s : Session σ} {run : Run}

theorem ends_listChildren (hd : d.WorkingAt J workingDirectory) (hp : OnWalk J root p s) :
    Ends (d.listChildren p) s
      (fun r s' => J s'.state ∧ ∀ children, r = some children → ∀ c ∈ children, OnWalk J root c s')
      fun e _ => e.report? = none := by
  obtain ⟨hs, names, rfl⟩ := hp
  refine (((hd.looking.keeps_listChildren _ s hs).and (d.reportless_listChildren _ s)).and
    (d.ends_listChildren_child _ s)).mono ?_ fun _ _ he => he.1.2
  rintro r s' ⟨⟨hs', -⟩, hlisted⟩
  refine ⟨hs', fun children hr c hc => ⟨hs', ?_⟩⟩
  obtain ⟨n, rfl⟩ := hlisted children hr c hc
  exact ⟨names ++ [n], (root.descend_concat names n).symm⟩

/-- A scan of several paths collects new ones, if a scan of each does. -/
theorem ends_scanEach {scan : Path → BoundedSet → Deletion σ BoundedSet}
    (hscan : ∀ {p found s}, OnWalk J root p s →
      found.Holds d.maxReported (New workingDirectory root excluded) →
      Ends (scan p found) s
        (fun found' s' => found'.Holds d.maxReported (New workingDirectory root excluded) ∧
          J s'.state)
        fun e _ => e.report? = none)
    {children : List Path} (hchildren : ∀ c ∈ children, OnWalk J root c s) (hs : J s.state)
    (hf : found.Holds d.maxReported (New workingDirectory root excluded)) :
    Ends (scanEach scan children found) s
      (fun found' s' => found'.Holds d.maxReported (New workingDirectory root excluded) ∧
        J s'.state)
      fun e _ => e.report? = none := by
  induction children generalizing found s with
  | nil => exact Ends.pure ⟨hf, hs⟩
  | cons c rest ih =>
    unfold scanEach
    split
    · exact Ends.pure ⟨hf, hs⟩
    · refine Ends.bind (hscan (hchildren c List.mem_cons_self) hf) ?_
      rintro found' s' ⟨hf', hs'⟩
      exact ih (fun c' hc => ⟨hs', (hchildren c' (List.mem_cons_of_mem _ hc)).2⟩) hs' hf'

variable (hd : d.WorkingAt J workingDirectory)

include hd

theorem collectingTour : Tour d followSymlinks root includeRoot
    (.collecting J workingDirectory root includeRoot d.maxReported) where
  refl _ _ := ⟨id, id⟩
  trans h h' := ⟨h'.1 ∘ h.1, h'.2 ∘ h.2⟩
  on_later hon hl := ⟨hl.1 hon.1, hon.2⟩
  settled_later _ _ := trivial
  settled_stopped _ _ := trivial
  deep _ := rfl
  opening := by
    rintro _ p run s ⟨hs, hp⟩
    refine ((d.reportless_shouldFollow followSymlinks p).keeping
      (hd.looking.keeps_shouldFollow followSymlinks p) hs).mono ?_ fun _ _ he => he
    rintro (_ | _) s' hs'
    · exact ⟨⟨fun _ => hs', id⟩, hs', hp⟩
    · exact ⟨⟨fun _ => hs', id⟩, hs', hp⟩
  listing := by
    rintro _ p run s hon
    refine (hd.ends_listChildren hon).mono ?_ fun _ _ he => he
    rintro (_ | children) s' ⟨hs', hchildren⟩
    · exact ⟨⟨fun _ => hs', id⟩, trivial⟩
    · exact ⟨⟨fun _ => hs', id⟩, hchildren children rfl, fun _ _ hl _ => ⟨hl.1 hs', hon.2⟩⟩
  leaving := by
    rintro _ run s ⟨hs, names, rfl⟩
    unfold Deleter.leave
    split
    · exact Ends.pure ⟨⟨id, id⟩, trivial, nofun⟩
    rename_i hkept
    refine Ends.bind (hd.ends_deleteNode run _ hs) ?_
    rintro ⟨run', full⟩ s₁ ⟨hfailed, hs₁⟩
    have hbelow : Below workingDirectory root includeRoot
        ((root.descend names).absolute workingDirectory).text := by
      refine ⟨names, by rw [Path.absolute_descend], ?_⟩
      rintro hinclude rfl
      exact hkept ⟨root.descend_nil, hinclude⟩
    have hholds : run.failed.Holds d.maxReported (Below workingDirectory root includeRoot) →
        run'.failed.Holds d.maxReported (Below workingDirectory root includeRoot) := by
      intro h
      rcases hfailed with he | he <;> rw [he]
      · exact h
      · exact h.insert hbelow
    cases full with
    | false => exact Ends.pure ⟨⟨fun _ => hs₁, hholds⟩, trivial, fun _ => trivial⟩
    | true =>
      exact ends_bind_note fun s₂ h₂ =>
        Ends.pure ⟨⟨fun _ => h₂ ▸ hs₁, hholds⟩, trivial, fun _ => trivial⟩

theorem ends_walk (hs : J s.state) :
    Ends (d.walk followSymlinks root includeRoot) s
      (fun run s' => run.failed.Holds d.maxReported (Below workingDirectory root includeRoot) ∧
        J s'.state)
      fun e _ => e.report? = none :=
  (hd.collectingTour.ends_walk ⟨hs, [], root.descend_nil.symm⟩).mono
    (fun _ _ h => ⟨h.1.2 (.empty d.maxReported_pos), h.1.1 hs⟩) fun _ _ he => he

/-- Looking at a path takes it for a new one at most. -/
theorem ends_inspect (hp : OnWalk J root p s)
    (hf : found.Holds d.maxReported (New workingDirectory root excluded)) :
    Ends (d.inspect startTime (root.absolute workingDirectory).text excluded p found) s
      (fun r s' => r.2.Holds d.maxReported (New workingDirectory root excluded) ∧
        OnWalk J root p s')
      fun e _ => e.report? = none := by
  obtain ⟨hs, names, rfl⟩ := hp
  unfold inspect
  refine Ends.bind (hd.ends_absolute _ hs) ?_
  rintro _ s₁ ⟨rfl, hs₁⟩
  split
  · exact Ends.pure ⟨hf, hs₁, names, rfl⟩
  rename_i hnew
  obtain ⟨htop, hexcluded⟩ := not_or.1 hnew
  refine Ends.bind ((Reportless.perform _).keeping (hd.looking.keeps_look? _).perform hs₁) ?_
  rintro (_ | status) s₂ hs₂
  · exact Ends.pure ⟨hf, hs₂, names, rfl⟩
  · refine Ends.pure ⟨?_, hs₂, names, rfl⟩
    dsimp only
    split
    · exact hf.insert ⟨htop, hexcluded, names, by rw [Path.absolute_descend], nofun⟩
    · exact hf

theorem ends_scanBelow (depth : Nat) (hp : OnWalk J root p s)
    (hf : found.Holds d.maxReported (New workingDirectory root excluded)) :
    Ends (d.scanBelow followSymlinks startTime (root.absolute workingDirectory).text excluded depth p
        found) s
      (fun found' s' => found'.Holds d.maxReported (New workingDirectory root excluded) ∧
        J s'.state)
      fun e _ => e.report? = none := by
  induction depth generalizing p found s with
  | zero => exact Ends.throw rfl
  | succ depth ih =>
    unfold scanBelow
    refine Ends.bind (hd.ends_inspect hp hf) ?_
    rintro ⟨there, found₁⟩ s₁ ⟨hf₁, hs₁, hp₁⟩
    cases there with
    | false => exact Ends.pure ⟨hf₁, hs₁⟩
    | true =>
      refine Ends.bind ((d.reportless_shouldFollow followSymlinks p).keeping
        (hd.looking.keeps_shouldFollow followSymlinks p) hs₁) ?_
      rintro (_ | _) s₂ hs₂
      · exact Ends.pure ⟨hf₁, hs₂⟩
      refine Ends.bind (hd.ends_listChildren ⟨hs₂, hp₁⟩) ?_
      rintro (_ | children) s₃ ⟨hs₃, hchildren⟩
      · exact Ends.pure ⟨hf₁, hs₃⟩
      · exact ends_scanEach ih (hchildren children rfl) hs₃ hf₁

theorem ends_newPaths (excluded : List String) (hs : J s.state) :
    Ends (d.newPaths followSymlinks startTime excluded root) s
      (fun paths _ => ∃ found : BoundedSet, paths = found.items ∧
        found.Holds d.maxReported (New workingDirectory root excluded))
      fun e _ => e.report? = none := by
  unfold newPaths
  refine Ends.bind (hd.ends_absolute root hs) ?_
  rintro _ s₁ ⟨rfl, hs₁⟩
  exact Ends.bind (hd.ends_scanBelow maxDepth ⟨hs₁, [], root.descend_nil.symm⟩
    (.empty d.maxReported_pos)) fun found _ hf => Ends.pure ⟨found, rfl, hf.1⟩

/-! ### The report -/

/-- What a report holds, given what the walk has collected. A root that was kept is no failed path.
-/
theorem ends_buildReport (hroot : root.Proper)
    (hrun : run.failed.Holds d.maxReported (Below workingDirectory root includeRoot))
    (hs : J s.state) :
    Ends (d.buildReport followSymlinks root startTime run) s
      (fun report _ => report.Consistent (root.absolute workingDirectory) d.maxReported ∧
        (includeRoot = false → (root.absolute workingDirectory).text ∉ report.failedPaths))
      fun e _ => e.report? = none := by
  have hbelow : ∀ t ∈ run.failed.items,
      ∃ names, t = ((root.absolute workingDirectory).descend names).text := fun t ht =>
    (hrun.each t ht).imp fun _ h => h.1
  rw [buildReport_eq]
  refine Ends.bind ((d.reportless_shouldFollow followSymlinks root).keeping
    (hd.looking.keeps_shouldFollow followSymlinks root) hs) ?_
  rintro (_ | _) s₁ hs₁
  · refine (d.ends_fillReport_eq root run false run.failed.items [] s₁).mono ?_ fun _ _ he => he
    rintro report s₂ ⟨hfailed, hnew, hdescended⟩
    refine ⟨⟨hfailed ▸ hrun.nodup, hfailed ▸ hrun.length_le, by simp [hnew], by simp [hnew],
      fun t _ ht => by simp [hnew] at ht, by simp [hnew], fun _ => hdescended,
      fun hne => absurd hnew hne, by simpa [hfailed, hnew] using hbelow⟩, ?_⟩
    rw [hfailed]
    intro hkept htop
    obtain ⟨names, he, hnames⟩ := hrun.each _ htop
    refine hnames hkept (hroot.absolute_descend_injective workingDirectory ?_)
    rw [Path.absolute_descend, ← he, Path.descend_nil]
  · refine Ends.bind (hd.ends_absolute root hs₁) ?_
    rintro _ s₂ ⟨rfl, hs₂⟩
    refine Ends.bind (hd.ends_newPaths _ hs₂) ?_
    rintro _ s₃ ⟨found, rfl, hfound⟩
    refine (d.ends_fillReport_eq root run true _ _ s₃).mono ?_ fun _ _ he => he
    rintro report s₄ ⟨hfailed, hnew, hdescended⟩
    have htop : (root.absolute workingDirectory).text ∉ report.failedPaths := by
      simp [hfailed]
    refine ⟨⟨hfailed ▸ hrun.nodup.filter _, ?_, hnew ▸ hfound.nodup, hnew ▸ hfound.length_le, ?_, ?_,
      fun h => absurd h htop, fun _ => hdescended, ?_⟩, fun _ => htop⟩
    · rw [hfailed]
      exact Nat.le_trans (List.length_filter_le _ _) hrun.length_le
    · rw [hfailed, hnew]
      exact fun t ht hn => (hfound.each t hn).2.1 ht
    · rw [hnew]
      exact fun ht => (hfound.each _ ht).1 rfl
    · rw [hfailed, hnew]
      intro t ht
      rcases List.mem_append.1 ht with ht | ht
      · exact hbelow t (List.mem_filter.1 ht).1
      · obtain ⟨-, -, names, he, -⟩ := hfound.each t ht
        exact ⟨names, he⟩

theorem ends_deleteBelow (hroot : root.Proper) (hs : J s.state) :
    Ends (d.deleteBelow followSymlinks root includeRoot) s (fun _ _ => True)
      fun e _ => ∀ report, e.report? = some report →
        report.Consistent (root.absolute workingDirectory) d.maxReported ∧
          (includeRoot = false → (root.absolute workingDirectory).text ∉ report.failedPaths) := by
  unfold deleteBelow
  refine Ends.bind (Q := fun _ s' => J s'.state)
    (ends_reading (hd.looking.now s.state hs)) fun startTime s₁ hs₁ => ?_
  refine ends_bind_note fun s₂ h₂ => ?_
  refine Ends.seq (hd.ends_walk (h₂ ▸ hs₁)) (fun _ _ => Failure.forall_report)
    fun run s₃ ⟨hrun, hs₃⟩ => ?_
  refine Ends.bind (Q := fun _ _ => True) ?_ fun _ _ _ => Ends.pure trivial
  unfold finish
  refine Ends.bind (Q := fun _ s' => J s'.state)
    (ends_reading (hd.looking.now s₃.state hs₃)) fun endTime s₄ hs₄ => ?_
  dsimp only
  split
  · exact ends_note trivial
  refine Ends.seq (hd.ends_buildReport hroot hrun hs₄ |>.and
    (hd.looking.keeps_buildReport root startTime run s₄ hs₄))
    (fun _ _ he => Failure.forall_report he.1) fun report s₅ ⟨hreport, hs₅⟩ => ?_
  refine ends_bind_note fun s₆ h₆ => ?_
  refine Ends.seq (hd.ends_absolute root (h₆ ▸ hs₅)) (fun _ _ => Failure.forall_report)
    fun place s₇ _ => ?_
  refine Ends.throw fun report' hr => ?_
  obtain rfl : report = report' := by
    split at hr <;> exact Option.some.inj hr
  exact hreport

theorem ends_deleteTree (hroot : root.Proper) (hs : J s.state) :
    Ends (d.deleteTree followSymlinks root) s (fun _ _ => True)
      fun e _ => ∀ report, e.report? = some report →
        report.Consistent (root.absolute workingDirectory) d.maxReported := by
  unfold deleteTree
  refine Ends.seq ((Reportless.perform _).keeping (hd.looking.keeps_look? root.text).perform hs)
    (fun _ _ => Failure.forall_report) ?_
  rintro (_ | status) s₁ hs₁
  · exact ends_bind_note fun _ _ => Ends.pure trivial
  · exact Ends.seq (hd.ends_deleteBelow hroot hs₁) (fun _ _ he report hr => (he report hr).1)
      fun _ _ _ => Ends.pure trivial

end Deleter.WorkingAt

/-- Something is at a target and is walked into, so that emptying it keeps it. -/
def Deleter.KeepsTarget (d : Deleter σ) (followSymlinks : Bool) (target : Path)
    (s : Session σ) : Prop :=
  ∃ status s₁ s₂, perform (d.environment.look? target.text) s = .ok (some status) s₁ ∧
    d.shouldFollow followSymlinks target s₁ = .ok true s₂

/-- Whatever an environment answers, a report is consistent, and a root that is kept is no failed
path of it. -/
theorem Deleter.reports_consistent {d : Deleter σ} {J : σ → Prop} {workingDirectory : String}
    (hd : d.WorkingAt J workingDirectory) (followSymlinks : Bool) (root : String) {s : Session σ}
    (hs : J s.state) :
    Ends (d.deleteTree followSymlinks (.ofText root)) s (fun _ _ => True)
        (fun e _ => ∀ report, e.report? = some report →
          report.Consistent ((Path.ofText root).absolute workingDirectory) d.maxReported) ∧
      Ends (d.ensureEmpty followSymlinks (.ofText root)) s (fun _ _ => True)
        (fun e _ => ∀ report, e.report? = some report →
          report.Consistent ((Path.ofText root).absolute workingDirectory) d.maxReported ∧
            (d.KeepsTarget followSymlinks (.ofText root) s →
              ((Path.ofText root).absolute workingDirectory).text ∉ report.failedPaths)) := by
  have hroot := Path.proper_ofText root
  refine ⟨hd.ends_deleteTree hroot hs, ?_⟩
  unfold ensureEmpty
  -- What is asked first has the same answers as in `KeepsTarget`.
  have hlook : Ends (perform (d.environment.look? (Path.ofText root).text)) s
      (fun found s₁ => perform (d.environment.look? (Path.ofText root).text) s = .ok found s₁ ∧
        J s₁.state) fun e _ => e.report? = none :=
    Ends.intro (fun _ _ h => ⟨h, ((hd.looking.keeps_look? _).perform s hs).ok h⟩)
      fun _ _ h => (Reportless.perform _ s).error h
  refine Ends.seq hlook (fun _ _ => Failure.forall_report) ?_
  rintro (_ | status) s₁ ⟨hlook, hs₁⟩
  · exact Ends.seq (Reportless.perform _ s₁) (fun _ _ => Failure.forall_report)
      fun _ _ _ => Ends.pure trivial
  have hfollow : Ends (d.shouldFollow followSymlinks (.ofText root)) s₁
      (fun b s₂ => d.shouldFollow followSymlinks (.ofText root) s₁ = .ok b s₂ ∧ J s₂.state)
      fun e _ => e.report? = none :=
    Ends.intro (fun _ _ h => ⟨h, (hd.looking.keeps_shouldFollow _ _ s₁ hs₁).ok h⟩)
      fun _ _ h => (d.reportless_shouldFollow _ _ s₁).error h
  refine Ends.seq hfollow (fun _ _ => Failure.forall_report) ?_
  rintro (_ | _) s₂ ⟨hfollow, hs₂⟩
  · refine Ends.seq (hd.ends_deleteTree hroot hs₂) (fun e _ he report hr => ⟨he report hr, ?_⟩)
      fun _ s₃ _ => Ends.seq (Reportless.perform _ s₃) (fun _ _ => Failure.forall_report)
        fun _ _ _ => Ends.pure trivial
    rintro ⟨status', s₁', s₂', hlook', hfollow'⟩
    rw [hlook] at hlook'
    cases hlook'
    rw [hfollow] at hfollow'
    cases hfollow'
  · exact Ends.seq (hd.ends_deleteBelow hroot hs₂)
      (fun _ _ he report hr => ⟨(he report hr).1, fun _ => (he report hr).2 rfl⟩)
      fun _ _ _ => Ends.pure trivial

theorem World.workingAt (w : World) {gc : Bool} {cap : Nat} {hcap : 0 < cap} :
    (World.deleter gc cap hcap).WorkingAt w.Follows w.workingDirectory := by
  have hcall : ∀ {α : Type} (c : Call) (t : String)
      (work : World → Except Errno (α × FileSystem)), Keeps w.Follows (call c t work) := by
    intro α c t work w₁ hw₁
    have hobeys : w₁.Obeys fun _ _ => True :=
      ⟨fun _ => trivial, fun _ _ => trivial, fun _ _ _ _ _ => trivial⟩
    refine (hobeys.ends_call work).mono ?_ ?_
    · rintro a w' ⟨-, w₂, fs, hw₂, -, hw'⟩
      exact (hw₁.trans hw₂.1).trans ⟨hw'.1.events, hw'.1.workingDirectory, hw'.1.changeTime⟩
    · rintro f w' (⟨w₂, hw₂, hw', -⟩ | ⟨⟨w₂, a, fs, hw₂, -, hw'⟩, -⟩)
      · exact (hw₁.trans hw₂.1).trans hw'.1
      · exact (hw₁.trans hw₂.1).trans ⟨hw'.1.events, hw'.1.workingDirectory, hw'.1.changeTime⟩
  exact {
    looking := {
      stat := fun t => hcall .stat t _
      lstat := fun t => hcall .lstat t _
      list := fun t => hcall .list t _
      workingDirectory := fun _ hw₁ =>
        ends_currentDirectory.mono (fun _ _ h => h.1 ▸ hw₁) fun _ _ h => h ▸ hw₁
      isSymlink := fun p => (hcall .lstat p.text _).shows _
      now := fun w₁ hw₁ => hw₁.trans (follows_now w₁) }
    rmdir := fun t => hcall .rmdir t _
    unlink := fun t => hcall .unlink t _
    pause := hcall .pause pauseText _
    collect := hcall .collect "" _
    answers := fun _ hw₁ => ends_currentDirectory.mono
      (fun _ _ h => h.2.trans hw₁.workingDirectory) fun _ _ _ => trivial }

/-- A file that cannot be removed, below a working directory. -/
def World.locked : World :=
  .make [.leaf (.ofText "/home/w/x") .file 0] "/home" none
    [{ call := .unlink, disruption := some (.errno .eacces) }] (.ofList [])

theorem Deleter.reports_consistent_locked :
    (World.deleter false 1 Nat.one_pos).WorkingAt World.locked.Follows "/home" ∧
      World.locked.Follows World.locked ∧
      (World.deleter false 1 Nat.one_pos).KeepsTarget false (.ofText "w") ⟨World.locked, [], []⟩ ∧
      ∃ e s report, (World.deleter false 1 Nat.one_pos).ensureEmpty false (.ofText "w")
          ⟨World.locked, [], []⟩ = .error e s ∧
        e.report? = some report ∧ report.failedPaths = ["/home/w/x"] ∧
        report.Consistent ((Path.ofText "w").absolute "/home") 1 ∧
        ((Path.ofText "w").absolute "/home").text ∉ report.failedPaths := by
  have hd : (World.deleter false 1 Nat.one_pos).WorkingAt World.locked.Follows "/home" :=
    World.locked.workingAt
  have hs : World.locked.Follows World.locked := .refl _
  have hkeeps : (World.deleter false 1 Nat.one_pos).KeepsTarget false (.ofText "w")
      ⟨World.locked, [], []⟩ := ⟨⟨.directory, 0⟩, _, _, rfl, rfl⟩
  have hrun : (match (World.deleter false 1 Nat.one_pos).ensureEmpty false (.ofText "w")
      ⟨World.locked, [], []⟩ with
    | .ok _ _ => none
    | .error e _ => e.report?.map Report.failedPaths) = some ["/home/w/x"] := by decide +kernel
  have hends := (reports_consistent hd false "w" (s := ⟨World.locked, [], []⟩) hs).2
  cases hm : (World.deleter false 1 Nat.one_pos).ensureEmpty false (.ofText "w")
      ⟨World.locked, [], []⟩ with
  | ok _ _ =>
    rw [hm] at hrun
    cases hrun
  | error e s =>
    rw [hm] at hrun
    obtain ⟨report, hr, hfailed⟩ := Option.map_eq_some_iff.1 hrun
    obtain ⟨hconsistent, hroot⟩ := hends.error hm report hr
    exact ⟨hd, hs, hkeeps, e, s, report, rfl, hr, hfailed, hconsistent, hroot hkeeps⟩

end TreeRemoval
