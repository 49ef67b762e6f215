import TreeRemoval.Proofs.Deletion.Surveyed
import TreeRemoval.Proofs.Deletion.Tree

/-! # Removing a tree under refusals

When events only refuse listings and removals, the deletion of a tree is told by the survey of the
tree. If no node stays, the tree is gone. Otherwise the report names the nodes that stay, in the
order of the survey and up to the cap, and the other nodes that were attempted are gone.
-/

namespace TreeRemoval

open World Deletion Visit

/-- What a report tells of the survey of a root's tree, the new paths aside. The root is no failed
path of its own if it was walked into. -/
structure Report.Tells (w : World) (p : Path) (node : Node) (cap : Nat) (visits : List Visit)
    (report : Report) : Prop where
  root : report.root = p.text
  rootIsSymlink : report.rootIsSymlink = node.isLink
  rootIsDirectory : report.rootIsDirectory = true ↔ LeadsToDirectory w.files p
  descended : report.descended = node.isDirectory
  failedPaths : report.failedPaths =
    failed p ((upTo cap visits).filter fun v => !node.isDirectory || v.names ≠ [])
  moreFailures : report.moreFailures = decide (cap ≤ failures visits)
  interrupted : report.interrupted = false
  maxReported : report.maxReported = cap

namespace World

variable {w : World} {root : Path} {place : Location} {node : Node}

theorem Site.formAt?_top (hs : w.Site root place node) :
    w.files.formAt? place = some node.form := by
  rw [FileSystem.formAt?, hs.there]
  rfl

theorem Site.readable_root (hs : w.Site root place node) : '\x00' ∉ root.text.toList := by
  rw [← root.descend_nil]
  exact hs.readable [] (by simp)

theorem Site.route (hs : w.Site root place node) : Route w false
    (fun depth p => ∃ names, p = root.descend names ∧ node.get? names ≠ none ∧ p.Fits depth)
    (· ≤ w.files) where
  proper := by
    rintro _ _ ⟨names, rfl, -⟩
    exact hs.proper.descend names
  isAbsolute := by
    rintro _ _ ⟨names, rfl, -⟩
    exact hs.isAbsolute
  child := by
    rintro fs depth _ loc n hle ⟨names, rfl, hn, hfits⟩ hopens hthere
    have hblind : ¬ w.MayBlind .lstat (root.descend names).text :=
      hs.refuses.not_mayBlind (by decide)
    have hlink : ¬ IsLinkAt fs (root.descend names) :=
      (hopens.allowed.resolve_left (by simp)).resolve_right hblind
    have hl := (FileSystem.locate_false_of_true hopens.leads).resolve_right hlink
    have hlarge := FileSystem.locate_mono hle hl (by rw [hopens.directory]; simp)
    have hnone : w.files.Loses w.changeTime (gone place []) w.files := .refl _ _
    have hself := hs.locate hnone (by simp) (hs.get? names ▸ hn)
    rw [hlarge] at hself
    cases hself
    refine ⟨names ++ [n], (Path.descend_concat root names n).symm, ?_, ?_⟩
    · rw [← hs.get?, ← List.append_assoc]
      exact FileSystem.get?_ne_none_of_le hle hthere
    · exact hfits.child hs.isAbsolute (hs.limits.text names hn) n
  removes := fun hle _ hrem => le_trans hrem.le hle

/-- A scan fails nowhere. -/
theorem Site.not_scanFails (hs : w.Site root place node) {fs : FileSystem} (hle : fs ≤ w.files)
    {top : String} {excluded : List String} {e : Failure} :
    ¬ Route.ScanFails w
      (fun depth p => ∃ names, p = root.descend names ∧ node.get? names ≠ none ∧ p.Fits depth)
      fs top excluded e := by
  rintro (⟨-, p, names, -, -, hfits⟩ | ⟨depth, p, ⟨names, rfl, hn, -⟩, hwhy⟩)
  · exact absurd hfits.1 (by omega)
  rcases hwhy with hescapes | ⟨err, -, ⟨hm, hrefused⟩, -, -⟩
  · cases hescapes with
    | nullByte ht => exact hs.readable names hn ht
    | stopped hstrikes _ hf =>
      obtain ⟨-, errno, rfl, -⟩ := hs.refuses.of_strikes hstrikes
      rcases hf with hf | hf <;> cases hf
    | paused hstrikes hc _ =>
      obtain ⟨hcall, -⟩ := hs.refuses.of_strikes hstrikes
      rcases hc with rfl | rfl <;> simp at hcall
  · rcases hrefused with ⟨moment, place, hstrikes⟩ | hl
    · exact absurd (hs.refuses.of_strikes hstrikes).1 (by decide)
    · have hnone : w.files.Loses w.changeTime (gone place []) w.files := .refl _ _
      have hself := hs.locate hnone (by simp) (hs.get? names ▸ hn)
      rw [FileSystem.isMissing_of_locate hle hself hl] at hm
      cases hm

variable {gc : Bool} {cap : Nat} {hcap : 0 < cap} {s : Session World} {startTime : Float}

theorem Site.ends_newPaths (hs : w.Site root place node) (hw : w.Follows s.state)
    (hle : s.state.files ≤ w.files) (excluded : List String) :
    Ends ((deleter gc cap hcap).newPaths false startTime excluded root) s (fun _ s' => s.Looks s')
      (fun _ _ => False) := by
  have hon : ∃ names, root = root.descend names ∧ node.get? names ≠ none ∧
      root.Fits maxDepth :=
    ⟨[], root.descend_nil.symm, by simp, Path.fits_maxDepth hs.isAbsolute⟩
  apply (hs.route.ends_newPaths hs.refuses.calm hw rfl hle hon excluded).mono (fun _ _ h => h.1)
  exact fun e s' h => hs.not_scanFails hle h.2

theorem isLinkAt_iff {fs : FileSystem} (hl : fs.locate false root = .ok place)
    (hf : fs.formAt? place = some node.form) : IsLinkAt fs root ↔ node.isLink = true := by
  constructor
  · rintro ⟨loc, target, hl', hlink⟩
    rw [hl] at hl'
    cases hl'
    rw [hf] at hlink
    obtain ⟨m, rfl⟩ := Node.form_eq_link_iff.1 (Option.some.inj hlink)
    rfl
  · intro hlink
    cases node with
    | link target m => exact ⟨place, target, hl, hf⟩
    | directory | file | other => cases hlink

end World

namespace Reached

variable {w : World} {root : Path} {place : Location} {node : Node} {gc : Bool} {cap : Nat}
  {hcap : 0 < cap} {run : Run} {s : Session World} {startTime : Float} {visits : List Visit}

theorem start (hw : w.Follows s.state) (hf : s.state.files = w.files) :
    Reached w root place cap [] (.start cap hcap) s :=
  ⟨hw, hf ▸ .refl _ _, rfl, rfl, rfl, rfl⟩

theorem filter_failed (hs : w.Site root place node) (vs : List Visit) :
    (Visit.failed root vs).filter (· ≠ root.normalize.text) =
      Visit.failed root (vs.filter fun v => v.names ≠ []) := by
  have hself : ∀ names, (root.descend names).normalize.text = root.normalize.text ↔ names = [] := by
    intro names
    constructor
    · intro h
      exact Path.normalize_descend_text_injective hs.proper hs.isAbsolute
        (h.trans (by rw [Path.descend_nil]))
    · rintro rfl
      rw [Path.descend_nil]
  unfold Visit.failed
  rw [List.filter_map, List.filter_filter, List.filter_filter]
  congr 1
  refine List.filter_congr fun v _ => ?_
  simp [hself, Bool.and_comm]

section Report

variable (hs : w.Site root place node) (hr : Reached w root place cap visits run s)
  (hroot : ⟨[], false⟩ ∉ visits)

include hs hr hroot

theorem formAt?_root : s.state.files.formAt? place = some node.form := by
  have hform := hs.formAt? hr.files Node.get?_nil hroot
  rwa [List.append_nil] at hform

theorem leadsToDirectory_iff (hgone : node.isDirectory = false → gone place visits = []) :
    LeadsToDirectory s.state.files root ↔ LeadsToDirectory w.files root := by
  cases hd : node.isDirectory with
  | true =>
    have hdir := Node.isDirectory_iff_form.1 hd
    have hafter := (opens_iff (hs.locate_root hr.files hroot) (hr.formAt?_root hs hroot)).2 hdir
    have hbefore := (opens_iff hs.leads hs.formAt?_top).2 hdir
    exact iff_of_true hafter.1 hbefore.1
  | false =>
    have hforms : ∀ loc, s.state.files.formAt? loc = w.files.formAt? loc := by
      intro loc
      rw [hr.files.formAt?, hgone hd]
      rfl
    unfold LeadsToDirectory
    simp only [hforms, FileSystem.locate_of_trail fun loc _ => hforms loc]

theorem ends_fillReport (descended : Bool) (failedPaths newPaths : List String) :
    Ends ((deleter gc cap hcap).fillReport root run descended failedPaths newPaths) s
      (fun report s' => s'.state = s.state ∧ ∃ rootIsDirectory,
        (rootIsDirectory = true ↔ LeadsToDirectory s.state.files root) ∧
        report = ⟨root.text, node.isLink, rootIsDirectory, descended, failedPaths,
          run.failed.isFull, newPaths, run.interrupted, cap⟩)
      (fun _ _ => False) := by
  have hrefuses := hr.world.onlyRefuses hs.refuses
  unfold Deleter.fillReport
  apply Ends.seq (ends_perform_keep (hrefuses.ends_isLink hs.proper hs.isAbsolute hs.readable_root))
  · rintro _ _ ⟨f, -, hf, -⟩
    exact hf
  rintro rootIsSymlink s₁ ⟨⟨hw₁, hlink⟩, -, -⟩
  rw [isLinkAt_iff (hs.locate_root hr.files hroot) (hr.formAt?_root hs hroot),
    ← Bool.eq_iff_iff] at hlink
  apply Ends.seq (ends_perform_keep
    ((hw₁ ▸ hrefuses).ends_isDirectory hs.proper hs.isAbsolute hs.readable_root))
  · rintro _ _ ⟨f, -, hf, -⟩
    exact hf
  rintro rootIsDirectory s₂ ⟨⟨hw₂, hdir⟩, -, -⟩
  rw [hw₁] at hdir
  exact Ends.pure ⟨hw₂.trans hw₁, rootIsDirectory, hdir, by rw [hlink]; rfl⟩

end Report

section Finish

/-! What comes after the walk of the root. -/

variable (hs : w.Site root place node) (hr : Reached w root place cap (upTo cap visits) run s)
  (hvisits : ∃ events, visits = (Survey.ofNode root [] node.sorted events).visits)

include hr

theorem isFull_eq : run.failed.isFull = decide (cap ≤ failures visits) := by
  have hsize : cap ≤ min cap (failures visits) ↔ cap ≤ failures visits := by omega
  rw [Bool.eq_iff_iff, BoundedSet.isFull_iff, hr.capacity, hr.failed, length_failed, failures_upTo,
    decide_eq_true_iff, hsize]

include hs hvisits

/-- When something stays, the report tells the survey. -/
theorem ends_tell (hfail : failures visits ≠ 0) {failedPaths : List String}
    (hpaths : failedPaths =
      Visit.failed root ((upTo cap visits).filter fun v => !node.isDirectory || v.names ≠ []))
    (newPaths : List String) :
    Ends ((deleter gc cap hcap).fillReport root run node.isDirectory failedPaths newPaths) s
      (fun report s' => s'.state = s.state ∧ report.Tells w root node cap visits)
      (fun _ _ => False) := by
  obtain ⟨events, rfl⟩ := hvisits
  have hroot := Survey.top_notMem_upTo hfail cap
  have hgone : node.isDirectory = false →
      gone place (upTo cap (Survey.ofNode root [] node.sorted events).visits) = [] := by
    intro hleaf
    unfold gone
    rw [List.map_eq_nil_iff, List.filter_eq_nil_iff]
    intro v hv hstays
    have hmem := (isPrefix_upTo cap _).subset hv
    rw [Node.sorted_of_not_directory hleaf, Survey.ofNode_leaf hleaf] at hmem
    have hnames : v.names = [] := by rw [List.mem_singleton.1 hmem]
    obtain ⟨names, stays⟩ := v
    obtain rfl : names = [] := hnames
    obtain rfl : stays = false := by simpa using hstays
    exact hroot hv
  refine (hr.ends_fillReport hs hroot _ failedPaths newPaths).mono ?_ fun _ _ hf => hf
  rintro _ s' ⟨hw, rootIsDirectory, hdir, rfl⟩
  rw [hr.leadsToDirectory_iff hs hroot hgone] at hdir
  exact ⟨hw, rfl, rfl, hdir, rfl, hpaths, hr.isFull_eq, hr.interrupted, rfl⟩

theorem ends_buildReport (hfail : failures visits ≠ 0) :
    Ends ((deleter gc cap hcap).buildReport false root startTime run) s
      (fun report s' => s.state.Follows s'.state ∧ s'.state.files = s.state.files ∧
        report.Tells w root node cap visits)
      (fun _ _ => False) := by
  have hroot : ⟨[], false⟩ ∉ upTo cap visits := by
    obtain ⟨events, rfl⟩ := hvisits
    exact Survey.top_notMem_upTo hfail cap
  rw [Deleter.buildReport_eq]
  apply Ends.seq ((hr.world.onlyRefuses hs.refuses).ends_shouldFollow hs.proper hs.isAbsolute
    hs.readable_root) (fun _ _ hf => hf.elim)
  rintro descended s₁ ⟨hw₁, hopens⟩
  rw [opens_iff (hs.locate_root hr.files hroot) (hr.formAt?_root hs hroot),
    ← Node.isDirectory_iff_form, ← Bool.eq_iff_iff] at hopens
  have htold : ∀ {s₂ : Session World} {failedPaths newPaths : List String},
      s.state.Follows s₂.state → s₂.state.files = s.state.files → failedPaths =
        Visit.failed root ((upTo cap visits).filter fun v => !node.isDirectory || v.names ≠ []) →
      Ends ((deleter gc cap hcap).fillReport root run descended failedPaths newPaths) s₂
        (fun report s' => s.state.Follows s'.state ∧ s'.state.files = s.state.files ∧
          report.Tells w root node cap visits) (fun _ _ => False) := by
    intro s₂ failedPaths newPaths hw₂ hf₂ hpaths
    rw [hopens]
    refine (ends_tell hs (hr.of_files hw₂ hf₂) hvisits hfail hpaths newPaths).mono ?_
      fun _ _ hf => hf
    rintro report s' ⟨hw', htells⟩
    rw [hw']
    exact ⟨hw₂, hf₂, htells⟩
  cases descended with
  | false =>
    apply htold (hw₁ ▸ .refl _) (by rw [hw₁])
    rw [hr.failed, ← hopens]
    exact congrArg (Visit.failed root) (List.filter_eq_self.2 fun _ _ => rfl).symm
  | true =>
    apply Ends.bind (Q := fun top s' => top = root.normalize.text ∧ s'.state = s.state)
      (Deleter.ends_absolute hs.isAbsolute ⟨rfl, hw₁⟩)
    rintro _ s₂ ⟨rfl, hw₂⟩
    rw [hr.failed, filter_failed hs]
    have hle : s₂.state.files ≤ w.files := by
      rw [hw₂]
      exact hr.files.le
    apply Ends.seq (hs.ends_newPaths (by rw [hw₂]; exact hr.world) hle _)
      (fun _ _ hf => hf.elim)
    intro newPaths s₃ h₃
    apply htold (hw₂ ▸ h₃.world) (by rw [h₃.same, hw₂])
    rw [← hopens]
    simp

/-- The walk is concluded by what the survey tells. -/
theorem ends_finish (hcap : 0 < cap) :
    Ends ((deleter gc cap hcap).finish false root startTime run) s
      (fun _ s' => failures visits = 0 ∧ s'.state.files = s.state.files)
      (fun e s' => failures visits ≠ 0 ∧ s'.state.files = s.state.files ∧
        ∃ report, e = .incomplete root.normalize.text report ∧
          report.Tells w root node cap visits) := by
  have hempty : run.failed.isEmpty = true ↔ failures visits = 0 := by
    rw [hr.isEmpty_iff, failures_upTo]
    omega
  unfold Deleter.finish
  apply Ends.bind (Q := fun _ s' => s.state.Follows s'.state ∧ s'.state.files = s.state.files)
    (ends_reading ⟨s.state.follows_now, rfl⟩)
  rintro endTime s₁ ⟨hw₁, hf₁⟩
  by_cases hnone : run.failed.isEmpty = true
  · rw [if_pos hnone]
    exact ends_note ⟨hempty.1 hnone, hf₁⟩
  rw [if_neg hnone]
  have hfail : failures visits ≠ 0 := fun hz => hnone (hempty.2 hz)
  apply Ends.seq (ends_buildReport hs (hr.of_files hw₁ hf₁) hvisits hfail)
    (fun _ _ hf => hf.elim)
  rintro report s₂ ⟨-, hf₂, htells⟩
  apply Ends.bind (Q := fun _ s' => s'.state.files = s.state.files)
    (ends_note (hf₂.trans hf₁))
  intro _ s₃ hf₃
  apply Ends.bind (Q := fun top s' => top = root.normalize.text ∧ s'.state.files = s.state.files)
    (Deleter.ends_absolute hs.isAbsolute ⟨rfl, hf₃⟩)
  rintro _ s₄ ⟨rfl, hf₄⟩
  rw [hr.interrupted]
  exact Ends.throw ⟨hfail, hf₄, report, rfl, htells⟩

end Finish

/-- The walk of the root does what the survey tells. -/
theorem ends_walk (hs : w.Site root place node) (hw : w.Follows s.state)
    (hf : s.state.files = w.files) :
    Ends ((deleter gc cap hcap).walk false root true) s
      (fun run s' => Reached w root place cap
        (upTo cap (Survey.ofNode root [] node.sorted s.state.events).visits) run s')
      (fun _ _ => False) := by
  have hvisit : Ends
      ((deleter gc cap hcap).visit false root true maxDepth (root.descend []) (.start cap hcap)) s
      (Arrives w root place cap (upTo cap (Survey.ofNode root [] node.sorted s.state.events).visits)
        (Survey.ofNode root [] node.sorted s.state.events).events) fun _ _ => False := by
    refine ends_visit hs (Or.inl rfl) (start hw hf) hcap (fun v hv => by cases hv) Node.get?_nil ?_
    rw [Path.descend_nil]
    exact Path.fits_maxDepth hs.isAbsolute
  rw [Path.descend_nil] at hvisit
  unfold Deleter.walk
  apply Ends.bind hvisit
  rintro r s' ⟨hr, -, -⟩
  exact Ends.pure hr

end Reached

namespace World

variable {w : World} {root : Path} {place : Location} {node : Node} {gc : Bool} {cap : Nat}
  {hcap : 0 < cap} {s : Session World}

def survey (w : World) (root : Path) (node : Node) : Survey := .ofNode root [] node.sorted w.events

structure ReportsSurvey (w : World) (root : Path) (place : Location) (node : Node) (cap : Nat)
    (e : Failure) (s : Session World) : Prop where
  stays : failures (w.survey root node).visits ≠ 0
  report : ∃ report, e = .incomplete root.normalize.text report ∧
    report.Tells w root node cap (w.survey root node).visits
  files : w.files.Loses w.changeTime (gone place (upTo cap (w.survey root node).visits)) s.state.files

theorem Site.ends_deleteBelow (hs : w.Site root place node) (hw : s.state = w) :
    Ends ((deleter gc cap hcap).deleteBelow false root true) s
      (fun _ s' => failures (w.survey root node).visits = 0 ∧
        w.files.Loses w.changeTime (gone place (upTo cap (w.survey root node).visits))
          s'.state.files)
      (w.ReportsSurvey root place node cap) := by
  unfold Deleter.deleteBelow
  apply Ends.bind (Q := fun _ s' => s'.state = w.now.2) (ends_reading (by rw [← hw]; rfl))
  intro startTime s₁ hw₁
  apply Ends.bind (Q := fun _ s' => s'.state = w.now.2) (ends_note hw₁)
  intro _ s₂ hw₂
  have hfollows : w.Follows s₂.state := by
    rw [hw₂]
    exact w.follows_now
  apply Ends.seq (Reached.ends_walk hs hfollows (by rw [hw₂]; rfl)) (fun _ _ hf => hf.elim)
  intro run s₃ hr
  rw [show s₂.state.events = w.events by rw [hw₂]; rfl] at hr
  change Reached w root place cap (upTo cap (w.survey root node).visits) run s₃ at hr
  apply Ends.seq (hr.ends_finish hs ⟨_, rfl⟩ hcap)
  · rintro e s₄ ⟨hfail, hf₄, hreport⟩
    exact ⟨hfail, hreport, hf₄ ▸ hr.files⟩
  · rintro - s₄ ⟨hnone, hf₄⟩
    refine Ends.pure ⟨hnone, ?_⟩
    rw [hf₄]
    exact hr.files

theorem Site.ends_deleteTree (hs : w.Site root place node) (gc : Bool) (cap : Nat) (hcap : 0 < cap)
    (log : List Log.Entry) (acts : List Act) :
    Ends ((deleter gc cap hcap).deleteTree false root) ⟨w, log, acts⟩
      (fun b s' => failures (w.survey root node).visits = 0 ∧ b = true ∧
        w.files.Loses w.changeTime (gone place (upTo cap (w.survey root node).visits))
          s'.state.files)
      (w.ReportsSurvey root place node cap) := by
  unfold Deleter.deleteTree
  apply Ends.seq (ends_perform_keep (hs.refuses.ends_look? hs.proper hs.isAbsolute
    hs.readable_root hs.leads hs.formAt?_top))
  · rintro _ _ ⟨f, -, hf, -⟩
    exact hf.elim
  rintro _ s₁ ⟨⟨hw₁, status, rfl, -⟩, -, -⟩
  apply Ends.bind (hs.ends_deleteBelow hw₁)
  rintro run s₂ ⟨hnone, hloses⟩
  exact Ends.pure ⟨hnone, rfl, hloses⟩

theorem losesTree_of_gone {fs : FileSystem} {room : Nat} (hroom : 0 < room)
    (hnone : failures (w.survey root node).visits = 0)
    (h : w.files.Loses w.changeTime (gone place (upTo room (w.survey root node).visits)) fs) :
    w.files.LosesTree w.changeTime place fs := by
  rw [upTo_of_lt (by omega)] at h
  apply h.tree
  · obtain ⟨below, hvisits, -⟩ := Survey.visits_ofNode root [] node.sorted w.events
    have htop : ⟨[], (w.survey root node).stays⟩ ∈ (w.survey root node).visits := by
      unfold survey
      rw [hvisits]
      simp
    have hgone : (w.survey root node).stays = false := by
      have hstays := List.countP_eq_zero.1 hnone _ htop
      simpa using hstays
    rw [hgone] at htop
    simpa using mem_gone_iff.2 htop
  · intro loc hloc
    obtain ⟨v, -, rfl⟩ := List.mem_map.1 hloc
    exact List.prefix_append _ _

end World

/-- A deletion whose events only refuse listings and removals is determined by the survey of the
tree at its root. If no node stays, it succeeds and the tree is lost. Otherwise it fails with a
report that tells the survey, and what is lost are the nodes that do not stay, up to the cap. -/
theorem deleteTree_surveyed {w : World} (hr : w.OnlyRefuses) {root : String}
    (ha : (Path.ofText root).isAbsolute = true) (hparts : (Path.ofText root).parts ≠ [])
    (hlast : (Path.ofText root).parts.getLast? ≠ some "..") {place : Location} {node : Node}
    (hleads : w.files.locate false (.ofText root) = .ok place)
    (hthere : w.files.get? place = some node)
    (hapart : ∀ loc ∈ w.files.trail false (.ofText root), place <+: loc → loc = place)
    (hlimits : (Path.ofText root).WithinLimits node)
    (hreadable : ∀ names, node.get? names ≠ none →
      '\x00' ∉ ((Path.ofText root).descend names).text.toList)
    (collectsGarbage : Bool) (cap : Nat) (hcap : 0 < cap) (log : List Log.Entry) (acts : List Act) :
    ((∀ v ∈ (w.survey (.ofText root) node).visits, v.stays = false) →
      ∃ s, (World.deleter collectsGarbage cap hcap).deleteTree false (.ofText root) ⟨w, log, acts⟩ =
          .ok true s ∧
        w.files.LosesTree w.changeTime place s.state.files) ∧
    ((∃ v ∈ (w.survey (.ofText root) node).visits, v.stays = true) →
      ∃ report s,
        (World.deleter collectsGarbage cap hcap).deleteTree false (.ofText root) ⟨w, log, acts⟩ =
          .error (.incomplete (Path.ofText root).normalize.text report) s ∧
        report.Tells w (.ofText root) node cap (w.survey (.ofText root) node).visits ∧
        w.files.Loses w.changeTime (gone place (upTo cap (w.survey (.ofText root) node).visits))
          s.state.files) := by
  have hproper := Path.proper_ofText root
  have hs : w.Site (.ofText root) place node :=
    ⟨hr, hproper, ha, hproper.exists_eq_child hparts hlast, hleads, hthere, hapart, hlimits,
      hreadable⟩
  have hends := hs.ends_deleteTree collectsGarbage cap hcap log acts
  have hfailures : failures (w.survey (.ofText root) node).visits = 0 ↔
      ∀ v ∈ (w.survey (.ofText root) node).visits, v.stays = false := by
    unfold failures
    rw [List.countP_eq_zero]
    simp
  constructor
  · intro hnone
    cases hd : (World.deleter collectsGarbage cap hcap).deleteTree false (.ofText root)
      ⟨w, log, acts⟩ with
    | ok b s =>
      obtain ⟨hzero, rfl, hloses⟩ := hends.ok hd
      exact ⟨s, rfl, losesTree_of_gone hcap hzero hloses⟩
    | error e s => exact absurd (hfailures.2 hnone) (hends.error hd).stays
  · rintro ⟨v, hv, hstays⟩
    cases hd : (World.deleter collectsGarbage cap hcap).deleteTree false (.ofText root)
      ⟨w, log, acts⟩ with
    | ok b s =>
      rw [hfailures.1 (hends.ok hd).1 v hv] at hstays
      cases hstays
    | error e s =>
      obtain ⟨-, ⟨report, rfl, htells⟩, hloses⟩ := hends.error hd
      exact ⟨report, s, rfl, htells, hloses⟩

def World.held : World :=
  .make [.leaf (.ofText "/w/a") .file 0] "/" none
    [{ call := .unlink, path := some "/w/a", disruption := some (.errno .eacces) }] (.ofList [])

def World.heldTree : Node :=
  .directory 0 [(⟨"a", by decide, by decide, by decide, by decide⟩, .file 0)]

theorem deleteTree_surveyed_held :
    World.held.OnlyRefuses ∧ (Path.ofText "/w").isAbsolute = true ∧
      (Path.ofText "/w").parts ≠ [] ∧ (Path.ofText "/w").parts.getLast? ≠ some ".." ∧
      World.held.files.locate false (.ofText "/w") = .ok (.ofText "/w") ∧
      World.held.files.get? (.ofText "/w") = some World.heldTree ∧
      (∀ loc ∈ World.held.files.trail false (.ofText "/w"),
        Location.ofText "/w" <+: loc → loc = .ofText "/w") ∧
      (Path.ofText "/w").WithinLimits World.heldTree ∧
      (∀ names, World.heldTree.get? names ≠ none →
        '\x00' ∉ ((Path.ofText "/w").descend names).text.toList) ∧
      (∃ v ∈ (World.held.survey (.ofText "/w") World.heldTree).visits, v.stays = true) ∧
      ∃ report s, (World.deleter false 1 Nat.one_pos).deleteTree false (.ofText "/w")
          ⟨World.held, [], []⟩ = .error (.incomplete (Path.ofText "/w").normalize.text report) s ∧
        report.Tells World.held (.ofText "/w") World.heldTree 1
          (World.held.survey (.ofText "/w") World.heldTree).visits ∧
        World.held.files.Loses World.held.changeTime (gone (.ofText "/w")
          (upTo 1 (World.held.survey (.ofText "/w") World.heldTree).visits)) s.state.files := by
  have hr : World.held.OnlyRefuses := by
    intro e he
    change e ∈ [_] at he
    rw [List.mem_singleton.1 he]
    exact ⟨Or.inr (Or.inr rfl), rfl, rfl, .eacces, rfl, rfl⟩
  have ha : (Path.ofText "/w").isAbsolute = true := by decide
  have hparts : (Path.ofText "/w").parts ≠ [] := by decide
  have hlast : (Path.ofText "/w").parts.getLast? ≠ some ".." := by decide
  have hleads : World.held.files.locate false (.ofText "/w") = .ok (.ofText "/w") := by rfl
  have hthere : World.held.files.get? (.ofText "/w") = some World.heldTree := by rfl
  have hapart : ∀ loc ∈ World.held.files.trail false (.ofText "/w"),
      Location.ofText "/w" <+: loc → loc = .ofText "/w" := by decide
  have hlimits : (Path.ofText "/w").WithinLimits World.heldTree :=
    Path.withinLimits_of_single (by decide) (by decide) (by decide)
  have hreadable : ∀ names, World.heldTree.get? names ≠ none →
      '\x00' ∉ ((Path.ofText "/w").descend names).text.toList := by
    intro names hn
    rcases Node.names_of_single hn with rfl | rfl <;> decide
  have hstays : ∃ v ∈ (World.held.survey (.ofText "/w") World.heldTree).visits,
      v.stays = true := by decide +kernel
  have hends := deleteTree_surveyed hr ha hparts hlast hleads hthere hapart hlimits hreadable false 1
    Nat.one_pos [] []
  exact ⟨hr, ha, hparts, hlast, hleads, hthere, hapart, hlimits, hreadable, hstays,
    hends.2 hstays⟩

/-- A file with a name that no call takes. -/
def World.garbled : World :=
  .make [.leaf (.ofText "/w/a\x00b") .file 0] "/" none [] (.ofList [])

def World.garbledTree : Node :=
  .directory 0 [(⟨"a\x00b", by decide, by decide, by decide, by decide⟩, .file 0)]

/-- Readable names are needed: otherwise nothing is said to stay, and still the deletion fails. -/
theorem deleteTree_garbled :
    World.garbled.OnlyRefuses ∧ (Path.ofText "/w").isAbsolute = true ∧
      (Path.ofText "/w").parts ≠ [] ∧ (Path.ofText "/w").parts.getLast? ≠ some ".." ∧
      World.garbled.files.locate false (.ofText "/w") = .ok (.ofText "/w") ∧
      World.garbled.files.get? (.ofText "/w") = some World.garbledTree ∧
      (∀ loc ∈ World.garbled.files.trail false (.ofText "/w"),
        Location.ofText "/w" <+: loc → loc = .ofText "/w") ∧
      (Path.ofText "/w").WithinLimits World.garbledTree ∧
      (∀ v ∈ (World.garbled.survey (.ofText "/w") World.garbledTree).visits, v.stays = false) ∧
      ¬ ∃ s, (World.deleter false 1 Nat.one_pos).deleteTree false (.ofText "/w")
        ⟨World.garbled, [], []⟩ = .ok true s := by
  have hfails : ((World.deleter false 1 Nat.one_pos).deleteTree false (.ofText "/w")).run'
      ⟨World.garbled, [], []⟩ = none := by decide +kernel
  have hr : World.garbled.OnlyRefuses := by
    intro e he
    cases he
  have hlimits : (Path.ofText "/w").WithinLimits World.garbledTree :=
    Path.withinLimits_of_single (by decide) (by decide) (by decide)
  refine ⟨hr, by decide, by decide, by decide, rfl, rfl, by decide, hlimits, by decide +kernel, ?_⟩
  rintro ⟨s, hs⟩
  unfold EStateM.run' EStateM.run at hfails
  rw [hs] at hfails
  cases hfails

end TreeRemoval
