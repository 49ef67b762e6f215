import TreeRemoval.Proofs.Deletion.Scan

/-! # Ends of deletions

A walk ends with one log entry on its outcome. The report that a failed walk is turned into leaves
the files alone.
-/

namespace TreeRemoval

open World Deletion

def Log.outcomes (log : List Log.Entry) : List String :=
  (log.filter (·.IsOutcome)).map (·.message)

theorem Log.outcomes_append (log log' : List Log.Entry) :
    outcomes (log ++ log') = outcomes log ++ outcomes log' := by
  simp [outcomes]

theorem Session.Advances.outcomes {s s' : Session World} (h : s.Advances s') :
    Log.outcomes s'.log = Log.outcomes s.log := by
  obtain ⟨new, hl, hn⟩ := h.log
  have hnone : Log.outcomes new = [] := by
    rw [Log.outcomes, List.filter_eq_nil_iff.2 fun e he => by simpa using hn e he]
    rfl
  rw [hl, Log.outcomes_append, hnone, List.append_nil]

theorem World.follows_now (w : World) : w.Follows w.now.2 := ⟨rfl, rfl, rfl⟩

/-- A session goes on, files may vanish, and some outcomes are logged. -/
structure Session.Logs (s : Session World) (messages : List String) (s' : Session World) : Prop where
  world : s.state.Follows s'.state
  files : s'.state.files ≤ s.state.files
  outcomes : Log.outcomes s'.log = Log.outcomes s.log ++ messages

namespace Session

variable {s s' s'' : Session World} {messages : List String}

theorem Advances.logs (h : s.Advances s') : s.Logs [] s' :=
  ⟨h.world, h.files, by rw [h.outcomes, List.append_nil]⟩

theorem Logs.after (h' : s'.Logs messages s'') (h : s.Advances s') : s.Logs messages s'' :=
  ⟨h.world.trans h'.world, le_trans h'.files h.files, by rw [h'.outcomes, h.outcomes]⟩

theorem Looks.logs {level : Log.Level} {message : String} {fields : List (String × Log.Value)}
    (h : s.Looks s') (hm : message = "Tree deleted" ∨ message = "Tree deletion failed") :
    s.Logs [message] { s' with log := s'.log ++ [⟨level, message, fields⟩] } := by
  refine ⟨h.world, h.files, ?_⟩
  have hone : Log.outcomes [⟨level, message, fields⟩] = [message] := by
    simp [Log.outcomes, Log.Entry.IsOutcome, hm]
  rw [Log.outcomes_append, h.outcomes, hone]

theorem Looks.reading (s : Session World) :
    s.Looks { s with state := s.state.now.2 } :=
  .of_world s.state.follows_now rfl rfl

end Session

def Failure.report? : Failure → Option Report
  | incomplete _ report | cancelled _ report => some report
  | fault _ | undeletable .. | tooDeep => none

theorem Failure.forall_report {e : Failure} {P : Report → Prop} (h : e.report? = none) :
    ∀ report, e.report? = some report → P report := by
  intro report hr
  rw [h] at hr
  cases hr

/-- The failure of a walk that left something, with a report on it. -/
def Failure.ofReport (interrupted : Bool) (place : String) (report : Report) : Failure :=
  if interrupted then .cancelled place report else .incomplete place report

def Run.start (cap : Nat) (h : 0 < cap) : Run := { failed := .empty cap h }

namespace Deleter

def fillReport {σ : Type} (d : Deleter σ) (root : Path) (run : Run) (descended : Bool)
    (failedPaths newPaths : List String) : Deletion σ Report := do
  let rootIsSymlink ← perform (d.isSymlink root)
  let rootIsDirectory ← perform (d.environment.isDirectory root.text)
  return {
    root := root.text
    rootIsSymlink
    rootIsDirectory
    descended
    failedPaths
    moreFailures := run.failed.isFull
    newPaths
    interrupted := run.interrupted
    maxReported := d.maxReported }

theorem buildReport_eq {σ : Type} (d : Deleter σ) (followSymlinks : Bool) (root : Path)
    (startTime : Float) (run : Run) :
    d.buildReport followSymlinks root startTime run = (do
      if ← d.shouldFollow followSymlinks root then
        let top ← d.absolute root
        let failedPaths := run.failed.items.filter (· ≠ top)
        let newPaths ← d.newPaths followSymlinks startTime failedPaths root
        d.fillReport root run true failedPaths newPaths
      else d.fillReport root run false run.failed.items []) := by
  unfold buildReport
  refine bind_congr fun descended => ?_
  cases descended <;> rfl

/-- Filling in a report fails only by a fault that no question takes for an answer. -/
theorem ends_fillReport {gc : Bool} {cap : Nat} {hcap : 0 < cap} {s : Session World} {root : Path}
    (hc : s.state.Calm) (hp : root.Proper) (ha : root.isAbsolute = true) (run : Run)
    (descended : Bool) (failedPaths newPaths : List String) :
    Ends ((deleter gc cap hcap).fillReport root run descended failedPaths newPaths) s
      (fun report s' => s.Looks s' ∧ report.failedPaths = failedPaths ∧
        report.newPaths = newPaths ∧ report.moreFailures = run.failed.isFull)
      (fun e s' => s.Looks s' ∧ ∃ f, e = .fault f ∧ f.isNegative = false ∧
        ∃ c, ¬ c.IsWait ∧ ∃ moment, s.state.Strikes moment c root.text f) := by
  unfold fillReport
  apply Ends.seq (ends_perform_keep (ends_isLink hc hp ha))
  · rintro _ s₁ ⟨f, rfl, ⟨hf, hfiles, hn, hs⟩, hl, -⟩
    exact ⟨.of_world hf hfiles hl, f, rfl, hn, .lstat, by decide, hs⟩
  rintro _ s₁ ⟨⟨hf, hfiles, -, -⟩, hl, -⟩
  have h₁ : s.Looks s₁ := .of_world hf hfiles hl
  apply Ends.seq (ends_perform_keep (ends_isDirectory (h₁.calm hc) hp ha))
  · rintro _ s₂ ⟨f, rfl, ⟨hf, hfiles, hn, moment, hs⟩, hl, -⟩
    exact ⟨h₁.trans (.of_world hf hfiles hl), f, rfl, hn, .stat, by decide,
      moment, h₁.world.strikes hs⟩
  rintro _ s₂ ⟨⟨hf, hfiles, -, -⟩, hl, -⟩
  exact Ends.pure ⟨h₁.trans (.of_world hf hfiles hl), rfl, rfl, rfl⟩

end Deleter

namespace Route

variable {w : World} {followSymlinks : Bool} {On : Nat → Path → Prop} {Keeps : FileSystem → Prop}
  {gc : Bool} {cap : Nat} {hcap : 0 < cap} {root : Path} {s s' : Session World} {run : Run}
  {startTime : Float}

variable (h : Route w followSymlinks On Keeps)

include h in
/-- The walk of a root settles the root. -/
theorem ends_walk (hc : w.Calm) (hw : w.Follows s.state) (hk : Keeps s.state.files)
    (ho : On maxDepth root) :
    Ends ((deleter gc cap hcap).walk followSymlinks root true) s
      (fun run s' => Walked (.start cap hcap) s run s' ∧ Keeps s'.state.files ∧
        Settled w run s'.state.files root)
      (Broken w On Keeps s) := by
  unfold Deleter.walk
  apply Ends.bind (h.ends_visit hc hw hk ho (.start cap hcap))
  rintro r s' ⟨hd, hs⟩
  exact Ends.pure ⟨hd.toWalked, hd.keeps, hs.resolve_left (by simp)⟩

include h in
theorem ends_newPaths (hc : w.Calm) (hw : w.Follows s.state) {fs : FileSystem}
    (hfs : s.state.files = fs) (hk : Keeps fs) (ho : On maxDepth root) (excluded : List String) :
    Ends ((deleter gc cap hcap).newPaths followSymlinks startTime excluded root) s
      (fun paths s' => s.Looks s' ∧
        ∀ t ∈ paths, Found On fs startTime root.normalize.text excluded t)
      (fun e s' => s.Looks s' ∧ ScanFails w On fs root.normalize.text excluded e) := by
  unfold Deleter.newPaths
  apply Ends.bind (Q := fun top s' => top = root.normalize.text ∧ s.Looks s')
    (Deleter.ends_absolute (h.isAbsolute ho) ⟨rfl, .refl s⟩)
  rintro _ s₁ ⟨rfl, h₁⟩
  refine Ends.seq (h.ends_scanBelow hc (hw.trans h₁.world) (h₁.same.trans hfs) hk ho nofun)
    (fun _ _ h₂ => ⟨h₁.trans h₂.1, h₂.2⟩) ?_
  rintro found s₂ ⟨h₂, hfound⟩
  exact Ends.pure ⟨h₁.trans h₂, hfound⟩

/-- What a report tells of a walk. Its new paths are those of a scan from a root that is walked
into, without the paths that failed. -/
structure Tells (w : World) (followSymlinks : Bool) (On : Nat → Path → Prop) (fs : FileSystem)
    (root : Path) (startTime : Float) (run : Run) (report : Report) : Prop where
  moreFailures : report.moreFailures = run.failed.isFull
  scanned : report.newPaths ≠ [] → (∃ place, Opens w followSymlinks fs root place) ∧
    report.failedPaths = run.failed.items.filter (· ≠ root.normalize.text)
  found : ∀ t ∈ report.newPaths,
    Found On fs startTime root.normalize.text report.failedPaths t

include h in
/-- The paths that failed are left out of the scan, the root apart. -/
theorem ends_buildReport (hc : w.Calm) (hw : w.Follows s.state) {fs : FileSystem}
    (hfs : s.state.files = fs) (hk : Keeps fs) (ho : On maxDepth root) (run : Run) :
    Ends ((deleter gc cap hcap).buildReport followSymlinks root startTime run) s
      (fun report s' => s.Looks s' ∧ Tells w followSymlinks On fs root startTime run report)
      (fun e s' => s.Looks s' ∧ ScanFails w On fs root.normalize.text
        (run.failed.items.filter (· ≠ root.normalize.text)) e) := by
  have hp := h.proper ho
  have ha := h.isAbsolute ho
  have hfails : ∀ {s' e}, s.Looks s' → s'.state.Escapes root.text e →
      ScanFails w On fs root.normalize.text
        (run.failed.items.filter (· ≠ root.normalize.text)) e := fun h' he =>
    Or.inr ⟨maxDepth, root, ho, Or.inl ((hw.trans h'.world).escapes he)⟩
  have hfill : ∀ {s₁} (descended : Bool) (failedPaths newPaths : List String), s.Looks s₁ →
      Ends ((deleter gc cap hcap).fillReport root run descended failedPaths newPaths) s₁
        (fun report s' => s.Looks s' ∧ report.failedPaths = failedPaths ∧
          report.newPaths = newPaths ∧ report.moreFailures = run.failed.isFull)
        (fun e s' => s.Looks s' ∧ ScanFails w On fs root.normalize.text
          (run.failed.items.filter (· ≠ root.normalize.text)) e) := by
    intro s₁ descended failedPaths newPaths h₁
    apply (Deleter.ends_fillReport (h₁.calm (hw.calm hc)) hp ha run descended failedPaths
      newPaths).mono (fun _ _ h₂ => ⟨h₁.trans h₂.1, h₂.2⟩)
    rintro _ s₂ ⟨h₂, f, rfl, hn, c, hc, hs⟩
    exact ⟨h₁.trans h₂, hfails h₁ (Deleter.escapes_of_not_negative hc hn hs)⟩
  rw [Deleter.buildReport_eq]
  apply Ends.seq (h.ends_opening hc hw (hfs ▸ hk) ho)
  · rintro e s₁ ⟨hb, hfiles⟩
    refine ⟨⟨hb.toAdvances, hfiles⟩, hb.cause.imp_right ?_⟩
    rintro ⟨depth, p, hon, he⟩
    exact ⟨depth, p, hon, Or.inl he⟩
  rintro descended s₁ ⟨hadv, hfiles, -, hopens⟩
  have h₁ : s.Looks s₁ := ⟨hadv, hfiles⟩
  cases descended with
  | false =>
    refine (hfill _ _ _ h₁).mono ?_ fun _ _ he => he
    rintro report s₂ ⟨h₂, -, hnone, hmore⟩
    exact ⟨h₂, hmore, fun hne => absurd hnone hne, by simp [hnone]⟩
  | true =>
    apply Ends.bind (Q := fun top s' => top = root.normalize.text ∧ s.Looks s')
      (Deleter.ends_absolute ha ⟨rfl, h₁⟩)
    rintro _ s₂ ⟨rfl, h₂⟩
    apply Ends.seq (h.ends_newPaths hc (hw.trans h₂.world) (h₂.same.trans hfs) hk ho _)
      fun e s₃ h₃ => ⟨h₂.trans h₃.1, h₃.2⟩
    rintro newPaths s₃ ⟨h₃, hfound⟩
    refine (hfill true _ newPaths (h₂.trans h₃)).mono ?_ fun _ _ he => he
    rintro report s₄ ⟨h₄, hfailed, rfl, hmore⟩
    rw [hfs] at hopens
    rw [← hfailed] at hfound
    exact ⟨h₄, hmore, fun _ => ⟨hopens rfl, hfailed⟩, hfound⟩

include h in
/-- A walk without failures is concluded by one entry, a walk with failures by another one and by a
report. Otherwise the scan failed. -/
theorem ends_finish (hc : w.Calm) (hw : w.Follows s.state) (hk : Keeps s.state.files)
    (ho : On maxDepth root) (run : Run) :
    Ends ((deleter gc cap hcap).finish followSymlinks root startTime run) s
      (fun _ s' => s.Logs ["Tree deleted"] s' ∧ s'.state.files = s.state.files ∧
        run.failed.items = [])
      (fun e s' => s'.state.files = s.state.files ∧
        ((s.Logs ["Tree deletion failed"] s' ∧
            ∃ place report, e = .ofReport run.interrupted place report ∧
              Tells w followSymlinks On s.state.files root startTime run report) ∨
          s.Looks s' ∧ ScanFails w On s.state.files root.normalize.text
            (run.failed.items.filter (· ≠ root.normalize.text)) e)) := by
  unfold Deleter.finish
  apply Ends.bind (Q := fun _ s' => s.Looks s') (ends_reading (.reading s))
  rintro time s₁ h₁
  by_cases hempty : run.failed.isEmpty = true
  · rw [if_pos hempty]
    exact ends_note ⟨h₁.logs (Or.inl rfl), h₁.same, List.isEmpty_iff.1 hempty⟩
  · rw [if_neg hempty]
    apply Ends.seq (h.ends_buildReport hc (hw.trans h₁.world) h₁.same hk ho run)
    · rintro e s₂ ⟨h₂, he⟩
      exact ⟨(h₁.trans h₂).same, Or.inr ⟨h₁.trans h₂, he⟩⟩
    · rintro report s₂ ⟨h₂, htells⟩
      apply Ends.bind (Q := fun _ s' => s.Logs ["Tree deletion failed"] s' ∧
        s'.state.files = s.state.files)
        (ends_note ⟨(h₁.trans h₂).logs (Or.inr rfl), (h₁.trans h₂).same⟩)
      rintro - s₃ ⟨h₃, hfiles⟩
      apply Ends.bind (Q := fun _ s' => s.Logs ["Tree deletion failed"] s' ∧
        s'.state.files = s.state.files)
        (Deleter.ends_absolute (h.isAbsolute ho) ⟨h₃, hfiles⟩)
      rintro place s₄ ⟨h₄, hfiles⟩
      exact Ends.throw ⟨hfiles, Or.inl ⟨h₄, place, report, rfl, htells⟩⟩

/-- How the deletion of a tree fails: with a report, or without one by a failing scan or by a fault
that is no system error. -/
structure Fails (w : World) (On : Nat → Path → Prop) (Keeps : FileSystem → Prop) (root : Path)
    (s : Session World) (e : Failure) (s' : Session World) : Prop where
  keeps : Keeps s'.state.files
  files : s'.state.files ≤ s.state.files
  reason : (s.Logs ["Tree deletion failed"] s' ∧ ∃ interrupted place report,
      e = .ofReport interrupted place report ∧ (interrupted = true → w.MayCancel)) ∨
    s.Logs [] s' ∧ ∃ excluded, ScanFails w On s'.state.files root.normalize.text excluded e

include h in
/-- When a deletion below a root succeeds, nothing failed. -/
theorem ends_deleteBelow (hc : w.Calm) (hw : w.Follows s.state) (hk : Keeps s.state.files)
    (ho : On maxDepth root) :
    Ends ((deleter gc cap hcap).deleteBelow followSymlinks root true) s
      (fun _ s' => s.Logs ["Tree deleted"] s' ∧ Keeps s'.state.files ∧
        (s'.state.files.Missing root ∨ w.MayDeny root.text))
      (Fails w On Keeps root s) := by
  unfold Deleter.deleteBelow
  apply Ends.bind (Q := fun _ s' => s.Looks s') (ends_reading (.reading s))
  rintro startTime s₁ h₁
  refine Ends.bind (Q := fun _ s' => s.Looks s')
    (ends_note (h₁.trans ⟨.note ?_, rfl⟩)) fun _ s₂ h₂ => ?_
  · simp
  apply Ends.seq (h.ends_walk hc (hw.trans h₂.world) (h₂.same ▸ hk) ho)
  · intro e s₃ hb
    refine ⟨hb.keeps, (h₂.toAdvances.trans hb.toAdvances).files, Or.inr
      ⟨(h₂.toAdvances.trans hb.toAdvances).logs, [], hb.cause.imp_right ?_⟩⟩
    rintro ⟨depth, p, hop, he⟩
    exact ⟨depth, p, hop, Or.inl he⟩
  rintro run s₃ ⟨hwalk, hk₃, hsettled⟩
  have h₃ := h₂.toAdvances.trans hwalk.toAdvances
  apply Ends.seq (h.ends_finish hc (hw.trans h₃.world) hk₃ ho run)
  · rintro e s₄ ⟨hfiles, hreason⟩
    refine ⟨hfiles ▸ hk₃, hfiles ▸ h₃.files, hreason.imp ?_ ?_⟩
    · rintro ⟨hlogs, place, report, rfl, -⟩
      refine ⟨hlogs.after h₃, run.interrupted, place, report, rfl, fun hi => ?_⟩
      rcases hwalk.interrupted with he | hm
      · rw [hi] at he; cases he
      · exact (hw.trans h₂.world).mayCancel hm
    · rintro ⟨h₄, hscan⟩
      exact ⟨(h₃.trans h₄.toAdvances).logs, _, hfiles ▸ hscan⟩
  · rintro - s₄ ⟨hlogs, hfiles, hnone⟩
    refine Ends.pure ⟨hlogs.after h₃, hfiles ▸ hk₃, ?_⟩
    rw [hfiles]
    exact hsettled.resolve_left fun hne => hne hnone

include h in
/-- A deletion that succeeds leaves nothing at the root, unless an event claims so. -/
theorem ends_deleteTree (hc : w.Calm) (hw : w.Follows s.state) (hk : Keeps s.state.files)
    (ho : On maxDepth root) :
    Ends ((deleter gc cap hcap).deleteTree followSymlinks root) s
      (fun b s' => Keeps s'.state.files ∧
        s.Logs (if b then ["Tree deleted"] else []) s' ∧
        (s'.state.files.Missing root ∨ w.MayDeny root.text))
      (fun e s' => Fails w On Keeps root s e s' ∨
        s.Looks s' ∧ ∃ f, e = .fault f ∧ ∃ w', environment.look? root.text s.state = .error f w') := by
  unfold Deleter.deleteTree
  have hlook := ends_look? (hw.calm hc) (h.proper ho) (h.isAbsolute ho)
  have hstart : Ends (perform (environment.look? root.text)) s
      (fun r s' => s.Looks s' ∧ (r = none → s.state.files.Missing root ∨ w.MayDeny root.text))
      (fun e s' => s.Looks s' ∧ ∃ f, e = .fault f ∧
        ∃ w', environment.look? root.text s.state = .error f w') := by
    refine ends_perform (Ends.intro (fun r w' hr => ?_) fun f w' hr => ?_)
    · obtain ⟨hf, hfiles, -, hm⟩ := hlook.ok hr
      exact ⟨.of_world hf hfiles rfl, fun hnone => (hm hnone).imp_right hw.mayDeny⟩
    · obtain ⟨hf, hfiles, -⟩ := hlook.error hr
      exact ⟨.of_world hf hfiles rfl, f, rfl, w', hr⟩
  apply Ends.seq hstart (fun e s' he => Or.inr he)
  rintro (_ | status) s₁ ⟨h₁, hnone⟩
  · refine Ends.bind (Q := fun _ s' => s.Looks s')
      (ends_note (h₁.trans ⟨.note ?_, rfl⟩)) fun _ s₂ h₂ => ?_
    · simp [String.toList_append]
    · refine Ends.pure ⟨h₂.same ▸ hk, h₂.toAdvances.logs, ?_⟩
      rw [h₂.same]
      exact hnone rfl
  · apply Ends.seq (h.ends_deleteBelow hc (hw.trans h₁.world) (h₁.same ▸ hk) ho)
    · intro e s₂ hfails
      refine Or.inl ⟨hfails.keeps, le_trans hfails.files h₁.files, hfails.reason.imp ?_ ?_⟩
      · rintro ⟨hlogs, hreport⟩
        exact ⟨hlogs.after h₁.toAdvances, hreport⟩
      · rintro ⟨hlogs, hscan⟩
        exact ⟨hlogs.after h₁.toAdvances, hscan⟩
    · rintro run s₂ ⟨hlogs, hk₂, hgone⟩
      exact Ends.pure ⟨hk₂, hlogs.after h₁.toAdvances, hgone⟩

end Route

end TreeRemoval
