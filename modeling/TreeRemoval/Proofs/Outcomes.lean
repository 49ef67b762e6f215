import TreeRemoval.Proofs.Deletion.Tree

/-! # Outcomes of deletions

A deletion that has found its root returns or fails with a report, and logs which of the two. The
one system error that gets through comes from a look of the scan for new paths.
-/

namespace TreeRemoval

open World Deletion

section FailsAlike

variable {ε σ α β γ : Type} {P : ε → Prop} {s : σ}

def FailsAlike (P : ε → Prop) (m : EStateM ε σ α) (n : EStateM ε σ β) (s : σ) : Prop :=
  ∀ e s', P e → (m s = .error e s' ↔ n s = .error e s')

namespace FailsAlike

variable {m : EStateM ε σ α} {n : EStateM ε σ β}

theorem of_never (hm : Ends m s (fun _ _ => True) fun e _ => ¬ P e)
    (hn : Ends n s (fun _ _ => True) fun e _ => ¬ P e) : FailsAlike P m n s :=
  fun _ _ hP => ⟨fun he => absurd hP (hm.error he), fun he => absurd hP (hn.error he)⟩

theorem bind {f : α → EStateM ε σ β} {g : α → EStateM ε σ γ}
    (h : ∀ a s', m s = .ok a s' → FailsAlike P (f a) (g a) s') :
    FailsAlike P (m >>= f) (m >>= g) s := by
  intro e s' hP
  change EStateM.bind m f s = _ ↔ EStateM.bind m g s = _
  unfold EStateM.bind
  cases hm : m s with
  | ok a s₁ => exact h a s₁ hm e s' hP
  | error e' s₁ => simp

theorem left {f : α → EStateM ε σ γ} (h : FailsAlike P m n s)
    (hf : ∀ a s', m s = .ok a s' → Ends (f a) s' (fun _ _ => True) fun e _ => ¬ P e) :
    FailsAlike P (m >>= f) n s := by
  intro e s' hP
  rw [← h e s' hP]
  change EStateM.bind m f s = _ ↔ _
  unfold EStateM.bind
  cases hm : m s with
  | ok a s₁ =>
    simp only [reduceCtorEq, iff_false]
    exact fun he => (hf a s₁ hm).error he hP
  | error e' s₁ => simp

end FailsAlike

end FailsAlike

/-- A fault that is handed through, as opposed to a failure with a report. -/
def Failure.IsRaw (e : Failure) : Prop := ∃ f, e = .fault f

namespace Deleter

variable {σ : Type} (d : Deleter σ) (followSymlinks : Bool) (root : Path)

def scanFor (startTime : Float) (run : Run) : Deletion σ Unit := do
  if ← d.shouldFollow followSymlinks root then
    let top ← d.absolute root
    let _ ← d.newPaths followSymlinks startTime (run.failed.items.filter (· ≠ top)) root

def untilScan : Deletion σ Unit := do
  match ← perform (d.environment.look? root.text) with
  | none => return
  | some _ =>
    let startTime ← reading d.now
    note .debug "Deleting tree"
      [("root", .text root.text), ("follow_symlinks", .bool followSymlinks),
        ("start_time", .float startTime)]
    let run ← d.walk followSymlinks root true
    let _ ← reading d.now
    if run.failed.isEmpty then return else d.scanFor followSymlinks root startTime run

end Deleter

namespace World

variable {w : World} {t : String} {e : Failure} {root p : Path}

/-- Events make calls fail with errors alone, and no pause fails. -/
def OnlyErrors (w : World) : Prop :=
  ∀ e ∈ w.events, (∀ d, e.disruption = some d → ∃ errno, d = .errno errno) ∧
    (e.call = .pause ∨ e.call = .collect → e.disruption = none)

theorem OnlyErrors.exists_system (h : w.OnlyErrors) {moment : Moment} {c : Call} {f : Fault}
    (hs : w.Strikes moment c t f) : (∃ e, f = .system e) ∧ c ≠ .pause ∧ c ≠ .collect := by
  obtain ⟨event, he, hm, d, hd, rfl⟩ := hs
  obtain ⟨herrno, hpause⟩ := h event he
  have hcall : event.call = c := by
    simp only [Event.isMatch, Bool.and_eq_true, decide_eq_true_eq] at hm
    exact hm.1.1.1
  refine ⟨?_, fun hc => ?_, fun hc => ?_⟩
  · obtain ⟨errno, rfl⟩ := herrno d hd
    exact ⟨_, rfl⟩
  · rw [hpause (Or.inl (hcall.trans hc))] at hd; cases hd
  · rw [hpause (Or.inr (hcall.trans hc))] at hd; cases hd

theorem OnlyErrors.not_mayCancel (h : w.OnlyErrors) : ¬ w.MayCancel := by
  rintro ⟨moment, c, t, hs, -⟩
  obtain ⟨⟨e, he⟩, -⟩ := h.exists_system hs
  cases he

theorem OnlyErrors.escapes (h : w.OnlyErrors) (he : w.Escapes t e) :
    e = .fault .nullByte ∧ '\x00' ∈ t.toList := by
  cases he with
  | nullByte hn => exact ⟨rfl, hn⟩
  | stopped hs _ hf =>
    obtain ⟨⟨e, rfl⟩, -⟩ := h.exists_system hs
    rcases hf with hf | hf <;> cases hf
  | paused hs hc _ =>
    obtain ⟨-, hpause, hcollect⟩ := h.exists_system hs
    rcases hc with hc | hc
    · exact absurd hc hpause
    · exact absurd hc hcollect

/-- Some node has a name that no call takes. -/
def Misnames (w : World) : Prop :=
  ∃ place n, w.files.get? (place ++ [n]) ≠ none ∧ '\x00' ∈ n.text.toList

def OnTree (w : World) (root : Path) (depth : Nat) (p : Path) : Prop :=
  p.Fits depth ∧ ∃ names, p = root.descend names ∧
    ∀ n ∈ names, ∃ place, w.files.get? (place ++ [n]) ≠ none

theorem onTreeRoute (hp : root.Proper) (ha : root.isAbsolute = true) (followSymlinks : Bool) :
    Route w followSymlinks (w.OnTree root) (· ≤ w.files) where
  proper := by
    rintro depth - ⟨-, names, rfl, -⟩
    exact hp.descend names
  isAbsolute := by
    rintro depth - ⟨-, names, rfl, -⟩
    exact ha
  child := by
    rintro fs depth - place n hk ⟨hfits, names, rfl, hnames⟩ hop hn
    refine ⟨hfits.child ha (FileSystem.text_le_of_locate hop.leads) n, names ++ [n], by simp, ?_⟩
    intro m hm
    rcases List.mem_append.1 hm with hm | hm
    · exact hnames m hm
    · rw [List.mem_singleton.1 hm]
      exact ⟨place, FileSystem.get?_ne_none_of_le hk hn⟩
  removes := fun hk _ hrem => le_trans hrem.le hk

theorem onTree_root (ha : root.isAbsolute = true) : w.OnTree root maxDepth root :=
  ⟨Path.fits_maxDepth ha, [], by simp, by simp⟩

theorem OnTree.misnames {depth : Nat} (h : w.OnTree root depth p) (hf : w.OnlyErrors)
    (ha : root.isAbsolute = true) (hroot : '\x00' ∉ root.text.toList)
    (he : w.Escapes p.text e) : e = .fault .nullByte ∧ w.Misnames := by
  obtain ⟨rfl, hnul⟩ := hf.escapes he
  obtain ⟨-, names, rfl, hnames⟩ := h
  rcases (Path.mem_text_descend_iff ha (by decide)).1 hnul with hn | ⟨n, hm, hn⟩
  · exact absurd hn hroot
  · obtain ⟨place, hplace⟩ := hnames n hm
    exact ⟨rfl, place, n, hplace, hn⟩

end World

theorem Failure.not_isRaw_ofReport (interrupted : Bool) (place : String) (report : Report) :
    ¬ (Failure.ofReport interrupted place report).IsRaw := by
  rintro ⟨f, hf⟩
  cases interrupted <;> cases hf

namespace Deleter

variable {w : World} {gc : Bool} {cap : Nat} {hcap : 0 < cap} {followSymlinks : Bool} {root : Path}
  {s : Session World}

/-- What comes after the scan for new paths never fails with a fault. -/
theorem ends_fillReport_not_raw (hc : w.Calm) (hf : w.OnlyErrors) (hw : w.Follows s.state)
    (hp : root.Proper) (ha : root.isAbsolute = true) (run : Run) (descended : Bool)
    (failedPaths newPaths : List String) :
    Ends ((deleter gc cap hcap).fillReport root run descended failedPaths newPaths) s
      (fun _ _ => True) (fun e _ => ¬ e.IsRaw) := by
  apply (ends_fillReport (hw.calm hc) hp ha run descended failedPaths newPaths).mono
    (fun _ _ _ => trivial)
  rintro _ s' ⟨-, f, rfl, hn, c, -, moment, hs⟩
  obtain ⟨⟨e, rfl⟩, -⟩ := hf.exists_system (hw.strikes hs)
  cases hn

/-- A report fails as its scan does. -/
theorem buildReport_failsAlike (hc : w.Calm) (hf : w.OnlyErrors) (hw : w.Follows s.state)
    (hp : root.Proper) (ha : root.isAbsolute = true) (startTime : Float) (run : Run) :
    FailsAlike Failure.IsRaw
      ((deleter gc cap hcap).buildReport followSymlinks root startTime run)
      ((deleter gc cap hcap).scanFor followSymlinks root startTime run) s := by
  have hdone : ∀ s : Session World,
      Ends (pure () : Deletion World Unit) s (fun _ _ => True) (fun e _ => ¬ e.IsRaw) :=
    fun _ => Ends.pure trivial
  rw [buildReport_eq]
  unfold scanFor
  refine FailsAlike.bind fun descended s₁ h₁ => ?_
  have hw₁ := hw.trans ((ends_shouldFollow (hw.calm hc) hp ha).ok h₁).1.world
  cases descended with
  | false =>
    exact FailsAlike.of_never (ends_fillReport_not_raw hc hf hw₁ hp ha run _ _ _) (hdone s₁)
  | true =>
    refine FailsAlike.bind fun top s₂ h₂ => ?_
    have hw₂ : w.Follows s₂.state :=
      (ends_absolute (Q := fun _ s' => w.Follows s'.state) (E := fun _ _ => True) ha hw₁).ok h₂
    refine FailsAlike.bind fun newPaths s₃ h₃ => ?_
    obtain ⟨hlooks, -⟩ :=
      ((Route.descending hp ha).ends_newPaths hc hw₂ rfl trivial ⟨[], by simp⟩ _).ok h₃
    exact FailsAlike.of_never
      (ends_fillReport_not_raw hc hf (hw₂.trans hlooks.world) hp ha run _ _ _) (hdone s₃)

theorem deleteTree_failsAlike (hc : w.Calm) (hf : w.OnlyErrors) (hw : w.Follows s.state)
    (hp : root.Proper) (ha : root.isAbsolute = true) :
    FailsAlike Failure.IsRaw ((deleter gc cap hcap).deleteTree followSymlinks root)
      ((deleter gc cap hcap).untilScan followSymlinks root) s := by
  have hdone : ∀ {α : Type} (a : α) (s : Session World),
      Ends (pure a : Deletion World α) s (fun _ _ => True) (fun e _ => ¬ e.IsRaw) :=
    fun _ _ => Ends.pure trivial
  unfold deleteTree untilScan
  refine FailsAlike.bind fun found s₁ h₁ => ?_
  have hw₁ : w.Follows s₁.state :=
    hw.trans ((ends_perform_keep (ends_look? (hw.calm hc) hp ha)).ok h₁).1.1
  cases found with
  | none =>
    exact FailsAlike.of_never (Ends.bind (Q := fun _ _ => True) (ends_note trivial)
      fun _ s' _ => hdone false s') (hdone () s₁)
  | some status =>
    refine FailsAlike.left ?_ fun _ s' _ => hdone true s'
    unfold deleteBelow
    refine FailsAlike.bind fun startTime s₂ h₂ => ?_
    refine FailsAlike.bind fun _ s₃ h₃ => ?_
    have hw₃ : w.Follows s₃.state := by
      cases h₂
      cases h₃
      exact hw₁.trans (follows_now _)
    refine FailsAlike.bind fun run s₄ h₄ => ?_
    have hw₄ := hw₃.trans
      (((Route.descending hp ha).ends_walk hc hw₃ trivial ⟨[], by simp⟩).ok h₄).1.world
    refine FailsAlike.left ?_ fun _ s' _ => hdone run s'
    unfold finish
    refine FailsAlike.bind fun endTime s₅ h₅ => ?_
    have hw₅ : w.Follows s₅.state := by
      cases h₅
      exact hw₄.trans (follows_now _)
    by_cases hempty : run.failed.isEmpty = true
    · rw [if_pos hempty, if_pos hempty]
      exact FailsAlike.of_never (ends_note trivial) (hdone () s₅)
    · rw [if_neg hempty, if_neg hempty]
      apply FailsAlike.left (buildReport_failsAlike hc hf hw₅ hp ha startTime run)
      intro report s₆ _
      refine Ends.bind (Q := fun _ _ => True) (ends_note trivial) fun _ s₇ _ => ?_
      refine Ends.bind (Q := fun _ _ => True) (ends_absolute ha trivial) fun place s₈ _ => ?_
      exact Ends.throw (Failure.not_isRaw_ofReport run.interrupted place report)

end Deleter

/-- How the deletion of a root that was found fails: with a report and one entry in the log, or with
a fault by the end of its scan and no entry. Such a fault is an error of a look at a path below the
root, unless the name of a node is ill-formed. -/
inductive Deleter.FailsFound (d : Deleter World) (followSymlinks : Bool) (root : Path)
    (s : Session World) : Failure → Session World → Prop
  | reported {place : String} {report : Report} {s' : Session World}
      (h : Log.outcomes s'.log = Log.outcomes s.log ++ ["Tree deletion failed"]) :
      FailsFound d followSymlinks root s (.incomplete place report) s'
  | refused {e : SystemError} {s' : Session World} {names : List Name}
      (h : Log.outcomes s'.log = Log.outcomes s.log)
      (hs : d.untilScan followSymlinks root s = .error (.fault (.system e)) s') (hn : names ≠ [])
      (hr : s.state.Refuses s'.state.files (root.descend names) e.errno) :
      FailsFound d followSymlinks root s (.fault (.system e)) s'
  | misnamed {s' : Session World} (h : Log.outcomes s'.log = Log.outcomes s.log)
      (hs : d.untilScan followSymlinks root s = .error (.fault .nullByte) s')
      (hm : s.state.Misnames) : FailsFound d followSymlinks root s (.fault .nullByte) s'

/-- A deletion that finds its root, while calls fail with errors at most and no pause fails,
succeeds with one entry in the log or fails in one of these ways; and it fails with a fault whenever
it does so by the end of its scan. -/
theorem deleteTree_accounted {w w' : World} (hc : w.Calm) (hf : w.OnlyErrors) {root : String}
    (ha : (Path.ofText root).isAbsolute = true) {status : Status}
    (hfound : environment.look? (Path.ofText root).text w = .ok (some status) w')
    (followSymlinks collectsGarbage : Bool) (cap : Nat) (hcap : 0 < cap) (log : List Log.Entry)
    (acts : List Act) :
    Ends ((World.deleter collectsGarbage cap hcap).deleteTree followSymlinks (.ofText root))
        ⟨w, log, acts⟩
        (fun b s => b = true ∧ Log.outcomes s.log = Log.outcomes log ++ ["Tree deleted"])
        ((World.deleter collectsGarbage cap hcap).FailsFound followSymlinks (.ofText root)
          ⟨w, log, acts⟩) ∧
      ∀ f s, (World.deleter collectsGarbage cap hcap).untilScan followSymlinks (.ofText root)
          ⟨w, log, acts⟩ = .error (.fault f) s →
        (World.deleter collectsGarbage cap hcap).deleteTree followSymlinks (.ofText root)
          ⟨w, log, acts⟩ = .error (.fault f) s := by
  have hp := Path.proper_ofText root
  obtain ⟨hw, hfiles, hlook, -⟩ := (ends_look? hc hp ha).ok hfound
  obtain ⟨hnul, -⟩ := hlook status rfl
  have halike : FailsAlike Failure.IsRaw
      ((World.deleter collectsGarbage cap hcap).deleteTree followSymlinks (.ofText root))
      ((World.deleter collectsGarbage cap hcap).untilScan followSymlinks (.ofText root))
      ⟨w, log, acts⟩ := Deleter.deleteTree_failsAlike hc hf (.refl w) hp ha
  have hends : Ends
      ((World.deleter collectsGarbage cap hcap).deleteTree followSymlinks (.ofText root))
      ⟨w, log, acts⟩
      (fun b s => b = true ∧ Log.outcomes s.log = Log.outcomes log ++ ["Tree deleted"])
      (Route.Fails w (w.OnTree (.ofText root)) (· ≤ w.files) (.ofText root) ⟨w', log, acts⟩) := by
    unfold Deleter.deleteTree
    apply Ends.bind (Q := fun r s => r = some status ∧ s = ⟨w', log, acts⟩)
      (ends_perform (Ends.of_ok hfound ⟨rfl, rfl⟩))
    rintro _ _ ⟨rfl, rfl⟩
    apply Ends.bind ((onTreeRoute hp ha followSymlinks).ends_deleteBelow hc hw (le_of_eq hfiles)
      (onTree_root ha))
    rintro run s ⟨hlogs, -, -⟩
    exact Ends.pure ⟨rfl, hlogs.outcomes⟩
  refine ⟨Ends.intro (fun b s hs => hends.ok hs) fun e s hs => ?_, fun f s hs =>
    (halike _ _ ⟨f, rfl⟩).2 hs⟩
  rcases (hends.error hs).reason with ⟨hlogs, interrupted, place, report, rfl, hcancel⟩ |
    ⟨hlogs, excluded, hscan⟩
  · cases interrupted with
    | true => exact absurd (hcancel rfl) hf.not_mayCancel
    | false => exact .reported hlogs.outcomes
  -- The scan for new paths has failed, so that no outcome was logged.
  · have hlog : Log.outcomes s.log = Log.outcomes log := by
      rw [hlogs.outcomes, List.append_nil]
    rcases hscan with ⟨rfl, p, hfits, -⟩ | ⟨depth, p, hon, he | ⟨err, rfl, hr, htop, -⟩⟩
    · exact absurd hfits.1 (by simp)
    · obtain ⟨rfl, hm⟩ := hon.misnames hf ha hnul he
      exact .misnamed hlog ((halike _ _ ⟨_, rfl⟩).1 hs) hm
    · obtain ⟨-, names, rfl, -⟩ := hon
      refine .refused hlog ((halike _ _ ⟨_, rfl⟩).1 hs) (fun hnil => htop ?_) hr
      rw [hnil, Path.descend_nil]

/-- A tree with a file that cannot be removed, and with one that cannot be looked at. -/
def World.stubborn : World :=
  .make [.leaf (.ofText "/w/a") .file 0, .leaf (.ofText "/w/b") .file 0] "/" none
    [{ call := .unlink, path := some "/w/a", disruption := some (.errno .eacces) },
      { call := .lstat, path := some "/w/b", disruption := some (.errno .eacces) }] (.ofList [])

theorem deleteTree_accounted_stubborn :
    World.stubborn.Calm ∧ World.stubborn.OnlyErrors ∧ (Path.ofText "/w").isAbsolute = true ∧
      environment.look? (Path.ofText "/w").text World.stubborn =
        .ok (some ⟨.directory, 0⟩) World.stubborn ∧
      Ends ((World.deleter false 1 Nat.one_pos).deleteTree false (.ofText "/w"))
        ⟨World.stubborn, [], []⟩
        (fun b s => b = true ∧ Log.outcomes s.log = Log.outcomes [] ++ ["Tree deleted"])
        ((World.deleter false 1 Nat.one_pos).FailsFound false (.ofText "/w")
          ⟨World.stubborn, [], []⟩) := by
  have hevents : ∀ e ∈ World.stubborn.events, e.edits = [] ∧
      e.disruption = some (.errno .eacces) ∧ e.call ≠ .pause ∧ e.call ≠ .collect := by
    intro e he
    change e ∈ [_, _] at he
    simp only [List.mem_cons, List.not_mem_nil, or_false] at he
    rcases he with rfl | rfl <;> simp
  have hc : World.stubborn.Calm := fun e he => (hevents e he).1
  have hf : World.stubborn.OnlyErrors := by
    intro e he
    obtain ⟨-, hd, hpause, hcollect⟩ := hevents e he
    refine ⟨fun d hd' => ⟨.eacces, ?_⟩, fun hcall => ?_⟩
    · rw [hd] at hd'
      exact (Option.some.inj hd').symm
    · rcases hcall with h | h
      · exact absurd h hpause
      · exact absurd h hcollect
  have ha : (Path.ofText "/w").isAbsolute = true := by decide
  have hfound : environment.look? (Path.ofText "/w").text World.stubborn =
      .ok (some ⟨.directory, 0⟩) World.stubborn := by rfl
  exact ⟨hc, hf, ha, hfound, (deleteTree_accounted hc hf ha hfound false false 1 Nat.one_pos [] []).1⟩

end TreeRemoval
