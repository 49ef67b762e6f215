import TreeRemoval.Proofs.Confinement
import TreeRemoval.Proofs.Removal

/-! # Resuming a deletion

However a deletion ends, what it leaves of the tree at the root is a tree again, and everything else
is as before. So a further deletion without faults ends as a single one would have.
-/

namespace TreeRemoval

open World Deletion Visit

/-! ### Deletions without faults -/

theorem FileSystem.LosesTree.formAt? {fs fs' : FileSystem} {time : Option Float} {place : Location}
    (h : fs.LosesTree time place fs') (loc : Location) :
    fs'.formAt? loc = if place <+: loc then none else fs.formAt? loc := by
  rw [formAt?_eq, h, formAt?_eq]
  split
  · rfl
  · split
    · simp [Function.comp_def]
    · rfl

namespace World

variable {w w' : World} {root : Path} {place : Location} {node : Node}

def faultless (w : World) : World := { w with events := [] }

theorem onlyRefuses_faultless (w : World) : w.faultless.OnlyRefuses := by
  intro e he
  cases he

/-- Without faults, a deletion takes the whole tree away. -/
theorem Site.ends_deleteTree_faultless (hs : w.faultless.Site root place node) (gc : Bool)
    (cap : Nat) (hcap : 0 < cap) (log : List Log.Entry) (acts : List Act) :
    Ends ((deleter gc cap hcap).deleteTree false root) ⟨w.faultless, log, acts⟩
      (fun b s => b = true ∧ w.files.LosesTree w.changeTime place s.state.files)
      (fun _ _ => False) := by
  have hnone : failures (w.faultless.survey root node).visits = 0 :=
    Survey.failures_ofNode _ _ _ (Survey.ofNode_nil root [] node.sorted).1
  apply (hs.ends_deleteTree gc cap hcap log acts).mono
  · rintro b s ⟨-, rfl, hloses⟩
    exact ⟨rfl, losesTree_of_gone (w := w.faultless) hcap hnone hloses⟩
  · exact fun _ _ he => he.stays hnone

/-- Without faults, a deletion says no where nothing is. -/
theorem ends_deleteTree_missing (hr : w.OnlyRefuses) (hp : root.Proper)
    (ha : root.isAbsolute = true) (ht : '\x00' ∉ root.text.toList) (hm : w.files.Missing root)
    (gc : Bool) (cap : Nat) (hcap : 0 < cap) (log : List Log.Entry) (acts : List Act) :
    Ends ((deleter gc cap hcap).deleteTree false root) ⟨w, log, acts⟩
      (fun b s => b = false ∧ s.state.files = w.files) (fun _ _ => False) := by
  unfold Deleter.deleteTree
  apply Ends.seq (ends_perform_keep (hr.ends_look?_missing hp ha ht hm))
  · rintro _ s ⟨f, -, hf, -⟩
    exact hf
  · rintro r s ⟨⟨hw, rfl⟩, -⟩
    exact Ends.bind (Q := fun _ s' => s'.state.files = w.files) (ends_note (by rw [hw]))
      fun _ _ hfiles => Ends.pure ⟨rfl, hfiles⟩

/-! ### What a deletion leaves -/

section Left

variable (hs : w.Site root place node) (hconf : w.Confines (place <+: ·) w'.files)

include hs hconf

theorem Site.left (hr : w'.OnlyRefuses) {left : Node} (hl : w'.files.get? place = some left) :
    w'.Site root place left := by
  have hthere : w'.files.formAt? place ≠ none := by
    rw [FileSystem.formAt?, hl]
    simp
  have hleads : w'.files.locate false root = .ok place := by
    refine (FileSystem.locate_of_trail fun loc hloc => ?_).trans hs.leads
    by_cases hp : place <+: loc
    · obtain rfl := hs.apart loc hloc hp
      obtain ⟨form, hform⟩ := Option.ne_none_iff_exists'.1 hthere
      rw [hform, hconf.1 loc form hform]
    · exact hconf.2 loc hp
  have hbelow : ∀ names, left.get? names ≠ none → node.get? names ≠ none := by
    intro names hn
    rw [← hs.get?]
    apply FileSystem.get?_ne_none_of_le hconf.1
    rw [FileSystem.get?_append, hl]
    exact hn
  constructor
  · exact hr
  · exact hs.proper
  · exact hs.isAbsolute
  · exact hs.child
  · exact hleads
  · exact hl
  · rw [FileSystem.trail_of_le hconf.1 hleads hthere]
    exact hs.apart
  · exact ⟨fun names hn => hs.limits.text names (hbelow names hn),
      fun names hn => hs.limits.name names (hbelow names hn)⟩
  · exact fun names hn => hs.readable names (hbelow names hn)

theorem Site.missing (hl : w'.files.get? place = none) : w'.files.Missing root := by
  rcases FileSystem.locate_of_le hconf.1 hs.leads with he | he | ⟨loc, he, hn⟩
  · exact Or.inr ⟨place, he, hl⟩
  · exact Or.inl ⟨.enoent, rfl, he⟩
  · exact Or.inr ⟨loc, he, hn⟩

end Left

/-- No event makes an edit or strikes a look at a node. -/
def Workable (w : World) : Prop := ∀ e ∈ w.events, e.edits = [] ∧ e.call ≠ .stat ∧ e.call ≠ .lstat

theorem Workable.calm (h : w.Workable) : w.Calm := fun e he => (h e he).1

theorem Workable.not_exposes (h : w.Workable) (loc : Location) : ¬ w.Exposes root loc := by
  rintro ⟨names, -, -, -, moment, e, event, hm, hmatch, -⟩
  simp only [Event.isMatch, Bool.and_eq_true, decide_eq_true_iff] at hmatch
  exact (h event hm).2.2 hmatch.1.1.1

/-- However a deletion ends, only the tree at the root has changed. -/
theorem Site.confines (hs : w.faultless.Site root place node) (hw : w.Workable) (gc : Bool)
    (cap : Nat) (hcap : 0 < cap) (log : List Log.Entry) (acts : List Act) :
    Ends ((deleter gc cap hcap).deleteTree false root) ⟨w, log, acts⟩
      (fun _ s => w.Confines (place <+: ·) s.state.files)
      (fun _ s => w.Confines (place <+: ·) s.state.files) := by
  have hinside : ∀ {loc}, w.Inside root loc → place <+: loc := by
    rintro loc ⟨top, hl | hex, hp, -⟩
    · cases hs.leads.symm.trans hl
      exact hp
    · exact absurd hex (hw.not_exposes top)
  have hbelow : ∀ {loc} (n : Name), place <+: loc → w.Inside root (loc ++ [n]) := by
    rintro loc n ⟨rest, rfl⟩
    refine ⟨place, Or.inl hs.leads, ?_, ?_⟩
    · rw [List.append_assoc]
      exact List.prefix_append _ _
    · simp
  have hroot : w.Reaching root (place <+: ·) root := by
    refine ⟨⟨[], by simp⟩, fun loc hl => ?_⟩
    cases hs.leads.symm.trans hl
    exact List.prefix_rfl
  have hroute := reachingRoute hs.proper hs.isAbsolute hinside hbelow
  have hstart := Confines.start w (place <+: ·)
  apply (hroute.ends_deleteTree (s := ⟨w, log, acts⟩) hw.calm (.refl w) hstart hroot).mono
  · exact fun _ _ h => h.1
  · rintro e s (hfails | ⟨hlooks, -⟩)
    · exact hfails.keeps
    · rw [hlooks.same]
      exact hstart

end World

/-- A further deletion without faults ends, and the files are then as after a single deletion
without faults from the start. -/
def Deleter.Resumes (d : Deleter World) (root : Path) (w w' : World) : Prop :=
  ∀ log acts log' acts', ∃ removed s s',
    d.deleteTree false root ⟨w.faultless, log, acts⟩ = .ok true s ∧
    d.deleteTree false root ⟨w'.faultless, log', acts'⟩ = .ok removed s' ∧
    ∀ loc, s'.state.files.formAt? loc = s.state.files.formAt? loc

theorem World.Site.resumes {w w' : World} {root : Path} {place : Location} {node : Node}
    (hs : w.faultless.Site root place node) (hconf : w.Confines (place <+: ·) w'.files) (gc : Bool)
    (cap : Nat) (hcap : 0 < cap) : (World.deleter gc cap hcap).Resumes root w w' := by
  intro log acts log' acts'
  obtain ⟨_, s, hrun, rfl, hloses⟩ := (hs.ends_deleteTree_faultless gc cap hcap log acts).exists_ok
  have hgoal : ∃ removed s', (World.deleter gc cap hcap).deleteTree false root
      ⟨w'.faultless, log', acts'⟩ = .ok removed s' ∧
      ∀ loc, s'.state.files.formAt? loc = if place <+: loc then none else w.files.formAt? loc := by
    cases hl : w'.files.get? place with
    | none =>
      have hmissing : w'.files.Missing root := hs.missing hconf hl
      obtain ⟨removed, s', hrun', -, hfiles⟩ := (ends_deleteTree_missing
        w'.onlyRefuses_faultless hs.proper hs.isAbsolute hs.readable_root hmissing gc cap hcap log'
        acts').exists_ok
      refine ⟨removed, s', hrun', fun loc => ?_⟩
      rw [hfiles]
      split
      · rename_i hp
        obtain ⟨rest, rfl⟩ := hp
        rw [FileSystem.formAt?_eq_none_iff, FileSystem.get?_append]
        exact congrArg (Option.bind · _) hl
      · rename_i hp
        exact hconf.2 loc hp
    | some left =>
      have hconf' : w.faultless.Confines (place <+: ·) w'.faultless.files := hconf
      have hleft := hs.left hconf' w'.onlyRefuses_faultless hl
      obtain ⟨removed, s', hrun', -, hloses'⟩ :=
        (hleft.ends_deleteTree_faultless gc cap hcap log' acts').exists_ok
      refine ⟨removed, s', hrun', fun loc => ?_⟩
      rw [hloses'.formAt?]
      split
      · rfl
      · rename_i hp
        exact hconf.2 loc hp
  obtain ⟨removed, s', hrun', hforms⟩ := hgoal
  refine ⟨removed, s, s', hrun, hrun', fun loc => ?_⟩
  rw [hforms, hloses.formAt?]

/-- However the deletion of a tree ends - at a fault, at a cancelled pause or at an interrupt of any
call but a look at a node - a further deletion without faults ends as a single one would have. -/
theorem deleteTree_resumable {w : World} (hw : w.Workable) {root : String}
    (ha : (Path.ofText root).isAbsolute = true) (hparts : (Path.ofText root).parts ≠ [])
    (hlast : (Path.ofText root).parts.getLast? ≠ some "..") {place : Location} {node : Node}
    (hleads : w.files.locate false (.ofText root) = .ok place)
    (hthere : w.files.get? place = some node)
    (hapart : ∀ loc ∈ w.files.trail false (.ofText root), place <+: loc → loc = place)
    (hlimits : (Path.ofText root).WithinLimits node)
    (hreadable : ∀ names, node.get? names ≠ none →
      '\x00' ∉ ((Path.ofText root).descend names).text.toList)
    (collectsGarbage : Bool) (cap : Nat) (hcap : 0 < cap) (log : List Log.Entry) (acts : List Act) :
    Ends ((World.deleter collectsGarbage cap hcap).deleteTree false (.ofText root)) ⟨w, log, acts⟩
      (fun _ s => (World.deleter collectsGarbage cap hcap).Resumes (.ofText root) w s.state)
      (fun _ s => (World.deleter collectsGarbage cap hcap).Resumes (.ofText root) w s.state) := by
  have hproper := Path.proper_ofText root
  have hs : w.faultless.Site (.ofText root) place node :=
    ⟨w.onlyRefuses_faultless, hproper, ha, hproper.exists_eq_child hparts hlast, hleads, hthere,
      hapart, hlimits, hreadable⟩
  apply (hs.confines hw collectsGarbage cap hcap log acts).mono
  · exact fun _ s hconf => hs.resumes hconf collectsGarbage cap hcap
  · exact fun _ s hconf => hs.resumes hconf collectsGarbage cap hcap

/-- A tree whose deletion is interrupted when its file is gone. -/
def World.halted : World :=
  .make [.leaf (.ofText "/w/a") .file 0] "/" none
    [{ call := .rmdir, path := some "/w", disruption := some .interrupt }] (.ofList [])

theorem deleteTree_resumable_halted :
    World.halted.Workable ∧ (Path.ofText "/w").isAbsolute = true ∧
      (Path.ofText "/w").parts ≠ [] ∧ (Path.ofText "/w").parts.getLast? ≠ some ".." ∧
      World.halted.files.locate false (.ofText "/w") = .ok (.ofText "/w") ∧
      World.halted.files.get? (.ofText "/w") = some World.heldTree ∧
      (∀ loc ∈ World.halted.files.trail false (.ofText "/w"),
        Location.ofText "/w" <+: loc → loc = .ofText "/w") ∧
      (Path.ofText "/w").WithinLimits World.heldTree ∧
      (∀ names, World.heldTree.get? names ≠ none →
        '\x00' ∉ ((Path.ofText "/w").descend names).text.toList) ∧
      ∃ e s, (World.deleter false 1 Nat.one_pos).deleteTree false (.ofText "/w")
          ⟨World.halted, [], []⟩ = .error e s ∧
        (World.deleter false 1 Nat.one_pos).Resumes (.ofText "/w") World.halted s.state := by
  have hw : World.halted.Workable := by
    intro e he
    change e ∈ [_] at he
    rw [List.mem_singleton.1 he]
    decide
  have ha : (Path.ofText "/w").isAbsolute = true := by decide
  have hparts : (Path.ofText "/w").parts ≠ [] := by decide
  have hlast : (Path.ofText "/w").parts.getLast? ≠ some ".." := by decide
  have hleads : World.halted.files.locate false (.ofText "/w") = .ok (.ofText "/w") := by rfl
  have hthere : World.halted.files.get? (.ofText "/w") = some World.heldTree := by rfl
  have hapart : ∀ loc ∈ World.halted.files.trail false (.ofText "/w"),
      Location.ofText "/w" <+: loc → loc = .ofText "/w" := by decide
  have hlimits : (Path.ofText "/w").WithinLimits World.heldTree :=
    Path.withinLimits_of_single (by decide) (by decide) (by decide)
  have hreadable : ∀ names, World.heldTree.get? names ≠ none →
      '\x00' ∉ ((Path.ofText "/w").descend names).text.toList := by
    intro names hn
    rcases Node.names_of_single hn with rfl | rfl <;> decide
  have hfails : ((World.deleter false 1 Nat.one_pos).deleteTree false (.ofText "/w")).run'
      ⟨World.halted, [], []⟩ = none := by decide +kernel
  have hends := deleteTree_resumable hw ha hparts hlast hleads hthere hapart hlimits hreadable false 1
    Nat.one_pos [] []
  obtain ⟨e, s, hrun⟩ := exists_error_of_run' hfails
  exact ⟨hw, ha, hparts, hlast, hleads, hthere, hapart, hlimits, hreadable, e, s, hrun,
    hends.error hrun⟩

/-- Readable names are needed: otherwise a further deletion without faults fails as the first did.
-/
theorem deleteTree_resumable_garbled :
    World.garbled.Workable ∧ (Path.ofText "/w").isAbsolute = true ∧
      (Path.ofText "/w").parts ≠ [] ∧ (Path.ofText "/w").parts.getLast? ≠ some ".." ∧
      World.garbled.files.locate false (.ofText "/w") = .ok (.ofText "/w") ∧
      World.garbled.files.get? (.ofText "/w") = some World.garbledTree ∧
      (∀ loc ∈ World.garbled.files.trail false (.ofText "/w"),
        Location.ofText "/w" <+: loc → loc = .ofText "/w") ∧
      (Path.ofText "/w").WithinLimits World.garbledTree ∧
      ∃ e s, (World.deleter false 1 Nat.one_pos).deleteTree false (.ofText "/w")
          ⟨World.garbled, [], []⟩ = .error e s ∧
        ¬ ∃ removed s', (World.deleter false 1 Nat.one_pos).deleteTree false (.ofText "/w")
          ⟨s.state.faultless, [], []⟩ = .ok removed s' := by
  have hw : World.garbled.Workable := by
    intro e he
    cases he
  have hlimits : (Path.ofText "/w").WithinLimits World.garbledTree :=
    Path.withinLimits_of_single (by decide) (by decide) (by decide)
  have hfirst : ((World.deleter false 1 Nat.one_pos).deleteTree false (.ofText "/w")).run'
      ⟨World.garbled, [], []⟩ = none := by decide +kernel
  have hboth : (do
      let _ ← outcome ((World.deleter false 1 Nat.one_pos).deleteTree false (.ofText "/w"))
      modify fun s : Session World => { state := s.state.faultless }
      (World.deleter false 1 Nat.one_pos).deleteTree false (.ofText "/w")).run'
      ⟨World.garbled, [], []⟩ = none := by decide +kernel
  obtain ⟨e, s, hrun⟩ := exists_error_of_run' hfirst
  refine ⟨hw, by decide, by decide, by decide, rfl, rfl, by decide, hlimits, e, s, hrun, ?_⟩
  rintro ⟨removed, s', hrun'⟩
  obtain ⟨e', s'', hfails⟩ := exists_error_of_run' hboth
  have houtcome : outcome ((World.deleter false 1 Nat.one_pos).deleteTree false (.ofText "/w"))
      ⟨World.garbled, [], []⟩ = .ok (.error e) s := by
    unfold outcome
    rw [hrun]
  rw [bind_of_ok houtcome] at hfails
  cases hrun'.symm.trans hfails

end TreeRemoval
