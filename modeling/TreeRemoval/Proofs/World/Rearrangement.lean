import TreeRemoval.Proofs.Deletion.Likeness
import TreeRemoval.Proofs.FileSystem.Rearrangement
import TreeRemoval.Trace

/-! # Worlds and the order of entries

Worlds that differ in the order of entries alone answer alike, whatever faults and edits their
events hold, and differ in nothing else afterwards. Traces of their calls are the same.
-/

namespace TreeRemoval

theorem Event.fire_rearranged {files files' : FileSystem} (h : files.Rearranges files')
    (moment : Moment) (c : Call) (t : String) (events : List Event) :
    (fire moment c t events files).2.1.Rearranges (fire moment c t events files').2.1 := by
  induction events generalizing files files' with
  | nil => exact h
  | cons e rest ih =>
    unfold fire
    split
    · split
      · have hedits := FileSystem.Rearranges.applyAll h e.edits
        cases e.disruption with
        | some d => exact hedits
        | none => exact ih hedits
      · exact ih h
    · exact ih h

namespace World

structure Rearranges (w w' : World) : Prop where
  files : w.files.Rearranges w'.files
  workingDirectory : w'.workingDirectory = w.workingDirectory
  changeTime : w'.changeTime = w.changeTime
  events : w'.events = w.events
  clock : w'.clock = w.clock

variable {w w' : World} {α : Type} {c : Call} {t : String}

theorem alike_fire (moment : Moment) (c : Call) (t : String) :
    Alike Rearranges (fun _ => Rearranges) (fire moment c t) (fire moment c t) := by
  intro w w' h
  obtain ⟨hevents, hfault⟩ := Event.fire_files moment c t w.events w.files w'.files
  have hfiles := Event.fire_rearranged h.files moment c t w.events
  cases hrun : Event.fire moment c t w.events w.files with | mk events rest
  cases hrun' : Event.fire moment c t w.events w'.files with | mk events' rest'
  obtain ⟨files, fault⟩ := rest
  obtain ⟨files', fault'⟩ := rest'
  rw [hrun, hrun'] at hevents hfault hfiles
  obtain rfl : events = events' := hevents
  obtain rfl : fault = fault' := hfault
  have hrelated : Rearranges { w with events, files } { w' with events, files := files' } :=
    ⟨hfiles, h.workingDirectory, h.changeTime, rfl, h.clock⟩
  cases fault with
  | none =>
    exact Matches.of_ok (by unfold fire; rw [hrun]) (by unfold fire; rw [h.events, hrun'])
      ⟨rfl, hrelated⟩
  | some f =>
    exact Matches.of_error (by unfold fire; rw [hrun]) (by unfold fire; rw [h.events, hrun'])
      ⟨rfl, hrelated⟩

/-- Two calls whose work is done alike are answered alike. -/
theorem matches_call {work : World → Except Errno (α × FileSystem)} {Q : α → α → Prop}
    (hwork : ∀ {w w' : World}, w.Rearranges w' →
      AnswersAlike (fun a a' => Q a.1 a'.1 ∧ a.2.Rearranges a'.2) (work w) (work w'))
    (h : w.Rearranges w') :
    Matches (call c t work) (call c t work) w w' (fun a u a' u' => Q a a' ∧ u.Rearranges u')
      fun f u f' u' => f' = f ∧ u.Rearranges u' := by
  unfold call
  apply (alike_fire .before c t w w' h).bind
  rintro - u - u' ⟨-, hu⟩
  have hdone : Matches (World.work t work) (World.work t work) u u'
      (fun a v a' v' => Q a a' ∧ v.Rearranges v') fun f v f' v' => f' = f ∧ v.Rearranges v' := by
    have hanswers := hwork hu
    by_cases hn : '\x00' ∈ t.toList
    · exact Matches.of_error (by unfold World.work; rw [if_pos hn])
        (by unfold World.work; rw [if_pos hn]) ⟨rfl, hu⟩
    · generalize hx : work u = x at hanswers
      generalize hy : work u' = y at hanswers
      cases hanswers with
      | @ok r r' hQ =>
        obtain ⟨a, files⟩ := r
        obtain ⟨a', files'⟩ := r'
        have hrelated : Rearranges { u with files } { u' with files := files' } :=
          ⟨hQ.2, hu.workingDirectory, hu.changeTime, hu.events, hu.clock⟩
        exact Matches.of_ok (by unfold World.work; rw [if_neg hn, hx])
          (by unfold World.work; rw [if_neg hn, hy]) ⟨hQ.1, hrelated⟩
      | error e =>
        exact Matches.of_error (by unfold World.work; rw [if_neg hn, hx])
          (by unfold World.work; rw [if_neg hn, hy]) ⟨rfl, hu⟩
  apply hdone.bind
  rintro a v a' v' ⟨hQ, hv⟩
  apply (alike_fire .after c t v v' hv).bind
  rintro - x - x' ⟨-, hx⟩
  exact Matches.pure ⟨hQ, hx⟩

theorem alike_looking {look : FileSystem → String → Except Errno α}
    (hlook : ∀ {fs fs' : FileSystem} {cwd : String}, fs.Rearranges fs' → look fs' cwd = look fs cwd) :
    Alike Rearranges (fun _ => Rearranges) (call c t (looking look)) (call c t (looking look)) := by
  intro w w' h
  apply matches_call (Q := fun a a' => a' = a) _ h
  intro w w' h
  unfold looking
  rw [h.workingDirectory, hlook h.files]
  cases look w.files w.workingDirectory with
  | ok a => exact .ok ⟨rfl, h.files⟩
  | error e => exact .error e

/-- A change that makes the same of files but for the order of entries. -/
theorem alike_changing {change : FileSystem → String → Option Float → Except Errno FileSystem}
    (hchange : ∀ {fs fs' : FileSystem} {cwd : String} {time : Option Float}, fs.Rearranges fs' →
      AnswersAlike FileSystem.Rearranges (change fs cwd time) (change fs' cwd time)) :
    Alike Rearranges (fun _ => Rearranges) (call c t (changing change))
      (call c t (changing change)) := by
  intro w w' h
  apply matches_call (Q := fun a a' => a' = a) _ h
  intro w w' h
  unfold changing
  rw [h.workingDirectory, h.changeTime]
  exact (hchange h.files).map fun _ _ hfs => ⟨rfl, hfs⟩

theorem matches_list (h : w.Rearranges w') :
    Matches (environment.list t) (environment.list t) w w'
      (fun names u names' u' => names'.Perm names ∧ u.Rearranges u')
      fun f u f' u' => f' = f ∧ u.Rearranges u' := by
  refine matches_call (c := .list) (t := t)
    (Q := fun names names' : List Name => names'.Perm names) ?_ h
  intro w w' h
  unfold looking
  rw [h.workingDirectory]
  exact h.files.list.map fun _ _ hperm => ⟨hperm, h.files⟩

theorem alike_currentDirectory :
    Alike Rearranges (fun _ => Rearranges) currentDirectory currentDirectory := by
  intro w w' h
  have hstat : w'.files.stat w'.workingDirectory w'.workingDirectory =
      w.files.stat w.workingDirectory w.workingDirectory := by
    rw [h.workingDirectory, h.files.stat_eq]
  cases hrun : w.files.stat w.workingDirectory w.workingDirectory with
  | error e =>
    rw [hrun] at hstat
    exact Matches.of_error (by unfold currentDirectory; rw [hrun])
      (by unfold currentDirectory; rw [hstat]) ⟨rfl, h⟩
  | ok status =>
    rw [hrun] at hstat
    obtain ⟨kind, m⟩ := status
    cases kind with
    | directory =>
      exact Matches.of_ok (by unfold currentDirectory; rw [hrun])
        (by unfold currentDirectory; rw [hstat]) ⟨h.workingDirectory, h⟩
    | file | other | link =>
      exact Matches.of_error (by unfold currentDirectory; rw [hrun])
        (by unfold currentDirectory; rw [hstat]) ⟨rfl, h⟩

theorem now_rearranged (h : w.Rearranges w') :
    (now w').1 = (now w).1 ∧ (now w).2.Rearranges (now w').2 := by
  unfold now
  rw [h.clock]
  exact ⟨rfl, h.files, h.workingDirectory, h.changeTime, h.events, rfl⟩

end World

/-! ### Traces -/

namespace Traced

variable {σ σ' α β : Type} {R : σ → σ' → Prop} {s : Traced σ} {s' : Traced σ'} {c : Call}
  {t : String}

structure Related (R : σ → σ' → Prop) (s : Traced σ) (s' : Traced σ') : Prop where
  state : R s.state s'.state
  trace : s'.trace = s.trace

/-- Calls with like outcomes make the same entries. -/
theorem matches_always {call : EStateM Fault σ α} {call' : EStateM Fault σ' β} {Q : α → β → Prop}
    (h : Matches call call' s.state s'.state (fun a u b u' => Q a b ∧ R u u')
      fun f u f' u' => f' = f ∧ R u u') (hs : s'.trace = s.trace) :
    Matches (always c t call) (always c t call') s s' (fun a u b u' => Q a b ∧ Related R u u')
      fun f u f' u' => f' = f ∧ Related R u u' := by
  rcases h.ok_or_error with ⟨a, u, b, u', hm, hm', hQ, hu⟩ | ⟨f, u, _, u', hm, hm', rfl, hu⟩
  · exact Matches.of_ok (by unfold always; rw [hm]) (by unfold always; rw [hm', hs])
      ⟨hQ, hu, rfl⟩
  · exact Matches.of_error (by unfold always; rw [hm]) (by unfold always; rw [hm', hs])
      ⟨rfl, hu, rfl⟩

variable {call : EStateM Fault σ α} {call' : EStateM Fault σ' α}
  (h : Alike R (fun _ => R) call call')

include h

theorem alike_always :
    Alike (Related R) (fun _ => Related R) (always c t call) (always c t call') :=
  fun s s' hs => matches_always (h s.state s'.state hs.state) hs.trace

theorem alike_onSuccess :
    Alike (Related R) (fun _ => Related R) (onSuccess c t call) (onSuccess c t call') := by
  intro s s' hs
  rcases (h s.state s'.state hs.state).ok_or_error with ⟨a, u, _, u', hm, hm', rfl, hu⟩ |
    ⟨f, u, f', u', hm, hm', hf, hu⟩
  · exact Matches.of_ok (by unfold onSuccess; rw [hm]) (by unfold onSuccess; rw [hm', hs.trace])
      ⟨rfl, hu, rfl⟩
  · have hrun : onSuccess c t call s = .error f ⟨u, s.trace⟩ := by unfold onSuccess; rw [hm]
    have hrun' : onSuccess c t call' s' = .error f' ⟨u', s'.trace⟩ := by unfold onSuccess; rw [hm']
    exact Matches.of_error hrun hrun' ⟨hf, hu, hs.trace⟩

theorem alike_lift : Alike (Related R) (fun _ => Related R) (lift call) (lift call') := by
  intro s s' hs
  rcases (h s.state s'.state hs.state).ok_or_error with ⟨a, u, a', u', hm, hm', ha, hu⟩ |
    ⟨f, u, f', u', hm, hm', hf, hu⟩
  · have hrun : lift call s = .ok a ⟨u, s.trace⟩ := by unfold lift; rw [hm]
    have hrun' : lift call' s' = .ok a' ⟨u', s'.trace⟩ := by unfold lift; rw [hm']
    exact Matches.of_ok hrun hrun' ⟨ha, hu, hs.trace⟩
  · have hrun : lift call s = .error f ⟨u, s.trace⟩ := by unfold lift; rw [hm]
    have hrun' : lift call' s' = .error f' ⟨u', s'.trace⟩ := by unfold lift; rw [hm']
    exact Matches.of_error hrun hrun' ⟨hf, hu, hs.trace⟩

end Traced

namespace World

abbrev TracedAlike : Traced World → Traced World → Prop := Traced.Related Rearranges

theorem traced_looksLike :
    (environment.traced pauseText).LooksLike TracedAlike (fun _ => TracedAlike)
      (environment.traced pauseText) where
  stat _ := Traced.alike_lift (alike_looking fun h => h.stat_eq)
  lstat _ := Traced.alike_lift (alike_looking fun h => h.lstat_eq)
  children _ := Environment.alike_children_of_perm id fun _ _ hs =>
    Traced.matches_always (matches_list hs.state) hs.trace
  workingDirectory := Traced.alike_lift alike_currentDirectory
  related := id
  awaits := id

theorem alike_symlinkTest (test : SymlinkTest) (p : Path) :
    Alike TracedAlike (fun _ => TracedAlike)
      (SymlinkTest.run (environment.traced pauseText) test p)
      (SymlinkTest.run (environment.traced pauseText) test p) := by
  cases test with
  | look => exact (traced_looksLike.lstat p.text).shows id _
  | always | never | named => exact .pure _

end World

end TreeRemoval
