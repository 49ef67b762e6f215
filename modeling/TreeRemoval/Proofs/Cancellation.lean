import TreeRemoval.Proofs.Attrition
import TreeRemoval.Proofs.Deletion.Enduring
import TreeRemoval.Proofs.Removal

/-! # Cancelled pauses

A deletion whose pauses are cancelled goes on with its walk, and tells of it at the end: it attempts
the same nodes, leaves the same files and reports the same as if the pauses had completed and the
tries after them had been refused, except that it ends as cancelled.
-/

namespace TreeRemoval

open World Deletion

/-! ### Calls on record -/

namespace Chronicle

variable {α : Type} {gc : Bool} {cap : Nat} {hcap : 0 < cap}

/-- A fault speaks of a call on record: one whose text holds a null byte, or one on the path that
the fault names. -/
structure Explains (c : Chronicle World) (f : Fault) : Prop where
  nullByte : f = .nullByte → ∃ t, c.Told t ∧ '\x00' ∈ t.toList
  path : ∀ e t, f = .system e → e.path = some t → c.Told t

theorem explains_nowhere (c : Chronicle World) (errno : Errno) :
    c.Explains (.system ⟨errno, none⟩) := by
  refine ⟨nofun, fun e t hf ht => ?_⟩
  rw [← Fault.system.inj hf] at ht
  cases ht

/-- A world, and a record of the calls on it that explains a fault. -/
def Recounts (f : Fault) (w : World) (c : Chronicle World) : Prop := c.state = w ∧ c.Explains f

theorem alike_call (kind : Call) (t : String) (work : World → Except Errno (α × FileSystem)) :
    Alike (fun w c => c.state = w) Recounts (World.call kind t work)
      (call Interference.none.steps kind t (World.call kind t work)) := by
  rintro _ c rfl
  have hwait : c.wait Interference.none.steps = c := rfl
  have hanything : c.state.Obeys fun _ _ => True :=
    ⟨fun _ => trivial, fun _ _ => trivial, fun _ _ _ _ _ => trivial⟩
  refine ((matches_call hwait kind t _).and_ends (hanything.ends_call work)).mono ?_ ?_
  · rintro _ w _ _ ⟨⟨rfl, rfl⟩, -⟩
    exact ⟨rfl, rfl⟩
  · rintro _ w f _ ⟨⟨rfl, rfl⟩, herror⟩
    have htold : (c.enter ⟨kind, t, some f⟩ w).Told t := (tells_enter _ _ w).told
    obtain ⟨refuses, hcause⟩ : ∃ refuses, Cause c.state kind t refuses f := by
      rcases herror with ⟨w₁, -, -, hcause⟩ | ⟨-, hs⟩
      · exact ⟨_, hcause⟩
      · exact ⟨fun _ => False, .struck hs⟩
    refine ⟨rfl, rfl, ?_, ?_⟩
    · rintro rfl
      cases hcause with
      | nullByte hn => exact ⟨t, htold, hn⟩
      | struck hs => exact absurd rfl hs.ne_nullByte
    · rintro e t' rfl ht
      rw [hcause.path_eq] at ht
      exact Option.some.inj ht ▸ htold

theorem alike_currentDirectory :
    Alike (fun w c => c.state = w) Recounts currentDirectory (lift currentDirectory) := by
  rintro _ c rfl
  cases hw : currentDirectory c.state with
  | ok a w => exact Matches.of_ok hw (by unfold lift; rw [hw]) ⟨rfl, rfl⟩
  | error f w =>
    refine Matches.of_error hw (by unfold lift; rw [hw]) ⟨rfl, rfl, ?_⟩
    unfold currentDirectory at hw
    split at hw
    · cases hw
    · cases hw
      exact explains_nowhere _ _

theorem recounts_awaited {f : Fault} {w : World} {c : Chronicle World} (h : Recounts f w c) :
    Recounts f.awaited w c := by
  refine ⟨h.1, ?_⟩
  cases f with
  | system e =>
    obtain ⟨errno, path⟩ := e
    cases errno with
    | etimedout => exact explains_nowhere _ _
    | _ => exact h.2
  | nullByte | cancelled | interrupted => exact h.2

theorem chronicler_attemptsLike (p : Path) :
    (World.deleter gc cap hcap).AttemptsLike (fun w c => c.state = w) Recounts
      (World.chronicler .none gc cap hcap) p where
  stat t := alike_call .stat t _
  lstat t := alike_call .lstat t _
  children q := Environment.alike_children recounts_awaited (alike_call .list q.text _)
  rmdir := alike_call .rmdir p.text _
  unlink := alike_call .unlink p.text _
  workingDirectory := alike_currentDirectory
  pause := alike_call .pause pauseText _
  collect := alike_call .collect "" _
  isSymlink q := (alike_call .lstat q.text _).shows And.left _
  now := by
    rintro _ c rfl
    exact ⟨rfl, rfl⟩
  maxReported := rfl
  collectsGarbage := rfl
  related h := h.1
  awaits := recounts_awaited

end Chronicle

namespace World

variable {w : World} {followSymlinks : Bool} {root p : Path} {fs : FileSystem} {gc : Bool} {cap : Nat}
  {hcap : 0 < cap} {status : Status}

/-- A walk comes to a path, which leads to a node at first if its text is fit. -/
structure Comes (w : World) (root : Path) (depth : Nat) (p : Path) : Prop where
  fits : p.Fits depth
  below : ∃ names, p = root.descend names
  leads : Unfit p.text ∨ ∃ loc, w.files.locate false p = .ok loc

theorem comesRoute (hp : root.Proper) (ha : root.isAbsolute = true) (followSymlinks : Bool) :
    Route w followSymlinks (w.Comes root) (· ≤ w.files) where
  proper := by
    rintro depth - ⟨-, ⟨names, rfl⟩, -⟩
    exact hp.descend names
  isAbsolute := by
    rintro depth - ⟨-, ⟨names, rfl⟩, -⟩
    exact ha
  child := by
    rintro fs depth - place n hk ⟨hfits, ⟨names, rfl⟩, -⟩ hop hn
    have hleads := FileSystem.locate_mono hk hop.leads (by simp [hop.directory])
    exact ⟨hfits.child ha (FileSystem.text_le_of_locate hop.leads) n, ⟨names ++ [n], by simp⟩,
      FileSystem.unfit_or_locate_child (hp.descend names) ha hleads (hk _ _ hop.directory) n⟩
  removes := fun hk _ hrem => le_trans hrem.le hk

/-- If a look at a path has failed where a node was at first, a call was on an unfit text. -/
theorem OnlySetbacks.overlong (h : w.OnlySetbacks) (hle : fs ≤ w.files)
    (hleads : Unfit p.text ∨ ∃ loc, w.files.locate false p = .ok loc) {c : Chronicle World} {f : Fault}
    (hwhy : w.Escapes p.text (.fault f) ∨ ∃ err, f = .system err ∧ w.Refuses fs p err.errno ∧
      (err.errno ≠ .etimedout → err.path = some p.text))
    (hf : c.Explains f) : c.Overlong := by
  rcases hwhy with hescapes | ⟨err, rfl, ⟨hm, hrefused⟩, hpath⟩
  · cases (h.escapes hescapes).1
    obtain ⟨t, htold, hn⟩ := hf.nullByte rfl
    exact htold.overlong (Or.inl hn)
  have hlocate : fs.locate false p = .error err.errno :=
    hrefused.resolve_left fun ⟨moment, place, hs⟩ => h.not_mayBlind (by decide) ⟨moment, _, hs⟩
  have htold : c.Told p.text :=
    hf.path err p.text rfl (hpath fun he => FileSystem.locate_ne_etimedout (he ▸ hlocate))
  rcases hleads with hu | ⟨loc, hloc⟩
  · exact htold.overlong hu
  · rw [FileSystem.isMissing_of_locate hle hloc hlocate] at hm
    cases hm

/-- A deletion that fails does so with a report, unless a call was on an unfit text. -/
theorem OnlySetbacks.ends_deleteTree_reported (h : w.OnlySetbacks) (hp : root.Proper)
    (ha : root.isAbsolute = true)
    (hthere : w.files.lstat w.workingDirectory root.text = .ok status) {log : List Log.Entry}
    (hfits : Ends ((chronicler .none gc cap hcap).deleteTree followSymlinks root)
      ⟨.start w, log, []⟩ (fun _ s => ¬ s.state.Overlong) fun _ s => ¬ s.state.Overlong) :
    Ends ((deleter gc cap hcap).deleteTree followSymlinks root) ⟨w, log, []⟩ (fun _ _ => True)
      (fun e _ => e.report? ≠ none) := by
  obtain ⟨loc, -, hloc, -⟩ := (FileSystem.lstat_eq_ok_iff hp ha).1 hthere
  have hroot : w.Comes root maxDepth root :=
    ⟨Path.fits_maxDepth ha, ⟨[], by simp⟩, Or.inr ⟨loc, hloc⟩⟩
  have hsession : Session.Alike (fun w c => c.state = w) ⟨w, log, []⟩ ⟨Chronicle.start w, log, []⟩ :=
    ⟨rfl, rfl, rfl⟩
  apply Ends.intro fun _ _ _ => trivial
  intro e s hrun hnone
  -- With its calls on record the run fails alike, and the record explains a fault.
  obtain ⟨s', hrun', hexplains⟩ : ∃ s', (chronicler .none gc cap hcap).deleteTree followSymlinks root
      ⟨.start w, log, []⟩ = .error e s' ∧ ∀ f, e = .fault f → s'.state.Explains f := by
    rcases (Deleter.matches_deleteTree_of_alike Chronicle.chronicler_attemptsLike inStep_alike hsession
      followSymlinks root).ok_or_error with ⟨b, t, b', t', hok, -⟩ |
        ⟨e', t, _, t', herr, herr', rfl, -, hfault⟩
    · rw [hok] at hrun; cases hrun
    · rw [herr] at hrun
      cases hrun
      exact ⟨t', herr', fun f hf => (hfault f hf).2⟩
  apply hfits.error hrun'
  -- Without a report, it was the scan for new paths or the look at the root that failed.
  rcases ((comesRoute hp ha followSymlinks).ends_deleteTree h.calm (.refl w) (le_refl w.files)
    hroot).error hrun with hfails | ⟨-, f, rfl, w', hlook⟩
  · rcases hfails.reason with ⟨-, interrupted, place, report, rfl, -⟩ | ⟨-, excluded, hscan⟩
    · cases interrupted <;> cases hnone
    rcases hscan with ⟨-, q, hq⟩ | ⟨depth, q, hq, hwhy⟩
    · exact absurd hq.fits.1 (by omega)
    rcases hwhy with hescapes | ⟨err, rfl, hrefuses, -, -, hpath⟩
    · obtain ⟨rfl, -⟩ := h.escapes hescapes
      exact h.overlong hfails.keeps hq.leads (Or.inl hescapes) (hexplains _ rfl)
    · exact h.overlong hfails.keeps hq.leads (Or.inr ⟨err, rfl, hrefuses, hpath⟩) (hexplains _ rfl)
  · exact h.overlong (le_refl w.files) hroot.leads
      ((ends_look?_refused h.calm hp ha).error hlook).2.2 (hexplains _ rfl)

end World

/-- What two runs leave behind, the first one with cancelled pauses and the second one with tries
that were refused instead: the same world, after attempts on the same nodes. -/
structure LeavesSame {σ : Type} (s : Session σ) (s' : Session (σ × Bool)) : Prop where
  state : s'.state = (s.state, false)
  acts : Act.Endured s.acts s'.acts
  nodes : Act.nodes s'.acts = Act.nodes s.acts

theorem Twins.leavesSame {σ : Type} {J : σ → Prop} {c : Prop} {s : Session σ}
    {s' : Session (σ × Bool)} (h : Twins J c s s') : LeavesSame s s' :=
  ⟨h.state, h.acts, h.acts.nodes_eq⟩

/-- A deletion ends as cancelled exactly if a pause of its walk was cancelled, and its report says
so. Beside it goes the deletion whose pauses complete and whose tries after them are refused: it
attempts the same nodes in the same order, leaves the same files, and either both succeed or their
reports differ at most on whether a pause was cancelled. All this as long as the deletion makes no
call on an unfit text. -/
theorem deleteTree_endures {w : World} (h : w.OnlySetbacks) {root : String}
    (ha : (Path.ofText root).isAbsolute = true) {status : Status}
    (hthere : w.files.lstat w.workingDirectory (Path.ofText root).text = .ok status)
    {refusal : String → Errno} (hrefusal : ∀ t, refusal t ≠ .enoent)
    {followSymlinks collectsGarbage : Bool} {cap : Nat} {hcap : 0 < cap} {log : List Log.Entry}
    (hfits : Ends ((World.chronicler .none collectsGarbage cap hcap).deleteTree followSymlinks
      (.ofText root)) ⟨.start w, log, []⟩ (fun _ s => ¬ s.state.Overlong)
      fun _ s => ¬ s.state.Overlong)
    (log' : List Log.Entry) :
    Matches ((World.deleter collectsGarbage cap hcap).deleteTree followSymlinks (.ofText root))
      (((World.deleter collectsGarbage cap hcap).enduring refusal).deleteTree followSymlinks
        (.ofText root)) ⟨w, log, []⟩ ⟨(w, false), log', []⟩
      (fun b s b' s' => b' = b ∧ LeavesSame s s' ∧ ¬ ∃ a ∈ s.acts, a.IsCancelled)
      (fun e s e' s' => LeavesSame s s' ∧ ∃ place report,
        e = .ofReport report.interrupted place report ∧
        e' = .incomplete place { report with interrupted := false } ∧
        (report.interrupted = true ↔ ∃ a ∈ s.acts, a.IsCancelled)) := by
  have hp := Path.proper_ofText root
  have hstart : Enduring w.Follows (.start cap hcap) (.start cap hcap) ⟨w, log, []⟩
      ⟨(w, false), log', []⟩ :=
    ⟨⟨rfl, .refl w, .nil, by simp [Run.start]⟩, rfl, nofun⟩
  apply ((Deleter.matches_deleteTree h hrefusal ha hstart).and_ends
    (h.ends_deleteTree_reported hp ha hthere hfits)).mono
  · rintro b s b' s' ⟨⟨rfl, run, run', hnone, hs⟩, -⟩
    exact ⟨rfl, hs.leavesSame, fun hc => hs.failed (hs.cancelled.1 hc) hnone⟩
  · rintro e s e' s' ⟨hfails, hreport⟩
    cases hfails with
    | faulty he =>
      obtain ⟨-, run, run', he⟩ := he
      exact absurd he.report hreport
    | @reported run run' place report he he' hi hs =>
      have hcalm : run'.interrupted = false := by rw [hs.same]
      rw [hcalm] at he'
      exact ⟨hs.leavesSame, place, report, hi ▸ he, he', hi ▸ hs.cancelled.symm⟩

/-- A file that cannot be removed, and pauses that are cancelled. -/
def World.hasty : World :=
  .make [.leaf (.ofText "/w/a") .file 0] "/" none
    [{ call := .unlink, path := some "/w/a", disruption := some (.errno .eacces) },
      { call := .pause, disruption := some .cancel }] (.ofList [])

theorem deleteTree_endures_hasty :
    World.hasty.OnlySetbacks ∧ (Path.ofText "/w").isAbsolute = true ∧
      World.hasty.files.lstat World.hasty.workingDirectory (Path.ofText "/w").text =
        .ok ⟨.directory, 0⟩ ∧
      (∀ _ : String, Errno.eacces ≠ .enoent) ∧
      Ends ((World.chronicler .none false 1 Nat.one_pos).deleteTree false (.ofText "/w"))
        ⟨.start World.hasty, [], []⟩ (fun _ s => ¬ s.state.Overlong)
        (fun _ s => ¬ s.state.Overlong) ∧
      ∃ e s s' place report, (World.deleter false 1 Nat.one_pos).deleteTree false (.ofText "/w")
          ⟨World.hasty, [], []⟩ = .error e s ∧
        ((World.deleter false 1 Nat.one_pos).enduring fun _ => .eacces).deleteTree false
            (.ofText "/w") ⟨(World.hasty, false), [], []⟩ =
          .error (.incomplete place { report with interrupted := false }) s' ∧
        e = .ofReport report.interrupted place report ∧ report.interrupted = true ∧
        LeavesSame s s' := by
  have hs : World.hasty.OnlySetbacks := by
    intro e he
    change e ∈ [_, _] at he
    simp only [List.mem_cons, List.not_mem_nil, or_false] at he
    rcases he with rfl | rfl
    · exact ⟨rfl, Or.inl ⟨by decide, rfl, .eacces, rfl⟩⟩
    · exact ⟨rfl, Or.inr ⟨rfl, rfl⟩⟩
  have ha : (Path.ofText "/w").isAbsolute = true := by decide
  have hthere : World.hasty.files.lstat World.hasty.workingDirectory (Path.ofText "/w").text =
      .ok ⟨.directory, 0⟩ := by rfl
  have hrefusal : ∀ _ : String, Errno.eacces ≠ .enoent := fun _ => by decide
  have hfits : Ends ((World.chronicler .none false 1 Nat.one_pos).deleteTree false (.ofText "/w"))
      ⟨.start World.hasty, [], []⟩ (fun _ s => ¬ s.state.Overlong)
      fun _ s => ¬ s.state.Overlong := by decide +kernel
  have hcancelled : Ends ((World.deleter false 1 Nat.one_pos).deleteTree false (.ofText "/w"))
      ⟨World.hasty, [], []⟩ (fun _ _ => False)
      fun e _ => e.report?.any (·.interrupted) = true := by decide +kernel
  rcases (deleteTree_endures hs ha hthere hrefusal hfits []).ok_or_error
    with ⟨b, s, b', s', hrun, -⟩ | ⟨e, s, e', s', hrun, hrun', hsame, place, report, he, rfl, -⟩
  · exact (hcancelled.ok hrun).elim
  · have hi := hcancelled.error hrun
    refine ⟨hs, ha, hthere, hrefusal, hfits, e, s, s', place, report, hrun, hrun', he, ?_, hsame⟩
    rw [he] at hi
    cases h : report.interrupted with
    | true => rfl
    | false => simp [Failure.ofReport, Failure.report?, h] at hi

/-- A file with a name that no call takes, in a directory that is not listed at first, and pauses
that are cancelled. -/
def World.garbledHasty : World :=
  .make [.leaf (.ofText "/w/a\x00b") .file 0] "/" none
    [{ call := .list, path := some "/w", times := some 1, disruption := some (.errno .eacces) },
      { call := .pause, disruption := some .cancel }] (.ofList [])

/-- Readable names are needed: otherwise a deletion may fail with a fault after a pause was
cancelled. -/
theorem deleteTree_endures_garbled :
    World.garbledHasty.OnlySetbacks ∧ (Path.ofText "/w").isAbsolute = true ∧
      World.garbledHasty.files.lstat World.garbledHasty.workingDirectory (Path.ofText "/w").text =
        .ok ⟨.directory, 0⟩ ∧
      World.garbledHasty.files.get? (.ofText "/w") = some World.garbledTree ∧
      (Path.ofText "/w").WithinLimits World.garbledTree ∧
      ∃ e s, (World.deleter false 1 Nat.one_pos).deleteTree false (.ofText "/w")
          ⟨World.garbledHasty, [], []⟩ = .error e s ∧
        (∃ a ∈ s.acts, a.IsCancelled) ∧ ∀ place report, e ≠ .cancelled place report := by
  have hs : World.garbledHasty.OnlySetbacks := by
    intro e he
    change e ∈ [_, _] at he
    simp only [List.mem_cons, List.not_mem_nil, or_false] at he
    rcases he with rfl | rfl
    · exact ⟨rfl, Or.inl ⟨by decide, rfl, .eacces, rfl⟩⟩
    · exact ⟨rfl, Or.inr ⟨rfl, rfl⟩⟩
  have hlimits : (Path.ofText "/w").WithinLimits World.garbledTree :=
    Path.withinLimits_of_single (by decide) (by decide) (by decide)
  refine ⟨hs, by decide, rfl, rfl, hlimits, ?_⟩
  have hfault : Ends ((World.deleter false 1 Nat.one_pos).deleteTree false (.ofText "/w"))
      ⟨World.garbledHasty, [], []⟩ (fun _ _ => False)
      fun e s => e.report? = none ∧ ∃ a ∈ s.acts, a.IsCancelled := by decide +kernel
  cases hrun : (World.deleter false 1 Nat.one_pos).deleteTree false (.ofText "/w")
      ⟨World.garbledHasty, [], []⟩ with
  | ok _ _ => exact (hfault.ok hrun).elim
  | error e s =>
    obtain ⟨hnone, hcancelled⟩ := hfault.error hrun
    refine ⟨e, s, rfl, hcancelled, ?_⟩
    rintro place report rfl
    cases hnone

end TreeRemoval
