import TreeRemoval.Proofs.Deletion.Efforts
import TreeRemoval.Proofs.Deletion.Enduring
import TreeRemoval.Proofs.Deletion.Turns

/-! # What a stopped walk leaves pending

A report says that there are more failures if the set of failures is full. As a loop, the walk then
has paths left on its stack that it never attempted, except when the failure that filled the set was
the last one that there could be.
-/

namespace TreeRemoval

open Deletion

variable {σ : Type}

/-! ### The rest of a stack -/

section Turns

variable {ι α : Type}

def turnsLeaving (turn : ι → α → Deletion σ (α × List ι)) (stops : α → Bool) :
    ℕ → List ι → α → Deletion σ (Option (α × List ι))
  | _, [], a => return some (a, [])
  | 0, i :: rest, a => return if stops a then some (a, i :: rest) else none
  | n + 1, i :: rest, a => do
    if stops a then return some (a, i :: rest)
    else
      let (a, pushed) ← turn i a
      turnsLeaving turn stops n (pushed ++ rest) a

variable {turn : ι → α → Deletion σ (α × List ι)} {stops : α → Bool}

theorem map_turnsLeaving (n : ℕ) (stack : List ι) (a : α) :
    (·.map Prod.fst) <$> turnsLeaving turn stops n stack a = turns turn stops n stack a := by
  induction n generalizing stack a with
  | zero =>
    cases stack with
    | nil => rfl
    | cons i rest =>
      simp only [turnsLeaving, turns, map_pure]
      split <;> rfl
  | succ n ih =>
    cases stack with
    | nil => rfl
    | cons i rest =>
      simp only [turnsLeaving, turns]
      split
      · rfl
      · rw [map_bind]
        exact bind_congr fun r => ih (r.2 ++ rest) r.1

/-- What each turn keeps, with what it pushes put on the stack, holds when the loop ends, and it
ends with an empty stack or by a stop. -/
theorem ends_turnsLeaving {I : List ι → α → Session σ → Prop}
    (hturn : ∀ {i rest a s}, stops a = false → I (i :: rest) a s →
      Ends (turn i a) s (fun r s' => I (r.2 ++ rest) r.1 s') fun _ _ => True)
    (n : ℕ) {stack : List ι} {a : α} {s : Session σ} (h : I stack a s) :
    Ends (turnsLeaving turn stops n stack a) s
      (fun r s' => ∀ a' left, r = some (a', left) →
        I left a' s' ∧ (left = [] ∨ stops a' = true)) fun _ _ => True := by
  induction n generalizing stack a s with
  | zero =>
    cases stack with
    | nil =>
      refine Ends.pure ?_
      rintro a' left ⟨⟩
      exact ⟨h, Or.inl rfl⟩
    | cons i rest =>
      refine Ends.pure ?_
      intro a' left he
      split at he
      · rename_i hstop
        cases he
        exact ⟨h, Or.inr hstop⟩
      · cases he
  | succ n ih =>
    cases stack with
    | nil =>
      refine Ends.pure ?_
      rintro a' left ⟨⟩
      exact ⟨h, Or.inl rfl⟩
    | cons i rest =>
      unfold turnsLeaving
      cases hstop : stops a with
      | true =>
        refine Ends.pure ?_
        rintro a' left ⟨⟩
        exact ⟨h, Or.inr hstop⟩
      | false => exact Ends.bind (hturn hstop h) fun r s' hr => ih hr

end Turns

/-! ### The stack of a walk -/

/-- The root is at the bottom of the stack, and one of its children is right above it. -/
def Rooted (root : Path) : List (Path × Bool) → Prop
  | [] => True
  | [i] => i.1 = root
  | [i, j] => j.1 = root ∧ ∃ n, i.1 = root.child n
  | _ :: rest => Rooted root rest

namespace Rooted

variable {root p : Path} {i : Path × Bool} {mark mark' : Bool} {rest : List (Path × Bool)}

theorem tail (h : Rooted root (i :: rest)) : Rooted root rest := by
  rcases rest with _ | ⟨j, _ | ⟨k, rest⟩⟩
  · trivial
  · exact h.1
  · exact h

theorem remark (h : Rooted root ((p, mark) :: rest)) : Rooted root ((p, mark') :: rest) := by
  rcases rest with _ | ⟨j, _ | ⟨k, rest⟩⟩ <;> exact h

theorem push {children : List Path} (h : Rooted root ((p, mark) :: rest))
    (hc : ∀ c ∈ children, ∃ n, c = p.child n) :
    Rooted root (children.map (·, false) ++ (p, true) :: rest) := by
  induction children with
  | nil => exact h.remark
  | cons c cs ih =>
    obtain ⟨n, rfl⟩ := hc c List.mem_cons_self
    have hrest := ih fun c' hc' => hc c' (List.mem_cons_of_mem _ hc')
    rcases cs with _ | ⟨c', _ | ⟨c'', cs⟩⟩
    · rcases rest with _ | ⟨j, rest⟩
      · obtain rfl : p = root := hrest
        exact ⟨rfl, n, rfl⟩
      · exact hrest
    · exact hrest
    · exact hrest

theorem exists_ne {j : Path × Bool} (h : Rooted root (i :: j :: rest)) :
    ∃ k ∈ i :: j :: rest, k.1 ≠ root := by
  induction rest generalizing i j with
  | nil =>
    obtain ⟨-, n, hn⟩ := h
    refine ⟨i, List.mem_cons_self, fun he => ?_⟩
    rw [hn] at he
    simpa using congrArg Path.parts he
  | cons k rest ih =>
    obtain ⟨l, hl, hne⟩ := ih h
    exact ⟨l, List.mem_cons_of_mem _ hl, hne⟩

end Rooted

/-- A walk stands so with what is on its stack: if its set of failures is full, then the last act
was for a path that was on top of the stack, and was no root to be kept. -/
structure Standing (root : Path) (includeRoot : Bool) (stack : List (Path × Bool)) (a : Run × Bool)
    (s : Session σ) : Prop where
  rooted : Rooted root stack
  stops : a.2 = a.1.failed.isFull
  last : a.2 = true → ∃ i, Rooted root (i :: stack) ∧ ¬ (i.1 = root ∧ includeRoot = false) ∧
    ∃ act ∈ s.acts.getLast?, act.path = i.1

theorem Course.exists_getLast?_acts (acts : List Act) (p : Path) (c : Course) :
    ∃ act ∈ (acts ++ c.acts p).getLast?, act.path = p := by
  rcases c with r | ⟨e, f⟩ | ⟨e, r⟩
  · exact ⟨.tried p r, by simp [Course.acts], rfl⟩
  · exact ⟨.paused p (.error f), by simp [Course.acts], rfl⟩
  · exact ⟨.tried p r, by simp [Course.acts], rfl⟩

namespace Deleter

variable {d : Deleter σ} {followSymlinks includeRoot : Bool} {root p : Path} {run : Run}
  {s : Session σ}

theorem ends_leave_last (hroom : run.failed.isFull = false) :
    Ends (d.leave root includeRoot p run) s
      (fun r s' => r.2 = r.1.failed.isFull ∧ (r.2 = true → ¬ (p = root ∧ includeRoot = false) ∧
        ∃ act ∈ s'.acts.getLast?, act.path = p)) (fun _ _ => True) := by
  have heffort : Ends (d.deleteNode run (p.descend [])) s
      (fun r s' => r.2 = r.1.failed.isFull ∧ ∃ act ∈ s'.acts.getLast?, act.path = p)
      (fun _ _ => True) := by
    apply (ends_deleteNode_effort (d.attempting_anything _) run trivial (.refl s)).mono _
      fun _ _ _ => trivial
    rintro r s₁ ⟨e, he, hcounted⟩
    refine ⟨hcounted.full_of_room hroom, ?_⟩
    rw [hcounted.rests.acts, Effort.acts, he, Path.descend_nil]
    exact e.course.exists_getLast?_acts s.acts p
  rw [Path.descend_nil] at heffort
  unfold leave
  split
  · exact Ends.pure ⟨hroom.symm, nofun⟩
  rename_i hkept
  apply Ends.bind heffort
  rintro ⟨run₁, full⟩ s₁ ⟨hfull, hlast⟩
  cases full with
  | false => exact Ends.pure ⟨hfull, nofun⟩
  | true =>
    refine Ends.bind (Q := fun _ s' => s'.acts = s₁.acts) (ends_note rfl) ?_
    rintro - s₂ hacts
    exact Ends.pure ⟨hfull, fun _ => ⟨hkept, hacts ▸ hlast⟩⟩

theorem ends_walkTurn_standing {i : Path × Bool} {rest : List (Path × Bool)} {a : Run × Bool}
    (hstop : a.2 = false) (h : Standing root includeRoot (i :: rest) a s) :
    Ends (d.walkTurn followSymlinks root includeRoot i a) s
      (fun r s' => Standing root includeRoot (r.2 ++ rest) r.1 s') fun _ _ => True := by
  obtain ⟨run, _⟩ := a
  obtain rfl := hstop
  obtain ⟨hrooted, hroom, -⟩ := h
  have hanything : ∀ {α : Type} (m : Deletion σ α), Ends m s (fun _ _ => True) fun _ _ => True :=
    fun _ => Ends.intro (fun _ _ _ => trivial) fun _ _ _ => trivial
  unfold walkTurn
  apply Ends.bind (hanything _)
  rintro (_ | _) s₁ -
  · apply Ends.bind (ends_leave_last hroom.symm)
    rintro r s₂ ⟨hfull, hlast⟩
    exact Ends.pure ⟨hrooted.tail, hfull, fun hr => ⟨i, hrooted, (hlast hr).1, (hlast hr).2⟩⟩
  · apply Ends.bind (d.ends_listChildren_child i.1 s₁)
    rintro (_ | children) s₂ hchildren
    · exact Ends.pure ⟨hrooted.tail, hroom, nofun⟩
    · refine Ends.pure ⟨?_, hroom, nofun⟩
      rw [List.append_assoc]
      exact hrooted.push (hchildren children rfl)

/-! ### The walk as a loop -/

def walkLeaving (d : Deleter σ) (followSymlinks : Bool) (root : Path) (includeRoot : Bool) (n : ℕ) :
    Deletion σ (Option ((Run × Bool) × List (Path × Bool))) :=
  turnsLeaving (d.walkTurn followSymlinks root includeRoot) (·.2) n [(root, false)]
    (.start d.maxReported d.maxReported_pos, false)

/-- A walk that comes to its end does so as a loop. The loop ends with an empty stack, or because
the set of failures is full. -/
theorem exists_walkLeaving (hd : d.environment.RefusesLong) {s' : Session σ}
    (h : d.walk followSymlinks root includeRoot s = .ok run s') :
    ∃ n stack, d.walkLeaving followSymlinks root includeRoot n s =
        .ok (some ((run, run.failed.isFull), stack)) s' ∧
      (stack = [] ∨ run.failed.isFull = true) ∧
      Standing root includeRoot stack (run, run.failed.isFull) s' := by
  obtain ⟨n, hn⟩ := exists_walkWithin hd s
  have hwithin : d.walkWithin followSymlinks root includeRoot n s = .ok (some run) s' := by
    rw [hn n le_rfl, map_eq_pure_bind]
    exact bind_of_ok h
  unfold walkWithin at hwithin
  rw [← map_turnsLeaving] at hwithin
  obtain ⟨stopped, hstopped, hrun⟩ := exists_of_map hwithin
  obtain ⟨left, hleft, rfl⟩ := exists_of_map hstopped
  rcases left with _ | ⟨⟨run', full⟩, stack⟩
  · cases hrun
  obtain rfl : run' = run := by simpa using hrun
  have hstart : Standing root includeRoot [(root, false)]
      (.start d.maxReported d.maxReported_pos, false) s :=
    ⟨rfl, (decide_eq_false (Nat.not_le_of_lt d.maxReported_pos)).symm, nofun⟩
  obtain ⟨hstanding, hend⟩ :=
    (ends_turnsLeaving ends_walkTurn_standing n hstart).ok hleft _ _ rfl
  obtain rfl : full = run'.failed.isFull := hstanding.stops
  exact ⟨n, stack, hleft, hend, hstanding⟩

/-! ### Reports -/

/-- The stages of a walk that never fails with a report. -/
def Stages.reportless : Stages σ where
  On _ _ _ _ := True
  Open _ _ _ _ := True
  Ready _ _ _ := True
  Settled _ _ _ := True
  Later _ _ _ _ := True
  Stopped _ _ := True
  Broken e _ := e.report? = none

theorem reportlessTour (d : Deleter σ) (followSymlinks : Bool) (root : Path) (includeRoot : Bool) :
    Tour d followSymlinks root includeRoot Stages.reportless where
  refl _ _ := trivial
  trans _ _ := trivial
  on_later _ _ := trivial
  settled_later _ _ := trivial
  settled_stopped _ _ := trivial
  deep _ := rfl
  opening := by
    rintro depth p run s -
    apply (d.reportless_shouldFollow followSymlinks p s).mono _ fun _ _ h => h
    rintro (_ | _) s' - <;> exact ⟨trivial, trivial⟩
  listing := by
    rintro depth p run s -
    apply (d.reportless_listChildren p s).mono _ fun _ _ h => h
    rintro (_ | children) s' -
    · exact ⟨trivial, trivial⟩
    · exact ⟨trivial, fun _ _ => trivial, fun _ _ _ _ => trivial⟩
  leaving := by
    rintro p run s -
    have hleave : Reportless (d.leave root includeRoot p run) :=
      .of_alike ((d.attempting_anything p).attemptsLike.leave (inStep_same _) root includeRoot run)
    exact (hleave s).mono (fun _ _ _ => ⟨trivial, trivial, fun _ => trivial⟩) fun _ _ h => h

theorem ends_buildReport_moreFailures (startTime : Float) (run : Run) (s : Session σ) :
    Ends (d.buildReport followSymlinks root startTime run) s
      (fun report _ => report.moreFailures = run.failed.isFull) (fun e _ => e.report? = none) := by
  have hlooks := (d.attempting_anything root).attemptsLike.looksLike
  have habreast := (inStep_same fun _ : σ => True).abreast
  have hfill : ∀ descended failedPaths newPaths s,
      Ends (d.fillReport root run descended failedPaths newPaths) s
        (fun report _ => report.moreFailures = run.failed.isFull) (fun e _ => e.report? = none) := by
    intro descended failedPaths newPaths s
    unfold fillReport
    exact Ends.bind (Reportless.perform _ s) fun _ s₁ _ =>
      Ends.bind (Reportless.perform _ s₁) fun _ _ _ => Ends.pure rfl
  have hnew : ∀ excluded, Reportless (d.newPaths followSymlinks startTime excluded root) :=
    fun excluded => .of_alike (hlooks.newPaths habreast excluded root)
  rw [buildReport_eq]
  apply Ends.bind (d.reportless_shouldFollow followSymlinks root s)
  rintro (_ | _) s₁ -
  · exact hfill _ _ _ s₁
  · exact Ends.bind (Reportless.perform _ s₁) fun _ s₂ _ =>
      Ends.bind (hnew _ s₂) fun _ s₃ _ => hfill _ _ _ s₃

theorem ends_finish_moreFailures (d : Deleter σ) {followSymlinks : Bool} {root : Path}
    (startTime : Float) (run : Run) (s : Session σ) :
    Ends (d.finish followSymlinks root startTime run) s (fun _ _ => True)
      (fun e _ => ∀ report, e.report? = some report → report.moreFailures = run.failed.isFull) := by
  unfold finish
  apply Ends.bind (Q := fun _ _ => True) (ends_reading trivial)
  rintro endTime s₁ -
  by_cases hempty : run.failed.isEmpty = true
  · rw [if_pos hempty]
    exact ends_note trivial
  · rw [if_neg hempty]
    apply Ends.seq (ends_buildReport_moreFailures startTime run s₁)
    · exact fun e _ he => Failure.forall_report he
    intro report s₂ hreport
    apply Ends.bind (Q := fun _ _ => True) (ends_note trivial)
    rintro - s₃ -
    apply Ends.seq (Reportless.perform _ s₃)
    · exact fun e _ he => Failure.forall_report he
    rintro place s₄ -
    refine Ends.throw ?_
    split <;> (rintro _ ⟨⟩; exact hreport)

/-- The flag of a report is whether the set of failures was full at the end of the walk. -/
theorem ends_deleteBelow_report (d : Deleter σ) (followSymlinks includeRoot : Bool) (root : Path)
    (s : Session σ) :
    Ends (d.deleteBelow followSymlinks root includeRoot) s (fun _ _ => True)
      (fun e _ => ∀ report, e.report? = some report → ∃ log run s',
        d.walk followSymlinks root includeRoot ⟨(d.now s.state).2, log, s.acts⟩ = .ok run s' ∧
          report.moreFailures = run.failed.isFull) := by
  unfold deleteBelow
  apply Ends.bind (Q := fun _ s' => s' = ⟨(d.now s.state).2, s.log, s.acts⟩) (ends_reading rfl)
  rintro startTime _ rfl
  apply Ends.bind (Q := fun _ s' => ∃ log, s' = ⟨(d.now s.state).2, log, s.acts⟩)
    (ends_note ⟨_, rfl⟩)
  rintro - _ ⟨log, rfl⟩
  cases hwalk : d.walk followSymlinks root includeRoot ⟨(d.now s.state).2, log, s.acts⟩ with
  | error e s' =>
    have hreport : e.report? = none :=
      ((d.reportlessTour followSymlinks root includeRoot).ends_walk trivial).error hwalk
    exact Ends.of_error (bind_of_error hwalk) (Failure.forall_report hreport)
  | ok run s' =>
    apply Ends.bind_ok hwalk
    refine Ends.seq (d.ends_finish_moreFailures startTime run s') ?_ fun _ _ _ => Ends.pure trivial
    exact fun e _ he report hreport => ⟨log, run, s', hwalk, he report hreport⟩

end Deleter

/-- Whatever the environment does, a report on a walk tells of more failures just when some path
other than a root to be kept was left on the stack, or when the set of failures was filled by the
last node that there was: the root, or the last child of a root to be kept. -/
theorem deleteBelow_pending {d : Deleter σ} (hd : d.environment.RefusesLong)
    (followSymlinks includeRoot : Bool) (root : Path) (s : Session σ) :
    Ends (d.deleteBelow followSymlinks root includeRoot) s (fun _ _ => True)
      (fun e _ => ∀ report, e.report? = some report → ∃ n log run stack s',
        d.walkLeaving followSymlinks root includeRoot n ⟨(d.now s.state).2, log, s.acts⟩ =
            .ok (some ((run, run.failed.isFull), stack)) s' ∧
          (report.moreFailures = true ↔
            (∃ i ∈ stack, ¬ (i.1 = root ∧ includeRoot = false)) ∨
              run.failed.isFull = true ∧ (∀ i ∈ stack, i.1 = root ∧ includeRoot = false) ∧
                ∃ act ∈ s'.acts.getLast?, if includeRoot then act.path = root
                  else ∃ n, act.path = root.child n)) := by
  apply (d.ends_deleteBelow_report followSymlinks includeRoot root s).mono fun _ _ _ => trivial
  intro e s₁ h report hreport
  obtain ⟨log, run, s', hwalk, hmore⟩ := h report hreport
  obtain ⟨n, stack, hleaving, hend, hstanding⟩ := Deleter.exists_walkLeaving hd hwalk
  refine ⟨n, log, run, stack, s', hleaving, ?_⟩
  rw [hmore]
  constructor
  · intro hfull
    by_cases hpending : ∃ i ∈ stack, ¬ (i.1 = root ∧ includeRoot = false)
    · exact Or.inl hpending
    have hkept : ∀ i ∈ stack, i.1 = root ∧ includeRoot = false := fun i hi => by
      by_contra h
      exact hpending ⟨i, hi, h⟩
    obtain ⟨i, hrooted, hleft, act, hact, hpath⟩ := hstanding.last hfull
    refine Or.inr ⟨hfull, hkept, act, hact, ?_⟩
    -- Nothing is left, or the kept root alone; below the root there would be more to try.
    rcases stack with _ | ⟨j, _ | ⟨k, rest⟩⟩
    · have hi : i.1 = root := hrooted
      have hinclude : includeRoot = true := by
        by_contra h
        exact hleft ⟨hi, by simpa using h⟩
      rw [if_pos hinclude, hpath, hi]
    · obtain ⟨-, m, hm⟩ := hrooted
      have hinclude : includeRoot ≠ true := by simp [(hkept j List.mem_cons_self).2]
      rw [if_neg hinclude]
      exact ⟨m, hpath.trans hm⟩
    · obtain ⟨l, hl, hne⟩ := hstanding.rooted.exists_ne
      exact absurd (hkept l hl).1 hne
  · rintro (⟨i, hi, -⟩ | ⟨hfull, -⟩)
    · exact hend.resolve_left (List.ne_nil_of_mem hi)
    · exact hfull

def World.sealed : World :=
  .make [.leaf (.ofText "/w/a") .file 0] "/" none
    [{ call := .unlink, path := some "/w/a", disruption := some (.errno .eacces) }] (.ofList [])

theorem deleteBelow_pending_sealed :
    World.environment.RefusesLong ∧
      Ends ((World.deleter false 1 Nat.one_pos).deleteBelow false (.ofText "/w") false)
        ⟨World.sealed, [], []⟩ (fun _ _ => True)
        (fun e _ => ∀ report, e.report? = some report → ∃ n log run stack s',
          (World.deleter false 1 Nat.one_pos).walkLeaving false (.ofText "/w") false n
              ⟨(World.now World.sealed).2, log, []⟩ =
              .ok (some ((run, run.failed.isFull), stack)) s' ∧
            (report.moreFailures = true ↔
              (∃ i ∈ stack, ¬ (i.1 = .ofText "/w" ∧ false = false)) ∨
                run.failed.isFull = true ∧ (∀ i ∈ stack, i.1 = .ofText "/w" ∧ false = false) ∧
                  ∃ act ∈ s'.acts.getLast?, if false then act.path = .ofText "/w"
                    else ∃ n, act.path = (Path.ofText "/w").child n)) :=
  ⟨World.environment_refusesLong,
    deleteBelow_pending World.environment_refusesLong false false (.ofText "/w")
      ⟨World.sealed, [], []⟩⟩

/-- With the directory kept, nothing was left there, and yet the report tells of more failures. -/
example : Ends ((World.deleter false 1 Nat.one_pos).deleteBelow false (.ofText "/w") false)
    ⟨World.sealed, [], []⟩ (fun _ _ => False)
    (fun e _ => e.report?.map (fun report => (report.failedPaths, report.moreFailures)) =
      some (["/w/a"], true)) := by
  decide +kernel

end TreeRemoval
