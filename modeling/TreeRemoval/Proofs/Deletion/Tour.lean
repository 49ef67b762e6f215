import TreeRemoval.Deletion.Tree
import TreeRemoval.Proofs.Computation

/-! # Tours

A rule for walks against any environment. What is known at each stage of a visit is given by
predicates: when the walk comes to a path, when the path has been found open, when all below it has
been visited, and when it has been attempted itself. If every step leads from one stage to the next,
then so does the walk from start to finish.
-/

namespace TreeRemoval

open Deletion

variable {σ : Type}

theorem Deleter.leave_kept (d : Deleter σ) (root : Path) (run : Run) (s : Session σ) :
    d.leave root false root run s = .ok (run, false) s := by
  unfold leave
  rw [if_pos ⟨rfl, rfl⟩]
  rfl

/-- What is known at the stages of a visit. -/
structure Stages (σ : Type) where
  /-- The walk may come to a path with so many levels left. -/
  On : Nat → Path → Run → Session σ → Prop
  /-- The path is walked into, with so many levels left for its children. -/
  Open : Nat → Path → Run → Session σ → Prop
  /-- All below the path has been visited. -/
  Ready : Path → Run → Session σ → Prop
  Settled : Path → Run → Session σ → Prop
  /-- How the walk goes on. -/
  Later : Run → Session σ → Run → Session σ → Prop
  /-- The walk may be stopped. -/
  Stopped : Run → Session σ → Prop
  /-- The walk may fail. -/
  Broken : Failure → Session σ → Prop

structure Stages.Visited (k : Stages σ) (p : Path) (run : Run) (s : Session σ) (r : Run × Bool)
    (s' : Session σ) : Prop where
  later : k.Later run s r.1 s'
  settled : k.Settled p r.1 s'
  stopped : r.2 = true → k.Stopped r.1 s'

/-- Every step of a walk leads from one stage to the next. -/
structure Tour (d : Deleter σ) (followSymlinks : Bool) (root : Path) (includeRoot : Bool)
    (k : Stages σ) : Prop where
  refl : ∀ run s, k.Later run s run s
  trans : ∀ {run s run' s' run'' s''}, k.Later run s run' s' → k.Later run' s' run'' s'' →
    k.Later run s run'' s''
  on_later : ∀ {depth p run s run' s'}, k.On depth p run s → k.Later run s run' s' →
    k.On depth p run' s'
  settled_later : ∀ {p run s run' s'}, k.Settled p run s → k.Later run s run' s' →
    k.Settled p run' s'
  /-- When a walk is stopped, nothing more is asked of any path. -/
  settled_stopped : ∀ {run s}, k.Stopped run s → ∀ p, k.Settled p run s
  deep : ∀ {p run s}, k.On 0 p run s → k.Broken .tooDeep s
  opening : ∀ {depth p run s}, k.On (depth + 1) p run s →
    Ends (d.shouldFollow followSymlinks p) s
      (fun b s' => k.Later run s run s' ∧ if b then k.Open depth p run s' else k.Ready p run s')
      k.Broken
  listing : ∀ {depth p run s}, k.Open depth p run s →
    Ends (d.listChildren p) s
      (fun r s' => k.Later run s run s' ∧
        match r with
        | none => k.Settled p run s'
        | some children => (∀ c ∈ children, k.On depth c run s') ∧
            ∀ run' s'', k.Later run s' run' s'' → (∀ c ∈ children, k.Settled c run' s'') →
              k.Ready p run' s'')
      k.Broken
  leaving : ∀ {p run s}, k.Ready p run s →
    Ends (d.leave root includeRoot p run) s (k.Visited p run s) k.Broken

namespace Tour

variable {d : Deleter σ} {followSymlinks : Bool} {root : Path} {includeRoot : Bool} {k : Stages σ}
  {depth : Nat} {p : Path} {run run' : Run} {s s' s'' : Session σ} {r : Run × Bool}

variable (h : Tour d followSymlinks root includeRoot k)

include h

theorem visited_later (hl : k.Later run s run' s') (hv : k.Visited p run' s' r s'') :
    k.Visited p run s r s'' :=
  ⟨h.trans hl hv.later, hv.settled, hv.stopped⟩

theorem ends_visitEach {visit : Path → Run → Deletion σ (Run × Bool)} {children : List Path}
    (hv : ∀ c ∈ children, ∀ run s, k.On depth c run s →
      Ends (visit c run) s (k.Visited c run s) k.Broken)
    (hon : ∀ c ∈ children, k.On depth c run s) :
    Ends (Deleter.visitEach visit children run) s
      (fun r s' => k.Later run s r.1 s' ∧ (∀ c ∈ children, k.Settled c r.1 s') ∧
        (r.2 = true → k.Stopped r.1 s'))
      k.Broken := by
  induction children generalizing run s with
  | nil => exact Ends.pure ⟨h.refl run s, by simp, nofun⟩
  | cons c rest ih =>
    unfold Deleter.visitEach
    apply Ends.bind (hv c List.mem_cons_self run s (hon c List.mem_cons_self))
    rintro ⟨run₁, stop⟩ s₁ ⟨hlater, hsettled, hstopped⟩
    cases stop with
    | true => exact Ends.pure ⟨hlater, fun c' _ => h.settled_stopped (hstopped rfl) c', hstopped⟩
    | false =>
      apply (ih (fun c' hc => hv c' (List.mem_cons_of_mem _ hc))
        fun c' hc => h.on_later (hon c' (List.mem_cons_of_mem _ hc)) hlater).mono
      · rintro r s₂ ⟨hlater₂, hrest, hstopped₂⟩
        refine ⟨h.trans hlater hlater₂, fun c' hc => ?_, hstopped₂⟩
        rcases List.mem_cons.1 hc with rfl | hc
        · exact h.settled_later hsettled hlater₂
        · exact hrest c' hc
      · exact fun e s₂ hb => hb

/-- A visit settles its path. -/
theorem ends_visit (hon : k.On depth p run s) :
    Ends (d.visit followSymlinks root includeRoot depth p run) s (k.Visited p run s) k.Broken := by
  -- The induction is on the levels that are left; a walk may also run out of them.
  induction depth generalizing p run s with
  | zero => exact Ends.throw (h.deep hon)
  | succ depth ih =>
    have hleave : ∀ {run' s'}, k.Later run s run' s' → k.Ready p run' s' →
        Ends (d.leave root includeRoot p run') s' (k.Visited p run s) k.Broken := fun hl hready =>
      (h.leaving hready).mono (fun _ _ hv => h.visited_later hl hv) fun _ _ hb => hb
    unfold Deleter.visit
    apply Ends.bind (h.opening hon)
    rintro (_ | _) s₁ ⟨hl₁, hstage⟩
    · exact hleave hl₁ hstage
    apply Ends.bind (h.listing hstage)
    rintro (_ | children) s₂ ⟨hl₂, hlisted⟩
    · exact Ends.pure ⟨h.trans hl₁ hl₂, hlisted, nofun⟩
    obtain ⟨hchildren, hready⟩ := hlisted
    have hl := h.trans hl₁ hl₂
    apply Ends.bind (h.ends_visitEach (fun c _ run s hc => ih hc) hchildren)
    rintro ⟨run₃, stop⟩ s₃ ⟨hl₃, hsettled, hstopped⟩
    cases stop with
    | true => exact Ends.pure ⟨h.trans hl hl₃, h.settled_stopped (hstopped rfl) p, hstopped⟩
    | false => exact hleave (h.trans hl hl₃) (hready run₃ s₃ hl₃ hsettled)

theorem ends_walk
    (hon : k.On maxDepth root { failed := .empty d.maxReported d.maxReported_pos } s) :
    Ends (d.walk followSymlinks root includeRoot) s
      (fun run s' => k.Later { failed := .empty d.maxReported d.maxReported_pos } s run s' ∧
        k.Settled root run s') k.Broken := by
  unfold Deleter.walk
  apply Ends.bind (h.ends_visit hon)
  rintro r s' hv
  exact Ends.pure ⟨hv.later, hv.settled⟩

end Tour

end TreeRemoval
