import TreeRemoval.Proofs.Deletion.Looking

/-! # Deletions side by side

Two deleters that look alike at files differ in their attempts at most. As long as the steps that
leave a path keep two walks in step, the walks come to the same paths, and the reports that follow
tell the same of them, except of cancelled pauses.
-/

namespace TreeRemoval

open Deletion

variable {σ σ' α : Type} {R : σ → σ' → Prop} {E : Fault → σ → σ' → Prop}

/-- Two walks stay in step as far as looks are concerned. What is done in the two is the same,
except that one may count fewer pauses as cancelled. -/
structure Parallel (d : Deleter σ) (d' : Deleter σ') (R : σ → σ' → Prop)
    (E : Fault → σ → σ' → Prop) (P : Run → Run → Session σ → Session σ' → Prop) : Prop where
  looks : d.LooksLike R E d'
  abreast : ∀ run run', Abreast R (P run run')
  run : ∀ {run run' s s'}, P run run' s s' → run' = { run with interrupted := run'.interrupted }
  conclude : ∀ {run run' s s' fields} {report : Report}, report.interrupted = run.interrupted →
    P run run' s s' →
    P run run'
      { s with log := s.log ++
        [⟨.error, "Tree deletion failed", fields ++ Deleter.failureSummary report⟩] }
      { s' with log := s'.log ++
        [⟨.error, "Tree deletion failed",
          fields ++ Deleter.failureSummary { report with interrupted := run'.interrupted }⟩] }

namespace Parallel

variable {d : Deleter σ} {d' : Deleter σ'} {P : Run → Run → Session σ → Session σ' → Prop}
  {On : Path → Prop} {followSymlinks : Bool} {root p : Path} {includeRoot : Bool} {run run' : Run}
  {s : Session σ} {s' : Session σ'}

def Onwards (P : Run → Run → Session σ → Session σ' → Prop) (r : Run × Bool) (s : Session σ)
    (r' : Run × Bool) (s' : Session σ') : Prop :=
  r'.2 = r.2 ∧ P r.1 r'.1 s s'

def Faulty (P : Run → Run → Session σ → Session σ' → Prop) (E : Fault → σ → σ' → Prop)
    (e : Failure) (s : Session σ) (e' : Failure) (s' : Session σ') : Prop :=
  e' = e ∧ ∃ run run', Handed (P run run') E e s s'

/-- Both deletions fail, alike without a report or with reports that differ at most on whether a
pause was cancelled. -/
inductive Failing (P : Run → Run → Session σ → Session σ' → Prop) (E : Fault → σ → σ' → Prop)
    (e : Failure) (s : Session σ) (e' : Failure) (s' : Session σ') : Prop
  | faulty (h : Faulty P E e s e' s')
  | reported {run run' : Run} {place : String} {report : Report}
      (he : e = .ofReport run.interrupted place report)
      (he' : e' = .ofReport run'.interrupted place { report with interrupted := run'.interrupted })
      (hi : report.interrupted = run.interrupted) (h : P run run' s s')

theorem matches_visitEach {visit : Path → Run → Deletion σ (Run × Bool)}
    {visit' : Path → Run → Deletion σ' (Run × Bool)} {children : List Path}
    (hvisit : ∀ c ∈ children, ∀ {run run' s s'}, P run run' s s' →
      Matches (visit c run) (visit' c run') s s' (Onwards P) (Faulty P E))
    (h : P run run' s s') :
    Matches (Deleter.visitEach visit children run) (Deleter.visitEach visit' children run') s s'
      (Onwards P) (Faulty P E) := by
  induction children generalizing run run' s s' with
  | nil => exact Matches.pure ⟨rfl, h⟩
  | cons c rest ih =>
    unfold Deleter.visitEach
    apply (hvisit c List.mem_cons_self h).bind
    rintro ⟨run₁, _⟩ t ⟨run₁', stop⟩ t' ⟨rfl, h₁⟩
    cases stop with
    | true => exact Matches.pure ⟨rfl, h₁⟩
    | false => exact ih (fun c' hc => hvisit c' (List.mem_cons_of_mem _ hc)) h₁

variable (hpar : Parallel d d' R E P)

include hpar

theorem matches_of_alike {m : Deletion σ α} {m' : Deletion σ' α}
    (hm : ∀ {S : Session σ → Session σ' → Prop}, Abreast R S → StepsAlike S E m m')
    (h : P run run' s s') :
    Matches m m' s s' (fun a t a' t' => a' = a ∧ P run run' t t') (Faulty P E) :=
  (hm (hpar.abreast run run') s s' h).mono (fun _ _ _ _ h => h)
    fun _ _ _ _ he => ⟨he.1, run, run', he.2⟩

/-- If the steps that leave a path keep two walks in step, so do their visits. -/
theorem matches_visit (hchild : ∀ {p}, On p → ∀ n, On (p.child n))
    (hleave : ∀ {p run run' s s'}, On p → P run run' s s' →
      Matches (d.leave root includeRoot p run) (d'.leave root includeRoot p run') s s'
        (Onwards P) (Faulty P E))
    {depth : Nat} (hon : On p) (h : P run run' s s') :
    Matches (d.visit followSymlinks root includeRoot depth p run)
      (d'.visit followSymlinks root includeRoot depth p run') s s' (Onwards P) (Faulty P E) := by
  -- Both walks run out of levels at the same path, and fail alike there.
  induction depth generalizing p run run' s s' with
  | zero => exact Matches.throw ⟨rfl, run, run', h, rfl, nofun⟩
  | succ depth ih =>
    unfold Deleter.visit
    apply (hpar.matches_of_alike (fun hS => hpar.looks.shouldFollow hS followSymlinks p) h).bind
    rintro _ t follow t' ⟨rfl, h₁⟩
    cases follow with
    | false => exact hleave hon h₁
    | true =>
      have hlist := hpar.matches_of_alike (fun hS => hpar.looks.listChildren hS p) h₁
      apply (hlist.and_ends (d.ends_listChildren_child p t)).seq fun _ _ _ _ he => he.1
      rintro _ t₁ listed t₁' ⟨⟨rfl, h₂⟩, hlisted⟩
      cases listed with
      | none => exact Matches.pure ⟨rfl, h₂⟩
      | some children =>
        have hvisit : ∀ c ∈ children, ∀ {run run' s s'}, P run run' s s' →
            Matches (d.visit followSymlinks root includeRoot depth c run)
              (d'.visit followSymlinks root includeRoot depth c run') s s' (Onwards P)
              (Faulty P E) := by
          intro c hc run run' s s' h
          obtain ⟨n, rfl⟩ := hlisted children rfl c hc
          exact ih (hchild hon n) h
        apply (matches_visitEach hvisit h₂).bind
        rintro ⟨run₃, _⟩ t₃ ⟨run₃', stop⟩ t₃' ⟨rfl, h₃⟩
        cases stop with
        | true => exact Matches.pure ⟨rfl, h₃⟩
        | false => exact hleave hon h₃

theorem matches_finish (h : P run run' s s') (startTime : Float) :
    Matches (d.finish followSymlinks root startTime run)
      (d'.finish followSymlinks root startTime run') s s'
      (fun _ t _ t' => run.failed.items = [] ∧ P run run' t t') (Failing P E) := by
  have hrun := hpar.run h
  have hfailed : run'.failed = run.failed := by rw [hrun]
  unfold Deleter.finish
  apply (hpar.matches_of_alike (fun hS => hS.reading hpar.looks.now) h).seq
    fun _ _ _ _ he => .faulty he
  rintro _ t endTime t' ⟨rfl, h₁⟩
  have hsummary : Deleter.summary root startTime endTime run' =
      Deleter.summary root startTime endTime run := by rw [hrun]; rfl
  rw [hsummary, hfailed]
  by_cases hempty : run.failed.isEmpty = true
  · rw [if_pos hempty, if_pos hempty]
    exact Matches.of_ok rfl rfl ⟨List.isEmpty_iff.1 hempty, (hpar.abreast run run').note _ h₁⟩
  · rw [if_neg hempty, if_neg hempty]
    apply (hpar.looks.buildReport (hpar.abreast run run') h₁ hrun followSymlinks root startTime).seq
      fun _ _ _ _ he => .faulty ⟨he.1, run, run', he.2⟩
    rintro report t₂ _ t₂' ⟨hi, rfl, h₂⟩
    refine Matches.bind (Q := fun _ t _ t' => P run run' t t')
      (Matches.of_ok rfl rfl (hpar.conclude hi h₂)) ?_
    rintro - t₃ - t₃' h₃
    apply (hpar.matches_of_alike (fun hS => hpar.looks.absolute hS root) h₃).seq
      fun _ _ _ _ he => .faulty he
    rintro _ t₄ place t₄' ⟨rfl, h₄⟩
    exact Matches.throw (.reported rfl rfl hi h₄)

variable (hchild : ∀ {p}, On p → ∀ n, On (p.child n))
  (hleave : ∀ {p run run' s s'}, On p → P run run' s s' →
    Matches (d.leave root includeRoot p run) (d'.leave root includeRoot p run') s s'
      (Onwards P) (Faulty P E))
  (hon : On root)

include hchild hleave hon

theorem matches_deleteBelow
    (h : P (.start d.maxReported d.maxReported_pos) (.start d'.maxReported d'.maxReported_pos)
      s s') :
    Matches (d.deleteBelow followSymlinks root includeRoot)
      (d'.deleteBelow followSymlinks root includeRoot) s s'
      (fun run t run' t' => run.failed.items = [] ∧ P run run' t t') (Failing P E) := by
  unfold Deleter.deleteBelow
  apply (hpar.matches_of_alike (fun hS => hS.reading hpar.looks.now) h).seq
    fun _ _ _ _ he => .faulty he
  rintro _ t startTime t' ⟨rfl, h₁⟩
  apply (hpar.matches_of_alike (fun hS => hS.noteBoth _ _ _) h₁).seq fun _ _ _ _ he => .faulty he
  rintro _ t₁ _ t₁' ⟨-, h₂⟩
  unfold Deleter.walk
  apply Matches.bind (Q := fun run t run' t' => P run run' t t')
  · apply (hpar.matches_visit hchild hleave hon h₂).seq fun _ _ _ _ he => .faulty he
    rintro r t₃ r' t₃' ⟨-, h₃⟩
    exact Matches.pure h₃
  · intro run t₃ run' t₃' h₃
    apply (hpar.matches_finish h₃ startTime).bind
    rintro _ t₄ _ t₄' h₄
    exact Matches.pure h₄

omit hleave in
theorem matches_deleteTree
    (hleave : ∀ {p run run' s s'}, On p → P run run' s s' →
      Matches (d.leave root true p run) (d'.leave root true p run') s s' (Onwards P) (Faulty P E))
    (h : P (.start d.maxReported d.maxReported_pos) (.start d'.maxReported d'.maxReported_pos)
      s s') :
    Matches (d.deleteTree followSymlinks root) (d'.deleteTree followSymlinks root) s s'
      (fun b t b' t' => b' = b ∧ ∃ run run', run.failed.items = [] ∧ P run run' t t')
      (Failing P E) := by
  unfold Deleter.deleteTree
  have hlook := hpar.looks.looks.look? root.text
  apply (hpar.matches_of_alike (fun hS => hpar.looks.perform hS hlook) h).seq
    fun _ _ _ _ he => .faulty he
  rintro _ t found t' ⟨rfl, h₁⟩
  cases found with
  | none =>
    apply (hpar.matches_of_alike (fun hS => hS.noteBoth _ _ _) h₁).seq fun _ _ _ _ he => .faulty he
    rintro _ t₂ _ t₂' ⟨-, h₂⟩
    exact Matches.pure ⟨rfl, _, _, rfl, h₂⟩
  | some status =>
    apply (hpar.matches_deleteBelow hchild hleave hon h₁).bind
    rintro run t₂ run' t₂' ⟨hnone, h₂⟩
    exact Matches.pure ⟨rfl, run, run', hnone, h₂⟩

end Parallel

namespace Deleter

variable {S : Session σ → Session σ' → Prop} {d : Deleter σ} {d' : Deleter σ'} {s : Session σ}
  {s' : Session σ'}

theorem parallel_of_alike (h : ∀ p, d.AttemptsLike R E d' p) (hS : InStep R S) :
    Parallel d d' R E fun run run' s s' => run' = run ∧ S s s' where
  looks := (h ⟨.root, []⟩).looksLike
  abreast run run' :=
    { state := fun hs => hS.state hs.2
      move := fun hs ht => ⟨hs.1, hS.move hs.2 ht⟩
      note := fun entry hs => ⟨hs.1, hS.note entry hs.2⟩ }
  run := by
    rintro run _ s s' ⟨rfl, -⟩
    rfl
  conclude := by
    rintro run _ s s' fields report hi ⟨rfl, hs⟩
    rw [← hi]
    exact ⟨rfl, hS.note _ hs⟩

theorem start_eq_of_alike (h : ∀ p, d.AttemptsLike R E d' p) (root : Path) :
    Run.start d'.maxReported d'.maxReported_pos = Run.start d.maxReported d.maxReported_pos := by
  unfold Run.start
  rw [(h root).looksLike.empty_eq]

theorem matches_leave_of_alike (h : ∀ p, d.AttemptsLike R E d' p) (hS : InStep R S) {root p : Path}
    {includeRoot : Bool} {run run' : Run} (hs : run' = run ∧ S s s') :
    Matches (d.leave root includeRoot p run) (d'.leave root includeRoot p run') s s'
      (Parallel.Onwards fun run run' s s' => run' = run ∧ S s s')
      (Parallel.Faulty (fun run run' s s' => run' = run ∧ S s s') E) := by
  obtain ⟨rfl, hs⟩ := hs
  apply ((h p).leave hS root includeRoot run' s s' hs).mono
  · rintro r t _ t' ⟨rfl, ht⟩
    exact ⟨rfl, rfl, ht⟩
  · rintro e t _ t' ⟨rfl, he⟩
    exact ⟨rfl, run', run', ⟨rfl, he.related⟩, he.report, he.fault⟩

theorem alike_of_failing {e e' : Failure}
    (h : Parallel.Failing (fun run run' s s' => run' = run ∧ S s s') E e s e' s') :
    e' = e ∧ S s s' ∧ ∀ f, e = .fault f → E f s.state s'.state := by
  cases h with
  | faulty he =>
    obtain ⟨rfl, run, run', he⟩ := he
    exact ⟨rfl, he.related.2, he.fault⟩
  | @reported run run' place report he he' hi hP =>
    obtain ⟨rfl, hs⟩ := hP
    rw [← hi] at he he'
    refine ⟨he'.trans he.symm, hs, fun f hf => ?_⟩
    rw [he] at hf
    cases hinterrupted : report.interrupted <;> rw [hinterrupted] at hf <;> cases hf

theorem matches_deleteBelow_of_alike (h : ∀ p, d.AttemptsLike R E d' p) (hS : InStep R S)
    (hs : S s s') (followSymlinks : Bool) (root : Path) (includeRoot : Bool) :
    Matches (d.deleteBelow followSymlinks root includeRoot)
      (d'.deleteBelow followSymlinks root includeRoot) s s'
      (fun run t run' t' => run' = run ∧ S t t')
      fun e t e' t' => e' = e ∧ S t t' ∧ ∀ f, e = .fault f → E f t.state t'.state := by
  have hanywhere : True → Name → True := fun _ _ => trivial
  exact ((parallel_of_alike h hS).matches_deleteBelow hanywhere
    (fun _ hs => matches_leave_of_alike h hS hs) trivial ⟨start_eq_of_alike h root, hs⟩).mono
    (fun _ _ _ _ h => h.2) fun _ _ _ _ => alike_of_failing

/-- The deletion of a tree ends alike if all paths are attempted alike. -/
theorem matches_deleteTree_of_alike (h : ∀ p, d.AttemptsLike R E d' p) (hS : InStep R S)
    (hs : S s s') (followSymlinks : Bool) (root : Path) :
    Matches (d.deleteTree followSymlinks root) (d'.deleteTree followSymlinks root) s s'
      (fun b t b' t' => b' = b ∧ S t t')
      fun e t e' t' => e' = e ∧ S t t' ∧ ∀ f, e = .fault f → E f t.state t'.state := by
  have hanywhere : True → Name → True := fun _ _ => trivial
  exact ((parallel_of_alike h hS).matches_deleteTree hanywhere trivial
    (fun _ hs => matches_leave_of_alike h hS hs) ⟨start_eq_of_alike h root, hs⟩).mono
    (fun _ _ _ _ ⟨hb, _, _, _, ht⟩ => ⟨hb, ht.2⟩) fun _ _ _ _ => alike_of_failing

/-- The emptying of a target ends alike if directories are made alike as well. -/
theorem matches_ensureEmpty_of_alike (h : ∀ p, d.AttemptsLike R (fun _ => R) d' p)
    (hm : ∀ t, Alike R (fun _ => R) (d.environment.mkdir t) (d'.environment.mkdir t))
    (hS : InStep R S) (hs : S s s') (followSymlinks : Bool) (target : Path) :
    AlikeAt S (fun _ => S) (d.ensureEmpty followSymlinks target)
      (d'.ensureEmpty followSymlinks target) s s' := by
  have hlooks := (h target).looksLike
  have hmake := hlooks.perform hS.abreast (hlooks.looks.ensureDirectory hm target)
  unfold Deleter.ensureEmpty
  apply (hlooks.perform hS.abreast (hlooks.looks.look? target.text) s s' hs).seq
    fun _ _ _ _ he => ⟨he.1, he.2.related⟩
  rintro _ t found t' ⟨rfl, ht⟩
  cases found with
  | none =>
    apply (hmake t t' ht).seq fun _ _ _ _ he => ⟨he.1, he.2.related⟩
    rintro - t₁ - t₁' ⟨-, ht₁⟩
    exact Matches.pure ⟨rfl, ht₁⟩
  | some status =>
    apply (hlooks.shouldFollow hS.abreast followSymlinks target t t' ht).seq
      fun _ _ _ _ he => ⟨he.1, he.2.related⟩
    rintro _ t₁ kept t₁' ⟨rfl, ht₁⟩
    cases kept with
    | true =>
      apply (matches_deleteBelow_of_alike h hS ht₁ followSymlinks target false).seq
        fun _ _ _ _ he => ⟨he.1, he.2.1⟩
      rintro run t₂ _ t₂' ⟨rfl, ht₂⟩
      exact Matches.pure ⟨rfl, ht₂⟩
    | false =>
      apply (matches_deleteTree_of_alike h hS ht₁ followSymlinks target).seq
        fun _ _ _ _ he => ⟨he.1, he.2.1⟩
      rintro - t₂ - t₂' ⟨-, ht₂⟩
      apply (hmake t₂ t₂' ht₂).seq fun _ _ _ _ he => ⟨he.1, he.2.related⟩
      rintro - t₃ - t₃' ⟨-, ht₃⟩
      exact Matches.pure ⟨rfl, ht₃⟩

end Deleter

end TreeRemoval
