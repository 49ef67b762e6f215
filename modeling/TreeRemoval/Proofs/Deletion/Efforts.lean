import TreeRemoval.Proofs.Deletion.Rests

/-! # Efforts of a walk

A walk makes one effort after the other, each for one node below its root: a try, and perhaps a
pause and a second try. Whatever the environment does, the efforts of a walk come in post-order,
what was done is what they consist of, and what the walk has counted and collected is the sum of
them.
-/

namespace TreeRemoval

open Deletion

variable {σ : Type}

/-! ### Post-order -/

/-- The order in which a walk attempts paths below its root: what lies below a path comes before it,
and where two paths part, their names decide. -/
inductive Precedes : List Name → List Name → Prop
  | below (names : List Name) (n : Name) (rest : List Name) : Precedes (names ++ n :: rest) names
  | beside (common : List Name) {m n : Name} (h : m.text < n.text) (rest rest' : List Name) :
      Precedes (common ++ m :: rest) (common ++ n :: rest')

theorem Precedes.ne {names names' : List Name} (h : Precedes names names') : names ≠ names' := by
  cases h with
  | below n rest => simp
  | beside common h rest rest' =>
    intro he
    obtain ⟨rfl, -⟩ := List.cons.inj (List.append_cancel_left he)
    exact String.lt_irrefl _ h

/-! ### Efforts -/

/-- How an effort for one node went: a single try, a try whose pause was broken off, or a pause
between two tries. -/
inductive Course where
  | once (result : Except Fault Bool)
  | paused (e : SystemError) (f : Fault)
  | twice (e : SystemError) (result : Except Fault Bool)

namespace Course

def acts (p : Path) : Course → List Act
  | once result => [.tried p result]
  | paused e f => [.tried p (.error (.system e)), .paused p (.error f)]
  | twice e result => [.tried p (.error (.system e)), .paused p (.ok ()), .tried p result]

def firstTry : Course → Except Fault Bool
  | once result => result
  | paused e _ | twice e _ => .error (.system e)

def removed : Course → Nat
  | once (.ok removed) | twice _ (.ok removed) => removed.toNat
  | _ => 0

def pauses : Course → Nat
  | once _ => 0
  | paused .. | twice .. => 1

def isCancelled : Course → Bool
  | paused _ .cancelled => true
  | _ => false

inductive Yields : Course → Attempt → Prop
  | first (removed : Bool) : Yields (once (.ok removed)) (.first removed)
  | second (e : SystemError) (removed : Bool) : Yields (twice e (.ok removed)) (.second removed)
  | stuck (e e' : SystemError) (place : String) :
      Yields (twice e (.error (.system e'))) (.stuck place e')
  | abandoned (e : SystemError) : Yields (paused e .cancelled) (.abandoned e)

end Course

/-- What a walk did for the node at some names below its root. A failure is booked under a text. -/
structure Effort where
  names : List Name
  course : Course
  booked : Option String := none

namespace Effort

def acts (root : Path) (e : Effort) : List Act := e.course.acts (root.descend e.names)

/-- The effort came to its end: some try told that nothing is there any more, or a failure was
booked after a second failing try or a cancelled pause. -/
inductive Settled : Effort → Prop
  | once (names : List Name) (removed : Bool) : Settled ⟨names, .once (.ok removed), none⟩
  | twice (names : List Name) (e : SystemError) (removed : Bool) :
      Settled ⟨names, .twice e (.ok removed), none⟩
  | stuck (names : List Name) (e e' : SystemError) (place : String) :
      Settled ⟨names, .twice e (.error (.system e')), some place⟩
  | abandoned (names : List Name) (e : SystemError) (place : String) :
      Settled ⟨names, .paused e .cancelled, some place⟩

def count (run : Run) (e : Effort) : Run where
  failed := e.booked.elim run.failed run.failed.insert
  interrupted := e.course.isCancelled || run.interrupted
  deleted := run.deleted + e.course.removed
  retries := run.retries + e.course.pauses
  failures := run.failures + e.booked.toList.length

def countAll (run : Run) (efforts : List Effort) : Run := efforts.foldl count run

@[simp] theorem countAll_nil (run : Run) : countAll run [] = run := rfl

@[simp] theorem countAll_cons (run : Run) (e : Effort) (rest : List Effort) :
    countAll run (e :: rest) = countAll (e.count run) rest := rfl

@[simp] theorem countAll_append (run : Run) (efforts efforts' : List Effort) :
    countAll run (efforts ++ efforts') = countAll (countAll run efforts) efforts' :=
  List.foldl_append

/-- Each effort begins while there is room for another failure. -/
def Roomy (run : Run) : List Effort → Prop
  | [] => True
  | e :: rest => run.failed.isFull = false ∧ Roomy (e.count run) rest

theorem roomy_append {run : Run} {efforts efforts' : List Effort} :
    Roomy run (efforts ++ efforts') ↔
      Roomy run efforts ∧ Roomy (countAll run efforts) efforts' := by
  induction efforts generalizing run with
  | nil => simp [Roomy]
  | cons e rest ih => simp [Roomy, ih, and_assoc]

theorem Roomy.eq_of_full {run : Run} {efforts front : List Effort} (h : Roomy run efforts)
    (hstarts : front <+: efforts) (hfull : (countAll run front).failed.isFull = true) :
    front = efforts := by
  obtain ⟨back, rfl⟩ := hstarts
  cases back with
  | nil => rw [List.append_nil]
  | cons e rest =>
    have hroom := (roomy_append.1 h).2.1
    rw [hfull] at hroom
    cases hroom

end Effort

/-! ### Listings -/

def Environment.ListsOnce (env : Environment σ) : Prop :=
  ∀ t s, Ends (env.list t) s (fun names _ => names.Nodup) fun _ _ => True

theorem World.environment_listsOnce : environment.ListsOnce := by
  intro t w
  have hanything : w.Obeys fun _ _ => True :=
    ⟨fun _ => trivial, fun _ _ => trivial, fun _ _ _ _ _ => trivial⟩
  apply (hanything.ends_looking fun files cwd => files.list cwd t).mono
  · rintro names w' ⟨-, w₁, -, -, hl⟩
    exact FileSystem.nodup_of_list hl
  · exact fun _ _ _ => trivial

/-- Children are listed by their names, each of which comes before the next. -/
theorem Deleter.ends_listChildren_ascending {d : Deleter σ} (hd : d.environment.ListsOnce) (p : Path)
    (s : Session σ) :
    Ends (d.listChildren p) s
      (fun r _ => ∀ children, r = some children →
        ∃ names : List Name, children = names.map p.child ∧ names.Pairwise (·.text < ·.text))
      (fun _ _ => True) := by
  have hsorted : ∀ {names : List Name}, names.Nodup →
      (names.mergeSort fun a b => a.text ≤ b.text).Pairwise (·.text < ·.text) := by
    intro names hnames
    have hdistinct := (List.mergeSort_perm names fun a b => a.text ≤ b.text).nodup_iff.2 hnames
    refine ((Name.pairwise_mergeSort names).and hdistinct).imp ?_
    rintro a b ⟨hle, hne⟩
    exact Std.lt_of_le_of_ne hle fun he => hne (Name.ext he)
  unfold listChildren
  apply Ends.bind (Q := fun r _ => ∀ children, r = .ok children →
    ∃ names : List Name, children = names.map p.child ∧ names.Pairwise (·.text < ·.text))
  · refine ends_observe (Ends.bind ((hd p.text s.state).mono (fun _ _ h => h) ?_).awaited ?_)
    · rintro f s' - children ⟨⟩
    · rintro names s' hnames
      refine Ends.pure ?_
      rintro _ ⟨⟩
      exact ⟨_, rfl, hsorted hnames⟩
  rintro (f | children) s' h
  · cases f with
    | system e =>
      dsimp only
      split
      · exact Ends.bind (Q := fun _ _ => True) (ends_note trivial) fun _ _ _ => Ends.pure nofun
      · refine Ends.bind (Q := fun _ _ => True) (ends_note trivial) fun _ _ _ => Ends.pure ?_
        rintro _ ⟨⟩
        exact ⟨[], rfl, .nil⟩
    | nullByte | cancelled | interrupted => exact Ends.throw trivial
  · refine Ends.pure ?_
    rintro _ ⟨⟩
    exact h children rfl

namespace Deleter

variable (d : Deleter σ) {acts : List Act} {endings : List Log.Entry}

/-! ### One effort -/

theorem acts_tryOnce (p : Path) {s : Session σ} (hs : s.Rests acts endings) :
    Ends (d.tryOnce p) s
      (fun r s' => s'.Rests (acts ++ [.tried p (r.mapError .system)]) endings)
      (fun _ s' => ∃ f, s'.Rests (acts ++ [.tried p (.error f)]) endings) := by
  unfold tryOnce
  apply Ends.bind (Session.Rests.observe _ hs)
  intro r s₁ h₁
  apply Ends.bind (Session.Rests.record _ h₁)
  rintro - s₂ h₂
  cases r with
  | ok removed => exact Ends.pure h₂
  | error f =>
    cases f with
    | system e => exact Ends.pure h₂
    | nullByte | cancelled | interrupted => exact Ends.throw ⟨_, h₂⟩

theorem acts_attempt (p : Path) {s : Session σ} (hs : s.Rests acts endings) :
    Ends (d.attempt p) s
      (fun r s' => ∃ course : Course, course.Yields r ∧ s'.Rests (acts ++ course.acts p) endings)
      (fun _ s' => ∃ course : Course, s'.Rests (acts ++ course.acts p) endings) := by
  unfold attempt
  apply Ends.seq (d.acts_tryOnce p hs)
  · rintro - s₁ ⟨f, h₁⟩
    exact ⟨.once (.error f), h₁⟩
  rintro (e | removed) s₁ h₁
  rotate_left
  · exact Ends.pure ⟨_, .first removed, h₁⟩
  apply Ends.seq (d.rests_absolute p s₁ h₁)
  · exact fun _ s₂ h₂ => ⟨.once (.error (.system e)), h₂⟩
  intro place s₂ h₂
  apply Ends.seq (Session.Rests.note (by simp [toString]) s₂ h₂)
  · exact fun _ s₃ h₃ => ⟨.once (.error (.system e)), h₃⟩
  rintro - s₃ h₃
  apply Ends.bind (Session.Rests.observe _ h₃)
  intro r s₄ h₄
  apply Ends.bind (Session.Rests.record _ h₄)
  rintro - s₅ h₅
  rw [List.append_assoc] at h₅
  cases r with
  | error f =>
    cases f with
    | cancelled => exact Ends.pure ⟨_, .abandoned e, h₅⟩
    | system | nullByte | interrupted => exact Ends.throw ⟨.paused e _, h₅⟩
  | ok =>
    have h₅ : s₅.Rests (acts ++ [.tried p (.error (.system e)), .paused p (.ok ())]) endings := h₅
    have htwice : ∀ {r : Except Fault Bool} {s₆ : Session σ},
        s₆.Rests (acts ++ [.tried p (.error (.system e)), .paused p (.ok ())] ++ [.tried p r])
          endings → s₆.Rests (acts ++ (Course.twice e r).acts p) endings := by
      intro r s₆ h₆
      rw [List.append_assoc] at h₆
      exact h₆
    apply Ends.seq (d.acts_tryOnce p h₅)
    · rintro - s₆ ⟨f, h₆⟩
      exact ⟨_, htwice h₆⟩
    rintro (e' | removed) s₆ h₆
    · apply Ends.seq (d.rests_absolute p s₆ (htwice h₆))
      · exact fun _ s₇ h₇ => ⟨_, h₇⟩
      · exact fun place s₇ h₇ => Ends.pure ⟨_, .stuck e e' place, h₇⟩
    · exact Ends.pure ⟨_, .second e removed, htwice h₆⟩

/-- In some state that is kept, the environment takes a text for the absolute form of a path. -/
def Names (J : σ → Prop) (p : Path) (t : String) : Prop :=
  ∃ s s', J s.state ∧ d.absolute p s = .ok t s'

variable {d} {J : σ → Prop}

theorem ends_absolute_names (h : d.Looking J) (p : Path) {s : Session σ} (hs : J s.state)
    (hrests : s.Rests acts endings) :
    Ends (d.absolute p) s
      (fun t s' => d.Names J p t ∧ J s'.state ∧ s'.Rests acts endings)
      (fun _ s' => J s'.state ∧ s'.Rests acts endings) := by
  refine (((h.keeps_absolute p s hs).and (d.rests_absolute p s hrests)).and
    (Ends.intro (Q := fun t _ => d.Names J p t) (E := fun _ _ => True) ?_ fun _ _ _ => trivial)).mono
    (fun _ _ h => ⟨h.2, h.1⟩) fun _ _ h => h.1
  exact fun t s' ht => ⟨s, s', hs, ht⟩

/-- An effort for a node has been made and counted. -/
structure Counted (d : Deleter σ) (J : σ → Prop) (root : Path) (acts : List Act)
    (endings : List Log.Entry) (run : Run) (e : Effort) (r : Run × Bool) (s' : Session σ) :
    Prop where
  settled : e.Settled
  told : ∀ t ∈ e.booked, d.Names J (root.descend e.names) t
  run : r.1 = e.count run
  full : r.2 = (e.booked.isSome && r.1.failed.isFull)
  keeps : J s'.state
  rests : s'.Rests (acts ++ e.acts root) endings

theorem Counted.full_of_room {root : Path} {run : Run} {e : Effort} {r : Run × Bool}
    {s' : Session σ} (h : d.Counted J root acts endings run e r s')
    (hroom : run.failed.isFull = false) : r.2 = r.1.failed.isFull := by
  rw [h.full]
  cases hb : e.booked with
  | some place => rfl
  | none => simp [h.run, Effort.count, hb, hroom]

theorem ends_book_effort {root : Path} {names : List Name} (h : d.Looking J) {course : Course}
    {run run' : Run} (hsettled : ∀ place, Effort.Settled ⟨names, course, some place⟩)
    (hcount : ∀ place,
      { run' with failures := run'.failures + 1, failed := run'.failed.insert place } =
        Effort.count run ⟨names, course, some place⟩)
    {s : Session σ} (hs : J s.state)
    (hrests : s.Rests (acts ++ course.acts (root.descend names)) endings) :
    Ends (deleteNode.book d (root.descend names) run') s
      (fun r s' => ∃ e : Effort, e.names = names ∧ d.Counted J root acts endings run e r s')
      (fun _ s' => ∃ course : Course, J s'.state ∧
        s'.Rests (acts ++ course.acts (root.descend names)) endings) := by
  unfold deleteNode.book
  apply Ends.seq (ends_absolute_names h _ hs hrests) fun _ _ he => ⟨course, he⟩
  rintro place s' ⟨hnames, hs', hrests'⟩
  refine Ends.pure ⟨⟨names, course, some place⟩, rfl, hsettled place, ?_, hcount place, rfl, hs',
    hrests'⟩
  rintro _ ⟨⟩
  exact hnames

/-- An attempt on a node is one effort. -/
theorem ends_deleteNode_effort {root : Path} {names : List Name}
    (h : d.Attempting J (root.descend names)) (run : Run) {s : Session σ} (hs : J s.state)
    (hrests : s.Rests acts endings) :
    Ends (d.deleteNode run (root.descend names)) s
      (fun r s' => ∃ e : Effort, e.names = names ∧ d.Counted J root acts endings run e r s')
      (fun _ s' => ∃ course : Course, J s'.state ∧
        s'.Rests (acts ++ course.acts (root.descend names)) endings) := by
  unfold deleteNode
  apply Ends.seq ((h.keeps_attempt s hs).and (d.acts_attempt _ hrests))
  · rintro - s₁ ⟨hs₁, course, h₁⟩
    exact ⟨course, hs₁, h₁⟩
  rintro r s₁ ⟨hs₁, course, hyields, h₁⟩
  cases hyields with
  | first removed => exact Ends.pure ⟨_, rfl, .once names removed, nofun, rfl, rfl, hs₁, h₁⟩
  | second e removed => exact Ends.pure ⟨_, rfl, .twice names e removed, nofun, rfl, rfl, hs₁, h₁⟩
  | stuck e e' place => exact ends_book_effort h.looking (.stuck names e e') (fun _ => rfl) hs₁ h₁
  | abandoned e =>
    have hfails : ∀ {s' : Session σ}, J s'.state ∧ s'.Rests (acts ++ (Course.paused e .cancelled).acts
        (root.descend names)) endings → ∃ course : Course, J s'.state ∧
          s'.Rests (acts ++ course.acts (root.descend names)) endings := fun he => ⟨_, he⟩
    apply Ends.seq (ends_absolute_names h.looking _ hs₁ h₁) fun _ _ => hfails
    rintro place s₂ ⟨-, hs₂, h₂⟩
    apply Ends.seq ((Keeps.note _ _ _ s₂ hs₂).and (Session.Rests.note (by simp) s₂ h₂))
      fun _ _ => hfails
    rintro - s₃ ⟨hs₃, h₃⟩
    apply Ends.seq (ends_absolute_names h.looking _ hs₃ h₃) fun _ _ => hfails
    rintro - s₄ ⟨-, hs₄, h₄⟩
    exact ends_book_effort h.looking (.abandoned names e) (fun _ => rfl) hs₄ h₄

/-! ### Efforts in a row -/

/-- Part of a walk has made some efforts, in post-order, at names of some kind, and each while there
was room for another failure. -/
structure Made (d : Deleter σ) (J : σ → Prop) (root : Path) (On : List Name → Prop) (run : Run)
    (s : Session σ) (efforts : List Effort) (s' : Session σ) : Prop where
  keeps : J s'.state
  rests : s'.Rests (s.acts ++ efforts.flatMap (Effort.acts root)) s.endings
  on : ∀ e ∈ efforts, On e.names
  ordered : (efforts.map Effort.names).Pairwise Precedes
  roomy : Effort.Roomy run efforts
  told : ∀ e ∈ efforts, ∀ t ∈ e.booked, d.Names J (root.descend e.names) t

/-- Part of a walk has come to its end with all its efforts settled. -/
def Done (d : Deleter σ) (J : σ → Prop) (root : Path) (On : List Name → Prop) (run : Run)
    (s : Session σ) (r : Run × Bool) (s' : Session σ) : Prop :=
  ∃ efforts, d.Made J root On run s efforts s' ∧ (∀ e ∈ efforts, e.Settled) ∧
    r.1 = Effort.countAll run efforts ∧ r.2 = r.1.failed.isFull

/-- Part of a walk has been broken off, perhaps amid its last effort. -/
def Broken (d : Deleter σ) (J : σ → Prop) (root : Path) (On : List Name → Prop) (run : Run)
    (s s' : Session σ) : Prop :=
  ∃ efforts, d.Made J root On run s efforts s' ∧ ∀ e ∈ efforts.dropLast, e.Settled

section Made

variable {root : Path} {On On' : List Name → Prop} {run run₁ : Run} {s s₁ s' : Session σ}
  {efforts efforts' : List Effort} {r : Run × Bool}

theorem Made.nil (hs : J s'.state) (h : s'.Rests s.acts s.endings) :
    d.Made J root On run s [] s' where
  keeps := hs
  rests := by simpa using h
  on := by simp
  ordered := .nil
  roomy := trivial
  told := by simp

theorem Made.singleton {e : Effort} (hs : J s'.state)
    (h : s'.Rests (s.acts ++ e.acts root) s.endings) (hon : On e.names)
    (hroom : run.failed.isFull = false) (htold : ∀ t ∈ e.booked, d.Names J (root.descend e.names) t) :
    d.Made J root On run s [e] s' where
  keeps := hs
  rests := by simpa using h
  on := by simpa using hon
  ordered := List.pairwise_singleton ..
  roomy := ⟨hroom, trivial⟩
  told := by simpa using htold

theorem Made.mono (h : d.Made J root On run s efforts s') (hon : ∀ names, On names → On' names) :
    d.Made J root On' run s efforts s' :=
  { h with on := fun e he => hon _ (h.on e he) }

theorem Made.after (h : d.Made J root On run s₁ efforts s') (hrests : s₁.Rests s.acts s.endings) :
    d.Made J root On run s efforts s' :=
  { h with rests := hrests.acts ▸ hrests.endings ▸ h.rests }

theorem Made.append (h : d.Made J root On run s efforts s₁)
    (h' : d.Made J root On' (Effort.countAll run efforts) s₁ efforts' s')
    (hbefore : ∀ names names', On names → On' names' → Precedes names names') :
    d.Made J root (fun names => On names ∨ On' names) run s (efforts ++ efforts') s' where
  keeps := h'.keeps
  rests := by
    obtain ⟨hacts, hendings⟩ := h'.rests
    refine ⟨?_, hendings.trans h.rests.endings⟩
    rw [hacts, h.rests.acts, List.flatMap_append, List.append_assoc]
  on := by
    intro e he
    rcases List.mem_append.1 he with he | he
    · exact Or.inl (h.on e he)
    · exact Or.inr (h'.on e he)
  ordered := by
    rw [List.map_append, List.pairwise_append]
    refine ⟨h.ordered, h'.ordered, ?_⟩
    simp only [List.mem_map]
    rintro _ ⟨e, he, rfl⟩ _ ⟨e', he', rfl⟩
    exact hbefore _ _ (h.on e he) (h'.on e' he')
  roomy := Effort.roomy_append.2 ⟨h.roomy, h'.roomy⟩
  told := by
    intro e he
    rcases List.mem_append.1 he with he | he
    · exact h.told e he
    · exact h'.told e he

theorem Done.mono (h : d.Done J root On run s r s') (hon : ∀ names, On names → On' names) :
    d.Done J root On' run s r s' := by
  obtain ⟨efforts, hmade, hrest⟩ := h
  exact ⟨efforts, hmade.mono hon, hrest⟩

theorem Broken.mono (h : d.Broken J root On run s s') (hon : ∀ names, On names → On' names) :
    d.Broken J root On' run s s' := by
  obtain ⟨efforts, hmade, hrest⟩ := h
  exact ⟨efforts, hmade.mono hon, hrest⟩

theorem Done.after (h : d.Done J root On run s₁ r s') (hrests : s₁.Rests s.acts s.endings) :
    d.Done J root On run s r s' := by
  obtain ⟨efforts, hmade, hrest⟩ := h
  exact ⟨efforts, hmade.after hrests, hrest⟩

theorem Broken.after (h : d.Broken J root On run s₁ s') (hrests : s₁.Rests s.acts s.endings) :
    d.Broken J root On run s s' := by
  obtain ⟨efforts, hmade, hrest⟩ := h
  exact ⟨efforts, hmade.after hrests, hrest⟩

theorem Broken.of_rests (hs : J s'.state) (h : s'.Rests s.acts s.endings) :
    d.Broken J root On run s s' :=
  ⟨[], .nil hs h, by simp⟩

theorem Done.keeps (h : d.Done J root On run s r s') : J s'.state := by
  obtain ⟨efforts, hmade, -⟩ := h
  exact hmade.keeps

theorem Done.room (h : d.Done J root On run s (run₁, false) s₁) : run₁.failed.isFull = false := by
  obtain ⟨efforts, -, -, -, hfull⟩ := h
  exact hfull.symm

theorem Done.append (h : d.Done J root On run s (run₁, false) s₁) (h' : d.Done J root On' run₁ s₁ r s')
    (hbefore : ∀ names names', On names → On' names' → Precedes names names') :
    d.Done J root (fun names => On names ∨ On' names) run s r s' := by
  obtain ⟨efforts, hmade, hsettled, rfl, -⟩ := h
  obtain ⟨efforts', hmade', hsettled', hrun, hfull⟩ := h'
  refine ⟨efforts ++ efforts', hmade.append hmade' hbefore, ?_, ?_, hfull⟩
  · intro e he
    rcases List.mem_append.1 he with he | he
    · exact hsettled e he
    · exact hsettled' e he
  · rw [Effort.countAll_append, hrun]

theorem Done.append_broken (h : d.Done J root On run s (run₁, false) s₁)
    (h' : d.Broken J root On' run₁ s₁ s')
    (hbefore : ∀ names names', On names → On' names' → Precedes names names') :
    d.Broken J root (fun names => On names ∨ On' names) run s s' := by
  obtain ⟨efforts, hmade, hsettled, rfl, -⟩ := h
  obtain ⟨efforts', hmade', hsettled'⟩ := h'
  refine ⟨efforts ++ efforts', hmade.append hmade' hbefore, fun e he => ?_⟩
  rw [List.dropLast_append] at he
  split at he
  · exact hsettled e (List.dropLast_subset _ he)
  · rcases List.mem_append.1 he with he | he
    · exact hsettled e he
    · exact hsettled' e he

end Made

/-! ### The walk -/

/-- Names at or below some others, but for those of a root to be kept. -/
def Within (includeRoot : Bool) (names names' : List Name) : Prop :=
  names <+: names' ∧ (includeRoot = false → names' ≠ [])

section Within

variable {includeRoot : Bool} {names names₁ names₂ : List Name} {children : List Name}

theorem Within.self (h : names₁ = names ∧ (includeRoot = false → names ≠ [])) :
    Within includeRoot names names₁ :=
  ⟨h.1 ▸ List.prefix_rfl, h.1 ▸ h.2⟩

theorem Within.of_children (h : ∃ n ∈ children, Within includeRoot (names ++ [n]) names₁) :
    Within includeRoot names names₁ := by
  obtain ⟨n, -, hstarts, hkept⟩ := h
  exact ⟨(List.prefix_append names [n]).trans hstarts, hkept⟩

theorem Within.precedes (h : ∃ n ∈ children, Within includeRoot (names ++ [n]) names₁)
    (h' : names₂ = names ∧ (includeRoot = false → names ≠ [])) : Precedes names₁ names₂ := by
  obtain ⟨n, -, ⟨rest, rfl⟩, -⟩ := h
  rw [h'.1]
  simpa using Precedes.below names n rest

theorem Within.precedes_of_lt {m n : Name} (h : m.text < n.text)
    (hm : Within includeRoot (names ++ [m]) names₁)
    (hn : Within includeRoot (names ++ [n]) names₂) : Precedes names₁ names₂ := by
  obtain ⟨⟨rest₁, rfl⟩, -⟩ := hm
  obtain ⟨⟨rest₂, rfl⟩, -⟩ := hn
  simpa using Precedes.beside names h rest₁ rest₂

end Within

section Walk

variable {root : Path} {followSymlinks includeRoot : Bool} {names : List Name} {run : Run}
  {s : Session σ}

/-- A node is left with one effort, or with none if it is a root to be kept. -/
theorem ends_leave_effort (h : d.Attempting J (root.descend names))
    (hroom : run.failed.isFull = false) (hs : J s.state) :
    Ends (d.leave root includeRoot (root.descend names) run) s
      (d.Done J root (fun names' => names' = names ∧ (includeRoot = false → names ≠ [])) run s)
      (fun _ => d.Broken J root (fun names' => names' = names ∧ (includeRoot = false → names ≠ []))
        run s) := by
  unfold leave
  split
  · exact Ends.pure ⟨[], .nil hs (.refl s), by simp, rfl, hroom.symm⟩
  rename_i hkept
  have hkept : includeRoot = false → names ≠ [] := by
    rintro hinclude rfl
    exact hkept ⟨root.descend_nil, hinclude⟩
  apply Ends.seq (ends_deleteNode_effort h run hs (.refl s))
  · rintro - s₁ ⟨course, hs₁, h₁⟩
    exact ⟨[⟨names, course, none⟩], .singleton hs₁ h₁ ⟨rfl, hkept⟩ hroom nofun, by simp⟩
  rintro ⟨run₁, full⟩ s₁ ⟨e, rfl, he⟩
  have hdone : ∀ {s' : Session σ}, J s'.state → s'.Rests (s.acts ++ e.acts root) s.endings →
      d.Done J root (fun names' => names' = e.names ∧ (includeRoot = false → e.names ≠ [])) run s
        (run₁, full) s' := by
    intro s' hs' h'
    exact ⟨[e], .singleton hs' h' ⟨rfl, hkept⟩ hroom he.told, by simpa using he.settled, he.run,
      he.full_of_room hroom⟩
  cases full with
  | false => exact Ends.pure (hdone he.keeps he.rests)
  | true =>
    apply Ends.seq ((Keeps.note _ _ _ s₁ he.keeps).and
      (Session.Rests.note (by simp [toString]) s₁ he.rests))
    · rintro - s₂ ⟨hs₂, h₂⟩
      obtain ⟨efforts, hmade, hsettled, -⟩ := hdone hs₂ h₂
      exact ⟨efforts, hmade, fun e he => hsettled e (List.dropLast_subset _ he)⟩
    · rintro - s₂ ⟨hs₂, h₂⟩
      exact Ends.pure (hdone hs₂ h₂)

/-- Children that are visited by their names make their efforts one after the other. -/
theorem ends_visitEach_efforts {visit : Path → Run → Deletion σ (Run × Bool)} {children : List Name}
    (hvisit : ∀ n ∈ children, ∀ {run : Run} {s : Session σ}, run.failed.isFull = false → J s.state →
      Ends (visit ((root.descend names).child n) run) s
        (d.Done J root (Within includeRoot (names ++ [n])) run s)
        (fun _ => d.Broken J root (Within includeRoot (names ++ [n])) run s))
    (hsorted : children.Pairwise (·.text < ·.text)) (hroom : run.failed.isFull = false)
    (hs : J s.state) :
    Ends (visitEach visit (children.map (root.descend names).child) run) s
      (d.Done J root (fun names' => ∃ n ∈ children, Within includeRoot (names ++ [n]) names') run s)
      (fun _ => d.Broken J root
        (fun names' => ∃ n ∈ children, Within includeRoot (names ++ [n]) names') run s) := by
  induction children generalizing run s with
  | nil => exact Ends.pure ⟨[], .nil hs (.refl s), by simp, rfl, hroom.symm⟩
  | cons n rest ih =>
    obtain ⟨hfirst, hsorted⟩ := List.pairwise_cons.1 hsorted
    have hhead : ∀ names', Within includeRoot (names ++ [n]) names' →
        ∃ n' ∈ n :: rest, Within includeRoot (names ++ [n']) names' := fun _ h =>
      ⟨n, List.mem_cons_self, h⟩
    have hboth : ∀ names', Within includeRoot (names ++ [n]) names' ∨
        (∃ n' ∈ rest, Within includeRoot (names ++ [n']) names') →
        ∃ n' ∈ n :: rest, Within includeRoot (names ++ [n']) names' := by
      rintro names' (h | ⟨n', hn', h⟩)
      · exact hhead _ h
      · exact ⟨n', List.mem_cons_of_mem _ hn', h⟩
    have hbefore : ∀ names₁ names₂, Within includeRoot (names ++ [n]) names₁ →
        (∃ n' ∈ rest, Within includeRoot (names ++ [n']) names₂) → Precedes names₁ names₂ :=
      fun _ _ h ⟨n', hn', h'⟩ => h.precedes_of_lt (hfirst n' hn') h'
    unfold visitEach
    apply Ends.seq (hvisit n List.mem_cons_self hroom hs)
    · exact fun _ _ h => h.mono hhead
    rintro ⟨run₁, stop⟩ s₁ hdone
    cases stop with
    | true => exact Ends.pure (hdone.mono hhead)
    | false =>
      apply (ih (fun n' hn' => hvisit n' (List.mem_cons_of_mem _ hn')) hsorted hdone.room
        hdone.keeps).mono
      · exact fun _ _ h => (hdone.append h hbefore).mono hboth
      · exact fun _ _ h => (hdone.append_broken h hbefore).mono hboth

/-- A visit makes efforts at its node and below, in post-order. -/
theorem ends_visit_efforts (h : ∀ names, d.Attempting J (root.descend names))
    (hd : d.environment.ListsOnce) (depth : Nat) (names : List Name)
    (hroom : run.failed.isFull = false) (hs : J s.state) :
    Ends (d.visit followSymlinks root includeRoot depth (root.descend names) run) s
      (d.Done J root (Within includeRoot names) run s)
      (fun _ => d.Broken J root (Within includeRoot names) run s) := by
  induction depth generalizing names run s with
  | zero => exact Ends.throw (.of_rests hs (.refl s))
  | succ depth ih =>
    have hlook := (h names).looking
    unfold visit
    apply Ends.seq ((hlook.keeps_shouldFollow followSymlinks _ s hs).and
      (d.rests_shouldFollow followSymlinks _ s (.refl s)))
    · exact fun _ _ he => .of_rests he.1 he.2
    rintro (_ | _) s₁ ⟨hs₁, h₁⟩
    · exact (ends_leave_effort (h names) hroom hs₁).mono
        (fun _ _ hd => (hd.after h₁).mono fun _ => .self)
        fun _ _ hb => (hb.after h₁).mono fun _ => .self
    apply Ends.seq (((hlook.keeps_listChildren _ s₁ hs₁).and (d.rests_listChildren _ s₁ h₁)).and
      (d.ends_listChildren_ascending hd _ s₁))
    · exact fun _ _ he => .of_rests he.1.1 he.1.2
    rintro (_ | children) s₂ ⟨⟨hs₂, h₂⟩, hlisted⟩
    · exact Ends.pure ⟨[], .nil hs₂ h₂, by simp, rfl, hroom.symm⟩
    obtain ⟨children, rfl, hsorted⟩ := hlisted children rfl
    have hvisit : ∀ n ∈ children, ∀ {run : Run} {s : Session σ}, run.failed.isFull = false →
        J s.state → Ends (d.visit followSymlinks root includeRoot depth
          ((root.descend names).child n) run) s
          (d.Done J root (Within includeRoot (names ++ [n])) run s)
          (fun _ => d.Broken J root (Within includeRoot (names ++ [n])) run s) := by
      intro n _ run s hroom hs
      rw [← Path.descend_concat]
      exact ih (names ++ [n]) hroom hs
    apply Ends.seq (ends_visitEach_efforts hvisit hsorted hroom hs₂)
    · exact fun _ _ hb => (hb.after h₂).mono fun _ => .of_children
    rintro ⟨run₃, stop⟩ s₃ hdone
    have hdone := hdone.after h₂
    cases stop with
    | true => exact Ends.pure (hdone.mono fun _ => .of_children)
    | false =>
      have heither : ∀ names', (∃ n ∈ children, Within includeRoot (names ++ [n]) names') ∨
          names' = names ∧ (includeRoot = false → names ≠ []) → Within includeRoot names names' :=
        fun _ => Or.rec .of_children .self
      apply (ends_leave_effort (h names) hdone.room hdone.keeps).mono
      · exact fun _ _ hd => (hdone.append hd fun _ _ => Within.precedes).mono heither
      · exact fun _ _ hb => (hdone.append_broken hb fun _ _ => Within.precedes).mono heither

/-- All efforts of a walk are settled, and its run is what they add up to. -/
theorem ends_walk_efforts (h : ∀ names, d.Attempting J (root.descend names))
    (hd : d.environment.ListsOnce) (hs : J s.state) :
    Ends (d.walk followSymlinks root includeRoot) s
      (fun run s' => ∃ full, d.Done J root (fun names => includeRoot = false → names ≠ [])
        (.start d.maxReported d.maxReported_pos) s (run, full) s')
      (fun _ => d.Broken J root (fun names => includeRoot = false → names ≠ [])
        (.start d.maxReported d.maxReported_pos) s) := by
  have hroom : (Run.start d.maxReported d.maxReported_pos).failed.isFull = false :=
    decide_eq_false (Nat.not_le_of_lt d.maxReported_pos)
  have hkept : ∀ names, Within includeRoot [] names → includeRoot = false → names ≠ [] :=
    fun _ hw => hw.2
  have hvisit : Ends (d.visit followSymlinks root includeRoot maxDepth (root.descend [])
      (.start d.maxReported d.maxReported_pos)) s
      (d.Done J root (Within includeRoot []) (.start d.maxReported d.maxReported_pos) s)
      (fun _ => d.Broken J root (Within includeRoot [])
        (.start d.maxReported d.maxReported_pos) s) :=
    ends_visit_efforts h hd maxDepth [] hroom hs
  rw [Path.descend_nil] at hvisit
  unfold walk
  apply Ends.seq hvisit fun _ _ hb => hb.mono hkept
  exact fun r s' hdone => Ends.pure ⟨r.2, hdone.mono hkept⟩

/-- A walk has settled all its efforts, its run is what they add up to, and one last entry tells of
it. -/
structure Said (d : Deleter σ) (J : σ → Prop) (root : Path) (includeRoot : Bool) (s s' : Session σ)
    (efforts : List Effort) (run : Run) : Prop where
  made : ∃ s₁, s₁.acts = s'.acts ∧ d.Made J root (fun names => includeRoot = false → names ≠ [])
    (.start d.maxReported d.maxReported_pos) s efforts s₁
  settled : ∀ e ∈ efforts, e.Settled
  run_eq : run = Effort.countAll (.start d.maxReported d.maxReported_pos) efforts
  ending : ∃ startTime entry, Ending root startTime run entry ∧ s'.endings = s.endings ++ [entry]

/-- A walk was broken off, perhaps amid its last effort, or at least nothing tells how it ended. -/
structure Unsaid (d : Deleter σ) (J : σ → Prop) (root : Path) (includeRoot : Bool)
    (s s' : Session σ) (efforts : List Effort) : Prop where
  made : ∃ s₁, s₁.acts = s'.acts ∧ d.Made J root (fun names => includeRoot = false → names ≠ [])
    (.start d.maxReported d.maxReported_pos) s efforts s₁
  settled : ∀ e ∈ efforts.dropLast, e.Settled
  endings : s'.endings = s.endings

/-- From its start to the end of its report, a walk leaves its efforts. -/
theorem ends_deleteBelow_efforts (h : ∀ names, d.Attempting J (root.descend names))
    (hd : d.environment.ListsOnce) (followSymlinks includeRoot : Bool) (hs : J s.state) :
    Ends (d.deleteBelow followSymlinks root includeRoot) s
      (fun run s' => ∃ efforts, d.Said J root includeRoot s s' efforts run)
      (fun _ s' => (∃ efforts, d.Unsaid J root includeRoot s s' efforts) ∨
        ∃ efforts run, d.Said J root includeRoot s s' efforts run) := by
  have hlook := (h []).looking
  have hnothing : ∀ {s' : Session σ}, J s'.state ∧ s'.Rests s.acts s.endings →
      (∃ efforts, d.Unsaid J root includeRoot s s' efforts) ∨
        ∃ efforts run, d.Said J root includeRoot s s' efforts run := fun {s'} h =>
    Or.inl ⟨[], ⟨s', rfl, .nil h.1 h.2⟩, by simp, h.2.endings⟩
  unfold deleteBelow
  apply Ends.seq ((Keeps.reading hlook.now s hs).and (Session.Rests.reading d.now s (.refl s)))
    fun _ _ => hnothing
  rintro startTime s₁ ⟨hs₁, h₁⟩
  apply Ends.seq ((Keeps.note _ _ _ s₁ hs₁).and (Session.Rests.note (by simp) s₁ h₁))
    fun _ _ => hnothing
  rintro - s₂ ⟨hs₂, h₂⟩
  apply Ends.seq (ends_walk_efforts h hd hs₂)
  · rintro - s₃ hbroken
    obtain ⟨efforts, hmade, hsettled⟩ := hbroken.after h₂
    exact Or.inl ⟨efforts, ⟨s₃, rfl, hmade⟩, hsettled, hmade.rests.endings⟩
  rintro run s₃ ⟨full, hdone⟩
  obtain ⟨efforts, hmade, hsettled, hrun, -⟩ := hdone.after h₂
  have hsaid : ∀ {s' : Session σ} {entry}, Ending root startTime run entry →
      s'.Rests s₃.acts (s₃.endings ++ [entry]) → d.Said J root includeRoot s s' efforts run :=
    fun hending hrests => ⟨⟨s₃, hrests.acts.symm, hmade⟩, hsettled, hrun,
      ⟨_, _, hending, hmade.rests.endings ▸ hrests.endings⟩⟩
  apply Ends.seq (d.ends_finish_ending root run s₃)
  · rintro - s₄ (hrests | ⟨entry, hending, hrests⟩)
    · exact Or.inl ⟨efforts, ⟨s₃, hrests.acts.symm, hmade⟩,
        fun e he => hsettled e (List.dropLast_subset _ he), hmade.rests.endings ▸ hrests.endings⟩
    · exact Or.inr ⟨efforts, run, hsaid hending hrests⟩
  · rintro - s₄ ⟨entry, hending, hrests⟩
    exact Ends.pure ⟨efforts, hsaid hending hrests⟩

end Walk

end Deleter

end TreeRemoval
