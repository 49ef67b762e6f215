import TreeRemoval.Proofs.Deletion.Likeness
import TreeRemoval.Proofs.Deletion.Tour

/-! # What looking keeps

Apart from the removals of a walk, a deletion looks at files, reads a clock and writes a log. What
these keep of an environment's state holds until the end, whatever they answer.
-/

namespace TreeRemoval

variable {σ α : Type} {J : σ → Prop}

namespace Keeps

open Deletion

variable {call : EStateM Fault σ α}

theorem perform (h : Keeps J call) : Keeps (fun s : Session σ => J s.state) (perform call) :=
  fun s hs => ends_perform (h s.state hs)

theorem note (level : Log.Level) (message : String) (fields : List (String × Log.Value)) :
    Keeps (fun s : Session σ => J s.state) (note level message fields) :=
  fun _ hs => ends_note hs

theorem reading {now : σ → Float × σ} (h : ∀ s, J s → J (now s).2) :
    Keeps (fun s : Session σ => J s.state) (reading now) :=
  fun s hs => ends_reading (h s.state hs)

theorem alike {m : EStateM Fault σ α} (h : Keeps J m) : Alike (Same J) (fun _ => Same J) m m :=
  alike_self_iff.2 h

theorem of_alike {m : EStateM Fault σ α} (h : Alike (Same J) (fun _ => Same J) m m) : Keeps J m :=
  alike_self_iff.1 h

theorem shows {look : EStateM Fault σ Status} (h : Keeps J look) (test : Status → Bool) :
    Keeps J (Environment.shows look test) :=
  .of_alike (h.alike.shows id test)

end Keeps

/-- Looks at files keep it. -/
structure Environment.Looking (env : Environment σ) (J : σ → Prop) : Prop where
  stat : ∀ t, Keeps J (env.stat t)
  lstat : ∀ t, Keeps J (env.lstat t)
  list : ∀ t, Keeps J (env.list t)
  workingDirectory : Keeps J env.workingDirectory

namespace Environment.Looking

variable {env : Environment σ} (h : env.Looking J)

include h

theorem keeps_isLink (t : String) : Keeps J (env.isLink t) := (h.lstat t).shows _

theorem looksLike : env.LooksLike (Same J) (fun _ => Same J) env where
  stat t := (h.stat t).alike
  lstat t := (h.lstat t).alike
  children p := Environment.alike_children id (h.list p.text).alike
  workingDirectory := h.workingDirectory.alike
  related := id
  awaits := id

theorem keeps_look? (t : String) : Keeps J (env.look? t) := .of_alike (h.looksLike.look? t)

theorem keeps_makeDirectories (hm : ∀ t, Keeps J (env.mkdir t)) (anchor : Anchor)
    (parts : List String) : Keeps J (env.makeDirectories anchor parts) :=
  .of_alike (h.looksLike.makeDirectories (fun t => (hm t).alike) anchor parts)

theorem keeps_ensureDirectory (hm : ∀ t, Keeps J (env.mkdir t)) (p : Path) :
    Keeps J (env.ensureDirectory p) :=
  (h.keeps_makeDirectories hm _ _).awaited

end Environment.Looking

theorem World.environment_looking {J : World → Prop} (hc : ∀ w, J w → w.Calm)
    (hJ : ∀ {w w'}, J w → w.Still w' → J w') : environment.Looking J := by
  have hlook : ∀ {α : Type} (c : Call) (t : String) (look : FileSystem → String → Except Errno α),
      Keeps J (call c t (looking look)) := fun c t look w hw =>
    (keeps_looking (hc w hw) c t look w (.refl w)).mono (fun _ _ h => hJ hw h) fun _ _ h => hJ hw h
  exact {
    stat := fun t => hlook .stat t _
    lstat := fun t => hlook .lstat t _
    list := fun t => hlook .list t _
    workingDirectory := fun w hw =>
      ends_currentDirectory.mono (fun _ _ h => h.1 ▸ hw) fun _ _ h => h ▸ hw }

structure Deleter.Looking (d : Deleter σ) (J : σ → Prop) : Prop extends
    d.environment.Looking J where
  isSymlink : ∀ p, Keeps J (d.isSymlink p)
  now : ∀ s, J s → J (d.now s).2

theorem World.deleter_looking {gc : Bool} {cap : Nat} {hcap : 0 < cap} {J : World → Prop}
    (hc : ∀ w, J w → w.Calm) (hJ : ∀ {w w'}, J w → w.Still w' → J w') :
    (deleter gc cap hcap).Looking J where
  toLooking := environment_looking hc hJ
  isSymlink p := (environment_looking hc hJ).keeps_isLink p.text
  now w hw := hJ hw ⟨follows_now w, rfl⟩

namespace Deleter.Looking

open Deletion

variable {d : Deleter σ} {followSymlinks : Bool} {root p : Path} {startTime : Float} {top : String}
  {excluded : List String} {found : BoundedSet} {run : Run}

variable (h : d.Looking J)

include h

theorem looksLike : d.LooksLike (Same J) (fun _ => Same J) d where
  looks := h.toLooking.looksLike
  isSymlink p := (h.isSymlink p).alike
  now := by
    rintro _ s ⟨rfl, hs⟩
    exact ⟨rfl, rfl, h.now s hs⟩
  maxReported := rfl

theorem keeps_absolute (p : Path) : Keeps (fun s : Session σ => J s.state) (d.absolute p) :=
  (h.looksLike.absolute (inStep_same J).abreast p).keeps

theorem keeps_shouldFollow (followSymlinks : Bool) (p : Path) :
    Keeps (fun s : Session σ => J s.state) (d.shouldFollow followSymlinks p) :=
  (h.looksLike.shouldFollow (inStep_same J).abreast followSymlinks p).keeps

theorem keeps_listChildren (p : Path) :
    Keeps (fun s : Session σ => J s.state) (d.listChildren p) :=
  (h.looksLike.listChildren (inStep_same J).abreast p).keeps

theorem keeps_buildReport (root : Path) (startTime : Float) (run : Run) :
    Keeps (fun s : Session σ => J s.state) (d.buildReport followSymlinks root startTime run) := by
  intro s hs
  have hself := h.looksLike.buildReport (inStep_same J).abreast ⟨rfl, hs⟩
    (rfl : run = { run with interrupted := run.interrupted }) followSymlinks root startTime
  rcases hself.ok_or_error with ⟨report, t, -, -, hm, -, -, -, -, ht⟩ |
    ⟨e, t, -, -, hm, -, -, ⟨-, ht⟩, -⟩
  · exact Ends.of_ok hm ht
  · exact Ends.of_error hm ht

theorem ends_finish (root : Path) (startTime : Float) (run : Run) {s : Session σ} (hs : J s.state) :
    Ends (d.finish followSymlinks root startTime run) s
      (fun _ s' => J s'.state ∧ run.failed.items = []) (fun _ s' => J s'.state) := by
  unfold finish
  apply Ends.bind (Keeps.reading h.now s hs)
  intro time s₁ hs₁
  by_cases hempty : run.failed.isEmpty = true
  · rw [if_pos hempty]
    exact ends_note ⟨hs₁, List.isEmpty_iff.1 hempty⟩
  · rw [if_neg hempty]
    apply Ends.bind (h.keeps_buildReport root startTime run s₁ hs₁)
    intro report s₂ hs₂
    apply Ends.bind (Keeps.note _ _ _ s₂ hs₂)
    intro _ s₃ hs₃
    apply Ends.bind (h.keeps_absolute root s₃ hs₃)
    intro place s₄ hs₄
    exact Ends.throw hs₄

/-- Walking a root keeps what looks keep, if the walk does. -/
theorem ends_deleteBelow {K : σ → Prop} (hK : d.Looking K) (hJK : ∀ s, J s → K s)
    {includeRoot : Bool} (hwalk : ∀ s : Session σ, J s.state →
      Ends (d.walk followSymlinks root includeRoot) s (fun _ s' => K s'.state)
        fun _ s' => K s'.state)
    {s : Session σ} (hs : J s.state) :
    Ends (d.deleteBelow followSymlinks root includeRoot) s (fun _ s' => K s'.state)
      (fun _ s' => K s'.state) := by
  unfold deleteBelow
  apply Ends.seq (Keeps.reading h.now s hs) fun _ s' h' => hJK _ h'
  intro startTime s₁ hs₁
  apply Ends.seq (Keeps.note _ _ _ s₁ hs₁) fun _ s' h' => hJK _ h'
  rintro - s₂ hs₂
  apply Ends.bind (hwalk s₂ hs₂)
  rintro run s₃ hs₃
  apply Ends.bind (hK.ends_finish root startTime run hs₃)
  rintro - s₄ ⟨hs₄, -⟩
  exact Ends.pure hs₄

theorem ends_deleteTree {K : σ → Prop} (hK : d.Looking K) (hJK : ∀ s, J s → K s)
    (hwalk : ∀ s : Session σ, J s.state →
      Ends (d.walk followSymlinks root true) s (fun _ s' => K s'.state) fun _ s' => K s'.state)
    {s : Session σ} (hs : J s.state) :
    Ends (d.deleteTree followSymlinks root) s (fun _ s' => K s'.state) fun _ s' => K s'.state := by
  unfold deleteTree
  apply Ends.seq ((h.keeps_look? root.text).perform s hs) fun _ s' h' => hJK _ h'
  rintro (_ | status) s₁ hs₁
  · apply Ends.seq (Keeps.note _ _ _ s₁ hs₁) fun _ s' h' => hJK _ h'
    exact fun _ s₂ hs₂ => Ends.pure (hJK _ hs₂)
  · exact Ends.bind (h.ends_deleteBelow hK hJK hwalk hs₁) fun _ _ hs₂ => Ends.pure hs₂

end Deleter.Looking

/-- Attempts on a path keep it: looks, pauses, and removals by the path's text. -/
structure Deleter.Attempting (d : Deleter σ) (J : σ → Prop) (p : Path) : Prop extends
    looking : d.Looking J where
  rmdir : Keeps J (d.environment.rmdir p.text)
  unlink : Keeps J (d.environment.unlink p.text)
  pause : Keeps J d.environment.pause
  collect : Keeps J d.environment.collect

namespace Deleter.Attempting

open Deletion

variable {d : Deleter σ} {root p : Path} {run : Run}

variable (h : d.Attempting J p)

include h

theorem attemptsLike : d.AttemptsLike (Same J) (fun _ => Same J) d p where
  looksLike := h.looking.looksLike
  rmdir := h.rmdir.alike
  unlink := h.unlink.alike
  pause := h.pause.alike
  collect := h.collect.alike
  collectsGarbage := rfl

theorem keeps_attempt : Keeps (fun s : Session σ => J s.state) (d.attempt p) :=
  (h.attemptsLike.attempt (inStep_same J)).keeps

theorem keeps_leave (includeRoot : Bool) (run : Run) :
    Keeps (fun s : Session σ => J s.state) (d.leave root includeRoot p run) :=
  (h.attemptsLike.leave (inStep_same J) root includeRoot run).keeps

end Deleter.Attempting

open Deletion in
theorem Deleter.ends_listChildren_child {σ : Type} (d : Deleter σ) (p : Path) (s : Session σ) :
    Ends (d.listChildren p) s
      (fun r _ => ∀ children, r = some children → ∀ c ∈ children, ∃ n, c = p.child n)
      (fun _ _ => True) := by
  unfold listChildren
  apply Ends.bind (Q := fun r _ =>
    ∀ children, r = .ok children → ∀ c ∈ children, ∃ n, c = p.child n)
  · refine ends_observe (Ends.bind (Q := fun _ _ => True) (Ends.intro (fun _ _ _ => trivial) ?_) ?_)
    · rintro f s' - children ⟨⟩
    · rintro names s' -
      refine Ends.pure ?_
      rintro _ ⟨⟩ c hc
      obtain ⟨n, -, rfl⟩ := List.mem_map.1 hc
      exact ⟨n, rfl⟩
  rintro (f | children) s' h
  · cases f with
    | system e =>
      dsimp only
      split
      · exact Ends.bind (Q := fun _ _ => True) (ends_note trivial) fun _ _ _ => Ends.pure nofun
      · refine Ends.bind (Q := fun _ _ => True) (ends_note trivial) fun _ _ _ => Ends.pure ?_
        rintro _ ⟨⟩ c hc
        cases hc
    | nullByte | cancelled | interrupted => exact Ends.throw trivial
  · refine Ends.pure ?_
    rintro _ ⟨⟩
    exact h children rfl

/-! ### What walks keep -/

def Stages.keeping (On : Path → Prop) (J : σ → Prop) : Stages σ where
  On _ p _ s := On p ∧ J s.state
  Open _ p _ s := On p ∧ J s.state
  Ready p _ s := On p ∧ J s.state
  Settled _ _ _ := True
  Later _ s _ s' := J s.state → J s'.state
  Stopped _ _ := True
  Broken _ s := J s.state

/-- What looks keep, and attempts on all paths that a walk leaves, the walk keeps. -/
theorem Deleter.Looking.keepingTour {d : Deleter σ} (h : d.Looking J) {On : Path → Prop}
    {followSymlinks : Bool} {root : Path} {includeRoot : Bool}
    (hchild : ∀ {p}, On p → ∀ n, On (p.child n))
    (hattempt : ∀ {p}, On p → ¬ (p = root ∧ includeRoot = false) → d.Attempting J p) :
    Tour d followSymlinks root includeRoot (.keeping On J) where
  refl _ _ := id
  trans h h' := h' ∘ h
  on_later hon hl := ⟨hon.1, hl hon.2⟩
  settled_later _ _ := trivial
  settled_stopped _ _ := trivial
  deep hon := hon.2
  opening := by
    rintro - p run s ⟨hp, hs⟩
    apply (h.keeps_shouldFollow followSymlinks p s hs).mono _ fun _ _ hs => hs
    rintro (_ | _) s' hs' <;> exact ⟨fun _ => hs', hp, hs'⟩
  listing := by
    rintro - p run s ⟨hp, hs⟩
    apply ((h.keeps_listChildren p s hs).and (d.ends_listChildren_child p s)).mono _
      fun _ _ he => he.1
    rintro (_ | children) s' ⟨hs', hnames⟩
    · exact ⟨fun _ => hs', trivial⟩
    · refine ⟨fun _ => hs', fun c hc => ?_, fun run' s'' hl _ => ⟨hp, hl hs'⟩⟩
      obtain ⟨n, rfl⟩ := hnames children rfl c hc
      exact ⟨hchild hp n, hs'⟩
  leaving := by
    rintro p run s ⟨hp, hs⟩
    by_cases hkept : p = root ∧ includeRoot = false
    · unfold Deleter.leave
      rw [if_pos hkept]
      exact Ends.pure ⟨id, trivial, fun _ => trivial⟩
    · exact ((hattempt hp hkept).keeps_leave includeRoot run s hs).mono
        (fun _ _ hs' => ⟨fun _ => hs', trivial, fun _ => trivial⟩) fun _ _ hs' => hs'

end TreeRemoval
