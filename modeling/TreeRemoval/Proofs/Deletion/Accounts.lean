import TreeRemoval.Proofs.Deletion.Rests

/-! # Accounts of a deletion

What ties the acts so far to the state of the environment holds throughout a walk and its report, if
looks keep it and each try and each pause keeps it together with the act that is recorded of it.
-/

namespace TreeRemoval

open Deletion

variable {σ α : Type}

/-- Looks keep what ties the acts to the state, and so does each try and each pause with its act. -/
structure Deleter.Accounts (d : Deleter σ) (P : List Act → σ → Prop) : Prop where
  looking : ∀ acts, d.Looking (P acts)
  removeNode : ∀ {acts s}, P acts s → ∀ p : Path, Ends (d.environment.removeNode p.text) s
    (fun removed s' => P (acts ++ [.tried p (.ok removed)]) s')
    (fun f s' => P (acts ++ [.tried p (.error f)]) s')
  pause : ∀ {acts s}, P acts s → ∀ p : Path, Ends d.pauseBeforeRetry s
    (fun _ s' => P (acts ++ [.paused p (.ok ())]) s')
    (fun f s' => P (acts ++ [.paused p (.error f)]) s')

namespace Deleter.Accounts

variable {d : Deleter σ} {P : List Act → σ → Prop} (h : d.Accounts P)
  {followSymlinks includeRoot : Bool} {root : Path}

theorem keeps_of_rests {m : Deletion σ α} (hj : ∀ acts, Keeps (fun s => P acts s.state) m)
    (hr : ∀ acts endings, Keeps (Session.Rests acts endings) m) :
    Keeps (fun s => P s.acts s.state) m := by
  intro s hs
  apply ((hj s.acts s hs).and (hr s.acts s.endings s (.refl s))).mono
  · rintro - s' ⟨hs', hrests⟩
    exact hrests.acts ▸ hs'
  · rintro - s' ⟨hs', hrests⟩
    exact hrests.acts ▸ hs'

/-- What is observed and then recorded. -/
theorem keeps_bind_record {β : Type} {call : EStateM Fault σ α} {act : Except Fault α → Act}
    {f : Except Fault α → Deletion σ β}
    (hcall : ∀ {acts s}, P acts s → Ends call s (fun a s' => P (acts ++ [act (.ok a)]) s')
      (fun fault s' => P (acts ++ [act (.error fault)]) s'))
    (hf : ∀ r, Keeps (fun s => P s.acts s.state) (f r)) :
    Keeps (fun s => P s.acts s.state)
      (observe call >>= fun r => record (act r) >>= fun _ => f r) := by
  intro s hs
  apply Ends.bind (Q := fun r s' => P (s'.acts ++ [act r]) s'.state)
    (ends_observe (hcall hs))
  intro r s₁ h₁
  exact Ends.bind (Q := fun _ s' => P s'.acts s'.state) (ends_record h₁) fun _ s₂ h₂ => hf r s₂ h₂

theorem keeps_note (level : Log.Level) (message : String) (fields : List (String × Log.Value)) :
    Keeps (fun s : Session σ => P s.acts s.state) (note level message fields) :=
  fun _ hs => ends_note hs

include h

theorem keeps_absolute (p : Path) : Keeps (fun s => P s.acts s.state) (d.absolute p) :=
  keeps_of_rests (fun acts => (h.looking acts).keeps_absolute p) fun _ _ => d.rests_absolute p

theorem keeps_tryOnce (p : Path) : Keeps (fun s => P s.acts s.state) (d.tryOnce p) := by
  unfold tryOnce
  refine keeps_bind_record (fun hs => h.removeNode hs p) ?_
  rintro (f | removed)
  · cases f with
    | system e => exact Keeps.pure _
    | nullByte | cancelled | interrupted => exact Keeps.throw _
  · exact Keeps.pure _

theorem keeps_attempt (p : Path) : Keeps (fun s => P s.acts s.state) (d.attempt p) := by
  unfold attempt
  apply Keeps.bind (h.keeps_tryOnce p)
  rintro (e | removed)
  rotate_left
  · exact Keeps.pure _
  apply Keeps.bind (h.keeps_absolute p)
  intro place
  apply Keeps.bind (keeps_note _ _ _)
  rintro -
  refine keeps_bind_record (fun hs => h.pause hs p) ?_
  rintro (f | _)
  · cases f with
    | cancelled => exact Keeps.pure _
    | system | nullByte | interrupted => exact Keeps.throw _
  · apply Keeps.bind (h.keeps_tryOnce p)
    rintro (e' | removed)
    · exact Keeps.bind (h.keeps_absolute p) fun _ => Keeps.pure _
    · exact Keeps.pure _

theorem keeps_leave (p : Path) (run : Run) :
    Keeps (fun s => P s.acts s.state) (d.leave root includeRoot p run) := by
  have hbook : ∀ run, Keeps (fun s => P s.acts s.state) (deleteNode.book d p run) := by
    intro run
    unfold deleteNode.book
    exact Keeps.bind (h.keeps_absolute p) fun _ => Keeps.pure _
  unfold leave deleteNode
  split
  · exact Keeps.pure _
  apply Keeps.bind
  · apply Keeps.bind (h.keeps_attempt p)
    rintro (removed | removed | ⟨place, e⟩ | e)
    · exact Keeps.pure _
    · exact Keeps.pure _
    · exact hbook _
    · exact Keeps.bind (h.keeps_absolute p) fun _ => Keeps.bind (keeps_note _ _ _) fun _ =>
        Keeps.bind (h.keeps_absolute p) fun _ => hbook _
  · rintro ⟨run, _ | _⟩
    · exact Keeps.pure _
    · exact Keeps.bind (keeps_note _ _ _) fun _ => Keeps.pure _

omit h in
theorem keeps_visitEach {K : Session σ → Prop} {visit : Path → Run → Deletion σ (Run × Bool)}
    (hv : ∀ p run, Keeps K (visit p run)) (paths : List Path) (run : Run) :
    Keeps K (visitEach visit paths run) := by
  induction paths generalizing run with
  | nil => exact Keeps.pure _
  | cons p rest ih =>
    unfold visitEach
    apply Keeps.bind (hv p run)
    rintro ⟨run, _ | _⟩
    · exact ih run
    · exact Keeps.pure _

theorem keeps_visit (depth : Nat) (p : Path) (run : Run) :
    Keeps (fun s => P s.acts s.state) (d.visit followSymlinks root includeRoot depth p run) := by
  induction depth generalizing p run with
  | zero => exact Keeps.throw _
  | succ depth ih =>
    unfold visit
    apply Keeps.bind (keeps_of_rests (fun acts => (h.looking acts).keeps_shouldFollow _ p)
      fun _ _ => d.rests_shouldFollow _ p)
    rintro (_ | _)
    · exact h.keeps_leave p run
    apply Keeps.bind (keeps_of_rests (fun acts => (h.looking acts).keeps_listChildren p)
      fun _ _ => d.rests_listChildren p)
    rintro (_ | children)
    · exact Keeps.pure _
    apply Keeps.bind (keeps_visitEach ih children run)
    rintro ⟨run, _ | _⟩
    · exact h.keeps_leave p run
    · exact Keeps.pure _

theorem keeps_reading : Keeps (fun s => P s.acts s.state) (reading d.now) :=
  fun _ hs => ends_reading ((h.looking _).now _ hs)

theorem keeps_finish (startTime : Float) (run : Run) :
    Keeps (fun s => P s.acts s.state) (d.finish followSymlinks root startTime run) := by
  unfold finish
  apply Keeps.bind h.keeps_reading
  intro endTime
  dsimp only
  split
  · exact keeps_note _ _ _
  · apply Keeps.bind (keeps_of_rests (fun acts => (h.looking acts).keeps_buildReport root _ run)
      fun _ _ => d.rests_buildReport root run)
    exact fun report => Keeps.bind (keeps_note _ _ _) fun _ =>
      Keeps.bind (h.keeps_absolute root) fun _ => Keeps.throw _

theorem keeps_deleteBelow (followSymlinks includeRoot : Bool) (root : Path) :
    Keeps (fun s => P s.acts s.state) (d.deleteBelow followSymlinks root includeRoot) := by
  unfold deleteBelow walk
  exact Keeps.bind h.keeps_reading fun startTime => Keeps.bind (keeps_note _ _ _) fun _ =>
    Keeps.bind (Keeps.bind (h.keeps_visit maxDepth root _) fun _ => Keeps.pure _) fun run =>
      Keeps.bind (h.keeps_finish startTime run) fun _ => Keeps.pure _

end Deleter.Accounts

end TreeRemoval
