import TreeRemoval.Proofs.Reports

/-! # Rests of a deletion

Between its attempts, a deletion does nothing that is recorded as an act, and it does not log how
its walk ended. It does so once, when the walk has come to its end.
-/

namespace TreeRemoval

open Deletion

variable {σ : Type}

def Session.endings (s : Session σ) : List Log.Entry := s.log.filter (·.IsOutcome)

/-- Nothing was attempted so far but these acts, and no walk has ended but with these entries. -/
structure Session.Rests (acts : List Act) (endings : List Log.Entry) (s : Session σ) : Prop where
  acts : s.acts = acts
  endings : s.endings = endings

namespace Session.Rests

variable {α : Type} {acts : List Act} {endings : List Log.Entry}

theorem refl (s : Session σ) : s.Rests s.acts s.endings := ⟨rfl, rfl⟩

theorem perform (call : EStateM Fault σ α) : Keeps (Rests acts endings) (perform call) :=
  fun _ hs => ends_perform (Ends.intro (fun _ _ _ => ⟨hs.acts, hs.endings⟩)
    fun _ _ _ => ⟨hs.acts, hs.endings⟩)

theorem observe (call : EStateM Fault σ α) {s : Session σ} (hs : s.Rests acts endings)
    {E : Failure → Session σ → Prop} :
    Ends (observe call) s (fun _ s' => s'.Rests acts endings) E :=
  ends_observe (Ends.intro (fun _ _ _ => ⟨hs.acts, hs.endings⟩)
    fun _ _ _ => ⟨hs.acts, hs.endings⟩)

theorem record (act : Act) {s : Session σ} (hs : s.Rests acts endings)
    {E : Failure → Session σ → Prop} :
    Ends (record act) s (fun _ s' => s'.Rests (acts ++ [act]) endings) E :=
  ends_record ⟨congrArg (· ++ [act]) hs.acts, hs.endings⟩

theorem note {level : Log.Level} {message : String} {fields : List (String × Log.Value)}
    (h : message.toList.head? ≠ some 'T') :
    Keeps (Rests (σ := σ) acts endings) (note level message fields) := by
  intro s hs
  refine ends_note ⟨hs.acts, ?_⟩
  unfold Session.endings
  rw [List.filter_append, List.filter_cons_of_neg (by simpa using Log.not_isOutcome h),
    List.filter_nil, List.append_nil]
  exact hs.endings

theorem note_outcome {level : Log.Level} {message : String} {fields : List (String × Log.Value)}
    {s : Session σ} (hs : s.Rests acts endings)
    (h : Log.Entry.IsOutcome ⟨level, message, fields⟩) {E : Failure → Session σ → Prop} :
    Ends (Deletion.note level message fields) s
      (fun _ s' => s'.Rests acts (endings ++ [⟨level, message, fields⟩])) E := by
  refine ends_note ⟨hs.acts, ?_⟩
  unfold Session.endings
  rw [List.filter_append, List.filter_cons_of_pos (by simpa using h), List.filter_nil]
  exact congrArg (· ++ _) hs.endings

theorem reading (now : σ → Float × σ) : Keeps (Rests acts endings) (reading now) :=
  fun _ hs => ends_reading ⟨hs.acts, hs.endings⟩

end Session.Rests

namespace Deleter

variable (d : Deleter σ) {acts : List Act} {endings : List Log.Entry}

theorem rests_absolute (p : Path) : Keeps (Session.Rests acts endings) (d.absolute p) :=
  Session.Rests.perform _

theorem rests_shouldFollow (followSymlinks : Bool) (p : Path) :
    Keeps (Session.Rests acts endings) (d.shouldFollow followSymlinks p) := by
  unfold shouldFollow
  apply Keeps.bind (Session.Rests.perform _)
  rintro (_ | _)
  · exact Keeps.pure _
  · cases followSymlinks with
    | true => exact Keeps.pure _
    | false => exact Keeps.bind (Session.Rests.perform _) fun _ => Keeps.pure _

theorem rests_listChildren (p : Path) :
    Keeps (Session.Rests acts endings) (d.listChildren p) := by
  intro s hs
  unfold listChildren
  apply Ends.bind (Session.Rests.observe _ hs)
  rintro (f | children) s₁ hs₁
  · cases f with
    | system e =>
      dsimp only
      split
      · exact Ends.bind (Session.Rests.note (by simp [String.toList_append]) s₁ hs₁)
          fun _ _ hs₂ => Ends.pure hs₂
      · exact Ends.bind (Session.Rests.note (by simp) s₁ hs₁) fun _ _ hs₂ => Ends.pure hs₂
    | nullByte | cancelled | interrupted => exact Ends.throw hs₁
  · exact Ends.pure hs₁

theorem rests_scanEach {scan : Path → BoundedSet → Deletion σ BoundedSet}
    (hscan : ∀ p found, Keeps (Session.Rests acts endings) (scan p found)) (children : List Path)
    (found : BoundedSet) : Keeps (Session.Rests acts endings) (scanEach scan children found) := by
  induction children generalizing found with
  | nil => exact Keeps.pure _
  | cons c rest ih =>
    unfold scanEach
    split
    · exact Keeps.pure _
    · exact Keeps.bind (hscan c found) ih

variable {followSymlinks : Bool} {startTime : Float} {top : String} {excluded : List String}

theorem rests_inspect (p : Path) (found : BoundedSet) :
    Keeps (Session.Rests acts endings) (d.inspect startTime top excluded p found) := by
  unfold inspect
  apply Keeps.bind (d.rests_absolute p)
  intro place
  split
  · exact Keeps.pure _
  · apply Keeps.bind (Session.Rests.perform _)
    rintro (_ | status) <;> exact Keeps.pure _

theorem rests_scanBelow (depth : Nat) (p : Path) (found : BoundedSet) :
    Keeps (Session.Rests acts endings)
      (d.scanBelow followSymlinks startTime top excluded depth p found) := by
  induction depth generalizing p found with
  | zero => exact Keeps.throw _
  | succ depth ih =>
    unfold scanBelow
    apply Keeps.bind (d.rests_inspect p found)
    rintro ⟨_ | _, found⟩
    · exact Keeps.pure _
    apply Keeps.bind (d.rests_shouldFollow followSymlinks p)
    rintro (_ | _)
    · exact Keeps.pure _
    apply Keeps.bind (d.rests_listChildren p)
    rintro (_ | children)
    · exact Keeps.pure _
    · exact rests_scanEach ih children found

theorem rests_newPaths (root : Path) :
    Keeps (Session.Rests acts endings) (d.newPaths followSymlinks startTime excluded root) := by
  unfold newPaths
  exact Keeps.bind (d.rests_absolute root) fun top =>
    Keeps.bind (d.rests_scanBelow maxDepth root _) fun _ => Keeps.pure _

theorem rests_buildReport (root : Path) (run : Run) :
    Keeps (Session.Rests acts endings) (d.buildReport followSymlinks root startTime run) := by
  have hfill : ∀ descended failedPaths newPaths,
      Keeps (Session.Rests acts endings) (d.fillReport root run descended failedPaths newPaths) := by
    intro descended failedPaths newPaths
    unfold fillReport
    exact Keeps.bind (Session.Rests.perform _) fun _ =>
      Keeps.bind (Session.Rests.perform _) fun _ => Keeps.pure _
  rw [buildReport_eq]
  apply Keeps.bind (d.rests_shouldFollow followSymlinks root)
  rintro (_ | _)
  · exact hfill _ _ _
  · exact Keeps.bind (d.rests_absolute root) fun _ =>
      Keeps.bind (d.rests_newPaths root) fun _ => hfill _ _ _

/-- The last entry of a walk: what the run has counted, and more if something is reported. -/
structure Ending (root : Path) (startTime : Float) (run : Run) (entry : Log.Entry) : Prop where
  isOutcome : entry.IsOutcome
  fields : ∃ endTime more, entry.fields = summary root startTime endTime run ++ more

/-- Concluding a walk logs at most one ending, and always one if it succeeds. -/
theorem ends_finish_ending (root : Path) (run : Run) (s : Session σ) :
    Ends (d.finish followSymlinks root startTime run) s
      (fun _ s' => ∃ entry, Ending root startTime run entry ∧ s'.Rests s.acts (s.endings ++ [entry]))
      (fun _ s' => s'.Rests s.acts s.endings ∨
        ∃ entry, Ending root startTime run entry ∧ s'.Rests s.acts (s.endings ++ [entry])) := by
  unfold finish
  apply Ends.seq (Session.Rests.reading d.now s (.refl s)) fun _ _ => Or.inl
  intro endTime s₁ h₁
  by_cases hempty : run.failed.isEmpty = true
  · rw [if_pos hempty]
    apply (Session.Rests.note_outcome h₁ (Or.inl rfl)).mono _ fun _ _ => Or.inl
    exact fun _ s₂ h₂ => ⟨_, ⟨Or.inl rfl, endTime, [], (List.append_nil _).symm⟩, h₂⟩
  · rw [if_neg hempty]
    apply Ends.seq (d.rests_buildReport root run s₁ h₁) fun _ _ => Or.inl
    intro report s₂ h₂
    apply Ends.seq (Session.Rests.note_outcome h₂ (Or.inr rfl)) fun _ _ => Or.inl
    rintro - s₃ h₃
    have hending : Ending root startTime run ⟨.error, "Tree deletion failed",
        summary root startTime endTime run ++ failureSummary report⟩ :=
      ⟨Or.inr rfl, endTime, failureSummary report, rfl⟩
    apply Ends.seq (d.rests_absolute root s₃ h₃) fun _ _ h => Or.inr ⟨_, hending, h⟩
    exact fun place s₄ h₄ => Ends.throw (Or.inr ⟨_, hending, h₄⟩)

end Deleter

end TreeRemoval
