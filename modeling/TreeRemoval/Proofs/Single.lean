import TreeRemoval.Proofs.Counters
import TreeRemoval.Proofs.World.RealPath
import TreeRemoval.Proofs.World.Refusals

/-! # Single deletions

What a deletion of one node answers when looks and removals may be refused, with nobody else at
work. Each of its tries removes the node, finds that nothing is there, or fails and changes nothing.
-/

namespace TreeRemoval

open World Deletion

def Call.InTry (c : Call) : Prop := c = .lstat ∨ c = .rmdir ∨ c = .unlink

instance : DecidablePred Call.InTry := fun _ => inferInstanceAs (Decidable (_ ∨ _))

namespace World

variable {w w' : World} {p : Path}

/-- Two looks in a row at a path text are refused. -/
def Conceals (w : World) (t : String) : Prop :=
  (Event.refuses .lstat t w.events).1 = true ∧
    (Event.refuses .lstat t (w.counting .lstat t).events).1 = true

/-! ### One try -/

inductive Tried (p : Path) (w w' : World) : Except SystemError Bool → Prop
  | removed (h : w.files.Removes w.changeTime p w'.files) : Tried p w w' (.ok true)
  | missing (hm : w.files.Missing p) (hseen : (Event.refuses .lstat p.text w.events).1 = false)
    (hfiles : w'.files = w.files) : Tried p w w' (.ok false)
  | failed (e : SystemError) (hfiles : w'.files = w.files)
    (hm : w.files.Missing p →
      (Event.refuses .lstat p.text w.events).1 = true ∧ w' = w.counting .lstat p.text) :
    Tried p w w' (.error e)

namespace OnlyObstructs

variable (h : w.OnlyObstructs Call.InTry) (hp : p.Proper) (ha : p.isAbsolute = true)
  (ht : '\x00' ∉ p.text.toList)

include h hp ha ht

/-- A look that is not refused tells whether something is there. -/
theorem ends_look? :
    Ends (environment.look? p.text) w
      (fun r w' => (Event.refuses .lstat p.text w.events).1 = false ∧
        w' = w.counting .lstat p.text ∧ (r = none ↔ w.files.Missing p))
      (fun f w' => w' = w.counting .lstat p.text ∧ (∃ e, f = .system e) ∧
        (w.files.Missing p → (Event.refuses .lstat p.text w.events).1 = true)) := by
  have hmissing : w.files.Missing p ↔ ∃ e : Errno, e.isMissing = true ∧
      w.files.lstat w.workingDirectory p.text = .error e :=
    FileSystem.missing_iff_lstat hp ha w.workingDirectory
  unfold Environment.look?
  refine Ends.bind_outcome (Ends.awaited (E := fun f w' => w' = w.counting .lstat p.text ∧
    ∃ e, f = .system e ∧ ((Event.refuses .lstat p.text w.events).1 = true ∧
        e.errno.isMissing = false ∨
      (Event.refuses .lstat p.text w.events).1 = false ∧
        w.files.lstat w.workingDirectory p.text = .error e.errno))
      ((h.ends_call ht rfl).mono (fun _ _ h' => h') ?_)) ?_ ?_
  · rintro _ w' ⟨hw, e, rfl, hwhy⟩
    obtain ⟨e', he', hn⟩ := Fault.awaited_system e
    refine ⟨hw, e', he', ?_⟩
    rw [hn]
    exact hwhy.imp_right fun ⟨hallowed, hl⟩ => ⟨hallowed, except_map_eq_error_iff.1 hl⟩
  · rintro status _ ⟨hallowed, files, hl, rfl⟩
    obtain ⟨status', hstatus, he⟩ := except_map_eq_ok_iff.1 hl
    cases he
    refine Ends.pure ⟨hallowed, rfl, by simp, fun hm => ?_⟩
    obtain ⟨e, -, hl'⟩ := hmissing.1 hm
    cases hstatus.symm.trans hl'
  · rintro _ w' ⟨hw, e, rfl, hwhy⟩
    cases hm : e.errno.isMissing with
    | true =>
      simp only [hm, if_true]
      obtain ⟨-, hn⟩ | ⟨hallowed, hl⟩ := hwhy
      · rw [hm] at hn
        cases hn
      · exact Ends.pure ⟨hallowed, hw, by simpa using hmissing.2 ⟨_, hm, hl⟩⟩
    | false =>
      simp only [hm]
      refine Ends.throw ⟨hw, ⟨e, rfl⟩, fun hmiss => ?_⟩
      obtain ⟨hrefused, -⟩ | ⟨-, hl⟩ := hwhy
      · exact hrefused
      · obtain ⟨e', he', hl'⟩ := hmissing.1 hmiss
        rw [hl] at hl'
        cases hl'
        rw [hm] at he'
        cases he'

omit hp ha in
/-- A call that removes the node at a path removes it, or fails and changes nothing. -/
theorem ends_changing {c : Call}
    {change : FileSystem → String → Option Float → Except Errno FileSystem}
    (hok : ∀ {fs}, change w.files w.workingDirectory w.changeTime = .ok fs →
      w.files.Removes w.changeTime p fs)
    (hno : change w.files w.workingDirectory w.changeTime = .error .enoent → w.files.Missing p) :
    Ends (call c p.text (changing change)) w
      (fun _ w' => w.Follows w' ∧ w.files.Removes w.changeTime p w'.files)
      (fun f w' => w.Follows w' ∧ w'.files = w.files ∧
        ∃ e, f = .system e ∧ (e.errno = .enoent → w.files.Missing p)) := by
  apply (h.ends_call ht rfl).mono
  · rintro _ _ ⟨-, files, hwork, rfl⟩
    obtain ⟨files', hchange, he⟩ := except_map_eq_ok_iff.1 hwork
    cases he
    exact ⟨(h.follows_counting c p.text).trans ⟨rfl, rfl, rfl⟩, hok hchange⟩
  · rintro _ _ ⟨rfl, e, rfl, hwhy⟩
    refine ⟨h.follows_counting c p.text, rfl, e, rfl, fun he => ?_⟩
    rw [he] at hwhy
    obtain ⟨-, hn⟩ | ⟨-, hwork⟩ := hwhy
    · cases hn
    · exact hno (except_map_eq_error_iff.1 hwork)

theorem ends_removeNode :
    Ends (environment.removeNode p.text) w
      (fun b w' => w.Follows w' ∧ w.Tried p w' (.ok b))
      (fun f w' => w.Follows w' ∧ ∃ e, f = .system e ∧ w.Tried p w' (.error e)) := by
  have hcounts := h.follows_counting .lstat p.text
  unfold Environment.removeNode
  apply Ends.seq (h.ends_look? hp ha ht)
  · rintro _ _ ⟨rfl, ⟨e, rfl⟩, hm⟩
    exact ⟨hcounts, e, rfl, .failed e rfl fun hmiss => ⟨hm hmiss, rfl⟩⟩
  rintro (_ | status) _ ⟨hallowed, rfl, hnone⟩
  · exact Ends.pure ⟨hcounts, .missing (hnone.1 rfl) hallowed rfl⟩
  have hthere : ¬ w.files.Missing p := fun hm => nomatch hnone.2 hm
  have hcall : Ends (if status.kind = .directory then environment.rmdir p.text
        else environment.unlink p.text) (w.counting .lstat p.text)
      (fun _ w' => w.Follows w' ∧ w.Tried p w' (.ok true))
      (fun f w' => w.Follows w' ∧ ∃ e, f = .system e ∧ e.errno ≠ .enoent ∧ w'.files = w.files) := by
    have hnext := hcounts.onlyObstructs h
    have hresult : ∀ {c : Call}
        {change : FileSystem → String → Option Float → Except Errno FileSystem},
        (∀ {fs}, change w.files w.workingDirectory w.changeTime = .ok fs →
          w.files.Removes w.changeTime p fs) →
        (change w.files w.workingDirectory w.changeTime = .error .enoent → w.files.Missing p) →
        Ends (call c p.text (changing change)) (w.counting .lstat p.text)
          (fun _ w' => w.Follows w' ∧ w.Tried p w' (.ok true))
          (fun f w' => w.Follows w' ∧
            ∃ e, f = .system e ∧ e.errno ≠ .enoent ∧ w'.files = w.files) := by
      intro c change hok hno
      apply (hnext.ends_changing ht hok hno).mono
      · exact fun _ _ h' => ⟨hcounts.trans h'.1, .removed h'.2⟩
      · rintro _ w' ⟨hf, hfiles, e, rfl, hm⟩
        exact ⟨hcounts.trans hf, e, rfl, fun he => hthere (hm he), hfiles⟩
    split
    · exact hresult (FileSystem.rmdir_removes hp ha) (FileSystem.missing_of_rmdir hp ha)
    · exact hresult (FileSystem.unlink_removes hp ha) (FileSystem.missing_of_unlink hp ha)
  refine Ends.bind_outcome (Ends.awaited (E := fun f w' => w.Follows w' ∧
    ∃ e, f = .system e ∧ e.errno ≠ .enoent ∧ w'.files = w.files)
    (hcall.mono (fun _ _ h' => h') ?_)) ?_ ?_
  · rintro _ w' ⟨hf, e, rfl, hn, hfiles⟩
    obtain ⟨e', he', hsame⟩ := Fault.awaited_system e
    exact ⟨hf, e', he', hsame ▸ hn, hfiles⟩
  · exact fun _ _ h' => Ends.pure h'
  · rintro _ w' ⟨hf, e, rfl, hn, hfiles⟩
    simp only [hn, if_false]
    exact Ends.throw ⟨hf, e, rfl, .failed e hfiles fun hm => absurd hm hthere⟩

end OnlyObstructs

end World

/-! ### Two tries -/

inductive World.Attempted (p : Path) (w w' : World) : Attempt → Prop
  | removed {r : Attempt} (hr : r = .first true ∨ r = .second true)
    (h : w.files.Removes w.changeTime p w'.files) : Attempted p w w' r
  | missing {r : Attempt} (hr : r = .first false ∨ r = .second false) (hm : w.files.Missing p)
    (hseen : ¬ w.Conceals p.text) (hfiles : w'.files = w.files) : Attempted p w w' r
  | stuck (e : SystemError) (hfiles : w'.files = w.files)
    (hm : w.files.Missing p → w.Conceals p.text) : Attempted p w w' (.stuck p.normalize.text e)

namespace Deleter

variable {gc : Bool} {cap : Nat} {hcap : 0 < cap} {s : Session World} {p : Path}

section Obstructed

variable (h : s.state.OnlyObstructs Call.InTry)

include h

theorem ends_pauseBeforeRetry_still :
    Ends (deleter gc cap hcap).pauseBeforeRetry s.state (fun _ w' => w' = s.state)
      (fun _ _ => False) := by
  unfold Deleter.pauseBeforeRetry
  cases gc with
  | false => exact h.ends_pause (by decide)
  | true =>
    apply Ends.bind (h.ends_collect (by decide))
    rintro _ w₁ rfl
    exact h.ends_pause (by decide)

variable (hp : p.Proper) (ha : p.isAbsolute = true) (ht : '\x00' ∉ p.text.toList)

include hp ha ht

theorem ends_tryOnce_tried :
    Ends ((deleter gc cap hcap).tryOnce p) s
      (fun r s' => s.state.Follows s'.state ∧ s.state.Tried p s'.state r) (fun _ _ => False) := by
  unfold Deleter.tryOnce
  apply Ends.bind (ends_observe_keep (h.ends_removeNode hp ha ht))
  rintro r s₁ ⟨hr, -, -⟩
  apply Ends.bind (Q := fun _ s' => s'.state = s₁.state) (ends_record rfl)
  intro _ s₂ hw₂
  rw [← hw₂] at hr
  cases r with
  | ok removed => exact Ends.pure hr
  | error f =>
    obtain ⟨hf, e, rfl, htried⟩ := hr
    exact Ends.pure ⟨hf, htried⟩

theorem ends_attempt_attempted :
    Ends ((deleter gc cap hcap).attempt p) s
      (fun r s' => s.state.Attempted p s'.state r) (fun _ _ => False) := by
  unfold Deleter.attempt
  apply Ends.bind (ends_tryOnce_tried h hp ha ht)
  rintro r s₁ ⟨hf₁, hr⟩
  cases hr with
  | removed hr => exact Ends.pure (.removed (Or.inl rfl) hr)
  | missing hm hseen hfiles =>
    exact Ends.pure (.missing (Or.inl rfl) hm (fun hc => by rw [hc.1] at hseen; cases hseen) hfiles)
  | failed e hfiles₁ hm₁ =>
  apply Ends.bind (Q := fun _ s' => s'.state = s₁.state) (ends_absolute ha rfl)
  intro _ s₂ hw₂
  apply Ends.bind (Q := fun _ s' => s'.state = s₁.state) (ends_note hw₂)
  intro _ s₃ hw₃
  have h₃ : s₃.state.OnlyObstructs Call.InTry := by
    rw [hw₃]
    exact hf₁.onlyObstructs h
  apply Ends.bind (ends_observe_keep (ends_pauseBeforeRetry_still h₃))
  rintro (f | u) s₄ ⟨hw₄, -, -⟩
  · exact hw₄.elim
  apply Ends.bind (Q := fun _ s' => s'.state = s₃.state) (ends_record hw₄)
  intro _ s₅ hw₅
  have h₅ : s₅.state.OnlyObstructs Call.InTry := by
    rw [hw₅]
    exact h₃
  apply Ends.bind (ends_tryOnce_tried h₅ hp ha ht)
  rw [hw₅, hw₃]
  rintro r s₆ ⟨-, hr⟩
  cases hr with
  | removed hr =>
    rw [hfiles₁, hf₁.changeTime] at hr
    exact Ends.pure (.removed (Or.inr rfl) hr)
  | missing hm hseen hfiles =>
    rw [hfiles₁] at hm
    refine Ends.pure (.missing (Or.inr rfl) hm (fun hc => ?_) (hfiles.trans hfiles₁))
    rw [(hm₁ hm).2, hc.2] at hseen
    cases hseen
  | failed e' hfiles hm =>
    apply Ends.bind (Q := fun place s' => place = p.normalize.text ∧ s'.state = s₆.state)
      (ends_absolute ha ⟨rfl, rfl⟩)
    rintro _ s₇ ⟨rfl, hw₇⟩
    rw [hfiles₁] at hm
    rw [← hw₇] at hfiles
    refine Ends.pure (.stuck e' (hfiles.trans hfiles₁) fun hmiss => ⟨(hm₁ hmiss).1, ?_⟩)
    rw [← (hm₁ hmiss).2]
    exact (hm hmiss).1

end Obstructed

/-! ### The deletion -/

theorem ends_delete_missing (hq : s.state.Quiet) (hp : p.Proper) (ha : p.isAbsolute = true)
    (ht : '\x00' ∉ p.text.toList) (hm : s.state.files.Missing p) :
    Ends ((deleter gc cap hcap).delete p) s
      (fun b s' => b = false ∧ s'.state.files = s.state.files) (fun _ _ => False) := by
  have hremove : Ends (World.environment.removeNode p.text) s.state
      (fun b w' => b = false ∧ w'.files = s.state.files) (fun _ _ => False) := by
    unfold Environment.removeNode
    apply Ends.bind (ends_look?_missing hq.calm hq.not_mayBlind hp ha ht hm)
    rintro _ w' ⟨-, hfiles, rfl⟩
    exact Ends.pure ⟨rfl, hfiles⟩
  have htry : Ends ((deleter gc cap hcap).tryOnce p) s
      (fun r s' => r = .ok false ∧ s'.state.files = s.state.files) (fun _ _ => False) := by
    unfold Deleter.tryOnce
    apply Ends.bind (ends_observe_keep hremove)
    rintro (f | removed) s₁ ⟨hr, -, -⟩
    · exact hr.elim
    obtain ⟨rfl, hfiles⟩ := hr
    exact Ends.bind (Q := fun _ s' => s'.state.files = s.state.files) (ends_record hfiles)
      fun _ _ h => Ends.pure ⟨rfl, h⟩
  unfold Deleter.delete
  apply Ends.bind (Q := fun r s' => r = .first false ∧ s'.state.files = s.state.files)
  · unfold Deleter.attempt
    apply Ends.bind htry
    rintro _ s₁ ⟨rfl, hfiles⟩
    exact Ends.pure ⟨rfl, hfiles⟩
  · rintro _ s₁ ⟨rfl, hfiles⟩
    exact Ends.pure ⟨rfl, hfiles⟩

end Deleter

theorem FileSystem.Removes.not_missing {fs fs' : FileSystem} {time : Option Float} {p : Path}
    (h : fs.Removes time p fs') : ¬ fs.Missing p := by
  obtain ⟨parent, name, hl, hn, -⟩ := h
  exact fun hm => hn (hm.get?_eq_none hl)

/-- What the answer of a single deletion tells of the worlds before and after it: whether it took
the node at the path away, or whether nothing was there for a look to find. A further deletion
without faults finds nothing where a node was taken away. -/
structure World.Answers (p : Path) (w : World) (removed : Bool) (w' : World) : Prop where
  removes : removed = true ↔ w.files.Removes w.changeTime p w'.files
  missing : removed = false ↔ w.files.Missing p ∧ ¬ w.Conceals p.text
  unchanged : removed = false → w'.files = w.files
  again : removed = true → ∀ (gc : Bool) (cap : Nat) (hcap : 0 < cap) (s : Session World),
    s.state.Quiet → s.state.files = w'.files →
      Ends ((deleter gc cap hcap).delete p) s
        (fun removed s' => removed = false ∧ s'.state.files = w'.files) (fun _ _ => False)

namespace Deleter

variable {s : Session World} {t : String}

/-- A deletion of one node makes at most two tries. It answers whether it took the node away, or it
fails with the error of the second try and leaves the files as they are. It fails for a missing path
only if both looks at it were refused. Path texts are sequences of characters, so that none holds
half a surrogate pair. -/
theorem delete_answers (h : s.state.OnlyObstructs Call.InTry)
    (ha : (Path.ofText t).isAbsolute = true) (ht : '\x00' ∉ (Path.ofText t).text.toList)
    (gc : Bool) (cap : Nat) (hcap : 0 < cap) :
    Ends ((deleter gc cap hcap).delete (.ofText t)) s
      (fun removed s' => s.state.Answers (.ofText t) removed s'.state ∧
        ∃ acts, s'.acts = s.acts ++ acts ∧ acts.countP Act.isTry ≤ 2)
      (fun e s' => s'.state.files = s.state.files ∧
        (s.state.files.Missing (.ofText t) → s.state.Conceals (Path.ofText t).text) ∧
        ∃ first second,
          e = .undeletable (.ofText t) (Path.ofText t).normalize.text second ∧
          s'.acts = s.acts ++ [.tried (.ofText t) (.error (.system first)),
            .paused (.ofText t) (.ok ()), .tried (.ofText t) (.error (.system second))]) := by
  have hp := Path.proper_ofText t
  unfold Deleter.delete
  apply Ends.seq ((ends_attempt_attempted h hp ha ht).and
    (Deleter.acts_attempt _ (.ofText t) (s := s) ⟨rfl, rfl⟩)) (fun _ _ h' => h'.1.elim)
  rintro r s' ⟨hr, course, hyields, hacts, -⟩
  have htries : (course.acts (.ofText t)).countP Act.isTry ≤ 2 := by
    cases course <;> simp [Course.acts, List.countP_cons, Act.isTry]
  cases hr with
  | removed hr hremoves =>
    have hans : s.state.Answers (.ofText t) true s'.state := by
      refine ⟨by simpa using hremoves, by simp [hremoves.not_missing], nofun, ?_⟩
      intro _ gc cap hcap s'' hq hfiles
      rw [← hfiles]
      exact ends_delete_missing hq hp ha ht (hfiles ▸ hremoves.missing)
    rcases hr with rfl | rfl <;> exact Ends.pure ⟨hans, _, hacts, htries⟩
  | missing hr hm hseen hfiles =>
    have hans : s.state.Answers (.ofText t) false s'.state :=
      ⟨by simpa using fun hremoves => hremoves.not_missing hm, by simp [hm, hseen],
        fun _ => hfiles, nofun⟩
    rcases hr with rfl | rfl <;> exact Ends.pure ⟨hans, _, hacts, htries⟩
  | stuck second hfiles hm =>
    cases hyields with
    | stuck first => exact Ends.throw ⟨hfiles, hm, first, second, rfl, hacts⟩

end Deleter

/-- A link to a directory, whose removal is refused once. -/
def World.delayed : World :=
  .make [.leaf (.ofText "/d/x") .file 0, .leaf (.ofText "/w/l") (.link "/d") 0] "/" (some 1)
    [{ call := .unlink, name := some "l", times := some 1, disruption := some (.errno .eacces) }]
    (.ofList [])

theorem delete_answers_delayed :
    World.delayed.OnlyObstructs Call.InTry ∧ (Path.ofText "/w/l").isAbsolute = true ∧
      '\x00' ∉ (Path.ofText "/w/l").text.toList ∧
      ∃ s', (World.deleter true 1 Nat.one_pos).delete (.ofText "/w/l") ⟨World.delayed, [], []⟩ =
          .ok true s' ∧
        World.delayed.Answers (.ofText "/w/l") true s'.state ∧
        ∃ acts, s'.acts = [] ++ acts ∧ acts.countP Act.isTry ≤ 2 := by
  have h : World.delayed.OnlyObstructs Call.InTry := by
    intro e he
    change e ∈ [_] at he
    rw [List.mem_singleton.1 he]
    exact ⟨Or.inr (Or.inr rfl), rfl, rfl, .eacces, rfl, rfl⟩
  have ha : (Path.ofText "/w/l").isAbsolute = true := by decide
  have ht : '\x00' ∉ (Path.ofText "/w/l").text.toList := by decide
  have hruns : ((World.deleter true 1 Nat.one_pos).delete (.ofText "/w/l")).run'
      ⟨World.delayed, [], []⟩ = some true := by decide +kernel
  obtain ⟨s', hs'⟩ := exists_of_run' hruns
  exact ⟨h, ha, ht, s', hs', (Deleter.delete_answers (s := ⟨World.delayed, [], []⟩) h ha ht true 1
    Nat.one_pos).ok hs'⟩

/-- A missing path, each look at which is refused. -/
def World.concealed : World :=
  .make [.directory (.ofText "/w") 0] "/" none
    [{ call := .lstat, path := some "/w/x", disruption := some (.errno .eacces) }] (.ofList [])

/-- The looks matter: otherwise the path is missing, and still the deletion fails. -/
theorem delete_concealed :
    World.concealed.OnlyObstructs Call.InTry ∧ (Path.ofText "/w/x").isAbsolute = true ∧
      '\x00' ∉ (Path.ofText "/w/x").text.toList ∧
      World.concealed.files.Missing (.ofText "/w/x") ∧
      ¬ ∃ s', (World.deleter false 1 Nat.one_pos).delete (.ofText "/w/x")
        ⟨World.concealed, [], []⟩ = .ok false s' := by
  have h : World.concealed.OnlyObstructs Call.InTry := by
    intro e he
    change e ∈ [_] at he
    rw [List.mem_singleton.1 he]
    exact ⟨Or.inl rfl, rfl, rfl, .eacces, rfl, rfl⟩
  have hfails : ((World.deleter false 1 Nat.one_pos).delete (.ofText "/w/x")).run'
      ⟨World.concealed, [], []⟩ = none := by decide +kernel
  refine ⟨h, by decide, by decide, Or.inr ⟨.ofText "/w/x", rfl, rfl⟩, ?_⟩
  rintro ⟨s', hs'⟩
  unfold EStateM.run' EStateM.run at hfails
  rw [hs'] at hfails
  cases hfails

end TreeRemoval
