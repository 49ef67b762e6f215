import TreeRemoval.Proofs.Deletion.Scan
import TreeRemoval.Proofs.Deletion.Survey

/-! # Steps of a deletion under refusals

When all that events do is to refuse listings and removals, each step of a walk is determined by the
files and by the events so far.
-/

namespace TreeRemoval.World

open Deletion

variable {gc : Bool} {cap : Nat} {hcap : 0 < cap} {s : Session World} {p root : Path}
  {place parent : Location} {name : Name} {form : Form} {blocked : Bool}

theorem opens_iff {fs : FileSystem} (hl : fs.locate false p = .ok place)
    (hf : fs.formAt? place = some form) :
    LeadsToDirectory fs p ∧ ¬ IsLinkAt fs p ↔ form = .directory := by
  constructor
  · rintro ⟨⟨loc, hl', hd⟩, hlink⟩
    have hsame := (FileSystem.locate_false_of_true hl').resolve_right hlink
    rw [hl] at hsame
    cases hsame
    rw [hf] at hd
    exact Option.some.inj hd
  · rintro rfl
    refine ⟨⟨place, FileSystem.locate_true_of_not_link hl (by simp [hf]), hf⟩, ?_⟩
    rintro ⟨loc, target, hl', hlink⟩
    rw [hl] at hl'
    cases hl'
    rw [hf] at hlink
    cases hlink

def attempting (w : World) (p : Path) (parent : Location) (name : Name) (form : Form)
    (blocked : Bool) : World :=
  { w with
    events := (Event.attempt form.removal p.text blocked w.events).2
    files :=
      if (Event.attempt form.removal p.text blocked w.events).1 then w.files
      else w.files.removeEntry w.changeTime parent name }

/-- A node has been attempted, and its removal counted or its failure booked. The walk stops if a
failure fills the set. -/
structure Books (p : Path) (parent : Location) (name : Name) (form : Form) (blocked : Bool)
    (run : Run) (s : Session World) (r : Run × Bool) (s' : Session World) : Prop where
  world : s'.state = s.state.attempting p parent name form blocked
  interrupted : r.1.interrupted = run.interrupted
  outcome : ((Event.attempt form.removal p.text blocked s.state.events).1 = false ∧
      r.1.failed = run.failed ∧ r.1.deleted = run.deleted + 1 ∧ r.2 = false) ∨
    (Event.attempt form.removal p.text blocked s.state.events).1 = true ∧
      r.1.failed = run.failed.insert p.normalize.text ∧ r.1.deleted = run.deleted ∧
      r.2 = r.1.failed.isFull

namespace OnlyRefuses

variable (h : s.state.OnlyRefuses)

include h

/-- A path is walked into if it leads to a directory and is no link. -/
theorem ends_shouldFollow (hp : p.Proper) (ha : p.isAbsolute = true)
    (ht : '\x00' ∉ p.text.toList) :
    Ends ((deleter gc cap hcap).shouldFollow false p) s
      (fun b s' => s'.state = s.state ∧
        (b = true ↔ LeadsToDirectory s.state.files p ∧ ¬ IsLinkAt s.state.files p))
      (fun _ _ => False) := by
  unfold Deleter.shouldFollow
  apply Ends.seq (ends_perform_keep (h.ends_isDirectory hp ha ht))
  · rintro _ _ ⟨f, -, hf, -⟩
    exact hf
  rintro b s₁ ⟨⟨hw, hdir⟩, -, -⟩
  cases b with
  | false => exact Ends.pure ⟨hw, by simp at hdir; simp [hdir]⟩
  | true =>
    apply Ends.seq (ends_perform_keep ((hw ▸ h).ends_isLink hp ha ht))
    · rintro _ _ ⟨f, -, hf, -⟩
      exact hf
    rintro b s₂ ⟨⟨hw₂, hlink⟩, -, -⟩
    refine Ends.pure ⟨hw₂.trans hw, ?_⟩
    rw [hw] at hlink
    rw [← hlink, ← hdir]
    simp

/-- The listing of a directory is refused, which hides the entries, or gives them by name. -/
theorem ends_listChildren (hp : p.Proper) (ha : p.isAbsolute = true) (ht : '\x00' ∉ p.text.toList)
    (hl : s.state.files.locate true p = .ok place) {m : Float} {es : List (Name × Node)}
    (hg : s.state.files.get? place = some (.directory m es)) :
    Ends ((deleter gc cap hcap).listChildren p) s
      (fun r s' => s'.state = s.state.counting .list p.text ∧
        ((Event.refuses .list p.text s.state.events).1 = true ∧ r = some [] ∨
          (Event.refuses .list p.text s.state.events).1 = false ∧
            r = some (((es.map (·.1)).mergeSort fun a b => a.text ≤ b.text).map p.child)))
      (fun _ _ => False) := by
  unfold Deleter.listChildren
  apply Ends.bind (ends_observe_keep (h.ends_children hp ha ht hl hg))
  rintro (f | children) s₁ ⟨hr, -, -⟩
  · obtain ⟨hrefused, hw, e, rfl, hm⟩ := hr
    simp only [hm]
    apply Ends.bind (Q := fun _ s' => s'.state = s.state.counting .list p.text) (ends_note hw)
    intro _ s₂ hw₂
    exact Ends.pure ⟨hw₂, Or.inl ⟨hrefused, rfl⟩⟩
  · obtain ⟨hallowed, hw, rfl⟩ := hr
    exact Ends.pure ⟨hw, Or.inr ⟨hallowed, rfl⟩⟩

theorem ends_pauseBeforeRetry :
    Ends (deleter gc cap hcap).pauseBeforeRetry s.state (fun _ w' => w' = s.state)
      (fun _ _ => False) := by
  unfold Deleter.pauseBeforeRetry
  cases gc with
  | false => exact h.ends_pause
  | true =>
    apply Ends.bind h.ends_collect
    intro _ w₁ hw₁
    rw [hw₁]
    exact h.ends_pause

theorem follows_attempting (p : Path) (parent : Location) (name : Name) (form : Form)
    (blocked : Bool) : s.state.Follows (s.state.attempting p parent name form blocked) := by
  have hcount := h.follows_counting form.removal p.text
  refine ⟨?_, rfl, rfl⟩
  unfold attempting
  cases hb : (Event.refuses form.removal p.text s.state.events).1 || blocked with
  | false =>
    obtain ⟨hallowed, rfl⟩ := Bool.or_eq_false_iff.1 hb
    rw [Event.attempt_once hallowed]
    exact hcount.events
  | true =>
    rw [Event.attempt_twice hb]
    exact (hcount.trans ((hcount.onlyRefuses h).follows_counting form.removal p.text)).events

section Attempt

variable (hat : s.state.files.Holds p parent name form blocked)

include hat

theorem ends_tryOnce :
    Ends ((deleter gc cap hcap).tryOnce p) s
      (fun r s' =>
        ((Event.refuses form.removal p.text s.state.events).1 = false ∧ blocked = false ∧
          r = .ok true ∧ s'.state = s.state.removing form.removal p.text parent name) ∨
        ((Event.refuses form.removal p.text s.state.events).1 || blocked) = true ∧
          (∃ e, r = .error e) ∧ s'.state = s.state.counting form.removal p.text)
      (fun _ _ => False) := by
  unfold Deleter.tryOnce
  apply Ends.bind (ends_observe_keep (h.ends_removeNode hat))
  rintro r s₁ ⟨hr, -, -⟩
  apply Ends.bind (Q := fun _ s' => s'.state = s₁.state) (ends_record rfl)
  intro _ s₂ hw₂
  cases r with
  | ok removed =>
    obtain ⟨rfl, hallowed, hfree, hw⟩ := hr
    exact Ends.pure (Or.inl ⟨hallowed, hfree, rfl, hw₂.trans hw⟩)
  | error f =>
    obtain ⟨hwhy, hw, e, rfl⟩ := hr
    exact Ends.pure (Or.inr ⟨by simpa using hwhy, ⟨e, rfl⟩, hw₂.trans hw⟩)

/-- An attempt is decided by the refusals of its two tries and by what blocks the node. -/
theorem ends_attempt :
    Ends ((deleter gc cap hcap).attempt p) s
      (fun r s' => s'.state = s.state.attempting p parent name form blocked ∧
        (((Event.attempt form.removal p.text blocked s.state.events).1 = false ∧
            (r = .first true ∨ r = .second true)) ∨
          (Event.attempt form.removal p.text blocked s.state.events).1 = true ∧
            ∃ place e, r = .stuck place e))
      (fun _ _ => False) := by
  obtain ⟨⟨base, -, ha, hp⟩, -⟩ := id hat
  have ha : p.isAbsolute = true := hp ▸ ha
  unfold Deleter.attempt attempting
  apply Ends.bind (h.ends_tryOnce hat)
  rintro r s₁ (⟨hallowed, rfl, rfl, hw₁⟩ | ⟨hfails, ⟨e, rfl⟩, hw₁⟩)
  · rw [Event.attempt_once hallowed]
    exact Ends.pure ⟨hw₁, Or.inl ⟨rfl, Or.inl rfl⟩⟩
  rw [Event.attempt_twice hfails]
  apply Ends.bind (Q := fun _ s' => s'.state = s₁.state) (Deleter.ends_absolute ha rfl)
  intro _ s₂ hw₂
  apply Ends.bind (Q := fun _ s' => s'.state = s₁.state) (ends_note hw₂)
  intro _ s₃ hw₃
  have hcount := hw₃.trans hw₁
  have h₃ : s₃.state.OnlyRefuses := by
    rw [hcount]
    exact (h.follows_counting form.removal p.text).onlyRefuses h
  apply Ends.bind (ends_observe_keep h₃.ends_pauseBeforeRetry)
  rintro (f | u) s₄ ⟨hw₄, -, -⟩
  · exact hw₄.elim
  apply Ends.bind (Q := fun _ s' => s'.state = s₃.state) (ends_record hw₄)
  intro _ s₅ hw₅
  have hat₅ : s₅.state.files.Holds p parent name form blocked := by
    rw [hw₅, hcount]
    exact hat
  have h₅ : s₅.state.OnlyRefuses := by
    rw [hw₅]
    exact h₃
  apply Ends.bind (h₅.ends_tryOnce hat₅)
  rw [hw₅, hcount]
  rintro r s₆ (⟨hallowed, rfl, rfl, hw₆⟩ | ⟨hfails', ⟨e', rfl⟩, hw₆⟩)
  · have hagain : (Event.refuses form.removal p.text
        (Event.refuses form.removal p.text s.state.events).2).1 = false := hallowed
    rw [hagain]
    exact Ends.pure ⟨hw₆, Or.inl ⟨rfl, Or.inr rfl⟩⟩
  · have hagain : ((Event.refuses form.removal p.text
        (Event.refuses form.removal p.text s.state.events).2).1 || blocked) = true := hfails'
    rw [hagain]
    apply Ends.bind (Q := fun _ s' => s'.state = s₆.state) (Deleter.ends_absolute ha rfl)
    intro place s₇ hw₇
    exact Ends.pure ⟨hw₇.trans hw₆, Or.inr ⟨rfl, place, e', rfl⟩⟩

theorem ends_deleteNode (run : Run) :
    Ends ((deleter gc cap hcap).deleteNode run p) s (Books p parent name form blocked run s)
      (fun _ _ => False) := by
  obtain ⟨⟨base, -, ha, hp⟩, -⟩ := id hat
  have ha : p.isAbsolute = true := hp ▸ ha
  unfold Deleter.deleteNode
  apply Ends.bind (h.ends_attempt hat)
  rintro r s₁ ⟨hw₁, ⟨hgone, rfl | rfl⟩ | ⟨hstays, place, e, rfl⟩⟩
  · exact Ends.pure ⟨hw₁, rfl, Or.inl ⟨hgone, rfl, rfl, rfl⟩⟩
  · exact Ends.pure ⟨hw₁, rfl, Or.inl ⟨hgone, rfl, rfl, rfl⟩⟩
  · simp only [Deleter.deleteNode.book]
    apply Ends.bind (Q := fun place s' => place = p.normalize.text ∧ s'.state = s₁.state)
      (Deleter.ends_absolute ha ⟨rfl, rfl⟩)
    rintro _ s₂ ⟨rfl, hw₂⟩
    exact Ends.pure ⟨hw₂.trans hw₁, rfl, Or.inr ⟨hstays, rfl, rfl, rfl⟩⟩

theorem ends_leave {includeRoot : Bool} (hkept : includeRoot = true ∨ p ≠ root) (run : Run) :
    Ends ((deleter gc cap hcap).leave root includeRoot p run) s
      (Books p parent name form blocked run s) (fun _ _ => False) := by
  have hattempted : ¬ (p = root ∧ includeRoot = false) := by
    rintro ⟨rfl, rfl⟩
    simp at hkept
  unfold Deleter.leave
  rw [if_neg hattempted]
  apply Ends.bind (h.ends_deleteNode hat run)
  rintro ⟨run', full⟩ s₁ ⟨hw₁, hi, hr⟩
  cases full with
  | false => exact Ends.pure ⟨hw₁, hi, hr⟩
  | true =>
    apply Ends.bind (Q := fun _ s' => s'.state = s₁.state) (ends_note rfl)
    intro _ s₂ hw₂
    exact Ends.pure ⟨hw₂.trans hw₁, hi, hr⟩

end Attempt

end OnlyRefuses

end TreeRemoval.World
