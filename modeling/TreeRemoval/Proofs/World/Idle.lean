import TreeRemoval.Proofs.FileSystem.Enumeration
import TreeRemoval.Proofs.World.Answers

/-! # Worlds at rest

Events that are used up, that do nothing or that wait for other calls leave looks alone. As long as
there are no others, every look is answered by the files as they are, and nothing changes.
-/

namespace TreeRemoval

def Call.IsLook (c : Call) : Prop := c = .stat ∨ c = .lstat ∨ c = .list

instance : DecidablePred Call.IsLook := fun _ => inferInstanceAs (Decidable (_ ∨ _ ∨ _))

namespace Event

def IsSpent (e : Event) : Prop := ∃ n ∈ e.times, e.skip + n ≤ e.seen

/-- The event leaves all looks to come at a path text alone: it is used up or does nothing, if it
waits for such looks at all. -/
def IsIdleAt (e : Event) (t : String) : Prop :=
  ∀ moment c, c.IsLook → e.isMatch moment c t = true →
    e.IsSpent ∨ e.edits = [] ∧ e.disruption = none

variable {e : Event} {c : Call} {moment : Moment} {t : String}

theorem IsSpent.count (h : e.IsSpent) : e.count.IsSpent := by
  obtain ⟨n, hn, hle⟩ := h
  exact ⟨n, hn, Nat.le_succ_of_le hle⟩

theorem IsSpent.isDue (h : e.IsSpent) : e.isDue = false := by
  obtain ⟨n, hn, hle⟩ := h
  rw [Option.mem_def] at hn
  simp only [Event.isDue, hn, Option.all_some, Bool.and_eq_false_iff, decide_eq_false_iff_not]
  exact Or.inr (Nat.not_lt.2 hle)

theorem IsIdleAt.count (h : e.IsIdleAt t) : e.count.IsIdleAt t := fun moment c hc hm =>
  (h moment c hc hm).imp_left IsSpent.count

theorem fire_of_idle {On : String → Prop} (hc : c.IsLook) (ht : On t) {events : List Event}
    (h : ∀ e ∈ events, ∀ t, On t → e.IsIdleAt t) (moment : Moment) (files : FileSystem) :
    (∀ e ∈ (fire moment c t events files).1, ∀ t, On t → e.IsIdleAt t) ∧
      (fire moment c t events files).2 = (files, none) := by
  induction events with
  | nil => exact ⟨h, rfl⟩
  | cons e rest ih =>
    obtain ⟨hidle, hdone⟩ := ih fun e' he' => h e' (List.mem_cons_of_mem _ he')
    have he := h e List.mem_cons_self
    have hcounted : ∀ e' ∈ e.count :: (fire moment c t rest files).1, ∀ t, On t → e'.IsIdleAt t :=
      List.forall_mem_cons.2 ⟨fun t ht => (he t ht).count, hidle⟩
    unfold fire
    by_cases hm : e.isMatch moment c t = true
    · rw [if_pos hm]
      by_cases hd : e.isDue = true
      · have hnothing := (he t ht moment c hc hm).resolve_left fun hs => by
          rw [hs.isDue] at hd
          cases hd
        rw [if_pos hd, hnothing.1, hnothing.2]
        exact ⟨hcounted, hdone⟩
      · rw [if_neg hd]
        exact ⟨hcounted, hdone⟩
    · rw [if_neg hm]
      exact ⟨List.forall_mem_cons.2 ⟨he, hidle⟩, hdone⟩

end Event

/-- The absolute form of a path can be told: it needs no working directory, or there is one. -/
def FileSystem.Grounds (fs : FileSystem) (workingDirectory : String) (p : Path) : Prop :=
  p.isAbsolute = true ∨ ∃ status,
    fs.stat workingDirectory workingDirectory = .ok status ∧ status.kind = .directory

theorem FileSystem.Grounds.descend {fs : FileSystem} {workingDirectory : String} {p : Path}
    (h : fs.Grounds workingDirectory p) (names : List Name) :
    fs.Grounds workingDirectory (p.descend names) :=
  h

namespace World

/-- The world has these files and this working directory, and looks at some texts find them as they
are. -/
structure AtRest (fs : FileSystem) (workingDirectory : String) (On : String → Prop) (w : World) :
    Prop where
  files : w.files = fs
  workingDirectory : w.workingDirectory = workingDirectory
  readable : ∀ t, On t → '\x00' ∉ t.toList
  idle : ∀ e ∈ w.events, ∀ t, On t → e.IsIdleAt t

namespace AtRest

open FileSystem

variable {fs : FileSystem} {workingDirectory : String} {On : String → Prop} {w : World} {c : Call}
  {t : String} {p : Path}

variable (hw : AtRest fs workingDirectory On w)

include hw

theorem ends_fire (hc : c.IsLook) (ht : On t) (moment : Moment) :
    Ends (fire moment c t) w (fun _ w' => AtRest fs workingDirectory On w') fun _ _ => False := by
  obtain ⟨hidle, hdone⟩ := Event.fire_of_idle hc ht hw.idle moment w.files
  unfold Ends fire
  rcases hf : Event.fire moment c t w.events w.files with ⟨events, files, fault⟩
  rw [hf] at hidle hdone
  cases hdone
  exact ⟨hw.files, hw.workingDirectory, hw.readable, hidle⟩

/-- A look is answered by the files. -/
theorem ends_look {α : Type} (hc : c.IsLook) (ht : On t)
    (look : FileSystem → String → Except Errno α) :
    Ends (call c t (looking look)) w
      (fun a w' => AtRest fs workingDirectory On w' ∧ look fs workingDirectory = .ok a)
      (fun f w' => AtRest fs workingDirectory On w' ∧
        ∃ e, look fs workingDirectory = .error e ∧ f = .system ⟨e, some t⟩) := by
  unfold call
  apply Ends.seq (hw.ends_fire hc ht .before) fun _ _ h => h.elim
  rintro - w₁ hw₁
  apply Ends.bind (Q := fun a w' => AtRest fs workingDirectory On w' ∧
    look fs workingDirectory = .ok a)
  · unfold Ends World.work
    simp only [if_neg (hw.readable t ht), looking, hw₁.files, hw₁.workingDirectory]
    cases hl : look fs workingDirectory with
    | ok a => exact ⟨⟨rfl, rfl, hw₁.readable, hw₁.idle⟩, rfl⟩
    | error e => exact ⟨hw₁, e, rfl, rfl⟩
  · rintro a w₂ ⟨hw₂, hl⟩
    apply Ends.seq (hw₂.ends_fire hc ht .after) fun _ _ h => h.elim
    exact fun _ w₃ hw₃ => Ends.pure ⟨hw₃, hl⟩

theorem ends_shows (hc : c.IsLook) (ht : On t)
    (look : FileSystem → String → Except Errno Status) (test : Status → Bool) :
    Ends (Environment.shows (call c t (looking look)) test) w
      (fun b w' => AtRest fs workingDirectory On w' ∧ b = showsAt (look fs workingDirectory) test)
      fun _ _ => False := by
  unfold Environment.shows
  apply Ends.bind_outcome (hw.ends_look hc ht look)
  · rintro status w' ⟨hw', hl⟩
    exact Ends.pure ⟨hw', by rw [hl]; rfl⟩
  · rintro _ w' ⟨hw', e, hl, rfl⟩
    exact Ends.pure ⟨hw', by rw [hl]; rfl⟩

theorem ends_isDirectory (ht : On t) :
    Ends (environment.isDirectory t) w
      (fun b w' => AtRest fs workingDirectory On w' ∧
        b = showsAt (fs.stat workingDirectory t) (·.kind = .directory)) fun _ _ => False :=
  hw.ends_shows (by decide) ht (fun files cwd => files.stat cwd t) _

theorem ends_isLink (ht : On t) :
    Ends (environment.isLink t) w
      (fun b w' => AtRest fs workingDirectory On w' ∧
        b = showsAt (fs.lstat workingDirectory t) (·.kind = .link)) fun _ _ => False :=
  hw.ends_shows (by decide) ht (fun files cwd => files.lstat cwd t) _

theorem ends_look? (ht : On t) {status : Status}
    (hl : fs.lstat workingDirectory t = .ok status) :
    Ends (environment.look? t) w
      (fun r w' => AtRest fs workingDirectory On w' ∧ r = some status) fun _ _ => False := by
  unfold Environment.look?
  refine Ends.bind_outcome (Ends.awaited (E := fun _ _ => False)
    ((hw.ends_look (c := .lstat) (by decide) ht fun files cwd => files.lstat cwd t).mono
      (fun _ _ h => h) ?_)) ?_ fun _ _ h => h.elim
  · rintro f w' ⟨-, e, he, -⟩
    rw [hl] at he
    cases he
  · rintro status' w' ⟨hw', hl'⟩
    rw [hl] at hl'
    cases hl'
    exact Ends.pure ⟨hw', rfl⟩

theorem ends_children (ht : On p.text) {names : List Name}
    (hl : fs.list workingDirectory p.text = .ok names) :
    Ends (environment.children p) w
      (fun children w' => AtRest fs workingDirectory On w' ∧
        children = fs.childrenOf workingDirectory p) fun _ _ => False := by
  unfold Environment.children
  apply Ends.bind (Q := fun names' w' => AtRest fs workingDirectory On w' ∧ names' = names)
  · refine Ends.awaited
      ((hw.ends_look (c := .list) (by decide) ht fun files cwd => files.list cwd p.text).mono ?_ ?_)
    · rintro names' w' ⟨hw', hl'⟩
      rw [hl] at hl'
      cases hl'
      exact ⟨hw', rfl⟩
    · rintro f w' ⟨-, e, he, -⟩
      rw [hl] at he
      cases he
  · rintro _ w' ⟨hw', rfl⟩
    exact Ends.pure ⟨hw', by rw [childrenOf, hl]⟩

theorem ends_absolute (ha : fs.Grounds workingDirectory p) :
    Ends (environment.absolute p) w
      (fun t w' => AtRest fs workingDirectory On w' ∧ t = (p.absolute workingDirectory).text)
      fun _ _ => False := by
  unfold Environment.absolute
  by_cases habsolute : p.isAbsolute = true
  · rw [if_pos habsolute]
    exact Ends.pure ⟨hw, by rw [Path.absolute, Path.under, if_pos habsolute]⟩
  · rw [if_neg habsolute]
    obtain ⟨⟨kind, m⟩, hstat, rfl⟩ := ha.resolve_left habsolute
    apply Ends.bind (Q := fun t w' => AtRest fs workingDirectory On w' ∧ t = workingDirectory)
    · change Ends currentDirectory w _ _
      unfold Ends currentDirectory
      rw [hw.files, hw.workingDirectory, hstat]
      exact ⟨hw, rfl⟩
    · rintro _ w' ⟨hw', rfl⟩
      exact Ends.pure ⟨hw', rfl⟩

end AtRest

end World

end TreeRemoval
