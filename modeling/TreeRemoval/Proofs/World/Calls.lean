import TreeRemoval.Proofs.Computation
import TreeRemoval.Proofs.FileSystem.Locate
import TreeRemoval.World.Basic

/-! # Calls

A call does its own work at some moment between its start and its end, or none, and what fails is
refused by the file system or struck by an event. What others do in between is described by a
relation between file systems. When the events of a world make no edits, only their counts go on.
-/

namespace TreeRemoval

theorem Edit.applyAll_keeps {K : FileSystem → Prop} {edits : List Edit}
    (h : ∀ edit ∈ edits, ∀ fs, K fs → K (edit.apply fs)) {fs : FileSystem} (hk : K fs) :
    K (applyAll fs edits) := by
  induction edits generalizing fs with
  | nil => exact hk
  | cons edit rest ih =>
    exact ih (fun edit' hm => h edit' (List.mem_cons_of_mem _ hm))
      (h edit List.mem_cons_self fs hk)

namespace Event

/-- The event as it stands before any call has matched. -/
def fresh (e : Event) : Event := { e with seen := 0 }

@[simp] theorem fresh_count (e : Event) : e.count.fresh = e.fresh := rfl

def Strikes (e : Event) (moment : Moment) (call : Call) (t : String) (f : Fault) : Prop :=
  e.isMatch moment call t = true ∧ ∃ d, e.disruption = some d ∧ f = d.fault t

theorem strikes_of_fresh {e e' : Event} (h : e.fresh = e'.fresh) {moment : Moment} {call : Call}
    {t : String} {f : Fault} : e.Strikes moment call t f ↔ e'.Strikes moment call t f := by
  cases e; cases e'
  simp only [fresh, Event.mk.injEq] at h
  obtain ⟨rfl, rfl, rfl, rfl, rfl, rfl, rfl, rfl, -⟩ := h
  rfl

/-- Events keep what their edits keep, and a fault comes from one of them. -/
theorem fire_keeps {K : FileSystem → Prop} {events : List Event}
    (h : ∀ e ∈ events, ∀ edit ∈ e.edits, ∀ fs, K fs → K (edit.apply fs)) (moment : Moment)
    (call : Call) (t : String) {files : FileSystem} (hk : K files) :
    (fire moment call t events files).1.map fresh = events.map fresh ∧
      K (fire moment call t events files).2.1 ∧
      ∀ f, (fire moment call t events files).2.2 = some f →
        ∃ e ∈ events, e.Strikes moment call t f := by
  induction events generalizing files with
  | nil => exact ⟨rfl, hk, nofun⟩
  | cons e rest ih =>
    have hrest : ∀ {fs}, K fs → (fire moment call t rest fs).1.map fresh = rest.map fresh ∧
        K (fire moment call t rest fs).2.1 ∧
        ∀ f, (fire moment call t rest fs).2.2 = some f →
          ∃ e' ∈ e :: rest, e'.Strikes moment call t f := by
      intro fs hfs
      obtain ⟨ihe, ihk, ihs⟩ := ih (fun e' he' => h e' (List.mem_cons_of_mem _ he')) hfs
      refine ⟨ihe, ihk, fun f hf => ?_⟩
      obtain ⟨e', he', hs⟩ := ihs f hf
      exact ⟨e', List.mem_cons_of_mem _ he', hs⟩
    have hdone : K (Edit.applyAll files e.edits) :=
      Edit.applyAll_keeps (h e List.mem_cons_self) hk
    unfold fire
    by_cases hm : e.isMatch moment call t = true
    · rw [if_pos hm]
      by_cases hd : e.isDue = true
      · rw [if_pos hd]
        cases hd : e.disruption with
        | some d =>
          refine ⟨rfl, hdone, ?_⟩
          rintro f ⟨rfl⟩
          exact ⟨e, List.mem_cons_self, hm, d, hd, rfl⟩
        | none => exact ⟨by simp [(hrest hdone).1], (hrest hdone).2⟩
      · rw [if_neg hd]
        exact ⟨by simp [(hrest hk).1], (hrest hk).2⟩
    · rw [if_neg hm]
      exact ⟨by simp [(hrest hk).1], (hrest hk).2⟩

/-- Events without edits leave the files alone, and a fault comes from one of them. -/
theorem fire_of_calm {events : List Event} (h : ∀ e ∈ events, e.edits = []) (moment : Moment)
    (call : Call) (t : String) (files : FileSystem) :
    (fire moment call t events files).1.map fresh = events.map fresh ∧
      (fire moment call t events files).2.1 = files ∧
      ∀ f, (fire moment call t events files).2.2 = some f →
        ∃ e ∈ events, e.Strikes moment call t f := by
  refine fire_keeps (K := (· = files)) (fun e he edit hm => ?_) moment call t rfl
  rw [h e he] at hm
  cases hm

theorem fire_files (moment : Moment) (c : Call) (t : String) (events : List Event)
    (files files' : FileSystem) :
    (fire moment c t events files).1 = (fire moment c t events files').1 ∧
      (fire moment c t events files).2.2 = (fire moment c t events files').2.2 := by
  induction events generalizing files files' with
  | nil => exact ⟨rfl, rfl⟩
  | cons e rest ih =>
    unfold fire
    by_cases hm : e.isMatch moment c t = true
    · rw [if_pos hm, if_pos hm]
      by_cases hd : e.isDue = true
      · rw [if_pos hd, if_pos hd]
        cases e.disruption with
        | some d => exact ⟨rfl, rfl⟩
        | none =>
          obtain ⟨h₁, h₂⟩ := ih (Edit.applyAll files e.edits) (Edit.applyAll files' e.edits)
          exact ⟨congrArg (e.count :: ·) h₁, h₂⟩
      · rw [if_neg hd, if_neg hd]
        obtain ⟨h₁, h₂⟩ := ih files files'
        exact ⟨congrArg (e.count :: ·) h₁, h₂⟩
    · rw [if_neg hm, if_neg hm]
      obtain ⟨h₁, h₂⟩ := ih files files'
      exact ⟨congrArg (e :: ·) h₁, h₂⟩

end Event

namespace World

variable {w w' w'' : World} {moment : Moment} {c : Call} {t : String} {f : Fault} {p : Path}

/-- Nobody else changes the files. -/
def Calm (w : World) : Prop := ∀ e ∈ w.events, e.edits = []

def Strikes (w : World) (moment : Moment) (c : Call) (t : String) (f : Fault) : Prop :=
  ∃ e ∈ w.events, e.Strikes moment c t f

structure Follows (w w' : World) : Prop where
  events : w'.events.map Event.fresh = w.events.map Event.fresh
  workingDirectory : w'.workingDirectory = w.workingDirectory
  changeTime : w'.changeTime = w.changeTime

namespace Follows

theorem refl (w : World) : w.Follows w := ⟨rfl, rfl, rfl⟩

theorem trans (h : w.Follows w') (h' : w'.Follows w'') : w.Follows w'' :=
  ⟨h'.events.trans h.events, h'.workingDirectory.trans h.workingDirectory,
    h'.changeTime.trans h.changeTime⟩

theorem exists_fresh (h : w.Follows w') {e : Event} (he : e ∈ w'.events) :
    ∃ e' ∈ w.events, e'.fresh = e.fresh := by
  have hm : e.fresh ∈ w.events.map Event.fresh := by
    rw [← h.events]
    exact List.mem_map_of_mem he
  exact List.mem_map.1 hm

theorem calm (h : w.Follows w') (hc : w.Calm) : w'.Calm := by
  intro e he
  obtain ⟨e', he', hf⟩ := h.exists_fresh he
  have : e.fresh.edits = e'.fresh.edits := by rw [hf]
  exact this.trans (hc e' he')

theorem strikes (h : w.Follows w') (hs : w'.Strikes moment c t f) : w.Strikes moment c t f := by
  obtain ⟨e, he, hs⟩ := hs
  obtain ⟨e', he', hf⟩ := h.exists_fresh he
  exact ⟨e', he', (Event.strikes_of_fresh hf).2 hs⟩

end Follows

/-- Why a call failed without having done its work. -/
inductive Cause (w : World) (c : Call) (t : String) (refuses : Errno → Prop) : Fault → Prop
  | refused {e : Errno} (h : refuses e) : Cause w c t refuses (.system ⟨e, some t⟩)
  | nullByte (h : '\x00' ∈ t.toList) : Cause w c t refuses .nullByte
  | struck {f : Fault} {moment : Moment} (h : w.Strikes moment c t f) : Cause w c t refuses f

theorem Cause.path_eq {w : World} {c : Call} {t : String} {refuses : Errno → Prop} {e : SystemError}
    (h : Cause w c t refuses (.system e)) : e.path = some t := by
  cases h with
  | refused h => rfl
  | struck h =>
    obtain ⟨event, -, -, d, -, hf⟩ := h
    cases d <;> cases hf
    rfl

/-! ### Others at work -/

section Others

variable {R : FileSystem → FileSystem → Prop}

/-- Whatever the events do to the files, one edit after the other, is within a relation. -/
structure Obeys (w : World) (R : FileSystem → FileSystem → Prop) : Prop where
  refl : ∀ fs, R fs fs
  trans : ∀ {fs fs' fs''}, R fs fs' → R fs' fs'' → R fs fs''
  edits : ∀ e ∈ w.events, ∀ edit ∈ e.edits, ∀ fs, R fs (edit.apply fs)

def Becomes (R : FileSystem → FileSystem → Prop) (w w' : World) : Prop :=
  w.Follows w' ∧ R w.files w'.files

variable (hc : w.Obeys R)

include hc

theorem Obeys.of_follows (h : w.Follows w') : w'.Obeys R := by
  refine ⟨hc.refl, hc.trans, fun e he edit hm => ?_⟩
  obtain ⟨e', he', hf⟩ := h.exists_fresh he
  have hsame : e'.fresh.edits = e.fresh.edits := by rw [hf]
  exact hc.edits e' he' edit (hsame ▸ hm)

theorem Obeys.becomes_trans (h : Becomes R w' w'') {w₃ : World} (h' : Becomes R w'' w₃) :
    Becomes R w' w₃ :=
  ⟨h.1.trans h'.1, hc.trans h.2 h'.2⟩

theorem Obeys.ends_fire : Ends (fire moment c t) w (fun _ w' => Becomes R w w')
    (fun f w' => Becomes R w w' ∧ w.Strikes moment c t f) := by
  obtain ⟨he, hf, hs⟩ := Event.fire_keeps
    (fun e he edit hm fs hfs => hc.trans hfs (hc.edits e he edit hm fs)) moment c t
    (hc.refl w.files)
  unfold Ends fire
  rcases h : Event.fire moment c t w.events w.files with ⟨events, files, fault⟩
  rw [h] at he hf hs
  cases fault with
  | none => exact ⟨⟨he, rfl, rfl⟩, hf⟩
  | some f => exact ⟨⟨⟨he, rfl, rfl⟩, hf⟩, hs f rfl⟩

theorem Obeys.ends_call {α : Type} (work : World → Except Errno (α × FileSystem)) :
    Ends (call c t work) w
      (fun a w' => '\x00' ∉ t.toList ∧ ∃ w₁ fs, Becomes R w w₁ ∧ work w₁ = .ok (a, fs) ∧
        Becomes R { w₁ with files := fs } w')
      (fun f w' =>
        (∃ w₁, Becomes R w w₁ ∧ Becomes R w₁ w' ∧ Cause w c t (fun e => work w₁ = .error e) f) ∨
          (∃ w₁ a fs, Becomes R w w₁ ∧ work w₁ = .ok (a, fs) ∧
            Becomes R { w₁ with files := fs } w') ∧ w.Strikes .after c t f) := by
  have hstays : ∀ w', Becomes R w' w' := fun w' => ⟨.refl w', hc.refl _⟩
  apply Ends.bind (hc.ends_fire.mono (fun _ w' h => h) fun f w' h =>
    Or.inl ⟨w', h.1, hstays w', .struck h.2⟩)
  rintro - w₁ hw₁
  apply Ends.bind (Q := fun a w₂ => '\x00' ∉ t.toList ∧ work w₁ = .ok (a, w₂.files) ∧
    w₂ = { w₁ with files := w₂.files })
  · unfold Ends World.work
    by_cases hn : '\x00' ∈ t.toList
    · simp only [if_pos hn]
      exact Or.inl ⟨w₁, hw₁, hstays w₁, .nullByte hn⟩
    · simp only [if_neg hn]
      cases h : work w₁ with
      | ok r => exact ⟨hn, rfl, rfl⟩
      | error e => exact Or.inl ⟨w₁, hw₁, hstays w₁, .refused h⟩
  · rintro a w₂ ⟨hn, hwork, hw₂⟩
    have hf₂ : w.Follows w₂ := hw₁.1.trans (hw₂ ▸ ⟨rfl, rfl, rfl⟩)
    apply Ends.bind ((hc.of_follows hf₂).ends_fire.mono (fun _ w₃ h => h) fun f w₃ h =>
      Or.inr ⟨⟨w₁, a, w₂.files, hw₁, hwork, hw₂ ▸ h.1⟩, hf₂.strikes h.2⟩)
    rintro - w₃ hw₃
    exact Ends.pure ⟨hn, w₁, w₂.files, hw₁, hwork, hw₂ ▸ hw₃⟩

/-- A look tells what was there at some moment. -/
theorem Obeys.ends_looking {α : Type} (look : FileSystem → String → Except Errno α) :
    Ends (call c t (looking look)) w
      (fun a w' => '\x00' ∉ t.toList ∧
        ∃ w₁, Becomes R w w₁ ∧ Becomes R w₁ w' ∧ look w₁.files w.workingDirectory = .ok a)
      (fun f w' => ∃ w₁, Becomes R w w₁ ∧ Becomes R w₁ w' ∧
        Cause w c t (fun e => look w₁.files w.workingDirectory = .error e) f) := by
  refine (hc.ends_call _).mono ?_ ?_
  · rintro a w' ⟨hn, w₁, fs, hw₁, h, hw'⟩
    obtain ⟨a', hl, he⟩ := except_map_eq_ok_iff.1 h
    cases he
    exact ⟨hn, w₁, hw₁, hw', hw₁.1.workingDirectory ▸ hl⟩
  · rintro f w' (⟨w₁, hw₁, hw', hcause⟩ | ⟨⟨w₁, a, fs, hw₁, h, hw'⟩, hs⟩)
    · refine ⟨w₁, hw₁, hw', ?_⟩
      cases hcause with
      | refused h => exact .refused (hw₁.1.workingDirectory ▸ except_map_eq_error_iff.1 h)
      | nullByte h => exact .nullByte h
      | struck h => exact .struck h
    · obtain ⟨a', -, he⟩ := except_map_eq_ok_iff.1 h
      cases he
      exact ⟨w₁, hw₁, hw', .struck hs⟩

end Others

/-! ### Nobody else at work -/

theorem Calm.obeys (hc : w.Calm) : w.Obeys fun fs fs' => fs' = fs where
  refl _ := rfl
  trans h h' := h'.trans h
  edits e he edit hm := by
    rw [hc e he] at hm
    cases hm

theorem ends_call {α : Type} (hc : w.Calm) {work : World → Except Errno (α × FileSystem)}
    (hw : ∀ w', w.Follows w' → w'.files = w.files → work w' = work w) :
    Ends (call c t work) w
      (fun a w' => w.Follows w' ∧ '\x00' ∉ t.toList ∧ work w = .ok (a, w'.files))
      (fun f w' => w.Follows w' ∧
        (w'.files = w.files ∧ Cause w c t (fun e => work w = .error e) f ∨
          (∃ a, work w = .ok (a, w'.files)) ∧ w.Strikes .after c t f)) := by
  have hdone : ∀ {w₁ w' : World} {a : α} {fs : FileSystem}, w.Follows w₁ → w₁.files = w.files →
      work w₁ = .ok (a, fs) → Becomes (fun fs fs' => fs' = fs) { w₁ with files := fs } w' →
      w.Follows w' ∧ work w = .ok (a, w'.files) := by
    rintro w₁ w' a _ hf₁ hfiles₁ hwork ⟨hf', rfl⟩
    exact ⟨hf₁.trans ⟨hf'.events, hf'.workingDirectory, hf'.changeTime⟩,
      hw w₁ hf₁ hfiles₁ ▸ hwork⟩
  refine (hc.obeys.ends_call work).mono ?_ ?_
  · rintro a w' ⟨hn, w₁, fs, ⟨hf₁, hfiles₁⟩, hwork, hw'⟩
    obtain ⟨hf, hwork⟩ := hdone hf₁ hfiles₁ hwork hw'
    exact ⟨hf, hn, hwork⟩
  · rintro f w' (⟨w₁, ⟨hf₁, hfiles₁⟩, ⟨hf', hsame⟩, hcause⟩ | ⟨⟨w₁, a, fs, hw₁, hwork, hw'⟩, hs⟩)
    · rw [hw w₁ hf₁ hfiles₁] at hcause
      exact ⟨hf₁.trans hf', Or.inl ⟨hsame.trans hfiles₁, hcause⟩⟩
    · obtain ⟨hf, hwork⟩ := hdone hw₁.1 hw₁.2 hwork hw'
      exact ⟨hf, Or.inr ⟨⟨a, hwork⟩, hs⟩⟩

theorem ends_looking {α : Type} (hc : w.Calm) (look : FileSystem → String → Except Errno α) :
    Ends (call c t (looking look)) w
      (fun a w' => w.Follows w' ∧ w'.files = w.files ∧ '\x00' ∉ t.toList ∧
        look w.files w.workingDirectory = .ok a)
      (fun f w' => w.Follows w' ∧ w'.files = w.files ∧
        Cause w c t (fun e => look w.files w.workingDirectory = .error e) f) := by
  refine (hc.obeys.ends_looking look).mono ?_ ?_
  · rintro a w' ⟨hn, w₁, ⟨hf₁, hfiles₁⟩, ⟨hf', hsame⟩, hl⟩
    exact ⟨hf₁.trans hf', hsame.trans hfiles₁, hn, hfiles₁ ▸ hl⟩
  · rintro f w' ⟨w₁, ⟨hf₁, hfiles₁⟩, ⟨hf', hsame⟩, hcause⟩
    rw [hfiles₁] at hcause
    exact ⟨hf₁.trans hf', hsame.trans hfiles₁, hcause⟩

def Still (w w' : World) : Prop := w.Follows w' ∧ w'.files = w.files

theorem Still.refl (w : World) : w.Still w := ⟨.refl w, rfl⟩

theorem Still.trans (h : w.Still w') (h' : w'.Still w'') : w.Still w'' :=
  ⟨h.1.trans h'.1, h'.2.trans h.2⟩

theorem keeps_looking {α : Type} (hc : w.Calm) (c : Call) (t : String)
    (look : FileSystem → String → Except Errno α) : Keeps w.Still (call c t (looking look)) := by
  intro w₁ hw₁
  exact (ends_looking (hw₁.1.calm hc) look).mono (fun _ _ h => hw₁.trans ⟨h.1, h.2.1⟩)
    fun _ _ h => hw₁.trans ⟨h.1, h.2.1⟩

theorem ends_currentDirectory :
    Ends currentDirectory w (fun t w' => w' = w ∧ t = w.workingDirectory) fun _ w' => w' = w := by
  unfold Ends currentDirectory
  cases w.files.stat w.workingDirectory w.workingDirectory with
  | error e => rfl
  | ok status =>
    obtain ⟨kind, modified⟩ := status
    cases kind <;> first | rfl | exact ⟨rfl, rfl⟩

theorem ends_changing (hc : w.Calm)
    (change : FileSystem → String → Option Float → Except Errno FileSystem) :
    Ends (call c t (changing change)) w
      (fun _ w' => w.Follows w' ∧ '\x00' ∉ t.toList ∧
        change w.files w.workingDirectory w.changeTime = .ok w'.files)
      (fun f w' => w.Follows w' ∧
        (w'.files = w.files ∧
            Cause w c t (fun e => change w.files w.workingDirectory w.changeTime = .error e) f ∨
          change w.files w.workingDirectory w.changeTime = .ok w'.files ∧
            w.Strikes .after c t f)) := by
  refine (ends_call hc ?_).mono ?_ ?_
  · intro w' hf hfiles
    simp only [changing, hfiles, hf.workingDirectory, hf.changeTime]
  · rintro a w' ⟨hf, hn, hl⟩
    obtain ⟨a', hl, he⟩ := except_map_eq_ok_iff.1 hl
    cases he
    exact ⟨hf, hn, hl⟩
  · rintro f w' ⟨hf, ⟨hfiles, hcause⟩ | ⟨⟨a, hl⟩, hs⟩⟩
    · refine ⟨hf, Or.inl ⟨hfiles, ?_⟩⟩
      cases hcause with
      | refused h => exact .refused (except_map_eq_error_iff.1 h)
      | nullByte h => exact .nullByte h
      | struck h => exact .struck h
    · obtain ⟨a', hl, he⟩ := except_map_eq_ok_iff.1 hl
      cases he
      exact ⟨hf, Or.inr ⟨hl, hs⟩⟩

end World

end TreeRemoval
