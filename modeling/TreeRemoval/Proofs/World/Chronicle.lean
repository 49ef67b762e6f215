import TreeRemoval.Deletion.Settings
import TreeRemoval.Proofs.World.RealPath
import TreeRemoval.Trace

/-! # Chronicles

An environment with others at work between its calls, and with a record of every moment: a step of
others, or a call with its outcome, and the state afterwards. Whatever others do in one step is
within a relation between file systems, and so is what they have done by the time of a call.
-/

namespace TreeRemoval

/-- Something that happened, a call or a step of others, with the state afterwards. -/
structure Incident (σ : Type) where
  call : Option TraceEntry
  state : σ

/-- A state with all that has happened, and with the number of calls so far. -/
structure Chronicle (σ : Type) where
  state : σ
  past : List (Incident σ) := []
  calls : Nat := 0

namespace Chronicle

variable {σ α : Type}

def start (s : σ) : Chronicle σ := { state := s, past := [⟨none, s⟩] }

def step (c : Chronicle σ) (f : σ → σ) : Chronicle σ :=
  { c with state := f c.state, past := c.past ++ [⟨none, f c.state⟩] }

def wait (others : Nat → List (σ → σ)) (c : Chronicle σ) : Chronicle σ :=
  (others c.calls).foldl step c

def enter (c : Chronicle σ) (entry : TraceEntry) (s : σ) : Chronicle σ :=
  ⟨s, c.past ++ [⟨some entry, s⟩], c.calls + 1⟩

def call (others : Nat → List (σ → σ)) (kind : Call) (t : String) (work : EStateM Fault σ α) :
    EStateM Fault (Chronicle σ) α := fun c =>
  match work (c.wait others).state with
  | .ok a s => .ok a ((c.wait others).enter ⟨kind, t, none⟩ s)
  | .error fault s => .error fault ((c.wait others).enter ⟨kind, t, some fault⟩ s)

def lift (ask : EStateM Fault σ α) : EStateM Fault (Chronicle σ) α := fun c =>
  match ask c.state with
  | .ok a s => .ok a { c with state := s }
  | .error fault s => .error fault { c with state := s }

def reading (now : σ → Float × σ) : Chronicle σ → Float × Chronicle σ := fun c =>
  let (time, s) := now c.state
  (time, { c with state := s })

theorem ends_call {others : Nat → List (σ → σ)} {kind : Call} {t : String}
    {work : EStateM Fault σ α} {c : Chronicle σ} {Q : α → Chronicle σ → Prop}
    {E : Fault → Chronicle σ → Prop}
    (h : Ends work (c.wait others).state
      (fun a s => Q a ((c.wait others).enter ⟨kind, t, none⟩ s))
      fun f s => E f ((c.wait others).enter ⟨kind, t, some f⟩ s)) :
    Ends (call others kind t work) c Q E := by
  unfold Ends call at *
  cases hw : work (c.wait others).state <;> simpa [hw] using h

theorem ends_lift {ask : EStateM Fault σ α} {c : Chronicle σ} {Q : α → Chronicle σ → Prop}
    {E : Fault → Chronicle σ → Prop}
    (h : Ends ask c.state (fun a s => Q a { c with state := s })
      fun f s => E f { c with state := s }) :
    Ends (lift ask) c Q E := by
  unfold Ends lift at *
  cases hw : ask c.state <;> simpa [hw] using h

/-- When nobody else is at work, keeping a record makes no difference to a call. -/
theorem matches_call {others : Nat → List (σ → σ)} {c : Chronicle σ} (hw : c.wait others = c)
    (kind : Call) (t : String) (work : EStateM Fault σ α) :
    Matches work (call others kind t work) c.state c
      (fun a s a' c' => a' = a ∧ c' = c.enter ⟨kind, t, none⟩ s)
      fun f s f' c' => f' = f ∧ c' = c.enter ⟨kind, t, some f⟩ s := by
  cases h : work c.state with
  | ok a s => exact .of_ok h (by unfold call; rw [hw, h]) ⟨rfl, rfl⟩
  | error f s => exact .of_error h (by unfold call; rw [hw, h]) ⟨rfl, rfl⟩

theorem matches_lift {c : Chronicle σ} (ask : EStateM Fault σ α) :
    Matches ask (lift ask) c.state c (fun a s a' c' => a' = a ∧ c' = { c with state := s })
      fun f s f' c' => f' = f ∧ c' = { c with state := s } := by
  cases h : ask c.state with
  | ok a s => exact .of_ok h (by unfold lift; rw [h]) ⟨rfl, rfl⟩
  | error f s => exact .of_error h (by unfold lift; rw [h]) ⟨rfl, rfl⟩

end Chronicle

/-- The environment with others at work before each of its calls, as many steps as they take before
the call of that number; `pauseText` stands for the pause. -/
def Environment.chronicled {σ : Type} (others : Nat → List (σ → σ)) (pauseText : String)
    (env : Environment σ) : Environment (Chronicle σ) where
  stat t := Chronicle.call others .stat t (env.stat t)
  lstat t := Chronicle.call others .lstat t (env.lstat t)
  list t := Chronicle.call others .list t (env.list t)
  rmdir t := Chronicle.call others .rmdir t (env.rmdir t)
  unlink t := Chronicle.call others .unlink t (env.unlink t)
  mkdir t := Chronicle.call others .mkdir t (env.mkdir t)
  readLink t := Chronicle.lift (env.readLink t)
  workingDirectory := Chronicle.lift env.workingDirectory
  pause := Chronicle.call others .pause pauseText env.pause
  collect := Chronicle.call others .collect "" env.collect

/-- What others do to the files before each call. -/
abbrev Interference := Nat → List (FileSystem → FileSystem)

namespace Interference

structure Obeys (others : Interference) (R : FileSystem → FileSystem → Prop) : Prop where
  refl : ∀ fs, R fs fs
  trans : ∀ {fs fs' fs''}, R fs fs' → R fs' fs'' → R fs fs''
  step : ∀ n, ∀ f ∈ others n, ∀ fs, R fs (f fs)

def none : Interference := fun _ => []

/-- Others take nodes away, each with everything below it. -/
def removals (places : Nat → List Location) : Interference :=
  fun n => (places n).map fun place fs => fs.remove place

theorem obeys_none : none.Obeys fun fs fs' => fs' = fs where
  refl _ := rfl
  trans h h' := h'.trans h
  step _ _ h := by cases h

theorem obeys_anything (others : Interference) : others.Obeys fun _ _ => True :=
  ⟨fun _ => trivial, fun _ _ => trivial, fun _ _ _ _ => trivial⟩

theorem obeys_removals (places : Nat → List Location) :
    (removals places).Obeys fun fs fs' => fs' ≤ fs where
  refl := le_refl
  trans h h' := le_trans h' h
  step n f hf fs := by
    obtain ⟨place, -, rfl⟩ := List.mem_map.1 hf
    exact FileSystem.remove_le fs place

end Interference

namespace World

def interfere (f : FileSystem → FileSystem) (w : World) : World := { w with files := f w.files }

end World

def Interference.steps (others : Interference) : Nat → List (World → World) :=
  fun n => (others n).map World.interfere

/-- The environment of a world with others at work. -/
def World.amid (others : Interference) : Environment (Chronicle World) :=
  environment.chronicled others.steps pauseText

namespace Chronicle

open World

variable {others : Interference} {R : FileSystem → FileSystem → Prop} {c c' c'' : Chronicle World}
  {texts texts' : List String} {kind : Call} {t : String} {f : Fault} {p : Path} {α : Type}

def listed (i : Incident World) : Option String :=
  match i.call with
  | some ⟨.list, t, none⟩ => some t
  | _ => none

def listings (c : Chronicle World) : List String := c.past.filterMap listed

structure Goes (R : FileSystem → FileSystem → Prop) (texts : List String)
    (c c' : Chronicle World) : Prop where
  becomes : Becomes R c.state c'.state
  past : ∃ new, c'.past = c.past ++ new ∧ new.filterMap listed = texts

namespace Goes

theorem world (h : Goes R texts c c') : c.state.Follows c'.state := h.becomes.1

theorem files (h : Goes R texts c c') : R c.state.files c'.state.files := h.becomes.2

theorem listings (h : Goes R texts c c') : c'.listings = c.listings ++ texts := by
  obtain ⟨new, hp, rfl⟩ := h.past
  rw [Chronicle.listings, hp, List.filterMap_append]
  rfl

theorem mem_past (h : Goes R texts c c') {i : Incident World} (hi : i ∈ c.past) : i ∈ c'.past := by
  obtain ⟨new, hp, -⟩ := h.past
  rw [hp]
  exact List.mem_append_left _ hi

theorem weaken {R' : FileSystem → FileSystem → Prop} (h : Goes R texts c c')
    (hR : R c.state.files c'.state.files → R' c.state.files c'.state.files) :
    Goes R' texts c c' :=
  ⟨⟨h.world, hR h.files⟩, h.past⟩

end Goes

/-- A call with this outcome has left the files as they are. -/
def Tells (c : Chronicle World) (entry : TraceEntry) : Prop :=
  ∃ i ∈ c.past, i.call = some entry ∧ i.state.files = c.state.files

def Told (c : Chronicle World) (t : String) : Prop := ∃ entry, c.Tells entry ∧ entry.text = t

theorem Tells.told {entry : TraceEntry} (h : c.Tells entry) : c.Told entry.text := ⟨entry, h, rfl⟩

theorem tells_enter (c : Chronicle World) (entry : TraceEntry) (w : World) :
    (c.enter entry w).Tells entry :=
  ⟨_, List.mem_append_right _ (List.mem_singleton_self _), rfl, rfl⟩

variable (ho : others.Obeys R)

include ho

theorem goes_refl (c : Chronicle World) : Goes R [] c c := ⟨⟨.refl _, ho.refl _⟩, [], by simp, rfl⟩

theorem goes_trans (h : Goes R texts c c') (h' : Goes R texts' c' c'') :
    Goes R (texts ++ texts') c c'' := by
  obtain ⟨new, hp, rfl⟩ := h.past
  obtain ⟨new', hp', rfl⟩ := h'.past
  exact ⟨⟨h.world.trans h'.world, ho.trans h.files h'.files⟩, new ++ new', by simp [hp, hp'],
    by simp⟩

theorem goes_steps (fs : List (FileSystem → FileSystem)) (hfs : ∀ f ∈ fs, ∀ files, R files (f files))
    (c : Chronicle World) : Goes R [] c ((fs.map interfere).foldl step c) := by
  induction fs generalizing c with
  | nil => exact goes_refl ho c
  | cons f rest ih =>
    have hstep : Goes R [] c (c.step (interfere f)) :=
      ⟨⟨⟨rfl, rfl, rfl⟩, hfs f List.mem_cons_self _⟩, _, rfl, rfl⟩
    exact goes_trans ho hstep (ih (fun f' hf => hfs f' (List.mem_cons_of_mem _ hf)) _)

theorem goes_wait (c : Chronicle World) :
    Goes R [] c (c.wait others.steps) :=
  goes_steps ho (others c.calls) (ho.step c.calls) c

/-- A look tells what is there when it is done. -/
theorem ends_looking (hq : c.state.Quiet) (kind : Call) (t : String)
    (look : FileSystem → String → Except Errno α) :
    Ends (call others.steps kind t (World.call kind t (looking look))) c
      (fun a c' => Goes R (listed ⟨some ⟨kind, t, none⟩, c'.state⟩).toList c c' ∧
        c'.Tells ⟨kind, t, none⟩ ∧ '\x00' ∉ t.toList ∧
        look c'.state.files c.state.workingDirectory = .ok a)
      (fun f c' => Goes R [] c c' ∧ c'.Tells ⟨kind, t, some f⟩ ∧
        (f = .nullByte ∧ '\x00' ∈ t.toList ∨
          ∃ e, f = .system ⟨e, some t⟩ ∧ look c'.state.files c.state.workingDirectory = .error e)) := by
  have hw := goes_wait ho c
  have hdone : ∀ (entry : TraceEntry) {w : World},
      (c.wait others.steps).state.Follows w →
      w.files = (c.wait others.steps).state.files →
      Goes R (listed ⟨some entry, w⟩).toList c
        ((c.wait others.steps).enter entry w) := by
    intro entry w hf hfiles
    refine goes_trans ho hw ⟨⟨hf, ?_⟩, [⟨some entry, w⟩], rfl, ?_⟩
    · change R _ w.files
      rw [hfiles]
      exact ho.refl _
    · cases h : listed ⟨some entry, w⟩ <;> simp [h]
  refine ends_call ((World.ends_looking (hw.world.quiet hq).calm look).mono ?_ ?_)
  · rintro a w ⟨hf, hfiles, hn, hl⟩
    refine ⟨hdone _ hf hfiles, tells_enter _ _ w, hn, ?_⟩
    rw [hw.world.workingDirectory, ← hfiles] at hl
    exact hl
  · rintro f w ⟨hf, hfiles, hcause⟩
    refine ⟨?_, tells_enter _ _ w, ?_⟩
    · have hnone : listed ⟨some ⟨kind, t, some f⟩, w⟩ = none := by cases kind <;> rfl
      simpa [hnone] using hdone ⟨kind, t, some f⟩ hf hfiles
    · cases hcause with
      | refused he =>
        rw [hw.world.workingDirectory, ← hfiles] at he
        exact Or.inr ⟨_, rfl, he⟩
      | nullByte hn => exact Or.inl ⟨rfl, hn⟩
      | struck hs => exact absurd hs (hw.world.quiet hq).not_strikes

/-- A change does its work on what others have left. -/
theorem ends_changing (hq : c.state.Quiet) (kind : Call) (hk : kind ≠ .list) (t : String)
    (change : FileSystem → String → Option Float → Except Errno FileSystem) :
    Ends (call others.steps kind t (World.call kind t (changing change))) c
      (fun _ c' => ∃ c₁, Goes R [] c c₁ ∧ Goes (fun _ _ => True) [] c₁ c' ∧
        c'.Tells ⟨kind, t, none⟩ ∧
        change c₁.state.files c.state.workingDirectory c.state.changeTime = .ok c'.state.files)
      (fun f c' => Goes R [] c c' ∧ c'.Tells ⟨kind, t, some f⟩ ∧
        (f = .nullByte ∧ '\x00' ∈ t.toList ∨
          ∃ e, f = .system ⟨e, some t⟩ ∧
            change c'.state.files c.state.workingDirectory c.state.changeTime = .error e)) := by
  have hw := goes_wait ho c
  have hnone : ∀ {fault : Option Fault} {w : World}, listed ⟨some ⟨kind, t, fault⟩, w⟩ = none := by
    intro fault w
    cases kind <;> first | rfl | exact absurd rfl hk
  have hdone : ∀ {S : FileSystem → FileSystem → Prop} {fault : Option Fault} {w : World},
      Becomes S (c.wait others.steps).state w →
      Goes S [] (c.wait others.steps)
        ((c.wait others.steps).enter ⟨kind, t, fault⟩ w) := by
    intro S fault w hb
    exact ⟨hb, _, rfl, by simp [hnone]⟩
  refine ends_call ((World.ends_changing (hw.world.quiet hq).calm change).mono ?_ ?_)
  · rintro - w ⟨hf, -, hr⟩
    rw [hw.world.workingDirectory, hw.world.changeTime] at hr
    exact ⟨_, hw, hdone ⟨hf, trivial⟩, tells_enter _ _ w, hr⟩
  · rintro f w ⟨hf, ⟨hfiles, hcause⟩ | ⟨-, hs⟩⟩
    · refine ⟨goes_trans ho hw (hdone ⟨hf, by rw [hfiles]; exact ho.refl _⟩), tells_enter _ _ w, ?_⟩
      cases hcause with
      | refused he =>
        rw [hw.world.workingDirectory, hw.world.changeTime, ← hfiles] at he
        exact Or.inr ⟨_, rfl, he⟩
      | nullByte hn => exact Or.inl ⟨rfl, hn⟩
      | struck hs => exact absurd hs (hw.world.quiet hq).not_strikes
    · exact absurd hs (hw.world.quiet hq).not_strikes

end Chronicle

end TreeRemoval
