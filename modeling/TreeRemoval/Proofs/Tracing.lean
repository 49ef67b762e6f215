import Mathlib.Data.List.Forall2
import TreeRemoval.Proofs.Deletion.Accounts
import TreeRemoval.Proofs.Deletion.Parallel
import TreeRemoval.Trace

/-! # What acts stand for

A walk goes the same way if a trace of its calls is kept, and the acts of its session are the
removals and pauses of that trace: each try takes one removal of its own path at most, each pause
one pause at most, and there are no others.
-/

namespace TreeRemoval

variable {σ α : Type}

def TraceEntry.isActed (e : TraceEntry) : Bool := e.call ∈ [.rmdir, .unlink, .pause]

/-- The removals and pauses that an act takes. -/
inductive Act.Takes (pauseText : String) : Act → List TraceEntry → Prop
  | unneeded (p : Path) {r : Except Fault Bool} (hr : r ≠ .ok true) :
      Takes pauseText (.tried p r) []
  | removed (p : Path) {c : Call} (hc : c = .rmdir ∨ c = .unlink) :
      Takes pauseText (.tried p (.ok true)) [⟨c, p.text, none⟩]
  | refused (p : Path) {c : Call} (hc : c = .rmdir ∨ c = .unlink) (f : Fault)
      {r : Except Fault Bool} (hr : r ≠ .ok true) :
      Takes pauseText (.tried p r) [⟨c, p.text, some f⟩]
  | paused (p : Path) : Takes pauseText (.paused p (.ok ())) [⟨.pause, pauseText, none⟩]
  | broken (p : Path) (f f' : Fault) :
      Takes pauseText (.paused p (.error f')) [⟨.pause, pauseText, some f⟩]
  | uncollected (p : Path) (f : Fault) : Takes pauseText (.paused p (.error f)) []

/-- The removals and pauses of a trace since some earlier ones are what the acts since some earlier
ones have taken. -/
def Traced.Explains (pauseText : String) (before : List TraceEntry) (acts₀ acts : List Act)
    (s : Traced σ) : Prop :=
  ∃ new calls, acts = acts₀ ++ new ∧ List.Forall₂ (Act.Takes pauseText) new calls ∧
    s.trace.filter TraceEntry.isActed = before ++ calls.flatten

namespace Traced.Explains

variable {pauseText : String} {before calls : List TraceEntry} {acts₀ acts : List Act} {act : Act}
  {s s' : Traced σ}

theorem of_eq (h : s.Explains pauseText before acts₀ acts)
    (he : s'.trace.filter TraceEntry.isActed = s.trace.filter TraceEntry.isActed) :
    s'.Explains pauseText before acts₀ acts := by
  obtain ⟨new, calls, hacts, htakes, htrace⟩ := h
  exact ⟨new, calls, hacts, htakes, he.trans htrace⟩

theorem concat (h : s.Explains pauseText before acts₀ acts) (ht : act.Takes pauseText calls)
    (he : s'.trace.filter TraceEntry.isActed = s.trace.filter TraceEntry.isActed ++ calls) :
    s'.Explains pauseText before acts₀ (acts ++ [act]) := by
  obtain ⟨new, calls', rfl, htakes, htrace⟩ := h
  refine ⟨new ++ [act], calls' ++ [calls], List.append_assoc _ _ _,
    List.rel_append htakes (.cons ht .nil), ?_⟩
  rw [he, htrace, List.flatten_append, List.flatten_singleton, List.append_assoc]

end Traced.Explains

namespace Traced

variable {call : EStateM Fault σ α} {s : Traced σ} {c : Call} {t : String}

theorem ends_lift : Ends (lift call) s (fun _ s' => s'.trace = s.trace)
    fun _ s' => s'.trace = s.trace := by
  unfold Ends lift
  cases call s.state <;> rfl

theorem ends_always : Ends (always c t call) s (fun _ s' => s'.trace = s.trace ++ [⟨c, t, none⟩])
    fun f s' => s'.trace = s.trace ++ [⟨c, t, some f⟩] := by
  unfold Ends always
  cases call s.state <;> rfl

theorem filter_append_of_not_acted {e : TraceEntry} (he : e.isActed = false) :
    (s.trace ++ [e]).filter TraceEntry.isActed = s.trace.filter TraceEntry.isActed := by
  simp [List.filter_append, he]

/-- The trace has grown by the calls that an act takes. -/
def Grows (pauseText : String) (act : Act) (s s' : Traced σ) : Prop :=
  ∃ calls, act.Takes pauseText calls ∧
    s'.trace.filter TraceEntry.isActed = s.trace.filter TraceEntry.isActed ++ calls

theorem grows_of_eq {pauseText : String} {act : Act} {s' : Traced σ} (h : act.Takes pauseText [])
    (he : s'.trace = s.trace) : s.Grows pauseText act s' :=
  ⟨[], h, by rw [he, List.append_nil]⟩

theorem grows_of_call {pauseText : String} {act : Act} {s' : Traced σ} {e : TraceEntry}
    (h : act.Takes pauseText [e]) (hacted : e.isActed = true) (he : s'.trace = s.trace ++ [e]) :
    s.Grows pauseText act s' :=
  ⟨[e], h, by rw [he, List.filter_append, List.filter_singleton, hacted]; rfl⟩

def Of (s : σ) (t : Traced σ) : Prop := t.state = s

theorem alike_self_lift : Alike Of (fun _ => Of) call (lift call) := by
  rintro _ s rfl
  cases h : call s.state with
  | ok a s' =>
    have hlift : lift call s = .ok a { s with state := s' } := by unfold lift; rw [h]
    exact Matches.of_ok h hlift ⟨rfl, rfl⟩
  | error f s' =>
    have hlift : lift call s = .error f { s with state := s' } := by unfold lift; rw [h]
    exact Matches.of_error h hlift ⟨rfl, rfl⟩

theorem alike_self_always : Alike Of (fun _ => Of) call (always c t call) := by
  rintro _ s rfl
  cases h : call s.state with
  | ok a s' =>
    have halways : always c t call s = .ok a ⟨s', s.trace ++ [⟨c, t, none⟩]⟩ := by
      unfold always; rw [h]
    exact Matches.of_ok h halways ⟨rfl, rfl⟩
  | error f s' =>
    have halways : always c t call s = .error f ⟨s', s.trace ++ [⟨c, t, some f⟩]⟩ := by
      unfold always; rw [h]
    exact Matches.of_error h halways ⟨rfl, rfl⟩

end Traced

namespace Environment

variable {env : Environment σ} {pauseText : String} {s : Traced σ} {p : Path}

theorem ends_traced_look? (t : String) : Ends ((env.traced pauseText).look? t) s
    (fun _ s' => s'.trace = s.trace) fun _ s' => s'.trace = s.trace := by
  unfold look?
  have hstat : Ends (awaited ((env.traced pauseText).lstat t)) s (fun _ s' => s'.trace = s.trace)
      fun _ s' => s'.trace = s.trace := Ends.awaited Traced.ends_lift
  apply hstat.bind_outcome
  · exact fun _ _ hs => Ends.pure hs
  · rintro f s' hs
    cases f with
    | system e =>
      dsimp only
      split
      · exact Ends.pure hs
      · exact Ends.throw hs
    | nullByte | cancelled | interrupted => exact Ends.throw hs

theorem ends_traced_removeNode (p : Path) : Ends ((env.traced pauseText).removeNode p.text) s
    (fun removed s' => s.Grows pauseText (.tried p (.ok removed)) s')
    (fun f s' => s.Grows pauseText (.tried p (.error f)) s') := by
  unfold removeNode
  apply Ends.seq (ends_traced_look? p.text)
  · exact fun f s' hs => Traced.grows_of_eq (.unneeded p nofun) hs
  rintro (_ | status) s₁ h₁
  · exact Ends.pure (Traced.grows_of_eq (.unneeded p nofun) h₁)
  have hcall : Ends (awaited (if status.kind = .directory then (env.traced pauseText).rmdir p.text
        else (env.traced pauseText).unlink p.text)) s₁
      (fun _ s' => ∃ c, (c = .rmdir ∨ c = .unlink) ∧ s'.trace = s.trace ++ [⟨c, p.text, none⟩])
      (fun _ s' => ∃ c f, (c = .rmdir ∨ c = .unlink) ∧
        s'.trace = s.trace ++ [⟨c, p.text, some f⟩]) := by
    rw [← h₁]
    apply Ends.awaited
    split
    · exact Traced.ends_always.mono (fun _ _ h => ⟨_, Or.inl rfl, h⟩)
        fun f _ h => ⟨_, f, Or.inl rfl, h⟩
    · exact Traced.ends_always.mono (fun _ _ h => ⟨_, Or.inr rfl, h⟩)
        fun f _ h => ⟨_, f, Or.inr rfl, h⟩
  apply hcall.bind_outcome
  · rintro - s' ⟨c, hc, hs⟩
    exact Ends.pure (Traced.grows_of_call (.removed p hc) (by rcases hc with rfl | rfl <;> rfl) hs)
  · rintro f s' ⟨c, f', hc, hs⟩
    have hgrows : ∀ r : Except Fault Bool, r ≠ .ok true → s.Grows pauseText (.tried p r) s' :=
      fun r hr => Traced.grows_of_call (.refused p hc f' hr)
        (by rcases hc with rfl | rfl <;> rfl) hs
    cases f with
    | system e =>
      dsimp only
      split
      · exact Ends.pure (hgrows _ nofun)
      · exact Ends.throw (hgrows _ nofun)
    | nullByte | cancelled | interrupted => exact Ends.throw (hgrows _ nofun)

end Environment

/-- The deleter with a trace of its calls. Its clock and its predicate for links leave no entries.
-/
def Deleter.traced (pauseText : String) (d : Deleter σ) : Deleter (Traced σ) where
  environment := d.environment.traced pauseText
  now := Traced.reading d.now
  isSymlink p := Traced.lift (d.isSymlink p)
  collectsGarbage := d.collectsGarbage
  maxReported := d.maxReported
  maxReported_pos := d.maxReported_pos

def Session.traced (trace : List TraceEntry) (s : Session σ) : Session (Traced σ) :=
  ⟨⟨s.state, trace⟩, s.log, s.acts⟩

/-- A session with a trace is the same as one without, and since `s` its trace has grown by the
removals and pauses that the acts took. -/
structure Session.Shows (pauseText : String) (trace : List TraceEntry) (s s' : Session σ)
    (shown : Session (Traced σ)) : Prop where
  same : s'.traced shown.state.trace = shown
  explains :
    shown.state.Explains pauseText (trace.filter TraceEntry.isActed) s.acts s'.acts

namespace Deleter

variable (d : Deleter σ) (pauseText : String)

/-! ### The acts of a traced walk -/

theorem ends_traced_pauseBeforeRetry (p : Path) (s : Traced σ) :
    Ends (d.traced pauseText).pauseBeforeRetry s
      (fun _ s' => s.Grows pauseText (.paused p (.ok ())) s')
      (fun f s' => s.Grows pauseText (.paused p (.error f)) s') := by
  have hpause : ∀ {s₁ : Traced σ},
      s₁.trace.filter TraceEntry.isActed = s.trace.filter TraceEntry.isActed →
      Ends (d.traced pauseText).environment.pause s₁
        (fun _ s' => s.Grows pauseText (.paused p (.ok ())) s')
        (fun f s' => s.Grows pauseText (.paused p (.error f)) s') := by
    intro s₁ h₁
    apply Traced.ends_always.mono
    · intro _ s' hs
      refine ⟨_, .paused p, ?_⟩
      rw [hs, List.filter_append, h₁]
      rfl
    · intro f s' hs
      refine ⟨_, .broken p f f, ?_⟩
      rw [hs, List.filter_append, h₁]
      rfl
  unfold pauseBeforeRetry
  split
  · have hcollect : Ends (d.traced pauseText).environment.collect s
        (fun _ s' => s'.trace.filter TraceEntry.isActed = s.trace.filter TraceEntry.isActed)
        (fun f s' => s.Grows pauseText (.paused p (.error f)) s') := by
      apply Traced.ends_always.mono
      · intro _ s' hs
        rw [hs, Traced.filter_append_of_not_acted rfl]
      · intro f s' hs
        refine ⟨[], .uncollected p f, ?_⟩
        rw [hs, Traced.filter_append_of_not_acted rfl, List.append_nil]
    exact Ends.bind hcollect fun _ _ h₁ => hpause h₁
  · exact hpause rfl

theorem looking_traced (before : List TraceEntry) (acts₀ acts : List Act) :
    (d.traced pauseText).Looking fun s => s.Explains pauseText before acts₀ acts :=
  have hlift : ∀ {β : Type} (call : EStateM Fault σ β),
      Keeps (fun s : Traced σ => s.Explains pauseText before acts₀ acts) (Traced.lift call) :=
    fun _ _ hs => Traced.ends_lift.mono (fun _ _ he => hs.of_eq (by rw [he]))
      fun _ _ he => hs.of_eq (by rw [he])
  { stat := fun _ => hlift _
    lstat := fun _ => hlift _
    list := fun _ _ hs => Traced.ends_always.mono
      (fun _ _ he => hs.of_eq (by rw [he, Traced.filter_append_of_not_acted rfl]))
      fun _ _ he => hs.of_eq (by rw [he, Traced.filter_append_of_not_acted rfl])
    workingDirectory := hlift _
    isSymlink := fun _ => hlift _
    now := fun _ hs => hs.of_eq rfl }

theorem accounts_traced (before : List TraceEntry) (acts₀ : List Act) :
    (d.traced pauseText).Accounts fun acts s => s.Explains pauseText before acts₀ acts where
  looking acts := d.looking_traced pauseText before acts₀ acts
  removeNode := by
    rintro acts s hs p
    exact (Environment.ends_traced_removeNode p).mono
      (fun _ _ ⟨_, ht, he⟩ => hs.concat ht he) fun _ _ ⟨_, ht, he⟩ => hs.concat ht he
  pause := by
    rintro acts s hs p
    exact (d.ends_traced_pauseBeforeRetry pauseText p s).mono
      (fun _ _ ⟨_, ht, he⟩ => hs.concat ht he) fun _ _ ⟨_, ht, he⟩ => hs.concat ht he

theorem explains_deleteBelow (followSymlinks includeRoot : Bool) (root : Path)
    (s : Session (Traced σ)) :
    let Explained := fun s' : Session (Traced σ) =>
      s'.state.Explains pauseText (s.state.trace.filter TraceEntry.isActed) s.acts s'.acts
    Ends ((d.traced pauseText).deleteBelow followSymlinks root includeRoot) s (fun _ => Explained)
      fun _ => Explained := by
  have hstart :
      s.state.Explains pauseText (s.state.trace.filter TraceEntry.isActed) s.acts s.acts :=
    ⟨[], [], (List.append_nil _).symm, .nil, (List.append_nil _).symm⟩
  exact (d.accounts_traced pauseText _ _).keeps_deleteBelow followSymlinks includeRoot root s hstart

/-! ### The same walk without a trace -/

theorem attemptsLike_traced (p : Path) :
    d.AttemptsLike Traced.Of (fun _ => Traced.Of) (d.traced pauseText) p where
  stat _ := Traced.alike_self_lift
  lstat _ := Traced.alike_self_lift
  children _ := Environment.alike_children id Traced.alike_self_always
  workingDirectory := Traced.alike_self_lift
  related := id
  awaits := id
  isSymlink _ := Traced.alike_self_lift
  now := by
    rintro _ t rfl
    exact ⟨rfl, rfl⟩
  maxReported := rfl
  rmdir := Traced.alike_self_always
  unlink := Traced.alike_self_always
  pause := Traced.alike_self_always
  collect := Traced.alike_self_always
  collectsGarbage := rfl

/-- A walk and its report end the same way with a trace of their calls, which shows their acts. -/
def ShowsActs (followSymlinks : Bool) (root : Path) (includeRoot : Bool) (s : Session σ) : Prop :=
  ∀ pauseText trace,
    Matches (d.deleteBelow followSymlinks root includeRoot)
      ((d.traced pauseText).deleteBelow followSymlinks root includeRoot) s (s.traced trace)
      (fun run s' run' shown => run' = run ∧ s.Shows pauseText trace s' shown)
      (fun e s' e' shown => e' = e ∧ s.Shows pauseText trace s' shown)

theorem showsActs_deleteBelow (followSymlinks : Bool) (root : Path) (includeRoot : Bool)
    (s : Session σ) : d.ShowsActs followSymlinks root includeRoot s := by
  intro pauseText trace
  have hshows : ∀ {s' : Session σ} {shown : Session (Traced σ)}, s'.Alike Traced.Of shown →
      shown.state.Explains pauseText (trace.filter TraceEntry.isActed) s.acts shown.acts →
      s.Shows pauseText trace s' shown := by
    rintro ⟨_, _, _⟩ ⟨state, log, acts⟩ ⟨hstate, hlog, hacts⟩ hexplains
    cases hstate; cases hlog; cases hacts
    exact ⟨rfl, hexplains⟩
  have halike := matches_deleteBelow_of_alike (d.attemptsLike_traced pauseText) inStep_alike
    (⟨rfl, rfl, rfl⟩ : s.Alike Traced.Of (s.traced trace)) followSymlinks root includeRoot
  apply (halike.and_ends_right
    (d.explains_deleteBelow pauseText followSymlinks includeRoot root (s.traced trace))).mono
  · rintro run s' _ shown ⟨⟨rfl, hs⟩, hexplains⟩
    exact ⟨rfl, hshows hs hexplains⟩
  · rintro e s' _ shown ⟨⟨rfl, hs, -⟩, hexplains⟩
    exact ⟨rfl, hshows hs hexplains⟩

end Deleter

end TreeRemoval
