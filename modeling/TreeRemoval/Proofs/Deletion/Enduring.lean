import Mathlib.Data.List.Destutter
import TreeRemoval.Proofs.Deletion.Parallel
import TreeRemoval.Proofs.Reports
import TreeRemoval.Proofs.World.Setbacks

/-! # Enduring cancelled pauses

Beside a run with cancelled pauses goes one in which they complete and the tries after them are
refused. An abandoned attempt in the one is a failed attempt in the other, and both walks book it as
the same failure.
-/

namespace TreeRemoval

open Deletion World

variable {σ α : Type}

namespace Act

def path : Act → Path
  | tried p _ | paused p _ => p

def IsCancelled (a : Act) : Prop := ∃ p, a = .paused p (.error .cancelled)

instance : DecidablePred IsCancelled
  | .tried _ _ => isFalse nofun
  | .paused p r => decidable_of_iff (r = .error .cancelled) (by simp [IsCancelled])

def nodes (acts : List Act) : List Path := (acts.map path).destutter (· ≠ ·)

/-- Acts, and the same acts except that cancelled pauses complete and are followed by tries that
fail. -/
inductive Endured : List Act → List Act → Prop
  | nil : Endured [] []
  | same {a : Act} {acts acts' : List Act} (ha : ¬ a.IsCancelled) (h : Endured acts acts') :
      Endured (a :: acts) (a :: acts')
  | cancelled (p : Path) (e : SystemError) {acts acts' : List Act} (h : Endured acts acts') :
      Endured (.paused p (.error .cancelled) :: acts)
        (.paused p (.ok ()) :: .tried p (.error (.system e)) :: acts')

namespace Endured

variable {acts acts' new new' : List Act}

theorem append (h : Endured acts acts') (hnew : Endured new new') :
    Endured (acts ++ new) (acts' ++ new') := by
  induction h with
  | nil => exact hnew
  | same ha _ ih => exact .same ha ih
  | cancelled p e _ ih => exact .cancelled p e ih

theorem nodes_eq (h : Endured acts acts') : nodes acts' = nodes acts := by
  have hrest : ∀ {acts acts'}, Endured acts acts' → ∀ p,
      (acts'.map path).destutter' (· ≠ ·) p = (acts.map path).destutter' (· ≠ ·) p := by
    intro acts acts' h
    induction h with
    | nil => exact fun _ => rfl
    | same ha _ ih =>
      intro p
      simp only [List.map_cons, List.destutter'_cons, ih]
    | cancelled q e _ ih =>
      intro p
      simp only [List.map_cons, List.destutter'_cons, path, ih, ne_eq, not_true_eq_false, if_false]
      by_cases hp : p = q <;> simp [hp]
  cases h with
  | nil => rfl
  | same ha h => exact hrest h _
  | cancelled p e h =>
    simp only [nodes, List.map_cons, List.destutter_cons', List.destutter'_cons, path, ne_eq,
      not_true_eq_false, if_false]
    exact hrest h p

end Endured

end Act

namespace Environment

variable (env : Environment σ) (refusal : String → Errno)

def beside (call : EStateM Fault σ α) : EStateM Fault (σ × Bool) α := fun (s, due) =>
  match call s with
  | .ok a s => .ok a (s, due)
  | .error f s => .error f (s, due)

/-- A removal that is refused without any work if it is marked. -/
def refusing (t : String) (call : EStateM Fault σ Unit) : EStateM Fault (σ × Bool) Unit :=
  fun (s, due) =>
    if due then .error (.system ⟨refusal t, some t⟩) (s, false) else beside call (s, false)

/-- The environment in which pauses that would be cancelled complete, and the tries after them fail
before doing any work. While such a try is due there is a mark. It is gone when the look at the node
fails or its removal is refused. -/
def enduring : Environment (σ × Bool) where
  stat t := beside (env.stat t)
  lstat t := fun (s, due) =>
    match env.lstat t s with
    | .ok status s => .ok status (s, due)
    | .error f s => .error f (s, false)
  list t := beside (env.list t)
  rmdir t := refusing refusal t (env.rmdir t)
  unlink t := refusing refusal t (env.unlink t)
  mkdir t := beside (env.mkdir t)
  readLink t := beside (env.readLink t)
  workingDirectory := beside env.workingDirectory
  pause := fun (s, due) =>
    match env.pause s with
    | .ok _ s => .ok () (s, due)
    | .error .cancelled s => .ok () (s, true)
    | .error f s => .error f (s, due)
  collect := beside env.collect

end Environment

def Deleter.enduring (d : Deleter σ) (refusal : String → Errno) : Deleter (σ × Bool) where
  environment := d.environment.enduring refusal
  now := fun (s, due) =>
    let (time, s) := d.now s
    (time, s, due)
  isSymlink p := Environment.beside (d.isSymlink p)
  collectsGarbage := d.collectsGarbage
  maxReported := d.maxReported
  maxReported_pos := d.maxReported_pos

/-! ### Looks -/

/-- The second state is the first one, which keeps something, without a mark. -/
def Unmarked (J : σ → Prop) (s : σ) (s' : σ × Bool) : Prop := s' = (s, false) ∧ J s

section Looks

variable {J : σ → Prop} {call : EStateM Fault σ α}

theorem alike_beside (h : Keeps J call) :
    Alike (Unmarked J) (fun _ => Unmarked J) call (Environment.beside call) := by
  rintro s _ ⟨rfl, hs⟩
  cases hm : call s with
  | ok a t =>
    have hm' : Environment.beside call (s, false) = .ok a (t, false) := by
      simp only [Environment.beside, hm]
    exact Matches.of_ok hm hm' ⟨rfl, rfl, (h s hs).ok hm⟩
  | error f t =>
    have hm' : Environment.beside call (s, false) = .error f (t, false) := by
      simp only [Environment.beside, hm]
    exact Matches.of_error hm hm' ⟨rfl, rfl, (h s hs).error hm⟩

theorem Environment.enduring_looksLike {env : Environment σ} (h : env.Looking J)
    (refusal : String → Errno) :
    env.LooksLike (Unmarked J) (fun _ => Unmarked J) (env.enduring refusal) where
  stat t := alike_beside (h.stat t)
  lstat t := by
    rintro s _ ⟨rfl, hs⟩
    apply (alike_beside (h.lstat t) s _ ⟨rfl, hs⟩).of_eq
    simp only [enduring, beside]
    cases env.lstat t s <;> rfl
  children p := Environment.alike_children id (alike_beside (h.list p.text))
  workingDirectory := alike_beside h.workingDirectory
  related := id
  awaits := id

theorem Deleter.enduring_looksLike {d : Deleter σ} (h : d.Looking J) (refusal : String → Errno) :
    d.LooksLike (Unmarked J) (fun _ => Unmarked J) (d.enduring refusal) where
  looks := Environment.enduring_looksLike h.toLooking refusal
  isSymlink p := alike_beside (h.isSymlink p)
  now := by
    rintro s _ ⟨rfl, hs⟩
    exact ⟨rfl, rfl, h.now s hs⟩
  maxReported := rfl

theorem alike_refusing {call : EStateM Fault σ Unit} (h : Keeps J call) (refusal : String → Errno)
    (t : String) :
    Alike (Unmarked J) (fun _ => Unmarked J) call (Environment.refusing refusal t call) := by
  rintro s _ ⟨rfl, hs⟩
  exact (alike_beside h s _ ⟨rfl, hs⟩).of_eq rfl

end Looks

/-! ### Attempts -/

/-- A session and one in which cancelled pauses have completed and no try is due; `c` says whether
some pause was cancelled. -/
structure Twins (J : σ → Prop) (c : Prop) (s : Session σ) (s' : Session (σ × Bool)) : Prop where
  state : s'.state = (s.state, false)
  keeps : J s.state
  acts : Act.Endured s.acts s'.acts
  cancelled : (∃ a ∈ s.acts, a.IsCancelled) ↔ c

namespace Twins

variable {J : σ → Prop} {c : Prop} {s : Session σ} {s' : Session (σ × Bool)}

theorem abreast (J : σ → Prop) (c : Prop) : Abreast (Unmarked J) (Twins J c) where
  state h := ⟨h.state, h.keeps⟩
  move h ht := ⟨ht.1, ht.2, h.acts, h.cancelled⟩
  note _ h := ⟨h.state, h.keeps, h.acts, h.cancelled⟩

theorem record {a : Act} (ha : ¬ a.IsCancelled) :
    StepsAlike (Twins J c) (fun _ => Unmarked J) (Deletion.record a) (Deletion.record a) := by
  intro s s' h
  refine Matches.of_ok rfl rfl ⟨rfl, h.state, h.keeps, h.acts.append (.same ha .nil), ?_⟩
  rw [← h.cancelled]
  constructor
  · rintro ⟨b, hb, hcancelled⟩
    rcases List.mem_append.1 hb with hb | hb
    · exact ⟨b, hb, hcancelled⟩
    · exact absurd (List.mem_singleton.1 hb ▸ hcancelled) ha
  · rintro ⟨b, hb, hcancelled⟩
    exact ⟨b, List.mem_append_left _ hb, hcancelled⟩

theorem tryOnce {d : Deleter σ} {p : Path} (h : d.Attempting J p) (refusal : String → Errno) :
    StepsAlike (Twins J c) (fun _ => Unmarked J) (d.tryOnce p) ((d.enduring refusal).tryOnce p) := by
  have hlooks : d.LooksLike (Unmarked J) (fun _ => Unmarked J) (d.enduring refusal) :=
    Deleter.enduring_looksLike h.looking refusal
  have hrecord : ∀ result, StepsAlike (Twins J c) (fun _ => Unmarked J)
      (Deletion.record (.tried p result)) (Deletion.record (.tried p result)) := by
    intro result
    apply record
    rintro ⟨q, hq⟩
    cases hq
  unfold Deleter.tryOnce
  apply hlooks.bind_observe (abreast J c) (hlooks.looks.removeNode
    (alike_refusing h.rmdir refusal p.text) (alike_refusing h.unlink refusal p.text))
  · exact fun removed => (hrecord _).bind fun _ => .pure _
  · intro f s s' hs _
    apply (hrecord (.error f) s s' hs).bind
    rintro - t - t' ⟨-, ht⟩
    cases f with
    | system e => exact Matches.pure ⟨rfl, ht⟩
    | nullByte | cancelled | interrupted =>
      exact Matches.throw ⟨rfl, .of_fault ht ((abreast J c).state ht)⟩

end Twins

namespace World

variable {w : World} {gc : Bool} {cap : Nat} {hcap : 0 < cap} {refusal : String → Errno} {t : String}
  {p : Path} {c : Prop} {s : Session World} {s' : Session (World × Bool)}

theorem OnlySetbacks.ends_removeNode_due (h : w.OnlySetbacks) (hr : w.Remains t)
    (hrefusal : refusal t ≠ .enoent) :
    Ends ((environment.enduring refusal).removeNode t) (w, true) (fun _ _ => False)
      (fun f w' => w' = (w, false) ∧ ∃ e, f = .system e) := by
  have hlstat := h.lstat_eq t
  rw [if_neg hr.1] at hlstat
  unfold Environment.removeNode Environment.look?
  cases hl : w.files.lstat w.workingDirectory t with
  | error e =>
    rw [hl] at hlstat
    have hfails : (environment.enduring refusal).lstat t (w, true) =
        .error (.system ⟨e, some t⟩) (w, false) := by
      simp only [Environment.enduring, hlstat]
    obtain ⟨e', he', herrno⟩ := Fault.awaited_system ⟨e, some t⟩
    refine Ends.bind (Q := fun _ _ => False) ?_ fun _ _ hf => hf.elim
    apply Ends.bind_ok (outcome_of_error (awaited_of_error hfails))
    rw [he']
    dsimp only
    rw [if_neg (by rw [herrno, hr.2 e hl]; decide)]
    exact Ends.throw ⟨rfl, e', rfl⟩
  | ok status =>
    rw [hl] at hlstat
    have hshows : (environment.enduring refusal).lstat t (w, true) = .ok status (w, true) := by
      simp only [Environment.enduring, hlstat]
    refine Ends.bind (Q := fun r w' => r = some status ∧ w' = (w, true)) ?_ ?_
    · apply Ends.bind_ok (outcome_of_ok (awaited_of_ok hshows))
      exact Ends.pure ⟨rfl, rfl⟩
    rintro _ _ ⟨rfl, rfl⟩
    have hrefused : (if status.kind = .directory then (environment.enduring refusal).rmdir t
        else (environment.enduring refusal).unlink t) (w, true) =
        .error (.system ⟨refusal t, some t⟩) (w, false) := by
      split <;> rfl
    obtain ⟨e', he', herrno⟩ := Fault.awaited_system ⟨refusal t, some t⟩
    apply Ends.bind_ok (outcome_of_error (awaited_of_error hrefused))
    rw [he']
    dsimp only
    rw [if_neg (by rw [herrno]; exact hrefusal)]
    exact Ends.throw ⟨rfl, e', rfl⟩

/-- A pause completes beside both, or is cancelled and marks the second state. -/
theorem OnlySetbacks.pause_or (h : w.OnlySetbacks) :
    (∃ w', environment.pause w = .ok () w' ∧ w.Still w' ∧
        (environment.enduring refusal).pause (w, false) = .ok () (w', false)) ∨
      ∃ w', environment.pause w = .error .cancelled w' ∧ w.Still w' ∧
        (environment.enduring refusal).pause (w, false) = .ok () (w', true) := by
  cases hpause : environment.pause w with
  | ok _ w' =>
    exact Or.inl ⟨w', rfl, h.ends_pause.ok hpause, by simp only [Environment.enduring, hpause]⟩
  | error f w' =>
    obtain ⟨hstill, rfl⟩ := h.ends_pause.error hpause
    exact Or.inr ⟨w', rfl, hstill, by simp only [Environment.enduring, hpause]⟩

theorem OnlySetbacks.pauseBeforeRetry_or (h : w.OnlySetbacks) :
    (∃ w', (deleter gc cap hcap).pauseBeforeRetry w = .ok () w' ∧ w.Still w' ∧
        ((deleter gc cap hcap).enduring refusal).pauseBeforeRetry (w, false) =
          .ok () (w', false)) ∨
      ∃ w', (deleter gc cap hcap).pauseBeforeRetry w = .error .cancelled w' ∧ w.Still w' ∧
        ((deleter gc cap hcap).enduring refusal).pauseBeforeRetry (w, false) =
          .ok () (w', true) := by
  cases gc with
  | false => exact h.pause_or
  | true =>
    obtain ⟨_, w₁, hcollect, h₁⟩ := h.ends_collect.exists_ok
    have hcollect' : (environment.enduring refusal).collect (w, false) = .ok () (w₁, false) := by
      simp only [Environment.enduring, Environment.beside, hcollect]
    have hfirst : (deleter true cap hcap).pauseBeforeRetry w = environment.pause w₁ :=
      bind_of_ok hcollect
    have hfirst' : ((deleter true cap hcap).enduring refusal).pauseBeforeRetry (w, false) =
        (environment.enduring refusal).pause (w₁, false) := bind_of_ok hcollect'
    rw [hfirst, hfirst']
    rcases (h₁.1.onlySetbacks h).pause_or with ⟨w', hp, h', hp'⟩ | ⟨w', hp, h', hp'⟩
    · exact Or.inl ⟨w', hp, h₁.trans h', hp'⟩
    · exact Or.inr ⟨w', hp, h₁.trans h', hp'⟩

end World

/-- How an attempt ends beside one whose pause completes: alike, or it was abandoned and the other
one failed. -/
inductive AttemptsEnd (J : σ → Prop) (c : Prop) (r : Attempt) (s : Session σ) (r' : Attempt)
    (s' : Session (σ × Bool)) : Prop
  | alike (hr : ∀ e, r ≠ .abandoned e) (hr' : r' = r) (h : Twins J c s s')
  | abandoned {e e' : SystemError} {place : String} (hr : r = .abandoned e)
      (hr' : r' = .stuck place e') (h : Twins J True s s')

namespace Deleter

variable {w : World} {gc : Bool} {cap : Nat} {hcap : 0 < cap} {refusal : String → Errno}
  {p : Path} {c : Prop} {s : Session World} {s' : Session (World × Bool)}

theorem ends_tryOnce_remains (h : s.state.OnlySetbacks) :
    Ends ((deleter gc cap hcap).tryOnce p) s
      (fun r t => ∀ e, r = .error e → t.state.Remains p.text) (fun _ _ => True) := by
  unfold tryOnce
  apply Ends.bind (Q := fun r t => ∀ e, r = .error (.system e) → t.state.Remains p.text)
  · apply ends_observe
    apply (h.ends_removeNode p.text).mono
    · exact fun _ _ _ => nofun
    · rintro f w' hr e ⟨⟩
      exact hr ⟨e, rfl⟩
  intro r t hr
  apply ends_bind_record
  intro t' ht'
  cases r with
  | ok removed => exact Ends.pure nofun
  | error f =>
    cases f with
    | system e => exact Ends.pure fun _ _ => ht' ▸ hr e rfl
    | nullByte | cancelled | interrupted => exact Ends.throw trivial

theorem tryOnce_due (collectsGarbage : Bool) (cap : Nat) (hcap : 0 < cap) (h : w.OnlySetbacks)
    (hr : w.Remains p.text) (hrefusal : refusal p.text ≠ .enoent) (hs' : s'.state = (w, true)) :
    ∃ e t', ((deleter collectsGarbage cap hcap).enduring refusal).tryOnce p s' = .ok (.error e) t' ∧
      t'.state = (w, false) ∧ t'.acts = s'.acts ++ [.tried p (.error (.system e))] := by
  have hends : Ends (((deleter collectsGarbage cap hcap).enduring refusal).tryOnce p) s'
      (fun r t' => ∃ e, r = .error e ∧ t'.state = (w, false) ∧
        t'.acts = s'.acts ++ [.tried p (.error (.system e))]) (fun _ _ => False) := by
    unfold tryOnce
    apply Ends.bind (Q := fun r t' => ∃ e, r = .error (.system e) ∧ t'.state = (w, false) ∧
      t'.acts = s'.acts)
    · apply ends_observe
      rw [hs']
      apply (h.ends_removeNode_due hr hrefusal).mono fun _ _ hf => hf.elim
      rintro _ _ ⟨rfl, e, rfl⟩
      exact ⟨e, rfl, rfl, rfl⟩
    rintro _ t' ⟨e, rfl, hstate, hacts⟩
    have hrecord : record (.tried p (.error (.system e))) t' =
        .ok () { t' with acts := t'.acts ++ [.tried p (.error (.system e))] } := rfl
    apply Ends.bind_ok hrecord
    exact Ends.pure ⟨e, rfl, hstate, by rw [← hacts]⟩
  obtain ⟨_, t', hrun, e, rfl, hstate, hacts⟩ := hends.exists_ok
  exact ⟨e, t', hrun, hstate, hacts⟩

/-- After a pause that was cancelled in the first session only, the try that is due in the second
one brings the two together again. -/
theorem tryOnce_cancelled (collectsGarbage : Bool) (cap : Nat) (hcap : 0 < cap)
    (hs : Twins w.Follows c s s') {v : World} (h : v.OnlySetbacks) (hr : v.Remains p.text)
    (hrefusal : refusal p.text ≠ .enoent) (hv : w.Follows v) :
    ∃ e t', ((deleter collectsGarbage cap hcap).enduring refusal).tryOnce p
        ⟨(v, true), s'.log, s'.acts ++ [.paused p (.ok ())]⟩ = .ok (.error e) t' ∧
      Twins w.Follows True ⟨v, s.log, s.acts ++ [.paused p (.error .cancelled)]⟩ t' := by
  obtain ⟨e, t', htried, hstate, hacts⟩ := tryOnce_due collectsGarbage cap hcap h hr hrefusal
    (rfl : (⟨(v, true), s'.log, s'.acts ++ [.paused p (.ok ())]⟩ :
      Session (World × Bool)).state = (v, true))
  refine ⟨e, t', htried, hstate, hv, ?_, ?_⟩
  · rw [hacts, List.append_assoc]
    exact hs.acts.append (.cancelled p e .nil)
  · exact iff_true_intro ⟨_, List.mem_append_right _ List.mem_cons_self, p, rfl⟩

variable (h : w.OnlySetbacks) (ha : p.isAbsolute = true) (hrefusal : ∀ t, refusal t ≠ .enoent)

include h ha hrefusal

theorem matches_attempt (hs : Twins w.Follows c s s') :
    Matches ((deleter gc cap hcap).attempt p) (((deleter gc cap hcap).enduring refusal).attempt p)
      s s' (AttemptsEnd w.Follows c)
      (fun e t e' t' => e' = e ∧ Handed (Twins w.Follows c) (fun _ => Unmarked w.Follows) e t t') := by
  have hattempting : (deleter gc cap hcap).Attempting w.Follows p := w.workingAt.attempting p
  have htry : ∀ {t t'}, Twins w.Follows c t t' → _ := fun {t t'} ht =>
    (Twins.tryOnce hattempting refusal t t' ht).and_ends
      (ends_tryOnce_remains (ht.keeps.onlySetbacks h))
  unfold attempt
  apply (htry hs).seq fun _ _ _ _ he => he.1
  rintro _ t r t' ⟨⟨rfl, ht⟩, hremains⟩
  cases r with
  | ok removed => exact Matches.pure (.alike nofun rfl ht)
  | error e =>
    apply Matches.left (absolute_eq ha t)
    apply Matches.right (absolute_eq ha t')
    refine Matches.bind (Q := fun _ t₁ _ t₁' => Twins w.Follows c t₁ t₁' ∧ t₁.state = t.state)
      (Matches.of_ok rfl rfl ⟨(Twins.abreast _ _).note _ ht, rfl⟩) ?_
    rintro - t₁ - t₁' ⟨h₁, hstate⟩
    have hremains : t₁.state.Remains p.text := hstate ▸ hremains e rfl
    have hnext := h₁.keeps.onlySetbacks h
    rcases hnext.pauseBeforeRetry_or with ⟨v, hpause, hstill, hpause'⟩ |
      ⟨v, hpause, hstill, hpause'⟩
    · -- The pause completes in both sessions, which go on alike.
      rw [← h₁.state] at hpause'
      apply Matches.left (observe_of_ok hpause)
      apply Matches.right (observe_of_ok hpause')
      have h₂ : Twins w.Follows c { t₁ with state := v } { t₁' with state := (v, false) } :=
        ⟨rfl, h₁.keeps.trans hstill.1, h₁.acts, h₁.cancelled⟩
      apply (Twins.record (by rintro ⟨q, hq⟩; cases hq) _ _ h₂).bind
      rintro _ t₃ _ t₃' ⟨-, h₃⟩
      apply (htry h₃).seq fun _ _ _ _ he => he.1
      rintro _ t₄ r t₄' ⟨⟨rfl, h₄⟩, -⟩
      cases r with
      | ok removed => exact Matches.pure (.alike nofun rfl h₄)
      | error e' =>
        apply Matches.left (absolute_eq ha t₄)
        apply Matches.right (absolute_eq ha t₄')
        exact Matches.pure (.alike nofun rfl h₄)
    · -- The pause is cancelled in the first session. In the second one it completes, and the try
      -- after it is due.
      rw [← h₁.state] at hpause'
      apply Matches.left (observe_of_error hpause)
      apply Matches.right (observe_of_ok hpause')
      have hrecord : record (.paused p (.error .cancelled)) { t₁ with state := v } =
          .ok () ⟨v, t₁.log, t₁.acts ++ [.paused p (.error .cancelled)]⟩ := rfl
      have hrecord' : record (.paused p (.ok ())) { t₁' with state := (v, true) } =
          .ok () ⟨(v, true), t₁'.log, t₁'.acts ++ [.paused p (.ok ())]⟩ := rfl
      apply Matches.left hrecord
      apply Matches.right hrecord'
      obtain ⟨e', t₃', htried, h₃⟩ := tryOnce_cancelled gc cap hcap h₁
        (hstill.1.onlySetbacks hnext) (hstill.remains hremains) (hrefusal p.text)
        (h₁.keeps.trans hstill.1)
      apply Matches.right htried
      apply Matches.right (absolute_eq ha t₃')
      exact Matches.pure (.abandoned rfl rfl h₃)

end Deleter

/-! ### Walks -/

/-- Two walks in step: no pause of the second one was cancelled, and some pause of the first one was
if it says so, which leaves a failure. -/
structure Enduring (J : σ → Prop) (run run' : Run) (s : Session σ) (s' : Session (σ × Bool)) :
    Prop extends twins : Twins J (run.interrupted = true) s s' where
  same : run' = { run with interrupted := false }
  failed : run.interrupted = true → run.failed.items ≠ []

namespace Deleter

open Parallel

variable {w : World} {gc : Bool} {cap : Nat} {hcap : 0 < cap} {refusal : String → Errno}
  {root p : Path} {run run' : Run} {s : Session World} {s' : Session (World × Bool)}

theorem parallel_enduring :
    Parallel (deleter gc cap hcap) ((deleter gc cap hcap).enduring refusal) (Unmarked w.Follows)
      (fun _ => Unmarked w.Follows) (Enduring w.Follows) where
  looks := enduring_looksLike w.workingAt.looking refusal
  abreast run run' :=
    have habreast := Twins.abreast w.Follows (run.interrupted = true)
    { state := fun h => habreast.state h.twins
      move := fun h ht => ⟨habreast.move h.twins ht, h.same, h.failed⟩
      note := fun e h => ⟨habreast.note e h.twins, h.same, h.failed⟩ }
  run h := by rw [h.same]
  conclude _ h := ⟨⟨h.state, h.keeps, h.acts, h.cancelled⟩, h.same, h.failed⟩

theorem matches_book (ha : p.isAbsolute = true) (hrun : run' = { run with interrupted := false })
    (hs : Twins w.Follows (run.interrupted = true) s s') :
    Matches (deleteNode.book (deleter gc cap hcap) p run)
      (deleteNode.book ((deleter gc cap hcap).enduring refusal) p run') s s'
      (Onwards (Enduring w.Follows)) (Faulty (Enduring w.Follows) fun _ => Unmarked w.Follows) := by
  unfold deleteNode.book
  apply Matches.left (absolute_eq ha s)
  apply Matches.right (absolute_eq ha s')
  subst hrun
  exact Matches.pure ⟨rfl, ⟨⟨hs.state, hs.keeps, hs.acts, hs.cancelled⟩, rfl,
    fun _ => run.failed.items_insert_ne_nil _⟩⟩

variable (h : w.OnlySetbacks) (ha : p.isAbsolute = true) (hrefusal : ∀ t, refusal t ≠ .enoent)

include h ha hrefusal

theorem matches_deleteNode (hs : Enduring w.Follows run run' s s') :
    Matches ((deleter gc cap hcap).deleteNode run p)
      (((deleter gc cap hcap).enduring refusal).deleteNode run' p) s s'
      (Onwards (Enduring w.Follows)) (Faulty (Enduring w.Follows) fun _ => Unmarked w.Follows) := by
  obtain ⟨htwins, rfl, hfailed⟩ := hs
  unfold deleteNode
  apply (matches_attempt h ha hrefusal htwins).seq
  · rintro e t _ t' ⟨rfl, he⟩
    exact ⟨rfl, run, _, ⟨he.related, rfl, hfailed⟩, he.report, he.fault⟩
  rintro r t r' t' hended
  cases hended with
  | alike hr hr' ht =>
    rw [hr']
    cases r with
    | first removed => exact Matches.pure ⟨rfl, ht, rfl, hfailed⟩
    | second removed => exact Matches.pure ⟨rfl, ht, rfl, hfailed⟩
    | stuck place e => exact matches_book ha rfl ht
    | abandoned e => exact absurd rfl (hr e)
  | abandoned hr hr' ht =>
    subst hr hr'
    apply Matches.left (absolute_eq ha t)
    apply Matches.left (rfl : note _ _ _ t = .ok () { t with log := t.log ++ [_] })
    apply Matches.left (absolute_eq ha _)
    apply matches_book ha rfl
    exact ⟨ht.state, ht.keeps, ht.acts, ht.cancelled.trans (by simp)⟩

theorem matches_leave (hs : Enduring w.Follows run run' s s') :
    Matches ((deleter gc cap hcap).leave root true p run)
      (((deleter gc cap hcap).enduring refusal).leave root true p run') s s'
      (Onwards (Enduring w.Follows)) (Faulty (Enduring w.Follows) fun _ => Unmarked w.Follows) := by
  unfold leave
  rw [if_neg (by simp), if_neg (by simp)]
  apply (matches_deleteNode h ha hrefusal hs).bind
  rintro ⟨run₁, _⟩ t ⟨run₁', full⟩ t' ⟨rfl, ht⟩
  cases full with
  | false => exact Matches.pure ⟨rfl, ht⟩
  | true =>
    refine Matches.bind (Q := fun _ t _ t' => Enduring w.Follows run₁ run₁' t t')
      (Matches.of_ok rfl rfl ⟨⟨ht.state, ht.keeps, ht.acts, ht.cancelled⟩, ht.same, ht.failed⟩) ?_
    rintro - t₁ - t₁' h₁
    exact Matches.pure ⟨rfl, h₁⟩

omit ha in
theorem matches_deleteTree (ha : root.isAbsolute = true) {followSymlinks : Bool}
    (hs : Enduring w.Follows (.start cap hcap) (.start cap hcap) s s') :
    Matches ((deleter gc cap hcap).deleteTree followSymlinks root)
      (((deleter gc cap hcap).enduring refusal).deleteTree followSymlinks root) s s'
      (fun b t b' t' => b' = b ∧ ∃ run run', run.failed.items = [] ∧
        Enduring w.Follows run run' t t')
      (Failing (Enduring w.Follows) fun _ => Unmarked w.Follows) := by
  apply parallel_enduring.matches_deleteTree (P := Enduring w.Follows) _ _ _ hs
  · exact fun p => p.isAbsolute = true
  · exact fun hq _ => hq
  · exact ha
  · exact fun hq hs => matches_leave h hq hrefusal hs

end Deleter

end TreeRemoval
