import TreeRemoval.Deletion.Settings
import TreeRemoval.Deletion.Tree
import TreeRemoval.Proofs.World.Answers

/-! # Steps of a deletion

The steps of a walk in a world where nobody else is at work. A step removes the node it is about or
nothing, it logs no outcome, and no system error escapes from it.
-/

namespace TreeRemoval

def Log.Entry.IsOutcome (e : Log.Entry) : Prop :=
  e.message = "Tree deleted" ∨ e.message = "Tree deletion failed"

instance : DecidablePred Log.Entry.IsOutcome := fun _ => inferInstanceAs (Decidable (_ ∨ _))

theorem Log.not_isOutcome {e : Log.Entry} (h : e.message.toList.head? ≠ some 'T') :
    ¬ e.IsOutcome := by
  rintro (he | he) <;> exact h (by rw [he]; rfl)

def World.deleter (collectsGarbage : Bool) (cap : Nat) (h : 0 < cap) : Deleter World where
  environment := World.environment
  now := World.now
  isSymlink := SymlinkTest.run World.environment .look
  collectsGarbage
  maxReported := cap
  maxReported_pos := h

/-- A session goes on: the events stay the same, files may vanish, and no outcome is logged. -/
structure Session.Advances (s s' : Session World) : Prop where
  world : s.state.Follows s'.state
  files : s'.state.files ≤ s.state.files
  log : ∃ new, s'.log = s.log ++ new ∧ ∀ e ∈ new, ¬ e.IsOutcome

namespace Session.Advances

variable {s s' s'' : Session World}

theorem refl (s : Session World) : s.Advances s :=
  ⟨.refl _, le_refl _, [], by simp, by simp⟩

theorem trans (h : s.Advances s') (h' : s'.Advances s'') : s.Advances s'' := by
  obtain ⟨new, hl, hn⟩ := h.log
  obtain ⟨new', hl', hn'⟩ := h'.log
  refine ⟨h.world.trans h'.world, le_trans h'.files h.files, new ++ new', by rw [hl', hl,
    List.append_assoc], fun e he => ?_⟩
  rcases List.mem_append.1 he with he | he
  · exact hn e he
  · exact hn' e he

theorem of_world (hw : s.state.Follows s'.state) (hf : s'.state.files ≤ s.state.files)
    (hl : s'.log = s.log) : s.Advances s' := ⟨hw, hf, [], by simp [hl], by simp⟩

theorem note {level : Log.Level} {message : String} {fields : List (String × Log.Value)}
    (h : message.toList.head? ≠ some 'T') :
    s.Advances { s with log := s.log ++ [⟨level, message, fields⟩] } := by
  refine ⟨.refl _, le_refl _, _, rfl, fun e he => ?_⟩
  obtain rfl := List.mem_singleton.1 he
  exact Log.not_isOutcome h

theorem record (act : Act) : s.Advances { s with acts := s.acts ++ [act] } :=
  ⟨.refl _, le_refl _, [], by simp, by simp⟩

theorem calm (h : s.Advances s') (hc : s.state.Calm) : s'.state.Calm := h.world.calm hc

end Session.Advances

/-- The failures that a step on a path may end with. None is a system error unless a pause raised
it, and a cancelled pause is none of them. -/
inductive World.Escapes (w : World) (t : String) : Failure → Prop
  | nullByte (h : '\x00' ∈ t.toList) : Escapes w t (.fault .nullByte)
  | stopped {f : Fault} {moment : Moment} {c : Call} {t' : String} (h : w.Strikes moment c t' f)
      (hc : ¬ c.IsWait) (hf : f = .cancelled ∨ f = .interrupted) : Escapes w t (.fault f)
  | paused {f : Fault} {moment : Moment} {c : Call} {t' : String} (h : w.Strikes moment c t' f)
      (hc : c.IsWait) (hf : f ≠ .cancelled) : Escapes w t (.fault f)

def World.MayCancel (w : World) : Prop :=
  ∃ moment c t, w.Strikes moment c t .cancelled ∧ (c = .pause ∨ c = .collect)

namespace World

variable {w w' : World} {t : String} {f : Fault} {e : Failure}

theorem Follows.mayCancel (h : w.Follows w') (hm : w'.MayCancel) : w.MayCancel := by
  obtain ⟨moment, c, t, hs, hc⟩ := hm
  exact ⟨moment, c, t, h.strikes hs, hc⟩

theorem Follows.escapes (h : w.Follows w') (he : w'.Escapes t e) : w.Escapes t e := by
  cases he with
  | nullByte hn => exact .nullByte hn
  | stopped hs hc hf => exact .stopped (h.strikes hs) hc hf
  | paused hs hc hf => exact .paused (h.strikes hs) hc hf

theorem MayRaise.escapes (h : w.MayRaise t f) (hs : ∀ e, f ≠ .system e) :
    w.Escapes t (.fault f) := by
  cases f with
  | system e => exact absurd rfl (hs e)
  | nullByte => exact .nullByte h
  | cancelled =>
    obtain ⟨moment, c, t', h, hc⟩ := h
    exact .stopped h hc (Or.inl rfl)
  | interrupted =>
    obtain ⟨moment, c, t', h, hc⟩ := h
    exact .stopped h hc (Or.inr rfl)

end World

namespace Deleter

open Deletion World

variable {gc : Bool} {cap : Nat} {hcap : 0 < cap} {s : Session World} {p : Path}
  {followSymlinks : Bool}

theorem escapes_of_not_negative {w : World} {t : String} {f : Fault} {c : Call}
    (hc : ¬ c.IsWait) (hn : f.isNegative = false) (hs : ∃ moment, w.Strikes moment c t f) :
    w.Escapes t (.fault f) := by
  obtain ⟨moment, hs⟩ := hs
  apply (hs.mayRaise hc).escapes
  rintro e rfl
  cases hn

theorem absolute_eq {σ : Type} {d : Deleter σ} (ha : p.isAbsolute = true) (s : Session σ) :
    d.absolute p s = .ok p.normalize.text s := by
  unfold Deleter.absolute Environment.absolute perform
  rw [if_pos ha]
  rfl

theorem ends_absolute {σ : Type} {d : Deleter σ} {s : Session σ} (ha : p.isAbsolute = true)
    {Q : String → Session σ → Prop} {E : Failure → Session σ → Prop} (h : Q p.normalize.text s) :
    Ends (d.absolute p) s Q E :=
  Ends.of_ok (absolute_eq ha s) h

/-- A path that is walked into leads to a directory, and is no link unless links are followed or a
look at it may have failed. One that is not walked into leads to none, or is a link and links are
not followed, or a look at it may have failed. -/
theorem ends_shouldFollow (hc : s.state.Calm) (hp : p.Proper) (ha : p.isAbsolute = true) :
    Ends ((deleter gc cap hcap).shouldFollow followSymlinks p) s
      (fun b s' => s.Advances s' ∧ s'.state.files = s.state.files ∧ s'.log = s.log ∧
        (b = true → '\x00' ∉ p.text.toList ∧ LeadsToDirectory s.state.files p ∧
          (followSymlinks = true ∨ ¬ IsLinkAt s.state.files p ∨
            s.state.MayBlind .lstat p.text)) ∧
        (b = false → ¬ LeadsToDirectory s.state.files p ∨ '\x00' ∈ p.text.toList ∨
          s.state.MayBlind .stat p.text ∨ followSymlinks = false ∧ IsLinkAt s.state.files p))
      (fun e s' => s.Advances s' ∧ s'.state.files = s.state.files ∧ s'.log = s.log ∧
        s.state.Escapes p.text e) := by
  unfold Deleter.shouldFollow
  apply Ends.seq (ends_perform_keep (ends_isDirectory hc hp ha))
  · rintro - s' ⟨f, rfl, ⟨hf, hfiles, hn, hs⟩, hl, -⟩
    exact ⟨.of_world hf (le_of_eq hfiles) hl, hfiles, hl,
      escapes_of_not_negative (by decide) hn hs⟩
  rintro (_ | _) s₁ ⟨⟨hf, hfiles, hyes, hno⟩, hl, -⟩
  · refine Ends.pure ⟨.of_world hf (le_of_eq hfiles) hl, hfiles, hl, nofun, fun _ => ?_⟩
    rcases hno rfl with h | h | h
    · exact Or.inl h
    · exact Or.inr (Or.inl h)
    · exact Or.inr (Or.inr (Or.inl h))
  obtain ⟨hnul, hdir⟩ := hyes rfl
  cases followSymlinks with
  | true =>
    exact Ends.pure ⟨.of_world hf (le_of_eq hfiles) hl, hfiles, hl,
      fun _ => ⟨hnul, hdir, Or.inl rfl⟩, nofun⟩
  | false =>
    apply Ends.seq (ends_perform_keep (ends_isLink (hf.calm hc) hp ha))
    · rintro - s' ⟨f, rfl, ⟨hf', hfiles', hn, hs⟩, hl', -⟩
      have hfiles₂ := hfiles'.trans hfiles
      exact ⟨.of_world (hf.trans hf') (le_of_eq hfiles₂) (hl'.trans hl), hfiles₂, hl'.trans hl,
        hf.escapes (escapes_of_not_negative (by decide) hn hs)⟩
    · rintro b s' ⟨⟨hf', hfiles', hlink, hnot⟩, hl', -⟩
      rw [hfiles] at hlink hnot
      have hfiles₂ := hfiles'.trans hfiles
      refine Ends.pure ⟨.of_world (hf.trans hf') (le_of_eq hfiles₂) (hl'.trans hl), hfiles₂,
        hl'.trans hl, fun hb => ⟨hnul, hdir, Or.inr ?_⟩, fun hb => ?_⟩
      · rcases hnot (by simpa using hb) with h | h | h
        · exact Or.inl h
        · exact absurd h hnul
        · exact Or.inr (hf.mayBlind h)
      · exact Or.inr (Or.inr (Or.inr ⟨rfl, hlink (by simpa using hb)⟩))

def Listed (fs : FileSystem) (p : Path) (children : List Path) : Prop :=
  ∃ loc, fs.locate true p = .ok loc ∧ fs.formAt? loc = some .directory ∧
    ∀ c, c ∈ children ↔ ∃ n, fs.get? (loc ++ [n]) ≠ none ∧ c = p.child n

/-- The listing of a directory gives its children, unless an event made it fail. -/
theorem ends_listChildren (hc : s.state.Calm) (hp : p.Proper) (ha : p.isAbsolute = true)
    (hn : '\x00' ∉ p.text.toList) (hd : LeadsToDirectory s.state.files p) :
    Ends ((deleter gc cap hcap).listChildren p) s
      (fun r s' => s.Advances s' ∧ s'.state.files = s.state.files ∧
        ((∃ children, r = some children ∧ Listed s.state.files p children) ∨
          (r = some [] ∧ s.state.MayBlind .list p.text) ∨ r = none ∧ s.state.MayDeny p.text))
      (fun e s' => s.Advances s' ∧ s'.state.files = s.state.files ∧ s.state.Escapes p.text e) := by
  unfold Deleter.listChildren
  apply Ends.bind (ends_observe_keep (ends_children hc hp ha))
  rintro (f | children) s₁ ⟨h, hl, -⟩
  · obtain ⟨hf, hfiles, f', rfl, hcause⟩ := h
    have hadv : s.Advances s₁ := .of_world hf (le_of_eq hfiles) hl
    obtain ⟨moment, hs⟩ : ∃ moment, s.state.Strikes moment .list p.text f' := by
      cases hcause with
      | refused he =>
        obtain ⟨loc, hloc, hdir⟩ := hd
        obtain ⟨m, es, hg⟩ := FileSystem.formAt?_eq_directory_iff.1 hdir
        rw [(FileSystem.list_eq_ok_iff hp ha).2 ⟨loc, m, es, hloc, hg, rfl⟩] at he
        cases he
      | nullByte h => exact absurd h hn
      | struck hs => exact ⟨_, hs⟩
    have hesc := (hs.mayRaise (by decide)).awaited
    cases hf' : f'.awaited with
    | system e =>
      obtain ⟨e', rfl, he⟩ := Fault.eq_system_of_awaited hf'
      simp only
      cases hm : e.errno.isMissing with
      | true =>
        simp only [if_true]
        refine Ends.bind (Q := fun _ s' => s.Advances s' ∧ s'.state.files = s.state.files)
          (ends_note ⟨hadv.trans (.note ?_), hfiles⟩) ?_
        · simp [String.toList_append]
        · rintro - s₂ ⟨h₂, hfiles₂⟩
          exact Ends.pure ⟨h₂, hfiles₂, Or.inr (Or.inr ⟨rfl, moment, .list, e', hs, he ▸ hm⟩)⟩
      | false =>
        simp only [Bool.false_eq_true, if_false]
        refine Ends.bind (Q := fun _ s' => s.Advances s' ∧ s'.state.files = s.state.files)
          (ends_note ⟨hadv.trans (.note ?_), hfiles⟩) ?_
        · simp
        · rintro - s₂ ⟨h₂, hfiles₂⟩
          exact Ends.pure ⟨h₂, hfiles₂, Or.inr (Or.inl ⟨rfl, moment, _, hs⟩)⟩
    | nullByte | cancelled | interrupted =>
      rw [hf'] at hesc
      exact Ends.throw ⟨hadv, hfiles, hesc.escapes nofun⟩
  · obtain ⟨hf, hfiles, -, hlisted⟩ := h
    exact Ends.pure ⟨.of_world hf (le_of_eq hfiles) hl, hfiles, Or.inl ⟨children, rfl, hlisted⟩⟩

/-- A step on a path leaves the files as they are or removes the node at the path. -/
structure Touches (p : Path) (s s' : Session World) : Prop extends s.Advances s' where
  removes : s'.state.files = s.state.files ∨
    s.state.files.Removes s.state.changeTime p s'.state.files

theorem Touches.advance {s' s'' : Session World} (h : Touches p s s') (h' : s'.Advances s'')
    (hf : s''.state.files = s'.state.files) : Touches p s s'' :=
  ⟨h.toAdvances.trans h', by rw [hf]; exact h.removes⟩

/-- What is removed is missing afterwards, so that nothing is removed twice at one path. -/
theorem Touches.trans {s' s'' : Session World} (h : Touches p s s') (h' : Touches p s' s'') :
    Touches p s s'' := by
  refine ⟨h.toAdvances.trans h'.toAdvances, ?_⟩
  rcases h'.removes with he | hr
  · rw [he]; exact h.removes
  · rcases h.removes with he | hr'
    · rw [he, h.world.changeTime] at hr
      exact Or.inr hr
    · obtain ⟨parent, name, hl, hn, -⟩ := hr
      exact absurd (hr'.missing.get?_eq_none hl) hn

/-- A path is missing after a step, or an event may have claimed so. -/
def Gone (p : Path) (s s' : Session World) : Prop :=
  s'.state.files.Missing p ∨ s.state.MayDeny p.text

theorem ends_tryOnce (hc : s.state.Calm) (hp : p.Proper) (ha : p.isAbsolute = true) :
    Ends ((deleter gc cap hcap).tryOnce p) s
      (fun r s' => Touches p s s' ∧ ∀ removed, r = .ok removed → Gone p s s')
      (fun e s' => Touches p s s' ∧ s.state.Escapes p.text e) := by
  unfold Deleter.tryOnce
  apply Ends.bind (ends_observe_keep (ends_removeNode hc hp ha))
  rintro r s₁ ⟨h, hl, -⟩
  have htouch : Touches p s s₁ := by
    have hfiles : s₁.state.files = s.state.files ∨
        s.state.files.Removes s.state.changeTime p s₁.state.files := by
      cases r with
      | ok removed => exact h.2.1
      | error f => exact h.2.1
    have hf : s.state.Follows s₁.state := by
      cases r with
      | ok removed => exact h.1
      | error f => exact h.1
    have hle : s₁.state.files ≤ s.state.files := by
      rcases hfiles with he | hr
      · exact le_of_eq he
      · exact hr.le
    exact ⟨.of_world hf hle hl, hfiles⟩
  apply Ends.bind (Q := fun _ s' => Touches p s s' ∧ s'.state = s₁.state)
    (ends_record ⟨htouch.advance (.record _) rfl, rfl⟩)
  rintro - s₂ ⟨ht, hst⟩
  cases r with
  | ok removed =>
    refine Ends.pure ⟨ht, fun _ _ => ?_⟩
    obtain ⟨-, -, hyes, hno⟩ := h
    unfold Gone
    rw [hst]
    cases removed with
    | true => exact Or.inl (hyes rfl).missing
    | false =>
      rcases hno rfl with hm | hm
      · exact Or.inl (hm.of_le htouch.files)
      · exact Or.inr hm
  | error f =>
    obtain ⟨-, -, hm⟩ := h
    cases f with
    | system e => exact Ends.pure ⟨ht, nofun⟩
    | nullByte | cancelled | interrupted => exact Ends.throw ⟨ht, hm.escapes nofun⟩

theorem ends_pauseBeforeRetry {w : World} (hc : w.Calm) :
    Ends (deleter gc cap hcap).pauseBeforeRetry w
      (fun _ w' => w.Follows w' ∧ w'.files = w.files)
      (fun f w' => w.Follows w' ∧ w'.files = w.files ∧
        ∃ moment c t, w.Strikes moment c t f ∧ c.IsWait) := by
  have hpause : ∀ {w₁ : World}, w.Follows w₁ → w₁.files = w.files →
      Ends World.environment.pause w₁ (fun _ w' => w.Follows w' ∧ w'.files = w.files)
        (fun f w' => w.Follows w' ∧ w'.files = w.files ∧
          ∃ moment c t, w.Strikes moment c t f ∧ c.IsWait) := by
    intro w₁ hf hfiles
    apply (ends_pause (hf.calm hc)).mono
    · rintro - w' ⟨hf', hfiles'⟩
      exact ⟨hf.trans hf', hfiles'.trans hfiles⟩
    · rintro f w' ⟨hf', hfiles', moment, hs⟩
      exact ⟨hf.trans hf', hfiles'.trans hfiles, moment, _, _, hf.strikes hs, Or.inl rfl⟩
  unfold Deleter.pauseBeforeRetry
  cases gc with
  | false => exact hpause (.refl w) rfl
  | true =>
    refine Ends.seq (ends_collect hc) ?_ fun _ _ h => hpause h.1 h.2
    rintro f w' ⟨hf, hfiles, moment, hs⟩
    exact ⟨hf, hfiles, moment, _, _, hs, Or.inr rfl⟩

/-- An attempt removes the node at its path or nothing. Unless both tries failed, or the pause
between them was cancelled, nothing is there afterwards. -/
theorem ends_attempt (hc : s.state.Calm) (hp : p.Proper) (ha : p.isAbsolute = true) :
    Ends ((deleter gc cap hcap).attempt p) s
      (fun r s' => Touches p s s' ∧
        (∀ removed, r = .first removed ∨ r = .second removed → Gone p s s') ∧
        ∀ e, r = .abandoned e → s.state.MayCancel)
      (fun e s' => Touches p s s' ∧ s.state.Escapes p.text e) := by
  unfold Deleter.attempt
  apply Ends.bind (ends_tryOnce hc hp ha)
  rintro (e | removed) s₁ ⟨h₁, hgone₁⟩
  rotate_left
  · exact Ends.pure ⟨h₁, fun _ _ => hgone₁ removed rfl, nofun⟩
  refine Ends.bind (Q := fun _ s' => Touches p s s') (ends_absolute ha h₁) fun place s₂ h₂ => ?_
  refine Ends.bind (Q := fun _ s' => Touches p s s')
    (ends_note (h₂.advance (.note ?_) rfl)) fun _ s₃ h₃ => ?_
  · simp [toString]
  apply Ends.bind (ends_observe_keep (ends_pauseBeforeRetry (h₃.calm hc)))
  rintro r s₄ ⟨hpause, hl, -⟩
  have h₄ : Touches p s s₄ := by
    cases r with
    | ok =>
      obtain ⟨hf, hfiles⟩ := hpause
      exact h₃.advance (.of_world hf (le_of_eq hfiles) hl) hfiles
    | error f =>
      obtain ⟨hf, hfiles, -⟩ := hpause
      exact h₃.advance (.of_world hf (le_of_eq hfiles) hl) hfiles
  refine Ends.bind (Q := fun _ s' => Touches p s s')
    (ends_record (h₄.advance (.record _) rfl)) fun _ s₅ h₅ => ?_
  cases r with
  | ok =>
    apply Ends.seq (ends_tryOnce (h₅.calm hc) hp ha)
    · rintro e' s₆ ⟨h₆, he⟩
      exact ⟨h₅.trans h₆, h₅.world.escapes he⟩
    · rintro (e' | removed) s₆ ⟨h₆, hgone₆⟩
      · apply Ends.bind (Q := fun _ s' => Touches p s s') (ends_absolute ha (h₅.trans h₆))
        exact fun _ s₇ h₇ => Ends.pure ⟨h₇, nofun, nofun⟩
      · exact Ends.pure ⟨h₅.trans h₆, fun _ _ => (hgone₆ removed rfl).imp_right h₅.world.mayDeny,
          nofun⟩
  | error f =>
    obtain ⟨-, -, moment, c, t, hs, hcall⟩ := hpause
    have hs₀ := h₃.world.strikes hs
    cases f with
    | cancelled => exact Ends.pure ⟨h₅, nofun, fun _ _ => ⟨moment, c, t, hs₀, hcall⟩⟩
    | system | nullByte | interrupted => exact Ends.throw ⟨h₅, .paused hs₀ hcall nofun⟩

/-- A node is attempted: it is gone and no failure is booked, or its failure is. -/
structure Booked (p : Path) (run : Run) (r : Run × Bool) (s s' : Session World) : Prop where
  outcome : (r.1.failed = run.failed ∧ r.2 = false ∧ Gone p s s') ∨
    (r.1.failed = run.failed.insert p.normalize.text ∧ r.2 = r.1.failed.isFull)
  interrupted : r.1.interrupted = run.interrupted ∨ s.state.MayCancel

theorem ends_deleteNode (hc : s.state.Calm) (hp : p.Proper) (ha : p.isAbsolute = true)
    (run : Run) :
    Ends ((deleter gc cap hcap).deleteNode run p) s
      (fun r s' => Touches p s s' ∧ Booked p run r s s')
      (fun e s' => Touches p s s' ∧ s.state.Escapes p.text e) := by
  have hbook : ∀ {s' : Session World} {run' : Run}, Touches p s s' → run'.failed = run.failed →
      (run'.interrupted = run.interrupted ∨ s.state.MayCancel) →
      Ends (deleteNode.book (deleter gc cap hcap) p run') s'
        (fun r s'' => Touches p s s'' ∧ Booked p run r s s'')
        (fun e s'' => Touches p s s'' ∧ s.state.Escapes p.text e) := by
    intro s' run' ht hf hi
    unfold deleteNode.book
    apply Ends.bind (Q := fun place s'' => place = p.normalize.text ∧ Touches p s s'')
      (ends_absolute ha ⟨rfl, ht⟩)
    rintro _ s'' ⟨rfl, ht'⟩
    exact Ends.pure ⟨ht', Or.inr ⟨by rw [hf], rfl⟩, hi⟩
  unfold Deleter.deleteNode
  apply Ends.bind (ends_attempt hc hp ha)
  rintro r s₁ ⟨h₁, hgone, hcancel⟩
  cases r with
  | first removed =>
    exact Ends.pure ⟨h₁, Or.inl ⟨rfl, rfl, hgone removed (Or.inl rfl)⟩, Or.inl rfl⟩
  | second removed =>
    exact Ends.pure ⟨h₁, Or.inl ⟨rfl, rfl, hgone removed (Or.inr rfl)⟩, Or.inl rfl⟩
  | stuck place e => exact hbook h₁ rfl (Or.inl rfl)
  | abandoned e =>
    refine Ends.bind (Q := fun _ s' => Touches p s s') (ends_absolute ha h₁) fun _ s₂ h₂ => ?_
    refine Ends.bind (Q := fun _ s' => Touches p s s')
      (ends_note (h₂.advance (.note ?_) rfl)) fun _ s₃ h₃ => ?_
    · simp
    refine Ends.bind (Q := fun _ s' => Touches p s s') (ends_absolute ha h₃) fun _ s₄ h₄ => ?_
    exact hbook h₄ rfl (Or.inr (hcancel e rfl))

theorem ends_leave (hc : s.state.Calm) (hp : p.Proper) (ha : p.isAbsolute = true)
    (root : Path) (includeRoot : Bool) (run : Run) :
    Ends ((deleter gc cap hcap).leave root includeRoot p run) s
      (fun r s' => (p = root ∧ includeRoot = false ∧ r = (run, false) ∧ s' = s) ∨
        (¬ (p = root ∧ includeRoot = false) ∧ Touches p s s' ∧ Booked p run r s s'))
      (fun e s' => Touches p s s' ∧ s.state.Escapes p.text e) := by
  unfold Deleter.leave
  split
  · rename_i h
    exact Ends.pure (Or.inl ⟨h.1, h.2, rfl, rfl⟩)
  · rename_i h
    apply Ends.bind (ends_deleteNode hc hp ha run)
    rintro ⟨run', full⟩ s₁ ⟨h₁, hb⟩
    cases full with
    | false => exact Ends.pure (Or.inr ⟨h, h₁, hb⟩)
    | true =>
      refine Ends.bind (Q := fun _ s' => Touches p s s' ∧ s'.state = s₁.state)
        (ends_note ⟨h₁.advance (.note ?_) rfl, rfl⟩) ?_
      · simp [toString]
      · rintro - s₂ ⟨h₂, hst⟩
        refine Ends.pure (Or.inr ⟨h, h₂, ?_, hb.interrupted⟩)
        unfold Gone
        rw [hst]
        exact hb.outcome

end Deleter

end TreeRemoval
