import TreeRemoval.Proofs.Deletion.Looking
import TreeRemoval.Proofs.World.Amid

/-! # Steps of a deletion amid others

The steps of a walk while others change the files between its calls, but no call is struck by a
fault. Each step says what was there when it asked. None fails but on a text that no call takes.
-/

namespace TreeRemoval

/-- The deleter that works on a world amid others, and tells links by looking at them. -/
def World.chronicler (others : Interference) (collectsGarbage : Bool) (cap : Nat) (h : 0 < cap) :
    Deleter (Chronicle World) where
  environment := World.amid others
  now := Chronicle.reading World.now
  isSymlink := SymlinkTest.run (World.amid others) .look
  collectsGarbage
  maxReported := cap
  maxReported_pos := h

namespace Chronicle

open World

variable {others : Interference} {R : FileSystem → FileSystem → Prop}
  {c c' c'' c₁ : Chronicle World} {p : Path}

def Onward (R : FileSystem → FileSystem → Prop) (c c' : Chronicle World) : Prop :=
  ∃ texts, Goes R texts c c'

theorem Goes.onward {texts : List String} (h : Goes R texts c c') : Onward R c c' := ⟨texts, h⟩

theorem Onward.quiet (h : Onward R c c') (hq : c.state.Quiet) : c'.state.Quiet := by
  obtain ⟨_, hg⟩ := h
  exact hg.world.quiet hq

def Clears (R : FileSystem → FileSystem → Prop) (p : Path) (c c' : Chronicle World) : Prop :=
  Takes R p c c' ∨ Goes R [] c c' ∧ c'.state.files.Missing p

def Fails (R : FileSystem → FileSystem → Prop) (p : Path) (c c' : Chronicle World) (e : Errno) :
    Prop :=
  Goes R [] c c' ∧ ∃ c₁, Goes R [] c c₁ ∧ Goes R [] c₁ c' ∧ Balks p c₁ c' e

def Garbled (R : FileSystem → FileSystem → Prop) (p : Path) (c c' : Chronicle World) : Prop :=
  Goes R [] c c' ∧ c'.Told p.text ∧ '\x00' ∈ p.text.toList

/-- A node was attempted: it was cleared and no failure is booked, or its failure is. -/
def Tended (R : FileSystem → FileSystem → Prop) (p : Path) (run : Run) (r : Run × Bool)
    (c c' : Chronicle World) : Prop :=
  r.1.failed = run.failed ∧ r.2 = false ∧ Clears R p c c' ∨
    r.1.failed = run.failed.insert p.normalize.text ∧ ∃ e, Fails R p c c' e

section

variable (ho : others.Obeys R)

include ho

theorem onward_refl (c : Chronicle World) : Onward R c c := (goes_refl ho c).onward

theorem onward_trans (h : Onward R c c') (h' : Onward R c' c'') : Onward R c c'' := by
  obtain ⟨_, h⟩ := h
  obtain ⟨_, h'⟩ := h'
  exact (goes_trans ho h h').onward

theorem goes_reading (c : Chronicle World) : Goes R [] c (reading now c).2 :=
  ⟨⟨follows_now c.state, ho.refl _⟩, [], by simp [reading], rfl⟩

theorem clears_after (h : Goes R [] c c₁) (h' : Clears R p c₁ c') : Clears R p c c' :=
  h'.imp (takes_after ho h) (And.imp_left (goes_trans ho h))

theorem fails_after {e : Errno} (h : Goes R [] c c₁) (h' : Fails R p c₁ c' e) : Fails R p c c' e := by
  obtain ⟨hg, c₂, hg₂, hb⟩ := h'
  exact ⟨goes_trans ho h hg, c₂, goes_trans ho h hg₂, hb⟩

theorem looking_onward {gc : Bool} {cap : Nat} {hcap : 0 < cap} (hq : c.state.Quiet) :
    (chronicler others gc cap hcap).Looking (Onward R c) := by
  have hlook : ∀ {α : Type} (kind : Call) (t : String)
      (look : FileSystem → String → Except Errno α),
      Keeps (Onward R c) (call others.steps kind t (World.call kind t (looking look))) := by
    rintro α kind t look c₁ ⟨_, hc₁⟩
    exact (ends_looking ho (hc₁.world.quiet hq) kind t look).mono
      (fun _ _ h => (goes_trans ho hc₁ h.1).onward) fun _ _ h => (goes_trans ho hc₁ h.1).onward
  exact {
    stat := fun t => hlook .stat t _
    lstat := fun t => hlook .lstat t _
    list := fun t => hlook .list t _
    workingDirectory := fun c₁ hc₁ => ends_lift
      (ends_currentDirectory.mono (fun _ _ h => h.1 ▸ hc₁) fun _ _ h => h ▸ hc₁)
    isSymlink := fun p => (hlook .lstat p.text _).shows _
    now := fun c₁ ⟨_, hc₁⟩ => (goes_trans ho hc₁ (goes_reading ho c₁)).onward }

end

end Chronicle

namespace Deleter

open World Deletion Chronicle

variable {others : Interference} {R : FileSystem → FileSystem → Prop} {gc : Bool} {cap : Nat}
  {hcap : 0 < cap} {s : Session (Chronicle World)} {p : Path} {followSymlinks : Bool}

variable (ho : others.Obeys R) (hq : s.state.state.Quiet)

include ho hq

/-- Only a directory is walked into, and unless links are followed, only what is no link a moment
later. -/
theorem ends_shouldFollow_amid (hp : p.Proper) (ha : p.isAbsolute = true) :
    Ends ((chronicler others gc cap hcap).shouldFollow followSymlinks p) s
      (fun b s' => s'.state.Told p.text ∧ ∃ c, Goes R [] s.state c ∧ Goes R [] c s'.state ∧
        (b = true → '\x00' ∉ p.text.toList ∧ LeadsToDirectory c.state.files p ∧
          (followSymlinks = true ∨ ¬ IsLinkAt s'.state.state.files p)) ∧
        (b = false → '\x00' ∈ p.text.toList ∨ ¬ LeadsToDirectory c.state.files p ∨
          followSymlinks = false ∧ IsLinkAt s'.state.state.files p))
      (fun _ _ => False) := by
  unfold shouldFollow
  refine Ends.seq (ends_perform_keep (ends_isDirectory ho hq hp ha)) (fun _ _ ⟨_, _, h, _⟩ => h) ?_
  rintro (_ | _) s₁ ⟨⟨hg, hs, hyes, hno⟩, -⟩
  · exact Ends.pure ⟨hs, _, hg, goes_refl ho _, nofun, fun _ => (hno rfl).imp_right Or.inl⟩
  obtain ⟨hn, hdir⟩ := hyes rfl
  cases followSymlinks with
  | true => exact Ends.pure ⟨hs, _, hg, goes_refl ho _, fun _ => ⟨hn, hdir, Or.inl rfl⟩, nofun⟩
  | false =>
    refine Ends.seq (ends_perform_keep (ends_isLink ho (hg.world.quiet hq) hp ha))
      (fun _ _ ⟨_, _, h, _⟩ => h) ?_
    rintro b s₂ ⟨⟨hg₂, hs₂, hlink, hnot⟩, -⟩
    refine Ends.pure ⟨hs₂, _, hg, hg₂, fun hb => ⟨hn, hdir, Or.inr ?_⟩, fun hb => ?_⟩
    · exact (hnot (by simpa using hb)).resolve_left hn
    · exact Or.inr (Or.inr ⟨rfl, hlink (by simpa using hb)⟩)

/-- A listing gives the children that are there, or it is refused and tells so. -/
theorem ends_listChildren_amid (hp : p.Proper) (ha : p.isAbsolute = true) :
    Ends ((chronicler others gc cap hcap).listChildren p) s
      (fun r s' =>
        (∃ children, r = some children ∧ Goes R [p.text] s.state s'.state ∧
          Listed s'.state.state.files p children) ∨
        Goes R [] s.state s'.state ∧ s'.state.Told p.text ∧
          ∃ e, s'.state.Tells ⟨.list, p.text, some (.system ⟨e, some p.text⟩)⟩ ∧
            s'.state.state.files.list s.state.state.workingDirectory p.text = .error e ∧
            (r = some [] ∧ e.isMissing = false ∨ r = none ∧ e.isMissing = true))
      fun _ s' => Garbled R p s.state s'.state := by
  unfold listChildren
  apply Ends.bind (ends_observe_keep (ends_children ho hq hp ha))
  rintro (f | children) s₁ ⟨h, -⟩
  · obtain ⟨hg, hs, ⟨rfl, hn⟩ | ⟨e, e', rfl, rfl, htells, he⟩⟩ := h
    · exact Ends.throw ⟨hg, hs, hn⟩
    · dsimp only
      split
      · rename_i hm
        refine ends_bind_note fun s₂ hst => ?_
        refine Ends.pure (Or.inr ?_)
        rw [hst]
        exact ⟨hg, hs, _, htells, he, Or.inr ⟨rfl, hm⟩⟩
      · rename_i hm
        refine ends_bind_note fun s₂ hst => ?_
        refine Ends.pure (Or.inr ?_)
        rw [hst]
        exact ⟨hg, hs, _, htells, he, Or.inl ⟨rfl, by simpa using hm⟩⟩
  · exact Ends.pure (Or.inl ⟨children, rfl, h⟩)

theorem ends_tryOnce_amid (hp : p.Proper) (ha : p.isAbsolute = true) :
    Ends ((chronicler others gc cap hcap).tryOnce p) s
      (fun r s' => s'.state.Told p.text ∧
        match r with
        | .ok _ => Clears R p s.state s'.state
        | .error e => Fails R p s.state s'.state e.errno)
      fun _ s' => Garbled R p s.state s'.state := by
  unfold tryOnce
  apply Ends.bind (ends_observe_keep (ends_removeNode ho hq hp ha))
  rintro r s₁ ⟨h, -⟩
  refine ends_bind_record fun s₂ hst => ?_
  rcases r with f | removed
  · obtain ⟨hg, hs, ⟨rfl, hn⟩ | ⟨e, c₁, rfl, hg₁, hg₁₂, hb⟩⟩ := h
    · exact Ends.throw (hst ▸ ⟨hg, hs, hn⟩)
    · exact Ends.pure (hst ▸ ⟨hs, hg, c₁, hg₁, hg₁₂, hb⟩)
  · obtain ⟨hs, hyes, hno⟩ := h
    refine Ends.pure ?_
    rw [hst]
    cases removed with
    | true => exact ⟨hs, Or.inl (hyes rfl)⟩
    | false => exact ⟨hs, Or.inr (hno rfl)⟩

omit hq in
theorem ends_pauseBeforeRetry_amid {c : Chronicle World} (hq : c.state.Quiet) :
    Ends (chronicler others gc cap hcap).pauseBeforeRetry c (fun _ c' => Goes R [] c c')
      (fun _ _ => False) := by
  unfold pauseBeforeRetry
  cases gc with
  | false => exact ends_pause ho hq
  | true =>
    apply Ends.bind (ends_collect ho hq)
    rintro - c₁ h₁
    exact (ends_pause ho (h₁.world.quiet hq)).mono (fun _ _ h => goes_trans ho h₁ h) fun _ _ h => h

theorem ends_attempt_amid (hp : p.Proper) (ha : p.isAbsolute = true) :
    Ends ((chronicler others gc cap hcap).attempt p) s
      (fun r s' => s'.state.Told p.text ∧
        match r with
        | .first _ | .second _ => Clears R p s.state s'.state
        | .stuck _ e => Fails R p s.state s'.state e.errno
        | .abandoned _ => False)
      fun _ s' => Garbled R p s.state s'.state := by
  unfold attempt
  apply Ends.bind (ends_tryOnce_amid ho hq hp ha)
  rintro (e | removed) s₁ ⟨hs, h₁⟩
  rotate_left
  · exact Ends.pure ⟨hs, h₁⟩
  have hg := h₁.1
  apply Ends.bind (Q := fun _ s' => s'.state = s₁.state) (ends_absolute ha rfl)
  intro place s₂ h₂
  refine ends_bind_note fun s₃ hst => ?_
  have h₃ := hst.trans h₂
  apply Ends.bind (ends_observe_keep (ends_pauseBeforeRetry_amid ho (h₃ ▸ hg.world.quiet hq)))
  rintro (f | u) s₄ ⟨hpause, -⟩
  · exact hpause.elim
  rw [h₃] at hpause
  refine ends_bind_record fun s₅ h₅ => ?_
  have hg₅ : Goes R [] s.state s₅.state := h₅ ▸ goes_trans ho hg hpause
  refine Ends.seq (ends_tryOnce_amid ho (hg₅.world.quiet hq) hp ha) ?_ ?_
  · rintro e' s₆ ⟨hg₆, h₆⟩
    exact ⟨goes_trans ho hg₅ hg₆, h₆⟩
  rintro (e' | removed) s₆ ⟨hs₆, h₆⟩
  · apply Ends.bind (Q := fun _ s' => s'.state = s₆.state) (ends_absolute ha rfl)
    rintro place s₇ h₇
    exact Ends.pure (h₇ ▸ ⟨hs₆, fails_after ho hg₅ h₆⟩)
  · exact Ends.pure ⟨hs₆, clears_after ho hg₅ h₆⟩

theorem ends_deleteNode_amid (hp : p.Proper) (ha : p.isAbsolute = true) (run : Run) :
    Ends ((chronicler others gc cap hcap).deleteNode run p) s
      (fun r s' => s'.state.Told p.text ∧ Tended R p run r s.state s'.state)
      fun _ s' => Garbled R p s.state s'.state := by
  unfold deleteNode
  apply Ends.bind (ends_attempt_amid ho hq hp ha)
  rintro (removed | removed | ⟨place, e⟩ | e) s₁ ⟨hs, h⟩
  · exact Ends.pure ⟨hs, Or.inl ⟨rfl, rfl, h⟩⟩
  · exact Ends.pure ⟨hs, Or.inl ⟨rfl, rfl, h⟩⟩
  · unfold deleteNode.book
    apply Ends.bind (Q := fun place s' => place = p.normalize.text ∧ s'.state = s₁.state)
      (ends_absolute ha ⟨rfl, rfl⟩)
    rintro _ s₂ ⟨rfl, h₂⟩
    exact Ends.pure (h₂ ▸ ⟨hs, Or.inr ⟨rfl, _, h⟩⟩)
  · exact h.elim

theorem ends_leave_amid (hp : p.Proper) (ha : p.isAbsolute = true) (root : Path) (run : Run) :
    Ends ((chronicler others gc cap hcap).leave root true p run) s
      (fun r s' => s'.state.Told p.text ∧ Tended R p run r s.state s'.state)
      fun _ s' => Garbled R p s.state s'.state := by
  unfold leave
  rw [if_neg (by simp)]
  apply Ends.bind (ends_deleteNode_amid ho hq hp ha run)
  rintro ⟨run', full⟩ s₁ ⟨hs, h⟩
  cases full with
  | false => exact Ends.pure ⟨hs, h⟩
  | true =>
    exact ends_bind_note fun s₂ hst => Ends.pure (hst ▸ ⟨hs, h⟩)

theorem ends_finish_amid (root : Path) (startTime : Float) (run : Run) :
    Ends ((chronicler others gc cap hcap).finish followSymlinks root startTime run) s
      (fun _ s' => Goes R [] s.state s'.state ∧ run.failed.items = [])
      (fun _ s' => Onward R s.state s'.state ∧ run.failed.items ≠ []) := by
  have hlooks : (chronicler others gc cap hcap).Looking (Onward R s.state) := looking_onward ho hq
  have hgo := goes_reading ho s.state
  unfold finish
  apply Ends.bind (Q := fun _ s' => Goes R [] s.state s'.state) (ends_reading hgo)
  intro time s₁ h₁
  by_cases hempty : run.failed.isEmpty = true
  · rw [if_pos hempty]
    exact ends_note ⟨h₁, List.isEmpty_iff.1 hempty⟩
  rw [if_neg hempty]
  have hne : run.failed.items ≠ [] := fun h => hempty (List.isEmpty_iff.2 h)
  apply Ends.seq (hlooks.keeps_buildReport root startTime run s₁ h₁.onward) fun _ _ h => ⟨h, hne⟩
  intro report s₂ h₂
  refine ends_bind_note fun s₃ hst => ?_
  have h₃ : Onward R s.state s₃.state := hst ▸ h₂
  apply Ends.seq (hlooks.keeps_absolute root s₃ h₃) fun _ _ h => ⟨h, hne⟩
  exact fun place s₄ h₄ => Ends.throw ⟨h₄, hne⟩

omit hq in
/-- The deletion of a tree, given what its first look and its walk do: it says no if the look finds
nothing, and yes if nothing failed. -/
theorem ends_deleteTree_amid {root : Path} {N : Chronicle World → Prop}
    {L : Fault → Chronicle World → Prop} {Q : Run → Session (Chronicle World) → Prop}
    {E : Session (Chronicle World) → Prop}
    (hlook : Ends ((amid others).look? root.text) s.state
      (fun r c => Goes R [] s.state c ∧ (r = none → N c)) L)
    (hquiet : ∀ {run s'}, Q run s' → s'.state.state.Quiet)
    (hwalk : ∀ s₁ : Session (Chronicle World), Goes R [] s.state s₁.state →
      Ends ((chronicler others gc cap hcap).walk followSymlinks root true) s₁ Q fun _ s' => E s') :
    Ends ((chronicler others gc cap hcap).deleteTree followSymlinks root) s
      (fun b s' => b = false ∧ N s'.state ∨
        b = true ∧ ∃ run s₁, Q run s₁ ∧ run.failed.items = [] ∧ Goes R [] s₁.state s'.state)
      (fun _ s' => E s' ∨ (∃ f, L f s'.state) ∨
        ∃ run s₁, Q run s₁ ∧ run.failed.items ≠ [] ∧ Onward R s₁.state s'.state) := by
  unfold deleteTree
  refine Ends.seq (ends_perform_keep hlook) ?_ ?_
  · rintro _ s₁ ⟨f, rfl, hl, -⟩
    exact Or.inr (Or.inl ⟨f, hl⟩)
  rintro (_ | status) s₁ ⟨⟨h₁, hnone⟩, -⟩
  · exact ends_bind_note fun s₂ h₂ => Ends.pure (Or.inl ⟨rfl, h₂ ▸ hnone rfl⟩)
  unfold deleteBelow
  refine Ends.bind (Q := fun _ s' => ∃ run s₁, Q run s₁ ∧ run.failed.items = [] ∧
    Goes R [] s₁.state s'.state) ?_ fun _ _ h => Ends.pure (Or.inr ⟨rfl, h⟩)
  apply Ends.bind (Q := fun _ s' => Goes R [] s.state s'.state)
    (ends_reading (goes_trans ho h₁ (goes_reading ho s₁.state)))
  rintro startTime s₂ h₂
  refine ends_bind_note fun s₃ h₃ => ?_
  refine Ends.seq (hwalk s₃ (h₃ ▸ h₂)) (fun _ _ h => Or.inl h) ?_
  rintro run s₄ h₄
  refine Ends.seq (ends_finish_amid ho (hquiet h₄) root startTime run) ?_ ?_
  · rintro _ s₅ ⟨h₅, hne⟩
    exact Or.inr (Or.inr ⟨run, s₄, h₄, hne, h₅⟩)
  · rintro - s₅ ⟨h₅, hempty⟩
    exact Ends.pure ⟨run, s₄, h₄, hempty, h₅⟩

end Deleter

end TreeRemoval
