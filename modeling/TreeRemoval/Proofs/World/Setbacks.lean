import TreeRemoval.Proofs.Deletion.Steps
import TreeRemoval.Proofs.Matching
import TreeRemoval.Proofs.World.Refusals

/-! # Setbacks

A world whose events refuse listings and removals, before any work is done and with whatever errors,
and cancel pauses. A look leaves such a world alone, so that what could not be removed still shows
at the next look.
-/

namespace TreeRemoval

open Deletion

structure Event.IsSetback (e : Event) : Prop where
  edits : e.edits = []
  effect : (e.call = .list ∨ e.call = .rmdir ∨ e.call = .unlink) ∧ e.moment = .before ∧
      (∃ errno, e.disruption = some (.errno errno)) ∨
    e.call = .pause ∧ e.disruption = some .cancel

theorem Event.IsSetback.of_fresh {e e' : Event} (h : e.fresh = e'.fresh) (hs : e.IsSetback) :
    e'.IsSetback := by
  cases e; cases e'
  simp only [fresh, Event.mk.injEq] at h
  obtain ⟨rfl, rfl, rfl, rfl, rfl, rfl, rfl, rfl, -⟩ := h
  exact ⟨hs.edits, hs.effect⟩

namespace World

variable {w w' : World} {c : Call} {t : String} {f : Fault} {moment : Moment} {e : Failure}
  {p : Path} {gc : Bool} {cap : Nat} {hcap : 0 < cap}

def OnlySetbacks (w : World) : Prop := ∀ e ∈ w.events, e.IsSetback

theorem Follows.onlySetbacks (h : w.Follows w') (hs : w.OnlySetbacks) : w'.OnlySetbacks := by
  intro e he
  obtain ⟨e', he', hf⟩ := h.exists_fresh he
  exact .of_fresh hf (hs e' he')

def Remains (w : World) (t : String) : Prop :=
  '\x00' ∉ t.toList ∧ ∀ e, w.files.lstat w.workingDirectory t = .error e → e.isMissing = false

theorem Still.remains (h : w.Still w') (hr : w.Remains t) : w'.Remains t := by
  refine ⟨hr.1, ?_⟩
  rw [h.2, h.1.workingDirectory]
  exact hr.2

namespace OnlySetbacks

variable (h : w.OnlySetbacks)

include h

theorem calm : w.Calm := fun e he => (h e he).edits

theorem of_strikes (hs : w.Strikes moment c t f) :
    (c = .list ∨ c = .rmdir ∨ c = .unlink) ∧ moment = .before ∧ (∃ e, f = .system e) ∨
      c = .pause ∧ f = .cancelled := by
  obtain ⟨e, he, hm, d, hd, rfl⟩ := hs
  unfold Event.isMatch at hm
  simp only [Bool.and_eq_true, decide_eq_true_eq] at hm
  obtain ⟨⟨⟨rfl, rfl⟩, -⟩, -⟩ := hm
  rcases (h e he).effect with ⟨hcall, hmoment, errno, hd'⟩ | ⟨hcall, hd'⟩
  · obtain rfl : d = .errno errno := Option.some.inj (hd.symm.trans hd')
    exact Or.inl ⟨hcall, hmoment, _, rfl⟩
  · obtain rfl : d = .cancel := Option.some.inj (hd.symm.trans hd')
    exact Or.inr ⟨hcall, rfl⟩

theorem escapes (he : w.Escapes t e) : e = .fault .nullByte ∧ '\x00' ∈ t.toList := by
  cases he with
  | nullByte hn => exact ⟨rfl, hn⟩
  | stopped hs hc hf =>
    rcases h.of_strikes hs with ⟨-, -, e, rfl⟩ | ⟨rfl, -⟩
    · rcases hf with hf | hf <;> cases hf
    · exact absurd (Or.inl rfl) hc
  | paused hs hc hf =>
    rcases h.of_strikes hs with ⟨hcall, -⟩ | ⟨-, rfl⟩
    · rcases hc with rfl | rfl <;> simp at hcall
    · exact absurd rfl hf

theorem not_mayBlind (hc : c ≠ .list ∧ c ≠ .rmdir ∧ c ≠ .unlink ∧ c ≠ .pause) :
    ¬ w.MayBlind c t := by
  rintro ⟨moment, f, hs⟩
  obtain ⟨hlist, hrmdir, hunlink, hpause⟩ := hc
  rcases h.of_strikes hs with ⟨rfl | rfl | rfl, -⟩ | ⟨rfl, -⟩
  · exact hlist rfl
  · exact hrmdir rfl
  · exact hunlink rfl
  · exact hpause rfl

theorem fire_other (hc : c ≠ .list ∧ c ≠ .rmdir ∧ c ≠ .unlink ∧ c ≠ .pause) :
    fire moment c t w = .ok () w := by
  have hnone : ∀ e ∈ w.events, e.isMatch moment c t = false := by
    intro e he
    have hne : e.call ≠ c := by
      rintro rfl
      rcases (h e he).effect with ⟨hcall, -⟩ | ⟨hcall, -⟩ <;> simp_all
    simp [Event.isMatch, hne]
  unfold fire
  rw [Event.fire_of_not_match hnone]

theorem lstat_eq (t : String) : environment.lstat t w =
    if '\x00' ∈ t.toList then .error .nullByte w
    else match w.files.lstat w.workingDirectory t with
      | .ok status => .ok status w
      | .error e => .error (.system ⟨e, some t⟩) w := by
  have hfire : ∀ moment, fire moment .lstat t w = .ok () w := fun _ => h.fire_other (by decide)
  change call .lstat t (looking fun files cwd => files.lstat cwd t) w = _
  unfold call
  rw [bind_of_ok (hfire .before)]
  by_cases hn : '\x00' ∈ t.toList
  · rw [if_pos hn, bind_of_error (e := .nullByte) (by unfold work; rw [if_pos hn])]
  · rw [if_neg hn]
    cases hl : w.files.lstat w.workingDirectory t with
    | ok status =>
      have hwork : work t (looking fun files cwd => files.lstat cwd t) w = .ok status w := by
        simp only [work, if_neg hn, looking, hl, Except.map]
      rw [bind_of_ok hwork, bind_of_ok (hfire .after)]
      rfl
    | error e =>
      rw [bind_of_error (e := .system ⟨e, some t⟩)]
      simp only [work, if_neg hn, looking, hl, Except.map]

/-- A look leaves the world alone. It finds that nothing is there unless something remains. -/
theorem ends_look? (t : String) :
    Ends (environment.look? t) w (fun r w' => w' = w ∧ (r ≠ none → w.Remains t))
      (fun f w' => w' = w ∧ ((∃ e, f = .system e) → w.Remains t)) := by
  have hlstat := h.lstat_eq t
  unfold Environment.look?
  by_cases hn : '\x00' ∈ t.toList
  · rw [if_pos hn] at hlstat
    exact Ends.bind_ok (outcome_of_error (awaited_of_error hlstat)) (Ends.throw ⟨rfl, nofun⟩)
  rw [if_neg hn] at hlstat
  cases hl : w.files.lstat w.workingDirectory t with
  | ok status =>
    rw [hl] at hlstat
    apply Ends.bind_ok (outcome_of_ok (awaited_of_ok hlstat))
    exact Ends.pure ⟨rfl, fun _ => ⟨hn, by rw [hl]; nofun⟩⟩
  | error e =>
    rw [hl] at hlstat
    apply Ends.bind_ok (outcome_of_error (awaited_of_error hlstat))
    obtain ⟨e', he', herrno⟩ := Fault.awaited_system ⟨e, some t⟩
    rw [he']
    dsimp only
    split
    · exact Ends.pure ⟨rfl, fun hne => absurd rfl hne⟩
    · rename_i hm
      refine Ends.throw ⟨rfl, fun _ => ⟨hn, ?_⟩⟩
      rw [hl]
      rintro _ ⟨⟩
      rw [herrno] at hm
      simpa using hm

theorem ends_refusal (hc : c = .rmdir ∨ c = .unlink)
    (change : FileSystem → String → Option Float → Except Errno FileSystem) :
    Ends (call c t (changing change)) w (fun _ _ => True) (fun _ w' => w.Still w') := by
  apply (ends_changing h.calm change).mono fun _ _ _ => trivial
  rintro f w' ⟨hw, ⟨hsame, -⟩ | ⟨-, hs⟩⟩
  · exact ⟨hw, hsame⟩
  · rcases h.of_strikes hs with ⟨-, hmoment, -⟩ | ⟨rfl, -⟩
    · cases hmoment
    · rcases hc with hc | hc <;> cases hc

theorem ends_removeNode (t : String) :
    Ends (environment.removeNode t) w (fun _ _ => True)
      (fun f w' => (∃ e, f = .system e) → w'.Remains t) := by
  unfold Environment.removeNode
  apply Ends.seq (h.ends_look? t)
  · rintro f w' ⟨rfl, hr⟩
    exact hr
  rintro (_ | status) w₁ ⟨rfl, hr⟩
  · exact Ends.pure trivial
  have hremains := hr nofun
  have hremove : Ends (if status.kind = .directory then environment.rmdir t
      else environment.unlink t) w₁ (fun _ _ => True) (fun _ w' => w₁.Still w') := by
    split
    · exact h.ends_refusal (Or.inl rfl) _
    · exact h.ends_refusal (Or.inr rfl) _
  apply Ends.bind_outcome (Ends.awaited (E := fun _ w' => w₁.Still w') hremove)
  · exact fun _ _ _ => Ends.pure trivial
  · rintro f w' hstill
    cases f with
    | system e =>
      dsimp only
      split
      · exact Ends.pure trivial
      · exact Ends.throw fun _ => hstill.remains hremains
    | nullByte | cancelled | interrupted => exact Ends.throw nofun

theorem ends_collect :
    Ends environment.collect w (fun _ w' => w.Still w') (fun _ _ => False) := by
  apply (World.ends_collect h.calm).mono (fun _ _ h => h)
  rintro f w' ⟨-, -, moment, hs⟩
  exact h.not_mayBlind (by decide) ⟨moment, f, hs⟩

theorem ends_pause :
    Ends environment.pause w (fun _ w' => w.Still w') (fun f w' => w.Still w' ∧ f = .cancelled) := by
  apply (World.ends_pause h.calm).mono (fun _ _ h => h)
  rintro f w' ⟨hw, hsame, moment, hs⟩
  rcases h.of_strikes hs with ⟨hcall, -⟩ | ⟨-, hf⟩
  · simp at hcall
  · exact ⟨⟨hw, hsame⟩, hf⟩

end OnlySetbacks

end World

end TreeRemoval
