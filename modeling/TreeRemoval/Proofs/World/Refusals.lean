import TreeRemoval.Proofs.World.Answers

/-! # Refused calls

Events that only refuse calls of some kinds, before any work is done, with errors that do not deny
the node. Calls are then determined: a call does its work unless it is refused, and the events count
it either way. In a world that only refuses listings and removals, a look sees what is there and
leaves the world alone.
-/

namespace TreeRemoval

namespace Event

/-- The event refuses calls of some kinds before their work, and does not say that nothing is
there. -/
structure IsObstacle (calls : Call → Prop) (e : Event) : Prop where
  call : calls e.call
  moment : e.moment = .before
  edits : e.edits = []
  errno : ∃ errno, e.disruption = some (.errno errno) ∧ errno.isMissing = false

structure IsRefusal (e : Event) : Prop where
  call : e.call = .list ∨ e.call = .rmdir ∨ e.call = .unlink
  moment : e.moment = .before
  edits : e.edits = []
  errno : ∃ errno, e.disruption = some (.errno errno) ∧ errno.isMissing = false

/-- Whether events refuse a call on a text before its work, and the events with the call counted. -/
def refuses (c : Call) (t : String) (events : List Event) : Bool × List Event :=
  ((fire .before c t events .empty).2.2.isSome, (fire .before c t events .empty).1)

theorem IsObstacle.of_fresh {calls : Call → Prop} {e e' : Event} (h : e.fresh = e'.fresh)
    (hr : e.IsObstacle calls) : e'.IsObstacle calls := by
  cases e; cases e'
  simp only [fresh, Event.mk.injEq] at h
  obtain ⟨rfl, rfl, rfl, rfl, rfl, rfl, rfl, rfl, -⟩ := h
  exact ⟨hr.call, hr.moment, hr.edits, hr.errno⟩

theorem isRefusal_iff {e : Event} :
    e.IsRefusal ↔ e.IsObstacle fun c => c = .list ∨ c = .rmdir ∨ c = .unlink :=
  ⟨fun h => ⟨h.call, h.moment, h.edits, h.errno⟩, fun h => ⟨h.call, h.moment, h.edits, h.errno⟩⟩

theorem refuses_eq (c : Call) (t : String) (events : List Event) (files : FileSystem) :
    refuses c t events =
      ((fire .before c t events files).2.2.isSome, (fire .before c t events files).1) := by
  obtain ⟨he, hf⟩ := fire_files .before c t events files .empty
  rw [he, hf]
  rfl

theorem fire_of_not_match {moment : Moment} {c : Call} {t : String} {events : List Event}
    (h : ∀ e ∈ events, e.isMatch moment c t = false) (files : FileSystem) :
    fire moment c t events files = (events, files, none) := by
  induction events with
  | nil => rfl
  | cons e rest ih =>
    have he := h e List.mem_cons_self
    unfold fire
    rw [if_neg (by simp [he]), ih fun e' he' => h e' (List.mem_cons_of_mem _ he')]

theorem IsObstacle.isMatch_eq_false {calls : Call → Prop} {e : Event} (h : e.IsObstacle calls)
    {moment : Moment} {c : Call} (hc : moment = .after ∨ ¬ calls c) (t : String) :
    e.isMatch moment c t = false := by
  unfold isMatch
  rcases hc with rfl | hc
  · simp [h.moment]
  · have hne : e.call ≠ c := by
      rintro rfl
      exact hc h.call
    simp [hne]

end Event

namespace World

variable {w w' : World} {c : Call} {t : String} {p : Path} {n : Name} {place : Location}

def OnlyObstructs (calls : Call → Prop) (w : World) : Prop := ∀ e ∈ w.events, e.IsObstacle calls

def OnlyRefuses (w : World) : Prop := ∀ e ∈ w.events, e.IsRefusal

def counting (w : World) (c : Call) (t : String) : World :=
  { w with events := (Event.refuses c t w.events).2 }

theorem Follows.onlyObstructs {calls : Call → Prop} (h : w.Follows w')
    (hr : w.OnlyObstructs calls) : w'.OnlyObstructs calls := by
  intro e he
  obtain ⟨e', he', hf⟩ := h.exists_fresh he
  exact .of_fresh hf (hr e' he')

namespace OnlyObstructs

variable {calls : Call → Prop} (h : w.OnlyObstructs calls)

include h

theorem calm : w.Calm := fun e he => (h e he).edits

theorem of_strikes {moment : Moment} {f : Fault} (hs : w.Strikes moment c t f) :
    calls c ∧ ∃ errno, f = .system ⟨errno, some t⟩ ∧ errno.isMissing = false := by
  obtain ⟨e, he, hm, d, hd, rfl⟩ := hs
  obtain ⟨errno, hd', hmissing⟩ := (h e he).errno
  obtain rfl : d = .errno errno := Option.some.inj (hd.symm.trans hd')
  have hcall : e.call = c := by
    unfold Event.isMatch at hm
    simp only [Bool.and_eq_true, decide_eq_true_eq] at hm
    exact hm.1.1.1
  exact ⟨hcall ▸ (h e he).call, errno, rfl, hmissing⟩

theorem not_mayBlind (hc : ¬ calls c) : ¬ w.MayBlind c t :=
  fun ⟨_, _, hs⟩ => hc (h.of_strikes hs).1

theorem follows_counting (c : Call) (t : String) : w.Follows (w.counting c t) :=
  ⟨(Event.fire_of_calm h.calm .before c t .empty).1, rfl, rfl⟩

theorem counting_other (hc : ¬ calls c) (t : String) :
    Event.refuses c t w.events = (false, w.events) := by
  unfold Event.refuses
  rw [Event.fire_of_not_match fun e he => (h e he).isMatch_eq_false (Or.inr hc) t]
  rfl

theorem ends_fire_before (c : Call) (t : String) :
    Ends (fire .before c t) w
      (fun _ w' => (Event.refuses c t w.events).1 = false ∧ w' = w.counting c t)
      (fun f w' => (Event.refuses c t w.events).1 = true ∧ w' = w.counting c t ∧
        ∃ e, f = .system e ∧ e.errno.isMissing = false) := by
  obtain ⟨-, hfiles, hs⟩ := Event.fire_of_calm h.calm .before c t w.files
  unfold counting
  rw [Event.refuses_eq c t w.events w.files]
  unfold Ends fire
  rcases hfired : Event.fire .before c t w.events w.files with ⟨events, files, fault⟩
  rw [hfired] at hfiles hs
  obtain rfl : files = w.files := hfiles
  cases fault with
  | none => exact ⟨rfl, rfl⟩
  | some f =>
    obtain ⟨-, errno, rfl, hm⟩ := h.of_strikes ⟨_, (hs f rfl).choose_spec⟩
    exact ⟨rfl, rfl, _, rfl, hm⟩

theorem fire_after (c : Call) (t : String) : fire .after c t w = .ok () w := by
  unfold fire
  rw [Event.fire_of_not_match fun e he => (h e he).isMatch_eq_false (Or.inl rfl) t]

/-- A call is refused, or does its work. -/
theorem ends_call {α : Type} (ht : '\x00' ∉ t.toList)
    {work : World → Except Errno (α × FileSystem)} (hw : work (w.counting c t) = work w) :
    Ends (call c t work) w
      (fun a w' => (Event.refuses c t w.events).1 = false ∧
        ∃ files, work w = .ok (a, files) ∧ w' = { w.counting c t with files })
      (fun f w' => w' = w.counting c t ∧ ∃ e, f = .system e ∧
        ((Event.refuses c t w.events).1 = true ∧ e.errno.isMissing = false ∨
          (Event.refuses c t w.events).1 = false ∧ work w = .error e.errno)) := by
  unfold call
  apply Ends.seq (h.ends_fire_before c t)
  · rintro f w' ⟨hrefused, rfl, e, rfl, hm⟩
    exact ⟨rfl, e, rfl, Or.inl ⟨hrefused, hm⟩⟩
  rintro - w₁ ⟨hallowed, rfl⟩
  apply Ends.bind (Q := fun a w' => ∃ files, work w = .ok (a, files) ∧
    w' = { w.counting c t with files })
  · unfold Ends World.work
    simp only [if_neg ht, hw]
    cases hwork : work w with
    | ok r => exact ⟨r.2, rfl, rfl⟩
    | error e => exact ⟨rfl, _, rfl, Or.inr ⟨hallowed, rfl⟩⟩
  · rintro a _ ⟨files, hwork, rfl⟩
    have hlast : ({ w.counting c t with files } : World).OnlyObstructs calls :=
      (h.follows_counting c t).onlyObstructs h
    apply Ends.bind (Q := fun _ w' => w' = { w.counting c t with files })
      (Ends.of_ok (hlast.fire_after c t) rfl)
    rintro - _ rfl
    exact Ends.pure ⟨hallowed, files, hwork, rfl⟩

theorem ends_looking {α : Type} (hc : ¬ calls c) (look : FileSystem → String → Except Errno α) :
    Ends (call c t (looking look)) w (fun _ w' => w' = w) (fun _ w' => w' = w) := by
  have hsame : w.counting c t = w := by
    unfold counting
    rw [h.counting_other hc t]
  have hwork : Ends (work t (looking look)) w (fun _ w' => w' = w) (fun _ w' => w' = w) := by
    unfold Ends work looking
    by_cases ht : '\x00' ∈ t.toList
    · simp [ht]
    · cases hl : look w.files w.workingDirectory <;> simp [ht, Except.map]
  unfold call
  refine Ends.seq (Q := fun _ w' => w' = w)
    ((h.ends_fire_before c t).mono ?_ fun _ _ h' => h') ?_ ?_
  · rintro - _ ⟨-, rfl⟩
    exact hsame
  · rintro f _ ⟨-, rfl, -⟩
    exact hsame
  intro _ w₁ hw₁
  rw [hw₁]
  apply Ends.bind (Q := fun _ w' => w' = w) hwork
  intro a w₂ hw₂
  rw [hw₂]
  apply Ends.bind (Q := fun _ w' => w' = w) (Ends.of_ok (h.fire_after c t) rfl)
  exact fun _ w₃ hw₃ => Ends.pure hw₃

theorem ends_pause (hc : ¬ calls .pause) :
    Ends environment.pause w (fun _ w' => w' = w) (fun _ _ => False) := by
  have hsame : Ends environment.pause w (fun _ w' => w' = w) (fun _ w' => w' = w) :=
    h.ends_looking hc _
  apply (hsame.and (World.ends_pause h.calm)).mono (fun _ _ h' => h'.1)
  rintro f w' ⟨-, -, -, moment, hs⟩
  exact h.not_mayBlind hc ⟨moment, f, hs⟩

theorem ends_collect (hc : ¬ calls .collect) :
    Ends environment.collect w (fun _ w' => w' = w) (fun _ _ => False) := by
  have hsame : Ends environment.collect w (fun _ w' => w' = w) (fun _ w' => w' = w) :=
    h.ends_looking hc _
  apply (hsame.and (World.ends_collect h.calm)).mono (fun _ _ h' => h'.1)
  rintro f w' ⟨-, -, -, moment, hs⟩
  exact h.not_mayBlind hc ⟨moment, f, hs⟩

end OnlyObstructs

theorem ends_look?_missing (hc : w.Calm) (hb : ¬ w.MayBlind .lstat p.text) (hp : p.Proper)
    (ha : p.isAbsolute = true) (ht : '\x00' ∉ p.text.toList) (hm : w.files.Missing p) :
    Ends (environment.look? p.text) w
      (fun r w' => w.Follows w' ∧ w'.files = w.files ∧ r = none) (fun _ _ => False) := by
  obtain ⟨e, he, hlstat⟩ := (FileSystem.missing_iff_lstat hp ha w.workingDirectory).1 hm
  apply (World.ends_look? hc hp ha).mono
  · rintro r w' ⟨hf, hfiles, hsome, -⟩
    refine ⟨hf, hfiles, Option.eq_none_iff_forall_ne_some.2 fun status hr => ?_⟩
    obtain ⟨-, loc, node, hl, hg, -⟩ := hsome status hr
    rw [hm.get?_eq_none hl] at hg
    cases hg
  · rintro _ w' ⟨-, -, hnot, f, rfl, hcause⟩
    cases hcause with
    | refused hrefused =>
      cases hlstat.symm.trans hrefused
      obtain ⟨e', hawait, hn⟩ := Fault.awaited_system ⟨e, some p.text⟩
      exact absurd (hnot e' hawait) (by rw [hn, he]; simp)
    | nullByte hn => exact ht hn
    | struck hs => exact hb ⟨_, _, hs⟩

theorem onlyRefuses_iff :
    w.OnlyRefuses ↔ w.OnlyObstructs fun c => c = .list ∨ c = .rmdir ∨ c = .unlink :=
  forall₂_congr fun _ _ => Event.isRefusal_iff

theorem Follows.onlyRefuses (h : w.Follows w') (hr : w.OnlyRefuses) : w'.OnlyRefuses :=
  onlyRefuses_iff.2 (h.onlyObstructs (onlyRefuses_iff.1 hr))

namespace OnlyRefuses

variable (h : w.OnlyRefuses)

include h

theorem obstructs : w.OnlyObstructs fun c => c = .list ∨ c = .rmdir ∨ c = .unlink :=
  onlyRefuses_iff.1 h

theorem calm : w.Calm := h.obstructs.calm

theorem of_strikes {moment : Moment} {f : Fault} (hs : w.Strikes moment c t f) :
    (c = .list ∨ c = .rmdir ∨ c = .unlink) ∧
      ∃ errno, f = .system ⟨errno, some t⟩ ∧ errno.isMissing = false :=
  h.obstructs.of_strikes hs

theorem not_mayBlind (hc : c ≠ .list ∧ c ≠ .rmdir ∧ c ≠ .unlink) : ¬ w.MayBlind c t :=
  h.obstructs.not_mayBlind (by simpa using hc)

theorem not_mayDeny : ¬ w.MayDeny t := by
  rintro ⟨moment, c, e, hs, he⟩
  obtain ⟨-, errno, hf, hm⟩ := h.of_strikes hs
  cases hf
  rw [hm] at he
  cases he

theorem follows_counting (c : Call) (t : String) : w.Follows (w.counting c t) :=
  h.obstructs.follows_counting c t

theorem counting_other (hc : c ≠ .list ∧ c ≠ .rmdir ∧ c ≠ .unlink) (t : String) :
    Event.refuses c t w.events = (false, w.events) :=
  h.obstructs.counting_other (by simpa using hc) t

/-- A call is refused, or does its work. -/
theorem ends_call {α : Type} (ht : '\x00' ∉ t.toList)
    {work : World → Except Errno (α × FileSystem)} (hw : work (w.counting c t) = work w) :
    Ends (call c t work) w
      (fun a w' => (Event.refuses c t w.events).1 = false ∧
        ∃ files, work w = .ok (a, files) ∧ w' = { w.counting c t with files })
      (fun f w' => w' = w.counting c t ∧ ∃ e, f = .system e ∧
        ((Event.refuses c t w.events).1 = true ∧ e.errno.isMissing = false ∨
          (Event.refuses c t w.events).1 = false ∧ work w = .error e.errno)) :=
  h.obstructs.ends_call ht hw

/-! ### What the calls answer -/

theorem ends_looking {α : Type} (hc : c ≠ .list ∧ c ≠ .rmdir ∧ c ≠ .unlink)
    (look : FileSystem → String → Except Errno α) :
    Ends (call c t (looking look)) w (fun _ w' => w' = w) (fun _ w' => w' = w) :=
  h.obstructs.ends_looking (by simpa using hc) look

theorem ends_shows (hc : c ≠ .list ∧ c ≠ .rmdir ∧ c ≠ .unlink)
    (look : FileSystem → String → Except Errno Status) (test : Status → Bool) :
    Ends (Environment.shows (call c t (looking look)) test) w (fun _ w' => w' = w)
      (fun _ w' => w' = w) := by
  unfold Environment.shows
  apply Ends.bind (Q := fun _ w' => w' = w) (Ends.outcome (h.ends_looking hc look))
  rintro (f | status) _ rfl
  · simp only
    split
    · exact Ends.pure rfl
    · exact Ends.throw rfl
  · exact Ends.pure rfl

/-- A test that can only be misled by events or by a null byte is right. -/
theorem ends_test {m : EStateM Fault World Bool} {P : Prop}
    (hc : c ≠ .list ∧ c ≠ .rmdir ∧ c ≠ .unlink) (ht : '\x00' ∉ t.toList)
    (hsame : Ends m w (fun _ w' => w' = w) (fun _ w' => w' = w))
    (hm : Ends m w
      (fun b _ => (b = true → P) ∧ (b = false → ¬ P ∨ '\x00' ∈ t.toList ∨ w.MayBlind c t))
      (fun f _ => ∃ moment, w.Strikes moment c t f)) :
    Ends m w (fun b w' => w' = w ∧ (b = true ↔ P)) (fun _ _ => False) := by
  apply (hsame.and hm).mono
  · rintro b w' ⟨hw, hyes, hno⟩
    refine ⟨hw, hyes, fun hP => ?_⟩
    by_contra hb
    rcases hno (by simpa using hb) with hn | hn | hn
    · exact hn hP
    · exact ht hn
    · exact h.not_mayBlind hc hn
  · rintro f w' ⟨-, moment, hs⟩
    exact h.not_mayBlind hc ⟨moment, f, hs⟩

theorem ends_isDirectory (hp : p.Proper) (ha : p.isAbsolute = true) (ht : '\x00' ∉ p.text.toList) :
    Ends (environment.isDirectory p.text) w
      (fun b w' => w' = w ∧ (b = true ↔ LeadsToDirectory w.files p)) (fun _ _ => False) := by
  have hc : Call.stat ≠ .list ∧ Call.stat ≠ .rmdir ∧ Call.stat ≠ .unlink := by decide
  apply h.ends_test hc ht (h.ends_shows hc _ _)
  apply (World.ends_isDirectory h.calm hp ha).mono
  · rintro b w' ⟨-, -, hyes, hno⟩
    exact ⟨fun hb => (hyes hb).2, hno⟩
  · rintro f w' ⟨-, -, -, hs⟩
    exact hs

theorem ends_isLink (hp : p.Proper) (ha : p.isAbsolute = true) (ht : '\x00' ∉ p.text.toList) :
    Ends (environment.isLink p.text) w
      (fun b w' => w' = w ∧ (b = true ↔ IsLinkAt w.files p)) (fun _ _ => False) := by
  have hc : Call.lstat ≠ .list ∧ Call.lstat ≠ .rmdir ∧ Call.lstat ≠ .unlink := by decide
  apply h.ends_test hc ht (h.ends_shows hc _ _)
  apply (World.ends_isLink h.calm hp ha).mono
  · rintro b w' ⟨-, -, hyes, hno⟩
    exact ⟨hyes, hno⟩
  · rintro f w' ⟨-, -, -, hs⟩
    exact hs

theorem ends_look?_same (t : String) :
    Ends (environment.look? t) w (fun _ w' => w' = w) (fun _ w' => w' = w) := by
  unfold Environment.look?
  apply Ends.bind (Q := fun _ w' => w' = w) (Ends.outcome
    (Ends.awaited (h.ends_looking (by decide) fun files cwd => files.lstat cwd t)))
  rintro (f | status) _ rfl
  · cases f with
    | system e =>
      simp only
      split
      · exact Ends.pure rfl
      · exact Ends.throw rfl
    | nullByte | cancelled | interrupted => exact Ends.throw rfl
  · exact Ends.pure rfl

/-- A look at a path shows the node that the path leads to. -/
theorem ends_look? (hp : p.Proper) (ha : p.isAbsolute = true) (ht : '\x00' ∉ p.text.toList)
    (hl : w.files.locate false p = .ok place) {form : Form}
    (hform : w.files.formAt? place = some form) :
    Ends (environment.look? p.text) w
      (fun r w' => w' = w ∧ ∃ status, r = some status ∧
        (status.kind = .directory ↔ form = .directory)) (fun _ _ => False) := by
  have hc : Call.lstat ≠ .list ∧ Call.lstat ≠ .rmdir ∧ Call.lstat ≠ .unlink := by decide
  obtain ⟨node, hg, rfl⟩ := Option.map_eq_some_iff.1 hform
  apply ((World.ends_look? h.calm hp ha).and (h.ends_look?_same p.text)).mono
  · rintro r w' ⟨⟨-, -, hsome, hnone⟩, hw⟩
    refine ⟨hw, ?_⟩
    cases r with
    | none =>
      rcases hnone rfl with hm | hm
      · rw [hm.get?_eq_none hl] at hg
        cases hg
      · exact absurd hm h.not_mayDeny
    | some status =>
      obtain ⟨-, loc, node', hl', hg', rfl⟩ := hsome status rfl
      rw [hl] at hl'
      cases hl'
      rw [hg] at hg'
      cases hg'
      exact ⟨_, rfl, Node.kind_eq_directory_iff⟩
  · rintro f w' ⟨⟨-, -, -, f', -, hcause⟩, -⟩
    cases hcause with
    | refused he =>
      rw [(FileSystem.lstat_eq_ok_iff hp ha).2 ⟨place, node, hl, hg, rfl⟩] at he
      cases he
    | nullByte hn => exact ht hn
    | struck hs => exact h.not_mayBlind hc ⟨_, _, hs⟩

theorem ends_look?_missing (hp : p.Proper) (ha : p.isAbsolute = true) (ht : '\x00' ∉ p.text.toList)
    (hm : w.files.Missing p) :
    Ends (environment.look? p.text) w (fun r w' => w' = w ∧ r = none) (fun _ _ => False) :=
  ((World.ends_look?_missing h.calm (h.not_mayBlind (by decide)) hp ha ht hm).and
    (h.ends_look?_same p.text)).mono (fun _ _ h' => ⟨h'.2, h'.1.2.2⟩) fun _ _ h' => h'.1

theorem ends_pause : Ends environment.pause w (fun _ w' => w' = w) (fun _ _ => False) :=
  h.obstructs.ends_pause (by decide)

theorem ends_collect : Ends environment.collect w (fun _ w' => w' = w) (fun _ _ => False) :=
  h.obstructs.ends_collect (by decide)

/-- A listing is refused, or gives the entries by name. -/
theorem ends_children (hp : p.Proper) (ha : p.isAbsolute = true) (ht : '\x00' ∉ p.text.toList)
    (hl : w.files.locate true p = .ok place) {m : Float} {es : List (Name × Node)}
    (hg : w.files.get? place = some (.directory m es)) :
    Ends (environment.children p) w
      (fun children w' => (Event.refuses .list p.text w.events).1 = false ∧
        w' = w.counting .list p.text ∧
        children = ((es.map (·.1)).mergeSort fun a b => a.text ≤ b.text).map p.child)
      (fun f w' => (Event.refuses .list p.text w.events).1 = true ∧
        w' = w.counting .list p.text ∧ ∃ e, f = .system e ∧ e.errno.isMissing = false) := by
  have hnames : w.files.list w.workingDirectory p.text = .ok (es.map (·.1)) :=
    (FileSystem.list_eq_ok_iff hp ha).2 ⟨place, m, es, hl, hg, rfl⟩
  have hwork : looking (fun files cwd => files.list cwd p.text) w =
      .ok (es.map (·.1), w.files) := by
    simp only [looking, hnames]
    rfl
  unfold Environment.children
  apply Ends.bind (Q := fun names w' => (Event.refuses .list p.text w.events).1 = false ∧
    w' = w.counting .list p.text ∧ names = es.map (·.1))
  · refine Ends.awaited ((h.ends_call ht rfl).mono ?_ ?_)
    · rintro names _ ⟨hallowed, files, he, rfl⟩
      rw [hwork] at he
      cases he
      exact ⟨hallowed, rfl, rfl⟩
    · rintro f w' ⟨hw, e, rfl, ⟨hrefused, hm⟩ | ⟨-, he⟩⟩
      · obtain ⟨e', he', hn⟩ := Fault.awaited_system e
        exact ⟨hrefused, hw, e', he', hn ▸ hm⟩
      · rw [hwork] at he
        cases he
  · rintro _ w' ⟨hallowed, hw, rfl⟩
    exact Ends.pure ⟨hallowed, hw, rfl⟩

end OnlyRefuses

end World

def Form.removal : Form → Call
  | .directory => .rmdir
  | _ => .unlink

theorem Form.removal_of_ne {form : Form} (h : form ≠ .directory) : form.removal = .unlink := by
  cases form <;> first | rfl | exact absurd rfl h

/-- There is a node of some form at a path, under a name in a directory, and something below it
blocks its removal or not. -/
structure FileSystem.Holds (fs : FileSystem) (p : Path) (parent : Location) (name : Name)
    (form : Form) (blocked : Bool) : Prop where
  child : ∃ base : Path, base.Proper ∧ base.isAbsolute = true ∧ p = base.child name
  readable : '\x00' ∉ p.text.toList
  leads : fs.locate false p = .ok (parent ++ [name])
  form : fs.formAt? (parent ++ [name]) = some form
  blocked : blocked = true ↔ ∃ n, fs.get? (parent ++ [name] ++ [n]) ≠ none

namespace World

variable {w : World} {p : Path} {parent : Location} {name : Name} {form : Form} {blocked : Bool}

/-- The world after a try to remove a node that was not refused. -/
def removing (w : World) (c : Call) (t : String) (parent : Location) (name : Name) : World :=
  { w.counting c t with files := w.files.removeEntry w.changeTime parent name }

namespace OnlyRefuses

variable (h : w.OnlyRefuses) (hat : w.files.Holds p parent name form blocked)

include h hat

/-- A removal fails if it is refused or something is below the node. Otherwise the node is gone. -/
theorem ends_removal :
    Ends (if form = .directory then environment.rmdir p.text else environment.unlink p.text) w
      (fun _ w' => (Event.refuses form.removal p.text w.events).1 = false ∧ blocked = false ∧
        w' = w.removing form.removal p.text parent name)
      (fun f w' => ((Event.refuses form.removal p.text w.events).1 = true ∨ blocked = true) ∧
        w' = w.counting form.removal p.text ∧ ∃ e, f = .system e ∧ e.errno ≠ .enoent) := by
  obtain ⟨⟨base, hp, ha, rfl⟩, ht, hl, hform, hblocked⟩ := hat
  obtain ⟨node, hg, rfl⟩ := Option.map_eq_some_iff.1 hform
  -- What follows from the answer of the file system, whichever call it is.
  have hanswer : ∀ {c : Call} {change : FileSystem → String → Option Float → Except Errno FileSystem},
      change w.files w.workingDirectory w.changeTime =
        (if blocked then .error .enotempty
          else .ok (w.files.removeEntry w.changeTime parent name)) →
      Ends (call c (base.child name).text (changing change)) w
        (fun _ w' => (Event.refuses c (base.child name).text w.events).1 = false ∧
          blocked = false ∧ w' = w.removing c (base.child name).text parent name)
        (fun f w' => ((Event.refuses c (base.child name).text w.events).1 = true ∨
          blocked = true) ∧ w' = w.counting c (base.child name).text ∧
          ∃ e, f = .system e ∧ e.errno ≠ .enoent) := by
    intro c change hchange
    apply (h.ends_call ht rfl).mono
    · rintro _ _ ⟨hallowed, files, he, rfl⟩
      unfold changing at he
      rw [hchange] at he
      cases blocked with
      | true => cases he
      | false =>
        cases he
        exact ⟨hallowed, rfl, rfl⟩
    · rintro f w' ⟨hw, e, rfl, ⟨hrefused, hm⟩ | ⟨-, he⟩⟩
      · refine ⟨Or.inl hrefused, hw, e, rfl, fun hn => ?_⟩
        rw [hn] at hm
        cases hm
      · unfold changing at he
        rw [hchange] at he
        cases blocked with
        | true => exact ⟨Or.inr rfl, hw, e, rfl, fun hn => by cases hn ▸ he⟩
        | false => cases he
  by_cases hd : node.isDirectory = true
  · obtain ⟨m, es, rfl⟩ := Node.isDirectory_iff.1 hd
    have hempty : es.isEmpty = !blocked := by
      rw [Bool.eq_iff_iff, FileSystem.isEmpty_iff hg, Bool.not_eq_true', ← Bool.not_eq_true,
        hblocked]
      simp
    rw [if_pos (show (Node.directory m es).form = .directory from rfl)]
    apply hanswer
    rw [FileSystem.rmdir_child hp ha hl hg, hempty]
    cases blocked <;> rfl
  · have hfile : node.form ≠ .directory := fun hf => hd (Node.isDirectory_iff_form.2 hf)
    have hfree : blocked = false := by
      rw [← Bool.not_eq_true, hblocked]
      rintro ⟨m, hm⟩
      rw [FileSystem.get?_append, hg] at hm
      exact hm (Node.get?_eq_none_of_not_directory (by simpa using hd) (by simp))
    rw [if_neg hfile, Form.removal_of_ne hfile]
    apply hanswer
    rw [FileSystem.unlink_child hp ha hl hg (by simpa using hd), hfree]
    rfl

/-- One try to remove a node. -/
theorem ends_removeNode :
    Ends (environment.removeNode p.text) w
      (fun removed w' => removed = true ∧
        (Event.refuses form.removal p.text w.events).1 = false ∧ blocked = false ∧
        w' = w.removing form.removal p.text parent name)
      (fun f w' => ((Event.refuses form.removal p.text w.events).1 = true ∨ blocked = true) ∧
        w' = w.counting form.removal p.text ∧ ∃ e, f = .system e) := by
  have hcall := h.ends_removal hat
  obtain ⟨⟨base, hp, ha, rfl⟩, ht, hl, hform, -⟩ := hat
  unfold Environment.removeNode
  apply Ends.seq (h.ends_look? (hp.child name) ha ht hl hform) (fun _ _ hf => hf.elim)
  rintro _ w₁ ⟨hw₁, status, rfl, hkind⟩
  rw [hw₁]
  simp only [hkind]
  apply Ends.bind (Q := fun r w' =>
    (∀ u, r = .ok u → (Event.refuses form.removal (base.child name).text w.events).1 = false ∧
      blocked = false ∧ w' = w.removing form.removal (base.child name).text parent name) ∧
    ∀ f, r = .error f →
      ((Event.refuses form.removal (base.child name).text w.events).1 = true ∨ blocked = true) ∧
      w' = w.counting form.removal (base.child name).text ∧
      ∃ e, f = .system e ∧ e.errno ≠ .enoent)
  · refine Ends.outcome (Ends.awaited (hcall.mono ?_ ?_))
    · intro u w' h'
      exact ⟨fun _ _ => h', fun f hf => by cases hf⟩
    · rintro _ w' ⟨hwhy, hw, e, rfl, hn⟩
      refine ⟨fun u hu => (by cases hu), fun f hf => ?_⟩
      cases hf
      obtain ⟨e', he', hn'⟩ := Fault.awaited_system e
      exact ⟨hwhy, hw, e', he', hn' ▸ hn⟩
  · rintro (f | u) w' ⟨hok, herror⟩
    · obtain ⟨hwhy, hw, e, rfl, hn⟩ := herror f rfl
      simp only [hn, if_false]
      exact Ends.throw ⟨hwhy, hw, e, rfl⟩
    · exact Ends.pure ⟨rfl, hok u rfl⟩

end OnlyRefuses

end World

end TreeRemoval
