import TreeRemoval.Deletion.Session

/-! # How computations end

A computation that can fail ends with a value or with an error, and with a state either way. `Ends`
says what holds in both cases; the rules below follow the ways in which computations are built.
-/

namespace TreeRemoval

section Computation

variable {ε σ α β : Type}

/-- From a state, the computation ends with a value and a state of which `Q` holds, or with an
error and a state of which `E` holds. -/
def Ends (m : EStateM ε σ α) (s : σ) (Q : α → σ → Prop) (E : ε → σ → Prop) : Prop :=
  match m s with
  | .ok a s' => Q a s'
  | .error e s' => E e s'

/-- Running a computation tells how it ends. -/
instance (m : EStateM ε σ α) (s : σ) (Q : α → σ → Prop) (E : ε → σ → Prop)
    [∀ a s', Decidable (Q a s')] [∀ e s', Decidable (E e s')] : Decidable (Ends m s Q E) :=
  match hm : m s with
  | .ok a s' => decidable_of_iff (Q a s') (by unfold Ends; rw [hm])
  | .error e s' => decidable_of_iff (E e s') (by unfold Ends; rw [hm])

namespace Ends

variable {m : EStateM ε σ α} {f : α → EStateM ε σ β} {s s' : σ} {a : α} {e : ε}
  {Q Q' : α → σ → Prop} {E E' : ε → σ → Prop} {R : β → σ → Prop}

theorem of_ok (hm : m s = .ok a s') (h : Q a s') : Ends m s Q E := by
  unfold Ends; rw [hm]; exact h

theorem of_error (hm : m s = .error e s') (h : E e s') : Ends m s Q E := by
  unfold Ends; rw [hm]; exact h

theorem ok (h : Ends m s Q E) (hm : m s = .ok a s') : Q a s' := by
  unfold Ends at h; rw [hm] at h; exact h

theorem error (h : Ends m s Q E) (hm : m s = .error e s') : E e s' := by
  unfold Ends at h; rw [hm] at h; exact h

theorem intro (hg : ∀ a s', m s = .ok a s' → Q a s')
    (hb : ∀ e s', m s = .error e s' → E e s') : Ends m s Q E := by
  cases hm : m s with
  | ok a s' => exact of_ok hm (hg a s' hm)
  | error e s' => exact of_error hm (hb e s' hm)

theorem mono (h : Ends m s Q E) (hg : ∀ a s', Q a s' → Q' a s')
    (hb : ∀ e s', E e s' → E' e s') : Ends m s Q' E' :=
  intro (fun _ _ hm => hg _ _ (h.ok hm)) (fun _ _ hm => hb _ _ (h.error hm))

theorem and (h : Ends m s Q E) (h' : Ends m s Q' E') :
    Ends m s (fun a s' => Q a s' ∧ Q' a s') (fun e s' => E e s' ∧ E' e s') :=
  intro (fun _ _ hm => ⟨h.ok hm, h'.ok hm⟩) (fun _ _ hm => ⟨h.error hm, h'.error hm⟩)

theorem exists_ok (h : Ends m s Q fun _ _ => False) : ∃ a s', m s = .ok a s' ∧ Q a s' := by
  cases hm : m s with
  | ok a s' => exact ⟨a, s', rfl, h.ok hm⟩
  | error e s' => exact (h.error hm).elim

theorem pure (h : Q a s) : Ends (pure a : EStateM ε σ α) s Q E := h

theorem throw (h : E e s) : Ends (throw e : EStateM ε σ α) s Q E := h

theorem bind (h : Ends m s Q E) (hf : ∀ a s', Q a s' → Ends (f a) s' R E) :
    Ends (m >>= f) s R E := by
  unfold Ends at *
  change (match EStateM.bind m f s with | .ok a s' => R a s' | .error e s' => E e s')
  unfold EStateM.bind
  cases hm : m s with
  | ok a s' => rw [hm] at h; exact hf a s' h
  | error e s' => rw [hm] at h; exact h

theorem bind_ok (hm : m s = .ok a s') (h : Ends (f a) s' R E) : Ends (m >>= f) s R E :=
  bind (of_ok (Q := fun a' s'' => Ends (f a') s'' R E) hm h) fun _ _ h => h

/-- A computation and what comes after it, when the errors of the first are described otherwise. -/
theorem seq (h : Ends m s Q E') (hE : ∀ e s', E' e s' → E e s')
    (hf : ∀ a s', Q a s' → Ends (f a) s' R E) : Ends (m >>= f) s R E :=
  bind (h.mono (fun _ _ h => h) hE) hf

theorem outcome {Q : Except ε α → σ → Prop}
    (h : Ends m s (fun a => Q (.ok a)) (fun e => Q (.error e))) {E : ε → σ → Prop} :
    Ends (TreeRemoval.outcome m) s Q E := by
  unfold Ends TreeRemoval.outcome at *
  cases hm : m s <;> simpa [hm] using h

theorem bind_outcome {f : Except ε α → EStateM ε σ β} (h : Ends m s Q E')
    (hok : ∀ a s', Q a s' → Ends (f (.ok a)) s' R E)
    (herror : ∀ e s', E' e s' → Ends (f (.error e)) s' R E) :
    Ends (TreeRemoval.outcome m >>= f) s R E :=
  bind (outcome (h.mono hok herror)) fun _ _ h => h

end Ends

section Bind

variable {m : EStateM ε σ α} {f : α → EStateM ε σ β} {s s' : σ}

theorem bind_of_ok {a : α} (h : m s = .ok a s') : (m >>= f) s = f a s' := by
  change EStateM.bind m f s = _
  unfold EStateM.bind
  rw [h]

theorem bind_of_error {e : ε} (h : m s = .error e s') : (m >>= f) s = .error e s' := by
  change EStateM.bind m f s = _
  unfold EStateM.bind
  rw [h]

theorem bind_of_eq {n : EStateM ε σ α} (h : m s = n s) : (m >>= f) s = (n >>= f) s := by
  cases hm : n s with
  | ok a s' => rw [bind_of_ok hm, bind_of_ok (h.trans hm)]
  | error e s' => rw [bind_of_error hm, bind_of_error (h.trans hm)]

theorem exists_of_map {g : α → β} {b : β} (h : (g <$> m) s = .ok b s') :
    ∃ a, m s = .ok a s' ∧ g a = b := by
  rw [map_eq_pure_bind] at h
  cases hm : m s with
  | ok a s'' =>
    rw [bind_of_ok hm] at h
    cases h
    exact ⟨a, rfl, rfl⟩
  | error e s'' =>
    rw [bind_of_error hm] at h
    cases h

theorem outcome_of_ok {a : α} (h : m s = .ok a s') : outcome m s = .ok (.ok a) s' := by
  unfold outcome; rw [h]

theorem outcome_of_error {e : ε} (h : m s = .error e s') : outcome m s = .ok (.error e) s' := by
  unfold outcome; rw [h]

end Bind

theorem exists_of_run' {m : EStateM ε σ α} {s : σ} {a : α} (h : m.run' s = some a) :
    ∃ s', m s = .ok a s' := by
  unfold EStateM.run' EStateM.run at h
  cases hm : m s <;> simp_all

theorem exists_error_of_run' {m : EStateM ε σ α} {s : σ} (h : m.run' s = none) :
    ∃ e s', m s = .error e s' := by
  unfold EStateM.run' EStateM.run at h
  cases hm : m s <;> simp_all

end Computation

def Fault.awaited : Fault → Fault
  | .system ⟨.etimedout, _⟩ => .system ⟨.etimedout, none⟩
  | f => f

theorem Fault.awaited_system (e : SystemError) :
    ∃ e', (Fault.system e).awaited = .system e' ∧ e'.errno = e.errno := by
  obtain ⟨errno, path⟩ := e
  cases errno <;> exact ⟨_, rfl, rfl⟩

theorem Fault.eq_system_of_awaited {f : Fault} {e : SystemError} (h : f.awaited = .system e) :
    ∃ e', f = .system e' ∧ e'.errno = e.errno := by
  cases f with
  | system e' =>
    obtain ⟨e'', he, hn⟩ := Fault.awaited_system e'
    rw [he] at h
    cases h
    exact ⟨e', rfl, hn.symm⟩
  | nullByte | cancelled | interrupted => cases h

theorem Fault.eq_of_awaited {f : Fault} {e : SystemError} (h : f.awaited = .system e)
    (he : e.errno ≠ .etimedout) : f = .system e := by
  cases f with
  | system e' =>
    obtain ⟨errno, path⟩ := e'
    cases errno with
    | etimedout => cases h; exact absurd rfl he
    | _ => exact h
  | nullByte | cancelled | interrupted => cases h

section Awaited

variable {σ α : Type} {m : EStateM Fault σ α} {s s' : σ}

theorem awaited_of_ok {a : α} (h : m s = .ok a s') : awaited m s = .ok a s' := by
  unfold awaited; rw [h]

theorem awaited_of_error {f : Fault} (h : m s = .error f s') :
    awaited m s = .error f.awaited s' := by
  unfold awaited
  rw [h]
  cases f with
  | system e =>
    obtain ⟨errno, path⟩ := e
    cases errno <;> rfl
  | nullByte | cancelled | interrupted => rfl

end Awaited

theorem Ends.awaited {σ α : Type} {m : EStateM Fault σ α} {s : σ} {Q : α → σ → Prop}
    {E : Fault → σ → Prop} (h : Ends m s Q fun f => E f.awaited) :
    Ends (TreeRemoval.awaited m) s Q E := by
  unfold Ends TreeRemoval.awaited at *
  cases hm : m s with
  | ok a s' => simpa [hm] using h
  | error f s' =>
    rw [hm] at h
    cases f with
    | system e =>
      obtain ⟨errno, path⟩ := e
      cases errno <;> exact h
    | nullByte | cancelled | interrupted => exact h

namespace Deletion

variable {σ α : Type} {call : EStateM Fault σ α} {s : Session σ}

theorem ends_perform {Q : α → Session σ → Prop} {E : Failure → Session σ → Prop}
    (h : Ends call s.state (fun a state => Q a { s with state })
      fun f state => E (.fault f) { s with state }) :
    Ends (perform call) s Q E := by
  unfold Ends perform at *
  cases hc : call s.state <;> simpa [hc] using h

theorem ends_observe {Q : Except Fault α → Session σ → Prop}
    {E : Failure → Session σ → Prop}
    (h : Ends call s.state (fun a state => Q (.ok a) { s with state })
      fun f state => Q (.error f) { s with state }) :
    Ends (observe call) s Q E :=
  ends_perform h.outcome

theorem observe_of_ok {a : α} {state : σ} (h : call s.state = .ok a state) :
    observe call s = .ok (.ok a) { s with state } := by
  unfold observe perform; rw [outcome_of_ok h]

theorem observe_of_error {f : Fault} {state : σ} (h : call s.state = .error f state) :
    observe call s = .ok (.error f) { s with state } := by
  unfold observe perform; rw [outcome_of_error h]

theorem ends_perform_keep {Q : α → σ → Prop} {E : Fault → σ → Prop} (h : Ends call s.state Q E) :
    Ends (perform call) s
      (fun a s' => Q a s'.state ∧ s'.log = s.log ∧ s'.acts = s.acts)
      (fun e s' => ∃ f, e = .fault f ∧ E f s'.state ∧ s'.log = s.log ∧ s'.acts = s.acts) :=
  ends_perform (h.mono (fun _ _ h => ⟨h, rfl, rfl⟩) fun f _ h => ⟨f, rfl, h, rfl, rfl⟩)

theorem ends_observe_keep {Q : α → σ → Prop} {E : Fault → σ → Prop} (h : Ends call s.state Q E)
    {E' : Failure → Session σ → Prop} :
    Ends (observe call) s
      (fun r s' => (match r with | .ok a => Q a s'.state | .error f => E f s'.state) ∧
        s'.log = s.log ∧ s'.acts = s.acts) E' :=
  ends_observe (h.mono (fun _ _ h => ⟨h, rfl, rfl⟩) fun _ _ h => ⟨h, rfl, rfl⟩)

theorem ends_note {level : Log.Level} {message : String} {fields : List (String × Log.Value)}
    {Q : Unit → Session σ → Prop} {E : Failure → Session σ → Prop}
    (h : Q () { s with log := s.log ++ [⟨level, message, fields⟩] }) :
    Ends (note level message fields) s Q E := h

theorem ends_record {act : Act} {Q : Unit → Session σ → Prop}
    {E : Failure → Session σ → Prop} (h : Q () { s with acts := s.acts ++ [act] }) :
    Ends (record act) s Q E := h

theorem ends_bind_note {β : Type} {level : Log.Level} {message : String}
    {fields : List (String × Log.Value)} {f : Unit → Deletion σ β} {Q : β → Session σ → Prop}
    {E : Failure → Session σ → Prop} (h : ∀ s', s'.state = s.state → Ends (f ()) s' Q E) :
    Ends (note level message fields >>= f) s Q E :=
  Ends.bind (Q := fun _ s' => s'.state = s.state) (ends_note rfl) fun _ => h

theorem ends_bind_record {β : Type} {act : Act} {f : Unit → Deletion σ β}
    {Q : β → Session σ → Prop} {E : Failure → Session σ → Prop}
    (h : ∀ s', s'.state = s.state → Ends (f ()) s' Q E) :
    Ends (record act >>= f) s Q E :=
  Ends.bind (Q := fun _ s' => s'.state = s.state) (ends_record rfl) fun _ => h

theorem ends_reading {now : σ → Float × σ} {Q : Float → Session σ → Prop}
    {E : Failure → Session σ → Prop}
    (h : Q (now s.state).1 { s with state := (now s.state).2 }) :
    Ends (reading now) s Q E := h

end Deletion

/-- However the computation ends, what holds of the state before holds after it. -/
def Keeps {ε σ α : Type} (J : σ → Prop) (m : EStateM ε σ α) : Prop :=
  ∀ s, J s → Ends m s (fun _ s' => J s') fun _ s' => J s'

namespace Keeps

variable {ε σ α β : Type} {J : σ → Prop} {m : EStateM ε σ α} {f : α → EStateM ε σ β}

theorem pure (a : α) : Keeps J (pure a : EStateM ε σ α) := fun _ hs => Ends.pure hs

theorem throw (e : ε) : Keeps J (throw e : EStateM ε σ α) := fun _ hs => Ends.throw hs

theorem bind (h : Keeps J m) (hf : ∀ a, Keeps J (f a)) : Keeps J (m >>= f) :=
  fun s hs => Ends.bind (h s hs) fun a s' hs' => hf a s' hs'

theorem awaited {call : EStateM Fault σ α} (h : Keeps J call) : Keeps J (TreeRemoval.awaited call) :=
  fun s hs => Ends.awaited (h s hs)

end Keeps

-- Otherwise a statement on a given state is decided by running the computation.
attribute [irreducible] Ends

end TreeRemoval
