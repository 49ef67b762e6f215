import TreeRemoval.Proofs.Computation

/-! # Two computations side by side

Two computations may go the same way although their states differ. `Matches` relates what they end
with; `Alike` says that from related states they end with the same values or errors and in related
states again. The rules follow the ways in which computations are built. What a single computation
keeps is the case of a computation beside itself.
-/

namespace TreeRemoval

variable {ε ε' σ σ' α α' β β' : Type}

/-- Two computations, each from a state of its own, both end with a value or both with an error, and
`Q` or `E` holds of what they end with. -/
def Matches (m : EStateM ε σ α) (m' : EStateM ε' σ' α') (s : σ) (s' : σ')
    (Q : α → σ → α' → σ' → Prop) (E : ε → σ → ε' → σ' → Prop) : Prop :=
  match m s, m' s' with
  | .ok a t, .ok a' t' => Q a t a' t'
  | .error e t, .error e' t' => E e t e' t'
  | _, _ => False

namespace Matches

variable {m : EStateM ε σ α} {m' : EStateM ε' σ' α'} {s t : σ} {s' t' : σ'} {a : α} {a' : α'}
  {e : ε} {e' : ε'} {Q Q' : α → σ → α' → σ' → Prop} {E E' : ε → σ → ε' → σ' → Prop}

theorem of_ok (hm : m s = .ok a t) (hm' : m' s' = .ok a' t') (h : Q a t a' t') :
    Matches m m' s s' Q E := by
  unfold Matches; rw [hm, hm']; exact h

theorem of_error (hm : m s = .error e t) (hm' : m' s' = .error e' t') (h : E e t e' t') :
    Matches m m' s s' Q E := by
  unfold Matches; rw [hm, hm']; exact h

theorem ok_or_error (h : Matches m m' s s' Q E) :
    (∃ a t a' t', m s = .ok a t ∧ m' s' = .ok a' t' ∧ Q a t a' t') ∨
      ∃ e t e' t', m s = .error e t ∧ m' s' = .error e' t' ∧ E e t e' t' := by
  unfold Matches at h
  cases hm : m s with
  | ok a t =>
    cases hm' : m' s' with
    | ok a' t' => exact Or.inl ⟨a, t, a', t', rfl, rfl, by rw [hm, hm'] at h; exact h⟩
    | error e' t' => rw [hm, hm'] at h; exact h.elim
  | error e t =>
    cases hm' : m' s' with
    | ok a' t' => rw [hm, hm'] at h; exact h.elim
    | error e' t' => exact Or.inr ⟨e, t, e', t', rfl, rfl, by rw [hm, hm'] at h; exact h⟩

theorem of_eq {n' : EStateM ε' σ' α'} (h : Matches m m' s s' Q E) (hn : n' s' = m' s') :
    Matches m n' s s' Q E := by
  unfold Matches at *
  rwa [hn]

theorem mono (h : Matches m m' s s' Q E)
    (hg : ∀ a t a' t', Q a t a' t' → Q' a t a' t')
    (hb : ∀ e t e' t', E e t e' t' → E' e t e' t') : Matches m m' s s' Q' E' := by
  rcases h.ok_or_error with ⟨a, t, a', t', hm, hm', hQ⟩ | ⟨e, t, e', t', hm, hm', hE⟩
  · exact of_ok hm hm' (hg _ _ _ _ hQ)
  · exact of_error hm hm' (hb _ _ _ _ hE)

theorem and_ends (h : Matches m m' s s' Q E) {Q₁ : α → σ → Prop} {E₁ : ε → σ → Prop}
    (h₁ : Ends m s Q₁ E₁) :
    Matches m m' s s' (fun a t a' t' => Q a t a' t' ∧ Q₁ a t)
      (fun e t e' t' => E e t e' t' ∧ E₁ e t) := by
  rcases h.ok_or_error with ⟨a, t, a', t', hm, hm', hQ⟩ | ⟨e, t, e', t', hm, hm', hE⟩
  · exact of_ok hm hm' ⟨hQ, h₁.ok hm⟩
  · exact of_error hm hm' ⟨hE, h₁.error hm⟩

theorem and_ends_right (h : Matches m m' s s' Q E) {Q₁ : α' → σ' → Prop} {E₁ : ε' → σ' → Prop}
    (h₁ : Ends m' s' Q₁ E₁) :
    Matches m m' s s' (fun a t a' t' => Q a t a' t' ∧ Q₁ a' t')
      (fun e t e' t' => E e t e' t' ∧ E₁ e' t') := by
  rcases h.ok_or_error with ⟨a, t, a', t', hm, hm', hQ⟩ | ⟨e, t, e', t', hm, hm', hE⟩
  · exact of_ok hm hm' ⟨hQ, h₁.ok hm'⟩
  · exact of_error hm hm' ⟨hE, h₁.error hm'⟩

theorem pure (h : Q a s a' s') :
    Matches (pure a : EStateM ε σ α) (pure a' : EStateM ε' σ' α') s s' Q E := h

theorem throw (h : E e s e' s') :
    Matches (throw e : EStateM ε σ α) (throw e' : EStateM ε' σ' α') s s' Q E := h

theorem bind {f : α → EStateM ε σ β} {f' : α' → EStateM ε' σ' β'} {R : β → σ → β' → σ' → Prop}
    (h : Matches m m' s s' Q E)
    (hf : ∀ a t a' t', Q a t a' t' → Matches (f a) (f' a') t t' R E) :
    Matches (m >>= f) (m' >>= f') s s' R E := by
  rcases h.ok_or_error with ⟨a, t, a', t', hm, hm', hQ⟩ | ⟨e, t, e', t', hm, hm', hE⟩
  · have hrest := hf a t a' t' hQ
    unfold Matches at *
    rw [bind_of_ok hm, bind_of_ok hm']
    exact hrest
  · exact of_error (bind_of_error hm) (bind_of_error hm') hE

theorem left {f : α → EStateM ε σ β} {R : β → σ → α' → σ' → Prop} (hm : m s = .ok a t)
    (h : Matches (f a) m' t s' R E) : Matches (m >>= f) m' s s' R E := by
  unfold Matches at *
  rwa [bind_of_ok hm]

theorem right {f' : α' → EStateM ε' σ' β'} {R : α → σ → β' → σ' → Prop} (hm' : m' s' = .ok a' t')
    (h : Matches m (f' a') s t' R E) : Matches m (m' >>= f') s s' R E := by
  unfold Matches at *
  rwa [bind_of_ok hm']

/-- Two computations and what comes after them, when the errors of the first are described
otherwise. -/
theorem seq {f : α → EStateM ε σ β} {f' : α' → EStateM ε' σ' β'} {R : β → σ → β' → σ' → Prop}
    (h : Matches m m' s s' Q E') (hE : ∀ e t e' t', E' e t e' t' → E e t e' t')
    (hf : ∀ a t a' t', Q a t a' t' → Matches (f a) (f' a') t t' R E) :
    Matches (m >>= f) (m' >>= f') s s' R E :=
  bind (h.mono (fun _ _ _ _ h => h) hE) hf

end Matches

/-- From two states, two computations end with the same value in states that `R` relates, or with
the same error, of which `E` holds together with the states. -/
abbrev AlikeAt (R : σ → σ' → Prop) (E : ε → σ → σ' → Prop) (m : EStateM ε σ α)
    (m' : EStateM ε σ' α) (s : σ) (s' : σ') : Prop :=
  Matches m m' s s' (fun a t a' t' => a' = a ∧ R t t') fun e t e' t' => e' = e ∧ E e t t'

/-- Two computations go alike from all states that `R` relates. -/
def Alike (R : σ → σ' → Prop) (E : ε → σ → σ' → Prop) (m : EStateM ε σ α)
    (m' : EStateM ε σ' α) : Prop :=
  ∀ s s', R s s' → AlikeAt R E m m' s s'

namespace Alike

variable {R : σ → σ' → Prop} {E E' : ε → σ → σ' → Prop} {m : EStateM ε σ α} {m' : EStateM ε σ' α}

theorem pure (a : α) : Alike R E (pure a) (pure a) := fun _ _ h => Matches.pure ⟨rfl, h⟩

theorem throw {e : ε} (he : ∀ {s s'}, R s s' → E e s s') :
    Alike R E (throw e : EStateM ε σ α) (throw e : EStateM ε σ' α) :=
  fun _ _ h => Matches.throw ⟨rfl, he h⟩

theorem bind {f : α → EStateM ε σ β} {f' : α → EStateM ε σ' β} (h : Alike R E m m')
    (hf : ∀ a, Alike R E (f a) (f' a)) : Alike R E (m >>= f) (m' >>= f') := by
  intro s s' hs
  apply (h s s' hs).bind
  rintro _ t a t' ⟨rfl, ht⟩
  exact hf a t t' ht

theorem bind_outcome {f : Except ε α → EStateM ε σ β} {f' : Except ε α → EStateM ε σ' β}
    (h : Alike R E m m') (hok : ∀ a, Alike R E' (f (.ok a)) (f' (.ok a)))
    (herr : ∀ e s s', E e s s' → AlikeAt R E' (f (.error e)) (f' (.error e)) s s') :
    Alike R E' (outcome m >>= f) (outcome m' >>= f') := by
  intro s s' hs
  rcases (h s s' hs).ok_or_error with ⟨a, t, _, t', hm, hm', rfl, ht⟩ |
    ⟨e, t, _, t', hm, hm', rfl, he⟩
  · apply Matches.left (outcome_of_ok hm)
    apply Matches.right (outcome_of_ok hm')
    exact hok _ t t' ht
  · apply Matches.left (outcome_of_error hm)
    apply Matches.right (outcome_of_error hm')
    exact herr _ t t' he

end Alike

/-- A state beside itself, which keeps something. -/
def Same (J : σ → Prop) (s s' : σ) : Prop := s' = s ∧ J s

theorem alike_self_iff {J : σ → Prop} {B : ε → σ → Prop} {m : EStateM ε σ α} :
    Alike (Same J) (fun e => Same (B e)) m m ↔ ∀ s, J s → Ends m s (fun _ => J) B := by
  constructor
  · intro h s hs
    rcases (h s s ⟨rfl, hs⟩).ok_or_error with ⟨a, t, -, -, hm, -, -, -, ht⟩ |
      ⟨e, t, -, -, hm, -, -, -, ht⟩
    · exact Ends.of_ok hm ht
    · exact Ends.of_error hm ht
  · rintro h _ s ⟨rfl, hs⟩
    cases hm : m s with
    | ok a t => exact Matches.of_ok hm hm ⟨rfl, rfl, (h s hs).ok hm⟩
    | error e t => exact Matches.of_error hm hm ⟨rfl, rfl, (h s hs).error hm⟩

theorem keeps_iff_alike {J : σ → Prop} {m : EStateM ε σ α} :
    Keeps J m ↔ Alike (Same J) (fun _ : ε => Same J) m m :=
  alike_self_iff.symm

-- Otherwise a statement on given states is decided by running both computations.
attribute [irreducible] Matches

end TreeRemoval
