import TreeRemoval.Log.Record

/-! # Values and records that can be written

A value has a text unless a whole number in it is too long, or it rests on a failed removal whose
message is no text. It has a JSON form if its whole numbers and errors have texts and its keys are
keys for JSON. A record has a line if its message can be made and its extra fields have a JSON form.
-/

namespace TreeRemoval.Log

section Except

variable {ε ε' α β : Type}

theorem exists_bind_eq_ok {x : Except ε α} {f : α → Except ε β} :
    (∃ b, x >>= f = .ok b) ↔ ∃ a, x = .ok a ∧ ∃ b, f a = .ok b := by
  cases x <;> simp [bind, Except.bind]

theorem mapError_eq_ok_iff {x : Except ε α} {f : ε → ε'} {a : α} :
    x.mapError f = .ok a ↔ x = .ok a := by
  cases x with
  | ok b => exact ⟨fun h => by cases h; rfl, fun h => by cases h; rfl⟩
  | error e => exact ⟨nofun, nofun⟩

theorem exists_map_eq_ok {x : Except ε α} {f : α → β} :
    (∃ b, x.map f = .ok b) ↔ ∃ a, x = .ok a := by
  cases x with
  | ok a => exact ⟨fun _ => ⟨a, rfl⟩, fun _ => ⟨f a, rfl⟩⟩
  | error e => exact ⟨nofun, nofun⟩

theorem exists_mapM_eq_ok {xs : List (Except ε α)} (h : ∀ x ∈ xs, ∃ a, x = .ok a) :
    ∃ as, xs.mapM id = .ok as := by
  induction xs with
  | nil => exact ⟨[], rfl⟩
  | cons x xs ih =>
    obtain ⟨a, ha⟩ := h x (by simp)
    obtain ⟨as, has⟩ := ih fun x hx => h x (by simp [hx])
    exact ⟨a :: as, by rw [List.mapM_cons, has, id, ha]; rfl⟩

end Except

namespace Value

variable {v : Value} {args : List Value}

theorem exists_decimalText_iff {n : Int} : (∃ t, decimalText n = .ok t) ↔ IsShort n := by
  unfold decimalText
  split <;> simp [*]

/-! ### Texts -/

mutual

/-- All whole numbers in a value are short, and failed removals in it have texts as messages. -/
def IsShowable : Value → Prop
  | int n => IsShort n
  | list items | tuple items => AreShowable items
  | dictionary pairs => PairsAreShowable pairs
  | error kind args =>
    (kind = .undeletable → ∃ message more, args = text message :: more) ∧ AreShowable args
  | _ => True

def AreShowable : List Value → Prop
  | [] => True
  | item :: rest => item.IsShowable ∧ AreShowable rest

def PairsAreShowable : List (Value × Value) → Prop
  | [] => True
  | (key, value) :: rest => key.IsShowable ∧ value.IsShowable ∧ PairsAreShowable rest

end

theorem mem_of_mem_kept {α : Type} {kind : ErrorKind} {items : List α} {item : α}
    (h : item ∈ kept kind args items) : item ∈ items := by
  unfold kept at h
  split at h
  · split at h
    · exact List.mem_of_mem_take h
    · exact h
  · exact List.mem_of_mem_take h
  · exact h

mutual

theorem exists_shown : (v : Value) → v.IsShowable → ∃ t, v.shown = .ok t
  | list items, h | tuple items, h => by
    obtain ⟨ts, hts⟩ := exists_mapM_eq_ok (exists_shownEach items h)
    rw [shown, hts]
    exact ⟨_, rfl⟩
  | dictionary pairs, h => by
    obtain ⟨ts, hts⟩ := exists_mapM_eq_ok (exists_shownPairs pairs h)
    rw [shown, hts]
    exact ⟨_, rfl⟩
  | error kind args, h => by
    obtain ⟨ts, hts⟩ := exists_mapM_eq_ok fun x hx =>
      exists_shownEach args h.2 x (mem_of_mem_kept hx)
    rw [shown, hts]
    exact ⟨_, rfl⟩
  | int _, h => by rw [shown]; exact exists_decimalText_iff.2 h
  | null, _ | bool _, _ | float _, _ | text _, _ | path _, _ | bytes _, _ => by
    rw [shown]
    exact ⟨_, rfl⟩

theorem exists_shownEach : (items : List Value) → AreShowable items →
    ∀ x ∈ shownEach items, ∃ t, x = .ok t
  | [], _ => by simp [shownEach]
  | item :: rest, h => by
    rw [shownEach, List.forall_mem_cons]
    exact ⟨exists_shown item h.1, exists_shownEach rest h.2⟩

theorem exists_shownPairs : (pairs : List (Value × Value)) → PairsAreShowable pairs →
    ∀ x ∈ shownPairs pairs, ∃ t, x = .ok t
  | [], _ => by simp [shownPairs]
  | (key, value) :: rest, h => by
    obtain ⟨k, hk⟩ := exists_shown key h.1
    obtain ⟨t, ht⟩ := exists_shown value h.2.1
    rw [shownPairs, List.forall_mem_cons, hk, ht]
    exact ⟨⟨_, rfl⟩, exists_shownPairs rest h.2.2⟩

end

section Messages

variable {kind : ErrorKind} {c : ErrorClass} {texts shown : List (Except TextError String)}

theorem exists_plainMessage (htexts : ∀ x ∈ texts, ∃ t, x = .ok t)
    (hshown : ∀ x ∈ shown, ∃ t, x = .ok t) : ∃ t, plainMessage texts shown = .ok t := by
  unfold plainMessage
  split
  · exact ⟨"", rfl⟩
  · exact htexts _ (by simp)
  · obtain ⟨ts, hts⟩ := exists_mapM_eq_ok hshown
    rw [hts]
    exact ⟨_, rfl⟩

theorem exists_filesText (hshown : ∀ x ∈ shown, ∃ t, x = .ok t) :
    ∃ t, filesText c args shown = .ok t := by
  unfold filesText
  split
  · split
    next file _ other _ =>
      obtain ⟨file, rfl⟩ := hshown file (by simp)
      obtain ⟨other, rfl⟩ := hshown other (by simp)
      split <;> exact ⟨_, rfl⟩
    next file _ _ =>
      obtain ⟨file, rfl⟩ := hshown file (by simp)
      exact ⟨_, rfl⟩
    next => exact ⟨_, rfl⟩
  · exact ⟨_, rfl⟩

theorem exists_errorMessage
    (hmessage : kind = .undeletable → ∃ message more, args = text message :: more)
    (htexts : ∀ x ∈ texts, ∃ t, x = .ok t) (hshown : ∀ x ∈ shown, ∃ t, x = .ok t) :
    ∃ t, errorMessage kind args texts shown = .ok t := by
  unfold errorMessage
  split
  · exact ⟨_, rfl⟩
  next hne =>
    obtain ⟨message, more, hargs⟩ := hmessage rfl
    exact absurd (List.cons.inj hargs).1 (hne message)
  · exact exists_plainMessage hshown hshown
  next number reason _ =>
    split
    · obtain ⟨number, rfl⟩ := htexts number (by simp)
      obtain ⟨reason, rfl⟩ := htexts reason (by simp)
      obtain ⟨files, hfiles⟩ := exists_filesText hshown
      exact ⟨_, by rw [hfiles]; rfl⟩
    · exact exists_plainMessage htexts hshown
  · exact exists_plainMessage htexts hshown

end Messages

mutual

/-- A showable value has a text. Other errors may have one too, as a message shows some of an error's
arguments only. -/
theorem exists_toText : (v : Value) → v.IsShowable → ∃ t, v.toText = .ok t
  | text _, _ | path _, _ => ⟨_, by rw [toText]⟩
  | error kind args, h => by
    rw [toText]
    exact exists_errorMessage h.1 (exists_textEach args h.2) (exists_shownEach args h.2)
  | null, h | bool _, h | int _, h | float _, h | list _, h | tuple _, h | dictionary _, h
  | bytes _, h => exists_shown _ h

theorem exists_textEach : (items : List Value) → AreShowable items →
    ∀ x ∈ textEach items, ∃ t, x = .ok t
  | [], _ => by simp [textEach]
  | item :: rest, h => by
    rw [textEach, List.forall_mem_cons]
    exact ⟨exists_toText item h.1, exists_textEach rest h.2⟩

end

/-! ### JSON forms -/

def IsKey : Value → Prop
  | null | bool _ | float _ | text _ => True
  | int n => IsShort n
  | _ => False

mutual

/-- All whole numbers in a value are short, all its errors have texts, and all its dictionaries have
keys for JSON. -/
def HasJson : Value → Prop
  | int n => IsShort n
  | list items | tuple items => HaveJson items
  | dictionary pairs => PairsHaveJson pairs
  | error kind args => ∃ t, (error kind args).toText = .ok t
  | _ => True

def HaveJson : List Value → Prop
  | [] => True
  | item :: rest => item.HasJson ∧ HaveJson rest

def PairsHaveJson : List (Value × Value) → Prop
  | [] => True
  | (key, value) :: rest => key.IsKey ∧ value.HasJson ∧ PairsHaveJson rest

end

theorem exists_keyText_iff (v : Value) : (∃ t, v.keyText = .ok t) ↔ v.IsKey := by
  cases v with
  | int n => simp only [keyText, IsKey, mapError_eq_ok_iff, exists_decimalText_iff]
  | _ => simp [keyText, IsKey]

theorem exists_textJson_iff :
    (∃ j, (v.toText.map Json.string).mapError JsonError.text = .ok j) ↔
      ∃ t, v.toText = .ok t := by
  simp only [mapError_eq_ok_iff, exists_map_eq_ok]

mutual

theorem exists_toJson_iff : (v : Value) → ((∃ j, v.toJson = .ok j) ↔ v.HasJson)
  | list items | tuple items => by
    rw [toJson, exists_bind_eq_ok, HasJson, ← exists_toJsonEach_iff items]
    simp [pure, Except.pure]
  | dictionary pairs => by
    rw [toJson, exists_bind_eq_ok, HasJson, ← exists_toJsonPairs_iff pairs]
    simp [pure, Except.pure]
  | int n => by
    rw [toJson, HasJson]
    split <;> simp [*]
  | path _ | bytes _ => iff_of_true ⟨_, rfl⟩ trivial
  | error _ _ => exists_textJson_iff
  | null | bool _ | float _ | text _ => by simp [toJson, HasJson]

theorem exists_toJsonEach_iff : (items : List Value) →
    ((∃ jsons, toJsonEach items = .ok jsons) ↔ HaveJson items)
  | [] => by simp [toJsonEach, HaveJson]
  | item :: rest => by
    rw [toJsonEach, exists_bind_eq_ok, HaveJson, ← exists_toJson_iff item,
      ← exists_toJsonEach_iff rest]
    simp [exists_bind_eq_ok, pure, Except.pure]

theorem exists_toJsonPairs_iff : (pairs : List (Value × Value)) →
    ((∃ fields, toJsonPairs pairs = .ok fields) ↔ PairsHaveJson pairs)
  | [] => by simp [toJsonPairs, PairsHaveJson]
  | (key, value) :: rest => by
    rw [toJsonPairs, exists_bind_eq_ok, PairsHaveJson, ← exists_keyText_iff key,
      ← exists_toJson_iff value, ← exists_toJsonPairs_iff rest]
    simp [exists_bind_eq_ok, pure, Except.pure]

end

end Value

theorem Level.isShort_number (level : Level) : IsShort level.number := by
  cases level <;> decide +kernel

theorem Level.exists_nameOf_iff {n : Int} : (∃ t, nameOf n = .ok t) ↔ IsShort n := by
  unfold nameOf
  split
  next h => exact ⟨fun _ => h ▸ (by decide +kernel), fun _ => ⟨_, rfl⟩⟩
  next =>
    split
    next level hfound =>
      have hn : (level.number : Int) = n := by simpa using List.find?_some hfound
      exact ⟨fun _ => hn ▸ level.isShort_number, fun _ => ⟨_, rfl⟩⟩
    next => rw [exists_map_eq_ok, Value.exists_decimalText_iff]

namespace Record

variable {r : Record}

/-- A record that has a line: its level has a name, its message can be made from its template, and
its extra fields, if there are any, have a JSON form. -/
structure IsExpressible (r : Record) : Prop where
  level : IsShort r.levelNumber
  message : ∃ message, formatMessage r.template r.args = .ok message
  extra : r.extra.isBlank = true ∨ r.extra.HasJson

theorem exists_extraFields_iff :
    (∃ fields, r.extraFields = .ok fields) ↔ r.extra.isBlank = true ∨ r.extra.HasJson := by
  rw [← r.extra.exists_toJson_iff]
  unfold extraFields
  cases hb : r.extra.isBlank <;> cases hj : r.extra.toJson <;> simp

theorem exists_line_iff : (∃ line, r.line = .ok line) ↔ r.IsExpressible := by
  have hjson : (∃ j, r.toJson = .ok j) ↔ (∃ t, Level.nameOf r.levelNumber = .ok t) ∧
      (∃ message, formatMessage r.template r.args = .ok message) ∧
        ∃ fields, r.extraFields = .ok fields := by
    rw [toJson, exists_bind_eq_ok]
    simp [exists_bind_eq_ok, mapError_eq_ok_iff, pure, Except.pure]
  rw [line, exists_map_eq_ok, hjson, Level.exists_nameOf_iff, exists_extraFields_iff]
  exact ⟨fun ⟨hlevel, hmessage, hextra⟩ => ⟨hlevel, hmessage, hextra⟩,
    fun h => ⟨h.level, h.message, h.extra⟩⟩

end Record

end TreeRemoval.Log
