import Mathlib.Data.List.Basic
import TreeRemoval.Json.Reader

/-! # Strings in JSON texts

What is written for a string is printable ASCII, and is read back as the string: each character is
written by its UTF-16 units, and the units of a text are joined to its characters again.
-/

namespace TreeRemoval.Json

variable {c d : Char} {cs rest : List Char} {unit : Nat}

def IsPrintable (c : Char) : Prop := 0x20 ≤ c.toNat ∧ c.toNat ≤ 0x7E

instance : DecidablePred IsPrintable := fun _ => inferInstanceAs (Decidable (_ ∧ _))

/-! ### Units -/

theorem toNat_valid (c : Char) : c.toNat < 0xD800 ∨ 0xE000 ≤ c.toNat ∧ c.toNat < 0x110000 := by
  have h : c.toNat < 0xD800 ∨ 0xDFFF < c.toNat ∧ c.toNat < 0x110000 := c.valid
  omega

theorem lt_of_mem_units (h : unit ∈ units c.toNat) : unit < 0x10000 := by
  have hc := toNat_valid c
  unfold units at h
  split at h <;> simp at h <;> omega

theorem joinSurrogates_single (codes : List Nat) (hhigh : isHighSurrogate unit = false)
    (hlow : isLowSurrogate unit = false) :
    joinSurrogates (unit :: codes) = Char.ofNat unit :: joinSurrogates codes := by
  cases codes <;> simp [joinSurrogates, hhigh, hlow]

theorem joinSurrogates_units (c : Char) (codes : List Nat) :
    joinSurrogates (units c.toNat ++ codes) = c :: joinSurrogates codes := by
  have hc := toNat_valid c
  unfold units
  split
  next hsmall =>
    have hhigh : isHighSurrogate c.toNat = false := by simp [isHighSurrogate]; omega
    have hlow : isLowSurrogate c.toNat = false := by simp [isLowSurrogate]; omega
    rw [List.singleton_append, joinSurrogates_single codes hhigh hlow, Char.ofNat_toNat]
  next hlarge =>
    have hhigh : isHighSurrogate (0xD800 + (c.toNat - 0x10000) / 0x400) = true := by
      simp [isHighSurrogate]
      omega
    have hlow : isLowSurrogate (0xDC00 + (c.toNat - 0x10000) % 0x400) = true := by
      simp [isLowSurrogate]
      omega
    have hcode : 0x10000 + (0xD800 + (c.toNat - 0x10000) / 0x400 - 0xD800) * 0x400 +
        (0xDC00 + (c.toNat - 0x10000) % 0x400 - 0xDC00) = c.toNat := by
      omega
    rw [List.cons_append, List.singleton_append, joinSurrogates, hhigh, hlow, hcode,
      Char.ofNat_toNat]
    rfl

theorem joinSurrogates_flatMap (cs : List Char) :
    joinSurrogates (cs.flatMap fun c => units c.toNat) = cs := by
  induction cs with
  | nil => rfl
  | cons c cs ih => rw [List.flatMap_cons, joinSurrogates_units, ih]

/-! ### Reading a literal -/

/-- What is read from a literal when some units stand before the rest of it. -/
def before (codes : List Nat) (read : Option (List Nat × List Char)) :
    Option (List Nat × List Char) :=
  read.map fun (more, rest) => (codes ++ more, rest)

theorem stringCodes_plain (h : 0x20 ≤ c.toNat) (hquote : c ≠ '\x22') (hback : c ≠ '\\') :
    stringCodes (c :: rest) = before [c.toNat] (stringCodes rest) := by
  rw [stringCodes.eq_4 _ _ hquote (fun _ _ _ _ _ hc => absurd hc hback)
    (fun _ _ hc => absurd hc hback), if_neg (by omega)]
  cases stringCodes rest <;> rfl

theorem shortEscape?_lt (h : shortEscape? d = some c) : c.toNat < 0x80 := by
  unfold shortEscape? at h
  split at h <;> cases h <;> decide

theorem stringCodes_short (h : shortEscape? d = some c) :
    stringCodes ('\\' :: d :: rest) = before [c.toNat] (stringCodes rest) := by
  have hd : d ≠ 'u' := by
    rintro rfl
    cases h
  rw [stringCodes.eq_3 _ _ (fun _ _ _ _ _ hu => absurd hu hd), h]
  cases stringCodes rest <;> rfl

theorem stringCodes_escapeUnit (h : unit < 0x10000) :
    stringCodes (escapeUnit unit ++ rest) = before [unit] (stringCodes rest) := by
  have hdigits : Text.hex 4 unit = [Text.hexDigit (unit / 16 / 16 / 16 % 16),
    Text.hexDigit (unit / 16 / 16 % 16), Text.hexDigit (unit / 16 % 16),
    Text.hexDigit (unit % 16)] := rfl
  have hread : Text.ofHex? (Text.hex 4 unit) = some unit := by
    rw [Text.ofHex?_hex, Nat.mod_eq_of_lt h]
  rw [hdigits] at hread
  rw [escapeUnit, hdigits]
  change stringCodes ('\\' :: 'u' :: _ :: _ :: _ :: _ :: rest) = _
  change (Text.ofHex? _).bind _ = _
  rw [hread]
  cases stringCodes rest <;> rfl

theorem stringCodes_escapeUnits : ∀ {codes : List Nat}, (∀ unit ∈ codes, unit < 0x10000) →
    stringCodes (codes.flatMap escapeUnit ++ rest) = before codes (stringCodes rest)
  | [], _ => by cases h : stringCodes rest <;> simp [before, h]
  | unit :: codes, h => by
    rw [List.flatMap_cons, List.append_assoc, stringCodes_escapeUnit (h unit (by simp)),
      stringCodes_escapeUnits fun u hu => h u (List.mem_cons_of_mem _ hu)]
    cases stringCodes rest <;> rfl

theorem escapeChar_cases (c : Char) :
    (∃ d, escapeChar c = ['\\', d] ∧ shortEscape? d = some c ∧ IsPrintable d) ∨
      (escapeChar c = [c] ∧ IsPrintable c ∧ c ≠ '\x22' ∧ c ≠ '\\') ∨
      escapeChar c = (units c.toNat).flatMap escapeUnit := by
  unfold escapeChar
  split_ifs with hquote hback hfeed hreturn htab hpage hbackspace hplain
  · exact Or.inl ⟨'\x22', rfl, by rw [hquote]; rfl, by decide⟩
  · exact Or.inl ⟨'\\', rfl, by rw [hback]; rfl, by decide⟩
  · exact Or.inl ⟨'n', rfl, by rw [hfeed]; rfl, by decide⟩
  · exact Or.inl ⟨'r', rfl, by rw [hreturn]; rfl, by decide⟩
  · exact Or.inl ⟨'t', rfl, by rw [htab]; rfl, by decide⟩
  · exact Or.inl ⟨'f', rfl, by rw [hpage]; rfl, by decide⟩
  · exact Or.inl ⟨'b', rfl, by rw [hbackspace]; rfl, by decide⟩
  · exact Or.inr (Or.inl ⟨rfl, ⟨hplain.1, by omega⟩, hquote, hback⟩)
  · exact Or.inr (Or.inr rfl)

theorem stringCodes_escapeChar (c : Char) (rest : List Char) :
    stringCodes (escapeChar c ++ rest) = before (units c.toNat) (stringCodes rest) := by
  rcases escapeChar_cases c with ⟨d, h, hd, -⟩ | ⟨h, hc, hquote, hback⟩ | h <;> rw [h]
  · have hc : units c.toNat = [c.toNat] := by
      have := shortEscape?_lt hd
      rw [units, if_pos (by omega)]
    rw [hc]
    exact stringCodes_short hd
  · have hlt := hc.2
    rw [units, if_pos (by omega)]
    exact stringCodes_plain hc.1 hquote hback
  · exact stringCodes_escapeUnits fun _ => lt_of_mem_units

def closed (s : String) : List Char := s.toList.flatMap escapeChar ++ ['\x22']

theorem toList_renderString (s : String) : (renderString s).toList = '\x22' :: closed s :=
  String.toList_ofList

theorem stringCodes_flatMap (cs rest : List Char) :
    stringCodes (cs.flatMap escapeChar ++ '\x22' :: rest) =
      some (cs.flatMap fun c => units c.toNat, rest) := by
  induction cs with
  | nil => rfl
  | cons c cs ih =>
    rw [List.flatMap_cons, List.append_assoc, stringCodes_escapeChar, ih]
    rfl

theorem string?_closed (s : String) (rest : List Char) :
    string? (closed s ++ rest) = some (s, rest) := by
  rw [string?, closed, List.append_assoc, List.singleton_append, stringCodes_flatMap]
  simp [joinSurrogates_flatMap]

/-! ### What is written -/

theorem isPrintable_hexDigit {n : Nat} (h : n < 16) : IsPrintable (Text.hexDigit n) := by
  have hall : ∀ m : Fin 16, IsPrintable (Text.hexDigit m) := by decide
  exact hall ⟨n, h⟩

theorem isPrintable_hex : ∀ {width n : Nat}, ∀ c ∈ Text.hex width n, IsPrintable c
  | 0, _, _, h => by cases h
  | width + 1, n, c, h => by
    rcases List.mem_append.1 h with h | h
    · exact isPrintable_hex c h
    · rw [List.mem_singleton.1 h]
      exact isPrintable_hexDigit (Nat.mod_lt _ (by decide))

theorem isPrintable_escapeUnit : ∀ c ∈ escapeUnit unit, IsPrintable c := by
  intro c h
  rcases List.mem_cons.1 h with rfl | h
  · decide
  · rcases List.mem_cons.1 h with rfl | h
    · decide
    · exact isPrintable_hex c h

theorem isPrintable_escapeChar (h : d ∈ escapeChar c) : IsPrintable d := by
  rcases escapeChar_cases c with ⟨e, hc, -, he⟩ | ⟨hc, hplain, -⟩ | hc <;> rw [hc] at h
  · rcases List.mem_pair.1 h with rfl | rfl
    · decide
    · exact he
  · rw [List.mem_singleton.1 h]
    exact hplain
  · obtain ⟨unit, -, hd⟩ := List.mem_flatMap.1 h
    exact isPrintable_escapeUnit d hd

theorem isPrintable_closed {s : String} (h : c ∈ closed s) : IsPrintable c := by
  rcases List.mem_append.1 h with h | h
  · obtain ⟨d, -, h⟩ := List.mem_flatMap.1 h
    exact isPrintable_escapeChar h
  · rw [List.mem_singleton.1 h]
    decide

end TreeRemoval.Json
