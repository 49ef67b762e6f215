import Mathlib.Data.List.Basic
import Mathlib.Data.Nat.Digits.Defs
import TreeRemoval.Proofs.Json.Strings

/-! # Reading back what is written

The text of a value without floating-point numbers is one line of printable ASCII, and the reader
finds the value in it. A value is read with anything after it that does not go on with a number.
-/

namespace TreeRemoval.Json

variable {c : Char} {rest : List Char} {fuel : Nat} {j : Json}

inductive IsExact : Json → Prop
  | null : IsExact .null
  | bool (b : Bool) : IsExact (.bool b)
  | int (n : Int) : IsExact (.int n)
  | string (s : String) : IsExact (.string s)
  | array {items : List Json} (h : ∀ item ∈ items, IsExact item) : IsExact (.array items)
  | object {fields : List (String × Json)} (h : ∀ field ∈ fields, IsExact field.2) :
    IsExact (.object fields)

/-! ### The characters of a text -/

def chars (j : Json) : List Char := j.render.toList

def fieldChars (field : String × Json) : List Char :=
  '\x22' :: (closed field.1 ++ ':' :: ' ' :: field.2.chars)

def joined : List (List Char) → List Char
  | [] => []
  | [last] => last
  | first :: next :: more => first ++ ',' :: ' ' :: joined (next :: more)

theorem joined_eq_cons (ds : List Char) (texts : List (List Char)) :
    ∃ cs, joined ((c :: ds) :: texts) = c :: cs := by
  cases texts <;> exact ⟨_, rfl⟩

theorem joined_eq (texts : List (List Char)) : joined texts = [',', ' '].intercalate texts := by
  induction texts using joined.induct with
  | case1 => rfl
  | case2 last => simp [joined]
  | case3 first next more ih =>
    rw [joined, ih]
    simp [List.intercalate]

theorem renderItems_eq (items : List Json) : renderItems items = items.map render := by
  induction items with
  | nil => rfl
  | cons item items ih => rw [renderItems, ih, List.map_cons]

theorem renderFields_eq (fields : List (String × Json)) :
    renderFields fields =
      fields.map fun (name, value) => renderString name ++ ": " ++ value.render := by
  induction fields with
  | nil => rfl
  | cons field fields ih => rw [renderFields, ih, List.map_cons]

@[simp] theorem chars_null : chars .null = "null".toList := rfl

@[simp] theorem chars_bool (b : Bool) :
    chars (.bool b) = (if b then "true" else "false").toList := rfl

@[simp] theorem chars_string (s : String) : chars (.string s) = '\x22' :: closed s :=
  toList_renderString s

theorem chars_array (items : List Json) :
    chars (.array items) = '[' :: (joined (items.map chars) ++ [']']) := by
  have hitems : (renderItems items).map String.toList = items.map chars := by
    rw [renderItems_eq, List.map_map]
    rfl
  simp [chars, render, String.toList_intercalate, hitems, joined_eq]

theorem chars_object (fields : List (String × Json)) :
    chars (.object fields) = '\x7b' :: (joined (fields.map fieldChars) ++ ['\x7d']) := by
  have hfields : (renderFields fields).map String.toList = fields.map fieldChars := by
    rw [renderFields_eq, List.map_map]
    simp [Function.comp_def, fieldChars, toList_renderString, chars]
  simp [chars, render, String.toList_intercalate, hfields, joined_eq]

theorem chars_int (n : Int) :
    chars (.int n) = (if n < 0 then ['-'] else []) ++ Nat.toDigits 10 n.natAbs := by
  cases n with
  | ofNat n => exact String.toList_ofList
  | negSucc n =>
    rw [if_pos (Int.negSucc_lt_zero n)]
    exact String.toList_append.trans (by simp [Nat.repr])

/-! ### Numbers -/

def Parts (rest : List Char) : Prop := ∀ c ∈ rest.head?, isNumberChar c = false

theorem number?_append {digits : List Char} (h : ∀ c ∈ digits, isNumberChar c = true)
    (hplain : isPlainInteger digits = true) (hr : Parts rest) :
    number? (digits ++ rest) = some (.int (integer digits), rest) := by
  have htake : rest.takeWhile isNumberChar = [] ∧ rest.dropWhile isNumberChar = rest := by
    cases rest with
    | nil => exact ⟨rfl, rfl⟩
    | cons c rest => simp [hr c rfl]
  unfold number?
  rw [List.takeWhile_append_of_pos h, List.dropWhile_append_of_pos h, htake.1, htake.2]
  simp [hplain]

theorem isNumberChar_of_isDigit (h : c.isDigit = true) : isNumberChar c = true := by
  simp [isNumberChar, h]

theorem isDigit_of_mem_toDigits {n : Nat} (h : c ∈ Nat.toDigits 10 n) : c.isDigit = true :=
  Nat.isDigit_of_mem_toDigits (by decide) (by decide) h

theorem toDigits_eq_cons (n : Nat) :
    ∃ d ds, Nat.toDigits 10 n = d :: ds ∧ d.isDigit = true ∧ ∀ e ∈ ds, e.isDigit = true := by
  cases h : Nat.toDigits 10 n with
  | nil => exact absurd h Nat.toDigits_ne_nil
  | cons d ds =>
    have hall : ∀ e ∈ d :: ds, e.isDigit = true := fun e he => isDigit_of_mem_toDigits (h ▸ he)
    exact ⟨d, ds, rfl, hall d (by simp), fun e he => hall e (by simp [he])⟩

theorem ofDigits_toDigits (n : Nat) : Decimal.ofDigits (Nat.toDigits 10 n) = n :=
  Nat.ofDigitChars_toDigits (by decide) (by decide)

theorem isNumberChar_chars_int (n : Int) : ∀ c ∈ chars (.int n), isNumberChar c = true := by
  intro c hc
  rw [chars_int, List.mem_append] at hc
  rcases hc with hc | hc
  · split at hc
    · rw [List.mem_singleton.1 hc]
      decide
    · cases hc
  · exact isNumberChar_of_isDigit (isDigit_of_mem_toDigits hc)

theorem isPlainInteger_cons {cs : List Char} (h : c ≠ '-') :
    isPlainInteger (c :: cs) = (c :: cs).all Char.isDigit := by
  unfold isPlainInteger
  split
  · rename_i hcs
    exact absurd (List.head_eq_of_cons_eq hcs) h
  · rfl

theorem integer_cons {cs : List Char} (h : c ≠ '-') :
    integer (c :: cs) = Decimal.ofDigits (c :: cs) := by
  unfold integer
  split
  · rename_i hcs
    exact absurd (List.head_eq_of_cons_eq hcs) h
  · rfl

theorem integer_chars_int (n : Int) :
    isPlainInteger (chars (.int n)) = true ∧ integer (chars (.int n)) = n := by
  obtain ⟨d, ds, h, hd, hds⟩ := toDigits_eq_cons n.natAbs
  have hvalue : Decimal.ofDigits (d :: ds) = n.natAbs := by rw [← h, ofDigits_toDigits]
  have hminus : d ≠ '-' := by
    rintro rfl
    cases hd
  rw [chars_int, h]
  split
  · refine ⟨by simpa [isPlainInteger, hd] using hds, ?_⟩
    simp only [integer, List.singleton_append, hvalue]
    omega
  · rw [List.nil_append, isPlainInteger_cons hminus, integer_cons hminus, hvalue]
    refine ⟨by simpa [hd] using hds, ?_⟩
    omega

theorem word?_digit {cs : List Char} (h : c.isDigit = true) : word? (c :: cs) = none := by
  simp [word?, words, afterWord?]
  refine ⟨?_, ?_, ?_, ?_, ?_, ?_⟩ <;> (rintro rfl; cases h)

theorem word?_minus {cs : List Char} (h : c.isDigit = true) : word? ('-' :: c :: cs) = none := by
  simp [word?, words, afterWord?]
  rintro rfl
  cases h

theorem word?_chars_int (n : Int) (rest : List Char) : word? (chars (.int n) ++ rest) = none := by
  obtain ⟨d, ds, h, hd, -⟩ := toDigits_eq_cons n.natAbs
  rw [chars_int, h]
  split
  · exact word?_minus hd
  · exact word?_digit hd

/-! ### Values -/

def IsFirst (c : Char) : Prop := c ∉ [' ', '\n', '\r', '\t', ']', '\x7d']

instance : DecidablePred IsFirst := fun c => inferInstanceAs (Decidable (c ∉ _))

theorem skipBlanks_cons {cs : List Char} (h : c ≠ ' ' ∧ c ≠ '\n' ∧ c ≠ '\r' ∧ c ≠ '\t') :
    skipBlanks (c :: cs) = c :: cs := by
  simp [skipBlanks, h]

theorem IsFirst.skipBlanks {cs : List Char} (h : IsFirst c) :
    skipBlanks (c :: cs) = c :: cs := by
  simp [IsFirst] at h
  exact skipBlanks_cons ⟨h.1, h.2.1, h.2.2.1, h.2.2.2.1⟩

theorem isFirst_of_isNumberChar (h : isNumberChar c = true) : IsFirst c := by
  simp only [IsFirst, List.mem_cons, List.not_mem_nil, or_false, not_or]
  refine ⟨?_, ?_, ?_, ?_, ?_, ?_⟩ <;> (rintro rfl; cases h)

theorem chars_int_eq_cons (n : Int) :
    ∃ d ds, chars (.int n) = d :: ds ∧ isNumberChar d = true := by
  cases h : chars (.int n) with
  | nil =>
    have hplain := (integer_chars_int n).1
    rw [h] at hplain
    cases hplain
  | cons d ds => exact ⟨d, ds, rfl, isNumberChar_chars_int n d (by rw [h]; simp)⟩

theorem IsExact.chars_eq_cons (h : IsExact j) : ∃ d ds, chars j = d :: ds ∧ IsFirst d := by
  cases h with
  | null => exact ⟨_, _, rfl, by decide⟩
  | bool b => cases b <;> exact ⟨_, _, rfl, by decide⟩
  | int n =>
    obtain ⟨d, ds, hd, hnumber⟩ := chars_int_eq_cons n
    exact ⟨d, ds, hd, isFirst_of_isNumberChar hnumber⟩
  | string s => exact ⟨_, _, chars_string s, by decide⟩
  | array _ => exact ⟨_, _, chars_array _, by decide⟩
  | object _ => exact ⟨_, _, chars_object _, by decide⟩

/-! ### The reader's steps -/

theorem value?_quote (fuel : Nat) (cs : List Char) :
    value? (fuel + 1) ('\x22' :: cs) = (string? cs).map fun (s, rest) => (.string s, rest) := rfl

theorem value?_bracket (h : IsFirst c) (fuel : Nat) (cs : List Char) :
    value? (fuel + 1) ('[' :: c :: cs) =
      (items? fuel (c :: cs)).map fun (items, rest) => (.array items, rest) := by
  have hc : c ≠ ']' := by
    rintro rfl
    exact h (by decide)
  simp [value?, h.skipBlanks, skipBlanks_cons (c := '['), hc]

theorem value?_brace (h : IsFirst c) (fuel : Nat) (cs : List Char) :
    value? (fuel + 1) ('\x7b' :: c :: cs) =
      (fields? fuel (c :: cs)).map fun (fields, rest) => (.object fields, rest) := by
  have hc : c ≠ '\x7d' := by
    rintro rfl
    exact h (by decide)
  simp [value?, h.skipBlanks, skipBlanks_cons (c := '\x7b'), hc]

theorem value?_number (h : isNumberChar c = true) (fuel : Nat) (cs : List Char) :
    value? (fuel + 1) (c :: cs) = (word? (c :: cs)).orElse fun _ => number? (c :: cs) := by
  have hc : c ≠ '\x22' ∧ c ≠ '[' ∧ c ≠ '\x7b' := by
    refine ⟨?_, ?_, ?_⟩ <;> (rintro rfl; cases h)
  simp [value?, (isFirst_of_isNumberChar h).skipBlanks, hc]

theorem value?_blank (fuel : Nat) (cs : List Char) : value? fuel (' ' :: cs) = value? fuel cs := by
  cases fuel <;> rfl

theorem items?_blank (fuel : Nat) (cs : List Char) : items? fuel (' ' :: cs) = items? fuel cs := by
  cases fuel with
  | zero => rfl
  | succ fuel =>
    change (value? fuel (' ' :: cs)).bind _ = _
    rw [value?_blank]
    rfl

theorem fields?_blank (fuel : Nat) (cs : List Char) :
    fields? fuel (' ' :: cs) = fields? fuel cs := by
  cases fuel <;> rfl

theorem items?_last {cs : List Char} (h : value? fuel cs = some (j, ']' :: rest)) :
    items? (fuel + 1) cs = some ([j], rest) := by
  change (value? fuel cs).bind _ = _
  rw [h]
  rfl

theorem items?_more {cs more : List Char} {items : List Json}
    (h : value? fuel cs = some (j, ',' :: ' ' :: more))
    (hm : items? fuel more = some (items, rest)) :
    items? (fuel + 1) cs = some (j :: items, rest) := by
  change (value? fuel cs).bind _ = _
  rw [h]
  change (items? fuel (' ' :: more)).bind _ = _
  rw [items?_blank, hm]
  rfl

theorem fields?_last {name : String} {cs : List Char}
    (h : value? fuel cs = some (j, '\x7d' :: rest)) :
    fields? (fuel + 1) ('\x22' :: (closed name ++ ':' :: ' ' :: cs)) = some ([(name, j)], rest) := by
  change (string? (closed name ++ ':' :: ' ' :: cs)).bind _ = _
  rw [string?_closed]
  change (value? fuel (' ' :: cs)).bind _ = _
  rw [value?_blank, h]
  rfl

theorem fields?_more {name : String} {cs more : List Char} {fields : List (String × Json)}
    (h : value? fuel cs = some (j, ',' :: ' ' :: more))
    (hm : fields? fuel more = some (fields, rest)) :
    fields? (fuel + 1) ('\x22' :: (closed name ++ ':' :: ' ' :: cs)) =
      some ((name, j) :: fields, rest) := by
  change (string? (closed name ++ ':' :: ' ' :: cs)).bind _ = _
  rw [string?_closed]
  change (value? fuel (' ' :: cs)).bind _ = _
  rw [value?_blank, h]
  change (fields? fuel (' ' :: more)).bind _ = _
  rw [fields?_blank, hm]
  rfl

/-! ### Reading a value -/

/-- A value is found at the front of a text that starts with what is written for it. -/
def Reads (j : Json) : Prop :=
  ∀ fuel rest, Parts rest → 2 * (chars j).length ≤ fuel →
    value? fuel (chars j ++ rest) = some (j, rest)

theorem parts_cons (h : isNumberChar c = false) : Parts (c :: rest) := by
  rintro _ ⟨⟩
  exact h

theorem Reads.intro (hne : chars j ≠ [])
    (h : ∀ fuel rest, Parts rest → 2 * (chars j).length ≤ fuel + 1 →
      value? (fuel + 1) (chars j ++ rest) = some (j, rest)) : Reads j := by
  intro fuel rest hr hfuel
  have hpos : 0 < (chars j).length := List.length_pos_iff.2 hne
  obtain ⟨fuel, rfl⟩ : ∃ n, fuel = n + 1 := Nat.exists_eq_add_one.2 (by omega)
  exact h fuel rest hr hfuel

theorem reads_null : Reads .null := Reads.intro (by decide) fun _ _ _ _ => rfl

theorem reads_bool (b : Bool) : Reads (.bool b) := by
  cases b <;> exact Reads.intro (by decide) fun _ _ _ _ => rfl

theorem reads_string (s : String) : Reads (.string s) := by
  refine Reads.intro (by simp) fun _ _ _ _ => ?_
  rw [chars_string, List.cons_append, value?_quote, string?_closed]
  rfl

theorem reads_int (n : Int) : Reads (.int n) := by
  obtain ⟨d, ds, hd, hnumber⟩ := chars_int_eq_cons n
  refine Reads.intro (by simp [hd]) fun fuel rest hr _ => ?_
  have hread : number? (chars (.int n) ++ rest) = some (.int n, rest) := by
    rw [number?_append (isNumberChar_chars_int n) (integer_chars_int n).1 hr,
      (integer_chars_int n).2]
  have hword := word?_chars_int n rest
  rw [hd, List.cons_append] at hread hword ⊢
  rw [value?_number hnumber, hword, hread]
  rfl

theorem items?_joined {items : List Json} (hne : items ≠ []) (h : ∀ item ∈ items, Reads item)
    (hfuel : 2 * (joined (items.map chars)).length + 1 ≤ fuel) :
    items? fuel (joined (items.map chars) ++ ']' :: rest) = some (items, rest) := by
  induction items generalizing fuel with
  | nil => exact absurd rfl hne
  | cons item items ih =>
    obtain ⟨fuel, rfl⟩ : ∃ n, fuel = n + 1 := Nat.exists_eq_add_one.2 (by omega)
    have hitem := h item (by simp)
    cases items with
    | nil =>
      simp only [List.map_cons, List.map_nil, joined] at hfuel ⊢
      exact items?_last (hitem _ _ (parts_cons (by decide)) (by omega))
    | cons next more =>
      simp only [List.map_cons, joined, List.length_append, List.length_cons,
        List.append_assoc, List.cons_append] at hfuel ih ⊢
      exact items?_more (hitem _ _ (parts_cons (by decide)) (by omega))
        (ih (by simp) (fun item hm => h item (by simp [hm])) (by omega))

theorem fields?_joined {fields : List (String × Json)} (hne : fields ≠ [])
    (h : ∀ field ∈ fields, Reads field.2)
    (hfuel : 2 * (joined (fields.map fieldChars)).length + 1 ≤ fuel) :
    fields? fuel (joined (fields.map fieldChars) ++ '\x7d' :: rest) = some (fields, rest) := by
  induction fields generalizing fuel with
  | nil => exact absurd rfl hne
  | cons field fields ih =>
    obtain ⟨fuel, rfl⟩ : ∃ n, fuel = n + 1 := Nat.exists_eq_add_one.2 (by omega)
    have hfield := h field (by simp)
    cases fields with
    | nil =>
      simp only [List.map_cons, List.map_nil, joined, fieldChars, List.length_append,
        List.length_cons, List.append_assoc, List.cons_append] at hfuel ⊢
      exact fields?_last (hfield _ _ (parts_cons (by decide)) (by omega))
    | cons next more =>
      have hchars : fieldChars field = '\x22' :: (closed field.1 ++ ':' :: ' ' :: field.2.chars) :=
        rfl
      simp only [List.map_cons, joined, hchars, List.length_append, List.length_cons,
        List.append_assoc, List.cons_append] at hfuel ih ⊢
      exact fields?_more (hfield _ _ (parts_cons (by decide)) (by omega))
        (ih (by simp) (fun field hm => h field (by simp [hm])) (by omega))

theorem reads_array {items : List Json} (he : ∀ item ∈ items, IsExact item)
    (h : ∀ item ∈ items, Reads item) : Reads (.array items) := by
  refine Reads.intro (by simp [chars_array]) fun fuel rest _ hfuel => ?_
  rw [chars_array] at hfuel ⊢
  cases items with
  | nil => rfl
  | cons item items =>
    obtain ⟨d, ds, hd, hfirst⟩ := (he item (by simp)).chars_eq_cons
    obtain ⟨cs, hcs⟩ := joined_eq_cons (c := d) ds (items.map chars)
    simp only [List.length_cons, List.length_append, List.length_nil] at hfuel
    have hitems : items? fuel (joined ((item :: items).map chars) ++ ']' :: rest) =
        some (item :: items, rest) := items?_joined (by simp) h (by omega)
    rw [List.map_cons, hd, hcs, List.cons_append] at hitems ⊢
    rw [List.cons_append, List.cons_append, List.append_assoc, List.singleton_append,
      value?_bracket hfirst, hitems]
    rfl

theorem reads_object {fields : List (String × Json)} (h : ∀ field ∈ fields, Reads field.2) :
    Reads (.object fields) := by
  refine Reads.intro (by simp [chars_object]) fun fuel rest _ hfuel => ?_
  rw [chars_object] at hfuel ⊢
  cases fields with
  | nil => rfl
  | cons field fields =>
    obtain ⟨cs, hcs⟩ := joined_eq_cons (c := '\x22') (closed field.1 ++ ':' :: ' ' :: field.2.chars)
      (fields.map fieldChars)
    simp only [List.length_cons, List.length_append, List.length_nil] at hfuel
    have hfields : fields? fuel (joined ((field :: fields).map fieldChars) ++ '\x7d' :: rest) =
        some (field :: fields, rest) := fields?_joined (by simp) h (by omega)
    rw [List.map_cons, fieldChars, hcs, List.cons_append] at hfields ⊢
    rw [List.cons_append, List.cons_append, List.append_assoc, List.singleton_append,
      value?_brace (by decide), hfields]
    rfl

theorem IsExact.reads (h : IsExact j) : Reads j := by
  induction h with
  | null => exact reads_null
  | bool b => exact reads_bool b
  | int n => exact reads_int n
  | string s => exact reads_string s
  | array he ih => exact reads_array he ih
  | object _ ih => exact reads_object ih

theorem IsExact.parse?_render (h : IsExact j) : parse? j.render = some j := by
  have hread := h.reads (2 * (chars j).length + 2) [] (by rintro _ ⟨⟩) (by omega)
  rw [List.append_nil] at hread
  change (value? (2 * (chars j).length + 2) (chars j)).bind _ = _
  rw [hread]
  rfl

/-! ### What is written -/

theorem isPrintable_joined {texts : List (List Char)}
    (h : ∀ text ∈ texts, ∀ c ∈ text, IsPrintable c) : ∀ c ∈ joined texts, IsPrintable c := by
  induction texts using joined.induct with
  | case1 => simp [joined]
  | case2 last => exact h last (by simp)
  | case3 first next more ih =>
    intro c hc
    simp only [joined, List.mem_append, List.mem_cons] at hc
    rcases hc with hc | rfl | rfl | hc
    · exact h first (by simp) c hc
    · decide
    · decide
    · exact ih (fun text hm => h text (by simp [hm])) c hc

theorem isPrintable_of_isNumberChar (h : isNumberChar c = true) : IsPrintable c := by
  simp only [isNumberChar, Bool.or_eq_true, decide_eq_true_eq] at h
  rcases h with ((((h | rfl) | rfl) | rfl) | rfl) | rfl
  · simp only [Char.isDigit, Bool.and_eq_true, decide_eq_true_eq] at h
    exact ⟨le_trans (by decide) (UInt32.le_iff_toNat_le.1 h.1),
      le_trans (UInt32.le_iff_toNat_le.1 h.2) (by decide)⟩
  all_goals decide

theorem IsExact.isPrintable (h : IsExact j) : ∀ c ∈ chars j, IsPrintable c := by
  induction h with
  | null => simp [IsPrintable]
  | bool b => cases b <;> simp [IsPrintable]
  | int n => exact fun c hc => isPrintable_of_isNumberChar (isNumberChar_chars_int n c hc)
  | string s =>
    intro c hc
    rw [chars_string, List.mem_cons] at hc
    rcases hc with rfl | hc
    · decide
    · exact isPrintable_closed hc
  | @array items _ ih =>
    intro c hc
    have hitems : c ∈ joined (items.map chars) → IsPrintable c :=
      isPrintable_joined (by simpa using ih) c
    simp only [chars_array, List.mem_cons, List.mem_append, List.not_mem_nil, or_false] at hc
    rcases hc with rfl | hc | rfl
    · decide
    · exact hitems hc
    · decide
  | @object fields _ ih =>
    intro c hc
    have hfield : ∀ text ∈ fields.map fieldChars, ∀ c ∈ text, IsPrintable c := by
      intro text htext c hc
      obtain ⟨field, hm, rfl⟩ := List.mem_map.1 htext
      simp only [fieldChars, List.mem_cons, List.mem_append] at hc
      rcases hc with rfl | hc | rfl | rfl | hc
      · decide
      · exact isPrintable_closed hc
      · decide
      · decide
      · exact ih field hm c hc
    have hfields := isPrintable_joined hfield c
    simp only [chars_object, List.mem_cons, List.mem_append, List.not_mem_nil, or_false] at hc
    rcases hc with rfl | hc | rfl
    · decide
    · exact hfields hc
    · decide

end TreeRemoval.Json
