import Mathlib.Data.List.Induction
import TreeRemoval.FileSystem.Resolve

/-! # Texts of paths

A path whose parts are pieces of a text can be read back from its own text, so that different paths
have different texts. The steps of the text of an absolute path are the steps of its parts.
-/

namespace TreeRemoval

theorem pieces_of_slash_notMem {cs : List Char} (h : '/' ∉ cs) : pieces cs = [cs] := by
  induction cs with
  | nil => rfl
  | cons c cs ih =>
    rw [List.mem_cons, not_or] at h
    have hc : ¬ c = '/' := fun hc => h.1 hc.symm
    simp [pieces, hc, ih h.2]

theorem pieces_append (cs rest : List Char) :
    pieces (cs ++ '/' :: rest) = pieces cs ++ pieces rest := by
  induction cs with
  | nil => simp [pieces]
  | cons c cs ih =>
    by_cases hc : c = '/'
    · simp [pieces, hc, ih]
    · obtain ⟨piece, more, h⟩ := List.exists_cons_of_ne_nil (pieces_ne_nil cs)
      simp [pieces, hc, ih, h]

theorem pieces_intercalate {ls : List (List Char)} (hne : ls ≠ []) (h : ∀ l ∈ ls, '/' ∉ l) :
    pieces (['/'].intercalate ls) = ls := by
  induction ls with
  | nil => exact absurd rfl hne
  | cons l ls ih =>
    have hl : '/' ∉ l := h l List.mem_cons_self
    cases ls with
    | nil => rw [List.intercalate_singleton, pieces_of_slash_notMem hl]
    | cons l' ls =>
      have hrest := ih (by simp) fun m hm => h m (List.mem_cons_of_mem _ hm)
      rw [List.intercalate_cons_cons, List.append_assoc, List.singleton_append, pieces_append,
        pieces_of_slash_notMem hl, hrest, List.singleton_append]

namespace Path

/-- Every part is one that a text can have between its slashes. -/
def Proper (p : Path) : Prop :=
  ∀ part ∈ p.parts, part ≠ "" ∧ part ≠ "." ∧ '/' ∉ part.toList

theorem proper_ofText (t : String) : (ofText t).Proper := by
  intro part hp
  obtain ⟨hp, hd⟩ := List.mem_filter.1 hp
  obtain ⟨piece, hm, rfl⟩ := List.mem_map.1 hp
  have hs := slash_notMem_of_mem_pieces hm
  simp only [ne_eq, Bool.and_eq_true, decide_eq_true_eq] at hd
  exact ⟨hd.1, hd.2, by simpa using hs⟩

theorem parts_ofText_append (s t : String) :
    (ofText (s ++ "/" ++ t)).parts = (ofText s).parts ++ (ofText t).parts := by
  simp [ofText, pieceTexts, pieces_append]

theorem Proper.child {p : Path} (h : p.Proper) (n : Name) : (p.child n).Proper := by
  intro part hp
  rcases List.mem_append.1 hp with hp | hp
  · exact h part hp
  · rw [List.mem_singleton.1 hp]
    exact ⟨n.ne_empty, n.ne_dot, n.no_slash⟩

theorem Proper.under {base p : Path} (hb : base.Proper) (hp : p.Proper) :
    (base.under p).Proper := by
  unfold Path.under
  split
  · exact hp
  · intro part hm
    exact (List.mem_append.1 hm).elim (hb part) (hp part)

theorem isAbsolute_under {base p : Path} (hb : base.isAbsolute = true) :
    (base.under p).isAbsolute = true := by
  unfold Path.under
  split
  · assumption
  · exact hb

theorem Proper.exists_eq_child {p : Path} (hp : p.Proper) (hne : p.parts ≠ [])
    (hlast : p.parts.getLast? ≠ some "..") :
    ∃ base : Path, ∃ name, base.Proper ∧ p = base.child name := by
  obtain ⟨anchor, parts⟩ := p
  obtain ⟨init, last, rfl⟩ := (List.eq_nil_or_concat parts).resolve_left hne
  rw [List.concat_eq_append] at hp hlast ⊢
  obtain ⟨h₁, h₂, h₃⟩ := hp last (by simp)
  rw [List.getLast?_concat, Ne, Option.some_inj] at hlast
  refine ⟨⟨anchor, init⟩, ⟨last, h₁, h₂, hlast, h₃⟩, fun part hm => ?_, rfl⟩
  exact hp part (List.mem_append_left _ hm)

def above (p : Path) : Path := { p with parts := p.parts.dropLast }

@[simp] theorem above_child (p : Path) (n : Name) : (p.child n).above = p := by
  simp [above, child]

def descend (p : Path) (names : List Name) : Path :=
  { p with parts := p.parts ++ names.map Name.text }

@[simp] theorem descend_nil (p : Path) : p.descend [] = p := by
  simp [descend]

@[simp] theorem descend_concat (p : Path) (names : List Name) (n : Name) :
    p.descend (names ++ [n]) = (p.descend names).child n := by
  simp [descend, Path.child]

@[simp] theorem child_descend (p : Path) (n : Name) (names : List Name) :
    (p.child n).descend names = p.descend (n :: names) := by
  simp [descend, Path.child]

@[simp] theorem anchor_descend (p : Path) (names : List Name) :
    (p.descend names).anchor = p.anchor := rfl

@[simp] theorem isAbsolute_descend (p : Path) (names : List Name) :
    (p.descend names).isAbsolute = p.isAbsolute := rfl

@[simp] theorem isAbsolute_child (p : Path) (n : Name) : (p.child n).isAbsolute = p.isAbsolute :=
  rfl

theorem Proper.descend {p : Path} (h : p.Proper) (names : List Name) : (p.descend names).Proper := by
  intro part hp
  rcases List.mem_append.1 hp with hp | hp
  · exact h part hp
  · obtain ⟨n, _, rfl⟩ := List.mem_map.1 hp
    exact ⟨n.ne_empty, n.ne_dot, n.no_slash⟩

theorem Proper.exists_descend {p : Path} (hp : p.Proper) (hdots : ".." ∉ p.parts) :
    ∃ names, p = (Path.mk p.anchor []).descend names := by
  obtain ⟨anchor, parts⟩ := p
  suffices h : ∃ names : List Name, parts = names.map Name.text by
    obtain ⟨names, rfl⟩ := h
    exact ⟨names, by simp [Path.descend]⟩
  induction parts with
  | nil => exact ⟨[], rfl⟩
  | cons part parts ih =>
    obtain ⟨hne, hdot, hslash⟩ := hp part List.mem_cons_self
    obtain ⟨names, rfl⟩ := ih (fun q hq => hp q (List.mem_cons_of_mem _ hq))
      fun hm => hdots (List.mem_cons_of_mem _ hm)
    exact ⟨⟨part, hne, hdot, fun h => hdots (h ▸ List.mem_cons_self), hslash⟩ :: names, rfl⟩

theorem descend_injective (p : Path) {names names' : List Name}
    (h : p.descend names = p.descend names') : names = names' := by
  have hm : names.map Name.text = names'.map Name.text := by
    simpa [Path.descend] using h
  exact (List.map_inj_right fun _ _ => Name.ext).1 hm

def steps (p : Path) : List Step := p.parts.filterMap Step.ofText?

theorem ofText?_name (n : Name) : Step.ofText? n.text = some (.enter n) := by
  simp [Step.ofText?, n.ne_dot, n.ne_dots]

@[simp] theorem steps_child (p : Path) (n : Name) :
    (p.child n).steps = p.steps ++ [.enter n] := by
  simp [steps, ofText?_name]

variable {p q : Path}

theorem toList_text (ha : p.isAbsolute = true) :
    p.text.toList = p.anchor.text.toList ++ ['/'].intercalate (p.parts.map String.toList) := by
  have hs : "/".toList = ['/'] := rfl
  have hne : p.anchor.text ++ "/".intercalate p.parts ≠ "" := by
    intro h
    have := congrArg String.toList h
    cases hp : p.anchor <;> simp_all [isAbsolute, Anchor.text]
  rw [text, if_neg hne, String.toList_append, String.toList_intercalate, hs]

theorem pieceTexts_text (hp : p.Proper) (ha : p.isAbsolute = true) :
    ∃ blanks, (∀ t ∈ blanks, t = "") ∧ pieceTexts p.text = blanks ++ p.parts := by
  have hparts : (p.parts.map String.toList).map String.ofList = p.parts := by simp
  have hslash : ∀ l ∈ p.parts.map String.toList, '/' ∉ l := by
    intro l hl
    obtain ⟨part, hm, rfl⟩ := List.mem_map.1 hl
    exact (hp part hm).2.2
  unfold pieceTexts
  rw [toList_text ha]
  cases hn : p.parts with
  | nil =>
    cases hc : p.anchor with
    | here => simp [isAbsolute, hc] at ha
    | root => exact ⟨["", ""], by simp, by simp [Anchor.text, pieces]⟩
    | doubleRoot => exact ⟨["", "", ""], by simp, by simp [Anchor.text, pieces]⟩
  | cons part parts =>
    rw [hn] at hparts hslash
    have hpieces := pieces_intercalate (by simp) hslash
    cases hc : p.anchor with
    | here => simp [isAbsolute, hc] at ha
    | root =>
      refine ⟨[""], by simp, ?_⟩
      have hl : Anchor.root.text.toList = ['/'] := rfl
      rw [hl, List.singleton_append, pieces, if_pos rfl, hpieces, List.map_cons, hparts]
      rfl
    | doubleRoot =>
      refine ⟨["", ""], by simp, ?_⟩
      have hl : Anchor.doubleRoot.text.toList = ['/', '/'] := rfl
      rw [hl, List.cons_append, List.singleton_append, pieces, if_pos rfl, pieces, if_pos rfl,
        hpieces, List.map_cons, List.map_cons, hparts]
      rfl

theorem ofPath_text (hp : p.Proper) (ha : p.isAbsolute = true) : Step.ofPath p.text = p.steps := by
  obtain ⟨blanks, hb, ht⟩ := pieceTexts_text hp ha
  have hnone : blanks.filterMap Step.ofText? = [] := by
    rw [List.filterMap_eq_nil_iff]
    intro t hm
    rw [hb t hm]
    rfl
  rw [Step.ofPath, ht, List.filterMap_append, hnone, List.nil_append, steps]

theorem ofText_text_anchor (hp : p.Proper) (ha : p.isAbsolute = true) :
    Anchor.ofText p.text = p.anchor := by
  unfold Anchor.ofText
  rw [toList_text ha]
  cases hn : p.parts with
  | nil => cases hc : p.anchor <;> simp_all [isAbsolute, Anchor.text]
  | cons part parts =>
    obtain ⟨hne, -, hs⟩ := hp part (by rw [hn]; exact List.mem_cons_self)
    obtain ⟨c, cs, hc⟩ : ∃ c cs, part.toList = c :: cs :=
      List.exists_cons_of_ne_nil fun h => hne (String.toList_eq_nil_iff.1 h)
    have hslash : c ≠ '/' := by
      rintro rfl
      exact hs (by rw [hc]; exact List.mem_cons_self)
    cases hA : p.anchor with
    | here => simp [isAbsolute, hA] at ha
    | root => cases parts <;> simp [Anchor.text, hc, hslash, List.intercalate_cons_cons]
    | doubleRoot => cases parts <;> simp [Anchor.text, hc, hslash, List.intercalate_cons_cons]

theorem ofText_text (hp : p.Proper) (ha : p.isAbsolute = true) : ofText p.text = p := by
  obtain ⟨blanks, hb, ht⟩ := pieceTexts_text hp ha
  have hblank : blanks.filter (fun piece => piece ≠ "" && piece ≠ ".") = [] := by
    rw [List.filter_eq_nil_iff]
    intro t hm
    simp [hb t hm]
  have hparts : p.parts.filter (fun piece => piece ≠ "" && piece ≠ ".") = p.parts := by
    rw [List.filter_eq_self]
    intro part hm
    simp [(hp part hm).1, (hp part hm).2.1]
  unfold ofText
  rw [ht, List.filter_append, hblank, hparts, ofText_text_anchor hp ha, List.nil_append]

theorem text_injective (hp : p.Proper) (ha : p.isAbsolute = true) (hq : q.Proper)
    (hb : q.isAbsolute = true) (h : p.text = q.text) : p = q := by
  rw [← ofText_text hp ha, h, ofText_text hq hb]

theorem toList_text_here (hp : p.Proper) (ha : p.anchor = .here) (hne : p.parts ≠ []) :
    p.text.toList = ['/'].intercalate (p.parts.map String.toList) := by
  obtain ⟨part, parts, hparts⟩ := List.exists_cons_of_ne_nil hne
  have hpart := (hp part (by rw [hparts]; exact List.mem_cons_self)).1
  have hs : "/".toList = ['/'] := rfl
  have hjoin : p.anchor.text ++ "/".intercalate p.parts ≠ "" := by
    intro h
    have := congrArg String.toList h
    rw [ha, hparts] at this
    cases parts <;> simp_all [Anchor.text]
  rw [text, if_neg hjoin, String.toList_append, String.toList_intercalate, hs, ha]
  simp [Anchor.text]

theorem pieceTexts_text_here (hp : p.Proper) (ha : p.anchor = .here) (hne : p.parts ≠ []) :
    pieceTexts p.text = p.parts := by
  have hslash : ∀ l ∈ p.parts.map String.toList, '/' ∉ l := by
    intro l hl
    obtain ⟨t, hm, rfl⟩ := List.mem_map.1 hl
    exact (hp t hm).2.2
  unfold pieceTexts
  rw [toList_text_here hp ha hne, pieces_intercalate (by simpa using hne) hslash]
  simp

theorem ofText_text_here (hp : p.Proper) (ha : p.anchor = .here) : ofText p.text = p := by
  obtain ⟨anchor, parts⟩ := p
  obtain rfl : anchor = .here := ha
  cases parts with
  | nil => decide
  | cons part parts =>
    have hanchor : Anchor.ofText (Path.mk .here (part :: parts)).text = .here := by
      obtain ⟨hne, -, hs⟩ := hp part List.mem_cons_self
      obtain ⟨c, cs, hc⟩ : ∃ c cs, part.toList = c :: cs :=
        List.exists_cons_of_ne_nil fun h => hne (String.toList_eq_nil_iff.1 h)
      have hcs : c ≠ '/' := by
        rintro rfl
        exact hs (by rw [hc]; exact List.mem_cons_self)
      unfold Anchor.ofText
      rw [toList_text_here hp rfl (by simp)]
      cases parts <;> simp [hc, hcs, List.intercalate_cons_cons]
    have hkeep : (part :: parts).filter (fun piece => piece ≠ "" && piece ≠ ".") = part :: parts := by
      rw [List.filter_eq_self]
      intro t hm
      simp [(hp t hm).1, (hp t hm).2.1]
    rw [ofText, hanchor, pieceTexts_text_here hp rfl (by simp), hkeep]

theorem Proper.ofText_text (hp : p.Proper) : ofText p.text = p := by
  by_cases ha : p.anchor = .here
  · exact ofText_text_here hp ha
  · exact Path.ofText_text hp (by simpa [isAbsolute] using ha)

theorem Proper.text_injective (hp : p.Proper) (hq : q.Proper) (h : p.text = q.text) : p = q := by
  rw [← hp.ofText_text, h, hq.ofText_text]

theorem Proper.anchor_ofText_text (hp : p.Proper) : Anchor.ofText p.text = p.anchor :=
  congrArg Path.anchor hp.ofText_text

theorem Proper.ofPath_text (hp : p.Proper) (hne : p.parts ≠ [] ∨ p.anchor ≠ .here) :
    Step.ofPath p.text = p.steps := by
  by_cases ha : p.anchor = .here
  · rw [Step.ofPath, pieceTexts_text_here hp ha (hne.resolve_right (not_not.2 ha)), steps]
  · exact Path.ofPath_text hp (by simpa [isAbsolute] using ha)

theorem steps_descend (p : Path) (names : List Name) :
    (p.descend names).steps = p.steps ++ names.map .enter := by
  have hstep : Step.ofText? ∘ Name.text = some ∘ Step.enter := funext ofText?_name
  rw [steps, descend, List.filterMap_append, List.filterMap_map, hstep, List.filterMap_eq_map]
  rfl

theorem text_ne_empty (ha : p.isAbsolute = true) : p.text ≠ "" := by
  intro h
  have := congrArg String.toList h
  rw [toList_text ha] at this
  cases hc : p.anchor <;> simp_all [isAbsolute, Anchor.text]

theorem anchor_text_ne_here (hp : p.Proper) (ha : p.isAbsolute = true) :
    Anchor.ofText p.text ≠ .here := by
  rw [ofText_text_anchor hp ha]
  simpa [isAbsolute] using ha

theorem mem_text_descend_iff (ha : p.isAbsolute = true) {c : Char} (hc : c ≠ '/')
    {names : List Name} :
    c ∈ (p.descend names).text.toList ↔ c ∈ p.text.toList ∨ ∃ n ∈ names, c ∈ n.text.toList := by
  have hjoin : ∀ ls : List (List Char), c ∈ ['/'].intercalate ls ↔ ∃ l ∈ ls, c ∈ l := by
    intro ls
    induction ls with
    | nil => simp
    | cons l ls ih =>
      cases ls with
      | nil => simp
      | cons l' ls => simp [List.intercalate_cons_cons, ih, hc]
  rw [toList_text (p := p.descend names) ha, toList_text ha, List.mem_append, List.mem_append, hjoin,
    hjoin, or_assoc]
  simp [Path.descend, or_and_right, exists_or]

theorem utf8ByteSize_text_lt_child (ha : p.isAbsolute = true) (n : Name) :
    p.text.utf8ByteSize < (p.child n).text.utf8ByteSize := by
  have hn : 0 < n.text.utf8ByteSize :=
    Nat.pos_of_ne_zero fun h => n.ne_empty (String.utf8ByteSize_eq_zero_iff.1 h)
  have ht : ∀ q : Path, q.isAbsolute = true → q.text = q.anchor.text ++ "/".intercalate q.parts := by
    intro q hq
    apply String.toList_injective
    rw [toList_text hq, String.toList_append, String.toList_intercalate]
    rfl
  rw [ht p ha, ht _ (by simpa using ha), anchor_child, parts_child]
  simp only [String.utf8ByteSize_append]
  cases hparts : p.parts with
  | nil => simp; omega
  | cons part parts =>
    rw [String.intercalate_append_of_ne_nil (by simp) (by simp)]
    simp only [String.utf8ByteSize_append, String.intercalate_singleton]
    omega

theorem two_mul_length_le_utf8ByteSize_text (p : Path) (names : List Name) :
    2 * names.length ≤ (p.descend names).text.utf8ByteSize + 1 := by
  have hjoin : 2 * names.length ≤
      ("/".intercalate (p.parts ++ names.map Name.text)).utf8ByteSize + 1 := by
    induction names using List.reverseRecOn with
    | nil => simp
    | append_singleton names n ih =>
      have hn : 0 < n.text.utf8ByteSize :=
        Nat.pos_of_ne_zero fun h => n.ne_empty (String.utf8ByteSize_eq_zero_iff.1 h)
      rw [List.map_append, ← List.append_assoc, List.length_append]
      by_cases hne : p.parts ++ names.map Name.text = []
      · obtain rfl : names = [] := List.map_eq_nil_iff.1 (List.append_eq_nil_iff.1 hne).2
        rw [hne]
        simp only [List.length_nil, List.map_cons, List.map_nil, List.nil_append,
          List.length_singleton, String.intercalate_singleton]
        omega
      · have hslash : "/".utf8ByteSize = 1 := rfl
        rw [String.intercalate_append_of_ne_nil hne (by simp)]
        simp only [String.utf8ByteSize_append, List.map_cons, List.map_nil,
          List.length_singleton, String.intercalate_singleton]
        omega
  have htext : ("/".intercalate (p.parts ++ names.map Name.text)).utf8ByteSize ≤
      (p.descend names).text.utf8ByteSize := by
    by_cases h : (p.descend names).anchor.text ++ "/".intercalate (p.descend names).parts = ""
    · have hempty := congrArg String.utf8ByteSize h
      rw [String.utf8ByteSize_append] at hempty
      simp only [descend, String.utf8ByteSize_empty] at hempty
      omega
    · rw [text, if_neg h, String.utf8ByteSize_append]
      exact Nat.le_add_left _ _
  omega

/-! ### Normalised paths -/

@[simp] theorem normalize_child (p : Path) (n : Name) :
    (p.child n).normalize = p.normalize.child n := by
  unfold normalize
  rw [isAbsolute_child, parts_child, List.foldl_append]
  simp [Path.child, push, n.ne_dots]

theorem normalize_descend (p : Path) (names : List Name) :
    (p.descend names).normalize = p.normalize.descend names := by
  induction names generalizing p with
  | nil => simp
  | cons n names ih => rw [← child_descend, ih, normalize_child, child_descend]

theorem mem_foldl_push {absolute : Bool} {parts acc : List String} {part : String}
    (h : part ∈ parts.foldl (push absolute) acc) : part ∈ acc ∨ part ∈ parts := by
  induction parts generalizing acc with
  | nil => exact Or.inl h
  | cons first parts ih =>
    rcases ih h with h | h
    · have hpush : part ∈ acc ∨ part = first := by
        unfold push at h
        split at h
        · exact (List.mem_cons.1 h).symm
        · split at h
          · split at h
            · simp at h
            · exact Or.inr (by simpa using h)
          · split at h
            · exact (List.mem_cons.1 h).symm
            · exact Or.inl (List.mem_cons_of_mem _ h)
      exact hpush.imp_right fun h => by rw [h]; exact List.mem_cons_self
    · exact Or.inr (List.mem_cons_of_mem _ h)

theorem Proper.normalize (hp : p.Proper) : p.normalize.Proper := by
  intro part hm
  rcases mem_foldl_push (List.mem_reverse.1 hm) with h | h
  · simp at h
  · exact hp part h

theorem normalize_descend_text_injective (hp : p.Proper) (ha : p.isAbsolute = true)
    {names names' : List Name}
    (h : (p.descend names).normalize.text = (p.descend names').normalize.text) :
    names = names' := by
  rw [normalize_descend, normalize_descend] at h
  exact p.normalize.descend_injective
    (text_injective (hp.normalize.descend names) ha (hp.normalize.descend names') ha h)

theorem under_descend (base p : Path) (names : List Name) :
    base.under (p.descend names) = (base.under p).descend names := by
  unfold under
  rw [isAbsolute_descend]
  split
  · rfl
  · simp [descend]

theorem absolute_descend (workingDirectory : String) (p : Path) (names : List Name) :
    (p.descend names).absolute workingDirectory = (p.absolute workingDirectory).descend names := by
  unfold absolute
  rw [under_descend, normalize_descend]

theorem Proper.absolute_descend_injective (hp : p.Proper) (workingDirectory : String)
    {names names' : List Name}
    (h : ((p.descend names).absolute workingDirectory).text =
      ((p.descend names').absolute workingDirectory).text) : names = names' := by
  have hproper : ∀ names, ((p.descend names).absolute workingDirectory).Proper := fun names =>
    ((proper_ofText workingDirectory).under (hp.descend names)).normalize
  have he := (hproper names).text_injective (hproper names') h
  rw [absolute_descend, absolute_descend] at he
  exact descend_injective _ he

end Path

end TreeRemoval
