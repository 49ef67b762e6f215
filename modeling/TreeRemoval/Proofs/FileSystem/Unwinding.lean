import TreeRemoval.Proofs.FileSystem.Trail

/-! # Unwinding links

How the pieces of a text lead to a place when every link is replaced by what its target leads to.
This is a walk seen as a tree instead of a run: the target of a link is unwound by itself, before
the pieces after the link.
-/

namespace TreeRemoval

def Location.path (place : Location) : Path := ⟨.root, place.map Name.text⟩

namespace Location

variable {place : Location}

@[simp] theorem isAbsolute_path : place.path.isAbsolute = true := rfl

theorem path_eq_descend (place : Location) : place.path = (path []).descend place := rfl

theorem proper_path : place.path.Proper := by
  rw [path_eq_descend]
  exact Path.Proper.descend (by simp [Path.Proper, path]) place

theorem path_injective {place place' : Location} (h : place.path = place'.path) :
    place = place' :=
  Path.descend_injective (path []) h

end Location

namespace FileSystem

variable {fs : FileSystem} {P : Location → Prop} {links k k' : Nat} {place loc loc' mid : Location}
  {pieces : List String} {p : Path}

/-- From a place, pieces of a text lead to a place, and so many links are followed altogether. Each
of them is found by a look at its own place, and `P` holds of all places that are entered. -/
inductive Unwinds (fs : FileSystem) (P : Location → Prop) :
    Nat → Location → List String → Location → Prop
  | nil {place : Location} : Unwinds fs P 0 place [] place
  | skip {k : Nat} {place loc : Location} {piece : String} {rest : List String}
      (hp : Step.ofText? piece = none ∨ Step.ofText? piece = some .stay)
      (h : Unwinds fs P k place rest loc) : Unwinds fs P k place (piece :: rest) loc
  | up {k : Nat} {place loc : Location} {piece : String} {rest : List String}
      (hp : Step.ofText? piece = some .up) (h : Unwinds fs P k place.dropLast rest loc) :
      Unwinds fs P k place (piece :: rest) loc
  | enter {k : Nat} {place loc : Location} {piece : String} {rest : List String} {n : Name}
      {form : Form} (hp : Step.ofText? piece = some (.enter n)) (hP : P (place ++ [n]))
      (hf : fs.formAt? (place ++ [n]) = some form) (hn : ∀ target, form ≠ .link target)
      (h : Unwinds fs P k (place ++ [n]) rest loc) : Unwinds fs P k place (piece :: rest) loc
  | follow {j k : Nat} {place mid loc : Location} {piece : String} {rest : List String} {n : Name}
      {target : String} (hp : Step.ofText? piece = some (.enter n)) (hP : P (place ++ [n]))
      (hf : fs.formAt? (place ++ [n]) = some (.link target))
      (hv : fs.locate false (Location.path (place ++ [n])) = .ok (place ++ [n]))
      (h : Unwinds fs P j (linkStart place target) (pieceTexts target) mid)
      (h' : Unwinds fs P k mid rest loc) : Unwinds fs P (j + 1 + k) place (piece :: rest) loc

namespace Unwinds

theorem unique (h : fs.Unwinds P k place pieces loc) (h' : fs.Unwinds P k' place pieces loc') :
    k = k' ∧ loc = loc' := by
  induction h generalizing k' loc' with
  | nil => cases h'; exact ⟨rfl, rfl⟩
  | skip hp _ ih =>
    cases h' with
    | skip _ h' => exact ih h'
    | up hp' | enter hp' | follow hp' => simp [hp'] at hp
  | up hp _ ih =>
    cases h' with
    | up _ h' => exact ih h'
    | skip hp' | enter hp' | follow hp' => simp [hp] at hp'
  | enter hp _ hf hn _ ih =>
    cases h' with
    | skip hp' | up hp' => simp [hp] at hp'
    | enter hp' _ hf' hn' h' =>
      rw [hp] at hp'
      cases hp'
      exact ih h'
    | follow hp' _ hf' =>
      rw [hp] at hp'
      cases hp'
      rw [hf] at hf'
      cases hf'
      exact absurd rfl (hn _)
  | follow hp _ hf _ _ _ ih ih' =>
    cases h' with
    | skip hp' | up hp' => simp [hp] at hp'
    | enter hp' _ hf' hn' =>
      rw [hp] at hp'
      cases hp'
      rw [hf] at hf'
      cases hf'
      exact absurd rfl (hn' _)
    | follow hp' _ hf' _ h h' =>
      rw [hp] at hp'
      cases hp'
      rw [hf] at hf'
      cases hf'
      obtain ⟨rfl, rfl⟩ := ih h
      obtain ⟨rfl, rfl⟩ := ih' h'
      exact ⟨rfl, rfl⟩

theorem split {front back : List String} (h : fs.Unwinds P k place (front ++ back) loc) :
    ∃ i j mid, fs.Unwinds P i place front mid ∧ fs.Unwinds P j mid back loc ∧ k = i + j := by
  generalize hp : front ++ back = pieces at h
  induction h generalizing front with
  | nil =>
    obtain ⟨rfl, rfl⟩ := List.append_eq_nil_iff.1 hp
    exact ⟨0, 0, _, .nil, .nil, rfl⟩
  | skip hs h ih =>
    rcases List.append_eq_cons_iff.1 hp with ⟨rfl, rfl⟩ | ⟨rest, rfl, hrest⟩
    · exact ⟨0, _, _, .nil, .skip hs h, (Nat.zero_add _).symm⟩
    · obtain ⟨i, j, mid, hi, hj, hk⟩ := ih hrest.symm
      exact ⟨i, j, mid, .skip hs hi, hj, hk⟩
  | up hu h ih =>
    rcases List.append_eq_cons_iff.1 hp with ⟨rfl, rfl⟩ | ⟨rest, rfl, hrest⟩
    · exact ⟨0, _, _, .nil, .up hu h, (Nat.zero_add _).symm⟩
    · obtain ⟨i, j, mid, hi, hj, hk⟩ := ih hrest.symm
      exact ⟨i, j, mid, .up hu hi, hj, hk⟩
  | enter he hP hf hn h ih =>
    rcases List.append_eq_cons_iff.1 hp with ⟨rfl, rfl⟩ | ⟨rest, rfl, hrest⟩
    · exact ⟨0, _, _, .nil, .enter he hP hf hn h, (Nat.zero_add _).symm⟩
    · obtain ⟨i, j, mid, hi, hj, hk⟩ := ih hrest.symm
      exact ⟨i, j, mid, .enter he hP hf hn hi, hj, hk⟩
  | follow he hP hf hv h h' _ ih =>
    rcases List.append_eq_cons_iff.1 hp with ⟨rfl, rfl⟩ | ⟨rest, rfl, hrest⟩
    · exact ⟨0, _, _, .nil, .follow he hP hf hv h h', (Nat.zero_add _).symm⟩
    · obtain ⟨i, j, mid, hi, hj, hk⟩ := ih hrest.symm
      exact ⟨_, j, mid, .follow he hP hf hv h hi, hj, by omega⟩

theorem of_blanks {blanks rest : List String} (hb : ∀ piece ∈ blanks, Step.ofText? piece = none)
    (h : fs.Unwinds P k place rest loc) : fs.Unwinds P k place (blanks ++ rest) loc := by
  induction blanks with
  | nil => exact h
  | cons piece blanks ih =>
    exact .skip (Or.inl (hb piece List.mem_cons_self))
      (ih fun piece hm => hb piece (List.mem_cons_of_mem _ hm))

theorem of_stepless (hs : pieces.filterMap Step.ofText? = []) (place : Location) :
    fs.Unwinds P 0 place pieces place := by
  rw [← List.append_nil pieces]
  exact of_blanks (List.filterMap_eq_nil_iff.1 hs) .nil

end Unwinds

/-- Links on the way of a path have places whose texts are not too long for a look. -/
def ShowsLinks (fs : FileSystem) (p : Path) : Prop :=
  ∀ loc ∈ fs.trail true p, ∀ target, fs.formAt? loc = some (.link target) →
    loc.path.text.utf8ByteSize ≤ maxPathBytes

theorem locate_path_root : fs.locate false (Location.path []) = .ok [] := by
  unfold locate
  rw [if_neg (by decide)]
  exact reach_nil

theorem locate_path (hn : fs.get? place ≠ none) (hnames : ∀ n ∈ place, n.isTooLong = false)
    (hb : place.path.text.utf8ByteSize ≤ maxPathBytes) :
    fs.locate false place.path = .ok place := by
  rw [Location.path_eq_descend] at hb ⊢
  exact locate_descend (p := Location.path []) rfl locate_path_root hn hnames hb

/-- A walk that leads to something unwinds all links that it follows. -/
theorem unwinds_of_reach {steps : List Step} (hs : pieces.filterMap Step.ofText? = steps)
    (hr : fs.reach true links place steps = .ok loc) (hl : fs.formAt? loc ≠ none)
    (hnames : ∀ n ∈ place, n.isTooLong = false)
    (hshort : ∀ l ∈ fs.trailOf true links place steps, ∀ target,
      fs.formAt? l = some (.link target) → l.path.text.utf8ByteSize ≤ maxPathBytes)
    (hP : ∀ l ∈ fs.trailOf true links place steps, P l) :
    ∃ k ≤ links, fs.Unwinds P k place pieces loc := by
  induction links, place, steps using walk_induction generalizing pieces with
  | nil links place =>
    rw [reach_nil] at hr
    cases hr
    exact ⟨0, Nat.zero_le _, .of_stepless hs _⟩
  | stay links place rest ih =>
    obtain ⟨blanks, piece, tail, rfl, hb, hp, hs⟩ := List.filterMap_eq_cons_iff.1 hs
    rw [reach_stay] at hr
    rw [trailOf_stay] at hshort hP
    obtain ⟨k, hk, h⟩ := ih hs hr hnames hshort hP
    exact ⟨k, hk, .of_blanks hb (.skip (Or.inr hp) h)⟩
  | up links place rest ih =>
    obtain ⟨blanks, piece, tail, rfl, hb, hp, hs⟩ := List.filterMap_eq_cons_iff.1 hs
    rw [reach_up] at hr
    rw [trailOf_up] at hshort hP
    obtain ⟨k, hk, h⟩ := ih hs hr (fun n hn => hnames n (List.dropLast_subset _ hn)) hshort hP
    exact ⟨k, hk, .of_blanks hb (.up hp h)⟩
  | enter links place name rest ih ihl =>
    obtain ⟨blanks, piece, tail, rfl, hb, hp, hs⟩ := List.filterMap_eq_cons_iff.1 hs
    rw [reach_enter] at hr
    rw [trailOf_enter] at hshort hP
    have hhere := hP _ List.mem_cons_self
    split at hr
    · cases hr
    rename_i hlong
    have hnames' : ∀ n ∈ place ++ [name], n.isTooLong = false := by
      intro n hn
      rcases List.mem_append.1 hn with hn | hn
      · exact hnames n hn
      · rw [List.mem_singleton.1 hn]
        simpa using hlong
    cases hf : fs.formAt? (place ++ [name]) with
    | none =>
      simp only [hf] at hr
      split at hr <;> cases hr
      exact absurd hf hl
    | some form =>
      rw [hf] at hr hshort hP
      cases form with
      | file | other =>
        simp only at hr
        split at hr
        · rename_i hrest
          cases hr
          rw [List.isEmpty_iff.1 hrest] at hs
          exact ⟨0, Nat.zero_le _,
            .of_blanks hb (.enter hp hhere hf (by simp) (.of_stepless hs _))⟩
        · cases hr
      | directory =>
        obtain ⟨k, hk, h⟩ := ih hs hr hnames' (fun l hm => hshort l (List.mem_cons_of_mem _ hm))
          fun l hm => hP l (List.mem_cons_of_mem _ hm)
        exact ⟨k, hk, .of_blanks hb (.enter hp hhere hf (by simp) h)⟩
      | link target =>
        simp only [Bool.not_true, Bool.and_false, Bool.false_eq_true, if_false] at hr hshort hP
        cases links with
        | zero => cases hr
        | succ links =>
          have hstart : ∀ n ∈ linkStart place target, n.isTooLong = false := by
            unfold linkStart
            split
            · exact hnames
            · simp
          -- One hypothesis covers the pieces of the target and those after the link; what it
          -- gives is cut again where the target ends.
          have hpieces : (pieceTexts target ++ tail).filterMap Step.ofText? =
              Step.ofPath target ++ rest := by
            rw [List.filterMap_append, hs]
            rfl
          obtain ⟨m, hm, h⟩ := ihl links target rfl hpieces hr hstart
            (fun l hm => hshort l (List.mem_cons_of_mem _ hm))
            fun l hm => hP l (List.mem_cons_of_mem _ hm)
          obtain ⟨i, j, mid, hi, hj, rfl⟩ := h.split
          have hthere : fs.get? (place ++ [name]) ≠ none := by
            rw [Ne, ← formAt?_eq_none_iff, hf]
            simp
          have hvisible := locate_path hthere hnames' (hshort _ List.mem_cons_self target hf)
          exact ⟨i + 1 + j, by omega, .of_blanks hb (.follow hp hhere hf hvisible hi hj)⟩

theorem unwinds_of_locate (hp : p.Proper) (ha : p.isAbsolute = true)
    (h : fs.locate true p = .ok loc) (hl : fs.formAt? loc ≠ none) (hs : fs.ShowsLinks p) :
    ∃ k ≤ linkLimit, fs.Unwinds (· ∈ fs.trail true p) k [] (pieceTexts p.text) loc := by
  unfold locate at h
  split at h
  · cases h
  · exact unwinds_of_reach (Path.ofPath_text hp ha) h hl (by simp) hs fun _ hm => hm

theorem locate_path_eq (hn : fs.get? place ≠ none) (h : fs.locate false place.path = .ok loc) :
    loc = place := by
  refine locate_descend_eq (p := Location.path []) rfl locate_path_root ?_ h
  rintro front back hne rfl target hlink
  rw [List.nil_append, formAt?_of_append hne hn] at hlink
  cases hlink

end FileSystem

end TreeRemoval
