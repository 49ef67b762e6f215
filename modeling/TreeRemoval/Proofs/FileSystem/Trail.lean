import TreeRemoval.Proofs.FileSystem.Locate

/-! # Trails

The places that the resolution of a path meets. Wherever two file systems agree on a trail, the path
leads to the same place in both.
-/

namespace TreeRemoval.FileSystem

variable {fs fs' : FileSystem} {followLast : Bool} {links : Nat} {place loc : Location}
  {steps rest : List Step} {name : Name} {p : Path}

/-- The trail of a walk from a directory; what comes after a link is left to `follow`. -/
def trailWith (fs : FileSystem) (follow : Location → String → List Step → List Location)
    (followLast : Bool) : Location → List Step → List Location
  | place, [] => [place]
  | place, .stay :: rest => trailWith fs follow followLast place rest
  | place, .up :: rest => trailWith fs follow followLast place.dropLast rest
  | place, .enter name :: rest =>
    (place ++ [name]) ::
      match fs.formAt? (place ++ [name]) with
      | some .directory => trailWith fs follow followLast (place ++ [name]) rest
      | some (.link target) =>
        if rest.isEmpty && !followLast then [] else follow place target rest
      | _ => []

/-- The places of the names that a walk enters, and the place where it ends. -/
def trailOf (fs : FileSystem) (followLast : Bool) : Nat → Location → List Step → List Location
  | 0 => trailWith fs (fun _ _ _ => []) followLast
  | links + 1 => trailWith fs (fun place target rest =>
      trailOf fs followLast links (linkStart place target) (Step.ofPath target ++ rest)) followLast

def trail (fs : FileSystem) (followLast : Bool) (p : Path) : List Location :=
  fs.trailOf followLast linkLimit [] p.steps

def trailFollowing (fs : FileSystem) (followLast : Bool) :
    Nat → Location → String → List Step → List Location
  | 0, _, _, _ => []
  | links + 1, place, target, rest =>
    fs.trailOf followLast links (linkStart place target) (Step.ofPath target ++ rest)

theorem trailOf_eq : fs.trailOf followLast links place steps =
    fs.trailWith (fs.trailFollowing followLast links) followLast place steps := by
  cases links <;> rfl

theorem trailOf_nil : fs.trailOf followLast links place [] = [place] := by
  rw [trailOf_eq]; rfl

theorem trailOf_stay : fs.trailOf followLast links place (.stay :: rest) =
    fs.trailOf followLast links place rest := by
  rw [trailOf_eq, trailOf_eq]; rfl

theorem trailOf_up : fs.trailOf followLast links place (.up :: rest) =
    fs.trailOf followLast links place.dropLast rest := by
  rw [trailOf_eq, trailOf_eq]; rfl

theorem trailOf_enter : fs.trailOf followLast links place (.enter name :: rest) =
    (place ++ [name]) ::
      match fs.formAt? (place ++ [name]) with
      | some .directory => fs.trailOf followLast links (place ++ [name]) rest
      | some (.link target) =>
        if rest.isEmpty && !followLast then []
        else fs.trailFollowing followLast links place target rest
      | _ => [] := by
  rw [trailOf_eq, trailOf_eq]; rfl

theorem reach_of_trailOf
    (h : ∀ loc ∈ fs.trailOf followLast links place steps, fs'.formAt? loc = fs.formAt? loc) :
    fs'.reach followLast links place steps = fs.reach followLast links place steps := by
  induction links, place, steps using walk_induction with
  | nil links place => rw [reach_nil, reach_nil]
  | stay links place rest ih =>
    rw [trailOf_stay] at h
    rw [reach_stay, reach_stay, ih h]
  | up links place rest ih =>
    rw [trailOf_up] at h
    rw [reach_up, reach_up, ih h]
  | enter links place name rest ih ihl =>
    rw [trailOf_enter] at h
    have hname := h _ List.mem_cons_self
    rw [reach_enter, reach_enter, hname]
    split
    · rfl
    · cases hf : fs.formAt? (place ++ [name]) with
      | none => rfl
      | some form =>
        rw [hf] at h
        cases form with
        | file | other => rfl
        | directory => exact ih fun loc hl => h loc (List.mem_cons_of_mem _ hl)
        | link target =>
          simp only
          by_cases hl : (rest.isEmpty && !followLast) = true
          · rw [if_pos hl, if_pos hl]
          · rw [if_neg hl, if_neg hl]
            simp only [if_neg hl] at h
            cases links with
            | zero => rfl
            | succ links =>
              exact ihl links target rfl fun loc hl => h loc (List.mem_cons_of_mem _ hl)

theorem mem_trailOf_of_reach (h : fs.reach followLast links place steps = .ok loc) :
    loc ∈ fs.trailOf followLast links place steps := by
  induction links, place, steps using walk_induction with
  | nil links place =>
    rw [reach_nil] at h
    cases h
    rw [trailOf_nil]
    exact List.mem_cons_self
  | stay links place rest ih =>
    rw [trailOf_stay]
    exact ih (reach_stay ▸ h)
  | up links place rest ih =>
    rw [trailOf_up]
    exact ih (reach_up ▸ h)
  | enter links place name rest ih ihl =>
    rw [reach_enter] at h
    rw [trailOf_enter]
    split at h
    · cases h
    · cases hf : fs.formAt? (place ++ [name]) with
      | none =>
        simp only [hf] at h
        split at h <;> cases h
        exact List.mem_cons_self
      | some form =>
        rw [hf] at h
        cases form with
        | file | other =>
          simp only at h
          split at h <;> cases h
          exact List.mem_cons_self
        | directory => exact List.mem_cons_of_mem _ (ih h)
        | link target =>
          simp only at h
          by_cases hl : (rest.isEmpty && !followLast) = true
          · rw [if_pos hl] at h
            cases h
            exact List.mem_cons_self
          · rw [if_neg hl] at h
            apply List.mem_cons_of_mem _
            simp only [if_neg hl]
            cases links with
            | zero => cases h
            | succ links => exact ihl links target rfl h

theorem trailOf_of_le (hle : fs' ≤ fs) (h : fs'.reach followLast links place steps = .ok loc)
    (hl : fs'.formAt? loc ≠ none) :
    fs'.trailOf followLast links place steps = fs.trailOf followLast links place steps := by
  induction links, place, steps using walk_induction with
  | nil links place => rw [trailOf_nil, trailOf_nil]
  | stay links place rest ih =>
    rw [trailOf_stay, trailOf_stay]
    exact ih (reach_stay ▸ h)
  | up links place rest ih =>
    rw [trailOf_up, trailOf_up]
    exact ih (reach_up ▸ h)
  | enter links place name rest ih ihl =>
    rw [reach_enter] at h
    rw [trailOf_enter, trailOf_enter]
    split at h
    · cases h
    · cases hf : fs'.formAt? (place ++ [name]) with
      | none =>
        simp only [hf] at h
        split at h <;> cases h
        exact absurd hf hl
      | some form =>
        rw [hle _ _ hf]
        rw [hf] at h
        cases form with
        | file | other => rfl
        | directory => exact congrArg _ (ih h)
        | link target =>
          simp only at h ⊢
          by_cases hr : (rest.isEmpty && !followLast) = true
          · rw [if_pos hr, if_pos hr]
          · rw [if_neg hr] at h
            rw [if_neg hr, if_neg hr]
            cases links with
            | zero => rfl
            | succ links => exact congrArg _ (ihl links target rfl h)

theorem trail_of_le (hle : fs' ≤ fs) (h : fs'.locate followLast p = .ok loc)
    (hl : fs'.formAt? loc ≠ none) : fs'.trail followLast p = fs.trail followLast p := by
  unfold locate at h
  split at h
  · cases h
  · exact trailOf_of_le hle h hl

theorem locate_of_trail (h : ∀ loc ∈ fs.trail followLast p, fs'.formAt? loc = fs.formAt? loc) :
    fs'.locate followLast p = fs.locate followLast p := by
  unfold locate
  rw [reach_of_trailOf h]

theorem mem_trail_of_locate (h : fs.locate followLast p = .ok loc) : loc ∈ fs.trail followLast p := by
  unfold locate at h
  split at h
  · cases h
  · exact mem_trailOf_of_reach h

theorem exists_child_of_way (hp : p.Proper) (hl : fs.locate false p = .ok place)
    (hway : ∀ loc ∈ fs.trail true p.above, ¬ place <+: loc) :
    ∃ base : Path, ∃ n, base.Proper ∧ p = base.child n := by
  have hr : fs.reach false linkLimit [] p.steps = .ok place := by
    unfold locate at hl
    split at hl
    · cases hl
    · exact hl
  obtain ⟨anchor, parts⟩ := p
  refine hp.exists_eq_child ?_ ?_
  · rintro rfl
    obtain rfl : [] = place := Except.ok.inj (reach_nil.symm.trans hr)
    exact hway [] (mem_trailOf_of_reach reach_nil) List.prefix_rfl
  · intro hlast
    obtain ⟨front, rfl⟩ := List.getLast?_eq_some_iff.1 hlast
    have hsteps :
        (Path.mk anchor (front ++ [".."])).steps = (Path.mk anchor front).steps ++ [.up] := by
      simp [Path.steps, List.filterMap_append, Step.ofText?]
    rw [hsteps] at hr
    obtain ⟨below, hbelow, rfl⟩ := reach_concat_up hr
    refine hway below ?_ (List.dropLast_prefix below)
    unfold Path.above
    rw [List.dropLast_concat]
    exact mem_trailOf_of_reach hbelow

end TreeRemoval.FileSystem
