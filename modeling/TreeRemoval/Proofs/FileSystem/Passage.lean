import TreeRemoval.Proofs.FileSystem.Locate

/-! # Passages

A walk along two rows of steps is a walk along the first and then, from where that one led, a walk
along the second with the links that are left. So whatever a path extended by names leads to, it
leads there through the directory that the path leads to.
-/

namespace TreeRemoval.FileSystem

variable {fs fs' small large : FileSystem} {followLast : Bool} {links fewer : Nat}
  {place mid loc : Location} {steps rest : List Step} {name : Name} {p : Path}
  {workingDirectory t : String} {time : Option Float}

theorem reach_of_fewer (h : fs.reach followLast fewer place steps = .ok loc) (hle : fewer ≤ links) :
    fs.reach followLast links place steps = .ok loc := by
  induction links, place, steps using walk_induction generalizing fewer with
  | nil links place => rwa [reach_nil] at h ⊢
  | stay links place rest ih =>
    rw [reach_stay] at h ⊢
    exact ih h hle
  | up links place rest ih =>
    rw [reach_up] at h ⊢
    exact ih h hle
  | enter links place name rest ih ihl =>
    rw [reach_enter] at h ⊢
    split at h
    · cases h
    rename_i ht
    rw [if_neg ht]
    cases hf : fs.formAt? (place ++ [name]) with
    | none => rwa [hf] at h
    | some form =>
      rw [hf] at h
      cases form with
      | file | other => exact h
      | directory => exact ih h hle
      | link target =>
        dsimp only at h ⊢
        split at h
        · rename_i hl
          rwa [if_pos hl]
        rename_i hl
        rw [if_neg hl]
        cases fewer with
        | zero => cases h
        | succ fewer =>
          obtain ⟨links, rfl⟩ : ∃ k, links = k + 1 := ⟨links - 1, by omega⟩
          exact ihl links target rfl h (by omega)

theorem reach_append (h : fs.reach true links place steps = .ok mid)
    (hd : fs.formAt? mid = some .directory) :
    ∃ fewer ≤ links, ∀ followLast rest, rest ≠ [] →
      fs.reach followLast links place (steps ++ rest) = fs.reach followLast fewer mid rest := by
  induction links, place, steps using walk_induction with
  | nil links place =>
    rw [reach_nil] at h
    cases h
    exact ⟨links, Nat.le_refl _, fun _ _ _ => rfl⟩
  | stay links place first ih =>
    rw [reach_stay] at h
    simpa only [List.cons_append, reach_stay] using ih h
  | up links place first ih =>
    rw [reach_up] at h
    simpa only [List.cons_append, reach_up] using ih h
  | enter links place name first ih ihl =>
    rw [reach_enter] at h
    split at h
    · cases h
    rename_i ht
    -- As there is more to walk, no link is the last step, which might stay unfollowed.
    have hmore : ∀ {rest : List Step}, rest ≠ [] → (first ++ rest).isEmpty = false := by
      intro rest hrest
      simp [hrest]
    cases hf : fs.formAt? (place ++ [name]) with
    | none =>
      rw [hf] at h
      dsimp only at h
      split at h
      · cases h
        rw [hf] at hd
        cases hd
      · cases h
    | some form =>
      rw [hf] at h
      cases form with
      | file | other =>
        dsimp only at h
        split at h
        · cases h
          rw [hf] at hd
          cases hd
        · cases h
      | directory =>
        obtain ⟨fewer, hle, hgo⟩ := ih h
        refine ⟨fewer, hle, fun followLast rest hrest => ?_⟩
        rw [List.cons_append, reach_enter, if_neg ht, hf]
        exact hgo followLast rest hrest
      | link target =>
        simp only [Bool.not_true, Bool.and_false, Bool.false_eq_true, if_false] at h
        cases links with
        | zero => cases h
        | succ links =>
          obtain ⟨fewer, hle, hgo⟩ := ihl links target rfl h
          refine ⟨fewer, by omega, fun followLast rest hrest => ?_⟩
          rw [List.cons_append, reach_enter, if_neg ht, hf, hmore hrest]
          simp only [Bool.false_and, Bool.false_eq_true, if_false, reachFollowing]
          rw [← List.append_assoc]
          exact hgo followLast rest hrest

theorem exists_reach_of_append (hd : fs.formAt? place = some .directory) (hrest : rest ≠ [])
    (h : fs.reach followLast links place (steps ++ rest) = .ok loc) :
    ∃ mid, fs.reach true links place steps = .ok mid ∧ fs.formAt? mid = some .directory := by
  induction links, place, steps using walk_induction with
  | nil links place => exact ⟨place, reach_nil, hd⟩
  | stay links place first ih =>
    rw [List.cons_append, reach_stay] at h
    rw [reach_stay]
    exact ih hd h
  | up links place first ih =>
    rw [List.cons_append, reach_up] at h
    rw [reach_up]
    exact ih (formAt?_dropLast hd) h
  | enter links place name first ih ihl =>
    have hmore : (first ++ rest).isEmpty = false := by simp [hrest]
    rw [List.cons_append, reach_enter, hmore] at h
    rw [reach_enter]
    split at h
    · cases h
    rename_i ht
    rw [if_neg ht]
    cases hf : fs.formAt? (place ++ [name]) with
    | none => simp [hf] at h
    | some form =>
      rw [hf] at h
      cases form with
      | file | other => cases h
      | directory => exact ih hf h
      | link target =>
        cases links with
        | zero => cases h
        | succ links =>
          simp only [Bool.false_and, Bool.false_eq_true, if_false, reachFollowing,
            ← List.append_assoc] at h
          simp only [Bool.not_true, Bool.and_false, Bool.false_eq_true, if_false]
          exact ihl links target rfl (formAt?_linkStart hd target) h

theorem formAt?_of_reach_enter (h : fs.reach followLast links place (.enter name :: rest) = .ok loc)
    (hl : fs.formAt? loc ≠ none) : fs.formAt? (place ++ [name]) ≠ none := by
  intro hnone
  rw [reach_enter, hnone] at h
  split at h
  · cases h
  dsimp only at h
  split at h
  · cases h
    exact hl hnone
  · cases h

theorem exists_locate_of_child (ha : p.isAbsolute = true)
    (h : fs.locate true (p.child name) = .ok loc) :
    ∃ mid, fs.locate true p = .ok mid ∧ fs.formAt? mid = some .directory ∧
      fs.reach true linkLimit mid [.enter name] = .ok loc := by
  have hlength := text_le_of_locate h
  have hshorter := Path.utf8ByteSize_text_lt_child ha name
  unfold locate at h
  rw [if_neg (by omega), p.steps_child] at h
  obtain ⟨mid, hmid, hd⟩ := exists_reach_of_append (formAt?_root fs) (List.cons_ne_nil _ _) h
  obtain ⟨fewer, hle, hgo⟩ := reach_append hmid hd
  rw [hgo true _ (List.cons_ne_nil _ _)] at h
  refine ⟨mid, ?_, hd, reach_of_fewer h hle⟩
  rw [locate, if_neg (by omega), hmid]

/-! ### Paths seen from a working directory -/

def approach (workingDirectory : String) (p : Path) : List Step :=
  (if p.anchor = .here then Step.ofPath workingDirectory else []) ++ p.steps

theorem approach_descend (workingDirectory : String) (p : Path) (names : List Name) :
    approach workingDirectory (p.descend names) =
      approach workingDirectory p ++ names.map .enter := by
  rw [approach, approach, p.steps_descend, p.anchor_descend, List.append_assoc]

theorem reach_of_concat_stay (hd : fs.formAt? place = some .directory)
    (h : fs.reach true links place (steps ++ [.stay]) = .ok loc) :
    fs.reach true links place steps = .ok loc := by
  obtain ⟨mid, hmid, hdir⟩ := exists_reach_of_append hd (List.cons_ne_nil _ _) h
  obtain ⟨fewer, -, hgo⟩ := reach_append hmid hdir
  rw [hgo true [.stay] (List.cons_ne_nil _ _), reach_stay, reach_nil] at h
  rw [hmid, h]

theorem reach_of_resolve (hp : p.Proper) {arrival : Arrival}
    (h : fs.resolve workingDirectory followLast p.text = .ok arrival)
    (hf : followLast = true ∨ p.parts ≠ []) :
    fs.reach followLast linkLimit [] (approach workingDirectory p) = .ok arrival.place := by
  unfold resolve at h
  split at h
  · cases h
  split at h
  · cases h
  rw [hp.anchor_ofText_text] at h
  dsimp only at h
  by_cases hsteps : p.parts ≠ [] ∨ p.anchor ≠ .here
  · rw [hp.ofPath_text hsteps] at h
    rw [approach, reach, h]
    rfl
  -- The text of a path without parts that starts from the working directory is a dot.
  · obtain ⟨anchor, parts⟩ := p
    simp only [ne_eq, not_or, not_not] at hsteps
    obtain ⟨rfl, rfl⟩ := hsteps
    obtain rfl := hf.resolve_right (not_not.2 rfl)
    have hdot : Step.ofPath (Path.mk .here []).text = [.stay] := by decide
    rw [hdot] at h
    have hreach : fs.reach true linkLimit []
        ((if Anchor.here = .here then Step.ofPath workingDirectory else []) ++ [.stay]) =
          .ok arrival.place := by
      rw [reach, h]
      rfl
    rw [approach, show Path.steps ⟨.here, []⟩ = [] from rfl, List.append_nil]
    exact reach_of_concat_stay (formAt?_root fs) hreach

/-- A path extended by names that still leads to something leads there through an entry of the
directory that the path led to. -/
theorem exists_entry_of_resolve_descend (hp : p.Proper) (hle : small ≤ large) {arrival : Arrival}
    (hr : large.resolve workingDirectory true p.text = .ok arrival) {names : List Name}
    (hne : names ≠ []) {below : Arrival}
    (hb : small.resolve workingDirectory false (p.descend names).text = .ok below)
    (hthere : small.formAt? below.place ≠ none) :
    ∃ n, small.formAt? (arrival.place ++ [n]) ≠ none := by
  obtain ⟨n, rest, rfl⟩ := List.exists_cons_of_ne_nil hne
  have hparts : (p.descend (n :: rest)).parts ≠ [] := by simp [Path.descend]
  have hbelow := reach_of_resolve (hp.descend _) hb (Or.inr hparts)
  rw [approach_descend, List.map_cons] at hbelow
  obtain ⟨mid, hmid, hdir⟩ :=
    exists_reach_of_append (formAt?_root small) (List.cons_ne_nil _ _) hbelow
  have hsame : large.reach true linkLimit [] (approach workingDirectory p) = .ok mid :=
    reach_mono hle hmid (by rw [hdir]; simp)
  rw [reach_of_resolve hp hr (Or.inl rfl)] at hsame
  cases hsame
  obtain ⟨fewer, -, hgo⟩ := reach_append hmid hdir
  rw [hgo false _ (List.cons_ne_nil _ _)] at hbelow
  exact ⟨n, formAt?_of_reach_enter hbelow hthere⟩

/-- No path that extends another by names can be used to remove the directory that the other led
to: such a path leads to something through an entry of that directory, and what is removed has
nothing below it. -/
theorem Detaches.formAt?_of_descend (hp : p.Proper) (hle : small ≤ large) {arrival : Arrival}
    (hr : large.resolve workingDirectory true p.text = .ok arrival)
    (hd : small.formAt? arrival.place = some .directory) {names : List Name} (hne : names ≠ [])
    (h : small.Detaches workingDirectory time (p.descend names).text fs') :
    fs'.formAt? arrival.place = some .directory := by
  obtain ⟨parent, name, node, hb, hn, hbelow, rfl⟩ := h
  have hthere : small.formAt? (parent ++ [name]) ≠ none := by
    rw [Ne, formAt?_eq_none_iff, hn]
    simp
  rw [formAt?_removeEntry, if_neg, hd]
  rintro ⟨down, hdown⟩
  obtain ⟨n, hentry⟩ := exists_entry_of_resolve_descend hp hle hr hne hb hthere
  cases down with
  | nil =>
    rw [List.append_nil] at hdown
    rw [← hdown, Ne, formAt?_eq_none_iff] at hentry
    exact hentry (hbelow n)
  | cons first down =>
    rw [← hdown, List.append_cons, formAt?, get?_append, hbelow first] at hd
    cases hd

end TreeRemoval.FileSystem
