import TreeRemoval.Proofs.FileSystem.Resolution

/-! # Losses

One file system comes from another by the removal of entries, one after the other, each when nothing
is below it. What is at a place afterwards depends on which places were lost, not on their order.
-/

namespace TreeRemoval

namespace Node

def dated (time : Option Float) (node : Node) : Node := node.setModified (time.getD node.modified)

@[simp] theorem form_dated (time : Option Float) (node : Node) :
    (node.dated time).form = node.form :=
  form_setModified _ node

theorem dated_dated (time : Option Float) (node : Node) :
    (node.dated time).dated time = node.dated time := by
  cases time <;> cases node <;> rfl

variable {place loc : Location} {node old new : Node}

theorem get?_remove_of_off (h : ¬ place <+: loc) (h' : ¬ loc <+: place) (node : Node) :
    get? loc (remove place node) = get? loc node := by
  fun_induction remove place node generalizing loc with
  | case1 => exact absurd List.nil_prefix h
  | case2 name m es =>
    cases loc with
    | nil => exact absurd List.nil_prefix h'
    | cons n loc =>
      have hn : n ≠ name := by
        rintro rfl
        exact h (List.prefix_append [n] loc)
      rw [get?_directory, get?_directory, lookup_without, if_neg hn]
  | case3 name rest m es hr child hl ih =>
    cases loc with
    | nil => exact absurd List.nil_prefix h'
    | cons n loc =>
      rw [get?_directory, get?_directory, lookup_withEntry]
      by_cases hn : n = name
      · subst hn
        rw [if_pos rfl, hl]
        exact ih (fun hp => h (List.cons_prefix_cons.2 ⟨rfl, hp⟩))
          fun hp => h' (List.cons_prefix_cons.2 ⟨rfl, hp⟩)
      · rw [if_neg hn]
  | case4 | case5 => rfl

theorem get?_put_of_not_above (hg : get? place node = some old)
    (hs : ∀ rest, rest ≠ [] → get? rest new = get? rest old) (h : ¬ loc <+: place) :
    get? loc (put new place node) = get? loc node := by
  induction place generalizing node loc with
  | nil =>
    obtain rfl : node = old := by simpa using hg
    exact hs loc (by rintro rfl; exact h List.nil_prefix)
  | cons name place ih =>
    cases node with
    | file | other | link => cases hg
    | directory m es =>
      obtain ⟨child, hc, hg'⟩ := Option.bind_eq_some_iff.1 hg
      cases loc with
      | nil => exact absurd List.nil_prefix h
      | cons n loc =>
        simp only [put, get?_directory, lookup_withEntry, hc, Option.getD_some]
        by_cases hn : n = name
        · subst hn
          rw [if_pos rfl, hc]
          exact ih hg' fun hp => h (List.cons_prefix_cons.2 ⟨rfl, hp⟩)
        · rw [if_neg hn]

theorem get?_setModified (m : Float) (node : Node) {rest : Location} (hr : rest ≠ []) :
    get? rest (node.setModified m) = get? rest node := by
  cases rest with
  | nil => exact absurd rfl hr
  | cons => cases node <;> rfl

end Node

namespace FileSystem

variable {fs fs' fs'' : FileSystem} {time : Option Float} {parent place loc : Location} {name : Name}
  {gone gone' : List Location}

theorem get?_touch_of_not_above (time : Option Float) (h : ¬ loc <+: place) :
    (fs.touch time place).get? loc = fs.get? loc := by
  cases time with
  | none => rfl
  | some time =>
    change (fs.setModified place time).get? loc = fs.get? loc
    unfold setModified
    split
    · exact Node.get?_setModified time fs.root fun hl => h (hl ▸ List.nil_prefix)
    · rename_i hp
      split
      · rename_i node hn
        unfold put
        rw [dif_neg hp]
        exact Node.get?_put_of_not_above hn (fun rest hr => Node.get?_setModified time node hr) h
      · rfl

theorem get?_removeEntry_of_off (time : Option Float) (h : ¬ parent ++ [name] <+: loc)
    (h' : ¬ loc <+: parent ++ [name]) : (fs.removeEntry time parent name).get? loc = fs.get? loc := by
  unfold removeEntry
  rw [get?_touch_of_not_above time fun hp => h' (hp.trans (List.prefix_append _ _))]
  exact Node.get?_remove_of_off h h' fs.root

theorem bareAt?_removeEntry (time : Option Float) (parent : Location) (name : Name)
    (loc : Location) :
    (fs.removeEntry time parent name).bareAt? loc =
      if parent ++ [name] <+: loc then none
      else if loc = parent then (fs.bareAt? loc).map (Node.dated time) else fs.bareAt? loc := by
  unfold removeEntry
  rw [bareAt?_touch, bareAt?_remove (by simp)]
  by_cases hp : parent ++ [name] <+: loc
  · simp [hp]
  · rw [if_neg hp, if_neg hp]
    rfl

/-- Some nodes are gone, and the directories that held them are dated. Everything else is as before;
what lies off the way to the lost places keeps the order of its entries, too. -/
structure Loses (fs : FileSystem) (time : Option Float) (gone : List Location)
    (fs' : FileSystem) : Prop where
  bareAt? : ∀ loc, fs'.bareAt? loc =
    if loc ∈ gone then none
    else if loc ∈ gone.map List.dropLast then (fs.bareAt? loc).map (Node.dated time)
    else fs.bareAt? loc
  get?_of_off : ∀ {loc}, (∀ place ∈ gone, ¬ place <+: loc ∧ ¬ loc <+: place) →
    fs'.get? loc = fs.get? loc

def LosesTree (fs : FileSystem) (time : Option Float) (place : Location) (fs' : FileSystem) : Prop :=
  ∀ loc, fs'.bareAt? loc =
    if place <+: loc then none
    else if loc = place.dropLast then (fs.bareAt? loc).map (Node.dated time)
    else fs.bareAt? loc

namespace Loses

theorem refl (fs : FileSystem) (time : Option Float) : fs.Loses time [] fs :=
  ⟨fun _ => rfl, fun _ => rfl⟩

theorem removeEntry (h : ∀ n, fs.get? (parent ++ [name] ++ [n]) = none) (time : Option Float) :
    fs.Loses time [parent ++ [name]] (fs.removeEntry time parent name) := by
  constructor
  · intro loc
    rw [bareAt?_removeEntry]
    simp only [List.mem_singleton, List.map_cons, List.map_nil, List.dropLast_concat]
    by_cases hp : parent ++ [name] <+: loc
    · rw [if_pos hp]
      obtain ⟨rest, rfl⟩ := hp
      cases rest with
      | nil => simp
      | cons n rest =>
        have hne : parent ++ [name] ++ n :: rest ≠ parent := fun he => by
          have := congrArg List.length he
          simp at this
        have hbelow : fs.get? (parent ++ [name] ++ n :: rest) = none := by
          rw [List.append_cons, get?_append, h n]
          rfl
        rw [if_neg (by simp), if_neg hne, bareAt?_eq_none_iff.2 hbelow]
    · have hne : loc ≠ parent ++ [name] := by
        rintro rfl
        exact hp List.prefix_rfl
      rw [if_neg hp, if_neg hne]
  · intro loc hoff
    obtain ⟨h₁, h₂⟩ := hoff _ List.mem_cons_self
    exact get?_removeEntry_of_off time h₁ h₂

theorem trans (h : fs.Loses time gone fs') (h' : fs'.Loses time gone' fs'') :
    fs.Loses time (gone ++ gone') fs'' := by
  constructor
  · intro loc
    rw [h'.bareAt?, h.bareAt?, List.map_append]
    simp only [List.mem_append]
    by_cases hg : loc ∈ gone <;> by_cases hg' : loc ∈ gone' <;>
      by_cases hd : loc ∈ gone.map List.dropLast <;>
      by_cases hd' : loc ∈ gone'.map List.dropLast <;>
      simp [hg, hg', hd, hd', Function.comp_def, Node.dated_dated]
  · intro loc hoff
    rw [h'.get?_of_off fun place hp => hoff place (List.mem_append_right _ hp),
      h.get?_of_off fun place hp => hoff place (List.mem_append_left _ hp)]

variable (h : fs.Loses time gone fs')

include h

theorem formAt? (loc : Location) :
    fs'.formAt? loc = if loc ∈ gone then none else fs.formAt? loc := by
  rw [formAt?_eq, h.bareAt?, formAt?_eq]
  split
  · rfl
  · split
    · simp [Function.comp_def]
    · rfl

theorem get?_eq_none_iff : fs'.get? loc = none ↔ loc ∈ gone ∨ fs.get? loc = none := by
  rw [← formAt?_eq_none_iff, h.formAt?, ← formAt?_eq_none_iff]
  split
  · rename_i hg
    simp [hg]
  · rename_i hg
    simp [hg]

theorem le : fs' ≤ fs := by
  intro place form hf
  rw [h.formAt?] at hf
  split at hf
  · cases hf
  · exact hf

theorem tree (htop : place ∈ gone) (hbelow : ∀ loc ∈ gone, place <+: loc) :
    fs.LosesTree time place fs' := by
  intro loc
  by_cases hp : place <+: loc
  · obtain ⟨rest, rfl⟩ := hp
    rw [if_pos (List.prefix_append _ _), bareAt?_eq_none_iff, get?_append,
      h.get?_eq_none_iff.2 (Or.inl htop)]
    rfl
  rw [if_neg hp, h.bareAt?, if_neg fun hg => hp (hbelow loc hg)]
  have hparent : loc ∈ gone.map List.dropLast ↔ loc = place.dropLast := by
    rw [List.mem_map]
    constructor
    · rintro ⟨_, hg, rfl⟩
      obtain ⟨rest, rfl⟩ := hbelow _ hg
      rcases List.eq_nil_or_concat rest with rfl | ⟨rest, n, rfl⟩
      · rw [List.append_nil]
      · rw [List.concat_eq_append, ← List.append_assoc, List.dropLast_concat] at hp
        exact absurd (List.prefix_append _ _) hp
    · rintro rfl
      exact ⟨place, htop, rfl⟩
  simp only [hparent]

end Loses

end FileSystem

end TreeRemoval
