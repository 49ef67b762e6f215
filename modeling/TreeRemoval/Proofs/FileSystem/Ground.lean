import TreeRemoval.Proofs.FileSystem.Trail
import TreeRemoval.World.Basic

/-! # Grounds

A place to which the way down meets directories, and then nothing at all. A path leads there by its
names alone, since no link or other node is in between, and a directory can be put there together
with the missing ones above it.
-/

namespace TreeRemoval

theorem Path.ofText_eq_descend {t : String} (hdots : ".." ∉ (Path.ofText t).parts) :
    Path.ofText t = (Path.mk (Path.ofText t).anchor []).descend (Location.ofText t) := by
  obtain ⟨names, hnames⟩ := (Path.proper_ofText t).exists_descend hdots
  have hplace : Location.ofText t = names := by
    unfold Location.ofText
    rw [hnames, Path.normalize_descend]
    change (names.map Name.text).filterMap Name.ofText? = names
    have hname : Name.ofText? ∘ Name.text = some := funext Name.ofText?_text
    rw [List.filterMap_map, hname, List.filterMap_some]
  rw [hplace]
  exact hnames

theorem Path.normalize_names (anchor : Anchor) (names : List Name) :
    ((Path.mk anchor []).descend names).normalize = (Path.mk anchor []).descend names := by
  rw [normalize_descend]
  rfl

theorem Path.normalize_ofText {t : String} (hdots : ".." ∉ (Path.ofText t).parts) :
    (Path.ofText t).normalize = Path.ofText t := by
  rw [ofText_eq_descend hdots]
  exact normalize_names _ _

namespace FileSystem

variable {fs fs' fs'' : FileSystem} {followLast : Bool} {links : Nat} {here place loc : Location}
  {name : Name} {names : List Name} {anchor : Anchor}

/-- On the way down to a place, and at it, there are directories or nothing. -/
def IsGround (fs : FileSystem) (place : Location) : Prop :=
  ∀ above, above <+: place → fs.formAt? above = some .directory ∨ fs.formAt? above = none

theorem IsGround.above (h : fs.IsGround place) (hp : loc <+: place) : fs.IsGround loc :=
  fun above ha => h above (ha.trans hp)

theorem concat_not_prefix_self (place : Location) (n : Name) : ¬ place ++ [n] <+: place := by
  intro hp
  have hlength := hp.length_le
  rw [List.length_append, List.length_singleton] at hlength
  omega

theorem isGround_of_directory (hd : fs.formAt? place = some .directory) : fs.IsGround place :=
  fun _ ha => Or.inl (formAt?_above hd ha)

/-- Names lead to their place unless a directory on the way down to it is missing. -/
theorem reach_names (here : Location) (hlong : ∀ n ∈ names, n.isTooLong = false)
    (hground : fs.IsGround (here ++ names.dropLast)) :
    fs.reach false links here (names.map .enter) = .ok (here ++ names) ∨
      fs.reach false links here (names.map .enter) = .error .enoent ∧
        fs.formAt? (here ++ names.dropLast) = none := by
  induction names generalizing here with
  | nil => exact Or.inl (by rw [List.map_nil, reach_nil, List.append_nil])
  | cons n rest ih =>
    rw [List.map_cons, reach_enter, if_neg (by simp [hlong n List.mem_cons_self])]
    cases rest with
    | nil =>
      refine Or.inl ?_
      cases hf : fs.formAt? (here ++ [n]) with
      | none => rfl
      | some form => cases form <;> first | rfl | exact reach_nil
    | cons next rest =>
      have hsplit : here ++ (n :: next :: rest).dropLast =
          here ++ [n] ++ (next :: rest).dropLast := by simp
      rw [hsplit] at hground ⊢
      rcases hground _ (List.prefix_append _ _) with hd | hn
      · rw [hd, List.append_cons here n (next :: rest)]
        exact ih (here ++ [n]) (fun m hm => hlong m (List.mem_cons_of_mem _ hm)) hground
      · refine Or.inr ⟨by rw [hn]; rfl, ?_⟩
        rw [formAt?_eq_none_iff] at hn ⊢
        rw [get?_append, hn]
        rfl

theorem trailOf_names
    (hn : ∀ front, front <+: names → front ≠ [] → front ≠ names ∨ followLast = true →
      ∀ target, fs.formAt? (place ++ front) ≠ some (.link target))
    (hm : loc ∈ fs.trailOf followLast links place (names.map .enter)) : loc <+: place ++ names := by
  induction names generalizing place with
  | nil =>
    rw [List.map_nil, trailOf_nil, List.mem_singleton] at hm
    exact hm ▸ List.prefix_append _ _
  | cons n names ih =>
    rw [List.map_cons, trailOf_enter, List.mem_cons] at hm
    rw [List.append_cons]
    rcases hm with rfl | hm
    · exact List.prefix_append _ _
    · cases hf : fs.formAt? (place ++ [n]) with
      | none => simp [hf] at hm
      | some form =>
        cases form with
        | file | other => simp [hf] at hm
        | directory =>
          rw [hf] at hm
          refine ih (fun front hp hne hlast => ?_) hm
          rw [List.append_assoc]
          exact hn (n :: front) (by simpa using hp) (by simp) (hlast.imp_left (by simp))
        | link target =>
          by_cases hlast : [n] ≠ n :: names ∨ followLast = true
          · exact absurd hf (hn [n] (by simp) (by simp) hlast target)
          · obtain ⟨rfl, rfl⟩ : names = [] ∧ followLast = false := by simpa using hlast
            simp [hf] at hm

section Paths

/-! ### Paths to a ground -/

variable (hlong : ∀ n ∈ place, n.isTooLong = false)
  (hbytes : ((Path.mk anchor []).descend place).text.utf8ByteSize ≤ maxPathBytes)

include hlong hbytes

theorem locate_names (hground : fs.IsGround place.dropLast) :
    fs.locate false ((Path.mk anchor []).descend place) = .ok place ∨
      fs.locate false ((Path.mk anchor []).descend place) = .error .enoent ∧
        fs.formAt? place.dropLast = none := by
  unfold FileSystem.locate
  rw [if_neg (by omega), Path.steps_descend]
  exact reach_names [] hlong hground

theorem locate_names_of_directory (hd : fs.formAt? place.dropLast = some .directory) :
    fs.locate false ((Path.mk anchor []).descend place) = .ok place := by
  refine (locate_names hlong hbytes (isGround_of_directory hd)).resolve_right ?_
  rintro ⟨-, hn⟩
  cases hd.symm.trans hn

theorem missing_names (hground : fs.IsGround place.dropLast) (hn : fs.formAt? place = none) :
    fs.Missing ((Path.mk anchor []).descend place) := by
  rcases locate_names hlong hbytes hground with hl | ⟨hl, -⟩
  · exact Or.inr ⟨place, hl, formAt?_eq_none_iff.1 hn⟩
  · exact Or.inl ⟨.enoent, rfl, hl⟩

end Paths

theorem trail_names (hground : fs.IsGround place.dropLast)
    (hm : loc ∈ fs.trail false ((Path.mk anchor []).descend place)) : loc <+: place := by
  unfold FileSystem.trail at hm
  rw [Path.steps_descend] at hm
  have hlinks : ∀ front, front <+: place → front ≠ [] → front ≠ place ∨ false = true →
      ∀ target, fs.formAt? ([] ++ front) ≠ some (.link target) := by
    rintro front ⟨back, rfl⟩ - hne target hlink
    have hback : back ≠ [] := fun hb => by simp [hb] at hne
    rw [List.dropLast_append_of_ne_nil hback] at hground
    rcases hground front (List.prefix_append _ _) with hd | hn
    · cases hd.symm.trans hlink
    · cases hn.symm.trans hlink
  have hp : loc <+: [] ++ place := trailOf_names hlinks hm
  exact hp

theorem locate_anchor (ha : anchor ≠ .here) : fs.locate false ⟨anchor, []⟩ = .ok [] := by
  unfold locate
  rw [if_neg (by cases anchor <;> decide)]
  exact reach_nil

/-! ### New directories -/

/-- One file system comes from another by directories at a place and on the way down to it. -/
def Founds (fs : FileSystem) (place : Location) (fs' : FileSystem) : Prop :=
  ∀ loc, fs'.formAt? loc = if loc <+: place then some .directory else fs.formAt? loc

theorem founds_refl (hd : fs.formAt? place = some .directory) : fs.Founds place fs := by
  intro loc
  split
  · rename_i hp
    exact formAt?_above hd hp
  · rfl

theorem Founds.directory (h : fs.Founds place fs') : fs'.formAt? place = some .directory := by
  rw [h, if_pos List.prefix_rfl]

theorem Founds.isGround (h : fs.Founds place fs') (hground : fs.IsGround loc) :
    fs'.IsGround loc := by
  intro above ha
  rw [h]
  split
  · exact Or.inl rfl
  · exact hground above ha

theorem Founds.concat (h : fs.Founds place fs')
    (h' : ∀ loc, fs''.formAt? loc =
      if loc = place ++ [name] then some .directory else fs'.formAt? loc) :
    fs.Founds (place ++ [name]) fs'' := by
  intro loc
  rw [h', h]
  simp only [List.prefix_concat_iff]
  by_cases he : loc = place ++ [name] <;> simp [he]

def IsEmptyAt (fs : FileSystem) (place : Location) : Prop :=
  fs.formAt? place = some .directory ∧ ∀ n, fs.get? (place ++ [n]) = none

/-- One file system comes from another by an empty directory at a place, whatever was there, and by
directories on the way down to it. -/
def Resets (fs : FileSystem) (place : Location) (fs' : FileSystem) : Prop :=
  ∀ loc, fs'.formAt? loc =
    if loc <+: place then some .directory else if place <+: loc then none else fs.formAt? loc

theorem Resets.isEmptyAt (h : fs.Resets place fs') : fs'.IsEmptyAt place := by
  refine ⟨by rw [h, if_pos List.prefix_rfl], fun n => ?_⟩
  rw [← formAt?_eq_none_iff, h, if_neg (concat_not_prefix_self place n),
    if_pos (List.prefix_append _ _)]

def Clears (fs : FileSystem) (place : Location) (fs' : FileSystem) : Prop :=
  ∀ loc, fs'.formAt? loc = if place <+: loc then none else fs.formAt? loc

theorem clears_refl (hn : fs.formAt? place = none) : fs.Clears place fs := by
  intro loc
  split
  · rename_i hp
    obtain ⟨rest, rfl⟩ := hp
    rw [formAt?_eq_none_iff] at hn ⊢
    rw [get?_append, hn]
    rfl
  · rfl

theorem Clears.isGround (h : fs.Clears place fs') (hground : fs.IsGround place.dropLast) :
    fs'.IsGround place := by
  intro above ha
  rw [h]
  split
  · exact Or.inr rfl
  · rename_i hp
    refine hground above ?_
    obtain ⟨back, rfl⟩ := ha
    have hback : back ≠ [] := fun hb => hp (by simp [hb])
    rw [List.dropLast_append_of_ne_nil hback]
    exact List.prefix_append _ _

theorem Clears.resets (h : fs.Clears place fs') (h' : fs'.Founds place fs'') :
    fs.Resets place fs'' := by
  intro loc
  rw [h', h]

end FileSystem

end TreeRemoval
