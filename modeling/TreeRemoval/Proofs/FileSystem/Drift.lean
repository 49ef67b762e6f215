import TreeRemoval.Proofs.FileSystem.Trail

/-! # Drifts

What happens to files when others work at a place and below it, but make no links: all else stays
as it is, and no link appears. An edit makes the directories that it needs, but those above the
place are there already.
-/

namespace TreeRemoval

theorem Node.form_get?_empty_ne_link {m : Float} (loc : Location) (target : String) :
    (get? loc (directory m [])).map form ≠ some (.link target) := by
  cases loc <;> simp [form]

namespace FileSystem

variable {fs fs' fs'' : FileSystem} {place top loc : Location} {name : Name} {p above : Path}
  {names : List Name} {time : Option Float}

theorem formAt?_put (hp : place ≠ []) {new : Node} (h : new.WellFormed) (loc : Location) :
    (fs.put place new h).formAt? loc =
      if place <+: loc then (new.get? (loc.drop place.length)).map Node.form
      else if loc <+: place then some .directory
      else fs.formAt? loc := by
  rw [formAt?_eq, bareAt?_put hp]
  split
  · simp [Function.comp_def]
  split
  · simp
  · rw [formAt?_eq]

/-- Nothing but what is at a place or below it has changed, and no link has appeared. -/
structure Drifts (place : Location) (fs fs' : FileSystem) : Prop where
  outside : ∀ loc, ¬ place <+: loc → fs'.formAt? loc = fs.formAt? loc
  link : ∀ loc target, fs'.formAt? loc = some (.link target) → fs.formAt? loc = some (.link target)

def DriftsIn (place : Location) (fs fs' : FileSystem) : Prop :=
  fs.formAt? place.dropLast = some .directory → fs.Drifts place fs'

namespace Drifts

theorem refl (place : Location) (fs : FileSystem) : fs.Drifts place fs :=
  ⟨fun _ _ => rfl, fun _ _ h => h⟩

theorem trans (h : fs.Drifts place fs') (h' : fs'.Drifts place fs'') : fs.Drifts place fs'' :=
  ⟨fun loc hout => (h'.outside loc hout).trans (h.outside loc hout),
    fun loc target hl => h.link loc target (h'.link loc target hl)⟩

theorem formAt?_parent (h : fs.Drifts (top ++ [name]) fs') : fs'.formAt? top = fs.formAt? top := by
  refine h.outside top fun hp => ?_
  have hlength := hp.length_le
  rw [List.length_append, List.length_singleton] at hlength
  omega

theorem setModified (loc : Location) (time : Float) :
    fs.Drifts place (fs.setModified loc time) := by
  have hsame : ∀ l, (fs.setModified loc time).formAt? l = fs.formAt? l :=
    formAt?_touch (some time) loc
  exact ⟨fun l _ => hsame l, fun l target hl => hsame l ▸ hl⟩

theorem remove (hp : place <+: loc) (hne : loc ≠ []) : fs.Drifts place (fs.remove loc) := by
  have hform : ∀ l, (fs.remove loc).formAt? l = if loc <+: l then none else fs.formAt? l := by
    intro l
    rw [formAt?_eq, bareAt?_remove hne]
    split
    · rfl
    · exact formAt?_eq.symm
  constructor
  · intro l hout
    rw [hform, if_neg fun hl => hout (hp.trans hl)]
  · intro l target hl
    rw [hform] at hl
    split at hl
    · cases hl
    · exact hl

theorem put (hd : fs.formAt? top = some .directory) (hp : top ++ [name] <+: loc) {new : Node}
    (h : new.WellFormed) (hn : ∀ l target, (new.get? l).map Node.form ≠ some (.link target)) :
    fs.Drifts (top ++ [name]) (fs.put loc new h) := by
  have hne : loc ≠ [] := by
    rintro rfl
    simp at hp
  constructor
  · intro l hout
    rw [formAt?_put hne, if_neg fun hl => hout (hp.trans hl)]
    split
    · rename_i hl
      have habove : l <+: top ++ [name] :=
        (List.prefix_or_prefix_of_prefix hl hp).resolve_right hout
      rcases List.prefix_concat_iff.1 habove with rfl | htop
      · exact absurd List.prefix_rfl hout
      · exact (formAt?_above hd htop).symm
    · rfl
  · intro l target hl
    rw [formAt?_put hne] at hl
    split at hl
    · exact absurd hl (hn _ target)
    · split at hl
      · cases hl
      · exact hl

theorem withDirectory (hd : fs.formAt? top = some .directory) (hp : top ++ [name] <+: loc) :
    fs.Drifts (top ++ [name]) (fs.withDirectory loc.dropLast) := by
  unfold FileSystem.withDirectory
  split
  · exact .refl _ _
  rename_i hmissing
  rcases List.eq_nil_or_concat loc with rfl | ⟨front, n, rfl⟩
  · simp at hp
  rw [List.concat_eq_append] at hp hmissing ⊢
  rw [List.dropLast_concat] at hmissing ⊢
  rcases List.prefix_concat_iff.1 hp with he | hp
  · obtain ⟨m, es, hg⟩ := formAt?_eq_directory_iff.1 hd
    obtain rfl : top = front := List.append_inj_left' he rfl
    simp [isDirectoryAt, hg, Node.isDirectory] at hmissing
  · exact .put hd hp _ Node.form_get?_empty_ne_link

theorem removes (h : fs.Removes time p fs') (hl : fs.locate false p = .ok (place ++ names)) :
    fs.Drifts place fs' := by
  obtain ⟨parent, n, hl', -, -, rfl⟩ := h
  rw [hl] at hl'
  have hp : place <+: parent ++ [n] := by
    rw [← Except.ok.inj hl']
    exact List.prefix_append _ _
  exact (remove hp (by simp)).trans
    ⟨fun l _ => formAt?_touch time parent l, fun l target hl => formAt?_touch time parent l ▸ hl⟩

theorem locate_child (ha : above.isAbsolute = true) (h : fs.Drifts place fs')
    (hl : fs.locate false (above.child name) = .ok place)
    (hway : ∀ loc ∈ fs.trail true above, ¬ place <+: loc) :
    fs'.locate false (above.child name) = .ok place := by
  obtain ⟨hb, hshort, top, htop, hdir, hplace⟩ := (locate_child_eq_ok_iff ha).1 hl
  refine (locate_child_eq_ok_iff ha).2 ⟨hb, hshort, top, ?_, ?_, hplace⟩
  · rw [locate_of_trail fun loc hm => h.outside loc (hway loc hm), htop]
  · rw [h.outside top (hway top (mem_trail_of_locate htop)), hdir]

end Drifts

end FileSystem

namespace Edit

def place : Edit → Location
  | directory place _ | leaf place _ _ | remove place => place

structure KeepsTo (place : Location) (edit : Edit) : Prop where
  below : place <+: edit.place
  no_link : ∀ loc target time, edit ≠ .leaf loc (.link target) time

variable {fs : FileSystem} {top : Location} {name : Name} {edit : Edit}

theorem KeepsTo.drifts (h : edit.KeepsTo (top ++ [name])) (hd : fs.formAt? top = some .directory) :
    fs.Drifts (top ++ [name]) (edit.apply fs) := by
  obtain ⟨hp, hlink⟩ := h
  have hne : edit.place ≠ [] := by
    intro he
    simp [he] at hp
  cases edit with simp only [apply, place] at hp hne ⊢
  | directory loc time =>
    split
    · exact .setModified loc time
    · exact .put hd hp _ Node.form_get?_empty_ne_link
  | leaf loc new time =>
    rw [if_neg hne]
    refine .put hd hp _ ?_
    rintro (_ | ⟨n, l⟩) target
    · cases new with
      | file | other => simp [Leaf.node, Node.form]
      | link t => exact absurd rfl (hlink loc t time)
    · cases new <;> simp [Leaf.node, Node.get?]
  | remove loc =>
    rw [if_neg hne]
    exact (FileSystem.Drifts.withDirectory hd hp).trans (.remove hp hne)

end Edit

end TreeRemoval
