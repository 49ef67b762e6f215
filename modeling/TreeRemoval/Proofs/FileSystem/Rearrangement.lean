import Mathlib.Data.List.Perm.Basic
import TreeRemoval.Proofs.FileSystem.Locate

/-! # The order of entries

Two file systems may differ in the order of entries alone. Every call has the same answer in both,
apart from a listing, whose names stand in another order, and what a call or an edit makes of the
two differs in the order of entries alone.
-/

namespace TreeRemoval

inductive AnswersAlike {α β : Type} (R : α → β → Prop) : Except Errno α → Except Errno β → Prop
  | ok {a : α} {b : β} (h : R a b) : AnswersAlike R (.ok a) (.ok b)
  | error (e : Errno) : AnswersAlike R (.error e) (.error e)

namespace AnswersAlike

variable {α α' β β' : Type} {R : α → α' → Prop} {S : β → β' → Prop} {x : Except Errno α}
  {y : Except Errno α'}

theorem bind (h : AnswersAlike R x y) {f : α → Except Errno β} {g : α' → Except Errno β'}
    (hf : ∀ a b, R a b → AnswersAlike S (f a) (g b)) : AnswersAlike S (x >>= f) (y >>= g) := by
  cases h with
  | ok h => exact hf _ _ h
  | error e => exact .error e

theorem map (h : AnswersAlike R x y) {f : α → β} {g : α' → β'} (hf : ∀ a b, R a b → S (f a) (g b)) :
    AnswersAlike S (x.map f) (y.map g) := by
  cases h with
  | ok h => exact .ok (hf _ _ h)
  | error e => exact .error e

theorem map_eq (h : AnswersAlike R x y) {f : α → β} {g : α' → β}
    (hf : ∀ a b, R a b → g b = f a) : y.map g = x.map f := by
  cases h with
  | ok h => exact congrArg Except.ok (hf _ _ h)
  | error e => rfl

end AnswersAlike

@[simp] theorem Node.status_bare (node : Node) : node.bare.status = node.status := by
  cases node <;> rfl

namespace FileSystem

/-- The same nodes are at the same places. The entries of a directory may stand in another order. -/
def Rearranges (fs fs' : FileSystem) : Prop := ∀ place, fs'.bareAt? place = fs.bareAt? place

variable {fs fs' : FileSystem} {place : Location} {workingDirectory t : String}
  {followLast : Bool} {time : Option Float}

/-- Two walks end in the same directory, or at the same name in one with the nodes that are there.
-/
inductive Meet (fs fs' : FileSystem) : Arrival → Arrival → Prop
  | inside (place : Location) : Meet fs fs' (.inside place) (.inside place)
  | entry (parent : Location) (name : Name) :
      Meet fs fs' (.entry parent name (fs.get? (parent ++ [name])))
        (.entry parent name (fs'.get? (parent ++ [name])))

namespace Rearranges

theorem put_self {node : Node} (hp : place ≠ []) (hn : fs.get? place = some node)
    (hw : node.WellFormed) : fs.Rearranges (fs.put place node hw) := by
  intro loc
  rw [bareAt?_put hp]
  split
  · rename_i hl
    obtain ⟨rest, rfl⟩ := hl
    rw [List.drop_left' rfl, bareAt?, get?_append, hn]
    rfl
  split
  · rename_i hout hl
    obtain ⟨rest, rfl⟩ := hl
    have hr : rest ≠ [] := by
      rintro rfl
      exact hout (by simp)
    obtain ⟨m, es, hg⟩ := formAt?_eq_directory_iff.1 (formAt?_of_append hr (by rw [hn]; simp))
    rw [bareAt?, hg]
    rfl
  · rfl

variable (h : fs.Rearranges fs')

include h

theorem formAt?_eq (place : Location) : fs'.formAt? place = fs.formAt? place := by
  rw [FileSystem.formAt?_eq, FileSystem.formAt?_eq, h place]

theorem get?_eq_none_iff : fs'.get? place = none ↔ fs.get? place = none := by
  rw [← bareAt?_eq_none_iff, h place, bareAt?_eq_none_iff]

theorem isDirectoryAt_eq (place : Location) : fs'.isDirectoryAt place = fs.isDirectoryAt place := by
  have hiff : ∀ fs : FileSystem,
      fs.isDirectoryAt place = true ↔ fs.formAt? place = some .directory := by
    intro fs
    simp only [isDirectoryAt, formAt?, Option.any_eq_true, Option.map_eq_some_iff,
      Node.isDirectory_iff_form]
  rw [Bool.eq_iff_iff, hiff, hiff, h.formAt?_eq]

theorem exists_get? {node : Node} (hn : fs.get? place = some node) :
    ∃ node', fs'.get? place = some node' ∧ node'.bare = node.bare := by
  have hbare := h place
  rw [bareAt?, bareAt?, hn] at hbare
  exact Option.map_eq_some_iff.1 hbare

theorem names_perm {m : Float} {es : List (Name × Node)}
    (hg : fs.get? place = some (.directory m es)) :
    ∃ es', fs'.get? place = some (.directory m es') ∧ (es'.map (·.1)).Perm (es.map (·.1)) := by
  have hdistinct : ∀ {fs : FileSystem} {m : Float} {es : List (Name × Node)},
      fs.get? place = some (.directory m es) → (es.map (·.1)).Nodup := by
    intro fs m es hg
    cases fs.wellFormed.of_get? hg with
    | directory nodup _ => exact nodup
  obtain ⟨node', hg', hbare⟩ := h.exists_get? hg
  cases node' with
  | file | other | link => cases hbare
  | directory m' es' =>
    rw [Node.bare_directory, Node.bare_directory] at hbare
    cases hbare
    refine ⟨es', hg', (List.perm_ext_iff_of_nodup (hdistinct hg') (hdistinct hg)).2 fun name => ?_⟩
    rw [mem_names_iff hg', mem_names_iff hg, Ne, Ne, h.get?_eq_none_iff]

/-! ### Changes -/

theorem put (hp : place ≠ []) {new : Node} (hw : new.WellFormed) :
    (fs.put place new hw).Rearranges (fs'.put place new hw) := fun loc => by
  rw [bareAt?_put hp, bareAt?_put hp, h loc]

theorem remove (hp : place ≠ []) : (fs.remove place).Rearranges (fs'.remove place) := fun loc => by
  rw [bareAt?_remove hp, bareAt?_remove hp, h loc]

theorem setModified (place : Location) (time : Float) :
    (fs.setModified place time).Rearranges (fs'.setModified place time) := fun loc => by
  rw [bareAt?_setModified, bareAt?_setModified, h loc]

theorem touch (time : Option Float) (place : Location) :
    (fs.touch time place).Rearranges (fs'.touch time place) := fun loc => by
  rw [bareAt?_touch, bareAt?_touch, h loc]

theorem removeEntry (time : Option Float) (parent : Location) (name : Name) :
    (fs.removeEntry time parent name).Rearranges (fs'.removeEntry time parent name) :=
  (h.remove (by simp)).touch time parent

theorem clear : fs.clear.Rearranges fs'.clear := by
  intro loc
  have hroot := h []
  have hmodified : fs'.root.modified = fs.root.modified := by
    rw [← Node.modified_bare, ← Node.modified_bare fs.root]
    exact congrArg Node.modified (Option.some.inj hroot)
  rw [FileSystem.clear, FileSystem.clear, bareAt?, bareAt?, FileSystem.get?, FileSystem.get?]
  dsimp only
  rw [hmodified]

omit h in
theorem ne_nil_of_not_isDirectoryAt (hd : ¬ fs.isDirectoryAt place = true) : place ≠ [] := by
  rintro rfl
  exact hd (by simp [isDirectoryAt, FileSystem.get?, fs.root_isDirectory])

theorem withDirectory (place : Location) :
    (fs.withDirectory place).Rearranges (fs'.withDirectory place) := by
  unfold FileSystem.withDirectory
  rw [h.isDirectoryAt_eq]
  split
  · exact h
  · rename_i hd
    exact h.put (ne_nil_of_not_isDirectoryAt hd) _

theorem apply (edit : Edit) : (edit.apply fs).Rearranges (edit.apply fs') := by
  cases edit with
  | directory place time =>
    simp only [Edit.apply, h.isDirectoryAt_eq]
    split
    · exact h.setModified place time
    · rename_i hd
      exact h.put (ne_nil_of_not_isDirectoryAt hd) _
  | leaf place new time =>
    simp only [Edit.apply]
    split
    · exact h.setModified [] time
    · rename_i hp
      exact h.put hp _
  | remove place =>
    simp only [Edit.apply]
    split
    · exact h.clear
    · rename_i hp
      exact (h.withDirectory place.dropLast).remove hp

omit h in
theorem applyAll (h : fs.Rearranges fs') (edits : List Edit) :
    (Edit.applyAll fs edits).Rearranges (Edit.applyAll fs' edits) := by
  induction edits generalizing fs fs' with
  | nil => exact h
  | cons edit edits ih => exact ih (h.apply edit)

/-! ### Calls -/

theorem walk (links : Nat) (place : Location) (steps : List Step) :
    AnswersAlike (fs.Meet fs') (fs.walk followLast links place steps)
      (fs'.walk followLast links place steps) := by
  induction links, place, steps using walk_induction with
  | nil links place =>
    rw [walk_nil, walk_nil]
    exact .ok (.inside place)
  | stay links place rest ih => rwa [walk_stay, walk_stay]
  | up links place rest ih => rwa [walk_up, walk_up]
  | enter links place name rest ih ihl =>
    have hends : ∀ {node? node?' : Option Node}, fs.get? (place ++ [name]) = node? →
        fs'.get? (place ++ [name]) = node?' →
        AnswersAlike (fs.Meet fs') (.ok (.entry place name node?))
          (.ok (.entry place name node?')) := by
      rintro _ _ rfl rfl
      exact .ok (.entry place name)
    rw [walk_enter, walk_enter]
    by_cases ht : name.isTooLong = true
    · rw [if_pos ht, if_pos ht]
      exact .error _
    rw [if_neg ht, if_neg ht]
    cases hn : fs.get? (place ++ [name]) with
    | none =>
      have hn' := h.get?_eq_none_iff.2 hn
      rw [hn']
      dsimp only
      split
      · exact hends hn hn'
      · exact .error _
    | some node =>
      obtain ⟨node', hn', hb⟩ := h.exists_get? hn
      rw [hn']
      cases node with
      | file m | other m =>
        cases node' <;> cases hb
        dsimp only
        split
        · exact hends hn hn'
        · exact .error _
      | directory m es =>
        cases node' with
        | file | other | link => cases hb
        | directory m' es' =>
          dsimp only
          split
          · exact hends hn hn'
          · exact ih
      | link target m =>
        cases node' <;> cases hb
        dsimp only
        split
        · exact hends hn hn'
        · cases links with
          | zero => exact .error _
          | succ links => exact ihl links target rfl

theorem resolve (workingDirectory : String) (followLast : Bool) (t : String) :
    AnswersAlike (fs.Meet fs') (fs.resolve workingDirectory followLast t)
      (fs'.resolve workingDirectory followLast t) := by
  unfold FileSystem.resolve
  split
  · exact .error _
  split
  · exact .error _
  · exact h.walk _ _ _

theorem lookup : AnswersAlike (fun node node' => node'.bare = node.bare ∧
      ∃ loc, fs.get? loc = some node ∧ fs'.get? loc = some node')
    (fs.lookup workingDirectory followLast t) (fs'.lookup workingDirectory followLast t) := by
  rw [lookup_eq, lookup_eq]
  have hplace : (fs'.resolve workingDirectory followLast t).map Arrival.place =
      (fs.resolve workingDirectory followLast t).map Arrival.place := by
    apply (h.resolve workingDirectory followLast t).map_eq
    rintro _ _ (_ | _) <;> rfl
  rw [hplace]
  cases (fs.resolve workingDirectory followLast t).map Arrival.place with
  | error e => exact .error e
  | ok loc =>
    simp only [bind, Except.bind]
    cases hn : fs.get? loc with
    | none =>
      rw [h.get?_eq_none_iff.2 hn]
      exact .error _
    | some node =>
      obtain ⟨node', hn', hbare⟩ := h.exists_get? hn
      rw [hn']
      exact .ok ⟨hbare, loc, hn, hn'⟩

theorem status_eq : (fs'.lookup workingDirectory followLast t).map Node.status =
    (fs.lookup workingDirectory followLast t).map Node.status := by
  apply h.lookup.map_eq
  rintro node node' ⟨hbare, -⟩
  rw [← Node.status_bare, hbare, Node.status_bare]

theorem stat_eq : fs'.stat workingDirectory t = fs.stat workingDirectory t := h.status_eq

theorem lstat_eq : fs'.lstat workingDirectory t = fs.lstat workingDirectory t := h.status_eq

theorem list : AnswersAlike (fun names names' => names'.Perm names) (fs.list workingDirectory t)
    (fs'.list workingDirectory t) := by
  unfold FileSystem.list
  apply h.lookup.bind
  rintro node node' ⟨hbare, loc, hn, hn'⟩
  cases node with
  | directory m es =>
    obtain ⟨es', hg, hperm⟩ := h.names_perm hn
    rw [hn'] at hg
    cases hg
    exact .ok hperm
  | file | other | link =>
    cases node' <;> cases hbare
    exact .error _

theorem isEmpty_eq {m m' : Float} {es es' : List (Name × Node)}
    (hg : fs.get? place = some (.directory m es)) (hg' : fs'.get? place = some (.directory m' es')) :
    es'.isEmpty = es.isEmpty := by
  rw [Bool.eq_iff_iff, isEmpty_iff hg, isEmpty_iff hg']
  simp only [h.get?_eq_none_iff]

theorem rmdir : AnswersAlike Rearranges (fs.rmdir workingDirectory time t)
    (fs'.rmdir workingDirectory time t) := by
  unfold FileSystem.rmdir
  apply (h.resolve workingDirectory false t).bind
  rintro _ _ (place | ⟨parent, name⟩)
  · exact .error _
  cases hn : fs.get? (parent ++ [name]) with
  | none =>
    rw [h.get?_eq_none_iff.2 hn]
    exact .error _
  | some node =>
    obtain ⟨node', hn', hb⟩ := h.exists_get? hn
    rw [hn']
    cases node with
    | file m | other m | link target m =>
      cases node' <;> cases hb
      exact .error _
    | directory m es =>
      cases node' with
      | file | other | link => cases hb
      | directory m' es' =>
        dsimp only
        rw [h.isEmpty_eq hn hn']
        split
        · exact .ok (h.removeEntry time parent name)
        · exact .error _

theorem unlink : AnswersAlike Rearranges (fs.unlink workingDirectory time t)
    (fs'.unlink workingDirectory time t) := by
  unfold FileSystem.unlink
  apply (h.resolve workingDirectory false t).bind
  rintro _ _ (place | ⟨parent, name⟩)
  · exact .error _
  cases hn : fs.get? (parent ++ [name]) with
  | none =>
    rw [h.get?_eq_none_iff.2 hn]
    exact .error _
  | some node =>
    obtain ⟨node', hn', hb⟩ := h.exists_get? hn
    have hdirectory : node'.isDirectory = node.isDirectory := by
      cases node <;> cases node' <;> first | rfl | cases hb
    rw [hn']
    dsimp only
    rw [hdirectory]
    split
    · exact .error _
    · exact .ok (h.removeEntry time parent name)

theorem mkdir : AnswersAlike Rearranges (fs.mkdir workingDirectory time t)
    (fs'.mkdir workingDirectory time t) := by
  unfold FileSystem.mkdir
  apply (h.resolve workingDirectory false t).bind
  rintro _ _ (place | ⟨parent, name⟩)
  · exact .error _
  cases hn : fs.get? (parent ++ [name]) with
  | none =>
    rw [h.get?_eq_none_iff.2 hn]
    exact .ok ((h.put (by simp) _).touch time parent)
  | some node =>
    obtain ⟨node', hn', -⟩ := h.exists_get? hn
    rw [hn']
    exact .error _

end Rearranges

end FileSystem

end TreeRemoval
