import Mathlib.Tactic.ByContra
import TreeRemoval.FileSystem.Calls

/-! # What is at each place

Two file systems are compared place by place: by the nodes there without their entries, or by their
forms alone, which leave out the times as well. Every change of a tree is described by what it does
to these views; the order of entries plays no part in them.
-/

namespace TreeRemoval

/-- What a node is, without its times and entries. -/
inductive Form where
  | directory
  | file
  | other
  | link (target : String)
  deriving DecidableEq

namespace Node

def form : Node → Form
  | directory .. => .directory
  | file _ => .file
  | other _ => .other
  | link target _ => .link target

def bare : Node → Node
  | directory m _ => directory m []
  | node => node

@[simp] theorem form_bare (node : Node) : node.bare.form = node.form := by
  cases node <;> rfl

@[simp] theorem modified_bare (node : Node) : node.bare.modified = node.modified := by
  cases node <;> rfl

@[simp] theorem form_setModified (m : Float) (node : Node) :
    (node.setModified m).form = node.form := by
  cases node <;> rfl

@[simp] theorem bare_setModified (m : Float) (node : Node) :
    (node.setModified m).bare = node.bare.setModified m := by
  cases node <;> rfl

@[simp] theorem bare_directory (m : Float) (es : List (Name × Node)) :
    (directory m es).bare = directory m [] := rfl

theorem isDirectory_iff_form {node : Node} : node.isDirectory = true ↔ node.form = .directory := by
  cases node <;> simp [isDirectory, form]

theorem isDirectory_iff {node : Node} :
    node.isDirectory = true ↔ ∃ m es, node = directory m es := by
  cases node <;> simp [isDirectory]

theorem form_eq_directory_iff {node : Node} :
    node.form = .directory ↔ ∃ m es, node = directory m es := by
  rw [← isDirectory_iff_form, isDirectory_iff]

theorem form_eq_link_iff {node : Node} {target : String} :
    node.form = .link target ↔ ∃ m, node = link target m := by
  cases node <;> simp [form]

@[simp] theorem kind_eq_directory_iff {node : Node} :
    node.kind = .directory ↔ node.form = .directory := by
  cases node <;> simp [kind, form]

@[simp] theorem kind_eq_link_iff {node : Node} :
    node.kind = .link ↔ ∃ target, node.form = .link target := by
  cases node <;> simp [kind, form]

variable {name other : Name} {es : List (Name × Node)} {node : Node}

theorem lookup_cons :
    ((name, node) :: es).lookup other = if other = name then some node else es.lookup other := by
  rw [List.lookup_cons]
  by_cases ho : other = name
  · simp [ho]
  · simp [ho, beq_eq_false_iff_ne.2 ho]

theorem lookup_of_mem (hnodup : (es.map (·.1)).Nodup) (h : (name, node) ∈ es) :
    es.lookup name = some node := by
  obtain ⟨front, back, rfl⟩ := List.append_of_mem h
  refine List.lookup_eq_some_iff.2 ⟨front, back, rfl, fun e he => bne_iff_ne.2 ?_⟩
  rw [List.map_append, List.map_cons, List.nodup_append] at hnodup
  exact (hnodup.2.2 _ (List.mem_map_of_mem he) _ List.mem_cons_self).symm

theorem lookup_without :
    (without name es).lookup other = if other = name then none else es.lookup other := by
  induction es with
  | nil => simp [without]
  | cons e es ih =>
    obtain ⟨n, node⟩ := e
    unfold without at ih ⊢
    by_cases hn : n = name
    · subst hn
      rw [List.filter_cons_of_neg (by simp), ih, lookup_cons]
      by_cases ho : other = n <;> simp [ho]
    · rw [List.filter_cons_of_pos (by simpa using hn), lookup_cons, lookup_cons, ih]
      by_cases ho : other = n
      · subst ho; simp [hn]
      · simp [ho]

theorem lookup_withEntry :
    (withEntry name node es).lookup other = if other = name then some node else es.lookup other := by
  unfold withEntry
  rw [List.lookup_append, lookup_without, lookup_cons]
  by_cases ho : other = name <;> simp [ho]

@[simp] theorem get?_nil : get? [] node = some node := by
  cases node <;> rfl

@[simp] theorem get?_directory (m : Float) (rest : Location) :
    get? (name :: rest) (directory m es) = (es.lookup name).bind (get? rest) := rfl

theorem get?_append (place rest : Location) (node : Node) :
    get? (place ++ rest) node = (get? place node).bind (get? rest) := by
  induction place generalizing node with
  | nil => simp
  | cons name place ih =>
    cases node with
    | directory m es =>
      cases h : es.lookup name <;> simp [h, ih]
    | file | other | link => rfl

theorem get?_eq_none_of_not_directory {place : Location} (h : node.isDirectory = false)
    (hp : place ≠ []) : get? place node = none := by
  cases place with
  | nil => exact absurd rfl hp
  | cons => cases node <;> first | rfl | cases h

def places (node : Node) : List Location := [] :: node.descendants.map (·.1)

theorem mem_descendantsOfEach_of_lookup (h : es.lookup name = some node) {place : Location}
    (hp : place ∈ node.places) : name :: place ∈ (descendantsOfEach es).map (·.1) := by
  induction es with
  | nil => cases h
  | cons e es ih =>
    obtain ⟨n, child⟩ := e
    rw [lookup_cons] at h
    rw [descendantsOfEach, List.map_append, List.mem_append]
    by_cases hn : name = n
    · subst hn
      rw [if_pos rfl] at h
      cases h
      left
      simpa [places] using hp
    · rw [if_neg hn] at h
      exact Or.inr (ih h)

theorem mem_places {place : Location} (h : get? place node ≠ none) : place ∈ node.places := by
  induction place generalizing node with
  | nil => simp [places]
  | cons name rest ih =>
    cases node with
    | file | other | link => exact absurd rfl h
    | directory m es =>
      rw [get?_directory] at h
      cases hl : es.lookup name with
      | none => simp [hl] at h
      | some child =>
        rw [hl, Option.bind_some] at h
        exact List.mem_cons_of_mem _ (mem_descendantsOfEach_of_lookup hl (ih h))

theorem mem_names_iff : name ∈ es.map (·.1) ↔ es.lookup name ≠ none := by
  rw [Ne, List.lookup_eq_none_iff, List.mem_map]
  constructor
  · rintro ⟨e, he, rfl⟩ h
    simpa using h e he
  · intro h
    by_contra hn
    exact h fun e he => bne_iff_ne.2 fun hne => hn ⟨e, he, hne.symm⟩

theorem bare_get?_remove {place : Location} (hp : place ≠ []) (loc : Location) (node : Node) :
    (get? loc (remove place node)).map bare =
      if place <+: loc then none else (get? loc node).map bare := by
  fun_induction remove place node generalizing loc with
  | case1 => exact absurd rfl hp
  | case2 name m es =>
    cases loc with
    | nil => simp
    | cons n loc =>
      rw [get?_directory, lookup_without]
      by_cases hn : n = name
      · simp [hn]
      · have hn' : ¬ name = n := fun h => hn h.symm
        simp [hn, hn']
  | case3 name rest m es hr child hl ih =>
    have hr' : rest ≠ [] := fun h => hr h
    cases loc with
    | nil => simp
    | cons n loc =>
      rw [get?_directory, lookup_withEntry]
      by_cases hn : n = name
      · subst hn
        simpa [hl] using ih hr' loc
      · have hn' : ¬ name = n := fun h => hn h.symm
        simp [hn, hn']
  | case4 name rest m es hr hl =>
    split
    · rename_i h
      obtain ⟨t, rfl⟩ := h
      simp [hl]
    · rfl
  | case5 name rest node hd =>
    split
    · rename_i h
      obtain ⟨t, rfl⟩ := h
      cases node with
      | directory m es => cases rest <;> simp_all
      | file | other | link => rfl
    · rfl

/-- The directory that stands on the way to a node that is put: the one that was there, or a new
one. -/
def housing : Option Node → Node
  | some (directory m _) => directory m []
  | _ => directory 0 []

@[simp] theorem housing_bare (node? : Option Node) : housing (node?.map bare) = housing node? := by
  rcases node? with _ | (_ | _ | _ | _) <;> rfl

@[simp] theorem form_housing (node? : Option Node) : (housing node?).form = .directory := by
  rcases node? with _ | (_ | _ | _ | _) <;> rfl

/-- Putting a node at a place changes what is there and below, makes directories of what is on the
way, and changes nothing off it. -/
theorem bare_get?_put (new : Node) (place loc : Location) (node : Node) :
    (get? loc (put new place node)).map bare =
      if place <+: loc then (get? (loc.drop place.length) new).map bare
      else if loc <+: place then some (housing (get? loc node))
      else (get? loc node).map bare := by
  induction place generalizing loc node with
  | nil => simp [put]
  | cons name place ih =>
    cases loc with
    | nil => cases node <;> simp [put, bare, housing]
    | cons n loc =>
      by_cases hn : n = name
      · subst hn
        cases node with
        | directory m es =>
          simp only [put, get?_directory, lookup_withEntry, if_true, Option.bind_some, ih,
            List.prefix_cons_inj, List.length_cons, List.drop_succ_cons]
          cases es.lookup n with
          | some child => rfl
          | none => cases loc <;> simp [housing]
        | file | other | link =>
          simp only [put, get?_directory, lookup_cons, if_true, Option.bind_some, ih,
            List.prefix_cons_inj, List.length_cons, List.drop_succ_cons]
          cases loc <;> simp [get?, housing]
      · have hn' : ¬ name = n := fun h => hn h.symm
        cases node with
        | directory m es => simp [put, lookup_withEntry, hn, hn']
        | file | other | link => simp [put, lookup_cons, hn, hn', get?]

end Node

namespace FileSystem

def bareAt? (fs : FileSystem) (place : Location) : Option Node := (fs.get? place).map Node.bare

def formAt? (fs : FileSystem) (place : Location) : Option Form := (fs.get? place).map Node.form

variable {fs : FileSystem} {place parent rest loc : Location} {name : Name} {node : Node}

theorem formAt?_eq : fs.formAt? place = (fs.bareAt? place).map Node.form := by
  simp [formAt?, bareAt?, Function.comp_def]

theorem bareAt?_eq_none_iff : fs.bareAt? place = none ↔ fs.get? place = none := by
  simp [bareAt?]

theorem formAt?_eq_none_iff : fs.formAt? place = none ↔ fs.get? place = none := by
  simp [formAt?]

@[simp] theorem formAt?_root (fs : FileSystem) : fs.formAt? [] = some .directory := by
  simp [formAt?, get?, Node.isDirectory_iff_form.1 fs.root_isDirectory]

theorem get?_append (place rest : Location) :
    fs.get? (place ++ rest) = (fs.get? place).bind (Node.get? rest) :=
  Node.get?_append place rest fs.root

theorem formAt?_eq_directory_iff :
    fs.formAt? place = some .directory ↔ ∃ m es, fs.get? place = some (.directory m es) := by
  unfold formAt?
  rw [Option.map_eq_some_iff]
  constructor
  · rintro ⟨node, hn, hf⟩
    obtain ⟨m, es, rfl⟩ := Node.form_eq_directory_iff.1 hf
    exact ⟨m, es, hn⟩
  · rintro ⟨m, es, h⟩
    exact ⟨_, h, rfl⟩

theorem formAt?_of_append (hr : rest ≠ []) (h : fs.get? (place ++ rest) ≠ none) :
    fs.formAt? place = some .directory := by
  rw [get?_append] at h
  cases hp : fs.get? place with
  | none => simp [hp] at h
  | some node =>
    rw [hp, Option.bind_some] at h
    have hd : node.isDirectory = true := by
      by_contra hn
      exact h (Node.get?_eq_none_of_not_directory (by simpa using hn) hr)
    simp [formAt?, hp, Node.isDirectory_iff_form.1 hd]

theorem formAt?_above (hd : fs.formAt? place = some .directory) (hp : loc <+: place) :
    fs.formAt? loc = some .directory := by
  obtain ⟨rest, rfl⟩ := hp
  by_cases hr : rest = []
  · rwa [hr, List.append_nil] at hd
  · refine formAt?_of_append hr ?_
    rw [Ne, ← formAt?_eq_none_iff, hd]
    simp

theorem get?_entry {m : Float} {es : List (Name × Node)}
    (h : fs.get? place = some (.directory m es)) (name : Name) :
    fs.get? (place ++ [name]) = es.lookup name := by
  rw [get?_append, h]
  cases hl : es.lookup name <;> simp [hl]

theorem mem_names_iff {m : Float} {es : List (Name × Node)}
    (h : fs.get? place = some (.directory m es)) :
    name ∈ es.map (·.1) ↔ fs.get? (place ++ [name]) ≠ none := by
  rw [Node.mem_names_iff, get?_entry h]

theorem isEmpty_iff {m : Float} {es : List (Name × Node)}
    (h : fs.get? place = some (.directory m es)) :
    es.isEmpty = true ↔ ∀ name, fs.get? (place ++ [name]) = none := by
  constructor
  · intro he name
    rw [get?_entry h, List.isEmpty_iff.1 he]
    rfl
  · intro he
    cases es with
    | nil => rfl
    | cons e es =>
      have hn : fs.get? (place ++ [e.1]) ≠ none := (mem_names_iff h).1 (by simp)
      exact absurd (he e.1) hn

theorem bareAt?_remove (hp : place ≠ []) (loc : Location) :
    (fs.remove place).bareAt? loc = if place <+: loc then none else fs.bareAt? loc :=
  Node.bare_get?_remove hp loc fs.root

theorem bareAt?_put (hp : place ≠ []) {new : Node} (h : new.WellFormed) (loc : Location) :
    (fs.put place new h).bareAt? loc =
      if place <+: loc then (new.get? (loc.drop place.length)).map Node.bare
      else if loc <+: place then some (Node.housing (fs.bareAt? loc))
      else fs.bareAt? loc := by
  unfold put bareAt?
  rw [dif_neg hp, Node.housing_bare]
  exact Node.bare_get?_put new place loc fs.root

/-- Putting a node into a directory changes what is at its place and below. -/
theorem bareAt?_put_entry (hd : fs.formAt? parent = some .directory) {new : Node}
    (h : new.WellFormed) (loc : Location) :
    (fs.put (parent ++ [name]) new h).bareAt? loc =
      if parent ++ [name] <+: loc then (new.get? (loc.drop (parent.length + 1))).map Node.bare
      else fs.bareAt? loc := by
  rw [bareAt?_put (by simp), List.length_append, List.length_singleton]
  by_cases hout : parent ++ [name] <+: loc
  · rw [if_pos hout, if_pos hout]
  rw [if_neg hout, if_neg hout]
  split
  · rename_i hl
    rcases List.prefix_concat_iff.1 hl with rfl | hl
    · exact absurd List.prefix_rfl hout
    · obtain ⟨m, es, hg⟩ := formAt?_eq_directory_iff.1 (formAt?_above hd hl)
      simp [bareAt?, hg, Node.housing]
  · rfl

theorem bareAt?_setModified (place : Location) (time : Float) (loc : Location) :
    (fs.setModified place time).bareAt? loc =
      if loc = place then (fs.bareAt? loc).map (Node.setModified time) else fs.bareAt? loc := by
  unfold setModified
  by_cases hp : place = []
  · obtain ⟨m, es, hr⟩ := Node.isDirectory_iff.1 fs.root_isDirectory
    rw [if_pos hp, hp]
    cases loc <;> simp [bareAt?, get?, hr, Node.setModified]
  · rw [if_neg hp]
    split
    · rename_i node hn
      obtain ⟨parent, name, rfl⟩ : ∃ parent name, place = parent ++ [name] :=
        ⟨place.dropLast, place.getLast hp, (List.dropLast_concat_getLast hp).symm⟩
      have hd : fs.formAt? parent = some .directory :=
        formAt?_of_append (by simp : [name] ≠ []) (by rw [hn]; simp)
      rw [bareAt?_put_entry hd]
      by_cases hl : parent ++ [name] <+: loc
      · obtain ⟨rest, rfl⟩ := hl
        rw [if_pos (List.prefix_append _ _), List.drop_left' (by simp)]
        cases rest with
        | nil => simp [bareAt?, hn]
        | cons n rest =>
          rw [if_neg (by simp), bareAt?, get?_append, hn]
          cases node <;> rfl
      · rw [if_neg hl, if_neg (by rintro rfl; exact hl List.prefix_rfl)]
    · rename_i hn
      split
      · rename_i hl
        rw [hl, bareAt?_eq_none_iff.2 hn]
        rfl
      · rfl

theorem bareAt?_touch (time : Option Float) (place loc : Location) :
    (fs.touch time place).bareAt? loc =
      if loc = place then (fs.bareAt? loc).map fun node => node.setModified (time.getD node.modified)
      else fs.bareAt? loc := by
  cases time with
  | some time => exact bareAt?_setModified place time loc
  | none =>
    have hs : ∀ node : Node, node.setModified node.modified = node := by
      intro node; cases node <;> rfl
    simp [touch, hs]

theorem formAt?_touch (time : Option Float) (place loc : Location) :
    (fs.touch time place).formAt? loc = fs.formAt? loc := by
  rw [formAt?_eq, formAt?_eq, bareAt?_touch]
  split
  · simp [Function.comp_def]
  · rfl

theorem formAt?_removeEntry (time : Option Float) (parent : Location) (name : Name)
    (loc : Location) :
    (fs.removeEntry time parent name).formAt? loc =
      if parent ++ [name] <+: loc then none else fs.formAt? loc := by
  unfold removeEntry
  rw [formAt?_touch, formAt?_eq, bareAt?_remove (by simp)]
  split
  · rfl
  · rw [formAt?_eq]

end FileSystem

end TreeRemoval
