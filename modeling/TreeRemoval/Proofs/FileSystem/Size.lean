import TreeRemoval.Proofs.FileSystem.Locate

/-! # Sizes of file systems

Each place with a node is listed once among the places of a tree, so the removal of a node with
nothing below it makes the file system smaller by one node.
-/

namespace TreeRemoval

namespace Node

variable {name : Name} {es : List (Name × Node)} {node : Node} {place : Location}

theorem map_descendantsOfEach_cons :
    (descendantsOfEach ((name, node) :: es)).map (·.1) =
      node.places.map (name :: ·) ++ (descendantsOfEach es).map (·.1) := by
  simp [descendantsOfEach, places, Function.comp_def]

theorem mem_descendantsOfEach_iff :
    place ∈ (descendantsOfEach es).map (·.1) ↔
      ∃ name node rest, (name, node) ∈ es ∧ rest ∈ node.places ∧ place = name :: rest := by
  induction es with
  | nil => simp [descendantsOfEach]
  | cons e es ih =>
    obtain ⟨name, node⟩ := e
    rw [map_descendantsOfEach_cons, List.mem_append, ih, List.mem_map]
    constructor
    · rintro (⟨rest, hr, rfl⟩ | ⟨n, child, rest, hm, hr, rfl⟩)
      · exact ⟨name, node, rest, List.mem_cons_self, hr, rfl⟩
      · exact ⟨n, child, rest, List.mem_cons_of_mem _ hm, hr, rfl⟩
    · rintro ⟨n, child, rest, hm, hr, rfl⟩
      rcases List.mem_cons.1 hm with he | hm
      · cases he
        exact Or.inl ⟨rest, hr, rfl⟩
      · exact Or.inr ⟨n, child, rest, hm, hr, rfl⟩

theorem WellFormed.nodup_places (h : node.WellFormed) : node.places.Nodup := by
  induction h with
  | file | other | link => simp [places, descendants]
  | @directory m es nodup each ih =>
    have hbelow : ((descendantsOfEach es).map (·.1)).Nodup := by
      clear each
      induction es with
      | nil => simp [descendantsOfEach]
      | cons e es ihes =>
        obtain ⟨name, node⟩ := e
        obtain ⟨hname, nodup⟩ := List.nodup_cons.1 nodup
        rw [map_descendantsOfEach_cons]
        refine List.nodup_append.2
          ⟨List.Pairwise.map _ (fun _ _ hne he => hne (List.cons.inj he).2)
            (ih _ List.mem_cons_self),
          ihes nodup fun e he => ih e (List.mem_cons_of_mem _ he), ?_⟩
        rintro _ hfirst _ hrest rfl
        obtain ⟨rest, -, rfl⟩ := List.mem_map.1 hfirst
        obtain ⟨n, child, rest', hm, -, he⟩ := mem_descendantsOfEach_iff.1 hrest
        cases he
        exact hname (List.mem_map.2 ⟨_, hm, rfl⟩)
    refine List.nodup_cons.2 ⟨fun h => ?_, hbelow⟩
    obtain ⟨n, child, rest, -, -, he⟩ := mem_descendantsOfEach_iff.1 h
    cases he

theorem WellFormed.mem_places_iff (h : node.WellFormed) :
    place ∈ node.places ↔ get? place node ≠ none := by
  refine ⟨fun hp => ?_, mem_places⟩
  induction place generalizing node with
  | nil => simp
  | cons name rest ih =>
    obtain hp : name :: rest ∈ node.descendants.map (·.1) := by simpa [places] using hp
    cases h with
    | file | other | link => simp [descendants] at hp
    | @directory m es nodup each =>
      obtain ⟨n, child, rest', hm, hrest, he⟩ := mem_descendantsOfEach_iff.1 hp
      cases he
      rw [get?_directory, lookup_of_mem nodup hm]
      exact ih (each _ hm) hrest

end Node

namespace FileSystem

variable {fs : FileSystem} {parent : Location} {name : Name}

def size (fs : FileSystem) : Nat := fs.root.descendants.length

theorem length_places (fs : FileSystem) : fs.root.places.length = fs.size + 1 := by
  simp [Node.places, size]

theorem size_removeEntry (hn : fs.get? (parent ++ [name]) ≠ none)
    (hbelow : ∀ n, fs.get? (parent ++ [name] ++ [n]) = none) (time : Option Float) :
    (fs.removeEntry time parent name).size + 1 = fs.size := by
  have hplaces : ((fs.removeEntry time parent name).root.places).Perm
      (fs.root.places.erase (parent ++ [name])) := by
    refine (List.perm_ext_iff_of_nodup (fs.removeEntry time parent name).wellFormed.nodup_places
      (fs.wellFormed.nodup_places.erase _)).2 fun loc => ?_
    rw [(fs.removeEntry time parent name).wellFormed.mem_places_iff,
      fs.wellFormed.nodup_places.mem_erase_iff, fs.wellFormed.mem_places_iff]
    change (fs.removeEntry time parent name).get? loc ≠ none ↔
      loc ≠ parent ++ [name] ∧ fs.get? loc ≠ none
    rw [Ne, ← formAt?_eq_none_iff, formAt?_removeEntry]
    by_cases hstarts : parent ++ [name] <+: loc
    · rw [if_pos hstarts]
      obtain ⟨rest, rfl⟩ := hstarts
      refine iff_of_false (by simp) ?_
      rintro ⟨hne, hloc⟩
      cases rest with
      | nil => simp at hne
      | cons n rest =>
        rw [List.append_cons, get?_append, hbelow n] at hloc
        exact hloc rfl
    · rw [if_neg hstarts, formAt?_eq_none_iff]
      refine (and_iff_right ?_).symm
      rintro rfl
      exact hstarts List.prefix_rfl
  have hlength := hplaces.length_eq
  rw [List.length_erase_of_mem (fs.wellFormed.mem_places_iff.2 hn), length_places, length_places]
    at hlength
  omega

theorem Detaches.size {workingDirectory t : String} {time : Option Float} {fs' : FileSystem}
    (h : fs.Detaches workingDirectory time t fs') : fs'.size + 1 = fs.size := by
  obtain ⟨parent, name, node, -, hn, hbelow, rfl⟩ := h
  exact size_removeEntry (by simp [hn]) hbelow time

end FileSystem

end TreeRemoval
