import TreeRemoval.Proofs.FileSystem.Locate
import TreeRemoval.Proofs.FileSystem.Losses

/-! # Wear

Removals one after the other leave a node as it was, unless it is gone or has lost an entry: the
time of a directory changes with its entries alone.
-/

namespace TreeRemoval.FileSystem

variable {large fs fs' : FileSystem} {p : Path} {time : Option Float} {loc : Location} {node : Node}

def Worn (large fs : FileSystem) (loc : Location) : Prop :=
  ∃ n, large.get? (loc ++ [n]) ≠ none ∧ fs.get? (loc ++ [n]) = none

/-- Nodes have vanished, and what is left is as it was if no entry of it has. -/
structure Wears (large fs : FileSystem) : Prop where
  le : fs ≤ large
  bareAt? : ∀ loc, fs.bareAt? loc = large.bareAt? loc ∨ fs.bareAt? loc = none ∨ large.Worn fs loc

theorem not_worn_self (fs : FileSystem) (loc : Location) : ¬ fs.Worn fs loc :=
  fun ⟨_, hthere, hgone⟩ => hthere hgone

theorem Worn.of_le (h : large.Worn fs loc) (hle : fs' ≤ fs) : large.Worn fs' loc := by
  obtain ⟨n, hthere, hgone⟩ := h
  refine ⟨n, hthere, ?_⟩
  by_contra hn
  exact get?_ne_none_of_le hle hn hgone

theorem Removes.worn (h : fs.Removes time p fs') (hl : fs'.get? loc ≠ none)
    (hw : large.Worn fs' loc) :
    large.Worn fs loc ∨ ∃ n, fs.locate false p = .ok (loc ++ [n]) ∧ fs.get? (loc ++ [n]) ≠ none := by
  obtain ⟨parent, name, hp, hnode, -, rfl⟩ := h
  obtain ⟨n, hthere, hgone⟩ := hw
  by_cases hn : fs.get? (loc ++ [n]) = none
  · exact Or.inl ⟨n, hthere, hn⟩
  have hbelow : parent ++ [name] <+: loc ++ [n] := by
    by_contra hoff
    rw [← formAt?_eq_none_iff, formAt?_removeEntry, if_neg hoff, formAt?_eq_none_iff] at hgone
    exact hn hgone
  rcases List.prefix_concat_iff.1 hbelow with he | hp'
  · exact Or.inr ⟨n, he ▸ hp, hn⟩
  · rw [Ne, ← formAt?_eq_none_iff, formAt?_removeEntry, if_pos hp'] at hl
    exact absurd rfl hl

namespace Wears

theorem refl (fs : FileSystem) : fs.Wears fs := ⟨le_refl fs, fun _ => Or.inl rfl⟩

theorem removes (h : large.Wears fs) (hr : fs.Removes time p fs') : large.Wears fs' := by
  have hle := hr.le
  refine ⟨le_trans hle h.le, fun loc => ?_⟩
  obtain ⟨parent, name, -, hnode, -, rfl⟩ := hr
  rw [bareAt?_removeEntry]
  split
  · exact Or.inr (Or.inl rfl)
  split
  · rename_i hparent
    refine Or.inr (Or.inr ⟨name, ?_, ?_⟩)
    · rw [hparent]
      exact get?_ne_none_of_le h.le hnode
    · rw [hparent, ← formAt?_eq_none_iff, formAt?_removeEntry, if_pos List.prefix_rfl]
  · rcases h.bareAt? loc with he | he | he
    · exact Or.inl he
    · exact Or.inr (Or.inl he)
    · exact Or.inr (Or.inr (he.of_le hle))

theorem worn_of_modified (h : large.Wears fs) (hn : fs.get? loc = some node)
    (hold : ∀ old, large.get? loc = some old → old.modified ≠ node.modified) :
    large.Worn fs loc := by
  have hbare : fs.bareAt? loc = some node.bare := by rw [FileSystem.bareAt?, hn]; rfl
  rcases h.bareAt? loc with he | he | he
  · rw [hbare] at he
    obtain ⟨old, hold', hsame⟩ := Option.map_eq_some_iff.1 he.symm
    refine absurd ?_ (hold old hold')
    rw [← Node.modified_bare, hsame, Node.modified_bare]
  · rw [hbare] at he; cases he
  · exact he

end Wears

end TreeRemoval.FileSystem
