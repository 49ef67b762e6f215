import Mathlib.Order.Defs.PartialOrder
import TreeRemoval.Proofs.FileSystem.Contents
import TreeRemoval.Proofs.Path.Text

/-! # Where paths lead

A walk depends only on the forms of the nodes that it meets. If nodes vanish, a walk leads to the
same place as before or to nothing; it leads to the same place if the nodes on its trail stay. A
walk to a child is a walk to the directory and one step more.
-/

namespace TreeRemoval

def Arrival.place : Arrival → Location
  | .inside place => place
  | .entry parent name _ => parent ++ [name]

namespace FileSystem

/-- Everything in the smaller file system is in the larger one, in the same form. -/
instance : Preorder FileSystem where
  le small large := ∀ place form, small.formAt? place = some form → large.formAt? place = some form
  le_refl _ _ _ h := h
  le_trans _ _ _ h h' place form hf := h' place form (h place form hf)

variable {fs small large : FileSystem} {followLast : Bool} {links : Nat} {place loc : Location}
  {steps rest : List Step} {name : Name}

theorem get?_ne_none_of_le (h : small ≤ large) (hs : small.get? place ≠ none) :
    large.get? place ≠ none := by
  rw [Ne, ← formAt?_eq_none_iff] at hs ⊢
  obtain ⟨form, hf⟩ := Option.ne_none_iff_exists'.1 hs
  rw [h place form hf]
  simp

theorem removeEntry_le (fs : FileSystem) (time : Option Float) (parent : Location) (name : Name) :
    fs.removeEntry time parent name ≤ fs := by
  intro place form h
  rw [formAt?_removeEntry] at h
  split at h
  · cases h
  · exact h

theorem remove_le (fs : FileSystem) (place : Location) : fs.remove place ≤ fs := by
  intro loc form h
  by_cases hp : place = []
  · rw [hp] at h
    exact h
  · rw [formAt?_eq, bareAt?_remove hp] at h
    split at h
    · cases h
    · rwa [formAt?_eq]

/-- Where the target of a link found in a place is walked from. -/
def linkStart (place : Location) (target : String) : Location :=
  if Anchor.ofText target = .here then place else []

def follow (fs : FileSystem) (followLast : Bool) :
    Nat → Location → String → List Step → Except Errno Arrival
  | 0, _, _, _ => .error .eloop
  | links + 1, place, target, rest =>
    fs.walk followLast links (linkStart place target) (Step.ofPath target ++ rest)

theorem walk_eq : fs.walk followLast links place steps =
    fs.walkWith (fs.follow followLast links) followLast place steps := by
  cases links <;> rfl

theorem walk_nil : fs.walk followLast links place [] = .ok (.inside place) := by
  rw [walk_eq]; rfl

theorem walk_stay : fs.walk followLast links place (.stay :: rest) =
    fs.walk followLast links place rest := by
  rw [walk_eq, walk_eq]; rfl

theorem walk_up : fs.walk followLast links place (.up :: rest) =
    fs.walk followLast links place.dropLast rest := by
  rw [walk_eq, walk_eq]; rfl

theorem walk_enter : fs.walk followLast links place (.enter name :: rest) =
    if name.isTooLong then .error .enametoolong
    else
      match fs.get? (place ++ [name]) with
      | none => if rest.isEmpty then .ok (.entry place name none) else .error .enoent
      | some (.link target time) =>
        if rest.isEmpty && !followLast then .ok (.entry place name (some (.link target time)))
        else fs.follow followLast links place target rest
      | some node =>
        if rest.isEmpty then .ok (.entry place name (some node))
        else if node.isDirectory then fs.walk followLast links (place ++ [name]) rest
        else .error .enotdir := by
  rw [walk_eq, walk_eq]; rfl

/-- Walks are by recursion on the links left to follow, then on the steps. -/
theorem walk_induction {motive : Nat → Location → List Step → Prop}
    (nil : ∀ links place, motive links place [])
    (stay : ∀ links place rest, motive links place rest → motive links place (.stay :: rest))
    (up : ∀ links place rest, motive links place.dropLast rest → motive links place (.up :: rest))
    (enter : ∀ links place name rest, motive links (place ++ [name]) rest →
      (∀ fewer target, links = fewer + 1 →
        motive fewer (linkStart place target) (Step.ofPath target ++ rest)) →
      motive links place (.enter name :: rest))
    (links : Nat) (place : Location) (steps : List Step) : motive links place steps := by
  induction links generalizing place steps with
  | zero =>
    induction steps generalizing place with
    | nil => exact nil 0 place
    | cons step rest ih =>
      cases step with
      | stay => exact stay 0 place rest (ih place)
      | up => exact up 0 place rest (ih place.dropLast)
      | enter name => exact enter 0 place name rest (ih _) (by omega)
  | succ links ihl =>
    induction steps generalizing place with
    | nil => exact nil _ place
    | cons step rest ih =>
      cases step with
      | stay => exact stay _ place rest (ih place)
      | up => exact up _ place rest (ih place.dropLast)
      | enter name =>
        refine enter _ place name rest (ih _) fun fewer target h => ?_
        obtain rfl : links = fewer := by omega
        exact ihl _ _

theorem formAt?_linkStart (hd : fs.formAt? place = some .directory) (target : String) :
    fs.formAt? (linkStart place target) = some .directory := by
  unfold linkStart
  split
  · exact hd
  · exact formAt?_root fs

theorem formAt?_dropLast (hd : fs.formAt? place = some .directory) :
    fs.formAt? place.dropLast = some .directory := by
  by_cases hp : place = []
  · rw [hp]; exact formAt?_root fs
  · refine formAt?_of_append (by simp : [place.getLast hp] ≠ []) ?_
    rw [List.dropLast_concat_getLast hp, Ne, ← formAt?_eq_none_iff, hd]
    simp

def Arrival.Sound (fs : FileSystem) : Arrival → Prop
  | .inside place => fs.formAt? place = some .directory
  | .entry parent name node =>
    fs.formAt? parent = some .directory ∧ node = fs.get? (parent ++ [name])

theorem walk_sound (hd : fs.formAt? place = some .directory) {arrival : Arrival}
    (h : fs.walk followLast links place steps = .ok arrival) : Arrival.Sound fs arrival := by
  induction links, place, steps using walk_induction with
  | nil links place =>
    rw [walk_nil] at h
    cases h
    exact hd
  | stay links place rest ih => exact ih hd (walk_stay ▸ h)
  | up links place rest ih => exact ih (formAt?_dropLast hd) (walk_up ▸ h)
  | enter links place name rest ih ihl =>
    rw [walk_enter] at h
    split at h
    · cases h
    · split at h
      · rename_i hn
        split at h <;> cases h
        exact ⟨hd, hn.symm⟩
      · rename_i target time hn
        split at h
        · cases h
          exact ⟨hd, hn.symm⟩
        · cases links with
          | zero => cases h
          | succ links => exact ihl links target rfl (formAt?_linkStart hd target) h
      · rename_i node _ hn
        split at h
        · cases h
          exact ⟨hd, hn.symm⟩
        · split at h
          · rename_i hdir
            refine ih ?_ h
            simp [formAt?, hn, Node.isDirectory_iff_form.1 hdir]
          · cases h

theorem resolve_sound {workingDirectory t : String} {arrival : Arrival}
    (h : fs.resolve workingDirectory followLast t = .ok arrival) : Arrival.Sound fs arrival := by
  unfold resolve at h
  split at h
  · cases h
  split at h
  · cases h
  · exact walk_sound (formAt?_root fs) h

def reach (fs : FileSystem) (followLast : Bool) (links : Nat) (place : Location)
    (steps : List Step) : Except Errno Location :=
  (fs.walk followLast links place steps).map Arrival.place

theorem reach_nil : fs.reach followLast links place [] = .ok place := by
  rw [reach, walk_nil]; rfl

theorem reach_stay : fs.reach followLast links place (.stay :: rest) =
    fs.reach followLast links place rest := by
  rw [reach, walk_stay]; rfl

theorem reach_up : fs.reach followLast links place (.up :: rest) =
    fs.reach followLast links place.dropLast rest := by
  rw [reach, walk_up]; rfl

def reachFollowing (fs : FileSystem) (followLast : Bool) :
    Nat → Location → String → List Step → Except Errno Location
  | 0, _, _, _ => .error .eloop
  | links + 1, place, target, rest =>
    fs.reach followLast links (linkStart place target) (Step.ofPath target ++ rest)

/-- A step to a name is decided by the form of the node of that name. -/
theorem reach_enter : fs.reach followLast links place (.enter name :: rest) =
    if name.isTooLong then .error .enametoolong
    else
      match fs.formAt? (place ++ [name]) with
      | none => if rest.isEmpty then .ok (place ++ [name]) else .error .enoent
      | some (.link target) =>
        if rest.isEmpty && !followLast then .ok (place ++ [name])
        else fs.reachFollowing followLast links place target rest
      | some .directory => fs.reach followLast links (place ++ [name]) rest
      | some .file | some .other =>
        if rest.isEmpty then .ok (place ++ [name]) else .error .enotdir := by
  rw [reach, walk_enter, formAt?]
  split
  · rfl
  · cases hn : fs.get? (place ++ [name]) with
    | none => cases rest <;> rfl
    | some node =>
      cases node with
      | directory m es =>
        cases rest with
        | nil => simp [Node.form, reach_nil]; rfl
        | cons step rest => rfl
      | file m | other m => cases rest <;> rfl
      | link target m =>
        simp only [Option.map_some, Node.form]
        split
        · rfl
        · cases links <;> rfl

theorem reach_ne_etimedout (fs : FileSystem) (links : Nat) (place : Location) (steps : List Step) :
    fs.reach followLast links place steps ≠ .error .etimedout := by
  induction links, place, steps using walk_induction with
  | nil links place => rw [reach_nil]; nofun
  | stay links place rest ih => rwa [reach_stay]
  | up links place rest ih => rwa [reach_up]
  | enter links place name rest ih ihl =>
    rw [reach_enter]
    split
    · nofun
    split
    · split <;> nofun
    · rename_i target _
      split
      · nofun
      · cases links with
        | zero => nofun
        | succ links => exact ihl links target rfl
    · exact ih
    all_goals split <;> nofun

theorem reach_of_le (h : small ≤ large) (links : Nat) (place : Location) (steps : List Step) :
    small.reach followLast links place steps = large.reach followLast links place steps ∨
      small.reach followLast links place steps = .error .enoent ∨
        ∃ loc, small.reach followLast links place steps = .ok loc ∧ small.formAt? loc = none := by
  induction links, place, steps using walk_induction with
  | nil links place => exact Or.inl (by rw [reach_nil, reach_nil])
  | stay links place rest ih => simpa only [reach_stay] using ih
  | up links place rest ih => simpa only [reach_up] using ih
  | enter links place name rest ih ihl =>
    simp only [reach_enter]
    by_cases ht : name.isTooLong
    · simp [ht]
    · rw [if_neg ht, if_neg ht]
      cases hs : small.formAt? (place ++ [name]) with
      | none =>
        cases rest with
        | nil => exact Or.inr (Or.inr ⟨_, rfl, hs⟩)
        | cons => exact Or.inr (Or.inl rfl)
      | some form =>
        rw [h _ _ hs]
        cases form with
        | file | other => exact Or.inl rfl
        | directory => exact ih
        | link target =>
          by_cases hl : (rest.isEmpty && !followLast) = true
          · simp [hl]
          · simp only [hl]
            cases links with
            | zero => exact Or.inl rfl
            | succ links => exact ihl links target rfl

theorem reach_mono (h : small ≤ large) (hr : small.reach followLast links place steps = .ok loc)
    (hl : small.formAt? loc ≠ none) : large.reach followLast links place steps = .ok loc := by
  rcases reach_of_le h links place steps with he | he | ⟨loc', he, hn⟩
  · exact he ▸ hr
  · rw [he] at hr; cases hr
  · rw [he] at hr
    cases hr
    exact absurd hn hl

theorem reach_true_or (fs : FileSystem) (links : Nat) (place : Location) (steps : List Step) :
    fs.reach true links place steps = fs.reach false links place steps ∨
      ∃ loc target, fs.reach false links place steps = .ok loc ∧
        fs.formAt? loc = some (.link target) := by
  induction links, place, steps using walk_induction with
  | nil links place => exact Or.inl (by rw [reach_nil, reach_nil])
  | stay links place rest ih => simpa only [reach_stay] using ih
  | up links place rest ih => simpa only [reach_up] using ih
  | enter links place name rest ih ihl =>
    simp only [reach_enter]
    by_cases ht : name.isTooLong
    · simp [ht]
    · rw [if_neg ht, if_neg ht]
      cases hs : fs.formAt? (place ++ [name]) with
      | none => exact Or.inl rfl
      | some form =>
        cases form with
        | file | other => exact Or.inl rfl
        | directory => exact ih
        | link target =>
          cases rest with
          | nil => exact Or.inr ⟨_, target, rfl, hs⟩
          | cons step rest =>
            cases links with
            | zero => exact Or.inl rfl
            | succ links => exact ihl links target rfl

/-- The last step of a walk that does not follow a last link: to a name in a directory. -/
def enterLast (fs : FileSystem) (place : Location) (name : Name) : Except Errno Arrival :=
  match fs.formAt? place with
  | none => .error .enoent
  | some .directory =>
    if name.isTooLong then .error .enametoolong
    else .ok (.entry place name (fs.get? (place ++ [name])))
  | some _ => .error .enotdir

theorem enterLast_of_none (h : fs.formAt? place = none) (name : Name) :
    fs.enterLast place name = .error .enoent := by
  rw [enterLast, h]

theorem enterLast_of_not_directory {form : Form} (h : fs.formAt? place = some form)
    (hf : form ≠ .directory) (name : Name) : fs.enterLast place name = .error .enotdir := by
  rw [enterLast, h]
  cases form <;> first | rfl | exact absurd rfl hf

theorem walk_concat_enter (hd : fs.formAt? place = some .directory) (name : Name) :
    fs.walk false links place (steps ++ [.enter name]) =
      fs.reach true links place steps >>= fun loc => fs.enterLast loc name := by
  induction links, place, steps using walk_induction with
  | nil links place =>
    rw [List.nil_append, walk_enter, reach_nil]
    change _ = fs.enterLast place name
    rw [enterLast, hd]
    split
    · rfl
    · cases hn : fs.get? (place ++ [name]) with
      | none => rfl
      | some node => cases node <;> rfl
  | stay links place rest ih =>
    rw [List.cons_append, walk_stay, reach_stay]
    exact ih hd
  | up links place rest ih =>
    rw [List.cons_append, walk_up, reach_up]
    exact ih (formAt?_dropLast hd)
  | enter links place first rest ih ihl =>
    have hne : (rest ++ [Step.enter name]).isEmpty = false := by simp
    rw [List.cons_append, walk_enter, reach_enter, hne]
    split
    · rfl
    · cases hn : fs.get? (place ++ [first]) with
      | none =>
        have hf : fs.formAt? (place ++ [first]) = none := by simp [formAt?, hn]
        rw [hf]
        cases rest with
        | nil => exact (enterLast_of_none hf name).symm
        | cons => rfl
      | some node =>
        have hf : fs.formAt? (place ++ [first]) = some node.form := by simp [formAt?, hn]
        rw [hf]
        cases node with
        | directory m es => exact ih hf
        | file m | other m =>
          cases rest with
          | nil => exact (enterLast_of_not_directory hf (by simp [Node.form]) name).symm
          | cons => rfl
        | link target m =>
          cases links with
          | zero => cases rest <;> rfl
          | succ links =>
            have hi := ihl links target rfl (formAt?_linkStart hd target)
            simp only [Node.form, Bool.false_and, Bool.not_true, Bool.and_false]
            rw [List.append_assoc] at hi
            exact hi

theorem reach_concat_up (h : fs.reach followLast links place (steps ++ [.up]) = .ok loc) :
    ∃ below, fs.reach true links place steps = .ok below ∧ loc = below.dropLast := by
  induction links, place, steps using walk_induction with
  | nil links place =>
    rw [List.nil_append, reach_up, reach_nil] at h
    exact ⟨place, reach_nil, (Except.ok.inj h).symm⟩
  | stay links place rest ih =>
    rw [List.cons_append, reach_stay] at h
    rw [reach_stay]
    exact ih h
  | up links place rest ih =>
    rw [List.cons_append, reach_up] at h
    rw [reach_up]
    exact ih h
  | enter links place name rest ih ihl =>
    have hne : (rest ++ [Step.up]).isEmpty = false := by simp
    rw [List.cons_append, reach_enter, hne] at h
    rw [reach_enter]
    split at h
    · cases h
    · rename_i ht
      rw [if_neg ht]
      cases hf : fs.formAt? (place ++ [name]) with
      | none => simp [hf] at h
      | some form =>
        rw [hf] at h
        cases form with
        | file | other => cases h
        | directory => exact ih h
        | link target =>
          cases links with
          | zero => cases h
          | succ links =>
            simp only [Bool.false_and, Bool.false_eq_true, if_false, reachFollowing,
              ← List.append_assoc] at h
            simp only [Bool.not_true, Bool.and_false, Bool.false_eq_true, if_false]
            exact ihl links target rfl h

end FileSystem

end TreeRemoval
