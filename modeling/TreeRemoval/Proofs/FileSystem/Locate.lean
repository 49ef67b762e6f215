import Mathlib.Data.List.Induction
import TreeRemoval.Proofs.FileSystem.Resolution

/-! # Calls on paths

What the calls of a file system answer for the text of an absolute path, in terms of the place that
the path leads to. A call that removes an entry takes away a node with nothing below it.
-/

namespace TreeRemoval

theorem except_map_eq_ok_iff {ε α β : Type} {f : α → β} {x : Except ε α} {b : β} :
    x.map f = .ok b ↔ ∃ a, x = .ok a ∧ f a = b := by
  cases x <;> simp [Except.map]

theorem except_map_eq_error_iff {ε α β : Type} {f : α → β} {x : Except ε α} {e : ε} :
    x.map f = .error e ↔ x = .error e := by
  cases x <;> simp [Except.map]

namespace FileSystem

variable {fs fs' small large : FileSystem} {workingDirectory : String} {followLast : Bool}
  {p : Path} {place loc : Location} {name : Name} {time : Option Float}

def locate (fs : FileSystem) (followLast : Bool) (p : Path) : Except Errno Location :=
  if maxPathBytes < p.text.utf8ByteSize then .error .enametoolong
  else fs.reach followLast linkLimit [] p.steps

theorem resolve_text (hp : p.Proper) (ha : p.isAbsolute = true) :
    fs.resolve workingDirectory followLast p.text =
      if maxPathBytes < p.text.utf8ByteSize then .error .enametoolong
      else fs.walk followLast linkLimit [] p.steps := by
  unfold resolve
  rw [if_neg (Path.text_ne_empty ha)]
  split
  · rfl
  · simp only [if_neg (Path.anchor_text_ne_here hp ha), List.nil_append, Path.ofPath_text hp ha]

theorem locate_of_resolve (hp : p.Proper) (ha : p.isAbsolute = true) {arrival : Arrival}
    (h : fs.resolve workingDirectory followLast p.text = .ok arrival) :
    fs.locate followLast p = .ok arrival.place ∧ Arrival.Sound fs arrival := by
  rw [resolve_text hp ha] at h
  unfold locate
  split at h
  · cases h
  · rename_i hl
    rw [if_neg hl, reach, h]
    exact ⟨rfl, walk_sound (formAt?_root fs) h⟩

theorem nodeAt?_eq {arrival : Arrival} (h : Arrival.Sound fs arrival) :
    fs.nodeAt? arrival = fs.get? arrival.place := by
  cases arrival with
  | inside place => rfl
  | entry parent name node => exact h.2

theorem locate_eq (hp : p.Proper) (ha : p.isAbsolute = true) (workingDirectory : String) :
    fs.locate followLast p = (fs.resolve workingDirectory followLast p.text).map Arrival.place := by
  rw [resolve_text hp ha, locate]
  split <;> rfl

/-- The node that a text leads to is the one at the place it leads to. -/
theorem lookup_eq (fs : FileSystem) (workingDirectory : String) (followLast : Bool) (t : String) :
    fs.lookup workingDirectory followLast t =
      (fs.resolve workingDirectory followLast t).map Arrival.place >>= fun loc =>
        match fs.get? loc with
        | some node => .ok node
        | none => .error .enoent := by
  unfold lookup
  cases h : fs.resolve workingDirectory followLast t with
  | error e => rfl
  | ok arrival =>
    change (match fs.nodeAt? arrival with
        | some node => Except.ok node
        | none => Except.error Errno.enoent) =
      match fs.get? arrival.place with
        | some node => Except.ok node
        | none => Except.error Errno.enoent
    rw [nodeAt?_eq (resolve_sound h)]

theorem lookup_eq_ok_iff_resolve {t : String} {node : Node} :
    fs.lookup workingDirectory followLast t = .ok node ↔
      ∃ arrival, fs.resolve workingDirectory followLast t = .ok arrival ∧
        fs.get? arrival.place = some node := by
  rw [lookup_eq]
  cases h : fs.resolve workingDirectory followLast t with
  | error e => simp [bind, Except.bind, Except.map]
  | ok arrival =>
    simp only [bind, Except.bind, Except.map, Except.ok.injEq, exists_eq_left']
    cases fs.get? arrival.place <;> simp

theorem lookup_eq_ok_iff (hp : p.Proper) (ha : p.isAbsolute = true) {node : Node} :
    fs.lookup workingDirectory followLast p.text = .ok node ↔
      ∃ loc, fs.locate followLast p = .ok loc ∧ fs.get? loc = some node := by
  simp only [lookup_eq_ok_iff_resolve, locate_eq hp ha workingDirectory, except_map_eq_ok_iff]
  constructor
  · rintro ⟨arrival, hr, hn⟩
    exact ⟨_, ⟨arrival, hr, rfl⟩, hn⟩
  · rintro ⟨_, ⟨arrival, hr, rfl⟩, hn⟩
    exact ⟨arrival, hr, hn⟩

theorem lookup_eq_error_iff (hp : p.Proper) (ha : p.isAbsolute = true) {e : Errno} :
    fs.lookup workingDirectory followLast p.text = .error e ↔
      fs.locate followLast p = .error e ∨
        ∃ loc, fs.locate followLast p = .ok loc ∧ fs.get? loc = none ∧ e = .enoent := by
  rw [lookup_eq, ← locate_eq hp ha]
  cases fs.locate followLast p with
  | error e => simp [bind, Except.bind]
  | ok loc =>
    simp only [bind, Except.bind, Except.ok.injEq, exists_eq_left', reduceCtorEq, false_or]
    cases fs.get? loc <;> simp [eq_comm]

theorem exists_arrival_of_stat {t : String} {status : Status}
    (h : fs.stat workingDirectory t = .ok status) :
    ∃ arrival node, fs.resolve workingDirectory true t = .ok arrival ∧
      fs.get? arrival.place = some node ∧ node.status = status := by
  obtain ⟨node, hn, hs⟩ := except_map_eq_ok_iff.1 h
  obtain ⟨arrival, hr, hg⟩ := lookup_eq_ok_iff_resolve.1 hn
  exact ⟨arrival, node, hr, hg, hs⟩

theorem stat_eq_ok_iff (hp : p.Proper) (ha : p.isAbsolute = true) {status : Status} :
    fs.stat workingDirectory p.text = .ok status ↔
      ∃ loc node, fs.locate true p = .ok loc ∧ fs.get? loc = some node ∧ node.status = status := by
  simp only [stat, except_map_eq_ok_iff, lookup_eq_ok_iff hp ha]
  constructor
  · rintro ⟨node, ⟨loc, hl, hn⟩, hs⟩; exact ⟨loc, node, hl, hn, hs⟩
  · rintro ⟨loc, node, hl, hn, hs⟩; exact ⟨node, ⟨loc, hl, hn⟩, hs⟩

theorem lstat_eq_ok_iff (hp : p.Proper) (ha : p.isAbsolute = true) {status : Status} :
    fs.lstat workingDirectory p.text = .ok status ↔
      ∃ loc node, fs.locate false p = .ok loc ∧ fs.get? loc = some node ∧ node.status = status := by
  simp only [lstat, except_map_eq_ok_iff, lookup_eq_ok_iff hp ha]
  constructor
  · rintro ⟨node, ⟨loc, hl, hn⟩, hs⟩; exact ⟨loc, node, hl, hn, hs⟩
  · rintro ⟨loc, node, hl, hn, hs⟩; exact ⟨node, ⟨loc, hl, hn⟩, hs⟩

theorem list_eq_ok_iff (hp : p.Proper) (ha : p.isAbsolute = true) {names : List Name} :
    fs.list workingDirectory p.text = .ok names ↔
      ∃ loc m es, fs.locate true p = .ok loc ∧ fs.get? loc = some (.directory m es) ∧
        es.map (·.1) = names := by
  unfold list
  cases h : fs.lookup workingDirectory true p.text with
  | error e =>
    simp only [bind, Except.bind, reduceCtorEq, false_iff, not_exists, not_and]
    intro loc m es hl hn
    rw [(lookup_eq_ok_iff hp ha).2 ⟨loc, hl, hn⟩] at h
    cases h
  | ok node =>
    obtain ⟨loc, hl, hn⟩ := (lookup_eq_ok_iff hp ha).1 h
    simp only [bind, Except.bind, hl, Except.ok.injEq, exists_and_left, exists_eq_left', hn,
      Option.some.injEq]
    cases node with
    | directory m es =>
      simp only [Except.ok.injEq, Node.directory.injEq]
      constructor
      · intro h; exact ⟨m, es, ⟨rfl, rfl⟩, h⟩
      · rintro ⟨_, _, ⟨rfl, rfl⟩, h⟩; exact h
    | file | other | link => simp

theorem list_eq_ok_iff_lookup {t : String} {names : List Name} :
    fs.list workingDirectory t = .ok names ↔
      ∃ m es, fs.lookup workingDirectory true t = .ok (.directory m es) ∧ es.map (·.1) = names := by
  unfold list
  cases fs.lookup workingDirectory true t with
  | error e => simp [bind, Except.bind]
  | ok node => cases node <;> simp [bind, Except.bind, and_assoc]

theorem nodup_of_list {t : String} {names : List Name} (h : fs.list workingDirectory t = .ok names) :
    names.Nodup := by
  obtain ⟨m, es, hl, rfl⟩ := list_eq_ok_iff_lookup.1 h
  obtain ⟨arrival, -, hnode⟩ := lookup_eq_ok_iff_resolve.1 hl
  cases fs.wellFormed.of_get? hnode with
  | directory nodup each => exact nodup

/-! ### Paths of children -/

theorem locate_child_eq_ok_iff (ha : p.isAbsolute = true) :
    fs.locate false (p.child name) = .ok loc ↔
      (p.child name).text.utf8ByteSize ≤ maxPathBytes ∧ name.isTooLong = false ∧
        ∃ parent, fs.locate true p = .ok parent ∧ fs.formAt? parent = some .directory ∧
          loc = parent ++ [name] := by
  have hlt := Path.utf8ByteSize_text_lt_child ha name
  unfold locate
  by_cases hb : maxPathBytes < (p.child name).text.utf8ByteSize
  · rw [if_pos hb]
    simp; omega
  · rw [if_neg hb, if_neg (by omega), Path.steps_child, reach, walk_concat_enter (formAt?_root fs)]
    cases hr : fs.reach true linkLimit [] p.steps with
    | error e => simp [bind, Except.bind, Except.map]
    | ok parent =>
      simp only [bind, Except.bind, Except.ok.injEq, exists_eq_left']
      cases hf : fs.formAt? parent with
      | none => simp [enterLast, hf, Except.map]
      | some form =>
        cases form <;> cases ht : name.isTooLong <;>
          simp [enterLast, hf, ht, Except.map, Arrival.place, eq_comm]
        omega

/-- A child of a directory is refused for a length, or leads to the entry of its name. -/
theorem locate_child (ha : p.isAbsolute = true) (hl : fs.locate true p = .ok place)
    (hd : fs.formAt? place = some .directory) (n : Name) :
    fs.locate false (p.child n) =
      if maxPathBytes < (p.child n).text.utf8ByteSize ∨ n.isTooLong = true then .error .enametoolong
      else .ok (place ++ [n]) := by
  have hlt := Path.utf8ByteSize_text_lt_child ha n
  unfold locate at *
  split at hl
  · cases hl
  by_cases hb : maxPathBytes < (p.child n).text.utf8ByteSize
  · rw [if_pos hb, if_pos (Or.inl hb)]
  · rw [if_neg hb, Path.steps_child, reach, walk_concat_enter (formAt?_root fs), hl]
    change (fs.enterLast place n).map Arrival.place = _
    rw [enterLast, hd]
    cases ht : n.isTooLong <;> simp [hb, Except.map, Arrival.place]

theorem resolve_child (hp : p.Proper) (ha : p.isAbsolute = true)
    (hl : fs.locate false (p.child name) = .ok (place ++ [name])) (workingDirectory : String) :
    fs.resolve workingDirectory false (p.child name).text =
      .ok (.entry place name (fs.get? (place ++ [name]))) := by
  obtain ⟨hb, ht, parent, hparent, hd, he⟩ := (locate_child_eq_ok_iff ha).1 hl
  obtain rfl : place = parent := List.append_inj_left' he rfl
  have hlt := Path.utf8ByteSize_text_lt_child ha name
  unfold locate at hparent
  rw [if_neg (by omega)] at hparent
  rw [resolve_text (hp.child name) ha, if_neg (by omega), Path.steps_child,
    walk_concat_enter (formAt?_root fs), hparent]
  change fs.enterLast place name = _
  rw [enterLast, hd]
  simp [ht]

theorem rmdir_child (hp : p.Proper) (ha : p.isAbsolute = true)
    (hl : fs.locate false (p.child name) = .ok (place ++ [name])) {m : Float}
    {es : List (Name × Node)} (hg : fs.get? (place ++ [name]) = some (.directory m es))
    (workingDirectory : String) (time : Option Float) :
    fs.rmdir workingDirectory time (p.child name).text =
      if es.isEmpty then .ok (fs.removeEntry time place name) else .error .enotempty := by
  unfold rmdir
  rw [resolve_child hp ha hl, hg]
  rfl

theorem unlink_child (hp : p.Proper) (ha : p.isAbsolute = true)
    (hl : fs.locate false (p.child name) = .ok (place ++ [name])) {node : Node}
    (hg : fs.get? (place ++ [name]) = some node) (hd : node.isDirectory = false)
    (workingDirectory : String) (time : Option Float) :
    fs.unlink workingDirectory time (p.child name).text =
      .ok (fs.removeEntry time place name) := by
  unfold unlink
  rw [resolve_child hp ha hl, hg]
  simp [bind, Except.bind, hd]

theorem locate_true_of_not_link (h : fs.locate false p = .ok loc)
    (hn : ∀ target, fs.formAt? loc ≠ some (.link target)) : fs.locate true p = .ok loc := by
  unfold locate at *
  split at h
  · cases h
  · rename_i hb
    rw [if_neg hb]
    rcases reach_true_or fs linkLimit [] p.steps with he | ⟨loc', target, he, hl⟩
    · rw [he, h]
    · rw [h] at he; cases he
      exact absurd hl (hn target)

/-- What is below a place is found by the names that lead to it. -/
theorem locate_descend (ha : p.isAbsolute = true) (hl : fs.locate false p = .ok place)
    {names : Location} (hn : fs.get? (place ++ names) ≠ none)
    (hnames : ∀ n ∈ names, n.isTooLong = false)
    (hb : (p.descend names).text.utf8ByteSize ≤ maxPathBytes) :
    fs.locate false (p.descend names) = .ok (place ++ names) := by
  induction names using List.reverseRecOn with
  | nil => simpa using hl
  | append_singleton names n ih =>
    have hlt := Path.utf8ByteSize_text_lt_child (p := p.descend names) ha n
    rw [Path.descend_concat] at hb ⊢
    rw [← List.append_assoc] at hn ⊢
    have hd : fs.formAt? (place ++ names) = some .directory := formAt?_of_append (by simp) hn
    have hparent : fs.locate false (p.descend names) = .ok (place ++ names) := by
      refine ih ?_ (fun m hm => hnames m (List.mem_append_left _ hm)) (by omega)
      rw [Ne, ← formAt?_eq_none_iff, hd]
      simp
    have hfollowed : fs.locate true (p.descend names) = .ok (place ++ names) :=
      locate_true_of_not_link hparent (by simp [hd])
    have hshort : n.isTooLong = false := hnames n (by simp)
    rw [locate_child (p := p.descend names) ha hfollowed hd, if_neg]
    simp only [hshort, Bool.false_eq_true, or_false]
    omega

theorem locate_child_enametoolong (ha : p.isAbsolute = true)
    (h : fs.locate false p = .error .enametoolong) (n : Name) :
    fs.locate false (p.child n) = .error .enametoolong := by
  have hlt := Path.utf8ByteSize_text_lt_child ha n
  unfold locate at *
  by_cases hb : maxPathBytes < (p.child n).text.utf8ByteSize
  · rw [if_pos hb]
  rw [if_neg (by omega)] at h
  have htrue : fs.reach true linkLimit [] p.steps = .error .enametoolong := by
    rcases reach_true_or fs linkLimit [] p.steps with he | ⟨loc, target, he, -⟩
    · rw [he, h]
    · rw [h] at he; cases he
  rw [if_neg hb, Path.steps_child, reach, walk_concat_enter (formAt?_root fs), htrue]
  rfl

theorem locate_descend_or (ha : p.isAbsolute = true) (hl : fs.locate false p = .ok place)
    {names : Location} (hn : fs.get? (place ++ names) ≠ none) :
    fs.locate false (p.descend names) = .ok (place ++ names) ∨
      fs.locate false (p.descend names) = .error .enametoolong := by
  induction names using List.reverseRecOn with
  | nil => exact Or.inl (by simpa using hl)
  | append_singleton names n ih =>
    rw [Path.descend_concat, ← List.append_assoc]
    rw [← List.append_assoc] at hn
    have hd : fs.formAt? (place ++ names) = some .directory := formAt?_of_append (by simp) hn
    have hthere : fs.get? (place ++ names) ≠ none := by
      rw [Ne, ← formAt?_eq_none_iff, hd]
      simp
    rcases ih hthere with hparent | hlong
    · have hfollowed : fs.locate true (p.descend names) = .ok (place ++ names) :=
        locate_true_of_not_link hparent (by simp [hd])
      rw [locate_child (p := p.descend names) ha hfollowed hd]
      split
      · exact Or.inr rfl
      · exact Or.inl rfl
    · exact Or.inr (locate_child_enametoolong (p := p.descend names) ha hlong n)

theorem locate_false_of_true (h : fs.locate true p = .ok loc) :
    fs.locate false p = .ok loc ∨
      ∃ loc' target, fs.locate false p = .ok loc' ∧ fs.formAt? loc' = some (.link target) := by
  unfold locate at *
  split at h
  · cases h
  · rename_i hb
    rw [if_neg hb]
    rcases reach_true_or fs linkLimit [] p.steps with he | he
    · rw [← he, h]; exact Or.inl rfl
    · exact Or.inr he

/-- A path extended by names leads to the place extended by them, unless it passes a link. -/
theorem locate_descend_eq (ha : p.isAbsolute = true) (hl : fs.locate false p = .ok place)
    {names : List Name}
    (hn : ∀ front back, back ≠ [] → names = front ++ back →
      ∀ target, fs.formAt? (place ++ front) ≠ some (.link target))
    (h : fs.locate false (p.descend names) = .ok loc) : loc = place ++ names := by
  induction names using List.reverseRecOn generalizing loc with
  | nil =>
    rw [Path.descend_nil, hl] at h
    cases h
    exact (List.append_nil _).symm
  | append_singleton names n ih =>
    rw [Path.descend_concat] at h
    obtain ⟨-, -, parent, hparent, -, rfl⟩ :=
      (locate_child_eq_ok_iff (p := p.descend names) ha).1 h
    have hfront : ∀ {loc}, fs.locate false (p.descend names) = .ok loc → loc = place ++ names :=
      fun hloc => ih (fun front back hne he => hn front (back ++ [n]) (by simp)
        (by rw [he, List.append_assoc])) hloc
    rcases locate_false_of_true hparent with hloc | ⟨loc, target, hloc, hlink⟩
    · rw [hfront hloc, List.append_assoc]
    · rw [hfront hloc] at hlink
      exact absurd hlink (hn names [n] (by simp) rfl target)

theorem locate_mono (h : small ≤ large) (hl : small.locate followLast p = .ok loc)
    (hn : small.formAt? loc ≠ none) : large.locate followLast p = .ok loc := by
  unfold locate at *
  split at hl
  · cases hl
  · rename_i hb
    rw [if_neg hb]
    exact reach_mono h hl hn

theorem text_le_of_locate (h : fs.locate followLast p = .ok loc) :
    p.text.utf8ByteSize ≤ maxPathBytes := by
  unfold locate at h
  split at h
  · cases h
  · omega

/-! ### Paths that lead to nothing -/

def Missing (fs : FileSystem) (p : Path) : Prop :=
  (∃ e : Errno, e.isMissing = true ∧ fs.locate false p = .error e) ∨
    ∃ loc, fs.locate false p = .ok loc ∧ fs.get? loc = none

theorem missing_iff_lstat (hp : p.Proper) (ha : p.isAbsolute = true) (workingDirectory : String) :
    fs.Missing p ↔ ∃ e : Errno, e.isMissing = true ∧ fs.lstat workingDirectory p.text = .error e := by
  simp only [lstat, except_map_eq_error_iff, lookup_eq_error_iff hp ha]
  constructor
  · rintro (⟨e, he, hl⟩ | ⟨loc, hl, hn⟩)
    · exact ⟨e, he, Or.inl hl⟩
    · exact ⟨.enoent, rfl, Or.inr ⟨loc, hl, hn, rfl⟩⟩
  · rintro ⟨e, he, hl | ⟨loc, hl, hn, rfl⟩⟩
    · exact Or.inl ⟨e, he, hl⟩
    · exact Or.inr ⟨loc, hl, hn⟩

theorem Missing.get?_eq_none (h : fs.Missing p) (hl : fs.locate false p = .ok loc) :
    fs.get? loc = none := by
  rcases h with ⟨e, _, he⟩ | ⟨loc', hl', hn⟩
  · rw [he] at hl; cases hl
  · rw [hl'] at hl; cases hl
    exact hn

theorem Missing.get?_eq_none_of_followed (h : fs.Missing p) (hl : fs.locate true p = .ok loc) :
    fs.get? loc = none := by
  rcases locate_false_of_true hl with hl' | ⟨place', target, hl', hlink⟩
  · exact h.get?_eq_none hl'
  · rw [formAt?_eq_none_iff.2 (h.get?_eq_none hl')] at hlink
    cases hlink

theorem Missing.get?_entry (ha : p.isAbsolute = true) (hl : fs.locate true p = .ok place)
    (hd : fs.formAt? place = some .directory) {n : Name} (h : fs.Missing (p.child n)) :
    fs.get? (place ++ [n]) = none := by
  have hc := locate_child ha hl hd n
  split at hc
  · rcases h with ⟨e, he, hl'⟩ | ⟨loc, hl', -⟩
    · rw [hc] at hl'
      cases hl'
      cases he
    · rw [hc] at hl'; cases hl'
  · exact h.get?_eq_none hc

theorem Missing.get?_descend (ha : p.isAbsolute = true) (hl : fs.locate false p = .ok place)
    {names : Location} (h : fs.Missing (p.descend names)) : fs.get? (place ++ names) = none := by
  by_contra hn
  rcases locate_descend_or ha hl hn with hloc | hlong
  · exact hn (h.get?_eq_none hloc)
  · rcases h with ⟨e, he, hl'⟩ | ⟨loc, hl', -⟩
    · rw [hlong] at hl'
      cases hl'
      cases he
    · rw [hlong] at hl'; cases hl'

theorem locate_ne_etimedout : fs.locate followLast p ≠ .error .etimedout := by
  unfold locate
  split
  · nofun
  · exact reach_ne_etimedout fs linkLimit [] p.steps

theorem locate_of_le (h : small ≤ large) (hl : large.locate followLast p = .ok loc) :
    small.locate followLast p = .ok loc ∨ small.locate followLast p = .error .enoent ∨
      ∃ loc', small.locate followLast p = .ok loc' ∧ small.get? loc' = none := by
  unfold locate at *
  split at hl
  · cases hl
  · rename_i hb
    rw [if_neg hb]
    rcases reach_of_le h linkLimit [] p.steps with he | he | ⟨loc', he, hn⟩
    · exact Or.inl (he.trans hl)
    · exact Or.inr (Or.inl he)
    · exact Or.inr (Or.inr ⟨loc', he, formAt?_eq_none_iff.1 hn⟩)

/-- A path that led somewhere before nodes vanished fails to at most because nothing is there. -/
theorem isMissing_of_locate (h : small ≤ large) (hl : large.locate followLast p = .ok loc)
    {e : Errno} (he : small.locate followLast p = .error e) : e.isMissing = true := by
  rcases locate_of_le h hl with hs | hs | ⟨loc', hs, -⟩
  · rw [he] at hs; cases hs
  · rw [he] at hs; cases hs; rfl
  · rw [he] at hs; cases hs

theorem Missing.of_le (h : small ≤ large) (hm : large.Missing p) : small.Missing p := by
  rcases hm with ⟨e, he, hl⟩ | ⟨loc, hl, hn⟩
  · unfold Missing locate at *
    split at hl
    · cases hl; cases he
    · rename_i hb
      rw [if_neg hb]
      rcases reach_of_le h linkLimit [] p.steps with hs | hs | ⟨loc', hs, hn⟩
      · exact Or.inl ⟨e, he, hs.trans hl⟩
      · exact Or.inl ⟨.enoent, rfl, hs⟩
      · exact Or.inr ⟨loc', hs, formAt?_eq_none_iff.1 hn⟩
  · rcases locate_of_le h hl with hs | hs | hs
    · refine Or.inr ⟨loc, hs, ?_⟩
      by_contra hne
      exact get?_ne_none_of_le h hne hn
    · exact Or.inl ⟨.enoent, rfl, hs⟩
    · exact Or.inr hs

/-! ### Removals -/

/-- One file system comes from another by the removal of the node at a path, which has nothing
below it. -/
def Removes (fs : FileSystem) (time : Option Float) (p : Path) (fs' : FileSystem) : Prop :=
  ∃ parent name, fs.locate false p = .ok (parent ++ [name]) ∧ fs.get? (parent ++ [name]) ≠ none ∧
    (∀ n, fs.get? (parent ++ [name] ++ [n]) = none) ∧ fs' = fs.removeEntry time parent name

theorem Removes.le (h : fs.Removes time p fs') : fs' ≤ fs := by
  obtain ⟨parent, name, -, -, -, rfl⟩ := h
  exact removeEntry_le fs time parent name

theorem Removes.missing (h : fs.Removes time p fs') : fs'.Missing p := by
  have hle := h.le
  obtain ⟨parent, name, hl, hn, -, rfl⟩ := h
  rcases locate_of_le hle hl with hs | hs | hs
  · refine Or.inr ⟨_, hs, ?_⟩
    rw [← formAt?_eq_none_iff, formAt?_removeEntry, if_pos List.prefix_rfl]
  · exact Or.inl ⟨.enoent, rfl, hs⟩
  · exact Or.inr hs

/-- One file system comes from another by the removal of the entry that a path text leads to. It has
nothing below it. -/
def Detaches (fs : FileSystem) (workingDirectory : String) (time : Option Float) (t : String)
    (fs' : FileSystem) : Prop :=
  ∃ parent name node, fs.resolve workingDirectory false t = .ok (.entry parent name (some node)) ∧
    fs.get? (parent ++ [name]) = some node ∧ (∀ n, fs.get? (parent ++ [name] ++ [n]) = none) ∧
    fs' = fs.removeEntry time parent name

theorem rmdir_detaches {t : String} (h : fs.rmdir workingDirectory time t = .ok fs') :
    fs.Detaches workingDirectory time t fs' := by
  unfold rmdir at h
  cases hr : fs.resolve workingDirectory false t with
  | error e => rw [hr] at h; cases h
  | ok arrival =>
    have hs := resolve_sound hr
    rw [hr] at h
    cases arrival with
    | inside place => cases h
    | entry parent name node =>
      obtain ⟨hd, rfl⟩ := hs
      cases hn : fs.get? (parent ++ [name]) with
      | none => simp [hn, bind, Except.bind] at h
      | some node =>
        cases node with
        | file | other | link => simp [hn, bind, Except.bind] at h
        | directory m es =>
          simp only [hn, bind, Except.bind] at h
          split at h
          · rename_i he
            cases h
            exact ⟨parent, name, _, hn ▸ hr, hn, (isEmpty_iff hn).1 he, rfl⟩
          · cases h

theorem unlink_detaches {t : String} (h : fs.unlink workingDirectory time t = .ok fs') :
    fs.Detaches workingDirectory time t fs' := by
  unfold unlink at h
  cases hr : fs.resolve workingDirectory false t with
  | error e => rw [hr] at h; cases h
  | ok arrival =>
    have hs := resolve_sound hr
    rw [hr] at h
    cases arrival with
    | inside place => cases h
    | entry parent name node =>
      obtain ⟨hd, rfl⟩ := hs
      cases hn : fs.get? (parent ++ [name]) with
      | none => simp [hn, bind, Except.bind] at h
      | some node =>
        simp only [hn, bind, Except.bind] at h
        split at h
        · cases h
        · rename_i hf
          cases h
          refine ⟨parent, name, node, hn ▸ hr, hn, fun n => ?_, rfl⟩
          rw [get?_append, hn]
          exact Node.get?_eq_none_of_not_directory (by simpa using hf) (by simp)

theorem Detaches.removes (hp : p.Proper) (ha : p.isAbsolute = true)
    (h : fs.Detaches workingDirectory time p.text fs') : fs.Removes time p fs' := by
  obtain ⟨parent, name, node, hr, hn, hbelow, rfl⟩ := h
  exact ⟨parent, name, (locate_of_resolve hp ha hr).1, by rw [hn]; simp, hbelow, rfl⟩

theorem rmdir_removes (hp : p.Proper) (ha : p.isAbsolute = true)
    (h : fs.rmdir workingDirectory time p.text = .ok fs') : fs.Removes time p fs' :=
  (rmdir_detaches h).removes hp ha

theorem unlink_removes (hp : p.Proper) (ha : p.isAbsolute = true)
    (h : fs.unlink workingDirectory time p.text = .ok fs') : fs.Removes time p fs' :=
  (unlink_detaches h).removes hp ha

theorem missing_of_rmdir (hp : p.Proper) (ha : p.isAbsolute = true)
    (h : fs.rmdir workingDirectory time p.text = .error .enoent) : fs.Missing p := by
  unfold rmdir at h
  cases hr : fs.resolve workingDirectory false p.text with
  | error e =>
    rw [hr] at h
    cases h
    exact Or.inl ⟨.enoent, rfl, by rw [locate_eq hp ha workingDirectory, hr]; rfl⟩
  | ok arrival =>
    obtain ⟨hl, hs⟩ := locate_of_resolve hp ha hr
    rw [hr] at h
    cases arrival with
    | inside place =>
      simp only [bind, Except.bind, rmdirRefusal, Except.error.injEq] at h
      split at h <;> cases h
    | entry parent name node =>
      obtain ⟨hd, rfl⟩ := hs
      cases hn : fs.get? (parent ++ [name]) with
      | none => exact Or.inr ⟨_, hl, hn⟩
      | some node =>
        cases node with
        | file | other | link => simp [hn, bind, Except.bind] at h
        | directory m es =>
          simp only [hn, bind, Except.bind] at h
          split at h <;> cases h

theorem missing_of_unlink (hp : p.Proper) (ha : p.isAbsolute = true)
    (h : fs.unlink workingDirectory time p.text = .error .enoent) : fs.Missing p := by
  unfold unlink at h
  cases hr : fs.resolve workingDirectory false p.text with
  | error e =>
    rw [hr] at h
    cases h
    exact Or.inl ⟨.enoent, rfl, by rw [locate_eq hp ha workingDirectory, hr]; rfl⟩
  | ok arrival =>
    obtain ⟨hl, hs⟩ := locate_of_resolve hp ha hr
    rw [hr] at h
    cases arrival with
    | inside place => cases h
    | entry parent name node =>
      obtain ⟨hd, rfl⟩ := hs
      cases hn : fs.get? (parent ++ [name]) with
      | none => exact Or.inr ⟨_, hl, hn⟩
      | some node =>
        simp only [hn, bind, Except.bind] at h
        split at h <;> cases h

end FileSystem

end TreeRemoval
