import Mathlib.Data.List.Nodup
import TreeRemoval.Proofs.FileSystem.Passage

/-! # The paths below a path

All paths that a walk of a file system at rest comes to, in pre-order and siblings by name. A path
is gone into as long as it leads to a directory, through links if they are followed; the texts of
such paths are limited, so there is an end to it even when links lead around in circles.
-/

namespace TreeRemoval

theorem Path.length_parts_le (p : Path) : p.parts.length ≤ p.text.utf8ByteSize + 1 := by
  have hslash : "/".utf8ByteSize = 1 := rfl
  have hjoin : ∀ parts : List String, parts.length ≤ ("/".intercalate parts).utf8ByteSize + 1 := by
    intro parts
    induction parts with
    | nil => simp
    | cons part parts ih =>
      cases parts with
      | nil => simp
      | cons next parts =>
        rw [String.intercalate_cons_cons]
        simp only [String.utf8ByteSize_append, List.length_cons] at ih ⊢
        omega
  have htext : ("/".intercalate p.parts).utf8ByteSize ≤ p.text.utf8ByteSize := by
    unfold text
    by_cases hempty : p.anchor.text ++ "/".intercalate p.parts = ""
    · have hsize := congrArg String.utf8ByteSize hempty
      rw [String.utf8ByteSize_append, String.utf8ByteSize_empty] at hsize
      omega
    · rw [if_neg hempty, String.utf8ByteSize_append]
      exact Nat.le_add_left _ _
  have := hjoin p.parts
  omega

namespace FileSystem

variable {fs : FileSystem} {workingDirectory : String} {followSymlinks followLast : Bool}
  {p q : Path} {n : Name} {t : String}

theorem text_le_of_resolve {arrival : Arrival}
    (h : fs.resolve workingDirectory followLast t = .ok arrival) :
    t.utf8ByteSize ≤ maxPathBytes := by
  unfold resolve at h
  split at h
  · cases h
  split at h
  · cases h
  · omega

def showsAt (look : Except Errno Status) (test : Status → Bool) : Bool :=
  match look with
  | .ok status => test status
  | .error _ => false

variable (fs workingDirectory followSymlinks p) in
/-- Whether a path is gone into: it leads to a directory, and it is no link unless links are
followed. -/
def goesInto : Bool :=
  showsAt (fs.stat workingDirectory p.text) (·.kind = .directory) &&
    (followSymlinks || !showsAt (fs.lstat workingDirectory p.text) (·.kind = .link))

variable (fs workingDirectory p) in
def childrenOf : List Path :=
  match fs.list workingDirectory p.text with
  | .ok names => (names.mergeSort fun a b => a.text ≤ b.text).map p.child
  | .error _ => []

theorem mem_childrenOf : q ∈ fs.childrenOf workingDirectory p ↔
    ∃ names n, fs.list workingDirectory p.text = .ok names ∧ n ∈ names ∧ q = p.child n := by
  unfold childrenOf
  cases fs.list workingDirectory p.text with
  | error e => simp
  | ok names => simp [eq_comm]

theorem childrenOf_of_sorted {names : List Name} (hl : fs.list workingDirectory p.text = .ok names)
    (hs : names.Pairwise (·.text ≤ ·.text)) : fs.childrenOf workingDirectory p = names.map p.child := by
  rw [childrenOf, hl]
  dsimp only
  rw [List.mergeSort_of_pairwise (hs.imp decide_eq_true)]

theorem text_le_of_goesInto (h : fs.goesInto workingDirectory followSymlinks p = true) :
    p.text.utf8ByteSize ≤ maxPathBytes := by
  unfold goesInto at h
  cases hs : fs.stat workingDirectory p.text with
  | error e => simp [hs, showsAt] at h
  | ok status =>
    obtain ⟨arrival, -, hr, -⟩ := exists_arrival_of_stat hs
    exact text_le_of_resolve hr

variable (fs workingDirectory followSymlinks) in
/-- The paths below a path in pre-order, siblings by name. -/
def pathsBelow (p : Path) : List Path :=
  if fs.goesInto workingDirectory followSymlinks p = true then
    (fs.childrenOf workingDirectory p).attach.flatMap fun c => c.1 :: pathsBelow c.1
  else []
termination_by maxPathBytes + 2 - p.parts.length
decreasing_by
  rename_i hinto
  obtain ⟨names, n, -, -, hc⟩ := mem_childrenOf.1 c.2
  have hlength := p.length_parts_le
  have htext := text_le_of_goesInto hinto
  rw [hc, Path.parts_child, List.length_append, List.length_singleton]
  omega

variable (fs workingDirectory followSymlinks) in
theorem pathsBelow_eq (p : Path) : fs.pathsBelow workingDirectory followSymlinks p =
    if fs.goesInto workingDirectory followSymlinks p = true then
      (fs.childrenOf workingDirectory p).flatMap fun c =>
        c :: fs.pathsBelow workingDirectory followSymlinks c
    else [] := by
  rw [pathsBelow]
  split
  · rw [List.flatMap_subtype (g := fun c => c :: fs.pathsBelow workingDirectory followSymlinks c)]
    · rw [List.unattach_attach]
    · exact fun _ _ => rfl
  · rfl

theorem pathsBelow_eq_nil (h : fs.goesInto workingDirectory followSymlinks p = false) :
    fs.pathsBelow workingDirectory followSymlinks p = [] := by
  rw [pathsBelow_eq, h]
  rfl

theorem mem_pathsBelow_iff : q ∈ fs.pathsBelow workingDirectory followSymlinks p ↔
    fs.goesInto workingDirectory followSymlinks p = true ∧
      ∃ names n, fs.list workingDirectory p.text = .ok names ∧ n ∈ names ∧
        (q = p.child n ∨ q ∈ fs.pathsBelow workingDirectory followSymlinks (p.child n)) := by
  rw [pathsBelow_eq]
  split
  · rename_i hinto
    simp only [hinto, true_and, List.mem_flatMap, List.mem_cons, mem_childrenOf]
    constructor
    · rintro ⟨_, ⟨names, n, hl, hn, rfl⟩, hq⟩
      exact ⟨names, n, hl, hn, hq⟩
    · rintro ⟨names, n, hl, hn, hq⟩
      exact ⟨_, ⟨names, n, hl, hn, rfl⟩, hq⟩
  · rename_i hinto
    simp [hinto]

theorem exists_descend_of_mem_pathsBelow
    (h : q ∈ fs.pathsBelow workingDirectory followSymlinks p) :
    ∃ n names, q = p.descend (n :: names) := by
  induction p using pathsBelow.induct fs workingDirectory followSymlinks with
  | case1 p hinto ih =>
    obtain ⟨-, names, n, hl, hn, hq⟩ := mem_pathsBelow_iff.1 h
    rcases hq with rfl | hq
    · exact ⟨n, [], by rw [← Path.child_descend, Path.descend_nil]⟩
    · obtain ⟨m, rest, rfl⟩ := ih ⟨_, mem_childrenOf.2 ⟨names, n, hl, hn, rfl⟩⟩ hq
      exact ⟨n, m :: rest, p.child_descend n (m :: rest)⟩
  | case2 p hinto =>
    rw [pathsBelow_eq, if_neg hinto] at h
    cases h

theorem exists_descend_of_mem_child
    (h : q ∈ p.child n :: fs.pathsBelow workingDirectory followSymlinks (p.child n)) :
    ∃ rest, q = p.descend (n :: rest) := by
  rcases List.mem_cons.1 h with rfl | hq
  · exact ⟨[], by rw [← Path.child_descend, Path.descend_nil]⟩
  · obtain ⟨m, rest, rfl⟩ := exists_descend_of_mem_pathsBelow hq
    exact ⟨m :: rest, p.child_descend n (m :: rest)⟩

theorem nodup_pathsBelow (p : Path) : (fs.pathsBelow workingDirectory followSymlinks p).Nodup := by
  induction p using pathsBelow.induct fs workingDirectory followSymlinks with
  | case1 p hinto ih =>
    rw [pathsBelow_eq, if_pos hinto, List.nodup_flatMap]
    constructor
    · intro c hc
      obtain ⟨names, n, -, -, rfl⟩ := mem_childrenOf.1 hc
      refine List.nodup_cons.2 ⟨fun hself => ?_, ih ⟨_, hc⟩⟩
      obtain ⟨m, rest, he⟩ := exists_descend_of_mem_pathsBelow hself
      have hlength := congrArg (·.parts.length) he
      simp [Path.descend] at hlength
    · unfold childrenOf
      cases hl : fs.list workingDirectory p.text with
      | error e => exact .nil
      | ok names =>
        have hdistinct : (names.mergeSort fun a b => a.text ≤ b.text).Nodup :=
          (List.mergeSort_perm _ _).nodup_iff.2 (nodup_of_list hl)
        refine List.pairwise_map.2 (hdistinct.imp fun {a b} hne q ha hb => ?_)
        obtain ⟨rest, rfl⟩ := exists_descend_of_mem_child ha
        obtain ⟨rest', he⟩ := exists_descend_of_mem_child hb
        exact hne (List.cons.inj (p.descend_injective he)).1
  | case2 p hinto =>
    rw [pathsBelow_eq, if_neg hinto]
    exact .nil

/-! ### What is there -/

theorem exists_list_of_goesInto (h : fs.goesInto workingDirectory followSymlinks p = true) :
    ∃ names, fs.list workingDirectory p.text = .ok names := by
  unfold goesInto at h
  cases hs : fs.stat workingDirectory p.text with
  | error e => simp [hs, showsAt] at h
  | ok status =>
    simp only [hs, showsAt, Bool.and_eq_true, decide_eq_true_eq] at h
    obtain ⟨node, hl, rfl⟩ := except_map_eq_ok_iff.1 hs
    obtain ⟨m, es, rfl⟩ := Node.form_eq_directory_iff.1 (Node.kind_eq_directory_iff.1 h.1)
    exact ⟨_, list_eq_ok_iff_lookup.2 ⟨m, es, hl, rfl⟩⟩

theorem resolve_eq_walk (hp : p.Proper) (hne : p.parts ≠ [] ∨ p.anchor ≠ .here)
    (hb : p.text.utf8ByteSize ≤ maxPathBytes) :
    fs.resolve workingDirectory followLast p.text =
      fs.walk followLast linkLimit [] (approach workingDirectory p) := by
  have hempty : p.text ≠ "" := by
    intro hempty
    have hread := hp.ofText_text
    rw [hempty] at hread
    obtain rfl : p = .ofText "" := hread.symm
    exact hne.elim (fun h => h (by decide)) fun h => h (by decide)
  unfold resolve
  rw [if_neg hempty, if_neg (Nat.not_lt.2 hb), hp.anchor_ofText_text, hp.ofPath_text hne]
  rfl

theorem exists_lstat_of_list (hp : p.Proper) {names : List Name}
    (hl : fs.list workingDirectory p.text = .ok names) (hn : n ∈ names)
    (hb : (p.child n).text.utf8ByteSize ≤ maxPathBytes) (hshort : n.isTooLong = false) :
    ∃ status, fs.lstat workingDirectory (p.child n).text = .ok status := by
  obtain ⟨m, es, hlookup, rfl⟩ := list_eq_ok_iff_lookup.1 hl
  obtain ⟨arrival, hr, hget⟩ := lookup_eq_ok_iff_resolve.1 hlookup
  have hd : fs.formAt? arrival.place = some .directory := formAt?_eq_directory_iff.2 ⟨m, es, hget⟩
  obtain ⟨node, hnode⟩ := Option.ne_none_iff_exists'.1 ((mem_names_iff hget).1 hn)
  have happroach : approach workingDirectory (p.child n) =
      approach workingDirectory p ++ [.enter n] := by
    rw [approach, approach, Path.steps_child, Path.anchor_child, List.append_assoc]
  have hresolve : fs.resolve workingDirectory false (p.child n).text =
      .ok (.entry arrival.place n (some node)) := by
    rw [resolve_eq_walk (hp.child n) (Or.inl (by simp)) hb, happroach,
      walk_concat_enter (formAt?_root fs), reach_of_resolve hp hr (Or.inl rfl)]
    change fs.enterLast arrival.place n = _
    rw [enterLast, hd, hnode]
    simp [hshort]
  exact ⟨node.status, except_map_eq_ok_iff.2
    ⟨node, lookup_eq_ok_iff_resolve.2 ⟨_, hresolve, hnode⟩, rfl⟩⟩

/-- A path from the working directory is gone into only if the working directory is there. -/
theorem stat_workingDirectory_of_goesInto (hp : p.Proper) (hhere : p.anchor = .here)
    (hwd : (Path.ofText workingDirectory).isAbsolute = true)
    (hb : workingDirectory.utf8ByteSize ≤ maxPathBytes)
    (h : fs.goesInto workingDirectory followSymlinks p = true) :
    ∃ status, fs.stat workingDirectory workingDirectory = .ok status ∧
      status.kind = .directory := by
  obtain ⟨names, hl⟩ := exists_list_of_goesInto h
  obtain ⟨m, es, hlookup, rfl⟩ := list_eq_ok_iff_lookup.1 hl
  obtain ⟨arrival, hr, hget⟩ := lookup_eq_ok_iff_resolve.1 hlookup
  have hreach := reach_of_resolve hp hr (Or.inl rfl)
  rw [approach, if_pos hhere] at hreach
  obtain ⟨mid, hmid, hd⟩ : ∃ mid, fs.reach true linkLimit [] (Step.ofPath workingDirectory) = .ok mid ∧
      fs.formAt? mid = some .directory := by
    by_cases hsteps : p.steps = []
    · rw [hsteps, List.append_nil] at hreach
      exact ⟨_, hreach, formAt?_eq_directory_iff.2 ⟨m, es, hget⟩⟩
    · exact exists_reach_of_append (formAt?_root fs) hsteps hreach
  have hanchor : Anchor.ofText workingDirectory ≠ .here := by
    simpa [Path.isAbsolute, Path.ofText] using hwd
  have hresolve : fs.resolve workingDirectory true workingDirectory =
      fs.walk true linkLimit [] (Step.ofPath workingDirectory) := by
    unfold resolve
    rw [if_neg (by rintro rfl; exact hanchor rfl), if_neg (Nat.not_lt.2 hb)]
    simp only [if_neg hanchor, List.nil_append]
  obtain ⟨arrival', hwalk, rfl⟩ := except_map_eq_ok_iff.1 hmid
  obtain ⟨m', es', hdirectory⟩ := formAt?_eq_directory_iff.1 hd
  exact ⟨_, except_map_eq_ok_iff.2
    ⟨_, lookup_eq_ok_iff_resolve.2 ⟨arrival', hresolve.trans hwalk, hdirectory⟩, rfl⟩, rfl⟩

end FileSystem

end TreeRemoval
