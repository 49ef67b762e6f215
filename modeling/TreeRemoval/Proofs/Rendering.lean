import TreeRemoval.Report

/-! # Reading reports

What the text of a report on a walked root tells. It is cut into its lines, and these into the
subject, the two listings and the last line; each part starts with a line that no part before it can
hold.
-/

namespace TreeRemoval

theorem append_inj_of_head {α : Type} {P : α → Prop} {front front' back back' : List α}
    (hf : ∀ a ∈ front, P a) (hf' : ∀ a ∈ front', P a) (hb : ∀ a ∈ back.head?, ¬ P a)
    (hb' : ∀ a ∈ back'.head?, ¬ P a) (h : front ++ back = front' ++ back') :
    front = front' ∧ back = back' := by
  rcases List.append_eq_append_iff.1 h with ⟨more, rfl, rfl⟩ | ⟨more, rfl, rfl⟩
  · cases more with
    | nil => simp
    | cons a more => exact absurd (hf' a (by simp)) (hb a rfl)
  · cases more with
    | nil => simp
    | cons a more => exact absurd (hf a (by simp)) (hb' a rfl)

namespace Report

variable {r s : Report} {help l : String} {paths paths' rest rest' : List String}
  {more more' : Bool}

/-- The root was walked into, and it and the listed paths hold no line feed; the paths are
absolute. -/
structure Legible (r : Report) : Prop where
  descended : r.descended = true
  root : '\n' ∉ r.root.toList
  paths : ∀ p ∈ r.failedPaths ++ r.newPaths, '\n' ∉ p.toList ∧ p.toList.head? = some '/'

/-- Two reports tell the same: they differ at most in what is left out of their texts. -/
structure Agrees (r s : Report) : Prop where
  root : r.root = s.root
  rootIsSymlink : r.rootIsSymlink = s.rootIsSymlink
  rootIsDirectory : r.rootIsDirectory = s.rootIsDirectory
  failedPaths : r.failedPaths = s.failedPaths
  moreFailures : r.failedPaths ≠ [] → r.moreFailures = s.moreFailures
  newPaths : r.newPaths = s.newPaths
  newPathsTruncated : r.newPaths ≠ [] → r.newPathsTruncated = s.newPathsTruncated
  interrupted : r.interrupted = s.interrupted

/-! ### Listings -/

def IsPathLine (l : String) : Prop := ∃ p : String, p.toList.head? = some '/' ∧ l = "  - " ++ p

def moreLine : String := "  - and more ..."

theorem not_isPathLine_moreLine : ¬ IsPathLine moreLine := by
  rintro ⟨p, hp, h⟩
  have htext : p.toList = "and more ...".toList := by
    simpa [moreLine] using (congrArg String.toList h).symm
  rw [htext] at hp
  cases hp

theorem not_isPathLine_heading (hh : help.toList.head? ≠ some '-') :
    ¬ IsPathLine ("  " ++ help) := by
  rintro ⟨p, -, h⟩
  have htext : help.toList = '-' :: ' ' :: p.toList := by
    simpa using congrArg String.toList h
  rw [htext] at hh
  exact hh rfl

theorem heading_ne_moreLine (hh : help.toList.head? ≠ some '-') : "  " ++ help ≠ moreLine := by
  intro h
  have htext : help.toList = "- and more ...".toList := by
    simpa [moreLine] using congrArg String.toList h
  rw [htext] at hh
  exact hh rfl

theorem listing_cons (hp : paths ≠ []) (help : String) (more : Bool) :
    listing help paths more =
      ("  " ++ help) :: (paths.map ("  - " ++ ·) ++ if more then [moreLine] else []) := by
  unfold listing
  rw [if_neg (by simpa using hp), List.map_append]
  cases more <;> rfl

theorem listing_nil (help : String) (more : Bool) : listing help [] more = [] := rfl

theorem listing_congr (h : paths ≠ [] → more = more') :
    listing help paths more = listing help paths more' := by
  by_cases hp : paths = []
  · rw [hp, listing_nil, listing_nil]
  · rw [h hp]

/-- The lines of paths, and the line after them if there is one, are told from what follows. -/
theorem items_append_inj (hp : ∀ p ∈ paths, p.toList.head? = some '/')
    (hp' : ∀ p ∈ paths', p.toList.head? = some '/')
    (hr : ∀ l ∈ rest.head?, ¬ IsPathLine l ∧ l ≠ moreLine)
    (hr' : ∀ l ∈ rest'.head?, ¬ IsPathLine l ∧ l ≠ moreLine)
    (h : paths.map ("  - " ++ ·) ++ (if more then [moreLine] else []) ++ rest =
      paths'.map ("  - " ++ ·) ++ (if more' then [moreLine] else []) ++ rest') :
    paths = paths' ∧ more = more' ∧ rest = rest' := by
  have hlines : ∀ {ps : List String}, (∀ p ∈ ps, p.toList.head? = some '/') →
      ∀ l ∈ ps.map ("  - " ++ ·), IsPathLine l := by
    rintro ps hps _ hl
    obtain ⟨p, hm, rfl⟩ := List.mem_map.1 hl
    exact ⟨p, hps p hm, rfl⟩
  have hback : ∀ {more : Bool} {rest : List String},
      (∀ l ∈ rest.head?, ¬ IsPathLine l ∧ l ≠ moreLine) →
      ∀ l ∈ ((if more then [moreLine] else []) ++ rest).head?, ¬ IsPathLine l := by
    rintro (_ | _) rest hrest l hl
    · exact (hrest l hl).1
    · cases hl
      exact not_isPathLine_moreLine
  rw [List.append_assoc, List.append_assoc] at h
  obtain ⟨hpaths, hend⟩ := append_inj_of_head (hlines hp) (hlines hp') (hback hr) (hback hr') h
  refine ⟨(List.map_inj_right fun _ _ he => String.append_right_inj _ |>.1 he).1 hpaths, ?_⟩
  cases more <;> cases more'
  · exact ⟨rfl, hend⟩
  · exact absurd rfl (hr moreLine (by rw [show rest = moreLine :: rest' from hend]; rfl)).2
  · exact absurd rfl (hr' moreLine (by rw [show rest' = moreLine :: rest from hend.symm]; rfl)).2
  · exact ⟨rfl, List.tail_eq_of_cons_eq hend⟩

/-- A listing is told from what follows it. -/
theorem listing_append_inj (hp : ∀ p ∈ paths, p.toList.head? = some '/')
    (hp' : ∀ p ∈ paths', p.toList.head? = some '/')
    (hr : ∀ l ∈ rest.head?, ¬ IsPathLine l ∧ l ≠ moreLine ∧ l ≠ "  " ++ help)
    (hr' : ∀ l ∈ rest'.head?, ¬ IsPathLine l ∧ l ≠ moreLine ∧ l ≠ "  " ++ help)
    (h : listing help paths more ++ rest = listing help paths' more' ++ rest') :
    paths = paths' ∧ (paths ≠ [] → more = more') ∧ rest = rest' := by
  by_cases hn : paths = [] <;> by_cases hn' : paths' = []
  · subst hn hn'
    exact ⟨rfl, fun hne => absurd rfl hne, h⟩
  · rw [hn, listing_nil, List.nil_append, listing_cons hn'] at h
    exact absurd rfl (hr ("  " ++ help) (by rw [h]; rfl)).2.2
  · rw [hn', listing_nil, List.nil_append, listing_cons hn] at h
    exact absurd rfl (hr' ("  " ++ help) (by rw [← h]; rfl)).2.2
  · rw [listing_cons hn, listing_cons hn'] at h
    obtain ⟨hpaths, hmore, hrest⟩ := items_append_inj hp hp'
      (fun l hl => ⟨(hr l hl).1, (hr l hl).2.1⟩) (fun l hl => ⟨(hr' l hl).1, (hr' l hl).2.1⟩)
      (List.tail_eq_of_cons_eq h)
    exact ⟨hpaths, fun _ => hmore, hrest⟩

/-! ### Lines -/

theorem mem_listing (h : l ∈ listing help paths more) :
    l = "  " ++ help ∨ (∃ p ∈ paths, l = "  - " ++ p) ∨ l = moreLine := by
  by_cases hp : paths = []
  · rw [hp, listing_nil] at h
    cases h
  · rw [listing_cons hp, List.mem_cons, List.mem_append, List.mem_map] at h
    rcases h with rfl | ⟨p, hm, rfl⟩ | h
    · exact Or.inl rfl
    · exact Or.inr (Or.inl ⟨p, hm, rfl⟩)
    · split at h
      · exact Or.inr (Or.inr (List.mem_singleton.1 h))
      · cases h

def lastLines (r : Report) : List String :=
  if r.interrupted then ["  " ++ interruptedHelp] else []

theorem Legible.lines_eq (h : r.Legible) :
    r.lines = r.subject :: (listing failedHelp r.failedPaths r.moreFailures ++
      (listing newHelp r.newPaths r.newPathsTruncated ++ r.lastLines)) := by
  simp [lines, lastLines, h.descended]

theorem Legible.newline_notMem (h : r.Legible) : ∀ l ∈ r.lines, '\n' ∉ l.toList := by
  have hlisting : ∀ {help paths more}, '\n' ∉ help.toList → (∀ p ∈ paths, '\n' ∉ p.toList) →
      ∀ l ∈ listing help paths more, '\n' ∉ l.toList := by
    intro help paths more hhelp hpaths l hl
    rcases mem_listing hl with rfl | ⟨p, hm, rfl⟩ | rfl
    · simpa using hhelp
    · simpa using hpaths p hm
    · decide
  intro l hl
  rw [h.lines_eq] at hl
  simp only [List.mem_cons, List.mem_append] at hl
  rcases hl with rfl | hl | hl | hl
  · have hroot := h.root
    unfold subject
    cases r.rootIsSymlink <;> cases r.rootIsDirectory <;> simp [hroot]
  · exact hlisting (by decide +kernel) (fun p hp => (h.paths p (List.mem_append_left _ hp)).1) l hl
  · exact hlisting (by decide +kernel) (fun p hp => (h.paths p (List.mem_append_right _ hp)).1) l hl
  · unfold lastLines at hl
    split at hl
    · rw [List.mem_singleton.1 hl]
      decide +kernel
    · cases hl

theorem Legible.lines_eq_of_render (hr : r.Legible) (hs : s.Legible) (h : r.render = s.render) :
    r.lines = s.lines := by
  have hcut : ∀ {t : Report}, t.Legible →
      List.splitOn '\n' t.render.toList = t.lines.map String.toList := by
    intro t ht
    unfold render
    rw [String.toList_intercalate]
    apply List.splitOn_intercalate
    · simpa using ht.newline_notMem
    · simp [ht.lines_eq]
  have hlines : r.lines.map String.toList = s.lines.map String.toList := by
    rw [← hcut hr, ← hcut hs, h]
  exact (List.map_inj_right fun _ _ he => String.toList_injective he).1 hlines

theorem subject_inj (h : r.subject = s.subject) :
    r.rootIsSymlink = s.rootIsSymlink ∧ r.rootIsDirectory = s.rootIsDirectory ∧
      r.root = s.root := by
  have htext := congrArg String.toList h
  unfold subject at htext
  cases hr : r.rootIsSymlink <;> cases hs : s.rootIsSymlink <;> cases hr' : r.rootIsDirectory <;>
    cases hs' : s.rootIsDirectory <;> simp [hr, hs, hr', hs'] at htext ⊢
  all_goals exact String.toList_injective htext

theorem lastLines_inj (h : r.lastLines = s.lastLines) : r.interrupted = s.interrupted := by
  unfold lastLines at h
  cases hr : r.interrupted <;> cases hs : s.interrupted <;> simp_all

def IsBeyond (help l : String) : Prop := ¬ IsPathLine l ∧ l ≠ moreLine ∧ l ≠ "  " ++ help

theorem isBeyond_heading {help' : String} (hh : help'.toList.head? ≠ some '-')
    (hne : help' ≠ help) : IsBeyond help ("  " ++ help') :=
  ⟨not_isPathLine_heading hh, heading_ne_moreLine hh, fun h => hne (by simpa using h)⟩

theorem isBeyond_lastLines (hne : interruptedHelp ≠ help) :
    ∀ l ∈ r.lastLines.head?, IsBeyond help l := by
  intro l hl
  unfold lastLines at hl
  split at hl
  · cases hl
    exact isBeyond_heading (by decide) hne
  · cases hl

theorem isBeyond_newListing :
    ∀ l ∈ (listing newHelp paths more ++ r.lastLines).head?, IsBeyond failedHelp l := by
  intro l hl
  by_cases hp : paths = []
  · rw [hp, listing_nil] at hl
    exact isBeyond_lastLines (by decide +kernel) l hl
  · rw [listing_cons hp] at hl
    cases hl
    exact isBeyond_heading (by decide) (by decide +kernel)

theorem Legible.agrees_of_lines (hr : r.Legible) (hs : s.Legible) (h : r.lines = s.lines) :
    r.Agrees s := by
  have hfailed : ∀ {t : Report}, t.Legible → ∀ p ∈ t.failedPaths, p.toList.head? = some '/' :=
    fun ht p hp => (ht.paths p (List.mem_append_left _ hp)).2
  have hnew : ∀ {t : Report}, t.Legible → ∀ p ∈ t.newPaths, p.toList.head? = some '/' :=
    fun ht p hp => (ht.paths p (List.mem_append_right _ hp)).2
  rw [hr.lines_eq, hs.lines_eq] at h
  obtain ⟨hsubject, hlistings⟩ := List.cons_eq_cons.1 h
  obtain ⟨hsymlink, hdirectory, hroot⟩ := subject_inj hsubject
  obtain ⟨hfailedPaths, hmoreFailures, hrest⟩ :=
    listing_append_inj (hfailed hr) (hfailed hs) isBeyond_newListing isBeyond_newListing hlistings
  have hlast : ∀ t : Report, ∀ l ∈ t.lastLines.head?, IsBeyond newHelp l :=
    fun t => isBeyond_lastLines (by decide +kernel)
  obtain ⟨hnewPaths, htruncated, hend⟩ :=
    listing_append_inj (hnew hr) (hnew hs) (hlast r) (hlast s) hrest
  exact ⟨hroot, hsymlink, hdirectory, hfailedPaths, hmoreFailures, hnewPaths, htruncated,
    lastLines_inj hend⟩

theorem Agrees.render_eq (h : r.Agrees s) (hr : r.Legible) (hs : s.Legible) :
    r.render = s.render := by
  have hsubject : r.subject = s.subject := by
    unfold subject
    rw [h.root, h.rootIsSymlink, h.rootIsDirectory]
  have hlast : r.lastLines = s.lastLines := by
    unfold lastLines
    rw [h.interrupted]
  unfold render
  rw [hr.lines_eq, hs.lines_eq, hsubject, hlast, listing_congr h.moreFailures,
    listing_congr h.newPathsTruncated, h.failedPaths, h.newPaths]

/-- Two reports have the same text just when they agree. -/
theorem render_eq_iff (hr : r.Legible) (hs : s.Legible) : r.render = s.render ↔ r.Agrees s :=
  ⟨fun h => hr.agrees_of_lines hs (hr.lines_eq_of_render hs h), fun h => h.render_eq hr hs⟩

/-- A report on a root whose name holds the words and the marks of a subject. -/
def quoted (more : Bool) (cap : Int) : Report where
  root := "/w/directory \x27x\x27"
  rootIsSymlink := true
  rootIsDirectory := true
  descended := true
  moreFailures := more
  newPaths := ["/w/directory \x27x\x27/and more ..."]
  interrupted := true
  maxReported := cap

/-- Without failed paths a text does not tell whether there are more, nor how many new paths it
might have listed. -/
theorem render_eq_iff_quoted :
    (quoted false 1).Legible ∧ (quoted true 0).Legible ∧
      (quoted false 1).render = (quoted true 0).render ∧ (quoted false 1).Agrees (quoted true 0) := by
  have hr : (quoted false 1).Legible := ⟨rfl, by decide +kernel, by decide +kernel⟩
  have hs : (quoted true 0).Legible := ⟨rfl, by decide +kernel, by decide +kernel⟩
  have htext : (quoted false 1).render = (quoted true 0).render := by decide +kernel
  exact ⟨hr, hs, htext, (render_eq_iff hr hs).1 htext⟩

end Report

end TreeRemoval
