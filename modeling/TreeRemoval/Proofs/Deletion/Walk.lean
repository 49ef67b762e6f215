import TreeRemoval.Proofs.Deletion.Steps
import TreeRemoval.Proofs.Deletion.Tour

/-! # Routes of walks

A walk comes to a path only through directories that it has listed. What holds of all paths on its
route, and of the files whatever is removed at these paths, holds until the walk ends. Each path it
has been to is gone afterwards, or some failure was booked.
-/

namespace TreeRemoval

namespace BoundedSet

variable (s : BoundedSet) (p : String)

theorem isPrefix_items_insert : s.items <+: (s.insert p).items := by
  rw [items_insert]
  split
  · exact List.prefix_rfl
  · exact List.prefix_append _ _

variable {s p} in
theorem mem_items_of_insert {t : String} (h : t ∈ (s.insert p).items) : t ∈ s.items ∨ t = p := by
  rw [items_insert] at h
  split at h
  · exact Or.inl h
  · simpa using h

theorem items_insert_ne_nil : (s.insert p).items ≠ [] := by
  rw [items_insert]
  split
  · rename_i h
    rcases h with h | h
    · have := s.isFull_iff.1 h
      have := s.capacity_pos
      exact List.ne_nil_of_length_pos (by omega)
    · exact List.ne_nil_of_mem h
  · simp

end BoundedSet

open World Deletion

/-- Texts of paths that many levels below a path are longer than any call takes. -/
def Path.Fits (depth : Nat) (p : Path) : Prop :=
  1 ≤ depth ∧ FileSystem.maxPathBytes + 2 ≤ p.text.utf8ByteSize + depth

theorem Path.fits_maxDepth {p : Path} (ha : p.isAbsolute = true) : p.Fits maxDepth := by
  have hp : 0 < p.text.utf8ByteSize :=
    Nat.pos_of_ne_zero fun h => Path.text_ne_empty ha (String.utf8ByteSize_eq_zero_iff.1 h)
  unfold Fits maxDepth
  omega

theorem Path.Fits.child {p : Path} {depth : Nat} (h : p.Fits (depth + 1)) (ha : p.isAbsolute = true)
    (hl : p.text.utf8ByteSize ≤ FileSystem.maxPathBytes) (n : Name) : (p.child n).Fits depth := by
  have hlt := Path.utf8ByteSize_text_lt_child ha n
  unfold Fits at *
  omega

/-- A path that is walked into leads to a directory at a place. It is no link, unless links are
followed or a look at it may fail. -/
structure Opens (w : World) (followSymlinks : Bool) (fs : FileSystem) (p : Path)
    (place : Location) : Prop where
  readable : '\x00' ∉ p.text.toList
  leads : fs.locate true p = .ok place
  directory : fs.formAt? place = some .directory
  allowed : followSymlinks = true ∨ ¬ IsLinkAt fs p ∨ w.MayBlind .lstat p.text

/-- The paths that a walk comes to with so many levels left, and what it keeps of the files. -/
structure Route (w : World) (followSymlinks : Bool) (On : Nat → Path → Prop)
    (Keeps : FileSystem → Prop) : Prop where
  proper : ∀ {depth p}, On depth p → p.Proper
  isAbsolute : ∀ {depth p}, On depth p → p.isAbsolute = true
  child : ∀ {fs depth p place n}, Keeps fs → On (depth + 1) p →
    Opens w followSymlinks fs p place → fs.get? (place ++ [n]) ≠ none → On depth (p.child n)
  removes : ∀ {fs fs' depth p}, Keeps fs → On depth p → fs.Removes w.changeTime p fs' → Keeps fs'

/-- A walk goes on, and books failures at most. -/
structure Walked (run : Run) (s : Session World) (run' : Run) (s' : Session World) : Prop
    extends s.Advances s' where
  failed : run.failed.items <+: run'.failed.items
  interrupted : run'.interrupted = run.interrupted ∨ s.state.MayCancel

/-- A path is missing, unless an event may have claimed so, or some failure has been booked. -/
def Settled (w : World) (run : Run) (fs : FileSystem) (p : Path) : Prop :=
  run.failed.items ≠ [] ∨ fs.Missing p ∨ w.MayDeny p.text

section Walked

variable {w : World} {run run' run'' : Run} {s s' s'' : Session World} {p : Path}

theorem Walked.of_advances (h : s.Advances s') (run : Run) : Walked run s run s' :=
  ⟨h, List.prefix_rfl, Or.inl rfl⟩

theorem Walked.trans (h : Walked run s run' s') (h' : Walked run' s' run'' s'') :
    Walked run s run'' s'' := by
  refine ⟨h.toAdvances.trans h'.toAdvances, h.failed.trans h'.failed, ?_⟩
  rcases h'.interrupted with hi | hm
  · rw [hi]
    exact h.interrupted
  · exact Or.inr (h.world.mayCancel hm)

theorem Walked.failed_ne_nil (h : Walked run s run' s') (hn : run.failed.items ≠ []) :
    run'.failed.items ≠ [] := by
  rintro he
  exact hn (List.prefix_nil.1 (he ▸ h.failed))

theorem Settled.walked (h : Settled w run s.state.files p) (hw : Walked run s run' s') :
    Settled w run' s'.state.files p := by
  rcases h with h | h | h
  · exact Or.inl (hw.failed_ne_nil h)
  · exact Or.inr (Or.inl (h.of_le hw.files))
  · exact Or.inr (Or.inr h)

end Walked

namespace Deleter.Booked

variable {w : World} {p : Path} {run : Run} {r : Run × Bool} {s s' : Session World}

theorem failed (h : Booked p run r s s') : run.failed.items <+: r.1.failed.items := by
  rcases h.outcome with ⟨he, -⟩ | ⟨he, -⟩
  · exact he ▸ List.prefix_rfl
  · rw [he]
    exact run.failed.isPrefix_items_insert _

theorem stopped (h : Booked p run r s s') (hr : r.2 = true) : r.1.failed.items ≠ [] := by
  rcases h.outcome with ⟨-, he, -⟩ | ⟨he, -⟩
  · rw [he] at hr; cases hr
  · rw [he]
    exact run.failed.items_insert_ne_nil _

theorem settled (h : Booked p run r s s') (hw : w.Follows s.state) :
    Settled w r.1 s'.state.files p := by
  rcases h.outcome with ⟨-, -, hm | hm⟩ | ⟨he, -⟩
  · exact Or.inr (Or.inl hm)
  · exact Or.inr (Or.inr (hw.mayDeny hm))
  · rw [Settled, he]
    exact Or.inl (run.failed.items_insert_ne_nil _)

end Deleter.Booked

namespace Route

variable {w : World} {followSymlinks : Bool} {On : Nat → Path → Prop} {Keeps : FileSystem → Prop}
  {gc : Bool} {cap : Nat} {hcap : 0 < cap} {root : Path} {includeRoot : Bool}
  {s s' s'' : Session World} {p : Path} {depth : Nat} {run run' : Run} {r : Run × Bool}
  {e : Failure}

structure Done (Keeps : FileSystem → Prop) (run : Run) (s : Session World) (r : Run × Bool)
    (s' : Session World) : Prop extends Walked run s r.1 s' where
  keeps : Keeps s'.state.files
  stopped : r.2 = true → r.1.failed.items ≠ []

structure Broken (w : World) (On : Nat → Path → Prop) (Keeps : FileSystem → Prop)
    (s : Session World) (e : Failure) (s' : Session World) : Prop extends s.Advances s' where
  keeps : Keeps s'.state.files
  cause : (e = .tooDeep ∧ ∃ p, On 0 p) ∨ ∃ depth p, On depth p ∧ w.Escapes p.text e

theorem Broken.after (hb : Broken w On Keeps s' e s'') (h : s.Advances s') :
    Broken w On Keeps s e s'' := ⟨h.trans hb.toAdvances, hb.keeps, hb.cause⟩

variable (h : Route w followSymlinks On Keeps)

theorem descending {root : Path} (hp : root.Proper) (ha : root.isAbsolute = true) :
    Route w followSymlinks (fun _ p => ∃ names, p = root.descend names) (fun _ => True) where
  proper := by
    rintro - _ ⟨names, rfl⟩
    exact hp.descend names
  isAbsolute := by
    rintro - _ ⟨names, rfl⟩
    exact ha
  child := by
    rintro - - _ - n - ⟨names, rfl⟩ - -
    exact ⟨names ++ [n], by simp⟩
  removes := fun _ _ _ => trivial

include h in
theorem keeps_of_touches (hw : w.Follows s.state) (hk : Keeps s.state.files) (ho : On depth p)
    (ht : Deleter.Touches p s s') : Keeps s'.state.files := by
  rcases ht.removes with he | hr
  · rw [he]; exact hk
  · rw [hw.changeTime] at hr
    exact h.removes hk ho hr

include h in
/-- A path opens, and its children are on the route, or an event hides some. -/
theorem ends_opening (hc : w.Calm) (hw : w.Follows s.state) (hk : Keeps s.state.files)
    (ho : On depth p) :
    Ends ((deleter gc cap hcap).shouldFollow followSymlinks p) s
      (fun b s' => s.Advances s' ∧ s'.state.files = s.state.files ∧ s'.log = s.log ∧
        (b = true → ∃ place, Opens w followSymlinks s.state.files p place))
      (fun e s' => Broken w On Keeps s e s' ∧ s'.state.files = s.state.files) := by
  apply (Deleter.ends_shouldFollow (hw.calm hc) (h.proper ho) (h.isAbsolute ho)).mono
  · rintro b s' ⟨ha, hfiles, hl, hyes, -⟩
    refine ⟨ha, hfiles, hl, fun hb => ?_⟩
    obtain ⟨hn, ⟨place, hplace, hdir⟩, hallowed⟩ := hyes hb
    exact ⟨place, hn, hplace, hdir, hallowed.imp_right (Or.imp_right hw.mayBlind)⟩
  · rintro e s' ⟨ha, hfiles, -, he⟩
    exact ⟨⟨ha, hfiles ▸ hk, Or.inr ⟨depth, p, ho, hw.escapes he⟩⟩, hfiles⟩

include h in
theorem ends_listing (hc : w.Calm) (hw : w.Follows s.state) (hk : Keeps s.state.files)
    (ho : On (depth + 1) p) {place : Location} (hop : Opens w followSymlinks s.state.files p place) :
    Ends ((deleter gc cap hcap).listChildren p) s
      (fun r s' => s.Advances s' ∧ s'.state.files = s.state.files ∧
        (∀ children, r = some children → ∀ c ∈ children, On depth c) ∧
        (r = none → w.MayDeny p.text))
      (fun e s' => Broken w On Keeps s e s' ∧ s'.state.files = s.state.files) := by
  apply (Deleter.ends_listChildren (hw.calm hc) (h.proper ho) (h.isAbsolute ho) hop.readable
    ⟨place, hop.leads, hop.directory⟩).mono
  · rintro r s' ⟨ha, hfiles, hr⟩
    refine ⟨ha, hfiles, ?_⟩
    rcases hr with ⟨children, rfl, loc, hloc, -, hmem⟩ | ⟨rfl, -⟩ | ⟨rfl, hd⟩
    · refine ⟨?_, nofun⟩
      rintro _ ⟨⟩ c hcm
      obtain ⟨n, hn, rfl⟩ := (hmem c).1 hcm
      rw [hop.leads] at hloc
      cases hloc
      exact h.child hk ho hop hn
    · exact ⟨by rintro _ ⟨⟩; simp, nofun⟩
    · exact ⟨nofun, fun _ => hw.mayDeny hd⟩
  · rintro e s' ⟨ha, hfiles, he⟩
    exact ⟨⟨ha, hfiles ▸ hk, Or.inr ⟨depth + 1, p, ho, hw.escapes he⟩⟩, hfiles⟩

/-- The stages of a walk on a route that starts with a session. A root that is kept is not settled.
-/
def stages (w : World) (followSymlinks : Bool) (On : Nat → Path → Prop) (Keeps : FileSystem → Prop)
    (root : Path) (includeRoot : Bool) (s : Session World) : Stages World where
  On depth p _ s' := On depth p ∧ s.Advances s' ∧ Keeps s'.state.files
  Open depth p _ s' := On (depth + 1) p ∧ s.Advances s' ∧ Keeps s'.state.files ∧
    ∃ place, Opens w followSymlinks s'.state.files p place
  Ready p _ s' := (∃ depth, On depth p) ∧ s.Advances s' ∧ Keeps s'.state.files
  Settled p run s' := (p = root ∧ includeRoot = false) ∨ Settled w run s'.state.files p
  Later run s' run' s'' := Walked run s' run' s'' ∧ (Keeps s'.state.files → Keeps s''.state.files)
  Stopped run _ := run.failed.items ≠ []
  Broken := Broken w On Keeps s

include h in
theorem tour (hc : w.Calm) (hw : w.Follows s.state) :
    Tour (deleter gc cap hcap) followSymlinks root includeRoot
      (stages w followSymlinks On Keeps root includeRoot s) where
  refl run s' := ⟨.of_advances (.refl s') run, id⟩
  trans hl hl' := ⟨hl.1.trans hl'.1, hl'.2 ∘ hl.2⟩
  on_later := fun ⟨ho, ha, hk⟩ hl => ⟨ho, ha.trans hl.1.toAdvances, hl.2 hk⟩
  settled_later hs hl := hs.imp_right (·.walked hl.1)
  settled_stopped hne _ := Or.inr (Or.inl hne)
  deep := fun ⟨ho, ha, hk⟩ => ⟨ha, hk, Or.inl ⟨rfl, _, ho⟩⟩
  opening := by
    rintro depth p run s₁ ⟨ho, ha, hk⟩
    apply (h.ends_opening hc (hw.trans ha.world) hk ho).mono
    · rintro b s₂ ⟨ha₂, hfiles, -, hopens⟩
      refine ⟨⟨.of_advances ha₂ run, fun _ => hfiles ▸ hk⟩, ?_⟩
      cases b with
      | true => exact ⟨ho, ha.trans ha₂, hfiles ▸ hk, hfiles ▸ hopens rfl⟩
      | false => exact ⟨⟨_, ho⟩, ha.trans ha₂, hfiles ▸ hk⟩
    · exact fun e s₂ hb => hb.1.after ha
  listing := by
    rintro depth p run s₁ ⟨ho, ha, hk, place, hop⟩
    apply (h.ends_listing hc (hw.trans ha.world) hk ho hop).mono
    · rintro (_ | children) s₂ ⟨ha₂, hfiles, hon, hnone⟩
      · exact ⟨⟨.of_advances ha₂ run, fun _ => hfiles ▸ hk⟩, Or.inr (Or.inr (Or.inr (hnone rfl)))⟩
      · have hk₂ := hfiles ▸ hk
        exact ⟨⟨.of_advances ha₂ run, fun _ => hk₂⟩,
          fun c hcm => ⟨hon children rfl c hcm, ha.trans ha₂, hk₂⟩,
          fun run' s₃ hl _ => ⟨⟨_, ho⟩, (ha.trans ha₂).trans hl.1.toAdvances, hl.2 hk₂⟩⟩
    · exact fun e s₂ hb => hb.1.after ha
  leaving := by
    rintro p run s₁ ⟨⟨depth, ho⟩, ha, hk⟩
    have hw₁ := hw.trans ha.world
    apply (Deleter.ends_leave (hw₁.calm hc) (h.proper ho) (h.isAbsolute ho) root includeRoot
      run).mono
    · rintro r s₂ (⟨hroot, hkept, rfl, rfl⟩ | ⟨-, ht, hb⟩)
      · exact ⟨⟨.of_advances (.refl _) run, id⟩, Or.inl ⟨hroot, hkept⟩, nofun⟩
      · exact ⟨⟨⟨ht.toAdvances, hb.failed, hb.interrupted⟩, fun hk => h.keeps_of_touches hw₁ hk ho ht⟩,
          Or.inr (hb.settled hw₁), hb.stopped⟩
    · rintro e s₂ ⟨ht, he⟩
      exact ⟨ha.trans ht.toAdvances, h.keeps_of_touches hw₁ hk ho ht,
        Or.inr ⟨depth, p, ho, hw₁.escapes he⟩⟩

include h in
/-- A visit stays on the route, and settles the path that it is about unless this is a root to be
kept. -/
theorem ends_visit (hc : w.Calm) (hw : w.Follows s.state) (hk : Keeps s.state.files)
    (ho : On depth p) (run : Run) :
    Ends ((deleter gc cap hcap).visit followSymlinks root includeRoot depth p run) s
      (fun r s' => Done Keeps run s r s' ∧
        ((p = root ∧ includeRoot = false) ∨ Settled w r.1 s'.state.files p))
      (Broken w On Keeps s) := by
  apply ((h.tour hc hw).ends_visit ⟨ho, .refl s, hk⟩).mono
  · rintro r s' ⟨⟨hwalked, hkeeps⟩, hsettled, hstopped⟩
    exact ⟨⟨hwalked, hkeeps hk, hstopped⟩, hsettled⟩
  · exact fun e s' hb => hb

end Route

end TreeRemoval
