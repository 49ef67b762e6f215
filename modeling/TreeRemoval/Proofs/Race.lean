import TreeRemoval.Proofs.Deletion.Looking
import TreeRemoval.Proofs.Deletion.Tour
import TreeRemoval.Proofs.World.Drift

/-! # Races

A deletion that follows no links, while others change the tree below its root. The walk asks about a
path and comes back to it later, so that it is led astray if a directory has become a link in
between. As long as no links are made, each path of the walk leads to the place of its names.
-/

namespace TreeRemoval

open World Deletion

namespace FileSystem

variable {fs fs' : FileSystem} {p : Path} {place loc : Location} {names : List Name} {n : Name}

/-- No name before the last one is that of a link. -/
def Straight (fs : FileSystem) (place : Location) (names : List Name) : Prop :=
  ∀ front back, back ≠ [] → names = front ++ back →
    ∀ target, fs.formAt? (place ++ front) ≠ some (.link target)

theorem Straight.drifts (h : fs.Straight place names) (hd : fs.Drifts place fs') :
    fs'.Straight place names :=
  fun front back hne he target hl => h front back hne he target (hd.link _ target hl)

theorem Straight.concat (h : fs.Straight place names)
    (hn : ∀ target, fs.formAt? (place ++ names) ≠ some (.link target)) (n : Name) :
    fs.Straight place (names ++ [n]) := by
  intro front back hne he target hl
  obtain ⟨back, m, rfl⟩ := List.eq_nil_or_concat back |>.resolve_left hne
  rw [List.concat_eq_append, ← List.append_assoc] at he
  obtain ⟨rfl, -⟩ := List.append_inj' he rfl
  by_cases hb : back = []
  · rw [hb, List.append_nil] at hn
    exact hn target hl
  · exact h front back hb rfl target hl

theorem short_of_locate (ha : p.isAbsolute = true)
    (h : fs.locate true (p.descend names) = .ok loc) : ∀ n ∈ names, n.isTooLong = false := by
  induction names using List.reverseRecOn generalizing loc with
  | nil => simp
  | append_singleton names n ih =>
    have hchild : ∃ loc, fs.locate false ((p.descend names).child n) = .ok loc := by
      rw [← Path.descend_concat]
      rcases locate_false_of_true h with hl | ⟨loc', -, hl, -⟩
      · exact ⟨loc, hl⟩
      · exact ⟨loc', hl⟩
    obtain ⟨loc', hl⟩ := hchild
    obtain ⟨-, hshort, parent, hparent, -⟩ :=
      (locate_child_eq_ok_iff (p := p.descend names) ha).1 hl
    intro m hm
    rcases List.mem_append.1 hm with hm | hm
    · exact ih hparent m hm
    · rwa [List.mem_singleton.1 hm]

end FileSystem

namespace World

variable {w w' : World} {place : Location} {above p : Path} {name : Name} {names : List Name}
  {gc : Bool} {cap : Nat} {hcap : 0 < cap}

theorem Contained.looking (hc : w.Contained place) :
    (deleter gc cap hcap).Looking (Drifts place w) where
  stat t := hc.keeps_looking .stat t _
  lstat t := hc.keeps_looking .lstat t _
  list t := hc.keeps_looking .list t _
  workingDirectory := fun _ hw₁ =>
    ends_currentDirectory.mono (fun _ _ h => h.1 ▸ hw₁) fun _ _ h => h ▸ hw₁
  isSymlink p := (hc.keeps_looking .lstat p.text _).shows _
  now w₁ hw₁ := hw₁.trans ⟨follows_now w₁, .refl place _⟩

theorem Contained.attempting (hc : w.Contained place) (hp : p.Proper) (ha : p.isAbsolute = true)
    (hin : ∀ {w' loc}, Drifts place w w' → w'.files.locate false p = .ok loc → place <+: loc) :
    (deleter gc cap hcap).Attempting (Drifts place w) p := by
  have hremoves : ∀ {w₁ fs}, Drifts place w w₁ → w₁.files.Removes w₁.changeTime p fs →
      w₁.files.Drifts place fs := by
    intro _ fs hw₁ hrem
    obtain ⟨parent, n, hl, -⟩ := id hrem
    obtain ⟨back, hback⟩ := hin hw₁ hl
    exact .removes hrem (hback ▸ hl)
  exact {
    looking := hc.looking
    rmdir := hc.keeps_changing .rmdir _ fun hw₁ h =>
      hremoves hw₁ (FileSystem.rmdir_removes hp ha h)
    unlink := hc.keeps_changing .unlink _ fun hw₁ h =>
      hremoves hw₁ (FileSystem.unlink_removes hp ha h)
    pause := hc.keeps_looking .pause pauseText _
    collect := hc.keeps_looking .collect "" _ }

/-- A root among others' edits: they keep to its place and make no links, the way there meets
nothing of what they work on, and no event makes a look at a node itself fail. -/
structure Race (w : World) (above : Path) (name : Name) (place : Location) : Prop where
  proper : above.Proper
  isAbsolute : above.isAbsolute = true
  leads : w.files.locate false (above.child name) = .ok place
  way : ∀ loc ∈ w.files.trail true above, ¬ place <+: loc
  edits : ∀ e ∈ w.events, ∀ edit ∈ e.edits, edit.KeepsTo place
  seen : ∀ moment t e, ¬ w.Strikes moment .lstat t (.system e)

namespace Race

variable (h : w.Race above name place)

include h

theorem contained : w.Contained place := by
  obtain ⟨-, -, top, -, hdir, hplace⟩ := (FileSystem.locate_child_eq_ok_iff h.isAbsolute).1 h.leads
  exact ⟨h.edits, top, name, hplace, hdir⟩

theorem locate_root (hw : Drifts place w w') :
    w'.files.locate false (above.child name) = .ok place :=
  hw.2.locate_child h.isAbsolute h.leads h.way

theorem proper_descend (names : List Name) : ((above.child name).descend names).Proper :=
  (h.proper.child name).descend names

theorem locate_eq (hw : Drifts place w w') (hs : w'.files.Straight place names) {loc : Location}
    (hl : w'.files.locate false ((above.child name).descend names) = .ok loc) :
    loc = place ++ names :=
  FileSystem.locate_descend_eq (p := above.child name) h.isAbsolute (h.locate_root hw) hs hl

end Race

def OnStraight (w : World) (root : Path) (place : Location) (p : Path) (s : Session World) : Prop :=
  Drifts place w s.state ∧ ∃ names, p = root.descend names ∧ s.state.files.Straight place names

end World

def Stages.straight (w : World) (root : Path) (place : Location) : Stages World where
  On _ p _ s := w.OnStraight root place p s
  Open _ p _ s := w.OnStraight root place p s ∧ ∀ n, w.OnStraight root place (p.child n) s
  Ready p _ s := w.OnStraight root place p s
  Settled _ _ _ := True
  Later _ s _ s' := Drifts place s.state s'.state
  Stopped _ _ := True
  Broken _ s := Drifts place w s.state

namespace World

variable {w : World} {place : Location} {above p : Path} {name : Name} {s s' : Session World}
  {gc : Bool} {cap : Nat} {hcap : 0 < cap} {includeRoot : Bool}

theorem OnStraight.drifts {root : Path} (h : w.OnStraight root place p s)
    (hd : Drifts place s.state s'.state) : w.OnStraight root place p s' := by
  obtain ⟨hw, names, rfl, hs⟩ := h
  exact ⟨hw.trans hd, names, rfl, hs.drifts hd.2⟩

namespace Race

variable (h : w.Race above name place)

include h

/-- A path on a straight way is walked into only if it is no link when it is asked about, and no
link is made in its place later. -/
theorem ends_shouldFollow (hon : w.OnStraight (above.child name) place p s) :
    Ends ((deleter gc cap hcap).shouldFollow false p) s
      (fun b s' => Drifts place s.state s'.state ∧
        (b = true → ∀ n, w.OnStraight (above.child name) place (p.child n) s'))
      (fun _ s' => Drifts place w s'.state) := by
  obtain ⟨hw, names, rfl, hstraight⟩ := hon
  have hp := h.proper_descend names
  have ha : ((above.child name).descend names).isAbsolute = true := h.isAbsolute
  have hc := hw.contained h.contained
  unfold Deleter.shouldFollow
  apply Ends.seq (ends_perform_keep (hc.ends_shows _ _))
  · rintro e s' ⟨f, -, hw', -⟩
    exact hw.trans hw'
  rintro (_ | _) s₁ ⟨⟨w₀, hw₀, hw₁, hyes, -⟩, -⟩
  · exact Ends.pure ⟨hw₀.trans hw₁, nofun⟩
  replace hw₁ := hw₀.trans hw₁
  obtain ⟨hnul, status, hstat, -⟩ := hyes rfl
  obtain ⟨loc, -, hl, -⟩ := (FileSystem.stat_eq_ok_iff hp ha).1 hstat
  have hshort := FileSystem.short_of_locate (p := above.child name) h.isAbsolute hl
  have hbytes := FileSystem.text_le_of_locate hl
  apply Ends.seq (ends_perform_keep ((hw₁.contained hc).ends_shows _ _))
  · rintro e s' ⟨f, -, hw', -⟩
    exact (hw.trans hw₁).trans hw'
  rintro link s₂ ⟨⟨w₂, hw₂', hfs, -, hno⟩, -⟩
  have hw₂ := hw₂'.trans hfs
  cases link with
  | true => exact Ends.pure ⟨hw₁.trans hw₂, nofun⟩
  | false =>
    have hws := (hw.trans hw₁).trans hw₂
    -- A link there now was there when it was looked at, and the look would have shown it.
    have hnolink : ∀ target, s₂.state.files.formAt? (place ++ names) ≠ some (.link target) := by
      intro target hlink
      rcases hno rfl with hlook | hn | ⟨moment, e, hstruck⟩
      · obtain ⟨node, hg, hform⟩ := Option.map_eq_some_iff.1 (hfs.2.link _ target hlink)
        have hplace := FileSystem.locate_descend (p := above.child name) h.isAbsolute
          (h.locate_root ((hw.trans hw₁).trans hw₂')) (by rw [hg]; simp) hshort hbytes
        have hkind := hlook _ ((FileSystem.lstat_eq_ok_iff hp ha).2 ⟨_, node, hplace, hg, rfl⟩)
        exact absurd (Node.kind_eq_link_iff.2 ⟨target, hform⟩) (of_decide_eq_false hkind)
      · exact hnul hn
      · exact h.seen moment _ e ((hw.trans hw₁).1.strikes hstruck)
    refine Ends.pure ⟨hw₁.trans hw₂, fun _ n => ⟨hws, names ++ [n], by simp, ?_⟩⟩
    exact (hstraight.drifts (hw₁.trans hw₂).2).concat hnolink n

theorem tour : Tour (deleter gc cap hcap) false (above.child name) includeRoot
    (.straight w (above.child name) place) where
  refl _ s := .refl place s.state
  trans h₁ h₂ := Drifts.trans h₁ h₂
  on_later := OnStraight.drifts
  settled_later _ _ := trivial
  settled_stopped _ _ := trivial
  deep hon := hon.1
  opening := by
    intro _ p run s hon
    refine (h.ends_shouldFollow hon).mono ?_ fun _ _ hb => hb
    rintro (_ | _) s' ⟨hl, hopen⟩
    · exact ⟨hl, hon.drifts hl⟩
    · exact ⟨hl, hon.drifts hl, hopen rfl⟩
  listing := by
    rintro _ p run s ⟨hon, hchildren⟩
    have hlooks : (deleter gc cap hcap).Looking (Drifts place s.state) :=
      (hon.1.contained h.contained).looking
    refine ((hlooks.keeps_listChildren p s (.refl place _)).and
      (Deleter.ends_listChildren_child _ p s)).mono ?_ fun _ _ hb => hon.1.trans hb.1
    rintro (_ | children) s' ⟨hl, hlisted⟩
    · exact ⟨hl, trivial⟩
    · refine ⟨hl, fun c hcm => ?_, fun run' s'' hl' _ => (hon.drifts hl).drifts hl'⟩
      obtain ⟨n, rfl⟩ := hlisted children rfl c hcm
      exact (hchildren n).drifts hl
  leaving := by
    rintro p run s ⟨hw, names, rfl, hs⟩
    have hattempting : (deleter gc cap hcap).Attempting (Drifts place s.state) _ :=
      (hw.contained h.contained).attempting (h.proper_descend names) h.isAbsolute fun hd hl =>
        h.locate_eq (hw.trans hd) (hs.drifts hd.2) hl ▸ List.prefix_append _ _
    refine (hattempting.keeps_leave includeRoot run s (.refl place _)).mono ?_ fun _ _ hb =>
      hw.trans hb
    exact fun r s' hl => ⟨hl, trivial, fun _ => trivial⟩

end Race

end World

/-- While others change what is at a root's place and below it, but make no links there, a deletion
that follows no links leaves everything else as it is. The way to the root must not lead through
what the others change, and no event may make a look at a node itself fail. This holds after any
call of the deletion, since an interrupt may end it there. -/
theorem deleteTree_keeps_outside {w : World} {root : String} {place : Location}
    (ha : (Path.ofText root).isAbsolute = true)
    (hleads : w.files.locate false (.ofText root) = .ok place)
    (hway : ∀ loc ∈ w.files.trail true (Path.ofText root).above, ¬ place <+: loc)
    (hedits : ∀ e ∈ w.events, ∀ edit ∈ e.edits, edit.KeepsTo place)
    (hseen : ∀ moment t e, ¬ w.Strikes moment .lstat t (.system e)) (collectsGarbage : Bool)
    (cap : Nat) (hcap : 0 < cap) (log : List Log.Entry) (acts : List Act) :
    Ends ((World.deleter collectsGarbage cap hcap).deleteTree false (.ofText root)) ⟨w, log, acts⟩
      (fun _ s => ∀ loc, ¬ place <+: loc → s.state.files.formAt? loc = w.files.formAt? loc)
      (fun _ s => ∀ loc, ¬ place <+: loc → s.state.files.formAt? loc = w.files.formAt? loc) := by
  obtain ⟨above, name, hp, hroot⟩ :=
    FileSystem.exists_child_of_way (Path.proper_ofText root) hleads hway
  rw [hroot] at ha hleads hway ⊢
  rw [Path.above_child] at hway
  have hrace : w.Race above name place := ⟨hp, ha, hleads, hway, hedits, hseen⟩
  have hlooks : (World.deleter collectsGarbage cap hcap).Looking (World.Drifts place w) :=
    hrace.contained.looking
  have hstart : World.Drifts place w w := .refl place w
  refine (hlooks.ends_deleteTree (s := ⟨w, log, acts⟩) hlooks (fun _ h => h) ?_ hstart).mono
    (fun _ _ h => h.2.outside) fun _ _ h => h.2.outside
  intro s hs
  refine (hrace.tour.ends_walk ⟨hs, [], by simp, ?_⟩).mono (fun _ _ h => hs.trans h.1)
    fun _ _ h => h
  intro front back hne he
  exact absurd (List.append_eq_nil_iff.1 he.symm).2 hne

/-- A directory that vanishes when it is about to be listed. -/
def World.vanishing : World :=
  .make [.leaf (.ofText "/w/a/x") .file 0, .leaf (.ofText "/out/y") .file 0] "/" none
    [{ call := .list, path := some "/w/a", edits := [.remove (.ofText "/w/a")] }] (.ofList [])

theorem deleteTree_keeps_outside_vanishing :
    (Path.ofText "/w").isAbsolute = true ∧
      World.vanishing.files.locate false (.ofText "/w") = .ok (.ofText "/w") ∧
      (∀ loc ∈ World.vanishing.files.trail true (Path.ofText "/w").above,
        ¬ Location.ofText "/w" <+: loc) ∧
      (∀ e ∈ World.vanishing.events, ∀ edit ∈ e.edits, edit.KeepsTo (.ofText "/w")) ∧
      (∀ moment t e, ¬ World.vanishing.Strikes moment .lstat t (.system e)) ∧
      Ends ((World.deleter false 1 Nat.one_pos).deleteTree false (.ofText "/w"))
        ⟨World.vanishing, [], []⟩
        (fun _ s => ∀ loc, ¬ Location.ofText "/w" <+: loc →
          s.state.files.formAt? loc = World.vanishing.files.formAt? loc)
        (fun _ s => ∀ loc, ¬ Location.ofText "/w" <+: loc →
          s.state.files.formAt? loc = World.vanishing.files.formAt? loc) := by
  have ha : (Path.ofText "/w").isAbsolute = true := by decide
  have hleads : World.vanishing.files.locate false (.ofText "/w") = .ok (.ofText "/w") := by
    decide +kernel
  have hway : ∀ loc ∈ World.vanishing.files.trail true (Path.ofText "/w").above,
      ¬ Location.ofText "/w" <+: loc := by decide +kernel
  have hedits : ∀ e ∈ World.vanishing.events, ∀ edit ∈ e.edits, edit.KeepsTo (.ofText "/w") := by
    intro e he edit hm
    change e ∈ [_] at he
    rw [List.mem_singleton.1 he] at hm
    change edit ∈ [_] at hm
    rw [List.mem_singleton.1 hm]
    exact ⟨by decide +kernel, nofun⟩
  have hseen : ∀ moment t e, ¬ World.vanishing.Strikes moment .lstat t (.system e) := by
    rintro moment t e ⟨event, he, -, d, hd, -⟩
    change event ∈ [_] at he
    rw [List.mem_singleton.1 he] at hd
    cases hd
  exact ⟨ha, hleads, hway, hedits, hseen,
    deleteTree_keeps_outside ha hleads hway hedits hseen false 1 Nat.one_pos [] []⟩

end TreeRemoval
