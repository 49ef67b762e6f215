import Mathlib.Data.List.Infix
import TreeRemoval.Proofs.Keeping
import TreeRemoval.Proofs.Resumption
import TreeRemoval.Proofs.World.Founding

/-! # Emptying and recreating

A target is emptied in one of three ways: a directory is made where nothing is, or all entries of a
directory are removed, or any other node is removed and a directory is made in its place. Without
faults each of them comes to what the deletion of the target and then the making of a directory come
to.
-/

namespace TreeRemoval

open World Deletion Visit

/-- A target in a world without faults. Above it there are directories or nothing, and no path of
its tree is refused for its length or for a null byte. -/
structure World.Plot (w : World) (target : Path) (place : Location) : Prop where
  quiet : w.events = []
  isAbsolute : target.isAbsolute = true
  eq_descend : target = (Path.mk target.anchor []).descend place
  inhabited : place ≠ []
  ground : w.files.IsGround place.dropLast
  bytes : ∀ below, below = [] ∨ w.files.get? (place ++ below) ≠ none →
    (target.descend below).text.utf8ByteSize ≤ FileSystem.maxPathBytes
  short : ∀ below, below = [] ∨ w.files.get? (place ++ below) ≠ none →
    ∀ n ∈ place ++ below, n.isTooLong = false
  readable : ∀ below, below = [] ∨ w.files.get? (place ++ below) ≠ none →
    '\x00' ∉ (target.descend below).text.toList

namespace World.Plot

variable {w : World} {target : Path} {place : Location} {node : Node} (h : w.Plot target place)

include h

theorem onlyRefuses : w.OnlyRefuses := by
  intro e he
  rw [h.quiet] at he
  cases he

theorem proper : target.Proper := by
  rw [h.eq_descend]
  exact Path.Proper.descend (by simp [Path.Proper]) place

theorem anchor_ne_here : target.anchor ≠ .here := by
  simpa [Path.isAbsolute] using h.isAbsolute

theorem bytes_target :
    ((Path.mk target.anchor []).descend place).text.utf8ByteSize ≤ FileSystem.maxPathBytes := by
  rw [← h.eq_descend, ← target.descend_nil]
  exact h.bytes [] (Or.inl rfl)

theorem short_target : ∀ n ∈ place, n.isTooLong = false := by
  simpa using h.short [] (Or.inl rfl)

theorem readable_target : '\x00' ∉ target.text.toList := by
  rw [← target.descend_nil]
  exact h.readable [] (Or.inl rfl)

theorem missing (hn : w.files.formAt? place = none) : w.files.Missing target := by
  rw [h.eq_descend]
  exact FileSystem.missing_names h.short_target h.bytes_target h.ground hn

theorem site (hg : w.files.get? place = some node) : w.Site target place node := by
  obtain ⟨n, hplace⟩ : ∃ n, place = place.dropLast ++ [n] :=
    ⟨place.getLast h.inhabited, (List.dropLast_concat_getLast h.inhabited).symm⟩
  have hparent : w.files.formAt? place.dropLast = some .directory := by
    have hthere : w.files.get? (place.dropLast ++ [n]) ≠ none := by
      rw [← hplace, hg]
      simp
    exact FileSystem.formAt?_of_append (by simp) hthere
  have hbelow : ∀ names, node.get? names ≠ none → w.files.get? (place ++ names) ≠ none := by
    intro names hn
    rw [FileSystem.get?_append, hg]
    exact hn
  constructor
  · exact h.onlyRefuses
  · exact h.proper
  · exact h.isAbsolute
  · refine ⟨(Path.mk target.anchor []).descend place.dropLast, n,
      Path.Proper.descend (by simp [Path.Proper]) _, ?_⟩
    rw [← Path.descend_concat, ← hplace]
    exact h.eq_descend
  · rw [h.eq_descend]
    exact FileSystem.locate_names_of_directory h.short_target h.bytes_target hparent
  · exact hg
  · intro loc hl hp
    rw [h.eq_descend] at hl
    have hp' := FileSystem.trail_names h.ground hl
    exact (hp.eq_of_length (Nat.le_antisymm hp.length_le hp'.length_le)).symm
  · exact ⟨fun names hn => h.bytes names (Or.inr (hbelow names hn)), fun names hn n hm =>
      h.short names (Or.inr (hbelow names hn)) n (List.mem_append_right _ hm)⟩
  · exact fun names hn => h.readable names (Or.inr (hbelow names hn))

variable {gc : Bool} {cap : Nat} {hcap : 0 < cap} {s : Session World}

theorem ends_deleteTree (gc : Bool) (cap : Nat) (hcap : 0 < cap) (log : List Log.Entry)
    (acts : List Act) :
    Ends ((deleter gc cap hcap).deleteTree false target) ⟨w, log, acts⟩
      (fun _ s => w.Follows s.state ∧ w.files.Clears place s.state.files) (fun _ _ => False) := by
  have hfollows : Ends ((deleter gc cap hcap).deleteTree false target) ⟨w, log, acts⟩
      (fun _ s => w.Follows s.state) (fun _ _ => True) :=
    ((Route.descending h.proper h.isAbsolute).ends_deleteTree h.onlyRefuses.calm (.refl w) trivial
      ⟨[], target.descend_nil.symm⟩).mono (fun _ _ ht => ht.2.1.world) fun _ _ _ => trivial
  have hclears : Ends ((deleter gc cap hcap).deleteTree false target) ⟨w, log, acts⟩
      (fun _ s => w.files.Clears place s.state.files) (fun _ _ => False) := by
    cases hg : w.files.get? place with
    | none =>
      have hn : w.files.formAt? place = none := FileSystem.formAt?_eq_none_iff.2 hg
      apply (ends_deleteTree_missing h.onlyRefuses h.proper h.isAbsolute h.readable_target
        (h.missing hn) gc cap hcap log acts).mono
      · rintro b s ⟨-, hfiles⟩
        rw [hfiles]
        exact FileSystem.clears_refl hn
      · exact fun _ _ hf => hf
    | some node =>
      have hquiet : w.faultless = w := by
        unfold faultless
        rw [← h.quiet]
      have hs : w.faultless.Site target place node := hquiet.symm ▸ h.site hg
      have hends := hs.ends_deleteTree_faultless gc cap hcap log acts
      rw [hquiet] at hends
      exact hends.mono (fun _ _ ht => ht.2.formAt?) fun _ _ hf => hf
  exact (hfollows.and hclears).mono (fun _ _ ht => ht) fun _ _ hf => hf.2

theorem ends_ensureDirectory {w' : World} (hw : w.Follows w') (hc : w.files.Clears place w'.files) :
    Ends (environment.ensureDirectory target) w'
      (fun _ w'' => w.files.Resets place w''.files) (fun _ _ => False) := by
  have hreadable := h.readable_target
  rw [h.eq_descend] at hreadable ⊢
  apply ((hw.onlyRefuses h.onlyRefuses).ends_ensureDirectory h.anchor_ne_here h.short_target
    h.bytes_target hreadable (hc.isGround h.ground)).mono
  · rintro - _ ⟨files, rfl, hfounds⟩
    exact hc.resets hfounds
  · exact fun _ _ hf => hf

/-- The emptying of the target leaves an empty directory, and tells whether it has removed anything.
-/
theorem ends_ensureEmpty (gc : Bool) (cap : Nat) (hcap : 0 < cap) (log : List Log.Entry)
    (acts : List Act) :
    Ends ((deleter gc cap hcap).ensureEmpty false target) ⟨w, log, acts⟩
      (fun removed s => w.files.Resets place s.state.files ∧
        (removed = true ↔ w.files.get? place ≠ none ∧ ¬ w.files.IsEmptyAt place))
      (fun _ _ => False) := by
  have hr := h.onlyRefuses
  have hreadable := h.readable_target
  have hmake : ∀ {s : Session World}, w.Follows s.state → w.files.Clears place s.state.files →
      Ends (perform (environment.ensureDirectory target)) s
        (fun _ s' => w.files.Resets place s'.state.files) (fun _ _ => False) :=
    fun hw hc => ends_perform (h.ends_ensureDirectory hw hc)
  unfold Deleter.ensureEmpty
  cases hg : w.files.get? place with
  | none =>
    have hn : w.files.formAt? place = none := FileSystem.formAt?_eq_none_iff.2 hg
    apply Ends.seq (ends_perform_keep (hr.ends_look?_missing h.proper h.isAbsolute hreadable
      (h.missing hn)))
    · rintro _ _ ⟨f, -, hf, -⟩
      exact hf
    rintro _ s ⟨⟨hw, rfl⟩, -⟩
    have hclears : w.files.Clears place s.state.files := by
      rw [hw]
      exact FileSystem.clears_refl hn
    apply Ends.bind (hmake (hw ▸ .refl w) hclears)
    exact fun _ _ hresets => Ends.pure ⟨hresets, by simp⟩
  | some node =>
    have hs := h.site hg
    have hform := hs.formAt?_top
    apply Ends.seq (ends_perform_keep (hr.ends_look? h.proper h.isAbsolute hreadable hs.leads
      hform))
    · rintro _ _ ⟨f, -, hf, -⟩
      exact hf
    rintro _ s₁ ⟨⟨hw₁, status, rfl, -⟩, -⟩
    apply Ends.bind ((hw₁ ▸ hr).ends_shouldFollow h.proper h.isAbsolute hreadable)
    rintro follows ⟨w₂, log₂, acts₂⟩ ⟨hw₂, hopens⟩
    obtain rfl : w₂ = w := hw₂.trans hw₁
    rw [hw₁, opens_iff hs.leads hform] at hopens
    cases follows with
    | false =>
      -- A target that is no directory is deleted, which makes room for one.
      have hnot : node.form ≠ .directory := by simpa using hopens
      have hne : ¬ w₂.files.IsEmptyAt place :=
        fun he => hnot (Option.some.inj (hform.symm.trans he.1))
      apply Ends.bind (h.ends_deleteTree gc cap hcap log₂ acts₂)
      rintro - s₃ ⟨hw₃, hclears⟩
      apply Ends.bind (hmake hw₃ hclears)
      exact fun _ _ hresets => Ends.pure ⟨hresets, by simp [hne]⟩
    | true =>
      obtain ⟨m, es, rfl⟩ := Node.form_eq_directory_iff.1 (hopens.1 rfl)
      apply Ends.bind (hs.ends_deleteBelow_kept h.quiet rfl)
      intro run s₃ hreached
      refine Ends.pure ⟨hreached.resets_of_kept hs, ?_⟩
      rw [decide_eq_true_iff, hreached.deleted_pos_iff_of_kept hs]
      simp

end World.Plot

/-- Without faults, the emptying of a target leaves the same as its deletion and then the making of
a directory, namely an empty directory at the target, and it tells whether anything else was there.
-/
theorem ensureEmpty_recreates {w : World} (hquiet : w.events = []) {target : String}
    (ha : (Path.ofText target).isAbsolute = true) (hparts : (Path.ofText target).parts ≠ [])
    (hdots : ".." ∉ (Path.ofText target).parts)
    (habove : ∀ above, above <+: Location.ofText target → above ≠ Location.ofText target →
      w.files.formAt? above = some .directory ∨ w.files.formAt? above = none)
    (hlimits : ∀ below, below = [] ∨ w.files.get? (Location.ofText target ++ below) ≠ none →
      ((Path.ofText target).descend below).text.utf8ByteSize ≤ FileSystem.maxPathBytes ∧
        ∀ n ∈ Location.ofText target ++ below, n.isTooLong = false)
    (hreadable : ∀ below, below = [] ∨ w.files.get? (Location.ofText target ++ below) ≠ none →
      '\x00' ∉ ((Path.ofText target).descend below).text.toList)
    (collectsGarbage : Bool) (cap : Nat) (hcap : 0 < cap) (log log' : List Log.Entry)
    (acts acts' : List Act) :
    ∃ removed s deleted s' made,
      (World.deleter collectsGarbage cap hcap).ensureEmpty false (.ofText target) ⟨w, log, acts⟩ =
        .ok removed s ∧
      (World.deleter collectsGarbage cap hcap).deleteTree false (.ofText target) ⟨w, log', acts'⟩ =
        .ok deleted s' ∧
      environment.ensureDirectory (.ofText target) s'.state = .ok () made ∧
      (∀ loc, s.state.files.formAt? loc = made.files.formAt? loc) ∧
      s.state.files.IsEmptyAt (.ofText target) ∧
      (removed = true ↔
        w.files.get? (.ofText target) ≠ none ∧ ¬ w.files.IsEmptyAt (.ofText target)) := by
  have hpath := Path.ofText_eq_descend hdots
  have hinhabited : Location.ofText target ≠ [] := by
    intro hnil
    rw [hpath, hnil] at hparts
    exact hparts rfl
  have h : w.Plot (.ofText target) (.ofText target) := by
    refine ⟨hquiet, ha, hpath, hinhabited, fun above hp => ?_,
      fun below hb => (hlimits below hb).1, fun below hb => (hlimits below hb).2, hreadable⟩
    refine habove above (hp.trans (List.dropLast_prefix _)) ?_
    rintro rfl
    have hlength := hp.length_le
    have hpos := List.length_pos_iff.2 hinhabited
    rw [List.length_dropLast] at hlength
    omega
  obtain ⟨removed, s, hrun, hresets, hremoved⟩ :=
    (h.ends_ensureEmpty collectsGarbage cap hcap log acts).exists_ok
  obtain ⟨deleted, s', hrun', hw', hclears⟩ :=
    (h.ends_deleteTree collectsGarbage cap hcap log' acts').exists_ok
  obtain ⟨_, made, hmade, hresets'⟩ := (h.ends_ensureDirectory hw' hclears).exists_ok
  refine ⟨removed, s, deleted, s', made, hrun, hrun', hmade, fun loc => ?_, hresets.isEmptyAt,
    hremoved⟩
  rw [hresets, hresets']

theorem World.mem_places_of_below {w : World} {place : Location} {node : Node}
    (hthere : w.files.get? place = some node) {below : Location}
    (h : below = [] ∨ w.files.get? (place ++ below) ≠ none) : below ∈ node.places := by
  rcases h with rfl | hn
  · exact List.mem_cons_self
  · rw [FileSystem.get?_append, hthere] at hn
    exact Node.mem_places hn

/-- A directory with a file and a link to the directory above it. -/
def World.littered : World :=
  .make [.leaf (.ofText "/a/w/scrap") .file 0, .leaf (.ofText "/a/w/up") (.link "..") 0] "/" none []
    (.ofList [])

def World.litteredTree : Node :=
  .directory 0 [(⟨"scrap", by decide, by decide, by decide, by decide⟩, .file 0),
    (⟨"up", by decide, by decide, by decide, by decide⟩, .link ".." 0)]

theorem ensureEmpty_recreates_littered :
    World.littered.events = [] ∧ (Path.ofText "/a/w").isAbsolute = true ∧
      (Path.ofText "/a/w").parts ≠ [] ∧ ".." ∉ (Path.ofText "/a/w").parts ∧
      (∀ above, above <+: Location.ofText "/a/w" → above ≠ Location.ofText "/a/w" →
        World.littered.files.formAt? above = some .directory ∨
          World.littered.files.formAt? above = none) ∧
      (∀ below,
        below = [] ∨ World.littered.files.get? (Location.ofText "/a/w" ++ below) ≠ none →
          ((Path.ofText "/a/w").descend below).text.utf8ByteSize ≤ FileSystem.maxPathBytes ∧
            ∀ n ∈ Location.ofText "/a/w" ++ below, n.isTooLong = false) ∧
      (∀ below,
        below = [] ∨ World.littered.files.get? (Location.ofText "/a/w" ++ below) ≠ none →
          '\x00' ∉ ((Path.ofText "/a/w").descend below).text.toList) ∧
      ∃ removed s deleted s' made,
        (World.deleter false 1 Nat.one_pos).ensureEmpty false (.ofText "/a/w")
          ⟨World.littered, [], []⟩ = .ok removed s ∧
        (World.deleter false 1 Nat.one_pos).deleteTree false (.ofText "/a/w")
          ⟨World.littered, [], []⟩ = .ok deleted s' ∧
        environment.ensureDirectory (.ofText "/a/w") s'.state = .ok () made ∧
        (∀ loc, s.state.files.formAt? loc = made.files.formAt? loc) ∧
        s.state.files.IsEmptyAt (.ofText "/a/w") ∧
        (removed = true ↔ World.littered.files.get? (.ofText "/a/w") ≠ none ∧
          ¬ World.littered.files.IsEmptyAt (.ofText "/a/w")) := by
  have ha : (Path.ofText "/a/w").isAbsolute = true := by decide
  have hparts : (Path.ofText "/a/w").parts ≠ [] := by decide
  have hdots : ".." ∉ (Path.ofText "/a/w").parts := by decide
  have hthere : World.littered.files.get? (.ofText "/a/w") = some World.litteredTree := by rfl
  have habove : ∀ above, above <+: Location.ofText "/a/w" → above ≠ Location.ofText "/a/w" →
      World.littered.files.formAt? above = some .directory ∨
        World.littered.files.formAt? above = none := by
    have hinits : ∀ above ∈ (Location.ofText "/a/w").inits, above ≠ Location.ofText "/a/w" →
        World.littered.files.formAt? above = some .directory ∨
          World.littered.files.formAt? above = none := by decide
    exact fun above hp => hinits above ((List.mem_inits _ _).2 hp)
  have hlimits : ∀ below,
      below = [] ∨ World.littered.files.get? (Location.ofText "/a/w" ++ below) ≠ none →
        ((Path.ofText "/a/w").descend below).text.utf8ByteSize ≤ FileSystem.maxPathBytes ∧
          ∀ n ∈ Location.ofText "/a/w" ++ below, n.isTooLong = false := by
    have hplaces : ∀ below ∈ World.litteredTree.places,
        ((Path.ofText "/a/w").descend below).text.utf8ByteSize ≤ FileSystem.maxPathBytes ∧
          ∀ n ∈ Location.ofText "/a/w" ++ below, n.isTooLong = false := by decide
    exact fun below hb => hplaces below (World.mem_places_of_below hthere hb)
  have hreadable : ∀ below,
      below = [] ∨ World.littered.files.get? (Location.ofText "/a/w" ++ below) ≠ none →
        '\x00' ∉ ((Path.ofText "/a/w").descend below).text.toList := by
    have hplaces : ∀ below ∈ World.litteredTree.places,
        '\x00' ∉ ((Path.ofText "/a/w").descend below).text.toList := by decide
    exact fun below hb => hplaces below (World.mem_places_of_below hthere hb)
  exact ⟨rfl, ha, hparts, hdots, habove, hlimits, hreadable,
    ensureEmpty_recreates rfl ha hparts hdots habove hlimits hreadable false 1 Nat.one_pos
      [] [] [] []⟩

/-- Readable names are needed: otherwise the emptying of a directory fails without any fault. -/
theorem ensureEmpty_garbled :
    World.garbled.events = [] ∧ (Path.ofText "/w").isAbsolute = true ∧
      (Path.ofText "/w").parts ≠ [] ∧ ".." ∉ (Path.ofText "/w").parts ∧
      (∀ above, above <+: Location.ofText "/w" → above ≠ Location.ofText "/w" →
        World.garbled.files.formAt? above = some .directory ∨
          World.garbled.files.formAt? above = none) ∧
      (∀ below,
        below = [] ∨ World.garbled.files.get? (Location.ofText "/w" ++ below) ≠ none →
          ((Path.ofText "/w").descend below).text.utf8ByteSize ≤ FileSystem.maxPathBytes ∧
            ∀ n ∈ Location.ofText "/w" ++ below, n.isTooLong = false) ∧
      ¬ ∃ removed s, (World.deleter false 1 Nat.one_pos).ensureEmpty false (.ofText "/w")
        ⟨World.garbled, [], []⟩ = .ok removed s := by
  have hthere : World.garbled.files.get? (.ofText "/w") = some World.garbledTree := by rfl
  have hinits : ∀ above ∈ (Location.ofText "/w").inits, above ≠ Location.ofText "/w" →
      World.garbled.files.formAt? above = some .directory ∨
        World.garbled.files.formAt? above = none := by decide
  have hplaces : ∀ below ∈ World.garbledTree.places,
      ((Path.ofText "/w").descend below).text.utf8ByteSize ≤ FileSystem.maxPathBytes ∧
        ∀ n ∈ Location.ofText "/w" ++ below, n.isTooLong = false := by decide
  have hfails : ((World.deleter false 1 Nat.one_pos).ensureEmpty false (.ofText "/w")).run'
      ⟨World.garbled, [], []⟩ = none := by decide +kernel
  refine ⟨rfl, by decide, by decide, by decide,
    fun above hp => hinits above ((List.mem_inits _ _).2 hp),
    fun below hb => hplaces below (World.mem_places_of_below hthere hb), ?_⟩
  rintro ⟨removed, s, hs⟩
  obtain ⟨e, s', he⟩ := exists_error_of_run' hfails
  cases he.symm.trans hs

end TreeRemoval
