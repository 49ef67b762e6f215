import TreeRemoval.Proofs.Deletion.Refused
import TreeRemoval.Proofs.FileSystem.Losses
import TreeRemoval.Proofs.FileSystem.Trail

/-! # Walks and their surveys

When events only refuse, a walk does what the survey of its tree tells, up to the node whose failure
fills the set. The invariant says what has been attempted so far: the failures are booked in that
order, the other nodes are gone, and nothing else has changed.
-/

namespace TreeRemoval

open World Deletion Visit

/-- All paths of a tree keep to the limits of the calls. -/
structure Path.WithinLimits (root : Path) (node : Node) : Prop where
  text : ∀ names, node.get? names ≠ none →
    (root.descend names).text.utf8ByteSize ≤ FileSystem.maxPathBytes
  name : ∀ names, node.get? names ≠ none → ∀ n ∈ names, n.isTooLong = false

theorem Path.withinLimits_of_places {root : Path} {node : Node}
    (h : ∀ names ∈ node.places,
      (root.descend names).text.utf8ByteSize ≤ FileSystem.maxPathBytes ∧
        ∀ n ∈ names, n.isTooLong = false) : root.WithinLimits node where
  text names hn := (h names (Node.mem_places hn)).1
  name names hn := (h names (Node.mem_places hn)).2

theorem Node.names_of_single {m m' : Float} {n : Name} {names : Location}
    (h : (Node.directory m [(n, .file m')]).get? names ≠ none) : names = [] ∨ names = [n] := by
  simpa [Node.places, descendants, descendantsOfEach] using Node.mem_places h

theorem Path.withinLimits_of_single {root : Path} {m m' : Float} {n : Name}
    (hroot : root.text.utf8ByteSize ≤ FileSystem.maxPathBytes)
    (htext : (root.descend [n]).text.utf8ByteSize ≤ FileSystem.maxPathBytes)
    (hname : n.isTooLong = false) : root.WithinLimits (.directory m [(n, .file m')]) := by
  apply Path.withinLimits_of_places
  intro names hn
  rcases (show names = [] ∨ names = [n] by
    simpa [Node.places, Node.descendants, Node.descendantsOfEach] using hn) with rfl | rfl
  · simpa using hroot
  · exact ⟨htext, by simpa using hname⟩

/-- A tree to be removed, and where it is in a world whose events only refuse. -/
structure World.Site (w : World) (root : Path) (place : Location) (node : Node) : Prop where
  refuses : w.OnlyRefuses
  proper : root.Proper
  isAbsolute : root.isAbsolute = true
  child : ∃ base : Path, ∃ name, base.Proper ∧ root = base.child name
  leads : w.files.locate false root = .ok place
  there : w.files.get? place = some node
  apart : ∀ loc ∈ w.files.trail false root, place <+: loc → loc = place
  limits : root.WithinLimits node
  readable : ∀ names, node.get? names ≠ none → '\x00' ∉ (root.descend names).text.toList

namespace World.Site

variable {w : World} {root : Path} {place : Location} {node below : Node} {fs : FileSystem}
  {prior : List Visit} {names : Location} {blocked : Bool}

variable (hs : w.Site root place node)

include hs

theorem get? (names : Location) : w.files.get? (place ++ names) = node.get? names := by
  rw [FileSystem.get?_append, hs.there]
  rfl

theorem nodup_entries {m : Float} {es : List (Name × Node)}
    (hb : node.get? names = some (.directory m es)) : (es.map (·.1)).Nodup := by
  cases w.files.wellFormed.of_get? ((hs.get? names).trans hb) with
  | directory hnodup _ => exact hnodup

theorem descend_eq_child (names : Location) : ∃ base : Path, ∃ parent name,
    base.Proper ∧ base.isAbsolute = true ∧ root.descend names = base.child name ∧
      place ++ names = parent ++ [name] := by
  induction names using List.reverseRecOn with
  | nil =>
    obtain ⟨base, name, hbase, he⟩ := hs.child
    have ha : (base.child name).isAbsolute = true := he ▸ hs.isAbsolute
    obtain ⟨-, -, parent, -, -, hplace⟩ :=
      (FileSystem.locate_child_eq_ok_iff (p := base) ha).1 (he ▸ hs.leads)
    exact ⟨base, parent, name, hbase, ha, by rw [Path.descend_nil, he], by simpa using hplace⟩
  | append_singleton names n =>
    exact ⟨root.descend names, place ++ names, n, hs.proper.descend names, hs.isAbsolute,
      Path.descend_concat root names n, (List.append_assoc place names [n]).symm⟩

variable (hloses : w.files.Loses w.changeTime (gone place prior) fs)

include hloses

theorem formAt? (hb : node.get? names = some below) (hnot : ⟨names, false⟩ ∉ prior) :
    fs.formAt? (place ++ names) = some below.form := by
  rw [hloses.formAt?, if_neg fun hg => hnot (mem_gone_iff.1 hg), FileSystem.formAt?, hs.get?, hb]
  rfl

variable (hroot : ⟨[], false⟩ ∉ prior)

include hroot

theorem locate_root : fs.locate false root = .ok place := by
  refine (FileSystem.locate_of_trail fun loc hl => ?_).trans hs.leads
  rw [hloses.formAt?, if_neg]
  intro hg
  obtain ⟨v, hv, rfl⟩ := List.mem_map.1 hg
  have hself := List.append_right_eq_self.1 (hs.apart _ hl (List.prefix_append _ _))
  rw [hself, mem_gone_iff] at hg
  exact hroot hg

theorem locate (hn : fs.get? (place ++ names) ≠ none) :
    fs.locate false (root.descend names) = .ok (place ++ names) := by
  have hthere : node.get? names ≠ none := by
    rw [← hs.get?]
    exact FileSystem.get?_ne_none_of_le hloses.le hn
  exact FileSystem.locate_descend hs.isAbsolute (hs.locate_root hloses hroot) hn
    (hs.limits.name names hthere) (hs.limits.text names hthere)

theorem holds (hb : node.get? names = some below) (hnot : ⟨names, false⟩ ∉ prior)
    (hblocked : blocked = true ↔ ∃ n, fs.get? (place ++ names ++ [n]) ≠ none) :
    ∃ parent name, place ++ names = parent ++ [name] ∧
      fs.Holds (root.descend names) parent name below.form blocked := by
  obtain ⟨base, parent, name, hbase, ha, hp, hplace⟩ := hs.descend_eq_child names
  have hform := hs.formAt? hloses hb hnot
  have hthere : fs.get? (place ++ names) ≠ none := by
    rw [Ne, ← FileSystem.formAt?_eq_none_iff, hform]
    simp
  refine ⟨parent, name, hplace, ⟨base, hbase, ha, hp⟩, hs.readable names (by rw [hb]; simp), ?_,
    hplace ▸ hform, hplace ▸ hblocked⟩
  rw [← hplace]
  exact hs.locate hloses hroot hthere

end World.Site

/-- What a walk has done when some nodes have been attempted. -/
structure Reached (w : World) (root : Path) (place : Location) (cap : Nat) (visits : List Visit)
    (run : Run) (s : Session World) : Prop where
  world : w.Follows s.state
  files : w.files.Loses w.changeTime (gone place visits) s.state.files
  capacity : run.failed.capacity = cap
  failed : run.failed.items = failed root visits
  deleted : run.deleted = (gone place visits).length
  interrupted : run.interrupted = false

/-- A part of a walk has attempted some nodes. It stops if their failures fill the set; otherwise it
has used the events up to some point. -/
structure Arrives (w : World) (root : Path) (place : Location) (cap : Nat) (visits : List Visit)
    (events : List Event) (r : Run × Bool) (s : Session World) : Prop
    extends Reached w root place cap visits r.1 s where
  stops : r.2 = true ↔ cap ≤ failures visits
  events : r.2 = false → s.state.events = events

/-- No node of some visits is on the way to the end of some names, or below it. -/
def Visit.Off (names : Location) (visits : List Visit) : Prop :=
  ∀ v ∈ visits, ¬ v.names <+: names ∧ ¬ names <+: v.names

namespace Visit.Off

variable {names : Location} {n : Name} {visits visits' : List Visit}

theorem child (h : Off names visits) (n : Name) : Off (names ++ [n]) visits := by
  intro v hv
  obtain ⟨h₁, h₂⟩ := h v hv
  refine ⟨fun hp => ?_, fun hp => h₂ ((List.prefix_append _ _).trans hp)⟩
  rcases List.prefix_concat_iff.1 hp with he | hp
  · exact h₂ (he ▸ List.prefix_append _ _)
  · exact h₁ hp

theorem append (h : Off names visits) (h' : Off names visits') : Off names (visits ++ visits') := by
  intro v hv
  rcases List.mem_append.1 hv with hv | hv
  · exact h v hv
  · exact h' v hv

theorem of_entry {other : Name} (hn : n ≠ other) (h : ∀ v ∈ visits, names ++ [other] <+: v.names) :
    Off (names ++ [n]) visits := by
  intro v hv
  have hv := h v hv
  constructor
  · intro hp
    exact hn (Survey.eq_of_prefix_concat (hv.trans hp)).symm
  · intro hp
    have hcomparable := List.prefix_of_prefix_length_le hp hv (by simp)
    exact hn (Survey.eq_of_prefix_concat hcomparable)

end Visit.Off

namespace Reached

variable {w : World} {root : Path} {place : Location} {node below : Node} {cap : Nat}
  {hcap : 0 < cap} {gc : Bool} {prior : List Visit} {run : Run} {s : Session World}
  {names : Location} {blocked includeRoot : Bool}

theorem of_files {s' : Session World} (hr : Reached w root place cap prior run s)
    (hw : s.state.Follows s'.state) (hf : s'.state.files = s.state.files) :
    Reached w root place cap prior run s' :=
  ⟨hr.world.trans hw, hf ▸ hr.files, hr.capacity, hr.failed, hr.deleted, hr.interrupted⟩

theorem isEmpty_iff (hr : Reached w root place cap prior run s) :
    run.failed.isEmpty = true ↔ failures prior = 0 := by
  unfold BoundedSet.isEmpty
  rw [List.isEmpty_iff_length_eq_zero, hr.failed, length_failed]

theorem not_isFull (hr : Reached w root place cap prior run s) (hroom : failures prior < cap) :
    run.failed.isFull = false := by
  rw [← Bool.not_eq_true, BoundedSet.isFull_iff, hr.capacity, hr.failed, length_failed]
  omega

section Booking

/-! One more node has been attempted. -/

variable {run' : Run} {s' : Session World} (hr : Reached w root place cap prior run s)
  (hw : w.Follows s'.state) (hi : run'.interrupted = run.interrupted)

include hr hw hi

theorem of_removed {parent : Location} {name : Name} (hplace : place ++ names = parent ++ [name])
    (hempty : ∀ n, s.state.files.get? (place ++ names ++ [n]) = none)
    (hf : s'.state.files = s.state.files.removeEntry s.state.changeTime parent name)
    (hfailed : run'.failed = run.failed) (hdeleted : run'.deleted = run.deleted + 1) :
    Reached w root place cap (prior ++ [⟨names, false⟩]) run' s' := by
  rw [hplace] at hempty
  have hloses := hr.files.trans (.removeEntry hempty w.changeTime)
  constructor
  · exact hw
  · rw [hf, hr.world.changeTime, gone_append]
    simpa [gone, hplace] using hloses
  · rw [hfailed, hr.capacity]
  · rw [hfailed, hr.failed, failed_append]
    simp [Visit.failed]
  · rw [hdeleted, hr.deleted, gone_append]
    simp [gone]
  · rw [hi, hr.interrupted]

theorem of_booked (hs : w.Site root place node) (hroom : failures prior < cap)
    (hne : ∀ v ∈ prior, v.names ≠ names) (hf : s'.state.files = s.state.files)
    (hfailed : run'.failed = run.failed.insert (root.descend names).normalize.text)
    (hdeleted : run'.deleted = run.deleted) :
    Reached w root place cap (prior ++ [⟨names, true⟩]) run' s' := by
  have hnew : (root.descend names).normalize.text ∉ run.failed.items := by
    rw [hr.failed]
    intro hm
    obtain ⟨v, hv, he⟩ := List.mem_map.1 hm
    exact hne v (List.mem_filter.1 hv).1
      (Path.normalize_descend_text_injective hs.proper hs.isAbsolute he)
  constructor
  · exact hw
  · rw [hf, gone_append]
    simpa [gone] using hr.files
  · rw [hfailed, BoundedSet.capacity_insert, hr.capacity]
  · rw [hfailed, BoundedSet.items_insert, hr.not_isFull hroom, if_neg (by simpa using hnew),
      hr.failed, failed_append]
    simp [Visit.failed]
  · rw [hdeleted, hr.deleted, gone_append]
    simp [gone]
  · rw [hi, hr.interrupted]

end Booking

/-- The attempt on a node that comes after others. -/
theorem ends_leave (hs : w.Site root place node) (hkept : includeRoot = true ∨ names ≠ [])
    (hr : Reached w root place cap prior run s) (hroom : failures prior < cap)
    (hne : ∀ v ∈ prior, v.names ≠ [] ∧ v.names ≠ names)
    (hb : node.get? names = some below)
    (hblocked : blocked = true ↔ ∃ n, s.state.files.get? (place ++ names ++ [n]) ≠ none)
    {tried : Bool × List Event} (htried : tried = Event.attempt below.form.removal
      (root.descend names).text blocked s.state.events) :
    Ends ((deleter gc cap hcap).leave root includeRoot (root.descend names) run) s
      (Arrives w root place cap (prior ++ [⟨names, tried.1⟩]) tried.2) (fun _ _ => False) := by
  have hpath : includeRoot = true ∨ root.descend names ≠ root := by
    refine hkept.imp_right fun hn he => hn ?_
    exact root.descend_injective (he.trans root.descend_nil.symm)
  have hnot : ∀ b, ⟨names, b⟩ ∉ prior := fun b hv => (hne _ hv).2 rfl
  obtain ⟨parent, name, hplace, hat⟩ := hs.holds hr.files (fun hv => (hne _ hv).1 rfl) hb
    (hnot false) hblocked
  refine ((hr.world.onlyRefuses hs.refuses).ends_leave hat hpath run).mono ?_ fun _ _ hf => hf
  rintro r s' ⟨hw, hi, hout⟩
  have hworld : w.Follows s'.state := by
    rw [hw]
    exact hr.world.trans ((hr.world.onlyRefuses hs.refuses).follows_attempting _ _ _ _ _)
  have hevents : s'.state.events = tried.2 := by rw [hw, htried]; rfl
  have hfiles : s'.state.files = if tried.1 then s.state.files
      else s.state.files.removeEntry s.state.changeTime parent name := by rw [hw, htried]; rfl
  rw [← htried] at hout
  rcases hout with ⟨hgone, hfailed, hdeleted, hstop⟩ | ⟨hstays, hfailed, hdeleted, hstop⟩
  · -- A node that is removed was not blocked.
    have hfree : blocked = false := by
      cases blocked with
      | false => rfl
      | true => rw [htried, Event.attempt_blocked] at hgone; cases hgone
    have hempty : ∀ n, s.state.files.get? (place ++ names ++ [n]) = none := by
      intro n
      by_contra hn
      rw [hblocked.2 ⟨n, hn⟩] at hfree
      cases hfree
    rw [hgone] at hfiles ⊢
    refine ⟨hr.of_removed hworld hi hplace hempty hfiles hfailed hdeleted, ?_, fun _ => hevents⟩
    rw [hstop, failures_append]
    simpa [failures] using hroom
  · rw [hstays] at hfiles ⊢
    have hr' := hr.of_booked hworld hi hs hroom (fun v hv => (hne v hv).2) hfiles hfailed hdeleted
    refine ⟨hr', ?_, fun _ => hevents⟩
    rw [hstop, BoundedSet.isFull_iff, hr'.capacity, hr'.failed, length_failed]

/-- The attempt on a node after those on what lies below it. -/
theorem ends_last (hs : w.Site root place node) (hkept : includeRoot = true ∨ names ≠ [])
    {visits : List Visit} (hr : Reached w root place cap (prior ++ visits) run s)
    (hroom : failures (prior ++ visits) < cap) (hoff : Off names prior)
    (hbelow : ∀ v ∈ visits, ∃ n, names ++ [n] <+: v.names) (hb : node.get? names = some below)
    (hblocked : blocked = true ↔ ∃ n, s.state.files.get? (place ++ names ++ [n]) ≠ none)
    {survey : Survey} (hsurvey : survey = Survey.attempt root names below.form.removal visits
      blocked s.state.events) :
    Ends ((deleter gc cap hcap).leave root includeRoot (root.descend names) run) s
      (Arrives w root place cap (prior ++ upTo (cap - failures prior) survey.visits) survey.events)
      (fun _ _ => False) := by
  have hne : ∀ v ∈ prior ++ visits, v.names ≠ [] ∧ v.names ≠ names := by
    intro v hv
    rcases List.mem_append.1 hv with hv | hv
    · obtain ⟨h₁, -⟩ := hoff v hv
      exact ⟨fun he => h₁ (he ▸ List.nil_prefix), fun he => h₁ (he ▸ List.prefix_rfl)⟩
    · obtain ⟨n, hn⟩ := hbelow v hv
      have hlength := hn.length_le
      simp only [List.length_append, List.length_singleton] at hlength
      exact ⟨fun he => by simp [he] at hlength, fun he => by rw [he] at hlength; omega⟩
  rw [failures_append] at hroom
  have hcut : upTo (cap - failures prior) survey.visits = survey.visits := by
    rw [hsurvey]
    unfold Survey.attempt
    rw [upTo_append_of_lt (by omega), upTo_singleton (by omega)]
  rw [hcut, hsurvey]
  unfold Survey.attempt
  rw [← List.append_assoc]
  exact hr.ends_leave hs hkept (by rw [failures_append]; omega) hne hb hblocked rfl

/-- The visits to entries, one after the other, when each visit does what the survey tells. -/
theorem ends_visitEach {visit : Path → Run → Deletion World (Run × Bool)}
    {es : List (Name × Node)} (hnodup : (es.map (·.1)).Nodup)
    (hv : ∀ e ∈ es, ∀ {prior run s}, Reached w root place cap prior run s →
      failures prior < cap → Off (names ++ [e.1]) prior →
      Ends (visit (root.descend (names ++ [e.1])) run) s
        (Arrives w root place cap
          (prior ++ upTo (cap - failures prior)
            (Survey.ofNode root (names ++ [e.1]) e.2 s.state.events).visits)
          (Survey.ofNode root (names ++ [e.1]) e.2 s.state.events).events) fun _ _ => False)
    (hr : Reached w root place cap prior run s) (hroom : failures prior < cap)
    (hoff : ∀ e ∈ es, Off (names ++ [e.1]) prior) :
    Ends (Deleter.visitEach visit (es.map fun e => root.descend (names ++ [e.1])) run) s
      (Arrives w root place cap
        (prior ++ upTo (cap - failures prior) (Survey.ofEach root names es s.state.events).visits)
        (Survey.ofEach root names es s.state.events).events) fun _ _ => False := by
  induction es generalizing prior run s with
  | nil =>
    simp only [Survey.ofEach, upTo_nil, List.append_nil]
    exact Ends.pure ⟨hr, by simp [hroom], fun _ => rfl⟩
  | cons e rest ih =>
    obtain ⟨name, node⟩ := e
    obtain ⟨hname, hrest⟩ := List.nodup_cons.1 hnodup
    have hfirst := hv _ List.mem_cons_self hr hroom (hoff _ List.mem_cons_self)
    have hbelow : ∀ v ∈ (Survey.ofNode root (names ++ [name]) node s.state.events).visits,
        names ++ [name] <+: v.names := fun v hv => Survey.prefix_of_mem_ofNode hv
    simp only [Survey.ofEach]
    generalize Survey.ofNode root (names ++ [name]) node s.state.events = first at hfirst hbelow ⊢
    unfold Deleter.visitEach
    apply Ends.bind hfirst
    rintro ⟨run₁, stop⟩ s₁ ⟨hr₁, hstop, hevents⟩
    rw [cap_le_iff hroom] at hstop
    cases stop with
    | true =>
      -- The failures of the first child fill the report; what comes after is not visited.
      have hfull := hstop.1 rfl
      rw [upTo_append_of_le hfull]
      refine Ends.pure ⟨hr₁, ?_, fun h => by cases h⟩
      rw [cap_le_iff hroom]
      exact hstop
    | false =>
      have hleft : failures first.visits < cap - failures prior := by
        by_contra hn
        exact Bool.noConfusion (hstop.2 (by omega))
      rw [upTo_of_lt hleft] at hr₁
      rw [upTo_append_of_lt hleft, ← List.append_assoc, Nat.sub_sub, ← failures_append,
        ← hevents rfl]
      apply ih hrest (fun e he => hv e (List.mem_cons_of_mem _ he)) hr₁
      · rw [failures_append]
        omega
      · intro e he
        refine (hoff e (List.mem_cons_of_mem _ he)).append (.of_entry (fun hn => ?_) hbelow)
        exact hname (List.mem_map.2 ⟨e, he, hn⟩)

section Next

/-! The next node to be visited, when everything before is off its way. -/

variable (hs : w.Site root place node) (hr : Reached w root place cap prior run s)
  (hoff : Off names prior)

include hs hr hoff

theorem get?_next (hb : node.get? names = some below) :
    s.state.files.get? (place ++ names) = some below := by
  rw [hr.files.get?_of_off, hs.get?, hb]
  intro _ hlost
  obtain ⟨v, hv, rfl⟩ := List.mem_map.1 hlost
  obtain ⟨h₁, h₂⟩ := hoff v (List.mem_filter.1 hv).1
  exact ⟨fun hp => h₁ ((List.prefix_append_right_inj place).1 hp),
    fun hp => h₂ ((List.prefix_append_right_inj place).1 hp)⟩

theorem locate_next (hb : node.get? names = some below) :
    s.state.files.locate false (root.descend names) = .ok (place ++ names) := by
  apply hs.locate hr.files (fun hv => (hoff _ hv).1 List.nil_prefix)
  rw [hr.get?_next hs hoff hb]
  simp

theorem formAt?_next (hb : node.get? names = some below) :
    s.state.files.formAt? (place ++ names) = some below.form := by
  rw [FileSystem.formAt?, hr.get?_next hs hoff hb]
  rfl

theorem ends_opening (hb : node.get? names = some below) :
    Ends ((deleter gc cap hcap).shouldFollow false (root.descend names)) s
      (fun b s' => Reached w root place cap prior run s' ∧ s'.state.events = s.state.events ∧
        (b = true ↔ below.form = .directory)) (fun _ _ => False) := by
  have hrefuses := hr.world.onlyRefuses hs.refuses
  refine (hrefuses.ends_shouldFollow (hs.proper.descend names) hs.isAbsolute
    (hs.readable names (by rw [hb]; simp))).mono ?_ fun _ _ hf => hf
  rintro b s' ⟨hw, hopens⟩
  rw [opens_iff (hr.locate_next hs hoff hb) (hr.formAt?_next hs hoff hb)] at hopens
  exact ⟨hr.of_files (hw ▸ .refl _) (by rw [hw]), by rw [hw], hopens⟩

/-- A leaf is attempted at once. -/
theorem ends_leaf (hkept : includeRoot = true ∨ names ≠ []) (hroom : failures prior < cap)
    (hb : node.get? names = some below) (hleaf : below.form ≠ .directory) :
    Ends ((deleter gc cap hcap).leave root includeRoot (root.descend names) run) s
      (Arrives w root place cap
        (prior ++ upTo (cap - failures prior)
          (Survey.ofNode root names below.sorted s.state.events).visits)
        (Survey.ofNode root names below.sorted s.state.events).events) fun _ _ => False := by
  have hnone : ∀ v ∈ ([] : List Visit), ∃ n, names ++ [n] <+: v.names := by simp
  have hnode : below.isDirectory = false := by
    rw [← Bool.not_eq_true, Node.isDirectory_iff_form]
    exact hleaf
  have hfree : false = true ↔ ∃ n, s.state.files.get? (place ++ names ++ [n]) ≠ none := by
    simp only [Bool.false_eq_true, false_iff, not_exists]
    intro n hn
    have hform := hr.formAt?_next hs hoff hb
    rw [FileSystem.formAt?_of_append (by simp) hn] at hform
    exact hleaf (Option.some.inj hform).symm
  apply ends_last hs hkept (by rwa [List.append_nil]) (by rwa [List.append_nil]) hoff hnone hb hfree
  rw [Node.sorted_of_not_directory hnode, Survey.ofNode_leaf hnode, Form.removal_of_ne hleaf]

variable {m : Float} {es : List (Name × Node)} (hb : node.get? names = some (.directory m es))

include hb

theorem ends_listing :
    Ends ((deleter gc cap hcap).listChildren (root.descend names)) s
      (fun r s' => Reached w root place cap prior run s' ∧
        s'.state.events = (Event.refuses .list (root.descend names).text s.state.events).2 ∧
        ((Event.refuses .list (root.descend names).text s.state.events).1 = true ∧ r = some [] ∨
          (Event.refuses .list (root.descend names).text s.state.events).1 = false ∧
            r = some ((Node.sortedEntries es).map fun e => root.descend (names ++ [e.1]))))
      (fun _ _ => False) := by
  have hrefuses := hr.world.onlyRefuses hs.refuses
  have hopened : s.state.files.locate true (root.descend names) = .ok (place ++ names) := by
    apply FileSystem.locate_true_of_not_link (hr.locate_next hs hoff hb)
    simp [hr.formAt?_next hs hoff hb, Node.form]
  have hchildren : ((es.map (·.1)).mergeSort fun a b => a.text ≤ b.text).map
      (root.descend names).child =
        (Node.sortedEntries es).map fun e => root.descend (names ++ [e.1]) := by
    rw [← Node.names_sortedEntries, List.map_map]
    exact List.map_congr_left fun e _ => (Path.descend_concat root names e.1).symm
  refine (hrefuses.ends_listChildren (hs.proper.descend names) hs.isAbsolute
    (hs.readable names (by rw [hb]; simp)) hopened (hr.get?_next hs hoff hb)).mono ?_
    fun _ _ hf => hf
  rintro r s' ⟨hw, hlisted⟩
  rw [hchildren] at hlisted
  exact ⟨hr.of_files (hw ▸ hrefuses.follows_counting _ _) (by rw [hw]; rfl), by rw [hw]; rfl,
    hlisted⟩

/-- A directory whose entries are hidden is attempted at once. -/
theorem ends_hidden (hkept : includeRoot = true ∨ names ≠ []) (hroom : failures prior < cap)
    {events : List Event}
    (hevents : s.state.events = (Event.refuses .list (root.descend names).text events).2)
    (hrefused : (Event.refuses .list (root.descend names).text events).1 = true) :
    Ends ((deleter gc cap hcap).leave root includeRoot (root.descend names) run) s
      (Arrives w root place cap
        (prior ++ upTo (cap - failures prior)
          (Survey.ofNode root names (Node.directory m es).sorted events).visits)
        (Survey.ofNode root names (Node.directory m es).sorted events).events)
      fun _ _ => False := by
  have hnone : ∀ v ∈ ([] : List Visit), ∃ n, names ++ [n] <+: v.names := by simp
  refine ends_last hs hkept (by rwa [List.append_nil]) (by rwa [List.append_nil]) hoff hnone hb ?_
    ((Survey.ofNode_refused hrefused).trans (by rw [← hevents]; rfl))
  have hempty := Node.isEmpty_sortedEntries es
  unfold Node.sortedEntries at hempty
  rw [hempty, Bool.not_eq_true', ← Bool.not_eq_true,
    FileSystem.isEmpty_iff (hr.get?_next hs hoff hb)]
  simp

end Next

section Below

variable (hs : w.Site root place node) {m : Float} {es : List (Name × Node)} {survey : Survey}
  (hsurvey : ∃ events, survey = Survey.ofEach root names (Node.sortedEntries es) events)
  (hr : Reached w root place cap (prior ++ survey.visits) run s) (hoff : Off names prior)
  (hb : node.get? names = some (.directory m es)) (hnodup : (es.map (·.1)).Nodup)

include hs hsurvey hr hoff hb hnodup

theorem blocked_iff :
    survey.stays = true ↔ ∃ n, s.state.files.get? (place ++ names ++ [n]) ≠ none := by
  obtain ⟨events, rfl⟩ := hsurvey
  have hthere : ∀ n, w.files.get? (place ++ names ++ [n]) = es.lookup n :=
    FileSystem.get?_entry ((hs.get? names).trans hb)
  have hgone : ∀ n, s.state.files.get? (place ++ names ++ [n]) = none ↔
      ⟨names ++ [n], false⟩ ∈ (Survey.ofEach root names (Node.sortedEntries es) events).visits ∨
      es.lookup n = none := by
    intro n
    have hprior : ⟨names ++ [n], false⟩ ∉ prior :=
      fun hv => (hoff _ hv).2 (List.prefix_append _ _)
    rw [hr.files.get?_eq_none_iff, hthere, List.append_assoc, mem_gone_iff, List.mem_append]
    simp only [hprior, false_or]
  rw [← Bool.not_eq_false, Survey.stays_ofEach_iff (Node.nodup_sortedEntries hnodup)]
  simp only [Ne, hgone, not_or, not_forall]
  constructor
  · rintro ⟨e, he, hv⟩
    obtain ⟨child, hm, -⟩ := Node.mem_sortedEntries_iff.1 he
    exact ⟨e.1, hv, by rw [Node.lookup_of_mem hnodup hm]; simp⟩
  · rintro ⟨n, hv, hn⟩
    obtain ⟨e, he, rfl⟩ := List.mem_map.1 (Node.mem_names_iff.2 hn)
    exact ⟨(e.1, e.2.sorted), Node.mem_sortedEntries_iff.2 ⟨e.2, he, rfl⟩, hv⟩

/-- A directory whose entries have been visited is attempted after them. -/
theorem ends_visited (hkept : includeRoot = true ∨ names ≠ [])
    (hroom : failures (prior ++ survey.visits) < cap) (hevents : s.state.events = survey.events) :
    Ends ((deleter gc cap hcap).leave root includeRoot (root.descend names) run) s
      (Arrives w root place cap
        (prior ++ upTo (cap - failures prior) (Survey.attempt root names .rmdir survey.visits
          survey.stays survey.events).visits)
        (Survey.attempt root names .rmdir survey.visits survey.stays survey.events).events)
      fun _ _ => False := by
  have hblocked := blocked_iff hs hsurvey hr hoff hb hnodup
  obtain ⟨events, rfl⟩ := hsurvey
  refine ends_last hs hkept hr hroom hoff ?_ hb hblocked (by rw [hevents]; rfl)
  intro v hv
  obtain ⟨e, -, he⟩ := Survey.prefix_of_mem_ofEach root names _ _ v hv
  exact ⟨e.1, he⟩

end Below

section Entries

variable (hs : w.Site root place node) {depth : Nat}

include hs

/-- The visits to the entries of a directory, when each visit below the root does what the survey
tells. -/
theorem ends_entries
    (hvisit : ∀ {names below prior run s}, names ≠ [] → Reached w root place cap prior run s →
      failures prior < cap → Off names prior → node.get? names = some below →
      (root.descend names).Fits depth →
      Ends ((deleter gc cap hcap).visit false root includeRoot depth (root.descend names) run) s
        (Arrives w root place cap
          (prior ++ upTo (cap - failures prior)
            (Survey.ofNode root names below.sorted s.state.events).visits)
          (Survey.ofNode root names below.sorted s.state.events).events) fun _ _ => False)
    (hr : Reached w root place cap prior run s) (hroom : failures prior < cap)
    (hoff : Off names prior) {m : Float} {es : List (Name × Node)}
    (hb : node.get? names = some (.directory m es)) (hfits : (root.descend names).Fits (depth + 1)) :
    Ends (Deleter.visitEach ((deleter gc cap hcap).visit false root includeRoot depth)
        ((Node.sortedEntries es).map fun e => root.descend (names ++ [e.1])) run) s
      (Arrives w root place cap
        (prior ++ upTo (cap - failures prior)
          (Survey.ofEach root names (Node.sortedEntries es) s.state.events).visits)
        (Survey.ofEach root names (Node.sortedEntries es) s.state.events).events)
      fun _ _ => False := by
  have hnodup := hs.nodup_entries hb
  refine hr.ends_visitEach (Node.nodup_sortedEntries hnodup) ?_ hroom fun e _ => hoff.child e.1
  intro e he prior' run' s' hr' hroom' hoff'
  obtain ⟨child, hm, hsorted⟩ := Node.mem_sortedEntries_iff.1 he
  rw [hsorted]
  apply hvisit (by simp) hr' hroom' hoff'
  · rw [Node.get?_append, hb, Option.bind_some, Node.get?_directory,
      Node.lookup_of_mem hnodup hm, Option.bind_some, Node.get?_nil]
  · rw [Path.descend_concat]
    exact hfits.child hs.isAbsolute (hs.limits.text names (by rw [hb]; simp)) e.1

/-- A visit does what the survey tells, unless its node is the root and is kept. -/
theorem ends_visit (hkept : includeRoot = true ∨ names ≠ [])
    (hr : Reached w root place cap prior run s) (hroom : failures prior < cap)
    (hoff : Off names prior) (hb : node.get? names = some below)
    (hfits : (root.descend names).Fits depth) :
    Ends ((deleter gc cap hcap).visit false root includeRoot depth (root.descend names) run) s
      (Arrives w root place cap
        (prior ++ upTo (cap - failures prior)
          (Survey.ofNode root names below.sorted s.state.events).visits)
        (Survey.ofNode root names below.sorted s.state.events).events) fun _ _ => False := by
  induction depth generalizing names below prior run s with
  | zero => exact absurd hfits.1 (by omega)
  | succ depth ih =>
    unfold Deleter.visit
    apply Ends.bind (hr.ends_opening hs hoff hb)
    rintro follows s₁ ⟨hr₁, hevents₁, hfollows⟩
    rw [← hevents₁]
    cases follows with
    | false => exact hr₁.ends_leaf hs hoff hkept hroom hb (by simpa using hfollows)
    | true =>
      obtain ⟨m, es, rfl⟩ := Node.form_eq_directory_iff.1 (hfollows.1 rfl)
      have hnodup := hs.nodup_entries hb
      apply Ends.bind (hr₁.ends_listing hs hoff hb)
      rintro _ s₂ ⟨hr₂, hevents₂, ⟨hrefused, rfl⟩ | ⟨hallowed, rfl⟩⟩
      · apply Ends.bind (Q := fun r s' => r = (run, false) ∧ s' = s₂) (Ends.pure ⟨rfl, rfl⟩)
        rintro _ _ ⟨rfl, rfl⟩
        exact hr₂.ends_hidden hs hoff hb hkept hroom hevents₂ hrefused
      rw [Node.sorted_directory, Survey.ofNode_listed hallowed rfl, ← hevents₂]
      refine Ends.bind (ends_entries hs (fun hne => ih (Or.inr hne)) hr₂ hroom hoff hb hfits) ?_
      have hsurvey : ∃ events, Survey.ofEach root names (Node.sortedEntries es) s₂.state.events =
          Survey.ofEach root names (Node.sortedEntries es) events := ⟨_, rfl⟩
      generalize Survey.ofEach root names (Node.sortedEntries es) s₂.state.events = survey
        at hsurvey ⊢
      rintro ⟨run₃, stop⟩ s₃ ⟨hr₃, hstop, hevents₃⟩
      rw [cap_le_iff hroom] at hstop
      cases stop with
      | true =>
        rw [Survey.visits_attempt, upTo_append_of_le (hstop.1 rfl)]
        refine Ends.pure ⟨hr₃, ?_, fun h => by cases h⟩
        rw [cap_le_iff hroom]
        exact hstop
      | false =>
        have hleft : failures survey.visits < cap - failures prior := by
          by_contra hn
          exact Bool.noConfusion (hstop.2 (by omega))
        rw [upTo_of_lt hleft] at hr₃
        exact ends_visited hs hsurvey hr₃ hoff hb hnodup hkept (by rw [failures_append]; omega)
          (hevents₃ rfl)

end Entries

end Reached

end TreeRemoval
