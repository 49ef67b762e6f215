import TreeRemoval.Proofs.Deletion.Accounts
import TreeRemoval.Proofs.Deletion.Efforts
import TreeRemoval.Proofs.FileSystem.Size
import TreeRemoval.Proofs.Tracing
import TreeRemoval.Proofs.Truth

/-! # The counts of a walk

The last log entry of a walk tells how many nodes it removed, how many tries it repeated and how
many failures it booked. The repeated tries are the pauses that it began, the failures are distinct
paths, and with nobody else at work the removed nodes are those by which the file system has shrunk.
-/

namespace TreeRemoval

open Deletion

variable {σ : Type}

namespace Act

def isTry : Act → Bool
  | tried .. => true
  | paused .. => false

def isPause : Act → Bool
  | tried .. => false
  | paused .. => true

def removes : Act → Bool
  | tried _ (.ok removed) => removed
  | _ => false

end Act

namespace Course

def stumbles (c : Course) : Bool :=
  match c.firstTry with
  | .error (.system _) => true
  | _ => false

theorem countP_isPause (p : Path) (c : Course) : (c.acts p).countP Act.isPause = c.pauses := by
  cases c <;> rfl

theorem countP_removes (p : Path) (c : Course) : (c.acts p).countP Act.removes = c.removed := by
  rcases c with (f | _ | _) | ⟨e, f⟩ | ⟨e, f | _ | _⟩ <;> rfl

end Course

namespace Effort

variable {run : Run} {efforts : List Effort} {e : Effort}

/-! ### What efforts add up to -/

theorem Settled.pauses_eq (h : e.Settled) : e.course.pauses = if e.course.stumbles then 1 else 0 := by
  cases h <;> rfl

theorem Settled.stumbles_of_booked (h : e.Settled) (hb : e.booked.isSome = true) :
    e.course.stumbles = true := by
  cases h <;> first | rfl | cases hb

theorem Settled.countP_isTry (h : e.Settled) (root : Path) :
    (e.acts root).countP Act.isTry =
      if e.course.stumbles && !e.course.isCancelled then 2 else 1 := by
  cases h <;> rfl

theorem countP_isPause (root : Path) (hs : ∀ e ∈ efforts, e.Settled) :
    (efforts.flatMap (acts root)).countP Act.isPause = efforts.countP (·.course.stumbles) := by
  induction efforts with
  | nil => rfl
  | cons e rest ih =>
    rw [List.flatMap_cons, List.countP_append, List.countP_cons,
      ih fun e' he' => hs e' (List.mem_cons_of_mem _ he'), acts, Course.countP_isPause,
      (hs e List.mem_cons_self).pauses_eq, Nat.add_comm]

theorem retries_countAll (run : Run) (hs : ∀ e ∈ efforts, e.Settled) :
    (countAll run efforts).retries = run.retries + efforts.countP (·.course.stumbles) := by
  induction efforts generalizing run with
  | nil => rfl
  | cons e rest ih =>
    rw [countAll_cons, ih _ fun e' he' => hs e' (List.mem_cons_of_mem _ he'), List.countP_cons]
    simp only [count, (hs e List.mem_cons_self).pauses_eq]
    omega

theorem deleted_countAll (run : Run) (root : Path) (efforts : List Effort) :
    (countAll run efforts).deleted =
      run.deleted + (efforts.flatMap (acts root)).countP Act.removes := by
  induction efforts generalizing run with
  | nil => rfl
  | cons e rest ih =>
    rw [countAll_cons, ih, List.flatMap_cons, List.countP_append, acts, Course.countP_removes]
    simp only [count]
    omega

theorem filterMap_booked_cons (e : Effort) (rest : List Effort) :
    (e :: rest).filterMap Effort.booked = e.booked.toList ++ rest.filterMap Effort.booked := by
  cases hb : e.booked with
  | none => rw [List.filterMap_cons_none hb, Option.toList_none, List.nil_append]
  | some place =>
    rw [List.filterMap_cons_some hb, Option.toList_some, List.singleton_append]

theorem failures_countAll (run : Run) (efforts : List Effort) :
    (countAll run efforts).failures =
      run.failures + (efforts.filterMap Effort.booked).length := by
  induction efforts generalizing run with
  | nil => rfl
  | cons e rest ih =>
    rw [countAll_cons, ih, filterMap_booked_cons, List.length_append]
    simp only [count]
    omega

theorem items_countAll (hroom : Roomy run efforts)
    (hnew : (run.failed.items ++ efforts.filterMap Effort.booked).Nodup) :
    (countAll run efforts).failed.items =
      run.failed.items ++ efforts.filterMap Effort.booked := by
  induction efforts generalizing run with
  | nil => simp
  | cons e rest ih =>
    obtain ⟨hfree, hroom⟩ := hroom
    rw [filterMap_booked_cons, ← List.append_assoc] at hnew ⊢
    have hitems : (e.count run).failed.items = run.failed.items ++ e.booked.toList := by
      have hbefore := (List.nodup_append.1 hnew).1
      cases hb : e.booked with
      | none => simp [count, hb]
      | some place =>
        rw [hb, List.nodup_append] at hbefore
        have hplace : place ∉ run.failed.items := fun hm =>
          hbefore.2.2 place hm place List.mem_cons_self rfl
        simp [count, hb, run.failed.items_insert, hfree, hplace]
    rw [← hitems] at hnew ⊢
    rw [countAll_cons, ih hroom hnew]

theorem holds_countAll {cap : Nat} {P : String → Prop} (h : run.failed.Holds cap P)
    (hP : ∀ e ∈ efforts, ∀ t ∈ e.booked, P t) : (countAll run efforts).failed.Holds cap P := by
  induction efforts generalizing run with
  | nil => exact h
  | cons e rest ih =>
    refine ih ?_ fun e' he' => hP e' (List.mem_cons_of_mem _ he')
    cases hb : e.booked with
    | none => simpa only [count, hb, Option.elim_none] using h
    | some place =>
      simpa only [count, hb, Option.elim_some] using h.insert (hP e List.mem_cons_self place hb)

end Effort

/-- The counts of a run are those of its settled efforts at distinct names below a root, whose
absolute form is given as well. -/
structure Run.Tallies (run : Run) (root top : Path) (cap : Nat) (efforts : List Effort) : Prop where
  distinct : (efforts.map Effort.names).Nodup
  settled : ∀ e ∈ efforts, e.Settled
  tries : ∀ e ∈ efforts, (e.acts root).countP Act.isTry =
    if e.course.stumbles && !e.course.isCancelled then 2 else 1
  retries : run.retries = efforts.countP (·.course.stumbles)
  pauses : run.retries = (efforts.flatMap (Effort.acts root)).countP Act.isPause
  booked : ∀ e ∈ efforts, ∀ t ∈ e.booked, t = (top.descend e.names).text
  failed : run.failed.items = efforts.filterMap Effort.booked
  nodup : run.failed.items.Nodup
  failures : run.failures = run.failed.items.length
  failures_le : run.failures ≤ cap
  failures_le_retries : run.failures ≤ run.retries

namespace Deleter

variable {d : Deleter σ} {J : σ → Prop} {workingDirectory : String} {root : Path}
  {On : List Name → Prop} {s s' : Session σ} {efforts : List Effort}

theorem WorkingAt.eq_of_names (hd : d.WorkingAt J workingDirectory) {p : Path} {t : String}
    (h : d.Names J p t) : t = (p.absolute workingDirectory).text := by
  obtain ⟨s, s', hs, ht⟩ := h
  exact ((hd.ends_absolute p hs).ok ht).1

theorem WorkingAt.nodup_booked (hd : d.WorkingAt J workingDirectory) (hroot : root.Proper)
    {run : Run} (h : d.Made J root On run s efforts s') :
    (efforts.filterMap Effort.booked).Nodup := by
  refine List.pairwise_filterMap.2 ((List.pairwise_map.1 h.ordered).imp_of_mem ?_)
  rintro e e' he he' hbefore t ht t' ht' rfl
  rw [hd.eq_of_names (h.told e he t ht)] at ht'
  exact hbefore.ne (hroot.absolute_descend_injective workingDirectory
    (hd.eq_of_names (h.told e' he' _ ht')))

theorem WorkingAt.tallies (hd : d.WorkingAt J workingDirectory) (hroot : root.Proper)
    (h : d.Made J root On (.start d.maxReported d.maxReported_pos) s efforts s')
    (hs : ∀ e ∈ efforts, e.Settled) :
    (Effort.countAll (.start d.maxReported d.maxReported_pos) efforts).Tallies root
      (root.absolute workingDirectory) d.maxReported efforts := by
  have hnodup := hd.nodup_booked hroot h
  have hitems : (Effort.countAll (.start d.maxReported d.maxReported_pos) efforts).failed.items =
      efforts.filterMap Effort.booked :=
    Effort.items_countAll h.roomy hnodup
  have hretries : (Effort.countAll (.start d.maxReported d.maxReported_pos) efforts).retries =
      efforts.countP (·.course.stumbles) :=
    (Effort.retries_countAll _ hs).trans (Nat.zero_add _)
  have hfailures : (Effort.countAll (.start d.maxReported d.maxReported_pos) efforts).failures =
      (efforts.filterMap Effort.booked).length :=
    (Effort.failures_countAll _ _).trans (Nat.zero_add _)
  have hheld : (Effort.countAll (.start d.maxReported d.maxReported_pos) efforts).failed.Holds
      d.maxReported fun _ => True :=
    Effort.holds_countAll (.empty d.maxReported_pos) fun _ _ _ _ => trivial
  exact {
    distinct := h.ordered.imp Precedes.ne
    settled := hs
    tries := fun e he => (hs e he).countP_isTry root
    retries := hretries
    pauses := hretries.trans (Effort.countP_isPause root hs).symm
    booked := fun e he t ht =>
      (hd.eq_of_names (h.told e he t ht)).trans (by rw [Path.absolute_descend])
    failed := hitems
    nodup := hheld.nodup
    failures := by rw [hfailures, hitems]
    failures_le := by
      rw [hfailures, ← hitems]
      exact hheld.length_le
    failures_le_retries := by
      rw [hfailures, hretries, List.length_filterMap_eq_countP]
      exact List.countP_mono_left fun e he => (hs e he).stumbles_of_booked }

end Deleter

/-! ### Nodes of a file system -/

namespace World

variable {w : World} {c : Call} {t : String}

def Prompt (w : World) : Prop := ∀ e ∈ w.events, e.disruption ≠ none → e.moment = .before

theorem Prompt.not_strikes_after (h : w.Prompt) {f : Fault} : ¬ w.Strikes .after c t f := by
  rintro ⟨e, he, hmatch, d, hd, -⟩
  have hmoment := h e he (by simp [hd])
  simp [Event.isMatch, hmoment] at hmatch

theorem Follows.prompt {w' : World} (h : w.Follows w') (hp : w.Prompt) : w'.Prompt := by
  intro e he hd
  obtain ⟨e', he', hf⟩ := h.exists_fresh he
  have hmoment : e'.fresh.moment = e.fresh.moment := by rw [hf]
  have hdisruption : e'.fresh.disruption = e.fresh.disruption := by rw [hf]
  exact hmoment ▸ hp e' he' (hdisruption ▸ hd)

/-- A removal takes one node away or fails without any work. -/
theorem Prompt.ends_removal (h : w.Prompt) (hc : w.Calm)
    {change : FileSystem → String → Option Float → Except Errno FileSystem}
    (hchange : ∀ {fs}, change w.files w.workingDirectory w.changeTime = .ok fs →
      w.files.Detaches w.workingDirectory w.changeTime t fs) :
    Ends (call c t (changing change)) w
      (fun _ w' => w.Follows w' ∧ w'.files.size + 1 = w.files.size)
      (fun _ w' => w.Follows w' ∧ w'.files = w.files) := by
  apply (ends_changing hc change).mono
  · rintro - w' ⟨hf, -, hr⟩
    exact ⟨hf, (hchange hr).size⟩
  · rintro f w' ⟨hf, ⟨hfiles, -⟩ | ⟨-, hs⟩⟩
    · exact ⟨hf, hfiles⟩
    · exact absurd hs h.not_strikes_after

theorem Prompt.ends_removeNode (h : w.Prompt) (hc : w.Calm) (t : String) :
    Ends (environment.removeNode t) w
      (fun removed w' => w.Follows w' ∧ removed.toNat + w'.files.size = w.files.size)
      (fun _ w' => w.Follows w' ∧ w'.files.size = w.files.size) := by
  have hlooking : environment.Looking w.Still :=
    environment_looking (fun w' h => h.1.calm hc) fun h h' => h.trans h'
  unfold Environment.removeNode
  apply Ends.seq (hlooking.keeps_look? t w (.refl w))
  · exact fun _ _ h => ⟨h.1, by rw [h.2]⟩
  rintro (_ | status) w₁ ⟨hf, hfiles⟩
  · exact Ends.pure ⟨hf, by simp [hfiles]⟩
  have hremoval : Ends (awaited (if status.kind = .directory then environment.rmdir t
        else environment.unlink t)) w₁
      (fun _ w' => w₁.Follows w' ∧ w'.files.size + 1 = w₁.files.size)
      (fun _ w' => w₁.Follows w' ∧ w'.files = w₁.files) := by
    apply Ends.awaited
    split
    · exact (hf.prompt h).ends_removal (hf.calm hc) FileSystem.rmdir_detaches
    · exact (hf.prompt h).ends_removal (hf.calm hc) FileSystem.unlink_detaches
  rw [hfiles] at hremoval
  apply hremoval.bind_outcome
  · rintro - w' ⟨hf', hsize⟩
    exact Ends.pure ⟨hf.trans hf', by rw [← hsize, Nat.add_comm]; rfl⟩
  · rintro f w' ⟨hf', hsame⟩
    have hsize : w'.files.size = w.files.size := by rw [hsame]
    cases f with
    | system e =>
      dsimp only
      split
      · exact Ends.pure ⟨hf.trans hf', by simp [hsize]⟩
      · exact Ends.throw ⟨hf.trans hf', hsize⟩
    | nullByte | cancelled | interrupted => exact Ends.throw ⟨hf.trans hf', hsize⟩

variable {gc : Bool} {cap : Nat} {hcap : 0 < cap}

theorem Prompt.accounts (h : w.Prompt) (hc : w.Calm) (n : Nat) :
    (deleter gc cap hcap).Accounts fun acts w' =>
      w.Follows w' ∧ acts.countP Act.removes + w'.files.size = n where
  looking acts := deleter_looking (fun w' h => h.1.calm hc)
    fun h h' => ⟨h.1.trans h'.1, h'.2 ▸ h.2⟩
  removeNode := by
    rintro acts w' ⟨hf, hn⟩ p
    apply ((hf.prompt h).ends_removeNode (hf.calm hc) p.text).mono
    · rintro removed w'' ⟨hf', hsize⟩
      refine ⟨hf.trans hf', ?_⟩
      rw [List.countP_append, List.countP_singleton]
      cases removed <;> simp [Act.removes] at * <;> omega
    · rintro f w'' ⟨hf', hsize⟩
      exact ⟨hf.trans hf', by simp [List.countP_append, Act.removes, hsize, hn]⟩
  pause := by
    rintro acts w' ⟨hf, hn⟩ p
    apply (Deleter.ends_pauseBeforeRetry (hf.calm hc)).mono
    · rintro - w'' ⟨hf', hfiles⟩
      exact ⟨hf.trans hf', by simp [List.countP_append, Act.removes, hfiles, hn]⟩
    · rintro f w'' ⟨hf', hfiles, -⟩
      exact ⟨hf.trans hf', by simp [List.countP_append, Act.removes, hfiles, hn]⟩

theorem workingAt_deleterTelling (w : World) {isSymlink : Path → EStateM Fault World Bool}
    (hs : ∀ p, Keeps w.Follows (isSymlink p)) :
    (deleterTelling isSymlink gc cap hcap).WorkingAt w.Follows w.workingDirectory :=
  have h : (deleter gc cap hcap).WorkingAt w.Follows w.workingDirectory := w.workingAt
  { looking := { h.looking with isSymlink := hs }
    rmdir := h.rmdir
    unlink := h.unlink
    pause := h.pause
    collect := h.collect
    answers := h.answers }

end World

/-- A session has gone on by a walk of a root, and one last entry tells its counts. -/
structure Session.Tells (s s' : Session World) (root : Path) (cap : Nat) (efforts : List Effort)
    (run : Run) : Prop where
  ending : ∃ startTime entry, Deleter.Ending root startTime run entry ∧
    s'.endings = s.endings ++ [entry]
  acts : s'.acts = s.acts ++ efforts.flatMap (Effort.acts root)
  tallies : run.Tallies root (root.absolute s.state.workingDirectory) cap efforts

/-- Nobody else is at work, faults come before the work of calls, and links are told by looking. -/
structure World.Plain (w : World) (isSymlink : Path → EStateM Fault World Bool) : Prop where
  calm : w.Calm
  prompt : w.Prompt
  looks : isSymlink = SymlinkTest.run environment .look

/-- In a plain world, the files shrink by as many nodes as are removed. -/
theorem World.ends_deleteBelow_shrinking (w : World) (isSymlink : Path → EStateM Fault World Bool)
    {gc : Bool} {cap : Nat} {hcap : 0 < cap} (followSymlinks includeRoot : Bool) (root : Path)
    (log : List Log.Entry) (acts : List Act) :
    Ends ((deleterTelling isSymlink gc cap hcap).deleteBelow followSymlinks root includeRoot)
      ⟨w, log, acts⟩
      (fun _ s' => w.Plain isSymlink → s'.acts.countP Act.removes + s'.state.files.size =
        acts.countP Act.removes + w.files.size)
      (fun _ s' => w.Plain isSymlink → s'.acts.countP Act.removes + s'.state.files.size =
        acts.countP Act.removes + w.files.size) := by
  by_cases hplain : w.Plain isSymlink
  · obtain ⟨hc, hp, rfl⟩ := hplain
    exact ((hp.accounts hc _).keeps_deleteBelow followSymlinks includeRoot root ⟨w, log, acts⟩
      ⟨.refl w, rfl⟩).mono (fun _ _ h _ => h.2) fun _ _ h _ => h.2
  · exact Ends.intro (fun _ _ _ h => absurd h hplain) fun _ _ _ h => absurd h hplain

namespace Deleter.Said

variable {d : Deleter World} {J : World → Prop} {root : Path} {includeRoot : Bool}
  {s s' : Session World} {efforts : List Effort} {run : Run}
  (h : d.Said J root includeRoot s s' efforts run)

include h

theorem acts_eq : s'.acts = s.acts ++ efforts.flatMap (Effort.acts root) := by
  obtain ⟨s₁, hsame, hmade⟩ := h.made
  exact hsame.symm.trans hmade.rests.acts

theorem tells (hd : d.WorkingAt J s.state.workingDirectory) (hroot : root.Proper) :
    s.Tells s' root d.maxReported efforts run := by
  obtain ⟨s₁, -, hmade⟩ := h.made
  exact ⟨h.ending, h.acts_eq, h.run_eq ▸ hd.tallies hroot hmade h.settled⟩

theorem deleted_add_size (hsize : s'.acts.countP Act.removes + s'.state.files.size =
      s.acts.countP Act.removes + s.state.files.size) :
    run.deleted + s'.state.files.size = s.state.files.size := by
  rw [h.acts_eq, List.countP_append] at hsize
  have hnone : (Run.start d.maxReported d.maxReported_pos).deleted = 0 := rfl
  rw [h.run_eq, Effort.deleted_countAll _ root, hnone]
  omega

end Deleter.Said

/-- Whatever others do and whatever fails, a walk that gets to its last entry tells the counts of
its efforts there. If the world is plain, the files have shrunk by as many nodes as it tells. The
removals and pauses that a trace of its calls shows are those of its efforts. -/
theorem deleteBelow_tallied (w : World) {isSymlink : Path → EStateM Fault World Bool}
    (hs : ∀ p, Keeps w.Follows (isSymlink p)) (followSymlinks includeRoot collectsGarbage : Bool)
    (cap : Nat) (hcap : 0 < cap) (root : String) (log : List Log.Entry) (acts : List Act) :
    Ends ((World.deleterTelling isSymlink collectsGarbage cap hcap).deleteBelow followSymlinks
        (.ofText root) includeRoot) ⟨w, log, acts⟩
      (fun run s' => ∃ efforts, Session.Tells ⟨w, log, acts⟩ s' (.ofText root) cap efforts run ∧
        (w.Plain isSymlink → run.deleted + s'.state.files.size = w.files.size))
      (fun _ s' => s'.endings = Session.endings ⟨w, log, acts⟩ ∨
        ∃ efforts run, Session.Tells ⟨w, log, acts⟩ s' (.ofText root) cap efforts run ∧
          (w.Plain isSymlink → run.deleted + s'.state.files.size = w.files.size)) ∧
      (World.deleterTelling isSymlink collectsGarbage cap hcap).ShowsActs followSymlinks
        (.ofText root) includeRoot ⟨w, log, acts⟩ := by
  have hd : (World.deleterTelling isSymlink collectsGarbage cap hcap).WorkingAt w.Follows
      w.workingDirectory := w.workingAt_deleterTelling hs
  refine ⟨?_, Deleter.showsActs_deleteBelow _ followSymlinks _ includeRoot _⟩
  apply ((Deleter.ends_deleteBelow_efforts (fun _ => hd.attempting _) World.environment_listsOnce
    followSymlinks includeRoot (World.Follows.refl w)).and
      (w.ends_deleteBelow_shrinking isSymlink followSymlinks includeRoot (.ofText root) log
        acts)).mono
  · rintro run s' ⟨⟨efforts, hsaid⟩, hsize⟩
    exact ⟨efforts, hsaid.tells hd (Path.proper_ofText root), fun hplain =>
      hsaid.deleted_add_size (hsize hplain)⟩
  · rintro - s' ⟨⟨efforts, hunsaid⟩ | ⟨efforts, run, hsaid⟩, hsize⟩
    · exact Or.inl hunsaid.endings
    · exact Or.inr ⟨efforts, run, hsaid.tells hd (Path.proper_ofText root), fun hplain =>
        hsaid.deleted_add_size (hsize hplain)⟩

/-- One file is removed by a second try, and the pause for the next one is cancelled. -/
def World.faltering : World :=
  .make [.leaf (.ofText "/w/a") .file 0, .leaf (.ofText "/w/b") .file 0] "/" none
    [{ call := .unlink, times := some 2, disruption := some (.errno .eacces) },
      { call := .pause, skip := 1, disruption := some .cancel }] (.ofList [])

theorem World.plain_faltering : faltering.Plain (SymlinkTest.run environment .look) := by
  have hevents : ∀ e ∈ faltering.events, e.edits = [] ∧ e.moment = .before := by
    intro e he
    change e ∈ [_, _] at he
    simp only [List.mem_cons, List.not_mem_nil, or_false] at he
    rcases he with rfl | rfl <;> exact ⟨rfl, rfl⟩
  exact ⟨fun e he => (hevents e he).1, fun e he _ => (hevents e he).2, rfl⟩

theorem deleteBelow_tallied_faltering :
    (∀ p, Keeps World.faltering.Follows (SymlinkTest.run World.environment .look p)) ∧
      World.faltering.Plain (SymlinkTest.run World.environment .look) ∧
      Ends ((World.deleterTelling (SymlinkTest.run World.environment .look) false 5
            (by decide)).deleteBelow false (.ofText "/w") true) ⟨World.faltering, [], []⟩
        (fun run s' => ∃ efforts,
          Session.Tells ⟨World.faltering, [], []⟩ s' (.ofText "/w") 5 efforts run ∧
            (World.faltering.Plain (SymlinkTest.run World.environment .look) →
              run.deleted + s'.state.files.size = World.faltering.files.size))
        (fun _ s' => s'.endings = Session.endings ⟨World.faltering, [], []⟩ ∨
          ∃ efforts run, Session.Tells ⟨World.faltering, [], []⟩ s' (.ofText "/w") 5 efforts run ∧
            (World.faltering.Plain (SymlinkTest.run World.environment .look) →
              run.deleted + s'.state.files.size = World.faltering.files.size)) ∧
        (World.deleterTelling (SymlinkTest.run World.environment .look) false 5
          (by decide)).ShowsActs false (.ofText "/w") true ⟨World.faltering, [], []⟩ := by
  have hlooks : ∀ p, Keeps World.faltering.Follows (SymlinkTest.run World.environment .look p) :=
    have h : (World.deleter false 5 (by decide)).WorkingAt World.faltering.Follows
      World.faltering.workingDirectory := World.faltering.workingAt
    h.looking.isSymlink
  exact ⟨hlooks, World.plain_faltering,
    deleteBelow_tallied World.faltering hlooks false true false 5 (by decide) "/w" [] []⟩

end TreeRemoval
