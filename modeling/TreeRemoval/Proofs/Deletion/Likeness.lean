import TreeRemoval.Proofs.Deletion.Tree
import TreeRemoval.Proofs.Matching

/-! # Looks and attempts side by side

Two deleters whose environments answer alike look at files alike, and leave paths alike if removals
and pauses have the same outcomes. It is up to the caller which states answer alike, and what is to
be known of a fault. A deleter beside itself shows what its looks and attempts keep, that they fail
without a report, and where their faults come from.
-/

namespace TreeRemoval

open Deletion

variable {σ σ' α β : Type} {R : σ → σ' → Prop} {E : Fault → σ → σ' → Prop}

/-! ### Environments -/

theorem Alike.shows {look : EStateM Fault σ Status} {look' : EStateM Fault σ' Status}
    (h : Alike R E look look') (hrelated : ∀ {f s s'}, E f s s' → R s s') (test : Status → Bool) :
    Alike R E (Environment.shows look test) (Environment.shows look' test) := by
  unfold Environment.shows
  apply h.bind_outcome
  · exact fun _ => .pure _
  · intro f s s' hf
    dsimp only
    split
    · exact Matches.pure ⟨rfl, hrelated hf⟩
    · exact Matches.throw ⟨rfl, hf⟩

theorem Matches.awaited {call : EStateM Fault σ α} {call' : EStateM Fault σ' β} {s : σ} {s' : σ'}
    {Q : α → σ → β → σ' → Prop} {E : Fault → σ → Fault → σ' → Prop}
    (h : Matches call call' s s' Q fun f t f' t' => E f.awaited t f'.awaited t') :
    Matches (awaited call) (awaited call') s s' Q E := by
  rcases h.ok_or_error with ⟨a, t, b, t', hm, hm', hQ⟩ | ⟨f, t, f', t', hm, hm', hE⟩
  · exact Matches.of_ok (awaited_of_ok hm) (awaited_of_ok hm') hQ
  · exact Matches.of_error (awaited_of_error hm) (awaited_of_error hm') hE

theorem Alike.awaited (hawaits : ∀ {f s s'}, E f s s' → E f.awaited s s')
    {call : EStateM Fault σ α} {call' : EStateM Fault σ' α} (h : Alike R E call call') :
    Alike R E (awaited call) (awaited call') := fun s s' hs =>
  Matches.awaited ((h s s' hs).mono (fun _ _ _ _ h => h)
    fun _ _ _ _ ⟨he, hf⟩ => ⟨congrArg Fault.awaited he, hawaits hf⟩)

theorem Name.pairwise_mergeSort (names : List Name) :
    (names.mergeSort fun a b => a.text ≤ b.text).Pairwise (·.text ≤ ·.text) := by
  have htrans : ∀ a b c : Name, decide (a.text ≤ b.text) = true → decide (b.text ≤ c.text) = true →
      decide (a.text ≤ c.text) = true := fun a b c hab hbc =>
    decide_eq_true (String.le_trans (of_decide_eq_true hab) (of_decide_eq_true hbc))
  have htotal : ∀ a b : Name, (decide (a.text ≤ b.text) || decide (b.text ≤ a.text)) = true := by
    intro a b
    simpa using String.le_total a.text b.text
  exact (List.pairwise_mergeSort htrans htotal names).imp of_decide_eq_true

theorem Name.mergeSort_eq_of_perm {names names' : List Name} (h : names'.Perm names) :
    (names'.mergeSort fun a b => a.text ≤ b.text) = names.mergeSort fun a b => a.text ≤ b.text := by
  refine List.Perm.eq_of_pairwise (fun a b _ _ hab hba => Name.ext (String.le_antisymm hab hba))
    (pairwise_mergeSort names') (pairwise_mergeSort names)
    (((List.mergeSort_perm _ _).trans h).trans (List.mergeSort_perm _ _).symm)

/-- Children are the same if listings are, up to their order. -/
theorem Environment.alike_children_of_perm {env : Environment σ} {env' : Environment σ'} {p : Path}
    (hawaits : ∀ {f s s'}, E f s s' → E f.awaited s s')
    (h : ∀ s s', R s s' → Matches (env.list p.text) (env'.list p.text) s s'
      (fun names t names' t' => names'.Perm names ∧ R t t') fun f t f' t' => f' = f ∧ E f t t') :
    Alike R E (env.children p) (env'.children p) := by
  intro s s' hs
  unfold Environment.children
  apply Matches.bind (Matches.awaited ((h s s' hs).mono (fun _ _ _ _ h => h)
    fun _ _ _ _ ⟨he, hf⟩ => ⟨congrArg Fault.awaited he, hawaits hf⟩))
  rintro names t names' t' ⟨hperm, ht⟩
  exact Matches.pure ⟨by rw [Name.mergeSort_eq_of_perm hperm], ht⟩

theorem Environment.alike_children {env : Environment σ} {env' : Environment σ'} {p : Path}
    (hawaits : ∀ {f s s'}, E f s s' → E f.awaited s s')
    (h : Alike R E (env.list p.text) (env'.list p.text)) :
    Alike R E (env.children p) (env'.children p) :=
  alike_children_of_perm hawaits fun s s' hs =>
    (h s s' hs).mono (fun _ _ _ _ ⟨he, ht⟩ => ⟨he ▸ .refl _, ht⟩) fun _ _ _ _ h => h

/-- Looks at files are alike in two environments, whose listings may be in different orders. `E`
holds of faults in related states, and goes on to hold when a call was waited for. -/
structure Environment.LooksLike (R : σ → σ' → Prop) (E : Fault → σ → σ' → Prop)
    (env : Environment σ) (env' : Environment σ') : Prop where
  stat : ∀ t, Alike R E (env.stat t) (env'.stat t)
  lstat : ∀ t, Alike R E (env.lstat t) (env'.lstat t)
  children : ∀ p, Alike R E (env.children p) (env'.children p)
  workingDirectory : Alike R E env.workingDirectory env'.workingDirectory
  related : ∀ {f s s'}, E f s s' → R s s'
  awaits : ∀ {f s s'}, E f s s' → E f.awaited s s'

namespace Environment.LooksLike

variable {env : Environment σ} {env' : Environment σ'} (h : env.LooksLike R E env')

include h

theorem awaited {call : EStateM Fault σ α} {call' : EStateM Fault σ' α} (hc : Alike R E call call') :
    Alike R E (awaited call) (awaited call') :=
  hc.awaited h.awaits

theorem isDirectory (t : String) : Alike R E (env.isDirectory t) (env'.isDirectory t) :=
  (h.stat t).shows h.related _

theorem look? (t : String) : Alike R E (env.look? t) (env'.look? t) := by
  unfold Environment.look?
  apply (h.awaited (h.lstat t)).bind_outcome
  · exact fun _ => .pure _
  · intro f s s' hf
    cases f with
    | system e =>
      dsimp only
      split
      · exact Matches.pure ⟨rfl, h.related hf⟩
      · exact Matches.throw ⟨rfl, hf⟩
    | nullByte | cancelled | interrupted => exact Matches.throw ⟨rfl, hf⟩

theorem absolute (p : Path) : Alike R E (env.absolute p) (env'.absolute p) := by
  unfold Environment.absolute
  split
  · exact .pure _
  · exact h.workingDirectory.bind fun _ => .pure _

theorem removeNode {t : String} (hr : Alike R E (env.rmdir t) (env'.rmdir t))
    (hu : Alike R E (env.unlink t) (env'.unlink t)) :
    Alike R E (env.removeNode t) (env'.removeNode t) := by
  unfold Environment.removeNode
  apply (h.look? t).bind
  rintro (_ | status)
  · exact .pure _
  have hremove : Alike R E (if status.kind = .directory then env.rmdir t else env.unlink t)
      (if status.kind = .directory then env'.rmdir t else env'.unlink t) := by
    split
    · exact hr
    · exact hu
  apply (h.awaited hremove).bind_outcome
  · exact fun _ => .pure _
  · intro f s s' hf
    cases f with
    | system e =>
      dsimp only
      split
      · exact Matches.pure ⟨rfl, h.related hf⟩
      · exact Matches.throw ⟨rfl, hf⟩
    | nullByte | cancelled | interrupted => exact Matches.throw ⟨rfl, hf⟩

theorem pathExists (t : String) : Alike R E (env.pathExists t) (env'.pathExists t) :=
  (h.stat t).shows h.related _

end Environment.LooksLike

section Directories

variable {env : Environment σ} {env' : Environment σ'} (h : env.LooksLike R (fun _ => R) env')
  (hm : ∀ t, Alike R (fun _ => R) (env.mkdir t) (env'.mkdir t))

include h hm

/-- Directories are made alike, when nothing is to be known of faults. The fault of a call may be
raised again after another look. -/
theorem Environment.LooksLike.makeDirectories (anchor : Anchor) (parts : List String) :
    Alike R (fun _ => R) (env.makeDirectories anchor parts)
      (env'.makeDirectories anchor parts) := by
  have hone : ∀ t, Alike R (fun _ => R) (Environment.makeDirectories.makeOne env t)
      (Environment.makeDirectories.makeOne env' t) := by
    intro t
    unfold Environment.makeDirectories.makeOne
    apply (hm t).bind_outcome
    · exact fun _ => .pure _
    · intro f s s' hs
      cases f with
      | system e =>
        refine ((h.isDirectory t).bind ?_) s s' hs
        rintro (_ | _)
        · exact .throw id
        · exact .pure _
      | nullByte | cancelled | interrupted => exact Matches.throw ⟨rfl, hs⟩
  have hraise : ∀ f : Fault, Alike R (fun _ : Fault => R) (throw f : EStateM Fault σ Unit)
      (throw f : EStateM Fault σ' Unit) := fun _ => .throw id
  induction parts with
  | nil => exact hone _
  | cons part above ih =>
    unfold Environment.makeDirectories
    split
    · apply (h.pathExists _).bind
      rintro (_ | _)
      · apply ih.bind_outcome
        · exact fun _ => hone _
        · intro f s s' hs
          cases f with
          | system e =>
            dsimp only
            split
            · exact hone _ s s' hs
            · exact (hraise _).bind (fun _ => hone _) s s' hs
          | nullByte | cancelled | interrupted =>
            exact (hraise _).bind (fun _ => hone _) s s' hs
      · exact hone _
    · exact hone _

theorem Environment.LooksLike.ensureDirectory (p : Path) :
    Alike R (fun _ => R) (env.ensureDirectory p) (env'.ensureDirectory p) :=
  h.awaited (h.makeDirectories hm _ _)

end Directories

/-! ### Steps of deletions -/

/-- A relation between sessions that holds on when related states take the place of their own, and
when both log the same. -/
structure Abreast (R : σ → σ' → Prop) (S : Session σ → Session σ' → Prop) : Prop where
  state : ∀ {s s'}, S s s' → R s.state s'.state
  move : ∀ {s s' t t'}, S s s' → R t t' → S { s with state := t } { s' with state := t' }
  note : ∀ {s s'} (entry : Log.Entry), S s s' →
    S { s with log := s.log ++ [entry] } { s' with log := s'.log ++ [entry] }

/-- A relation between sessions that holds on when both record the same act as well. -/
structure InStep (R : σ → σ' → Prop) (S : Session σ → Session σ' → Prop) : Prop extends
    abreast : Abreast R S where
  record : ∀ {s s'} (act : Act), S s s' →
    S { s with acts := s.acts ++ [act] } { s' with acts := s'.acts ++ [act] }

/-- What steps that fail alike fail with: no report, and a fault at most of which `E` holds. -/
structure Handed (S : Session σ → Session σ' → Prop) (E : Fault → σ → σ' → Prop) (e : Failure)
    (s : Session σ) (s' : Session σ') : Prop where
  related : S s s'
  report : e.report? = none
  fault : ∀ f, e = .fault f → E f s.state s'.state

abbrev StepsAlike (S : Session σ → Session σ' → Prop) (E : Fault → σ → σ' → Prop)
    (m : Deletion σ α) (m' : Deletion σ' α) : Prop :=
  Alike S (Handed S E) m m'

theorem Handed.of_fault {S : Session σ → Session σ' → Prop} {f : Fault} {s : Session σ}
    {s' : Session σ'} (hs : S s s') (hf : E f s.state s'.state) : Handed S E (.fault f) s s' := by
  refine ⟨hs, rfl, ?_⟩
  rintro _ ⟨⟩
  exact hf

namespace Abreast

variable {S : Session σ → Session σ' → Prop} (hS : Abreast R S)

include hS

section

variable (hrelated : ∀ {f s s'}, E f s s' → R s s') {call : EStateM Fault σ α}
  {call' : EStateM Fault σ' α} (h : Alike R E call call')

include hrelated h

theorem perform : StepsAlike S E (perform call) (perform call') := by
  intro s s' hs
  rcases (h s.state s'.state (hS.state hs)).ok_or_error with ⟨a, t, _, t', hm, hm', rfl, ht⟩ |
    ⟨f, t, _, t', hm, hm', rfl, hf⟩
  · exact Matches.of_ok (by unfold Deletion.perform; rw [hm]) (by unfold Deletion.perform; rw [hm'])
      ⟨rfl, hS.move hs ht⟩
  · exact Matches.of_error (by unfold Deletion.perform; rw [hm])
      (by unfold Deletion.perform; rw [hm']) ⟨rfl, .of_fault (hS.move hs (hrelated hf)) hf⟩

/-- A fault that has been observed may end the deletion. -/
theorem bind_observe {f : Except Fault α → Deletion σ β} {f' : Except Fault α → Deletion σ' β}
    (hok : ∀ a, StepsAlike S E (f (.ok a)) (f' (.ok a)))
    (herr : ∀ fault s s', S s s' → E fault s.state s'.state →
      AlikeAt S (Handed S E) (f (.error fault)) (f' (.error fault)) s s') :
    StepsAlike S E (observe call >>= f) (observe call' >>= f') := by
  intro s s' hs
  rcases (h s.state s'.state (hS.state hs)).ok_or_error with ⟨a, t, _, t', hm, hm', rfl, ht⟩ |
    ⟨fault, t, _, t', hm, hm', rfl, hf⟩
  · apply Matches.left (observe_of_ok hm)
    apply Matches.right (observe_of_ok hm')
    exact hok _ _ _ (hS.move hs ht)
  · apply Matches.left (observe_of_error hm)
    apply Matches.right (observe_of_error hm')
    exact herr _ _ _ (hS.move hs (hrelated hf)) hf

end

theorem noteBoth (level : Log.Level) (message : String) (fields : List (String × Log.Value)) :
    StepsAlike S E (Deletion.note level message fields) (Deletion.note level message fields) :=
  fun _ _ hs => Matches.of_ok rfl rfl ⟨rfl, hS.note _ hs⟩

theorem reading {now : σ → Float × σ} {now' : σ' → Float × σ'}
    (h : ∀ s s', R s s' → (now' s').1 = (now s).1 ∧ R (now s).2 (now' s').2) :
    StepsAlike S E (reading now) (reading now') := by
  intro s s' hs
  obtain ⟨htime, hstate⟩ := h s.state s'.state (hS.state hs)
  exact Matches.of_ok rfl rfl ⟨htime, hS.move hs hstate⟩

end Abreast

theorem InStep.recordBoth {S : Session σ → Session σ' → Prop} (hS : InStep R S) (act : Act) :
    StepsAlike S E (Deletion.record act) (Deletion.record act) :=
  fun _ _ hs => Matches.of_ok rfl rfl ⟨rfl, hS.record act hs⟩

/-! ### Looks -/

/-- Two deleters look alike at files and clocks, and report up to the same cap. -/
structure Deleter.LooksLike (R : σ → σ' → Prop) (E : Fault → σ → σ' → Prop) (d : Deleter σ)
    (d' : Deleter σ') : Prop extends looks : d.environment.LooksLike R E d'.environment where
  isSymlink : ∀ p, Alike R E (d.isSymlink p) (d'.isSymlink p)
  now : ∀ s s', R s s' → (d'.now s').1 = (d.now s).1 ∧ R (d.now s).2 (d'.now s').2
  maxReported : d'.maxReported = d.maxReported

namespace Deleter.LooksLike

variable {S : Session σ → Session σ' → Prop} {d : Deleter σ} {d' : Deleter σ'}
  {followSymlinks : Bool} {root : Path} {startTime : Float} {top : String} {excluded : List String}
  {run run' : Run} {s : Session σ} {s' : Session σ'}

variable (h : d.LooksLike R E d') (hS : Abreast R S)

include h

theorem empty_eq : BoundedSet.empty d'.maxReported d'.maxReported_pos =
    BoundedSet.empty d.maxReported d.maxReported_pos := by
  simp only [BoundedSet.empty, h.maxReported]

include hS

theorem perform {call : EStateM Fault σ α} {call' : EStateM Fault σ' α} (hc : Alike R E call call') :
    StepsAlike S E (perform call) (perform call') :=
  hS.perform h.related hc

theorem bind_observe {call : EStateM Fault σ α} {call' : EStateM Fault σ' α}
    (hc : Alike R E call call') {f : Except Fault α → Deletion σ β}
    {f' : Except Fault α → Deletion σ' β}
    (hok : ∀ a, StepsAlike S E (f (.ok a)) (f' (.ok a)))
    (herr : ∀ fault s s', S s s' → E fault s.state s'.state →
      AlikeAt S (Handed S E) (f (.error fault)) (f' (.error fault)) s s') :
    StepsAlike S E (observe call >>= f) (observe call' >>= f') :=
  hS.bind_observe h.related hc hok herr

theorem absolute (p : Path) : StepsAlike S E (d.absolute p) (d'.absolute p) :=
  h.perform hS (h.looks.absolute p)

theorem shouldFollow (followSymlinks : Bool) (p : Path) :
    StepsAlike S E (d.shouldFollow followSymlinks p) (d'.shouldFollow followSymlinks p) := by
  unfold Deleter.shouldFollow
  apply (h.perform hS (h.looks.isDirectory p.text)).bind
  rintro (_ | _)
  · exact .pure _
  · cases followSymlinks with
    | true => exact .pure _
    | false => exact (h.perform hS (h.isSymlink p)).bind fun _ => .pure _

theorem listChildren (p : Path) : StepsAlike S E (d.listChildren p) (d'.listChildren p) := by
  unfold Deleter.listChildren
  apply h.bind_observe hS (h.looks.children p)
  · exact fun _ => .pure _
  · intro f s s' hs hf
    cases f with
    | system e =>
      dsimp only
      split
      · exact (hS.noteBoth _ _ _).bind (fun _ => .pure _) s s' hs
      · exact (hS.noteBoth _ _ _).bind (fun _ => .pure _) s s' hs
    | nullByte | cancelled | interrupted => exact Matches.throw ⟨rfl, .of_fault hs hf⟩

theorem inspect (p : Path) (found : BoundedSet) :
    StepsAlike S E (d.inspect startTime top excluded p found)
      (d'.inspect startTime top excluded p found) := by
  unfold Deleter.inspect
  apply (h.absolute hS p).bind
  intro place
  split
  · exact .pure _
  · apply (h.perform hS (h.looks.look? p.text)).bind
    rintro (_ | status) <;> exact .pure _

omit h hS in
theorem scanEach {scan : Path → BoundedSet → Deletion σ BoundedSet}
    {scan' : Path → BoundedSet → Deletion σ' BoundedSet}
    (hscan : ∀ p found, StepsAlike S E (scan p found) (scan' p found)) (children : List Path)
    (found : BoundedSet) :
    StepsAlike S E (Deleter.scanEach scan children found)
      (Deleter.scanEach scan' children found) := by
  induction children generalizing found with
  | nil => exact .pure _
  | cons c rest ih =>
    unfold Deleter.scanEach
    split
    · exact .pure _
    · exact (hscan c found).bind fun found => ih found

theorem scanBelow (depth : Nat) (p : Path) (found : BoundedSet) :
    StepsAlike S E (d.scanBelow followSymlinks startTime top excluded depth p found)
      (d'.scanBelow followSymlinks startTime top excluded depth p found) := by
  induction depth generalizing p found with
  | zero => exact .throw fun hs => ⟨hs, rfl, nofun⟩
  | succ depth ih =>
    unfold Deleter.scanBelow
    apply (h.inspect hS p found).bind
    rintro ⟨_ | _, found⟩
    · exact .pure _
    apply (h.shouldFollow hS followSymlinks p).bind
    rintro (_ | _)
    · exact .pure _
    apply (h.listChildren hS p).bind
    rintro (_ | children)
    · exact .pure _
    · exact scanEach ih children found

theorem newPaths (excluded : List String) (root : Path) :
    StepsAlike S E (d.newPaths followSymlinks startTime excluded root)
      (d'.newPaths followSymlinks startTime excluded root) := by
  unfold Deleter.newPaths
  apply (h.absolute hS root).bind
  intro top
  rw [h.empty_eq]
  exact (h.scanBelow hS _ _ _).bind fun _ => .pure _

theorem buildReport (hs : S s s') (hrun : run' = { run with interrupted := run'.interrupted })
    (followSymlinks : Bool) (root : Path) (startTime : Float) :
    Matches (d.buildReport followSymlinks root startTime run)
      (d'.buildReport followSymlinks root startTime run') s s'
      (fun report t report' t' => report.interrupted = run.interrupted ∧
        report' = { report with interrupted := run'.interrupted } ∧ S t t')
      (fun e t e' t' => e' = e ∧ Handed S E e t t') := by
  have hfailed : run'.failed = run.failed := by rw [hrun]
  have hfill : ∀ {t t'} (descended : Bool) (failedPaths newPaths : List String), S t t' →
      Matches (d.fillReport root run descended failedPaths newPaths)
        (d'.fillReport root run' descended failedPaths newPaths) t t'
        (fun report t report' t' => report.interrupted = run.interrupted ∧
          report' = { report with interrupted := run'.interrupted } ∧ S t t')
        (fun e t e' t' => e' = e ∧ Handed S E e t t') := by
    intro t t' descended failedPaths newPaths ht
    unfold fillReport
    apply (h.perform hS (h.isSymlink root) t t' ht).bind
    rintro _ t₁ rootIsSymlink t₁' ⟨rfl, ht₁⟩
    apply (h.perform hS (h.looks.isDirectory root.text) t₁ t₁' ht₁).bind
    rintro _ t₂ rootIsDirectory t₂' ⟨rfl, ht₂⟩
    exact Matches.pure ⟨rfl, by rw [hfailed, h.maxReported], ht₂⟩
  rw [buildReport_eq, buildReport_eq, hfailed]
  apply (h.shouldFollow hS followSymlinks root s s' hs).bind
  rintro _ t descended t' ⟨rfl, ht⟩
  cases descended with
  | false => exact hfill _ _ _ ht
  | true =>
    apply (h.absolute hS root t t' ht).bind
    rintro _ t₁ top t₁' ⟨rfl, ht₁⟩
    apply (h.newPaths hS _ root t₁ t₁' ht₁).bind
    rintro _ t₂ newPaths t₂' ⟨rfl, ht₂⟩
    exact hfill _ _ _ ht₂

end Deleter.LooksLike

/-! ### Attempts -/

structure Deleter.AttemptsLike (R : σ → σ' → Prop) (E : Fault → σ → σ' → Prop) (d : Deleter σ)
    (d' : Deleter σ') (p : Path) : Prop extends looksLike : d.LooksLike R E d' where
  rmdir : Alike R E (d.environment.rmdir p.text) (d'.environment.rmdir p.text)
  unlink : Alike R E (d.environment.unlink p.text) (d'.environment.unlink p.text)
  pause : Alike R E d.environment.pause d'.environment.pause
  collect : Alike R E d.environment.collect d'.environment.collect
  collectsGarbage : d'.collectsGarbage = d.collectsGarbage

namespace Deleter.AttemptsLike

variable {S : Session σ → Session σ' → Prop} {d : Deleter σ} {d' : Deleter σ'} {p : Path}
  {root : Path} {includeRoot : Bool}

variable (h : d.AttemptsLike R E d' p) (hS : InStep R S)

include h

theorem pauseBeforeRetry : Alike R E d.pauseBeforeRetry d'.pauseBeforeRetry := by
  unfold Deleter.pauseBeforeRetry
  rw [h.collectsGarbage]
  split
  · exact h.collect.bind fun _ => h.pause
  · exact h.pause

include hS

theorem absolute : StepsAlike S E (d.absolute p) (d'.absolute p) := h.looksLike.absolute hS.abreast p

theorem tryOnce : StepsAlike S E (d.tryOnce p) (d'.tryOnce p) := by
  unfold Deleter.tryOnce
  apply h.looksLike.bind_observe hS.abreast (h.looks.removeNode h.rmdir h.unlink)
  · exact fun _ => (hS.recordBoth _).bind fun _ => .pure _
  · intro f s s' hs hf
    apply Matches.left (rfl : Deletion.record _ s = .ok () _)
    apply Matches.right (rfl : Deletion.record _ s' = .ok () _)
    have hs := hS.record (.tried p (.error f)) hs
    cases f with
    | system e => exact Matches.pure ⟨rfl, hs⟩
    | nullByte | cancelled | interrupted => exact Matches.throw ⟨rfl, .of_fault hs hf⟩

theorem attempt : StepsAlike S E (d.attempt p) (d'.attempt p) := by
  unfold Deleter.attempt
  apply (h.tryOnce hS).bind
  rintro (e | removed)
  rotate_left
  · exact .pure _
  apply (h.absolute hS).bind
  intro place
  apply (hS.abreast.noteBoth _ _ _).bind
  rintro -
  apply h.looksLike.bind_observe hS.abreast h.pauseBeforeRetry
  · rintro -
    apply (hS.recordBoth _).bind
    rintro -
    apply (h.tryOnce hS).bind
    rintro (e | removed)
    · exact (h.absolute hS).bind fun _ => .pure _
    · exact .pure _
  · intro f s s' hs hf
    apply Matches.left (rfl : Deletion.record _ s = .ok () _)
    apply Matches.right (rfl : Deletion.record _ s' = .ok () _)
    have hs := hS.record (.paused p (.error f)) hs
    cases f with
    | cancelled => exact Matches.pure ⟨rfl, hs⟩
    | system _ | nullByte | interrupted => exact Matches.throw ⟨rfl, .of_fault hs hf⟩

theorem deleteNode (run : Run) : StepsAlike S E (d.deleteNode run p) (d'.deleteNode run p) := by
  have hbook : ∀ run, StepsAlike S E (Deleter.deleteNode.book d p run)
      (Deleter.deleteNode.book d' p run) := by
    intro run
    unfold Deleter.deleteNode.book
    exact (h.absolute hS).bind fun _ => .pure _
  unfold Deleter.deleteNode
  apply (h.attempt hS).bind
  rintro (removed | removed | ⟨place, e⟩ | e)
  · exact .pure _
  · exact .pure _
  · exact hbook _
  · apply (h.absolute hS).bind
    intro place
    apply (hS.abreast.noteBoth _ _ _).bind
    rintro -
    exact (h.absolute hS).bind fun _ => hbook _

theorem leave (root : Path) (includeRoot : Bool) (run : Run) :
    StepsAlike S E (d.leave root includeRoot p run) (d'.leave root includeRoot p run) := by
  unfold Deleter.leave
  rw [h.maxReported]
  split
  · exact .pure _
  · apply (h.deleteNode hS run).bind
    rintro ⟨run, _ | _⟩
    · exact .pure _
    · exact (hS.abreast.noteBoth _ _ _).bind fun _ => .pure _

end Deleter.AttemptsLike

structure Session.Alike (R : σ → σ' → Prop) (s : Session σ) (s' : Session σ') : Prop where
  state : R s.state s'.state
  log : s'.log = s.log
  acts : s'.acts = s.acts

theorem inStep_alike : InStep R (Session.Alike R) where
  state h := h.state
  move h ht := ⟨ht, h.log, h.acts⟩
  note entry h := ⟨h.state, congrArg (· ++ [entry]) h.log, h.acts⟩
  record act h := ⟨h.state, h.log, congrArg (· ++ [act]) h.acts⟩

/-! ### A deleter beside itself -/

section Self

variable {J : σ → Prop} {B : Fault → σ → Prop}

theorem inStep_same (J : σ → Prop) : InStep (Same J) (Same fun s : Session σ => J s.state) where
  state := by
    rintro s s' ⟨rfl, hs⟩
    exact ⟨rfl, hs⟩
  move := by
    rintro s s' t t' ⟨rfl, -⟩ ⟨rfl, ht⟩
    exact ⟨rfl, ht⟩
  note := by
    rintro s s' entry ⟨rfl, hs⟩
    exact ⟨rfl, hs⟩
  record := by
    rintro s s' act ⟨rfl, hs⟩
    exact ⟨rfl, hs⟩

/-- What a step keeps, and what its failures are like, shows when it goes beside itself. -/
theorem StepsAlike.ends {m : Deletion σ α}
    (h : StepsAlike (Same fun s : Session σ => J s.state) (fun f => Same (B f)) m m)
    {s : Session σ} (hs : J s.state) :
    Ends m s (fun _ s' => J s'.state)
      (fun e s' => J s'.state ∧ e.report? = none ∧ ∀ f, e = .fault f → B f s'.state) := by
  rcases (h s s ⟨rfl, hs⟩).ok_or_error with ⟨a, t, -, -, hm, -, -, -, ht⟩ |
    ⟨e, t, _, _, hm, -, -, ⟨-, ht⟩, hreport, hfault⟩
  · exact Ends.of_ok hm ht
  · exact Ends.of_error hm ⟨ht, hreport, fun f hf => (hfault f hf).2⟩

theorem StepsAlike.keeps {m : Deletion σ α}
    (h : StepsAlike (Same fun s : Session σ => J s.state) (fun f => Same (B f)) m m) :
    Keeps (fun s : Session σ => J s.state) m :=
  fun _ hs => (h.ends hs).mono (fun _ _ h => h) fun _ _ h => h.1

end Self

end TreeRemoval
