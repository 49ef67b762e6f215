import TreeRemoval.Path.Real
import TreeRemoval.Proofs.FileSystem.Unwinding
import TreeRemoval.Proofs.Matching
import TreeRemoval.Proofs.World.Answers

/-! # Real paths with nobody else at work

When a path leads to something, its real path is the text of the place that it leads to. Each link
is remembered with the place that it stands for, and a link that is being followed is not met again:
its target would have to unwind within itself.
-/

namespace TreeRemoval

namespace World

variable {w w' : World} {c : Call} {t : String} {p : Path} {place loc : Location}

def Quiet (w : World) : Prop := ∀ e ∈ w.events, e.edits = [] ∧ e.disruption = none

theorem Quiet.calm (h : w.Quiet) : w.Calm := fun e he => (h e he).1

theorem Quiet.not_strikes (h : w.Quiet) {moment : Moment} {f : Fault} :
    ¬ w.Strikes moment c t f := by
  rintro ⟨e, he, -, d, hd, -⟩
  rw [(h e he).2] at hd
  cases hd

theorem Quiet.not_mayBlind (h : w.Quiet) : ¬ w.MayBlind c t := by
  rintro ⟨moment, f, hs⟩
  exact h.not_strikes hs

theorem Follows.quiet (h : w.Follows w') (hq : w.Quiet) : w'.Quiet := by
  intro e he
  obtain ⟨e', he', hf⟩ := h.exists_fresh he
  have hedits : e.fresh.edits = e'.fresh.edits := by rw [hf]
  have hdisruption : e.fresh.disruption = e'.fresh.disruption := by rw [hf]
  exact ⟨hedits.trans (hq e' he').1, hdisruption.trans (hq e' he').2⟩

theorem ends_isLinkAt (hq : w.Quiet) (place : Location) :
    Ends (RealPath.isLinkAt environment (place.map Name.text)) w
      (fun b w' => w.Follows w' ∧ w'.files = w.files ∧ (b = true ↔ IsLinkAt w.files place.path))
      (fun f _ => f = .nullByte ∧ '\x00' ∈ place.path.text.toList) := by
  have hlstat := ends_looking (c := .lstat) (t := place.path.text) hq.calm
    fun files cwd => files.lstat cwd place.path.text
  have hproper : place.path.Proper := Location.proper_path
  have hiff : IsLinkAt w.files place.path ↔ _ :=
    isLinkAt_iff_lstat hproper Location.isAbsolute_path w.workingDirectory
  unfold RealPath.isLinkAt
  refine Ends.bind_outcome hlstat ?_ ?_
  · rintro status w' ⟨hf, hfiles, -, hs⟩
    refine Ends.pure ⟨hf, hfiles, fun hb => ?_, fun hl => ?_⟩
    · exact hiff.2 ⟨status, hs, of_decide_eq_true hb⟩
    · obtain ⟨status', hs', hk⟩ := hiff.1 hl
      obtain rfl : status = status' := Except.ok.inj (hs.symm.trans hs')
      exact decide_eq_true hk
  · rintro f w' ⟨hf, hfiles, hcause⟩
    cases hcause with
    | refused he =>
      refine Ends.pure ⟨hf, hfiles, by simp, fun hl => ?_⟩
      obtain ⟨status, hs, -⟩ := hiff.1 hl
      rw [hs] at he
      cases he
    | nullByte h => exact Ends.throw ⟨rfl, h⟩
    | struck h => exact absurd h hq.not_strikes

theorem ends_readLink (hp : p.Proper) (ha : p.isAbsolute = true) {target : String}
    (hl : w.files.locate false p = .ok loc) (hf : w.files.formAt? loc = some (.link target)) :
    Ends (environment.readLink p.text) w (fun t w' => w' = w ∧ t = target)
      (fun f _ => f = .nullByte ∧ '\x00' ∈ p.text.toList) := by
  obtain ⟨node, hn, hform⟩ := Option.map_eq_some_iff.1 hf
  obtain ⟨m, rfl⟩ := Node.form_eq_link_iff.1 hform
  have hread : w.files.readLink w.workingDirectory p.text = .ok target := by
    unfold FileSystem.readLink
    rw [(FileSystem.lookup_eq_ok_iff hp ha).2 ⟨loc, hl, hn⟩]
    rfl
  change Ends (work p.text (looking fun files cwd => files.readLink cwd p.text)) w _ _
  unfold Ends work looking
  by_cases ht : '\x00' ∈ p.text.toList
  · simp [ht]
  · simp [ht, hread, Except.map]

end World

namespace RealPath

open World FileSystem

variable {fs : FileSystem} {P : Location → Prop} {k k' : Nat} {place loc : Location}
  {pieces : List String}
  {seen seen' seen'' : Seen} {n : Name} {target : String} {parts found : List String}

/-- The link at the parts stands for the place that has been found. -/
def Stands (fs : FileSystem) (P : Location → Prop) (parts found : List String) : Prop :=
  ∃ place n target k mid, parts = (place ++ [n]).map Name.text ∧
    fs.formAt? (place ++ [n]) = some (.link target) ∧
    fs.Unwinds P k (linkStart place target) (pieceTexts target) mid ∧ found = mid.map Name.text

/-- The links met so far, while at most so many are still to be followed: what is known is right,
and an open link unwinds by no fewer links than are left. -/
def Remembers (fs : FileSystem) (P : Location → Prop) (left : Nat) (seen : Seen) : Prop :=
  ∀ parts entry, seen.lookup parts = some entry →
    match entry with
    | some found => Stands fs P parts found
    | none => ∀ place n target k mid, parts = (place ++ [n]).map Name.text →
        fs.formAt? (place ++ [n]) = some (.link target) →
        fs.Unwinds P k (linkStart place target) (pieceTexts target) mid → left ≤ k

def Learns (fs : FileSystem) (P : Location → Prop) (seen seen' : Seen) : Prop :=
  ∀ parts, seen'.lookup parts = seen.lookup parts ∨
    ∃ found, seen'.lookup parts = some (some found) ∧ Stands fs P parts found

theorem lookup_cons_seen (parts parts' : List String) (entry : Option (List String)) (seen : Seen) :
    List.lookup parts' ((parts, entry) :: seen) =
      if parts' = parts then some entry else seen.lookup parts' := by
  rw [List.lookup_cons]
  by_cases h : parts' = parts
  · simp [h]
  · simp [h, beq_eq_false_iff_ne.2 h]

theorem Remembers.mono (h : Remembers fs P k seen) (hk : k' ≤ k) : Remembers fs P k' seen := by
  intro parts entry hl
  have := h parts entry hl
  cases entry with
  | some found => exact this
  | none =>
    intro place n target j mid hp hf hu
    exact Nat.le_trans hk (this place n target j mid hp hf hu)

theorem Learns.refl (seen : Seen) : Learns fs P seen seen := fun _ => Or.inl rfl

theorem Learns.trans (h : Learns fs P seen seen') (h' : Learns fs P seen' seen'') :
    Learns fs P seen seen'' := by
  intro parts
  rcases h' parts with he | hs
  · rw [he]
    exact h parts
  · exact Or.inr hs

theorem Remembers.learns (h : Remembers fs P k seen) (hl : Learns fs P seen seen') :
    Remembers fs P k seen' := by
  intro parts entry he
  rcases hl parts with hsame | ⟨found, hs, hstands⟩
  · exact h parts entry (hsame ▸ he)
  · rw [hs] at he
    cases he
    exact hstands

theorem concat_inj {place place' : Location} {n n' : Name}
    (h : (place ++ [n]).map Name.text = (place' ++ [n']).map Name.text) :
    place = place' ∧ n = n' := by
  have hplace : place ++ [n] = place' ++ [n'] := (List.map_inj_right fun _ _ => Name.ext).1 h
  simpa using List.append_inj' hplace rfl

theorem Remembers.opening {mid : Location} (h : Remembers fs P k' seen) (hk : k ≤ k')
    (hf : fs.formAt? (place ++ [n]) = some (.link target))
    (hu : fs.Unwinds P k (linkStart place target) (pieceTexts target) mid) :
    Remembers fs P k (((place ++ [n]).map Name.text, none) :: seen) := by
  intro parts entry hl
  rw [lookup_cons_seen] at hl
  split at hl
  · rename_i hp
    cases hl
    intro place' n' target' j mid' hp' hf' hu'
    obtain ⟨rfl, rfl⟩ := concat_inj (hp.symm.trans hp')
    rw [hf] at hf'
    cases hf'
    exact Nat.le_of_eq (hu.unique hu').1
  · exact h.mono hk parts entry hl

/-- When a link has been followed, its entry is closed. -/
theorem Learns.closing {mid : Location} {entry : Option (List String)}
    (h : Learns fs P (((place ++ [n]).map Name.text, entry) :: seen) seen')
    (hf : fs.formAt? (place ++ [n]) = some (.link target))
    (hu : fs.Unwinds P k (linkStart place target) (pieceTexts target) mid) :
    Learns fs P seen (((place ++ [n]).map Name.text, some (mid.map Name.text)) :: seen') := by
  intro parts
  rw [lookup_cons_seen]
  split
  · rename_i hp
    exact Or.inr ⟨_, rfl, place, n, target, k, mid, hp, hf, hu, rfl⟩
  · rename_i hp
    rcases h parts with he | hs
    · rw [lookup_cons_seen, if_neg hp] at he
      exact Or.inl he
    · exact Or.inr hs

variable {σ : Type} {env : Environment σ}
  {expand : List String → String → Seen → EStateM Fault σ (Resolved × Seen)} {piece : String}
  {rest : List String}

theorem resolveWith_skip (h : piece = "" ∨ piece = ".") :
    resolveWith env expand parts seen (piece :: rest) = resolveWith env expand parts seen rest := by
  rw [resolveWith, if_pos h]

theorem resolveWith_up :
    resolveWith env expand parts seen (".." :: rest) =
      resolveWith env expand parts.dropLast seen rest := by
  rw [resolveWith, if_neg (by decide), if_pos rfl]

theorem resolveWith_name (n : Name) :
    resolveWith env expand parts seen (n.text :: rest) = (do
      let next := parts ++ [n.text]
      if !(← isLinkAt env next) then resolveWith env expand next seen rest
      else
        match seen.lookup next with
        | some (some known) => resolveWith env expand known seen rest
        | some none => return (.looped (joinTexts (placeText next) ("/".intercalate rest)), seen)
        | none =>
          let target ← env.readLink (placeText next)
          match ← expand parts target ((next, none) :: seen) with
          | (.place found, seen) => resolveWith env expand found ((next, some found) :: seen) rest
          | (.looped t, seen) => return (.looped (joinTexts t ("/".intercalate rest)), seen)) := by
  rw [resolveWith, if_neg (by simp [n.ne_empty, n.ne_dot])]
  exact if_neg n.ne_dots

theorem piece_of_stepless (hs : '/' ∉ piece.toList)
    (h : Step.ofText? piece = none ∨ Step.ofText? piece = some .stay) : piece = "" ∨ piece = "." := by
  unfold Step.ofText? at h
  split at h
  · exact Or.inr ‹_›
  · rename_i hdot
    split at h
    · simp at h
    · rename_i hdots
      left
      by_contra hne
      simp [Name.ofText?, hne, hdot, hdots, hs] at h

theorem piece_of_up (h : Step.ofText? piece = some .up) : piece = ".." := by
  unfold Step.ofText? at h
  split at h
  · cases h
  · split at h
    · assumption
    · simp at h

theorem piece_of_enter (h : Step.ofText? piece = some (.enter n)) : piece = n.text := by
  unfold Step.ofText? Name.ofText? at h
  split at h
  · cases h
  · split at h
    · cases h
    · split at h
      · simp only [Option.map_some, Option.some.injEq, Step.enter.injEq] at h
        rw [← h]
      · cases h

theorem slash_notMem_of_mem_pieceTexts {t : String} (h : piece ∈ pieceTexts t) :
    '/' ∉ piece.toList := by
  obtain ⟨cs, hcs, rfl⟩ := List.mem_map.1 h
  simpa using slash_notMem_of_mem_pieces hcs

variable {w w₁ : World}

/-- Pieces that unwind to a place are resolved to it, unless the text of a place that is entered
holds a null byte. -/
theorem ends_resolveWith (hq : w.Quiet) (h : w.files.Unwinds P k place pieces loc)
    (hs : ∀ piece ∈ pieces, '/' ∉ piece.toList) {nesting : Nat} (hk : k ≤ nesting)
    (hseen : Remembers w.files P k seen) (hw : w.Follows w₁) (hf : w₁.files = w.files) :
    Ends (resolveWith environment (resolve environment nesting) (place.map Name.text) seen pieces) w₁
      (fun r w' => w.Follows w' ∧ w'.files = w.files ∧ r.1 = .place (loc.map Name.text) ∧
        Learns w.files P seen r.2)
      (fun f _ => f = .nullByte ∧ ∃ l, P l ∧ '\x00' ∈ l.path.text.toList) := by
  induction h generalizing nesting seen w₁ with
  | nil => exact Ends.pure ⟨hw, hf, rfl, .refl _⟩
  | skip hp _ ih =>
    rw [resolveWith_skip (piece_of_stepless (hs _ List.mem_cons_self) hp)]
    exact ih (fun piece hm => hs piece (List.mem_cons_of_mem _ hm)) hk hseen hw hf
  | up hp _ ih =>
    rw [piece_of_up hp, resolveWith_up, ← List.map_dropLast]
    exact ih (fun piece hm => hs piece (List.mem_cons_of_mem _ hm)) hk hseen hw hf
  | @enter k place loc piece rest n form hp hP hform hn _ ih =>
    rw [piece_of_enter hp, resolveWith_name]
    have hnext : place.map Name.text ++ [n.text] = (place ++ [n]).map Name.text := by simp
    rw [hnext]
    refine Ends.seq (ends_isLinkAt (hw.quiet hq) (place ++ [n]))
      (fun _ _ ⟨hf, h⟩ => ⟨hf, _, hP, h⟩) ?_
    rintro b w₂ ⟨hw₂, hf₂, hb⟩
    have hno : b = false := by
      by_contra hne
      obtain ⟨loc', target, hl, hlink⟩ := hb.1 (by simpa using hne)
      rw [hf] at hl hlink
      have hthere : w.files.get? (place ++ [n]) ≠ none := by
        rw [Ne, ← formAt?_eq_none_iff, hform]
        simp
      rw [locate_path_eq hthere hl, hform] at hlink
      exact hn target (Option.some.inj hlink)
    subst hno
    exact ih (fun piece hm => hs piece (List.mem_cons_of_mem _ hm)) hk hseen (hw.trans hw₂)
      (hf₂.trans hf)
  | @follow j k place mid loc piece rest n target hp hP hform hv hu _ ih ih' =>
    have hrest : ∀ piece ∈ rest, '/' ∉ piece.toList :=
      fun piece hm => hs piece (List.mem_cons_of_mem _ hm)
    rw [piece_of_enter hp, resolveWith_name]
    have hnext : place.map Name.text ++ [n.text] = (place ++ [n]).map Name.text := by simp
    rw [hnext]
    refine Ends.seq (ends_isLinkAt (hw.quiet hq) (place ++ [n]))
      (fun _ _ ⟨hf, h⟩ => ⟨hf, _, hP, h⟩) ?_
    rintro b w₂ ⟨hw₂, hf₂, hb⟩
    have hyes : b = true := hb.2 (hf ▸ ⟨_, target, hv, hform⟩)
    subst hyes
    have hw₂' := hw.trans hw₂
    have hf₂' := hf₂.trans hf
    simp only [Bool.not_true, Bool.false_eq_true, if_false]
    cases hl : seen.lookup ((place ++ [n]).map Name.text) with
    | some entry =>
      have hentry := hseen _ entry hl
      cases entry with
      | none =>
        have := hentry place n target j mid rfl hform hu
        omega
      | some found =>
        obtain ⟨place', n', target', i, mid', hp', hf', hu', rfl⟩ := hentry
        obtain ⟨rfl, rfl⟩ := concat_inj hp'
        rw [hform] at hf'
        cases hf'
        obtain ⟨-, rfl⟩ := hu.unique hu'
        exact ih' hrest (by omega) (hseen.mono (by omega)) hw₂' hf₂'
    | none =>
      -- The link is opened, its target is resolved, and then the link is closed.
      simp only
      have hv₂ : w₂.files.locate false (Location.path (place ++ [n])) = .ok (place ++ [n]) :=
        hf₂' ▸ hv
      have hform₂ : w₂.files.formAt? (place ++ [n]) = some (.link target) := hf₂' ▸ hform
      refine Ends.seq (ends_readLink Location.proper_path Location.isAbsolute_path hv₂ hform₂)
        (fun _ _ ⟨hf, h⟩ => ⟨hf, _, hP, h⟩) ?_
      rintro text w₃ ⟨hsame, htext⟩
      rw [hsame, htext]
      obtain ⟨m, rfl⟩ : ∃ m, nesting = m + 1 := ⟨nesting - 1, by omega⟩
      have hstart : (if Anchor.ofText target = .here then place.map Name.text else []) =
          (linkStart place target).map Name.text := by
        unfold linkStart
        split <;> rfl
      rw [resolve, hstart]
      apply Ends.bind (ih (fun piece hm => slash_notMem_of_mem_pieceTexts hm) (by omega)
        (hseen.opening (by omega) hform hu) hw₂' hf₂')
      rintro ⟨r, seen'⟩ w₄ ⟨hw₄, hf₄, rfl, hlearns⟩
      have hclosed := hlearns.closing hform hu
      refine (ih' hrest (by omega) ((hseen.mono (by omega)).learns hclosed) hw₄ hf₄).mono ?_
        fun _ _ h => h
      rintro r w₅ ⟨hw₅, hf₅, hr, hlearns'⟩
      exact ⟨hw₅, hf₅, hr, hclosed.trans hlearns'⟩

/-! ### Resolving side by side -/

section

variable {σ' : Type} {env' : Environment σ'} {R : σ → σ' → Prop} {E : Fault → σ → σ' → Prop}
  {expand' : List String → String → Seen → EStateM Fault σ' (Resolved × Seen)}
  (hl : ∀ t, Alike R E (env.lstat t) (env'.lstat t))
  (hr : ∀ t, Alike R E (env.readLink t) (env'.readLink t))
  (hrelated : ∀ {f s s'}, E f s s' → R s s')

include hl hrelated

theorem alike_isLinkAt (parts : List String) :
    Alike R E (isLinkAt env parts) (isLinkAt env' parts) := by
  unfold isLinkAt
  apply (hl _).bind_outcome
  · exact fun _ => .pure _
  · intro f s s' hf
    cases f with
    | system => exact Matches.pure ⟨rfl, hrelated hf⟩
    | nullByte | cancelled | interrupted => exact Matches.throw ⟨rfl, hf⟩

include hr

/-- Resolving goes alike where looks at links do. -/
theorem alike_resolveWith
    (he : ∀ parts t seen, Alike R E (expand parts t seen) (expand' parts t seen))
    (pieces parts : List String) (seen : Seen) :
    Alike R E (resolveWith env expand parts seen pieces)
      (resolveWith env' expand' parts seen pieces) := by
  induction pieces generalizing parts seen with
  | nil => exact .pure _
  | cons piece rest ih =>
    unfold resolveWith
    split
    · exact ih _ _
    split
    · exact ih _ _
    apply (alike_isLinkAt hl hrelated _).bind
    rintro (_ | _)
    · exact ih _ _
    simp only [Bool.not_true, Bool.false_eq_true, if_false]
    split
    · exact ih _ _
    · exact .pure _
    · apply (hr _).bind
      intro target
      apply (he _ _ _).bind
      rintro ⟨_ | _, seen'⟩
      · exact ih _ _
      · exact .pure _

theorem alike_resolve (nesting : Nat) (parts : List String) (t : String) (seen : Seen) :
    Alike R E (resolve env nesting parts t seen) (resolve env' nesting parts t seen) := by
  induction nesting generalizing parts t seen with
  | zero => exact .pure _
  | succ nesting ih =>
    exact alike_resolveWith hl hr hrelated (fun _ _ _ => ih _ _ _) _ _ _

theorem alike_realPath (t : String) : Alike R E (env.realPath t) (env'.realPath t) := by
  unfold Environment.realPath
  apply (alike_resolve hl hr hrelated _ _ _ _).bind
  rintro ⟨_ | _, seen⟩ <;> exact .pure _

end

end RealPath

namespace World

variable {w : World} {p : Path} {loc : Location}

theorem keeps_realPath (hc : w.Calm) (t : String) : Keeps w.Still (environment.realPath t) := by
  have hread : ∀ t, Keeps w.Still (environment.readLink t) := by
    intro t w₁ hw₁
    change Ends (work t (looking fun files cwd => files.readLink cwd t)) w₁ _ _
    unfold Ends work looking
    by_cases hn : '\x00' ∈ t.toList
    · simpa [hn] using hw₁
    · cases h : w₁.files.readLink w₁.workingDirectory t <;> simpa [hn, h, Except.map] using hw₁
  exact keeps_iff_alike.2 (RealPath.alike_realPath
    (fun t => keeps_iff_alike.1 (keeps_looking hc .lstat t _)) (fun t => keeps_iff_alike.1 (hread t))
    id t)

/-- The real path of a path that leads to something is the path of the place it leads to. It fails
only for a null byte in the text of a place on the way. -/
theorem ends_realPath (hq : w.Quiet) (hp : p.Proper) (ha : p.isAbsolute = true)
    (hl : w.files.locate true p = .ok loc) (hthere : w.files.formAt? loc ≠ none)
    (hshort : w.files.ShowsLinks p) :
    Ends (environment.realPath p.text) w
      (fun t w' => w.Follows w' ∧ w'.files = w.files ∧ t = loc.path.text)
      (fun f _ => f = .nullByte ∧ ∃ l ∈ w.files.trail true p, '\x00' ∈ l.path.text.toList) := by
  obtain ⟨k, hk, hu⟩ := FileSystem.unwinds_of_locate hp ha hl hthere hshort
  have hresolve : RealPath.resolve environment RealPath.maxNesting [] p.text [] =
      RealPath.resolveWith environment (RealPath.resolve environment 999)
        (([] : Location).map Name.text) [] (pieceTexts p.text) := by
    rw [RealPath.maxNesting, RealPath.resolve, if_neg (Path.anchor_text_ne_here hp ha)]
    rfl
  unfold Environment.realPath
  rw [hresolve]
  have hlimit : FileSystem.linkLimit ≤ 999 := by decide
  apply Ends.bind (RealPath.ends_resolveWith hq hu
    (fun piece hm => RealPath.slash_notMem_of_mem_pieceTexts hm) (Nat.le_trans hk hlimit)
    (fun parts entry h => by cases h) (.refl w) rfl)
  rintro ⟨r, seen⟩ w' ⟨hw, hf, rfl, -⟩
  exact Ends.pure ⟨hw, hf, rfl⟩

end World

end TreeRemoval
