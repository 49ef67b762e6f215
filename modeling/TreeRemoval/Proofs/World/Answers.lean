import TreeRemoval.Proofs.World.Calls

/-! # What the calls answer

The questions about a path and the removal of a node, with nobody else at work: what an answer tells
of the files, and what may have failed if it tells nothing.
-/

namespace TreeRemoval

def Call.IsWait (c : Call) : Prop := c = .pause ∨ c = .collect

instance : DecidablePred Call.IsWait := fun _ => inferInstanceAs (Decidable (_ ∨ _))

namespace World

variable {w : World} {p : Path}

def MayBlind (w : World) (c : Call) (t : String) : Prop := ∃ moment f, w.Strikes moment c t f

def MayDeny (w : World) (t : String) : Prop :=
  ∃ moment c e, w.Strikes moment c t (.system e) ∧ e.errno.isMissing = true

/-- The faults that a file-system call on a text can end with, besides system errors: a text that no
call takes, and what an event raises. -/
def MayRaise (w : World) (t : String) : Fault → Prop
  | .system _ => True
  | .nullByte => '\x00' ∈ t.toList
  | f => ∃ moment c t', w.Strikes moment c t' f ∧ ¬ c.IsWait

theorem Strikes.ne_nullByte {moment : Moment} {c : Call} {t : String} {f : Fault}
    (h : w.Strikes moment c t f) : f ≠ .nullByte := by
  obtain ⟨e, -, -, d, -, rfl⟩ := h
  cases d <;> simp [Disruption.fault]

theorem Strikes.mayRaise {moment : Moment} {c : Call} {t : String} {f : Fault}
    (h : w.Strikes moment c t f) (hc : ¬ c.IsWait) : w.MayRaise t f := by
  cases f with
  | system e => trivial
  | nullByte => exact absurd rfl h.ne_nullByte
  | cancelled | interrupted => exact ⟨moment, c, t, h, hc⟩

theorem Cause.mayRaise {c : Call} {t : String} {refuses : Errno → Prop} {f : Fault}
    (h : Cause w c t refuses f) (hc : ¬ c.IsWait) : w.MayRaise t f := by
  cases h with
  | refused h => trivial
  | nullByte h => exact h
  | struck h => exact h.mayRaise hc

theorem MayRaise.awaited {t : String} {f : Fault} (h : w.MayRaise t f) :
    w.MayRaise t f.awaited := by
  cases f with
  | system e =>
    obtain ⟨e', he, -⟩ := Fault.awaited_system e
    rw [he]
    trivial
  | nullByte | cancelled | interrupted => exact h

/-- A question about a path. An answer yes was true at some moment, and so was an answer no, unless
the text holds a null byte or an event made the look fail. -/
theorem Obeys.ends_shows {R : FileSystem → FileSystem → Prop} (hc : w.Obeys R) {c : Call}
    {t : String} (look : FileSystem → String → Except Errno Status) (test : Status → Bool) :
    Ends (Environment.shows (call c t (looking look)) test) w
      (fun b w' => ∃ w₁, Becomes R w w₁ ∧ Becomes R w₁ w' ∧
        (b = true → '\x00' ∉ t.toList ∧
          ∃ status, look w₁.files w.workingDirectory = .ok status ∧ test status = true) ∧
        (b = false →
          (∀ status, look w₁.files w.workingDirectory = .ok status → test status = false) ∨
            '\x00' ∈ t.toList ∨ ∃ moment e, w.Strikes moment c t (.system e)))
      (fun f w' => ∃ w₁, Becomes R w w₁ ∧ Becomes R w₁ w' ∧
        f.isNegative = false ∧ ∃ moment, w.Strikes moment c t f) := by
  unfold Environment.shows
  refine Ends.bind_outcome (hc.ends_looking look) ?_ ?_
  · rintro status w' ⟨hnul, w₁, hw₁, hw', hl⟩
    refine Ends.pure ⟨w₁, hw₁, hw', fun ht => ⟨hnul, status, hl, ht⟩, fun ht => Or.inl ?_⟩
    intro status' hs
    rw [hl] at hs
    cases hs
    exact ht
  · rintro f w' ⟨w₁, hw₁, hw', hcause⟩
    dsimp only
    cases hn : f.isNegative with
    | false =>
      refine Ends.throw ⟨w₁, hw₁, hw', hn, ?_⟩
      cases hcause with
      | refused => cases hn
      | nullByte => cases hn
      | struck hs => exact ⟨_, hs⟩
    | true =>
      refine Ends.pure ⟨w₁, hw₁, hw', by simp, fun _ => ?_⟩
      cases hcause with
      | refused he =>
        refine Or.inl fun status hs => ?_
        rw [hs] at he
        cases he
      | nullByte ht => exact Or.inr (Or.inl ht)
      | @struck f moment hs =>
        cases f with
        | system e => exact Or.inr (Or.inr ⟨moment, e, hs⟩)
        | nullByte => exact absurd rfl hs.ne_nullByte
        | cancelled | interrupted => cases hn

/-- With nobody else at work, an answer yes is true; an answer no is true unless the text holds a
null byte or an event made the look fail. -/
theorem ends_shows (hc : w.Calm) {c : Call} {t : String}
    (look : FileSystem → String → Except Errno Status) (test : Status → Bool) :
    Ends (Environment.shows (call c t (looking look)) test) w
      (fun b w' => w.Follows w' ∧ w'.files = w.files ∧
        (b = true → '\x00' ∉ t.toList ∧
          ∃ status, look w.files w.workingDirectory = .ok status ∧ test status = true) ∧
        (b = false → (∀ status, look w.files w.workingDirectory = .ok status → test status = false) ∨
          '\x00' ∈ t.toList ∨ w.MayBlind c t))
      (fun f w' => w.Follows w' ∧ w'.files = w.files ∧ f.isNegative = false ∧
        ∃ moment, w.Strikes moment c t f) := by
  refine (hc.obeys.ends_shows look test).mono ?_ ?_
  · rintro b w' ⟨w₁, ⟨hf₁, hfiles₁⟩, ⟨hf', hsame⟩, hyes, hno⟩
    rw [hfiles₁] at hsame hyes hno
    refine ⟨hf₁.trans hf', hsame, hyes, fun hb => (hno hb).imp_right (Or.imp_right ?_)⟩
    rintro ⟨moment, e, hs⟩
    exact ⟨moment, _, hs⟩
  · rintro f w' ⟨w₁, ⟨hf₁, hfiles₁⟩, ⟨hf', hsame⟩, hn, hs⟩
    exact ⟨hf₁.trans hf', hsame.trans hfiles₁, hn, hs⟩

def LeadsToDirectory (fs : FileSystem) (p : Path) : Prop :=
  ∃ loc, fs.locate true p = .ok loc ∧ fs.formAt? loc = some .directory

def IsLinkAt (fs : FileSystem) (p : Path) : Prop :=
  ∃ loc target, fs.locate false p = .ok loc ∧ fs.formAt? loc = some (.link target)

section Told

variable {fs : FileSystem} (hp : p.Proper) (ha : p.isAbsolute = true) (workingDirectory : String)

include hp ha

theorem leadsToDirectory_iff_stat : LeadsToDirectory fs p ↔
    ∃ status, fs.stat workingDirectory p.text = .ok status ∧ status.kind = .directory := by
  simp only [FileSystem.stat_eq_ok_iff hp ha]
  constructor
  · rintro ⟨loc, hl, hd⟩
    obtain ⟨node, hg, hform⟩ := Option.map_eq_some_iff.1 hd
    exact ⟨node.status, ⟨loc, node, hl, hg, rfl⟩, Node.kind_eq_directory_iff.2 hform⟩
  · rintro ⟨_, ⟨loc, node, hl, hg, rfl⟩, hk⟩
    exact ⟨loc, hl, by rw [FileSystem.formAt?, hg, Option.map_some, Node.kind_eq_directory_iff.1 hk]⟩

theorem isLinkAt_iff_lstat : IsLinkAt fs p ↔
    ∃ status, fs.lstat workingDirectory p.text = .ok status ∧ status.kind = .link := by
  simp only [FileSystem.lstat_eq_ok_iff hp ha]
  constructor
  · rintro ⟨loc, target, hl, hd⟩
    obtain ⟨node, hg, hform⟩ := Option.map_eq_some_iff.1 hd
    exact ⟨node.status, ⟨loc, node, hl, hg, rfl⟩, Node.kind_eq_link_iff.2 ⟨target, hform⟩⟩
  · rintro ⟨_, ⟨loc, node, hl, hg, rfl⟩, hk⟩
    obtain ⟨target, hform⟩ := Node.kind_eq_link_iff.1 hk
    exact ⟨loc, target, hl, by rw [FileSystem.formAt?, hg, Option.map_some, hform]⟩

/-- The children of a directory by their names are what is in it. -/
theorem mem_children_of_list {names : List Name}
    (h : fs.list workingDirectory p.text = .ok names) :
    ∃ loc, fs.locate true p = .ok loc ∧ fs.formAt? loc = some .directory ∧
      ∀ c, c ∈ (names.mergeSort fun a b => a.text ≤ b.text).map p.child ↔
        ∃ n, fs.get? (loc ++ [n]) ≠ none ∧ c = p.child n := by
  obtain ⟨loc, m, es, hl, hg, rfl⟩ := (FileSystem.list_eq_ok_iff hp ha).1 h
  refine ⟨loc, hl, FileSystem.formAt?_eq_directory_iff.2 ⟨m, es, hg⟩, fun c => ?_⟩
  simp only [List.mem_map, List.mem_mergeSort]
  constructor
  · rintro ⟨n, hm, rfl⟩
    exact ⟨n, (FileSystem.mem_names_iff hg).1 (List.mem_map.2 hm), rfl⟩
  · rintro ⟨n, hm, rfl⟩
    exact ⟨n, List.mem_map.1 ((FileSystem.mem_names_iff hg).2 hm), rfl⟩

theorem not_leadsToDirectory_of_list {e : Errno} (h : fs.list workingDirectory p.text = .error e) :
    ¬ LeadsToDirectory fs p := by
  rintro ⟨loc, hl, hd⟩
  obtain ⟨m, es, hg⟩ := FileSystem.formAt?_eq_directory_iff.1 hd
  rw [(FileSystem.list_eq_ok_iff hp ha).2 ⟨loc, m, es, hl, hg, rfl⟩] at h
  cases h

end Told

theorem ends_isDirectory (hc : w.Calm) (hp : p.Proper) (ha : p.isAbsolute = true) :
    Ends (environment.isDirectory p.text) w
      (fun b w' => w.Follows w' ∧ w'.files = w.files ∧
        (b = true → '\x00' ∉ p.text.toList ∧ LeadsToDirectory w.files p) ∧
        (b = false → ¬ LeadsToDirectory w.files p ∨ '\x00' ∈ p.text.toList ∨
          w.MayBlind .stat p.text))
      (fun f w' => w.Follows w' ∧ w'.files = w.files ∧ f.isNegative = false ∧
        ∃ moment, w.Strikes moment .stat p.text f) := by
  refine (ends_shows hc (fun files cwd => files.stat cwd p.text) _).mono ?_ fun _ _ h => h
  rintro b w' ⟨hf, hfiles, hyes, hno⟩
  rw [leadsToDirectory_iff_stat hp ha w.workingDirectory]
  refine ⟨hf, hfiles, fun hb => ?_, fun hb => (hno hb).imp_left fun h => ?_⟩
  · obtain ⟨hn, status, hs, ht⟩ := hyes hb
    exact ⟨hn, status, hs, of_decide_eq_true ht⟩
  · rintro ⟨status, hs, hk⟩
    simpa [hk] using h status hs

theorem ends_isLink (hc : w.Calm) (hp : p.Proper) (ha : p.isAbsolute = true) :
    Ends (environment.isLink p.text) w
      (fun b w' => w.Follows w' ∧ w'.files = w.files ∧ (b = true → IsLinkAt w.files p) ∧
        (b = false → ¬ IsLinkAt w.files p ∨ '\x00' ∈ p.text.toList ∨ w.MayBlind .lstat p.text))
      (fun f w' => w.Follows w' ∧ w'.files = w.files ∧ f.isNegative = false ∧
        ∃ moment, w.Strikes moment .lstat p.text f) := by
  refine (ends_shows hc (fun files cwd => files.lstat cwd p.text) _).mono ?_ fun _ _ h => h
  rintro b w' ⟨hf, hfiles, hyes, hno⟩
  rw [isLinkAt_iff_lstat hp ha w.workingDirectory]
  refine ⟨hf, hfiles, fun hb => ?_, fun hb => (hno hb).imp_left fun h => ?_⟩
  · obtain ⟨-, status, hs, ht⟩ := hyes hb
    exact ⟨status, hs, of_decide_eq_true ht⟩
  · rintro ⟨status, hs, hk⟩
    simpa [hk] using h status hs

/-- A look at a path that finds nothing is right, or an event denied what is there. -/
theorem ends_look? (hc : w.Calm) (hp : p.Proper) (ha : p.isAbsolute = true) :
    Ends (environment.look? p.text) w
      (fun r w' => w.Follows w' ∧ w'.files = w.files ∧
        (∀ status, r = some status → '\x00' ∉ p.text.toList ∧
          ∃ loc node, w.files.locate false p = .ok loc ∧ w.files.get? loc = some node ∧
            node.status = status) ∧
        (r = none → w.files.Missing p ∨ w.MayDeny p.text))
      (fun f w' => w.Follows w' ∧ w'.files = w.files ∧
        (∀ e, f = .system e → e.errno.isMissing = false) ∧
        ∃ f', f = f'.awaited ∧ Cause w .lstat p.text
          (fun e => w.files.lstat w.workingDirectory p.text = .error e) f') := by
  unfold Environment.look?
  have hlstat := ends_looking (c := .lstat) (t := p.text) hc fun files cwd => files.lstat cwd p.text
  refine Ends.bind_outcome (Ends.awaited (E := fun f w' => w.Follows w' ∧ w'.files = w.files ∧
    ∃ f', f = f'.awaited ∧ Cause w .lstat p.text
      (fun e => w.files.lstat w.workingDirectory p.text = .error e) f')
    (hlstat.mono (fun _ _ h => h) fun f _ ⟨hf, hfiles, h⟩ => ⟨hf, hfiles, f, rfl, h⟩)) ?_ ?_
  · rintro status w' ⟨hf, hfiles, hn, hl⟩
    refine Ends.pure ⟨hf, hfiles, ?_, by simp⟩
    rintro _ ⟨⟩
    exact ⟨hn, (FileSystem.lstat_eq_ok_iff hp ha).1 hl⟩
  · rintro f w' ⟨hf, hfiles, h⟩
    cases f with
    | system e =>
      cases hm : e.errno.isMissing with
      | false =>
        simp only [hm]
        refine Ends.throw ⟨hf, hfiles, ?_, h⟩
        rintro _ ⟨⟩
        exact hm
      | true =>
        simp only [hm, if_true]
        refine Ends.pure ⟨hf, hfiles, by simp, fun _ => ?_⟩
        obtain ⟨f', he, hcause⟩ := h
        obtain ⟨e', rfl, hn⟩ := Fault.eq_system_of_awaited he.symm
        rw [← hn] at hm
        cases hcause with
        | refused hr =>
          exact Or.inl ((FileSystem.missing_iff_lstat hp ha w.workingDirectory).2 ⟨_, hm, hr⟩)
        | struck hs => exact Or.inr ⟨_, .lstat, e', hs, hm⟩
    | nullByte | cancelled | interrupted => exact Ends.throw ⟨hf, hfiles, nofun, h⟩

theorem Follows.mayRaise {w' : World} (h : w.Follows w') {t : String} {f : Fault}
    (hr : w'.MayRaise t f) : w.MayRaise t f := by
  cases f with
  | system | nullByte => exact hr
  | cancelled | interrupted =>
    obtain ⟨moment, c, t', hs, hc⟩ := hr
    exact ⟨moment, c, t', h.strikes hs, hc⟩

theorem Follows.mayDeny {w' : World} (h : w.Follows w') {t : String} (hd : w'.MayDeny t) :
    w.MayDeny t := by
  obtain ⟨moment, c, e, hs, he⟩ := hd
  exact ⟨moment, c, e, h.strikes hs, he⟩

theorem Follows.mayBlind {w' : World} (h : w.Follows w') {c : Call} {t : String}
    (hb : w'.MayBlind c t) : w.MayBlind c t := by
  obtain ⟨moment, f, hs⟩ := hb
  exact ⟨moment, f, h.strikes hs⟩

/-- A call that removes the node at a path. -/
theorem ends_removal (hc : w.Calm) {c : Call} (hwait : ¬ c.IsWait)
    {change : FileSystem → String → Option Float → Except Errno FileSystem}
    (hok : ∀ {fs}, change w.files w.workingDirectory w.changeTime = .ok fs →
      w.files.Removes w.changeTime p fs)
    (hno : change w.files w.workingDirectory w.changeTime = .error .enoent → w.files.Missing p) :
    Ends (call c p.text (changing change)) w
      (fun _ w' => w.Follows w' ∧ w.files.Removes w.changeTime p w'.files)
      (fun f w' => w.Follows w' ∧
        (w'.files = w.files ∨ w.files.Removes w.changeTime p w'.files) ∧ w.MayRaise p.text f ∧
        ∀ e, f = .system e → e.errno = .enoent → w.files.Missing p ∨ w.MayDeny p.text) := by
  have hstruck : ∀ {moment f}, w.Strikes moment c p.text f → w.MayRaise p.text f ∧
      ∀ e, f = .system e → e.errno = .enoent → w.files.Missing p ∨ w.MayDeny p.text := by
    intro moment f hs
    refine ⟨hs.mayRaise hwait, ?_⟩
    rintro e rfl he
    exact Or.inr ⟨moment, c, e, hs, by rw [he]; rfl⟩
  apply (ends_changing hc change).mono
  · rintro - w' ⟨hf, -, hr⟩
    exact ⟨hf, hok hr⟩
  · rintro f w' ⟨hf, ⟨hsame, hcause⟩ | ⟨hr, hs⟩⟩
    · refine ⟨hf, Or.inl hsame, ?_⟩
      cases hcause with
      | @refused errno hr =>
        refine ⟨trivial, ?_⟩
        rintro e ⟨⟩ (he : errno = .enoent)
        exact Or.inl (hno (he ▸ hr))
      | nullByte hn => exact ⟨hn, nofun⟩
      | struck hs => exact hstruck hs
    · exact ⟨hf, Or.inr (hok hr), hstruck hs⟩

/-- A removal leaves the files as they are or takes the node at the path away. It tells that it took
one away if it did; it tells that there was none if there was none, or if an event denied it. -/
theorem ends_removeNode (hc : w.Calm) (hp : p.Proper) (ha : p.isAbsolute = true) :
    Ends (environment.removeNode p.text) w
      (fun r w' => w.Follows w' ∧
        (w'.files = w.files ∨ w.files.Removes w.changeTime p w'.files) ∧
        (r = true → w.files.Removes w.changeTime p w'.files) ∧
        (r = false → w.files.Missing p ∨ w.MayDeny p.text))
      (fun f w' => w.Follows w' ∧
        (w'.files = w.files ∨ w.files.Removes w.changeTime p w'.files) ∧ w.MayRaise p.text f) := by
  unfold Environment.removeNode
  refine Ends.bind ((ends_look? hc hp ha).mono (fun _ _ h => h) ?_) ?_
  · rintro f w' ⟨hf, hfiles, -, f', rfl, hcause⟩
    exact ⟨hf, Or.inl hfiles, (hcause.mayRaise (by decide)).awaited⟩
  rintro (_ | status) w₁ ⟨hf, hfiles, -, h⟩
  · exact Ends.pure ⟨hf, Or.inl hfiles, fun he => (by cases he), fun _ => h rfl⟩
  have hcall : Ends (if status.kind = .directory then environment.rmdir p.text
        else environment.unlink p.text) w₁
      (fun _ w' => w₁.Follows w' ∧ w₁.files.Removes w₁.changeTime p w'.files)
      (fun f w' => w₁.Follows w' ∧
        (w'.files = w₁.files ∨ w₁.files.Removes w₁.changeTime p w'.files) ∧ w₁.MayRaise p.text f ∧
        ∀ e, f = .system e → e.errno = .enoent → w₁.files.Missing p ∨ w₁.MayDeny p.text) := by
    split
    · exact ends_removal (hf.calm hc) (by decide) (FileSystem.rmdir_removes hp ha)
        (FileSystem.missing_of_rmdir hp ha)
    · exact ends_removal (hf.calm hc) (by decide) (FileSystem.unlink_removes hp ha)
        (FileSystem.missing_of_unlink hp ha)
  rw [hfiles, hf.changeTime] at hcall
  refine Ends.bind_outcome (Ends.awaited (E := fun f w' => w.Follows w' ∧
    (w'.files = w.files ∨ w.files.Removes w.changeTime p w'.files) ∧ w.MayRaise p.text f ∧
    ∀ e, f = .system e → e.errno = .enoent → w.files.Missing p ∨ w.MayDeny p.text)
    (hcall.mono (fun _ _ h => h) ?_)) ?_ ?_
  · rintro f w' ⟨hf', hfiles', hm, hd⟩
    refine ⟨hf.trans hf', hfiles', (hf.mayRaise hm).awaited, fun e he hn => ?_⟩
    obtain ⟨e', rfl, he'⟩ := Fault.eq_system_of_awaited he
    exact (hd e' rfl (he'.trans hn)).imp_right hf.mayDeny
  · rintro - w' ⟨hf', hr⟩
    exact Ends.pure ⟨hf.trans hf', Or.inr hr, fun _ => hr, nofun⟩
  · rintro f w' ⟨hf', hfiles', hm, hd⟩
    cases f with
    | system e =>
      by_cases he : e.errno = .enoent
      · simp only [he, if_true]
        exact Ends.pure ⟨hf', hfiles', nofun, fun _ => hd e rfl he⟩
      · simp only [he, if_false]
        exact Ends.throw ⟨hf', hfiles', hm⟩
    | nullByte | cancelled | interrupted => exact Ends.throw ⟨hf', hfiles', hm⟩

/-- A listing gives the children that are there. -/
theorem ends_children (hc : w.Calm) (hp : p.Proper) (ha : p.isAbsolute = true) :
    Ends (environment.children p) w
      (fun children w' => w.Follows w' ∧ w'.files = w.files ∧ '\x00' ∉ p.text.toList ∧
        ∃ loc, w.files.locate true p = .ok loc ∧ w.files.formAt? loc = some .directory ∧
          ∀ c, c ∈ children ↔ ∃ n, w.files.get? (loc ++ [n]) ≠ none ∧ c = p.child n)
      (fun f w' => w.Follows w' ∧ w'.files = w.files ∧
        ∃ f', f = f'.awaited ∧ Cause w .list p.text
          (fun e => w.files.list w.workingDirectory p.text = .error e) f') := by
  unfold Environment.children
  apply Ends.bind (Q := fun names w' => w.Follows w' ∧ w'.files = w.files ∧
    '\x00' ∉ p.text.toList ∧ w.files.list w.workingDirectory p.text = .ok names)
  · refine Ends.awaited ((ends_looking hc fun files cwd => files.list cwd p.text).mono
      (fun _ _ h => h) ?_)
    rintro f w' ⟨hf, hfiles, hcause⟩
    exact ⟨hf, hfiles, f, rfl, hcause⟩
  · rintro names w' ⟨hf, hfiles, hn, hl⟩
    exact Ends.pure ⟨hf, hfiles, hn, mem_children_of_list hp ha w.workingDirectory hl⟩

theorem ends_pause (hc : w.Calm) :
    Ends environment.pause w (fun _ w' => w.Follows w' ∧ w'.files = w.files)
      (fun f w' => w.Follows w' ∧ w'.files = w.files ∧
        ∃ moment, w.Strikes moment .pause pauseText f) := by
  apply (ends_looking hc fun _ _ => .ok ()).mono (fun _ _ h => ⟨h.1, h.2.1⟩)
  rintro f w' ⟨hf, hfiles, hcause⟩
  refine ⟨hf, hfiles, ?_⟩
  cases hcause with
  | refused h => cases h
  | nullByte h => exact absurd h (by decide)
  | struck h => exact ⟨_, h⟩

theorem ends_collect (hc : w.Calm) :
    Ends environment.collect w (fun _ w' => w.Follows w' ∧ w'.files = w.files)
      (fun f w' => w.Follows w' ∧ w'.files = w.files ∧ ∃ moment, w.Strikes moment .collect "" f) := by
  apply (ends_looking hc fun _ _ => .ok ()).mono (fun _ _ h => ⟨h.1, h.2.1⟩)
  rintro f w' ⟨hf, hfiles, hcause⟩
  refine ⟨hf, hfiles, ?_⟩
  cases hcause with
  | refused h => cases h
  | nullByte h => exact absurd h (by decide)
  | struck h => exact ⟨_, h⟩

end World

end TreeRemoval
