import TreeRemoval.Proofs.Deletion.Walk

/-! # Scans and reports with nobody else at work

Looking for new paths and making a report change no files. A scan is the one part of a deletion that
lets a system error through: that of a look at a path below the root.
-/

namespace TreeRemoval

open World Deletion

structure Session.Looks (s s' : Session World) : Prop extends s.Advances s' where
  same : s'.state.files = s.state.files

namespace Session.Looks

variable {s s' s'' : Session World}

theorem refl (s : Session World) : s.Looks s := ⟨.refl s, rfl⟩

theorem trans (h : s.Looks s') (h' : s'.Looks s'') : s.Looks s'' :=
  ⟨h.toAdvances.trans h'.toAdvances, h'.same.trans h.same⟩

theorem of_world (hw : s.state.Follows s'.state) (hf : s'.state.files = s.state.files)
    (hl : s'.log = s.log) : s.Looks s' := ⟨.of_world hw (le_of_eq hf) hl, hf⟩

end Session.Looks

namespace World

variable {w w' : World} {fs : FileSystem} {p : Path} {e : Errno}

def Refuses (w : World) (fs : FileSystem) (p : Path) (e : Errno) : Prop :=
  e.isMissing = false ∧
    ((∃ moment place, w.Strikes moment .lstat p.text (.system ⟨e, place⟩)) ∨
      fs.locate false p = .error e)

theorem Follows.refuses (h : w.Follows w') (hr : w'.Refuses fs p e) : w.Refuses fs p e := by
  obtain ⟨hm, ⟨moment, place, hs⟩ | hl⟩ := hr
  · exact ⟨hm, Or.inl ⟨moment, place, h.strikes hs⟩⟩
  · exact ⟨hm, Or.inr hl⟩

/-- A look shows the node that is there. One that fails was refused, or ended by a fault that is no
system error. A refusal names the path unless it is a timeout. -/
theorem ends_look?_refused (hc : w.Calm) (hp : p.Proper) (ha : p.isAbsolute = true) :
    Ends (environment.look? p.text) w
      (fun r w' => w.Follows w' ∧ w'.files = w.files ∧
        ∀ status, r = some status → ∃ loc node, w.files.locate false p = .ok loc ∧
          w.files.get? loc = some node ∧ node.status = status)
      (fun f w' => w.Follows w' ∧ w'.files = w.files ∧
        (w.Escapes p.text (.fault f) ∨ ∃ err, f = .system err ∧ w.Refuses w.files p err.errno ∧
          (err.errno ≠ .etimedout → err.path = some p.text))) := by
  apply (ends_look? hc hp ha).mono
    (fun _ _ h => ⟨h.1, h.2.1, fun status hr => (h.2.2.1 status hr).2⟩)
  rintro f w' ⟨hf, hfiles, hm, f', hawait, hcause⟩
  refine ⟨hf, hfiles, ?_⟩
  cases f with
  | nullByte | cancelled | interrupted =>
    exact Or.inl ((hawait ▸ (hcause.mayRaise (by decide)).awaited).escapes nofun)
  | system err =>
    refine Or.inr ⟨err, rfl, ⟨hm err rfl, ?_⟩, fun htimed => ?_⟩
    rotate_left
    · rw [Fault.eq_of_awaited hawait.symm htimed] at hcause
      exact hcause.path_eq
    obtain ⟨err', rfl, hn⟩ := Fault.eq_system_of_awaited hawait.symm
    obtain ⟨errno, place⟩ := err
    obtain rfl : err'.errno = errno := hn
    cases hcause with
    | struck hs => exact Or.inl ⟨_, _, hs⟩
    | refused hr =>
      rw [FileSystem.lstat, except_map_eq_error_iff, FileSystem.lookup_eq_error_iff hp ha] at hr
      rcases hr with hl | ⟨-, -, -, rfl⟩
      · exact Or.inr hl
      · cases hm _ rfl

end World

namespace Route

variable {w : World} {followSymlinks : Bool} {On : Nat → Path → Prop} {Keeps : FileSystem → Prop}
  {gc : Bool} {cap : Nat} {hcap : 0 < cap} {s s' s'' : Session World} {p : Path} {depth : Nat}
  {e : Failure} {startTime : Float} {top : String} {excluded : List String} {found : BoundedSet}

/-- Why a scan fails: it is refused a look at a path on its route, which the error names unless it
is a timeout, or no system error is at stake. -/
def ScanFails (w : World) (On : Nat → Path → Prop) (fs : FileSystem) (top : String)
    (excluded : List String) (e : Failure) : Prop :=
  (e = .tooDeep ∧ ∃ p, On 0 p) ∨ ∃ depth p, On depth p ∧
    (w.Escapes p.text e ∨ ∃ err, e = .fault (.system err) ∧ w.Refuses fs p err.errno ∧
      p.normalize.text ≠ top ∧ p.normalize.text ∉ excluded ∧
      (err.errno ≠ .etimedout → err.path = some p.text))

/-- A text that a scan takes for that of a new path: a path on its route, neither the root nor
excluded, whose node has a late time. -/
def Found (On : Nat → Path → Prop) (fs : FileSystem) (startTime : Float) (top : String)
    (excluded : List String) (t : String) : Prop :=
  ∃ depth p loc node, On depth p ∧ t = p.normalize.text ∧ t ≠ top ∧ t ∉ excluded ∧
    fs.locate false p = .ok loc ∧ fs.get? loc = some node ∧ node.modified ≥ startTime

variable (h : Route w followSymlinks On Keeps)

include h in
theorem ends_inspect (hc : w.Calm) (hw : w.Follows s.state) {fs : FileSystem}
    (hfs : s.state.files = fs) (ho : On depth p)
    (hfound : ∀ t ∈ found.items, Found On fs startTime top excluded t) :
    Ends ((deleter gc cap hcap).inspect startTime top excluded p found) s
      (fun r s' => s.Looks s' ∧ ∀ t ∈ r.2.items, Found On fs startTime top excluded t)
      (fun e s' => s.Looks s' ∧ ScanFails w On fs top excluded e) := by
  unfold Deleter.inspect
  apply Ends.bind (Q := fun place s' => place = p.normalize.text ∧ s.Looks s')
    (Deleter.ends_absolute (h.isAbsolute ho) ⟨rfl, .refl s⟩)
  rintro _ s₁ ⟨rfl, h₁⟩
  split
  · exact Ends.pure ⟨h₁, hfound⟩
  · rename_i hplace
    obtain ⟨htop, hexcluded⟩ := not_or.1 hplace
    apply Ends.bind (Q := fun r s' => s.Looks s' ∧ ∀ status, r = some status →
      ∃ loc node, fs.locate false p = .ok loc ∧ fs.get? loc = some node ∧ node.status = status)
    · refine (ends_perform_keep (ends_look?_refused (h₁.calm (hw.calm hc)) (h.proper ho)
        (h.isAbsolute ho))).mono ?_ ?_
      · rintro r s₂ ⟨⟨hf, hfiles, hseen⟩, hl, -⟩
        rw [h₁.same, hfs] at hseen
        exact ⟨h₁.trans (.of_world hf hfiles hl), hseen⟩
      · rintro _ s₂ ⟨f, rfl, ⟨hf, hfiles, hr⟩, hl, -⟩
        refine ⟨h₁.trans (.of_world hf hfiles hl), Or.inr ⟨depth, p, ho, ?_⟩⟩
        have hw₁ := hw.trans h₁.world
        rw [h₁.same, hfs] at hr
        rcases hr with he | ⟨err, rfl, he, hpath⟩
        · exact Or.inl (hw₁.escapes he)
        · exact Or.inr ⟨err, rfl, hw₁.refuses he, htop, hexcluded, hpath⟩
    · rintro (_ | status) s₂ ⟨h₂, hseen⟩
      · exact Ends.pure ⟨h₂, hfound⟩
      · refine Ends.pure ⟨h₂, ?_⟩
        dsimp only
        split
        · rename_i hlate
          obtain ⟨loc, node, hl, hn, rfl⟩ := hseen status rfl
          intro t ht
          rcases BoundedSet.mem_items_of_insert ht with ht | rfl
          · exact hfound t ht
          · exact ⟨depth, p, loc, node, ho, rfl, htop, hexcluded, hl, hn, hlate⟩
        · exact hfound

theorem ends_scanEach {scan : Path → BoundedSet → Deletion World BoundedSet} {children : List Path}
    {P : String → Prop} {E : Failure → Session World → Prop}
    (hv : ∀ c ∈ children, ∀ found s', s.Looks s' → (∀ t ∈ found.items, P t) →
      Ends (scan c found) s' (fun found' s'' => s.Looks s'' ∧ ∀ t ∈ found'.items, P t) E)
    (hs : s.Looks s') (hfound : ∀ t ∈ found.items, P t) :
    Ends (Deleter.scanEach scan children found) s'
      (fun found' s'' => s.Looks s'' ∧ ∀ t ∈ found'.items, P t) E := by
  induction children generalizing found s' with
  | nil => exact Ends.pure ⟨hs, hfound⟩
  | cons c rest ih =>
    unfold Deleter.scanEach
    split
    · exact Ends.pure ⟨hs, hfound⟩
    · refine Ends.bind (hv c List.mem_cons_self found s' hs hfound) ?_
      rintro found' s'' ⟨hs', hfound'⟩
      exact ih (fun c hc => hv c (List.mem_cons_of_mem _ hc)) hs' hfound'

include h in
theorem ends_scanBelow (hc : w.Calm) (hw : w.Follows s.state) {fs : FileSystem}
    (hfs : s.state.files = fs) (hk : Keeps fs) (ho : On depth p)
    (hfound : ∀ t ∈ found.items, Found On fs startTime top excluded t) :
    Ends ((deleter gc cap hcap).scanBelow followSymlinks startTime top excluded depth p found) s
      (fun found' s' => s.Looks s' ∧ ∀ t ∈ found'.items, Found On fs startTime top excluded t)
      (fun e s' => s.Looks s' ∧ ScanFails w On fs top excluded e) := by
  induction depth generalizing p s found with
  | zero => exact Ends.throw ⟨.refl s, Or.inl ⟨rfl, p, ho⟩⟩
  | succ depth ih =>
    have hbroken : ∀ {s₁ s₂ e}, s.Looks s₁ → Broken w On Keeps s₁ e s₂ →
        s₂.state.files = s₁.state.files →
        s.Looks s₂ ∧ ScanFails w On fs top excluded e := by
      intro s₁ s₂ e h₁ hb hfiles
      refine ⟨h₁.trans ⟨hb.toAdvances, hfiles⟩, hb.cause.imp_right ?_⟩
      rintro ⟨depth', q, hq, he⟩
      exact ⟨depth', q, hq, Or.inl he⟩
    unfold Deleter.scanBelow
    apply Ends.bind (h.ends_inspect hc hw hfs ho hfound)
    rintro ⟨_ | _, found₁⟩ s₁ ⟨h₁, hfound₁⟩
    · exact Ends.pure ⟨h₁, hfound₁⟩
    have hfs₁ := h₁.same.trans hfs
    apply Ends.seq (h.ends_opening hc (hw.trans h₁.world) (hfs₁ ▸ hk) ho)
      (fun e s₂ hb => hbroken h₁ hb.1 hb.2)
    rintro (_ | _) s₂ ⟨ha₂, hfiles₂, -, hopens⟩
    · exact Ends.pure ⟨h₁.trans ⟨ha₂, hfiles₂⟩, hfound₁⟩
    obtain ⟨place, hop⟩ := hopens rfl
    have h₂ := h₁.trans ⟨ha₂, hfiles₂⟩
    have hfs₂ := h₂.same.trans hfs
    rw [← hfiles₂] at hop
    apply Ends.seq (h.ends_listing hc (hw.trans h₂.world) (hfs₂ ▸ hk) ho hop)
      (fun e s₃ hb => hbroken h₂ hb.1 hb.2)
    rintro (_ | children) s₃ ⟨ha₃, hfiles₃, hon, -⟩
    · exact Ends.pure ⟨h₂.trans ⟨ha₃, hfiles₃⟩, hfound₁⟩
    have h₃ := h₂.trans ⟨ha₃, hfiles₃⟩
    refine ends_scanEach (fun c hcm found s' hs' hf' => ?_) h₃ hfound₁
    exact (ih (hw.trans hs'.world) (hs'.same.trans hfs) (hon children rfl c hcm) hf').mono
      (fun _ s'' h' => ⟨hs'.trans h'.1, h'.2⟩) fun e s'' h' => ⟨hs'.trans h'.1, h'.2⟩

end Route

end TreeRemoval
