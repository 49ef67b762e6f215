import TreeRemoval.Proofs.FileSystem.Drift
import TreeRemoval.Proofs.World.Answers

/-! # Calls while files drift

When others work at a place and below it, a call still does its own work at some moment between its
start and its end. What it answers holds of that moment, and the files drift on from there.
-/

namespace TreeRemoval.World

variable {place : Location} {w w' w'' : World} {moment : Moment} {c : Call} {t : String} {p : Path}

/-- Others keep to a place, and there is a directory around it. -/
structure Contained (w : World) (place : Location) : Prop where
  edits : ∀ e ∈ w.events, ∀ edit ∈ e.edits, edit.KeepsTo place
  parent : ∃ top name, place = top ++ [name] ∧ w.files.formAt? top = some .directory

def Drifts (place : Location) (w w' : World) : Prop :=
  w.Follows w' ∧ w.files.Drifts place w'.files

theorem Drifts.refl (place : Location) (w : World) : Drifts place w w := ⟨.refl w, .refl place _⟩

theorem Drifts.trans (h : Drifts place w w') (h' : Drifts place w' w'') : Drifts place w w'' :=
  ⟨h.1.trans h'.1, h.2.trans h'.2⟩

theorem Drifts.contained (h : Drifts place w w') (hc : w.Contained place) : w'.Contained place := by
  obtain ⟨top, name, rfl, hd⟩ := hc.parent
  refine ⟨fun e he edit hm => ?_, top, name, rfl, ?_⟩
  · obtain ⟨e', he', hf⟩ := h.1.exists_fresh he
    have hsame : e'.fresh.edits = e.fresh.edits := by rw [hf]
    exact hc.edits e' he' edit (hsame ▸ hm)
  · rw [h.2.formAt?_parent, hd]

theorem Contained.parent_dropLast (hc : w.Contained place) :
    w.files.formAt? place.dropLast = some .directory := by
  obtain ⟨top, name, rfl, hd⟩ := hc.parent
  rwa [List.dropLast_concat]

theorem Contained.obeys (hc : w.Contained place) : w.Obeys (FileSystem.DriftsIn place) := by
  obtain ⟨top, name, rfl, -⟩ := hc.parent
  unfold FileSystem.DriftsIn
  rw [List.dropLast_concat]
  refine ⟨fun fs _ => .refl _ fs, fun h h' hd => ?_, fun e he edit hm fs hd => ?_⟩
  · exact (h hd).trans (h' ((h hd).formAt?_parent ▸ hd))
  · exact (hc.edits e he edit hm).drifts hd

theorem Contained.drifts (hc : w.Contained place)
    (hw : Becomes (FileSystem.DriftsIn place) w w') : Drifts place w w' :=
  ⟨hw.1, hw.2 hc.parent_dropLast⟩

theorem Contained.keeps_looking {α : Type} (hc : w.Contained place) (c : Call) (t : String)
    (look : FileSystem → String → Except Errno α) :
    Keeps (Drifts place w) (call c t (looking look)) := by
  intro w₁ hw₁
  have hc₁ := hw₁.contained hc
  refine (hc₁.obeys.ends_looking look).mono ?_ ?_
  · rintro a w' ⟨-, w₂, hw₂, hw', -⟩
    exact hw₁.trans (hc₁.drifts (hc₁.obeys.becomes_trans hw₂ hw'))
  · rintro f w' ⟨w₂, hw₂, hw', -⟩
    exact hw₁.trans (hc₁.drifts (hc₁.obeys.becomes_trans hw₂ hw'))

/-- A change keeps to the place if its own work does. -/
theorem Contained.keeps_changing (hc : w.Contained place) (c : Call) (t : String)
    {change : FileSystem → String → Option Float → Except Errno FileSystem}
    (hw : ∀ {w' fs}, Drifts place w w' →
      change w'.files w'.workingDirectory w'.changeTime = .ok fs → w'.files.Drifts place fs) :
    Keeps (Drifts place w) (call c t (changing change)) := by
  intro w₁ hw₁
  have hc₁ := hw₁.contained hc
  have hdone : ∀ {w₂ w' : World} {a : Unit} {fs : FileSystem},
      Becomes (FileSystem.DriftsIn place) w₁ w₂ → changing change w₂ = .ok (a, fs) →
        Becomes (FileSystem.DriftsIn place) { w₂ with files := fs } w' → Drifts place w w' := by
    intro w₂ w' a fs hw₂ h hw'
    obtain ⟨fs', hl, he⟩ := except_map_eq_ok_iff.1 h
    cases he
    have hdrifts₂ := hw₁.trans (hc₁.drifts hw₂)
    have hchanged : Drifts place w { w₂ with files := fs } :=
      hdrifts₂.trans ⟨⟨rfl, rfl, rfl⟩, hw hdrifts₂ hl⟩
    exact hchanged.trans ((hchanged.contained hc).drifts hw')
  refine (hc₁.obeys.ends_call _).mono ?_ ?_
  · rintro a w' ⟨-, w₂, fs, hw₂, h, hw'⟩
    exact hdone hw₂ h hw'
  · rintro f w' (⟨w₂, hw₂, hw', -⟩ | ⟨⟨w₂, a, fs, hw₂, h, hw'⟩, -⟩)
    · exact hw₁.trans (hc₁.drifts (hc₁.obeys.becomes_trans hw₂ hw'))
    · exact hdone hw₂ h hw'

/-- A question about a path, while files drift. -/
theorem Contained.ends_shows (hc : w.Contained place)
    (look : FileSystem → String → Except Errno Status) (test : Status → Bool) :
    Ends (Environment.shows (call c t (looking look)) test) w
      (fun b w' => ∃ w₁, Drifts place w w₁ ∧ Drifts place w₁ w' ∧
        (b = true → '\x00' ∉ t.toList ∧
          ∃ status, look w₁.files w.workingDirectory = .ok status ∧ test status = true) ∧
        (b = false →
          (∀ status, look w₁.files w.workingDirectory = .ok status → test status = false) ∨
            '\x00' ∈ t.toList ∨ ∃ moment e, w.Strikes moment c t (.system e)))
      (fun _ w' => Drifts place w w') := by
  refine (hc.obeys.ends_shows look test).mono ?_ ?_
  · rintro b w' ⟨w₁, hw₁, hw', h⟩
    exact ⟨w₁, hc.drifts hw₁, ((hc.drifts hw₁).contained hc).drifts hw', h⟩
  · rintro f w' ⟨w₁, hw₁, hw', -⟩
    exact hc.drifts (hc.obeys.becomes_trans hw₁ hw')

end TreeRemoval.World
