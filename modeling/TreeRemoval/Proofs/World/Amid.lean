import TreeRemoval.Proofs.World.Chronicle

/-! # What the calls answer amid others

The questions about a path, its removal and its listing, with others at work but no faults. An
answer holds of the files at a moment of the call, and a refusal is one by the files at such a
moment.
-/

namespace TreeRemoval.Chronicle

open World

variable {others : Interference} {R : FileSystem → FileSystem → Prop} {c c' : Chronicle World}
  {p : Path}

def Takes (R : FileSystem → FileSystem → Prop) (p : Path) (c c' : Chronicle World) : Prop :=
  ∃ c₁ time, Goes R [] c c₁ ∧ c₁.state.files.Removes time p c'.state.files ∧
    Goes (fun _ _ => True) [] c₁ c'

/-- The file system refuses to look at a path or to remove what a look has shown there before. -/
def Balks (p : Path) (c c' : Chronicle World) (e : Errno) : Prop :=
  e.isMissing = false ∧ c'.state.files.lstat c.state.workingDirectory p.text = .error e ∨
    ∃ status, c.state.files.lstat c.state.workingDirectory p.text = .ok status ∧ e ≠ .enoent ∧
      (if status.kind = .directory then
          c'.state.files.rmdir c.state.workingDirectory c.state.changeTime p.text
        else c'.state.files.unlink c.state.workingDirectory c.state.changeTime p.text) = .error e

/-- Waiting changes the path that an error names at most. -/
theorem ends_awaited {α : Type} {m : EStateM Fault (Chronicle World) α} {t : String} {N : Prop}
    {Q : α → Chronicle World → Prop} {G : Chronicle World → Prop}
    {P : Errno → Chronicle World → Prop}
    (h : Ends m c Q fun f c' => G c' ∧ (f = .nullByte ∧ N ∨
      ∃ e, f = .system ⟨e, some t⟩ ∧ P e c')) :
    Ends (awaited m) c Q fun f c' => G c' ∧ (f = .nullByte ∧ N ∨
      ∃ e, f = .system e ∧ P e.errno c') := by
  refine Ends.awaited (h.mono (fun _ _ h => h) ?_)
  rintro f c' ⟨hg, ⟨rfl, hn⟩ | ⟨e, rfl, he⟩⟩
  · exact ⟨hg, Or.inl ⟨rfl, hn⟩⟩
  · obtain ⟨e', hf, he'⟩ := Fault.awaited_system ⟨e, some t⟩
    exact ⟨hg, Or.inr ⟨e', hf, he' ▸ he⟩⟩

section

variable (ho : others.Obeys R) (hq : c.state.Quiet)

include ho hq

/-- A question about a path never fails. It is answered by what is there, or its text is one that no
call takes. -/
theorem ends_shows (kind : Call) (hk : kind ≠ .list) (t : String)
    (look : FileSystem → String → Except Errno Status) (test : Status → Bool) :
    Ends (Environment.shows (call others.steps kind t (World.call kind t (looking look))) test) c
      (fun b c' => Goes R [] c c' ∧ c'.Told t ∧
        (b = true → '\x00' ∉ t.toList ∧
          ∃ status, look c'.state.files c.state.workingDirectory = .ok status ∧ test status = true) ∧
        (b = false → '\x00' ∈ t.toList ∨
          ∀ status, look c'.state.files c.state.workingDirectory = .ok status → test status = false))
      fun _ _ => False := by
  have hlisted : ∀ w, listed ⟨some ⟨kind, t, none⟩, w⟩ = none := by
    intro w
    cases kind <;> first | rfl | exact absurd rfl hk
  unfold Environment.shows
  refine Ends.bind_outcome (ends_looking ho hq kind t look) ?_ ?_
  · rintro status c' ⟨hg, htells, hn, hl⟩
    rw [hlisted] at hg
    refine Ends.pure ⟨hg, htells.told, fun ht => ⟨hn, status, hl, ht⟩, fun ht => Or.inr ?_⟩
    intro status' hl'
    rw [hl] at hl'
    cases hl'
    exact ht
  · rintro f c' ⟨hg, htells, ⟨rfl, hn⟩ | ⟨e, rfl, he⟩⟩
    · exact Ends.pure ⟨hg, htells.told, by simp, fun _ => Or.inl hn⟩
    · refine Ends.pure ⟨hg, htells.told, by simp, fun _ => Or.inr fun status hl => ?_⟩
      rw [he] at hl
      cases hl

variable (hp : p.Proper) (ha : p.isAbsolute = true)

include hp ha

theorem ends_isDirectory :
    Ends ((amid others).isDirectory p.text) c
      (fun b c' => Goes R [] c c' ∧ c'.Told p.text ∧
        (b = true → '\x00' ∉ p.text.toList ∧ LeadsToDirectory c'.state.files p) ∧
        (b = false → '\x00' ∈ p.text.toList ∨ ¬ LeadsToDirectory c'.state.files p))
      fun _ _ => False := by
  refine (ends_shows ho hq .stat nofun p.text (fun files cwd => files.stat cwd p.text) _).mono ?_
    fun _ _ h => h
  rintro b c' ⟨hg, hs, hyes, hno⟩
  rw [leadsToDirectory_iff_stat hp ha c.state.workingDirectory]
  refine ⟨hg, hs, fun hb => ?_, fun hb => (hno hb).imp_right fun h => ?_⟩
  · obtain ⟨hn, status, hl, ht⟩ := hyes hb
    exact ⟨hn, status, hl, of_decide_eq_true ht⟩
  · rintro ⟨status, hl, hk⟩
    simpa [hk] using h status hl

theorem ends_isLink :
    Ends ((amid others).isLink p.text) c
      (fun b c' => Goes R [] c c' ∧ c'.Told p.text ∧
        (b = true → IsLinkAt c'.state.files p) ∧
        (b = false → '\x00' ∈ p.text.toList ∨ ¬ IsLinkAt c'.state.files p))
      fun _ _ => False := by
  refine (ends_shows ho hq .lstat nofun p.text (fun files cwd => files.lstat cwd p.text) _).mono ?_
    fun _ _ h => h
  rintro b c' ⟨hg, hs, hyes, hno⟩
  rw [isLinkAt_iff_lstat hp ha c.state.workingDirectory]
  refine ⟨hg, hs, fun hb => ?_, fun hb => (hno hb).imp_right fun h => ?_⟩
  · obtain ⟨-, status, hl, ht⟩ := hyes hb
    exact ⟨status, hl, of_decide_eq_true ht⟩
  · rintro ⟨status, hl, hk⟩
    simpa [hk] using h status hl

theorem ends_look? :
    Ends ((amid others).look? p.text) c
      (fun r c' => Goes R [] c c' ∧ c'.Told p.text ∧
        (∀ status, r = some status →
          c'.state.files.lstat c.state.workingDirectory p.text = .ok status) ∧
        (r = none → c'.state.files.Missing p))
      (fun f c' => Goes R [] c c' ∧ c'.Told p.text ∧
        (f = .nullByte ∧ '\x00' ∈ p.text.toList ∨
          ∃ e, f = .system e ∧ e.errno.isMissing = false ∧
            c'.state.files.lstat c.state.workingDirectory p.text = .error e.errno)) := by
  unfold Environment.look?
  have hlstat : Ends ((amid others).lstat p.text) c _ fun f c' => (Goes R [] c c' ∧ c'.Told p.text) ∧
      (f = .nullByte ∧ '\x00' ∈ p.text.toList ∨ ∃ e, f = .system ⟨e, some p.text⟩ ∧
        c'.state.files.lstat c.state.workingDirectory p.text = .error e) :=
    (ends_looking ho hq .lstat p.text fun files cwd => files.lstat cwd p.text).mono
      (fun _ _ h => h) fun _ _ h => ⟨⟨h.1, h.2.1.told⟩, h.2.2⟩
  refine Ends.bind_outcome (ends_awaited hlstat) ?_ ?_
  · rintro status c' ⟨hg, htells, -, hl⟩
    refine Ends.pure ⟨hg, htells.told, ?_, by simp⟩
    rintro _ ⟨⟩
    exact hl
  · rintro f c' ⟨⟨hg, hs⟩, ⟨rfl, hn⟩ | ⟨e, rfl, he⟩⟩
    · exact Ends.throw ⟨hg, hs, Or.inl ⟨rfl, hn⟩⟩
    dsimp only
    cases hm : e.errno.isMissing with
    | true =>
      refine Ends.pure ⟨hg, hs, by simp, fun _ => ?_⟩
      exact (FileSystem.missing_iff_lstat hp ha c.state.workingDirectory).2 ⟨_, hm, he⟩
    | false => exact Ends.throw ⟨hg, hs, Or.inr ⟨e, rfl, hm, he⟩⟩

omit hq ha hp in
theorem takes_after {c₁ : Chronicle World} (h : Goes R [] c c₁) (h' : Takes R p c₁ c') :
    Takes R p c c' := by
  obtain ⟨c₂, time, hg, hr⟩ := h'
  exact ⟨c₂, time, goes_trans ho h hg, hr⟩

omit hp ha in
/-- A call that removes the node at a path. -/
theorem ends_removal (kind : Call) (hk : kind ≠ .list)
    (change : FileSystem → String → Option Float → Except Errno FileSystem)
    (hremoves : ∀ {fs fs' : FileSystem} {cwd : String} {time : Option Float},
      change fs cwd time = .ok fs' → fs.Removes time p fs') :
    Ends (call others.steps kind p.text (World.call kind p.text (changing change))) c
      (fun _ c' => c'.Told p.text ∧ Takes R p c c')
      (fun f c' => (Goes R [] c c' ∧ c'.Told p.text) ∧
        (f = .nullByte ∧ '\x00' ∈ p.text.toList ∨
          ∃ e, f = .system ⟨e, some p.text⟩ ∧
            change c'.state.files c.state.workingDirectory c.state.changeTime = .error e)) := by
  refine (ends_changing ho hq kind hk p.text change).mono ?_ ?_
  · rintro - c' ⟨c₁, hg, hlast, htells, hr⟩
    exact ⟨htells.told, c₁, _, hg, hremoves hr, hlast⟩
  · rintro f c' ⟨hg, htells, h⟩
    exact ⟨⟨hg, htells.told⟩, h⟩

/-- A removal takes the node at the path away, or finds none there, or is refused. -/
theorem ends_removeNode :
    Ends ((amid others).removeNode p.text) c
      (fun r c' => c'.Told p.text ∧
        (r = true → Takes R p c c') ∧
        (r = false → Goes R [] c c' ∧ c'.state.files.Missing p))
      (fun f c' => Goes R [] c c' ∧ c'.Told p.text ∧
        (f = .nullByte ∧ '\x00' ∈ p.text.toList ∨
          ∃ e c₁, f = .system e ∧ Goes R [] c c₁ ∧ Goes R [] c₁ c' ∧ Balks p c₁ c' e.errno)) := by
  unfold Environment.removeNode
  refine Ends.seq (ends_look? ho hq hp ha) ?_ ?_
  · rintro f c₁ ⟨hg, hs, ⟨rfl, hn⟩ | ⟨e, rfl, hm, he⟩⟩
    · exact ⟨hg, hs, Or.inl ⟨rfl, hn⟩⟩
    · refine ⟨hg, hs, Or.inr ⟨e, c₁, rfl, hg, goes_refl ho c₁, Or.inl ⟨hm, ?_⟩⟩⟩
      rw [hg.world.workingDirectory]
      exact he
  rintro (_ | status) c₁ ⟨hg, hs, hlook, hnone⟩
  · exact Ends.pure ⟨hs, by simp, fun _ => ⟨hg, hnone rfl⟩⟩
  have hl := hlook status rfl
  rw [← hg.world.workingDirectory] at hl
  have hq₁ := hg.world.quiet hq
  have hcall : Ends (if status.kind = .directory then (amid others).rmdir p.text
        else (amid others).unlink p.text) c₁
      (fun _ c' => c'.Told p.text ∧ Takes R p c₁ c')
      (fun f c' => (Goes R [] c₁ c' ∧ c'.Told p.text) ∧
        (f = .nullByte ∧ '\x00' ∈ p.text.toList ∨
          ∃ e, f = .system ⟨e, some p.text⟩ ∧
            (if status.kind = .directory then
                c'.state.files.rmdir c₁.state.workingDirectory c₁.state.changeTime p.text
              else c'.state.files.unlink c₁.state.workingDirectory c₁.state.changeTime p.text) =
              .error e)) := by
    by_cases hk : status.kind = .directory
    · simp only [if_pos hk]
      exact ends_removal ho hq₁ .rmdir nofun (fun files cwd time => files.rmdir cwd time p.text)
        (FileSystem.rmdir_removes hp ha)
    · simp only [if_neg hk]
      exact ends_removal ho hq₁ .unlink nofun (fun files cwd time => files.unlink cwd time p.text)
        (FileSystem.unlink_removes hp ha)
  refine Ends.bind_outcome (ends_awaited hcall) ?_ ?_
  · rintro - c₂ ⟨hs₂, h⟩
    exact Ends.pure ⟨hs₂, fun _ => takes_after ho hg h, by simp⟩
  · rintro f c₂ ⟨⟨hg₂, hs₂⟩, ⟨rfl, hn⟩ | ⟨e, rfl, he⟩⟩
    · exact Ends.throw ⟨goes_trans ho hg hg₂, hs₂, Or.inl ⟨rfl, hn⟩⟩
    dsimp only
    -- Somebody else took the node after the look.
    by_cases hen : e.errno = .enoent
    · rw [if_pos hen]
      rw [hen] at he
      refine Ends.pure ⟨hs₂, by simp, fun _ => ⟨goes_trans ho hg hg₂, ?_⟩⟩
      split at he
      · exact FileSystem.missing_of_rmdir hp ha he
      · exact FileSystem.missing_of_unlink hp ha he
    · rw [if_neg hen]
      exact Ends.throw ⟨goes_trans ho hg hg₂, hs₂, Or.inr ⟨e, c₁, rfl, hg, hg₂,
        Or.inr ⟨status, hl, hen, he⟩⟩⟩

/-- A listing gives the children that are there, or it is refused. -/
theorem ends_children :
    Ends ((amid others).children p) c
      (fun children c' => Goes R [p.text] c c' ∧ ∃ loc, c'.state.files.locate true p = .ok loc ∧
        c'.state.files.formAt? loc = some .directory ∧
        ∀ child, child ∈ children ↔ ∃ n, c'.state.files.get? (loc ++ [n]) ≠ none ∧ child = p.child n)
      (fun f c' => Goes R [] c c' ∧ c'.Told p.text ∧
        (f = .nullByte ∧ '\x00' ∈ p.text.toList ∨
          ∃ e e', f = .system e' ∧ e'.errno = e ∧
            c'.Tells ⟨.list, p.text, some (.system ⟨e, some p.text⟩)⟩ ∧
            c'.state.files.list c.state.workingDirectory p.text = .error e)) := by
  unfold Environment.children
  refine Ends.bind (Q := fun names c' => Goes R [p.text] c c' ∧
    c'.state.files.list c.state.workingDirectory p.text = .ok names)
    (Ends.awaited ((ends_looking ho hq .list p.text
      fun files cwd => files.list cwd p.text).mono ?_ ?_)) ?_
  · rintro names c' ⟨hg, -, -, hl⟩
    exact ⟨hg, hl⟩
  · rintro f c' ⟨hg, htells, ⟨rfl, hn⟩ | ⟨e, rfl, he⟩⟩
    · exact ⟨hg, htells.told, Or.inl ⟨rfl, hn⟩⟩
    · obtain ⟨e', hf, he'⟩ := Fault.awaited_system ⟨e, some p.text⟩
      exact ⟨hg, htells.told, Or.inr ⟨e, e', hf, he', htells, he⟩⟩
  · rintro names c' ⟨hg, hl⟩
    exact Ends.pure ⟨hg, mem_children_of_list hp ha _ hl⟩

end

theorem ends_pause (ho : others.Obeys R) (hq : c.state.Quiet) :
    Ends (amid others).pause c (fun _ c' => Goes R [] c c') fun _ _ => False := by
  refine (ends_looking ho hq .pause pauseText fun _ _ => .ok ()).mono (fun _ _ h => h.1) ?_
  rintro f c' ⟨-, -, ⟨rfl, hn⟩ | ⟨e, rfl, he⟩⟩
  · exact absurd hn (by decide)
  · cases he

theorem ends_collect (ho : others.Obeys R) (hq : c.state.Quiet) :
    Ends (amid others).collect c (fun _ c' => Goes R [] c c') fun _ _ => False := by
  refine (ends_looking ho hq .collect "" fun _ _ => .ok ()).mono (fun _ _ h => h.1) ?_
  rintro f c' ⟨-, -, ⟨rfl, hn⟩ | ⟨e, rfl, he⟩⟩
  · exact absurd hn (by decide)
  · cases he

end TreeRemoval.Chronicle
