import TreeRemoval.Proofs.Deletion.Efforts
import TreeRemoval.Proofs.Tracing

/-! # The order of attempts

Whatever the environment answers, a walk attempts distinct nodes in post-order, each with one try or
with two around a pause. The failure that fills its set of failures is the last thing that it does.
-/

namespace TreeRemoval

variable {σ : Type}

/-- What a session has done since another one are the acts of some efforts, one after the other: the
walk was broken off amid the last one at most. They are for distinct nodes, in post-order, not for a
root to be kept, and none follows the failure that fills the set. -/
structure Deleter.InOrder (d : Deleter σ) (root : Path) (includeRoot : Bool) (s s' : Session σ)
    (efforts : List Effort) : Prop where
  acts : s'.acts = s.acts ++ efforts.flatMap (Effort.acts root)
  settled : ∀ e ∈ efforts.dropLast, e.Settled
  told : ∀ e ∈ efforts, ∀ t ∈ e.booked, d.Names (fun _ => True) (root.descend e.names) t
  ordered : (efforts.map Effort.names).Pairwise Precedes
  distinct : (efforts.map fun e => root.descend e.names).Nodup
  kept : includeRoot = false → ∀ e ∈ efforts, e.names ≠ []
  stopped : ∀ front, front <+: efforts →
    (Effort.countAll (.start d.maxReported d.maxReported_pos) front).failed.isFull = true →
      front = efforts

/-- What a walk has made is in order. -/
theorem Deleter.Made.inOrder {d : Deleter σ} {root : Path} {includeRoot : Bool}
    {s s₁ s' : Session σ} {efforts : List Effort}
    (h : d.Made (fun _ => True) root (fun names => includeRoot = false → names ≠ [])
      (.start d.maxReported d.maxReported_pos) s efforts s₁)
    (hacts : s₁.acts = s'.acts) (hsettled : ∀ e ∈ efforts.dropLast, e.Settled) :
    d.InOrder root includeRoot s s' efforts where
  acts := hacts.symm.trans h.rests.acts
  settled := hsettled
  told := h.told
  ordered := h.ordered
  distinct := List.pairwise_map.2 <| (List.pairwise_map.1 h.ordered).imp
    fun hbefore he => hbefore.ne (root.descend_injective he)
  kept := fun hkept e he => h.on e he hkept
  stopped := fun _ => h.roomy.eq_of_full

/-- From its start to the end of its report, a walk makes its efforts in order, however it ends.
When it succeeds, its run is what they add up to. The removals and pauses that a trace of its calls
shows are those of its efforts. -/
theorem deleteBelow_inOrder (d : Deleter σ) (hd : d.environment.ListsOnce)
    (followSymlinks includeRoot : Bool) (root : Path) (s : Session σ) :
    Ends (d.deleteBelow followSymlinks root includeRoot) s
      (fun run s' => ∃ efforts, d.InOrder root includeRoot s s' efforts ∧
        run = Effort.countAll (.start d.maxReported d.maxReported_pos) efforts)
      (fun _ s' => ∃ efforts, d.InOrder root includeRoot s s' efforts) ∧
      d.ShowsActs followSymlinks root includeRoot s := by
  have hsaid : ∀ {s' efforts run}, d.Said (fun _ => True) root includeRoot s s' efforts run →
      d.InOrder root includeRoot s s' efforts := by
    rintro s' efforts run ⟨⟨s₁, hacts, hmade⟩, hsettled, -, -⟩
    exact hmade.inOrder hacts fun e he => hsettled e (List.dropLast_subset _ he)
  refine ⟨?_, d.showsActs_deleteBelow followSymlinks root includeRoot s⟩
  apply (Deleter.ends_deleteBelow_efforts (fun _ => d.attempting_anything _) hd followSymlinks
    includeRoot trivial).mono
  · rintro run s' ⟨efforts, h⟩
    exact ⟨efforts, hsaid h, h.run_eq⟩
  · rintro - s' (⟨efforts, ⟨s₁, hacts, hmade⟩, hsettled, -⟩ | ⟨efforts, run, h⟩)
    · exact ⟨efforts, hmade.inOrder hacts hsettled⟩
    · exact ⟨efforts, hsaid h⟩

/-- A file that cannot be removed in a directory that is visited before another file. -/
def World.barred : World :=
  .make [.leaf (.ofText "/w/a/x") .file 0, .leaf (.ofText "/w/b") .file 0] "/" none
    [{ call := .unlink, path := some "/w/a/x", disruption := some (.errno .eacces) }] (.ofList [])

theorem deleteBelow_inOrder_barred :
    World.environment.ListsOnce ∧
      Ends ((World.deleter false 1 Nat.one_pos).deleteBelow false (.ofText "/w") true)
        ⟨World.barred, [], []⟩
        (fun run s' => ∃ efforts,
          (World.deleter false 1 Nat.one_pos).InOrder (.ofText "/w") true ⟨World.barred, [], []⟩ s'
            efforts ∧ run = Effort.countAll (.start 1 Nat.one_pos) efforts)
        (fun _ s' => ∃ efforts,
          (World.deleter false 1 Nat.one_pos).InOrder (.ofText "/w") true ⟨World.barred, [], []⟩ s'
            efforts) ∧
      (World.deleter false 1 Nat.one_pos).ShowsActs false (.ofText "/w") true
        ⟨World.barred, [], []⟩ :=
  ⟨World.environment_listsOnce,
    deleteBelow_inOrder (World.deleter false 1 Nat.one_pos) World.environment_listsOnce false true
      (.ofText "/w") ⟨World.barred, [], []⟩⟩

end TreeRemoval
