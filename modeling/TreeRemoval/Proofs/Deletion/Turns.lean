import TreeRemoval.Proofs.Deletion.Looking

/-! # Walks as loops

Walks and scans are recursions on a depth. As loops, they take paths off a stack one by one and push
the children of the directories among them, and nothing bounds the number of turns. Such a loop ends
all the same, whatever the environment does: a directory adds to the bytes of its children's texts,
and no text beyond the length limit leads to a directory.
-/

namespace TreeRemoval

/-- No text beyond the length limit leads to a directory. -/
def Environment.RefusesLong {σ : Type} (env : Environment σ) : Prop :=
  ∀ t : String, FileSystem.maxPathBytes < t.utf8ByteSize →
    ∀ s, Ends (env.isDirectory t) s (fun b _ => b = false) fun _ _ => True

/-! ### Stacks -/

section Turns

variable {σ ι α : Type}

/-- Takes items off a stack, at most so many, until the stack is empty or the result says to stop.
What a turn pushes comes before the rest. Without an answer, there was more to do. -/
def turns (turn : ι → α → Deletion σ (α × List ι)) (stops : α → Bool) :
    ℕ → List ι → α → Deletion σ (Option α)
  | _, [], a => return some a
  | 0, _ :: _, a => return if stops a then some a else none
  | n + 1, i :: rest, a => do
    if stops a then return some a
    else
      let (a, pushed) ← turn i a
      turns turn stops n (pushed ++ rest) a

variable {turn : ι → α → Deletion σ (α × List ι)} {stops : α → Bool}

theorem turns_nil (n : ℕ) (a : α) : turns turn stops n [] a = pure (some a) := by
  cases n <;> rfl

theorem turns_of_stops {a : α} (h : stops a = true) (n : ℕ) (stack : List ι) :
    turns turn stops n stack a = pure (some a) := by
  cases stack with
  | nil => exact turns_nil n a
  | cons i rest => cases n <;> simp [turns, h]

/-- From a state, the loop needs some number of turns for the items on top of its stack, and then
goes on with the rest as after the computation. -/
def Unstacks (turn : ι → α → Deletion σ (α × List ι)) (stops : α → Bool) (top : List ι)
    (m : Deletion σ α) (a : α) (s : Session σ) : Prop :=
  ∃ n, ∀ k rest,
    turns turn stops (n + k) (top ++ rest) a s = (m >>= turns turn stops k rest) s

namespace Unstacks

variable {top top' : List ι} {m : Deletion σ α} {i : ι} {a : α} {s : Session σ}

theorem nil : Unstacks turn stops [] (pure a) a s :=
  ⟨0, fun k rest => by rw [Nat.zero_add]; rfl⟩

theorem stop (h : stops a = true) : Unstacks turn stops top (pure a) a s := by
  refine ⟨0, fun k rest => ?_⟩
  rw [turns_of_stops h]
  change _ = turns turn stops k rest a s
  rw [turns_of_stops h]

theorem append {f : α → Deletion σ α} (h : Unstacks turn stops top m a s)
    (hf : ∀ a' s', m s = .ok a' s' → Unstacks turn stops top' (f a') a' s') :
    Unstacks turn stops (top ++ top') (m >>= f) a s := by
  obtain ⟨n, hn⟩ := h
  cases hm : m s with
  | error e s' =>
    refine ⟨n, fun k rest => ?_⟩
    rw [List.append_assoc, hn k (top' ++ rest), bind_of_error hm, bind_of_error (bind_of_error hm)]
  | ok a' s' =>
    obtain ⟨n', hn'⟩ := hf a' s' hm
    refine ⟨n + n', fun k rest => ?_⟩
    rw [List.append_assoc, Nat.add_assoc, hn (n' + k) (top' ++ rest), bind_of_ok hm, hn' k rest,
      bind_assoc, bind_of_ok hm]

/-- Amid a turn, the computation is to fail as the rest of the turn does, or to go on as one for
which the loop takes what the turn pushes off again. -/
def Amid (turn : ι → α → Deletion σ (α × List ι)) (stops : α → Bool)
    (t : Deletion σ (α × List ι)) (m : Deletion σ α) (s : Session σ) : Prop :=
  (∃ e s', t s = .error e s' ∧ m s = .error e s') ∨
    ∃ a pushed s' m', t s = .ok (a, pushed) s' ∧ m s = m' s' ∧ Unstacks turn stops pushed m' a s'

namespace Amid

variable {β : Type} {x : Deletion σ β} {pushed : List ι}

theorem pure (h : Unstacks turn stops pushed m a s) :
    Amid turn stops (pure (a, pushed)) m s :=
  .inr ⟨a, pushed, s, m, rfl, rfl, h⟩

theorem bind {t : β → Deletion σ (α × List ι)} {f : β → Deletion σ α}
    (h : ∀ b s', x s = .ok b s' → Amid turn stops (t b) (f b) s') :
    Amid turn stops (x >>= t) (x >>= f) s := by
  unfold Amid
  cases hx : x s with
  | error e s' => exact .inl ⟨e, s', bind_of_error hx, bind_of_error hx⟩
  | ok b s' =>
    rw [bind_of_ok hx, bind_of_ok hx]
    exact h b s' hx

theorem last : Amid turn stops (m >>= fun a => Pure.pure (a, [])) m s := by
  have h : Amid turn stops (m >>= fun a => Pure.pure (a, [])) (m >>= Pure.pure) s :=
    bind fun _ _ _ => pure .nil
  rwa [bind_pure] at h

end Amid

theorem of_turn (h : stops a = false) (ht : Amid turn stops (turn i a) m s) :
    Unstacks turn stops [i] m a s := by
  have hcons : ∀ k rest, turns turn stops (k + 1) (i :: rest) a =
      turn i a >>= fun r => turns turn stops k (r.2 ++ rest) r.1 := by
    intro k rest
    simp [turns, h]
  rcases ht with ⟨e, s', ht, hm⟩ | ⟨a', pushed, s', m', ht, hm, n, hn⟩
  · refine ⟨1, fun k rest => ?_⟩
    rw [Nat.add_comm, List.singleton_append, hcons, bind_of_error ht, bind_of_error hm]
  · refine ⟨n + 1, fun k rest => ?_⟩
    rw [Nat.add_right_comm, List.singleton_append, hcons, bind_of_ok ht, hn k rest]
    cases hm' : m' s' with
    | error e s'' => rw [bind_of_error hm', bind_of_error (hm.trans hm')]
    | ok b s'' => rw [bind_of_ok hm', bind_of_ok (hm.trans hm')]

theorem exists_turns (h : Unstacks turn stops top m a s) {β : Type} (f : α → β) :
    ∃ n, ∀ k, n ≤ k → ((·.map f) <$> turns turn stops k top a) s = (some <$> f <$> m) s := by
  obtain ⟨n, hn⟩ := h
  refine ⟨n, fun k hk => ?_⟩
  obtain ⟨k, rfl⟩ := Nat.exists_eq_add_of_le hk
  have hend : turns turn stops k [] = fun a => pure (some a) := funext (turns_nil k)
  have hall := hn k []
  rw [List.append_nil, hend] at hall
  rw [map_eq_pure_bind, bind_of_eq hall]
  simp only [map_eq_pure_bind, bind_assoc, pure_bind, Option.map_some]

end Unstacks

end Turns

namespace Deleter

open Deletion

variable {σ : Type} (d : Deleter σ) (followSymlinks : Bool) (root : Path) (includeRoot : Bool)
  (startTime : Float) (top : String) (excluded : List String)

/-! ### The loops -/

def enters (i : Path × Bool) : Deletion σ Bool :=
  if i.2 then return false else d.shouldFollow followSymlinks i.1

/-- One turn of the walk: a directory that is entered comes back after its children, with a mark
that they have been scheduled. The walk stops when its set of failures is full. -/
def walkTurn (i : Path × Bool) (a : Run × Bool) :
    Deletion σ ((Run × Bool) × List (Path × Bool)) := do
  if ← d.enters followSymlinks i then
    match ← d.listChildren i.1 with
    | none => return (a, [])
    | some children => return (a, children.map (·, false) ++ [(i.1, true)])
  else return (← d.leave root includeRoot i.1 a.1, [])

def walkWithin (n : ℕ) : Deletion σ (Option Run) := do
  let run : Run := { failed := .empty d.maxReported d.maxReported_pos }
  (·.map Prod.fst) <$>
    turns (d.walkTurn followSymlinks root includeRoot) (·.2) n [(root, false)] (run, false)

def scanTurn (p : Path) (found : BoundedSet) : Deletion σ (BoundedSet × List Path) := do
  match ← d.inspect startTime top excluded p found with
  | (false, found) => return (found, [])
  | (true, found) =>
    if ← d.shouldFollow followSymlinks p then
      match ← d.listChildren p with
      | none => return (found, [])
      | some children => return (found, children)
    else return (found, [])

def newPathsWithin (n : ℕ) : Deletion σ (Option (List String)) := do
  let top ← d.absolute root
  let found := BoundedSet.empty d.maxReported d.maxReported_pos
  (·.map BoundedSet.items) <$>
    turns (d.scanTurn followSymlinks startTime top excluded) (·.isFull) n [root] found

/-! ### What the loops do for one node -/

variable {d followSymlinks root includeRoot startTime top excluded}

theorem shouldFollow_of_deep (hd : d.environment.RefusesLong) {names : List Name}
    (hn : names.length + 1 = maxDepth) (s : Session σ) :
    Ends (d.shouldFollow followSymlinks (root.descend names)) s (fun b _ => b = false)
      fun _ _ => True := by
  have hlong : FileSystem.maxPathBytes < (root.descend names).text.utf8ByteSize := by
    have := Path.two_mul_length_le_utf8ByteSize_text root names
    simp only [maxDepth, FileSystem.maxPathBytes] at *
    omega
  unfold shouldFollow
  apply (ends_perform (Q := fun b _ => b = false) ((hd _ hlong s.state).mono
    (fun _ _ h => h) fun _ _ _ => trivial)).bind
  rintro _ s' rfl
  exact .pure rfl

theorem unstacks_visitEach {visit : Path → Run → Deletion σ (Run × Bool)} {paths : List Path}
    (h : ∀ p ∈ paths, ∀ run s, Unstacks (d.walkTurn followSymlinks root includeRoot) (·.2)
      [(p, false)] (visit p run) (run, false) s) (run : Run) (s : Session σ) :
    Unstacks (d.walkTurn followSymlinks root includeRoot) (·.2) (paths.map (·, false))
      (visitEach visit paths run) (run, false) s := by
  induction paths generalizing run s with
  | nil => exact .nil
  | cons p rest ih =>
    apply (h p List.mem_cons_self run s).append
    rintro ⟨run', _ | _⟩ s' -
    · exact ih (fun p' hp' => h p' (List.mem_cons_of_mem _ hp')) run' s'
    · exact .stop rfl

/-- The loop takes a node off as the recursion visits it, if it does so for the node's children. -/
theorem unstacks_node {depth : ℕ} {p : Path} (run : Run) {s : Session σ}
    (h : ∀ s', d.shouldFollow followSymlinks p s = .ok true s' → ∀ children s'',
      d.listChildren p s' = .ok (some children) s'' → ∀ c ∈ children, ∀ run s,
        Unstacks (d.walkTurn followSymlinks root includeRoot) (·.2) [(c, false)]
          (d.visit followSymlinks root includeRoot depth c run) (run, false) s) :
    Unstacks (d.walkTurn followSymlinks root includeRoot) (·.2) [(p, false)]
      (d.visit followSymlinks root includeRoot (depth + 1) p run) (run, false) s := by
  apply Unstacks.of_turn rfl
  apply Unstacks.Amid.bind
  rintro (_ | _) s' hf
  · exact .last
  apply Unstacks.Amid.bind
  rintro (_ | children) s'' hl
  · exact .pure .nil
  apply Unstacks.Amid.pure
  apply (unstacks_visitEach (h s' hf children s'' hl) run s'').append
  rintro ⟨run', _ | _⟩ s₃ -
  · exact .of_turn rfl (.last (m := d.leave root includeRoot p run'))
  · exact .stop rfl

theorem mem_children_of_listChildren {names : List Name} {children : List Path} {s s' : Session σ}
    (h : d.listChildren (root.descend names) s = .ok (some children) s') {c : Path}
    (hc : c ∈ children) : ∃ n, c = root.descend (names ++ [n]) := by
  obtain ⟨n, rfl⟩ := (d.ends_listChildren_child (root.descend names) s).ok h children rfl c hc
  exact ⟨n, (Path.descend_concat root names n).symm⟩

/-- The loop takes a node off as the recursion visits it. The names down to the node and the depth
left make up the bound on the depth, so that a node with no depth left for children has none. -/
theorem unstacks_visit (hd : d.environment.RefusesLong) {depth : ℕ} {names : List Name}
    (hn : names.length + depth + 1 = maxDepth) {p : Path} (hp : p = root.descend names) (run : Run)
    (s : Session σ) :
    Unstacks (d.walkTurn followSymlinks root includeRoot) (·.2) [(p, false)]
      (d.visit followSymlinks root includeRoot (depth + 1) p run) (run, false) s := by
  subst hp
  induction depth generalizing names run s with
  | zero =>
    apply unstacks_node
    intro s' hf
    cases (shouldFollow_of_deep hd hn s).ok hf
  | succ depth ih =>
    apply unstacks_node
    intro s' hf children s'' hl c hc run s
    obtain ⟨n, rfl⟩ := mem_children_of_listChildren hl hc
    apply ih
    rw [List.length_append, List.length_singleton]
    omega

/-! The scan has no mark, as it does not come back to a directory. -/

theorem unstacks_scanEach {scan : Path → BoundedSet → Deletion σ BoundedSet} {paths : List Path}
    (h : ∀ p ∈ paths, ∀ found : BoundedSet, found.isFull = false → ∀ s,
      Unstacks (d.scanTurn followSymlinks startTime top excluded) (·.isFull) [p] (scan p found)
        found s) (found : BoundedSet) (s : Session σ) :
    Unstacks (d.scanTurn followSymlinks startTime top excluded) (·.isFull) paths
      (scanEach scan paths found) found s := by
  induction paths generalizing found s with
  | nil => exact .nil
  | cons p rest ih =>
    unfold scanEach
    cases hfull : found.isFull with
    | true => exact .stop hfull
    | false =>
      apply (h p List.mem_cons_self found hfull s).append
      intro found' s' _
      exact ih (fun p' hp' => h p' (List.mem_cons_of_mem _ hp')) found' s'

theorem unstacks_scanNode {depth : ℕ} {p : Path} {found : BoundedSet}
    (hfound : found.isFull = false) {s : Session σ}
    (h : ∀ s₁ s', d.shouldFollow followSymlinks p s₁ = .ok true s' → ∀ children s'',
      d.listChildren p s' = .ok (some children) s'' → ∀ c ∈ children, ∀ found : BoundedSet,
        found.isFull = false → ∀ s,
          Unstacks (d.scanTurn followSymlinks startTime top excluded) (·.isFull) [c]
            (d.scanBelow followSymlinks startTime top excluded depth c found) found s) :
    Unstacks (d.scanTurn followSymlinks startTime top excluded) (·.isFull) [p]
      (d.scanBelow followSymlinks startTime top excluded (depth + 1) p found) found s := by
  apply Unstacks.of_turn hfound
  apply Unstacks.Amid.bind
  rintro ⟨_ | _, found'⟩ s₁ -
  · exact .pure .nil
  apply Unstacks.Amid.bind
  rintro (_ | _) s' hf
  · exact .pure .nil
  apply Unstacks.Amid.bind
  rintro (_ | children) s'' hl
  · exact .pure .nil
  · exact .pure (unstacks_scanEach (h s₁ s' hf children s'' hl) found' s'')

theorem unstacks_scanBelow (hd : d.environment.RefusesLong) {depth : ℕ} {names : List Name}
    (hn : names.length + depth + 1 = maxDepth) {p : Path} (hp : p = root.descend names)
    {found : BoundedSet} (hfound : found.isFull = false) (s : Session σ) :
    Unstacks (d.scanTurn followSymlinks startTime top excluded) (·.isFull) [p]
      (d.scanBelow followSymlinks startTime top excluded (depth + 1) p found) found s := by
  subst hp
  induction depth generalizing names found s with
  | zero =>
    apply unstacks_scanNode hfound
    intro s₁ s' hf
    cases (shouldFollow_of_deep hd hn s₁).ok hf
  | succ depth ih =>
    apply unstacks_scanNode hfound
    intro s₁ s' hf children s'' hl c hc found' hfound' s
    obtain ⟨n, rfl⟩ := mem_children_of_listChildren hl hc
    refine ih ?_ hfound' s
    rw [List.length_append, List.length_singleton]
    omega

/-! ### The loops end -/

theorem exists_walkWithin (hd : d.environment.RefusesLong) (s : Session σ) :
    ∃ n, ∀ k, n ≤ k → d.walkWithin followSymlinks root includeRoot k s =
      (some <$> d.walk followSymlinks root includeRoot) s := by
  have hdepth : ([] : List Name).length + FileSystem.maxPathBytes + 1 = maxDepth := rfl
  have hwalk : d.walk followSymlinks root includeRoot = Prod.fst <$>
      d.visit followSymlinks root includeRoot maxDepth root
        { failed := .empty d.maxReported d.maxReported_pos } := by
    rw [map_eq_pure_bind]
    rfl
  rw [hwalk]
  exact (unstacks_visit hd hdepth root.descend_nil.symm _ s).exists_turns Prod.fst

theorem exists_newPathsWithin (hd : d.environment.RefusesLong) (s : Session σ) :
    ∃ n, ∀ k, n ≤ k → d.newPathsWithin followSymlinks root startTime excluded k s =
      (some <$> d.newPaths followSymlinks startTime excluded root) s := by
  have hdepth : ([] : List Name).length + FileSystem.maxPathBytes + 1 = maxDepth := rfl
  have hempty : (BoundedSet.empty d.maxReported d.maxReported_pos).isFull = false :=
    decide_eq_false (Nat.not_le_of_lt d.maxReported_pos)
  have hpaths : some <$> d.newPaths followSymlinks startTime excluded root =
      d.absolute root >>= fun top => some <$> BoundedSet.items <$>
        d.scanBelow followSymlinks startTime top excluded maxDepth root
          (.empty d.maxReported d.maxReported_pos) := by
    simp only [newPaths, map_eq_pure_bind, bind_assoc]
  rw [hpaths]
  cases ht : d.absolute root s with
  | error e s' => exact ⟨0, fun k _ => (bind_of_error ht).trans (bind_of_error ht).symm⟩
  | ok top s' =>
    have hscan : Unstacks (d.scanTurn followSymlinks startTime top excluded) (·.isFull) [root]
        (d.scanBelow followSymlinks startTime top excluded maxDepth root
          (.empty d.maxReported d.maxReported_pos)) (.empty d.maxReported d.maxReported_pos) s' :=
      unstacks_scanBelow hd hdepth root.descend_nil.symm hempty s'
    obtain ⟨n, hn⟩ := hscan.exists_turns BoundedSet.items
    refine ⟨n, fun k hk => ?_⟩
    rw [bind_of_ok ht]
    exact (bind_of_ok ht).trans (hn k hk)

end Deleter

theorem World.environment_refusesLong : environment.RefusesLong := by
  intro t ht w
  have hanything : w.Obeys fun _ _ => True :=
    ⟨fun _ => trivial, fun _ _ => trivial, fun _ _ _ _ _ => trivial⟩
  have hstat (files : FileSystem) (cwd : String) : files.stat cwd t = .error .enametoolong := by
    have hne : t ≠ "" := by
      rintro rfl
      cases ht
    unfold FileSystem.stat FileSystem.lookup FileSystem.resolve
    rw [if_neg hne, if_pos ht]
    rfl
  apply (hanything.ends_shows (fun files cwd => files.stat cwd t) (·.kind = .directory)).mono
  · rintro (_ | _) w' ⟨w₁, -, -, hyes, -⟩
    · rfl
    · obtain ⟨-, status, hs, -⟩ := hyes rfl
      rw [hstat] at hs
      cases hs
  · exact fun _ _ _ => trivial

variable {σ : Type} {d : Deleter σ}

/-- Whatever the environment does, the loops of a deletion's walk and of its scan for new paths end
after some number of turns, as long as no text beyond the length limit leads to a directory. They
end as the recursions do, so that the bound on the depth is never what ends these. -/
theorem walk_and_scan_stop (hd : d.environment.RefusesLong) (followSymlinks includeRoot : Bool)
    (startTime : Float) (excluded : List String) (root : Path) (s : Session σ) :
    (∃ n, ∀ k, n ≤ k → d.walkWithin followSymlinks root includeRoot k s =
      (some <$> d.walk followSymlinks root includeRoot) s) ∧
    ∃ n, ∀ k, n ≤ k → d.newPathsWithin followSymlinks root startTime excluded k s =
      (some <$> d.newPaths followSymlinks startTime excluded root) s :=
  ⟨Deleter.exists_walkWithin hd s, Deleter.exists_newPathsWithin hd s⟩

/-- A directory with a link to itself. -/
def World.looping : World :=
  .make [.leaf (.ofText "/w/l") (.link "/w") 0] "/" none [] (.ofList [])

theorem walk_and_scan_stop_looping :
    World.environment.RefusesLong ∧
      (∃ n, ∀ k, n ≤ k →
        (World.deleter false 1 Nat.one_pos).walkWithin true (.ofText "/w") true k
            ⟨World.looping, [], []⟩ =
          (some <$> (World.deleter false 1 Nat.one_pos).walk true (.ofText "/w") true)
            ⟨World.looping, [], []⟩) ∧
      ∃ n, ∀ k, n ≤ k →
        (World.deleter false 1 Nat.one_pos).newPathsWithin true (.ofText "/w") 0 [] k
            ⟨World.looping, [], []⟩ =
          (some <$> (World.deleter false 1 Nat.one_pos).newPaths true 0 [] (.ofText "/w"))
            ⟨World.looping, [], []⟩ :=
  ⟨World.environment_refusesLong,
    walk_and_scan_stop World.environment_refusesLong true true 0 [] (.ofText "/w")
      ⟨World.looping, [], []⟩⟩

end TreeRemoval
