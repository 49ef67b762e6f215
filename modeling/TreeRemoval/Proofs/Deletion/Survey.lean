import TreeRemoval.Proofs.World.Refusals

/-! # Surveys

What the walk of a tree comes to when events refuse listings and removals, told by recursion on the
tree: the nodes that are attempted, in post-order with siblings by name, and which of them stay. A
walk with a cap is cut behind the node whose failure fills the cap.
-/

namespace TreeRemoval

namespace Node

mutual

/-- The tree with the entries of all directories in the order of their names. -/
def sorted : Node → Node
  | directory m es => directory m ((sortedEach es).mergeSort fun a b => a.1.text ≤ b.1.text)
  | node => node

def sortedEach : List (Name × Node) → List (Name × Node)
  | [] => []
  | (name, node) :: rest => (name, node.sorted) :: sortedEach rest

end

variable {es : List (Name × Node)} {name : Name} {node : Node}

theorem sortedEach_eq_map (es : List (Name × Node)) :
    sortedEach es = es.map fun e => (e.1, e.2.sorted) := by
  induction es with
  | nil => rfl
  | cons e es ih =>
    obtain ⟨name, node⟩ := e
    rw [sortedEach, ih]
    rfl

def sortedEntries (es : List (Name × Node)) : List (Name × Node) :=
  (sortedEach es).mergeSort fun a b => a.1.text ≤ b.1.text

theorem sorted_directory (m : Float) (es : List (Name × Node)) :
    (directory m es).sorted = directory m (sortedEntries es) := rfl

theorem names_sortedEntries (es : List (Name × Node)) :
    (sortedEntries es).map (·.1) = (es.map (·.1)).mergeSort fun a b => a.text ≤ b.text := by
  have hsort := List.map_mergeSort (l := sortedEach es) (f := fun e => e.1)
    (r := fun a b => decide (a.1.text ≤ b.1.text)) (s := fun a b => decide (a.text ≤ b.text))
    fun _ _ _ _ => rfl
  rw [sortedEntries, hsort, sortedEach_eq_map, List.map_map]
  rfl

theorem nodup_sortedEntries (h : (es.map (·.1)).Nodup) : ((sortedEntries es).map (·.1)).Nodup := by
  rw [names_sortedEntries]
  exact (List.mergeSort_perm _ _).nodup_iff.2 h

theorem mem_sortedEntries_iff {e : Name × Node} :
    e ∈ sortedEntries es ↔ ∃ child, (e.1, child) ∈ es ∧ e.2 = child.sorted := by
  rw [sortedEntries, List.mem_mergeSort, sortedEach_eq_map, List.mem_map]
  constructor
  · rintro ⟨⟨name, child⟩, hm, rfl⟩
    exact ⟨child, hm, rfl⟩
  · rintro ⟨child, hm, he⟩
    exact ⟨_, hm, Prod.ext rfl he.symm⟩

theorem isEmpty_sortedEntries (es : List (Name × Node)) :
    (sortedEntries es).isEmpty = es.isEmpty := by
  rw [Bool.eq_iff_iff, List.isEmpty_iff_length_eq_zero, List.isEmpty_iff_length_eq_zero,
    sortedEntries, List.length_mergeSort, sortedEach_eq_map, List.length_map]

theorem sorted_of_not_directory (h : node.isDirectory = false) : node.sorted = node := by
  cases node <;> first | rfl | cases h

end Node

/-- Two tries of a call on a node, the second one only if the first one fails. A try fails if it is
refused, and always if something blocks the node. It tells whether the node stays. -/
def Event.attempt (c : Call) (t : String) (blocked : Bool) (events : List Event) :
    Bool × List Event :=
  let first := refuses c t events
  if first.1 || blocked then
    let second := refuses c t first.2
    (second.1 || blocked, second.2)
  else (false, first.2)

theorem Event.attempt_once {c : Call} {t : String} {events : List Event}
    (h : (refuses c t events).1 = false) :
    attempt c t false events = (false, (refuses c t events).2) := by
  unfold attempt
  simp [h]

theorem Event.attempt_twice {c : Call} {t : String} {blocked : Bool} {events : List Event}
    (h : ((refuses c t events).1 || blocked) = true) :
    attempt c t blocked events = ((refuses c t (refuses c t events).2).1 || blocked,
      (refuses c t (refuses c t events).2).2) :=
  if_pos h

theorem Event.attempt_blocked (c : Call) (t : String) (events : List Event) :
    (attempt c t true events).1 = true := by
  rw [attempt_twice (by simp)]
  simp

/-- A node that is attempted, by the names that lead to it, and whether it stays. -/
structure Visit where
  names : Location
  stays : Bool
  deriving DecidableEq

/-- What is attempted in a tree, whether the top of it stays, and the events afterwards. -/
structure Survey where
  visits : List Visit
  stays : Bool
  events : List Event

namespace Survey

/-- The survey of nothing but one attempt after others. -/
def attempt (root : Path) (names : Location) (c : Call) (below : List Visit) (blocked : Bool)
    (events : List Event) : Survey :=
  let tried := Event.attempt c (root.descend names).text blocked events
  ⟨below ++ [⟨names, tried.1⟩], tried.1, tried.2⟩

mutual

/-- The survey of a node at the end of some names. A directory whose listing is refused hides its
entries; it stays if it has any. A directory that is listed stays if an entry of it stays. -/
def ofNode (root : Path) (names : Location) : Node → List Event → Survey
  | .directory _ es, events =>
    let listing := Event.refuses .list (root.descend names).text events
    if listing.1 then attempt root names .rmdir [] (!es.isEmpty) listing.2
    else
      let below := ofEach root names es listing.2
      attempt root names .rmdir below.visits below.stays below.events
  | .file _, events | .other _, events | .link _ _, events =>
    attempt root names .unlink [] false events

/-- The survey of entries, one after the other. Something stays if one of them stays. -/
def ofEach (root : Path) (names : Location) : List (Name × Node) → List Event → Survey
  | [], events => ⟨[], false, events⟩
  | (name, node) :: rest, events =>
    let first := ofNode root (names ++ [name]) node events
    let others := ofEach root names rest first.events
    ⟨first.visits ++ others.visits, first.stays || others.stays, others.events⟩

end

end Survey

namespace Visit

variable {room : Nat} {vs vs' : List Visit} {v : Visit}

def failures (vs : List Visit) : Nat := vs.countP (·.stays)

/-- The nodes that are attempted until as many stay as there is room for. -/
def upTo : Nat → List Visit → List Visit
  | 0, _ => []
  | _ + 1, [] => []
  | room + 1, v :: rest => v :: upTo (if v.stays then room else room + 1) rest

def gone (place : Location) (vs : List Visit) : List Location :=
  (vs.filter (!·.stays)).map (place ++ ·.names)

def failed (root : Path) (vs : List Visit) : List String :=
  (vs.filter (·.stays)).map fun v => (root.descend v.names).normalize.text

@[simp] theorem failures_nil : failures [] = 0 := rfl

@[simp] theorem upTo_nil (room : Nat) : upTo room [] = [] := by
  cases room <;> rfl

theorem upTo_singleton (h : 0 < room) (v : Visit) : upTo room [v] = [v] := by
  cases room with
  | zero => omega
  | succ room => simp [upTo]

@[simp] theorem failures_append : failures (vs ++ vs') = failures vs + failures vs' :=
  List.countP_append

@[simp] theorem gone_append (place : Location) :
    gone place (vs ++ vs') = gone place vs ++ gone place vs' := by
  simp [gone]

@[simp] theorem failed_append (root : Path) :
    failed root (vs ++ vs') = failed root vs ++ failed root vs' := by
  simp [failed]

theorem length_failed (root : Path) : (failed root vs).length = failures vs := by
  rw [failed, List.length_map, failures, List.countP_eq_length_filter]

theorem mem_gone_iff {place names : Location} :
    place ++ names ∈ gone place vs ↔ ⟨names, false⟩ ∈ vs := by
  simp only [gone, List.mem_map, List.mem_filter, Bool.not_eq_true', List.append_cancel_left_eq]
  constructor
  · rintro ⟨⟨names', stays⟩, ⟨hv, hs⟩, he⟩
    obtain rfl : stays = false := hs
    obtain rfl : names' = names := he
    exact hv
  · intro hv
    exact ⟨_, ⟨hv, rfl⟩, rfl⟩

theorem upTo_append (room : Nat) (vs vs' : List Visit) :
    upTo room (vs ++ vs') = upTo room vs ++ upTo (room - failures vs) vs' := by
  induction vs generalizing room with
  | nil => simp
  | cons v vs ih =>
    cases room with
    | zero => simp [upTo]
    | succ room =>
      cases hs : v.stays <;> simp [upTo, failures, hs, ih]

theorem upTo_of_lt (h : failures vs < room) : upTo room vs = vs := by
  induction vs generalizing room with
  | nil => exact upTo_nil room
  | cons v vs ih =>
    cases room with
    | zero => omega
    | succ room =>
      cases hs : v.stays with
      | true =>
        have hc : failures (v :: vs) = failures vs + 1 := by simp [failures, hs]
        simp [upTo, hs, ih (show failures vs < room by omega)]
      | false =>
        have hc : failures (v :: vs) = failures vs := by simp [failures, hs]
        simp [upTo, hs, ih (show failures vs < room + 1 by omega)]

/-- The cut is within the first part if that fills the room, and behind it otherwise. -/
theorem upTo_append_of_le (h : room ≤ failures vs) (vs' : List Visit) :
    upTo room (vs ++ vs') = upTo room vs := by
  rw [upTo_append, Nat.sub_eq_zero_of_le h, upTo, List.append_nil]

theorem upTo_append_of_lt (h : failures vs < room) (vs' : List Visit) :
    upTo room (vs ++ vs') = vs ++ upTo (room - failures vs) vs' := by
  rw [upTo_append, upTo_of_lt h]

theorem failures_upTo (room : Nat) (vs : List Visit) :
    failures (upTo room vs) = min room (failures vs) := by
  induction vs generalizing room with
  | nil => simp
  | cons v vs ih =>
    cases room with
    | zero => simp [upTo, failures]
    | succ room =>
      unfold failures at ih ⊢
      cases hs : v.stays <;> simp [upTo, hs, ih]

theorem cap_le_iff {cap : Nat} (h : failures vs < cap) :
    cap ≤ failures (vs ++ upTo (cap - failures vs) vs') ↔ cap - failures vs ≤ failures vs' := by
  rw [failures_append, failures_upTo]
  omega

theorem isPrefix_upTo (room : Nat) (vs : List Visit) : upTo room vs <+: vs := by
  induction vs generalizing room with
  | nil => simp
  | cons v vs ih =>
    cases room with
    | zero => exact List.nil_prefix
    | succ room => exact List.cons_prefix_cons.2 ⟨rfl, ih _⟩

end Visit

namespace Survey

open Visit

variable {root : Path} {names : Location} {node : Node} {es : List (Name × Node)} {m : Float}
  {events : List Event} {v : Visit}

theorem ofNode_refused (h : (Event.refuses .list (root.descend names).text events).1 = true) :
    ofNode root names (.directory m es) events = attempt root names .rmdir [] (!es.isEmpty)
      (Event.refuses .list (root.descend names).text events).2 := by
  unfold ofNode
  exact if_pos h

theorem ofNode_listed (h : (Event.refuses .list (root.descend names).text events).1 = false)
    {below : Survey}
    (hb : below = ofEach root names es (Event.refuses .list (root.descend names).text events).2) :
    ofNode root names (.directory m es) events =
      attempt root names .rmdir below.visits below.stays below.events := by
  unfold ofNode
  rw [hb]
  exact if_neg (by simp [h])

theorem ofNode_leaf (h : node.isDirectory = false) :
    ofNode root names node events = attempt root names .unlink [] false events := by
  cases node <;> first | rfl | cases h

variable (root) in
mutual

/-- The top of a tree is attempted last; what comes before lies below it. -/
theorem visits_ofNode : ∀ (names : Location) (node : Node) (events : List Event), ∃ below,
    (ofNode root names node events).visits =
      below ++ [⟨names, (ofNode root names node events).stays⟩] ∧
    ∀ v ∈ below, ∃ n, names ++ [n] <+: v.names
  | names, .directory m es, events => by
    cases h : (Event.refuses .list (root.descend names).text events).1 with
    | true => exact ⟨[], by rw [ofNode_refused h]; rfl, by simp⟩
    | false =>
      refine ⟨_, by rw [ofNode_listed h rfl]; rfl, fun v hv => ?_⟩
      obtain ⟨e, -, he⟩ := prefix_of_mem_ofEach names es _ v hv
      exact ⟨e.1, he⟩
  | names, .file _, events | names, .other _, events | names, .link _ _, events =>
    ⟨[], rfl, by simp⟩

theorem prefix_of_mem_ofEach : ∀ (names : Location) (es : List (Name × Node))
    (events : List Event), ∀ v ∈ (ofEach root names es events).visits,
    ∃ e ∈ es, names ++ [e.1] <+: v.names
  | names, [], events, v, hv => by simp [ofEach] at hv
  | names, (name, node) :: rest, events, v, hv => by
    rcases List.mem_append.1 hv with hv | hv
    · obtain ⟨below, hvisits, hbelow⟩ := visits_ofNode (names ++ [name]) node events
      rw [hvisits] at hv
      refine ⟨(name, node), List.mem_cons_self, ?_⟩
      rcases List.mem_append.1 hv with hv | hv
      · obtain ⟨n, hn⟩ := hbelow v hv
        exact (List.prefix_append _ _).trans hn
      · obtain rfl := List.mem_singleton.1 hv
        exact List.prefix_rfl
    · obtain ⟨e, he, hprefix⟩ := prefix_of_mem_ofEach names rest _ v hv
      exact ⟨e, List.mem_cons_of_mem _ he, hprefix⟩

end

theorem prefix_of_mem_ofNode (hv : v ∈ (ofNode root names node events).visits) :
    names <+: v.names := by
  obtain ⟨below, hvisits, hbelow⟩ := visits_ofNode root names node events
  rw [hvisits] at hv
  rcases List.mem_append.1 hv with hv | hv
  · obtain ⟨n, hn⟩ := hbelow v hv
    exact (List.prefix_append _ _).trans hn
  · obtain rfl := List.mem_singleton.1 hv
    exact List.prefix_rfl

theorem mem_ofNode_iff :
    ⟨names, false⟩ ∈ (ofNode root names node events).visits ↔
      (ofNode root names node events).stays = false := by
  obtain ⟨below, hvisits, hbelow⟩ := visits_ofNode root names node events
  rw [hvisits, List.mem_append, List.mem_singleton]
  constructor
  · rintro (hv | hv)
    · obtain ⟨n, hn⟩ := hbelow _ hv
      have hlength := hn.length_le
      simp only [List.length_append, List.length_singleton] at hlength
      omega
    · exact (congrArg Visit.stays hv).symm
  · intro hs
    rw [hs]
    exact Or.inr rfl

theorem eq_of_prefix_concat {a b : Name} (h : names ++ [a] <+: names ++ [b]) : a = b := by
  have he := h.eq_of_length (by simp)
  exact (List.cons.inj (List.append_cancel_left he)).1

theorem stays_ofEach_iff (hnodup : (es.map (·.1)).Nodup) :
    (ofEach root names es events).stays = false ↔
      ∀ e ∈ es, ⟨names ++ [e.1], false⟩ ∈ (ofEach root names es events).visits := by
  induction es generalizing events with
  | nil => simp [ofEach]
  | cons e rest ih =>
    obtain ⟨name, node⟩ := e
    obtain ⟨hname, hrest⟩ := List.nodup_cons.1 hnodup
    -- An entry is attempted in its own part of the survey.
    have hown : ∀ {n : Name} {events}, n ≠ name →
        ⟨names ++ [n], false⟩ ∉ (ofNode root (names ++ [name]) node events).visits :=
      fun hn hv => hn (eq_of_prefix_concat (prefix_of_mem_ofNode hv)).symm
    have hothers : ∀ {events},
        ⟨names ++ [name], false⟩ ∉ (ofEach root names rest events).visits := by
      intro events hv
      obtain ⟨e, he, hp⟩ := prefix_of_mem_ofEach root names rest events _ hv
      exact hname (List.mem_map.2 ⟨e, he, eq_of_prefix_concat hp⟩)
    unfold ofEach
    simp only [Bool.or_eq_false_iff, List.forall_mem_cons, List.mem_append]
    rw [← mem_ofNode_iff, ih hrest]
    constructor
    · rintro ⟨hfirst, hall⟩
      exact ⟨Or.inl hfirst, fun e he => Or.inr (hall e he)⟩
    · rintro ⟨hfirst, hall⟩
      refine ⟨hfirst.resolve_right hothers, fun e he => (hall e he).resolve_left (hown ?_)⟩
      intro hn
      exact hname (List.mem_map.2 ⟨e, he, hn⟩)

theorem visits_attempt {c : Call} {below : List Visit} {blocked : Bool} :
    (attempt root names c below blocked events).visits =
      below ++ [⟨names, (attempt root names c below blocked events).stays⟩] := rfl

theorem blocked_of_stays {c : Call} {below : List Visit} {blocked : Bool}
    (h : (attempt root names c below blocked events).stays = false) : blocked = false := by
  cases blocked with
  | false => rfl
  | true => exact absurd h (by simp [attempt, Event.attempt_blocked])

theorem failures_attempt {c : Call} {below : List Visit} {blocked : Bool}
    (hb : failures below = 0) (hs : (attempt root names c below blocked events).stays = false) :
    failures (attempt root names c below blocked events).visits = 0 := by
  rw [visits_attempt, hs, failures_append, hb]
  rfl

mutual

theorem failures_ofNode : ∀ (names : Location) (node : Node) (events : List Event),
    (ofNode root names node events).stays = false →
    failures (ofNode root names node events).visits = 0
  | names, .directory m es, events, hs => by
    cases h : (Event.refuses .list (root.descend names).text events).1 with
    | true =>
      rw [ofNode_refused h] at hs ⊢
      exact failures_attempt rfl hs
    | false =>
      rw [ofNode_listed h rfl] at hs ⊢
      exact failures_attempt (failures_ofEach names es _ (blocked_of_stays hs)) hs
  | _, .file _, _, hs | _, .other _, _, hs | _, .link _ _, _, hs => failures_attempt rfl hs

theorem failures_ofEach : ∀ (names : Location) (es : List (Name × Node)) (events : List Event),
    (ofEach root names es events).stays = false →
    failures (ofEach root names es events).visits = 0
  | names, [], events, hs => rfl
  | names, (name, node) :: rest, events, hs => by
    obtain ⟨hfirst, hothers⟩ := Bool.or_eq_false_iff.1 hs
    have hsum : failures (ofEach root names ((name, node) :: rest) events).visits = _ :=
      failures_append
    rw [hsum, failures_ofNode _ _ _ hfirst, failures_ofEach _ _ _ hothers]

end

theorem top_notMem_upTo (h : failures (ofNode root names node events).visits ≠ 0) (room : Nat) :
    ⟨names, false⟩ ∉ upTo room (ofNode root names node events).visits := by
  intro hv
  have hs := mem_ofNode_iff.1 ((isPrefix_upTo room _).subset hv)
  exact h (failures_ofNode names node events hs)

variable (root) in
mutual

theorem ofNode_nil : ∀ (names : Location) (node : Node),
    (ofNode root names node []).stays = false ∧ (ofNode root names node []).events = []
  | names, .directory m es => by
    have hbelow := ofEach_nil names es
    generalize hb : ofEach root names es [] = below at hbelow
    rw [ofNode_listed rfl hb.symm, hbelow.1, hbelow.2]
    exact ⟨rfl, rfl⟩
  | names, .file _ | names, .other _ | names, .link _ _ => ⟨rfl, rfl⟩

theorem ofEach_nil : ∀ (names : Location) (es : List (Name × Node)),
    (ofEach root names es []).stays = false ∧ (ofEach root names es []).events = []
  | names, [] => ⟨rfl, rfl⟩
  | names, (name, node) :: rest => by
    obtain ⟨hfirst, hevents⟩ := ofNode_nil (names ++ [name]) node
    unfold ofEach
    dsimp only
    rw [hfirst, hevents]
    exact ofEach_nil names rest

end

end Survey

end TreeRemoval
