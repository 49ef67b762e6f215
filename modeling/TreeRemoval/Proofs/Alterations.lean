import TreeRemoval.Proofs.Reports

/-! # Bounded sets and their histories

A bounded set is known from the calls made to it. Those that take effect are recorded: additions of
absent paths while there is room, and removals of present ones. A path is present if the last entry
about it is an addition, and the paths stand in the order of these additions.
-/

namespace TreeRemoval

inductive Alteration where
  | add (p : String)
  | erase (p : String)
  deriving DecidableEq, Repr

namespace Alteration

def path : Alteration → String
  | add p | erase p => p

/-- The paths that were added and have had no entry since, in the order of their additions. -/
def standing : List Alteration → List String
  | [] => []
  | add p :: later => if p ∈ later.map path then standing later else p :: standing later
  | erase _ :: later => standing later

def TakesEffect (cap : Nat) (record : List Alteration) : Alteration → Prop
  | add p => p ∉ standing record ∧ (standing record).length < cap
  | erase p => p ∈ standing record

instance (cap : Nat) (record : List Alteration) (call : Alteration) :
    Decidable (TakesEffect cap record call) :=
  match call with
  | add _ => inferInstanceAs (Decidable (_ ∧ _))
  | erase _ => inferInstanceAs (Decidable (_ ∈ _))

def enter (cap : Nat) (record : List Alteration) (call : Alteration) : List Alteration :=
  if TakesEffect cap record call then record ++ [call] else record

def effective (cap : Nat) (calls : List Alteration) : List Alteration :=
  calls.foldl (enter cap) []

variable {cap : Nat} {record : List Alteration} {p : String}

theorem standing_concat (record : List Alteration) (call : Alteration) :
    standing (record ++ [call]) =
      (standing record).filter (· ≠ call.path) ++ standing [call] := by
  -- Whether an addition stands is seen from what follows it, so the induction is on the old
  -- entries; the new one changes the answer for its path only if no old one did.
  induction record with
  | nil => rfl
  | cons entry record ih =>
    cases entry with
    | erase p => exact ih
    | add p =>
      have hmem : p ∈ (record ++ [call]).map path ↔ p ∈ record.map path ∨ p = call.path := by
        simp
      rw [List.cons_append, standing, standing, ih]
      by_cases hlater : p ∈ record.map path
      · rw [if_pos (hmem.2 (Or.inl hlater)), if_pos hlater]
      · rw [if_neg hlater]
        by_cases hcall : p = call.path
        · rw [if_pos (hmem.2 (Or.inr hcall)), List.filter_cons_of_neg (by simpa using hcall)]
        · rw [if_neg (mt hmem.1 (not_or.2 ⟨hlater, hcall⟩)),
            List.filter_cons_of_pos (by simpa using hcall), List.cons_append]

theorem mem_standing_singleton_iff {call : Alteration} : p ∈ standing [call] ↔ call = add p := by
  cases call <;> simp [standing, eq_comm]

theorem mem_standing_iff :
    p ∈ standing record ↔ (record.filter (·.path = p)).getLast? = some (add p) := by
  induction record using List.reverseRecOn with
  | nil => simp [standing]
  | append_singleton record call ih =>
    rw [standing_concat, List.mem_append, List.mem_filter, mem_standing_singleton_iff, ih]
    by_cases hp : call.path = p
    · simp [hp]
    · have hne : call ≠ add p := fun h => hp (h ▸ rfl)
      simp [hp, Ne.symm hp, hne]

theorem standing_enter_add :
    standing (enter cap record (add p)) =
      if p ∈ standing record ∨ cap ≤ (standing record).length then standing record
      else standing record ++ [p] := by
  by_cases h : p ∈ standing record ∨ cap ≤ (standing record).length
  · have hno : ¬ TakesEffect cap record (add p) := fun hn =>
      h.elim hn.1 (Nat.not_le.2 hn.2)
    rw [enter, if_neg hno, if_pos h]
  · obtain ⟨habsent, hroom⟩ := not_or.1 h
    have hyes : TakesEffect cap record (add p) := ⟨habsent, Nat.not_le.1 hroom⟩
    have hkeep : (standing record).filter (· ≠ p) = standing record :=
      List.filter_eq_self.2 fun q hq => by simpa using fun he : q = p => habsent (he ▸ hq)
    rw [enter, if_pos hyes, if_neg h, standing_concat]
    exact congrArg (· ++ [p]) hkeep

theorem standing_enter_erase (h : (standing record).Nodup) :
    standing (enter cap record (erase p)) = (standing record).erase p := by
  by_cases hp : TakesEffect cap record (erase p)
  · rw [enter, if_pos hp, standing_concat, h.erase_eq_filter]
    refine (List.append_nil _).trans (List.filter_congr fun q _ => ?_)
    by_cases hq : q = p <;> simp [path, hq]
  · rw [enter, if_neg hp, List.erase_of_not_mem hp]

end Alteration

namespace BoundedSet

open Alteration

def alter (s : BoundedSet) : Alteration → BoundedSet
  | .add p => (s.add p).2
  | .erase p => s.erase p

def alterAll (s : BoundedSet) (calls : List Alteration) : BoundedSet := calls.foldl alter s

variable {s : BoundedSet} {cap : Nat} {P : String → Prop} {record : List Alteration}

theorem Holds.erase (h : s.Holds cap P) (p : String) : (s.erase p).Holds cap P where
  capacity := h.capacity
  nodup := h.nodup.erase p
  length_le := Nat.le_trans List.length_erase_le h.length_le
  each t ht := h.each t (List.mem_of_mem_erase ht)

/-- A set of a capacity whose members are the standing paths of a record. -/
structure Follows (s : BoundedSet) (cap : Nat) (record : List Alteration) : Prop where
  holds : s.Holds cap fun _ => True
  items : s.items = standing record

namespace Follows

theorem alter (h : s.Follows cap record) (call : Alteration) :
    (s.alter call).Follows cap (enter cap record call) := by
  cases call with
  | add p =>
    refine ⟨h.holds.insert trivial, ?_⟩
    rw [standing_enter_add]
    refine (s.items_insert p).trans ?_
    simp only [s.isFull_iff, h.holds.capacity, h.items, or_comm]
  | erase p =>
    refine ⟨h.holds.erase p, ?_⟩
    rw [standing_enter_erase (h.items ▸ h.holds.nodup), ← h.items]
    rfl

theorem alterAll (h : 0 < cap) (calls : List Alteration) :
    ((empty cap h).alterAll calls).Follows cap (effective cap calls) := by
  induction calls using List.reverseRecOn with
  | nil => exact ⟨.empty h, rfl⟩
  | append_singleton calls call ih =>
    unfold BoundedSet.alterAll effective
    rw [List.foldl_append, List.foldl_append]
    exact ih.alter call

end Follows

theorem Holds.isFull_iff (h : s.Holds cap P) : s.isFull = true ↔ s.items.length = cap := by
  rw [s.isFull_iff, h.capacity]
  exact ⟨fun hle => Nat.le_antisymm h.length_le hle, fun he => Nat.le_of_eq he.symm⟩

/-- A bounded set answers as an ordered set with these members does. -/
structure BehavesAs (s : BoundedSet) (cap : Nat) (members : List String) : Prop where
  items : s.items = members
  nodup : members.Nodup
  length_le : members.length ≤ cap
  rejects : ∀ p, p ∉ (s.add p).2.items ↔ p ∉ members ∧ members.length = cap
  keeps : ∀ p ∈ members, (s.add p).2.items = members
  moves : ∀ p ∈ members, ((s.erase p).add p).2.items = members.erase p ++ [p]
  answers : ∀ p, (s.add p).1 = true ↔ (s.add p).2.items.length = cap
  size : s.size = members.length
  contains : ∀ p, s.contains p = true ↔ p ∈ members
  isEmpty : s.isEmpty = true ↔ members = []
  isFull : s.isFull = true ↔ members.length = cap

theorem Follows.behavesAs (h : s.Follows cap record) : s.BehavesAs cap (standing record) := by
  have hfull := h.holds.isFull_iff
  rw [← h.items]
  refine
    { items := rfl
      nodup := h.holds.nodup
      length_le := h.holds.length_le
      rejects := fun p => ?_
      keeps := fun p hp => ?_
      moves := fun p hp => ?_
      answers := fun p => (h.alter (.add p)).holds.isFull_iff
      size := rfl
      contains := fun p => List.contains_iff_mem
      isEmpty := List.isEmpty_iff
      isFull := hfull }
  · rw [add, items_insert]
    simp only [hfull]
    by_cases hp : p ∈ s.items <;> by_cases hcap : s.items.length = cap <;> simp [hp, hcap]
  · rw [add, items_insert, if_pos (Or.inr hp)]
  · have hroom : ¬ (s.erase p).isFull = true := by
      rw [(h.holds.erase p).isFull_iff, items_erase, List.length_erase_of_mem hp]
      have := h.holds.length_le
      have := List.length_pos_of_mem hp
      omega
    have habsent : p ∉ (s.erase p).items := h.holds.nodup.not_mem_erase
    rw [add, items_insert, if_neg (not_or.2 ⟨hroom, habsent⟩), items_erase]

/-- A bounded set with a positive capacity can be made, and after any calls it behaves as the
ordered set of the paths that stand in the record of the effective ones. -/
theorem alterAll_behavesAs (h : 0 < cap) :
    ∃ s, ofCapacity? cap = .ok s ∧
      ∀ calls, (s.alterAll calls).BehavesAs cap (standing (effective cap calls)) ∧
        ∀ p, p ∈ (s.alterAll calls).items ↔
          ((effective cap calls).filter (·.path = p)).getLast? = some (.add p) := by
  refine ⟨empty cap h, ?_, fun calls => ?_⟩
  · rw [ofCapacity?, dif_pos (by omega)]
    rfl
  · have hfollows := Follows.alterAll h calls
    refine ⟨hfollows.behavesAs, fun p => ?_⟩
    rw [hfollows.items, mem_standing_iff]

/-- The third path finds no room, the first one is erased and comes again, and the second one is
added where it is. -/
def crowding : List Alteration :=
  [.add "/w/a", .add "/w/b", .add "/w/c", .erase "/w/a", .erase "/w/c", .add "/w/a", .add "/w/b"]

theorem alterAll_behavesAs_crowding :
    0 < 2 ∧ ∃ s, ofCapacity? (2 : Nat) = .ok s ∧
      (s.alterAll crowding).BehavesAs 2 ["/w/b", "/w/a"] := by
  obtain ⟨s, hs, hbehaves⟩ := alterAll_behavesAs (show 0 < 2 by decide)
  have hmembers : standing (effective 2 crowding) = ["/w/b", "/w/a"] := by decide +kernel
  exact ⟨by decide, s, hs, hmembers ▸ (hbehaves crowding).1⟩

end BoundedSet

end TreeRemoval
