import Mathlib.Data.List.Induction
import TreeRemoval.Log.Registry
import TreeRemoval.Proofs.Expressible

/-! # Setting loggers up

Calls for setup may come in any order and any number. Those that name a level are granted, and
leave a logger with one stream, that of the first of them, and with the level of the last. A logger
without streams above it writes a record from its level on once, if the record has a line.
-/

namespace TreeRemoval.Log

namespace Level

variable {t : String} {level : Level}

theorem ofText?_eq_none_iff : ofText? t = none ↔ Text.toUpper t ∉ names := by
  simp [ofText?, names, List.find?_eq_none]

theorem name_mem_names (level : Level) : level.name ∈ names :=
  List.mem_map_of_mem (by cases level <;> decide)

theorem name_of_ofText? (h : ofText? t = some level) : level.name = Text.toUpper t := by
  simpa using List.find?_some h

end Level

namespace LoggerName

/-- The root is above all others, and a name above those that go on after it with a dot. -/
def IsAbove : LoggerName → LoggerName → Prop
  | _, root => False
  | root, named _ => True
  | named above, named name => above ≠ "" ∧ ∃ rest, name = above ++ "." ++ rest

theorem isAbove_named_iff {above name : String} :
    (named above).IsAbove (named name) ↔ above ≠ "" ∧ (above ++ ".").toList <+: name.toList := by
  refine and_congr_right fun _ => ⟨?_, ?_⟩
  · rintro ⟨rest, rfl⟩
    exact ⟨rest.toList, by simp⟩
  · rintro ⟨rest, hrest⟩
    exact ⟨String.ofList rest, String.toList_injective (by simpa using hrest.symm)⟩

instance : (above name : LoggerName) → Decidable (above.IsAbove name)
  | _, root => .isFalse id
  | root, named _ => .isTrue trivial
  | named _, named _ => decidable_of_iff _ isAbove_named_iff.symm

end LoggerName

structure Setup where
  name : String
  level : String
  stream : Stream
  deriving DecidableEq, Repr

namespace Setup

/-- The call is about this logger and names a level, in any case. -/
def Grants (name : LoggerName) (call : Setup) : Prop :=
  LoggerName.ofText call.name = name ∧ Text.toUpper call.level ∈ Level.names

instance (name : LoggerName) (call : Setup) : Decidable (call.Grants name) :=
  inferInstanceAs (Decidable (_ ∧ _))

def granted (name : LoggerName) (calls : List Setup) : List Setup :=
  calls.filter fun call => call.Grants name

variable {name : LoggerName} {calls : List Setup} {call : Setup}

theorem granted_concat (h : call.Grants name) :
    granted name (calls ++ [call]) = granted name calls ++ [call] := by
  simp [granted, h]

theorem granted_concat_of_not (h : ¬ call.Grants name) :
    granted name (calls ++ [call]) = granted name calls := by
  simp [granted, h]

/-- What a logger's granted calls leave: one entry with the stream of the first and the level of the
last, or nothing if there are none. -/
inductive Leaves (name : LoggerName) : List Setup → List Logger → Prop
  | nothing : Leaves name [] []
  | logger {calls : List Setup} {first last : Setup} {level : Level}
    (hfirst : calls.head? = some first) (hlast : calls.getLast? = some last)
    (hlevel : level.name = Text.toUpper last.level) :
    Leaves name calls [⟨name, level, first.stream⟩]

/-- A logger's entries after a granted call: what is there keeps its stream. -/
def renewed (name : LoggerName) (level : Level) (stream : Stream) : List Logger → List Logger
  | [] => [⟨name, level, stream⟩]
  | logger :: _ => [{ logger with threshold := level }]

namespace Leaves

variable {entries : List Logger} {level : Level}

theorem length_le (h : Leaves name calls entries) : entries.length ≤ 1 := by
  cases h <;> simp

theorem concat (h : Leaves name calls entries) (hlevel : level.name = Text.toUpper call.level) :
    Leaves name (calls ++ [call]) (renewed name level call.stream entries) := by
  cases h with
  | nothing => exact .logger rfl rfl hlevel
  | logger hfirst _ _ => exact .logger (by simp [hfirst]) (by simp) hlevel

end Leaves

end Setup

namespace Registry

open Setup (granted renewed Leaves)

def answer (r : Registry) (call : Setup) : Except UnknownLevel (Logger × Registry) :=
  r.setUp (.ofText call.name) call.level call.stream

def after (r : Registry) (call : Setup) : Registry :=
  match r.answer call with
  | .ok (_, r') => r'
  | .error _ => r

def ofCalls (calls : List Setup) : Registry := calls.foldl after empty

def entries (r : Registry) (name : LoggerName) : List Logger := r.loggers.filter (·.name = name)

variable {r : Registry} {name : LoggerName} {call : Setup} {calls : List Setup} {level : Level}
  {logger : Logger}

theorem find?_eq : r.find? name = (r.entries name).head? := List.head?_filter.symm

theorem find?_of_nil (h : r.entries name = []) : r.find? name = none := by
  rw [find?_eq, h, List.head?_nil]

theorem find?_of_singleton (h : r.entries name = [logger]) : r.find? name = some logger := by
  rw [find?_eq, h, List.head?_cons]

theorem answer_eq_error_iff :
    (∃ e, r.answer call = .error e) ↔ Text.toUpper call.level ∉ Level.names := by
  rw [← Level.ofText?_eq_none_iff, answer, setUp]
  cases Level.ofText? call.level with
  | none => simp
  | some level => cases r.find? (.ofText call.name) <;> simp

theorem after_of_refused (h : Text.toUpper call.level ∉ Level.names) : r.after call = r := by
  obtain ⟨e, he⟩ := answer_eq_error_iff.2 h
  rw [after, he]

theorem name_of_mem_entries (h : logger ∈ r.entries name) : logger.name = name := by
  simpa using (List.mem_filter.1 h).2

theorem entries_eq_nil_of_isAbove {above : LoggerName}
    (hall : ∀ l ∈ r.loggers, ¬ l.name.IsAbove name) (h : above.IsAbove name) :
    r.entries above = [] :=
  List.filter_eq_nil_iff.2 fun l hl hname => hall l hl (of_decide_eq_true hname ▸ h)

theorem name_of_singleton (h : r.entries name = [logger]) : logger.name = name :=
  name_of_mem_entries (h ▸ List.mem_singleton_self logger)

theorem entries_append (l : Logger) :
    entries ⟨r.loggers ++ [l]⟩ name = r.entries name ++ if l.name = name then [l] else [] := by
  by_cases h : l.name = name <;> simp [entries, h]

theorem entries_map {f : Logger → Logger} (hf : ∀ l, (f l).name = l.name) :
    entries ⟨r.loggers.map f⟩ name = (r.entries name).map f := by
  simp [entries, List.filter_map, Function.comp_def, hf]

def relevel (logger : Logger) (level : Level) (l : Logger) : Logger :=
  if l.name = logger.name then { logger with threshold := level } else l

theorem name_relevel (l : Logger) : (relevel logger level l).name = l.name := by
  unfold relevel
  split
  next h => exact h.symm
  next => rfl

theorem after_of_nil (hlevel : Level.ofText? call.level = some level)
    (h : r.entries (.ofText call.name) = []) :
    r.after call = ⟨r.loggers ++ [⟨.ofText call.name, level, call.stream⟩]⟩ := by
  rw [after, answer, setUp, hlevel, find?_of_nil h]

theorem after_of_singleton (hlevel : Level.ofText? call.level = some level)
    (h : r.entries (.ofText call.name) = [logger]) :
    r.after call = ⟨r.loggers.map (relevel logger level)⟩ := by
  rw [after, answer, setUp, hlevel, find?_of_singleton h, ← name_of_singleton h]
  rfl

/-- A granted call renews the entry of its logger and leaves all others alone. Several entries of
its logger would all turn into the first. -/
theorem entries_after (hlevel : Level.ofText? call.level = some level)
    (hone : (r.entries (.ofText call.name)).length ≤ 1) (name : LoggerName) :
    (r.after call).entries name =
      if .ofText call.name = name then renewed name level call.stream (r.entries name)
      else r.entries name := by
  cases h : r.entries (.ofText call.name) with
  | nil =>
    rw [after_of_nil hlevel h, entries_append]
    split
    next hn => rw [← hn, h]; rfl
    next => exact List.append_nil _
  | cons logger rest =>
    obtain rfl : rest = [] := by simpa [h] using hone
    rw [after_of_singleton hlevel h, entries_map name_relevel]
    split
    next hn => rw [← hn, h]; simp [relevel, renewed]
    next hn =>
      refine (List.map_congr_left fun l hl => if_neg fun he => hn ?_).trans (List.map_id _)
      rw [← name_of_singleton h, ← he, name_of_mem_entries hl]

theorem ofCalls_concat (calls : List Setup) (call : Setup) :
    ofCalls (calls ++ [call]) = (ofCalls calls).after call :=
  List.foldl_append

/-- One more call keeps what the calls leave of every logger. The premise is about all names, as the
call need not be about the logger in question. -/
theorem leaves_after (h : ∀ name, Leaves name (granted name calls) (r.entries name))
    (call : Setup) (name : LoggerName) :
    Leaves name (granted name (calls ++ [call])) ((r.after call).entries name) := by
  cases hlevel : Level.ofText? call.level with
  | none =>
    have hunknown := Level.ofText?_eq_none_iff.1 hlevel
    rw [after_of_refused hunknown, Setup.granted_concat_of_not fun hg => hunknown hg.2]
    exact h name
  | some level =>
    have hname := Level.name_of_ofText? hlevel
    rw [entries_after hlevel (h _).length_le]
    split
    next hn =>
      have hg : call.Grants name := ⟨hn, hname ▸ level.name_mem_names⟩
      rw [Setup.granted_concat hg]
      exact (h name).concat hname
    next hn =>
      rw [Setup.granted_concat_of_not fun hg => hn hg.1]
      exact h name

theorem leaves_ofCalls (calls : List Setup) (name : LoggerName) :
    Leaves name (granted name calls) ((ofCalls calls).entries name) := by
  induction calls using List.reverseRecOn generalizing name with
  | nil => exact .nothing
  | append_singleton calls call ih =>
    rw [ofCalls_concat]
    exact leaves_after ih call name

/-! ### Writing -/

/-- What is found going up from a name stands before one of its dots. The rest of the name, as far
as it has been gone through, can be any. -/
theorem isAbove_of_mem_above {below found : LoggerName} {passesDot : Bool} {left : List Char}
    (h : found ∈ r.above below passesDot left) (seen : List Char) :
    found.IsAbove (.named (String.ofList (left.reverse ++ seen))) := by
  induction left generalizing below passesDot seen with
  | nil => obtain rfl := List.mem_singleton.1 h; trivial
  | cons c left ih =>
    have hseen : (c :: left).reverse ++ seen = left.reverse ++ c :: seen := by simp
    rw [hseen]
    rw [above] at h
    split at h
    next hdot =>
      dsimp only at h
      split at h
      · rcases List.mem_cons.1 h with rfl | h
        · obtain ⟨rfl, -, hleft⟩ := hdot
          exact LoggerName.isAbove_named_iff.2 ⟨by simpa using hleft, by simp⟩
        · exact ih h _
      · exact ih h _
    · exact ih h _

theorem isAbove_of_mem_lineage {above : LoggerName} (h : above ∈ (r.lineage name).tail) :
    above.IsAbove name := by
  cases name with
  | root => simp [lineage] at h
  | named name => simpa using isAbove_of_mem_above h []

theorem lineage_eq (name : LoggerName) : r.lineage name = name :: (r.lineage name).tail := by
  cases name <;> rfl

theorem threshold_eq (h : r.entries name = [logger]) : r.threshold name = logger.threshold := by
  rw [threshold, lineage_eq, List.findSome?_cons, find?_of_singleton h]

theorem streams_eq (h : r.entries name = [logger])
    (habove : ∀ above ∈ (r.lineage name).tail, r.entries above = []) :
    r.streams name = [logger.stream] := by
  have hnone : ∀ above ∈ (r.lineage name).tail, (r.find? above).map (·.stream) = none := by
    intro above hm
    rw [find?_of_nil (habove above hm), Option.map_none]
  rw [streams, lineage_eq, List.filterMap_cons, find?_of_singleton h,
    List.filterMap_eq_nil_iff.2 hnone]
  rfl

/-- From the level of a logger on, every record that has a line is written once, to the logger's
stream. Below it no record is written. -/
structure WritesAlone (r : Registry) (logger : Logger) : Prop where
  once : ∀ record : Record, logger.threshold.number ≤ record.levelNumber → record.IsExpressible →
    ∃ line, record.line = .ok line ∧ r.write logger.name record = [(logger.stream, line)]
  below : ∀ record : Record, record.levelNumber < logger.threshold.number →
    r.write logger.name record = []

theorem writesAlone (h : r.entries logger.name = [logger])
    (habove : ∀ above ∈ (r.lineage logger.name).tail, r.entries above = []) :
    r.WritesAlone logger where
  once record hlevel hrecord := by
    obtain ⟨line, hline⟩ := Record.exists_line_iff.2 hrecord
    refine ⟨line, hline, ?_⟩
    rw [write, threshold_eq h, if_pos hlevel, hline, streams_eq h habove]
    rfl
  below record hlevel := by rw [write, threshold_eq h, if_neg (Int.not_le.2 hlevel)]

/-- After any calls for setup, a logger has what its granted calls leave. A call is refused just if
its level is unknown, and then changes nothing. A logger without streams above it writes a record
that its level lets pass and that has a line, once and to its own stream. Above it are the root and
loggers whose names it goes on after with a dot. -/
theorem ofCalls_settles (calls : List Setup) :
    (∀ name, Leaves name (granted name calls) ((ofCalls calls).entries name)) ∧
    (∀ call, ((∃ e, (ofCalls calls).answer call = .error e) ↔
        Text.toUpper call.level ∉ Level.names) ∧
      (Text.toUpper call.level ∉ Level.names → ofCalls (calls ++ [call]) = ofCalls calls)) ∧
    (∀ logger : Logger, (ofCalls calls).entries logger.name = [logger] →
      (∀ above ∈ ((ofCalls calls).lineage logger.name).tail, (ofCalls calls).entries above = []) →
        (ofCalls calls).WritesAlone logger) ∧
    ∀ name, ∀ above ∈ ((ofCalls calls).lineage name).tail, above.IsAbove name := by
  refine ⟨leaves_ofCalls calls, fun call => ⟨answer_eq_error_iff, fun hunknown => ?_⟩,
    fun logger => writesAlone, fun name above => isAbove_of_mem_lineage⟩
  rw [ofCalls_concat, after_of_refused hunknown]

/-- A logger is set up twice and refused once, and one below it is set up in between. One level is
written in small letters with a dotless i. -/
def repeated : List Setup :=
  [⟨"purge.tree", "debug", .labelled "first"⟩, ⟨"purge.tree", "loud", .labelled "second"⟩,
    ⟨"purge.tree.leaf", "Info", .standardOutput⟩,
    ⟨"purge.tree", "warn\u0131ng", .labelled "second"⟩]

/-- A template that looks keys up, at a level that has no name of its own, and a number as a key
below a text as a key. -/
def composed : Record where
  levelNumber := 35
  logger := "purge"
  template := "%(word)-5s%% of %(count)#06x"
  args := [.dictionary [(.text "word", .text "two"), (.text "count", .int 300)]]
  extra := .dictionary [(.text "sizes", .list [.dictionary [(.int 1, .tuple [.null])]])]

theorem ofCalls_settles_repeated :
    (ofCalls repeated).entries (.named "purge.tree") =
      [⟨.named "purge.tree", .warning, .labelled "first"⟩] ∧
    ((ofCalls repeated).lineage (.named "purge.tree")).tail = [.root] ∧
    (ofCalls repeated).entries .root = [] ∧
    composed.IsExpressible ∧
    (∃ line, composed.line = .ok line ∧
      (ofCalls repeated).write (.named "purge.tree") composed = [(.labelled "first", line)]) ∧
    (ofCalls repeated).write (.named "purge.tree") { composed with levelNumber := 29 } = [] ∧
    Text.toUpper "loud" ∉ Level.names ∧
    ofCalls (repeated ++ [⟨"purge.tree", "loud", .standardOutput⟩]) = ofCalls repeated := by
  have hentries : (ofCalls repeated).entries (.named "purge.tree") =
      [⟨.named "purge.tree", .warning, .labelled "first"⟩] := by decide +kernel
  have hlineage : ((ofCalls repeated).lineage (.named "purge.tree")).tail = [.root] := by
    decide +kernel
  have hroot : (ofCalls repeated).entries .root = [] := by decide +kernel
  have habove : ∀ above ∈ ((ofCalls repeated).lineage (.named "purge.tree")).tail,
      (ofCalls repeated).entries above = [] := by simpa only [hlineage, List.forall_mem_singleton]
  have hunknown : Text.toUpper "loud" ∉ Level.names := by decide +kernel
  have hkey : IsShort 1 := by decide +kernel
  have hcomposed : composed.IsExpressible :=
    ⟨by decide +kernel, ⟨"two  % of 0x012c", by decide +kernel⟩,
      Or.inr ⟨trivial, ⟨⟨hkey, ⟨trivial, trivial⟩, trivial⟩, trivial⟩, trivial⟩⟩
  obtain ⟨-, hrefused, hwrites, -⟩ := ofCalls_settles repeated
  have halone := hwrites ⟨.named "purge.tree", .warning, .labelled "first"⟩ hentries habove
  exact ⟨hentries, hlineage, hroot, hcomposed, halone.once composed (by decide) hcomposed,
    halone.below { composed with levelNumber := 29 } (by decide), hunknown,
    (hrefused ⟨"purge.tree", "loud", .standardOutput⟩).2 hunknown⟩

/-- A record that holds a dictionary with a tuple as a key is lost, though its level passes. -/
theorem log_inexpressible :
    (ofCalls [⟨"purge", "info", .labelled "first"⟩]).entries (.named "purge") =
      [⟨.named "purge", .info, .labelled "first"⟩] ∧
    (∀ above : LoggerName, above.IsAbove (.named "purge") →
      (ofCalls [⟨"purge", "info", .labelled "first"⟩]).entries above = []) ∧
    Level.info.number ≤ Level.error.number ∧
    (ofCalls [⟨"purge", "info", .labelled "first"⟩]).log (.ofText "purge") "error"
      "Tree deletion failed" [(.text "sizes", .dictionary [(.tuple [.text "a"], .int 3)])] =
        .ok [] :=
  ⟨by decide +kernel, fun _ => entries_eq_nil_of_isAbove (by decide +kernel), by decide,
    by decide +kernel⟩

end Registry

end TreeRemoval.Log
