import TreeRemoval.Log.Registry
import TreeRemoval.Proofs.Expressible
import TreeRemoval.Proofs.Json.Reading

/-! # Log lines are lossless

A logger's line is one line of printable ASCII, and a reader of JSON finds in it what was logged:
the level, the message, the logger and the extra fields.
-/

namespace TreeRemoval.Log

open Json (IsExact IsPrintable)

namespace Value

variable {v : Value} {items : List Value} {pairs : List (Value × Value)}

/-- A value without floating-point numbers and long whole numbers, whose dictionaries have texts as
keys and whose errors have texts. -/
inductive IsPlain : Value → Prop
  | null : IsPlain .null
  | bool (b : Bool) : IsPlain (.bool b)
  | int {n : Int} (h : IsShort n) : IsPlain (.int n)
  | text (s : String) : IsPlain (.text s)
  | path (p : Path) : IsPlain (.path p)
  | bytes (content : List UInt8) : IsPlain (.bytes content)
  | error {kind : ErrorKind} {args : List Value} (h : ∃ t, (error kind args).toText = .ok t) :
    IsPlain (.error kind args)
  | list {items : List Value} (h : ∀ item ∈ items, IsPlain item) : IsPlain (.list items)
  | tuple {items : List Value} (h : ∀ item ∈ items, IsPlain item) : IsPlain (.tuple items)
  | dictionary {pairs : List (Value × Value)} (hkeys : ∀ pair ∈ pairs, ∃ name, pair.1 = .text name)
      (h : ∀ pair ∈ pairs, IsPlain pair.2) : IsPlain (.dictionary pairs)

mutual

/-- What a value is in JSON: tuples are arrays; paths, bytes and errors are their texts. -/
inductive ReadsAs : Value → Json → Prop
  | null : ReadsAs .null .null
  | bool (b : Bool) : ReadsAs (.bool b) (.bool b)
  | int (n : Int) : ReadsAs (.int n) (.int n)
  | text (s : String) : ReadsAs (.text s) (.string s)
  | path (p : Path) : ReadsAs (.path p) (.string p.text)
  | bytes (content : List UInt8) : ReadsAs (.bytes content) (.string (Text.quoteBytes content))
  | error {kind : ErrorKind} {args : List Value} {t : String}
    (h : (Value.error kind args).toText = .ok t) : ReadsAs (.error kind args) (.string t)
  | list {items : List Value} {jsons : List Json} (h : ReadsEach items jsons) :
    ReadsAs (.list items) (.array jsons)
  | tuple {items : List Value} {jsons : List Json} (h : ReadsEach items jsons) :
    ReadsAs (.tuple items) (.array jsons)
  | dictionary {pairs : List (Value × Value)} {fields : List (String × Json)}
    (h : ReadsFields pairs fields) : ReadsAs (.dictionary pairs) (.object fields)

inductive ReadsEach : List Value → List Json → Prop
  | nil : ReadsEach [] []
  | cons {item : Value} {items : List Value} {j : Json} {jsons : List Json} (h : ReadsAs item j)
    (hs : ReadsEach items jsons) : ReadsEach (item :: items) (j :: jsons)

inductive ReadsFields : List (Value × Value) → List (String × Json) → Prop
  | nil : ReadsFields [] []
  | cons {name : String} {value : Value} {pairs : List (Value × Value)} {j : Json}
    {fields : List (String × Json)} (h : ReadsAs value j) (hs : ReadsFields pairs fields) :
    ReadsFields ((.text name, value) :: pairs) ((name, j) :: fields)

end

def Writes (v : Value) : Prop := ∃ j, v.toJson = .ok j ∧ ReadsAs v j ∧ j.IsExact

theorem toJsonEach_eq (h : ∀ item ∈ items, Writes item) :
    ∃ jsons, toJsonEach items = .ok jsons ∧ ReadsEach items jsons ∧ ∀ j ∈ jsons, j.IsExact := by
  induction items with
  | nil => exact ⟨[], rfl, .nil, by simp⟩
  | cons item items ih =>
    obtain ⟨j, hj, hreads, hexact⟩ := h item (by simp)
    obtain ⟨jsons, hjs, hsreads, hsexact⟩ := ih fun item hm => h item (by simp [hm])
    exact ⟨j :: jsons, by rw [toJsonEach, hj, hjs]; rfl, .cons hreads hsreads,
      List.forall_mem_cons.2 ⟨hexact, hsexact⟩⟩

theorem toJsonPairs_eq (hkeys : ∀ pair ∈ pairs, ∃ name, pair.1 = .text name)
    (h : ∀ pair ∈ pairs, Writes pair.2) :
    ∃ fields, toJsonPairs pairs = .ok fields ∧ ReadsFields pairs fields ∧
      ∀ field ∈ fields, field.2.IsExact := by
  induction pairs with
  | nil => exact ⟨[], rfl, .nil, by simp⟩
  | cons pair pairs ih =>
    obtain ⟨key, value⟩ := pair
    obtain ⟨name, rfl⟩ : ∃ name, key = .text name := hkeys (key, value) (by simp)
    obtain ⟨j, hj, hreads, hexact⟩ := h (.text name, value) (by simp)
    obtain ⟨fields, hfields, hsreads, hsexact⟩ :=
      ih (fun pair hm => hkeys pair (by simp [hm])) fun pair hm => h pair (by simp [hm])
    refine ⟨(name, j) :: fields, ?_, .cons hreads hsreads, List.forall_mem_cons.2 ⟨hexact, hsexact⟩⟩
    rw [toJsonPairs, hj, hfields]
    rfl

theorem IsPlain.writes (h : IsPlain v) : Writes v := by
  induction h with
  | null => exact ⟨.null, rfl, .null, .null⟩
  | bool b => exact ⟨.bool b, rfl, .bool b, .bool b⟩
  | @int n h => exact ⟨.int n, by rw [toJson, if_pos h], .int n, .int n⟩
  | text s => exact ⟨.string s, rfl, .text s, .string s⟩
  | path p => exact ⟨_, rfl, .path p, .string _⟩
  | bytes content => exact ⟨_, rfl, .bytes content, .string _⟩
  | @error kind args h =>
    obtain ⟨t, ht⟩ := h
    have hj : (Value.error kind args).toJson =
        ((Value.error kind args).toText.map Json.string).mapError JsonError.text := rfl
    exact ⟨.string t, by rw [hj, ht]; rfl, .error ht, .string t⟩
  | list _ ih =>
    obtain ⟨jsons, hj, hreads, hexact⟩ := toJsonEach_eq ih
    exact ⟨.array jsons, by rw [toJson, hj]; rfl, .list hreads, .array hexact⟩
  | tuple _ ih =>
    obtain ⟨jsons, hj, hreads, hexact⟩ := toJsonEach_eq ih
    exact ⟨.array jsons, by rw [toJson, hj]; rfl, .tuple hreads, .array hexact⟩
  | dictionary hkeys _ ih =>
    obtain ⟨fields, hj, hreads, hexact⟩ := toJsonPairs_eq hkeys ih
    exact ⟨.object fields, by rw [toJson, hj]; rfl, .dictionary hreads, .object hexact⟩

end Value

/-- What is found in the JSON form of a line. -/
structure Tells (json : Json) (level : Level) (message logger : String)
    (extra : List (Value × Value)) : Prop where
  level : json.field? "level" = some (.string level.name)
  message : json.field? "message" = some (.string message)
  logger : json.field? "logger" = some (.string logger)
  absent : extra = [] → json.field? "extra_fields" = none
  extra : extra ≠ [] →
    ∃ j, json.field? "extra_fields" = some j ∧ Value.ReadsAs (.dictionary extra) j

theorem field?_append (name : String) (front back : List (String × Json)) :
    (Json.object (front ++ back)).field? name =
      ((Json.object back).field? name).or ((Json.object front).field? name) := by
  rw [Json.field?, List.reverse_append, List.lookup_append]
  rfl

namespace Record

variable {r : Record} {extra : List (Value × Value)}

theorem isExact_errorFields (error : Option (Option (ErrorKind × List Value))) :
    ∀ field ∈ errorFields error, field.2.IsExact := by
  rcases error with _ | _ | ⟨kind, args⟩ <;> simp [errorFields, IsExact.string, IsExact.null]

theorem field?_errorFields {name : String} (error : Option (Option (ErrorKind × List Value)))
    (h : name ≠ "error" ∧ name ≠ "error_type") :
    (Json.object (errorFields error)).field? name = none := by
  rcases error with _ | _ | ⟨kind, args⟩ <;> simp [errorFields, Json.field?, h]

theorem extraFields_eq (hx : r.extra = .dictionary extra) (hp : Value.IsPlain (.dictionary extra)) :
    ∃ fields, r.extraFields = .ok fields ∧ (∀ field ∈ fields, field.2.IsExact) ∧
      (extra = [] → fields = []) ∧
      (extra ≠ [] → ∃ j, fields = [("extra_fields", j)] ∧ Value.ReadsAs (.dictionary extra) j) := by
  obtain ⟨j, hj, hreads, hexact⟩ := hp.writes
  cases extra with
  | nil => exact ⟨[], by rw [extraFields, hx]; rfl, by simp, fun _ => rfl, by simp⟩
  | cons pair extra =>
    exact ⟨[("extra_fields", j)], by rw [extraFields, hx, hj]; rfl, by simpa using hexact,
      by simp, fun _ => ⟨j, rfl, hreads⟩⟩

def headFields (r : Record) (level : Level) : List (String × Json) :=
  [("timestamp", .string (timestamp r.created)), ("level", .string level.name),
    ("message", .string r.template), ("logger", .string r.logger)]

theorem toJson_tells (level : Level) (hargs : r.args = []) (hlevel : r.levelNumber = level.number)
    (hx : r.extra = .dictionary extra) (hp : Value.IsPlain (.dictionary extra)) :
    ∃ json, r.toJson = .ok json ∧ json.IsExact ∧ Tells json level r.template r.logger extra := by
  obtain ⟨fields, hfields, hexact, habsent, hextra⟩ := extraFields_eq hx hp
  refine ⟨.object (r.headFields level ++ errorFields r.error ++ fields), ?_, ?_, ?_⟩
  · rw [toJson, hlevel, Level.nameOf_number, formatMessage, hargs, hfields]
    rfl
  · refine .object fun field hm => ?_
    simp only [headFields, List.mem_append, List.mem_cons, List.not_mem_nil, or_false] at hm
    rcases hm with ((rfl | rfl | rfl | rfl) | hm) | hm
    · exact .string _
    · exact .string _
    · exact .string _
    · exact .string _
    · exact isExact_errorFields r.error field hm
    · exact hexact field hm
  · have hfield : ∀ name, name ≠ "error" ∧ name ≠ "error_type" ∧ name ≠ "extra_fields" →
        (Json.object (r.headFields level ++ errorFields r.error ++ fields)).field? name =
          (Json.object (r.headFields level)).field? name := by
      intro name hname
      have hnone : (Json.object fields).field? name = none := by
        by_cases he : extra = []
        · rw [habsent he]
          rfl
        · obtain ⟨j, rfl, -⟩ := hextra he
          simp [Json.field?, hname.2.2]
      rw [field?_append, field?_append, hnone, field?_errorFields _ ⟨hname.1, hname.2.1⟩]
      rfl
    refine ⟨hfield _ (by decide), hfield _ (by decide), hfield _ (by decide), fun he => ?_,
      fun he => ?_⟩
    · rw [habsent he, field?_append, field?_append, field?_errorFields _ (by decide)]
      rfl
    · obtain ⟨j, rfl, hreads⟩ := hextra he
      exact ⟨j, field?_append _ _ _, hreads⟩

theorem line_tells (level : Level) (hargs : r.args = []) (hlevel : r.levelNumber = level.number)
    (hx : r.extra = .dictionary extra) (hp : Value.IsPlain (.dictionary extra)) :
    ∃ line json, r.line = .ok line ∧ (∀ c ∈ line.toList, IsPrintable c) ∧
      Json.parse? line = some json ∧ Tells json level r.template r.logger extra := by
  obtain ⟨json, hjson, hexact, htells⟩ := toJson_tells level hargs hlevel hx hp
  exact ⟨json.render, json, by rw [line, hjson]; rfl, hexact.isPrintable, hexact.parse?_render,
    htells⟩

end Record

theorem LoggerName.text_ofText {name : String} (h : name ≠ "") :
    (LoggerName.ofText name).text = name := by
  unfold LoggerName.ofText
  split
  next hroot => exact (hroot.resolve_left h).symm
  next => rfl

namespace Registry

def logged (name : LoggerName) (method : Method) (message : String)
    (extra : List (Value × Value)) : Record where
  levelNumber := method.level.number
  logger := name.text
  template := message
  error := if method.withError then some none else none
  extra := .dictionary extra

theorem log_eq {r : Registry} {name : LoggerName} {word message line : String} {method : Method}
    {extra : List (Value × Value)} (hword : Method.ofText word = .ok method)
    (hlevel : (r.threshold name).number ≤ method.level.number)
    (hline : (logged name method message extra).line = .ok line) :
    r.log name word message extra = .ok ((r.streams name).map fun stream => (stream, line)) := by
  unfold logged at hline
  rw [log, hword]
  simp only [write, Nat.cast_le, hlevel, if_true, hline]

/-- A message that its logger lets pass makes one line, the same for each stream: it is printable,
and what was logged is read from it. -/
theorem log_lossless (r : Registry) {name word : String} {method : Method}
    {extra : List (Value × Value)} (hname : name ≠ "") (hword : Method.ofText word = .ok method)
    (hlevel : (r.threshold (.ofText name)).number ≤ method.level.number)
    (hextra : Value.IsPlain (.dictionary extra)) (message : String) :
    ∃ line json,
      r.log (.ofText name) word message extra =
        .ok ((r.streams (.ofText name)).map fun stream => (stream, line)) ∧
      (∀ c ∈ line.toList, IsPrintable c) ∧ Json.parse? line = some json ∧
      Tells json method.level message name extra := by
  obtain ⟨line, json, hline, hprintable, hparse, htells⟩ :=
    Record.line_tells (r := logged (.ofText name) method message extra) method.level rfl rfl rfl
      hextra
  have hlogger : (logged (.ofText name) method message extra).logger = name :=
    LoggerName.text_ofText hname
  rw [hlogger] at htells
  exact ⟨line, json, log_eq hword hlevel hline, hprintable, hparse, htells⟩

def warned : Registry := ⟨[⟨.named "purge.tree", .warning, .standardOutput⟩]⟩

/-- Extra fields of every kind, with characters of every way of writing. -/
def assorted : List (Value × Value) :=
  [(.text "a\x22b\\", .tuple [.null, .bool true, .int (-10), .list []]),
    (.text "\u2028\x7f", .dictionary [(.text "", .path (.ofText "/w/🗑 %s"))]),
    (.text "\n",
      .list [.bytes [0, 0x27, 0xFF], .error .key [.text "\t"], .error .value [.float 1]])]

theorem log_lossless_assorted :
    ("purge.tree" ≠ "" ∧ Method.ofText "Error" = .ok ⟨.error, false⟩ ∧
      (warned.threshold (.ofText "purge.tree")).number ≤ Level.error.number ∧
      Value.IsPlain (.dictionary assorted)) ∧
    ∃ line json,
      warned.log (.ofText "purge.tree") "Error" "100%\r\n\u0000 \u00E9" assorted =
        .ok [(.standardOutput, line)] ∧
      (∀ c ∈ line.toList, IsPrintable c) ∧ Json.parse? line = some json ∧
      Tells json .error "100%\r\n\u0000 \u00E9" "purge.tree" assorted := by
  have hword : Method.ofText "Error" = .ok ⟨.error, false⟩ := by decide +kernel
  have hlevel : (warned.threshold (.ofText "purge.tree")).number ≤ Level.error.number := by
    decide +kernel
  have hstreams : warned.streams (.ofText "purge.tree") = [.standardOutput] := by decide +kernel
  have hextra : Value.IsPlain (.dictionary assorted) := by
    refine .dictionary (by simp [assorted]) ?_
    simp only [assorted, List.forall_mem_cons]
    have hshort : Value.IsPlain (.int (-10)) := .int (by decide +kernel)
    have hkey : Value.IsPlain (.error .key [.text "\t"]) :=
      .error (Value.exists_toText _ ⟨nofun, trivial, trivial⟩)
    have hvalue : Value.IsPlain (.error .value [.float 1]) :=
      .error (Value.exists_toText _ ⟨nofun, trivial, trivial⟩)
    exact ⟨.tuple (by simp [Value.IsPlain.null, Value.IsPlain.bool, Value.IsPlain.list, hshort]),
      .dictionary (by simp) (by simp [Value.IsPlain.path]),
      .list (by simp [Value.IsPlain.bytes, hkey, hvalue]), by simp⟩
  obtain ⟨line, json, hlog, h⟩ :=
    log_lossless warned (by decide) hword hlevel hextra "100%\r\n\u0000 \u00E9"
  rw [hstreams] at hlog
  exact ⟨⟨by decide, hword, hlevel, hextra⟩, line, json, hlog, h⟩

/-- A whole number of one digit too many makes no line, and neither does a failed removal whose
message is a number. -/
theorem log_unwritten :
    "purge.tree" ≠ "" ∧ Method.ofText "Error" = .ok ⟨.error, false⟩ ∧
    (warned.threshold (.ofText "purge.tree")).number ≤ Level.error.number ∧
    warned.streams (.ofText "purge.tree") = [.standardOutput] ∧
    warned.log (.ofText "purge.tree") "Error" "Tree deletion failed"
      [(.text "nodes", .int (Int.ofNat (10 ^ 4300)))] = .ok [] ∧
    warned.log (.ofText "purge.tree") "Error" "Tree deletion failed"
      [(.text "cause", .error .undeletable [.int 5])] = .ok [] :=
  ⟨by decide, by decide +kernel, by decide +kernel, by decide +kernel, by decide +kernel,
    by decide +kernel⟩

end Registry

end TreeRemoval.Log
