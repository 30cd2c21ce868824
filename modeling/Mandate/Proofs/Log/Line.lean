/-
  Mandate.Proofs.Log.Line
  ────────────────────────────────
  **LINES THAT CANNOT BE FORGED.**

  A record is written as one object on one line.  Whatever characters its texts are made of,
  quotes, line breaks or whole objects, none of it leaves the text that it belongs to: the line
  is printable ASCII, and what is read from it is the record, field by field.

      Whole  — a record whose texts have no halves
      ToldBy — a line tells a record: it is read as an object of just the record's fields

  Main results:
    * `exists_lookup_fields_iff` — the names of the fields of a record;
    * `fields_writable`          — the fields can be written so that they are read back;
    * `toldBy_fields`            — so the line that they are written on tells the record;
    * `line_law`                 — every record with a message has a line that tells it.
-/
import Mandate.Log.Record
import Mandate.Proofs.Json.Held

namespace Mandate.Log

open Json (Value Fields Held)
open Time (Stamp zero_lt_civilSpan)

namespace Record

/-! ## §1. Fields that are there only if they have a value. -/

section Optional

variable {name : String} {key : Text} {o : Option Value}

theorem lookup_optionalField :
    (optionalField name o).lookup key = if key = name then o else none := by
  cases o with
  | none => simp [optionalField]
  | some v => exact Table.lookup_entry _ key v []

theorem mem_optionalField_names :
    key ∈ (optionalField name o).map Prod.fst ↔ key = name ∧ o ≠ none := by
  cases o <;> simp [optionalField]

theorem optionalField_names (name : String) (o : Option Value) :
    ((optionalField name o).map Prod.fst).Sublist [.plain name] := by
  cases o with
  | none => exact List.nil_sublist _
  | some v => exact List.Sublist.refl _

theorem optionalField_whole : ∀ f ∈ optionalField name o, f.1.Whole := by
  cases o with
  | none => exact nofun
  | some v => exact List.forall_mem_singleton.mpr ⟨name, rfl⟩

theorem optionalField_writable (h : ∀ v, o = some v → v.Writable) :
    ∀ f ∈ optionalField name o, f.2.Writable := by
  cases o with
  | none => exact nofun
  | some v => exact List.forall_mem_singleton.mpr (h v rfl)

end Optional

/-! ## §2. The fields of a record. -/

variable {r : Record} {id : Option Text} {name text : Text}

/-- A record and its identifier whose texts have no halves, the message apart. -/
structure Whole (r : Record) (id : Option Text) : Prop where
  path : r.path.Whole
  line : r.line.Whole
  function : ∀ s, r.function = some s → s.Whole
  extra : ∀ v, r.extra = some v → v.Whole
  id : ∀ shown, id = some shown → shown.Whole

/-- The source as a field that is there only if it is shown. -/
theorem fields_eq (r : Record) (now : Stamp) (id : Option Text) (text : Text) :
    r.fields now id text =
      ([("timestamp", .text now.isoText), ("level", .text r.level.name),
        ("logger", .text r.logger), ("message", .text text)] : Fields)
      ++ optionalField "correlation_id" ((currentId id).map .text)
      ++ optionalField "source" (if r.showsSource then some r.source else none)
      ++ optionalField "exception" (r.failure.map fun f => .text (failureText f))
      ++ optionalField "extra" r.extra := by
  unfold fields
  cases r.showsSource <;> rfl

theorem currentId_ne_none_iff :
    currentId id ≠ none ↔ ∃ shown, id = some shown ∧ shown ≠ "" := by
  cases id with
  | none => simp [currentId]
  | some s => simp [currentId, Option.filter]

theorem showsSource_iff : r.showsSource = true ↔ 30 ≤ r.level.value ∨ r.showCaller = true := by
  unfold showsSource
  rw [Bool.or_eq_true, decide_eq_true_eq]
  rfl

/-- No field is written twice. -/
theorem fields_distinct (r : Record) (now : Stamp) (id : Option Text) (text : Text) :
    Table.Distinct (r.fields now id text) := by
  have hnames : ((r.fields now id text).map Prod.fst).Sublist
      ([.plain "timestamp", .plain "level", .plain "logger", .plain "message"]
        ++ [.plain "correlation_id"] ++ [.plain "source"] ++ [.plain "exception"]
        ++ [.plain "extra"]) := by
    rw [fields_eq]
    simp only [List.map_append]
    exact ((((List.Sublist.refl _).append (optionalField_names _ _)).append
      (optionalField_names _ _)).append (optionalField_names _ _)).append (optionalField_names _ _)
  exact hnames.nodup (by decide)

/-- The names of the fields of a record. -/
theorem exists_lookup_fields_iff (hfailure : r.failure = none) (now : Stamp) (text : Text) :
    (∃ v, (r.fields now id text).lookup name = some v) ↔
      name ∈ (["timestamp", "level", "logger", "message"] : List Text) ∨
      name = "correlation_id" ∧ (∃ shown, id = some shown ∧ shown ≠ "") ∨
      name = "source" ∧ (30 ≤ r.level.value ∨ r.showCaller = true) ∨
      name = "extra" ∧ r.extra ≠ none := by
  rw [← currentId_ne_none_iff, ← showsSource_iff, Table.exists_lookup_iff, fields_eq, hfailure]
  simp only [List.map_append, List.mem_append, mem_optionalField_names]
  simp [or_assoc]

theorem writable_text (h : text.Whole) : (Value.text text).Writable := by
  obtain ⟨s, rfl⟩ := h
  exact .text s

theorem source_writable (hwhole : r.Whole id) (h : r.line.Writable) : r.source.Writable := by
  have hfunction : (Value.ofText? r.function).Writable := by
    cases hname : r.function with
    | none => exact .null
    | some s => exact writable_text (hwhole.function s hname)
  have hnames : Table.Distinct ([("file", .text r.path), ("line", r.line),
      ("function", .ofText? r.function)] : Fields) := by
    show ([.plain "file", .plain "line", .plain "function"] : List Text).Nodup
    decide
  refine .object hnames ?_ ?_
  all_goals rw [List.forall_mem_cons, List.forall_mem_cons, List.forall_mem_singleton]
  · exact ⟨⟨_, rfl⟩, ⟨_, rfl⟩, ⟨_, rfl⟩⟩
  · exact ⟨writable_text hwhole.path, h, hfunction⟩

/-- The fields of a record can be written so that they are read back. -/
theorem fields_writable (hfailure : r.failure = none) (hwhole : r.Whole id)
    (hline : r.line.Writable) (hextra : ∀ v, r.extra = some v → v.Writable) (now : Stamp)
    (htext : text.Whole) : (Value.object (r.fields now id text)).Writable := by
  have hid : ∀ shown, currentId id = some shown → shown.Whole :=
    fun shown h => hwhole.id shown (Option.eq_some_of_filter_eq_some h)
  refine .object (fields_distinct r now id text) ?_ ?_
  all_goals
    rw [fields_eq, hfailure]
    simp only [List.forall_mem_append]
  · refine ⟨⟨⟨⟨?_, optionalField_whole⟩, optionalField_whole⟩, optionalField_whole⟩,
      optionalField_whole⟩
    simp only [List.forall_mem_cons]
    exact ⟨⟨_, rfl⟩, ⟨_, rfl⟩, ⟨_, rfl⟩, ⟨_, rfl⟩, nofun⟩
  refine ⟨⟨⟨⟨?_, optionalField_writable ?_⟩, optionalField_writable ?_⟩, nofun⟩,
    optionalField_writable hextra⟩
  · simp only [List.forall_mem_cons]
    exact ⟨.text _, .text _, .text _, writable_text htext, nofun⟩
  · intro v hv
    obtain ⟨s, hs, rfl⟩ := Option.map_eq_some_iff.mp hv
    exact writable_text (hid s hs)
  · intro v hv
    split at hv
    · cases hv
      exact source_writable hwhole hline
    · cases hv

/-! ## §3. Lines. -/

/-- A line tells a record: it is printable ASCII, without line breaks and control characters,
and it is read as an object that has just the fields of the record, each with the record's
value. -/
structure ToldBy (r : Record) (now : Stamp) (id : Option Text) (text : Text) (line : String)
    (o : Fields) : Prop where
  printed : ∀ c ∈ line.toList, ' ' ≤ c ∧ c ≤ '~'
  read : Json.read line = .ok (.object o)
  distinct : Table.Distinct o
  names : ∀ name, (∃ v, o.lookup name = some v) ↔
    name ∈ (["timestamp", "level", "logger", "message"] : List Text) ∨
    name = "correlation_id" ∧ (∃ shown, id = some shown ∧ shown ≠ "") ∨
    name = "source" ∧ (30 ≤ r.level.value ∨ r.showCaller = true) ∨
    name = "extra" ∧ r.extra ≠ none
  timestamp : o.lookup (.plain "timestamp") = some (.text now.isoText)
  level : o.lookup (.plain "level") = some (.text r.level.name)
  logger : o.lookup (.plain "logger") = some (.text r.logger)
  message : o.lookup (.plain "message") = some (.text text)
  correlation : ∀ shown, id = some shown → shown ≠ "" →
    o.lookup (.plain "correlation_id") = some (.text shown)
  source : 30 ≤ r.level.value ∨ r.showCaller = true → o.lookup (.plain "source") = some (.object
    [("file", .text r.path), ("line", r.line), ("function", .ofText? r.function)])
  extra : ∀ v, r.extra = some v → o.lookup (.plain "extra") = some v

/-- The line that the fields of a record are written on tells the record. -/
theorem toldBy_fields (hfailure : r.failure = none) (hwhole : r.Whole id)
    (hline : r.line.Writable) (hextra : ∀ v, r.extra = some v → v.Writable) (now : Stamp)
    (htext : text.Whole) :
    r.ToldBy now id text (Value.object (r.fields now id text)).compact
      (r.fields now id text) := by
  have hwritable := fields_writable hfailure hwhole hline hextra now htext
  refine
    { printed := ?_
      read := Json.read_compact hwritable
      distinct := fields_distinct r now id text
      names := fun name => exists_lookup_fields_iff hfailure now text
      timestamp := ?_
      level := ?_
      logger := ?_
      message := ?_
      correlation := fun shown hid hshown => ?_
      source := fun hsource => ?_
      extra := fun v hv => ?_ }
  · rw [Json.toList_compact]
    exact hwritable.printed 0
  all_goals
    rw [fields_eq]
    simp only [List.lookup_append, lookup_optionalField, Table.lookup_entry]
  · simp
  · simp
  · simp
  · simp
  · simp [hid, hshown, currentId, Option.filter]
  · simp [showsSource_iff.mpr hsource, Record.source]
  · simp [hv]

/-! ## §4. The law. -/

/-- **A LINE TELLS ITS RECORD, WHATEVER THE RECORD SAYS.**  If the values of a record without
a failure are such that a text holds them, with finite numbers, and no text in it has halves,
then the record has a line as soon as its message can be filled in, which it always can without
arguments.  The line is printable ASCII, and it is read as an object that has the time, the
level, the logger and the message, the identifier if there is one that is not empty, the source
from warnings on and on request, the extra value if there is one, and nothing else. -/
theorem line_law (r : Record) (now : Stamp) (id : Option Text) (hfailure : r.failure = none)
    (hwhole : r.Whole id) (hline : Held r.line ∧ r.line.Finite)
    (hextra : ∀ v, r.extra = some v → Held v ∧ v.Finite) :
    (∀ text, r.text = .ok text → text.Whole → ∃ line o, r.jsonLine now id = .ok line ∧
      r.ToldBy now id text line o) ∧
    (∀ fault, r.text = .error fault → r.jsonLine now id = .error fault) ∧
    (r.args = [] → r.text = .ok r.message.display) := by
  refine ⟨fun text htext hmessage => ?_, fun fault hfault => ?_, fun hargs => ?_⟩
  · have hline := Json.writable_iff.mpr ⟨hline.1, hline.2, hwhole.line⟩
    have hextra : ∀ v, r.extra = some v → v.Writable := fun v hv =>
      Json.writable_iff.mpr ⟨(hextra v hv).1, (hextra v hv).2, hwhole.extra v hv⟩
    have htold := toldBy_fields hfailure hwhole hline hextra now hmessage
    refine ⟨_, _, ?_, htold⟩
    unfold jsonLine
    rw [htext]
    rfl
  · unfold jsonLine
    rw [hfault]
    rfl
  · unfold Record.text
    rw [hargs]
    rfl

/-- An error whose texts are made to look like the end of a line and the start of another. -/
def forged : Record :=
  { logger := "zcapld\n\x7b\"level\": \"CRITICAL\"\x7d", level := .number 40
    path := "/src/zcapld/verifier.py", line := .int 42, function := none
    message := .text "\"\x7d\r\n\x7b\"message\": \"ok 𝄞\u2028\x00\"\x7d", args := []
    extra := some (.object [("message", .text "ok\x7f"),
      ("rates", .list [.number (.double ⟨0x3FB999999999999A⟩), .number (.double ⟨1⟩), .int (-7)]),
      ("nested", .object [("message", .null)])])
    showCaller := false, failure := none }

/-- It is told by one line all the same, under an identifier with a line break. -/
theorem forged_line_told :
    forged.failure = none ∧ forged.Whole (some "id\n") ∧
    (Held forged.line ∧ forged.line.Finite) ∧
    (∀ v, forged.extra = some v → Held v ∧ v.Finite) ∧
    ∃ line o, forged.jsonLine ⟨⟨0, zero_lt_civilSpan⟩, .utc⟩ (some "id\n") = .ok line ∧
      forged.ToldBy ⟨⟨0, zero_lt_civilSpan⟩, .utc⟩ (some "id\n") forged.message.display line o := by
  have hline : forged.line.Writable := .number (by decide)
  have hextra : ∀ v, forged.extra = some v → v.Writable := by
    rintro v ⟨⟩
    refine .object (by decide) ?_ (List.forall_mem_cons.mpr ⟨.text _, List.forall_mem_cons.mpr
      ⟨.list ?_, List.forall_mem_singleton.mpr (.object (by decide) ?_ ?_)⟩⟩)
    · simp only [List.forall_mem_cons]
      exact ⟨⟨_, rfl⟩, ⟨_, rfl⟩, ⟨_, rfl⟩, nofun⟩
    · exact List.forall_mem_cons.mpr ⟨.number (by decide), List.forall_mem_cons.mpr
        ⟨.number (by decide), List.forall_mem_singleton.mpr (.number (by decide))⟩⟩
    · exact List.forall_mem_singleton.mpr ⟨_, rfl⟩
    · exact List.forall_mem_singleton.mpr .null
  obtain ⟨hlineHeld, hlineFinite, hlineWhole⟩ := Json.writable_iff.mp hline
  have hextraHeld : ∀ v, forged.extra = some v → Held v ∧ v.Finite := fun v hv =>
    ⟨(Json.writable_iff.mp (hextra v hv)).1, (Json.writable_iff.mp (hextra v hv)).2.1⟩
  have hwhole : forged.Whole (some "id\n") :=
    { path := ⟨_, rfl⟩
      line := hlineWhole
      function := nofun
      extra := fun v hv => (Json.writable_iff.mp (hextra v hv)).2.2
      id := by
        rintro _ ⟨⟩
        exact ⟨_, rfl⟩ }
  exact ⟨rfl, hwhole, ⟨hlineHeld, hlineFinite⟩, hextraHeld,
    (line_law forged ⟨⟨0, zero_lt_civilSpan⟩, .utc⟩ (some "id\n") rfl hwhole
      ⟨hlineHeld, hlineFinite⟩ hextraHeld).1 _ rfl ⟨_, rfl⟩⟩

end Record

end Mandate.Log
