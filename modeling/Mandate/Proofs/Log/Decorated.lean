/-
  Mandate.Proofs.Log.Decorated
  ────────────────────────────────
  **WHAT IS SET AROUND A MESSAGE.**

  A text for readers has the identifier in front of its message, and the place in the sources
  behind it.  Both are set around the template, and the arguments are filled in after that: a
  percent sign in either of them is taken for one of the template's.

      Tells    — the text of a record has its message as it is, between identifier and source
      Unmarked — no percent sign stands in what is set around the messages of a record

  Main results:
    * `filled_between`    — between plain texts a message is filled in as it is;
    * `unmarked_of_tells` — a record that tells an empty argument has nothing but plain text
                            around its message;
    * `decoration_law`    — so messages are told as they are exactly if what is set around them
                            is plain; without arguments they always are, and in objects, too.
-/
import Mandate.Log.Record
import Mandate.Proofs.Log.Template

namespace Mandate.Log

open Json (Value Fields)
open Time (Stamp zero_lt_civilSpan)

/-! ## §1. Messages between plain texts. -/

namespace Record

/-- With arguments, a message is a template. -/
theorem exists_filled_eq {args : List Value} (h : args ≠ []) :
    ∃ a : Template.Arguments, ∀ template : Text,
      filled template args = (Template.fill template.points a).map .ofPoints := by
  unfold filled
  split
  next => exact absurd rfl h
  next => exact ⟨_, fun _ => rfl⟩
  next => exact ⟨_, fun _ => rfl⟩

/-- Between plain texts a message is filled in as it is. -/
theorem filled_between {before template behind text : Text} {args : List Value}
    (hbefore : Point.char '%' ∉ before.points) (hbehind : Point.char '%' ∉ behind.points)
    (h : filled template args = .ok text) :
    filled (before ++ template ++ behind) args = .ok (before ++ text ++ behind) := by
  by_cases hargs : args = []
  · subst hargs
    cases h
    rfl
  · obtain ⟨a, hfilled⟩ := exists_filled_eq hargs
    rw [hfilled] at h ⊢
    obtain ⟨out, hout, rfl⟩ := map_eq_ok_iff.mp h
    have hbetween := Template.fill_between hbefore hbehind hout
    rw [Text.points_append, Text.points_append, hbetween]
    show Except.ok (Text.ofPoints _) = .ok _
    rw [Except.ok.injEq, ← Text.points_inj]
    simp

/-! ## §2. Texts for readers. -/

/-- A text for readers, by the message in it. -/
def readersText (r : Record) (now : Stamp) (message : Text) : Text :=
  withFailure (clockText now ++ " - " ++ r.logger ++ " - " ++ r.level.name ++ " - " ++ message)
    r.failure

/-- The first eight characters of the identifier in front of a message, if there is one. -/
def idMark : Option Text → Text
  | none => ""
  | some id => "[" ++ .ofPoints (id.points.take 8) ++ "] "

/-- The place in the sources behind a message, if it is to be shown. -/
def sourceText (r : Record) : Text :=
  if r.showCaller then " (" ++ r.fileName ++ ":" ++ r.line.display ++ ")" else ""

/-- A record of the same place with another message. -/
def saying (r : Record) (message : Value) (args : List Value) : Record :=
  { r with message, args }

/-- A record tells its message: the text for readers has it as it is, between the identifier
and the place in the sources. -/
def Tells (r : Record) (now : Stamp) (id : Option Text) : Prop :=
  ∀ text, r.text = .ok text → r.textLine false now id
    = .ok (r.readersText now (idMark (currentId id) ++ text ++ r.sourceText))

/-- No percent sign stands in what is set around the messages of a record. -/
structure Unmarked (r : Record) (id : Option Text) : Prop where
  id : ∀ shown, currentId id = some shown → Point.char '%' ∉ shown.points.take 8
  source : r.showCaller = true →
    Point.char '%' ∉ r.fileName.points ∧ Point.char '%' ∉ r.line.display.points

variable {r : Record} {now : Stamp} {id : Option Text}

theorem idText_eq_idMark (shown : Option Text) : idText false shown = idMark shown := by
  cases shown with
  | none => rfl
  | some s => simp [idText, idMark, Text.append_assoc]

/-- The template of a text is the message between the two. -/
theorem textLine_eq (r : Record) (now : Stamp) (id : Option Text) :
    r.textLine false now id =
      (filled (idMark (currentId id) ++ r.message.display ++ r.sourceText) r.args).map
        (r.readersText now) := by
  have htemplate : r.textTemplate false id
      = idMark (currentId id) ++ r.message.display ++ r.sourceText := by
    rw [← idText_eq_idMark]
    rfl
  unfold textLine
  rw [htemplate]
  cases filled (idMark (currentId id) ++ r.message.display ++ r.sourceText) r.args <;> rfl

theorem idMark_plain_iff {shown : Option Text} :
    Point.char '%' ∉ (idMark shown).points ↔
      ∀ s, shown = some s → Point.char '%' ∉ s.points.take 8 := by
  cases shown with
  | none => simp [idMark]
  | some s => simp [idMark]

theorem sourceText_plain_iff :
    Point.char '%' ∉ r.sourceText.points ↔
      (r.showCaller = true →
        Point.char '%' ∉ r.fileName.points ∧ Point.char '%' ∉ r.line.display.points) := by
  unfold sourceText
  cases r.showCaller with
  | false => simp
  | true => simp

theorem unmarked_iff :
    r.Unmarked id ↔
      Point.char '%' ∉ (idMark (currentId id)).points ∧ Point.char '%' ∉ r.sourceText.points := by
  rw [idMark_plain_iff, sourceText_plain_iff]
  exact ⟨fun h => ⟨h.id, h.source⟩, fun h => ⟨h.1, h.2⟩⟩

theorem Unmarked.tells (h : r.Unmarked id) (now : Stamp) : r.Tells now id := by
  obtain ⟨hid, hsource⟩ := unmarked_iff.mp h
  intro text htext
  rw [textLine_eq, filled_between hid hsource htext]
  rfl

/-- A message without arguments is no template, whatever is set around it. -/
theorem tells_of_no_args (h : r.args = []) : r.Tells now id := by
  intro text htext
  unfold Record.text at htext
  rw [h] at htext
  cases htext
  rw [textLine_eq, h]
  rfl

/-! ## §3. Percent signs around a message. -/

/-- A failure below a text adds its own percent signs. -/
theorem exists_count_withFailure (failure : Option Failure) :
    ∃ n, ∀ text,
      (withFailure text failure).points.count (.char '%') = text.points.count (.char '%') + n := by
  cases failure with
  | none => exact ⟨0, fun _ => rfl⟩
  | some f =>
      refine ⟨(failureText f).points.count (.char '%'), fun text => ?_⟩
      rw [withFailure, Text.points_append, List.count_append]
      split <;> simp

/-- A text for readers has the percent signs of its message on top of others. -/
theorem exists_count_readersText (r : Record) (now : Stamp) :
    ∃ n, ∀ message,
      (r.readersText now message).points.count (.char '%')
        = message.points.count (.char '%') + n := by
  obtain ⟨n, hn⟩ := exists_count_withFailure r.failure
  refine ⟨(clockText now ++ " - " ++ r.logger ++ " - " ++ r.level.name
    ++ " - " : Text).points.count (.char '%') + n, fun message => ?_⟩
  rw [readersText, hn, Text.points_append, List.count_append]
  omega

/-- The message that shows one argument. -/
theorem filled_argument : filled "%s" [.text ""] = .ok "" := by decide +kernel

/-- A template comes to a text with an empty argument. -/
theorem filled_empty_eq_ok_iff {template text : Text} :
    filled template [.text ""] = .ok text ↔
      Template.Filled template.points ⟨[.text ""], none⟩ text.points := by
  have hfilled : filled template [.text ""]
      = (Template.fill template.points (.values [.text ""])).map .ofPoints := rfl
  rw [hfilled, map_eq_ok_iff]
  constructor
  · rintro ⟨out, hout, rfl⟩
    rw [Text.points_ofPoints]
    exact Template.filled_iff.mp hout
  · intro h
    exact ⟨text.points, Template.filled_iff.mpr h, Text.ofPoints_points text⟩

/-- A record that tells an empty argument has nothing but plain text around its message. -/
theorem unmarked_of_tells (h : (r.saying (.text "%s") [.text ""]).Tells now id) :
    r.Unmarked id := by
  have htold := h "" filled_argument
  rw [textLine_eq] at htold
  obtain ⟨message, hmessage, heq⟩ := map_eq_ok_iff.mp htold
  -- The template has one percent sign more than what is set around it, and filled in it has
  -- one more than twice those of the message.
  have hcount := (filled_empty_eq_ok_iff.mp hmessage).count_percent
    ⟨rfl, List.forall_mem_singleton.mpr rfl⟩
  obtain ⟨n, hn⟩ := exists_count_readersText (r.saying (.text "%s") [.text ""]) now
  have hsame := congrArg (fun text => text.points.count (.char '%')) heq
  have hmessage : (r.saying (.text "%s") [.text ""]).message.display = "%s" := rfl
  have hsource : (r.saying (.text "%s") [.text ""]).sourceText = r.sourceText := rfl
  have hplace : ("%s" : Text).points.count (.char '%') = 1 := by decide
  have hempty : ("" : Text).points.count (.char '%') = 0 := by decide
  rw [hmessage, hsource] at hcount
  simp only [hn, hsource, Text.points_append, List.count_append, List.length_singleton, hplace,
    hempty] at hsame hcount
  rw [unmarked_iff, ← List.count_eq_zero, ← List.count_eq_zero]
  omega

/-! ## §4. The law. -/

/-- **MESSAGES ARE TOLD AS THEY ARE EXACTLY IN PLAIN SURROUNDINGS.**  Whatever message a record
of some place has, its text for readers tells the message as it is, if and only if no percent
sign stands in what is shown of the identifier and of the place.  Messages without arguments
are always told as they are, and an object always has the message as it is. -/
theorem decoration_law (r : Record) (now : Stamp) (id : Option Text) :
    ((∀ message args, (r.saying message args).Tells now id) ↔ r.Unmarked id) ∧
    (∀ message, (r.saying message []).Tells now id) ∧
    ∀ message args text, (r.saying message args).text = .ok text →
      ∃ fields, (r.saying message args).jsonLine now id = .ok (Value.object fields).compact ∧
        fields.lookup (.plain "message") = some (.text text) := by
  refine ⟨⟨fun h => unmarked_of_tells (h _ _), fun h message args => ?_⟩, fun message => ?_, ?_⟩
  · have hunmarked : (r.saying message args).Unmarked id := ⟨h.id, h.source⟩
    exact hunmarked.tells now
  · exact tells_of_no_args rfl
  · intro message args text htext
    refine ⟨(r.saying message args).fields now id text, ?_, ?_⟩
    · rw [jsonLine, htext]
      rfl
    · simp [Record.fields, Table.lookup_entry]

/-- The first moment of year one, in UTC. -/
def yearOne : Stamp := ⟨⟨0, zero_lt_civilSpan⟩, .utc⟩

/-- A record of a greeting. -/
def greeting : Record :=
  { logger := "zcapld.verifier", level := .number 20, path := "/src/zcapld/verifier.py"
    line := .int 42, function := some "verify", message := .text "hello %s", args := [.text "bob"]
    extra := none, showCaller := false, failure := none }

/-- An identifier with a percent sign makes the text of a greeting fail, although its message
can be filled in and is told under another identifier. -/
theorem escaped_identifier_fails :
    greeting.text = .ok "hello bob" ∧
    greeting.textLine false yearOne (some "req%20id") = .error (.realNeeded 'i' "str") ∧
    ¬ greeting.Tells yearOne (some "req%20id") ∧ greeting.Tells yearOne (some "req-20id") := by
  have htext : greeting.text = .ok "hello bob" := by decide +kernel
  have hfailed : greeting.textLine false yearOne (some "req%20id")
      = .error (.realNeeded 'i' "str") := by
    rw [textLine_eq]
    have hfilled : filled (idMark (currentId (some "req%20id")) ++ greeting.message.display ++
        greeting.sourceText) greeting.args = .error (.realNeeded 'i' "str") := by decide +kernel
    rw [hfilled]
    rfl
  have hunmarked : greeting.Unmarked (some "req-20id") := by
    refine ⟨fun shown hshown => ?_, fun hshown => by cases hshown⟩
    cases hshown
    decide
  refine ⟨htext, hfailed, fun htells => ?_, hunmarked.tells yearOne⟩
  have htold := htells _ htext
  rw [hfailed] at htold
  cases htold

end Record

end Mandate.Log
