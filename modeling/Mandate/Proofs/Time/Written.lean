/-
  Mandate.Proofs.Time.Written
  ────────────────────────────────
  **WRITTEN TIMES ARE READ BACK.**

  A time goes into a document in one form only, date and time of day in UTC and a
  final `Z`, while many more forms are read.  Every part of the written form has a
  fixed width, so a reader finds its end without looking at what comes behind.

  Main results:
    * `digits?_padded`          — a number in its full width is read back;
    * `dateLength?_chars`       — the date is told from the time of day;
    * `momentOfChars?_utcChars` — a civil time of UTC is read back;
    * `exists_timeText`         — a time that UTC has a year for is read back from the
                                  field it is written in;
    * `timeText_eq_iff`         — times are told in the same words exactly if they are the
                                  same instant;
    * `canonical_text_law`      — every instant has one text, which is read as itself.
-/
import Mandate.Document.Field
import Mathlib.Algebra.Group.Nat.Defs

namespace Mandate.Time

open Json (isDigit digitsValue)

/-! ## §1. Numbers of a fixed width. -/

theorem isDigit_of_mem_padded {width n : Nat} {c : Char} (h : c ∈ padded width n) :
    isDigit c = true := by
  unfold padded Decimal.digitsOf at h
  rcases List.mem_append.mp h with hzero | hdigit
  · rw [List.eq_of_mem_replicate hzero]
    decide
  · exact Nat.isDigit_of_mem_toDigits (by decide) (by decide) hdigit

theorem length_padded {width n : Nat} (hwidth : 0 < width) (hn : n < 10 ^ width) :
    (padded width n).length = width := by
  have hle : (Nat.toDigits 10 n).length ≤ width :=
    (Nat.length_toDigits_le_iff (by decide) hwidth).mpr hn
  simp only [padded, Decimal.digitsOf, List.length_append, List.length_replicate]
  omega

/-- A written number starts with a digit. -/
theorem exists_padded_eq_cons (width n : Nat) :
    ∃ c cs, padded width n = c :: cs ∧ isDigit c = true := by
  cases hpadded : padded width n with
  | nil => exact absurd (List.append_eq_nil_iff.mp hpadded).2 Nat.toDigits_ne_nil
  | cons c cs =>
      have hmem : c ∈ padded width n := by simp [hpadded]
      exact ⟨c, cs, rfl, isDigit_of_mem_padded hmem⟩

theorem digitsValue_padded (width n : Nat) : digitsValue (padded width n) = n := by
  have hvalue : ∀ ds, digitsValue ds = Nat.ofDigitChars 10 ds 0 := fun _ => rfl
  unfold padded Decimal.digitsOf
  rw [hvalue, Nat.ofDigitChars_append, Nat.ofDigitChars_replicate_zero, Nat.mul_zero,
    Nat.ofDigitChars_ten_toDigits]

/-- A number that is written in its full width is read back, whatever comes behind. -/
theorem digits?_padded {width n : Nat} (hwidth : 0 < width) (hn : n < 10 ^ width)
    (rest : List Char) : Iso.digits? width (padded width n ++ rest) = some (n, rest) := by
  have hlength := length_padded hwidth hn
  have htake : (padded width n ++ rest).take width = padded width n := List.take_left' hlength
  have hdrop : (padded width n ++ rest).drop width = rest := List.drop_left' hlength
  have hall : (padded width n).all isDigit = true :=
    List.all_eq_true.mpr fun _ => isDigit_of_mem_padded
  simp [Iso.digits?, htake, hdrop, hlength, hall, digitsValue_padded]

/-! ## §2. Dates. -/

theorem daysInMonth_le (year month : Nat) : daysInMonth year month ≤ 31 := by
  unfold daysInMonth
  split
  · omega
  · have hall : ∀ n ∈ monthLengths year, n ≤ 31 := by
      unfold monthLengths
      split <;> simp
    rw [List.getD_eq_getElem?_getD]
    cases h : (monthLengths year)[month - 1]? with
    | none => exact Nat.zero_le _
    | some n => exact hall n (List.mem_of_getElem? h)

section Dates

variable {d : Date}

/-- The parts of a date have the width that they are written in. -/
theorem Date.Valid.widths (hd : d.Valid) : d.year < 10 ^ 4 ∧ d.month < 10 ^ 2 ∧ d.day < 10 ^ 2 := by
  obtain ⟨-, hyear, -, hmonth, -, hday⟩ := hd
  have hmost := daysInMonth_le d.year d.month
  omega

theorem Date.Valid.length_chars (hd : d.Valid) : d.chars.length = 10 := by
  obtain ⟨hyear, hmonth, hday⟩ := hd.widths
  have hyears := length_padded (show 0 < 4 by decide) hyear
  have hmonths := length_padded Nat.two_pos hmonth
  have hdays := length_padded Nat.two_pos hday
  simp only [Date.chars, List.length_append, List.length_cons]
  omega

/-- In front of a time of day, the length of a date is found from its dashes. -/
theorem dateLength?_chars (hd : d.Valid) (c : Char) (rest : List Char) :
    Iso.dateLength? (d.chars ++ c :: rest) = some 10 := by
  have hyears := length_padded (show 0 < 4 by decide) hd.widths.1
  have hlength : (d.chars ++ c :: rest).length = rest.length + 11 := by
    rw [List.length_append, hd.length_chars, List.length_cons]
    omega
  have hdash : (d.chars ++ c :: rest).getD 4 Iso.endMark = '-' := by
    simp [Date.chars, List.getD_eq_getElem?_getD, hyears]
  -- A week would have its letter where the month has a digit.
  have hweek : ((d.chars ++ c :: rest).getD 5 Iso.endMark == 'W') = false := by
    obtain ⟨first, more, hmonths, hdigit⟩ := exists_padded_eq_cons 2 d.month
    have hfirst : (d.chars ++ c :: rest).getD 5 Iso.endMark = first := by
      simp [Date.chars, hmonths, List.getD_eq_getElem?_getD, List.getElem?_append_right, hyears]
    rw [hfirst, beq_eq_false_iff_ne]
    rintro rfl
    exact absurd hdigit (by decide)
  simp only [Iso.dateLength?, hlength, hdash, hweek, beq_self_eq_true, if_true,
    Bool.false_eq_true, if_false]
  rw [if_neg (by omega), if_neg (by omega)]

theorem date?_chars (hd : d.Valid) : Iso.date? d.chars = some d := by
  obtain ⟨hyear, hmonth, hday⟩ := hd.widths
  have hdays := digits?_padded Nat.two_pos hday []
  rw [List.append_nil] at hdays
  have hread : Iso.monthDate? d.year true (padded 2 d.month ++ '-' :: padded 2 d.day)
      = some d := by
    simp [Iso.monthDate?, digits?_padded Nat.two_pos hmonth, Iso.dash?, hdays, hd]
  obtain ⟨first, more, hmonths, hdigit⟩ := exists_padded_eq_cons 2 d.month
  rw [hmonths] at hread
  have hletter : first ≠ 'W' := by
    rintro rfl
    exact absurd hdigit (by decide)
  rw [Iso.date?, Date.chars, List.append_assoc, digits?_padded (by decide) hyear, hmonths]
  simpa [hletter] using hread

end Dates

/-! ## §3. Times of day. -/

section Clocks

variable {c : Clock}

theorem Clock.Valid.widths (hc : c.Valid) :
    c.hour < 10 ^ 2 ∧ c.minute < 10 ^ 2 ∧ c.second < 10 ^ 2 ∧ c.micro < 10 ^ 6 := by
  obtain ⟨hhour, hminute, hsecond, hmicro⟩ := hc
  omega

theorem startsZone_of_isDigit {ch : Char} (h : isDigit ch = true) :
    Iso.startsZone ch = false := by
  cases hzone : Iso.startsZone ch with
  | false => rfl
  | true =>
      simp only [Iso.startsZone, Bool.or_eq_true, beq_iff_eq] at hzone
      rcases hzone with (rfl | rfl) | rfl <;> exact absurd h (by decide)

/-- A time of day has no character that a zone could start with. -/
theorem startsZone_of_mem_chars {ch : Char} (h : ch ∈ c.chars) : Iso.startsZone ch = false := by
  have hdigit : ∀ {width n}, ch ∈ padded width n → Iso.startsZone ch = false :=
    fun hmem => startsZone_of_isDigit (isDigit_of_mem_padded hmem)
  simp only [Clock.chars, List.mem_append, List.mem_cons] at h
  rcases h with ((hmem | rfl | hmem) | rfl | hmem) | hmem
  · exact hdigit hmem
  · rfl
  · exact hdigit hmem
  · rfl
  · exact hdigit hmem
  · split at hmem
    · exact absurd hmem List.not_mem_nil
    · rcases List.mem_cons.mp hmem with rfl | hmem
      · rfl
      · exact hdigit hmem

/-- A pair of digits with a colon behind it is a field, and more fields follow. -/
theorem fields?_colon {behind : Char} {fields n : Nat} {colons : Option Bool} {got : List Nat}
    {rest : List Char} (hcolons : colons.getD true = true) (hn : n < 10 ^ 2) (hrest : rest ≠ []) :
    Iso.fields? behind (fields + 1) colons got (padded 2 n ++ ':' :: rest) =
      Iso.fields? behind fields (some true) (got ++ [n]) rest := by
  rw [Iso.fields?, digits?_padded Nat.two_pos hn]
  simp [hcolons, hrest]

/-- The fields of a time of day are told from each other by their colons, and the
fraction by its point. -/
theorem reading?_chars (hc : c.Valid) {behind : Char} (hbehind : behind.toNat < 0x80) :
    Iso.reading? c.chars behind =
      some ⟨c.hour, c.minute, c.second, c.micro, behind != Iso.endMark⟩ := by
  obtain ⟨hhour, hminute, hsecond, hmicro⟩ := hc.widths
  let tail := padded 2 c.second ++ (if c.micro = 0 then [] else '.' :: padded 6 c.micro)
  have htail : Iso.fields? behind 1 (some true) [c.hour, c.minute] tail =
      some ([c.hour, c.minute, c.second], c.micro, behind != Iso.endMark) := by
    rw [Iso.fields?, digits?_padded Nat.two_pos hsecond]
    by_cases hwhole : c.micro = 0
    · simp [hwhole, hbehind]
    · have hlength := length_padded (show 0 < 6 by decide) hmicro
      have hmicros := digits?_padded (show 0 < 6 by decide) hmicro []
      rw [List.append_nil] at hmicros
      simp [hwhole, Iso.fraction?, hlength, hmicros]
  have hchars : c.chars = padded 2 c.hour ++ ':' :: (padded 2 c.minute ++ ':' :: tail) := by
    simp [Clock.chars, tail]
  have htail_ne : tail ≠ [] := by
    obtain ⟨first, more, hseconds, -⟩ := exists_padded_eq_cons 2 c.second
    simp [tail, hseconds]
  rw [Iso.reading?, hchars, fields?_colon rfl hhour (by simp), fields?_colon rfl hminute htail_ne]
  simp [htail]

theorem time?_chars (hc : c.Valid) : Iso.time? (c.chars ++ ['Z']) = some (c, some .utc) := by
  have hinside : ∀ ch ∈ c.chars, (!Iso.startsZone ch) = true := by
    intro ch hch
    rw [startsZone_of_mem_chars hch]
    rfl
  have htake : (c.chars ++ ['Z']).takeWhile (!Iso.startsZone ·) = c.chars := by
    rw [List.takeWhile_append_of_pos hinside]
    simp [Iso.startsZone]
  have hdrop : (c.chars ++ ['Z']).dropWhile (!Iso.startsZone ·) = ['Z'] := by
    rw [List.dropWhile_append_of_pos hinside]
    simp [Iso.startsZone]
  have hread := reading?_chars hc (show 'Z'.toNat < 0x80 by decide)
  simp [Iso.time?, htake, hdrop, hread]

end Clocks

/-! ## §4. Whole texts. -/

/-- **WRITTEN TIMES ARE READ BACK.** -/
theorem momentOfChars?_utcChars (c : Civil) :
    Iso.momentOfChars? (Stamp.utcChars c) = some ⟨c, some .utc⟩ := by
  have hlength := (date_valid c).length_chars
  have hchars : Stamp.utcChars c = c.date.chars ++ 'T' :: (c.clock.chars ++ ['Z']) := by
    simp [Stamp.utcChars, Civil.chars]
  rw [hchars, Iso.momentOfChars?, dateLength?_chars (date_valid c)]
  simp [List.take_left' hlength, List.drop_left' hlength, date?_chars (date_valid c),
    time?_chars (clock_valid c), ofParts?_date_clock]

/-- The stamp of the same instant in UTC, where UTC has a year for it. -/
def Stamp.utc (s : Stamp) : Stamp := s.inUtc?.getD s

theorem Stamp.instant_utc (s : Stamp) : s.utc.instant = s.instant := by
  cases h : s.inUtc? with
  | none => rw [Stamp.utc, h, Option.getD_none]
  | some u => rw [Stamp.utc, h, Option.getD_some, instant_inUtc? h]

theorem Stamp.offset_of_inUtc? {s u : Stamp} (h : s.inUtc? = some u) : u.offset = .utc := by
  unfold Stamp.inUtc? Stamp.ofInstant? at h
  split at h
  · cases h
    rfl
  · cases h

theorem Iso.withSeparator_chars (cs : List Char) :
    Iso.withSeparator (cs.map .char) = cs.map .char := by
  have hno (n : Nat) : ((cs.map Point.char)[n]?.any Iso.isHalf) = false := by
    rw [List.getElem?_map]
    cases cs[n]? <;> rfl
  simp only [Iso.withSeparator, Iso.separatorPlaces, List.find?_cons, hno, List.find?_nil]

theorem Iso.chars?_chars (cs : List Char) : Iso.chars? (cs.map .char) = some cs := by
  induction cs with
  | nil => rfl
  | cons c cs ih =>
      unfold Iso.chars? at ih ⊢
      rw [List.map_cons, List.mapM_cons, ih]
      rfl

/-- A text without halves denotes what its characters do. -/
theorem Iso.moment?_plain (s : String) : Iso.moment? s = Iso.momentOfChars? s.toList := by
  rw [Iso.moment?, Text.points_plain, Iso.withSeparator_chars, Iso.chars?_chars, Option.bind_some]

/-- A time that UTC has a year for is written, and read as its stamp in UTC. -/
theorem exists_timeText {s : Stamp} (h : s.inUtc? ≠ none) :
    ∃ text, Document.timeText s = .ok text ∧
      ∀ name, Document.readTime name (.text text) = .ok (some s.utc) := by
  obtain ⟨u, hu⟩ := Option.ne_none_iff_exists'.mp h
  have hstamp : Moment.stamp ⟨u.civil, some .utc⟩ = s.utc := by
    rw [Moment.stamp, Option.getD_some, ← Stamp.offset_of_inUtc? hu, Stamp.utc, hu,
      Option.getD_some]
  have hread : Iso.moment? (String.ofList (Stamp.utcChars u.civil))
      = some ⟨u.civil, some .utc⟩ := by
    rw [Iso.moment?_plain, String.toList_ofList, momentOfChars?_utcChars]
  refine ⟨String.ofList (Stamp.utcChars u.civil), ?_, fun name => ?_⟩
  · rw [Document.timeText, Stamp.documentText?, hu, Option.map_some]
  · rw [Document.readTime, hread, ← hstamp]

/-- Nothing is written of a time that UTC has no year for. -/
theorem inUtc?_ne_none_of_timeText {s : Stamp} {text : String}
    (h : Document.timeText s = .ok text) : s.inUtc? ≠ none := by
  intro hnone
  rw [Document.timeText, Stamp.documentText?, hnone] at h
  cases h

/-! ## §5. Canonical texts. -/

/-- A time is told in UTC, so that its instant is all that counts. -/
theorem timeText_congr {t t' : Stamp} (h : t'.instant = t.instant) :
    Document.timeText t' = Document.timeText t := by
  have hutc : t'.inUtc? = t.inUtc? := by
    unfold Stamp.inUtc?
    rw [h]
  unfold Document.timeText Stamp.documentText?
  rw [hutc]

/-- Two times are told in the same words exactly if they are the same instant, as long as
UTC has a year for one of them. -/
theorem timeText_eq_iff {t t' : Stamp} (ht : t.inUtc? ≠ none) :
    Document.timeText t' = Document.timeText t ↔ t'.instant = t.instant := by
  constructor
  · intro h
    obtain ⟨text, htext, hread⟩ := exists_timeText ht
    rw [htext] at h
    obtain ⟨text', htext', hagain⟩ := exists_timeText (inUtc?_ne_none_of_timeText h)
    -- Both are read back from the one text, as the same stamp in UTC.
    have hsame : text' = text := Except.ok.inj (htext'.symm.trans h)
    rw [hsame] at hagain
    have hutc : t'.utc = t.utc :=
      Option.some.inj (Except.ok.inj ((hagain "").symm.trans (hread "")))
    rw [← t'.instant_utc, ← t.instant_utc, hutc]
  · exact timeText_congr

/-- The time that a text denotes is told in these words. -/
def ToldAs (name : String) (text : Text) (words : String) : Prop :=
  ∃ t, Document.readTime name (.text text) = .ok (some t) ∧ Document.timeText t = .ok words

/-- **ONE TEXT FOR EVERY INSTANT.**  The time that a text denotes, if UTC has a year for it,
is told in words that are read again, denote the same instant, and are told in these very
words.  And of all texts that denote times, exactly those that denote this instant are told
in these words. -/
theorem canonical_text_law {name : String} {text : Text} {t : Stamp}
    (hread : Document.readTime name (.text text) = .ok (some t)) (ht : t.inUtc? ≠ none) :
    ∃ words, ToldAs name text words ∧ ToldAs name words words ∧
      (∃ u, Document.readTime name (.text words) = .ok (some u) ∧ u.instant = t.instant) ∧
      ∀ text' t', Document.readTime name (.text text') = .ok (some t') →
        (ToldAs name text' words ↔ t'.instant = t.instant) := by
  obtain ⟨words, hwords, hagain⟩ := exists_timeText ht
  have htold : Document.timeText t.utc = .ok words := by
    rw [timeText_congr t.instant_utc, hwords]
  refine ⟨words, ⟨t, hread, hwords⟩, ⟨t.utc, hagain name, htold⟩,
    ⟨t.utc, hagain name, t.instant_utc⟩, fun text' t' hread' => ?_⟩
  rw [← timeText_eq_iff ht, hwords]
  constructor
  · intro h
    obtain ⟨s, hs, hsaid⟩ := h
    rw [hread'] at hs
    cases hs
    exact hsaid
  · intro h
    exact ⟨t', hread', h⟩

/-- The first day of 2021, three hours ahead of UTC. -/
def newYear : Stamp :=
  ⟨⟨737790 * day, by decide⟩, ⟨3 * 3600 * second, by decide⟩⟩

/-- Told by its week and by the clocks of that place, it is the last evening of 2020 in UTC,
and is told in the same words. -/
theorem new_year_told_by_utc :
    Document.readTime "expires" (.text "2020-W53-5T00:00+03:00") = .ok (some newYear) ∧
    newYear.inUtc? ≠ none ∧
    ∃ words, ToldAs "expires" "2020-W53-5T00:00+03:00" words ∧
      ToldAs "expires" "20201231 21" words := by
  have hread : Document.readTime "expires" (.text "2020-W53-5T00:00+03:00")
      = .ok (some newYear) := rfl
  have hutc : newYear.inUtc? ≠ none := by decide
  obtain ⟨words, htold, -, -, hexact⟩ := canonical_text_law hread hutc
  have hevening : Document.readTime "expires" (.text "20201231 21")
      = .ok (some ⟨⟨737789 * day + 21 * 3600 * second, by decide⟩, .utc⟩) := rfl
  exact ⟨hread, hutc, words, htold, (hexact _ _ hevening).mpr rfl⟩

end Mandate.Time
