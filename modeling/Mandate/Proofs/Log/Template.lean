/-
  Mandate.Proofs.Log.Template
  ────────────────────────────────
  **TEMPLATES WITH PLAIN TEXT AROUND THEM.**

  A template is scanned from the left, and every scanner stops at the first character that it
  does not take.  What stands behind that character makes no difference, so plain text around a
  template that can be filled comes out as plain text around its result.

      Scans  — a scanner takes characters off the front and stops at the first other one
      Spells — the characters of a place, wherever it stands
      Fills  — the characters that a place comes to, and the arguments behind it
      Filled — the text that a template comes to
      Blank  — arguments that are empty texts

  Main results:
    * `Scans.followedBy` — scanners one after the other are a scanner;
    * `scanPlace_spec`   — a place with a kind is scanned alike whatever stands behind it;
    * `filled_iff`       — what a template comes to does not hang on where it stands;
    * `fill_between`     — so it is filled alike between plain texts;
    * `count_percent`    — and with empty texts it has two percent signs for each that comes
                           out, and one for each text.
-/
import Mandate.Log.Template
import Mandate.Proofs.Success

namespace Mandate.Log.Template

open Json (Value)

/-! ## §1. Scanners. -/

section Scanners

variable {α β : Type} {f : List Point → α × List Point} {g : List Point → β × List Point}

/-- A scanner takes characters off the front, none of them a percent sign, and what stands
behind the first that it leaves makes no difference. -/
structure Scans (f : List Point → α × List Point) : Prop where
  takes : ∀ cs, ∃ taken, cs = taken ++ (f cs).2 ∧ .char '%' ∉ taken
  settles : ∀ cs more, (f cs).2 ≠ [] → f (cs ++ more) = ((f cs).1, (f cs).2 ++ more)

/-- Two scanners, one after the other. -/
def followedBy (f : List Point → α × List Point) (g : List Point → β × List Point)
    (cs : List Point) : (α × β) × List Point :=
  (((f cs).1, (g (f cs).2).1), (g (f cs).2).2)

theorem Scans.ne_nil (hg : Scans g) {cs : List Point} (h : (g cs).2 ≠ []) : cs ≠ [] := by
  obtain ⟨taken, hcs, -⟩ := hg.takes cs
  rw [hcs]
  exact List.append_ne_nil_of_right_ne_nil taken h

/-- Scanners one after the other are a scanner. -/
theorem Scans.followedBy (hf : Scans f) (hg : Scans g) : Scans (followedBy f g) := by
  refine ⟨fun cs => ?_, fun cs more h => ?_⟩
  · obtain ⟨first, hfirst, hplain⟩ := hf.takes cs
    obtain ⟨second, hsecond, hplain'⟩ := hg.takes (f cs).2
    refine ⟨first ++ second, ?_, by simp [hplain, hplain']⟩
    calc cs = first ++ (f cs).2 := hfirst
      _ = first ++ (second ++ (g (f cs).2).2) := by rw [← hsecond]
      _ = first ++ second ++ (g (f cs).2).2 := (List.append_assoc _ _ _).symm
  · unfold Template.followedBy
    rw [hf.settles cs more (hg.ne_nil h), hg.settles _ more h]

/-- Nothing is scanned. -/
theorem scans_nothing (a : α) : Scans fun cs => (a, cs) :=
  ⟨fun _ => ⟨[], rfl, List.not_mem_nil⟩, fun _ _ _ => rfl⟩

/-- Another reading of what is scanned. -/
theorem Scans.map (hf : Scans f) (read : α → β) : Scans fun cs => (read (f cs).1, (f cs).2) := by
  refine ⟨hf.takes, fun cs more h => ?_⟩
  rw [hf.settles cs more h]

/-- The longest part of such characters is scanned. -/
theorem scans_span {p : Point → Bool} (hp : p (.char '%') = false) :
    Scans fun cs => (cs.takeWhile p, cs.dropWhile p) := by
  refine ⟨fun cs => ⟨cs.takeWhile p, List.takeWhile_append_dropWhile.symm, ?_⟩, fun cs more h => ?_⟩
  · intro hmem
    rw [List.all_eq_true.mp List.all_takeWhile _ hmem] at hp
    cases hp
  · induction cs with
    | nil => exact absurd rfl h
    | cons c cs ih =>
        cases hc : p c with
        | false => simp [hc]
        | true =>
            simp only [List.dropWhile_cons, hc, if_true] at h
            have ih := Prod.mk.inj (ih h)
            simp [hc, ih.1, ih.2]

/-- By the first character, one scanner goes on behind it or another one starts with it. -/
theorem Scans.branch {p : Point → Prop} {e : List Point → α × List Point} (hf : Scans f)
    (he : Scans e) (hp : ¬ p (.char '%')) {whole : List Point → α × List Point}
    (hbehind : ∀ c cs, p c → whole (c :: cs) = f cs)
    (hstart : ∀ cs, (∀ c rest, cs = c :: rest → ¬ p c) → whole cs = e cs) : Scans whole := by
  have hcons : ∀ c cs, ¬ p c → whole (c :: cs) = e (c :: cs) := by
    intro c cs hc
    refine hstart _ fun d rest hd => ?_
    cases hd
    exact hc
  -- The first character decides, and what stands behind the last one does not change it.
  refine ⟨fun cs => ?_, fun cs more h => ?_⟩
  · cases cs with
    | nil =>
        rw [hstart [] nofun]
        exact he.takes []
    | cons c cs =>
        by_cases hc : p c
        · obtain ⟨taken, hcs, hplain⟩ := hf.takes cs
          rw [hbehind c cs hc]
          refine ⟨c :: taken, congrArg (c :: ·) hcs, fun hmem => ?_⟩
          rcases List.mem_cons.mp hmem with rfl | hmem
          · exact hp hc
          · exact hplain hmem
        · rw [hcons c cs hc]
          exact he.takes (c :: cs)
  · cases cs with
    | nil =>
        rw [hstart [] nofun] at h
        exact absurd rfl (he.ne_nil h)
    | cons c cs =>
        by_cases hc : p c
        · rw [hbehind c cs hc] at h ⊢
          rw [List.cons_append, hbehind c _ hc]
          exact hf.settles cs more h
        · rw [hcons c cs hc] at h ⊢
          rw [List.cons_append, hcons c _ hc]
          exact he.settles (c :: cs) more h

end Scanners

theorem scans_flags :
    Scans fun cs => (cs.takeWhile (·.isChar isFlag), cs.dropWhile (·.isChar isFlag)) :=
  scans_span rfl

/-- A number in digits, if there are any. -/
def amountOf (ds : List Point) : Amount :=
  if ds.isEmpty then .none else .given (ds.foldl (fun n d => 10 * n + (d.toNat - 48)) 0)

theorem scans_amount : Scans scanAmount := by
  have hdigits : Scans fun cs => (cs.takeWhile (·.isChar Char.isDigit),
    cs.dropWhile (·.isChar Char.isDigit)) :=
    scans_span (by decide)
  refine (scans_nothing .taken).branch (hdigits.map amountOf) (p := (· = .char '*'))
    (by decide) ?_ ?_
  · rintro _ cs rfl
    rfl
  · intro cs hcs
    unfold scanAmount
    split
    next => exact absurd rfl (hcs _ _ rfl)
    next =>
      have hall := List.takeWhile_append_dropWhile (p := (·.isChar Char.isDigit)) (l := cs)
      cases hds : cs.takeWhile (·.isChar Char.isDigit) with
      | nil =>
          rw [hds, List.nil_append] at hall
          simp [hall, amountOf]
      | cons d ds => simp [amountOf]

/-- The precision a point and an amount behind it stand for: a point alone is for none. -/
def precisionOf : Amount → Amount
  | .none => .given 0
  | found => found

theorem scans_precision : Scans scanPrecision := by
  refine (scans_amount.map precisionOf).branch (scans_nothing .none) (p := (· = .char '.'))
    (by decide) ?_ ?_
  · rintro _ cs rfl
    rw [scanPrecision]
    cases h : scanAmount cs with
    | mk amount rest => cases amount <;> rfl
  · intro cs hcs
    unfold scanPrecision
    split
    next => exact absurd rfl (hcs _ _ rfl)
    next => rfl

/-- A mark of the size of an argument, which makes no difference. -/
def scanSize (cs : List Point) : Unit × List Point :=
  ((), match cs with
    | .char 'h' :: more | .char 'l' :: more | .char 'L' :: more => more
    | _ => cs)

theorem scans_size : Scans scanSize := by
  refine (scans_nothing ()).branch (scans_nothing ())
    (p := fun c => c = .char 'h' ∨ c = .char 'l' ∨ c = .char 'L') (by decide) ?_ ?_
  · rintro _ cs (rfl | rfl | rfl) <;> rfl
  · intro cs hcs
    unfold scanSize
    split
    next => exact absurd (.inl rfl) (hcs _ _ rfl)
    next => exact absurd (.inr (.inl rfl)) (hcs _ _ rfl)
    next => exact absurd (.inr (.inr rfl)) (hcs _ _ rfl)
    next => rfl

/-- What stands between the name of a place and its kind. -/
def scanShape : List Point → (List Point × Amount × Amount × Unit) × List Point :=
  followedBy (fun cs => (cs.takeWhile (·.isChar isFlag), cs.dropWhile (·.isChar isFlag)))
    (followedBy scanAmount (followedBy scanPrecision scanSize))

theorem scans_shape : Scans scanShape :=
  scans_flags.followedBy (scans_amount.followedBy (scans_precision.followedBy scans_size))

/-! ## §2. Places. -/

/-- A place with its kind at another index. -/
def Place.at (p : Place) (index : Nat) : Place :=
  { p with kind := p.kind.map fun k => (k.1, index) }

/-- A place of a key, a shape and a kind. -/
def placeOf (key : Key) (shape : List Point × Amount × Amount × Unit)
    (kind : Option (Point × Nat)) : Place :=
  { key, left := shape.1.contains (.char '-'), plus := shape.1.contains (.char '+')
    blank := shape.1.contains (.char ' '), alternate := shape.1.contains (.char '#')
    zero := shape.1.contains (.char '0'), width := shape.2.1, precision := shape.2.2.1, kind }

/-- What the scanners leave behind a percent sign: the kind of the place and all else. -/
def behindShape (cs : List Point) : List Point :=
  (scanShape (scanKey cs).2).2

theorem scanPlace_eq (start : Nat) (cs : List Point) :
    scanPlace start cs =
      (placeOf (scanKey cs).1 (scanShape (scanKey cs).2).1
        ((behindShape cs).head?.map fun c => (c, start + (cs.length - (behindShape cs).length))),
        cs.length - (behindShape cs).length + 1) := rfl

theorem scanName_spec {depth : Nat} {cs name rest : List Point}
    (h : scanName depth cs = some (name, rest)) :
    (∃ taken, cs = taken ++ rest) ∧
      ∀ more, scanName depth (cs ++ more) = some (name, rest ++ more) := by
  fun_induction scanName depth cs generalizing name with
  | case1 => cases h
  | case2 rest =>
      cases h
      exact ⟨⟨[.char ')'], rfl⟩, fun _ => rfl⟩
  | case3 depth cs ih =>
      obtain ⟨⟨n, r⟩, hn, hp⟩ := Option.map_eq_some_iff.mp h
      cases hp
      obtain ⟨⟨taken, rfl⟩, hmore⟩ := ih hn
      refine ⟨⟨.char ')' :: taken, rfl⟩, fun more => ?_⟩
      rw [List.cons_append, scanName, hmore]
      rfl
  | case4 depth cs ih =>
      obtain ⟨⟨n, r⟩, hn, hp⟩ := Option.map_eq_some_iff.mp h
      cases hp
      obtain ⟨⟨taken, rfl⟩, hmore⟩ := ih hn
      refine ⟨⟨.char '(' :: taken, rfl⟩, fun more => ?_⟩
      rw [List.cons_append, scanName, hmore]
      rfl
  | case5 depth c cs h0 h1 h2 ih =>
      obtain ⟨⟨n, r⟩, hn, hp⟩ := Option.map_eq_some_iff.mp h
      cases hp
      obtain ⟨⟨taken, rfl⟩, hmore⟩ := ih hn
      refine ⟨⟨c :: taken, rfl⟩, fun more => ?_⟩
      rw [List.cons_append, scanName, hmore]
      · rfl
      all_goals assumption

theorem scanKey_bracket (rest : List Point) :
    scanKey (.char '(' :: rest) = match scanName 0 rest with
      | some (name, rest) => (.named (.ofPoints name), rest)
      | none => (.unclosed, []) := rfl

theorem scanKey_of_ne {c : Point} (h : c ≠ .char '(') (cs : List Point) :
    scanKey (c :: cs) = (.none, c :: cs) := by
  unfold scanKey
  split
  next heq => exact absurd (List.cons.inj heq).1 h
  next => rfl

/-- A name is closed wherever something is left behind it, and then what stands behind that
makes no difference. -/
theorem scanKey_spec {cs : List Point} (h : (scanKey cs).2 ≠ []) :
    (∃ taken, cs = taken ++ (scanKey cs).2 ∧ ((scanKey cs).1 = .none → taken = [])) ∧
      ∀ more, scanKey (cs ++ more) = ((scanKey cs).1, (scanKey cs).2 ++ more) := by
  cases cs with
  | nil => exact absurd rfl h
  | cons c cs =>
      by_cases hc : c = .char '('
      · subst hc
        rw [scanKey_bracket] at h ⊢
        cases hname : scanName 0 cs with
        | none =>
            rw [hname] at h
            exact absurd rfl h
        | some found =>
            obtain ⟨⟨taken, htaken⟩, hmore⟩ := scanName_spec hname
            refine ⟨⟨.char '(' :: taken, congrArg (.char '(' :: ·) htaken, nofun⟩, fun more => ?_⟩
            rw [List.cons_append, scanKey_bracket, hmore more]
      · rw [scanKey_of_ne hc]
        refine ⟨⟨[], rfl, fun _ => rfl⟩, fun more => ?_⟩
        rw [List.cons_append, scanKey_of_ne hc]

/-- **PLACES ARE SCANNED UP TO THEIR KIND.**  A place with a kind is scanned alike whatever
stands behind it, and without a name it has no percent sign before its kind. -/
theorem scanPlace_spec {start index : Nat} {cs : List Point} {c : Point}
    (h : (scanPlace start cs).1.kind = some (c, index)) :
    ∃ taken rest, cs = taken ++ c :: rest ∧ (scanPlace start cs).2 = taken.length + 1 ∧
      ((scanPlace start cs).1.key = .none → .char '%' ∉ taken) ∧
      ∀ start' more, scanPlace start' (cs ++ more)
        = ((scanPlace start cs).1.at (start' + taken.length), taken.length + 1) := by
  rw [scanPlace_eq] at h ⊢
  obtain ⟨d, hd, hkind⟩ := Option.map_eq_some_iff.mp h
  cases hkind
  obtain ⟨rest, hrest⟩ := List.head?_eq_some_iff.mp hd
  -- The scanners leave the kind, so they have not looked behind it.
  have hne : behindShape cs ≠ [] := by
    rw [hrest]
    exact List.cons_ne_nil c rest
  obtain ⟨shape, hshape, hplain⟩ := scans_shape.takes (scanKey cs).2
  obtain ⟨⟨key, hkey, hnone⟩, hmore⟩ := scanKey_spec (scans_shape.ne_nil hne)
  have hcs : cs = (key ++ shape) ++ behindShape cs := by
    rw [List.append_assoc, behindShape, ← hshape]
    exact hkey
  have hused : cs.length - (behindShape cs).length = (key ++ shape).length := by
    have hlength := congrArg List.length hcs
    rw [List.length_append] at hlength
    omega
  rw [hused]
  refine ⟨key ++ shape, rest, hrest ▸ hcs, rfl, fun hk => ?_, fun start' more => ?_⟩
  · rw [hnone hk]
    exact hplain
  · have hshape' := scans_shape.settles _ more hne
    have hbehind : behindShape (cs ++ more) = behindShape cs ++ more := by
      unfold behindShape
      rw [hmore, hshape']
    have hused' :
        (cs ++ more).length - (behindShape cs ++ more).length = (key ++ shape).length := by
      rw [← hused, List.length_append, List.length_append]
      omega
    rw [scanPlace_eq, hbehind, hused', hmore, hshape', hrest]
    rfl

/-! ## §3. Pieces. -/

theorem piecesFrom_nil (index : Nat) : piecesFrom index [] = [] := by
  rw [piecesFrom]

theorem piecesFrom_percent (index : Nat) (rest : List Point) :
    piecesFrom index (.char '%' :: .char '%' :: rest)
      = .point (.char '%') :: piecesFrom (index + 2) rest := by
  rw [piecesFrom]

theorem piecesFrom_place (index : Nat) {rest : List Point} (h : rest.head? ≠ some (.char '%')) :
    piecesFrom index (.char '%' :: rest) =
      .place (scanPlace (index + 1) rest).1 ::
        piecesFrom (index + 1 + (scanPlace (index + 1) rest).2)
          (rest.drop (scanPlace (index + 1) rest).2) := by
  rw [piecesFrom]
  rintro more rfl
  exact h rfl

theorem piecesFrom_point (index : Nat) {c : Point} (h : c ≠ .char '%') (rest : List Point) :
    piecesFrom index (c :: rest) = .point c :: piecesFrom (index + 1) rest := by
  rw [piecesFrom]
  · rintro more rfl
    exact absurd rfl h
  · exact h

/-! ## §4. Filling. -/

/-- The characters of a place and the arguments behind it: the arguments go to its name, to its
width and precision if they are taken from there, and to its kind. -/
inductive Fills (p : Place) (s : Supply) : List Point → Supply → Prop
  | intro {s₁ s₂ s₃ s' : Supply} {turned : Bool} {width index : Nat} {precision : Option Nat}
      {c : Point} {v : Value} {b : Body} (hselect : s.select p.key = .ok s₁)
      (hwidth : s₁.width p.width = .ok (turned, width, s₂))
      (hprecision : s₂.precision p.precision = .ok (precision, s₃))
      (hkind : p.kind = some (c, index)) (hnext : s₃.next = .ok (v, s'))
      (hbody : body p precision c index v = .ok b) :
      Fills p s (b.set (p.left || turned) p.zero width) s'

section Filling

variable {p : Place} {s s' : Supply} {out : List Point}

theorem Place.fill_eq_ok_iff : p.fill s = .ok (out, s') ↔ Fills p s out s' := by
  unfold Place.fill
  simp only [Capability.bind_eq_ok]
  constructor
  · rintro ⟨s₁, hselect, ⟨turned, width, s₂⟩, hwidth, ⟨precision, s₃⟩, hprecision, h⟩
    split at h
    next => cases h
    next c index hkind =>
      simp only [Capability.bind_eq_ok] at h
      obtain ⟨⟨v, s₄⟩, hnext, b, hbody, heq⟩ := h
      cases heq
      exact .intro hselect hwidth hprecision hkind hnext hbody
  · rintro ⟨hselect, hwidth, hprecision, hkind, hnext, hbody⟩
    refine ⟨_, hselect, _, hwidth, _, hprecision, ?_⟩
    simp only [hkind, Capability.bind_eq_ok]
    exact ⟨_, hnext, _, hbody, rfl⟩

theorem body_at {precision : Option Nat} {c : Point} {index : Nat} {v : Value} {b : Body}
    (h : body p precision c index v = .ok b) (n : Nat) :
    body (p.at n) precision c n v = .ok b := by
  cases c with
  | half _ => cases h
  | char c =>
      show bodyOfKind (p.at n) precision c n v = .ok b
      change bodyOfKind p precision c index v = .ok b at h
      unfold bodyOfKind at h ⊢
      split_ifs at h ⊢
      all_goals exact h

/-- Where a place stands makes no difference, unless its kind is unknown. -/
theorem Fills.at (h : Fills p s out s') (n : Nat) : Fills (p.at n) s out s' := by
  obtain ⟨hselect, hwidth, hprecision, hkind, hnext, hbody⟩ := h
  have hkind' : (p.at n).kind = p.kind.map fun k => (k.1, n) := rfl
  rw [hkind] at hkind'
  exact .intro (p := p.at n) hselect hwidth hprecision hkind' hnext (body_at hbody n)

end Filling

/-- Behind a percent sign, a place is spelled by some characters and its kind, wherever it
stands and whatever more there is at the end. -/
structure Spells (taken : List Point) (c : Point) (rest : List Point) (p : Place) : Prop where
  head : (taken ++ c :: rest).head? ≠ some (.char '%')
  plain : p.key = .none → .char '%' ∉ taken
  kind : p.kind.map (·.1) = some c
  scan : ∀ start more, scanPlace start (taken ++ c :: (rest ++ more))
    = (p.at (start + taken.length), taken.length + 1)

theorem Spells.append {taken rest : List Point} {c : Point} {p : Place} (h : Spells taken c rest p)
    (more : List Point) : Spells taken c (rest ++ more) p := by
  refine ⟨?_, h.plain, h.kind, fun start more' => ?_⟩
  · have hhead : (taken ++ c :: (rest ++ more)).head? = (taken ++ c :: rest).head? := by
      cases taken <;> rfl
    rw [hhead]
    exact h.head
  · rw [List.append_assoc]
    exact h.scan start (more ++ more')

theorem Spells.of_kind {start index : Nat} {cs : List Point} {c : Point}
    (hhead : cs.head? ≠ some (.char '%')) (h : (scanPlace start cs).1.kind = some (c, index)) :
    ∃ taken rest, cs = taken ++ c :: rest ∧ (scanPlace start cs).2 = taken.length + 1 ∧
      Spells taken c rest (scanPlace start cs).1 := by
  obtain ⟨taken, rest, hcs, hused, hplain, hscan⟩ := scanPlace_spec h
  refine ⟨taken, rest, hcs, hused, ⟨hcs ▸ hhead, hplain, ?_, fun start' more => ?_⟩⟩
  · rw [h]
    rfl
  · have hmore : cs ++ more = taken ++ c :: (rest ++ more) := by
      rw [hcs, List.append_assoc]
      rfl
    rw [← hmore]
    exact hscan start' more

/-- The text that a template comes to with arguments. -/
inductive Filled : List Point → Supply → List Point → Prop
  | nil {s : Supply} (h : s.named = none → s.left = []) : Filled [] s []
  | percent {s : Supply} {rest out : List Point} (h : Filled rest s out) :
      Filled (.char '%' :: .char '%' :: rest) s (.char '%' :: out)
  | point {s : Supply} {c : Point} {rest out : List Point} (hc : c ≠ .char '%')
      (h : Filled rest s out) : Filled (c :: rest) s (c :: out)
  | place {s s' : Supply} {p : Place} {c : Point} {taken rest chars out : List Point}
      (hspells : Spells taken c rest p) (hfills : Fills p s chars s') (h : Filled rest s' out) :
      Filled (.char '%' :: (taken ++ c :: rest)) s (chars ++ out)

theorem fillPieces_nil_eq_ok_iff {s : Supply} {out : List Point} :
    fillPieces [] s = .ok out ↔ (s.named = none → s.left = []) ∧ out = [] := by
  unfold fillPieces
  split
  next h =>
    rw [Bool.and_eq_true, Option.isNone_iff_eq_none, Bool.not_eq_true', List.isEmpty_eq_false_iff]
      at h
    exact iff_of_false (fun herror => by cases herror) fun hleft => h.2 (hleft.1 h.1)
  next h =>
    rw [Bool.and_eq_true, Option.isNone_iff_eq_none, Bool.not_eq_true', List.isEmpty_eq_false_iff,
      not_and, Decidable.not_not] at h
    rw [and_iff_right h, Except.ok.injEq, eq_comm]

theorem fillPieces_point_eq_ok_iff {s : Supply} {c : Point} {ps : List Piece} {out : List Point} :
    fillPieces (.point c :: ps) s = .ok out ↔
      ∃ more, fillPieces ps s = .ok more ∧ c :: more = out := by
  rw [fillPieces, map_eq_ok_iff]

theorem fillPieces_place_eq_ok_iff {s : Supply} {p : Place} {ps : List Piece} {out : List Point} :
    fillPieces (.place p :: ps) s = .ok out ↔
      ∃ chars s' more, Fills p s chars s' ∧ fillPieces ps s' = .ok more ∧ chars ++ more = out := by
  rw [fillPieces, Capability.bind_eq_ok]
  constructor
  · rintro ⟨⟨chars, s'⟩, hplace, h⟩
    obtain ⟨more, hmore, hout⟩ := Capability.bind_eq_ok.mp h
    exact ⟨chars, s', more, Place.fill_eq_ok_iff.mp hplace, hmore, Except.ok.inj hout⟩
  · rintro ⟨chars, s', more, hplace, hmore, hout⟩
    exact ⟨_, Place.fill_eq_ok_iff.mpr hplace,
      Capability.bind_eq_ok.mpr ⟨more, hmore, congrArg Except.ok hout⟩⟩

theorem Fills.exists_kind {p : Place} {s s' : Supply} {out : List Point} (h : Fills p s out s') :
    ∃ c index, p.kind = some (c, index) := by
  cases h with
  | intro _ _ _ hkind _ _ => exact ⟨_, _, hkind⟩

theorem filled_of_fillPieces {index : Nat} {cs : List Point} {s : Supply} {out : List Point}
    (h : fillPieces (piecesFrom index cs) s = .ok out) : Filled cs s out := by
  fun_induction piecesFrom index cs generalizing s out with
  | case1 index =>
      obtain ⟨hleft, rfl⟩ := fillPieces_nil_eq_ok_iff.mp h
      exact .nil hleft
  | case2 index rest ih =>
      obtain ⟨more, hmore, rfl⟩ := fillPieces_point_eq_ok_iff.mp h
      exact .percent (ih hmore)
  | case3 index rest hhead place used hscan ih =>
      obtain ⟨chars, s', more, hfills, hmore, rfl⟩ := fillPieces_place_eq_ok_iff.mp h
      -- Only a place with a kind can be filled.
      obtain ⟨c, k, hkind⟩ := hfills.exists_kind
      have hplace : (scanPlace (index + 1) rest).1 = place := by rw [hscan]
      have hne : rest.head? ≠ some (.char '%') := by
        intro hpercent
        obtain ⟨tail, htail⟩ := List.head?_eq_some_iff.mp hpercent
        exact hhead tail htail
      rw [← hplace] at hkind
      obtain ⟨taken, behind, hrest, hlength, hspells⟩ := Spells.of_kind hne hkind
      rw [hplace] at hspells
      have hused : used = taken.length + 1 := by rw [← hlength, hscan]
      have hdrop : rest.drop used = behind := by
        rw [hrest, hused, List.drop_length_add_append]
        rfl
      rw [hdrop] at ih hmore
      rw [hrest]
      exact .place hspells hfills (ih hmore)
  | case4 index c rest hpercent hc ih =>
      obtain ⟨more, hmore, rfl⟩ := fillPieces_point_eq_ok_iff.mp h
      exact .point hc (ih hmore)

theorem fillPieces_of_filled {cs : List Point} {s : Supply} {out : List Point} (h : Filled cs s out)
    (index : Nat) : fillPieces (piecesFrom index cs) s = .ok out := by
  induction h generalizing index with
  | nil h =>
      rw [piecesFrom_nil]
      exact fillPieces_nil_eq_ok_iff.mpr ⟨h, rfl⟩
  | percent h ih =>
      rw [piecesFrom_percent]
      exact fillPieces_point_eq_ok_iff.mpr ⟨_, ih _, rfl⟩
  | point hc h ih =>
      rw [piecesFrom_point index hc]
      exact fillPieces_point_eq_ok_iff.mpr ⟨_, ih _, rfl⟩
  | @place s s' p c taken rest chars out hspells hfills h ih =>
      have hscan := hspells.scan (index + 1) []
      rw [List.append_nil] at hscan
      have hdrop : (taken ++ c :: rest).drop (taken.length + 1) = rest := by
        rw [List.drop_length_add_append]
        rfl
      rw [piecesFrom_place index hspells.head, hscan, hdrop]
      exact fillPieces_place_eq_ok_iff.mpr ⟨_, _, _, hfills.at _, ih _, rfl⟩

/-- What a template comes to does not hang on where it stands. -/
theorem filled_iff {index : Nat} {cs : List Point} {s : Supply} {out : List Point} :
    fillPieces (piecesFrom index cs) s = .ok out ↔ Filled cs s out :=
  ⟨filled_of_fillPieces, fun h => fillPieces_of_filled h index⟩

/-! ## §5. Plain text around a template. -/

theorem Filled.behind_plain {before cs out : List Point} {s : Supply} (h : Filled cs s out)
    (hplain : .char '%' ∉ before) : Filled (before ++ cs) s (before ++ out) := by
  induction before with
  | nil => exact h
  | cons c before ih =>
      rw [List.mem_cons, not_or] at hplain
      exact .point (Ne.symm hplain.1) (ih hplain.2)

theorem Filled.before_plain {cs out more : List Point} {s : Supply} (h : Filled cs s out)
    (hplain : .char '%' ∉ more) : Filled (cs ++ more) s (out ++ more) := by
  induction h with
  | nil h =>
      have hmore := (Filled.nil h).behind_plain hplain
      rwa [List.append_nil] at hmore
  | percent h ih => exact .percent ih
  | point hc h ih => exact .point hc ih
  | @place s s' p c taken rest chars out hspells hfills h ih =>
      have hfilled := Filled.place (hspells.append more) hfills ih
      rwa [List.append_assoc, List.cons_append, List.append_assoc, List.cons_append]

/-- A template that can be filled is filled alike between plain texts. -/
theorem fill_between {before cs more out : List Point} {args : Arguments}
    (hbefore : .char '%' ∉ before) (hmore : .char '%' ∉ more) (h : fill cs args = .ok out) :
    fill (before ++ cs ++ more) args = .ok (before ++ out ++ more) :=
  filled_iff.mpr (((filled_iff.mp h).behind_plain hbefore).before_plain hmore)

/-! ## §6. Percent signs. -/

/-- Arguments that are empty texts, all of them without a name. -/
def Blank (s : Supply) : Prop :=
  s.named = none ∧ ∀ v ∈ s.left, v = .text ""

theorem percent_not_mem_set {precision : Option Nat} {cs : List Point} (h : .char '%' ∉ cs)
    (left zero : Bool) (width : Nat) :
    .char '%' ∉ (Body.ofText precision cs).set left zero width := by
  have hrest : .char '%' ∉ (Body.ofText precision cs).rest := by
    cases precision with
    | none => exact h
    | some n => exact fun hmem => h (List.mem_of_mem_take hmem)
  have hfill : ∀ n, Point.char '%' ∉ List.replicate n (.char ' ') := fun n hmem =>
    absurd (List.eq_of_mem_replicate hmem) (by decide)
  -- A text has no sign, and is filled up with blanks on either side.
  have hset : (Body.ofText precision cs).set left zero width =
      if left then (Body.ofText precision cs).rest ++
        List.replicate (width - (Body.ofText precision cs).rest.length) (.char ' ')
      else List.replicate (width - (Body.ofText precision cs).rest.length) (.char ' ') ++
        (Body.ofText precision cs).rest := by
    simp [Body.set, Body.ofText]
  rw [hset]
  split
  · rw [List.mem_append, not_or]
    exact ⟨hrest, hfill _⟩
  · rw [List.mem_append, not_or]
    exact ⟨hfill _, hrest⟩

theorem Supply.next_of_blank {s s' : Supply} {v : Value} (hs : Blank s)
    (h : s.next = .ok (v, s')) : v = .text "" ∧ s.left = .text "" :: s'.left ∧ Blank s' := by
  unfold Supply.next at h
  split at h
  next vs hleft =>
    cases h
    have hv : v = .text "" := hs.2 v (by simp [hleft])
    exact ⟨hv, hv ▸ hleft, hs.1, fun u hu => hs.2 u (by simp [hleft, hu])⟩
  next => cases h

theorem Supply.eq_of_width {s s' : Supply} {a : Amount} {turned : Bool} {width : Nat}
    (hs : Blank s) (h : s.width a = .ok (turned, width, s')) : s' = s := by
  cases a with
  | none =>
      cases h
      rfl
  | given n =>
      obtain ⟨-, heq⟩ := (guard_eq_ok_iff (by simp)).mp h
      cases heq
      rfl
  | taken =>
      obtain ⟨⟨v, s₁⟩, hnext, h⟩ := Capability.bind_eq_ok.mp h
      cases (Supply.next_of_blank hs hnext).1
      cases h

theorem Supply.eq_of_precision {s s' : Supply} {a : Amount} {precision : Option Nat}
    (hs : Blank s) (h : s.precision a = .ok (precision, s')) : s' = s := by
  cases a with
  | none =>
      cases h
      rfl
  | given n =>
      obtain ⟨-, heq⟩ := (guard_eq_ok_iff (by simp)).mp h
      cases heq
      rfl
  | taken =>
      obtain ⟨⟨v, s₁⟩, hnext, h⟩ := Capability.bind_eq_ok.mp h
      cases (Supply.next_of_blank hs hnext).1
      cases h

/-- An empty text has a body in the places of texts only. -/
theorem exists_body_empty {p : Place} {precision : Option Nat} {c : Point} {index : Nat} {b : Body}
    (h : body p precision c index (.text "") = .ok b) :
    c ≠ .char '%' ∧ ∃ cs, .char '%' ∉ cs ∧ b = .ofText precision cs := by
  cases c with
  | half _ => cases h
  | char c =>
      change bodyOfKind p precision c index (.text "") = .ok b at h
      unfold bodyOfKind at h
      split_ifs at h with hs hr ha
      · cases h
        exact ⟨by rw [hs]; decide, _, List.not_mem_nil, rfl⟩
      · cases h
        exact ⟨by rw [hr]; decide, _, by decide, rfl⟩
      · cases h
        exact ⟨by rw [ha]; decide, _, by decide, rfl⟩
      · cases h
      · cases h
      · cases h
      · cases h

/-- An empty text shows no percent sign in its place, and is all that the place takes up. -/
theorem Fills.of_blank {p : Place} {s s' : Supply} {out : List Point} (h : Fills p s out s')
    (hs : Blank s) :
    p.key = .none ∧ p.kind.map (·.1) ≠ some (.char '%') ∧ .char '%' ∉ out ∧
      s.left = .text "" :: s'.left ∧ Blank s' := by
  obtain ⟨hselect, hwidth, hprecision, hkind, hnext, hbody⟩ := h
  have hkey : p.key = .none := by
    unfold Supply.select at hselect
    rw [hs.1] at hselect
    cases hkey : p.key with
    | none => rfl
    | named name =>
        rw [hkey] at hselect
        cases hselect
    | unclosed =>
        rw [hkey] at hselect
        cases hselect
  rw [hkey] at hselect
  cases hselect
  cases Supply.eq_of_width hs hwidth
  cases Supply.eq_of_precision hs hprecision
  obtain ⟨rfl, hleft, hs'⟩ := Supply.next_of_blank hs hnext
  obtain ⟨hc, cs, hcs, rfl⟩ := exists_body_empty hbody
  refine ⟨hkey, ?_, percent_not_mem_set hcs _ _ _, hleft, hs'⟩
  rw [hkind]
  exact fun heq => hc (Option.some.inj heq)

/-- **WHERE PERCENT SIGNS COME FROM.**  Filled with empty texts, a template has two percent
signs for each that comes out, and one for each text. -/
theorem Filled.count_percent {cs out : List Point} {s : Supply} (h : Filled cs s out)
    (hs : Blank s) : cs.count (.char '%') = 2 * out.count (.char '%') + s.left.length := by
  induction h with
  | nil h => simp [h hs.1]
  | percent h ih =>
      rw [List.count_cons_self, List.count_cons_self, List.count_cons_self, ih hs]
      omega
  | point hc h ih =>
      rw [List.count_cons_of_ne hc, List.count_cons_of_ne hc]
      exact ih hs
  | @place s s' p c taken rest chars out hspells hfills h ih =>
      -- The one percent sign of the place is the one in front of it.
      obtain ⟨hkey, hkind, hchars, hleft, hs'⟩ := hfills.of_blank hs
      have hc : c ≠ .char '%' := by
        rintro rfl
        exact hkind hspells.kind
      rw [List.count_cons_self, List.count_append, List.count_cons_of_ne hc, ih hs',
        List.count_eq_zero_of_not_mem (hspells.plain hkey), List.count_append,
        List.count_eq_zero_of_not_mem hchars, hleft, List.length_cons]
      omega

end Mandate.Log.Template
