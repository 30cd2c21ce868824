/-
  Mandate.Text.Decode
  ────────────────────────────────
  **BYTES AS TEXT.**

  Files are UTF-8.  A body fetched over the network is UTF-8, UTF-16 or UTF-32:
  a byte order mark tells which, and without one the zeros among the first four
  bytes do.  A body may spell half a pair of units; a file may not.

  A refusal names the encoding, the bytes at fault and the reason.
-/
import Mandate.Text.Basic

namespace Mandate.Text

/-! ## §1. Encodings and refusals. -/

/-- The order of the bytes of a unit. -/
inductive ByteOrder where
  | little
  | big
  deriving DecidableEq, Repr

/-- A Unicode encoding. -/
inductive Encoding where
  | utf8
  | utf16 (order : ByteOrder)
  | utf32 (order : ByteOrder)
  deriving DecidableEq, Repr

/-- Why bytes are no text. -/
inductive Undecodable.Reason where
  | startByte
  | continuationByte
  | endOfData
  | truncated
  | range
  deriving DecidableEq, Repr

/-- Bytes at fault: `count` of them from `first` on, the first being `byte`. -/
structure Undecodable where
  encoding : Encoding
  first : Nat
  count : Nat
  byte : Nat
  reason : Undecodable.Reason
  deriving DecidableEq, Repr

/-- The name of an encoding. -/
def Encoding.name : Encoding → String
  | .utf8 => "utf-8"
  | .utf16 .little => "utf-16-le"
  | .utf16 .big => "utf-16-be"
  | .utf32 .little => "utf-32-le"
  | .utf32 .big => "utf-32-be"

namespace Undecodable

/-- The reason in words. -/
def Reason.text : Reason → String
  | .startByte => "invalid start byte"
  | .continuationByte => "invalid continuation byte"
  | .endOfData => "unexpected end of data"
  | .truncated => "truncated data"
  | .range => "code point not in range(0x110000)"

/-- The lower-case hexadecimal digits of a byte. -/
def byteText (b : Nat) : String :=
  let digits := Nat.toDigits 16 b
  String.ofList (if digits.length < 2 then '0' :: digits else digits)

/-- The refusal in words. -/
def message (u : Undecodable) : String :=
  let place :=
    if u.count = 1 then
      "byte 0x" ++ byteText u.byte ++ " in position " ++ toString u.first
    else "bytes in position " ++ toString u.first ++ "-" ++ toString (u.first + u.count - 1)
  "'" ++ u.encoding.name ++ "' codec can't decode " ++ place ++ ": " ++ u.reason.text

end Undecodable

/-! ## §2. UTF-8. -/

/-- What a lead byte calls for: the number of tail bytes, the range of the first
of them, and the bits that the lead byte itself carries. -/
def leadByte? (b : Nat) : Option (Nat × Nat × Nat × Nat) :=
  if b < 0x80 then some (0, 0, 0, b)
  else if b < 0xC2 then none
  else if b < 0xE0 then some (1, 0x80, 0xBF, b % 0x20)
  else if b < 0xF0 then
    some (2, if b = 0xE0 then 0xA0 else 0x80, if b = 0xED then 0x9F else 0xBF, b % 0x10)
  else if b < 0xF5 then
    some (3, if b = 0xF0 then 0x90 else 0x80, if b = 0xF4 then 0x8F else 0xBF, b % 0x08)
  else none

/-- The outcome of reading tail bytes. -/
inductive Tails where
  | done (code : Nat)
  | missing
  | bad (read : Nat)

/-- Read `owed` tail bytes, of which the first lies between `low` and `high`. -/
def tails (owed low high code read : Nat) (bytes : List UInt8) : Tails :=
  match owed, bytes with
  | 0, _ => .done code
  | _ + 1, [] => .missing
  | owed + 1, b :: rest =>
      if low ≤ b.toNat ∧ b.toNat ≤ high then
        tails owed 0x80 0xBF (code * 0x40 + b.toNat % 0x40) (read + 1) rest
      else .bad read

/-- The half that three bytes spell. -/
def half? (lead : Nat) (bytes : List UInt8) : Option Half :=
  match bytes with
  | b :: c :: _ =>
      if lead = 0xED ∧ (0xA0 ≤ b.toNat ∧ b.toNat ≤ 0xBF) ∧ (0x80 ≤ c.toNat ∧ c.toNat ≤ 0xBF) then
        some (.ofNat (b.toNat % 0x20 * 0x40 + c.toNat % 0x40))
      else none
  | _ => none

/-- What UTF-8 bytes spell.  `char` and `ofHalf?` say what becomes of a character and of a half,
which may be refused; `skip` counts bytes that belong to what was just read. -/
def utf8 {α : Type} (char : Char → α) (ofHalf? : Half → Option α) :
    (position skip : Nat) → List UInt8 → Except Undecodable (List α)
  | _, _, [] => .ok []
  | position, skip + 1, _ :: rest => utf8 char ofHalf? (position + 1) skip rest
  | position, 0, b :: rest =>
      let refuse (count : Nat) (reason : Undecodable.Reason) : Except Undecodable (List α) :=
        .error ⟨.utf8, position, count, b.toNat, reason⟩
      match leadByte? b.toNat with
      | none => refuse 1 .startByte
      | some (owed, low, high, code) =>
          match tails owed low high code 1 rest with
          | .done code =>
              (utf8 char ofHalf? (position + 1) owed rest).map (char (Char.ofNat code) :: ·)
          | .missing => refuse (rest.length + 1) .endOfData
          | .bad read =>
              match (half? b.toNat rest).bind ofHalf? with
              | some a => (utf8 char ofHalf? (position + 1) 2 rest).map (a :: ·)
              | none => refuse read .continuationByte

/-! ## §3. UTF-16 and UTF-32. -/

/-- The number that bytes spell. -/
def ByteOrder.value (order : ByteOrder) (bytes : List UInt8) : Nat :=
  let big := match order with
    | .little => bytes.reverse
    | .big => bytes
  big.foldl (fun n b => n * 0x100 + b.toNat) 0

/-- The 16-bit units of bytes; a byte too many is refused. -/
def units16 (order : ByteOrder) (position : Nat) : List UInt8 → Except Undecodable (List Nat)
  | [] => .ok []
  | [b] => .error ⟨.utf16 order, position, 1, b.toNat, .truncated⟩
  | a :: b :: rest => (units16 order (position + 2) rest).map (order.value [a, b] :: ·)

/-- The points of 16-bit units, pairs joined. -/
def joinUnits : List Nat → List Point
  | [] => []
  | [u] => [.ofNat u]
  | u :: v :: rest =>
      if 0xD800 ≤ u ∧ u ≤ 0xDBFF ∧ 0xDC00 ≤ v ∧ v ≤ 0xDFFF then
        .char (Char.ofNat (0x10000 + (u - 0xD800) * 0x400 + (v - 0xDC00))) :: joinUnits rest
      else .ofNat u :: joinUnits (v :: rest)

/-- The points of UTF-32 bytes. -/
def utf32Points (order : ByteOrder) (position : Nat) : List UInt8 →
    Except Undecodable (List Point)
  | [] => .ok []
  | a :: b :: c :: d :: rest =>
      let code := order.value [a, b, c, d]
      if 0x110000 ≤ code then .error ⟨.utf32 order, position, 4, a.toNat, .range⟩
      else (utf32Points order (position + 4) rest).map (.ofNat code :: ·)
  | a :: rest => .error ⟨.utf32 order, position, rest.length + 1, a.toNat, .truncated⟩

/-! ## §4. Files and bodies. -/

/-- The encoding of a body and the length of its byte order mark. -/
def detect (bytes : List UInt8) : Encoding × Nat :=
  match bytes with
  | 0x00 :: 0x00 :: 0xFE :: 0xFF :: _ => (.utf32 .big, 4)
  | 0xFF :: 0xFE :: 0x00 :: 0x00 :: _ => (.utf32 .little, 4)
  | 0xFE :: 0xFF :: _ => (.utf16 .big, 2)
  | 0xFF :: 0xFE :: _ => (.utf16 .little, 2)
  | 0xEF :: 0xBB :: 0xBF :: _ => (.utf8, 3)
  | a :: b :: c :: d :: _ =>
      if a = 0 then (if b = 0 then .utf32 .big else .utf16 .big, 0)
      else if b = 0 then (if c = 0 ∧ d = 0 then .utf32 .little else .utf16 .little, 0)
      else (.utf8, 0)
  | [a, b] =>
      if a = 0 then (.utf16 .big, 0) else if b = 0 then (.utf16 .little, 0) else (.utf8, 0)
  | _ => (.utf8, 0)

/-- The points of a body. -/
def decodeBody (bytes : List UInt8) : Except Undecodable (List Point) :=
  let (encoding, mark) := detect bytes
  let rest := bytes.drop mark
  match encoding with
  -- positions in UTF-8 are counted behind the mark
  | .utf8 => utf8 .char (fun h => some (.half h)) 0 0 rest
  | .utf16 order => (units16 order mark rest).map joinUnits
  | .utf32 order => utf32Points order mark rest

/-- The characters of a file. -/
def decodeFile (bytes : List UInt8) : Except Undecodable (List Char) :=
  utf8 id (fun _ => none) 0 0 bytes

end Mandate.Text
