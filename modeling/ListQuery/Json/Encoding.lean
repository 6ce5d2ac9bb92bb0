import ListQuery.Text.Quoted

/-!
# Encodings of JSON

A JSON text begins with characters of ASCII, so the zeros among its first four octets tell in which
encoding it is.  A mark of the byte order at the start of UTF-8 is no part of the text.

* `Json.Encoding.ofOctets`   the encoding that the octets are in;
* `Json.Encoding.decode`     their characters, or why they have none;
* `Json.recode`              the characters of a text whose octets may be in any of the encodings.
-/

namespace ListQuery

namespace Json

/-- the encodings a text may be in; the flag tells that the greatest octet of a unit comes first -/
inductive Encoding where
  | utf8
  | marked
  | utf16 (big : Bool)
  | utf32 (big : Bool)
  deriving DecidableEq

namespace Encoding

/-- the mark of the byte order in UTF-8 -/
def mark : List Nat := [0xef, 0xbb, 0xbf]

def ofOctets (octets : List Nat) : Encoding :=
  if mark.isPrefixOf octets then .marked
  else match octets with
    | a :: b :: c :: d :: _ =>
      if a = 0 then (if b = 0 then .utf32 true else .utf16 true)
      else if b = 0 then (if c = 0 ∧ d = 0 then .utf32 false else .utf16 false)
      else .utf8
    | [a, b] => if a = 0 then .utf16 true else if b = 0 then .utf16 false else .utf8
    | _ => .utf8

def name : Encoding → String
  | .utf8 => "utf-8"
  | .marked => "utf-8-sig"
  | .utf16 big => if big then "utf-16-be" else "utf-16-le"
  | .utf32 big => if big then "utf-32-be" else "utf-32-le"

/-! ## units -/

def unit (big : Bool) (octets : List Nat) : Nat :=
  (if big then octets else octets.reverse).foldl (fun n octet => 256 * n + octet) 0

def units (big : Bool) (width : Nat) : (fuel : Nat) → List Nat → List Nat × List Nat
  | 0, octets => ([], octets)
  | fuel + 1, octets =>
    if octets.length < width then ([], octets)
    else
      let (others, left) := units big width fuel (octets.drop width)
      (unit big (octets.take width) :: others, left)

def isHighHalf (n : Nat) : Bool := 0xd800 ≤ n && n ≤ 0xdbff

def isLowHalf (n : Nat) : Bool := 0xdc00 ≤ n && n ≤ 0xdfff

def joinHalves (high low : Nat) : Char :=
  Char.ofNat (0x10000 + (high - 0xd800) * 0x400 + (low - 0xdc00))

def replacement : Char := '\ufffd'

def character (n : Nat) : Char := if isHighHalf n || isLowHalf n then replacement else Char.ofNat n

def ofUnits16 : List Nat → List Char
  | [] => []
  | [n] => [character n]
  | n :: m :: rest =>
    if isHighHalf n && isLowHalf m then joinHalves n m :: ofUnits16 rest
    else character n :: ofUnits16 (m :: rest)

/-! ## decoding -/

def failure (e : Encoding) (octets : List Nat) (first last : Nat) (reason : String) : String :=
  let which :=
    if first = last then
      "byte 0x" ++ String.ofList (Text.hex 2 (octets[first]?.getD 0)) ++ " in position " ++ toString first
    else "bytes in position " ++ toString first ++ "-" ++ toString last
  "'" ++ e.name ++ "' codec can't decode " ++ which ++ ": " ++ reason

def decodeUnits (e : Encoding) (big : Bool) (width : Nat) (octets : List Nat) :
    Except String (List Char) :=
  let (units, left) := units big width octets.length octets
  match units.findIdx? (0x110000 ≤ ·) with
  | some i =>
    .error (e.failure octets (width * i) (width * i + width - 1) "code point not in range(0x110000)")
  | none =>
    if left.isEmpty then .ok (if width = 2 then ofUnits16 units else units.map character)
    else .error (e.failure octets (octets.length - left.length) (octets.length - 1) "truncated data")

end Encoding

/-- the characters of a text whose octets may be in any of the encodings -/
def recode (s : String) : Except String (List Char) :=
  let octets := s.toUTF8.toList.map UInt8.toNat
  let e := Encoding.ofOctets octets
  match e with
  | .utf8 => .ok s.toList
  | .marked => .ok (s.toList.drop 1)
  | .utf16 big => e.decodeUnits big 2 octets
  | .utf32 big => e.decodeUnits big 4 octets

end Json

end ListQuery
