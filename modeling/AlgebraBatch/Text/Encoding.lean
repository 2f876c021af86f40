/-!
# Encodings

`Encoding.decode` turns octets into text. Octets that an encoding does not allow become U+FFFD; in
UTF-8 there is one for each longest stretch that could begin a character and does not complete it.
-/

namespace AlgebraBatch.Text

inductive Encoding where
  | utf8
  | utf8WithMark
  | utf16
  | utf16Little
  | utf16Big
  | utf32
  | utf32Little
  | utf32Big
  | latin1
  | windows1252
  | ascii
  deriving DecidableEq, Repr

namespace Encoding

def replacement : Char := '\ufffd'

/-- The name of each encoding, with underscores between the words, and its other names. -/
def names : List (Encoding × String × List String) :=
  [(utf8, "utf_8", ["u8", "utf", "utf8", "utf8_ucs2", "utf8_ucs4", "cp65001"]),
    (utf8WithMark, "utf_8_sig", []),
    (utf16, "utf_16", ["u16", "utf16"]),
    (utf16Little, "utf_16_le", ["unicodelittleunmarked", "utf_16le"]),
    (utf16Big, "utf_16_be", ["unicodebigunmarked", "utf_16be"]),
    (utf32, "utf_32", ["u32", "utf32"]),
    (utf32Little, "utf_32_le", ["utf_32le"]),
    (utf32Big, "utf_32_be", ["utf_32be"]),
    (latin1, "latin_1", ["8859", "cp819", "csisolatin1", "ibm819", "iso8859", "iso8859_1",
      "iso_8859_1", "iso_8859_1_1987", "iso_ir_100", "l1", "latin", "latin1"]),
    (windows1252, "cp1252", ["1252", "windows_1252"]),
    (ascii, "ascii", ["646", "ansi_x3.4_1968", "ansi_x3_4_1968", "ansi_x3.4_1986", "cp367",
      "csascii", "ibm367", "iso646_us", "iso_646.irv_1991", "iso_ir_6", "us", "us_ascii"])]

/-- A name in small letters, with an underscore for whatever stands between two words. `between`
says that something does. -/
def words (between : Bool) : List Char → List Char
  | [] => []
  | c :: cs =>
    if c.isAlphanum || c == '.' then
      (if between then ['_', c.toLower] else [c.toLower]) ++ words false cs
    else words true cs

/-- The encoding of a name. In the other names of an encoding a point may stand for an
underscore. -/
def named? (name : String) : Option Encoding :=
  let cs := words false (name.toList.dropWhile fun c => !(c.isAlphanum || c == '.'))
  let name := String.ofList cs
  let undotted := String.ofList (cs.map fun c => if c == '.' then '_' else c)
  (names.find? fun (_, proper, others) =>
    proper == name || others.contains name || others.contains undotted).map Prod.fst

/-! ## UTF-8 -/

/-- A character that has been begun: its bits so far, the octets that it lacks, and the bounds of
the next one. -/
structure Begun where
  bits : Nat
  lacking : Nat
  least : Nat := 0x80
  most : Nat := 0xbf
  deriving DecidableEq, Repr

/-- What an octet between characters gives: characters, or the beginning of one. -/
def lead (b : Nat) : List Char × Option Begun :=
  if b < 0x80 then ([Char.ofNat b], none)
  else if 0xc2 ≤ b && b ≤ 0xdf then ([], some { bits := b - 0xc0, lacking := 1 })
  else if b == 0xe0 then ([], some { bits := 0, lacking := 2, least := 0xa0 })
  else if b == 0xed then ([], some { bits := 0xd, lacking := 2, most := 0x9f })
  else if 0xe1 ≤ b && b ≤ 0xef then ([], some { bits := b - 0xe0, lacking := 2 })
  else if b == 0xf0 then ([], some { bits := 0, lacking := 3, least := 0x90 })
  else if b == 0xf4 then ([], some { bits := 4, lacking := 3, most := 0x8f })
  else if 0xf1 ≤ b && b ≤ 0xf3 then ([], some { bits := b - 0xf0, lacking := 3 })
  else ([replacement], none)

/-- What an octet gives after the beginning of a character. -/
def follow (begun : Begun) (b : Nat) : List Char × Option Begun :=
  if begun.least ≤ b && b ≤ begun.most then
    let bits := begun.bits * 64 + (b - 0x80)
    if begun.lacking ≤ 1 then ([Char.ofNat bits], none)
    else ([], some { bits, lacking := begun.lacking - 1 })
  else
    let (cs, next) := lead b
    (replacement :: cs, next)

def decodeUtf8 : Option Begun → List Nat → List Char
  | none, [] => []
  | some _, [] => [replacement]
  | begun, b :: bs =>
    let (cs, next) := begun.elim (lead b) (follow · b)
    cs ++ decodeUtf8 next bs

/-! ## UTF-16 and UTF-32 -/

def isHigh (n : Nat) : Bool := 0xd800 ≤ n && n < 0xdc00

def isLow (n : Nat) : Bool := 0xdc00 ≤ n && n < 0xe000

/-- The character of a code point; halves of pairs are none. -/
def point (n : Nat) : Char :=
  if isHigh n || isLow n || 0x110000 ≤ n then replacement else Char.ofNat n

/-- The units of two octets each; an octet that is left over is none. -/
def units (little : Bool) : List Nat → List (Option Nat)
  | a :: b :: bs => some (if little then a + 256 * b else 256 * a + b) :: units little bs
  | [_] => [none]
  | [] => []

/-- A first half before an octet that is left over is replaced together with it. -/
def decodeUnits : List (Option Nat) → List Char
  | [] => []
  | none :: us => replacement :: decodeUnits us
  | some h :: some l :: us =>
    if isHigh h && isLow l then
      Char.ofNat (0x10000 + (h - 0xd800) * 0x400 + (l - 0xdc00)) :: decodeUnits us
    else point h :: decodeUnits (some l :: us)
  | some h :: none :: us =>
    if isHigh h then replacement :: decodeUnits us
    else point h :: replacement :: decodeUnits us
  | [some h] => [point h]

/-- Characters of four octets each. -/
def decodeWords (little : Bool) : List Nat → List Char
  | a :: b :: c :: d :: bs =>
    point (if little then ((d * 256 + c) * 256 + b) * 256 + a
      else ((a * 256 + b) * 256 + c) * 256 + d) :: decodeWords little bs
  | [] => []
  | _ => [replacement]

/-- A byte order mark says which octet comes first and is no part of the text. -/
def decodeMarkedUnits : List Nat → List Char
  | 0xff :: 0xfe :: bs => decodeUnits (units true bs)
  | 0xfe :: 0xff :: bs => decodeUnits (units false bs)
  | bs => decodeUnits (units true bs)

def decodeMarkedWords : List Nat → List Char
  | 0xff :: 0xfe :: 0 :: 0 :: bs => decodeWords true bs
  | 0 :: 0 :: 0xfe :: 0xff :: bs => decodeWords false bs
  | bs => decodeWords true bs

def dropMark : List Nat → List Nat
  | 0xef :: 0xbb :: 0xbf :: bs => bs
  | bs => bs

/-! ## One octet for each character -/

/-- The characters of the octets from 0x80 to 0x9f. -/
def windows1252Row : List Nat :=
  [0x20ac, 0xfffd, 0x201a, 0x192, 0x201e, 0x2026, 0x2020, 0x2021, 0x2c6, 0x2030, 0x160, 0x2039,
    0x152, 0xfffd, 0x17d, 0xfffd, 0xfffd, 0x2018, 0x2019, 0x201c, 0x201d, 0x2022, 0x2013, 0x2014,
    0x2dc, 0x2122, 0x161, 0x203a, 0x153, 0xfffd, 0x17e, 0x178]

def windows1252Char (b : Nat) : Char :=
  if 0x80 ≤ b && b < 0xa0 then Char.ofNat (windows1252Row.getD (b - 0x80) 0xfffd)
  else Char.ofNat b

def decode (encoding : Encoding) (octets : List Nat) : List Char :=
  match encoding with
  | utf8 => decodeUtf8 none octets
  | utf8WithMark => decodeUtf8 none (dropMark octets)
  | utf16 => decodeMarkedUnits octets
  | utf16Little => decodeUnits (units true octets)
  | utf16Big => decodeUnits (units false octets)
  | utf32 => decodeMarkedWords octets
  | utf32Little => decodeWords true octets
  | utf32Big => decodeWords false octets
  | latin1 => octets.map Char.ofNat
  | windows1252 => octets.map windows1252Char
  | ascii => octets.map fun b => if b < 0x80 then Char.ofNat b else replacement

end Encoding

end AlgebraBatch.Text
