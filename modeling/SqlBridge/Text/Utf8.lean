/-
Reading octets as UTF-8, whatever they are.

A longest run of octets that begins a character and cannot go on becomes one U+FFFD, and so does
every octet that begins no character.
-/
namespace SqlBridge.Text

/-- A character of which octets are missing, and the range of the next of them. -/
structure OpenChar where
  /-- How many octets are missing after the next. -/
  missing : Nat
  value : Nat
  low : UInt8
  high : UInt8
deriving DecidableEq, Repr

def replacement : Char := '\uFFFD'

/-- What an octet gives that begins a character: the character, or the beginning of one. -/
def openWith (octet : UInt8) : List Char × Option OpenChar :=
  let n := octet.toNat
  if n < 0x80 then ([Char.ofNat n], none)
  else if n < 0xC2 then ([replacement], none)
  else if n < 0xE0 then ([], some ⟨0, n - 0xC0, 0x80, 0xBF⟩)
  else if n = 0xE0 then ([], some ⟨1, 0, 0xA0, 0xBF⟩)
  else if n = 0xED then ([], some ⟨1, 0xD, 0x80, 0x9F⟩)
  else if n < 0xF0 then ([], some ⟨1, n - 0xE0, 0x80, 0xBF⟩)
  else if n = 0xF0 then ([], some ⟨2, 0, 0x90, 0xBF⟩)
  else if n < 0xF4 then ([], some ⟨2, n - 0xF0, 0x80, 0xBF⟩)
  else if n = 0xF4 then ([], some ⟨2, 4, 0x80, 0x8F⟩)
  else ([replacement], none)

/-- What an octet gives after the beginning of a character. -/
def goOn (started : OpenChar) (octet : UInt8) : List Char × Option OpenChar :=
  if started.low ≤ octet ∧ octet ≤ started.high then
    let value := started.value * 64 + (octet.toNat - 0x80)
    match started.missing with
    | 0 => ([Char.ofNat value], none)
    | missing + 1 => ([], some ⟨missing, value, 0x80, 0xBF⟩)
  else
    let (chars, next) := openWith octet
    (replacement :: chars, next)

/-- The characters of some octets, after the beginning of one if there is one. -/
def decodeAfter : Option OpenChar → List UInt8 → List Char
  | none, [] => []
  | some _, [] => [replacement]
  | state, octet :: rest =>
    let (chars, next) := match state with
      | none => openWith octet
      | some started => goOn started octet
    chars ++ decodeAfter next rest

/-- The text that octets stand for. -/
def ofOctets (octets : List UInt8) : String := String.ofList (decodeAfter none octets)

end SqlBridge.Text
