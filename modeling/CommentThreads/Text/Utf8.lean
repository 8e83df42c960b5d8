/-
CommentThreads.Text.Utf8 — the UTF-8 form of a text, and reading it back.

* `encode` writes each character in one to four bytes.
* `decode` reads bytes back and refuses overlong forms, surrogates and
  values past U+10FFFF.
* `decodeLossy` reads any bytes: each longest start of a character that
  cannot be completed is read as one U+FFFD.
-/

namespace CommentThreads.Text

/-- The UTF-8 bytes of one character. -/
def encodeChar (c : Char) : List UInt8 :=
  let n := c.toNat
  if n < 0x80 then
    [n.toUInt8]
  else if n < 0x800 then
    [(0xC0 + n / 0x40).toUInt8, (0x80 + n % 0x40).toUInt8]
  else if n < 0x10000 then
    [(0xE0 + n / 0x1000).toUInt8, (0x80 + n / 0x40 % 0x40).toUInt8, (0x80 + n % 0x40).toUInt8]
  else
    [(0xF0 + n / 0x40000).toUInt8, (0x80 + n / 0x1000 % 0x40).toUInt8,
      (0x80 + n / 0x40 % 0x40).toUInt8, (0x80 + n % 0x40).toUInt8]

/-- The UTF-8 bytes of a text. -/
def encode (s : List Char) : List UInt8 :=
  s.flatMap encodeChar

/-- The UTF-8 bytes of a string. -/
def utf8 (s : String) : List UInt8 :=
  encode s.toList

/-- A character of which some bytes are still to come: the value read so
far, the number of bytes missing, and the range that the next byte has
to lie in. The range keeps out overlong forms, surrogates and values
past U+10FFFF. -/
structure Pending where
  value : Nat
  missing : Nat
  low : UInt8
  high : UInt8
deriving DecidableEq, Repr

/-- What one byte does: the characters it completes (`none` for one that
cannot be completed) and the character that stays open after it. -/
abbrev Step := List (Option Char) × Option Pending

/-- A byte where a character has to begin. -/
def beginAt (b : UInt8) : Step :=
  let n := b.toNat
  if n < 0x80 then ([some (Char.ofNat n)], none)
  else if n < 0xC2 then ([none], none)
  else if n < 0xE0 then ([], some ⟨n % 0x20, 1, 0x80, 0xBF⟩)
  else if n = 0xE0 then ([], some ⟨0, 2, 0xA0, 0xBF⟩)
  else if n = 0xED then ([], some ⟨0x0D, 2, 0x80, 0x9F⟩)
  else if n < 0xF0 then ([], some ⟨n % 0x10, 2, 0x80, 0xBF⟩)
  else if n = 0xF0 then ([], some ⟨0, 3, 0x90, 0xBF⟩)
  else if n < 0xF4 then ([], some ⟨n % 0x08, 3, 0x80, 0xBF⟩)
  else if n = 0xF4 then ([], some ⟨4, 3, 0x80, 0x8F⟩)
  else ([none], none)

/-- A byte after the start of an open character. One outside the range
gives the open character up and begins anew. -/
def Pending.extend (p : Pending) (b : UInt8) : Step :=
  if p.low ≤ b && b ≤ p.high then
    let value := p.value * 0x40 + b.toNat % 0x40
    if p.missing ≤ 1 then ([some (Char.ofNat value)], none)
    else ([], some ⟨value, p.missing - 1, 0x80, 0xBF⟩)
  else
    let (out, pending) := beginAt b
    (none :: out, pending)

/-- A byte where reading stands at a character's start or inside one. -/
def step (pending : Option Pending) (b : UInt8) : Step :=
  match pending with
  | none => beginAt b
  | some p => p.extend b

/-- The characters that the bytes spell from here on, `none` for each
that cannot be completed. -/
def scan : Option Pending → List UInt8 → List (Option Char)
  | none, [] => []
  | some _, [] => [none]
  | pending, b :: rest =>
    let (out, pending') := step pending b
    out ++ scan pending' rest

/-- The text that the bytes spell, when all of them spell characters. -/
def decode (bytes : List UInt8) : Option (List Char) :=
  (scan none bytes).mapM id

/-- The text that the bytes spell, with U+FFFD for what spells none. -/
def decodeLossy (bytes : List UInt8) : List Char :=
  (scan none bytes).map fun c => c.getD (Char.ofNat 0xFFFD)

end CommentThreads.Text
