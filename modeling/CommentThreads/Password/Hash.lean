/-
CommentThreads.Password.Hash — hashing a password under a salt, and
checking a password against a stored hash.

A stored hash is `$version$cost$salt` followed by the digest: 22 and 31
characters of an alphabet of 64. Only the first 72 bytes of a password
count; a password with a lone half has no bytes, and no hash. `verify?`
hashes again under the salt inside the stored hash and compares, so what it
accepts depends on those three parts and the digest alone.
-/
import CommentThreads.Password.Blowfish
import CommentThreads.Text.Digits
import CommentThreads.Text.Lines
import CommentThreads.Text.Raw
import CommentThreads.Text.Utf8

namespace CommentThreads.Password

open CommentThreads.Text

/-- The alphabet in which salts and digests are written. -/
def alphabet : List Char :=
  "./ABCDEFGHIJKLMNOPQRSTUVWXYZabcdefghijklmnopqrstuvwxyz0123456789".toList

/-- The character for six bits. -/
def sixBitChar (n : Nat) : Char :=
  alphabet.getD (n % 64) '.'

/-- The six bits of a character. -/
def sixBits? (c : Char) : Option Nat :=
  alphabet.idxOf? c

/-- Bytes in the alphabet, three bytes to four characters; the characters
of an incomplete group are as many as its bits need. -/
def encodeBytes : List UInt8 → List Char
  | [] => []
  | [a] => [sixBitChar (a.toNat / 4), sixBitChar (a.toNat % 4 * 16)]
  | [a, b] =>
    [sixBitChar (a.toNat / 4), sixBitChar (a.toNat % 4 * 16 + b.toNat / 16),
      sixBitChar (b.toNat % 16 * 4)]
  | a :: b :: c :: rest =>
    sixBitChar (a.toNat / 4) :: sixBitChar (a.toNat % 4 * 16 + b.toNat / 16) ::
      sixBitChar (b.toNat % 16 * 4 + c.toNat / 64) :: sixBitChar (c.toNat % 64) ::
      encodeBytes rest

/-- The bytes of their characters; none if a character is foreign, or if
bits are set that belong to no byte. -/
def decodeBytes? : List Char → Option (List UInt8)
  | [] => some []
  | [_] => none
  | [p, q] => do
    let (a, b) := (← sixBits? p, ← sixBits? q)
    if b % 16 = 0 then some [(a * 4 + b / 16).toUInt8] else none
  | [p, q, r] => do
    let (a, b, c) := (← sixBits? p, ← sixBits? q, ← sixBits? r)
    if c % 4 = 0 then some [(a * 4 + b / 16).toUInt8, (b % 16 * 16 + c / 4).toUInt8] else none
  | p :: q :: r :: s :: rest => do
    let (a, b, c, d) := (← sixBits? p, ← sixBits? q, ← sixBits? r, ← sixBits? s)
    let bytes ← decodeBytes? rest
    some ((a * 4 + b / 16).toUInt8 :: (b % 16 * 16 + c / 4).toUInt8 ::
      (c % 4 * 64 + d).toUInt8 :: bytes)

/-- What a hash depends on besides the password. -/
structure Salt where
  version : String
  cost : Nat
  bytes : List UInt8
deriving DecidableEq, Repr

/-- The versions of the format; all of them hash alike. -/
def versions : List String := ["2a", "2b", "2x", "2y"]

/-- A number in decimal, with a plus sign in front if wanted. -/
def cost? (s : List Char) : Option Nat :=
  let digits := if s.head? = some '+' then s.drop 1 else s
  if !digits.isEmpty && digits.all isDigit then
    let n := ofDigits digits
    if 4 ≤ n && n ≤ 31 then some n else none
  else none

/-- The salt of a stored hash, or a salt that stands alone: three parts
between dollar signs, of which the last begins with the salt's characters. -/
def Salt.ofText? (s : String) : Option Salt :=
  match (splitAt '$' s.toList).filter (· ≠ []) with
  | [version, cost, tail] =>
    if versions.contains (String.ofList version) && 22 ≤ tail.length then
      match cost? cost, decodeBytes? (tail.take 22) with
      | some cost, some bytes => some ⟨String.ofList version, cost, bytes⟩
      | _, _ => none
    else none
  | _ => none

/-- The version of new salts. -/
def newVersion : String := "2b"

/-- How often the key schedule of a new salt is repeated, as a power of
two. -/
def newCost : Nat := 12

/-- The written form of a new salt of sixteen bytes. -/
def Salt.text (bytes : List UInt8) : String :=
  String.ofList ('$' :: newVersion.toList ++ '$' :: padded 2 newCost ++ '$' :: encodeBytes bytes)

/-- How many bytes of a password count. -/
def mostBytes : Nat := 72

/-- The bytes of a password that count. -/
def passwordBytes (password : String) : List UInt8 :=
  (utf8 password).take mostBytes

/-- The bytes of a password that count; none if it cannot be encoded. -/
def passwordBytes? (password : RawText) : Option (List UInt8) :=
  password.string?.map passwordBytes

/-- The key for some password bytes: a zero byte ends it if there is room. -/
def keyBytes (bytes : List UInt8) : List UInt8 :=
  (bytes ++ [0]).take mostBytes

/-- A word as four bytes. -/
def wordBytes (w : UInt32) : List UInt8 :=
  [(w >>> 24).toUInt8, (w >>> 16).toUInt8, (w >>> 8).toUInt8, w.toUInt8]

/-- The text that is encrypted, as three blocks. -/
def magic : List Block :=
  let word (i : Nat) := Cipher.cyclicWord (utf8 "OrpheanBeholderScryDoubt").toArray i
  [⟨word 0, word 1⟩, ⟨word 2, word 3⟩, ⟨word 4, word 5⟩]

/-- The digest: the magic text encrypted 64 times, without its last byte. -/
def digest (salt : Salt) (bytes : List UInt8) : List UInt8 :=
  let c := Cipher.slowSchedule salt.cost (keyBytes bytes).toArray salt.bytes.toArray
  let blocks := (List.range 64).foldl (fun blocks _ => blocks.map c.encrypt) magic
  (blocks.flatMap fun b => wordBytes b.left ++ wordBytes b.right).take 23

/-- The written form of a hash. -/
def hashText (salt : Salt) (digest : List UInt8) : String :=
  String.ofList ('$' :: salt.version.toList ++ '$' :: padded 2 salt.cost ++
    '$' :: encodeBytes salt.bytes ++ encodeBytes digest)

/-- The hash of some password bytes under a salt. -/
def hashBytes (salt : Salt) (bytes : List UInt8) : String :=
  hashText salt (digest salt bytes)

/-- The hash of a password under a salt, which has to be one. -/
def hash? (salt : String) (password : RawText) : Option String := do
  let bytes ← passwordBytes? password
  let salt ← Salt.ofText? salt
  return hashBytes salt bytes

/-- Whether a password hashes to a stored hash under the salt in it; none
if there is no salt in it, or one of the two cannot be encoded. -/
def verify? (password stored : RawText) : Option Bool := do
  let stored ← stored.string?
  return (← hash? stored password) == stored

end CommentThreads.Password
