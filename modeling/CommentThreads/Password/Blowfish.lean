/-
CommentThreads.Password.Blowfish — the block cipher, and its slow key
schedule.

A state is eighteen round keys and four boxes of 256 words, which start as
the binary digits of π. `expand` mixes a key and a salt into a state by
encrypting its own output over and over; `slowSchedule` repeats that as
often as the cost says.
-/
import CommentThreads.Password.PiDigits

namespace CommentThreads.Password

/-- Two words of 32 bits. -/
structure Block where
  left : UInt32
  right : UInt32
deriving DecidableEq, Repr

/-- Round keys and boxes. The four boxes stand one behind the other. -/
structure Cipher where
  rounds : Array UInt32
  boxes : Array UInt32

namespace Cipher

/-- The digits of π that a state starts from. -/
def initialWords : Array UInt32 := piWords (18 + 1024)

/-- The state before any key. -/
def initial : Cipher :=
  ⟨initialWords.extract 0 18, initialWords.extract 18 (18 + 1024)⟩

/-- The word of a box for one byte of another word. -/
def box (c : Cipher) (number : Nat) (byte : UInt32) : UInt32 :=
  c.boxes.getD (number * 256 + (byte &&& 0xFF).toNat) 0

/-- The mixing function of a round. -/
def mix (c : Cipher) (x : UInt32) : UInt32 :=
  ((c.box 0 (x >>> 24) + c.box 1 (x >>> 16)) ^^^ c.box 2 (x >>> 8)) + c.box 3 x

/-- One round; the halves change places. -/
def round (c : Cipher) (b : Block) (i : Nat) : Block :=
  let left := b.left ^^^ c.rounds.getD i 0
  ⟨b.right ^^^ c.mix left, left⟩

/-- A block encrypted: sixteen rounds and the last two round keys. -/
def encrypt (c : Cipher) (b : Block) : Block :=
  let b := (List.range 16).foldl c.round b
  ⟨b.right ^^^ c.rounds.getD 17 0, b.left ^^^ c.rounds.getD 16 0⟩

/-- The word at a place of a byte string that repeats itself. -/
def cyclicWord (bytes : Array UInt8) (place : Nat) : UInt32 :=
  (List.range 4).foldl
    (fun word i => (word <<< 8) ||| (bytes.getD ((place * 4 + i) % bytes.size) 0).toUInt32) 0

/-- A block with the next two words of the salt mixed in. -/
def salted (salt : Array UInt32) (b : Block) (place : Nat) : Block :=
  ⟨b.left ^^^ salt.getD (place * 2 % 4) 0, b.right ^^^ salt.getD (place * 2 % 4 + 1) 0⟩

/-- Replace two neighbouring words. -/
def store (words : Array UInt32) (place : Nat) (b : Block) : Array UInt32 :=
  (words.setIfInBounds (place * 2) b.left).setIfInBounds (place * 2 + 1) b.right

/-- Replace the next two round keys by the encryption of the block before. -/
def fillRounds (salt : Array UInt32) (state : Cipher × Block) (place : Nat) : Cipher × Block :=
  let (c, b) := state
  let b := c.encrypt (salted salt b place)
  let ⟨rounds, boxes⟩ := c
  (⟨store rounds place b, boxes⟩, b)

/-- Replace the next two words of the boxes by the encryption of the block
before. The salt goes on where the nine pairs of round keys left it. -/
def fillBoxes (salt : Array UInt32) (state : Cipher × Block) (place : Nat) : Cipher × Block :=
  let (c, b) := state
  let b := c.encrypt (salted salt b (place + 9))
  let ⟨rounds, boxes⟩ := c
  (⟨rounds, store boxes place b⟩, b)

/-- Mix a key and a salt of four words into a state. -/
def expand (key : Array UInt8) (salt : Array UInt32) (c : Cipher) : Cipher :=
  let ⟨rounds, boxes⟩ := c
  let keyed : Cipher := ⟨rounds.mapIdx fun i word => word ^^^ cyclicWord key i, boxes⟩
  let filled := (List.range 9).foldl (fillRounds salt) (keyed, ⟨0, 0⟩)
  ((List.range 512).foldl (fillBoxes salt) filled).1

/-- No salt. -/
def noSalt : Array UInt32 := #[0, 0, 0, 0]

/-- The state for a key and a salt of sixteen bytes after two to the power
of `cost` repetitions. -/
def slowSchedule (cost : Nat) (key salt : Array UInt8) : Cipher :=
  let saltWords := Array.ofFn fun i : Fin 4 => cyclicWord salt i.val
  (List.range (Number.twoTo cost)).foldl
    (fun c _ => expand salt noSalt (expand key noSalt c))
    (expand key saltWords initial)

end Cipher

end CommentThreads.Password
