import Pseudonym.Markers.Drawn

/-!
# Markers from a seed

A seed fixes the markers, so that a later run can read the tokens of an earlier one. The seed is
spread over a 256-bit key by a permuted congruential generator, the key starts a ChaCha keystream of
twelve rounds, and the words of the keystream are what the markers are drawn from.
-/

namespace Pseudonym.Markers

/-- Sixteen words of keystream, or the state they come from. -/
abbrev Block := Vector UInt32 16

/-- Rotates a word to the left. -/
def rotateLeft (x : UInt32) (n : UInt32) : UInt32 := (x <<< n) ||| (x >>> (32 - n))

/-- Mixes four words of a block. -/
def quarterRound (s : Block) (a b c d : Fin 16) : Block :=
  let xa := s[a] + s[b]
  let xd := rotateLeft (s[d] ^^^ xa) 16
  let xc := s[c] + xd
  let xb := rotateLeft (s[b] ^^^ xc) 12
  let xa := xa + xb
  let xd := rotateLeft (xd ^^^ xa) 8
  let xc := xc + xd
  let xb := rotateLeft (xb ^^^ xc) 7
  (((s.set a xa).set b xb).set c xc).set d xd

/-- Mixes the columns of a block and then its diagonals. -/
def doubleRound (s : Block) : Block :=
  let s := quarterRound s 0 4 8 12
  let s := quarterRound s 1 5 9 13
  let s := quarterRound s 2 6 10 14
  let s := quarterRound s 3 7 11 15
  let s := quarterRound s 0 5 10 15
  let s := quarterRound s 1 6 11 12
  let s := quarterRound s 2 7 8 13
  quarterRound s 3 4 9 14

/-- One block of the keystream of a key: twelve rounds, added to the state they started from. -/
def keystreamBlock (key : Vector UInt32 8) (counter : UInt64) : Block :=
  let start : Block := #v[0x61707865, 0x3320646e, 0x79622d32, 0x6b206574,
    key[0], key[1], key[2], key[3], key[4], key[5], key[6], key[7],
    counter.toUInt32, (counter >>> 32).toUInt32, 0, 0]
  let mixed := doubleRound (doubleRound (doubleRound (doubleRound (doubleRound (doubleRound start)))))
  Vector.zipWith (· + ·) start mixed

/-- The next state of the generator that spreads a seed. -/
def spreadStep (state : UInt64) : UInt64 := state * 6364136223846793005 + 11634580027462260723

/-- The word that a state of the generator gives: shifted bits, rotated by the top ones. -/
def spreadWord (state : UInt64) : UInt32 :=
  let x := (((state >>> 18) ^^^ state) >>> 27).toUInt32
  let n := (state >>> 59).toUInt32
  (x >>> n) ||| (x <<< ((32 - n) % 32))

/-- The `n`-th state after a seed. -/
def spreadState (seed : UInt64) : Nat → UInt64
  | 0 => seed
  | n + 1 => spreadStep (spreadState seed n)

def seedKey (seed : UInt64) : Vector UInt32 8 :=
  Vector.ofFn fun i => spreadWord (spreadState seed (i.val + 1))

/-- The words of the keystream of a key. After all 2^64 blocks it starts again. -/
def keystream (key : Vector UInt32 8) (place : Nat) : UInt32 :=
  (keystreamBlock key (.ofNat (place / 16))).get ⟨place % 16, Nat.mod_lt place (by decide)⟩

/-- The markers of a seed, if the search for them ends. It would not for a seed whose keystream
named no letter at all. -/
def seeded? (seed : UInt64) : Option Markers :=
  match h : drawFrame (keystream (seedKey seed)) with
  | some frame => some ⟨frame.opening, frame.closing, wellFormed_of_drawFrame h⟩
  | none => none

/-- The markers of a seed, or those of salts of `A` for a seed that has none. -/
def seeded (seed : UInt64) : Markers := (seeded? seed).getD (salted default default)

end Pseudonym.Markers
