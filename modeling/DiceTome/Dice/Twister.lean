import DiceTome.Roll

/-!
# Seeded dice

The Mersenne twister with 624 words of 32 bits, seeded by the words of a natural number. A face is
found by drawing as many bits as the number of faces has, until they make a number below it.
-/

namespace DiceTome

/-- The words of the generator and the position of the next one. -/
structure Twister where
  words : Array UInt32
  position : Nat
  deriving Repr, DecidableEq

namespace Twister

/-- The number of words. -/
def size : Nat := 624

/-- One word, or zero outside the state. -/
def word (words : Array UInt32) (i : Nat) : UInt32 :=
  words[i]?.getD 0

/-- Words that follow from a first one by a linear recurrence. -/
def spread (seed : UInt32) : Array UInt32 :=
  (List.range (size - 1)).foldl (fun words k =>
    let last := word words k
    words.push ((last ^^^ (last >>> 30)) * 1812433253 + (k + 1).toUInt32)) #[seed]

/-- The words of a natural number, the lowest first; at most `limit` of them. -/
def wordsUpTo : Nat → Nat → List UInt32
  | 0, _ => []
  | limit + 1, n => if n = 0 then [] else n.toUInt32 :: wordsUpTo limit (n / Nat.pow 2 32)

/-- The words of a natural number, the lowest first; zero has one word. -/
def wordsOf (n : Nat) : List UInt32 :=
  if n = 0 then [0] else wordsUpTo (n.log2 / 32 + 1) n

/-- A position in the state, carried over from the last word to the first. -/
def wrap (words : Array UInt32) (i : Nat) : Array UInt32 × Nat :=
  if size ≤ i then (words.setIfInBounds 0 (word words (size - 1)), 1) else (words, i)

/-- Mixes the key into the words, as many times as asked for. -/
def mixKey (key : Array UInt32) : Nat → Nat → Nat → Array UInt32 → Array UInt32 × Nat
  | 0, i, _, words => (words, i)
  | n + 1, i, j, words =>
    let last := word words (i - 1)
    let mixed := (word words i ^^^ ((last ^^^ (last >>> 30)) * 1664525)) + word key j + j.toUInt32
    let (words, i) := wrap (words.setIfInBounds i mixed) (i + 1)
    mixKey key n i (if key.size ≤ j + 1 then 0 else j + 1) words

/-- Mixes the words among themselves, as many times as asked for. -/
def mixWords : Nat → Nat → Array UInt32 → Array UInt32
  | 0, _, words => words
  | n + 1, i, words =>
    let last := word words (i - 1)
    let mixed := (word words i ^^^ ((last ^^^ (last >>> 30)) * 1566083941)) - i.toUInt32
    let (words, i) := wrap (words.setIfInBounds i mixed) (i + 1)
    mixWords n i words

/-- The generator for a natural number. -/
def ofSeed (n : Nat) : Twister :=
  let key := (wordsOf n).toArray
  let (words, i) := mixKey key (max size key.size) 1 0 (spread 19650218)
  let words := mixWords (size - 1) i words
  { words := words.setIfInBounds 0 0x80000000, position := size }

/-- One word of the next state, from the words of this one as far as they have been renewed. -/
def renewWord (words : Array UInt32) (k : Nat) : Array UInt32 :=
  let y := (word words k &&& 0x80000000) ||| (word words ((k + 1) % size) &&& 0x7fffffff)
  let twist : UInt32 := if y &&& 1 = 0 then 0 else 0x9908b0df
  words.setIfInBounds k (word words ((k + 397) % size) ^^^ (y >>> 1) ^^^ twist)

/-- The next state of all words. -/
def renew (words : Array UInt32) : Array UInt32 :=
  (List.range size).foldl renewWord words

/-- The bits of a word, stirred. -/
def temper (y : UInt32) : UInt32 :=
  let y := y ^^^ (y >>> 11)
  let y := y ^^^ ((y <<< 7) &&& 0x9d2c5680)
  let y := y ^^^ ((y <<< 15) &&& 0xefc60000)
  y ^^^ (y >>> 18)

/-- The next 32 bits. -/
def next32 (t : Twister) : UInt32 × Twister :=
  let t := if size ≤ t.position then { words := renew t.words, position := 0 } else t
  (temper (word t.words t.position), { t with position := t.position + 1 })

/-- The next `32 · count` bits, the lowest word first, above `shift` bits that are there already. -/
def nextWords : Nat → Nat → Nat → Twister → Nat × Twister
  | 0, _, sum, t => (sum, t)
  | count + 1, shift, sum, t =>
    let (w, t) := t.next32
    nextWords count (shift + 32) (sum + w.toNat * Nat.pow 2 shift) t

/-- The next `k` bits: whole words first, and then the highest bits of one more word. -/
def nextBits (k : Nat) (t : Twister) : Nat × Twister :=
  let (low, t) := nextWords (k / 32) 0 0 t
  if k % 32 = 0 then (low, t)
  else
    let (w, t) := t.next32
    (low + w.toNat / Nat.pow 2 (32 - k % 32) * Nat.pow 2 (32 * (k / 32)), t)

/-- A number below `bound`, found among so many attempts; each of them succeeds in at least every
other case. -/
def nextBelow (bound : Nat) : Nat → Twister → Nat × Twister
  | 0, t => (0, t)
  | attempts + 1, t =>
    let (r, t) := t.nextBits (bound.log2 + 1)
    if r < bound then (r, t) else nextBelow bound attempts t

/-- The next face of a die. -/
def face (die : Int) (t : Twister) : Int × Twister :=
  let (r, t) := t.nextBelow die.toNat 10000
  (r + 1, t)

end Twister

instance : DiceSource Twister where
  draw := Twister.face

end DiceTome
