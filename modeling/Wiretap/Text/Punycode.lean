/-! Punycode: text beyond ASCII in letters, digits and hyphens. The characters below 128 come
first. Then each other character, in ascending order, is a number that tells how far its place is
from the one before, and the length of such a number adapts to those before it. -/

namespace Wiretap.Text.Punycode

/-- The digit of a value below thirty-six. -/
def digit (n : Nat) : Char :=
  if n < 26 then Char.ofNat ('a'.toNat + n) else Char.ofNat ('0'.toNat + (n - 26))

/-- The least value that does not end a number at the digit of weight `k`. -/
def threshold (bias k : Nat) : Nat :=
  max 1 (min 26 (k - bias))

/-- A distance divided by thirty-five until it is small, and thirty-six for each division. -/
def reduce (distance k : Nat) : Nat × Nat :=
  if 455 < distance then reduce (distance / 35) (k + 36) else (distance, k)
termination_by distance
decreasing_by exact Nat.div_lt_self (by omega) (by omega)

/-- The bias after a distance, when `count` characters are written. -/
def adapt (distance count : Nat) (first : Bool) : Nat :=
  let distance := if first then distance / 700 else distance / 2
  let (distance, k) := reduce (distance + distance / count) 0
  k + 36 * distance / (distance + 38)

/-- The digits of a number from the one of weight `k` on. -/
def digits (bias k n : Nat) : List Char :=
  let t := threshold bias k
  if n < t then [digit n]
  else digit (t + (n - t) % (36 - t)) :: digits bias (k + 36) ((n - t) / (36 - t))
termination_by n
decreasing_by
  have positive : 1 ≤ threshold bias k := by unfold threshold; omega
  have quotient : (n - threshold bias k) / (36 - threshold bias k) ≤ n - threshold bias k :=
    Nat.div_le_self _ _
  omega

/-- A text in the course of writing: its characters in pieces, last first, the distance from the
last place, the bias, and how many characters are written. -/
structure Draft where
  pieces : List (List Char)
  distance : Nat := 0
  bias : Nat := 72
  count : Nat

/-- Goes past a character on the way to the places of the character `n`. -/
def Draft.pass (basic n : Nat) (d : Draft) (c : Char) : Draft :=
  if c.toNat < n then { d with distance := d.distance + 1 }
  else if c.toNat = n then
    { pieces := digits d.bias 36 d.distance :: d.pieces
      distance := 0
      bias := adapt d.distance (d.count + 1) (d.count = basic)
      count := d.count + 1 }
  else d

/-- Writes the places of characters, which ascend from `n` on. -/
def Draft.push (basic : Nat) (cs : List Char) (n : Nat) (d : Draft) : List Nat → Draft
  | [] => d
  | m :: rest =>
    let d := { d with distance := d.distance + (m - n) * (d.count + 1) }
    let d := cs.foldl (Draft.pass basic m) d
    Draft.push basic cs (m + 1) { d with distance := d.distance + 1 } rest

/-- A text in Punycode. -/
def encode (cs : List Char) : List Char :=
  let basic := cs.filter (·.toNat < 0x80)
  let others := (((cs.filter (0x80 ≤ ·.toNat)).map Char.toNat).mergeSort (· ≤ ·)).eraseDups
  let start : Draft := { pieces := [], count := basic.length }
  let done := Draft.push basic.length cs 0x80 start others
  basic ++ (if basic.isEmpty then [] else ['-']) ++ done.pieces.reverse.flatten

end Wiretap.Text.Punycode
