/-!
# Unpaired surrogates

A character above the first plane is written in JSON as a pair of sixteen-bit
units, and nothing keeps a settings file from writing one unit of a pair
without the other. Such a unit has a code point but is no character, so no text
could hold it. It is held by a stand-in, a character from a block to which
nothing is assigned. The block is as large as the range of such units and lies
at a fixed distance from it, so none of them is lost and none is taken for
another.

What depends on the code point of a character asks for `Unpaired.code`, which
looks through the stand-in: the order of texts, what a text takes in units, and
every form in which a text is written with escapes. No encoding has bytes for an
unpaired unit, so a text with a stand-in is not written to a file as it is.

Texts pay for this with the block. The 2048 code points from U+AD800 to U+ADFFF are
characters of no text: a file that has them is read as if it had the units, and is
not written back. In a count of the bytes of a text a stand-in weighs four, as the
character it is does, where the unit would weigh three. What is proved about all
files and all texts is meant of those without characters of the block, or with the
units in their place.

## Main definitions

* `Unpaired.standIn`: The character that holds an unpaired unit.
* `Unpaired.isStandIn`: Whether a character holds one.
* `Unpaired.code`: The code point that a character of a text has.
-/

namespace QueryDesk

namespace Unpaired

/-- How far the stand-ins are from the units they hold. -/
def distance : Nat := 0xa0000

/-- The code point is that of one unit of a pair. -/
def isUnit (n : Nat) : Bool :=
  0xd800 ≤ n && n < 0xe000

/-- The character that holds an unpaired unit. -/
def standIn (unit : Nat) : Char :=
  Char.ofNat (distance + unit)

/-- The character holds an unpaired unit. -/
def isStandIn (c : Char) : Bool :=
  isUnit (c.toNat - distance)

/-- The code point of a character, or of the unit it holds. -/
def code (c : Char) : Nat :=
  if isStandIn c then c.toNat - distance else c.toNat

end Unpaired

end QueryDesk
