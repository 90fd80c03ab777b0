/-!
# White space around a text

The characters with the Unicode property White_Space, and the text left when those at both ends
are dropped.
-/

namespace Offside.Blank

/-- The code points with the property White_Space. -/
def codes : List Nat :=
  [0x9, 0xa, 0xb, 0xc, 0xd, 0x20, 0x85, 0xa0, 0x1680, 0x2000, 0x2001, 0x2002, 0x2003, 0x2004,
    0x2005, 0x2006, 0x2007, 0x2008, 0x2009, 0x200a, 0x2028, 0x2029, 0x202f, 0x205f, 0x3000]

/-- Whether a character is white space. -/
def isBlank (c : Char) : Bool := codes.contains c.toNat

/-- There is no white space among the characters of a class if none of the code points is in it. -/
theorem not_isBlank_of {p : Char → Bool} (hp : (codes.all fun n => !p (Char.ofNat n)) = true)
    {c : Char} (h : p c = true) : isBlank c = false := by
  rw [Bool.eq_false_iff]
  intro hblank
  have hc := List.all_eq_true.mp hp c.toNat (List.contains_iff_mem.mp hblank)
  rw [Char.ofNat_toNat, h] at hc
  cases hc

/-- The characters without the white space at both ends. -/
def trim (cs : List Char) : List Char :=
  ((cs.dropWhile isBlank).reverse.dropWhile isBlank).reverse

end Offside.Blank
