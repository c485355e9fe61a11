import GlyphSubstitution.Glyph

/-!
# Class definitions

A class definition sorts glyphs into numbered classes.  It comes as an array of classes for
consecutive glyphs, or as a list of ranges, which may overlap, stand in any order or be empty; the
first range that holds a glyph decides.  Every glyph that is not mentioned has class zero.
-/

namespace GlyphSubstitution

/-- The class that all glyphs from `first` to `last`, both included, are given. -/
structure ClassRange where
  first : GlyphId
  last : GlyphId
  value : UInt16
  deriving DecidableEq, Repr

/-- Whether the range holds the glyph. -/
def ClassRange.holds (range : ClassRange) (g : GlyphId) : Bool := range.first ≤ g && g ≤ range.last

/-- A sorting of glyphs into numbered classes. -/
inductive ClassDef where
  /-- The classes of consecutive glyphs, from `start` on. -/
  | array (start : GlyphId) (values : List UInt16)
  /-- The classes of ranges of glyphs. -/
  | ranges (ranges : List ClassRange)
  deriving DecidableEq, Repr

namespace ClassDef

/-- The class of a glyph, zero if the definition does not mention it. -/
def classOf : ClassDef → GlyphId → UInt16
  | array start values, g => if start ≤ g then values.getD (g.toNat - start.toNat) 0 else 0
  | ranges rs, g => ((rs.find? (·.holds g)).map (·.value)).getD 0

end ClassDef

end GlyphSubstitution
