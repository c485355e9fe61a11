import GlyphSubstitution.GlyphDefinitions.ClassDef
import GlyphSubstitution.GlyphDefinitions.MarkSet

/-!
# Glyph definitions

What a font says about its glyphs apart from their shapes: their class (base glyph, ligature or
mark), the attachment class of its marks, and its mark filtering sets.  A font without such a
table is the empty one, under which every glyph has class zero.
-/

namespace GlyphSubstitution

/-- The classes of glyphs that lookup flags speak of. -/
inductive GlyphClass where
  | base
  | ligature
  | mark
  deriving DecidableEq, Repr

/-- The number that stands for the class in a class definition. -/
def GlyphClass.value : GlyphClass → UInt16
  | base => 1
  | ligature => 2
  | mark => 3

/-- What a font says about the roles of its glyphs. -/
structure GlyphDefinitions where
  /-- The glyph classes, numbered as in `GlyphClass.value`. -/
  classes : Option ClassDef := none
  /-- The attachment classes of marks. -/
  attachmentClasses : Option ClassDef := none
  /-- The mark filtering sets, by their numbers. -/
  markSets : List MarkSet := []

namespace GlyphDefinitions

/-- The class of a glyph, zero where nothing is said. -/
def classOf (defs : GlyphDefinitions) (g : GlyphId) : UInt16 :=
  (defs.classes.map (·.classOf g)).getD 0

/-- The attachment class of a glyph, zero where nothing is said. -/
def attachmentClassOf (defs : GlyphDefinitions) (g : GlyphId) : UInt16 :=
  (defs.attachmentClasses.map (·.classOf g)).getD 0

/-- Whether the glyph is of the class. -/
def hasClass (defs : GlyphDefinitions) (g : GlyphId) (c : GlyphClass) : Bool :=
  defs.classOf g == c.value

/-- Whether the glyph is a mark. -/
def isMark (defs : GlyphDefinitions) (g : GlyphId) : Bool := defs.hasClass g .mark

/-- Whether the glyph is a mark in the mark filtering set of this number; no glyph is in a set that
the font does not have. -/
def isMarkInSet (defs : GlyphDefinitions) (g : GlyphId) (set : Nat) : Bool :=
  defs.isMark g && defs.markSets[set]?.any (·.contains g)

end GlyphDefinitions

end GlyphSubstitution
