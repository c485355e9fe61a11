import GlyphSubstitution.GlyphDefinitions.Basic
import GlyphSubstitution.GlyphFilter

/-!
# Skipping by glyph definitions

The skip predicate of a font: a lookup steps over base glyphs, ligatures and marks as its flag says,
the role of each glyph being what the font's glyph definitions say.
-/

namespace GlyphSubstitution

/-- Whether the flag lets a lookup see every glyph, whatever its class. -/
def LookupFlag.seesAll (flag : LookupFlag) : Bool :=
  !flag.ignoresBases && !flag.ignoresLigatures && flag.ignoredMarks == .none

namespace GlyphDefinitions

/-- Whether a lookup that ignores these marks does not see `g`, which is a mark. -/
def hidesMark (defs : GlyphDefinitions) (ignored : IgnoredMarks) (g : GlyphId) : Bool :=
  match ignored with
  | .none => false
  | .all => true
  | .exceptClass kept => defs.attachmentClassOf g != kept.toUInt16
  | .notInSet set => !defs.isMarkInSet g set.toNat

/-- The skip predicate of the font.  Where the flag hides nothing the classes are not looked up. -/
def skips (defs : GlyphDefinitions) : SkipPredicate := fun g flag =>
  if flag.seesAll then false
  else if defs.hasClass g .base then flag.ignoresBases
  else if defs.hasClass g .ligature then flag.ignoresLigatures
  else defs.isMark g && defs.hidesMark flag.ignoredMarks g

end GlyphDefinitions

end GlyphSubstitution
