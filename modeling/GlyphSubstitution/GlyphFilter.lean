import GlyphSubstitution.Glyph
import GlyphSubstitution.LookupFlag

/-!
# Which glyphs a lookup sees

A skip predicate decides, for each glyph and each lookup flag, whether a lookup with that flag
steps over the glyph.  `SkipPredicate.filter` fixes the flag; all matching is done through the
`GlyphFilter` that results, and a glyph that it does not see counts for no pattern.
-/

namespace GlyphSubstitution

/-- Whether a lookup with a given flag steps over a glyph. -/
abbrev SkipPredicate := GlyphId → LookupFlag → Bool

/-- The glyphs that take part in the matching of one lookup. -/
structure GlyphFilter where
  /-- Whether the glyph takes part. -/
  sees : GlyphId → Bool

namespace SkipPredicate

/-- The predicate under which every lookup sees every glyph. -/
def nothing : SkipPredicate := fun _ _ => false

/-- What a lookup with this flag sees. -/
def filter (skip : SkipPredicate) (flag : LookupFlag) : GlyphFilter := ⟨fun g => !skip g flag⟩

@[simp] theorem sees_filter (skip : SkipPredicate) (flag : LookupFlag) (g : GlyphId) :
    (filter skip flag).sees g = !skip g flag := rfl

end SkipPredicate

end GlyphSubstitution
