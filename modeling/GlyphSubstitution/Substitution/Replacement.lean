import GlyphSubstitution.Substitution.Outcome
import GlyphSubstitution.Table.Subtable

/-!
# Single and multiple substitution

A single substitution gives a glyph another number, a multiple substitution puts a sequence in its
place.  Of several subtables, the first that covers the glyph decides.
-/

namespace GlyphSubstitution

universe u

variable {α : Type u}

/-- What a sequence of substitutes makes of a glyph.  The first substitute keeps what is known about
the glyph, the others are marked as duplicates; an empty sequence removes the glyph. -/
def Glyph.expand (glyph : Glyph α) : List GlyphId → Run α
  | [] => []
  | g :: rest => glyph.replaceBy g :: rest.map glyph.duplicateAs

@[simp] theorem Glyph.length_expand (glyph : Glyph α) (gs : List GlyphId) :
    (glyph.expand gs).length = gs.length := by
  cases gs <;> simp [expand]

@[simp] theorem Glyph.gids_expand (glyph : Glyph α) (gs : List GlyphId) :
    (glyph.expand gs).gids = gs := by
  cases gs with
  | nil => rfl
  | cons g rest =>
    have : (Glyph.gid ∘ glyph.duplicateAs : GlyphId → GlyphId) = id := rfl
    simp [expand, Run.gids, replaceBy, this]

/-- Applies single subtables to the glyph at position `i`. -/
def applySingle (tables : List SingleSubtable) : Run α → Nat → Outcome α (Option Applied) :=
  editAt fun glyph rest =>
    (Coverage.first? tables glyph.gid).map fun g =>
      ⟨glyph.replaceBy g :: rest, .ok { width := 1, changed := true }⟩

/-- Applies multiple subtables to the glyph at position `i`; the run is next looked at after the
substitutes. -/
def applyMultiple (tables : List MultipleSubtable) : Run α → Nat → Outcome α (Option Applied) :=
  editAt fun glyph rest =>
    (Coverage.first? tables glyph.gid).map fun gs =>
      ⟨glyph.expand gs ++ rest, .ok { width := gs.length, changed := true }⟩

end GlyphSubstitution
