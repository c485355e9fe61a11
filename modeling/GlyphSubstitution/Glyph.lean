import GlyphSubstitution.Error

/-!
# Glyphs and runs

A run is the list of glyphs that one piece of text has become so far.  A glyph carries, beside its
number in the font, the characters it stands for, where it came from, and a payload of the caller's
choosing that ligatures merge.  The edits of single glyphs that substitution is made of stand here:
`Glyph.replaceBy`, `Glyph.duplicateAs`, `Glyph.absorb` and `Glyph.asLigature`.
-/

namespace GlyphSubstitution

universe u

/-- The number of a glyph in its font. -/
abbrev GlyphId := UInt16

/-- Where a glyph came from. -/
inductive Origin where
  /-- It was made from this character. -/
  | char (c : Char)
  /-- It was put in place as a glyph, by the caller or by a substitution. -/
  | direct
  deriving DecidableEq, Repr

/-- What substitution has done to a glyph. -/
structure GlyphFlags where
  /-- It is one of the later outputs of a multiple substitution. -/
  duplicate : Bool := false
  /-- It is the result of a ligature substitution. -/
  ligature : Bool := false
  deriving DecidableEq, Repr

/-- A glyph of a run: its number in the font, the characters that it stands for, and a payload of
type `α`.  If a ligature was formed across the glyph, `ligatureComponent` says after how many of the
ligature's later components it stands. -/
structure Glyph (α : Type u) where
  gid : GlyphId
  chars : List Char
  ligatureComponent : UInt16 := 0
  origin : Origin := .direct
  flags : GlyphFlags := {}
  payload : α
  deriving DecidableEq, Repr

/-- Payloads that can be merged when their glyphs become one. -/
class Payload (α : Type u) where
  /-- The payload of the merged glyph; the first argument is that of the glyph further left. -/
  merge : α → α → α

/-- Nothing merged with nothing is nothing. -/
instance : Payload Unit := ⟨fun _ _ => ()⟩

/-- Lists merge by concatenation, from left to right. -/
instance {α : Type u} : Payload (List α) := ⟨(· ++ ·)⟩

theorem merge_list {α : Type u} (xs ys : List α) : Payload.merge xs ys = xs ++ ys := rfl

/-- The glyphs that a piece of text has become so far, from left to right. -/
abbrev Run (α : Type u) := List (Glyph α)

/-- The glyph numbers of a run: all that matching looks at. -/
def Run.gids {α : Type u} (run : Run α) : List GlyphId := run.map Glyph.gid

namespace Glyph

variable {α : Type u}

/-- The glyph made from a character. -/
def ofChar (c : Char) (g : GlyphId) (payload : α) : Glyph α :=
  { gid := g, chars := [c], origin := .char c, payload }

/-- A glyph that stands for no character, such as one that the caller inserts. -/
def ofId (g : GlyphId) (payload : α) : Glyph α := { gid := g, chars := [], payload }

/-- The glyph after a substitution gave it another number. -/
def replaceBy (glyph : Glyph α) (g : GlyphId) : Glyph α :=
  { glyph with gid := g, origin := .direct }

/-- A copy under another number, as the later outputs of a multiple substitution are. -/
def duplicateAs (glyph : Glyph α) (g : GlyphId) : Glyph α :=
  { glyph with
    gid := g, ligatureComponent := 0, origin := .direct
    flags := { glyph.flags with duplicate := true } }

/-- The glyph after it took in the component of a ligature. -/
def absorb [Payload α] (glyph component : Glyph α) : Glyph α :=
  { glyph with
    chars := glyph.chars ++ component.chars
    payload := Payload.merge glyph.payload component.payload }

/-- The glyph as a ligature of number `g`. -/
def asLigature (glyph : Glyph α) (g : GlyphId) : Glyph α :=
  { glyph with gid := g, origin := .direct, flags := { glyph.flags with ligature := true } }

/-- What stands in the place of a glyph that the font does not have: glyph zero, which stands for
no character and keeps only the payload. -/
def missing (glyph : Glyph α) : Glyph α := ofId 0 glyph.payload

end Glyph

namespace Run

variable {α : Type u}

/-- The run with every glyph that a font of `count` glyphs does not have replaced by glyph zero. -/
def replaceMissing (run : Run α) (count : UInt16) : Run α :=
  run.map fun glyph => if glyph.gid < count then glyph else glyph.missing

@[simp] theorem length_gids (run : Run α) : run.gids.length = run.length := by simp [gids]

@[simp] theorem gids_nil : gids ([] : Run α) = [] := rfl

@[simp] theorem gids_cons (glyph : Glyph α) (run : Run α) :
    gids (glyph :: run) = glyph.gid :: gids run := rfl

@[simp] theorem gids_append (run rest : Run α) : gids (run ++ rest) = gids run ++ gids rest := by
  simp [gids]

theorem getElem?_gids (run : Run α) (i : Nat) : run.gids[i]? = run[i]?.map Glyph.gid := by
  simp [gids]

@[simp] theorem length_replaceMissing (run : Run α) (count : UInt16) :
    (run.replaceMissing count).length = run.length := by simp [replaceMissing]

end Run

end GlyphSubstitution
