import GlyphSubstitution.Matching.Sequence

/-!
# Matching a context

A context asks for glyphs before, after, and further after the glyph that a rule starts at.  A match
remembers where the start glyph and the glyphs of the input sequence stand, for those are what the
rule's records address.  While the records are worked off the run grows and shrinks, and
`shiftAfter` moves the remembered positions along.
-/

namespace GlyphSubstitution

/-- The glyphs that must stand around a start glyph.  A sequence that is not given asks for
nothing. -/
structure ContextPattern where
  /-- The glyphs before the start glyph, the nearest first. -/
  backtrack : Option (List GlyphId) := none
  /-- The glyphs after the start glyph, which belong to the input. -/
  input : List GlyphId
  /-- The glyphs after the input. -/
  lookahead : Option (List GlyphId) := none
  deriving DecidableEq, Repr

/-- Where a context was met: the position of the start glyph, and those of the input glyphs after it
from left to right. -/
structure ContextMatch where
  start : Nat
  inputs : List Nat
  deriving DecidableEq, Repr

namespace ContextMatch

/-- The positions of all input glyphs, the start glyph being the first. -/
def positions (m : ContextMatch) : List Nat := m.start :: m.inputs

/-- The position of the last input glyph. -/
def last (m : ContextMatch) : Nat := m.inputs.getLastD m.start

/-- How many places of the run the match takes up, from the start glyph to the last input glyph; the
glyphs that were stepped over between them count. -/
def length (m : ContextMatch) : Nat := m.last - m.start + 1

@[simp] theorem length_positions (m : ContextMatch) :
    m.positions.length = m.inputs.length + 1 := rfl

end ContextMatch

namespace ContextPattern

/-- Meets the pattern around the glyph at position `i`.  That glyph is not compared with anything,
but it must be there.  What comes before is looked at first, then the input, then what follows the
input's last glyph. -/
def match? (pattern : ContextPattern) (f : GlyphFilter) (gids : List GlyphId) (i : Nat) :
    Option ContextMatch :=
  if i < gids.length && f.matchesBack gids (pattern.backtrack.getD []) i then
    let ahead := f.matchAhead gids pattern.input i []
    (ahead.last.bind (f.reach? gids (pattern.lookahead.getD []))).map fun _ =>
      ⟨i, ahead.positions⟩
  else none

/-- A pattern is met exactly if its three sequences are. -/
theorem match?_eq_some_iff {pattern : ContextPattern} {f : GlyphFilter} {gids : List GlyphId}
    {i : Nat} {m : ContextMatch} :
    pattern.match? f gids i = some m ↔
      i < gids.length ∧ f.matchesBack gids (pattern.backtrack.getD []) i = true ∧
        ((f.reach? gids pattern.input i).bind
          (f.reach? gids (pattern.lookahead.getD []))).isSome = true ∧
        m = ⟨i, (f.matchAhead gids pattern.input i []).positions⟩ := by
  unfold match?
  split
  · next h =>
    simp only [Bool.and_eq_true, decide_eq_true_eq] at h
    simp only [GlyphFilter.last_matchAhead, Option.map_eq_some_iff, Option.isSome_iff_exists]
    constructor
    · rintro ⟨last, hlast, rfl⟩
      exact ⟨h.1, h.2, ⟨last, hlast⟩, rfl⟩
    · rintro ⟨-, -, ⟨last, hlast⟩, rfl⟩
      exact ⟨last, hlast, rfl⟩
  · next h =>
    simp only [Bool.and_eq_true, decide_eq_true_eq] at h
    constructor
    · nofun
    · rintro ⟨h₁, h₂, -⟩
      exact absurd ⟨h₁, h₂⟩ h

end ContextPattern

/-! ## Positions under edits -/

/-- Where the input glyphs stand after an edit at the one that `k` addresses changed the length of
the run by `delta`.  Added glyphs are taken to follow the edited one, and removed glyphs to be those
after it; so later positions move by `delta`, but never before the edited glyph. -/
def shiftAfter (positions : List Nat) (k : Nat) (delta : Int) : List Nat :=
  match positions[k]? with
  | none => positions
  | some floor =>
    positions.take (k + 1) ++ (positions.drop (k + 1)).map
      fun (p : Nat) => max floor ((p : Int) + delta).toNat

@[simp] theorem length_shiftAfter (positions : List Nat) (k : Nat) (delta : Int) :
    (shiftAfter positions k delta).length = positions.length := by
  unfold shiftAfter
  split
  · rfl
  · simp
    omega

end GlyphSubstitution
