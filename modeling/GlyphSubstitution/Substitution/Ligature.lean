import GlyphSubstitution.Substitution.Outcome
import GlyphSubstitution.Table.Subtable

/-!
# Ligature substitution

A ligature merges the glyph it begins with and the components that follow it into one glyph.  What
the lookup does not see may stand between the components; it stays in the run and is told after how
many components it stands.  `Ligature.fuse` only counts the glyphs that are seen and does not
compare their numbers again, so it is meant for places where `Ligature.matchesAt` holds.
-/

namespace GlyphSubstitution

universe u

variable {α : Type u} [Payload α]

/-- A glyph with the components that it took in, what still follows it, and how many unseen glyphs
were passed over. -/
structure Absorption (α : Type u) where
  head : Glyph α
  rest : Run α
  passed : Except ShapingError Nat

/-- Lets `head` take in seen glyphs of what follows until it has `wanted` of them; it has `taken`
already.  A glyph that is passed over is told how many were taken before it, and if that number does
not fit in a word, the walk breaks off there. -/
def absorbFrom (f : GlyphFilter) (wanted taken : Nat) (head : Glyph α) : Run α → Absorption α
  | [] => ⟨head, [], .ok 0⟩
  | glyph :: rest =>
    if wanted ≤ taken then ⟨head, glyph :: rest, .ok 0⟩
    else if f.sees glyph.gid then absorbFrom f wanted (taken + 1) (head.absorb glyph) rest
    else
      match toWord taken with
      | .error e => ⟨head, glyph :: rest, .error e⟩
      | .ok place =>
        let further := absorbFrom f wanted taken head rest
        ⟨further.head, { glyph with ligatureComponent := place } :: further.rest,
          further.passed.map (· + 1)⟩

namespace Ligature

/-- Whether the components follow position `i`. -/
def matchesAt (ligature : Ligature) (f : GlyphFilter) (gids : List GlyphId) (i : Nat) : Bool :=
  (f.reach? gids ligature.components i).isSome

/-- Merges the components in `rest` into `head`, and counts the glyphs passed over. -/
def fuse (ligature : Ligature) (f : GlyphFilter) (head : Glyph α) (rest : Run α) : Outcome α Nat :=
  let absorbed := absorbFrom f ligature.components.length 0 head rest
  match absorbed.passed with
  | .ok passed => ⟨absorbed.head.asLigature ligature.glyph :: absorbed.rest, .ok passed⟩
  | .error e => ⟨absorbed.head :: absorbed.rest, .error e⟩

/-- Forms the ligature at position `i` if it matches there, and counts the glyphs passed over. -/
def applyAt (ligature : Ligature) (f : GlyphFilter) (run : Run α) (i : Nat) :
    Outcome α (Option Nat) :=
  editAt
    (fun head rest =>
      if ligature.matchesAt f run.gids i then some (ligature.fuse f head rest) else none)
    run i

end Ligature

/-- The first ligature that matches at position `i`, of those that subtables, in order, hold for a
glyph. -/
def ligatureFor? (tables : List LigatureSubtable) (f : GlyphFilter) (gids : List GlyphId) (i : Nat)
    (g : GlyphId) : Option Ligature :=
  (tables.flatMap fun table => (table.get? g).getD []).find? (·.matchesAt f gids i)

theorem exists_mem_of_ligatureFor? {tables : List LigatureSubtable} {f : GlyphFilter}
    {gids : List GlyphId} {i : Nat} {g : GlyphId} {ligature : Ligature}
    (h : ligatureFor? tables f gids i g = some ligature) :
    ∃ table ∈ tables, ∃ entry ∈ table.entries, ligature ∈ entry.2 := by
  obtain ⟨table, htable, hmem⟩ := List.mem_flatMap.1 (List.mem_of_find?_eq_some h)
  cases hget : table.get? g with
  | none => simp [hget] at hmem
  | some ligatures =>
    rw [hget] at hmem
    exact ⟨table, htable, (g, ligatures), Coverage.get?_eq_some_iff.1 hget, hmem⟩

/-- The ligature to form at position `i`: the first that matches, of those for the glyph there. -/
def selectLigature? (tables : List LigatureSubtable) (f : GlyphFilter) (gids : List GlyphId)
    (i : Nat) : Option Ligature :=
  gids[i]?.bind (ligatureFor? tables f gids i)

/-- Applies ligature subtables at position `i`; the run is next looked at after the ligature and the
glyphs passed over. -/
def applyLigature (tables : List LigatureSubtable) (f : GlyphFilter) (run : Run α) (i : Nat) :
    Outcome α (Option Applied) :=
  editAt
    (fun head rest =>
      (selectLigature? tables f run.gids i).map fun ligature =>
        (ligature.fuse f head rest).map fun passed => { width := passed + 1, changed := true })
    run i

end GlyphSubstitution
