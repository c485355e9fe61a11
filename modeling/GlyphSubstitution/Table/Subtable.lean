import GlyphSubstitution.Table.Coverage
import GlyphSubstitution.Table.Rule

/-!
# Subtables

A lookup is made up of subtables of one kind.  Those that replace glyphs hold, for each glyph they
cover, its substitute, its sequence of substitutes, or the ligatures that begin with it.  A
contextual subtable holds the rules that start at the glyph, in the order in which they are tried;
`ContextSubtable.ofRules` refuses rules whose records point outside their input.
-/

namespace GlyphSubstitution

/-- A ligature, by the glyph that it puts in the place of its components. -/
structure Ligature where
  /-- The glyph of the ligature. -/
  glyph : GlyphId
  /-- The components after the first one, which selects the ligature. -/
  components : List GlyphId
  deriving DecidableEq, Repr

/-- One substitute for each covered glyph. -/
abbrev SingleSubtable := Coverage GlyphId

/-- A sequence of substitutes for each covered glyph; an empty one removes the glyph. -/
abbrev MultipleSubtable := Coverage (List GlyphId)

/-- The ligatures that begin with each covered glyph, in the order in which they are tried. -/
abbrev LigatureSubtable := Coverage (List Ligature)

/-- The subtable that adds `delta` to the number of each glyph in `covered`; numbers wrap around at
the end of the 16-bit range. -/
def SingleSubtable.ofDelta (covered : List GlyphId) (delta : Int16) : SingleSubtable :=
  Coverage.ofList (covered.map fun g => (g, g + delta.toUInt16))

/-- The rules that start at each covered glyph, in the order in which they are tried. -/
structure ContextSubtable where
  /-- The rules by their start glyphs. -/
  rules : Coverage (List ContextRule)
  addressesInput : ∀ entry ∈ rules.entries, ∀ rule ∈ entry.2, rule.AddressesInput

namespace ContextSubtable

/-- The rules that start at a glyph; there are none if it is not covered. -/
def rulesFor (table : ContextSubtable) (g : GlyphId) : List ContextRule :=
  (table.rules.get? g).getD []

/-- Whether the glyph is covered, be it without a rule. -/
def covers (table : ContextSubtable) (g : GlyphId) : Bool := table.rules.covers g

/-- All rules of the subtable, those of the start glyph that was mentioned first before those of the
next. -/
def allRules (table : ContextSubtable) : List ContextRule := table.rules.entries.flatMap (·.2)

theorem mem_gather_entries {pairs : List (GlyphId × List ContextRule)}
    {entry : GlyphId × List ContextRule} (hentry : entry ∈ (Coverage.gather pairs).entries)
    {rule : ContextRule} (hrule : rule ∈ entry.2) : ∃ pair ∈ pairs, rule ∈ pair.2 := by
  have hrules := Coverage.getD_get?_gather pairs entry.1
  rw [Coverage.get?_eq_some_iff.2 hentry, Option.getD_some] at hrules
  rw [hrules] at hrule
  obtain ⟨pair, hpair, hmem⟩ := List.mem_flatMap.1 hrule
  exact ⟨pair, (List.mem_filter.1 hpair).1, hmem⟩

/-- The subtable with these rules; those of a repeated start glyph come one after the other.  A
record that points outside the input of its rule is a bad index. -/
def ofRules (pairs : List (GlyphId × List ContextRule)) : Except ShapingError ContextSubtable :=
  if h : ∀ pair ∈ pairs, ∀ rule ∈ pair.2, rule.AddressesInput then
    .ok
      { rules := Coverage.gather pairs
        addressesInput := fun _ hentry _ hrule =>
          have ⟨pair, hpair, hmem⟩ := mem_gather_entries hentry hrule
          h pair hpair _ hmem }
  else .error .badIndex

theorem mem_allRules_iff {table : ContextSubtable} {rule : ContextRule} :
    rule ∈ table.allRules ↔ ∃ g, rule ∈ table.rulesFor g := by
  simp only [allRules, List.mem_flatMap, rulesFor]
  constructor
  · rintro ⟨⟨g, rules⟩, hentry, hrule⟩
    exact ⟨g, by rwa [Coverage.get?_eq_some_iff.2 hentry]⟩
  · rintro ⟨g, hrule⟩
    cases hg : table.rules.get? g with
    | none => simp [hg] at hrule
    | some rules =>
      rw [hg] at hrule
      exact ⟨(g, rules), Coverage.get?_eq_some_iff.1 hg, hrule⟩

theorem addressesInput_of_mem {table : ContextSubtable} {rule : ContextRule}
    (h : rule ∈ table.allRules) : rule.AddressesInput := by
  obtain ⟨entry, hentry, hrule⟩ := List.mem_flatMap.1 h
  exact table.addressesInput entry hentry rule hrule

end ContextSubtable

end GlyphSubstitution
