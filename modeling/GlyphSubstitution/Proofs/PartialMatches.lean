import Mathlib.Data.Nat.Find
import Mathlib.Order.Bounds.Defs
import GlyphSubstitution.Proofs.MatchingByPosition
import GlyphSubstitution.Proofs.SeenPositions

/-!
# Matches that break off

Matching a sequence to the right keeps the positions of its glyphs as it goes.  If the whole is not
met, those of a first part have been kept: of the longest prefix that the seen positions spell.
`spelledPrefixes` says which prefixes these are, and nothing in it walks.

The proof cuts the sequence where that prefix ends.  To meet a sequence in two parts is to meet the
first and to go on with the second from its end (`matchAhead_append`).  Here the first part is met,
and the second fails at its first glyph, for otherwise a longer prefix would be spelled
(`stepAhead?_eq_none_of_longest`).  `records_longest_match` collects all this.
-/

namespace GlyphSubstitution

/-- The lengths of the prefixes of the pattern that these positions spell. -/
def spelledPrefixes (gids pattern : List GlyphId) (positions : List Nat) : Set Nat :=
  {n | n ≤ pattern.length ∧ Spells gids (pattern.take n) positions}

/-- One of the prefixes that are spelled is the longest, since the empty one is spelled. -/
theorem exists_isGreatest_spelledPrefixes (gids pattern : List GlyphId) (positions : List Nat) :
    ∃ m, IsGreatest (spelledPrefixes gids pattern positions) m := by
  have hempty : Spells gids (pattern.take 0) positions := spells_nil gids positions
  refine ⟨Nat.findGreatest (fun n => Spells gids (pattern.take n) positions) pattern.length,
    ⟨Nat.findGreatest_le _, ?_⟩, fun n ⟨hn, hspelled⟩ => ?_⟩
  · exact Nat.findGreatest_spec (P := fun n => Spells gids (pattern.take n) positions)
      (Nat.zero_le _) hempty
  · exact Nat.le_findGreatest hn hspelled

namespace GlyphFilter

variable {f : GlyphFilter} {gids pattern : List GlyphId} {i m : Nat}

/-- A sequence that is spelled is met as a whole, and all its positions are kept. -/
theorem matchAhead_of_spells (h : Spells gids pattern (f.seenAfter gids i)) (found : List Nat) :
    f.matchAhead gids pattern i found =
      ⟨found ++ (f.seenAfter gids i).take pattern.length,
        some (f.reached gids i pattern.length)⟩ := by
  have hpositions : (f.matchAhead gids pattern i found).positions =
      found ++ (f.seenAfter gids i).take pattern.length := by
    rw [positions_matchAhead, positions_matchAhead_of_spells h]
  have hlast : (f.matchAhead gids pattern i found).last =
      some (f.reached gids i pattern.length) := by
    rw [last_matchAhead]
    exact reach?_eq_some_iff.2 ⟨h, rfl⟩
  rw [← hpositions, ← hlast]

/-- No step leads to the glyph after the longest prefix that is spelled. -/
theorem stepAhead?_eq_none_of_longest
    (h : IsGreatest (spelledPrefixes gids pattern (f.seenAfter gids i)) m) {g : GlyphId}
    (hg : pattern[m]? = some g) : f.stepAhead? gids g (f.reached gids i m) = none := by
  obtain ⟨⟨hm, hspelled⟩, hmax⟩ := h
  have hlength : (pattern.take m).length = m := List.length_take_of_le hm
  rcases stepAhead?_cases f gids g (f.reached gids i m) with ⟨p, -, hp, hseen⟩ | ⟨hnone, -⟩
  · have hroom : m ≤ (f.seenAfter gids i).length := by
      rw [← hlength]
      exact hspelled.length_le
    have hnext : Spells gids [g] ((f.seenAfter gids i).drop m) := by
      rw [← seenAfter_reached hroom, hseen, spells_cons_cons]
      exact ⟨hp, spells_nil _ _⟩
    have hlonger : Spells gids (pattern.take (m + 1)) (f.seenAfter gids i) := by
      rw [List.take_add_one, hg, Option.toList_some, spells_append, hlength]
      exact ⟨hspelled, hnext⟩
    have hlt : m < pattern.length := (List.getElem?_eq_some_iff.1 hg).1
    have hle : m + 1 ≤ m := hmax ⟨hlt, hlonger⟩
    omega
  · exact hnone

/-- Matching keeps the positions of the longest prefix that is spelled, and it comes to an end only
with the whole sequence. -/
theorem matchAhead_of_longest
    (h : IsGreatest (spelledPrefixes gids pattern (f.seenAfter gids i)) m) (found : List Nat) :
    f.matchAhead gids pattern i found =
      ⟨found ++ (f.seenAfter gids i).take m,
        if m = pattern.length then some (f.reached gids i m) else none⟩ := by
  have hm : m ≤ pattern.length := h.1.1
  have hmet := matchAhead_of_spells h.1.2 found
  rw [List.length_take_of_le hm] at hmet
  have hparts : f.matchAhead gids pattern i found =
      (f.matchAhead gids (pattern.take m) i found).andThen
        (f.matchAhead gids (pattern.drop m)) := by
    rw [← matchAhead_append, List.take_append_drop]
  rw [hparts, hmet, AheadMatch.andThen_some]
  rcases hm.eq_or_lt with rfl | hlt
  · rw [List.drop_length, matchAhead_nil, if_pos rfl]
  · have hfails := stepAhead?_eq_none_of_longest h (List.getElem?_eq_getElem hlt)
    rw [List.drop_eq_getElem_cons hlt, matchAhead, hfails, if_neg hlt.ne]

/-- Matching to the right keeps exactly the positions of the longest prefix of the sequence that the
seen positions spell, after those known already, and it ends at the last of them, or where it began
if there are none, if and only if that prefix is the whole sequence.  Where it ends does not depend
on positions being kept, and no glyph is ever fetched from a position that the run does not have.
To meet two sequences in a row is to meet the first and then, if it was met, the second from its
end. -/
theorem records_longest_match (f : GlyphFilter) (gids : List GlyphId) (i : Nat)
    (found : List Nat) :
    (∀ pattern,
        (∃ m, IsGreatest (spelledPrefixes gids pattern (f.seenAfter gids i)) m ∧
          f.matchAhead gids pattern i found =
            ⟨found ++ (f.seenAfter gids i).take m,
              if m = pattern.length then some (((f.seenAfter gids i).take m).getLastD i)
              else none⟩) ∧
        f.reach? gids pattern i = (f.matchAhead gids pattern i found).last ∧
        ByPosition.ahead f gids pattern i found = some (f.matchAhead gids pattern i found)) ∧
      ∀ u v,
        f.matchAhead gids (u ++ v) i found =
            (f.matchAhead gids u i found).andThen (f.matchAhead gids v) ∧
          f.reach? gids (u ++ v) i = (f.reach? gids u i).bind (f.reach? gids v) := by
  refine ⟨fun pattern => ⟨?_, ?_, ?_⟩, fun u v => ⟨?_, ?_⟩⟩
  · obtain ⟨m, hm⟩ := exists_isGreatest_spelledPrefixes gids pattern (f.seenAfter gids i)
    exact ⟨m, hm, matchAhead_of_longest hm found⟩
  · exact (last_matchAhead f gids pattern i found).symm
  · exact ByPosition.ahead_eq pattern i found
  · exact matchAhead_append f gids u v i found
  · exact reach?_append f gids u v i

/-- The 5 and the 6 of 5 6 7 are met across the 2, and their positions stay although the 7 is
not. -/
example :
    GlyphFilter.matchAhead ⟨(· != 2)⟩ [4, 2, 5, 6, 8] [5, 6, 7] 0 [0] = ⟨[0, 2, 3], none⟩ := by
  decide

end GlyphFilter

end GlyphSubstitution
