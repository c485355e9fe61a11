import GlyphSubstitution.Proofs.MatchingByPosition
import GlyphSubstitution.Proofs.SeenPositions

/-!
# Matching in the mirror

Read from right to left, a run is the reversed run read from left to right.  The glyph at position
`p` then stands at `mirror gids p`, and what a lookup sees to the left of a position is, in the same
order, what it sees to the right of the mirrored one (`seenAfter_reverse`).  So backward matching is
forward matching in the reversed run, a single step as well as a whole sequence
(`matchesBack_iff_reach?`), although the two kinds of walk end at the ends of the run in different
ways.  `back_mirrors_ahead` says so for the walks that fetch glyphs by their positions too.
-/

namespace GlyphSubstitution

/-- Where the glyph at position `p` stands when the run is reversed. -/
def mirror (gids : List GlyphId) (p : Nat) : Nat := gids.length - 1 - p

theorem getElem?_reverse_mirror {gids : List GlyphId} {p : Nat} (hp : p < gids.length) :
    gids.reverse[mirror gids p]? = gids[p]? := by
  have hmirror : mirror gids p < gids.length := by
    unfold mirror
    omega
  rw [List.getElem?_reverse hmirror]
  congr 1
  unfold mirror
  omega

namespace GlyphFilter

variable {f : GlyphFilter} {gids : List GlyphId} {i p : Nat}

/-- A position of the reversed run is seen exactly if the position that it mirrors is. -/
theorem seesAt_reverse_iff :
    f.seesAt gids.reverse p = true ↔ ∃ q, f.seesAt gids q = true ∧ p = mirror gids q := by
  constructor
  · intro hp
    have hlt : p < gids.length := by simpa using lt_length_of_seesAt hp
    have hback : p = mirror gids (mirror gids p) := by
      unfold mirror
      omega
    refine ⟨mirror gids p, ?_, hback⟩
    rw [seesAt, hback, getElem?_reverse_mirror (by unfold mirror; omega)] at hp
    exact hp
  · rintro ⟨q, hq, rfl⟩
    rw [seesAt, getElem?_reverse_mirror (lt_length_of_seesAt hq)]
    exact hq

/-- What is seen after the mirrored position is the mirror of what is seen before it. -/
theorem seenAfter_reverse (hi : i < gids.length) :
    f.seenAfter gids.reverse (mirror gids i) = (f.seenBefore gids i).map (mirror gids) := by
  have hmirrored : ((f.seenBefore gids i).map (mirror gids)).Pairwise (· < ·) := by
    refine List.pairwise_map.2 ((pairwise_seenBefore f gids i).imp_of_mem fun hp hq hlt => ?_)
    have hp := lt_length_of_seesAt (mem_seenBefore.1 hp).2
    unfold mirror
    omega
  refine (pairwise_seenAfter f gids.reverse _).eq_of_mem_iff hmirrored fun p => ?_
  rw [mem_seenAfter, List.mem_map, seesAt_reverse_iff]
  constructor
  · rintro ⟨hip, q, hq, rfl⟩
    refine ⟨q, mem_seenBefore.2 ⟨?_, hq⟩, rfl⟩
    unfold mirror at hip
    omega
  · rintro ⟨q, hq, rfl⟩
    obtain ⟨hqi, hsees⟩ := mem_seenBefore.1 hq
    refine ⟨?_, q, hsees, rfl⟩
    unfold mirror
    omega

/-- The nearest seen position is the first of those that are seen. -/
theorem next?_eq_head? (f : GlyphFilter) (gids : List GlyphId) (i : Nat) :
    f.next? gids i = (f.seenAfter gids i).head? := by
  cases hnext : f.next? gids i with
  | none => rw [seenAfter_of_next?_eq_none hnext, List.head?_nil]
  | some p => rw [seenAfter_of_next? hnext, List.head?_cons]

theorem prev?_eq_head? (f : GlyphFilter) (gids : List GlyphId) (i : Nat) :
    f.prev? gids i = (f.seenBefore gids i).head? := by
  cases hprev : f.prev? gids i with
  | none => rw [seenBefore_of_prev?_eq_none hprev, List.head?_nil]
  | some p => rw [seenBefore_of_prev? hprev, List.head?_cons]

/-- A step to the left is a step to the right in the mirror. -/
theorem next?_reverse (hi : i < gids.length) :
    f.next? gids.reverse (mirror gids i) = (f.prev? gids i).map (mirror gids) := by
  rw [next?_eq_head?, seenAfter_reverse hi, List.head?_map, prev?_eq_head?]

/-- Where a step to the left leads is told by where the step in the mirror leads. -/
theorem prev?_eq_some_iff_next? (hi : i < gids.length) :
    f.prev? gids i = some p ↔ f.next? gids.reverse (mirror gids i) = some (mirror gids p) := by
  rw [next?_reverse hi]
  constructor
  · intro hp
    rw [hp, Option.map_some]
  · intro hmirrored
    obtain ⟨q, hq, hqp⟩ := Option.map_eq_some_iff.1 hmirrored
    obtain ⟨hqi, -, -⟩ := prev?_eq_some_iff.1 hq
    -- the mirror image of `q` is not the first position, so that of `p` is not cut off at zero
    have hpq : p = q := by
      unfold mirror at hqp
      omega
    rw [hq, hpq]

/-- A sequence is met to the left exactly if it is met to the right in the mirror. -/
theorem matchesBack_iff_reach? (hi : i < gids.length) {pattern : List GlyphId} :
    f.matchesBack gids pattern i = true ↔
      (f.reach? gids.reverse pattern (mirror gids i)).isSome = true := by
  have hsame : ∀ p ∈ f.seenBefore gids i, gids.reverse[mirror gids p]? = gids[p]? :=
    fun p hp => getElem?_reverse_mirror (lt_length_of_seesAt (mem_seenBefore.1 hp).2)
  rw [matchesBack_iff, ← spells_map_iff hsame, ← seenAfter_reverse hi, isSome_reach?_iff]

/-- From a position past the end of the run, matching goes back as from the end. -/
theorem seenBefore_of_length_le (h : gids.length ≤ i) :
    f.seenBefore gids i = f.seenBefore gids gids.length := by
  have hbefore : ∀ p ∈ List.range gids.length,
      (decide (p < i) && f.seesAt gids p) = (decide (p < gids.length) && f.seesAt gids p) := by
    intro p hp
    have hlt := List.mem_range.1 hp
    rw [decide_eq_true hlt, decide_eq_true (hlt.trans_le h)]
  rw [seenBefore, seenBefore, List.filter_congr hbefore]

theorem matchesBack_of_length_le (h : gids.length ≤ i) (pattern : List GlyphId) :
    f.matchesBack gids pattern i = f.matchesBack gids pattern gids.length := by
  rw [Bool.eq_iff_iff, matchesBack_iff, matchesBack_iff, seenBefore_of_length_le h]

end GlyphFilter

/-- Backward matching is the mirror image of forward matching.  A step to the left of a position of
the run leads to `p` exactly if the step to the right of the mirrored position in the reversed run
leads to the mirror of `p`, and a sequence is met to the left exactly if it is met to the right in
the mirror, whether the positions of its glyphs are kept or not.  The same holds of the walks that
fetch glyphs by their positions.  From past the end of the run, matching goes back as from the
end. -/
theorem back_mirrors_ahead (f : GlyphFilter) (gids : List GlyphId) (i : Nat) :
    (i < gids.length →
        (∀ p, f.prev? gids i = some p ↔
          f.next? gids.reverse (gids.length - 1 - i) = some (gids.length - 1 - p)) ∧
        (∀ p, ByPosition.prev f gids i = some (some p) ↔
          ByPosition.next f gids.reverse (gids.length - 1 - i) =
            some (some (gids.length - 1 - p))) ∧
        ∀ pattern,
          (f.matchesBack gids pattern i = true ↔
            (f.reach? gids.reverse pattern (gids.length - 1 - i)).isSome = true) ∧
          ∀ found,
            (f.matchesBack gids pattern i = true ↔
              (f.matchAhead gids.reverse pattern (gids.length - 1 - i) found).last.isSome =
                true) ∧
            (ByPosition.back f gids pattern i = some true ↔
              ∃ ahead,
                ByPosition.ahead f gids.reverse pattern (gids.length - 1 - i) found =
                  some ahead ∧ ahead.last.isSome = true)) ∧
      (gids.length ≤ i → ∀ pattern,
        f.matchesBack gids pattern i = f.matchesBack gids pattern gids.length ∧
          ByPosition.back f gids pattern i = ByPosition.back f gids pattern gids.length) := by
  constructor
  · intro hi
    have hstep (p : Nat) : f.prev? gids i = some p ↔
        f.next? gids.reverse (mirror gids i) = some (mirror gids p) :=
      GlyphFilter.prev?_eq_some_iff_next? hi
    have hwhole (pattern : List GlyphId) : f.matchesBack gids pattern i = true ↔
        (f.reach? gids.reverse pattern (mirror gids i)).isSome = true :=
      GlyphFilter.matchesBack_iff_reach? hi
    refine ⟨hstep, fun p => ?_, fun pattern => ⟨hwhole pattern, fun found => ⟨?_, ?_⟩⟩⟩
    · have hprev : f.prevBelow? gids i = f.prev? gids i := by
        rw [GlyphFilter.prev?, Nat.min_eq_left hi.le]
      rw [ByPosition.prev_eq hi.le, ByPosition.next_eq, Option.some_inj, Option.some_inj, hprev]
      exact hstep p
    · rw [GlyphFilter.last_matchAhead]
      exact hwhole pattern
    · rw [ByPosition.back_eq, ByPosition.ahead_eq, Option.some_inj, hwhole]
      simp only [Option.some_inj, exists_eq_left', GlyphFilter.last_matchAhead]
      rfl
  · intro h pattern
    have hback := GlyphFilter.matchesBack_of_length_le (f := f) h pattern
    exact ⟨hback, by rw [ByPosition.back_eq, ByPosition.back_eq, hback]⟩

/-- Before the 4 of 3 2 4 2 5 the 3 is met across the 2, as it is after the 4 of 5 2 4 2 3; and so
it is from past the end of 3 2. -/
theorem across_two_back_mirrors_ahead :
    2 < [3, 2, 4, 2, 5].length ∧
      GlyphFilter.prev? ⟨(· != 2)⟩ [3, 2, 4, 2, 5] 2 = some 0 ∧
      GlyphFilter.next? ⟨(· != 2)⟩ [5, 2, 4, 2, 3] 2 = some 4 ∧
      GlyphFilter.matchesBack ⟨(· != 2)⟩ [3, 2, 4, 2, 5] [3] 2 = true ∧
      (GlyphFilter.reach? ⟨(· != 2)⟩ [5, 2, 4, 2, 3] [3] 2).isSome = true ∧
      [3, 2].length ≤ 7 ∧ GlyphFilter.matchesBack ⟨(· != 2)⟩ [3, 2] [3] 7 = true := by
  obtain ⟨hinside, -⟩ := back_mirrors_ahead ⟨(· != 2)⟩ [3, 2, 4, 2, 5] 2
  obtain ⟨-, hpast⟩ := back_mirrors_ahead ⟨(· != 2)⟩ [3, 2] 7
  obtain ⟨hstep, -, hwhole⟩ := hinside (by decide)
  have hprev : GlyphFilter.prev? ⟨(· != 2)⟩ [3, 2, 4, 2, 5] 2 = some 0 := by decide
  have hback : GlyphFilter.matchesBack ⟨(· != 2)⟩ [3, 2, 4, 2, 5] [3] 2 = true := by decide
  refine ⟨by decide, hprev, (hstep 0).1 hprev, hback, (hwhole [3]).1.1 hback, by decide, ?_⟩
  rw [(hpast (by decide) [3]).1]
  decide

end GlyphSubstitution
