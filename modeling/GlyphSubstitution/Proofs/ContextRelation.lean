import GlyphSubstitution.Matching.Context
import GlyphSubstitution.Proofs.SeenPositions

/-!
# What it is for a context to be met

`ContextPattern.MetAt` says without any scan when the context of a rule stands around a position:
its backtrack is spelled by the seen positions on the left, nearest first, and its input followed by
its lookahead by the seen positions on the right.  `ContextPattern.match?` finds a match exactly
there (`match?_eq_some_iff_metAt`), and the input glyphs of the match are at the first seen
positions after the start.

`match?_tells_metAt` collects what follows for the positions and the length of a match.  The length
counts unseen glyphs too, so it exceeds the number of input glyphs exactly if one lies between them.
-/

namespace GlyphSubstitution

namespace ContextPattern

/-- The context of the pattern stands around the glyph at position `i`. -/
def MetAt (pattern : ContextPattern) (f : GlyphFilter) (gids : List GlyphId) (i : Nat) : Prop :=
  i < gids.length ∧ Spells gids (pattern.backtrack.getD []) (f.seenBefore gids i) ∧
    Spells gids (pattern.input ++ pattern.lookahead.getD []) (f.seenAfter gids i)

instance (pattern : ContextPattern) (f : GlyphFilter) (gids : List GlyphId) (i : Nat) :
    Decidable (pattern.MetAt f gids i) :=
  inferInstanceAs (Decidable (_ ∧ _ ∧ _))

variable {pattern : ContextPattern} {f : GlyphFilter} {gids : List GlyphId} {i : Nat}
  {m : ContextMatch}

/-- One sequence and then another are met if the two together are spelled. -/
theorem isSome_reach?_bind_iff {u v : List GlyphId} :
    ((f.reach? gids u i).bind (f.reach? gids v)).isSome = true ↔
      Spells gids (u ++ v) (f.seenAfter gids i) := by
  rw [← GlyphFilter.reach?_append, GlyphFilter.isSome_reach?_iff]

/-- A pattern is matched exactly where its context stands, with the nearest seen positions as those
of its input. -/
theorem match?_eq_some_iff_metAt :
    pattern.match? f gids i = some m ↔
      pattern.MetAt f gids i ∧ m = ⟨i, (f.seenAfter gids i).take pattern.input.length⟩ := by
  rw [match?_eq_some_iff, GlyphFilter.matchesBack_iff, isSome_reach?_bind_iff, MetAt]
  constructor
  · intro ⟨hi, hback, hahead, hm⟩
    rw [GlyphFilter.positions_matchAhead_of_spells (spells_append.1 hahead).1] at hm
    exact ⟨⟨hi, hback, hahead⟩, hm⟩
  · intro ⟨⟨hi, hback, hahead⟩, hm⟩
    rw [← GlyphFilter.positions_matchAhead_of_spells (spells_append.1 hahead).1] at hm
    exact ⟨hi, hback, hahead, hm⟩

theorem MetAt.input_length_le (h : pattern.MetAt f gids i) :
    pattern.input.length ≤ (f.seenAfter gids i).length :=
  (spells_append.1 h.2.2).1.length_le

/-! ## The positions of a match -/

/-- The input of a match is in increasing order. -/
theorem pairwise_positions (h : pattern.match? f gids i = some m) :
    m.positions.Pairwise (· < ·) := by
  obtain ⟨-, rfl⟩ := match?_eq_some_iff_metAt.1 h
  refine List.pairwise_cons.2 ⟨fun p hp => ?_, ?_⟩
  · exact (GlyphFilter.mem_seenAfter.1 (List.mem_of_mem_take hp)).1
  · exact (GlyphFilter.pairwise_seenAfter f gids i).sublist (List.take_sublist _ _)

/-- A match has a position for each glyph of its input. -/
theorem length_positions_of_match? (h : pattern.match? f gids i = some m) :
    m.positions.length = pattern.input.length + 1 := by
  obtain ⟨hmet, rfl⟩ := match?_eq_some_iff_metAt.1 h
  rw [ContextMatch.length_positions, List.length_take, Nat.min_eq_left hmet.input_length_le]

/-- The input of a match lies inside the run. -/
theorem lt_length_of_mem_positions (h : pattern.match? f gids i = some m) {p : Nat}
    (hp : p ∈ m.positions) : p < gids.length := by
  obtain ⟨hmet, rfl⟩ := match?_eq_some_iff_metAt.1 h
  rcases List.mem_cons.1 hp with rfl | hinput
  · exact hmet.1
  · exact GlyphFilter.lt_length_of_seesAt
      (GlyphFilter.mem_seenAfter.1 (List.mem_of_mem_take hinput)).2

theorem last_eq_reached (h : pattern.match? f gids i = some m) :
    m.last = f.reached gids i pattern.input.length := by
  obtain ⟨-, rfl⟩ := match?_eq_some_iff_metAt.1 h
  rfl

/-- A match takes up as many places as it has input glyphs and unseen glyphs between them. -/
theorem input_length_eq_countP (h : pattern.match? f gids i = some m) :
    pattern.input.length = (List.range' (i + 1) (m.last - i)).countP (f.seesAt gids) := by
  obtain ⟨hmet, -⟩ := match?_eq_some_iff_metAt.1 h
  have hle := hmet.input_length_le
  rw [last_eq_reached h, List.countP_eq_length_filter, ← GlyphFilter.take_seenAfter_eq_filter hle,
    List.length_take, Nat.min_eq_left hle]

/-- Nothing is passed over exactly if the match is no longer than its input. -/
theorem length_eq_iff (h : pattern.match? f gids i = some m) :
    m.length = pattern.input.length + 1 ↔
      ∀ p, i < p → p < m.last → f.seesAt gids p = true := by
  obtain ⟨hmet, hm⟩ := match?_eq_some_iff_metAt.1 h
  have hstart : m.start = i := by rw [hm]
  have hcount := input_length_eq_countP h
  have hlast := last_eq_reached h
  have hle : i ≤ m.last := hlast ▸ GlyphFilter.le_reached
  have hall := List.countP_eq_length (l := List.range' (i + 1) (m.last - i)) (p := f.seesAt gids)
  rw [List.length_range', ← hcount] at hall
  rw [ContextMatch.length, hstart]
  constructor
  · intro hlength p hip hp
    have heq : pattern.input.length = m.last - i := by omega
    exact hall.1 heq p (List.mem_range'_1.2 ⟨by omega, by omega⟩)
  · intro hseen
    have heq : pattern.input.length = m.last - i := by
      refine hall.2 fun p hp => ?_
      have hrange := List.mem_range'_1.1 hp
      rcases Nat.lt_or_ge p m.last with hlt | hge
      · exact hseen p (by omega) hlt
      · -- the last input glyph lies after the start glyph here, so it is seen itself
        have hpl : p = f.reached gids i pattern.input.length := by omega
        rw [hpl]
        exact GlyphFilter.seesAt_reached (by omega)
    omega

/-- A match has room for its input, and it ends inside the run. -/
theorem length_bounds (h : pattern.match? f gids i = some m) :
    pattern.input.length + 1 ≤ m.length ∧ i + m.length ≤ gids.length := by
  obtain ⟨hmet, hm⟩ := match?_eq_some_iff_metAt.1 h
  have hstart : m.start = i := by rw [hm]
  have hlast := last_eq_reached h
  have hle : i ≤ m.last := hlast ▸ GlyphFilter.le_reached
  have hlt : m.last < gids.length := hlast ▸ GlyphFilter.reached_lt_length hmet.1
  have hcount : (List.range' (i + 1) (m.last - i)).countP (f.seesAt gids) ≤ m.last - i := by
    simpa using List.countP_le_length (l := List.range' (i + 1) (m.last - i)) (p := f.seesAt gids)
  rw [← input_length_eq_countP h] at hcount
  rw [ContextMatch.length, hstart]
  omega

/-- A match is found exactly where the context of the pattern stands.  Its positions are the start
and the nearest seen positions after it, as many as the input asks for. -/
theorem match?_tells_metAt (pattern : ContextPattern) (f : GlyphFilter) (gids : List GlyphId)
    (i : Nat) :
    match pattern.match? f gids i with
    | none => ¬ pattern.MetAt f gids i
    | some m =>
      pattern.MetAt f gids i ∧
        m.positions = i :: (f.seenAfter gids i).take pattern.input.length ∧
        m.positions.Pairwise (· < ·) ∧ m.start = i ∧
        pattern.input.length + 1 ≤ m.length ∧ i + m.length ≤ gids.length ∧
        (m.length = pattern.input.length + 1 ↔
          ∀ p, i < p → p < m.last → f.seesAt gids p = true) := by
  cases h : pattern.match? f gids i with
  | none =>
    intro hmet
    have hfound := match?_eq_some_iff_metAt.2 ⟨hmet, rfl⟩
    rw [h] at hfound
    nomatch hfound
  | some m =>
    obtain ⟨hmet, hm⟩ := match?_eq_some_iff_metAt.1 h
    obtain ⟨hroom, hinside⟩ := length_bounds h
    have hpositions : m.positions = i :: (f.seenAfter gids i).take pattern.input.length := by
      rw [hm, ContextMatch.positions]
    exact ⟨hmet, hpositions, pairwise_positions h, by rw [hm], hroom, hinside, length_eq_iff h⟩

/-- Backtrack and input step over an unseen glyph, and the lookahead is not part of the match. -/
example :
    ContextPattern.match? ⟨some [3], [5], some [7]⟩ ⟨(· != 2)⟩ [3, 2, 4, 2, 5, 2, 7] 2 =
      some ⟨2, [4]⟩ := by
  decide

end ContextPattern

end GlyphSubstitution
