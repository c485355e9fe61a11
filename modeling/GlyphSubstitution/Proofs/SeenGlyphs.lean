import Mathlib.Data.List.Find
import Mathlib.Data.List.Induction
import GlyphSubstitution.Proofs.ContextRelation
import GlyphSubstitution.Substitution.Contextual
import GlyphSubstitution.Substitution.Ligature

/-!
# The glyphs that a lookup sees

Taking the unseen glyphs out of a run moves the seen ones together: the glyph at position `p` comes
to stand at `GlyphFilter.rank f gids p`, the number of seen glyphs before it.  The seen positions of
a run thereby become all positions of what is left (`map_rank_seenPositions`), in order, and so
those on either side of a seen position correspond (`seenAfter_filter`, `seenBefore_filter`).

Matching goes by these and by nothing else.  So around a seen glyph a context is met, and a rule or
a ligature is selected, in the one run exactly if it is in the other, and the positions of a match
are carried over by rank (`selectRule?_filter`, `selectLigature?_filter`).
-/

namespace GlyphSubstitution

universe u

variable {α : Type u} {f : GlyphFilter} {gids : List GlyphId} {i p q : Nat}

namespace GlyphFilter

/-! ## Ranks -/

/-- How many glyphs before position `p` are seen. -/
def rank (f : GlyphFilter) (gids : List GlyphId) (p : Nat) : Nat := (gids.take p).countP f.sees

theorem rank_length_append (f : GlyphFilter) (before after : List GlyphId) :
    f.rank (before ++ after) before.length = (before.filter f.sees).length := by
  rw [rank, List.take_left, List.countP_eq_length_filter]

/-- Past the end of a first part, ranks are those in the second. -/
theorem rank_append_add (f : GlyphFilter) (before after : List GlyphId) (n : Nat) :
    f.rank (before ++ after) (before.length + n) =
      (before.filter f.sees).length + f.rank after n := by
  rw [rank, List.take_length_add_append, List.countP_append, List.countP_eq_length_filter, rank]

theorem rank_of_length_le (h : gids.length ≤ p) :
    f.rank gids p = (gids.filter f.sees).length := by
  rw [rank, List.take_of_length_le h, List.countP_eq_length_filter]

theorem rank_succ_of_sees (h : f.seesAt gids p = true) :
    f.rank gids (p + 1) = f.rank gids p + 1 := by
  obtain ⟨hp, hsees⟩ := seesAt_eq_true_iff.1 h
  rw [rank, rank, List.take_succ_eq_append_getElem hp, List.countP_append]
  simp [hsees]

theorem rank_succ_of_not_sees (h : f.seesAt gids p = false) :
    f.rank gids (p + 1) = f.rank gids p := by
  rw [rank, rank, List.take_add_one, List.countP_append]
  cases hg : gids[p]? with
  | none => simp
  | some g =>
    have hunseen : f.sees g = false := by
      rw [seesAt, hg] at h
      exact h
    simp [hunseen]

theorem rank_mono (f : GlyphFilter) (gids : List GlyphId) (h : p ≤ q) :
    f.rank gids p ≤ f.rank gids q :=
  (List.take_sublist_take_left h).countP_le

/-- A seen glyph counts for those after it. -/
theorem rank_lt_rank_iff (hp : f.seesAt gids p = true) :
    f.rank gids p < f.rank gids q ↔ p < q := by
  constructor
  · intro hlt
    by_contra hle
    exact absurd (rank_mono f gids (Nat.not_lt.1 hle)) (Nat.not_le.2 hlt)
  · intro hpq
    have hnext := rank_mono f gids (Nat.succ_le_of_lt hpq)
    rw [Nat.succ_eq_add_one, rank_succ_of_sees hp] at hnext
    exact hnext

/-- What stands at a seen position stands at its rank when the unseen glyphs are taken out. -/
theorem getElem?_rank (h : f.seesAt gids p = true) :
    (gids.filter f.sees)[f.rank gids p]? = gids[p]? := by
  obtain ⟨hp, hsees⟩ := seesAt_eq_true_iff.1 h
  obtain ⟨before, g, after, rfl, rfl⟩ := exists_append_of_lt hp
  have hg : f.sees g = true := by simpa using hsees
  rw [rank_length_append, List.filter_append, List.filter_cons_of_pos hg,
    List.getElem?_append_right (Nat.le_refl _), List.getElem?_append_right (Nat.le_refl _),
    Nat.sub_self, Nat.sub_self]
  rfl

theorem seesAt_filter_iff : f.seesAt (gids.filter f.sees) p = true ↔
    p < (gids.filter f.sees).length := by
  rw [seesAt_eq_true_iff]
  constructor
  · exact fun ⟨hp, _⟩ => hp
  · exact fun hp => ⟨hp, List.of_mem_filter (List.getElem_mem hp)⟩

theorem seesAt_rank (h : f.seesAt gids p = true) :
    f.seesAt (gids.filter f.sees) (f.rank gids p) = true := by
  rw [seesAt, getElem?_rank h]
  exact h

/-- The seen positions become all positions of what is left. -/
theorem map_rank_seenPositions (f : GlyphFilter) (gids : List GlyphId) :
    ((List.range gids.length).filter (f.seesAt gids)).map (f.rank gids) =
      List.range (gids.filter f.sees).length := by
  induction gids using List.reverseRecOn with
  | nil => rfl
  | append_singleton gids g ih =>
    have hsees : ∀ p ∈ List.range gids.length, f.seesAt (gids ++ [g]) p = f.seesAt gids p := by
      intro p hp
      rw [seesAt, seesAt, List.getElem?_append_left (List.mem_range.1 hp)]
    have hrank : ∀ p ∈ (List.range gids.length).filter (f.seesAt gids),
        f.rank (gids ++ [g]) p = f.rank gids p := by
      intro p hp
      have hlt : p < gids.length := List.mem_range.1 (List.mem_of_mem_filter hp)
      rw [rank, rank, List.take_append_of_le_length (Nat.le_of_lt hlt)]
    have hlast : f.seesAt (gids ++ [g]) gids.length = f.sees g := by
      rw [seesAt, List.getElem?_append_right (Nat.le_refl _), Nat.sub_self]
      rfl
    rw [List.length_append, List.length_singleton, List.range_succ, List.filter_append,
      List.map_append, List.filter_congr hsees, List.map_congr_left hrank, ih,
      List.filter_append, List.length_append]
    by_cases hg : f.sees g = true
    · simp [hlast, hg, rank_length_append, List.range_succ]
    · simp [hlast, hg]

/-! ## Seen positions on either side -/

theorem seenAfter_filter (hi : f.seesAt gids i = true) :
    f.seenAfter (gids.filter f.sees) (f.rank gids i) = (f.seenAfter gids i).map (f.rank gids) := by
  have hall : ∀ q ∈ List.range (gids.filter f.sees).length,
      (decide (f.rank gids i < q) && f.seesAt (gids.filter f.sees) q) =
        decide (f.rank gids i < q) := by
    intro q hq
    rw [seesAt_filter_iff.2 (List.mem_range.1 hq), Bool.and_true]
  rw [seenAfter, List.filter_congr hall, ← map_rank_seenPositions, List.filter_map,
    List.filter_filter, seenAfter]
  refine congrArg (List.map _) (List.filter_congr fun p _ => ?_)
  show (decide (f.rank gids i < f.rank gids p) && f.seesAt gids p) = _
  rw [decide_eq_decide.2 (rank_lt_rank_iff hi)]

theorem seenBefore_filter (f : GlyphFilter) (gids : List GlyphId) (i : Nat) :
    f.seenBefore (gids.filter f.sees) (f.rank gids i) =
      (f.seenBefore gids i).map (f.rank gids) := by
  have hall : ∀ q ∈ List.range (gids.filter f.sees).length,
      (decide (q < f.rank gids i) && f.seesAt (gids.filter f.sees) q) =
        decide (q < f.rank gids i) := by
    intro q hq
    rw [seesAt_filter_iff.2 (List.mem_range.1 hq), Bool.and_true]
  rw [seenBefore, List.filter_congr hall, ← map_rank_seenPositions, List.filter_map,
    List.filter_filter, seenBefore, List.map_reverse]
  refine congrArg List.reverse (congrArg (List.map _) (List.filter_congr fun p _ => ?_))
  show (decide (f.rank gids p < f.rank gids i) && f.seesAt gids p) = _
  by_cases hp : f.seesAt gids p = true
  · rw [decide_eq_decide.2 (rank_lt_rank_iff hp)]
  · rw [eq_false_of_ne_true hp, Bool.and_false, Bool.and_false]

/-- Seen positions spell the same when the unseen glyphs are taken out. -/
theorem spells_filter_iff {pattern : List GlyphId} {positions : List Nat}
    (h : ∀ p ∈ positions, f.seesAt gids p = true) :
    Spells (gids.filter f.sees) pattern (positions.map (f.rank gids)) ↔
      Spells gids pattern positions :=
  spells_map_iff fun p hp => getElem?_rank (h p hp)

theorem spells_seenAfter_filter_iff (hi : f.seesAt gids i = true) {pattern : List GlyphId} :
    Spells (gids.filter f.sees) pattern (f.seenAfter (gids.filter f.sees) (f.rank gids i)) ↔
      Spells gids pattern (f.seenAfter gids i) := by
  rw [seenAfter_filter hi]
  exact spells_filter_iff fun p hp => (mem_seenAfter.1 hp).2

theorem spells_seenBefore_filter_iff {pattern : List GlyphId} :
    Spells (gids.filter f.sees) pattern (f.seenBefore (gids.filter f.sees) (f.rank gids i)) ↔
      Spells gids pattern (f.seenBefore gids i) := by
  rw [seenBefore_filter]
  exact spells_filter_iff fun p hp => (mem_seenBefore.1 hp).2

end GlyphFilter

/-! ## Matches -/

/-- The match with its positions passed through a function. -/
def ContextMatch.map (g : Nat → Nat) (m : ContextMatch) : ContextMatch :=
  ⟨g m.start, m.inputs.map g⟩

theorem ContextMatch.last_map (g : Nat → Nat) (m : ContextMatch) :
    (m.map g).last = g m.last := by
  rw [last, last, map, List.getLastD_eq_getLast?, List.getLastD_eq_getLast?, List.getLast?_map]
  cases m.inputs.getLast? <;> rfl

/-- A match that stands further right is as long as it was. -/
theorem ContextMatch.length_map_add (n : Nat) (m : ContextMatch) :
    (m.map (n + ·)).length = m.length := by
  rw [length, last_map, map, length, Nat.add_sub_add_left]

/-- The match with its positions passed through a function. -/
def RuleMatch.map (g : Nat → Nat) (found : RuleMatch) : RuleMatch :=
  ⟨found.context.map g, found.records⟩

/-- If a context is met at corresponding positions of two runs, with corresponding input glyphs,
then the matches correspond. -/
theorem ContextPattern.match?_map {pattern : ContextPattern} {gids' : List GlyphId} {g : Nat → Nat}
    (hmet : pattern.MetAt f gids' (g i) ↔ pattern.MetAt f gids i)
    (hinputs : pattern.MetAt f gids i → (f.seenAfter gids' (g i)).take pattern.input.length =
      ((f.seenAfter gids i).take pattern.input.length).map g) :
    pattern.match? f gids' (g i) = (pattern.match? f gids i).map (·.map g) := by
  by_cases hhere : pattern.MetAt f gids i
  · rw [match?_eq_some_iff_metAt.2 ⟨hhere, rfl⟩, match?_eq_some_iff_metAt.2 ⟨hmet.2 hhere, rfl⟩,
      hinputs hhere]
    rfl
  · have hnone : pattern.match? f gids i = none :=
      Option.eq_none_iff_forall_ne_some.2 fun m hm => hhere (match?_eq_some_iff_metAt.1 hm).1
    rw [hnone]
    exact Option.eq_none_iff_forall_ne_some.2 fun m hm =>
      hhere (hmet.1 (match?_eq_some_iff_metAt.1 hm).1)

/-- If all rules match alike at corresponding positions of two runs, the same one is selected. -/
theorem selectRule?_map {tables : List ContextSubtable} {gids' : List GlyphId} {g : Nat → Nat}
    (hglyph : gids'[g i]? = gids[i]?)
    (h : ∀ table ∈ tables, ∀ rule ∈ table.allRules,
      rule.pattern.match? f gids' (g i) = (rule.pattern.match? f gids i).map (·.map g)) :
    selectRule? tables f gids' (g i) = (selectRule? tables f gids i).map (·.map g) := by
  rw [selectRule?, selectRule?, hglyph, Option.map_bind]
  congr 1
  funext start
  rw [Function.comp_apply, List.map_findSome?]
  refine findSome?_congr fun rule hrule => ?_
  obtain ⟨table, htable, hmem⟩ := List.mem_flatMap.1 hrule
  rw [Function.comp_apply, ContextRule.match?, ContextRule.match?,
    h table htable rule (ContextSubtable.mem_allRules_iff.2 ⟨start, hmem⟩), Option.map_map,
    Option.map_map]
  rfl

/-- The components of a ligature follow a position exactly if the seen positions there spell
them. -/
theorem Ligature.matchesAt_iff {ligature : Ligature} :
    ligature.matchesAt f gids i = true ↔ Spells gids ligature.components (f.seenAfter gids i) := by
  rw [matchesAt, GlyphFilter.isSome_reach?_iff]

theorem matchesAt_of_selectLigature? {tables : List LigatureSubtable} {ligature : Ligature}
    (h : selectLigature? tables f gids i = some ligature) : ligature.matchesAt f gids i = true := by
  obtain ⟨g, -, hfound⟩ := Option.bind_eq_some_iff.1 h
  rw [ligatureFor?] at hfound
  have hmatches := List.find?_some hfound
  exact hmatches

/-- If all ligatures match alike at positions of two runs, the same one is selected. -/
theorem selectLigature?_congr {tables : List LigatureSubtable} {gids' : List GlyphId} {i' : Nat}
    (hglyph : gids'[i']? = gids[i]?)
    (h : ∀ table ∈ tables, ∀ entry ∈ table.entries, ∀ ligature ∈ entry.2,
      ligature.matchesAt f gids' i' = ligature.matchesAt f gids i) :
    selectLigature? tables f gids' i' = selectLigature? tables f gids i := by
  rw [selectLigature?, selectLigature?, hglyph]
  congr 1
  funext g
  refine List.find?_congr fun ligature hligature => ?_
  obtain ⟨table, htable, hmem⟩ := List.mem_flatMap.1 hligature
  obtain ⟨ligatures, hentry, hmem⟩ := Coverage.mem_getD_get?_iff.1 hmem
  exact h table htable _ hentry ligature hmem

theorem ContextPattern.metAt_filter_iff {pattern : ContextPattern}
    (hi : f.seesAt gids i = true) :
    pattern.MetAt f (gids.filter f.sees) (f.rank gids i) ↔ pattern.MetAt f gids i := by
  have hinside : f.rank gids i < (gids.filter f.sees).length ↔ i < gids.length :=
    iff_of_true (GlyphFilter.lt_length_of_seesAt (GlyphFilter.seesAt_rank hi))
      (GlyphFilter.lt_length_of_seesAt hi)
  rw [MetAt, MetAt, hinside, GlyphFilter.spells_seenBefore_filter_iff,
    GlyphFilter.spells_seenAfter_filter_iff hi]

theorem ContextPattern.match?_filter (pattern : ContextPattern) (hi : f.seesAt gids i = true) :
    pattern.match? f (gids.filter f.sees) (f.rank gids i) =
      (pattern.match? f gids i).map (·.map (f.rank gids)) := by
  refine match?_map (metAt_filter_iff hi) fun _ => ?_
  rw [GlyphFilter.seenAfter_filter hi, List.map_take]

namespace ContextPattern

variable {pattern : ContextPattern} {m : ContextMatch}

/-- All input glyphs of a match that starts at a seen glyph are seen. -/
theorem sees_of_mem_positions (h : pattern.match? f gids i = some m)
    (hi : f.seesAt gids i = true) (hp : p ∈ m.positions) : f.seesAt gids p = true := by
  obtain ⟨-, rfl⟩ := match?_eq_some_iff_metAt.1 h
  rcases List.mem_cons.1 hp with rfl | hinput
  · exact hi
  · exact (GlyphFilter.mem_seenAfter.1 (List.mem_of_mem_take hinput)).2

/-- What a match is long without the unseen glyphs is how many seen glyphs there are in it. -/
theorem length_map_rank (h : pattern.match? f gids i = some m) (hi : f.seesAt gids i = true) :
    (m.map (f.rank gids)).length = f.rank gids (i + m.length) - f.rank gids i := by
  have hstart : m.start = i := by
    obtain ⟨-, rfl⟩ := match?_eq_some_iff_metAt.1 h
    rfl
  have hle : i ≤ m.last := by
    rw [last_eq_reached h]
    exact GlyphFilter.le_reached
  have hlast : f.seesAt gids m.last = true := by
    refine sees_of_mem_positions h hi ?_
    rw [ContextMatch.last, List.getLastD_eq_getLast?]
    cases hinputs : m.inputs.getLast? with
    | none => exact List.mem_cons_self
    | some p => exact List.mem_cons_of_mem _ (List.mem_of_getLast? hinputs)
  have hmono : f.rank gids i ≤ f.rank gids m.last := GlyphFilter.rank_mono f gids hle
  have hend : i + m.length = m.last + 1 := by
    rw [ContextMatch.length, hstart]
    omega
  rw [hend, GlyphFilter.rank_succ_of_sees hlast, ContextMatch.length, ContextMatch.last_map]
  show f.rank gids m.last - f.rank gids m.start + 1 = _
  rw [hstart]
  omega

end ContextPattern

/-- Around a seen glyph the same rule is selected when the unseen glyphs are taken out. -/
theorem selectRule?_filter (tables : List ContextSubtable) (hi : f.seesAt gids i = true) :
    selectRule? tables f (gids.filter f.sees) (f.rank gids i) =
      (selectRule? tables f gids i).map (·.map (f.rank gids)) :=
  selectRule?_map (GlyphFilter.getElem?_rank hi) fun _ _ rule _ => rule.pattern.match?_filter hi

theorem Ligature.matchesAt_filter (ligature : Ligature) (hi : f.seesAt gids i = true) :
    ligature.matchesAt f (gids.filter f.sees) (f.rank gids i) = ligature.matchesAt f gids i := by
  rw [Bool.eq_iff_iff, matchesAt_iff, matchesAt_iff]
  exact GlyphFilter.spells_seenAfter_filter_iff hi

/-- At a seen glyph the same ligature is selected when the unseen glyphs are taken out. -/
theorem selectLigature?_filter (tables : List LigatureSubtable) (hi : f.seesAt gids i = true) :
    selectLigature? tables f (gids.filter f.sees) (f.rank gids i) =
      selectLigature? tables f gids i :=
  selectLigature?_congr (GlyphFilter.getElem?_rank hi) fun _ _ _ _ ligature _ =>
    ligature.matchesAt_filter hi

/-! ## Runs -/

namespace Run

/-- The glyphs of a run that a filter sees, in order. -/
def seen (f : GlyphFilter) (run : Run α) : Run α := run.filter fun glyph => f.sees glyph.gid

@[simp] theorem seen_append (f : GlyphFilter) (run rest : Run α) :
    seen f (run ++ rest) = seen f run ++ seen f rest :=
  List.filter_append _ _

theorem seen_cons_of_sees {glyph : Glyph α} (h : f.sees glyph.gid = true) (rest : Run α) :
    seen f (glyph :: rest) = glyph :: seen f rest :=
  List.filter_cons_of_pos h

theorem seen_cons_of_not_sees {glyph : Glyph α} (h : ¬ f.sees glyph.gid = true) (rest : Run α) :
    seen f (glyph :: rest) = seen f rest :=
  List.filter_cons_of_neg h

theorem seen_eq_self {run : Run α} (h : ∀ glyph ∈ run, f.sees glyph.gid = true) :
    seen f run = run :=
  List.filter_eq_self.2 h

theorem gids_seen (f : GlyphFilter) (run : Run α) :
    (run.seen f).gids = run.gids.filter f.sees := by
  rw [gids, gids, List.filter_map]
  rfl

end Run

end GlyphSubstitution
