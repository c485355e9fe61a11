import Mathlib.Data.List.Sort
import GlyphSubstitution.Matching.Sequence

/-!
# The positions that a lookup sees

Matching finds its way one step at a time, to the next seen position and the next again.  This file
gives all of them at once: `seenAfter` lists the seen positions to the right of a position and
`seenBefore` those to the left, nearest first, each a filter of the positions of the run and nothing
that walks.  A step of the matcher takes the head of such a list and leaves its tail
(`seenAfter_of_next?`, `seenBefore_of_prev?`).

A sequence is then met exactly if it is spelled by the first positions of the list:
`matchesBack_iff` and `reach?_eq_some_iff` say so for the two directions,
`positions_matchAhead_of_spells` says which positions are recorded, and `seenAfter_reached` where
matching can go on from the end of a sequence.
-/

namespace GlyphSubstitution

/-- The glyphs at the first of these positions are those of the pattern, and none is missing. -/
def Spells (gids pattern : List GlyphId) (positions : List Nat) : Prop :=
  (positions.take pattern.length).map (gids[·]?) = pattern.map some

instance (gids pattern : List GlyphId) (positions : List Nat) :
    Decidable (Spells gids pattern positions) :=
  inferInstanceAs (Decidable (_ = _))

@[simp] theorem spells_nil (gids : List GlyphId) (positions : List Nat) :
    Spells gids [] positions := by
  simp [Spells]

@[simp] theorem not_spells_cons_nil (gids : List GlyphId) (g : GlyphId) (rest : List GlyphId) :
    ¬ Spells gids (g :: rest) [] := by
  simp [Spells]

theorem spells_cons_cons {gids : List GlyphId} {g : GlyphId} {rest : List GlyphId} {p : Nat}
    {positions : List Nat} :
    Spells gids (g :: rest) (p :: positions) ↔ gids[p]? = some g ∧ Spells gids rest positions := by
  simp [Spells]

theorem Spells.length_le {gids pattern : List GlyphId} {positions : List Nat}
    (h : Spells gids pattern positions) : pattern.length ≤ positions.length := by
  have hlength := congrArg List.length h
  simp only [List.length_map, List.length_take] at hlength
  omega

/-- A pattern in two parts is spelled if the second part is spelled by what the first leaves. -/
theorem spells_append {gids u v : List GlyphId} {positions : List Nat} :
    Spells gids (u ++ v) positions ↔
      Spells gids u positions ∧ Spells gids v (positions.drop u.length) := by
  induction u generalizing positions with
  | nil => simp
  | cons g u ih =>
    cases positions with
    | nil => simp
    | cons p positions =>
      rw [List.cons_append, spells_cons_cons, spells_cons_cons, ih, and_assoc]
      rfl

/-- Positions that are carried over to where the same glyphs stand spell the same. -/
theorem spells_map_iff {gids gids' pattern : List GlyphId} {g : Nat → Nat} {positions : List Nat}
    (h : ∀ p ∈ positions, gids'[g p]? = gids[p]?) :
    Spells gids' pattern (positions.map g) ↔ Spells gids pattern positions := by
  have hsame : ((positions.take pattern.length).map g).map (gids'[·]?) =
      (positions.take pattern.length).map (gids[·]?) := by
    rw [List.map_map]
    exact List.map_congr_left fun p hp => h p (List.mem_of_mem_take hp)
  rw [Spells, Spells, ← List.map_take, hsame]

namespace GlyphFilter

/-! ## The lists -/

/-- The seen positions after `i`, from left to right. -/
def seenAfter (f : GlyphFilter) (gids : List GlyphId) (i : Nat) : List Nat :=
  (List.range gids.length).filter fun p => i < p && f.seesAt gids p

/-- The seen positions before `i`, from right to left. -/
def seenBefore (f : GlyphFilter) (gids : List GlyphId) (i : Nat) : List Nat :=
  ((List.range gids.length).filter fun p => p < i && f.seesAt gids p).reverse

variable {f : GlyphFilter} {gids : List GlyphId} {i p : Nat}

theorem mem_seenAfter : p ∈ f.seenAfter gids i ↔ i < p ∧ f.seesAt gids p = true := by
  simp only [seenAfter, List.mem_filter, List.mem_range, Bool.and_eq_true, decide_eq_true_eq]
  exact and_iff_right_of_imp fun h => lt_length_of_seesAt h.2

theorem mem_seenBefore : p ∈ f.seenBefore gids i ↔ p < i ∧ f.seesAt gids p = true := by
  simp only [seenBefore, List.mem_reverse, List.mem_filter, List.mem_range, Bool.and_eq_true,
    decide_eq_true_eq]
  exact and_iff_right_of_imp fun h => lt_length_of_seesAt h.2

theorem pairwise_seenAfter (f : GlyphFilter) (gids : List GlyphId) (i : Nat) :
    (f.seenAfter gids i).Pairwise (· < ·) :=
  List.pairwise_lt_range.filter _

theorem pairwise_seenBefore (f : GlyphFilter) (gids : List GlyphId) (i : Nat) :
    (f.seenBefore gids i).Pairwise (· > ·) :=
  List.pairwise_reverse.2 (List.pairwise_lt_range.filter _)

/-! ## Steps -/

/-- The nearest seen position on the right is the first in the list, and the list goes on with the
positions after it. -/
theorem seenAfter_of_next? (h : f.next? gids i = some p) :
    f.seenAfter gids i = p :: f.seenAfter gids p := by
  obtain ⟨hip, hsees, hmin⟩ := next?_eq_some_iff.1 h
  have htail : (p :: f.seenAfter gids p).Pairwise (· < ·) :=
    List.pairwise_cons.2 ⟨fun q hq => (mem_seenAfter.1 hq).1, pairwise_seenAfter f gids p⟩
  refine (pairwise_seenAfter f gids i).eq_of_mem_iff htail fun q => ?_
  rw [List.mem_cons, mem_seenAfter, mem_seenAfter]
  constructor
  · intro ⟨hiq, hq⟩
    rcases Nat.lt_trichotomy q p with hlt | heq | hgt
    · simp [hmin q hiq hlt] at hq
    · exact Or.inl heq
    · exact Or.inr ⟨hgt, hq⟩
  · intro hq
    rcases hq with rfl | ⟨hpq, hq⟩
    · exact ⟨hip, hsees⟩
    · exact ⟨hip.trans hpq, hq⟩

theorem seenAfter_of_next?_eq_none (h : f.next? gids i = none) : f.seenAfter gids i = [] := by
  apply List.eq_nil_iff_forall_not_mem.2
  intro q hq
  obtain ⟨hiq, hsees⟩ := mem_seenAfter.1 hq
  simp [next?_eq_none_iff.1 h q hiq] at hsees

/-- The nearest seen position on the left is the first in the list, and the list goes on with the
positions before it. -/
theorem seenBefore_of_prev? (h : f.prev? gids i = some p) :
    f.seenBefore gids i = p :: f.seenBefore gids p := by
  obtain ⟨hpi, hsees, hmin⟩ := prev?_eq_some_iff.1 h
  have htail : (p :: f.seenBefore gids p).Pairwise (· > ·) :=
    List.pairwise_cons.2 ⟨fun q hq => (mem_seenBefore.1 hq).1, pairwise_seenBefore f gids p⟩
  refine (pairwise_seenBefore f gids i).eq_of_mem_iff htail fun q => ?_
  rw [List.mem_cons, mem_seenBefore, mem_seenBefore]
  constructor
  · intro ⟨hqi, hq⟩
    rcases Nat.lt_trichotomy q p with hlt | heq | hgt
    · exact Or.inr ⟨hlt, hq⟩
    · exact Or.inl heq
    · simp [hmin q hgt hqi] at hq
  · intro hq
    rcases hq with rfl | ⟨hqp, hq⟩
    · exact ⟨hpi, hsees⟩
    · exact ⟨hqp.trans hpi, hq⟩

theorem seenBefore_of_prev?_eq_none (h : f.prev? gids i = none) : f.seenBefore gids i = [] := by
  apply List.eq_nil_iff_forall_not_mem.2
  intro q hq
  obtain ⟨hqi, hsees⟩ := mem_seenBefore.1 hq
  simp [prev?_eq_none_iff.1 h q hqi] at hsees

/-! ## Whole sequences -/

/-- A sequence is met to the left exactly if the seen positions there spell it. -/
theorem matchesBack_iff {pattern : List GlyphId} :
    f.matchesBack gids pattern i = true ↔ Spells gids pattern (f.seenBefore gids i) := by
  induction pattern generalizing i with
  | nil => simp
  | cons g rest ih =>
    rw [matchesBack]
    cases hprev : f.prev? gids i with
    | none =>
      have hstep : f.stepBack? gids g i = none := by simp [stepBack?, hprev]
      rw [hstep, seenBefore_of_prev?_eq_none hprev]
      simp
    | some p =>
      rw [seenBefore_of_prev? hprev, spells_cons_cons]
      by_cases hg : gids[p]? = some g
      · have hstep : f.stepBack? gids g i = some p := stepBack?_eq_some_iff.2 ⟨hprev, hg⟩
        rw [hstep]
        simp [hg, ih]
      · have hstep : f.stepBack? gids g i = none := by simp [stepBack?, hprev, hg]
        rw [hstep]
        simp [hg]

/-- A step to the right, told by the list of seen positions: it succeeds if the list begins with a
position of the glyph asked for. -/
theorem stepAhead?_cases (f : GlyphFilter) (gids : List GlyphId) (g : GlyphId) (i : Nat) :
    (∃ p, f.stepAhead? gids g i = some p ∧ gids[p]? = some g ∧
        f.seenAfter gids i = p :: f.seenAfter gids p) ∨
      f.stepAhead? gids g i = none ∧
        ∀ rest, ¬ Spells gids (g :: rest) (f.seenAfter gids i) := by
  cases hnext : f.next? gids i with
  | none =>
    refine Or.inr ⟨by simp [stepAhead?, hnext], fun rest => ?_⟩
    rw [seenAfter_of_next?_eq_none hnext]
    exact not_spells_cons_nil gids g rest
  | some p =>
    have hseen := seenAfter_of_next? hnext
    by_cases hg : gids[p]? = some g
    · exact Or.inl ⟨p, stepAhead?_eq_some_iff.2 ⟨hnext, hg⟩, hg, hseen⟩
    · refine Or.inr ⟨by simp [stepAhead?, hnext, hg], fun rest => ?_⟩
      rw [hseen, spells_cons_cons]
      exact fun h => hg h.1

/-- Where a sequence that is met ends: at the last of the positions that spell it, or where it
started if it is empty. -/
def reached (f : GlyphFilter) (gids : List GlyphId) (i count : Nat) : Nat :=
  ((f.seenAfter gids i).take count).getLastD i

theorem reached_succ {count : Nat} (h : f.seenAfter gids i = p :: f.seenAfter gids p) :
    f.reached gids i (count + 1) = f.reached gids p count := by
  rw [reached, h, List.take_succ_cons, List.getLastD_cons, reached]

/-- A sequence is met to the right exactly if the seen positions there spell it, and it ends at the
last of those. -/
theorem reach?_eq_some_iff {pattern : List GlyphId} {j : Nat} :
    f.reach? gids pattern i = some j ↔
      Spells gids pattern (f.seenAfter gids i) ∧ j = f.reached gids i pattern.length := by
  induction pattern generalizing i with
  | nil => simp [reached, eq_comm]
  | cons g rest ih =>
    rw [reach?]
    rcases stepAhead?_cases f gids g i with ⟨p, hstep, hg, hseen⟩ | ⟨hstep, hnot⟩
    · rw [hstep, List.length_cons, reached_succ hseen, hseen, spells_cons_cons]
      simp [hg, ih]
    · rw [hstep]
      simp [hnot rest]

theorem isSome_reach?_iff {pattern : List GlyphId} :
    (f.reach? gids pattern i).isSome = true ↔ Spells gids pattern (f.seenAfter gids i) := by
  rw [Option.isSome_iff_exists]
  simp only [reach?_eq_some_iff, exists_and_left, exists_eq, and_true]

/-- Where a sequence is met, the positions of the glyphs that spell it are recorded. -/
theorem positions_matchAhead_of_spells {pattern : List GlyphId}
    (h : Spells gids pattern (f.seenAfter gids i)) :
    (f.matchAhead gids pattern i []).positions = (f.seenAfter gids i).take pattern.length := by
  induction pattern generalizing i with
  | nil => simp
  | cons g rest ih =>
    rw [matchAhead]
    rcases stepAhead?_cases f gids g i with ⟨p, hstep, -, hseen⟩ | ⟨hstep, hnot⟩
    · rw [hseen, spells_cons_cons] at h
      rw [hstep, hseen]
      have hrest := ih h.2
      dsimp only
      rw [positions_matchAhead, hrest, List.length_cons, List.take_succ_cons]
      rfl
    · exact absurd h (hnot rest)

/-- After the end of `count` seen positions the others remain. -/
theorem seenAfter_reached {count : Nat} (h : count ≤ (f.seenAfter gids i).length) :
    f.seenAfter gids (f.reached gids i count) = (f.seenAfter gids i).drop count := by
  induction count generalizing i with
  | zero => simp [reached]
  | succ count ih =>
    cases hnext : f.next? gids i with
    | none => simp [seenAfter_of_next?_eq_none hnext] at h
    | some p =>
      have hseen := seenAfter_of_next? hnext
      rw [hseen, List.length_cons] at h
      rw [reached_succ hseen, ih (by omega), hseen, List.drop_succ_cons]

/-! ## How far a sequence reaches -/

/-- A sequence ends where it started or at a seen position after that. -/
theorem reached_eq_or_mem (f : GlyphFilter) (gids : List GlyphId) (i count : Nat) :
    f.reached gids i count = i ∨ f.reached gids i count ∈ f.seenAfter gids i := by
  rw [reached, List.getLastD_eq_getLast?]
  cases hlast : ((f.seenAfter gids i).take count).getLast? with
  | none => exact Or.inl rfl
  | some p => exact Or.inr (List.mem_of_mem_take (List.mem_of_getLast? hlast))

theorem le_reached {count : Nat} : i ≤ f.reached gids i count := by
  rcases reached_eq_or_mem f gids i count with heq | hmem
  · exact heq.ge
  · exact (mem_seenAfter.1 hmem).1.le

theorem seesAt_reached {count : Nat} (h : i < f.reached gids i count) :
    f.seesAt gids (f.reached gids i count) = true := by
  rcases reached_eq_or_mem f gids i count with heq | hmem
  · omega
  · exact (mem_seenAfter.1 hmem).2

theorem reached_lt_length {count : Nat} (hi : i < gids.length) :
    f.reached gids i count < gids.length := by
  rcases reached_eq_or_mem f gids i count with heq | hmem
  · rw [heq]
    exact hi
  · exact lt_length_of_seesAt (mem_seenAfter.1 hmem).2

/-- The first `count` seen positions are those that lie no further right than the last of them. -/
theorem mem_take_seenAfter {count : Nat} (h : count ≤ (f.seenAfter gids i).length) :
    p ∈ (f.seenAfter gids i).take count ↔
      i < p ∧ p ≤ f.reached gids i count ∧ f.seesAt gids p = true := by
  induction count generalizing i with
  | zero =>
    simp only [List.take_zero, List.not_mem_nil, reached, List.getLastD_nil, false_iff]
    omega
  | succ count ih =>
    cases hnext : f.next? gids i with
    | none => simp [seenAfter_of_next?_eq_none hnext] at h
    | some q =>
      have hseen := seenAfter_of_next? hnext
      obtain ⟨hiq, hq, -⟩ := next?_eq_some_iff.1 hnext
      have hle : q ≤ f.reached gids q count := le_reached
      rw [hseen, List.length_cons] at h
      rw [hseen, List.take_succ_cons, List.mem_cons, ih (by omega), reached_succ hseen]
      constructor
      · intro hp
        rcases hp with rfl | ⟨hqp, hp, hsees⟩
        · exact ⟨hiq, hle, hq⟩
        · exact ⟨hiq.trans hqp, hp, hsees⟩
      · intro ⟨hip, hp, hsees⟩
        have hmem : p ∈ f.seenAfter gids i := mem_seenAfter.2 ⟨hip, hsees⟩
        rw [hseen, List.mem_cons] at hmem
        exact hmem.imp_right fun hmem => ⟨(mem_seenAfter.1 hmem).1, hp, hsees⟩

/-- The first `count` seen positions, as a filter of the stretch of the run that they take up. -/
theorem take_seenAfter_eq_filter {count : Nat} (h : count ≤ (f.seenAfter gids i).length) :
    (f.seenAfter gids i).take count =
      (List.range' (i + 1) (f.reached gids i count - i)).filter (f.seesAt gids) := by
  have hstretch : (List.range' (i + 1) (f.reached gids i count - i)).Pairwise (· < ·) :=
    List.pairwise_lt_range'
  refine ((pairwise_seenAfter f gids i).sublist (List.take_sublist _ _)).eq_of_mem_iff
    (hstretch.filter _) fun p => ?_
  have hle : i ≤ f.reached gids i count := le_reached
  rw [mem_take_seenAfter h, List.mem_filter, List.mem_range'_1, ← and_assoc]
  apply and_congr_left
  intro _
  omega

end GlyphFilter

end GlyphSubstitution
