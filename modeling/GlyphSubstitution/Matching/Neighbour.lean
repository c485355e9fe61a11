import GlyphSubstitution.GlyphFilter

/-!
# The nearest glyph that a lookup sees

Matching walks outwards from a position of the run and steps over what its filter does not see.
`GlyphFilter.next?` and `GlyphFilter.prev?` find the nearest position on either side whose glyph is
seen; `next?_eq_some_iff` and `prev?_eq_some_iff` say so, and a position past the end of the run
stands for its end.
-/

namespace GlyphSubstitution

namespace GlyphFilter

/-- Whether there is a glyph at position `i` and the filter sees it. -/
def seesAt (f : GlyphFilter) (gids : List GlyphId) (i : Nat) : Bool := gids[i]?.any f.sees

theorem seesAt_eq_true_iff {f : GlyphFilter} {gids : List GlyphId} {i : Nat} :
    f.seesAt gids i = true ↔ ∃ h : i < gids.length, f.sees gids[i] = true := by
  simp only [seesAt, Option.any_eq_true, List.getElem?_eq_some_iff]
  constructor
  · rintro ⟨g, ⟨h, rfl⟩, hg⟩
    exact ⟨h, hg⟩
  · rintro ⟨h, hg⟩
    exact ⟨_, ⟨h, rfl⟩, hg⟩

theorem lt_length_of_seesAt {f : GlyphFilter} {gids : List GlyphId} {i : Nat}
    (h : f.seesAt gids i = true) : i < gids.length :=
  (seesAt_eq_true_iff.1 h).1

/-! ## Forwards -/

/-- The nearest seen position after `i`. -/
def next? (f : GlyphFilter) (gids : List GlyphId) (i : Nat) : Option Nat :=
  ((gids.drop (i + 1)).findIdx? f.sees).map (· + (i + 1))

/-- What `next?` finds is seen, lies after `i`, and nothing between is seen. -/
theorem next?_eq_some_iff {f : GlyphFilter} {gids : List GlyphId} {i p : Nat} :
    f.next? gids i = some p ↔
      i < p ∧ f.seesAt gids p = true ∧ ∀ j, i < j → j < p → f.seesAt gids j = false := by
  have hdrop : ∀ k, (gids.drop (i + 1))[k]?.any f.sees = f.seesAt gids (k + (i + 1)) := by
    intro k
    rw [List.getElem?_drop, seesAt, Nat.add_comm]
  rw [next?, Option.map_eq_some_iff]
  constructor
  · rintro ⟨k, hk, rfl⟩
    obtain ⟨hlt, hsees, hmin⟩ := List.findIdx?_eq_some_iff_getElem.1 hk
    refine ⟨by omega, ?_, fun j hij hjp => ?_⟩
    · rw [← hdrop, List.getElem?_eq_getElem hlt]
      exact hsees
    · obtain ⟨m, rfl⟩ : ∃ m, j = m + (i + 1) := ⟨j - (i + 1), by omega⟩
      rw [← hdrop, List.getElem?_eq_getElem (by omega)]
      simpa using hmin m (by omega)
  · rintro ⟨hip, hsees, hmin⟩
    obtain ⟨m, rfl⟩ : ∃ m, p = m + (i + 1) := ⟨p - (i + 1), by omega⟩
    refine ⟨m, ?_, rfl⟩
    rw [← hdrop] at hsees
    obtain ⟨g, hg, hgs⟩ := Option.any_eq_true _ _ |>.1 hsees
    obtain ⟨hlt, rfl⟩ := List.getElem?_eq_some_iff.1 hg
    refine List.findIdx?_eq_some_iff_getElem.2 ⟨hlt, hgs, fun j hj => ?_⟩
    have := hmin (j + (i + 1)) (by omega) (by omega)
    rw [← hdrop, List.getElem?_eq_getElem (by omega)] at this
    simpa using this

theorem next?_eq_none_iff {f : GlyphFilter} {gids : List GlyphId} {i : Nat} :
    f.next? gids i = none ↔ ∀ j, i < j → f.seesAt gids j = false := by
  constructor
  · intro h j hij
    rw [next?, Option.map_eq_none_iff, List.findIdx?_eq_none_iff] at h
    rw [Bool.eq_false_iff]
    intro hs
    obtain ⟨hlt, hg⟩ := seesAt_eq_true_iff.1 hs
    refine absurd hg (Bool.eq_false_iff.1 (h _ (List.mem_iff_getElem?.2 ⟨j - (i + 1), ?_⟩)))
    rw [List.getElem?_drop, show i + 1 + (j - (i + 1)) = j by omega, List.getElem?_eq_getElem hlt]
  · intro h
    cases hp : f.next? gids i with
    | none => rfl
    | some p =>
      obtain ⟨hip, hsees, -⟩ := next?_eq_some_iff.1 hp
      simp [h p hip] at hsees

/-! ## Backwards -/

/-- The nearest seen position below `i`, looked for one position at a time. -/
def prevBelow? (f : GlyphFilter) (gids : List GlyphId) : Nat → Option Nat
  | 0 => none
  | i + 1 => if f.seesAt gids i then some i else prevBelow? f gids i

/-- The nearest seen position before `i`. -/
def prev? (f : GlyphFilter) (gids : List GlyphId) (i : Nat) : Option Nat :=
  f.prevBelow? gids (min i gids.length)

theorem prevBelow?_eq_some_iff {f : GlyphFilter} {gids : List GlyphId} {i p : Nat} :
    f.prevBelow? gids i = some p ↔
      p < i ∧ f.seesAt gids p = true ∧ ∀ j, p < j → j < i → f.seesAt gids j = false := by
  induction i with
  | zero => simp [prevBelow?]
  | succ i ih =>
    rw [prevBelow?]
    split
    · next h =>
      constructor
      · rintro ⟨⟩
        exact ⟨by omega, h, fun j _ _ => by omega⟩
      · rintro ⟨hp, -, hmin⟩
        rcases Nat.lt_or_ge p i with hlt | hge
        · simp [hmin i hlt (by omega)] at h
        · rw [show p = i by omega]
    · next h =>
      rw [ih]
      constructor
      · rintro ⟨hp, hs, hmin⟩
        refine ⟨by omega, hs, fun j hpj hji => ?_⟩
        rcases Nat.lt_or_ge j i with hlt | hge
        · exact hmin j hpj hlt
        · rw [show j = i by omega]
          simpa using h
      · rintro ⟨hp, hs, hmin⟩
        refine ⟨?_, hs, fun j hpj hji => hmin j hpj (by omega)⟩
        rcases Nat.lt_or_ge p i with hlt | hge
        · exact hlt
        · rw [show p = i by omega] at hs
          exact absurd hs h

/-- What `prev?` finds is seen, lies before `i`, and nothing between is seen. -/
theorem prev?_eq_some_iff {f : GlyphFilter} {gids : List GlyphId} {i p : Nat} :
    f.prev? gids i = some p ↔
      p < i ∧ f.seesAt gids p = true ∧ ∀ j, p < j → j < i → f.seesAt gids j = false := by
  rw [prev?, prevBelow?_eq_some_iff]
  constructor
  · rintro ⟨hp, hs, hmin⟩
    refine ⟨by omega, hs, fun j hpj hji => ?_⟩
    rcases Nat.lt_or_ge j gids.length with hlt | hge
    · exact hmin j hpj (by omega)
    · exact Bool.eq_false_iff.2 fun h => absurd (lt_length_of_seesAt h) (by omega)
  · rintro ⟨hp, hs, hmin⟩
    have := lt_length_of_seesAt hs
    exact ⟨by omega, hs, fun j hpj hji => hmin j hpj (by omega)⟩

theorem prevBelow?_eq_none_iff {f : GlyphFilter} {gids : List GlyphId} {i : Nat} :
    f.prevBelow? gids i = none ↔ ∀ j, j < i → f.seesAt gids j = false := by
  induction i with
  | zero => simp [prevBelow?]
  | succ i ih =>
    rw [prevBelow?]
    split
    · next h =>
      constructor
      · nofun
      · intro hnone
        simp [hnone i (by omega)] at h
    · next h =>
      rw [ih]
      constructor
      · intro hnone j hj
        rcases Nat.lt_or_ge j i with hlt | hge
        · exact hnone j hlt
        · rw [show j = i by omega]
          simpa using h
      · intro hnone j hj
        exact hnone j (by omega)

theorem prev?_eq_none_iff {f : GlyphFilter} {gids : List GlyphId} {i : Nat} :
    f.prev? gids i = none ↔ ∀ j, j < i → f.seesAt gids j = false := by
  rw [prev?, prevBelow?_eq_none_iff]
  constructor
  · intro hnone j hj
    rcases Nat.lt_or_ge j gids.length with hlt | hge
    · exact hnone j (by omega)
    · exact Bool.eq_false_iff.2 fun h => absurd (lt_length_of_seesAt h) (by omega)
  · intro hnone j hj
    exact hnone j (by omega)

end GlyphFilter

end GlyphSubstitution
