import GlyphSubstitution.Matching.Neighbour

/-!
# Matching a sequence of glyphs

A sequence is met, going outwards from a position, when each of its glyphs stands at the nearest
seen position from the one before.  `matchesBack` looks to the left, so that the sequence names the
nearest glyph first, and `reach?` to the right, telling where the last glyph of the sequence stands.
`matchAhead` also keeps the positions on the way, those of the part that was met if the whole was
not; `last_matchAhead` says that keeping them makes no difference to where the match ends.  A
sequence in two parts is met part by part, the second from the end of the first (`reach?_append`,
`matchAhead_append`).
-/

namespace GlyphSubstitution

/-- How far a sequence was met. -/
structure AheadMatch where
  /-- The positions of the glyphs that were met, after those already known. -/
  positions : List Nat
  /-- Where the whole sequence ends, if it was met. -/
  last : Option Nat
  deriving DecidableEq, Repr

/-- Goes on from where the whole sequence ends.  If it was not met, nothing more is looked at. -/
def AheadMatch.andThen (met : AheadMatch) (walk : Nat → List Nat → AheadMatch) : AheadMatch :=
  match met.last with
  | some j => walk j met.positions
  | none => met

@[simp] theorem AheadMatch.andThen_some (positions : List Nat) (j : Nat)
    (walk : Nat → List Nat → AheadMatch) :
    AheadMatch.andThen ⟨positions, some j⟩ walk = walk j positions := rfl

namespace GlyphFilter

/-! ## Single steps -/

/-- The nearest seen position after `i`, if `g` stands there. -/
def stepAhead? (f : GlyphFilter) (gids : List GlyphId) (g : GlyphId) (i : Nat) : Option Nat :=
  (f.next? gids i).filter (gids[·]? == some g)

/-- The nearest seen position before `i`, if `g` stands there. -/
def stepBack? (f : GlyphFilter) (gids : List GlyphId) (g : GlyphId) (i : Nat) : Option Nat :=
  (f.prev? gids i).filter (gids[·]? == some g)

theorem stepAhead?_eq_some_iff {f : GlyphFilter} {gids : List GlyphId} {g : GlyphId} {i p : Nat} :
    f.stepAhead? gids g i = some p ↔ f.next? gids i = some p ∧ gids[p]? = some g := by
  simp [stepAhead?]

theorem stepBack?_eq_some_iff {f : GlyphFilter} {gids : List GlyphId} {g : GlyphId} {i p : Nat} :
    f.stepBack? gids g i = some p ↔ f.prev? gids i = some p ∧ gids[p]? = some g := by
  simp [stepBack?]

/-! ## Whole sequences -/

/-- Whether the sequence, nearest glyph first, is met to the left of `i`. -/
def matchesBack (f : GlyphFilter) (gids : List GlyphId) : List GlyphId → Nat → Bool
  | [], _ => true
  | g :: rest, i =>
    match f.stepBack? gids g i with
    | some p => matchesBack f gids rest p
    | none => false

/-- Where the sequence ends if it is met to the right of `i`; the empty one ends at `i` itself. -/
def reach? (f : GlyphFilter) (gids : List GlyphId) : List GlyphId → Nat → Option Nat
  | [], i => some i
  | g :: rest, i =>
    match f.stepAhead? gids g i with
    | some p => reach? f gids rest p
    | none => none

/-- Meets the sequence to the right of `i` as far as possible, adding the position of each glyph to
those in `found`. -/
def matchAhead (f : GlyphFilter) (gids : List GlyphId) : List GlyphId → Nat → List Nat → AheadMatch
  | [], i, found => ⟨found, some i⟩
  | g :: rest, i, found =>
    match f.stepAhead? gids g i with
    | some p => matchAhead f gids rest p (found ++ [p])
    | none => ⟨found, none⟩

@[simp] theorem matchesBack_nil (f : GlyphFilter) (gids : List GlyphId) (i : Nat) :
    f.matchesBack gids [] i = true := rfl

@[simp] theorem reach?_nil (f : GlyphFilter) (gids : List GlyphId) (i : Nat) :
    f.reach? gids [] i = some i := rfl

@[simp] theorem matchAhead_nil (f : GlyphFilter) (gids : List GlyphId) (i : Nat)
    (found : List Nat) : f.matchAhead gids [] i found = ⟨found, some i⟩ := rfl

/-- Keeping the positions makes no difference to where a match ends. -/
@[simp] theorem last_matchAhead (f : GlyphFilter) (gids pattern : List GlyphId) (i : Nat)
    (found : List Nat) : (f.matchAhead gids pattern i found).last = f.reach? gids pattern i := by
  induction pattern generalizing i found with
  | nil => rfl
  | cons g rest ih =>
    rw [matchAhead, reach?]
    split
    · exact ih _ _
    · rfl

/-- The positions that are known already stay in front of those that are found. -/
theorem positions_matchAhead (f : GlyphFilter) (gids pattern : List GlyphId) (i : Nat)
    (found : List Nat) :
    (f.matchAhead gids pattern i found).positions =
      found ++ (f.matchAhead gids pattern i []).positions := by
  induction pattern generalizing i found with
  | nil => simp
  | cons g rest ih =>
    rw [matchAhead, matchAhead]
    split
    · rw [ih, ih _ ([] ++ _)]
      simp
    · simp

/-- One sequence and then another are met by going on from the end of the first. -/
theorem reach?_append (f : GlyphFilter) (gids u v : List GlyphId) (i : Nat) :
    f.reach? gids (u ++ v) i = (f.reach? gids u i).bind (f.reach? gids v) := by
  induction u generalizing i with
  | nil => rfl
  | cons g rest ih =>
    rw [List.cons_append, reach?, reach?]
    cases f.stepAhead? gids g i with
    | none => rfl
    | some p => exact ih p

theorem matchAhead_append (f : GlyphFilter) (gids u v : List GlyphId) (i : Nat)
    (found : List Nat) :
    f.matchAhead gids (u ++ v) i found =
      (f.matchAhead gids u i found).andThen (f.matchAhead gids v) := by
  induction u generalizing i found with
  | nil => rfl
  | cons g rest ih =>
    rw [List.cons_append, matchAhead, matchAhead]
    cases f.stepAhead? gids g i with
    | none => rfl
    | some p => exact ih p (found ++ [p])

end GlyphFilter

end GlyphSubstitution
