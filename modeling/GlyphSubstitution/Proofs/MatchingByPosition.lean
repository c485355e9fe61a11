import GlyphSubstitution.Substitution.Contextual
import GlyphSubstitution.Substitution.Ligature

/-!
# Matching by position

Matching can be carried out with nothing but the positions of glyphs, one step at a time.  Each
glyph is then fetched by its position, and to fetch one from a position that the run does not have
is a fault.  Here is matching of this kind: a result `none` is a fault, and what the functions of
matching answer stands inside a `some`.

No fault ever occurs, and the answers are those of matching: `next_eq` and `prev_eq` for the steps,
`ahead_eq` and `back_eq` for sequences, `selectRule_eq` and `selectLigature_eq` for the choice of
rules and ligatures.
-/

namespace GlyphSubstitution

namespace ByPosition

/-! ## Steps -/

/-- Goes right from position `i` to the nearest glyph that is seen. -/
def next (f : GlyphFilter) (gids : List GlyphId) (i : Nat) : Option (Option Nat) :=
  if i + 1 < gids.length then do
    let g ← gids[i + 1]?
    if f.sees g then some (some (i + 1)) else next f gids (i + 1)
  else some none
termination_by gids.length - i

/-- Goes left from position `i` to the nearest glyph that is seen. -/
def prev (f : GlyphFilter) (gids : List GlyphId) : Nat → Option (Option Nat)
  | 0 => some none
  | i + 1 => do
    let g ← gids[i]?
    if f.sees g then some (some i) else prev f gids i

variable {f : GlyphFilter} {gids : List GlyphId}

theorem next_eq (f : GlyphFilter) (gids : List GlyphId) (i : Nat) :
    next f gids i = some (f.next? gids i) := by
  fun_induction next f gids i with
  | case1 i hi ih =>
    have hfetch : gids[i + 1]? = some gids[i + 1] := List.getElem?_eq_getElem hi
    have hdrop : gids.drop (i + 1) = gids[i + 1] :: gids.drop (i + 1 + 1) :=
      List.drop_eq_getElem_cons hi
    rw [hfetch, GlyphFilter.next?, hdrop, List.findIdx?_cons]
    dsimp only [Option.bind_eq_bind, Option.bind_some]
    by_cases hsees : f.sees gids[i + 1] = true
    · rw [if_pos hsees, hsees]
      simp
    · rw [if_neg hsees, ih, GlyphFilter.next?, eq_false_of_ne_true hsees]
      simp [Option.map_map, Function.comp_def, Nat.add_assoc, Nat.add_comm 1]
  | case2 i hi =>
    have hnone : f.next? gids i = none := by
      rw [GlyphFilter.next?_eq_none_iff]
      intro j hj
      refine eq_false_of_ne_true fun hsees => hi ?_
      have hlt := GlyphFilter.lt_length_of_seesAt hsees
      omega
    rw [hnone]

theorem prev_eq {i : Nat} (hi : i ≤ gids.length) : prev f gids i = some (f.prevBelow? gids i) := by
  induction i with
  | zero => rfl
  | succ i ih =>
    have hfetch : gids[i]? = some gids[i] := List.getElem?_eq_getElem hi
    rw [prev, GlyphFilter.prevBelow?, GlyphFilter.seesAt, hfetch, ih (Nat.le_of_succ_le hi)]
    dsimp only [Option.bind_eq_bind, Option.bind_some, Option.any_some]
    split <;> rfl

/-! ## Sequences -/

/-- Meets a sequence to the right of `i`, fetching again the glyph that each step leads to. -/
def ahead (f : GlyphFilter) (gids : List GlyphId) :
    List GlyphId → Nat → List Nat → Option AheadMatch
  | [], i, found => some ⟨found, some i⟩
  | g :: rest, i, found => do
    match ← next f gids i with
    | none => some ⟨found, none⟩
    | some p =>
      let there ← gids[p]?
      if there = g then ahead f gids rest p (found ++ [p]) else some ⟨found, none⟩

/-- Meets a sequence to the left of `i`, fetching again the glyph that each step leads to. -/
def back (f : GlyphFilter) (gids : List GlyphId) : List GlyphId → Nat → Option Bool
  | [], _ => some true
  | g :: rest, i => do
    match ← prev f gids (min i gids.length) with
    | none => some false
    | some p =>
      let there ← gids[p]?
      if there = g then back f gids rest p else some false

theorem ahead_eq (pattern : List GlyphId) (i : Nat) (found : List Nat) :
    ahead f gids pattern i found = some (f.matchAhead gids pattern i found) := by
  induction pattern generalizing i found with
  | nil => rfl
  | cons g rest ih =>
    rw [ahead, next_eq, GlyphFilter.matchAhead, GlyphFilter.stepAhead?]
    cases hnext : f.next? gids i with
    | none => rfl
    | some p =>
      obtain ⟨-, hsees, -⟩ := GlyphFilter.next?_eq_some_iff.1 hnext
      have hlt := GlyphFilter.lt_length_of_seesAt hsees
      have hfetch := List.getElem?_eq_getElem hlt
      simp only [Option.bind_eq_bind, Option.bind_some, hfetch, Option.filter_some, ih]
      by_cases hg : gids[p] = g <;> simp [hg]

theorem back_eq (pattern : List GlyphId) (i : Nat) :
    back f gids pattern i = some (f.matchesBack gids pattern i) := by
  induction pattern generalizing i with
  | nil => rfl
  | cons g rest ih =>
    rw [back, prev_eq (Nat.min_le_right _ _), GlyphFilter.matchesBack, GlyphFilter.stepBack?,
      GlyphFilter.prev?]
    cases hprev : f.prevBelow? gids (min i gids.length) with
    | none => rfl
    | some p =>
      obtain ⟨-, hsees, -⟩ := GlyphFilter.prevBelow?_eq_some_iff.1 hprev
      have hlt := GlyphFilter.lt_length_of_seesAt hsees
      have hfetch := List.getElem?_eq_getElem hlt
      simp only [Option.bind_eq_bind, Option.bind_some, hfetch, Option.filter_some, ih]
      by_cases hg : gids[p] = g <;> simp [hg]

/-! ## Rules and ligatures -/

/-- Meets a pattern around position `i`. -/
def context (pattern : ContextPattern) (f : GlyphFilter) (gids : List GlyphId) (i : Nat) :
    Option (Option ContextMatch) :=
  if i < gids.length then do
    if ← back f gids (pattern.backtrack.getD []) i then
      let input ← ahead f gids pattern.input i []
      match input.last with
      | none => some none
      | some last =>
        let beyond ← ahead f gids (pattern.lookahead.getD []) last []
        some (beyond.last.map fun _ => ⟨i, input.positions⟩)
    else some none
  else some none

/-- The match to apply at position `i`.  To ask at a position that there is not is no fault. -/
def selectRule (tables : List ContextSubtable) (f : GlyphFilter) (gids : List GlyphId) (i : Nat) :
    Option (Option RuleMatch) :=
  match gids[i]? with
  | none => some none
  | some g =>
    (candidateRules tables g).findSomeM? fun rule => do
      let m ← context rule.pattern f gids i
      some (m.map (⟨·, rule.records⟩))

/-- The ligature to form at position `i`. -/
def selectLigature (tables : List LigatureSubtable) (f : GlyphFilter) (gids : List GlyphId)
    (i : Nat) : Option (Option Ligature) := do
  let g ← gids[i]?
  (tables.flatMap fun table => (table.get? g).getD []).findM? fun ligature => do
    let m ← ahead f gids ligature.components i []
    some m.last.isSome

theorem context_eq (pattern : ContextPattern) (f : GlyphFilter) (gids : List GlyphId) (i : Nat) :
    context pattern f gids i = some (pattern.match? f gids i) := by
  rw [context, ContextPattern.match?]
  by_cases hi : i < gids.length
  · simp only [hi, if_true, back_eq, Option.bind_eq_bind, Option.bind_some, ahead_eq,
      decide_true, Bool.true_and, GlyphFilter.last_matchAhead]
    split
    · cases hlast : f.reach? gids pattern.input i with
      | none => rfl
      | some last => simp
    · rfl
  · simp [hi]

theorem selectRule_eq (tables : List ContextSubtable) (f : GlyphFilter) (gids : List GlyphId)
    (i : Nat) : selectRule tables f gids i = some (selectRule? tables f gids i) := by
  rw [selectRule, selectRule?]
  cases gids[i]? with
  | none => rfl
  | some g =>
    simp only [context_eq, Option.bind_eq_bind, Option.bind_some]
    exact List.findSomeM?_pure (m := Option)

theorem selectLigature_eq (tables : List LigatureSubtable) (f : GlyphFilter) {gids : List GlyphId}
    {i : Nat} (hi : i < gids.length) :
    selectLigature tables f gids i = some (selectLigature? tables f gids i) := by
  have hfetch : gids[i]? = some gids[i] := List.getElem?_eq_getElem hi
  rw [selectLigature, selectLigature?, hfetch]
  simp only [ahead_eq, Option.bind_eq_bind, Option.bind_some, GlyphFilter.last_matchAhead]
  exact List.findM?_pure _ _

end ByPosition

end GlyphSubstitution
