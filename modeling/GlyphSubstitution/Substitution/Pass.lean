import GlyphSubstitution.Substitution.Nested
import GlyphSubstitution.Substitution.Scan

/-!
# Applying lookups to a run

`LookupList.applyLookup` scans the run with one lookup, `LookupList.applyLookups` does so with
several and then clears away the glyphs that the font does not have, and `LookupList.wouldApply`
tells without an edit whether a lookup would find something to do at a position.  The first two take
the budget of each scan and answer `none` if a scan exceeds it.
-/

namespace GlyphSubstitution

universe u w

/-- Scans a run with contextual subtables, passing nested calls the limit `limit`. -/
def contextualPassM {m : Type u → Type w} [Monad m] {α : Type u} (nested : ApplierM m α)
    (limit : Nat) (tables : List ContextSubtable) (f : GlyphFilter) (budget : Nat) (run : Run α) :
    m (Option (Outcome α Bool)) :=
  scanM f (applyContextualM nested limit tables f) budget run

/-- Scans a run with contextual subtables, where nested calls have no effects of their own. -/
def contextualPass {α : Type u} (nested : Applier α) (limit : Nat) (tables : List ContextSubtable)
    (f : GlyphFilter) (budget : Nat) (run : Run α) : Option (Outcome α Bool) :=
  scan f (applyContextual nested limit tables f) budget run

namespace Lookup

/-- Whether the lookup has a substitution for position `i`, be the glyph there seen or not. -/
def selectsAt (lookup : Lookup) (f : GlyphFilter) (gids : List GlyphId) (i : Nat) : Bool :=
  match lookup.subtables with
  | .single tables => (gids[i]?.bind (Coverage.first? tables)).isSome
  | .multiple tables => (gids[i]?.bind (Coverage.first? tables)).isSome
  | .ligature tables => (selectLigature? tables f gids i).isSome
  | .contextual _ tables => (selectRule? tables f gids i).isSome

/-- There is no substitution for a position past the end of the run. -/
theorem selectsAt_of_length_le {lookup : Lookup} {f : GlyphFilter} {gids : List GlyphId} {i : Nat}
    (h : gids.length ≤ i) : lookup.selectsAt f gids i = false := by
  have hnone : gids[i]? = none := List.getElem?_eq_none h
  unfold selectsAt
  cases lookup.subtables <;> simp [hnone, selectLigature?, selectRule?]

end Lookup

namespace LookupList

/-- Whether lookup `k` would be applied at position `i`.  It would not be where it does not see the
glyph, nor past the end of the run. -/
def wouldApply (list : LookupList) (skip : SkipPredicate) (k : Nat) (gids : List GlyphId)
    (i : Nat) : Except ShapingError Bool :=
  (list.lookup k).map fun lookup =>
    let f := skip.filter lookup.flag
    f.seesAt gids i && lookup.selectsAt f gids i

variable {α : Type u} [Payload α]

/-- What a scan with the lookup does at a position. -/
def visit (list : LookupList) (skip : SkipPredicate) (lookup : Lookup) : Visit α :=
  lookup.applyAt skip (applyContextual (list.applier skip) list.recursionLimit)

/-- Scans the run with lookup `k`, and tells whether anything was substituted. -/
def applyLookup (list : LookupList) (skip : SkipPredicate) (budget k : Nat) (run : Run α) :
    Option (Outcome α Bool) :=
  match list.lookup k with
  | .error e => some ⟨run, .error e⟩
  | .ok lookup => scan (skip.filter lookup.flag) (list.visit skip lookup) budget run

/-- Scans the run with each of the lookups in turn.  An error ends it all. -/
def applyInTurn (list : LookupList) (skip : SkipPredicate) (budget : Nat) :
    List Nat → Run α → Option (Outcome α Bool)
  | [], run => some ⟨run, .ok false⟩
  | k :: ks, run =>
    match list.applyLookup skip budget k run with
    | none => none
    | some ⟨run, .error e⟩ => some ⟨run, .error e⟩
    | some ⟨run, .ok changed⟩ => (list.applyInTurn skip budget ks run).map (·.map (changed || ·))

/-- Scans the run with each of the lookups in turn, and replaces the glyphs that a font of `count`
glyphs does not have.  After an error they stay. -/
def applyLookups (list : LookupList) (skip : SkipPredicate) (budget : Nat) (ks : List Nat)
    (count : UInt16) (run : Run α) : Option (Outcome α Bool) :=
  (list.applyInTurn skip budget ks run).map fun o =>
    match o.result with
    | .ok _ => { o with run := o.run.replaceMissing count }
    | .error _ => o

end LookupList

end GlyphSubstitution
