import GlyphSubstitution.Substitution.Records
import GlyphSubstitution.Table.Subtable

/-!
# Contextual substitution

Of the rules that subtables hold for a start glyph, the first whose context is met is applied, by
working off its records.  How far the scan moves on is settled by the match, before any record is
carried out.
-/

namespace GlyphSubstitution

universe u w

/-- Where a rule's context was met, and what the rule asks for there. -/
structure RuleMatch where
  context : ContextMatch
  records : List SequenceLookup
  deriving DecidableEq, Repr

/-- The match of a rule at position `i`, if its context is met there. -/
def ContextRule.match? (rule : ContextRule) (f : GlyphFilter) (gids : List GlyphId) (i : Nat) :
    Option RuleMatch :=
  (rule.pattern.match? f gids i).map (⟨·, rule.records⟩)

/-- The rules that subtables, in order, hold for a start glyph. -/
def candidateRules (tables : List ContextSubtable) (g : GlyphId) : List ContextRule :=
  tables.flatMap (·.rulesFor g)

/-- The match to apply at position `i`: that of the first rule for the glyph there whose context is
met. -/
def selectRule? (tables : List ContextSubtable) (f : GlyphFilter) (gids : List GlyphId) (i : Nat) :
    Option RuleMatch :=
  gids[i]?.bind fun g => (candidateRules tables g).findSome? (·.match? f gids i)

/-- A match that is selected is that of a rule of the subtables. -/
theorem exists_rule_of_selectRule? {tables : List ContextSubtable} {f : GlyphFilter}
    {gids : List GlyphId} {i : Nat} {found : RuleMatch}
    (h : selectRule? tables f gids i = some found) :
    ∃ table ∈ tables, ∃ rule ∈ table.allRules,
      rule.pattern.match? f gids i = some found.context ∧ rule.records = found.records := by
  obtain ⟨g, -, hg⟩ := Option.bind_eq_some_iff.1 h
  obtain ⟨rule, hrule, hmatch⟩ := List.exists_of_findSome?_eq_some hg
  obtain ⟨table, htable, hmem⟩ := List.mem_flatMap.1 hrule
  obtain ⟨context, hcontext, rfl⟩ := Option.map_eq_some_iff.1 hmatch
  exact ⟨table, htable, rule, ContextSubtable.mem_allRules_iff.2 ⟨g, hmem⟩, hcontext, rfl⟩

variable {α : Type u}

/-- Applies contextual subtables at position `i`, passing nested calls the limit `limit`. -/
def applyContextualM {m : Type u → Type w} [Monad m] (nested : ApplierM m α) (limit : Nat)
    (tables : List ContextSubtable) (f : GlyphFilter) (run : Run α) (i : Nat) :
    m (Outcome α (Option Applied)) :=
  match selectRule? tables f run.gids i with
  | none => pure ⟨run, .ok none⟩
  | some found => do
    let o ← applyRecordsM nested limit found.records { run, positions := found.context.positions }
    pure (o.map fun changed => some { width := found.context.length, changed })

/-- Applies contextual subtables at position `i`, where nested calls have no effects of their
own. -/
def applyContextual (nested : Applier α) (limit : Nat) (tables : List ContextSubtable)
    (f : GlyphFilter) (run : Run α) (i : Nat) : Outcome α (Option Applied) :=
  Id.run (applyContextualM (m := Id) nested limit tables f run i)

theorem applyContextual_eq (nested : Applier α) (limit : Nat) (tables : List ContextSubtable)
    (f : GlyphFilter) (run : Run α) (i : Nat) :
    applyContextual nested limit tables f run i =
      match selectRule? tables f run.gids i with
      | none => ⟨run, .ok none⟩
      | some found =>
        (applyRecords nested limit found.records { run, positions := found.context.positions }).map
          fun changed => some { width := found.context.length, changed } := by
  simp only [applyContextual, applyContextualM]
  split <;> rfl

/-- Only calls to lookups that records of the rules name are ever made, with the limit that is
passed on. -/
theorem applyContextual_congr_of_named {nested nested' : Applier α} {limit : Nat}
    {tables : List ContextSubtable}
    (h : ∀ table ∈ tables, ∀ rule ∈ table.allRules, ∀ record ∈ rule.records, ∀ index run,
      nested ⟨record.lookupIndex.toNat, limit, index, run⟩ =
        nested' ⟨record.lookupIndex.toNat, limit, index, run⟩) :
    applyContextual nested limit tables = applyContextual nested' limit tables := by
  funext f run i
  rw [applyContextual_eq, applyContextual_eq]
  cases hfound : selectRule? tables f run.gids i with
  | none => rfl
  | some found =>
    obtain ⟨table, htable, rule, hrule, -, hrecords⟩ := exists_rule_of_selectRule? hfound
    have hcalls := h table htable rule hrule
    rw [hrecords] at hcalls
    dsimp only
    rw [applyRecords_congr hcalls]

/-- Only calls with the limit that is passed on are ever made. -/
theorem applyContextual_congr {nested nested' : Applier α} {limit : Nat}
    (h : ∀ call : NestedCall α, call.limit = limit → nested call = nested' call) :
    applyContextual nested limit = applyContextual nested' limit :=
  funext fun _ => applyContextual_congr_of_named fun _ _ _ _ _ _ _ _ => h _ rfl

end GlyphSubstitution
