import GlyphSubstitution.Matching.Context

/-!
# Context rules

A context rule says which glyphs must stand around its start glyph, and which lookups are then
applied at which of the input glyphs.  A simple rule names only the input that follows the start
glyph; a chaining rule also names what must stand before and after the input.
-/

namespace GlyphSubstitution

/-- The instruction to apply lookup `lookupIndex` at the glyph `sequenceIndex` of a rule's input,
the start glyph being number zero. -/
structure SequenceLookup where
  sequenceIndex : UInt16
  lookupIndex : UInt16
  deriving DecidableEq, Repr

/-- The two kinds of context rules, and of the lookups that hold them. -/
inductive RuleKind where
  | simple
  | chaining
  deriving DecidableEq, Repr

/-- A rule for what happens at a start glyph in a certain context. -/
inductive ContextRule where
  /-- The input that follows the start glyph is all that is asked for. -/
  | simple (input : List GlyphId) (records : List SequenceLookup)
  /-- The input must also stand between `backtrack` and `lookahead`, the former with its nearest
  glyph first. -/
  | chaining (backtrack input lookahead : List GlyphId) (records : List SequenceLookup)
  deriving DecidableEq, Repr

namespace ContextRule

/-- The kind of the rule. -/
def kind : ContextRule → RuleKind
  | simple .. => .simple
  | chaining .. => .chaining

/-- The input glyphs after the start glyph. -/
def input : ContextRule → List GlyphId
  | simple input _ => input
  | chaining _ input _ _ => input

/-- What must stand before the start glyph, the nearest glyph first. -/
def backtrack : ContextRule → Option (List GlyphId)
  | simple .. => none
  | chaining backtrack .. => some backtrack

/-- What must follow the input. -/
def lookahead : ContextRule → Option (List GlyphId)
  | simple .. => none
  | chaining _ _ lookahead _ => some lookahead

/-- What is applied where the rule's context is met, in order. -/
def records : ContextRule → List SequenceLookup
  | simple _ records => records
  | chaining _ _ _ records => records

/-- The context that the rule asks for. -/
def pattern (rule : ContextRule) : ContextPattern :=
  ⟨rule.backtrack, rule.input, rule.lookahead⟩

/-- The number of input glyphs, the start glyph included. -/
def inputLength (rule : ContextRule) : Nat := rule.input.length + 1

/-! ## Well-formedness -/

/-- Every record addresses a glyph of the rule's input. -/
def AddressesInput (rule : ContextRule) : Prop :=
  ∀ record ∈ rule.records, record.sequenceIndex.toNat < rule.inputLength

instance (rule : ContextRule) : Decidable rule.AddressesInput :=
  inferInstanceAs (Decidable (∀ record ∈ rule.records, _))

/-- Every record names one of the first `count` lookups. -/
def NamesLookups (rule : ContextRule) (count : Nat) : Prop :=
  ∀ record ∈ rule.records, record.lookupIndex.toNat < count

instance (rule : ContextRule) (count : Nat) : Decidable (rule.NamesLookups count) :=
  inferInstanceAs (Decidable (∀ record ∈ rule.records, _))

/-- What is wrong with the rule in a lookup that holds rules of kind `kind` and stands among `count`
lookups.  A wrong kind is told before a wrong record. -/
def fault? (rule : ContextRule) (kind : RuleKind) (count : Nat) : Option ShapingError :=
  if rule.kind ≠ kind then some .badValue
  else if ¬ rule.NamesLookups count then some .badIndex
  else none

/-- A rule has no fault exactly if it is of the right kind and its records name lookups. -/
@[simp] theorem fault?_eq_none_iff {rule : ContextRule} {kind : RuleKind} {count : Nat} :
    rule.fault? kind count = none ↔ rule.kind = kind ∧ rule.NamesLookups count := by
  unfold fault?
  split
  · simp_all
  · split <;> simp_all

end ContextRule

end GlyphSubstitution
