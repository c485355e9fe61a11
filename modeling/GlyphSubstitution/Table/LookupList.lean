import GlyphSubstitution.LookupFlag
import GlyphSubstitution.Table.Subtable

/-!
# Lookups and lookup lists

A lookup is a list of subtables of one kind together with a flag.  A lookup list holds the lookups
of a font; contextual lookups invoke other lookups of the list by their numbers, so the list is
checked as a whole when it is built.  `LookupList.ofLookups` accepts exactly the lists in which
every lookup is well formed (`Lookup.fault?_eq_none_iff`), and a list in hand is always a checked
one.

A list that is refused is refused with one error, whatever else is wrong.  The lookups are checked
in the order of their numbers and the subtables of a lookup in their order, but a subtable as such
gives its start glyphs no order.  That they are taken in the order in which they were first
mentioned is a choice made here.  Rules in a hash table are met in the order of the hashes, and
where start glyphs of one subtable have faults of both kinds, the other kind may be told there.  So
only what `LookupList.ofLookups_eq_error_of_isFirst` says of the error belongs to the data itself.
-/

namespace GlyphSubstitution

/-- The subtables of a lookup, all of one kind. -/
inductive Subtables where
  | single (tables : List SingleSubtable)
  | multiple (tables : List MultipleSubtable)
  | ligature (tables : List LigatureSubtable)
  /-- Contextual subtables, which are to hold rules of the given kind only. -/
  | contextual (kind : RuleKind) (tables : List ContextSubtable)

/-- One unit of substitution: subtables, and a flag that says which glyphs they do not see. -/
structure Lookup where
  flag : LookupFlag
  subtables : Subtables

namespace Lookup

/-- The contextual subtables of the lookup, none if it is of another kind. -/
def contextTables (lookup : Lookup) : List ContextSubtable :=
  match lookup.subtables with
  | .contextual _ tables => tables
  | _ => []

/-- Whether the lookup leaves it to other lookups to edit glyphs. -/
def isContextual (lookup : Lookup) : Bool :=
  match lookup.subtables with
  | .contextual .. => true
  | _ => false

/-- The first thing that is wrong with the lookup where it stands among `count` lookups.  Which of
several faults is the first depends on the order in which a subtable keeps its start glyphs; whether
there is one does not. -/
def fault? (lookup : Lookup) (count : Nat) : Option ShapingError :=
  match lookup.subtables with
  | .contextual kind tables => (tables.flatMap (·.allRules)).findSome? (·.fault? kind count)
  | _ => none

/-- A contextual lookup holds rules of its own kind only, whose records name lookups among `count`;
other lookups are always well formed. -/
def WellFormed (lookup : Lookup) (count : Nat) : Prop :=
  match lookup.subtables with
  | .contextual kind tables =>
    ∀ table ∈ tables, ∀ rule ∈ table.allRules, rule.kind = kind ∧ rule.NamesLookups count
  | _ => True

/-- A lookup has no fault exactly if it is well formed. -/
theorem fault?_eq_none_iff {lookup : Lookup} {count : Nat} :
    lookup.fault? count = none ↔ lookup.WellFormed count := by
  obtain ⟨flag, subtables⟩ := lookup
  cases subtables with
  | contextual kind tables =>
    simp only [fault?, WellFormed, List.findSome?_eq_none_iff, List.mem_flatMap,
      ContextRule.fault?_eq_none_iff]
    constructor
    · intro h table htable rule hrule
      exact h rule ⟨table, htable, hrule⟩
    · intro h rule hmem
      obtain ⟨table, htable, hrule⟩ := hmem
      exact h table htable rule hrule
  | _ => simp [fault?, WellFormed]

end Lookup

/-- The depth of nesting that is allowed unless another is asked for. -/
def defaultRecursionLimit : Nat := 2

/-- The greatest depth of nesting that can be asked for. -/
def maxRecursionLimit : Nat := 6

/-- The lookups of a font, checked, with the depth to which contextual lookups may nest. -/
structure LookupList where
  /-- The lookups, by their numbers. -/
  lookups : List Lookup
  /-- How many levels of contextual lookups a contextual lookup may invoke below itself. -/
  recursionLimit : Nat := defaultRecursionLimit
  wellFormed : ∀ lookup ∈ lookups, lookup.WellFormed lookups.length
  recursionLimit_le : recursionLimit ≤ maxRecursionLimit := by decide

namespace LookupList

/-- The checked list of these lookups.  The first lookup with a fault decides the error, and where
it has faults of both kinds, so may the order in which its subtables keep their start glyphs. -/
def ofLookups (lookups : List Lookup) : Except ShapingError LookupList :=
  match h : lookups.findSome? (·.fault? lookups.length) with
  | some error => .error error
  | none =>
    .ok
      { lookups
        wellFormed := fun lookup hl =>
          Lookup.fault?_eq_none_iff.1 (List.findSome?_eq_none_iff.1 h lookup hl) }

/-- The checked list of lookups that are known to have no fault. -/
def ofFaultless (lookups : List Lookup)
    (faultless : ∀ lookup ∈ lookups, lookup.fault? lookups.length = none) : LookupList where
  lookups
  wellFormed lookup hl := Lookup.fault?_eq_none_iff.1 (faultless lookup hl)

theorem ofLookups_eq_ok {lookups : List Lookup}
    (faultless : ∀ lookup ∈ lookups, lookup.fault? lookups.length = none) :
    ofLookups lookups = .ok (ofFaultless lookups faultless) := by
  unfold ofLookups
  split
  · next error h =>
    rw [List.findSome?_eq_none_iff.2 faultless] at h
    nomatch h
  · rfl

/-- Checking lookups changes none of them. -/
theorem lookups_of_ofLookups {lookups : List Lookup} {list : LookupList}
    (h : ofLookups lookups = .ok list) : list.lookups = lookups := by
  unfold ofLookups at h
  split at h
  · nomatch h
  · rw [← Except.ok.inj h]

/-- The list with another limit, which is lowered to the greatest one allowed. -/
def withRecursionLimit (list : LookupList) (limit : Nat) : LookupList :=
  { list with
    recursionLimit := min limit maxRecursionLimit
    recursionLimit_le := Nat.min_le_right _ _ }

/-- The lookup of this number. -/
def lookup (list : LookupList) (k : Nat) : Except ShapingError Lookup :=
  match list.lookups[k]? with
  | some lookup => .ok lookup
  | none => .error .badIndex

/-- The number of lookups. -/
def length (list : LookupList) : Nat := list.lookups.length

theorem lookup_eq_ok_iff {list : LookupList} {k : Nat} {lookup : Lookup} :
    list.lookup k = .ok lookup ↔ list.lookups[k]? = some lookup := by
  unfold LookupList.lookup
  split <;> simp_all

theorem lookup_eq_error_iff {list : LookupList} {k : Nat} {e : ShapingError} :
    list.lookup k = .error e ↔ e = .badIndex ∧ list.length ≤ k := by
  unfold LookupList.lookup length
  split
  · next h =>
    have := (List.getElem?_eq_some_iff.1 h).1
    simp
    omega
  · next h => simp_all [eq_comm]

@[simp] theorem recursionLimit_withRecursionLimit (list : LookupList) (limit : Nat) :
    (list.withRecursionLimit limit).recursionLimit = min limit maxRecursionLimit := rfl

end LookupList

end GlyphSubstitution
