import GlyphSubstitution.Proofs.EquivalentLists

/-!
# Simple rules as chaining rules

A simple rule asks for its input and for nothing around it.  A chaining rule whose backtrack and
lookahead are empty asks for the same, so it is met at the same positions, with the same match
(`ContextRule.match?_chained`).  `Lookup.chained` takes a lookup with simple rules to one with
chaining rules of this kind, and leaves lookups of other kinds as they are.

A list of lookups is accepted exactly if the list of these is, for the kind of the rules changes
together with the kind that the lookup asks for, and the records stay.  The two lists then act alike
(`chained_acts_alike`).
-/

namespace GlyphSubstitution

universe u v w

/-! ## Values of a coverage -/

namespace Coverage

variable {β : Type v} {γ : Type w}

/-- The coverage of the same glyphs with each value passed through a function. -/
def mapValues (f : β → γ) (c : Coverage β) : Coverage γ where
  entries := c.entries.map fun entry => (entry.1, f entry.2)
  nodup := by
    rw [List.map_map]
    exact c.nodup

theorem get?_mapValues (f : β → γ) (c : Coverage β) (g : GlyphId) :
    (c.mapValues f).get? g = (c.get? g).map f := by
  obtain ⟨entries, hnodup⟩ := c
  simp only [get?, mapValues]
  clear hnodup
  induction entries with
  | nil => rfl
  | cons entry rest ih =>
    rw [List.map_cons, lookup_cons_eq_ite, lookup_cons_eq_ite, ih]
    split <;> rfl

end Coverage

/-! ## Rules -/

namespace ContextRule

/-- The rule as a chaining rule: what it does not ask for becomes an empty sequence. -/
def chained (rule : ContextRule) : ContextRule :=
  .chaining (rule.backtrack.getD []) rule.input (rule.lookahead.getD []) rule.records

@[simp] theorem kind_chained (rule : ContextRule) : rule.chained.kind = .chaining := rfl

/-- The records stay, so the rule is as well formed as it was, for a lookup of the other kind. -/
theorem fault?_chained (rule : ContextRule) (count : Nat) :
    rule.chained.fault? .chaining count = rule.fault? rule.kind count := by
  unfold fault?
  rw [if_neg (not_not_intro rule.kind_chained), if_neg (not_not_intro rfl)]
  rfl

/-- The context is met at the same positions, and in the same way. -/
theorem match?_chained (rule : ContextRule) (f : GlyphFilter) (gids : List GlyphId) (i : Nat) :
    rule.chained.match? f gids i = rule.match? f gids i := by
  cases rule <;> rfl

end ContextRule

/-! ## Subtables -/

namespace ContextSubtable

/-- The subtable with chaining rules in the place of its rules. -/
def chained (table : ContextSubtable) : ContextSubtable where
  rules := table.rules.mapValues (·.map ContextRule.chained)
  addressesInput := by
    intro entry hentry rule hrule
    obtain ⟨old, hold, rfl⟩ := List.mem_map.1 hentry
    obtain ⟨simple, hsimple, rfl⟩ := List.mem_map.1 hrule
    exact table.addressesInput old hold simple hsimple

theorem rulesFor_chained (table : ContextSubtable) (g : GlyphId) :
    table.chained.rulesFor g = (table.rulesFor g).map ContextRule.chained := by
  rw [rulesFor, rulesFor, chained, Coverage.get?_mapValues]
  cases table.rules.get? g <;> rfl

theorem allRules_chained (table : ContextSubtable) :
    table.chained.allRules = table.allRules.map ContextRule.chained := by
  simp only [allRules, chained, Coverage.mapValues, List.flatMap_map, List.map_flatMap]

end ContextSubtable

theorem selectAlike_chained (tables : List ContextSubtable) :
    SelectAlike tables (tables.map (·.chained)) := by
  intro f gids i
  have hcandidates : ∀ g, candidateRules (tables.map (·.chained)) g =
      (candidateRules tables g).map ContextRule.chained := by
    intro g
    simp only [candidateRules, List.flatMap_map, List.map_flatMap,
      ContextSubtable.rulesFor_chained]
  have hmatch : ((·.match? f gids i) ∘ ContextRule.chained : ContextRule → Option RuleMatch) =
      (·.match? f gids i) := funext fun rule => rule.match?_chained f gids i
  unfold selectRule?
  congr 1
  funext g
  rw [hcandidates, List.findSome?_map, hmatch]

/-! ## Lookups -/

namespace Lookup

/-- Whether the lookup is contextual, is to hold simple rules, and does so. -/
def isSimple (lookup : Lookup) : Bool :=
  match lookup.subtables with
  | .contextual .simple tables => (tables.flatMap (·.allRules)).all (·.kind == .simple)
  | _ => false

/-- The lookup with chaining rules in the place of its rules, if these are simple. -/
def chained (lookup : Lookup) : Lookup :=
  if lookup.isSimple then
    ⟨lookup.flag, .contextual .chaining (lookup.contextTables.map (·.chained))⟩
  else lookup

theorem actsLike_chained (lookup : Lookup) : lookup.ActsLike lookup.chained := by
  unfold chained
  split
  case isFalse => exact .same lookup
  case isTrue hsimple =>
    obtain ⟨flag, subtables⟩ := lookup
    cases subtables with
    | contextual kind tables => exact .contextual (selectAlike_chained tables)
    | _ => nomatch hsimple

/-- The rules change kind together with the lookup, so it has the fault that it had. -/
theorem fault?_chained (lookup : Lookup) (count : Nat) :
    lookup.chained.fault? count = lookup.fault? count := by
  unfold chained
  split
  case isFalse => rfl
  case isTrue hsimple =>
    obtain ⟨flag, subtables⟩ := lookup
    cases subtables with
    | contextual kind tables =>
      cases kind with
      | simple =>
        have hrules : (tables.map (·.chained)).flatMap (·.allRules) =
            (tables.flatMap (·.allRules)).map ContextRule.chained := by
          simp only [List.flatMap_map, List.map_flatMap, ContextSubtable.allRules_chained]
        simp only [fault?, contextTables]
        rw [hrules, List.findSome?_map]
        refine findSome?_congr fun rule hrule => ?_
        have hkind : rule.kind = .simple :=
          of_decide_eq_true (List.all_eq_true.1 hsimple rule hrule)
        rw [Function.comp_apply, rule.fault?_chained, hkind]
      | chaining => exact absurd hsimple Bool.false_ne_true
    | _ => exact absurd hsimple Bool.false_ne_true

end Lookup

/-! ## Lists -/

namespace LookupList

theorem ofLookups_eq_error {lookups : List Lookup} {e : ShapingError}
    (h : lookups.findSome? (·.fault? lookups.length) = some e) : ofLookups lookups = .error e := by
  unfold ofLookups
  split
  · next e' h' => rw [Option.some.inj (h'.symm.trans h)]
  · next h' => nomatch h'.symm.trans h

/-- Lookups with a fault are refused with it, all others make up a list. -/
theorem ofLookups_cases (lookups : List Lookup) :
    (∃ e, lookups.findSome? (·.fault? lookups.length) = some e ∧ ofLookups lookups = .error e) ∨
      ∃ list, lookups.findSome? (·.fault? lookups.length) = none ∧ ofLookups lookups = .ok list ∧
        list.lookups = lookups := by
  cases hfault : lookups.findSome? (·.fault? lookups.length) with
  | some e => exact Or.inl ⟨e, rfl, ofLookups_eq_error hfault⟩
  | none =>
    have hok := ofLookups_eq_ok (List.findSome?_eq_none_iff.1 hfault)
    exact Or.inr ⟨_, rfl, hok, lookups_of_ofLookups hok⟩

theorem actsLike_chained {lookups : List Lookup}
    (faultless : ∀ lookup ∈ lookups, lookup.fault? lookups.length = none)
    (faultless' : ∀ lookup ∈ lookups.map (·.chained),
      lookup.fault? (lookups.map (·.chained)).length = none) :
    (ofFaultless lookups faultless).ActsLike (ofFaultless _ faultless') where
  lookups k := by
    simp only [ofFaultless, List.getElem?_map]
    cases lookups[k]? with
    | none => exact .none
    | some lookup => exact .some lookup.actsLike_chained
  limit := rfl

/-- A list of lookups is accepted with chaining rules in the place of simple ones exactly if it is
as it stands, and refused with the same error otherwise.  If it is accepted, then with any recursion
limit the dry runs, nested calls and passes come to the same in both forms. -/
theorem chained_acts_alike {α : Type u} [Payload α] (lookups : List Lookup) :
    match ofLookups lookups, ofLookups (lookups.map (·.chained)) with
    | .error e, .error e' => e' = e
    | .ok list, .ok list' => ∀ bound skip k,
        (∀ gids i, (list'.withRecursionLimit bound).wouldApply skip k gids i =
          (list.withRecursionLimit bound).wouldApply skip k gids i) ∧
        (∀ limit (run : Run α) i,
          (list'.withRecursionLimit bound).applyNested skip limit k run i =
            (list.withRecursionLimit bound).applyNested skip limit k run i) ∧
        ∀ budget (run : Run α), (list'.withRecursionLimit bound).applyLookup skip budget k run =
          (list.withRecursionLimit bound).applyLookup skip budget k run
    | _, _ => False := by
  have hfaults : (lookups.map (·.chained)).findSome?
      (·.fault? (lookups.map (·.chained)).length) =
        lookups.findSome? (·.fault? lookups.length) := by
    rw [List.findSome?_map, List.length_map]
    exact congrArg (lookups.findSome? ·) (funext fun lookup => lookup.fault?_chained _)
  cases hfault : lookups.findSome? (·.fault? lookups.length) with
  | some e => rw [ofLookups_eq_error hfault, ofLookups_eq_error (hfaults.trans hfault)]
  | none =>
    have faultless := List.findSome?_eq_none_iff.1 hfault
    have faultless' := List.findSome?_eq_none_iff.1 (hfaults.trans hfault)
    rw [ofLookups_eq_ok faultless, ofLookups_eq_ok faultless']
    intro bound skip k
    have hlike := (actsLike_chained faultless faultless').withRecursionLimit bound
    exact ⟨hlike.wouldApply_eq skip k, fun limit => hlike.applyNested_eq skip limit k,
      fun budget => hlike.applyLookup_eq skip budget k⟩

end LookupList

end GlyphSubstitution
