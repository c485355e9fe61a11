import GlyphSubstitution.Proofs.Precedence

/-!
# Which tables are accepted

Tables are checked where they are built, first each contextual subtable and then the list of all
lookups.  A contextual subtable is accepted exactly if every record of its rules addresses a glyph
of the rule's input.  A list is accepted exactly if every rule that was given for a contextual
lookup is of the kind that the lookup is to hold, and every record names a lookup of the list; else
the first lookup with a fault tells the error (`SourcedLookup.cause_of_fault`).

A subtable keeps its rules by start glyph, and in which order it keeps the start glyphs settles
which of several faults of a lookup is found first.  So nothing is supposed here about that order
(`ContextSubtable.HoldsRulesOf`).  What is accepted does not depend on it, nor which lookup is at
fault, and the error does not unless that lookup has faults of both kinds
(`LookupList.ofLookups_eq_error_of_isFirst`).  `acceptance_is_exact` puts the two checks together
and says what they are good for: what a rule that is selected asks for can always be carried out.
-/

namespace GlyphSubstitution

/-! ## Rules of subtables -/

namespace ContextSubtable

/-- The subtable holds for each start glyph the rules that are given for it, those of repeated pairs
one after the other.  In which order it keeps the start glyphs is not said. -/
def HoldsRulesOf (table : ContextSubtable) (pairs : List (GlyphId × List ContextRule)) : Prop :=
  ∀ g, table.rulesFor g = (pairs.filter (·.1 == g)).flatMap (·.2)

variable {table : ContextSubtable} {pairs : List (GlyphId × List ContextRule)}

theorem ofRules_eq_error {e : ShapingError} (h : ofRules pairs = .error e) : e = .badIndex := by
  unfold ofRules at h
  split at h
  · cases h
  · exact (Except.error.inj h).symm

/-- A record addresses the input if its number is at most that of the glyphs after the start
glyph. -/
theorem addressesInput_iff {rule : ContextRule} :
    rule.AddressesInput ↔
      ∀ record ∈ rule.records, record.sequenceIndex.toNat ≤ rule.input.length :=
  forall₂_congr fun _ _ => Nat.lt_succ_iff

theorem HoldsRulesOf.mem_allRules_iff (h : table.HoldsRulesOf pairs) {rule : ContextRule} :
    rule ∈ table.allRules ↔ ∃ pair ∈ pairs, rule ∈ pair.2 := by
  simp only [ContextSubtable.mem_allRules_iff, h _, List.mem_flatMap, List.mem_filter]
  constructor
  · rintro ⟨g, pair, ⟨hpair, -⟩, hrule⟩
    exact ⟨pair, hpair, hrule⟩
  · rintro ⟨pair, hpair, hrule⟩
    exact ⟨pair.1, pair, ⟨hpair, beq_self_eq_true _⟩, hrule⟩

end ContextSubtable

theorem exists_mem_rulesInOrder_iff {sources : List (List (GlyphId × List ContextRule))}
    {rule : ContextRule} :
    (∃ g, (g, rule) ∈ rulesInOrder sources) ↔
      ∃ pairs ∈ sources, ∃ pair ∈ pairs, rule ∈ pair.2 := by
  simp only [rulesInOrder, List.mem_flatMap, List.mem_map, Prod.mk.injEq]
  constructor
  · rintro ⟨g, pairs, hpairs, pair, hpair, rule, hrule, -, rfl⟩
    exact ⟨pairs, hpairs, pair, hpair, hrule⟩
  · rintro ⟨pairs, hpairs, pair, hpair, hrule⟩
    exact ⟨pair.1, pairs, hpairs, pair, hpair, rule, hrule, rfl, rfl⟩

/-- The rules that were given are those of the subtables. -/
theorem exists_mem_rulesInOrder_iff_allRules {tables : List ContextSubtable}
    {sources : List (List (GlyphId × List ContextRule))}
    (h : List.Forall₂ ContextSubtable.HoldsRulesOf tables sources) {rule : ContextRule} :
    (∃ g, (g, rule) ∈ rulesInOrder sources) ↔ ∃ table ∈ tables, rule ∈ table.allRules := by
  rw [exists_mem_rulesInOrder_iff]
  induction h with
  | nil => simp
  | cons htable _ ih =>
    rw [List.exists_mem_cons_iff, List.exists_mem_cons_iff, ih, htable.mem_allRules_iff]

/-! ## Faults of lookups -/

namespace ContextRule

/-- What the fault of a rule says about it. -/
theorem fault?_eq_some_iff {rule : ContextRule} {kind : RuleKind} {count : Nat}
    {e : ShapingError} :
    rule.fault? kind count = some e ↔
      e = .badValue ∧ rule.kind ≠ kind ∨
        e = .badIndex ∧ rule.kind = kind ∧ ¬ rule.NamesLookups count := by
  unfold fault?
  split
  case isTrue hkind => simp [hkind, eq_comm]
  case isFalse hkind =>
    have hkind := Decidable.not_not.1 hkind
    split <;> simp_all [eq_comm]

end ContextRule

namespace Lookup

/-- The kind of rules that the lookup is to hold, if it is contextual. -/
def ruleKind? (lookup : Lookup) : Option RuleKind :=
  match lookup.subtables with
  | .contextual kind _ => some kind
  | _ => none

variable {lookup : Lookup} {count : Nat}

theorem wellFormed_iff_ruleKind? :
    lookup.WellFormed count ↔ ∀ table ∈ lookup.contextTables, ∀ rule ∈ table.allRules,
      lookup.ruleKind? = some rule.kind ∧ rule.NamesLookups count := by
  obtain ⟨flag, subtables⟩ := lookup
  cases subtables with
  | contextual kind tables => simp [WellFormed, contextTables, ruleKind?, eq_comm]
  | _ => simp [WellFormed, contextTables]

/-- The fault of a lookup is that of one of its rules. -/
theorem exists_rule_of_fault? {e : ShapingError} (h : lookup.fault? count = some e) :
    ∃ table ∈ lookup.contextTables, ∃ rule ∈ table.allRules,
      e = .badValue ∧ lookup.ruleKind? ≠ some rule.kind ∨
        e = .badIndex ∧ lookup.ruleKind? = some rule.kind ∧ ¬ rule.NamesLookups count := by
  obtain ⟨flag, subtables⟩ := lookup
  cases subtables with
  | contextual kind tables =>
    obtain ⟨rule, hrule, hfault⟩ := List.exists_of_findSome?_eq_some h
    obtain ⟨table, htable, hmem⟩ := List.mem_flatMap.1 hrule
    refine ⟨table, htable, rule, hmem, ?_⟩
    simpa [ruleKind?, eq_comm] using ContextRule.fault?_eq_some_iff.1 hfault
  | _ => cases h

end Lookup

/-- A lookup with what it was made from: for each of its contextual subtables, the rules by their
start glyphs. -/
structure SourcedLookup where
  lookup : Lookup
  sources : List (List (GlyphId × List ContextRule))
  holds : List.Forall₂ ContextSubtable.HoldsRulesOf lookup.contextTables sources

namespace SourcedLookup

/-- A rule was given of another kind than that which the lookup is to hold. -/
def HasWrongKind (given : SourcedLookup) : Prop :=
  ∃ entry ∈ rulesInOrder given.sources, given.lookup.ruleKind? ≠ some entry.2.kind

/-- A rule of the right kind was given with a record that names none of `count` lookups. -/
def HasLostRecord (given : SourcedLookup) (count : Nat) : Prop :=
  ∃ entry ∈ rulesInOrder given.sources, given.lookup.ruleKind? = some entry.2.kind ∧
    ∃ record ∈ entry.2.records, count ≤ record.lookupIndex.toNat

/-- The lookup cannot stand among `count` lookups. -/
def Faulty (given : SourcedLookup) (count : Nat) : Prop :=
  given.HasWrongKind ∨ given.HasLostRecord count

variable {given : SourcedLookup} {count : Nat}

/-- A lookup without a fault was given rules of its kind only, whose records name lookups. -/
theorem not_faulty_iff :
    ¬ given.Faulty count ↔
      ∀ entry ∈ rulesInOrder given.sources, given.lookup.ruleKind? = some entry.2.kind ∧
        ∀ record ∈ entry.2.records, record.lookupIndex.toNat < count := by
  simp only [Faulty, HasWrongKind, HasLostRecord, not_or, not_exists, not_and, not_not, not_le]
  constructor
  · rintro ⟨hkind, hrecords⟩ entry hentry
    exact ⟨hkind entry hentry, hrecords entry hentry (hkind entry hentry)⟩
  · intro h
    exact ⟨fun entry hentry => (h entry hentry).1, fun entry hentry _ => (h entry hentry).2⟩

/-- The lookup is well formed exactly if nothing is wrong with the rules that were given for it. -/
theorem wellFormed_iff : given.lookup.WellFormed count ↔ ¬ given.Faulty count := by
  rw [Lookup.wellFormed_iff_ruleKind?, not_faulty_iff]
  constructor
  · rintro h ⟨g, rule⟩ hentry
    obtain ⟨table, htable, hrule⟩ :=
      (exists_mem_rulesInOrder_iff_allRules given.holds).1 ⟨g, hentry⟩
    exact h table htable rule hrule
  · intro h table htable rule hrule
    obtain ⟨g, hentry⟩ :=
      (exists_mem_rulesInOrder_iff_allRules given.holds).2 ⟨table, htable, hrule⟩
    exact h (g, rule) hentry

theorem fault?_eq_none_iff_not_faulty : given.lookup.fault? count = none ↔ ¬ given.Faulty count :=
  Lookup.fault?_eq_none_iff.trans wellFormed_iff

/-- What is found to be wrong with a lookup is wrong with a rule that was given for it. -/
theorem cause_of_fault {e : ShapingError} (h : given.lookup.fault? count = some e) :
    e = .badValue ∧ given.HasWrongKind ∨ e = .badIndex ∧ given.HasLostRecord count := by
  obtain ⟨table, htable, rule, hrule, hcause⟩ := Lookup.exists_rule_of_fault? h
  obtain ⟨g, hentry⟩ := (exists_mem_rulesInOrder_iff_allRules given.holds).2 ⟨table, htable, hrule⟩
  rcases hcause with ⟨he, hkind⟩ | ⟨he, hkind, hlost⟩
  · exact Or.inl ⟨he, (g, rule), hentry, hkind⟩
  · simp only [ContextRule.NamesLookups, not_forall, not_lt] at hlost
    obtain ⟨record, hrecord, hle⟩ := hlost
    exact Or.inr ⟨he, (g, rule), hentry, hkind, record, hrecord, hle⟩

end SourcedLookup

namespace LookupList

/-- Lookups are refused for the first of them that is faulty, with the fault that it is found to
have. -/
theorem ofLookups_eq_error_iff {givens : List SourcedLookup} {e : ShapingError} :
    ofLookups (givens.map (·.lookup)) = .error e ↔
      ∃ given, IsFirst (·.Faulty givens.length) givens given ∧
        given.lookup.fault? givens.length = some e := by
  rw [← findSome?_eq_some_iff_isFirst fun given => given.fault?_eq_none_iff_not_faulty]
  constructor
  · intro h
    rcases ofLookups_cases (givens.map (·.lookup)) with ⟨e', hfault, herror⟩ | ⟨list, -, hok, -⟩
    · obtain rfl := Except.error.inj (h.symm.trans herror)
      rwa [List.findSome?_map, List.length_map] at hfault
    · cases h.symm.trans hok
  · intro h
    refine ofLookups_eq_error ?_
    rwa [List.findSome?_map, List.length_map]

/-- The error names a fault that the first faulty lookup has. -/
theorem exists_isFirst_of_ofLookups_error {givens : List SourcedLookup} {e : ShapingError}
    (h : ofLookups (givens.map (·.lookup)) = .error e) :
    ∃ given, IsFirst (·.Faulty givens.length) givens given ∧
      (e = .badValue ∧ given.HasWrongKind ∨
        e = .badIndex ∧ given.HasLostRecord givens.length) := by
  obtain ⟨given, hfirst, hfault⟩ := ofLookups_eq_error_iff.1 h
  exact ⟨given, hfirst, SourcedLookup.cause_of_fault hfault⟩

/-- Where the first faulty lookup has faults of one kind only, the rules that were given settle the
error, in whatever order subtables keep their start glyphs. -/
theorem ofLookups_eq_error_of_isFirst {givens : List SourcedLookup} {given : SourcedLookup}
    (hfirst : IsFirst (·.Faulty givens.length) givens given) :
    (¬ given.HasLostRecord givens.length →
        ofLookups (givens.map (·.lookup)) = .error .badValue) ∧
      (¬ given.HasWrongKind → ofLookups (givens.map (·.lookup)) = .error .badIndex) := by
  obtain ⟨e, hfault⟩ : ∃ e, given.lookup.fault? givens.length = some e :=
    Option.ne_none_iff_exists'.1 fun hnone =>
      SourcedLookup.fault?_eq_none_iff_not_faulty.1 hnone hfirst.holds
  have herror := ofLookups_eq_error_iff.2 ⟨given, hfirst, hfault⟩
  rcases SourcedLookup.cause_of_fault hfault with ⟨rfl, hkind⟩ | ⟨rfl, hlost⟩
  · exact ⟨fun _ => herror, fun hnot => absurd hkind hnot⟩
  · exact ⟨fun hnot => absurd hlost hnot, fun _ => herror⟩

/-- With a rule of the wrong kind for a 4 and a record that names no lookup in a rule for a 5, the
order of the two glyphs does make a difference. -/
example :
    Lookup.fault? ⟨{}, .contextual .simple
        [⟨.gather [(4, [.chaining [] [] [] []]), (5, [.simple [] [⟨0, 1⟩]])], by decide⟩]⟩ 1 =
          some .badValue ∧
      Lookup.fault? ⟨{}, .contextual .simple
        [⟨.gather [(5, [.simple [] [⟨0, 1⟩]]), (4, [.chaining [] [] [] []])], by decide⟩]⟩ 1 =
          some .badIndex := by
  decide

/-- What the records of a selected rule ask for can be carried out: they address glyphs that were
matched, and name lookups of the list. -/
theorem exists_position_of_selectRule? {list : LookupList} {k : Nat} {lookup : Lookup}
    (hlookup : list.lookup k = .ok lookup) {f : GlyphFilter} {gids : List GlyphId} {i : Nat}
    {found : RuleMatch} (h : selectRule? lookup.contextTables f gids i = some found)
    {record : SequenceLookup} (hrecord : record ∈ found.records) :
    (∃ p, found.context.positions[record.sequenceIndex.toNat]? = some p ∧ p < gids.length) ∧
      ∃ target, list.lookup record.lookupIndex.toNat = .ok target := by
  obtain ⟨table, htable, rule, hrule, hmatch, hrecords⟩ := exists_rule_of_selectRule? h
  rw [← hrecords] at hrecord
  constructor
  · have hlt : record.sequenceIndex.toNat < found.context.positions.length := by
      rw [ContextPattern.length_positions_of_match? hmatch]
      exact ContextSubtable.addressesInput_of_mem hrule record hrecord
    exact ⟨_, List.getElem?_eq_getElem hlt,
      ContextPattern.lt_length_of_mem_positions hmatch (List.getElem_mem hlt)⟩
  · have hnamed := mem_named_of_record (lookup_eq_ok_iff.1 hlookup) htable hrule hrecord
    have hlt : record.lookupIndex.toNat < list.lookups.length := lt_length_of_mem_named hnamed
    exact ⟨_, lookup_eq_ok_iff.2 (List.getElem?_eq_getElem hlt)⟩

end LookupList

/-- What is accepted.  Rules by their start glyphs make up a subtable exactly if each record's
number is at most that of the glyphs after the start glyph, and otherwise there is a bad index.
Lookups whose subtables hold rules so given make up a list exactly if each rule is of the kind that
its lookup is to hold and each record names one of the lookups; otherwise the first lookup for which
that is not so is the cause of the error, a bad value only if it has a rule of the wrong kind, and a
bad index only if it has one of the right kind with a record that names no lookup.  So whenever a
rule is selected by a lookup of a list, its records address glyphs that were matched and name
lookups of the list. -/
theorem acceptance_is_exact :
    (∀ pairs : List (GlyphId × List ContextRule),
        ((∃ table, ContextSubtable.ofRules pairs = .ok table) ↔
          ∀ pair ∈ pairs, ∀ rule ∈ pair.2, ∀ record ∈ rule.records,
            record.sequenceIndex.toNat ≤ rule.input.length) ∧
        (∀ table, ContextSubtable.ofRules pairs = .ok table → table.HoldsRulesOf pairs) ∧
        ∀ e, ContextSubtable.ofRules pairs = .error e → e = .badIndex) ∧
      (∀ givens : List SourcedLookup,
        ((∃ list, LookupList.ofLookups (givens.map (·.lookup)) = .ok list) ↔
          ∀ given ∈ givens, ∀ entry ∈ rulesInOrder given.sources,
            given.lookup.ruleKind? = some entry.2.kind ∧
              ∀ record ∈ entry.2.records, record.lookupIndex.toNat < givens.length) ∧
        ∀ e, LookupList.ofLookups (givens.map (·.lookup)) = .error e →
          ∃ given, IsFirst (·.Faulty givens.length) givens given ∧
            (e = .badValue ∧ given.HasWrongKind ∨
              e = .badIndex ∧ given.HasLostRecord givens.length)) ∧
      ∀ (list : LookupList) k lookup, list.lookup k = .ok lookup → ∀ f gids i found,
        selectRule? lookup.contextTables f gids i = some found → ∀ record ∈ found.records,
          (∃ p, found.context.positions[record.sequenceIndex.toNat]? = some p ∧
            p < gids.length) ∧
          ∃ target, list.lookup record.lookupIndex.toNat = .ok target := by
  refine ⟨fun pairs => ⟨?_, fun table h => ContextSubtable.rulesFor_of_ofRules h,
    fun e h => ContextSubtable.ofRules_eq_error h⟩, fun givens => ⟨?_, fun e h =>
      LookupList.exists_isFirst_of_ofLookups_error h⟩, fun list k lookup hlookup f gids i found h
        record hrecord => LookupList.exists_position_of_selectRule? hlookup h hrecord⟩
  · rw [ContextSubtable.ofRules_eq_ok_iff]
    simp only [ContextSubtable.addressesInput_iff]
  · rw [LookupList.ofLookups_eq_ok_iff, List.length_map, List.forall_mem_map]
    exact forall₂_congr fun given _ =>
      SourcedLookup.wellFormed_iff.trans SourcedLookup.not_faulty_iff

/-- Rules for a 4, in two pairs with an empty one for a 6 between them. -/
def scattered : List (GlyphId × List ContextRule) :=
  [(4, [.simple [5] [⟨1, 1⟩]]), (6, []), (4, [.simple [] [⟨0, 2⟩]])]

/-- The subtable with these rules. -/
def scatteredTable : ContextSubtable := ⟨Coverage.gather scattered, by decide⟩

/-- A lookup that is to hold rules of this kind, with these rules. -/
def scatteredLookup (kind : RuleKind) : SourcedLookup where
  lookup := ⟨{}, .contextual kind [scatteredTable]⟩
  sources := [scattered]
  holds := .cons (ContextSubtable.rulesFor_of_ofRules rfl) .nil

/-- A lookup that makes a 5 a 50. -/
def plainLookup : SourcedLookup where
  lookup := ⟨{}, .single [Coverage.ofList [(5, 50)]]⟩
  sources := []
  holds := .nil

/-- The list of three lookups in which the first holds these rules. -/
def scatteredList : LookupList :=
  .ofFaultless [(scatteredLookup .simple).lookup, plainLookup.lookup, plainLookup.lookup]
    (by decide)

/-- The rules are accepted, but not one whose record goes beyond its input.  Before two lookups that
they name, a lookup with these rules is accepted, and what they ask for after a match can be carried
out.  Where a record names the third of two lookups there is a bad index, although the other lookup
is to hold rules of another kind; and this is the fault of the first lookup. -/
theorem scattered_acceptance :
    (∃ table, ContextSubtable.ofRules scattered = .ok table ∧ table.HoldsRulesOf scattered) ∧
      (∃ e, ContextSubtable.ofRules [(4, [.simple [5] [⟨2, 1⟩]])] = .error e ∧ e = .badIndex) ∧
      (∃ given, LookupList.ofLookups
          ([scatteredLookup .simple, scatteredLookup .chaining].map (·.lookup)) =
            .error .badIndex ∧
        IsFirst (·.Faulty 2) [scatteredLookup .simple, scatteredLookup .chaining] given ∧
        given.HasLostRecord 2) ∧
      scatteredList.lookup 0 = .ok (scatteredLookup .simple).lookup ∧
      selectRule? [scatteredTable] ⟨fun _ => true⟩ [4, 5] 0 = some ⟨⟨0, [1]⟩, [⟨1, 1⟩]⟩ ∧
      ∃ p target, [0, 1][1]? = some p ∧ p < 2 ∧ scatteredList.lookup 1 = .ok target := by
  obtain ⟨hrules, hlookups, hcarried⟩ := acceptance_is_exact
  have htable : ContextSubtable.ofRules scattered = .ok scatteredTable := rfl
  have hbeyond : ContextSubtable.ofRules [(4, [.simple [5] [⟨2, 1⟩]])] = .error .badIndex := rfl
  have hlost : LookupList.ofLookups
      ([scatteredLookup .simple, scatteredLookup .chaining].map (·.lookup)) = .error .badIndex :=
    LookupList.ofLookups_eq_error rfl
  obtain ⟨given, hfirst, hcause⟩ := (hlookups _).2 .badIndex hlost
  have hrecord : given.HasLostRecord 2 := by
    rcases hcause with ⟨he, -⟩ | ⟨-, hrecord⟩
    · cases he
    · exact hrecord
  have hlookup : scatteredList.lookup 0 = .ok (scatteredLookup .simple).lookup := rfl
  have hselected : selectRule? [scatteredTable] ⟨fun _ => true⟩ [4, 5] 0 =
      some ⟨⟨0, [1]⟩, [⟨1, 1⟩]⟩ := by decide
  obtain ⟨⟨p, hp, hlt⟩, target, htarget⟩ :=
    hcarried scatteredList 0 _ hlookup _ _ _ _ hselected ⟨1, 1⟩ (List.mem_singleton.2 rfl)
  exact ⟨⟨_, htable, (hrules scattered).2.1 _ htable⟩, ⟨_, hbeyond, (hrules _).2.2 _ hbeyond⟩,
    ⟨given, hlost, hfirst, hrecord⟩, hlookup, hselected, p, target, hp, hlt, htarget⟩

end GlyphSubstitution
