import GlyphSubstitution.Proofs.Precedence

/-!
# Shadowed rules

A rule asks for glyphs before its start glyph and for glyphs after it; where its input ends and its
lookahead begins does not matter for where it applies.  So a rule that asks for no more than another
one (`ContextRule.Shadows`) is met wherever the other is.  If it is tried before the other under the
same start glyph, then the other is never selected, and subtables without it select the same match
everywhere (`LacksRule.selectAlike`).

As it is only what they select that contextual subtables contribute, the shadowed rule can be left
out of a lookup, which changes no answer of the list that has it (`shadowed_rule_is_dead`).
-/

namespace GlyphSubstitution

universe u v w

/-! ## Contexts that ask for less -/

theorem Spells.of_isPrefix {gids u v : List GlyphId} {positions : List Nat} (huv : u <+: v)
    (h : Spells gids v positions) : Spells gids u positions := by
  obtain ⟨rest, rfl⟩ := huv
  exact (spells_append.1 h).1

namespace ContextRule

/-- The rule asks for the first of the glyphs that the other one asks for, going away from the start
glyph on either side.  What the one takes for its input the other may take for its lookahead. -/
def Shadows (rule shadowed : ContextRule) : Prop :=
  rule.backtrack.getD [] <+: shadowed.backtrack.getD [] ∧
    rule.input ++ rule.lookahead.getD [] <+: shadowed.input ++ shadowed.lookahead.getD []

instance (rule shadowed : ContextRule) : Decidable (rule.Shadows shadowed) :=
  inferInstanceAs (Decidable (_ ∧ _))

variable {rule shadowed : ContextRule} {f : GlyphFilter} {gids : List GlyphId} {i : Nat}

theorem Shadows.metAt (h : rule.Shadows shadowed) (hmet : shadowed.pattern.MetAt f gids i) :
    rule.pattern.MetAt f gids i := by
  obtain ⟨hi, hback, hahead⟩ := hmet
  exact ⟨hi, hback.of_isPrefix h.1, hahead.of_isPrefix h.2⟩

/-- Wherever the shadowed rule is met, the other one is. -/
theorem Shadows.match?_ne_none (h : rule.Shadows shadowed)
    (hmatch : shadowed.match? f gids i ≠ none) : rule.match? f gids i ≠ none := by
  obtain ⟨found, hfound⟩ := Option.ne_none_iff_exists'.1 hmatch
  have hmet := (match?_eq_some_iff.1 hfound).1
  exact Option.ne_none_iff_exists'.2 ⟨_, match?_eq_some_iff.2 ⟨h.metAt hmet, rfl⟩⟩

end ContextRule

/-- A search comes to the same without an entry that it succeeds at only if it has succeeded
before. -/
theorem findSome?_of_shadowed {β : Type v} {γ : Type w} {f : β → Option γ} {x y : β}
    (h : f y ≠ none → f x ≠ none) (before between after : List β) :
    (before ++ x :: (between ++ after)).findSome? f =
      (before ++ x :: (between ++ y :: after)).findSome? f := by
  cases hx : f x with
  | some z => simp [hx]
  | none =>
    have hy : f y = none := Decidable.not_not.1 fun hy => h hy hx
    simp [hx, hy]

/-! ## Subtables without a rule -/

/-- The rules of `tables` for `g` are those of `kept`, then `rule`, then those of `after`; `tables'`
has them all but `rule`, and the same rules as `tables` for other glyphs.  How the rules are
distributed over the subtables is not said. -/
structure LacksRule (tables : List ContextSubtable) (g : GlyphId) (kept : List ContextRule)
    (rule : ContextRule) (after : List ContextRule) (tables' : List ContextSubtable) : Prop where
  had : candidateRules tables g = kept ++ rule :: after
  has : candidateRules tables' g = kept ++ after
  others : ∀ h, h ≠ g → candidateRules tables' h = candidateRules tables h

namespace ContextSubtable

/-- The subtable with these rules for the glyph in the place of those that it has. -/
def withRulesFor (table : ContextSubtable) (g : GlyphId) (rules : List ContextRule)
    (h : ∀ rule ∈ rules, rule.AddressesInput) : ContextSubtable where
  rules := table.rules.alter g fun _ => rules
  addressesInput := by
    intro entry hentry rule hrule
    have hget := Coverage.get?_eq_some_iff.2 hentry
    rw [Coverage.get?_alter] at hget
    split at hget
    · rw [← Option.some.inj hget] at hrule
      exact h rule hrule
    · exact table.addressesInput entry (Coverage.get?_eq_some_iff.1 hget) rule hrule

theorem rulesFor_withRulesFor (table : ContextSubtable) (g : GlyphId) (rules : List ContextRule)
    (h : ∀ rule ∈ rules, rule.AddressesInput) (k : GlyphId) :
    (table.withRulesFor g rules h).rulesFor k = if k = g then rules else table.rulesFor k := by
  rw [rulesFor, withRulesFor, Coverage.get?_alter]
  split <;> rfl

end ContextSubtable

theorem candidateRules_cons (table : ContextSubtable) (tables : List ContextSubtable)
    (g : GlyphId) :
    candidateRules (table :: tables) g = table.rulesFor g ++ candidateRules tables g := rfl

theorem mem_candidateRules_iff {tables : List ContextSubtable} {rule : ContextRule} :
    (∃ g, rule ∈ candidateRules tables g) ↔ ∃ table ∈ tables, rule ∈ table.allRules := by
  simp only [candidateRules, List.mem_flatMap, ContextSubtable.mem_allRules_iff]
  constructor
  · rintro ⟨g, table, htable, hrule⟩
    exact ⟨table, htable, g, hrule⟩
  · rintro ⟨table, htable, g, hrule⟩
    exact ⟨g, table, htable, hrule⟩

namespace LacksRule

variable {tables tables' : List ContextSubtable} {g : GlyphId} {kept after : List ContextRule}
  {rule : ContextRule}

theorem cons (h : LacksRule tables g kept rule after tables') (table : ContextSubtable) :
    LacksRule (table :: tables) g (table.rulesFor g ++ kept) rule after (table :: tables') where
  had := by rw [candidateRules_cons, h.had, List.append_assoc]
  has := by rw [candidateRules_cons, h.has, List.append_assoc]
  others k hk := by rw [candidateRules_cons, candidateRules_cons, h.others k hk]

/-- A rule can be left out of the first subtable if it stands there. -/
theorem of_head {table : ContextSubtable} {afterHere : List ContextRule}
    (h : table.rulesFor g = kept ++ rule :: afterHere) (tables : List ContextSubtable) :
    ∃ tables', LacksRule (table :: tables) g kept rule (afterHere ++ candidateRules tables g)
      tables' := by
  have haddresses : ∀ r ∈ kept ++ afterHere, r.AddressesInput := by
    intro r hr
    have hmem : r ∈ table.rulesFor g := by
      rw [h]
      exact ((List.sublist_cons_self rule afterHere).append_left kept).subset hr
    exact ContextSubtable.addressesInput_of_mem (ContextSubtable.mem_allRules_iff.2 ⟨g, hmem⟩)
  refine ⟨table.withRulesFor g (kept ++ afterHere) haddresses :: tables, ?_, ?_, ?_⟩
  · rw [candidateRules_cons, h, List.append_assoc, List.cons_append]
  · rw [candidateRules_cons, ContextSubtable.rulesFor_withRulesFor, if_pos rfl, List.append_assoc]
  · intro k hk
    rw [candidateRules_cons, candidateRules_cons, ContextSubtable.rulesFor_withRulesFor, if_neg hk]

/-- Every rule can be left out. -/
theorem exists_of_candidateRules (h : candidateRules tables g = kept ++ rule :: after) :
    ∃ tables', LacksRule tables g kept rule after tables' := by
  induction tables generalizing kept with
  | nil => simp [candidateRules] at h
  | cons table tables ih =>
    rw [candidateRules_cons, List.append_eq_append_iff] at h
    rcases h with ⟨kept', rfl, hrest⟩ | ⟨here, hhere, hrest⟩
    · obtain ⟨tables', hlacks⟩ := ih hrest
      exact ⟨_, hlacks.cons table⟩
    · cases here with
      | nil =>
        -- the rule is the first of those that the other subtables hold
        rw [List.append_nil] at hhere
        have hnext : candidateRules tables g = [] ++ rule :: after := hrest.symm
        obtain ⟨tables', hlacks⟩ := ih hnext
        have hcons := hlacks.cons table
        rw [hhere, List.append_nil] at hcons
        exact ⟨_, hcons⟩
      | cons first here =>
        obtain ⟨rfl, rfl⟩ := List.cons.inj hrest
        exact of_head hhere tables

/-- Rules that are given without one of them, in the same order, make up subtables that lack it. -/
theorem of_builtFrom {sources sources' : List (List (GlyphId × List ContextRule))}
    (hbuilt : BuiltFrom sources tables) (hbuilt' : BuiltFrom sources' tables')
    {earlier later : List (GlyphId × ContextRule)}
    (hgiven : rulesInOrder sources = earlier ++ (g, rule) :: later)
    (hgiven' : rulesInOrder sources' = earlier ++ later) :
    LacksRule tables g ((earlier.filter (·.1 == g)).map (·.2)) rule
      ((later.filter (·.1 == g)).map (·.2)) tables' where
  had := by rw [candidateRules_eq hbuilt, hgiven]; simp
  has := by rw [candidateRules_eq hbuilt', hgiven']; simp
  others k hk := by
    rw [candidateRules_eq hbuilt, candidateRules_eq hbuilt', hgiven, hgiven']
    simp [Ne.symm hk]

theorem mem_candidateRules (h : LacksRule tables g kept rule after tables') {r : ContextRule}
    {k : GlyphId} (hr : r ∈ candidateRules tables' k) : r ∈ candidateRules tables k := by
  by_cases hk : k = g
  · subst hk
    rw [h.has] at hr
    rw [h.had]
    exact ((List.sublist_cons_self rule after).append_left kept).subset hr
  · rwa [h.others k hk] at hr

/-- A lookup is no worse formed without the rule. -/
theorem wellFormed (h : LacksRule tables g kept rule after tables') {flag : LookupFlag}
    {kind : RuleKind} {count : Nat}
    (hformed : Lookup.WellFormed ⟨flag, .contextual kind tables⟩ count) :
    Lookup.WellFormed ⟨flag, .contextual kind tables'⟩ count := by
  intro table' htable' r hr
  obtain ⟨k, hk⟩ := mem_candidateRules_iff.2 ⟨table', htable', hr⟩
  obtain ⟨table, htable, hmem⟩ := mem_candidateRules_iff.1 ⟨k, h.mem_candidateRules hk⟩
  exact hformed table htable r hmem

/-- Without a shadowed rule the same match is selected everywhere. -/
theorem selectAlike {shadowing : ContextRule} {before between : List ContextRule}
    (h : LacksRule tables g (before ++ shadowing :: between) rule after tables')
    (hshadows : shadowing.Shadows rule) : SelectAlike tables tables' := by
  intro f gids i
  unfold selectRule?
  cases gids[i]? with
  | none => rfl
  | some k =>
    rw [Option.bind_some, Option.bind_some]
    by_cases hk : k = g
    · subst hk
      rw [h.had, h.has]
      simp only [List.append_assoc, List.cons_append]
      exact findSome?_of_shadowed hshadows.match?_ne_none before between after
    · rw [h.others k hk]

end LacksRule

/-! ## Lists without a shadowed rule -/

namespace LookupList

/-- A shadowed rule is dead.  Let `rule` stand before `shadowed` among the rules of a contextual
lookup for the start glyph `g`, in the same subtable or in an earlier one, and ask for no more.
Then it is met wherever the other is.  The other can be left out of the subtables; and whenever it
is, these select the same match everywhere, the list with them is accepted, and no lookup of it
comes to anything else in dry runs, nested calls and passes. -/
theorem shadowed_rule_is_dead (α : Type u) [Payload α] {list : LookupList} {k : Nat}
    {flag : LookupFlag} {kind : RuleKind} {tables : List ContextSubtable}
    (hk : list.lookups[k]? = some ⟨flag, .contextual kind tables⟩) {g : GlyphId}
    {before between after : List ContextRule} {rule shadowed : ContextRule}
    (hrules : candidateRules tables g = before ++ rule :: (between ++ shadowed :: after))
    (hshadows : rule.Shadows shadowed) :
    (∀ f gids i, (shadowed.pattern.match? f gids i).isSome = true →
        (rule.pattern.match? f gids i).isSome = true) ∧
      (∃ tables', LacksRule tables g (before ++ rule :: between) shadowed after tables') ∧
      ∀ tables', LacksRule tables g (before ++ rule :: between) shadowed after tables' →
        (∀ f gids i, selectRule? tables' f gids i = selectRule? tables f gids i) ∧
        ∃ list', ofLookups (list.lookups.set k ⟨flag, .contextual kind tables'⟩) = .ok list' ∧
          ∀ bound skip l,
            SameAnswers α (list.withRecursionLimit bound) (list'.withRecursionLimit bound) skip
              l := by
  have hsplit : candidateRules tables g = (before ++ rule :: between) ++ shadowed :: after := by
    rw [hrules, List.append_assoc, List.cons_append]
  refine ⟨fun f gids i hmatch => ?_, LacksRule.exists_of_candidateRules hsplit,
    fun tables' hlacks => ?_⟩
  · obtain ⟨m, hm⟩ := Option.isSome_iff_exists.1 hmatch
    have hmet := (ContextPattern.match?_eq_some_iff_metAt.1 hm).1
    exact Option.isSome_iff_exists.2
      ⟨_, ContextPattern.match?_eq_some_iff_metAt.2 ⟨hshadows.metAt hmet, rfl⟩⟩
  · have halike := hlacks.selectAlike hshadows
    exact ⟨halike, exists_set_actsLike α hk (.contextual halike) hlacks.wellFormed⟩

/-- A rule for a 4 before 5 6 of which only the 5 is input. -/
def brief : ContextRule := .chaining [] [5] [6] [⟨1, 1⟩]

/-- A rule for the same 4, that also asks for a 7 before it, and that takes the 6 for input. -/
def lengthy : ContextRule := .chaining [7] [5, 6] [] [⟨2, 1⟩]

/-- A rule that asks for something else after a 4. -/
def unlike : ContextRule := .chaining [] [8] [] [⟨0, 1⟩]

/-- Rules for a 4 before those of a second subtable, the lengthy one among them. -/
def overlapping : List (List (GlyphId × List ContextRule)) :=
  [[(4, [brief])], [(6, [unlike]), (4, [lengthy, unlike])]]

/-- The same rules without the lengthy one. -/
def thinned : List (List (GlyphId × List ContextRule)) :=
  [[(4, [brief])], [(6, [unlike]), (4, [unlike])]]

/-- The subtables with all the rules. -/
def overlappingTables : List ContextSubtable :=
  [⟨Coverage.gather [(4, [brief])], by decide⟩,
    ⟨Coverage.gather [(6, [unlike]), (4, [lengthy, unlike])], by decide⟩]

/-- The subtables without the lengthy rule. -/
def thinnedTables : List ContextSubtable :=
  [⟨Coverage.gather [(4, [brief])], by decide⟩,
    ⟨Coverage.gather [(6, [unlike]), (4, [unlike])], by decide⟩]

/-- Lookup 0 has all the rules, and lookup 1 makes a 5 a 50. -/
def overlappingList : LookupList :=
  ofFaultless [⟨{}, .contextual .chaining overlappingTables⟩,
    ⟨{}, .single [Coverage.ofList [(5, 50)]]⟩] (by decide)

/-- In 7 4 5 6 both rules are met, and the brief one is applied.  So it is by a list that is built
without the lengthy rule. -/
theorem overlapping_has_dead_rule :
    overlappingList.lookups[0]? = some ⟨{}, .contextual .chaining overlappingTables⟩ ∧
      candidateRules overlappingTables 4 = [] ++ brief :: ([] ++ lengthy :: [unlike]) ∧
      brief.Shadows lengthy ∧
      (lengthy.pattern.match? ⟨fun _ => true⟩ [7, 4, 5, 6] 1).isSome = true ∧
      (brief.pattern.match? ⟨fun _ => true⟩ [7, 4, 5, 6] 1).isSome = true ∧
      LacksRule overlappingTables 4 [brief] lengthy [unlike] thinnedTables ∧
      ∃ list' o, ofLookups (overlappingList.lookups.set 0
          ⟨{}, .contextual .chaining thinnedTables⟩) = .ok list' ∧
        overlappingList.applyLookup .nothing 4 0
          [Glyph.ofId 7 (), .ofId 4 (), .ofId 5 (), .ofId 6 ()] = some o ∧
        o.run.gids = [7, 4, 50, 6] ∧
        (list'.withRecursionLimit 2).applyLookup .nothing 4 0
          [Glyph.ofId 7 (), .ofId 4 (), .ofId 5 (), .ofId 6 ()] = some o := by
  have hk : overlappingList.lookups[0]? =
      some ⟨{}, .contextual .chaining overlappingTables⟩ := rfl
  have hrules : candidateRules overlappingTables 4 =
      [] ++ brief :: ([] ++ lengthy :: [unlike]) := rfl
  have hshadows : brief.Shadows lengthy := by decide
  have hbuilt : BuiltFrom overlapping overlappingTables := .cons rfl (.cons rfl .nil)
  have hbuilt' : BuiltFrom thinned thinnedTables := .cons rfl (.cons rfl .nil)
  have hlacks : LacksRule overlappingTables 4 [brief] lengthy [unlike] thinnedTables :=
    @LacksRule.of_builtFrom _ _ 4 lengthy _ _ hbuilt hbuilt' [(4, brief), (6, unlike)]
      [(4, unlike)] rfl rfl
  obtain ⟨hmet, -, hdead⟩ := shadowed_rule_is_dead Unit hk hrules hshadows
  obtain ⟨-, list', hok, hsame⟩ := hdead thinnedTables hlacks
  have hmatch : (lengthy.pattern.match? ⟨fun _ => true⟩ [7, 4, 5, 6] 1).isSome = true := by decide
  obtain ⟨o, ho, hgids⟩ : ∃ o, overlappingList.applyLookup .nothing 4 0
      [Glyph.ofId 7 (), .ofId 4 (), .ofId 5 (), .ofId 6 ()] = some o ∧
        o.run.gids = [7, 4, 50, 6] := ⟨_, rfl, by decide⟩
  refine ⟨hk, hrules, hshadows, hmatch, hmet _ _ _ hmatch, hlacks, list', o, hok, ho, hgids, ?_⟩
  exact ((hsame 2 .nothing 0).applyLookup 4 _).trans ho

end LookupList

end GlyphSubstitution
