import Mathlib.Logic.Equiv.Defs
import GlyphSubstitution.Proofs.ChainedRules

/-!
# Tables with renumbered glyphs

A font may be given other glyph numbers, as when the glyphs of a text are taken out of it and
numbered afresh.  A permutation `π` of the glyph numbers is then carried through all that mentions
glyphs: what a coverage covers and what it holds, ligatures, the sequences of context rules.  This
file does so for tables, from a coverage up to a lookup list.

It makes no difference whether the data of a table is renumbered before it is built or the table
afterwards (`Coverage.ofList_renumber`, `ContextSubtable.ofRules_renumber`), nor whether lookups are
renumbered before they are checked or the checked list afterwards (`LookupList.ofLookups_renumber`);
what is refused is refused with the same error.  That this holds without exception is owed to the
order of start glyphs in a subtable, which is that of their first mention: renumbering leaves it as
it is, while the order of a hash table would change with the numbers.
-/

namespace GlyphSubstitution

universe v w

variable (π : Equiv.Perm GlyphId)

/-! ## Coverages -/

namespace Coverage

variable {β : Type v} {γ : Type w}

theorem eq_of_entries_eq {c c' : Coverage β} (h : c.entries = c'.entries) : c = c' := by
  cases c
  cases c'
  exact (mk.injEq ..).mpr h

/-- The coverage of the renumbered glyphs, with the values that the glyphs had. -/
def mapKeys (c : Coverage β) : Coverage β where
  entries := c.entries.map fun entry => (π entry.1, entry.2)
  nodup := by
    have hkeys : (c.entries.map fun entry => (π entry.1, entry.2)).map (·.1) =
        (c.entries.map (·.1)).map π := by
      rw [List.map_map, List.map_map]
      rfl
    rw [hkeys]
    exact c.nodup.map π.injective

theorem get?_mapKeys (c : Coverage β) (g : GlyphId) : (c.mapKeys π).get? (π g) = c.get? g := by
  obtain ⟨entries, hnodup⟩ := c
  simp only [get?, mapKeys]
  clear hnodup
  induction entries with
  | nil => rfl
  | cons entry rest ih =>
    rw [List.map_cons, lookup_cons_eq_ite, lookup_cons_eq_ite, ih]
    simp only [π.injective.eq_iff]

/-- The coverage of the renumbered glyphs, with each value passed through a function. -/
def renumber (f : β → γ) (c : Coverage β) : Coverage γ := (c.mapKeys π).mapValues f

theorem get?_renumber (f : β → γ) (c : Coverage β) (g : GlyphId) :
    (c.renumber π f).get? (π g) = (c.get? g).map f := by
  rw [renumber, get?_mapValues, get?_mapKeys]

theorem entries_renumber (f : β → γ) (c : Coverage β) :
    (c.renumber π f).entries = c.entries.map (Prod.map π f) :=
  List.map_map

theorem first?_renumber (f : β → γ) (cs : List (Coverage β)) (g : GlyphId) :
    first? (cs.map (renumber π f)) (π g) = (first? cs g).map f := by
  rw [first?, first?, List.findSome?_map, List.map_findSome?]
  exact congrArg (cs.findSome? ·) (funext fun c => get?_renumber π f c g)

theorem alterEntries_renumber {f : β → γ} {make : Option β → β} {make' : Option γ → γ}
    (h : ∀ known, make' (known.map f) = f (make known)) (g : GlyphId)
    (entries : List (GlyphId × β)) :
    alterEntries (π g) make' (entries.map (Prod.map π f)) =
      (alterEntries g make entries).map (Prod.map π f) := by
  induction entries with
  | nil => exact congrArg (fun value => [(π g, value)]) (h none)
  | cons entry rest ih =>
    obtain ⟨k, value⟩ := entry
    rw [List.map_cons, Prod.map_apply, alterEntries, alterEntries]
    by_cases hk : k = g
    · rw [if_pos hk, if_pos (congrArg π hk), ← Option.map_some, h]
      rfl
    · rw [if_neg hk, if_neg (mt (fun heq => π.injective heq) hk), ih]
      rfl

/-- Setting a value commutes with renumbering, if the way in which it is made does. -/
theorem alter_renumber {f : β → γ} {make : Option β → β} {make' : Option γ → γ}
    (h : ∀ known, make' (known.map f) = f (make known)) (c : Coverage β) (g : GlyphId) :
    (c.renumber π f).alter (π g) make' = (c.alter g make).renumber π f := by
  refine eq_of_entries_eq ?_
  calc alterEntries (π g) make' (c.renumber π f).entries
      = alterEntries (π g) make' (c.entries.map (Prod.map π f)) := by rw [entries_renumber]
    _ = (alterEntries g make c.entries).map (Prod.map π f) := alterEntries_renumber π h g _
    _ = ((c.alter g make).renumber π f).entries := (entries_renumber π f (c.alter g make)).symm

/-- A coverage that is built by setting one value after another may be renumbered before or
after. -/
theorem foldl_alter_renumber {f : β → γ} (make : β → Option β → β) (make' : γ → Option γ → γ)
    (h : ∀ value known, make' (f value) (known.map f) = f (make value known))
    (pairs : List (GlyphId × β)) (c : Coverage β) :
    (pairs.map (Prod.map π f)).foldl (fun c pair => c.alter pair.1 (make' pair.2))
        (c.renumber π f) =
      (pairs.foldl (fun c pair => c.alter pair.1 (make pair.2)) c).renumber π f := by
  induction pairs generalizing c with
  | nil => rfl
  | cons pair rest ih =>
    rw [List.map_cons, List.foldl_cons, List.foldl_cons, ← ih, ← alter_renumber π (h pair.2)]
    rfl

/-- Of a repeated glyph the last pair wins, under whatever number. -/
theorem ofList_renumber (f : β → γ) (pairs : List (GlyphId × β)) :
    ofList (pairs.map (Prod.map π f)) = (ofList pairs).renumber π f :=
  foldl_alter_renumber π (fun value _ => value) (fun value _ => value) (fun _ _ => rfl) pairs empty

/-- The values of a repeated glyph are strung together, under whatever number. -/
theorem gather_renumber {β : Type v} {γ : Type w} (f : β → γ)
    (pairs : List (GlyphId × List β)) :
    gather (pairs.map (Prod.map π (List.map f))) = (gather pairs).renumber π (List.map f) := by
  have hmake : ∀ (values : List β) (known : Option (List β)),
      (known.map (List.map f)).getD [] ++ values.map f = (known.getD [] ++ values).map f := by
    intro values known
    cases known with
    | none => rfl
    | some known => exact List.map_append.symm
  exact foldl_alter_renumber π (fun values known => known.getD [] ++ values)
    (fun values known => known.getD [] ++ values) hmake pairs empty

end Coverage

/-! ## Rules and ligatures -/

/-- The ligature with its glyph and its components renumbered. -/
def Ligature.renumber (ligature : Ligature) : Ligature :=
  ⟨π ligature.glyph, ligature.components.map π⟩

/-- The context with its three sequences renumbered. -/
def ContextPattern.renumber (pattern : ContextPattern) : ContextPattern where
  backtrack := pattern.backtrack.map (List.map π)
  input := pattern.input.map π
  lookahead := pattern.lookahead.map (List.map π)

namespace ContextRule

/-- The rule with its sequences renumbered.  Its records mention no glyphs. -/
def renumber : ContextRule → ContextRule
  | simple input records => simple (input.map π) records
  | chaining backtrack input lookahead records =>
    chaining (backtrack.map π) (input.map π) (lookahead.map π) records

@[simp] theorem kind_renumber (rule : ContextRule) : (rule.renumber π).kind = rule.kind := by
  cases rule <;> rfl

@[simp] theorem records_renumber (rule : ContextRule) :
    (rule.renumber π).records = rule.records := by
  cases rule <;> rfl

@[simp] theorem inputLength_renumber (rule : ContextRule) :
    (rule.renumber π).inputLength = rule.inputLength := by
  cases rule <;> exact congrArg (· + 1) (List.length_map _)

theorem pattern_renumber (rule : ContextRule) :
    (rule.renumber π).pattern = rule.pattern.renumber π := by
  cases rule <;> rfl

theorem addressesInput_renumber {rule : ContextRule} :
    (rule.renumber π).AddressesInput ↔ rule.AddressesInput := by
  rw [AddressesInput, AddressesInput, records_renumber, inputLength_renumber]

/-- A rule has the fault that it had. -/
theorem fault?_renumber (rule : ContextRule) (kind : RuleKind) (count : Nat) :
    (rule.renumber π).fault? kind count = rule.fault? kind count := by
  have hnames : (rule.renumber π).NamesLookups count ↔ rule.NamesLookups count := by
    rw [NamesLookups, NamesLookups, records_renumber]
  simp only [fault?, kind_renumber, hnames]

end ContextRule

/-! ## Subtables -/

namespace ContextSubtable

/-- The subtable with start glyphs and rules renumbered. -/
def renumber (table : ContextSubtable) : ContextSubtable where
  rules := table.rules.renumber π (List.map (ContextRule.renumber π))
  addressesInput := by
    intro entry hentry rule hrule
    rw [Coverage.entries_renumber] at hentry
    obtain ⟨old, hold, rfl⟩ := List.mem_map.1 hentry
    obtain ⟨oldRule, holdRule, rfl⟩ := List.mem_map.1 hrule
    exact (ContextRule.addressesInput_renumber π).2 (table.addressesInput old hold _ holdRule)

theorem rulesFor_renumber (table : ContextSubtable) (g : GlyphId) :
    (table.renumber π).rulesFor (π g) = (table.rulesFor g).map (ContextRule.renumber π) := by
  rw [rulesFor, rulesFor, renumber, Coverage.get?_renumber]
  cases table.rules.get? g <;> rfl

theorem allRules_renumber (table : ContextSubtable) :
    (table.renumber π).allRules = table.allRules.map (ContextRule.renumber π) := by
  rw [allRules, allRules, renumber, Coverage.entries_renumber, List.flatMap_map, List.map_flatMap]
  rfl

/-- The rules may be renumbered before the subtable is built or after, and are refused alike. -/
theorem ofRules_renumber (pairs : List (GlyphId × List ContextRule)) :
    ofRules (pairs.map (Prod.map π (List.map (ContextRule.renumber π)))) =
      (ofRules pairs).map (renumber π) := by
  have hrules : (∀ pair ∈ pairs.map (Prod.map π (List.map (ContextRule.renumber π))),
      ∀ rule ∈ pair.2, rule.AddressesInput) ↔
        ∀ pair ∈ pairs, ∀ rule ∈ pair.2, rule.AddressesInput := by
    simp only [List.forall_mem_map, Prod.map_snd, ContextRule.addressesInput_renumber]
  unfold ofRules
  by_cases h : ∀ pair ∈ pairs, ∀ rule ∈ pair.2, rule.AddressesInput
  · rw [dif_pos h, dif_pos (hrules.2 h)]
    simp only [Except.map, renumber, Coverage.gather_renumber]
  · rw [dif_neg h, dif_neg (mt hrules.1 h)]
    rfl

end ContextSubtable

/-! ## Lookups and lookup lists -/

/-- The subtables, of whatever kind, with all glyphs renumbered. -/
def Subtables.renumber : Subtables → Subtables
  | single tables => single (tables.map (Coverage.renumber π π))
  | multiple tables => multiple (tables.map (Coverage.renumber π (List.map π)))
  | ligature tables => ligature (tables.map (Coverage.renumber π (List.map (Ligature.renumber π))))
  | contextual kind tables => contextual kind (tables.map (ContextSubtable.renumber π))

namespace Lookup

/-- The lookup with all glyphs of its subtables renumbered. -/
def renumber (lookup : Lookup) : Lookup := ⟨lookup.flag, lookup.subtables.renumber π⟩

/-- A lookup has the fault that it had. -/
theorem fault?_renumber (lookup : Lookup) (count : Nat) :
    (lookup.renumber π).fault? count = lookup.fault? count := by
  obtain ⟨flag, subtables⟩ := lookup
  cases subtables with
  | contextual kind tables =>
    have hrules : (tables.map (ContextSubtable.renumber π)).flatMap (·.allRules) =
        (tables.flatMap (·.allRules)).map (ContextRule.renumber π) := by
      simp only [List.flatMap_map, List.map_flatMap, ContextSubtable.allRules_renumber]
    simp only [fault?, renumber, Subtables.renumber]
    rw [hrules, List.findSome?_map]
    exact congrArg (List.findSome? · _) (funext fun rule => rule.fault?_renumber π kind count)
  | _ => rfl

end Lookup

namespace LookupList

/-- The list with all glyphs of its lookups renumbered. -/
def renumber (list : LookupList) : LookupList where
  lookups := list.lookups.map (Lookup.renumber π)
  recursionLimit := list.recursionLimit
  wellFormed := by
    intro lookup hlookup
    obtain ⟨old, hold, rfl⟩ := List.mem_map.1 hlookup
    rw [List.length_map, ← Lookup.fault?_eq_none_iff, Lookup.fault?_renumber,
      Lookup.fault?_eq_none_iff]
    exact list.wellFormed old hold
  recursionLimit_le := list.recursionLimit_le

theorem lookup_renumber (list : LookupList) (k : Nat) :
    (list.renumber π).lookup k = (list.lookup k).map (Lookup.renumber π) := by
  unfold lookup renumber
  rw [List.getElem?_map]
  cases list.lookups[k]? <;> rfl

/-- Lookups may be renumbered before they are checked or after, and are refused alike. -/
theorem ofLookups_renumber (lookups : List Lookup) :
    ofLookups (lookups.map (Lookup.renumber π)) = (ofLookups lookups).map (renumber π) := by
  have hfaults : (lookups.map (Lookup.renumber π)).findSome?
      (·.fault? (lookups.map (Lookup.renumber π)).length) =
        lookups.findSome? (·.fault? lookups.length) := by
    rw [List.findSome?_map, List.length_map]
    exact congrArg (List.findSome? · lookups) (funext fun lookup => lookup.fault?_renumber π _)
  cases hfault : lookups.findSome? (·.fault? lookups.length) with
  | some e =>
    rw [ofLookups_eq_error hfault, ofLookups_eq_error (hfaults.trans hfault)]
    rfl
  | none =>
    rw [ofLookups_eq_ok (List.findSome?_eq_none_iff.1 hfault),
      ofLookups_eq_ok (List.findSome?_eq_none_iff.1 (hfaults.trans hfault))]
    rfl

end LookupList

end GlyphSubstitution
