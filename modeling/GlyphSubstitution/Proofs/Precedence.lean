import GlyphSubstitution.Proofs.ReplacementPass
import GlyphSubstitution.Proofs.SeenGlyphs

/-!
# Which entry decides

Subtables are built from lists of pairs in which a glyph may be repeated, and a lookup has several
of them.  The building keeps the order that the pairs had.  In contextual subtables the rules of a
repeated start glyph come one after the other, so the rule that is selected is the first of all that
were given, taken in order of subtables, pairs and rules, whose start glyph and context are met
(`selectRule?_eq_findSome?`).  In the other subtables the last pair for a glyph takes the place of
those before it (`lastFor`), and the first subtable that has such a pair decides.

So it does not matter how the pairs of contextual subtables are distributed over neighbouring
subtables (`selectAlike_merged`), and `earliest_decides` collects what follows.
-/

namespace GlyphSubstitution

universe u v w

/-! ## First entries -/

/-- The entry has the property and is the first of the list that has it. -/
def IsFirst {β : Type v} (p : β → Prop) (xs : List β) (x : β) : Prop :=
  ∃ before after, xs = before ++ x :: after ∧ p x ∧ ∀ y ∈ before, ¬ p y

theorem IsFirst.holds {β : Type v} {p : β → Prop} {xs : List β} {x : β} (h : IsFirst p xs x) :
    p x :=
  let ⟨_, _, _, hx, _⟩ := h
  hx

/-- A search that succeeds where the property holds comes to what it finds at the first entry. -/
theorem findSome?_eq_some_iff_isFirst {β : Type v} {γ : Type w} {p : β → Prop} {f : β → Option γ}
    (h : ∀ x, f x = none ↔ ¬ p x) {xs : List β} {y : γ} :
    xs.findSome? f = some y ↔ ∃ x, IsFirst p xs x ∧ f x = some y := by
  rw [List.findSome?_eq_some_iff]
  constructor
  · rintro ⟨before, x, after, rfl, hx, hbefore⟩
    have hp : p x := by
      by_contra hnot
      cases hx.symm.trans ((h x).2 hnot)
    exact ⟨x, ⟨before, after, rfl, hp, fun z hz => (h z).1 (hbefore z hz)⟩, hx⟩
  · rintro ⟨x, ⟨before, after, rfl, -, hbefore⟩, hx⟩
    exact ⟨before, x, after, rfl, hx, fun z hz => (h z).2 (hbefore z hz)⟩

theorem findSome?_eq_none_iff_forall {β : Type v} {γ : Type w} {p : β → Prop} {f : β → Option γ}
    (h : ∀ x, f x = none ↔ ¬ p x) {xs : List β} : xs.findSome? f = none ↔ ∀ x ∈ xs, ¬ p x := by
  rw [List.findSome?_eq_none_iff]
  exact forall₂_congr fun x _ => h x

theorem find?_eq_some_iff_isFirst {β : Type v} {p : β → Bool} {xs : List β} {x : β} :
    xs.find? p = some x ↔ IsFirst (p · = true) xs x := by
  rw [List.find?_eq_some_iff_append]
  constructor
  · rintro ⟨hx, before, after, rfl, hbefore⟩
    exact ⟨before, after, rfl, hx, fun y hy => by simpa using hbefore y hy⟩
  · rintro ⟨before, after, rfl, hx, hbefore⟩
    exact ⟨hx, before, after, rfl, fun y hy => by simpa using hbefore y hy⟩

/-! ## Contextual subtables -/

/-- All rules that are given for subtables, with their start glyphs: those of the first subtable
before those of the second, those of one pair before those of the next. -/
def rulesInOrder (sources : List (List (GlyphId × List ContextRule))) :
    List (GlyphId × ContextRule) :=
  sources.flatMap fun pairs => pairs.flatMap fun pair => pair.2.map (pair.1, ·)

/-- The subtables are those that the lists of pairs are accepted as. -/
abbrev BuiltFrom : List (List (GlyphId × List ContextRule)) → List ContextSubtable → Prop :=
  List.Forall₂ fun pairs table => ContextSubtable.ofRules pairs = .ok table

namespace ContextSubtable

variable {pairs pairs' : List (GlyphId × List ContextRule)} {table table' : ContextSubtable}

theorem ofRules_eq_ok_iff :
    (∃ table, ofRules pairs = .ok table) ↔
      ∀ pair ∈ pairs, ∀ rule ∈ pair.2, rule.AddressesInput := by
  unfold ofRules
  split
  · next h => exact ⟨fun _ => h, fun _ => ⟨_, rfl⟩⟩
  · next h =>
    constructor
    · rintro ⟨table, hok⟩
      cases hok
    · intro hall
      exact absurd hall h

/-- The rules for a glyph are those of all its pairs, in order. -/
theorem rulesFor_of_ofRules (h : ofRules pairs = .ok table) (g : GlyphId) :
    table.rulesFor g = (pairs.filter (·.1 == g)).flatMap (·.2) := by
  unfold ofRules at h
  split at h
  · rw [← Except.ok.inj h]
    exact Coverage.getD_get?_gather pairs g
  · cases h

/-- Two lists of pairs that are accepted are accepted as one, with the rules of the first before
those of the second. -/
theorem exists_merged (h : ofRules pairs = .ok table) (h' : ofRules pairs' = .ok table') :
    ∃ merged, ofRules (pairs ++ pairs') = .ok merged ∧
      ∀ g, merged.rulesFor g = table.rulesFor g ++ table'.rulesFor g := by
  have hall : ∀ pair ∈ pairs ++ pairs', ∀ rule ∈ pair.2, rule.AddressesInput := by
    intro pair hpair
    rcases List.mem_append.1 hpair with hpair | hpair
    · exact ofRules_eq_ok_iff.1 ⟨table, h⟩ pair hpair
    · exact ofRules_eq_ok_iff.1 ⟨table', h'⟩ pair hpair
  obtain ⟨merged, hmerged⟩ := ofRules_eq_ok_iff.2 hall
  refine ⟨merged, hmerged, fun g => ?_⟩
  rw [rulesFor_of_ofRules hmerged, rulesFor_of_ofRules h, rulesFor_of_ofRules h',
    List.filter_append, List.flatMap_append]

end ContextSubtable

/-- The rules of one start glyph, of all that are given. -/
theorem filter_rulesInOrder (pairs : List (GlyphId × List ContextRule)) (g : GlyphId) :
    ((pairs.flatMap fun pair => pair.2.map (pair.1, ·)).filter (·.1 == g)).map (·.2) =
      (pairs.filter (·.1 == g)).flatMap (·.2) := by
  induction pairs with
  | nil => rfl
  | cons pair rest ih =>
    obtain ⟨start, rules⟩ := pair
    rw [List.flatMap_cons, List.filter_append, List.map_append, ih, List.filter_map]
    by_cases hg : start = g <;> simp [Function.comp_def, hg]

theorem candidateRules_eq {sources : List (List (GlyphId × List ContextRule))}
    {tables : List ContextSubtable} (h : BuiltFrom sources tables) (g : GlyphId) :
    candidateRules tables g = ((rulesInOrder sources).filter (·.1 == g)).map (·.2) := by
  induction h with
  | nil => rfl
  | @cons pairs table sources tables hpairs _ ih =>
    unfold candidateRules rulesInOrder at ih ⊢
    rw [List.flatMap_cons, List.flatMap_cons, List.filter_append, List.map_append, ih,
      filter_rulesInOrder, ContextSubtable.rulesFor_of_ofRules hpairs]

/-- The rule is given for the glyph at position `i`, and its context is met there. -/
def AppliesAt (f : GlyphFilter) (gids : List GlyphId) (i : Nat) (entry : GlyphId × ContextRule) :
    Prop :=
  gids[i]? = some entry.1 ∧ entry.2.pattern.MetAt f gids i

instance (f : GlyphFilter) (gids : List GlyphId) (i : Nat) (entry : GlyphId × ContextRule) :
    Decidable (AppliesAt f gids i entry) :=
  inferInstanceAs (Decidable (_ ∧ _))

/-- The match that a rule is selected with. -/
def matchOf (f : GlyphFilter) (gids : List GlyphId) (i : Nat) (rule : ContextRule) : RuleMatch :=
  ⟨⟨i, (f.seenAfter gids i).take rule.input.length⟩, rule.records⟩

theorem ContextRule.match?_eq_some_iff {rule : ContextRule} {f : GlyphFilter}
    {gids : List GlyphId} {i : Nat} {found : RuleMatch} :
    rule.match? f gids i = some found ↔
      rule.pattern.MetAt f gids i ∧ found = matchOf f gids i rule := by
  rw [match?, Option.map_eq_some_iff]
  constructor
  · rintro ⟨m, hm, rfl⟩
    obtain ⟨hmet, rfl⟩ := ContextPattern.match?_eq_some_iff_metAt.1 hm
    exact ⟨hmet, rfl⟩
  · rintro ⟨hmet, rfl⟩
    exact ⟨_, ContextPattern.match?_eq_some_iff_metAt.2 ⟨hmet, rfl⟩, rfl⟩

/-- The rule that is selected is found by one search through all that are given. -/
theorem selectRule?_eq_findSome? {sources : List (List (GlyphId × List ContextRule))}
    {tables : List ContextSubtable} (h : BuiltFrom sources tables) (f : GlyphFilter)
    (gids : List GlyphId) (i : Nat) :
    selectRule? tables f gids i = (rulesInOrder sources).findSome? fun entry =>
      if gids[i]? = some entry.1 then entry.2.match? f gids i else none := by
  unfold selectRule?
  cases hi : gids[i]? with
  | none => exact (List.findSome?_eq_none_iff.2 fun _ _ => rfl).symm
  | some g =>
    rw [Option.bind_some, candidateRules_eq h]
    generalize rulesInOrder sources = entries
    induction entries with
    | nil => rfl
    | cons entry rest ih =>
      rw [List.findSome?_cons, ← ih]
      by_cases hg : entry.1 = g
      · simp [hg, List.findSome?_cons]
      · simp [hg, Ne.symm hg]

theorem ite_match?_eq_none_iff {f : GlyphFilter} {gids : List GlyphId} {i : Nat}
    (entry : GlyphId × ContextRule) :
    (if gids[i]? = some entry.1 then entry.2.match? f gids i else none) = none ↔
      ¬ AppliesAt f gids i entry := by
  rw [Option.eq_none_iff_forall_ne_some]
  constructor
  · rintro hnone ⟨hstart, hmet⟩
    refine hnone (matchOf f gids i entry.2) ?_
    rw [if_pos hstart]
    exact ContextRule.match?_eq_some_iff.2 ⟨hmet, rfl⟩
  · intro hnot found hfound
    by_cases hstart : gids[i]? = some entry.1
    · rw [if_pos hstart] at hfound
      exact hnot ⟨hstart, (ContextRule.match?_eq_some_iff.1 hfound).1⟩
    · rw [if_neg hstart] at hfound
      cases hfound

/-- The rule that is selected is the first that applies. -/
theorem selectRule?_eq_some_iff_isFirst {sources : List (List (GlyphId × List ContextRule))}
    {tables : List ContextSubtable} (h : BuiltFrom sources tables) {f : GlyphFilter}
    {gids : List GlyphId} {i : Nat} {found : RuleMatch} :
    selectRule? tables f gids i = some found ↔
      ∃ entry, IsFirst (AppliesAt f gids i) (rulesInOrder sources) entry ∧
        found = matchOf f gids i entry.2 := by
  rw [selectRule?_eq_findSome? h, findSome?_eq_some_iff_isFirst ite_match?_eq_none_iff]
  refine exists_congr fun entry => and_congr_right fun hfirst => ?_
  obtain ⟨hstart, hmet⟩ := hfirst.holds
  rw [if_pos hstart, ContextRule.match?_eq_some_iff]
  exact and_iff_right hmet

theorem selectRule?_eq_none_iff_forall {sources : List (List (GlyphId × List ContextRule))}
    {tables : List ContextSubtable} (h : BuiltFrom sources tables) {f : GlyphFilter}
    {gids : List GlyphId} {i : Nat} :
    selectRule? tables f gids i = none ↔
      ∀ entry ∈ rulesInOrder sources, ¬ AppliesAt f gids i entry := by
  rw [selectRule?_eq_findSome? h, findSome?_eq_none_iff_forall ite_match?_eq_none_iff]

/-! ## Neighbouring subtables -/

/-- Two neighbouring subtables select like one that has the rules of both. -/
theorem selectAlike_merged {table table' merged : ContextSubtable}
    (h : ∀ g, merged.rulesFor g = table.rulesFor g ++ table'.rulesFor g)
    (before after : List ContextSubtable) :
    SelectAlike (before ++ table :: table' :: after) (before ++ merged :: after) := by
  intro f gids i
  have hcandidates : ∀ g, candidateRules (before ++ merged :: after) g =
      candidateRules (before ++ table :: table' :: after) g := by
    intro g
    simp only [candidateRules, List.flatMap_append, List.flatMap_cons, h, List.append_assoc]
  unfold selectRule?
  simp only [hcandidates]

/-- The lookup with the merged subtable has a fault exactly if the lookup with the two has. -/
theorem Lookup.wellFormed_merged {table table' merged : ContextSubtable}
    (h : ∀ g, merged.rulesFor g = table.rulesFor g ++ table'.rulesFor g)
    (flag : LookupFlag) (kind : RuleKind) (before after : List ContextSubtable) (count : Nat) :
    Lookup.WellFormed ⟨flag, .contextual kind (before ++ merged :: after)⟩ count ↔
      Lookup.WellFormed ⟨flag, .contextual kind (before ++ table :: table' :: after)⟩ count := by
  have hrules (rule : ContextRule) :
      rule ∈ merged.allRules ↔ rule ∈ table.allRules ∨ rule ∈ table'.allRules := by
    simp only [ContextSubtable.mem_allRules_iff, h, List.mem_append, exists_or]
  simp only [Lookup.WellFormed, List.mem_append, List.mem_cons, or_imp, forall_and, forall_eq,
    hrules, and_assoc]

namespace LookupList

/-- Lookups are accepted exactly if each of them is well formed. -/
theorem ofLookups_eq_ok_iff {lookups : List Lookup} :
    (∃ list, ofLookups lookups = .ok list) ↔
      ∀ lookup ∈ lookups, lookup.WellFormed lookups.length := by
  constructor
  · rintro ⟨list, hok⟩
    rw [← lookups_of_ofLookups hok]
    exact list.wellFormed
  · intro h
    exact ⟨_, ofLookups_eq_ok fun lookup hl => Lookup.fault?_eq_none_iff.2 (h lookup hl)⟩

/-- A lookup of an accepted list may be exchanged for one that acts alike and is no worse formed:
the lookups are accepted again, and the answers are the same. -/
theorem exists_set_actsLike (α : Type u) [Payload α] {list : LookupList} {k : Nat}
    {old new : Lookup} (hk : list.lookups[k]? = some old) (hlike : old.ActsLike new)
    (hformed : old.WellFormed list.lookups.length → new.WellFormed list.lookups.length) :
    ∃ list', ofLookups (list.lookups.set k new) = .ok list' ∧
      ∀ bound skip l,
        SameAnswers α (list.withRecursionLimit bound) (list'.withRecursionLimit bound) skip l := by
  have hnew : new.WellFormed list.lookups.length :=
    hformed (list.wellFormed old (List.mem_of_getElem? hk))
  have hall : ∀ lookup ∈ list.lookups.set k new,
      lookup.WellFormed (list.lookups.set k new).length := by
    intro lookup hlookup
    rw [List.length_set]
    rcases List.mem_or_eq_of_mem_set hlookup with hmem | rfl
    · exact list.wellFormed lookup hmem
    · exact hnew
  obtain ⟨list', hok'⟩ := ofLookups_eq_ok_iff.2 hall
  refine ⟨list', hok', fun bound skip l => ?_⟩
  have hlookups : ∀ n : Nat, Option.Rel Lookup.ActsLike list.lookups[n]? list'.lookups[n]? := by
    rw [lookups_of_ofLookups hok']
    exact rel_getElem?_set Lookup.ActsLike.same hk hlike
  have hlists : (list.withRecursionLimit bound).ActsLike (list'.withRecursionLimit bound) :=
    ⟨hlookups, rfl⟩
  exact (hlists.actsLikeFrom l).sameAnswers rfl skip

/-- A lookup may be exchanged for one that acts alike and is as well formed: the lookups are
accepted as before, and then the answers are the same. -/
theorem set_actsLike (α : Type u) [Payload α] {lookups : List Lookup} {k : Nat} {old new : Lookup}
    (hk : lookups[k]? = some old) (hlike : old.ActsLike new)
    (hformed : ∀ count, new.WellFormed count ↔ old.WellFormed count) :
    match ofLookups lookups, ofLookups (lookups.set k new) with
    | .error _, .error _ => True
    | .ok list, .ok list' => ∀ bound skip l,
      SameAnswers α (list.withRecursionLimit bound) (list'.withRecursionLimit bound) skip l
    | _, _ => False := by
  have haccepted : (∃ list, ofLookups (lookups.set k new) = .ok list) ↔
      ∃ list, ofLookups lookups = .ok list := by
    have hsame := map_set_of_eq (f := (·.WellFormed lookups.length)) hk (propext (hformed _))
    have hmap : ∀ ls : List Lookup, (∀ lookup ∈ ls, lookup.WellFormed lookups.length) ↔
        ∀ p ∈ ls.map (·.WellFormed lookups.length), p := fun ls =>
      (List.forall_mem_map (P := id)).symm
    rw [ofLookups_eq_ok_iff, ofLookups_eq_ok_iff, List.length_set, hmap, hsame, ← hmap]
  rcases ofLookups_cases lookups with ⟨e, -, herror⟩ | ⟨list, -, hok, rfl⟩
  · rcases ofLookups_cases (lookups.set k new) with ⟨e', -, herror'⟩ | ⟨list', -, hok', -⟩
    · rw [herror, herror']
      trivial
    · obtain ⟨list, hok⟩ := haccepted.1 ⟨list', hok'⟩
      cases herror.symm.trans hok
  · obtain ⟨list', hok', hsame⟩ := exists_set_actsLike α hk hlike (hformed _).2
    rw [hok, hok']
    exact hsame

end LookupList

/-! ## The last pair for a glyph -/

/-- The value that is given last for a glyph. -/
def lastFor {β : Type v} (pairs : List (GlyphId × β)) (g : GlyphId) : Option β :=
  ((pairs.filter (·.1 == g)).getLast?).map (·.2)

namespace Coverage

variable {β : Type v}

theorem get?_ofList_eq_lastFor (pairs : List (GlyphId × β)) (g : GlyphId) :
    (ofList pairs).get? g = lastFor pairs g := by
  rw [get?_ofList, lastFor, List.getLast?_filter]
  induction pairs.reverse with
  | nil => rfl
  | cons pair rest ih =>
    rw [lookup_cons_eq_ite, List.find?_cons]
    by_cases hg : pair.1 = g
    · simp [hg]
    · simp [beq_false_of_ne hg, Ne.symm hg, ih]

theorem lastFor_eq_none_iff {pairs : List (GlyphId × β)} {g : GlyphId} :
    lastFor pairs g = none ↔ ¬ g ∈ pairs.map (·.1) := by
  rw [lastFor, Option.map_eq_none_iff, List.getLast?_eq_none_iff, List.filter_eq_nil_iff]
  simp only [List.mem_map, beq_iff_eq, not_exists, not_and]

theorem first?_ofList (sources : List (List (GlyphId × β))) (g : GlyphId) :
    first? (sources.map ofList) g = sources.findSome? (lastFor · g) := by
  rw [first?, List.findSome?_map]
  exact findSome?_congr fun pairs _ => get?_ofList_eq_lastFor pairs g

/-- Of several coverages, the first that was given a value for the glyph decides, with the last
value that it was given. -/
theorem first?_ofList_eq_some_iff {sources : List (List (GlyphId × β))} {g : GlyphId} {v : β} :
    first? (sources.map ofList) g = some v ↔
      ∃ pairs, IsFirst (fun pairs => g ∈ pairs.map (·.1)) sources pairs ∧
        lastFor pairs g = some v := by
  rw [first?_ofList]
  exact findSome?_eq_some_iff_isFirst fun _ => lastFor_eq_none_iff

theorem first?_ofList_eq_none_iff {sources : List (List (GlyphId × β))} {g : GlyphId} :
    first? (sources.map ofList) g = none ↔ ∀ pairs ∈ sources, g ∉ pairs.map (·.1) := by
  rw [first?_ofList, findSome?_eq_none_iff_forall fun _ => lastFor_eq_none_iff]

end Coverage

/-- All ligatures that are given for a glyph, those of the first subtable before those of the
second; of one subtable, those of the last pair for the glyph. -/
def ligaturesInOrder (sources : List (List (GlyphId × List Ligature))) (g : GlyphId) :
    List Ligature :=
  sources.flatMap fun pairs => (lastFor pairs g).getD []

theorem ligatureFor?_ofList (sources : List (List (GlyphId × List Ligature))) (f : GlyphFilter)
    (gids : List GlyphId) (i : Nat) (g : GlyphId) :
    ligatureFor? (sources.map Coverage.ofList) f gids i g =
      (ligaturesInOrder sources g).find? (·.matchesAt f gids i) := by
  simp only [ligatureFor?, ligaturesInOrder, List.flatMap_map, Coverage.get?_ofList_eq_lastFor]

/-- The components of the ligature stand at the first seen positions after position `i`. -/
def FormsAt (f : GlyphFilter) (gids : List GlyphId) (i : Nat) (ligature : Ligature) : Prop :=
  Spells gids ligature.components (f.seenAfter gids i)

theorem selectLigature?_ofList_eq_some_iff {sources : List (List (GlyphId × List Ligature))}
    {f : GlyphFilter} {gids : List GlyphId} {i : Nat} {ligature : Ligature} :
    selectLigature? (sources.map Coverage.ofList) f gids i = some ligature ↔
      ∃ g, gids[i]? = some g ∧
        IsFirst (FormsAt f gids i) (ligaturesInOrder sources g) ligature := by
  have hforms : (fun ligature : Ligature => ligature.matchesAt f gids i = true) =
      FormsAt f gids i := funext fun ligature => propext Ligature.matchesAt_iff
  simp only [selectLigature?, Option.bind_eq_some_iff, ligatureFor?_ofList,
    find?_eq_some_iff_isFirst, hforms]

theorem selectLigature?_ofList_eq_none_iff {sources : List (List (GlyphId × List Ligature))}
    {f : GlyphFilter} {gids : List GlyphId} {i : Nat} :
    selectLigature? (sources.map Coverage.ofList) f gids i = none ↔
      ∀ g, gids[i]? = some g → ∀ ligature ∈ ligaturesInOrder sources g,
        ¬ FormsAt f gids i ligature := by
  simp only [selectLigature?, Option.bind_eq_none_iff, ligatureFor?_ofList, List.find?_eq_none,
    Ligature.matchesAt_iff, FormsAt]

/-! ## The law of precedence -/

/-- The earliest entry decides.  Of contextual subtables it is the first rule, in order of
subtables, pairs and rules, whose start glyph stands at the position and whose context is met there;
and two neighbouring subtables may be built as one, which changes no answer of a list that has them.
Of ligatures it is the first, in order of subtables, whose components follow, where a subtable has
those of its last pair for the glyph.  Of single and multiple subtables it is the first with a pair
for the glyph, and of that the last such pair. -/
theorem earliest_decides (α : Type u) [Payload α] :
    (∀ sources tables, BuiltFrom sources tables → ∀ f gids i,
        (∀ found, selectRule? tables f gids i = some found ↔
          ∃ start rule, IsFirst (AppliesAt f gids i) (rulesInOrder sources) (start, rule) ∧
            found = ⟨⟨i, (f.seenAfter gids i).take rule.input.length⟩, rule.records⟩) ∧
        (selectRule? tables f gids i = none ↔
          ∀ entry ∈ rulesInOrder sources, ¬ AppliesAt f gids i entry)) ∧
      (∀ pairs pairs' table table', ContextSubtable.ofRules pairs = .ok table →
        ContextSubtable.ofRules pairs' = .ok table' →
          ∃ merged, ContextSubtable.ofRules (pairs ++ pairs') = .ok merged ∧
            ∀ before after,
              (∀ f gids i, selectRule? (before ++ merged :: after) f gids i =
                selectRule? (before ++ table :: table' :: after) f gids i) ∧
              ∀ (lookups : List Lookup) k flag kind,
                lookups[k]? =
                    some ⟨flag, .contextual kind (before ++ table :: table' :: after)⟩ →
                  match LookupList.ofLookups lookups, LookupList.ofLookups
                    (lookups.set k ⟨flag, .contextual kind (before ++ merged :: after)⟩) with
                  | .error _, .error _ => True
                  | .ok list, .ok list' => ∀ bound skip l,
                    LookupList.SameAnswers α (list.withRecursionLimit bound)
                      (list'.withRecursionLimit bound) skip l
                  | _, _ => False) ∧
      (∀ sources f gids i,
        (∀ ligature, selectLigature? (sources.map Coverage.ofList) f gids i = some ligature ↔
          ∃ g, gids[i]? = some g ∧
            IsFirst (FormsAt f gids i) (ligaturesInOrder sources g) ligature) ∧
        (selectLigature? (sources.map Coverage.ofList) f gids i = none ↔
          ∀ g, gids[i]? = some g → ∀ ligature ∈ ligaturesInOrder sources g,
            ¬ FormsAt f gids i ligature)) ∧
      ∀ (β : Type) (sources : List (List (GlyphId × β))) g,
        (∀ v, Coverage.first? (sources.map Coverage.ofList) g = some v ↔
          ∃ pairs, IsFirst (fun pairs => g ∈ pairs.map (·.1)) sources pairs ∧
            lastFor pairs g = some v) ∧
        (Coverage.first? (sources.map Coverage.ofList) g = none ↔
          ∀ pairs ∈ sources, g ∉ pairs.map (·.1)) := by
  refine ⟨fun sources tables hbuilt f gids i => ⟨fun found => ?_, ?_⟩, ?_,
    fun sources f gids i => ⟨fun ligature => ?_, ?_⟩, fun β sources g => ⟨fun v => ?_, ?_⟩⟩
  · rw [selectRule?_eq_some_iff_isFirst hbuilt, Prod.exists]
    rfl
  · exact selectRule?_eq_none_iff_forall hbuilt
  · intro pairs pairs' table table' htable htable'
    obtain ⟨merged, hmerged, hrules⟩ := ContextSubtable.exists_merged htable htable'
    refine ⟨merged, hmerged, fun before after => ?_⟩
    have halike := selectAlike_merged hrules before after
    refine ⟨halike, fun lookups k flag kind hk => ?_⟩
    exact LookupList.set_actsLike α hk (.contextual halike)
      (Lookup.wellFormed_merged hrules flag kind before after)
  · exact selectLigature?_ofList_eq_some_iff
  · exact selectLigature?_ofList_eq_none_iff
  · exact Coverage.first?_ofList_eq_some_iff
  · exact Coverage.first?_ofList_eq_none_iff

/-- Rules for a 4, in two pairs with one for a 6 between them. -/
def competing : List (GlyphId × List ContextRule) :=
  [(4, [.simple [5] [⟨0, 1⟩]]), (6, [.simple [] [⟨0, 1⟩]]), (4, [.simple [] [⟨0, 2⟩]])]

/-- Another rule for a 4. -/
def competingLater : List (GlyphId × List ContextRule) := [(4, [.simple [6] [⟨0, 1⟩]])]

/-- The rules of both, in two subtables. -/
def competingApart : List ContextSubtable :=
  [⟨Coverage.gather competing, by decide⟩, ⟨Coverage.gather competingLater, by decide⟩]

/-- The rules of both, in one subtable. -/
def competingTogether : ContextSubtable :=
  ⟨Coverage.gather (competing ++ competingLater), by decide⟩

/-- Lookup 0 has these subtables, and the two lookups that their rules name make a 4 something
else. -/
def competingLookups (tables : List ContextSubtable) : List Lookup :=
  [⟨{}, .contextual .simple tables⟩, ⟨{}, .single [Coverage.ofList [(4, 40)]]⟩,
    ⟨{}, .single [Coverage.ofList [(4, 44)]]⟩]

/-- A 4 before a 6 is for the second pair, though a later rule asks for more; and so it is when all
pairs are given for one subtable. -/
theorem competing_earliest_decides :
    BuiltFrom [competing, competingLater] competingApart ∧
      ContextSubtable.ofRules (competing ++ competingLater) = .ok competingTogether ∧
      selectRule? competingApart ⟨fun _ => true⟩ [4, 6] 0 = some ⟨⟨0, []⟩, [⟨0, 2⟩]⟩ ∧
      selectRule? [competingTogether] ⟨fun _ => true⟩ [4, 6] 0 = some ⟨⟨0, []⟩, [⟨0, 2⟩]⟩ ∧
      ∃ list list', LookupList.ofLookups (competingLookups competingApart) = .ok list ∧
        LookupList.ofLookups (competingLookups [competingTogether]) = .ok list' ∧
        LookupList.SameAnswers Unit (list.withRecursionLimit 6) (list'.withRecursionLimit 6)
          .nothing 0 := by
  obtain ⟨hrules, hmerge, -⟩ := earliest_decides Unit
  have hbuilt : BuiltFrom [competing, competingLater] competingApart := .cons rfl (.cons rfl .nil)
  have htogether : ContextSubtable.ofRules (competing ++ competingLater) =
      .ok competingTogether := rfl
  have hfirst : IsFirst (AppliesAt ⟨fun _ => true⟩ [4, 6] 0)
      (rulesInOrder [competing, competingLater]) (4, .simple [] [⟨0, 2⟩]) :=
    ⟨[(4, .simple [5] [⟨0, 1⟩]), (6, .simple [] [⟨0, 1⟩])], [(4, .simple [6] [⟨0, 1⟩])], rfl,
      by decide, by decide⟩
  have hselected : selectRule? competingApart ⟨fun _ => true⟩ [4, 6] 0 =
      some ⟨⟨0, []⟩, [⟨0, 2⟩]⟩ :=
    ((hrules _ _ hbuilt ⟨fun _ => true⟩ [4, 6] 0).1 _).2 ⟨4, .simple [] [⟨0, 2⟩], hfirst, rfl⟩
  obtain ⟨merged, hmerged, hsame⟩ := hmerge competing competingLater _ _ rfl rfl
  obtain rfl := Except.ok.inj (hmerged.symm.trans htogether)
  obtain ⟨halike, hanswers⟩ := hsame [] []
  have hok : LookupList.ofLookups (competingLookups competingApart) =
      .ok (.ofFaultless (competingLookups competingApart) (by decide)) :=
    LookupList.ofLookups_eq_ok _
  have hok' : LookupList.ofLookups (competingLookups [competingTogether]) =
      .ok (.ofFaultless (competingLookups [competingTogether]) (by decide)) :=
    LookupList.ofLookups_eq_ok _
  have hlists := hanswers (competingLookups competingApart) 0 {} .simple rfl
  have hset : (competingLookups competingApart).set 0
      ⟨{}, .contextual .simple ([] ++ competingTogether :: [])⟩ =
        competingLookups [competingTogether] := rfl
  rw [hset, hok, hok'] at hlists
  exact ⟨hbuilt, htogether, hselected, (halike _ _ _).trans hselected, _, _, hok, hok',
    hlists 6 .nothing 0⟩

end GlyphSubstitution
