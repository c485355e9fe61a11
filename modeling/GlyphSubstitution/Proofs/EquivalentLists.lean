import GlyphSubstitution.Proofs.NestingDepth

/-!
# Lookup lists that act alike

What contextual subtables do is settled by the match that they select and by the lookups that the
records of the match name.  So subtables may be written in another way as long as the selection
stays the same: a lookup may be exchanged for one that acts alike (`Lookup.ActsLike`).  And a
lookup that no chain of records leads to may be exchanged for any other, for no call ever reaches it
(`LookupList.Involves`).

If each lookup that lookup `k` involves acts like that of the same number in another list, then dry
runs, nested calls and passes with lookup `k` come to the same with both lists
(`LookupList.ActsLikeFrom.sameAnswers`).  Lookups call each other, perhaps in a circle; the
induction is on the limit that ends that.
-/

namespace GlyphSubstitution

universe u

/-- The subtables select the same match at every position of every run. -/
def SelectAlike (tables tables' : List ContextSubtable) : Prop :=
  ∀ f gids i, selectRule? tables' f gids i = selectRule? tables f gids i

/-- The lookups are the same, or contextual with the same flag and subtables that select alike.  The
kind of rules that they hold does not matter. -/
inductive Lookup.ActsLike : Lookup → Lookup → Prop where
  | same (lookup : Lookup) : ActsLike lookup lookup
  | contextual {flag : LookupFlag} {kind kind' : RuleKind} {tables tables' : List ContextSubtable}
    (h : SelectAlike tables tables') :
    ActsLike ⟨flag, .contextual kind tables⟩ ⟨flag, .contextual kind' tables'⟩

namespace LookupList

/-- The lists have lookups that act alike, in the same order, and the same limit. -/
structure ActsLike (list list' : LookupList) : Prop where
  lookups : ∀ k : Nat, Option.Rel Lookup.ActsLike list.lookups[k]? list'.lookups[k]?
  limit : list'.recursionLimit = list.recursionLimit

/-- Records lead from the first lookup to the second, perhaps by way of others; every lookup
involves itself. -/
def Involves (list : LookupList) : Nat → Nat → Prop :=
  Relation.ReflTransGen fun k l => l ∈ list.named k

/-- The lookups that lookup `k` involves act like those of the same numbers in the second list. -/
def ActsLikeFrom (list list' : LookupList) (k : Nat) : Prop :=
  ∀ l, list.Involves k l → Option.Rel Lookup.ActsLike list.lookups[l]? list'.lookups[l]?

/-- Dry runs, nested calls and passes with lookup `k` come to the same with both lists, whatever the
limit on nested calls and the budget of passes. -/
structure SameAnswers (α : Type u) [Payload α] (list list' : LookupList) (skip : SkipPredicate)
    (k : Nat) : Prop where
  wouldApply : ∀ gids i, list'.wouldApply skip k gids i = list.wouldApply skip k gids i
  applyNested : ∀ limit (run : Run α) i,
    list'.applyNested skip limit k run i = list.applyNested skip limit k run i
  applyLookup : ∀ budget (run : Run α),
    list'.applyLookup skip budget k run = list.applyLookup skip budget k run

end LookupList

namespace Lookup.ActsLike

variable {lookup lookup' : Lookup}

theorem flag_eq (h : lookup.ActsLike lookup') : lookup'.flag = lookup.flag := by
  cases h <;> rfl

theorem selectsAt_eq (h : lookup.ActsLike lookup') (f : GlyphFilter) (gids : List GlyphId)
    (i : Nat) : lookup'.selectsAt f gids i = lookup.selectsAt f gids i := by
  cases h with
  | same => rfl
  | contextual h => exact congrArg Option.isSome (h f gids i)

variable {α : Type u} [Payload α]

/-- Lookups that act alike are applied alike, if their subtables are. -/
theorem applyAt_eq (h : lookup.ActsLike lookup') (skip : SkipPredicate)
    {contextual contextual' :
      List ContextSubtable → GlyphFilter → Run α → Nat → Outcome α (Option Applied)}
    (hcontextual : ∀ tables', SelectAlike lookup.contextTables tables' →
      contextual' tables' = contextual lookup.contextTables) :
    lookup'.applyAt skip contextual' = lookup.applyAt skip contextual := by
  cases h with
  | contextual h =>
    funext run i
    exact congrFun (congrFun (congrFun (hcontextual _ h) _) run) i
  | same =>
    obtain ⟨flag, subtables⟩ := lookup
    cases subtables with
    | contextual kind tables =>
      funext run i
      exact congrFun (congrFun (congrFun (hcontextual tables fun _ _ _ => rfl) _) run) i
    | _ => rfl

end Lookup.ActsLike

variable {α : Type u}

/-- Subtables that select alike are applied alike, if the calls are answered alike that their
records make. -/
theorem SelectAlike.applyContextual_eq {tables tables' : List ContextSubtable}
    (h : SelectAlike tables tables') {nested nested' : Applier α} {limit : Nat}
    (hnested : ∀ table ∈ tables, ∀ rule ∈ table.allRules, ∀ record ∈ rule.records, ∀ index run,
      nested' ⟨record.lookupIndex.toNat, limit, index, run⟩ =
        nested ⟨record.lookupIndex.toNat, limit, index, run⟩) :
    applyContextual nested' limit tables' = applyContextual nested limit tables := by
  rw [← applyContextual_congr_of_named hnested]
  funext f run i
  rw [GlyphSubstitution.applyContextual_eq, GlyphSubstitution.applyContextual_eq, h f run.gids i]

namespace LookupList

variable {list list' : LookupList} {k : Nat}

/-- Of lookups of one number that are related, there is one in both lists or in none. -/
theorem lookup_cases_of_rel {R : Lookup → Lookup → Prop}
    (h : Option.Rel R list.lookups[k]? list'.lookups[k]?) :
    (∃ e, list.lookup k = .error e ∧ list'.lookup k = .error e) ∨
      ∃ lookup lookup', list.lookup k = .ok lookup ∧ list'.lookup k = .ok lookup' ∧
        R lookup lookup' := by
  unfold lookup
  generalize list.lookups[k]? = found at h ⊢
  generalize list'.lookups[k]? = found' at h ⊢
  cases h with
  | none => exact Or.inl ⟨.badIndex, rfl, rfl⟩
  | some hrel => exact Or.inr ⟨_, _, rfl, rfl, hrel⟩

/-- What lookup `k` involves is known from any numbers, that of `k` among them, that contain all
that records of their lookups name. -/
theorem Involves.of_closed {S : Nat → Prop} {l : Nat} (h : list.Involves k l) (hk : S k)
    (hclosed : ∀ l, S l → ∀ m ∈ list.named l, S m) : S l := by
  induction h with
  | refl => exact hk
  | tail _ hnamed ih => exact hclosed _ ih _ hnamed

namespace ActsLikeFrom

theorem of_same (h : ∀ l, list.Involves k l → list'.lookups[l]? = list.lookups[l]?) :
    list.ActsLikeFrom list' k := by
  intro l hl
  rw [h l hl]
  cases list.lookups[l]? with
  | none => exact .none
  | some lookup => exact .some (.same lookup)

theorem of_mem_named {l : Nat} (h : list.ActsLikeFrom list' k) (hl : l ∈ list.named k) :
    list.ActsLikeFrom list' l :=
  fun m hinvolves => h m (Relation.ReflTransGen.head hl hinvolves)

/-- The lookups of number `k` act alike, or there is none of that number. -/
theorem lookup_cases (h : list.ActsLikeFrom list' k) :
    (∃ e, list.lookup k = .error e ∧ list'.lookup k = .error e) ∨
      ∃ lookup lookup', list.lookup k = .ok lookup ∧ list'.lookup k = .ok lookup' ∧
        lookup.ActsLike lookup' :=
  lookup_cases_of_rel (h k Relation.ReflTransGen.refl)

theorem wouldApply_eq (h : list.ActsLikeFrom list' k) (skip : SkipPredicate)
    (gids : List GlyphId) (i : Nat) :
    list'.wouldApply skip k gids i = list.wouldApply skip k gids i := by
  unfold wouldApply
  rcases h.lookup_cases with ⟨e, hlookup, hlookup'⟩ | ⟨lookup, lookup', hlookup, hlookup', hlike⟩
  · rw [hlookup, hlookup']
  · rw [hlookup, hlookup']
    refine congrArg Except.ok ?_
    dsimp only
    rw [hlike.flag_eq, hlike.selectsAt_eq]

/-- The contextual subtables of lookup `k` are applied alike, if calls to the lookups are answered
alike that its records name. -/
theorem applyContextual_eq {lookup : Lookup} (hlookup : list.lookup k = .ok lookup)
    {nested nested' : Applier α} {limit : Nat}
    (hnested : ∀ l ∈ list.named k, ∀ index run,
      nested' ⟨l, limit, index, run⟩ = nested ⟨l, limit, index, run⟩)
    (tables' : List ContextSubtable) (hselect : SelectAlike lookup.contextTables tables') :
    applyContextual nested' limit tables' = applyContextual nested limit lookup.contextTables :=
  hselect.applyContextual_eq fun _ htable _ hrule _ hrecord =>
    hnested _ (mem_named_of_record (lookup_eq_ok_iff.1 hlookup) htable hrule hrecord)

variable [Payload α]

theorem applyNested_eq_of (h : list.ActsLikeFrom list' k) {skip : SkipPredicate} {limit : Nat}
    (hcontextual : ∀ lookup, list.lookup k = .ok lookup →
      ∀ tables', SelectAlike lookup.contextTables tables' →
        list'.contextualAt skip limit tables' =
          list.contextualAt (α := α) skip limit lookup.contextTables)
    (run : Run α) (i : Nat) :
    list'.applyNested skip limit k run i = list.applyNested skip limit k run i := by
  rw [LookupList.applyNested_eq, LookupList.applyNested_eq]
  rcases h.lookup_cases with ⟨e, hlookup, hlookup'⟩ | ⟨lookup, lookup', hlookup, hlookup', hlike⟩
  · rw [hlookup, hlookup']
  · rw [hlookup, hlookup']
    dsimp only
    rw [hlike.applyAt_eq skip (hcontextual lookup hlookup)]

theorem applyNested_eq (h : list.ActsLikeFrom list' k) (skip : SkipPredicate) (limit : Nat)
    (run : Run α) (i : Nat) :
    list'.applyNested skip limit k run i = list.applyNested skip limit k run i := by
  induction limit generalizing k run i with
  | zero => exact h.applyNested_eq_of (fun _ _ _ _ => rfl) run i
  | succ limit ih =>
    refine h.applyNested_eq_of (fun lookup hlookup => ?_) run i
    exact applyContextual_eq hlookup fun l hl index run => ih (h.of_mem_named hl) run index

theorem applyLookup_eq (h : list.ActsLikeFrom list' k)
    (hlimit : list'.recursionLimit = list.recursionLimit) (skip : SkipPredicate) (budget : Nat)
    (run : Run α) : list'.applyLookup skip budget k run = list.applyLookup skip budget k run := by
  unfold applyLookup
  rcases h.lookup_cases with ⟨e, hlookup, hlookup'⟩ | ⟨lookup, lookup', hlookup, hlookup', hlike⟩
  · rw [hlookup, hlookup']
  · have hcalls : ∀ l ∈ list.named k, ∀ index (run : Run α),
        list'.applier skip ⟨l, list.recursionLimit, index, run⟩ =
          list.applier skip ⟨l, list.recursionLimit, index, run⟩ :=
      fun l hl index run => (h.of_mem_named hl).applyNested_eq skip _ run index
    rw [hlookup, hlookup']
    dsimp only
    rw [visit, visit, hlimit, hlike.flag_eq,
      hlike.applyAt_eq skip (applyContextual_eq hlookup hcalls)]

/-- What lookup `k` comes to depends on the lookups that it involves, and only on what they do. -/
theorem sameAnswers (h : list.ActsLikeFrom list' k)
    (hlimit : list'.recursionLimit = list.recursionLimit) (skip : SkipPredicate) :
    SameAnswers α list list' skip k where
  wouldApply := h.wouldApply_eq skip
  applyNested := h.applyNested_eq skip
  applyLookup := h.applyLookup_eq hlimit skip

end ActsLikeFrom

namespace ActsLike

theorem actsLikeFrom (h : list.ActsLike list') (k : Nat) : list.ActsLikeFrom list' k :=
  fun l _ => h.lookups l

/-- A dry run of the one list is one of the other. -/
theorem wouldApply_eq (h : list.ActsLike list') (skip : SkipPredicate) (k : Nat)
    (gids : List GlyphId) (i : Nat) :
    list'.wouldApply skip k gids i = list.wouldApply skip k gids i :=
  (h.actsLikeFrom k).wouldApply_eq skip gids i

variable [Payload α]

/-- Nested calls of the one list are those of the other, at every limit. -/
theorem applyNested_eq (h : list.ActsLike list') (skip : SkipPredicate) (limit k : Nat)
    (run : Run α) (i : Nat) :
    list'.applyNested skip limit k run i = list.applyNested skip limit k run i :=
  (h.actsLikeFrom k).applyNested_eq skip limit run i

/-- Passes with the one list are those with the other, within every budget. -/
theorem applyLookup_eq (h : list.ActsLike list') (skip : SkipPredicate) (budget k : Nat)
    (run : Run α) : list'.applyLookup skip budget k run = list.applyLookup skip budget k run :=
  (h.actsLikeFrom k).applyLookup_eq h.limit skip budget run

/-- Lists that act alike do so with any other limit. -/
theorem withRecursionLimit (h : list.ActsLike list') (limit : Nat) :
    (list.withRecursionLimit limit).ActsLike (list'.withRecursionLimit limit) :=
  ⟨h.lookups, rfl⟩

end ActsLike

/-! ## Lookups that are not involved -/

/-- Lookups that lookup `k` does not involve may be exchanged for others, and more or fewer of them
may follow: dry runs, nested calls and passes with lookup `k` come to the same.  So they do with all
lookups of a list after more lookups have been put at its end, whatever the recursion limit. -/
theorem only_involved_matter (α : Type u) [Payload α] (skip : SkipPredicate) :
    (∀ (list list' : LookupList) (k : Nat), list'.recursionLimit = list.recursionLimit →
        (∀ l, list.Involves k l → list'.lookups[l]? = list.lookups[l]?) →
          SameAnswers α list list' skip k) ∧
      ∀ (lookups more : List Lookup) (list list' : LookupList), ofLookups lookups = .ok list →
        ofLookups (lookups ++ more) = .ok list' → ∀ bound, ∀ k < lookups.length,
          SameAnswers α (list.withRecursionLimit bound) (list'.withRecursionLimit bound) skip k := by
  refine ⟨fun list list' k hlimit hsame =>
    (ActsLikeFrom.of_same hsame).sameAnswers hlimit skip, ?_⟩
  intro lookups more list list' hlist hlist' bound k hk
  have hlookups : list.lookups = lookups := lookups_of_ofLookups hlist
  have hlookups' : list'.lookups = lookups ++ more := lookups_of_ofLookups hlist'
  have hsame : ∀ l, list.Involves k l → list'.lookups[l]? = list.lookups[l]? := by
    intro l hl
    -- records of the shorter list name none but its own lookups
    have hlt : l < lookups.length := by
      refine hl.of_closed (S := (· < lookups.length)) hk fun m _ n hn => ?_
      rw [← hlookups]
      exact lt_length_of_mem_named hn
    rw [hlookups', hlookups, List.getElem?_append_left hlt]
  have hlike : (list.withRecursionLimit bound).ActsLikeFrom (list'.withRecursionLimit bound) k :=
    ActsLikeFrom.of_same hsame
  exact hlike.sameAnswers rfl skip

/-- Where a 5 follows a 4, lookup 0 calls lookup 1 at the 5, which makes it a 6, and then itself at
the 4. -/
def recurring : List Lookup :=
  [⟨{}, .contextual .simple
      [⟨Coverage.ofList [(4, [.simple [5] [⟨1, 1⟩, ⟨0, 0⟩]])], by decide⟩]⟩,
    ⟨{}, .single [Coverage.ofList [(5, 6)]]⟩]

/-- The lookups of `recurring` before one that makes a 6 a 7. -/
def recurringBeforeSingle : LookupList :=
  ofFaultless (recurring ++ [⟨{}, .single [Coverage.ofList [(6, 7)]]⟩]) (by decide)

/-- The lookups of `recurring` before one that removes a 6 and one that does nothing. -/
def recurringBeforeMultiple : LookupList :=
  ofFaultless (recurring ++ [⟨{}, .multiple [Coverage.ofList [(6, [])]]⟩, ⟨{}, .single []⟩])
    (by decide)

/-- Lookup 0 does the same in both lists, though it calls itself in them and lookup 2 does not do
the same; and it does so in the list without lookup 2. -/
theorem recurring_involves_no_more :
    (recurringBeforeMultiple.recursionLimit = recurringBeforeSingle.recursionLimit ∧
        (∀ l, recurringBeforeSingle.Involves 0 l →
          recurringBeforeMultiple.lookups[l]? = recurringBeforeSingle.lookups[l]?) ∧
        ∃ o, recurringBeforeSingle.applyLookup .nothing 2 0 [Glyph.ofId 4 (), .ofId 5 ()] =
            some o ∧
          o.run.gids = [4, 6] ∧
          recurringBeforeMultiple.applyLookup .nothing 2 0 [Glyph.ofId 4 (), .ofId 5 ()] =
            some o) ∧
      ∃ list, ofLookups recurring = .ok list ∧
        ofLookups (recurring ++ [⟨{}, .single [Coverage.ofList [(6, 7)]]⟩]) =
          .ok recurringBeforeSingle ∧
        0 < recurring.length ∧
        SameAnswers Unit (list.withRecursionLimit 6) (recurringBeforeSingle.withRecursionLimit 6)
          .nothing 0 := by
  obtain ⟨hexchange, hmore⟩ := only_involved_matter Unit .nothing
  have hinvolved : ∀ l, recurringBeforeSingle.Involves 0 l →
      recurringBeforeMultiple.lookups[l]? = recurringBeforeSingle.lookups[l]? := by
    intro l hl
    have hlt : l < 2 := by
      refine hl.of_closed (S := (· < 2)) Nat.zero_lt_two fun m hm n hn => ?_
      have hnamed : ∀ m < 2, ∀ n ∈ recurringBeforeSingle.named m, n < 2 := by decide
      exact hnamed m hm n hn
    exact (List.getElem?_append_left hlt).trans (List.getElem?_append_left hlt).symm
  constructor
  · obtain ⟨o, ho, hgids⟩ : ∃ o, recurringBeforeSingle.applyLookup .nothing 2 0
        [Glyph.ofId 4 (), .ofId 5 ()] = some o ∧ o.run.gids = [4, 6] := ⟨_, rfl, by decide⟩
    refine ⟨rfl, hinvolved, o, ho, hgids, ?_⟩
    have hsame := hexchange recurringBeforeSingle recurringBeforeMultiple 0 rfl hinvolved
    exact (hsame.applyLookup 2 _).trans ho
  · have hlist : ofLookups recurring = .ok (ofFaultless recurring (by decide)) :=
      ofLookups_eq_ok _
    have hlonger : ofLookups (recurring ++ [⟨{}, .single [Coverage.ofList [(6, 7)]]⟩]) =
        .ok recurringBeforeSingle := ofLookups_eq_ok _
    exact ⟨_, hlist, hlonger, Nat.zero_lt_two, hmore _ _ _ _ hlist hlonger 6 0 Nat.zero_lt_two⟩

end LookupList

end GlyphSubstitution
