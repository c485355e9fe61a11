import GlyphSubstitution.Proofs.EditRelations
import GlyphSubstitution.Proofs.EditingByPosition

/-!
# How deep lookups nest

A lookup list is checked when it is built, so nothing but the depth of nesting can go wrong when its
lookups are applied.  An error that a contextual lookup ends with is that of a call which one of its
records makes (`exists_record_of_error`), the record names a lookup of the list, and the lookups that
edit glyphs themselves do not fail as long as the components of a ligature can be counted in a word.
Followed down to where it comes from, an error is thus always `limitExceeded`, and it comes with a
chain of contextual lookups, each named by a record of the one before, that is longer than the limit
allows (`exists_chain_of_error`).

So passes with a list in which no such chain is longer than the limit succeed.  That they never
reach for a glyph that is not there is `ByPosition.applyLookup_eq`; `fails_only_by_depth` puts the
two together.
-/

namespace GlyphSubstitution

universe u v

variable {α : Type u}

/-! ## Where errors come from -/

theorem Outcome.error_of_map {β γ : Type v} {g : β → γ} {o : Outcome α β} {e : ShapingError}
    (h : (o.map g).result = .error e) : o.result = .error e := by
  rw [Outcome.result_map] at h
  cases hresult : o.result with
  | ok b => rw [hresult] at h; nomatch h
  | error e' =>
    rw [hresult] at h
    exact congrArg Except.error (Except.error.inj h)

/-- An edit fails only if it fails at the glyph that it is applied to. -/
theorem exists_of_editAt_error {β : Type v} {edit : Glyph α → Run α → Option (Outcome α β)}
    {run : Run α} {i : Nat} {e : ShapingError} (h : (editAt edit run i).result = .error e) :
    ∃ glyph rest o, edit glyph rest = some o ∧ o.result = .error e := by
  rcases Nat.lt_or_ge i run.length with hi | hi
  · obtain ⟨before, glyph, rest, rfl, rfl⟩ := exists_append_of_lt hi
    rw [editAt_append] at h
    cases hedit : edit glyph rest with
    | none => rw [hedit] at h; cases h
    | some o =>
      rw [hedit] at h
      exact ⟨glyph, rest, o, hedit, Outcome.error_of_map (g := some) h⟩
  · rw [editAt, List.drop_eq_nil_of_le hi] at h
    cases h

/-- Records fail only if one of the calls fails that they make. -/
theorem applyRecords_error {nested : Applier α} {limit : Nat} {records : List SequenceLookup}
    {a : Application α} {e : ShapingError}
    (h : (applyRecords nested limit records a).result = .error e) :
    ∃ record ∈ records, ∃ i run,
      (nested ⟨record.lookupIndex.toNat, limit, i, run⟩).result = .error e := by
  induction records generalizing a with
  | nil => nomatch h
  | cons record rest ih =>
    have hlater : ∀ {a : Application α},
        (applyRecords nested limit rest a).result = .error e →
          ∃ record' ∈ record :: rest, ∃ i run,
            (nested ⟨record'.lookupIndex.toNat, limit, i, run⟩).result = .error e := by
      intro a hrest
      obtain ⟨record', hmem, herror⟩ := ih hrest
      exact ⟨record', List.mem_cons_of_mem record hmem, herror⟩
    rw [applyRecords_cons] at h
    cases htarget : a.target? record with
    | none =>
      rw [htarget] at h
      exact hlater h
    | some index =>
      rw [htarget] at h
      dsimp only at h
      cases hresult : (nested ⟨record.lookupIndex.toNat, limit, index, a.run⟩).result with
      | error e' =>
        rw [hresult] at h
        exact ⟨record, List.mem_cons_self, index, a.run, hresult.trans h⟩
      | ok changed =>
        rw [hresult] at h
        exact hlater h

/-- Contextual subtables fail only if a call fails that a record of one of their rules makes. -/
theorem exists_record_of_error {nested : Applier α} {limit : Nat} {tables : List ContextSubtable}
    {f : GlyphFilter} {run : Run α} {i : Nat} {e : ShapingError}
    (h : (applyContextual nested limit tables f run i).result = .error e) :
    ∃ table ∈ tables, ∃ rule ∈ table.allRules, ∃ record ∈ rule.records, ∃ i run,
      (nested ⟨record.lookupIndex.toNat, limit, i, run⟩).result = .error e := by
  rw [applyContextual_eq] at h
  cases hfound : selectRule? tables f run.gids i with
  | none => rw [hfound] at h; nomatch h
  | some found =>
    rw [hfound] at h
    obtain ⟨table, htable, rule, hrule, -, hrecords⟩ := exists_rule_of_selectRule? hfound
    obtain ⟨record, hrecord, herror⟩ := applyRecords_error (Outcome.error_of_map h)
    exact ⟨table, htable, rule, hrule, record, hrecords ▸ hrecord, herror⟩

/-- A scan fails only if one of its visits fails. -/
theorem Scan.exists_visit_of_error {f : GlyphFilter} {visit : Visit α} {budget : Nat} {s : Scan α}
    {o : Outcome α Bool} {e : ShapingError} (ho : s.finish f visit budget = some o)
    (he : o.result = .error e) : ∃ run i, i < run.length ∧ (visit run i).result = .error e := by
  obtain ⟨s', -, hstopped⟩ := exists_stopped_of_finish ho
  rcases stopped_cases hstopped with ⟨-, rfl⟩ | ⟨glyph, e', hglyph, -, herror, rfl⟩
  · nomatch he
  · obtain rfl := Except.error.inj he
    exact ⟨s'.run, s'.cursor, (List.getElem?_eq_some_iff.1 hglyph).1, herror⟩

/-! ## Ligatures -/

variable [Payload α]

/-- Components can be counted as long as there are no more of them than a word can tell. -/
theorem passed_absorbFrom (f : GlyphFilter) {wanted : Nat} (hwanted : wanted ≤ UInt16.size)
    (taken : Nat) (head : Glyph α) (rest : Run α) :
    ∃ passed, (absorbFrom f wanted taken head rest).passed = .ok passed := by
  fun_induction absorbFrom f wanted taken head rest with
  | case1 taken head => exact ⟨0, rfl⟩
  | case2 taken head glyph rest hdone => exact ⟨0, rfl⟩
  | case3 taken head glyph rest hmore hsees ih => exact ih
  | case4 taken head glyph rest hmore hsees e hplace =>
    obtain ⟨-, htoo⟩ := toWord_eq_error_iff.1 hplace
    omega
  | case5 taken head glyph rest hmore hsees place hplace further ih =>
    obtain ⟨passed, hpassed⟩ := ih
    exact ⟨passed + 1, by rw [hpassed]; rfl⟩

theorem Ligature.exists_fuse_ok {ligature : Ligature}
    (h : ligature.components.length ≤ UInt16.size) (f : GlyphFilter) (head : Glyph α)
    (rest : Run α) : ∃ passed, (ligature.fuse f head rest).result = .ok passed := by
  obtain ⟨passed, hpassed⟩ := passed_absorbFrom f h 0 head rest
  exact ⟨passed, by rw [fuse, hpassed]⟩

namespace Lookup

/-- The ligatures that the lookup can form. -/
def ligatures (lookup : Lookup) : List Ligature :=
  match lookup.subtables with
  | .ligature tables => tables.flatMap fun table => table.entries.flatMap (·.2)
  | _ => []

/-- A lookup that edits glyphs itself does not fail. -/
theorem applyAt_ne_error {lookup : Lookup} {skip : SkipPredicate}
    (hkind : lookup.isContextual = false)
    (hligatures : ∀ ligature ∈ lookup.ligatures, ligature.components.length ≤ UInt16.size)
    (contextual : List ContextSubtable → GlyphFilter → Run α → Nat → Outcome α (Option Applied))
    (run : Run α) (i : Nat) (e : ShapingError) :
    (lookup.applyAt skip contextual run i).result ≠ .error e := by
  intro h
  obtain ⟨flag, subtables⟩ := lookup
  cases subtables with
  | single tables =>
    obtain ⟨glyph, rest, o, ho, he⟩ := exists_of_editAt_error h
    obtain ⟨g, -, rfl⟩ := Option.map_eq_some_iff.1 ho
    nomatch he
  | multiple tables =>
    obtain ⟨glyph, rest, o, ho, he⟩ := exists_of_editAt_error h
    obtain ⟨gs, -, rfl⟩ := Option.map_eq_some_iff.1 ho
    nomatch he
  | ligature tables =>
    obtain ⟨glyph, rest, o, ho, he⟩ := exists_of_editAt_error h
    obtain ⟨ligature, hselect, rfl⟩ := Option.map_eq_some_iff.1 ho
    obtain ⟨g, -, hligature⟩ := Option.bind_eq_some_iff.1 hselect
    obtain ⟨table, htable, entry, hentry, hmem⟩ := exists_mem_of_ligatureFor? hligature
    have hin : ligature ∈ Lookup.ligatures ⟨flag, .ligature tables⟩ :=
      List.mem_flatMap.2 ⟨table, htable, List.mem_flatMap.2 ⟨entry, hentry, hmem⟩⟩
    obtain ⟨passed, hok⟩ :=
      Ligature.exists_fuse_ok (hligatures ligature hin) (skip.filter flag) glyph rest
    have herror := Outcome.error_of_map he
    rw [hok] at herror
    nomatch herror
  | contextual kind tables => nomatch hkind

end Lookup

/-! ## Chains of contextual lookups -/

namespace LookupList

/-- The ligatures that lookups of the list can form. -/
def ligatures (list : LookupList) : List Ligature := list.lookups.flatMap (·.ligatures)

/-- Whether lookup `k` is contextual. -/
def isContextual (list : LookupList) (k : Nat) : Bool := list.lookups[k]?.any (·.isContextual)

/-- The lookups that records of lookup `k` name. -/
def named (list : LookupList) (k : Nat) : List Nat :=
  list.lookups[k]?.toList.flatMap fun lookup =>
    lookup.contextTables.flatMap fun table =>
      table.allRules.flatMap fun rule => rule.records.map (·.lookupIndex.toNat)

/-- Contextual lookups, each of which has a rule with a record that names the next one. -/
structure NestingChain (list : LookupList) (chain : List Nat) : Prop where
  contextual : ∀ k ∈ chain, list.isContextual k = true
  names : chain.IsChain fun k l => l ∈ list.named k

variable {list : LookupList} {skip : SkipPredicate}

theorem mem_named_of_record {k : Nat} {lookup : Lookup} (hlookup : list.lookups[k]? = some lookup)
    {table : ContextSubtable} (htable : table ∈ lookup.contextTables) {rule : ContextRule}
    (hrule : rule ∈ table.allRules) {record : SequenceLookup} (hrecord : record ∈ rule.records) :
    record.lookupIndex.toNat ∈ list.named k := by
  rw [named, hlookup]
  refine List.mem_flatMap.2 ⟨lookup, List.mem_singleton_self lookup, ?_⟩
  refine List.mem_flatMap.2 ⟨table, htable, List.mem_flatMap.2 ⟨rule, hrule, ?_⟩⟩
  exact List.mem_map_of_mem hrecord

theorem lt_length_of_isContextual {k : Nat} (h : list.isContextual k = true) : k < list.length := by
  by_contra hge
  rw [isContextual, List.getElem?_eq_none (Nat.not_lt.1 hge)] at h
  nomatch h

/-- Records name lookups of the list, since it has been checked. -/
theorem lt_length_of_mem_named {k l : Nat} (h : l ∈ list.named k) : l < list.length := by
  obtain ⟨lookup, hlookup, h⟩ := List.mem_flatMap.1 h
  obtain ⟨table, htable, h⟩ := List.mem_flatMap.1 h
  obtain ⟨rule, hrule, h⟩ := List.mem_flatMap.1 h
  obtain ⟨record, hrecord, rfl⟩ := List.mem_map.1 h
  have hmem := List.mem_of_getElem? (Option.mem_toList.1 hlookup)
  have hwellFormed := list.wellFormed lookup hmem
  obtain ⟨flag, subtables⟩ := lookup
  cases subtables with
  | contextual kind tables => exact (hwellFormed table htable rule hrule).2 record hrecord
  | _ => nomatch htable

/-- Chains are no longer than contextual lookups can be ranked, with those of lower rank named by
those of higher rank. -/
theorem NestingChain.length_le {rank : Nat → Nat}
    (hrank : ∀ k < list.length, ∀ l ∈ list.named k, list.isContextual l = true → rank l < rank k)
    {k : Nat} {chain : List Nat} (h : list.NestingChain (k :: chain)) : chain.length ≤ rank k := by
  induction chain generalizing k with
  | nil => exact Nat.zero_le _
  | cons l chain ih =>
    obtain ⟨hk, hcontextual⟩ := List.forall_mem_cons.1 h.contextual
    obtain ⟨hl, hnames⟩ := List.isChain_cons_cons.1 h.names
    have hrest : chain.length ≤ rank l := ih ⟨hcontextual, hnames⟩
    have hlower := hrank k (lt_length_of_isContextual hk) l hl (hcontextual l List.mem_cons_self)
    exact Nat.lt_of_le_of_lt hrest hlower

/-- A call to a lookup of the list fails only if the lookup is contextual, and then either the limit
has run out or a call fails that one of its records makes. -/
theorem applyNested_error
    (hligatures : ∀ ligature ∈ list.ligatures, ligature.components.length ≤ UInt16.size)
    {limit k : Nat} (hk : k < list.length) {run : Run α} {i : Nat} {e : ShapingError}
    (h : (list.applyNested skip limit k run i).result = .error e) :
    list.isContextual k = true ∧
      (limit = 0 ∧ e = .limitExceeded ∨
        ∃ deeper, limit = deeper + 1 ∧ ∃ l ∈ list.named k, ∃ (run : Run α) (i : Nat),
          (list.applyNested skip deeper l run i).result = .error e) := by
  obtain ⟨lookup, hlookup⟩ : ∃ lookup, list.lookups[k]? = some lookup :=
    ⟨_, List.getElem?_eq_getElem hk⟩
  rw [applyNested_eq, lookup_eq_ok_iff.2 hlookup] at h
  dsimp only at h
  split at h
  case isFalse => nomatch h
  have herror := Outcome.error_of_map h
  -- a lookup that edits glyphs itself cannot have failed
  have hkind : lookup.isContextual = true := by
    by_contra hedits
    refine Lookup.applyAt_ne_error (Bool.eq_false_iff.2 hedits) (fun ligature hmem => ?_) _ run i e
      herror
    exact hligatures ligature (List.mem_flatMap.2 ⟨lookup, List.mem_of_getElem? hlookup, hmem⟩)
  refine ⟨by rw [isContextual, hlookup]; exact hkind, ?_⟩
  obtain ⟨flag, subtables⟩ := lookup
  cases subtables with
  | contextual kind tables =>
    cases limit with
    | zero => exact Or.inl ⟨rfl, (Except.error.inj herror).symm⟩
    | succ deeper =>
      obtain ⟨table, htable, rule, hrule, record, hrecord, i, run, hcall⟩ :=
        exists_record_of_error herror
      exact Or.inr
        ⟨deeper, rfl, _, mem_named_of_record hlookup htable hrule hrecord, run, i, hcall⟩
  | _ => nomatch hkind

/-- A call to a lookup of the list fails only because the limit has run out, and then there is a
chain of contextual lookups that has used it up. -/
theorem exists_chain_of_error
    (hligatures : ∀ ligature ∈ list.ligatures, ligature.components.length ≤ UInt16.size)
    {limit k : Nat} (hk : k < list.length) {run : Run α} {i : Nat} {e : ShapingError}
    (h : (list.applyNested skip limit k run i).result = .error e) :
    e = .limitExceeded ∧ ∃ chain, list.NestingChain (k :: chain) ∧ chain.length = limit := by
  induction limit generalizing k run i with
  | zero =>
    obtain ⟨hkind, ⟨-, rfl⟩ | ⟨deeper, hdeeper, -⟩⟩ := applyNested_error hligatures hk h
    · exact ⟨rfl, [], ⟨by simpa using hkind, .singleton k⟩, rfl⟩
    · nomatch hdeeper
  | succ limit ih =>
    obtain ⟨hkind, ⟨hzero, -⟩ | ⟨deeper, hdeeper, l, hl, run, i, hcall⟩⟩ :=
      applyNested_error hligatures hk h
    · nomatch hzero
    · obtain rfl := Nat.succ.inj hdeeper
      obtain ⟨rfl, chain, hchain, rfl⟩ := ih (lt_length_of_mem_named hl) hcall
      refine ⟨rfl, l :: chain, ⟨?_, List.isChain_cons_cons.2 ⟨hl, hchain.names⟩⟩, rfl⟩
      exact List.forall_mem_cons.2 ⟨hkind, hchain.contextual⟩

/-- Let the ligatures of a list have no more components than a word can count.  A pass with a lookup
of the list that ends has not reached for a glyph that is not there, and it has succeeded or used up
the limit.  It has used up the limit only if there is a chain of contextual lookups from its own on,
each with a record that names the next one, that is longer than the limit allows; if there is none,
it has succeeded. -/
theorem fails_only_by_depth
    (hligatures : ∀ ligature ∈ list.ligatures, ligature.components.length ≤ 65535)
    {k : Nat} (hk : k < list.length) {budget : Nat} {run : Run α} {o : Outcome α Bool}
    (ho : list.applyLookup skip budget k run = some o) :
    ByPosition.applyLookup list skip budget k run = some (some o) ∧
      ((∃ changed, o.result = .ok changed) ∨ o.result = .error .limitExceeded) ∧
      (o.result = .error .limitExceeded →
        ∃ chain, list.NestingChain (k :: chain) ∧ list.recursionLimit < chain.length) ∧
      ((∀ chain, list.NestingChain (k :: chain) → chain.length ≤ list.recursionLimit) →
        ∃ changed, o.result = .ok changed) := by
  have hcount : ∀ ligature ∈ list.ligatures, ligature.components.length ≤ UInt16.size :=
    fun ligature hmem => (hligatures ligature hmem).trans (by decide)
  have herror : ∀ e, o.result = .error e → e = .limitExceeded ∧
      ∃ chain, list.NestingChain (k :: chain) ∧ list.recursionLimit < chain.length := by
    intro e he
    obtain ⟨lookup, hlookup⟩ : ∃ lookup, list.lookup k = .ok lookup :=
      ⟨_, lookup_eq_ok_iff.2 (List.getElem?_eq_getElem hk)⟩
    rw [applyLookup, hlookup] at ho
    obtain ⟨run, i, hi, hvisit⟩ := Scan.exists_visit_of_error ho he
    have hcall : (list.applyNested skip (list.recursionLimit + 1) k run i).result = .error e := by
      rw [← visit_eq_applyNested skip hlookup hi, Outcome.result_map, hvisit]
      rfl
    obtain ⟨rfl, chain, hchain, hlength⟩ := exists_chain_of_error hcount hk hcall
    exact ⟨rfl, chain, hchain, hlength ▸ Nat.lt_succ_self _⟩
  -- so the only question left is whether there is an error at all
  have hends : (∃ changed, o.result = .ok changed) ∨ o.result = .error .limitExceeded := by
    cases hresult : o.result with
    | ok changed => exact Or.inl ⟨changed, rfl⟩
    | error e => exact Or.inr (by rw [(herror e hresult).1])
  refine ⟨by rw [ByPosition.applyLookup_eq, ho], hends, fun hlimit => (herror _ hlimit).2, ?_⟩
  intro hshort
  refine hends.resolve_right fun hlimit => ?_
  obtain ⟨-, chain, hchain, hlong⟩ := herror _ hlimit
  exact Nat.not_lt.2 (hshort chain hchain) hlong

/-- The lookup that invokes lookup `k` at a 4. -/
def invoking (k : UInt16) : Lookup :=
  ⟨{}, .contextual .simple [⟨Coverage.ofList [(4, [.simple [] [⟨0, k⟩]])], by
    intro entry hentry rule hrule
    obtain rfl := List.mem_singleton.1 hentry
    obtain rfl := List.mem_singleton.1 hrule
    exact List.forall_mem_singleton.2 Nat.zero_lt_one⟩]⟩

/-- Each of lookups 0 to 3 invokes the next one at a 4, and lookup 4 makes a 4 and a 5 a 45. -/
def ladder : LookupList :=
  ofFaultless
    [invoking 1, invoking 2, invoking 3, invoking 4,
      ⟨{}, .ligature [Coverage.ofList [(4, [⟨45, [5]⟩])]]⟩]
    (by decide)

/-- From lookup 0 on the ladder is too high for the limit, from lookup 1 on it is not. -/
theorem ladder_fails_only_by_depth :
    (∀ ligature ∈ ladder.ligatures, ligature.components.length ≤ 65535) ∧
      (∃ o, ladder.applyLookup .nothing 2 0 [.ofId 4 (), .ofId 5 ()] = some o ∧
        o.result = .error .limitExceeded ∧
        ∃ chain, ladder.NestingChain (0 :: chain) ∧ 2 < chain.length) ∧
      ∃ o, ladder.applyLookup .nothing 2 1 [.ofId 4 (), .ofId 5 ()] = some o ∧
        o.run.gids = [45] ∧
        (∀ chain, ladder.NestingChain (1 :: chain) → chain.length ≤ 2) ∧
        ∃ changed, o.result = .ok changed := by
  have hligatures : ∀ ligature ∈ ladder.ligatures, ligature.components.length ≤ 65535 := by decide
  have hrank : ∀ k < ladder.length, ∀ l ∈ ladder.named k, ladder.isContextual l = true →
      3 - l < 3 - k := by decide
  have hshort : ∀ chain, ladder.NestingChain (1 :: chain) → chain.length ≤ 2 :=
    fun chain hchain => hchain.length_le hrank
  refine ⟨hligatures, ?_, ?_⟩
  · obtain ⟨o, ho, herror⟩ :
        ∃ o, ladder.applyLookup .nothing 2 0 [.ofId 4 (), .ofId 5 ()] = some o ∧
          o.result = .error .limitExceeded := ⟨_, rfl, rfl⟩
    exact ⟨o, ho, herror, (fails_only_by_depth hligatures (by decide) ho).2.2.1 herror⟩
  · obtain ⟨o, ho, hgids⟩ :
        ∃ o, ladder.applyLookup .nothing 2 1 [.ofId 4 (), .ofId 5 ()] = some o ∧
          o.run.gids = [45] := ⟨_, rfl, rfl⟩
    exact ⟨o, ho, hgids, hshort, (fails_only_by_depth hligatures (by decide) ho).2.2.2 hshort⟩

end LookupList

end GlyphSubstitution
