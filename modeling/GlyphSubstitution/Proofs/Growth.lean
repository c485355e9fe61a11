import GlyphSubstitution.Proofs.DryRun

/-!
# How much longer runs get

Only multiple substitution makes a run longer.  A contextual lookup does so by the lookups that the
records of its rules call, and these may be contextual again; so how many glyphs one application of
a lookup can add, its `LookupList.growth`, is defined along the limit on nesting, with the sum over
the records of a rule and the greatest of these sums over the rules.  `length_applyNested_le` is the
bound, whether the application succeeds or is broken off.

A pass with a contextual lookup moves on by what its match covered before anything was edited.  If
no rule can add more glyphs than it has input glyphs after the start glyph, that is more than what
is added, and the pass ends (`ends_within_length`).  Without that condition it need not, for the
scan may run after an end that it keeps pushing away (`runaway_never_ends`).
-/

namespace GlyphSubstitution

universe u

variable {α : Type u}

/-! ## Growth -/

/-- The greatest of these numbers, zero if there is none. -/
def greatest (ns : List Nat) : Nat := ns.max?.getD 0

theorem le_greatest {n : Nat} {ns : List Nat} (h : n ∈ ns) : n ≤ greatest ns :=
  List.le_max?_getD_of_mem h

/-- How many glyphs working off records can add, if a call to each lookup can add as many as
`called` says. -/
def recordsGrowth (called : Nat → Nat) : List SequenceLookup → Nat
  | [] => 0
  | record :: rest => called record.lookupIndex.toNat + recordsGrowth called rest

/-- How many glyphs contextual subtables can add, if a call to each lookup can add as many as
`called` says. -/
def rulesGrowth (called : Nat → Nat) (tables : List ContextSubtable) : Nat :=
  greatest ((tables.flatMap (·.allRules)).map fun rule => recordsGrowth called rule.records)

/-- How many glyphs applying the lookup once can add, if contextual subtables can add as many as
`contextual` says. -/
def Lookup.growth (lookup : Lookup) (contextual : List ContextSubtable → Nat) : Nat :=
  match lookup.subtables with
  | .single _ => 0
  | .multiple _ => greatest (lookup.sequences.map List.length) - 1
  | .ligature _ => 0
  | .contextual _ tables => contextual tables

/-- How many glyphs a call to lookup `k` can add within a limit on nesting.  Past the end of the
limit contextual lookups are refused, and add nothing. -/
def LookupList.growth (list : LookupList) : Nat → Nat → Nat
  | 0, k => list.lookups[k]?.elim 0 (·.growth fun _ => 0)
  | limit + 1, k => list.lookups[k]?.elim 0 (·.growth (rulesGrowth (list.growth limit)))

theorem recordsGrowth_le_rulesGrowth {called : Nat → Nat} {tables : List ContextSubtable}
    {table : ContextSubtable} (htable : table ∈ tables) {rule : ContextRule}
    (hrule : rule ∈ table.allRules) :
    recordsGrowth called rule.records ≤ rulesGrowth called tables :=
  le_greatest (List.mem_map.2 ⟨rule, List.mem_flatMap.2 ⟨table, htable, hrule⟩, rfl⟩)

/-! ## Records -/

theorem length_applyRecords_le {nested : Applier α} {limit : Nat} {called : Nat → Nat}
    (h : ∀ k i run, (nested ⟨k, limit, i, run⟩).run.length ≤ run.length + called k)
    (records : List SequenceLookup) (a : Application α) :
    (applyRecords nested limit records a).run.length ≤
      a.run.length + recordsGrowth called records := by
  induction records generalizing a with
  | nil => exact Nat.le_refl _
  | cons record rest ih =>
    rw [applyRecords_cons, recordsGrowth]
    cases a.target? record with
    | none =>
      have hrest := ih a
      dsimp only
      omega
    | some index =>
      have hcall := h record.lookupIndex.toNat index a.run
      dsimp only
      generalize nested ⟨record.lookupIndex.toNat, limit, index, a.run⟩ = o at hcall ⊢
      obtain ⟨run, result⟩ := o
      cases result with
      | error e =>
        dsimp only at hcall ⊢
        omega
      | ok changed =>
        have hrest : _ ≤ run.length + _ := ih (a.afterCall record run changed)
        dsimp only at hcall ⊢
        omega

/-- Where a rule is applied, its records bound what is added. -/
theorem length_applyContextual_cases {nested : Applier α} {limit : Nat} {called : Nat → Nat}
    (h : ∀ k i run, (nested ⟨k, limit, i, run⟩).run.length ≤ run.length + called k)
    (tables : List ContextSubtable) (f : GlyphFilter) (run : Run α) (i : Nat) :
    applyContextual nested limit tables f run i = ⟨run, .ok none⟩ ∨
      ∃ table ∈ tables, ∃ rule ∈ table.allRules,
        (applyContextual nested limit tables f run i).run.length ≤
            run.length + recordsGrowth called rule.records ∧
          ∀ applied, (applyContextual nested limit tables f run i).result = .ok applied →
            rule.input.length < stride applied := by
  rw [applyContextual_eq]
  cases hfound : selectRule? tables f run.gids i with
  | none => exact Or.inl rfl
  | some found =>
    obtain ⟨table, htable, rule, hrule, hmatch, hrecords⟩ := exists_rule_of_selectRule? hfound
    refine Or.inr ⟨table, htable, rule, hrule, ?_, fun applied happlied => ?_⟩
    · rw [hrecords]
      exact length_applyRecords_le h found.records ⟨run, found.context.positions, false⟩
    · obtain ⟨changed, -, rfl⟩ := Outcome.result_map_eq_ok_iff.1 happlied
      exact (ContextPattern.length_bounds hmatch).1

theorem length_applyContextual_le {nested : Applier α} {limit : Nat} {called : Nat → Nat}
    (h : ∀ k i run, (nested ⟨k, limit, i, run⟩).run.length ≤ run.length + called k)
    (tables : List ContextSubtable) (f : GlyphFilter) (run : Run α) (i : Nat) :
    (applyContextual nested limit tables f run i).run.length ≤
      run.length + rulesGrowth called tables := by
  rcases length_applyContextual_cases h tables f run i with
    hidle | ⟨table, htable, rule, hrule, hlength, -⟩
  · rw [hidle]
    exact Nat.le_add_right _ _
  · exact hlength.trans (Nat.add_le_add_left (recordsGrowth_le_rulesGrowth htable hrule) _)

/-- If no rule can add more glyphs than it has input glyphs after the start glyph, scans with
contextual subtables advance. -/
theorem applyContextual_advances {nested : Applier α} {limit : Nat} {called : Nat → Nat}
    (h : ∀ k i run, (nested ⟨k, limit, i, run⟩).run.length ≤ run.length + called k)
    {tables : List ContextSubtable}
    (hrules : ∀ table ∈ tables, ∀ rule ∈ table.allRules,
      recordsGrowth called rule.records ≤ rule.input.length) (f f' : GlyphFilter) :
    Advances f' (applyContextual nested limit tables f) := by
  intro run i applied _ hresult
  rcases length_applyContextual_cases h tables f run i with
    hidle | ⟨table, htable, rule, hrule, hlength, hstride⟩
  · rw [hidle] at hresult ⊢
    rw [← Except.ok.inj hresult]
    exact Nat.lt_succ_self _
  · have hadded := hrules table htable rule hrule
    have hcovered := hstride applied hresult
    omega

/-- With every step of a scan whose visits advance, the end of the run comes nearer to the cursor or
falls further behind it. -/
theorem Scan.distance_lt_of_moved {f : GlyphFilter} {visit : Visit α} (h : Advances f visit)
    {s next : Scan α} (hs : s.step f visit = .moved next) :
    (next.run.length : Int) - next.cursor < s.run.length - s.cursor := by
  obtain ⟨-, rfl | ⟨hsees, applied, hresult, hrun, hcursor⟩⟩ := moved_by_stride hs
  · simp only [pass]
    omega
  · have hgrowth := h s.run s.cursor applied hsees hresult
    rw [hrun, hcursor]
    omega

/-! ## Lookups -/

variable [Payload α]

/-- A lookup adds no more than its growth, if contextual subtables do not. -/
theorem Lookup.length_applyAt_le {lookup : Lookup} {skip : SkipPredicate}
    {contextual : List ContextSubtable → GlyphFilter → Run α → Nat → Outcome α (Option Applied)}
    {added : List ContextSubtable → Nat}
    (h : ∀ tables f run i, (contextual tables f run i).run.length ≤ run.length + added tables)
    (run : Run α) (i : Nat) :
    (lookup.applyAt skip contextual run i).run.length ≤ run.length + lookup.growth added := by
  -- a bound on what an edit adds is a law of edits, whatever stands before the edited glyph
  have hedit : ∀ (n : Nat) (edit : Glyph α → Run α → Option (Outcome α Applied)),
      (∀ glyph rest o, edit glyph rest = some o → o.run.length ≤ (glyph :: rest).length + n) →
        (editAt edit run i).run.length ≤ run.length + n := by
    intro n edit hn
    refine editAt_rel (Q := fun run run' => run'.length ≤ run.length + n)
      (fun run => Nat.le_add_right _ _) (fun before run run' hle => ?_) hn run i
    rw [List.length_append, List.length_append]
    omega
  obtain ⟨flag, subtables⟩ := lookup
  cases subtables with
  | single tables =>
    refine hedit 0 _ fun glyph rest o ho => ?_
    obtain ⟨g, -, rfl⟩ := Option.map_eq_some_iff.1 ho
    exact Nat.le_refl _
  | multiple tables =>
    refine hedit _ _ fun glyph rest o ho => ?_
    obtain ⟨gs, hgs, rfl⟩ := Option.map_eq_some_iff.1 ho
    obtain ⟨table, htable, hentry⟩ := Coverage.exists_mem_of_first? hgs
    have hmem : gs ∈ Lookup.sequences ⟨flag, .multiple tables⟩ :=
      List.mem_flatMap.2 ⟨table, htable, List.mem_map_of_mem hentry⟩
    have hlongest : gs.length ≤ _ := le_greatest (List.mem_map_of_mem hmem)
    rw [List.length_append, Glyph.length_expand, List.length_cons]
    dsimp only [growth]
    omega
  | ligature tables =>
    refine hedit 0 _ fun glyph rest o ho => ?_
    obtain ⟨ligature, -, rfl⟩ := Option.map_eq_some_iff.1 ho
    exact ligature.length_fuse_le (skip.filter flag) glyph rest
  | contextual kind tables => exact h tables (skip.filter flag) run i

namespace LookupList

variable {list : LookupList} {skip : SkipPredicate}

theorem length_applyNested_le_of {limit : Nat} {added : List ContextSubtable → Nat}
    (h : ∀ tables f (run : Run α) i,
      (list.contextualAt skip limit tables f run i).run.length ≤ run.length + added tables)
    (k : Nat) (run : Run α) (i : Nat) :
    (list.applyNested skip limit k run i).run.length ≤
      run.length + list.lookups[k]?.elim 0 (·.growth added) := by
  rw [applyNested_eq]
  cases hlookup : list.lookup k with
  | error e => exact Nat.le_add_right _ _
  | ok lookup =>
    rw [lookup_eq_ok_iff.1 hlookup]
    dsimp only
    split
    · exact Lookup.length_applyAt_le h run i
    · exact Nat.le_add_right _ _

/-- A call adds no more glyphs than the growth of its lookup, be it that it succeeds or fails. -/
theorem length_applyNested_le (limit k : Nat) (run : Run α) (i : Nat) :
    (list.applyNested skip limit k run i).run.length ≤ run.length + list.growth limit k := by
  induction limit generalizing k run i with
  | zero => exact length_applyNested_le_of (fun _ _ _ _ => Nat.le_refl _) k run i
  | succ limit ih =>
    have hcalls : ∀ k i (run : Run α), (list.applier skip ⟨k, limit, i, run⟩).run.length ≤
        run.length + list.growth limit k := fun k i run => ih k run i
    exact length_applyNested_le_of (length_applyContextual_le hcalls) k run i

/-- Let lookup `k` be one that edits glyphs itself, or a contextual one none of whose rules can add
more glyphs than it has input glyphs after the start glyph.  Then a pass with it ends, with an error
or without, in no more steps than the run has glyphs to begin with; for with every step that it goes
on there are fewer glyphs ahead of its cursor. -/
theorem ends_within_length (list : LookupList) (skip : SkipPredicate) {k : Nat}
    (h : ∀ lookup, list.lookup k = .ok lookup → ∀ table ∈ lookup.contextTables,
      ∀ rule ∈ table.allRules,
        recordsGrowth (list.growth list.recursionLimit) rule.records ≤ rule.input.length)
    (run : Run α) :
    (∃ o, list.applyLookup skip run.length k run = some o) ∧
      ∀ lookup, list.lookup k = .ok lookup → ∀ s next : Scan α,
        s.step (skip.filter lookup.flag) (list.visit skip lookup) = .moved next →
          (next.run.length : Int) - next.cursor < s.run.length - s.cursor := by
  have hadvances : ∀ lookup, list.lookup k = .ok lookup →
      Advances (skip.filter lookup.flag) (list.visit (α := α) skip lookup) := by
    intro lookup hlookup
    have hrules := h lookup hlookup
    by_cases hkind : lookup.isContextual = true
    · have hcalls : ∀ k i (run : Run α),
          (list.applier skip ⟨k, list.recursionLimit, i, run⟩).run.length ≤
            run.length + list.growth list.recursionLimit k :=
        fun k i run => length_applyNested_le list.recursionLimit k run i
      obtain ⟨flag, subtables⟩ := lookup
      cases subtables with
      | contextual kind tables => exact applyContextual_advances hcalls hrules _ _
      | _ => nomatch hkind
    · exact visit_advances (eq_false_of_ne_true hkind) _
  constructor
  · rw [applyLookup]
    cases hlookup : list.lookup k with
    | error e => exact ⟨_, rfl⟩
    | ok lookup =>
      exact Scan.exists_finish (s := { run }) (hadvances lookup hlookup) (Nat.le_refl _)
  · exact fun lookup hlookup s next hs => Scan.distance_lt_of_moved (hadvances lookup hlookup) hs

/-- Lookup 2 doubles a 4; lookup 1 calls it at every 4, and lookup 0 calls lookup 1 at a 4 that a 5
follows. -/
def stretching : LookupList :=
  ofFaultless
    [⟨{}, .contextual .simple [⟨Coverage.ofList [(4, [.simple [5] [⟨0, 1⟩]])], by decide⟩]⟩,
      ⟨{}, .contextual .simple [⟨Coverage.ofList [(4, [.simple [] [⟨0, 2⟩]])], by decide⟩]⟩,
      ⟨{}, .multiple [Coverage.ofList [(4, [4, 4])]]⟩]
    (by decide)

/-- Lookup 0 covers two glyphs and adds one, two levels down, and so its pass ends after no more
steps than there were glyphs. -/
theorem stretching_ends :
    (∀ lookup, stretching.lookup 0 = .ok lookup → ∀ table ∈ lookup.contextTables,
        ∀ rule ∈ table.allRules,
          recordsGrowth (stretching.growth stretching.recursionLimit) rule.records ≤
            rule.input.length) ∧
      ∃ o, stretching.applyLookup .nothing 2 0 [.ofId 4 (), .ofId 5 ()] =
        some o ∧ o.result = .ok true ∧ o.run.gids = [4, 4, 5] := by
  have hrules : ∀ lookup, stretching.lookup 0 = .ok lookup → ∀ table ∈ lookup.contextTables,
      ∀ rule ∈ table.allRules,
        recordsGrowth (stretching.growth stretching.recursionLimit) rule.records ≤
          rule.input.length := by
    intro lookup hlookup
    obtain rfl := Except.ok.inj hlookup
    decide
  refine ⟨hrules, ?_⟩
  obtain ⟨o, ho⟩ := (ends_within_length stretching .nothing hrules
    [Glyph.ofId 4 (), .ofId 5 ()]).1
  obtain ⟨o', ho', hresult, hgids⟩ : ∃ o', stretching.applyLookup .nothing 2 0
      [Glyph.ofId 4 (), .ofId 5 ()] = some o' ∧ o'.result = .ok true ∧
        o'.run.gids = [4, 4, 5] := ⟨_, rfl, rfl, by decide⟩
  obtain rfl : o' = o := Option.some.inj (ho'.symm.trans ho)
  exact ⟨o', ho, hresult, hgids⟩

/-! ### Passes without end -/

/-- Lookup 0 calls lookup 1 at every 4, and lookup 1 doubles it. -/
def runaway : LookupList :=
  ofFaultless
    [⟨{}, .contextual .simple [⟨Coverage.ofList [(4, [.simple [] [⟨0, 1⟩]])], by decide⟩]⟩,
      ⟨{}, .multiple [Coverage.ofList [(4, [4, 4])]]⟩]
    (by decide)

/-- At the last glyph of a run, a 4, lookup 1 leaves two of them. -/
theorem runaway_nested (limit : Nat) (run : Run Unit) {glyph : Glyph Unit}
    (hglyph : glyph.gid = 4) :
    runaway.applyNested .nothing limit 1 (run ++ [glyph]) run.length =
      ⟨run ++ glyph.expand [4, 4], .ok true⟩ := by
  have hlookup : runaway.lookup 1 = .ok ⟨{}, .multiple [Coverage.ofList [(4, [4, 4])]]⟩ := rfl
  have hfirst : Coverage.first? [Coverage.ofList [((4 : GlyphId), [(4 : GlyphId), 4])]] glyph.gid =
      some [4, 4] := by
    rw [hglyph]
    rfl
  have hinside : run.length < (run ++ [glyph]).length := by simp
  rw [applyNested_eq, hlookup]
  dsimp only
  rw [if_pos hinside, Lookup.applyAt]
  dsimp only
  rw [applyMultiple, editAt_append, hfirst]
  simp only [Option.map_some, List.append_nil]
  rfl

/-- So does a visit with lookup 0, which moves on past the first of the two. -/
theorem runaway_visit (run : Run Unit) {glyph : Glyph Unit} (hglyph : glyph.gid = 4)
    {lookup : Lookup} (hlookup : runaway.lookup 0 = .ok lookup) :
    runaway.visit .nothing lookup (run ++ [glyph]) run.length =
      ⟨run ++ glyph.expand [4, 4], .ok (some ⟨1, true⟩)⟩ := by
  obtain rfl := Except.ok.inj hlookup
  have hselect : selectRule? [⟨Coverage.ofList [(4, [.simple [] [⟨0, 1⟩]])], by decide⟩]
      (SkipPredicate.nothing.filter {}) (Run.gids (run ++ [glyph])) run.length =
        some ⟨⟨run.length, []⟩, [⟨0, 1⟩]⟩ := by
    rw [selectRule?, Run.getElem?_gids_append, hglyph, Option.bind_some]
    show [ContextRule.simple [] [⟨0, 1⟩]].findSome? _ = _
    simp [ContextRule.match?, ContextPattern.match?, ContextRule.pattern, ContextRule.records,
      ContextRule.backtrack, ContextRule.input, ContextRule.lookahead]
  have htarget : Application.target? ⟨run ++ [glyph], [run.length], false⟩ ⟨0, 1⟩ =
      some run.length := Application.target?_eq_some_iff.2 ⟨rfl, by simp⟩
  have hcall :
      runaway.applier .nothing ⟨1, runaway.recursionLimit, run.length, run ++ [glyph]⟩ = _ :=
    runaway_nested runaway.recursionLimit run hglyph
  show applyContextual _ _ _ _ _ _ = _
  rw [applyContextual_eq, hselect]
  dsimp only [ContextMatch.positions]
  rw [applyRecords_cons, htarget]
  dsimp only
  rw [show (1 : UInt16).toNat = 1 from rfl, hcall]
  simp [Outcome.map, Except.map, Application.afterCall, ContextMatch.length, ContextMatch.last]

/-- A rule that adds a glyph for every glyph that it covers sends the scan after an end that moves
away from it. -/
theorem runaway_never_ends (budget : Nat) :
    runaway.applyLookup .nothing budget 0 [Glyph.ofId 4 ()] = none := by
  obtain ⟨lookup, hlookup⟩ : ∃ lookup, runaway.lookup 0 = .ok lookup := ⟨_, rfl⟩
  -- wherever the scan comes, one 4 is left ahead of it
  have hway : ∀ (run : Run Unit) (glyph : Glyph Unit) changed, glyph.gid = 4 →
      Scan.finish (SkipPredicate.nothing.filter lookup.flag) (runaway.visit .nothing lookup) budget
        ⟨run ++ [glyph], run.length, changed⟩ = none := by
    induction budget with
    | zero =>
      intro run glyph changed _
      rw [Scan.finish_zero, if_pos (by simp)]
    | succ budget ih =>
      intro run glyph changed hglyph
      have hsees : (SkipPredicate.nothing.filter lookup.flag).seesAt (Run.gids (run ++ [glyph]))
          run.length = true := by
        rw [GlyphFilter.seesAt, Run.getElem?_gids_append]
        rfl
      have hvisit := runaway_visit run hglyph hlookup
      rw [Scan.finish_succ, Scan.step_of_seesAt hsees, Scan.after, hvisit]
      have hnext := ih (run ++ [glyph.replaceBy 4]) (glyph.duplicateAs 4) (changed || true) rfl
      rw [List.length_append, List.append_assoc] at hnext
      exact hnext
  rw [applyLookup, hlookup]
  exact hway [] (Glyph.ofId 4 ()) false rfl

end LookupList

end GlyphSubstitution
