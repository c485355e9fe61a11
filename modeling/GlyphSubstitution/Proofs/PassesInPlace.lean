import GlyphSubstitution.Proofs.SeenApplications

/-!
# Contextual passes that keep every glyph in its place

If all records of a contextual lookup name single substitutions, then each glyph stays where it is
and only its number changes.  Records then find the input glyphs where they were matched, so a visit
works the match off in place (`LookupList.workedOff`, `worksOff_applyContextual`).

From there on only this property of the visits matters (`WorksOff`).  A step of the scan passes over
a glyph, or edits between the cursor that it starts at and the one that it leads to
(`Scan.step_cases_of_worksOff`).  It follows for the whole way of the scan that ahead of the cursor
stands what stood there at first (`Scan.sameAhead_of_reaches`), so that input and lookahead are
always met in the original run; that matches do not overlap (`Scan.disjoint_of_finds`); and that a
glyph which is not what it was has been edited by one of the matches
(`Scan.exists_finds_of_changed`).
-/

namespace GlyphSubstitution

universe u

variable {α : Type u}

/-! ## Records that name single substitutions -/

namespace Lookup

/-- Whether the lookup is a single substitution. -/
def isSingle (lookup : Lookup) : Bool :=
  match lookup.subtables with
  | .single _ => true
  | _ => false

/-- What a single substitution makes of a glyph; a glyph that it does not cover stays as it is. -/
def substitute (lookup : Lookup) (glyph : Glyph α) : Glyph α :=
  match lookup.subtables with
  | .single tables => (Coverage.first? tables glyph.gid).elim glyph glyph.replaceBy
  | _ => glyph

end Lookup

namespace LookupList

/-- The record names a single substitution of the list. -/
def NamesSingle (list : LookupList) (record : SequenceLookup) : Prop :=
  ∃ lookup ∈ list.lookups[record.lookupIndex.toNat]?, lookup.isSingle = true

instance (list : LookupList) (record : SequenceLookup) : Decidable (list.NamesSingle record) :=
  inferInstanceAs
    (Decidable (∃ lookup ∈ list.lookups[record.lookupIndex.toNat]?, lookup.isSingle = true))

/-- What the lookup of a record makes of a glyph. -/
def substitute (list : LookupList) (glyph : Glyph α) (record : SequenceLookup) : Glyph α :=
  list.lookups[record.lookupIndex.toNat]?.elim glyph (·.substitute glyph)

/-- What the records with sequence index `n` make of a glyph, one after another. -/
def substituted (list : LookupList) (records : List SequenceLookup) (n : Nat) (glyph : Glyph α) :
    Glyph α :=
  (records.filter (·.sequenceIndex.toNat == n)).foldl list.substitute glyph

/-- The run with all records worked off, each at the position that its sequence index addresses. -/
def workedOff (list : LookupList) (records : List SequenceLookup) (positions : List Nat)
    (run : Run α) : Run α :=
  run.mapIdx fun j glyph =>
    (records.filter (positions[·.sequenceIndex.toNat]? == some j)).foldl list.substitute glyph

variable {list : LookupList} {records : List SequenceLookup} {positions : List Nat} {run : Run α}

@[simp] theorem length_workedOff : (list.workedOff records positions run).length = run.length := by
  simp [workedOff]

theorem getElem?_workedOff (j : Nat) :
    (list.workedOff records positions run)[j]? = run[j]?.map fun glyph =>
      (records.filter (positions[·.sequenceIndex.toNat]? == some j)).foldl list.substitute
        glyph := by
  rw [workedOff, List.getElem?_mapIdx]

theorem workedOff_nil : list.workedOff [] positions run = run :=
  List.ext_getElem? fun j => by simp [getElem?_workedOff]

theorem workedOff_cons (record : SequenceLookup) (rest : List SequenceLookup) :
    list.workedOff (record :: rest) positions run =
      list.workedOff rest positions (list.workedOff [record] positions run) := by
  refine List.ext_getElem? fun j => ?_
  rw [getElem?_workedOff, getElem?_workedOff, getElem?_workedOff, Option.map_map]
  congr 1
  funext glyph
  by_cases hj : (positions[record.sequenceIndex.toNat]? == some j) = true <;> simp [hj]

/-- A record changes the glyph at its position. -/
theorem workedOff_singleton {record : SequenceLookup} {p : Nat}
    (hp : positions[record.sequenceIndex.toNat]? = some p) :
    list.workedOff [record] positions run = run.modify p (list.substitute · record) := by
  refine List.ext_getElem? fun j => ?_
  rw [getElem?_workedOff, List.getElem?_modify]
  by_cases hj : p = j <;> simp [hp, hj]

/-- A record that addresses no position of the run changes nothing. -/
theorem workedOff_singleton_of_outside {record : SequenceLookup}
    (h : ∀ p, positions[record.sequenceIndex.toNat]? = some p → run.length ≤ p) :
    list.workedOff [record] positions run = run := by
  cases hp : positions[record.sequenceIndex.toNat]? with
  | none => exact List.ext_getElem? fun j => by simp [getElem?_workedOff, hp]
  | some p => rw [workedOff_singleton hp, List.modify_eq_self (h p hp)]

/-- At an input position, the records for it have been worked off. -/
theorem getElem?_workedOff_position (hpositions : positions.Nodup) {n j : Nat}
    (hj : positions[n]? = some j) :
    (list.workedOff records positions run)[j]? = run[j]?.map (list.substituted records n) := by
  have hn : n < positions.length := (List.getElem?_eq_some_iff.1 hj).1
  have hsame : ∀ record : SequenceLookup,
      (positions[record.sequenceIndex.toNat]? == some j) = (record.sequenceIndex.toNat == n) := by
    intro record
    rw [Bool.eq_iff_iff, beq_iff_eq, beq_iff_eq, ← hj, eq_comm, List.getElem?_inj hn hpositions,
      eq_comm]
  rw [getElem?_workedOff]
  simp only [hsame]
  rfl

/-- A position is changed only if it is the input position that some record names. -/
theorem exists_record_of_workedOff {j : Nat}
    (h : (list.workedOff records positions run)[j]? ≠ run[j]?) :
    ∃ record ∈ records, positions[record.sequenceIndex.toNat]? = some j := by
  by_contra hnone
  refine h ?_
  have hnil : records.filter (positions[·.sequenceIndex.toNat]? == some j) = [] := by
    refine List.filter_eq_nil_iff.2 fun record hrecord hj => hnone ⟨record, hrecord, ?_⟩
    exact eq_of_beq hj
  simp [getElem?_workedOff, hnil]

/-- What stands behind all positions stays as it is. -/
theorem drop_workedOff {k : Nat} (h : ∀ p ∈ positions, p < k) :
    (list.workedOff records positions run).drop k = run.drop k := by
  refine List.ext_getElem? fun j => ?_
  rw [List.getElem?_drop, List.getElem?_drop]
  by_contra hne
  obtain ⟨record, -, hrecord⟩ := exists_record_of_workedOff hne
  have hlt := h _ (List.mem_of_getElem? hrecord)
  omega

/-- What stands before all positions stays as it is. -/
theorem take_workedOff {k : Nat} (h : ∀ p ∈ positions, k ≤ p) :
    (list.workedOff records positions run).take k = run.take k := by
  refine List.ext_getElem? fun j => ?_
  rw [List.getElem?_take, List.getElem?_take]
  split
  · next hj =>
    by_contra hne
    obtain ⟨record, -, hrecord⟩ := exists_record_of_workedOff hne
    have hle := h _ (List.mem_of_getElem? hrecord)
    omega
  · rfl

end LookupList

/-! ## Calls -/

theorem modify_append_length (before : Run α) (glyph : Glyph α) (rest : Run α)
    (change : Glyph α → Glyph α) :
    (before ++ glyph :: rest).modify before.length change = before ++ change glyph :: rest := by
  induction before with
  | nil => rfl
  | cons first before ih => exact congrArg (first :: ·) ih

namespace LookupList

variable [Payload α] {list : LookupList} (skip : SkipPredicate)

/-- A call for a record that names a single substitution changes the glyph that it is made at. -/
theorem applier_of_namesSingle {record : SequenceLookup} (h : list.NamesSingle record)
    (limit : Nat) {run : Run α} {i : Nat} (hi : i < run.length) :
    ∃ changed, list.applier skip ⟨record.lookupIndex.toNat, limit, i, run⟩ =
      ⟨run.modify i (list.substitute · record), .ok changed⟩ := by
  obtain ⟨⟨flag, subtables⟩, hlookup, hsingle⟩ := h
  have hget : list.lookups[record.lookupIndex.toNat]? = some ⟨flag, subtables⟩ := hlookup
  obtain ⟨before, glyph, rest, rfl, rfl⟩ := exists_append_of_lt hi
  cases subtables with
  | single tables =>
    rw [applier, applyNested_eq, lookup_eq_ok_iff.2 hget]
    dsimp only [Lookup.applyAt]
    rw [if_pos hi, applySingle, editAt_append, modify_append_length, substitute, hget]
    dsimp only [Option.elim, Lookup.substitute]
    cases Coverage.first? tables glyph.gid with
    | none => exact ⟨false, rfl⟩
    | some g => exact ⟨true, rfl⟩
  | _ => exact absurd hsingle Bool.false_ne_true

/-- Records that name single substitutions find the input glyphs where they were matched. -/
theorem applyRecords_workedOff {records : List SequenceLookup}
    (h : ∀ record ∈ records, list.NamesSingle record) {positions : List Nat}
    (hpositions : positions.Pairwise (· < ·)) (limit : Nat) (run : Run α) (changed : Bool) :
    ∃ changed', applyRecords (list.applier skip) limit records ⟨run, positions, changed⟩ =
      ⟨list.workedOff records positions run, .ok changed'⟩ := by
  induction records generalizing run changed with
  | nil => exact ⟨changed, by rw [workedOff_nil]; rfl⟩
  | cons record rest ih =>
    have hrest := ih fun r hr => h r (List.mem_cons_of_mem record hr)
    rw [applyRecords_cons, workedOff_cons]
    cases htarget : Application.target? ⟨run, positions, changed⟩ record with
    | none =>
      have houtside : ∀ p, positions[record.sequenceIndex.toNat]? = some p → run.length ≤ p := by
        intro p hp
        by_contra hinside
        rw [Application.target?_eq_some_iff.2 ⟨hp, Nat.lt_of_not_le hinside⟩] at htarget
        cases htarget
      rw [workedOff_singleton_of_outside houtside]
      exact hrest run changed
    | some p =>
      obtain ⟨hp, hinside⟩ := Application.target?_eq_some_iff.1 htarget
      have hnames := h record List.mem_cons_self
      obtain ⟨told, hcall⟩ := applier_of_namesSingle skip hnames limit hinside
      -- the run is as long as it was, so the tracked positions stay
      have hafter : Application.afterCall ⟨run, positions, changed⟩ record
          (run.modify p (list.substitute · record)) told =
            ⟨run.modify p (list.substitute · record), positions, changed || told⟩ := by
        have hgrowth : Application.growth ⟨run, positions, changed⟩
            (run.modify p (list.substitute · record)) = 0 := by
          rw [Application.growth, List.length_modify, Int.sub_self]
        have hstay := shiftAfter_zero (hpositions.imp Nat.le_of_lt) record.sequenceIndex.toNat
        rw [Application.afterCall, hgrowth, hstay, List.length_modify, bne_self_eq_false,
          Bool.or_false]
      dsimp only
      rw [hcall, workedOff_singleton hp]
      dsimp only
      rw [hafter]
      exact hrest _ _

/-- A match whose records name single substitutions is worked off in place. -/
theorem applyContextual_workedOff {tables : List ContextSubtable} {f : GlyphFilter} {run : Run α}
    {i : Nat} {found : RuleMatch} (hfound : selectRule? tables f run.gids i = some found)
    (hrecords : ∀ record ∈ found.records, list.NamesSingle record) (limit : Nat) :
    ∃ changed, applyContextual (list.applier skip) limit tables f run i =
      ⟨list.workedOff found.records found.context.positions run,
        .ok (some { width := found.context.length, changed })⟩ := by
  obtain ⟨table, -, rule, -, hmatch, -⟩ := exists_rule_of_selectRule? hfound
  have hpositions := ContextPattern.pairwise_positions hmatch
  obtain ⟨changed, hrun⟩ := applyRecords_workedOff skip hrecords hpositions limit run false
  refine ⟨changed, ?_⟩
  rw [applyContextual_eq, hfound]
  dsimp only
  rw [hrun]
  rfl

end LookupList

/-- The visits work off, in place, the matches that the subtables select, and do nothing where none
is selected. -/
structure WorksOff (list : LookupList) (tables : List ContextSubtable) (f : GlyphFilter)
    (visit : Visit α) : Prop where
  idle : ∀ {run i}, selectRule? tables f run.gids i = none → visit run i = ⟨run, .ok none⟩
  applied : ∀ {run i found}, selectRule? tables f run.gids i = some found →
    ∃ changed, visit run i = ⟨list.workedOff found.records found.context.positions run,
      .ok (some { width := found.context.length, changed })⟩

namespace WorksOff

variable {list : LookupList} {tables : List ContextSubtable} {f : GlyphFilter} {visit : Visit α}
  (h : WorksOff list tables f visit)

include h

theorem sameBefore (run : Run α) (i : Nat) : SameBefore i run (visit run i).run := by
  cases hfound : selectRule? tables f run.gids i with
  | none => rw [h.idle hfound]; rfl
  | some found =>
    obtain ⟨table, -, rule, -, hmatch, -⟩ := exists_rule_of_selectRule? hfound
    obtain ⟨changed, happlied⟩ := h.applied hfound
    rw [happlied]
    exact LookupList.take_workedOff (le_of_mem_positions hmatch)

theorem advances : Advances f visit := by
  intro run i applied _ hresult
  cases hfound : selectRule? tables f run.gids i with
  | none =>
    rw [h.idle hfound] at hresult ⊢
    obtain rfl := Except.ok.inj hresult
    exact Nat.lt_succ_self _
  | some found =>
    obtain ⟨changed, happlied⟩ := h.applied hfound
    rw [happlied] at hresult ⊢
    obtain rfl := Except.ok.inj hresult
    dsimp only [stride_some]
    rw [LookupList.length_workedOff, ContextMatch.length]
    omega

end WorksOff

theorem worksOff_applyContextual [Payload α] {list : LookupList} {tables : List ContextSubtable}
    (hrecords : ∀ table ∈ tables, ∀ rule ∈ table.allRules, ∀ record ∈ rule.records,
      list.NamesSingle record)
    (skip : SkipPredicate) (limit : Nat) (f : GlyphFilter) :
    WorksOff list tables f (applyContextual (list.applier (α := α) skip) limit tables f) where
  idle := applyContextual_of_selectRule?_eq_none
  applied := by
    intro run i found hfound
    obtain ⟨table, htable, rule, hrule, -, hsame⟩ := exists_rule_of_selectRule? hfound
    have hnames := hrecords table htable rule hrule
    rw [hsame] at hnames
    exact LookupList.applyContextual_workedOff skip hfound hnames limit

/-! ## Where the scan stands -/

/-- In increasing order, the last number is the greatest. -/
theorem le_getLastD {first : Nat} {more : List Nat} (h : (first :: more).Pairwise (· < ·)) :
    ∀ p ∈ first :: more, p ≤ more.getLastD first := by
  induction more generalizing first with
  | nil => simp
  | cons second more ih =>
    obtain ⟨hfirst, hmore⟩ := List.pairwise_cons.1 h
    have hlater := ih hmore
    intro p hp
    rw [List.getLastD_cons]
    rcases List.mem_cons.1 hp with rfl | hp
    · exact (Nat.le_of_lt (hfirst second List.mem_cons_self)).trans
        (hlater second List.mem_cons_self)
    · exact hlater p hp

theorem getElem?_of_drop_eq {run run' : Run α} {k j : Nat} (h : run'.drop k = run.drop k)
    (hj : k ≤ j) : run'[j]? = run[j]? := by
  obtain ⟨n, rfl⟩ := Nat.exists_eq_add_of_le hj
  rw [← List.getElem?_drop, h, List.getElem?_drop]

namespace Scan

/-- The glyph at the cursor is seen, and this is the match that the subtables select there. -/
structure Finds (tables : List ContextSubtable) (f : GlyphFilter) (s : Scan α)
    (found : RuleMatch) : Prop where
  sees : f.seesAt s.run.gids s.cursor = true
  selects : selectRule? tables f s.run.gids s.cursor = some found

namespace Finds

variable {tables : List ContextSubtable} {f : GlyphFilter} {s : Scan α} {found found' : RuleMatch}

theorem unique (h : s.Finds tables f found) (h' : s.Finds tables f found') : found' = found :=
  Option.some.inj (h'.selects.symm.trans h.selects)

theorem exists_match (h : s.Finds tables f found) :
    ∃ pattern : ContextPattern, pattern.match? f s.run.gids s.cursor = some found.context := by
  obtain ⟨table, -, rule, -, hmatch, -⟩ := exists_rule_of_selectRule? h.selects
  exact ⟨rule.pattern, hmatch⟩

theorem start_eq (h : s.Finds tables f found) : found.context.start = s.cursor := by
  obtain ⟨pattern, hmatch⟩ := h.exists_match
  obtain ⟨-, hcontext⟩ := ContextPattern.match?_eq_some_iff_metAt.1 hmatch
  rw [hcontext]

theorem inside (h : s.Finds tables f found) : s.cursor + found.context.length ≤ s.run.length := by
  obtain ⟨pattern, hmatch⟩ := h.exists_match
  rw [← Run.length_gids]
  exact (ContextPattern.length_bounds hmatch).2

theorem nodup (h : s.Finds tables f found) : found.context.positions.Nodup := by
  obtain ⟨pattern, hmatch⟩ := h.exists_match
  exact (ContextPattern.pairwise_positions hmatch).imp Nat.ne_of_lt

/-- The input glyphs lie between the cursor and the place that the match leads to. -/
theorem bounds (h : s.Finds tables f found) :
    ∀ p ∈ found.context.positions, s.cursor ≤ p ∧ p < s.cursor + found.context.length := by
  intro p hp
  obtain ⟨pattern, hmatch⟩ := h.exists_match
  have hlast : p ≤ found.context.last :=
    le_getLastD (ContextPattern.pairwise_positions hmatch) p hp
  have hle := le_of_mem_positions hmatch p hp
  refine ⟨hle, ?_⟩
  rw [ContextMatch.length, h.start_eq]
  omega

end Finds

/-- Wherever a scan stands, the end of the run lies ahead of it. -/
theorem reaches_end {f : GlyphFilter} {visit : Visit α} {s₀ s s' : Scan α}
    (hs : Reaches f visit s₀ s) (hs' : Reaches f visit s₀ s')
    (hend : s'.run.length ≤ s'.cursor) : Reaches f visit s s' := by
  rcases reaches_or_reaches hs hs' with hahead | hbehind
  · exact hahead
  · obtain rfl := (reaches_of_stopped (stopped_at_end hend)).1 hbehind
    exact Relation.ReflTransGen.refl

section WorksOff

variable {list : LookupList} {tables : List ContextSubtable} {f : GlyphFilter} {visit : Visit α}
  (hvisit : WorksOff list tables f visit) {s₀ s s' next : Scan α} {found found' : RuleMatch}

include hvisit

/-- Where a match is found, the scan works it off and goes on behind it. -/
theorem Finds.step (h : s.Finds tables f found) :
    ∃ changed, s.step f visit =
      .moved ⟨list.workedOff found.records found.context.positions s.run,
        s.cursor + found.context.length, changed⟩ := by
  obtain ⟨changed, happlied⟩ := hvisit.applied h.selects
  refine ⟨s.changed || changed, ?_⟩
  rw [step_of_seesAt h.sees, happlied]
  rfl

/-- A scan stops at the end of the run, passes over a glyph, or finds a match and goes on behind
it. -/
theorem step_cases_of_worksOff (s : Scan α) :
    s.run.length ≤ s.cursor ∧ s.step f visit = .stopped ⟨s.run, .ok s.changed⟩ ∨
      s.cursor < s.run.length ∧ s.step f visit = .moved s.pass ∨
      ∃ found changed, s.Finds tables f found ∧
        s.step f visit = .moved ⟨list.workedOff found.records found.context.positions s.run,
          s.cursor + found.context.length, changed⟩ := by
  rcases Nat.lt_or_ge s.cursor s.run.length with hcursor | hend
  case inr => exact Or.inl ⟨hend, stopped_at_end hend⟩
  case inl =>
    refine Or.inr ?_
    by_cases hsees : f.seesAt s.run.gids s.cursor = true
    · cases hfound : selectRule? tables f s.run.gids s.cursor with
      | none =>
        exact Or.inl ⟨hcursor, step_of_idle hcursor fun _ => hvisit.idle hfound⟩
      | some found =>
        have hfinds : s.Finds tables f found := ⟨hsees, hfound⟩
        obtain ⟨changed, hstep⟩ := hfinds.step hvisit
        exact Or.inr ⟨found, changed, hfinds, hstep⟩
    · exact Or.inl ⟨hcursor, step_of_not_seesAt hcursor hsees⟩

/-- A scan passes over a glyph, or finds a match and goes on behind it. -/
theorem moved_cases_of_worksOff (hs : s.step f visit = .moved next) :
    next = s.pass ∨ ∃ found, s.Finds tables f found ∧
      next.run = list.workedOff found.records found.context.positions s.run ∧
      next.cursor = s.cursor + found.context.length := by
  rcases step_cases_of_worksOff hvisit s with
    ⟨-, hstep⟩ | ⟨-, hstep⟩ | ⟨found, changed, hfinds, hstep⟩
  · cases hs.symm.trans hstep
  · exact Or.inl (ScanStep.moved.inj (hs.symm.trans hstep))
  · obtain rfl := ScanStep.moved.inj (hs.symm.trans hstep)
    exact Or.inr ⟨found, hfinds, rfl, rfl⟩

/-- The run keeps its length, and ahead of the cursor it is as it was. -/
theorem sameAhead_of_reaches (hs : Reaches f visit s₀ s) :
    s.run.length = s₀.run.length ∧ s.run.drop s.cursor = s₀.run.drop s.cursor := by
  induction hs with
  | refl => exact ⟨rfl, rfl⟩
  | @tail s next _ hstep ih =>
    obtain ⟨hlength, hahead⟩ := ih
    have hfurther : ∀ n, s.run.drop (s.cursor + n) = s₀.run.drop (s.cursor + n) := by
      intro n
      rw [← List.drop_drop, hahead, List.drop_drop]
    rcases moved_cases_of_worksOff hvisit hstep with rfl | ⟨found, hfinds, hrun, hcursor⟩
    · exact ⟨hlength, hfurther 1⟩
    · rw [hrun, hcursor]
      refine ⟨LookupList.length_workedOff.trans hlength, ?_⟩
      rw [LookupList.drop_workedOff fun p hp => (hfinds.bounds p hp).2, hfurther]

/-- What lies behind a scan stays as it is. -/
theorem sameBehind_of_reaches (hs : Reaches f visit s s') :
    s.cursor ≤ s'.cursor ∧ s'.run.take s.cursor = s.run.take s.cursor :=
  rel_of_reaches editRelation_sameBefore hvisit.sameBefore hs

/-- A glyph that is not what it was has been edited by a match that the scan has found. -/
theorem exists_finds_of_changed (hs : Reaches f visit s₀ s') {j : Nat}
    (hj : s'.run[j]? ≠ s₀.run[j]?) :
    ∃ s found n, Reaches f visit s₀ s ∧ s.Finds tables f found ∧
      found.context.positions[n]? = some j ∧
      ∃ record ∈ found.records, record.sequenceIndex.toNat = n := by
  induction hs with
  | refl => exact absurd rfl hj
  | @tail s next hs hstep ih =>
    by_cases hbefore : s.run[j]? = s₀.run[j]?
    · rcases moved_cases_of_worksOff hvisit hstep with rfl | ⟨found, hfinds, hrun, -⟩
      · exact absurd hbefore hj
      · rw [hrun, ← hbefore] at hj
        obtain ⟨record, hrecord, hposition⟩ := LookupList.exists_record_of_workedOff hj
        exact ⟨s, found, _, hs, hfinds, hposition, record, hrecord, rfl⟩
    · exact ih hbefore

/-- From a match on, the scan stands behind it, and the records for an input glyph have been worked
off at it once and for all. -/
theorem Finds.afterwards (h : s.Finds tables f found) (hs : Reaches f visit s s') :
    s' = s ∨ s.cursor + found.context.length ≤ s'.cursor ∧
      ∀ n j, found.context.positions[n]? = some j →
        s'.run[j]? = s.run[j]?.map (list.substituted found.records n) := by
  obtain ⟨changed, hstep⟩ := h.step hvisit
  refine ((reaches_of_moved hstep).1 hs).imp_right fun hnext => ?_
  obtain ⟨hcursor, hbehind⟩ := sameBehind_of_reaches hvisit hnext
  refine ⟨hcursor, fun n j hj => ?_⟩
  have hinside : j < s.cursor + found.context.length := (h.bounds j (List.mem_of_getElem? hj)).2
  rw [← List.getElem?_take_of_lt hinside, hbehind, List.getElem?_take_of_lt hinside,
    LookupList.getElem?_workedOff_position h.nodup hj]

/-- Of two matches that a scan finds, the one that it finds first ends before the other begins. -/
theorem disjoint_of_finds (hs : Reaches f visit s₀ s) (hs' : Reaches f visit s₀ s')
    (h : s.Finds tables f found) (h' : s'.Finds tables f found') :
    s' = s ∧ found' = found ∨
      Reaches f visit s s' ∧ s.cursor + found.context.length ≤ s'.cursor ∨
      Reaches f visit s' s ∧ s'.cursor + found'.context.length ≤ s.cursor := by
  rcases reaches_or_reaches hs hs' with hahead | hbehind
  · rcases h.afterwards hvisit hahead with rfl | ⟨hcursor, -⟩
    · exact Or.inl ⟨rfl, h.unique h'⟩
    · exact Or.inr (Or.inl ⟨hahead, hcursor⟩)
  · rcases h'.afterwards hvisit hbehind with rfl | ⟨hcursor, -⟩
    · exact Or.inl ⟨rfl, h.unique h'⟩
    · exact Or.inr (Or.inr ⟨hbehind, hcursor⟩)

/-- A scan gets to the end of the run, within as many visits as there are glyphs ahead of it. -/
theorem exists_end_of_worksOff (s : Scan α) :
    ∃ s', Reaches f visit s s' ∧ s'.run.length ≤ s'.cursor ∧
      ∀ budget, s.ahead ≤ budget →
        finish f visit budget s = some ⟨s'.run, .ok s'.changed⟩ := by
  obtain ⟨o, ho⟩ := exists_finish hvisit.advances (Nat.le_refl s.ahead)
  obtain ⟨s', hs', hstopped⟩ := exists_stopped_of_finish ho
  rcases step_cases_of_worksOff hvisit s' with
    ⟨hend, hstep⟩ | ⟨-, hstep⟩ | ⟨found, changed, -, hstep⟩
  · obtain rfl := ScanStep.stopped.inj (hstopped.symm.trans hstep)
    refine ⟨s', hs', hend, fun budget hbudget => ?_⟩
    obtain ⟨extra, rfl⟩ := Nat.exists_eq_add_of_le hbudget
    exact finish_add ho extra
  · cases hstopped.symm.trans hstep
  · cases hstopped.symm.trans hstep

end WorksOff

end Scan

/-! ## The pass as a whole -/

namespace LookupList

/-- A contextual pass whose records name single substitutions succeeds and keeps the length of the
run.  Wherever the scan stands, the run is from there on as it was at first.  The matches that it
finds lie inside the run, one after another and without overlap.  An input glyph of a match becomes
what the records for it make of the glyph that was there at first, one after another; and no glyph
changes but an input glyph of a match that some record of its rule names. -/
theorem edits_inside_disjoint_matches {α : Type u} [Payload α] (list : LookupList)
    (skip : SkipPredicate) {k : Nat} {flag : LookupFlag} {kind : RuleKind}
    {tables : List ContextSubtable} (hlookup : list.lookup k = .ok ⟨flag, .contextual kind tables⟩)
    (hrecords : ∀ table ∈ tables, ∀ rule ∈ table.allRules, ∀ record ∈ rule.records,
      list.NamesSingle record) (run : Run α) :
    let f := skip.filter flag
    let Reaches := Scan.Reaches f (list.visit (α := α) skip ⟨flag, .contextual kind tables⟩)
    (∀ s, Reaches { run } s →
        s.run.length = run.length ∧ s.run.drop s.cursor = run.drop s.cursor) ∧
      (∀ s found, Reaches { run } s → s.Finds tables f found →
        found.context.start = s.cursor ∧ s.cursor + found.context.length ≤ run.length ∧
          ∀ s' found', Reaches { run } s' → s'.Finds tables f found' →
            s' = s ∧ found' = found ∨
              Reaches s s' ∧ s.cursor + found.context.length ≤ s'.cursor ∨
              Reaches s' s ∧ s'.cursor + found'.context.length ≤ s.cursor) ∧
      ∃ run' changed,
        (∀ budget, run.length ≤ budget →
          list.applyLookup skip budget k run = some ⟨run', .ok changed⟩) ∧
        run'.length = run.length ∧
        (∀ s found n j, Reaches { run } s → s.Finds tables f found →
          found.context.positions[n]? = some j →
            s.cursor ≤ j ∧ j < s.cursor + found.context.length ∧
              run'[j]? = run[j]?.map (list.substituted found.records n)) ∧
        ∀ j, run'[j]? ≠ run[j]? →
          ∃ s found n, Reaches { run } s ∧ s.Finds tables f found ∧
            found.context.positions[n]? = some j ∧
            ∃ record ∈ found.records, record.sequenceIndex.toNat = n := by
  intro f Reaches
  have hvisit : WorksOff list tables f (list.visit (α := α) skip ⟨flag, .contextual kind tables⟩) :=
    worksOff_applyContextual hrecords skip list.recursionLimit f
  obtain ⟨s', hs', hend, hfinish⟩ := Scan.exists_end_of_worksOff hvisit { run }
  obtain ⟨hlength, -⟩ := Scan.sameAhead_of_reaches hvisit hs'
  refine ⟨fun s hs => Scan.sameAhead_of_reaches hvisit hs, fun s found hs h => ?_,
    s'.run, s'.changed, fun budget hbudget => ?_, hlength, fun s found n j hs h hj => ?_,
    fun j hj => Scan.exists_finds_of_changed hvisit hs' hj⟩
  · have hinside := h.inside
    rw [(Scan.sameAhead_of_reaches hvisit hs).1] at hinside
    exact ⟨h.start_eq, hinside, fun s'' found' hs'' h' =>
      Scan.disjoint_of_finds hvisit hs hs'' h h'⟩
  · rw [applyLookup, hlookup]
    exact hfinish budget hbudget
  · obtain ⟨hle, hlt⟩ := h.bounds j (List.mem_of_getElem? hj)
    refine ⟨hle, hlt, ?_⟩
    rcases h.afterwards hvisit (Scan.reaches_end hs hs' hend) with rfl | ⟨-, hedited⟩
    · exact absurd (Run.lt_length_of_seesAt h.sees) (Nat.not_lt.2 hend)
    · have hbefore : s.run[j]? = run[j]? :=
        getElem?_of_drop_eq (Scan.sameAhead_of_reaches hvisit hs).2 hle
      rw [hedited n j hj, hbefore]

/-- A 5 after a 4 is edited twice, and then an 8 that comes after a 7 and before a 4. -/
def retouchingTable : ContextSubtable :=
  ⟨Coverage.ofList
    [(4, [.chaining [] [5] [] [⟨1, 0⟩, ⟨1, 0⟩]]), (8, [.chaining [7] [] [4] [⟨0, 0⟩]])], by decide⟩

/-- Lookup 0 makes a 5 a 6, a 6 a 7, and an 8 an 80; lookup 1 has `retouchingTable`. -/
def retouching : LookupList :=
  ofFaultless
    [⟨{}, .single [Coverage.ofList [(5, 6), (6, 7), (8, 80)]]⟩,
      ⟨{}, .contextual .chaining [retouchingTable]⟩]
    (by decide)

/-- The first match spans a glyph that is not seen and takes the 5 to a 7.  The match after it needs
that 7, and the match after that one is met though the 4 has been looked at before. -/
theorem retouching_inside_matches :
    retouching.lookup 1 = .ok ⟨{}, .contextual .chaining [retouchingTable]⟩ ∧
      (∀ table ∈ [retouchingTable], ∀ rule ∈ table.allRules, ∀ record ∈ rule.records,
        retouching.NamesSingle record) ∧
      ∃ run changed, retouching.applyLookup (fun g _ => g == 2) 6 1
          ([4, 2, 5, 8, 4, 5].map (Glyph.ofId · ())) = some ⟨run, .ok changed⟩ ∧
        run[2]? = some (.ofId 7 ()) ∧ run.gids = [4, 2, 7, 80, 4, 7] := by
  obtain ⟨-, -, run, changed, hpass, -, hedited, -⟩ :=
    edits_inside_disjoint_matches retouching (fun g _ => g == 2) (k := 1) rfl (by decide)
      ([4, 2, 5, 8, 4, 5].map (Glyph.ofId · ()))
  have hfinds : Scan.Finds [retouchingTable] ⟨fun g => !(g == 2)⟩
      { run := [4, 2, 5, 8, 4, 5].map (Glyph.ofId · ()) } ⟨⟨0, [2]⟩, [⟨1, 0⟩, ⟨1, 0⟩]⟩ :=
    ⟨by decide, by decide⟩
  refine ⟨rfl, by decide, run, changed, hpass 6 (by decide), ?_, ?_⟩
  · exact (hedited _ _ 1 2 .refl hfinds rfl).2.2.trans (by decide)
  · have hrun : ∃ o, retouching.applyLookup (fun g _ => g == 2) 6 1
        ([4, 2, 5, 8, 4, 5].map (Glyph.ofId · ())) = some o ∧
          o.run.gids = [4, 2, 7, 80, 4, 7] := ⟨_, rfl, by decide⟩
    obtain ⟨o, ho, hgids⟩ := hrun
    obtain rfl := Option.some.inj ((hpass 6 (by decide)).symm.trans ho)
    exact hgids

end LookupList

end GlyphSubstitution
