import GlyphSubstitution.Proofs.ContextRelation
import GlyphSubstitution.Proofs.NestedCalls

/-!
# What edits respect

Whatever a lookup list does to a run, be it in one nested call or in a whole pass, is put together
from edits that single, multiple and ligature subtables make at single positions.  So a law about
what happens to runs need only be shown of those.

The law is a relation `R i run run'` between a run and what edits at position `i` or further right
have made of it; an `EditRelation` is one that such edits can be put together under.  If it holds of
what each lookup of a list edits itself (`LookupList.EditsBy`), it holds of nested calls
(`applyNested_rel`), of the way of a scan from any place on (`Scan.rel_of_reaches`) and of passes
(`applyLookup_rel`).  What carries the induction over the records of a rule is that tracked
positions never fall below the start of the match, however much is removed
(`le_of_mem_shiftAfter`).

Many laws do not care where the edits are.  They are `EditLaw`s: it is enough to look at a glyph and
what follows it, and at what a substitute, a sequence of substitutes or a ligature makes of the two.
-/

namespace GlyphSubstitution

universe u v

variable {α : Type u}

/-- A law about what edits at a position or further right make of a run, under which edits can be
put together. -/
structure EditRelation (R : Nat → Run α → Run α → Prop) : Prop where
  refl : ∀ i run, R i run run
  trans : ∀ {i run run' run''}, R i run run' → R i run' run'' → R i run run''
  /-- Edits that stay right of `j` stay right of everything before it. -/
  widen : ∀ {i j run run'}, i ≤ j → R j run run' → R i run run'

variable {R : Nat → Run α → Run α → Prop}

/-! ## Records -/

/-- No position is moved before all others. -/
theorem le_of_mem_shiftAfter {positions : List Nat} {start : Nat}
    (h : ∀ p ∈ positions, start ≤ p) (k : Nat) (delta : Int) :
    ∀ p ∈ shiftAfter positions k delta, start ≤ p := by
  intro p hp
  unfold shiftAfter at hp
  split at hp
  · exact h p hp
  · next floor hfloor =>
    rcases List.mem_append.1 hp with hkept | hmoved
    · exact h p (List.mem_of_mem_take hkept)
    · obtain ⟨q, -, rfl⟩ := List.mem_map.1 hmoved
      have hle := h floor (List.mem_of_getElem? hfloor)
      omega

namespace Application

variable {a : Application α} {record : SequenceLookup} {index : Nat}

theorem target?_eq_some_iff :
    a.target? record = some index ↔
      a.positions[record.sequenceIndex.toNat]? = some index ∧ index < a.run.length := by
  simp [target?]

end Application

/-- Records respect what the calls respect that they make, from the least tracked position on. -/
theorem applyRecords_rel (hR : EditRelation R) {nested : Applier α} {limit : Nat}
    (h : ∀ k i run, R i run (nested ⟨k, limit, i, run⟩).run) {start : Nat}
    (records : List SequenceLookup) (a : Application α) (hstart : ∀ p ∈ a.positions, start ≤ p) :
    R start a.run (applyRecords nested limit records a).run := by
  induction records generalizing a with
  | nil => exact hR.refl start a.run
  | cons record rest ih =>
    rw [applyRecords_cons]
    cases htarget : a.target? record with
    | none => exact ih a hstart
    | some index =>
      have hindex : start ≤ index :=
        hstart index (List.mem_of_getElem? (Application.target?_eq_some_iff.1 htarget).1)
      have hcall := hR.widen hindex (h record.lookupIndex.toNat index a.run)
      dsimp only
      generalize nested ⟨record.lookupIndex.toNat, limit, index, a.run⟩ = o at hcall ⊢
      obtain ⟨run, result⟩ := o
      cases result with
      | error e => exact hcall
      | ok changed =>
        have hpositions : ∀ p ∈ (a.afterCall record run changed).positions, start ≤ p :=
          le_of_mem_shiftAfter hstart _ _
        have hrest := ih (a.afterCall record run changed) hpositions
        exact hR.trans hcall hrest

/-- All input glyphs of a match stand at its start or after it. -/
theorem le_of_mem_positions {pattern : ContextPattern} {f : GlyphFilter} {gids : List GlyphId}
    {i : Nat} {m : ContextMatch} (h : pattern.match? f gids i = some m) :
    ∀ p ∈ m.positions, i ≤ p := by
  intro p hp
  have hincreasing := ContextPattern.pairwise_positions h
  obtain ⟨-, rfl⟩ := ContextPattern.match?_eq_some_iff_metAt.1 h
  rcases List.mem_cons.1 hp with rfl | hinput
  · exact Nat.le_refl p
  · exact Nat.le_of_lt ((List.pairwise_cons.1 hincreasing).1 p hinput)

theorem applyContextual_rel (hR : EditRelation R) {nested : Applier α} {limit : Nat}
    (h : ∀ k i run, R i run (nested ⟨k, limit, i, run⟩).run) (tables : List ContextSubtable)
    (f : GlyphFilter) (run : Run α) (i : Nat) :
    R i run (applyContextual nested limit tables f run i).run := by
  rw [applyContextual_eq]
  cases hfound : selectRule? tables f run.gids i with
  | none => exact hR.refl i run
  | some found =>
    obtain ⟨-, -, rule, -, hmatch, -⟩ := exists_rule_of_selectRule? hfound
    exact applyRecords_rel hR h found.records ⟨run, found.context.positions, false⟩
      (le_of_mem_positions hmatch)

/-! ## Scans -/

namespace Scan

variable {f : GlyphFilter} {visit : Visit α} {s s' next : Scan α} {o : Outcome α Bool}

/-- A scan stops at the end of the run, or with the error of a visit to a glyph that it sees. -/
theorem stopped_cases (hs : s.step f visit = .stopped o) :
    (s.run.length ≤ s.cursor ∧ o = ⟨s.run, .ok s.changed⟩) ∨
      ∃ glyph e, s.run[s.cursor]? = some glyph ∧ f.sees glyph.gid = true ∧
        (visit s.run s.cursor).result = .error e ∧ o = ⟨(visit s.run s.cursor).run, .error e⟩ := by
  rw [step_eq] at hs
  split at hs
  case h_1 hend => exact Or.inl ⟨List.getElem?_eq_none_iff.1 hend, (ScanStep.stopped.inj hs).symm⟩
  case h_2 glyph hglyph =>
    split at hs
    case isFalse => cases hs
    case isTrue hsees =>
      unfold after at hs
      split at hs
      case h_1 e herror =>
        exact Or.inr ⟨glyph, e, hglyph, hsees, herror, (ScanStep.stopped.inj hs).symm⟩
      case h_2 => cases hs
      case h_3 => cases hs

/-- A scan moves on past a glyph that it does not see, or after a visit that succeeds, by one glyph
if nothing applied and else by as much as the application covers. -/
theorem moved_cases (hs : s.step f visit = .moved next) :
    ∃ glyph, s.run[s.cursor]? = some glyph ∧
      (f.sees glyph.gid = false ∧ next = s.pass ∨
        f.sees glyph.gid = true ∧
          ((visit s.run s.cursor).result = .ok none ∧
              next = ⟨(visit s.run s.cursor).run, s.cursor + 1, s.changed⟩ ∨
            ∃ applied, (visit s.run s.cursor).result = .ok (some applied) ∧
              next = ⟨(visit s.run s.cursor).run, s.cursor + applied.width,
                s.changed || applied.changed⟩)) := by
  rw [step_eq] at hs
  split at hs
  case h_1 => cases hs
  case h_2 glyph hglyph =>
    refine ⟨glyph, hglyph, ?_⟩
    split at hs
    case isFalse hsees =>
      exact Or.inl ⟨eq_false_of_ne_true hsees, (ScanStep.moved.inj hs).symm⟩
    case isTrue hsees =>
      refine Or.inr ⟨hsees, ?_⟩
      unfold after at hs
      split at hs
      case h_1 => cases hs
      case h_2 hnone => exact Or.inl ⟨hnone, (ScanStep.moved.inj hs).symm⟩
      case h_3 applied hsome => exact Or.inr ⟨applied, hsome, (ScanStep.moved.inj hs).symm⟩

/-- A scan moves on to the right, and respects what its visits respect. -/
theorem rel_of_moved (hR : EditRelation R) (h : ∀ run i, R i run (visit run i).run)
    (hs : s.step f visit = .moved next) : s.cursor ≤ next.cursor ∧ R s.cursor s.run next.run := by
  have hvisit := h s.run s.cursor
  obtain ⟨glyph, -, ⟨-, rfl⟩ | ⟨-, ⟨-, rfl⟩ | ⟨applied, -, rfl⟩⟩⟩ := moved_cases hs
  · exact ⟨Nat.le_succ _, hR.refl _ _⟩
  · exact ⟨Nat.le_succ _, hvisit⟩
  · exact ⟨Nat.le_add_right _ _, hvisit⟩

/-- A scan that stops, be it with an error, respects what its visits respect. -/
theorem rel_of_stopped (hR : EditRelation R) (h : ∀ run i, R i run (visit run i).run)
    (hs : s.step f visit = .stopped o) : R s.cursor s.run o.run := by
  rcases stopped_cases hs with ⟨-, rfl⟩ | ⟨glyph, e, -, -, -, rfl⟩
  · exact hR.refl _ _
  · exact h s.run s.cursor

/-- From any place on, a scan respects what its visits respect. -/
theorem rel_of_reaches (hR : EditRelation R) (h : ∀ run i, R i run (visit run i).run)
    (hs : Reaches f visit s s') : s.cursor ≤ s'.cursor ∧ R s.cursor s.run s'.run := by
  induction hs with
  | refl => exact ⟨Nat.le_refl _, hR.refl _ _⟩
  | tail _ hstep ih =>
    obtain ⟨hcursor, hrel⟩ := ih
    obtain ⟨hmoved, hmore⟩ := rel_of_moved hR h hstep
    exact ⟨hcursor.trans hmoved, hR.trans hrel (hR.widen hcursor hmore)⟩

/-- What a scan comes to is where its way stops. -/
theorem exists_stopped_of_finish {budget : Nat} (ho : finish f visit budget s = some o) :
    ∃ s', Reaches f visit s s' ∧ s'.step f visit = .stopped o := by
  induction budget generalizing s with
  | zero =>
    rw [finish_zero] at ho
    split at ho
    · nomatch ho
    · next hcursor =>
      refine ⟨s, Relation.ReflTransGen.refl, ?_⟩
      rw [step_eq, List.getElem?_eq_none (Nat.not_lt.1 hcursor), ← Option.some.inj ho]
  | succ budget ih =>
    rw [finish_succ] at ho
    cases hs : s.step f visit with
    | stopped o' =>
      rw [hs] at ho
      refine ⟨s, Relation.ReflTransGen.refl, ?_⟩
      rw [hs, Option.some.inj ho]
    | moved next =>
      rw [hs] at ho
      obtain ⟨s', hreaches, hstopped⟩ := ih ho
      exact ⟨s', Relation.ReflTransGen.head hs hreaches, hstopped⟩

end Scan

/-! ## Lookups of a list -/

variable [Payload α]

/-- What a lookup does to a run itself, where a contextual one does nothing. -/
def Lookup.edit (lookup : Lookup) (skip : SkipPredicate) (run : Run α) (i : Nat) :
    Outcome α (Option Applied) :=
  lookup.applyAt skip (fun _ _ run _ => ⟨run, .ok none⟩) run i

theorem Lookup.applyAt_rel {lookup : Lookup} {skip : SkipPredicate}
    {contextual : List ContextSubtable → GlyphFilter → Run α → Nat → Outcome α (Option Applied)}
    {run : Run α} {i : Nat} (hedit : R i run (lookup.edit skip run i).run)
    (h : ∀ tables f, R i run (contextual tables f run i).run) :
    R i run (lookup.applyAt skip contextual run i).run := by
  obtain ⟨flag, subtables⟩ := lookup
  cases subtables with
  | contextual kind tables => exact h tables (skip.filter flag)
  | _ => exact hedit

namespace LookupList

variable {list : LookupList} {skip : SkipPredicate}

/-- What each lookup of the list edits itself is in accordance with a law. -/
def EditsBy (list : LookupList) (skip : SkipPredicate) (R : Nat → Run α → Run α → Prop) : Prop :=
  ∀ lookup ∈ list.lookups, ∀ run i, R i run (lookup.edit skip run i).run

/-- A nested call respects what the calls one level deeper respect. -/
theorem applyNested_rel_of (hR : EditRelation R) (hedit : list.EditsBy skip R) {limit : Nat}
    (h : ∀ tables f run i, R i run (list.contextualAt skip limit tables f run i).run) (k : Nat)
    (run : Run α) (i : Nat) : R i run (list.applyNested skip limit k run i).run := by
  rw [applyNested_eq]
  cases hlookup : list.lookup k with
  | error e => exact hR.refl i run
  | ok lookup =>
    have hmem : lookup ∈ list.lookups := List.mem_of_getElem? (lookup_eq_ok_iff.1 hlookup)
    dsimp only
    split
    · exact Lookup.applyAt_rel (hedit lookup hmem run i) fun tables f => h tables f run i
    · exact hR.refl i run

/-- Nested calls respect what single edits respect. -/
theorem applyNested_rel (hR : EditRelation R) (hedit : list.EditsBy skip R) (limit k : Nat)
    (run : Run α) (i : Nat) : R i run (list.applyNested skip limit k run i).run := by
  induction limit generalizing k run i with
  | zero =>
    have hrefused : ∀ tables f (run : Run α) i,
        R i run (list.contextualAt skip 0 tables f run i).run := fun _ _ run i => hR.refl i run
    exact applyNested_rel_of hR hedit hrefused k run i
  | succ limit ih =>
    have hcalls : ∀ k i (run : Run α), R i run (list.applier skip ⟨k, limit, i, run⟩).run :=
      fun k i run => ih k run i
    have hcontextual : ∀ tables f (run : Run α) i,
        R i run (list.contextualAt skip (limit + 1) tables f run i).run :=
      applyContextual_rel hR hcalls
    exact applyNested_rel_of hR hedit hcontextual k run i

/-- What a scan does at a position respects what single edits respect. -/
theorem visit_rel (hR : EditRelation R) (hedit : list.EditsBy skip R) {k : Nat} {lookup : Lookup}
    (hlookup : list.lookup k = .ok lookup) (run : Run α) (i : Nat) :
    R i run (list.visit skip lookup run i).run := by
  have hmem : lookup ∈ list.lookups := List.mem_of_getElem? (lookup_eq_ok_iff.1 hlookup)
  have hcalls : ∀ k i (run : Run α),
      R i run (list.applier skip ⟨k, list.recursionLimit, i, run⟩).run :=
    fun k i run => applyNested_rel hR hedit list.recursionLimit k run i
  refine Lookup.applyAt_rel (hedit lookup hmem run i) fun tables f => ?_
  exact applyContextual_rel hR hcalls tables f run i

/-- Passes respect what single edits respect. -/
theorem applyLookup_rel (hR : EditRelation R) (hedit : list.EditsBy skip R) {budget k : Nat}
    {run : Run α} {o : Outcome α Bool} (ho : list.applyLookup skip budget k run = some o) :
    R 0 run o.run := by
  unfold applyLookup at ho
  cases hlookup : list.lookup k with
  | error e =>
    rw [hlookup] at ho
    rw [← Option.some.inj ho]
    exact hR.refl 0 run
  | ok lookup =>
    rw [hlookup] at ho
    have hvisit := visit_rel hR hedit hlookup
    obtain ⟨s, hreaches, hstopped⟩ := Scan.exists_stopped_of_finish ho
    obtain ⟨-, hway⟩ := Scan.rel_of_reaches hR hvisit hreaches
    have hend := Scan.rel_of_stopped hR hvisit hstopped
    exact hR.trans hway (hR.widen (Nat.zero_le _) hend)

end LookupList

/-! ## Laws of single edits -/

omit [Payload α] in
/-- An edit is in accordance with a law if it is so at the head of a run. -/
theorem editAt_rel {β : Type v} {Q : Run α → Run α → Prop} (hrefl : ∀ run, Q run run)
    (happend : ∀ before run run', Q run run' → Q (before ++ run) (before ++ run'))
    {edit : Glyph α → Run α → Option (Outcome α β)}
    (h : ∀ glyph rest o, edit glyph rest = some o → Q (glyph :: rest) o.run) (run : Run α)
    (i : Nat) : Q run (editAt edit run i).run := by
  rcases Nat.lt_or_ge i run.length with hi | hi
  · obtain ⟨before, glyph, rest, rfl, rfl⟩ := exists_append_of_lt hi
    rw [editAt_append]
    cases hedit : edit glyph rest with
    | none => exact hrefl _
    | some o => exact happend before _ _ (h glyph rest o hedit)
  · rw [editAt, List.drop_eq_nil_of_le hi]
    exact hrefl run

namespace Lookup

/-- The sequences that the lookup puts in the place of glyphs, if it is for multiple
substitution. -/
def sequences (lookup : Lookup) : List (List GlyphId) :=
  match lookup.subtables with
  | .multiple tables => tables.flatMap fun table => table.entries.map (·.2)
  | _ => []

end Lookup

namespace LookupList

/-- The sequences of all multiple substitutions of the list. -/
def sequences (list : LookupList) : List (List GlyphId) := list.lookups.flatMap (·.sequences)

end LookupList

/-- An outcome of a lookup of the list on a run, in a pass or in a nested call. -/
def LookupList.Yields (list : LookupList) (skip : SkipPredicate) (run : Run α)
    (o : Outcome α Bool) : Prop :=
  (∃ budget k, list.applyLookup skip budget k run = some o) ∨
    ∃ limit k i, list.applyNested skip limit k run i = o

/-- A law about what edits make of a run, wherever in it they are: one that edits can be put
together under, and that holds of each kind of edit at the head of a run. -/
structure EditLaw (list : LookupList) (Q : Run α → Run α → Prop) : Prop where
  refl : ∀ run, Q run run
  trans : ∀ {run run' run''}, Q run run' → Q run' run'' → Q run run''
  append : ∀ before run run', Q run run' → Q (before ++ run) (before ++ run')
  replaceBy : ∀ glyph g rest, Q (glyph :: rest) (glyph.replaceBy g :: rest)
  expand : ∀ gs ∈ list.sequences, ∀ glyph rest, Q (glyph :: rest) (glyph.expand gs ++ rest)
  fuse : ∀ (ligature : Ligature) f glyph rest, Q (glyph :: rest) (ligature.fuse f glyph rest).run

namespace EditLaw

variable {list : LookupList} {Q : Run α → Run α → Prop}

theorem editRelation (hQ : EditLaw list Q) : EditRelation fun _ => Q where
  refl _ := hQ.refl
  trans := hQ.trans
  widen _ h := h

theorem editsBy (hQ : EditLaw list Q) (skip : SkipPredicate) :
    list.EditsBy skip fun _ => Q := by
  intro lookup hlookup run i
  have hsequences : ∀ gs ∈ lookup.sequences, gs ∈ list.sequences :=
    fun gs hgs => List.mem_flatMap.2 ⟨lookup, hlookup, hgs⟩
  obtain ⟨flag, subtables⟩ := lookup
  cases subtables with
  | single tables =>
    refine editAt_rel hQ.refl hQ.append (fun glyph rest o ho => ?_) run i
    obtain ⟨g, -, rfl⟩ := Option.map_eq_some_iff.1 ho
    exact hQ.replaceBy glyph g rest
  | multiple tables =>
    refine editAt_rel hQ.refl hQ.append (fun glyph rest o ho => ?_) run i
    obtain ⟨gs, hgs, rfl⟩ := Option.map_eq_some_iff.1 ho
    obtain ⟨table, htable, hentry⟩ := Coverage.exists_mem_of_first? hgs
    refine hQ.expand gs (hsequences gs ?_) glyph rest
    exact List.mem_flatMap.2 ⟨table, htable, List.mem_map_of_mem hentry⟩
  | ligature tables =>
    refine editAt_rel hQ.refl hQ.append (fun glyph rest o ho => ?_) run i
    obtain ⟨ligature, -, rfl⟩ := Option.map_eq_some_iff.1 ho
    exact hQ.fuse ligature (skip.filter flag) glyph rest
  | contextual kind tables => exact hQ.refl run

/-- The law holds of all that lookups of the list do. -/
theorem yields (hQ : EditLaw list Q) {skip : SkipPredicate} {run : Run α} {o : Outcome α Bool}
    (ho : list.Yields skip run o) : Q run o.run := by
  rcases ho with ⟨budget, k, ho⟩ | ⟨limit, k, i, rfl⟩
  · exact LookupList.applyLookup_rel hQ.editRelation (hQ.editsBy skip) ho
  · exact LookupList.applyNested_rel hQ.editRelation (hQ.editsBy skip) limit k run i

end EditLaw

end GlyphSubstitution
