import GlyphSubstitution.Proofs.RenumberedTables

/-!
# Renumbering glyphs

Glyph numbers are only names: matching compares them with each other and asks coverages and the skip
predicate about them, and nothing is ever computed from them.  So if the glyphs of a font are
numbered in another way, in its tables (`RenumberedTables.lean`), in the skip predicate and in the
run alike, then all is as before but for the numbers.

The file follows an application from the inside out.  Matching finds the same positions, selection
the renumbered rule or ligature, and an edit commutes with renumbering if what it does to its glyph
and the rest of the run does (`editAt_renumber`).  Records and nested calls commute with renumbering
by an induction on the recursion limit, scans by one on the budget.  The whole is put together in
`LookupList.numbers_are_names`.
-/

namespace GlyphSubstitution

universe u v

variable (π : Equiv.Perm GlyphId)

/-! ## Filters -/

/-- The predicate that answers for the renumbered glyphs as this one does for the glyphs. -/
def SkipPredicate.renumber (skip : SkipPredicate) : SkipPredicate :=
  fun g flag => skip (π.symm g) flag

/-- The filter that sees the renumbered glyphs as this one does the glyphs. -/
def GlyphFilter.renumber (f : GlyphFilter) : GlyphFilter := ⟨fun g => f.sees (π.symm g)⟩

@[simp] theorem SkipPredicate.renumber_apply (skip : SkipPredicate) (g : GlyphId)
    (flag : LookupFlag) : skip.renumber π (π g) flag = skip g flag :=
  congrArg (skip · flag) (π.symm_apply_apply g)

namespace GlyphFilter

@[simp] theorem sees_renumber (f : GlyphFilter) (g : GlyphId) :
    (f.renumber π).sees (π g) = f.sees g :=
  congrArg f.sees (π.symm_apply_apply g)

theorem sees_renumber_comp (f : GlyphFilter) : (f.renumber π).sees ∘ π = f.sees :=
  funext fun g => f.sees_renumber π g

/-! ## Matching -/

theorem seesAt_renumber (f : GlyphFilter) (gids : List GlyphId) (i : Nat) :
    (f.renumber π).seesAt (gids.map π) i = f.seesAt gids i := by
  rw [seesAt, seesAt, List.getElem?_map]
  cases gids[i]? with
  | none => rfl
  | some g => exact f.sees_renumber π g

theorem next?_renumber (f : GlyphFilter) (gids : List GlyphId) (i : Nat) :
    (f.renumber π).next? (gids.map π) i = f.next? gids i := by
  rw [next?, next?, ← List.map_drop, List.findIdx?_map, sees_renumber_comp]

theorem prev?_renumber (f : GlyphFilter) (gids : List GlyphId) (i : Nat) :
    (f.renumber π).prev? (gids.map π) i = f.prev? gids i := by
  rw [prev?, prev?, List.length_map]
  induction min i gids.length with
  | zero => rfl
  | succ i ih => rw [prevBelow?, prevBelow?, seesAt_renumber, ih]

theorem getElem?_map_beq (gids : List GlyphId) (g : GlyphId) (p : Nat) :
    ((gids.map π)[p]? == some (π g)) = (gids[p]? == some g) := by
  rw [List.getElem?_map, ← Option.map_some, Bool.eq_iff_iff, beq_iff_eq, beq_iff_eq,
    (Option.map_injective π.injective).eq_iff]

theorem stepAhead?_renumber (f : GlyphFilter) (gids : List GlyphId) (g : GlyphId) (i : Nat) :
    (f.renumber π).stepAhead? (gids.map π) (π g) i = f.stepAhead? gids g i := by
  rw [stepAhead?, stepAhead?, next?_renumber]
  exact congrArg (Option.filter · _) (funext (getElem?_map_beq π gids g))

theorem stepBack?_renumber (f : GlyphFilter) (gids : List GlyphId) (g : GlyphId) (i : Nat) :
    (f.renumber π).stepBack? (gids.map π) (π g) i = f.stepBack? gids g i := by
  rw [stepBack?, stepBack?, prev?_renumber]
  exact congrArg (Option.filter · _) (funext (getElem?_map_beq π gids g))

theorem matchesBack_renumber (f : GlyphFilter) (gids pattern : List GlyphId) (i : Nat) :
    (f.renumber π).matchesBack (gids.map π) (pattern.map π) i = f.matchesBack gids pattern i := by
  induction pattern generalizing i with
  | nil => rfl
  | cons g rest ih => simp only [List.map_cons, matchesBack, stepBack?_renumber, ih]

theorem reach?_renumber (f : GlyphFilter) (gids pattern : List GlyphId) (i : Nat) :
    (f.renumber π).reach? (gids.map π) (pattern.map π) i = f.reach? gids pattern i := by
  induction pattern generalizing i with
  | nil => rfl
  | cons g rest ih => simp only [List.map_cons, reach?, stepAhead?_renumber, ih]

theorem matchAhead_renumber (f : GlyphFilter) (gids pattern : List GlyphId) (i : Nat)
    (found : List Nat) :
    (f.renumber π).matchAhead (gids.map π) (pattern.map π) i found =
      f.matchAhead gids pattern i found := by
  induction pattern generalizing i found with
  | nil => rfl
  | cons g rest ih => simp only [List.map_cons, matchAhead, stepAhead?_renumber, ih]

end GlyphFilter

/-- A context is met where it was, by glyphs at the same positions. -/
theorem ContextPattern.match?_renumber (pattern : ContextPattern) (f : GlyphFilter)
    (gids : List GlyphId) (i : Nat) :
    (pattern.renumber π).match? (f.renumber π) (gids.map π) i = pattern.match? f gids i := by
  have hgetD : ∀ asked : Option (List GlyphId),
      (asked.map (List.map π)).getD [] = (asked.getD []).map π := by
    intro asked
    cases asked <;> rfl
  simp only [match?, renumber, hgetD, List.length_map, GlyphFilter.matchesBack_renumber,
    GlyphFilter.matchAhead_renumber]
  congr 3
  funext last
  exact GlyphFilter.reach?_renumber π f gids _ last

/-! ## Selection -/

theorem ContextRule.match?_renumber (rule : ContextRule) (f : GlyphFilter) (gids : List GlyphId)
    (i : Nat) : (rule.renumber π).match? (f.renumber π) (gids.map π) i = rule.match? f gids i := by
  rw [match?, match?, pattern_renumber, ContextPattern.match?_renumber, records_renumber]

theorem candidateRules_renumber (tables : List ContextSubtable) (g : GlyphId) :
    candidateRules (tables.map (ContextSubtable.renumber π)) (π g) =
      (candidateRules tables g).map (ContextRule.renumber π) := by
  simp only [candidateRules, List.flatMap_map, List.map_flatMap, ContextSubtable.rulesFor_renumber]

/-- The renumbered rule is selected, and what a match says mentions no glyphs. -/
theorem selectRule?_renumber (tables : List ContextSubtable) (f : GlyphFilter)
    (gids : List GlyphId) (i : Nat) :
    selectRule? (tables.map (ContextSubtable.renumber π)) (f.renumber π) (gids.map π) i =
      selectRule? tables f gids i := by
  rw [selectRule?, selectRule?, List.getElem?_map]
  cases gids[i]? with
  | none => rfl
  | some g =>
    simp only [Option.map_some, Option.bind_some, candidateRules_renumber, List.findSome?_map]
    exact congrArg (List.findSome? · _) (funext fun rule => rule.match?_renumber π f gids i)

theorem Ligature.matchesAt_renumber (ligature : Ligature) (f : GlyphFilter) (gids : List GlyphId)
    (i : Nat) :
    (ligature.renumber π).matchesAt (f.renumber π) (gids.map π) i =
      ligature.matchesAt f gids i := by
  rw [matchesAt, matchesAt, renumber, GlyphFilter.reach?_renumber]

/-- The renumbered ligature is selected. -/
theorem selectLigature?_renumber (tables : List LigatureSubtable) (f : GlyphFilter)
    (gids : List GlyphId) (i : Nat) :
    selectLigature? (tables.map (Coverage.renumber π (List.map (Ligature.renumber π))))
        (f.renumber π) (gids.map π) i =
      (selectLigature? tables f gids i).map (Ligature.renumber π) := by
  rw [selectLigature?, selectLigature?, List.getElem?_map]
  cases gids[i]? with
  | none => rfl
  | some g =>
    have hheld : ∀ table : LigatureSubtable,
        ((table.renumber π (List.map (Ligature.renumber π))).get? (π g)).getD [] =
          ((table.get? g).getD []).map (Ligature.renumber π) := by
      intro table
      rw [Coverage.get?_renumber]
      cases table.get? g <;> rfl
    simp only [Option.map_some, Option.bind_some, ligatureFor?, List.flatMap_map, hheld,
      ← List.map_flatMap, List.find?_map]
    refine congrArg (fun p => Option.map _ (List.find? p _)) (funext fun ligature => ?_)
    exact ligature.matchesAt_renumber π f gids i

/-- The value for the glyph at a position is the renumbered one. -/
theorem Coverage.bind_first?_renumber {β : Type u} {γ : Type v} (f : β → γ) (cs : List (Coverage β))
    (gids : List GlyphId) (i : Nat) :
    (gids.map π)[i]?.bind (first? (cs.map (renumber π f))) =
      (gids[i]?.bind (first? cs)).map f := by
  rw [List.getElem?_map]
  cases gids[i]? with
  | none => rfl
  | some g => exact first?_renumber π f cs g

/-- A lookup has a substitution for the positions for which it had one. -/
theorem Lookup.selectsAt_renumber (lookup : Lookup) (f : GlyphFilter) (gids : List GlyphId)
    (i : Nat) :
    (lookup.renumber π).selectsAt (f.renumber π) (gids.map π) i = lookup.selectsAt f gids i := by
  obtain ⟨flag, subtables⟩ := lookup
  cases subtables with
  | single tables =>
    simp only [selectsAt, renumber, Subtables.renumber, Coverage.bind_first?_renumber,
      Option.isSome_map]
  | multiple tables =>
    simp only [selectsAt, renumber, Subtables.renumber, Coverage.bind_first?_renumber,
      Option.isSome_map]
  | ligature tables =>
    simp only [selectsAt, renumber, Subtables.renumber, selectLigature?_renumber, Option.isSome_map]
  | contextual kind tables =>
    simp only [selectsAt, renumber, Subtables.renumber, selectRule?_renumber]

/-! ## Runs and edits -/

variable {α : Type u} {β : Type v}

/-- The glyph under its other number, with all else that it carries. -/
def Glyph.renumber (glyph : Glyph α) : Glyph α := { glyph with gid := π glyph.gid }

/-- The run with every glyph renumbered. -/
def Run.renumber (run : Run α) : Run α := run.map (Glyph.renumber π)

namespace Run

@[simp] theorem renumber_nil : renumber π ([] : Run α) = [] := rfl

@[simp] theorem renumber_cons (glyph : Glyph α) (rest : Run α) :
    renumber π (glyph :: rest) = glyph.renumber π :: renumber π rest := rfl

@[simp] theorem renumber_append (run rest : Run α) :
    renumber π (run ++ rest) = renumber π run ++ renumber π rest := List.map_append

@[simp] theorem length_renumber (run : Run α) : (run.renumber π).length = run.length :=
  List.length_map _

theorem gids_renumber (run : Run α) : (run.renumber π).gids = run.gids.map π := by
  rw [gids, gids, renumber, List.map_map, List.map_map]
  rfl

end Run

/-- The outcome with its run renumbered and the same result. -/
def Outcome.renumber (o : Outcome α β) : Outcome α β := ⟨o.run.renumber π, o.result⟩

@[simp] theorem Outcome.run_renumber (o : Outcome α β) :
    (o.renumber π).run = o.run.renumber π := rfl

@[simp] theorem Outcome.result_renumber (o : Outcome α β) : (o.renumber π).result = o.result := rfl

variable {π} in
/-- An edit of a run commutes with renumbering if what it does to a glyph and the rest of the run
does. -/
theorem editAt_renumber {edit edit' : Glyph α → Run α → Option (Outcome α β)}
    (h : ∀ glyph rest, edit' (glyph.renumber π) (Run.renumber π rest) =
      (edit glyph rest).map (Outcome.renumber π)) (run : Run α) (i : Nat) :
    editAt edit' (run.renumber π) i = (editAt edit run i).renumber π := by
  rw [editAt, editAt, Run.renumber, ← List.map_drop, ← List.map_take]
  cases run.drop i with
  | nil => rfl
  | cons glyph rest =>
    have hedit := h glyph rest
    simp only [List.map_cons]
    rw [Run.renumber] at hedit
    rw [hedit]
    cases edit glyph rest with
    | none => rfl
    | some o => exact congrArg (Outcome.mk · _) (Run.renumber_append π (run.take i) o.run).symm

theorem applySingle_renumber (tables : List SingleSubtable) (run : Run α) (i : Nat) :
    applySingle (tables.map (Coverage.renumber π π)) (run.renumber π) i =
      (applySingle tables run i).renumber π := by
  refine editAt_renumber (fun glyph rest => ?_) run i
  simp only [Glyph.renumber, Coverage.first?_renumber]
  cases Coverage.first? tables glyph.gid <;> rfl

theorem Glyph.expand_renumber (glyph : Glyph α) (gs : List GlyphId) :
    (glyph.renumber π).expand (gs.map π) = Run.renumber π (glyph.expand gs) := by
  cases gs with
  | nil => rfl
  | cons g rest =>
    simp only [List.map_cons, expand, Run.renumber, List.map_map]
    rfl

theorem applyMultiple_renumber (tables : List MultipleSubtable) (run : Run α) (i : Nat) :
    applyMultiple (tables.map (Coverage.renumber π (List.map π))) (run.renumber π) i =
      (applyMultiple tables run i).renumber π := by
  refine editAt_renumber (fun glyph rest => ?_) run i
  have hfirst := Coverage.first?_renumber π (List.map π) tables glyph.gid
  cases hgs : Coverage.first? tables glyph.gid with
  | none => simp [hfirst, hgs, Glyph.renumber]
  | some gs =>
    simp [hfirst, hgs, Glyph.renumber, Outcome.renumber, ← Glyph.expand_renumber]

/-! ## Ligatures -/

variable [Payload α]

/-- The walk takes in the same glyphs and passes over the same glyphs. -/
theorem absorbFrom_renumber (f : GlyphFilter) (wanted taken : Nat) (head : Glyph α) (rest : Run α) :
    absorbFrom (f.renumber π) wanted taken (head.renumber π) (Run.renumber π rest) =
      let absorbed := absorbFrom f wanted taken head rest
      ⟨absorbed.head.renumber π, Run.renumber π absorbed.rest, absorbed.passed⟩ := by
  induction rest generalizing taken head with
  | nil => rfl
  | cons glyph rest ih =>
    have hsees : (f.renumber π).sees (glyph.renumber π).gid = f.sees glyph.gid :=
      f.sees_renumber π glyph.gid
    rw [Run.renumber_cons, absorbFrom, absorbFrom, hsees]
    split
    · rfl
    · split
      · exact ih (taken + 1) (head.absorb glyph)
      · cases toWord taken with
        | error e => rfl
        | ok place => simp only [ih taken head]; rfl

theorem Ligature.fuse_renumber (ligature : Ligature) (f : GlyphFilter) (head : Glyph α)
    (rest : Run α) :
    (ligature.renumber π).fuse (f.renumber π) (head.renumber π) (Run.renumber π rest) =
      (ligature.fuse f head rest).renumber π := by
  have hlength : (ligature.renumber π).components.length = ligature.components.length :=
    List.length_map _
  rw [fuse, fuse, hlength, absorbFrom_renumber]
  dsimp only
  split <;> rfl

theorem applyLigature_renumber (tables : List LigatureSubtable) (f : GlyphFilter) (run : Run α)
    (i : Nat) :
    applyLigature (tables.map (Coverage.renumber π (List.map (Ligature.renumber π))))
        (f.renumber π) (run.renumber π) i =
      (applyLigature tables f run i).renumber π := by
  refine editAt_renumber (fun head rest => ?_) run i
  rw [Run.gids_renumber, selectLigature?_renumber]
  cases selectLigature? tables f run.gids i with
  | none => rfl
  | some ligature =>
    simp only [Option.map_some, Ligature.fuse_renumber]
    rfl

/-! ## Records -/

/-- As far as before, in the renumbered run. -/
def Application.renumber (a : Application α) : Application α := { a with run := a.run.renumber π }

omit [Payload α] in
theorem Application.target?_renumber (a : Application α) (record : SequenceLookup) :
    (a.renumber π).target? record = a.target? record := by
  simp only [target?, renumber, Run.length_renumber]

omit [Payload α] in
theorem Application.afterCall_renumber (a : Application α) (record : SequenceLookup) (run : Run α)
    (changed : Bool) :
    (a.renumber π).afterCall record (run.renumber π) changed =
      (a.afterCall record run changed).renumber π := by
  simp only [afterCall, growth, renumber, Run.length_renumber]

variable {π}

section
variable {nested nested' : Applier α} {limit : Nat}
  (hnested : ∀ k i run,
    nested' ⟨k, limit, i, Run.renumber π run⟩ = (nested ⟨k, limit, i, run⟩).renumber π)
include hnested

omit [Payload α] in
/-- Working off records commutes with renumbering if answering the calls does. -/
theorem applyRecords_renumber (records : List SequenceLookup) (a : Application α) :
    applyRecords nested' limit records (a.renumber π) =
      (applyRecords nested limit records a).renumber π := by
  induction records generalizing a with
  | nil => rfl
  | cons record rest ih =>
    rw [applyRecords_cons, applyRecords_cons, Application.target?_renumber]
    cases a.target? record with
    | none => exact ih a
    | some index =>
      simp only [Application.renumber, hnested, Outcome.result_renumber, Outcome.run_renumber]
      cases (nested ⟨record.lookupIndex.toNat, limit, index, a.run⟩).result with
      | error e => rfl
      | ok changed =>
        dsimp only
        rw [← ih, ← Application.afterCall_renumber]
        rfl

omit [Payload α] in
/-- Contextual substitution commutes with renumbering if answering the calls does. -/
theorem applyContextual_renumber (tables : List ContextSubtable) (f : GlyphFilter) (run : Run α)
    (i : Nat) :
    applyContextual nested' limit (tables.map (ContextSubtable.renumber π)) (f.renumber π)
        (run.renumber π) i =
      (applyContextual nested limit tables f run i).renumber π := by
  rw [applyContextual_eq, applyContextual_eq, Run.gids_renumber, selectRule?_renumber]
  cases selectRule? tables f run.gids i with
  | none => rfl
  | some found =>
    have hrecords := applyRecords_renumber hnested found.records
      { run, positions := found.context.positions }
    simp only [Application.renumber] at hrecords
    simp only [hrecords]
    rfl

end

/-! ## Applying a lookup -/

/-- Applying a lookup commutes with renumbering if applying contextual subtables does. -/
theorem Lookup.applyAt_renumber (lookup : Lookup) (skip : SkipPredicate)
    {contextual contextual' :
      List ContextSubtable → GlyphFilter → Run α → Nat → Outcome α (Option Applied)}
    (hcontextual : ∀ tables f run i,
      contextual' (tables.map (ContextSubtable.renumber π)) (f.renumber π) (run.renumber π) i =
        (contextual tables f run i).renumber π) (run : Run α) (i : Nat) :
    (lookup.renumber π).applyAt (skip.renumber π) contextual' (run.renumber π) i =
      (lookup.applyAt skip contextual run i).renumber π := by
  obtain ⟨flag, subtables⟩ := lookup
  cases subtables with
  | single tables => exact applySingle_renumber π tables run i
  | multiple tables => exact applyMultiple_renumber π tables run i
  | ligature tables => exact applyLigature_renumber π tables (skip.filter flag) run i
  | contextual kind tables => exact hcontextual tables (skip.filter flag) run i

namespace LookupList

theorem wouldApply_renumber (list : LookupList) (skip : SkipPredicate) (k : Nat)
    (gids : List GlyphId) (i : Nat) :
    (list.renumber π).wouldApply (skip.renumber π) k (gids.map π) i =
      list.wouldApply skip k gids i := by
  rw [wouldApply, wouldApply, lookup_renumber]
  cases list.lookup k with
  | error e => rfl
  | ok lookup =>
    have hsees := (skip.filter lookup.flag).seesAt_renumber π gids i
    have hselects := lookup.selectsAt_renumber π (skip.filter lookup.flag) gids i
    exact congrArg Except.ok (congrArg₂ and hsees hselects)

theorem applyNested_renumber_of {list : LookupList} {skip : SkipPredicate} {limit : Nat}
    (hcontextual : ∀ tables f (run : Run α) i,
      (list.renumber π).contextualAt (skip.renumber π) limit
          (tables.map (ContextSubtable.renumber π)) (f.renumber π) (run.renumber π) i =
        (list.contextualAt skip limit tables f run i).renumber π) (k : Nat) (run : Run α)
    (i : Nat) :
    (list.renumber π).applyNested (skip.renumber π) limit k (run.renumber π) i =
      (list.applyNested skip limit k run i).renumber π := by
  rw [applyNested_eq, applyNested_eq, lookup_renumber, Run.length_renumber]
  cases list.lookup k with
  | error e => rfl
  | ok lookup =>
    dsimp only [Except.map]
    split
    · rw [lookup.applyAt_renumber skip hcontextual]
      rfl
    · rfl

/-- A nested call commutes with renumbering, at every limit. -/
theorem applyNested_renumber (list : LookupList) (skip : SkipPredicate) (limit k : Nat)
    (run : Run α) (i : Nat) :
    (list.renumber π).applyNested (skip.renumber π) limit k (run.renumber π) i =
      (list.applyNested skip limit k run i).renumber π := by
  induction limit generalizing k run i with
  | zero => exact applyNested_renumber_of (fun _ _ _ _ => rfl) k run i
  | succ limit ih =>
    refine applyNested_renumber_of (fun tables f run i => ?_) k run i
    exact applyContextual_renumber (fun k i run => ih k run i) tables f run i

theorem visit_renumber (list : LookupList) (skip : SkipPredicate) (lookup : Lookup) (run : Run α)
    (i : Nat) :
    (list.renumber π).visit (skip.renumber π) (lookup.renumber π) (run.renumber π) i =
      (list.visit skip lookup run i).renumber π :=
  lookup.applyAt_renumber skip
    (applyContextual_renumber fun k i run => list.applyNested_renumber skip _ k run i) run i

end LookupList

/-! ## Scans -/

omit [Payload α]

/-- As far as before, in the renumbered run. -/
def Scan.renumber (π : Equiv.Perm GlyphId) (s : Scan α) : Scan α :=
  { s with run := s.run.renumber π }

/-- The step to the renumbered outcome, or to the renumbered scan. -/
def ScanStep.renumber (π : Equiv.Perm GlyphId) : ScanStep α → ScanStep α
  | stopped o => stopped (o.renumber π)
  | moved next => moved (next.renumber π)

namespace Scan

theorem after_renumber (s : Scan α) (o : Outcome α (Option Applied)) :
    (s.renumber π).after (o.renumber π) = (s.after o).renumber π := by
  obtain ⟨run, result⟩ := o
  cases result with
  | error e => rfl
  | ok applied? => cases applied? <;> rfl

variable {f : GlyphFilter} {visit visit' : Visit α}
  (hvisit : ∀ run i, visit' (run.renumber π) i = (visit run i).renumber π)
include hvisit

/-- A step of a scan commutes with renumbering if visits do. -/
theorem step_renumber (s : Scan α) :
    (s.renumber π).step (f.renumber π) visit' = (s.step f visit).renumber π := by
  have hglyph : (s.renumber π).run[(s.renumber π).cursor]? =
      s.run[s.cursor]?.map (Glyph.renumber π) := List.getElem?_map
  rw [step_eq, step_eq, hglyph]
  cases s.run[s.cursor]? with
  | none => rfl
  | some glyph =>
    have hsees : (f.renumber π).sees (glyph.renumber π).gid = f.sees glyph.gid :=
      f.sees_renumber π glyph.gid
    dsimp only [Option.map_some]
    rw [hsees]
    split
    · rw [← after_renumber, ← hvisit]
      rfl
    · rfl

/-- A scan commutes with renumbering if visits do, and ends within the same budgets. -/
theorem finish_renumber (budget : Nat) (s : Scan α) :
    finish (f.renumber π) visit' budget (s.renumber π) =
      (finish f visit budget s).map (Outcome.renumber π) := by
  induction budget generalizing s with
  | zero =>
    have hlength : (s.renumber π).run.length = s.run.length := Run.length_renumber π s.run
    rw [finish_zero, finish_zero, hlength]
    by_cases hcursor : s.cursor < s.run.length
    · rw [if_pos hcursor, if_pos (show (s.renumber π).cursor < _ from hcursor)]
      rfl
    · rw [if_neg hcursor, if_neg (show ¬ (s.renumber π).cursor < _ from hcursor)]
      rfl
  | succ budget ih =>
    rw [finish_succ, finish_succ, step_renumber hvisit]
    cases s.step f visit with
    | stopped o => rfl
    | moved next => exact ih next

end Scan

namespace LookupList

theorem applyLookup_renumber [Payload α] (list : LookupList) (skip : SkipPredicate)
    (budget k : Nat) (run : Run α) :
    (list.renumber π).applyLookup (skip.renumber π) budget k (run.renumber π) =
      (list.applyLookup skip budget k run).map (Outcome.renumber π) := by
  rw [applyLookup, applyLookup, lookup_renumber]
  cases list.lookup k with
  | error e => rfl
  | ok lookup =>
    exact Scan.finish_renumber (f := skip.filter lookup.flag) (list.visit_renumber skip lookup)
      budget { run }

/-- Glyph numbers are only names.  Renumbering the data that tables are built from, or the lookups
that a list is, comes to the same as renumbering what is built: it is refused with the same error,
the first that is met in the order of the data, or else accepted.  And with the renumbered list,
whatever its recursion limit, the renumbered skip predicate and the renumbered run, dry runs, nested
calls and passes have the result that they had, and leave the run that they left, renumbered.

Of the error this says more than there is to the data.  Where the first faulty lookup has faults of
both kinds, which of them is told may hang on the order in which its subtables keep their start
glyphs, and where that order is not the order of the data, as in a hash table, the error may be
another one after renumbering.  It is the same in any order where that lookup has faults of one kind
only (`ofLookups_eq_error_of_isFirst`). -/
theorem numbers_are_names (π : Equiv.Perm GlyphId) (α : Type u) [Payload α] :
    ((∀ pairs : List (GlyphId × GlyphId),
        Coverage.ofList (pairs.map (Prod.map π π)) = (Coverage.ofList pairs).renumber π π) ∧
      (∀ pairs : List (GlyphId × List GlyphId),
        Coverage.ofList (pairs.map (Prod.map π (List.map π))) =
          (Coverage.ofList pairs).renumber π (List.map π)) ∧
      (∀ pairs : List (GlyphId × List Ligature),
        Coverage.ofList (pairs.map (Prod.map π (List.map (Ligature.renumber π)))) =
          (Coverage.ofList pairs).renumber π (List.map (Ligature.renumber π))) ∧
      (∀ pairs : List (GlyphId × List ContextRule),
        ContextSubtable.ofRules (pairs.map (Prod.map π (List.map (ContextRule.renumber π)))) =
          (ContextSubtable.ofRules pairs).map (ContextSubtable.renumber π)) ∧
      ∀ lookups, ofLookups (lookups.map (Lookup.renumber π)) =
        (ofLookups lookups).map (renumber π)) ∧
    ∀ (list : LookupList) (bound : Nat) (skip : SkipPredicate) (k : Nat),
      (∀ gids i,
        ((list.renumber π).withRecursionLimit bound).wouldApply (skip.renumber π) k
            (gids.map π) i =
          (list.withRecursionLimit bound).wouldApply skip k gids i) ∧
      (∀ limit (run : Run α) i,
        ((list.renumber π).withRecursionLimit bound).applyNested (skip.renumber π) limit k
            (run.renumber π) i =
          ((list.withRecursionLimit bound).applyNested skip limit k run i).renumber π) ∧
      ∀ budget (run : Run α),
        ((list.renumber π).withRecursionLimit bound).applyLookup (skip.renumber π) budget k
            (run.renumber π) =
          ((list.withRecursionLimit bound).applyLookup skip budget k run).map
            (Outcome.renumber π) := by
  refine ⟨⟨Coverage.ofList_renumber π π, Coverage.ofList_renumber π _,
    Coverage.ofList_renumber π _, ContextSubtable.ofRules_renumber π, ofLookups_renumber π⟩, ?_⟩
  intro list bound skip k
  have hlimit : (list.renumber π).withRecursionLimit bound =
      (list.withRecursionLimit bound).renumber π := rfl
  rw [hlimit]
  exact ⟨wouldApply_renumber _ skip k, fun limit => applyNested_renumber _ skip limit k,
    fun budget => applyLookup_renumber _ skip budget k⟩

end LookupList

end GlyphSubstitution
