import GlyphSubstitution.Proofs.ChainedRules
import GlyphSubstitution.Proofs.DryRun

/-!
# Passes that replace single glyphs

A pass with a multiple substitution looks once at each glyph of the run as it was at first, and
what it puts in is never looked at again: the run that it leaves is that of first the glyphs of the
one, then of the next (`Glyph.substitutes`), whether sequences are empty, of one glyph or longer.
The invariant of the scan is that the cursor stands at the end of what has been put in so far, so
one step takes the first glyph of the rest to its substitutes (`Scan.step_applyMultiple`) and a run
takes the whole rest to theirs (`Scan.finish_applyMultiple`).

A single substitution is a multiple substitution with sequences of one glyph each.  Lookups that
agree in their flag, in what they select and in what they do at one position are
`Lookup.Interchangeable`: lists in which they stand for each other come to the same in dry runs, in
nested calls and in passes, with every lookup that may call them
(`LookupList.sameAnswers_of_interchangeable`).
-/

namespace GlyphSubstitution

universe u v

variable {α : Type u}

/-! ## What is put in the place of a glyph -/

namespace Glyph

/-- Substitute number `n` of a glyph.  The first one, of number zero, keeps the place among the
components of a ligature, and all others are marked as duplicates. -/
def output (glyph : Glyph α) (n : Nat) (g : GlyphId) : Glyph α where
  gid := g
  chars := glyph.chars
  ligatureComponent := if n = 0 then glyph.ligatureComponent else 0
  origin := .direct
  flags := { glyph.flags with duplicate := glyph.flags.duplicate || n != 0 }
  payload := glyph.payload

theorem output_zero (glyph : Glyph α) : glyph.output 0 = glyph.replaceBy := by
  funext g
  simp [output, replaceBy]

theorem output_succ (glyph : Glyph α) (n : Nat) : glyph.output (n + 1) = glyph.duplicateAs := by
  funext g
  simp [output, duplicateAs]

theorem expand_eq_mapIdx (glyph : Glyph α) (gs : List GlyphId) :
    glyph.expand gs = gs.mapIdx glyph.output := by
  cases gs with
  | nil => rfl
  | cons g rest =>
    refine List.ext_getElem? fun n => ?_
    cases n with
    | zero => simp [expand, output_zero]
    | succ n => simp [expand, output_succ]

/-- What a pass with multiple subtables makes of a glyph: the substitutes that the first subtable to
cover the glyph holds for it, or the glyph itself if it is not seen or not covered. -/
def substitutes (glyph : Glyph α) (f : GlyphFilter) (tables : List MultipleSubtable) : Run α :=
  if f.sees glyph.gid then
    match Coverage.first? tables glyph.gid with
    | none => [glyph]
    | some gs => gs.mapIdx glyph.output
  else [glyph]

/-- Whether a pass with multiple subtables replaces the glyph. -/
def isReplaced (glyph : Glyph α) (f : GlyphFilter) (tables : List MultipleSubtable) : Bool :=
  f.sees glyph.gid && tables.any (·.covers glyph.gid)

end Glyph

/-! ## The pass -/

theorem Coverage.isSome_first? {β : Type v} (cs : List (Coverage β)) (g : GlyphId) :
    (first? cs g).isSome = cs.any (·.covers g) := by
  rw [Bool.eq_iff_iff, first?, List.findSome?_isSome_iff, List.any_eq_true]
  exact Iff.rfl

namespace Scan

theorem finish_at_end {f : GlyphFilter} {visit : Visit α} {s : Scan α} {budget : Nat}
    (h : s.run.length ≤ s.cursor) : finish f visit budget s = some ⟨s.run, .ok s.changed⟩ := by
  cases budget with
  | zero => rw [finish_zero, if_neg (Nat.not_lt.2 h)]
  | succ budget => rw [finish_succ, stopped_at_end h]

variable (f : GlyphFilter) (tables : List MultipleSubtable)

/-- A step takes the glyph at the cursor to its substitutes and goes on behind them. -/
theorem step_applyMultiple (done : Run α) (glyph : Glyph α) (rest : Run α) (changed : Bool) :
    step f (applyMultiple tables) ⟨done ++ glyph :: rest, done.length, changed⟩ =
      .moved ⟨(done ++ glyph.substitutes f tables) ++ rest,
        (done ++ glyph.substitutes f tables).length,
        changed || glyph.isReplaced f tables⟩ := by
  have hglyph : (done ++ glyph :: rest)[done.length]? = some glyph := by simp
  rw [step_eq, hglyph, Glyph.substitutes, Glyph.isReplaced, ← Coverage.isSome_first?]
  dsimp only
  cases f.sees glyph.gid with
  | false => simp [pass]
  | true =>
    rw [applyMultiple, editAt_append, if_pos rfl, if_pos rfl]
    cases Coverage.first? tables glyph.gid with
    | none => simp [after]
    | some gs => simp [after, Except.map, Glyph.expand_eq_mapIdx]

/-- From the end of what has been put in, a scan goes on to put in the substitutes of all glyphs
that are left. -/
theorem finish_applyMultiple (done rest : Run α) (changed : Bool) {budget : Nat}
    (hbudget : rest.length ≤ budget) :
    finish f (applyMultiple tables) budget ⟨done ++ rest, done.length, changed⟩ =
      some ⟨done ++ rest.flatMap (·.substitutes f tables),
        .ok (changed || rest.any (·.isReplaced f tables))⟩ := by
  induction rest generalizing done changed budget with
  | nil =>
    have hend : (done ++ ([] : Run α)).length ≤ done.length := by simp
    rw [finish_at_end hend]
    simp
  | cons glyph rest ih =>
    cases budget with
    | zero => simp at hbudget
    | succ budget =>
      rw [finish_succ, step_applyMultiple]
      dsimp only
      rw [ih _ _ (Nat.le_of_succ_le_succ hbudget), List.flatMap_cons, List.append_assoc,
        List.any_cons, Bool.or_assoc]

end Scan

/-! ## Lookups that stand for each other -/

/-- The lookups have the same flag, select something at the same positions, and do the same at each
of them, however contextual subtables are applied. -/
structure Lookup.Interchangeable (α : Type u) [Payload α] (lookup lookup' : Lookup) : Prop where
  flag : lookup'.flag = lookup.flag
  selectsAt : ∀ f gids i, lookup'.selectsAt f gids i = lookup.selectsAt f gids i
  applyAt : ∀ skip contextual,
    lookup'.applyAt (α := α) skip contextual = lookup.applyAt skip contextual

variable [Payload α]

theorem Lookup.Interchangeable.refl (lookup : Lookup) : lookup.Interchangeable α lookup where
  flag := rfl
  selectsAt _ _ _ := rfl
  applyAt _ _ := rfl

namespace LookupList

variable {list list' : LookupList}

section Interchangeable

variable (h : ∀ k : Nat, Option.Rel (Lookup.Interchangeable α) list.lookups[k]? list'.lookups[k]?)

include h

theorem wouldApply_eq_of_interchangeable (skip : SkipPredicate) (k : Nat) (gids : List GlyphId)
    (i : Nat) : list'.wouldApply skip k gids i = list.wouldApply skip k gids i := by
  unfold wouldApply
  rcases lookup_cases_of_rel (h k) with
    ⟨e, hlookup, hlookup'⟩ | ⟨lookup, lookup', hlookup, hlookup', hsame⟩
  · rw [hlookup, hlookup']
  · rw [hlookup, hlookup']
    refine congrArg Except.ok ?_
    dsimp only
    rw [hsame.flag, hsame.selectsAt]

theorem applyNested_eq_of_contextualAt {skip : SkipPredicate} {limit : Nat}
    (hcontextual : list'.contextualAt (α := α) skip limit = list.contextualAt skip limit) (k : Nat)
    (run : Run α) (i : Nat) :
    list'.applyNested skip limit k run i = list.applyNested skip limit k run i := by
  rw [applyNested_eq, applyNested_eq]
  rcases lookup_cases_of_rel (h k) with
    ⟨e, hlookup, hlookup'⟩ | ⟨lookup, lookup', hlookup, hlookup', hsame⟩
  · rw [hlookup, hlookup']
  · rw [hlookup, hlookup']
    dsimp only
    rw [hsame.applyAt, hcontextual]

theorem applyNested_eq_of_interchangeable (skip : SkipPredicate) (limit k : Nat) (run : Run α)
    (i : Nat) : list'.applyNested skip limit k run i = list.applyNested skip limit k run i := by
  induction limit generalizing k run i with
  | zero => exact applyNested_eq_of_contextualAt h rfl k run i
  | succ limit ih =>
    have hcontextual : list'.contextualAt (α := α) skip (limit + 1) =
        list.contextualAt skip (limit + 1) := by
      refine applyContextual_congr fun call hcall => ?_
      rw [applier, applier, hcall]
      exact ih call.lookup call.run call.index
    exact applyNested_eq_of_contextualAt h hcontextual k run i

/-- Lists with lookups that stand for each other give the same answers. -/
theorem sameAnswers_of_interchangeable (hlimit : list'.recursionLimit = list.recursionLimit)
    (skip : SkipPredicate) (k : Nat) : SameAnswers α list list' skip k where
  wouldApply := wouldApply_eq_of_interchangeable h skip k
  applyNested limit := applyNested_eq_of_interchangeable h skip limit k
  applyLookup budget run := by
    have happlier : list'.applier (α := α) skip = list.applier skip :=
      funext fun call => applyNested_eq_of_interchangeable h skip _ _ _ _
    unfold applyLookup
    rcases lookup_cases_of_rel (h k) with
      ⟨e, hlookup, hlookup'⟩ | ⟨lookup, lookup', hlookup, hlookup', hsame⟩
    · rw [hlookup, hlookup']
    · rw [hlookup, hlookup']
      dsimp only
      rw [visit, visit, hlimit, happlier, hsame.flag, hsame.applyAt]

end Interchangeable

end LookupList

/-! ## Sequences of one glyph -/

namespace Coverage

variable {β γ : Type v}

theorem first?_mapValues (f : β → γ) (cs : List (Coverage β)) (g : GlyphId) :
    first? (cs.map (·.mapValues f)) g = (first? cs g).map f := by
  induction cs with
  | nil => rfl
  | cons c rest ih =>
    unfold first? at ih ⊢
    rw [List.map_cons, List.findSome?_cons, List.findSome?_cons, ih, get?_mapValues]
    cases c.get? g <;> rfl

end Coverage

/-- The subtables that put a sequence of one glyph where `tables` put the glyph. -/
def asSequences (tables : List SingleSubtable) : List MultipleSubtable :=
  tables.map (·.mapValues fun g => [g])

omit [Payload α] in
theorem applyMultiple_asSequences (tables : List SingleSubtable) (run : Run α) (i : Nat) :
    applyMultiple (asSequences tables) run i = applySingle tables run i := by
  refine editAt_congr fun glyph rest _ => ?_
  rw [asSequences, Coverage.first?_mapValues, Option.map_map]
  rfl

theorem interchangeable_asSequences (flag : LookupFlag) (tables : List SingleSubtable) :
    Lookup.Interchangeable α ⟨flag, .single tables⟩ ⟨flag, .multiple (asSequences tables)⟩ where
  flag := rfl
  selectsAt f gids i := by
    simp only [Lookup.selectsAt]
    cases gids[i]? with
    | none => rfl
    | some g => rw [Option.bind_some, Option.bind_some, asSequences, Coverage.first?_mapValues,
        Option.isSome_map]
  applyAt skip contextual := funext fun run => funext (applyMultiple_asSequences tables run)

/-! ## The law of passes -/

theorem map_set_of_eq {β : Type u} {γ : Type v} {f : β → γ} {xs : List β} {k : Nat} {old new : β}
    (hold : xs[k]? = some old) (h : f new = f old) : (xs.set k new).map f = xs.map f := by
  refine List.ext_getElem? fun n => ?_
  rw [List.getElem?_map, List.getElem?_map, List.getElem?_set]
  split
  · next hk =>
    subst hk
    rw [if_pos (List.getElem?_eq_some_iff.1 hold).1, hold]
    exact congrArg some h
  · rfl

/-- An entry that is exchanged for a related one is the only one that changes. -/
theorem rel_getElem?_set {β : Type u} {R : β → β → Prop} (hrefl : ∀ x, R x x) {xs : List β}
    {k : Nat} {old new : β} (hold : xs[k]? = some old) (h : R old new) (n : Nat) :
    Option.Rel R xs[n]? (xs.set k new)[n]? := by
  rw [List.getElem?_set]
  by_cases hn : k = n
  · subst hn
    rw [if_pos rfl, if_pos (List.getElem?_eq_some_iff.1 hold).1, hold]
    exact .some h
  · rw [if_neg hn]
    cases xs[n]? with
    | none => exact .none
    | some x => exact .some (hrefl x)

namespace LookupList

/-- A list of lookups in which a single substitution is written with sequences of one glyph is
checked with the same result. -/
theorem fault?_asSequences {lookups : List Lookup} {k : Nat} {flag : LookupFlag}
    {tables : List SingleSubtable} (hk : lookups[k]? = some ⟨flag, .single tables⟩) :
    (lookups.set k ⟨flag, .multiple (asSequences tables)⟩).findSome?
        (·.fault? (lookups.set k ⟨flag, .multiple (asSequences tables)⟩).length) =
      lookups.findSome? (·.fault? lookups.length) := by
  have hsame : (lookups.set k ⟨flag, .multiple (asSequences tables)⟩).map
      (·.fault? lookups.length) = lookups.map (·.fault? lookups.length) := map_set_of_eq hk rfl
  have hid : ∀ lookups' : List Lookup, lookups'.findSome? (·.fault? lookups.length) =
      (lookups'.map (·.fault? lookups.length)).findSome? id := fun lookups' => by
    rw [List.findSome?_map, Function.id_comp]
  rw [List.length_set, hid, hsame, ← hid]

/-- A pass with a multiple substitution ends within as many visits as there are glyphs, and takes
each glyph of the run to its substitutes; it reports a change exactly if some glyph is seen and
covered.  A single substitution may be written as a multiple one with sequences of one glyph: the
list is accepted as before or refused with the same error, and dry runs, nested calls and passes
come to the same with every lookup of the list. -/
theorem pass_eq_flatMap (α : Type u) [Payload α] (skip : SkipPredicate) :
    (∀ (list : LookupList) k flag tables, list.lookup k = .ok ⟨flag, .multiple tables⟩ →
        ∀ (run : Run α) budget, run.length ≤ budget →
          list.applyLookup skip budget k run = some
            ⟨run.flatMap (·.substitutes (skip.filter flag) tables),
              .ok (run.any fun glyph =>
                !skip glyph.gid flag && tables.any (·.covers glyph.gid))⟩) ∧
      ∀ (lookups : List Lookup) k flag tables, lookups[k]? = some ⟨flag, .single tables⟩ →
        match ofLookups lookups, ofLookups (lookups.set k
          ⟨flag, .multiple (tables.map (·.mapValues fun g => [g]))⟩) with
        | .error e, .error e' => e' = e
        | .ok list, .ok list' => ∀ bound l,
          SameAnswers α (list.withRecursionLimit bound) (list'.withRecursionLimit bound) skip l
        | _, _ => False := by
  constructor
  · intro list k flag tables hlookup run budget hbudget
    rw [applyLookup, hlookup]
    exact Scan.finish_applyMultiple (skip.filter flag) tables [] run false hbudget
  · intro lookups k flag tables hk
    have hfaults := fault?_asSequences hk
    show match ofLookups lookups, ofLookups (lookups.set k
      ⟨flag, .multiple (asSequences tables)⟩) with
      | .error e, .error e' => e' = e
      | .ok list, .ok list' => ∀ bound l,
        SameAnswers α (list.withRecursionLimit bound) (list'.withRecursionLimit bound) skip l
      | _, _ => False
    rcases ofLookups_cases lookups with ⟨e, hfault, herror⟩ | ⟨list, hfault, hok, rfl⟩
    · rw [herror, ofLookups_eq_error (hfaults.trans hfault)]
    · have hok' := ofLookups_eq_ok (List.findSome?_eq_none_iff.1 (hfaults.trans hfault))
      rw [hok, hok']
      intro bound l
      have hsame := rel_getElem?_set (Lookup.Interchangeable.refl (α := α)) hk
        (interchangeable_asSequences flag tables)
      exact sameAnswers_of_interchangeable hsame (by rfl) skip l

/-- The first subtable puts in a 4 again where it finds one and removes a 5; the second one has
another sequence for a 4. -/
def expandingTables : List MultipleSubtable :=
  [Coverage.ofList [(4, [9]), (5, []), (2, [20]), (4, [40, 4, 41])],
    Coverage.ofList [(4, [7]), (6, [60])]]

/-- Lookup 0 has `expandingTables`, lookup 1 makes a 6 a 4, and lookup 2 calls the two at a 6. -/
def expandingLookups : List Lookup :=
  [⟨{}, .multiple expandingTables⟩, ⟨{}, .single [Coverage.ofList [(6, 4)]]⟩,
    ⟨{}, .contextual .simple
      [⟨Coverage.ofList [(6, [.simple [] [⟨0, 1⟩, ⟨0, 0⟩]])], by decide⟩]⟩]

/-- The 2 is not seen and stays, though it is covered, and the 4 that is put in is not expanded
again.  With a sequence of one glyph for the 6, the lookup that calls lookup 1 does what it did. -/
theorem expanding_eq_flatMap :
    (∃ list, ofLookups expandingLookups = .ok list ∧
        list.lookup 0 = .ok ⟨{}, .multiple expandingTables⟩ ∧
        ∃ run, list.applyLookup (fun g _ => g == 2) 5 0
            [Glyph.ofId 5 (), .ofId 4 (), .ofId 2 (), .ofId 6 (), .ofId 7 ()] =
              some ⟨run, .ok true⟩ ∧
          run.gids = [40, 4, 41, 2, 60, 7]) ∧
      expandingLookups[1]? = some ⟨{}, .single [Coverage.ofList [(6, 4)]]⟩ ∧
      ∃ list list', ofLookups expandingLookups = .ok list ∧
        ofLookups (expandingLookups.set 1 ⟨{}, .multiple [Coverage.ofList [(6, [4])]]⟩) =
          .ok list' ∧
        SameAnswers Unit (list.withRecursionLimit 6) (list'.withRecursionLimit 6)
          (fun g _ => g == 2) 2 := by
  obtain ⟨hpass, hsingle⟩ := pass_eq_flatMap Unit fun g _ => g == 2
  have hok : ofLookups expandingLookups = .ok (ofFaultless expandingLookups (by decide)) :=
    ofLookups_eq_ok _
  have hok' : ofLookups (expandingLookups.set 1 ⟨{}, .multiple [Coverage.ofList [(6, [4])]]⟩) =
      .ok (ofFaultless (expandingLookups.set 1 ⟨{}, .multiple [Coverage.ofList [(6, [4])]]⟩)
        (by decide)) :=
    ofLookups_eq_ok _
  refine ⟨⟨_, hok, rfl, ?_⟩, rfl, _, _, hok, hok', ?_⟩
  · exact ⟨_, hpass _ 0 {} expandingTables rfl _ 5 (by decide), by decide⟩
  · have hset : expandingLookups.set 1
        ⟨{}, .multiple ([Coverage.ofList [(6, 4)]].map (·.mapValues fun g => [g]))⟩ =
          expandingLookups.set 1 ⟨{}, .multiple [Coverage.ofList [(6, [4])]]⟩ := rfl
    have hsame := hsingle expandingLookups 1 {} [Coverage.ofList [(6, 4)]] rfl
    rw [hset, hok, hok'] at hsame
    exact hsame 6 2

end LookupList

end GlyphSubstitution
