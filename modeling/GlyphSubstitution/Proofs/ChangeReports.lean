import GlyphSubstitution.Proofs.EditRelations

/-!
# Reports of change

Whoever applies a lookup is told whether anything was substituted, and passes the answer on: records
put together what their calls tell, scans what their visits tell.  An answer that nothing was
substituted can be relied on.  `Outcome.ReportsChange` says so of one outcome: if it is a success
and does not report a change, then the run is what it was before, glyph by glyph and field by field.

Edits by single, multiple and ligature subtables report themselves whenever there is one
(`Lookup.edit_reportsChange`), even if it puts the same glyph in the place of a glyph.  Records are
silent only if all their calls were (`applyRecords_silent`), and so are scans
(`Scan.silent_of_reaches`); with an induction on the limit, the same follows for everything that a
lookup list does (`unchanged_of_not_reported`).
-/

namespace GlyphSubstitution

universe u v w

variable {α : Type u} {β : Type v} {γ : Type w}

/-- Unless an application of something to `run` fails or reports a change, the run is as it was.
What counts as a report is told by `changed`. -/
def Outcome.ReportsChange (run : Run α) (changed : β → Bool) (o : Outcome α β) : Prop :=
  ∀ b, o.result = .ok b → changed b = false → o.run = run

/-- What a visit reports: that something was applied, and that this changed something. -/
def reported (applied : Option Applied) : Bool := applied.any (·.changed)

namespace Outcome.ReportsChange

variable {run : Run α} {changed : β → Bool} {o : Outcome α β}

theorem of_unchanged (h : o.run = run) : o.ReportsChange run changed := fun _ _ _ => h

theorem of_reported (h : ∀ b, o.result = .ok b → changed b = true) :
    o.ReportsChange run changed := by
  intro b hb hsilent
  rw [h b hb] at hsilent
  nomatch hsilent

/-- A report may be passed on in another form. -/
theorem map {changed' : γ → Bool} {g : β → γ} (h : o.ReportsChange run changed)
    (hg : ∀ b, changed b = changed' (g b)) : (o.map g).ReportsChange run changed' := by
  intro c hc hsilent
  obtain ⟨b, hb, rfl⟩ := result_map_eq_ok_iff.1 hc
  exact h b hb ((hg b).trans hsilent)

end Outcome.ReportsChange

/-! ## Edits -/

/-- An edit that reports itself where there is one. -/
theorem editAt_reportsChange {edit : Glyph α → Run α → Option (Outcome α Applied)}
    (h : ∀ glyph rest o applied, edit glyph rest = some o → o.result = .ok applied →
      applied.changed = true) (run : Run α) (i : Nat) :
    (editAt edit run i).ReportsChange run reported := by
  by_cases hi : i < run.length
  · obtain ⟨before, glyph, rest, rfl, rfl⟩ := exists_append_of_lt hi
    rw [editAt_append]
    cases hedit : edit glyph rest with
    | none => exact .of_unchanged rfl
    | some o =>
      have hreports : o.ReportsChange (glyph :: rest) Applied.changed :=
        .of_reported fun applied happlied => h glyph rest o applied hedit happlied
      intro b hb hsilent
      have hrest : (o.map some).run = glyph :: rest :=
        hreports.map (fun _ => rfl) b hb hsilent
      exact congrArg (before ++ ·) hrest
  · rw [editAt, List.drop_eq_nil_of_le (Nat.not_lt.1 hi)]
    exact .of_unchanged rfl

/-- What a lookup does to a run itself, it reports. -/
theorem Lookup.edit_reportsChange [Payload α] (lookup : Lookup) (skip : SkipPredicate)
    (run : Run α) (i : Nat) :
    (lookup.edit skip run i).ReportsChange run reported := by
  obtain ⟨flag, subtables⟩ := lookup
  cases subtables with
  | single tables =>
    refine editAt_reportsChange (fun glyph rest o applied ho happlied => ?_) run i
    obtain ⟨g, -, rfl⟩ := Option.map_eq_some_iff.1 ho
    rw [← Except.ok.inj happlied]
  | multiple tables =>
    refine editAt_reportsChange (fun glyph rest o applied ho happlied => ?_) run i
    obtain ⟨gs, -, rfl⟩ := Option.map_eq_some_iff.1 ho
    rw [← Except.ok.inj happlied]
  | ligature tables =>
    refine editAt_reportsChange (fun glyph rest o applied ho happlied => ?_) run i
    obtain ⟨ligature, -, rfl⟩ := Option.map_eq_some_iff.1 ho
    obtain ⟨passed, -, rfl⟩ := Outcome.result_map_eq_ok_iff.1 happlied
    rfl
  | contextual kind tables => exact .of_unchanged rfl

/-! ## Records -/

/-- Records are silent only if all their calls are, and then they have changed nothing. -/
theorem applyRecords_silent {nested : Applier α} {limit : Nat}
    (h : ∀ k i run, (nested ⟨k, limit, i, run⟩).ReportsChange run id)
    {records : List SequenceLookup} {a : Application α}
    (hsilent : (applyRecords nested limit records a).result = .ok false) :
    a.changed = false ∧ (applyRecords nested limit records a).run = a.run := by
  induction records generalizing a with
  | nil => exact ⟨Except.ok.inj hsilent, rfl⟩
  | cons record rest ih =>
    rw [applyRecords_cons] at hsilent ⊢
    cases htarget : a.target? record with
    | none =>
      rw [htarget] at hsilent
      exact ih hsilent
    | some index =>
      have hcall := h record.lookupIndex.toNat index a.run
      rw [htarget] at hsilent
      dsimp only at hsilent ⊢
      generalize nested ⟨record.lookupIndex.toNat, limit, index, a.run⟩ = o at hcall hsilent ⊢
      obtain ⟨run, result⟩ := o
      cases result with
      | error e => nomatch hsilent
      | ok changed =>
        obtain ⟨hflag, hrest⟩ := ih hsilent
        have hflag : ((a.changed || changed) || run.length != a.run.length) = false := hflag
        rw [Bool.or_eq_false_iff, Bool.or_eq_false_iff] at hflag
        obtain ⟨⟨hbefore, htold⟩, -⟩ := hflag
        -- the call was silent itself, so the run that the rest left as it was is the first one
        have hsame : run = a.run := hcall changed rfl htold
        exact ⟨hbefore, hrest.trans hsame⟩

theorem applyContextual_reportsChange {nested : Applier α} {limit : Nat}
    (h : ∀ k i run, (nested ⟨k, limit, i, run⟩).ReportsChange run id)
    (tables : List ContextSubtable) (f : GlyphFilter) (run : Run α) (i : Nat) :
    (applyContextual nested limit tables f run i).ReportsChange run reported := by
  rw [applyContextual_eq]
  cases selectRule? tables f run.gids i with
  | none => exact .of_unchanged rfl
  | some found =>
    have hrecords : (applyRecords nested limit found.records
        ⟨run, found.context.positions, false⟩).ReportsChange run id := by
      intro changed hchanged hsilent
      obtain rfl : changed = false := hsilent
      exact (applyRecords_silent h hchanged).2
    exact hrecords.map fun _ => rfl

/-! ## Scans -/

namespace Scan

variable {f : GlyphFilter} {visit : Visit α} {s s' next : Scan α}

theorem silent_of_moved (h : ∀ run i, (visit run i).ReportsChange run reported)
    (hs : s.step f visit = .moved next) (hsilent : next.changed = false) :
    s.changed = false ∧ next.run = s.run := by
  have hvisit := h s.run s.cursor
  obtain ⟨glyph, -, ⟨-, rfl⟩ | ⟨-, ⟨hnone, rfl⟩ | ⟨applied, hsome, rfl⟩⟩⟩ := moved_cases hs
  · exact ⟨hsilent, rfl⟩
  · exact ⟨hsilent, hvisit none hnone rfl⟩
  · have hflag : (s.changed || applied.changed) = false := hsilent
    obtain ⟨hbefore, htold⟩ := Bool.or_eq_false_iff.1 hflag
    exact ⟨hbefore, hvisit (some applied) hsome htold⟩

/-- As long as a scan is silent, it has changed nothing. -/
theorem silent_of_reaches (h : ∀ run i, (visit run i).ReportsChange run reported)
    (hs : Reaches f visit s s') (hsilent : s'.changed = false) :
    s.changed = false ∧ s'.run = s.run := by
  induction hs with
  | refl => exact ⟨hsilent, rfl⟩
  | tail _ hstep ih =>
    obtain ⟨hbefore, hsame⟩ := silent_of_moved h hstep hsilent
    obtain ⟨hfirst, hway⟩ := ih hbefore
    exact ⟨hfirst, hsame.trans hway⟩

/-- A scan that ends without reporting a change has changed nothing. -/
theorem finish_reportsChange (h : ∀ run i, (visit run i).ReportsChange run reported)
    {budget : Nat} {o : Outcome α Bool} (ho : finish f visit budget s = some o) :
    o.ReportsChange s.run id := by
  intro changed hchanged hsilent
  obtain rfl : changed = false := hsilent
  obtain ⟨s', hreaches, hstopped⟩ := exists_stopped_of_finish ho
  rcases stopped_cases hstopped with ⟨-, rfl⟩ | ⟨glyph, e, -, -, -, rfl⟩
  · exact (silent_of_reaches h hreaches (Except.ok.inj hchanged)).2
  · nomatch hchanged

end Scan

/-! ## Lookups of a list -/

variable [Payload α]

theorem Lookup.applyAt_reportsChange {lookup : Lookup} {skip : SkipPredicate}
    {contextual : List ContextSubtable → GlyphFilter → Run α → Nat → Outcome α (Option Applied)}
    (h : ∀ tables f run i, (contextual tables f run i).ReportsChange run reported)
    (run : Run α) (i : Nat) :
    (lookup.applyAt skip contextual run i).ReportsChange run reported := by
  have hedit := lookup.edit_reportsChange skip run i
  obtain ⟨flag, subtables⟩ := lookup
  cases subtables with
  | contextual kind tables => exact h tables (skip.filter flag) run i
  | _ => exact hedit

namespace LookupList

variable {list : LookupList} {skip : SkipPredicate}

theorem applyNested_reportsChange_of {limit : Nat}
    (h : ∀ tables f (run : Run α) i,
      (list.contextualAt skip limit tables f run i).ReportsChange run reported)
    (k : Nat) (run : Run α) (i : Nat) :
    (list.applyNested skip limit k run i).ReportsChange run id := by
  rw [applyNested_eq]
  split
  · exact .of_unchanged rfl
  · next lookup hlookup =>
    split
    · exact (Lookup.applyAt_reportsChange h run i).map fun _ => rfl
    · exact .of_unchanged rfl

/-- Nested calls report what they change. -/
theorem applyNested_reportsChange (limit k : Nat) (run : Run α) (i : Nat) :
    (list.applyNested skip limit k run i).ReportsChange run id := by
  induction limit generalizing k run i with
  | zero =>
    have hrefused : ∀ tables f (run : Run α) i,
        (list.contextualAt skip 0 tables f run i).ReportsChange run reported :=
      fun _ _ _ _ => .of_unchanged rfl
    exact applyNested_reportsChange_of hrefused k run i
  | succ limit ih =>
    have hcalls : ∀ k i (run : Run α),
        (list.applier skip ⟨k, limit, i, run⟩).ReportsChange run id := fun k i run => ih k run i
    exact applyNested_reportsChange_of (applyContextual_reportsChange hcalls) k run i

theorem applyContextual_applier_reportsChange (list : LookupList) (skip : SkipPredicate)
    (limit : Nat) (tables : List ContextSubtable) (f : GlyphFilter) (run : Run α) (i : Nat) :
    (applyContextual (list.applier skip) limit tables f run i).ReportsChange run reported :=
  applyContextual_reportsChange (fun k i run => applyNested_reportsChange limit k run i) tables f
    run i

/-- What a scan does at a position is reported. -/
theorem visit_reportsChange (lookup : Lookup) (run : Run α) (i : Nat) :
    (list.visit skip lookup run i).ReportsChange run reported :=
  Lookup.applyAt_reportsChange
    (applyContextual_applier_reportsChange list skip list.recursionLimit) run i

/-- If a pass, a nested call or the application of contextual subtables succeeds and does not report
a change, then the run is the same as before, in every field of every glyph. -/
theorem unchanged_of_not_reported (list : LookupList) (skip : SkipPredicate) :
    (∀ budget k (run : Run α) o, list.applyLookup skip budget k run = some o →
        o.result = .ok false → o.run = run) ∧
      (∀ limit k (run : Run α) i, (list.applyNested skip limit k run i).result = .ok false →
        (list.applyNested skip limit k run i).run = run) ∧
      ∀ limit tables f (run : Run α) i,
        (applyContextual (list.applier skip) limit tables f run i).result = .ok none ∨
            (∃ width, (applyContextual (list.applier skip) limit tables f run i).result =
              .ok (some { width, changed := false })) →
          (applyContextual (list.applier skip) limit tables f run i).run = run := by
  refine ⟨fun budget k run o ho hsilent => ?_, fun limit k run i hsilent => ?_,
    fun limit tables f run i hsilent => ?_⟩
  · rw [applyLookup] at ho
    split at ho
    · nomatch (Option.some.inj ho) ▸ hsilent
    · next lookup hlookup =>
      exact Scan.finish_reportsChange (visit_reportsChange lookup) ho false hsilent rfl
  · exact applyNested_reportsChange limit k run i false hsilent rfl
  · have hreports := applyContextual_applier_reportsChange list skip limit tables f run i
    rcases hsilent with hnone | ⟨width, hsome⟩
    · exact hreports none hnone rfl
    · exact hreports _ hsome rfl

/-- Lookup 0 puts a 4 in the place of each 4, lookup 1 makes a 6 a 60, and lookup 2 asks for lookup
1 at a 4 and at the 5 after it. -/
def idling : LookupList :=
  ofFaultless
    [⟨{}, .single [Coverage.ofList [(4, 4)]]⟩, ⟨{}, .single [Coverage.ofList [(6, 60)]]⟩,
      ⟨{}, .contextual .simple
        [⟨Coverage.ofList [(4, [.simple [5] [⟨0, 1⟩, ⟨1, 1⟩]])], by decide⟩]⟩]
    (by decide)

/-- A rule whose records find nothing to do leaves the run alone.  The 4 that is put in the place of
a 4 no longer comes from a character, and so its being put there cannot go unreported. -/
theorem idling_unchanged :
    (∃ o, idling.applyLookup .nothing 2 2 [Glyph.ofChar 'a' 4 (), .ofChar 'b' 5 ()] = some o ∧
        o.result = .ok false ∧ o.run = [.ofChar 'a' 4 (), .ofChar 'b' 5 ()]) ∧
      (idling.applyNested .nothing 0 0 [Glyph.ofChar 'a' 4 ()] 0).run.gids = [4] ∧
      (idling.applyNested .nothing 0 0 [Glyph.ofChar 'a' 4 ()] 0).result ≠ .ok false := by
  have hreports := unchanged_of_not_reported (α := Unit) idling .nothing
  obtain ⟨o, ho, hsilent⟩ : ∃ o,
      idling.applyLookup .nothing 2 2 [Glyph.ofChar 'a' 4 (), .ofChar 'b' 5 ()] = some o ∧
        o.result = .ok false := ⟨_, rfl, rfl⟩
  refine ⟨⟨o, ho, hsilent, hreports.1 2 2 _ o ho hsilent⟩, by decide, fun hnot => ?_⟩
  have hsame := hreports.2.1 0 0 _ 0 hnot
  exact absurd hsame (by decide)

end LookupList

end GlyphSubstitution
