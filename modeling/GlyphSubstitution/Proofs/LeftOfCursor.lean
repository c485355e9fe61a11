import GlyphSubstitution.Proofs.EditRelations

/-!
# What stands to the left of an application

Applying a lookup at a position changes nothing to the left of that position, whatever other lookups
it calls on the way and wherever it is broken off.  For single edits this is `take_run_editAt`; the
rest follows because records are never carried out left of the start of their match.

So the part of a run that a scan has left behind is settled (`left_of_cursor_kept`).  The scan moves
on by lengths that were measured before the run was edited, so its cursor may come to stand past
glyphs that were never looked at; they are settled all the same.
-/

namespace GlyphSubstitution

universe u

variable {α : Type u}

/-- The runs agree on what stands before position `i`. -/
def SameBefore (i : Nat) (run run' : Run α) : Prop := run'.take i = run.take i

theorem editRelation_sameBefore : EditRelation (SameBefore (α := α)) where
  refl _ _ := rfl
  trans h h' := Eq.trans h' h
  widen {i j run run'} hij h := by
    have htake := congrArg (List.take i) h
    rw [List.take_take, List.take_take, Nat.min_eq_left hij] at htake
    exact htake

namespace Scan

variable {f : GlyphFilter} {visit : Visit α} {s s' s'' : Scan α} {o : Outcome α Bool}

/-- A scan goes one way only. -/
theorem reaches_or_reaches (hs' : Reaches f visit s s') (hs'' : Reaches f visit s s'') :
    Reaches f visit s' s'' ∨ Reaches f visit s'' s' := by
  have hunique : Relator.RightUnique fun s next : Scan α => s.step f visit = .moved next := by
    intro s next next' hnext hnext'
    rw [hnext] at hnext'
    exact ScanStep.moved.inj hnext'
  exact Relation.ReflTransGen.total_of_right_unique hunique hs' hs''

/-- Whatever place a scan comes by, its end lies ahead of it. -/
theorem exists_stopped_ahead {budget : Nat} (hs' : Reaches f visit s s')
    (ho : finish f visit budget s = some o) :
    ∃ s'', Reaches f visit s' s'' ∧ s''.step f visit = .stopped o := by
  obtain ⟨s'', hreaches, hstopped⟩ := exists_stopped_of_finish ho
  refine ⟨s'', ?_, hstopped⟩
  rcases reaches_or_reaches hs' hreaches with hahead | hbehind
  · exact hahead
  · rw [(reaches_of_stopped hstopped).1 hbehind]
    exact Relation.ReflTransGen.refl

end Scan

variable [Payload α]

theorem Lookup.sameBefore_edit (lookup : Lookup) (skip : SkipPredicate) (run : Run α) (i : Nat) :
    SameBefore i run (lookup.edit skip run i).run := by
  obtain ⟨flag, subtables⟩ := lookup
  cases subtables with
  | single tables => exact take_run_editAt _ run i
  | multiple tables => exact take_run_editAt _ run i
  | ligature tables => exact take_run_editAt _ run i
  | contextual kind tables => rfl

namespace LookupList

theorem editsBy_sameBefore (list : LookupList) (skip : SkipPredicate) :
    list.EditsBy skip (SameBefore (α := α)) :=
  fun lookup _ => lookup.sameBefore_edit skip

/-- A nested call leaves alone what stands to the left of its position, whether it succeeds or not.
Once the cursor of a scan stands somewhere, what stands to the left of it is still there whenever
the scan goes on, and where it ends, be it with an error. -/
theorem left_of_cursor_kept (list : LookupList) (skip : SkipPredicate) :
    (∀ limit k (run : Run α) i,
        (list.applyNested skip limit k run i).run.take i = run.take i) ∧
      ∀ k lookup (run : Run α) (s : Scan α), list.lookup k = .ok lookup →
        Scan.Reaches (skip.filter lookup.flag) (list.visit skip lookup) { run } s →
          (∀ s', Scan.Reaches (skip.filter lookup.flag) (list.visit skip lookup) s s' →
            s'.run.take s.cursor = s.run.take s.cursor) ∧
          ∀ budget o, list.applyLookup skip budget k run = some o →
            o.run.take s.cursor = s.run.take s.cursor := by
  have hR := editRelation_sameBefore (α := α)
  have hedit := list.editsBy_sameBefore (α := α) skip
  refine ⟨applyNested_rel hR hedit, fun k lookup run s hlookup hs => ?_⟩
  have hvisit := visit_rel hR hedit hlookup
  refine ⟨fun s' hs' => (Scan.rel_of_reaches hR hvisit hs').2, fun budget o ho => ?_⟩
  have hfinish : Scan.finish (skip.filter lookup.flag) (list.visit skip lookup) budget { run } =
      some o := by
    rw [applyLookup, hlookup] at ho
    exact ho
  -- the pass ends ahead of `s`, and both the way there and the last step stay right of its cursor
  obtain ⟨s', hs', hstopped⟩ := Scan.exists_stopped_ahead hs hfinish
  obtain ⟨hcursor, hway⟩ := Scan.rel_of_reaches hR hvisit hs'
  have hend := Scan.rel_of_stopped hR hvisit hstopped
  exact hR.trans hway (hR.widen hcursor hend)

/-- Where a 5 and a 6 follow a 4, lookup 0 is to be applied to the 5, and then lookup 1 to the 6 and
to the 4. -/
def shrinkingContext : Lookup :=
  ⟨{}, .contextual .simple
    [⟨Coverage.ofList [(4, [.simple [5, 6] [⟨1, 0⟩, ⟨2, 1⟩, ⟨0, 1⟩]])], by decide⟩]⟩

/-- Lookup 0 removes a 5, lookup 1 makes a 4 a 40 and a 6 a 60, and lookup 2 calls the two. -/
def shrinking : LookupList :=
  ofFaultless
    [⟨{}, .multiple [Coverage.ofList [(5, [])]]⟩,
      ⟨{}, .single [Coverage.ofList [(4, 40), (6, 60)]]⟩, shrinkingContext]
    (by decide)

/-- The 5 is removed from the match at the second 4, and what is left of it is edited; the glyph
before it and the first 4, which the scan has left behind, are as they were. -/
theorem shrinking_keeps_left :
    Scan.Reaches (SkipPredicate.nothing.filter {}) (shrinking.visit .nothing shrinkingContext)
        { run := [.ofId 4 (), .ofId 1 (), .ofId 4 (), .ofId 5 (), .ofId 6 ()] }
        { run := [.ofId 4 (), .ofId 1 (), .ofId 4 (), .ofId 5 (), .ofId 6 ()], cursor := 2 } ∧
      ∃ o, shrinking.applyLookup .nothing 5 2
          [.ofId 4 (), .ofId 1 (), .ofId 4 (), .ofId 5 (), .ofId 6 ()] = some o ∧
        o.run.gids = [4, 1, 40, 60] ∧ o.run.take 2 = [.ofId 4 (), .ofId 1 ()] := by
  have hreaches :
      Scan.Reaches (SkipPredicate.nothing.filter {}) (shrinking.visit .nothing shrinkingContext)
        { run := [.ofId 4 (), .ofId 1 (), .ofId 4 (), .ofId 5 (), .ofId 6 ()] }
        { run := [.ofId 4 (), .ofId 1 (), .ofId 4 (), .ofId 5 (), .ofId 6 ()], cursor := 2 } :=
    .head rfl (.single rfl)
  obtain ⟨o, ho, hgids⟩ : ∃ o, shrinking.applyLookup .nothing 5 2
      [.ofId 4 (), .ofId 1 (), .ofId 4 (), .ofId 5 (), .ofId 6 ()] = some o ∧
        o.run.gids = [4, 1, 40, 60] := ⟨_, rfl, by decide⟩
  refine ⟨hreaches, o, ho, hgids, ?_⟩
  exact ((left_of_cursor_kept shrinking .nothing).2 2 shrinkingContext _ _ rfl hreaches).2 5 o ho

end LookupList

end GlyphSubstitution
