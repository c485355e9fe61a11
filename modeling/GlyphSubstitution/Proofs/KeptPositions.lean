import GlyphSubstitution.Proofs.ReplacementRecords
import GlyphSubstitution.Proofs.StrayCalls

/-!
# Lists in which no call strays

If every record of a list names a lookup that replaces glyphs one at a time and removes none, then
the positions of the input glyphs stay on what has become of them, and no record is carried out at a
glyph that is not seen.  So passes with such a list keep the unseen glyphs of every run
(`unseen_applyLookup_of_onlyReplaces`).

The argument goes through the segments that a match cuts a run into.  The input glyphs are seen, and
so is what replaces them; the gaps stay as they were, and all unseen glyphs of the match stand in
gaps (`unseen_layout`).
-/

namespace GlyphSubstitution

universe u

variable {α : Type u} {f : GlyphFilter}

/-! ## Segments of seen glyphs -/

/-- The glyphs of the segments are seen, whatever stands in the gaps. -/
def SeenSegments (f : GlyphFilter) (segments : List (Segment α)) : Prop :=
  ∀ s ∈ segments, ∀ glyph ∈ s.glyphs, f.sees glyph.gid = true

theorem unseen_layout {segments : List (Segment α)} (h : SeenSegments f segments) :
    (layout segments).unseen f = (segments.map Segment.gap).flatMap (Run.unseen f) := by
  induction segments with
  | nil => rfl
  | cons s rest ih =>
    have hs := Run.unseen_eq_nil (h s List.mem_cons_self)
    have hrest := ih fun t ht => h t (List.mem_cons_of_mem s ht)
    rw [layout_cons, Run.unseen_append, Run.unseen_append, hs, hrest, List.nil_append,
      List.map_cons, List.flatMap_cons]

theorem seenSegments_cut {run : Run α} {positions : List Nat}
    (h : ∀ p ∈ positions, f.seesAt run.gids p = true) : SeenSegments f (cut run positions) := by
  intro s hs glyph hglyph
  obtain ⟨p, hp, hglyphs⟩ := exists_of_mem_cut hs
  have hlt : p < run.length := by
    rw [← Run.length_gids]
    exact GlyphFilter.lt_length_of_seesAt (h p hp)
  have hone : (run.drop p).take 1 = [run[p]] := by
    rw [List.drop_eq_getElem_cons hlt]
    rfl
  rw [hglyphs, hone, List.mem_singleton] at hglyph
  obtain ⟨_, hsees⟩ := GlyphFilter.seesAt_eq_true_iff.1 (h p hp)
  rw [hglyph]
  simpa [Run.gids] using hsees

namespace LookupList

variable {list : LookupList}

theorem mem_outputs_of_replacement? {k : Nat} {g g' : GlyphId} {gs : List GlyphId}
    (h : list.replacement? k g = some gs) (hg' : g' ∈ gs) : g' ∈ list.outputs := by
  obtain ⟨⟨flag, subtables⟩, hlookup, hgs⟩ := Option.bind_eq_some_iff.1 h
  refine List.mem_flatMap.2 ⟨_, List.mem_of_getElem? hlookup, ?_⟩
  cases subtables with
  | single tables =>
    obtain ⟨g'', hfirst, rfl⟩ := Option.map_eq_some_iff.1 hgs
    obtain ⟨table, htable, hentry⟩ := Coverage.exists_mem_of_first? hfirst
    rw [List.mem_singleton.1 hg']
    exact List.mem_flatMap.2 ⟨table, htable, List.mem_map_of_mem hentry⟩
  | multiple tables =>
    obtain ⟨table, htable, hentry⟩ := Coverage.exists_mem_of_first? hgs
    exact List.mem_flatMap.2 ⟨table, htable, List.mem_flatMap.2 ⟨_, hentry, hg'⟩⟩
  | ligature tables => nomatch hgs
  | contextual kind tables => nomatch hgs

theorem sees_of_mem_rework (houtputs : ∀ g ∈ list.outputs, f.sees g = true) {glyphs : Run α}
    (h : ∀ glyph ∈ glyphs, f.sees glyph.gid = true) (record : SequenceLookup) :
    ∀ glyph ∈ list.rework glyphs record, f.sees glyph.gid = true := by
  cases glyphs with
  | nil => exact h
  | cons head rest =>
    rw [rework]
    cases hgs : list.replacement? record.lookupIndex.toNat head.gid with
    | none => exact h
    | some gs =>
      intro glyph hglyph
      have hput : ∀ g ∈ gs, f.sees g = true :=
        fun g hg => houtputs g (mem_outputs_of_replacement? hgs hg)
      rcases List.mem_append.1 hglyph with hmem | hmem
      · exact sees_gid_expand hput head glyph hmem
      · exact h glyph (List.mem_cons_of_mem head hmem)

theorem sees_of_mem_reworked (houtputs : ∀ g ∈ list.outputs, f.sees g = true) {glyphs : Run α}
    (h : ∀ glyph ∈ glyphs, f.sees glyph.gid = true) (records : List SequenceLookup) (k : Nat) :
    ∀ glyph ∈ list.reworked records k glyphs, f.sees glyph.gid = true := by
  rw [reworked]
  induction records.filter (·.sequenceIndex.toNat == k) generalizing glyphs with
  | nil => exact h
  | cons record rest ih => exact ih (sees_of_mem_rework houtputs h record)

/-- Records that replace seen glyphs change nothing about the unseen ones. -/
theorem unseen_layout_reworkSegments (houtputs : ∀ g ∈ list.outputs, f.sees g = true)
    {segments : List (Segment α)} (h : SeenSegments f segments) (records : List SequenceLookup) :
    (layout (list.reworkSegments records segments)).unseen f = (layout segments).unseen f := by
  have hseen : SeenSegments f (list.reworkSegments records segments) := by
    intro t ht
    obtain ⟨k, hk⟩ := List.mem_iff_getElem?.1 ht
    rw [getElem?_reworkSegments] at hk
    obtain ⟨s, hs, rfl⟩ := Option.map_eq_some_iff.1 hk
    exact sees_of_mem_reworked houtputs (h s (List.mem_of_getElem? hs)) records k
  have hgaps : (list.reworkSegments records segments).map Segment.gap =
      segments.map Segment.gap := by
    apply List.ext_getElem?
    intro k
    rw [List.getElem?_map, List.getElem?_map, getElem?_reworkSegments, Option.map_map]
    rfl
  rw [unseen_layout hseen, unseen_layout h, hgaps]

/-! ## Passes -/

variable [Payload α] {skip : SkipPredicate}

/-- Every record of the list names a lookup that replaces glyphs one at a time and removes none. -/
def OnlyReplaces (list : LookupList) : Prop :=
  ∀ lookup ∈ list.lookups, ∀ table ∈ lookup.contextTables, ∀ rule ∈ table.allRules,
    ∀ record ∈ rule.records, list.NamesReplacement record

instance (list : LookupList) : Decidable list.OnlyReplaces :=
  inferInstanceAs (Decidable (∀ lookup ∈ list.lookups, _))

theorem applyContextual_unseen (houtputs : ∀ g ∈ list.outputs, f.sees g = true) (limit : Nat)
    {tables : List ContextSubtable}
    (hrecords : ∀ table ∈ tables, ∀ rule ∈ table.allRules, ∀ record ∈ rule.records,
      list.NamesReplacement record) {run : Run α} {i : Nat}
    (hi : f.seesAt run.gids i = true) :
    (applyContextual (list.applier skip) limit tables f run i).run.unseen f = run.unseen f := by
  cases hfound : selectRule? tables f run.gids i with
  | none => rw [applyContextual_eq, hfound]
  | some found =>
    obtain ⟨table, htable, rule, hrule, hmatch, hsame⟩ := exists_rule_of_selectRule? hfound
    have hnamed : ∀ record ∈ found.records, list.NamesReplacement record :=
      fun record hrecord => hrecords table htable rule hrule record (hsame ▸ hrecord)
    obtain ⟨hstart, hincreasing, hinside, -⟩ := cut_of_selectRule? hfound
    obtain ⟨-, hcontext⟩ := ContextPattern.match?_eq_some_iff_metAt.1 hmatch
    have hpositions : found.context.positions = i :: found.context.inputs := by
      rw [ContextMatch.positions, hstart]
    have hsees : ∀ p ∈ found.context.positions, f.seesAt run.gids p = true := by
      intro p hp
      rw [hcontext] at hp
      rcases List.mem_cons.1 hp with rfl | hp
      · exact hi
      · exact (GlyphFilter.mem_seenAfter.1 (List.mem_of_mem_take hp)).2
    have hlayout : layout (cut run found.context.positions) = run.drop i := by
      rw [hpositions]
      exact layout_cut (hpositions ▸ hincreasing) (hpositions ▸ hinside)
    obtain ⟨changed, hrun, -⟩ := applyContextual_reworks skip hfound hnamed limit
    rw [hrun]
    dsimp only
    rw [Run.unseen_append, unseen_layout_reworkSegments houtputs (seenSegments_cut hsees), hlayout,
      ← Run.unseen_append, List.take_append_drop]

/-- With such a list a pass keeps the unseen glyphs of every run, whatever it comes to. -/
theorem unseen_applyLookup_of_onlyReplaces {flag : LookupFlag}
    (hflag : ∀ lookup ∈ list.lookups, lookup.flag = flag)
    (houtputs : ∀ g ∈ list.outputs, skip g flag = false) (hlist : list.OnlyReplaces)
    {budget k : Nat} {run : Run α} {o : Outcome α Bool}
    (ho : list.applyLookup skip budget k run = some o) :
    o.run.unseen (skip.filter flag) = run.unseen (skip.filter flag) := by
  have hvisit : ∀ lookup, list.lookup k = .ok lookup → ∀ (run : Run α) i,
      (skip.filter flag).seesAt run.gids i = true →
        KeepsUnseen (skip.filter flag) run (list.visit skip lookup run i) False := by
    intro lookup hlookup run i hi
    have hmem : lookup ∈ list.lookups := List.mem_of_getElem? (lookup_eq_ok_iff.1 hlookup)
    obtain rfl := hflag lookup hmem
    cases hkind : lookup.isContextual with
    | false =>
      have hput := sees_of_mem_lookup_outputs houtputs hmem
      refine (Lookup.applyAt_keepsUnseen hkind hput _ run i).congr ?_
      simp [hi]
    | true =>
      have hput := sees_of_mem_outputs houtputs
      have hrecords := hlist lookup hmem
      obtain ⟨flag, subtables⟩ := lookup
      cases subtables with
      | contextual kind tables =>
        exact ⟨fun _ => applyContextual_unseen hput _ hrecords hi, False.elim⟩
      | _ => simp [Lookup.isContextual] at hkind
  refine (applyLookup_keepsUnseen_of hflag hvisit ho).same ?_
  simp

end LookupList

end GlyphSubstitution
