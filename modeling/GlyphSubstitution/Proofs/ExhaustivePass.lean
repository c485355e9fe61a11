import GlyphSubstitution.Proofs.SeenApplications
import GlyphSubstitution.Proofs.UnmentionedGlyphs

/-!
# Passes with ligatures are exhaustive

A glyph that begins no ligature when a scan comes to it might begin one later, when ligatures to its
right have brought other glyphs next to it.  That cannot happen if the lookup sees its ligatures and
asks for none of them.  For then a ligature ends every search that comes to it
(`LigatureFormsAt.of_before`): what begins a ligature to the left of it finds all components to the
left of it, where the scan has not changed anything, and would have begun that ligature before.

So behind the cursor of a scan no ligature can be formed (`Scan.Spent`), which every step preserves
(`Scan.Spent.of_moved`), and at the end of the run the cursor has everything behind it.  One pass
does all, and a second finds nothing to do (`LookupList.one_pass_suffices`).
-/

namespace GlyphSubstitution

universe u

variable {α : Type u} {f : GlyphFilter} {tables : List LigatureSubtable}
  {before after rest : List GlyphId} {b : GlyphId} {i : Nat}

/-- A scan that came to position `i` would form a ligature there. -/
structure LigatureFormsAt (tables : List LigatureSubtable) (f : GlyphFilter) (gids : List GlyphId)
    (i : Nat) : Prop where
  sees : f.seesAt gids i = true
  selects : (selectLigature? tables f gids i).isSome = true

/-! ## Ligatures before a glyph that is not asked for -/

/-- Components that follow are not lost when the run goes on. -/
theorem Ligature.matchesAt_append {ligature : Ligature} (hi : i < before.length)
    (h : ligature.matchesAt f before i = true) :
    ligature.matchesAt f (before ++ rest) i = true := by
  rw [matchesAt_iff] at h ⊢
  have hthere : ∀ p ∈ f.seenAfter before i, (before ++ rest)[id p]? = before[p]? := fun p hp =>
    List.getElem?_append_left (GlyphFilter.lt_length_of_seesAt (GlyphFilter.mem_seenAfter.1 hp).2)
  have hspells := (spells_map_iff hthere).2 h
  rw [List.map_id] at hspells
  rw [GlyphFilter.seenAfter_append_left hi, Spells,
    List.take_append_of_le_length hspells.length_le]
  exact hspells

/-- What begins a ligature in the first part of a run does so when the run goes on, if perhaps
another one. -/
theorem selectLigature?_isSome_append (hi : i < before.length)
    (h : (selectLigature? tables f before i).isSome = true) :
    (selectLigature? tables f (before ++ rest) i).isSome = true := by
  obtain ⟨ligature, hligature⟩ := Option.isSome_iff_exists.1 h
  obtain ⟨g, hg, hfound⟩ := Option.bind_eq_some_iff.1 hligature
  have hmatch := matchesAt_of_selectLigature? hligature
  rw [selectLigature?, List.getElem?_append_left hi, hg, Option.bind_some, ligatureFor?,
    List.find?_isSome]
  exact ⟨ligature, List.mem_of_find?_eq_some hfound, Ligature.matchesAt_append hi hmatch⟩

/-- What begins a ligature before a glyph that is seen but not asked for would do so if something
else came in the place of that glyph and what follows it. -/
theorem LigatureFormsAt.of_before (hsees : f.sees b = true)
    (hb : ∀ table ∈ tables, ∀ entry ∈ table.entries, ∀ ligature ∈ entry.2, b ∉ ligature.components)
    (hi : i < before.length) (h : LigatureFormsAt tables f (before ++ b :: after) i) :
    LigatureFormsAt tables f (before ++ rest) i where
  sees := by
    rw [GlyphFilter.seesAt_append_left hi, ← GlyphFilter.seesAt_append_left hi]
    exact h.sees
  selects := by
    have hfenced : Fenced b [] (b :: after) := ⟨nofun, fun g hg => (Option.some.inj hg).symm⟩
    have halone := selectLigature?_between hfenced hsees hi hb
    rw [between, List.nil_append, List.length_nil, Nat.zero_add] at halone
    refine selectLigature?_isSome_append hi ?_
    rw [← halone]
    exact h.selects

/-! ## What a scan has behind it -/

/-- Glyphs among which none is seen are not seen one by one. -/
theorem GlyphFilter.not_seesAt_of_rank_eq_zero {gids : List GlyphId} {n j : Nat}
    (h : f.rank gids n = 0) (hj : j < n) : f.seesAt gids j = false := by
  refine Bool.eq_false_iff.2 fun hsees => ?_
  have hone := rank_succ_of_sees hsees
  have hle : f.rank gids (j + 1) ≤ f.rank gids n := rank_mono f gids hj
  omega

namespace Scan

/-- At the positions that the scan has behind it no ligature can be formed. -/
def Spent (tables : List LigatureSubtable) (f : GlyphFilter) (s : Scan α) : Prop :=
  ∀ i < s.cursor, ¬ LigatureFormsAt tables f s.run.gids i

/-- A scan that moves past a glyph at which no ligature can be formed has none behind it still. -/
theorem Spent.succ {run : Run α} {cursor : Nat} {changed changed' : Bool}
    (hspent : Spent tables f ⟨run, cursor, changed⟩)
    (hhere : ¬ LigatureFormsAt tables f run.gids cursor) :
    Spent tables f ⟨run, cursor + 1, changed'⟩ := by
  intro i hi
  rcases Nat.lt_or_eq_of_le (Nat.le_of_lt_succ hi) with hlt | rfl
  · exact hspent i hlt
  · exact hhere

/-- After a ligature has been formed none can be formed before it, at it, or at the unseen glyphs
behind it. -/
theorem Spent.merged {flag : LookupFlag} {before rest rest' : Run α} {head merged : Glyph α}
    {passed : Nat} {changed changed' : Bool}
    (hspent : Spent tables f ⟨before ++ head :: rest, before.length, changed⟩)
    (hsees : f.sees merged.gid = true)
    (hmentioned : merged.gid ∉ Lookup.mentioned ⟨flag, .ligature tables⟩)
    (hrank : f.rank rest'.gids passed = 0) :
    Spent tables f ⟨before ++ merged :: rest', before.length + (passed + 1), changed'⟩ := by
  intro i hi hforms
  replace hi : i < before.length + (passed + 1) := hi
  simp only [Run.gids_append, Run.gids_cons] at hforms
  rcases Nat.lt_trichotomy i before.length with hlt | rfl | hgt
  · refine hspent i hlt ?_
    rw [Run.gids_append]
    rw [← Run.length_gids] at hlt
    exact hforms.of_before hsees (Lookup.not_mem_components hmentioned) hlt
  · have hhere := Run.getElem?_gids_append before merged rest'
    rw [Run.gids_append, Run.gids_cons] at hhere
    have hnothing := Lookup.selectsAt_of_not_mentioned (f := f) hmentioned hhere
    exact absurd (hforms.selects.symm.trans hnothing) nofun
  · obtain ⟨j, rfl⟩ := Nat.exists_eq_add_of_lt hgt
    have hsame : f.seesAt (before.gids ++ merged.gid :: rest'.gids) (before.length + j + 1) =
        f.seesAt rest'.gids j := by
      rw [← Run.length_gids before, Nat.add_assoc, GlyphFilter.seesAt_append_right]
      rfl
    rw [GlyphFilter.not_seesAt_of_rank_eq_zero hrank (by omega)] at hsame
    exact absurd (hforms.sees.symm.trans hsame) nofun

end Scan

/-! ## Steps -/

/-- The ligatures of the lookup are seen by it and not asked for, and have no more components than
can be counted. -/
def Lookup.LigaturesStay (lookup : Lookup) (f : GlyphFilter) : Prop :=
  ∀ ligature ∈ lookup.ligatures, ligature.components.length ≤ UInt16.size ∧
    f.sees ligature.glyph = true ∧ ligature.glyph ∉ lookup.mentioned

theorem Lookup.mem_ligatures_of_selectLigature? {flag : LookupFlag} {gids : List GlyphId}
    {ligature : Ligature} (h : selectLigature? tables f gids i = some ligature) :
    ligature ∈ Lookup.ligatures ⟨flag, .ligature tables⟩ := by
  obtain ⟨g, -, hfound⟩ := Option.bind_eq_some_iff.1 h
  obtain ⟨table, htable, entry, hentry, hmem⟩ := exists_mem_of_ligatureFor? hfound
  exact List.mem_flatMap.2 ⟨table, htable, List.mem_flatMap.2 ⟨entry, hentry, hmem⟩⟩

variable [Payload α]

/-- A visit forms a ligature, with unseen glyphs behind it that the scan need not look at, or else
there is none to form and the run stays. -/
theorem applyLigature_cases {flag : LookupFlag}
    (hstay : Lookup.LigaturesStay ⟨flag, .ligature tables⟩ f) (before : Run α) (head : Glyph α)
    (rest : Run α) :
    (selectLigature? tables f (Run.gids (before ++ head :: rest)) before.length = none ∧
        applyLigature tables f (before ++ head :: rest) before.length =
          ⟨before ++ head :: rest, .ok none⟩) ∨
      ∃ (merged : Glyph α) (rest' : Run α) (passed : Nat),
        f.sees merged.gid = true ∧ merged.gid ∉ Lookup.mentioned ⟨flag, .ligature tables⟩ ∧
        f.rank rest'.gids passed = 0 ∧
        applyLigature tables f (before ++ head :: rest) before.length =
          ⟨before ++ merged :: rest', .ok (some { width := passed + 1, changed := true })⟩ := by
  rw [applyLigature, editAt_append]
  cases hselect : selectLigature? tables f (Run.gids (before ++ head :: rest)) before.length with
  | none => exact Or.inl ⟨rfl, rfl⟩
  | some ligature =>
    obtain ⟨hlength, hsees, hmentioned⟩ :=
      hstay ligature (Lookup.mem_ligatures_of_selectLigature? hselect)
    obtain ⟨passed, hpassed, hrank, -⟩ := absorbFrom_seen f hlength 0 head rest
    refine Or.inr ⟨(absorbFrom f ligature.components.length 0 head rest).head.asLigature
      ligature.glyph, _, passed, hsees, hmentioned, hrank, ?_⟩
    rw [Option.map_some, Ligature.fuse, hpassed]
    rfl

namespace Scan

/-- No ligature can be formed behind the cursor after a step if none can be before it. -/
theorem Spent.of_moved {flag : LookupFlag} {s next : Scan α}
    (hstay : Lookup.LigaturesStay ⟨flag, .ligature tables⟩ f) (hspent : s.Spent tables f)
    (hs : s.step f (applyLigature tables f) = .moved next) : next.Spent tables f := by
  obtain ⟨run, cursor, changed⟩ := s
  obtain ⟨glyph, hglyph, hmoved⟩ := moved_cases hs
  obtain ⟨before, head, rest, rfl, rfl⟩ :=
    exists_append_of_lt (List.getElem?_eq_some_iff.1 hglyph).1
  have hvisit := applyLigature_cases hstay before head rest
  rcases hmoved with ⟨hunseen, rfl⟩ | ⟨-, ⟨hnone, rfl⟩ | ⟨applied, hsome, rfl⟩⟩
  · refine hspent.succ fun hforms => ?_
    have hsees := hforms.sees
    rw [Run.seesAt_of_getElem? hglyph, hunseen] at hsees
    nomatch hsees
  · rcases hvisit with ⟨hselect, hidle⟩ | ⟨_, _, _, -, -, -, hformed⟩
    · simp only [hidle]
      refine hspent.succ fun hforms => ?_
      have hselects := hforms.selects
      rw [hselect] at hselects
      nomatch hselects
    · simp only [hformed] at hnone
      nomatch hnone
  · rcases hvisit with ⟨-, hidle⟩ | ⟨merged, rest', passed, hsees, hmentioned, hrank, hformed⟩
    · simp only [hidle] at hsome
      nomatch hsome
    · simp only [hformed] at hsome ⊢
      obtain rfl := Option.some.inj (Except.ok.inj hsome)
      exact hspent.merged hsees hmentioned hrank

/-- Nor can one be formed there later. -/
theorem Spent.of_reaches {flag : LookupFlag} {s s' : Scan α}
    (hstay : Lookup.LigaturesStay ⟨flag, .ligature tables⟩ f) (hspent : s.Spent tables f)
    (hs : Reaches f (applyLigature tables f) s s') : s'.Spent tables f := by
  induction hs with
  | refl => exact hspent
  | tail _ hstep ih => exact ih.of_moved hstay hstep

end Scan

/-! ## Passes -/

namespace LookupList

/-- One pass with ligatures is exhaustive if the lookup sees its ligatures and asks for none of
them, neither to begin a ligature nor as a component, and if their components can be counted.  The
pass ends, without an error; then the lookup would be applied nowhere, so that a second pass reports
no change and makes none. -/
theorem one_pass_suffices (list : LookupList) (skip : SkipPredicate) {k : Nat} {flag : LookupFlag}
    {tables : List LigatureSubtable} (hlookup : list.lookup k = .ok ⟨flag, .ligature tables⟩)
    (hligatures : ∀ ligature ∈ Lookup.ligatures ⟨flag, .ligature tables⟩,
      ligature.components.length ≤ UInt16.size ∧ skip ligature.glyph flag = false ∧
        ligature.glyph ∉ Lookup.mentioned ⟨flag, .ligature tables⟩) (run : Run α) :
    (∀ budget, run.length ≤ budget → ∃ o, list.applyLookup skip budget k run = some o) ∧
      ∀ budget o, list.applyLookup skip budget k run = some o →
        (∃ changed, o.result = .ok changed) ∧
          (∀ i, list.wouldApply skip k o.run.gids i = .ok false) ∧
          ∀ budget', o.run.length ≤ budget' →
            list.applyLookup skip budget' k o.run = some ⟨o.run, .ok false⟩ := by
  have hstay : Lookup.LigaturesStay ⟨flag, .ligature tables⟩ (skip.filter flag) := by
    intro ligature hmem
    obtain ⟨hlength, hskip, hmentioned⟩ := hligatures ligature hmem
    exact ⟨hlength, by rw [SkipPredicate.sees_filter, hskip]; rfl, hmentioned⟩
  refine ⟨fun budget hbudget => exists_applyLookup hlookup rfl hbudget, fun budget o ho => ?_⟩
  have hscan := ho
  rw [applyLookup, hlookup] at hscan
  obtain ⟨s, hs, hstopped⟩ := Scan.exists_stopped_of_finish hscan
  have hspent := Scan.Spent.of_reaches hstay (fun i hi => absurd hi (Nat.not_lt_zero i)) hs
  rcases Scan.stopped_cases hstopped with ⟨hend, rfl⟩ | ⟨-, e, -, -, herror, -⟩
  · have hnowhere : ∀ i, list.wouldApply skip k s.run.gids i = .ok false := by
      intro i
      rw [wouldApply, hlookup]
      refine congrArg Except.ok (Bool.eq_false_iff.2 fun hboth => ?_)
      obtain ⟨hsees, hselects⟩ := Bool.and_eq_true_iff.1 hboth
      have hi : i < s.run.length := Run.lt_length_of_seesAt hsees
      exact hspent i (Nat.lt_of_lt_of_le hi hend) ⟨hsees, hselects⟩
    refine ⟨⟨_, rfl⟩, hnowhere, fun budget' hbudget' => ?_⟩
    refine applyLookup_of_not_wouldApply hlookup (fun i hi => ?_) hbudget'
    rw [hnowhere i] at hi
    exact absurd (Except.ok.inj hi) Bool.false_ne_true
  · have hlengths := fun ligature hmem => (hligatures ligature hmem).1
    exact absurd herror (visit_ne_error rfl hlengths _ _ e)

/-- Ligatures of a 4 and the 5 after it and of a 5 and the two 6 after it, where a 2 is not seen. -/
def stacking : LookupList :=
  ofFaultless
    [⟨{}, .ligature [Coverage.ofList [(4, [⟨45, [5]⟩])], Coverage.ofList [(5, [⟨566, [6, 6]⟩])]]⟩]
    (by decide)

/-- The first 4 has a 4 after it when the pass comes to it, and a ligature when the pass has formed
one of the second 4 and the 5; so there is a 5 that is left without a 4. -/
theorem stacking_suffices :
    let skip : SkipPredicate := fun g _ => g == 2
    let run : Run Unit := [4, 4, 2, 5, 2, 5].map fun g => .ofId g ()
    ∃ o, stacking.applyLookup skip 6 0 run = some o ∧ o.run.gids = [4, 45, 2, 2, 5] ∧
      (∀ i, stacking.wouldApply skip 0 o.run.gids i = .ok false) ∧
      stacking.applyLookup skip 5 0 o.run = some ⟨o.run, .ok false⟩ := by
  intro skip run
  obtain ⟨hends, hspent⟩ := one_pass_suffices stacking skip (k := 0) rfl (by decide) run
  obtain ⟨o, ho⟩ := hends 6 (by decide)
  have hgids : ∀ o ∈ stacking.applyLookup skip 6 0 run, o.run.gids = [4, 45, 2, 2, 5] := by decide
  obtain ⟨-, hnowhere, hagain⟩ := hspent 6 o ho
  have hlength : o.run.length = 5 := by
    rw [← Run.length_gids, hgids o ho]
    rfl
  exact ⟨o, ho, hgids o ho, hnowhere, hagain 5 (Nat.le_of_eq hlength)⟩

end LookupList

end GlyphSubstitution
