import GlyphSubstitution.Proofs.ChangeReports
import GlyphSubstitution.Proofs.SeenApplications

/-!
# Unseen glyphs make no difference

If all lookups have the same flag and put in only glyphs that they see, then a pass comes to the
same whether the glyphs that they do not see are in the run or not: the results agree, and taking
these glyphs out afterwards leaves what the pass makes of the run without them
(`LookupList.applyLookup_seen`).

Nested calls correspond level by level (`LookupList.applyNested_callsAlike`), the error at the last
level included.  The scans then go side by side, except that the one passes over unseen glyphs while
the other waits (`Scan.step_seen`).
-/

namespace GlyphSubstitution

universe u

variable {α : Type u} {f : GlyphFilter}

/-! ## Nested calls -/

/-- Whether the lookup puts one glyph in the place of another, or leaves it to other lookups to edit
glyphs. -/
def Lookup.isInPlace (lookup : Lookup) : Bool :=
  match lookup.subtables with
  | .single _ => true
  | .contextual .. => true
  | _ => false

/-- All lookups that records reach from lookup `k`, itself included, work in place. -/
def LookupList.InPlaceFrom (list : LookupList) (k : Nat) : Prop :=
  ∀ l lookup, Relation.ReflTransGen (fun k l => l ∈ list.named k) k l → list.lookup l = .ok lookup →
    lookup.isInPlace = true

variable {list : LookupList} {skip : SkipPredicate} {flag : LookupFlag}

namespace LookupList

theorem InPlaceFrom.of_mem_named {k l : Nat} (h : list.InPlaceFrom k) (hl : l ∈ list.named k) :
    list.InPlaceFrom l :=
  fun m lookup hreach => h m lookup (Relation.ReflTransGen.head hl hreach)

variable [Payload α]

/-- Contextual subtables of lookup `k` do at a seen glyph the same if the unseen ones are taken out,
as far as the lookups do that their records name. -/
theorem applyContextual_applier_seen {limit k : Nat} {lookup : Lookup}
    (hlookup : list.lookup k = .ok lookup) {kind : RuleKind} {tables : List ContextSubtable}
    (hsubtables : lookup.subtables = .contextual kind tables)
    (h : ∀ l ∈ list.named k, CallsAlike (α := α) f (list.applier skip) limit l) {run : Run α}
    {i : Nat} (hi : f.seesAt run.gids i = true) :
    SameShape f run (applyContextual (list.applier skip) limit tables f run i).run ∧
      applyContextual (list.applier skip) limit tables f (run.seen f) (f.rank run.gids i) =
        (applyContextual (list.applier skip) limit tables f run i).seenFrom f i := by
  refine applyContextual_seen (fun table htable rule hrule record hrecord => h _ ?_) hi
  have htable' : table ∈ lookup.contextTables := by
    rw [Lookup.contextTables, hsubtables]
    exact htable
  exact mem_named_of_record (lookup_eq_ok_iff.1 hlookup) htable' hrule hrecord

/-- A call to a lookup that works in place comes to the same if the unseen glyphs are taken out, as
far as contextual subtables do. -/
theorem applyNested_callsAlike_of (hflag : ∀ lookup ∈ list.lookups, lookup.flag = flag)
    (houtputs : ∀ g ∈ list.outputs, skip g flag = false) {limit k : Nat}
    (hk : list.InPlaceFrom k)
    (h : ∀ lookup kind tables, list.lookup k = .ok lookup →
      lookup.subtables = .contextual kind tables → ∀ (run : Run α) i,
        (skip.filter flag).seesAt run.gids i = true →
          SameShape (skip.filter flag) run
              (list.contextualAt skip limit tables (skip.filter flag) run i).run ∧
            list.contextualAt skip limit tables (skip.filter flag) (run.seen (skip.filter flag))
                ((skip.filter flag).rank run.gids i) =
              (list.contextualAt skip limit tables (skip.filter flag) run i).seenFrom
                (skip.filter flag) i) :
    CallsAlike (α := α) (skip.filter flag) (list.applier skip) limit k := by
  intro run i hi
  have hlt : i < run.length := Run.lt_length_of_seesAt hi
  have hlt' : (skip.filter flag).rank run.gids i < (run.seen (skip.filter flag)).length := by
    refine Run.lt_length_of_seesAt (f := skip.filter flag) ?_
    rw [Run.gids_seen]
    exact GlyphFilter.seesAt_rank hi
  show SameShape (skip.filter flag) run (list.applyNested skip limit k run i).run ∧
    list.applyNested skip limit k _ _ = (list.applyNested skip limit k run i).seen _
  rw [applyNested_eq, applyNested_eq]
  cases hlookup : list.lookup k with
  | error e => exact ⟨SameShape.refl _ run, rfl⟩
  | ok lookup =>
    have hmem : lookup ∈ list.lookups := List.mem_of_getElem? (lookup_eq_ok_iff.1 hlookup)
    have hinPlace := hk k lookup Relation.ReflTransGen.refl hlookup
    have hlookupFlag := hflag lookup hmem
    dsimp only
    rw [if_pos hlt, if_pos hlt', ← Outcome.map_seenFrom_changed _ i]
    obtain ⟨lookupFlag, subtables⟩ := lookup
    obtain rfl : lookupFlag = flag := hlookupFlag
    cases subtables with
    | single tables =>
      have hsees : ∀ table ∈ tables, ∀ entry ∈ table.entries,
          (skip.filter lookupFlag).sees entry.2 = true := fun table htable entry hentry =>
        sees_of_mem_lookup_outputs houtputs hmem _
          (List.mem_flatMap.2 ⟨table, htable, List.mem_map_of_mem hentry⟩)
      exact ⟨applySingle_sameShape hsees hi,
        congrArg (Outcome.map (·.any (·.changed))) (applySingle_seen hsees hi)⟩
    | contextual kind tables =>
      obtain ⟨hshape, hseen⟩ := h _ kind tables hlookup rfl run i hi
      exact ⟨hshape, congrArg (Outcome.map (·.any (·.changed))) hseen⟩
    | multiple tables => nomatch hinPlace
    | ligature tables => nomatch hinPlace

/-- Calls to lookups from which only lookups that work in place are reached come to the same if the
unseen glyphs are taken out, whether they succeed or not. -/
theorem applyNested_callsAlike (hflag : ∀ lookup ∈ list.lookups, lookup.flag = flag)
    (houtputs : ∀ g ∈ list.outputs, skip g flag = false) (limit : Nat) {k : Nat}
    (hk : list.InPlaceFrom k) :
    CallsAlike (α := α) (skip.filter flag) (list.applier skip) limit k := by
  induction limit generalizing k with
  | zero =>
    refine applyNested_callsAlike_of hflag houtputs hk ?_
    intro lookup kind tables hlookup hsubtables run i hi
    exact ⟨SameShape.refl _ run, rfl⟩
  | succ limit ih =>
    refine applyNested_callsAlike_of hflag houtputs hk ?_
    intro lookup kind tables hlookup hsubtables run i hi
    exact applyContextual_applier_seen hlookup hsubtables (fun l hl => ih (hk.of_mem_named hl)) hi

end LookupList

/-! ## Scans -/

/-- The scan with the unseen glyphs taken out of its run. -/
def Scan.seen (f : GlyphFilter) (s : Scan α) : Scan α :=
  ⟨s.run.seen f, f.rank s.run.gids s.cursor, s.changed⟩

/-- The step with the unseen glyphs taken out of the run. -/
def ScanStep.seen (f : GlyphFilter) : ScanStep α → ScanStep α
  | .stopped o => .stopped (o.seen f)
  | .moved next => .moved (next.seen f)

/-- The ranks of glyphs before a position are settled by what stands before it. -/
theorem SameBefore.rank_eq {i : Nat} {run run' : Run α} (h : SameBefore i run run') :
    f.rank run'.gids i = f.rank run.gids i := by
  have hgids : run'.gids.take i = run.gids.take i := by
    rw [Run.gids, Run.gids, ← List.map_take, ← List.map_take, h]
  rw [GlyphFilter.rank, GlyphFilter.rank, hgids]

/-- Visits come to the same if the unseen glyphs are taken out.  They change nothing on their left,
and report whether they change something. -/
structure VisitsAlike (f : GlyphFilter) (visit : Visit α) : Prop where
  seen : ∀ (run : Run α) i, f.seesAt run.gids i = true →
    visit (run.seen f) (f.rank run.gids i) = (visit run i).seenFrom f i
  before : ∀ run i, SameBefore i run (visit run i).run
  reports : ∀ run i, (visit run i).ReportsChange run reported

namespace Scan

variable {visit : Visit α} {s s' : Scan α}

/-- What a visit to a seen glyph leads to, when the unseen glyphs are taken out. -/
theorem after_seen {o : Outcome α (Option Applied)} (hi : f.seesAt s.run.gids s.cursor = true)
    (hbefore : SameBefore s.cursor s.run o.run) (hreports : o.ReportsChange s.run reported) :
    (s.seen f).after (o.seenFrom f s.cursor) = (s.after o).seen f := by
  have hcursor := hbefore.rank_eq (f := f)
  obtain ⟨run, result⟩ := o
  rcases result with e | (_ | applied)
  · rfl
  · -- nothing applied, so the scan moves past the glyph that it has seen
    obtain rfl : run = s.run := hreports none rfl rfl
    show ScanStep.moved ⟨s.run.seen f, f.rank s.run.gids s.cursor + 1, s.changed⟩ =
      .moved ⟨s.run.seen f, f.rank s.run.gids (s.cursor + 1), s.changed⟩
    rw [GlyphFilter.rank_succ_of_sees hi]
  · have hmono := GlyphFilter.rank_mono f run.gids (Nat.le_add_right s.cursor applied.width)
    show ScanStep.moved ⟨run.seen f, f.rank s.run.gids s.cursor +
        (f.rank run.gids (s.cursor + applied.width) - f.rank run.gids s.cursor),
        s.changed || applied.changed⟩ =
      .moved ⟨run.seen f, f.rank run.gids (s.cursor + applied.width), s.changed || applied.changed⟩
    rw [← hcursor, Nat.add_sub_cancel' hmono]

/-- With the unseen glyphs taken out, a scan takes the same steps, except that it waits where an
unseen glyph is passed over. -/
theorem step_seen (h : VisitsAlike f visit) (s : Scan α) :
    (s.seen f).step f visit = (s.step f visit).seen f ∨
      s.step f visit = .moved s.pass ∧ s.pass.seen f = s.seen f := by
  by_cases hcursor : s.cursor < s.run.length
  · by_cases hsees : f.seesAt s.run.gids s.cursor = true
    · have hrank : f.seesAt (s.seen f).run.gids (s.seen f).cursor = true := by
        show f.seesAt (s.run.seen f).gids _ = true
        rw [Run.gids_seen]
        exact GlyphFilter.seesAt_rank hsees
      refine Or.inl ?_
      rw [step_of_seesAt hrank, step_of_seesAt hsees,
        ← after_seen hsees (h.before s.run s.cursor) (h.reports s.run s.cursor),
        ← h.seen s.run s.cursor hsees]
      rfl
    · refine Or.inr ⟨step_of_not_seesAt hcursor hsees, ?_⟩
      show (⟨s.run.seen f, f.rank s.run.gids (s.cursor + 1), s.changed⟩ : Scan α) = _
      rw [GlyphFilter.rank_succ_of_not_sees (eq_false_of_ne_true hsees)]
      rfl
  · have hend : s.run.length ≤ s.cursor := Nat.not_lt.1 hcursor
    have hend' : (s.seen f).run.length ≤ (s.seen f).cursor := by
      show (s.run.seen f).length ≤ f.rank s.run.gids s.cursor
      rw [GlyphFilter.rank_of_length_le (by rw [Run.length_gids]; exact hend), ← Run.gids_seen,
        Run.length_gids]
    refine Or.inl ?_
    rw [stopped_at_end hend', stopped_at_end hend]
    rfl

/-- With the unseen glyphs taken out, a scan comes by the same places. -/
theorem reaches_seen (h : VisitsAlike f visit) (hs : Reaches f visit s s') :
    Reaches f visit (s.seen f) (s'.seen f) := by
  induction hs with
  | refl => exact Relation.ReflTransGen.refl
  | @tail there next hs hmoved ih =>
    rcases step_seen h there with hsame | ⟨hpass, hwaits⟩
    · rw [hmoved] at hsame
      exact ih.tail hsame
    · rw [hmoved] at hpass
      rw [ScanStep.moved.inj hpass, hwaits]
      exact ih

/-- With the unseen glyphs taken out, a scan stops with the same outcome. -/
theorem stopped_seen (h : VisitsAlike f visit) {o : Outcome α Bool}
    (hs : s.step f visit = .stopped o) : (s.seen f).step f visit = .stopped (o.seen f) := by
  rcases step_seen h s with hsame | ⟨hpass, -⟩
  · rw [hs] at hsame
    exact hsame
  · rw [hs] at hpass
    nomatch hpass

end Scan

/-! ## Passes -/

namespace LookupList

variable [Payload α]

/-- Passes with a lookup advance if it edits glyphs itself, or if its visits leave the length of the
run alone. -/
theorem visit_advances_of_length {lookup : Lookup}
    (h : lookup.isContextual = true → ∀ (run : Run α) i, f.seesAt run.gids i = true →
      (list.visit skip lookup run i).run.length = run.length) :
    Advances f (list.visit (α := α) skip lookup) := by
  by_cases hkind : lookup.isContextual = true
  · intro run i applied hi hresult
    have hstride : 1 ≤ stride applied := by
      obtain ⟨lookupFlag, subtables⟩ := lookup
      cases subtables with
      | contextual kind tables => exact one_le_stride_of_applyContextual hresult
      | _ => nomatch hkind
    rw [h hkind run i hi]
    omega
  · exact visit_advances (eq_false_of_ne_true hkind) _

section

variable (hflag : ∀ lookup ∈ list.lookups, lookup.flag = flag)
  (houtputs : ∀ g ∈ list.outputs, skip g flag = false) {k : Nat} {lookup : Lookup}
  (hlookup : list.lookup k = .ok lookup)
  (hinPlace : lookup.isContextual = true → list.InPlaceFrom k)

include hflag houtputs hlookup hinPlace

/-- What a pass with a contextual lookup does at a seen glyph. -/
theorem visit_contextual_seen (hkind : lookup.isContextual = true) {run : Run α} {i : Nat}
    (hi : (skip.filter flag).seesAt run.gids i = true) :
    SameShape (skip.filter flag) run (list.visit skip lookup run i).run ∧
      list.visit skip lookup (run.seen (skip.filter flag)) ((skip.filter flag).rank run.gids i) =
        (list.visit skip lookup run i).seenFrom (skip.filter flag) i := by
  have hlookupFlag := hflag lookup (List.mem_of_getElem? (lookup_eq_ok_iff.1 hlookup))
  have hcalls : ∀ l ∈ list.named k,
      CallsAlike (α := α) (skip.filter flag) (list.applier skip) list.recursionLimit l :=
    fun l hl => applyNested_callsAlike hflag houtputs _ ((hinPlace hkind).of_mem_named hl)
  obtain ⟨lookupFlag, subtables⟩ := lookup
  obtain rfl : lookupFlag = flag := hlookupFlag
  cases subtables with
  | contextual kind tables => exact applyContextual_applier_seen hlookup rfl hcalls hi
  | _ => nomatch hkind

/-- Passes with the lookup advance, for a contextual one leaves the length of the run alone. -/
theorem visit_advances_seen : Advances (skip.filter flag) (list.visit (α := α) skip lookup) :=
  visit_advances_of_length fun hkind _ _ hi =>
    (visit_contextual_seen hflag houtputs hlookup hinPlace hkind hi).1.length_eq

/-- What a pass does at a seen glyph comes to the same if the unseen glyphs are taken out. -/
theorem visitsAlike (hligatures : ∀ ligature ∈ list.ligatures, ligature.components.length ≤ 65535) :
    VisitsAlike (skip.filter flag) (list.visit (α := α) skip lookup) where
  seen run i hi := by
    by_cases hkind : lookup.isContextual = true
    · exact (visit_contextual_seen hflag houtputs hlookup hinPlace hkind hi).2
    · have hmem : lookup ∈ list.lookups := List.mem_of_getElem? (lookup_eq_ok_iff.1 hlookup)
      obtain rfl : lookup.flag = flag := hflag lookup hmem
      rw [visit_eq_edit (eq_false_of_ne_true hkind)]
      refine Lookup.edit_seen (sees_of_mem_lookup_outputs houtputs hmem)
        (fun ligature hligature => ?_) hi
      exact Nat.le_succ_of_le
        (hligatures ligature (List.mem_flatMap.2 ⟨lookup, hmem, hligature⟩))
  before := visit_rel editRelation_sameBefore (list.editsBy_sameBefore skip) hlookup
  reports := visit_reportsChange lookup

end

/-- Unseen glyphs make no difference to a pass with a lookup that edits glyphs itself, or with a
contextual one from which records reach only lookups that work in place.  The lookups all have one
flag, put in only glyphs that are seen with that flag, and form no ligature of more components than
a 16-bit number can count.

Then the pass ends, and so does the pass over the run without the unseen glyphs.  The results agree,
be they errors or not, and the runs agree once the unseen glyphs are taken out of the first. -/
theorem applyLookup_seen (list : LookupList) (skip : SkipPredicate) (flag : LookupFlag)
    (hflag : ∀ lookup ∈ list.lookups, lookup.flag = flag)
    (hligatures : ∀ ligature ∈ list.ligatures, ligature.components.length ≤ 65535)
    (houtputs : ∀ g ∈ list.outputs, skip g flag = false) {k : Nat} {lookup : Lookup}
    (hlookup : list.lookup k = .ok lookup)
    (hinPlace : lookup.isContextual = true → list.InPlaceFrom k) (run : Run α) {budget : Nat}
    (hbudget : run.length ≤ budget) :
    ∃ o, list.applyLookup skip budget k run = some o ∧
      list.applyLookup skip budget k (run.seen (skip.filter flag)) =
        some (o.seen (skip.filter flag)) := by
  have hlookupFlag := hflag lookup (List.mem_of_getElem? (lookup_eq_ok_iff.1 hlookup))
  have happly : ∀ run : Run α, list.applyLookup skip budget k run =
      Scan.finish (skip.filter flag) (list.visit skip lookup) budget { run } := by
    intro run
    rw [applyLookup, hlookup, ← hlookupFlag]
    rfl
  have hadvances := visit_advances_seen (α := α) hflag houtputs hlookup hinPlace
  have halike := visitsAlike (α := α) hflag houtputs hlookup hinPlace hligatures
  have hseenBudget : (run.seen (skip.filter flag)).length ≤ budget :=
    (List.length_filter_le _ run).trans hbudget
  obtain ⟨o, ho⟩ := Scan.exists_finish (s := { run }) hadvances hbudget
  obtain ⟨o', ho'⟩ := Scan.exists_finish (s := { run := run.seen (skip.filter flag) }) hadvances
    hseenBudget
  obtain ⟨s, hs, hstopped⟩ := Scan.exists_stopped_of_finish ho
  have hsame : o' = o.seen (skip.filter flag) :=
    Scan.finish_eq_of_stopped (Scan.reaches_seen halike hs) (Scan.stopped_seen halike hstopped) ho'
  rw [happly, happly, ho, ho', hsame]
  exact ⟨o, rfl, rfl⟩

/-- Lookup 0 makes a 5 a 50, lookup 1 asks for it at a 5 and is asked for by lookup 2 at the first
5 after a 4. -/
def spaced : LookupList :=
  ofFaultless
    [⟨{}, .single [Coverage.ofList [(5, 50)]]⟩,
      ⟨{}, .contextual .simple [⟨Coverage.ofList [(5, [.simple [] [⟨0, 0⟩]])], by decide⟩]⟩,
      ⟨{}, .contextual .simple [⟨Coverage.ofList [(4, [.simple [5] [⟨1, 1⟩]])], by decide⟩]⟩]
    (by decide)

/-- The 2 that is not seen stands between the 4 and the 5, and stays there. -/
theorem spaced_seen :
    ∃ o, spaced.applyLookup (fun g _ => g == 2) 3 2 [Glyph.ofId 4 (), .ofId 2 (), .ofId 5 ()] =
        some o ∧
      spaced.applyLookup (fun g _ => g == 2) 3 2 [Glyph.ofId 4 (), .ofId 5 ()] =
        some (o.seen (SkipPredicate.filter (fun g _ => g == 2) {})) ∧
      o.result = .ok true ∧ o.run.gids = [4, 2, 50] := by
  have hall : ∀ lookup ∈ spaced.lookups, lookup.isInPlace = true := by decide
  have hinPlace : spaced.InPlaceFrom 2 := fun l lookup _ hlookup =>
    hall lookup (List.mem_of_getElem? (lookup_eq_ok_iff.1 hlookup))
  have houtputs : ∀ g ∈ spaced.outputs, (g == 2) = false := by
    have hlist : spaced.outputs = [50] := by decide
    rw [hlist]
    simp
  obtain ⟨o, ho, hseen⟩ := applyLookup_seen spaced (fun g _ => g == 2) {} (by decide) (by decide)
    houtputs (k := 2) rfl (fun _ => hinPlace) [Glyph.ofId 4 (), .ofId 2 (), .ofId 5 ()]
    (Nat.le_refl 3)
  obtain ⟨o', ho', hresult, hgids⟩ : ∃ o', spaced.applyLookup (fun g _ => g == 2) 3 2
      [Glyph.ofId 4 (), .ofId 2 (), .ofId 5 ()] = some o' ∧
        o'.result = .ok true ∧ o'.run.gids = [4, 2, 50] := ⟨_, rfl, rfl, by decide⟩
  obtain rfl : o' = o := Option.some.inj (ho'.symm.trans ho)
  exact ⟨o', ho, hseen, hresult, hgids⟩

end LookupList

end GlyphSubstitution
