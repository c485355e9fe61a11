import GlyphSubstitution.Proofs.NestingDepth
import GlyphSubstitution.Proofs.ScanProgress

/-!
# What a dry run foretells

`LookupList.wouldApply` looks at bare glyph numbers and edits nothing; passes and nested calls edit
as they go.  The two agree.  At one position this is a matter of what a lookup selects there: where
it selects nothing, it does nothing (`Lookup.applyAt_of_not_selectsAt`), and where it selects
something, it is applied (`Lookup.exists_applied_of_selectsAt`).

About a whole pass the dry run over the run as it was at first knows less, for later positions are
looked at only after earlier edits.  But up to the first position at which the lookup would be
applied a pass finds nothing to do and changes nothing (`LookupList.reaches_of_not_wouldApply`), so
whether there is such a position decides whether a pass reports a change, as far as the lookup edits
glyphs itself.  `LookupList.dry_run_agrees` collects what follows.
-/

namespace GlyphSubstitution

universe u v w

variable {α : Type u}

/-! ## One position -/

theorem Run.getElem?_gids_append (before : Run α) (glyph : Glyph α) (rest : Run α) :
    (Run.gids (before ++ glyph :: rest))[before.length]? = some glyph.gid := by
  rw [Run.getElem?_gids, List.getElem?_append_right (Nat.le_refl _), Nat.sub_self]
  rfl

/-- Where nothing is selected for a glyph, or where there is no glyph, an edit that needs a
selection does nothing. -/
theorem editAt_of_not_selected {β : Type v} {γ : Type w} {select : GlyphId → Option γ}
    {edit : Glyph α → Run α → Option (Outcome α β)} {run : Run α} {i : Nat}
    (h : run.gids[i]?.bind select = none)
    (hedit : ∀ glyph rest, select glyph.gid = none → edit glyph rest = none) :
    editAt edit run i = ⟨run, .ok none⟩ := by
  unfold editAt
  split
  · rfl
  · next glyph rest hdrop =>
    have hglyph : run.gids[i]? = some glyph.gid := by
      rw [Run.getElem?_gids, ← List.head?_drop, hdrop]
      rfl
    rw [hglyph, Option.bind_some] at h
    rw [hedit glyph rest h]

/-- Where no rule is selected, contextual subtables do nothing. -/
theorem applyContextual_of_selectRule?_eq_none {nested : Applier α} {limit : Nat}
    {tables : List ContextSubtable} {f : GlyphFilter} {run : Run α} {i : Nat}
    (h : selectRule? tables f run.gids i = none) :
    applyContextual nested limit tables f run i = ⟨run, .ok none⟩ := by
  rw [applyContextual_eq, h]

/-- Contextual subtables answer that no rule was selected exactly if none is. -/
theorem applyContextual_ne_none_iff {nested : Applier α} {limit : Nat}
    {tables : List ContextSubtable} {f : GlyphFilter} {run : Run α} {i : Nat} :
    (applyContextual nested limit tables f run i).result ≠ .ok none ↔
      (selectRule? tables f run.gids i).isSome = true := by
  rw [applyContextual_eq]
  cases selectRule? tables f run.gids i with
  | none => simp
  | some found =>
    simp only [Option.isSome_some, iff_true]
    intro hnone
    obtain ⟨changed, -, hsome⟩ := Outcome.result_map_eq_ok_iff.1 hnone
    nomatch hsome

variable [Payload α]

namespace Lookup

variable {lookup : Lookup} {skip : SkipPredicate}
  {contextual : List ContextSubtable → GlyphFilter → Run α → Nat → Outcome α (Option Applied)}
  {run : Run α} {i : Nat}

/-- Where the lookup selects nothing, it does nothing. -/
theorem applyAt_of_not_selectsAt
    (h : ∀ tables f, selectRule? tables f run.gids i = none →
      contextual tables f run i = ⟨run, .ok none⟩)
    (hselects : lookup.selectsAt (skip.filter lookup.flag) run.gids i = false) :
    lookup.applyAt skip contextual run i = ⟨run, .ok none⟩ := by
  obtain ⟨flag, subtables⟩ := lookup
  have hnone {γ : Type} {selected : Option γ} (hselected : selected.isSome = false) :
      selected = none := Option.isNone_iff_eq_none.1 (Option.isSome_eq_false_iff.1 hselected)
  cases subtables with
  | single tables =>
    refine editAt_of_not_selected (hnone hselects) fun glyph rest hglyph => ?_
    rw [hglyph]
    rfl
  | multiple tables =>
    refine editAt_of_not_selected (hnone hselects) fun glyph rest hglyph => ?_
    rw [hglyph]
    rfl
  | ligature tables =>
    refine editAt_of_not_selected (hnone hselects) fun glyph rest _ => ?_
    rw [hnone hselects]
    rfl
  | contextual kind tables => exact h tables (skip.filter flag) (hnone hselects)

/-- Where a lookup that edits glyphs itself selects something, it is applied. -/
theorem exists_applied_of_selectsAt (hkind : lookup.isContextual = false)
    (hligatures : ∀ ligature ∈ lookup.ligatures, ligature.components.length ≤ UInt16.size)
    (hselects : lookup.selectsAt (skip.filter lookup.flag) run.gids i = true) :
    ∃ applied, (lookup.applyAt skip contextual run i).result = .ok (some applied) ∧
      applied.changed = true := by
  have hi : i < run.length := by
    by_contra hge
    rw [selectsAt_of_length_le (by rw [Run.length_gids]; exact Nat.not_lt.1 hge)] at hselects
    nomatch hselects
  have herror : ∀ e, (lookup.applyAt skip contextual run i).result ≠ .error e :=
    applyAt_ne_error hkind hligatures contextual run i
  obtain ⟨flag, subtables⟩ := lookup
  obtain ⟨before, glyph, rest, rfl, rfl⟩ := exists_append_of_lt hi
  cases subtables with
  | single tables =>
    obtain ⟨g, hg⟩ : ∃ g, Coverage.first? tables glyph.gid = some g := by
      simpa [selectsAt, Run.getElem?_gids_append, Option.isSome_iff_exists] using hselects
    refine ⟨{ width := 1, changed := true }, ?_, rfl⟩
    show (editAt _ _ _).result = _
    rw [editAt_append, hg]
    rfl
  | multiple tables =>
    obtain ⟨gs, hgs⟩ : ∃ gs, Coverage.first? tables glyph.gid = some gs := by
      simpa [selectsAt, Run.getElem?_gids_append, Option.isSome_iff_exists] using hselects
    refine ⟨{ width := gs.length, changed := true }, ?_, rfl⟩
    show (editAt _ _ _).result = _
    rw [editAt_append, hgs]
    rfl
  | ligature tables =>
    obtain ⟨ligature, hligature⟩ : ∃ ligature, selectLigature? tables (skip.filter flag)
        (Run.gids (before ++ glyph :: rest)) before.length = some ligature := by
      simpa [selectsAt, Option.isSome_iff_exists] using hselects
    have happlied : (applyAt ⟨flag, .ligature tables⟩ skip contextual (before ++ glyph :: rest)
        before.length).result =
          (((ligature.fuse (skip.filter flag) glyph rest).map fun passed =>
            ({ width := passed + 1, changed := true } : Applied)).map some).result := by
      show (editAt _ _ _).result = _
      rw [editAt_append, hligature]
      rfl
    rw [happlied] at herror ⊢
    cases hfused : (ligature.fuse (skip.filter flag) glyph rest).result with
    | error e =>
      refine absurd ?_ (herror e)
      rw [Outcome.result_map, Outcome.result_map, hfused]
      rfl
    | ok passed =>
      refine ⟨{ width := passed + 1, changed := true }, ?_, rfl⟩
      rw [Outcome.result_map, Outcome.result_map, hfused]
      rfl
  | contextual kind tables => nomatch hkind

end Lookup

namespace LookupList

variable {list : LookupList} {skip : SkipPredicate} {k : Nat} {lookup : Lookup} {run : Run α}
  {i : Nat}

omit [Payload α] in
theorem wouldApply_iff (hlookup : list.lookup k = .ok lookup) :
    list.wouldApply skip k run.gids i = .ok true ↔
      (skip.filter lookup.flag).seesAt run.gids i = true ∧
        lookup.selectsAt (skip.filter lookup.flag) run.gids i = true := by
  rw [wouldApply, hlookup, ← Bool.and_eq_true]
  constructor
  · exact Except.ok.inj
  · exact congrArg Except.ok

theorem visit_of_not_selectsAt
    (hselects : lookup.selectsAt (skip.filter lookup.flag) run.gids i = false) :
    list.visit skip lookup run i = ⟨run, .ok none⟩ :=
  Lookup.applyAt_of_not_selectsAt (fun _ _ => applyContextual_of_selectRule?_eq_none) hselects

/-- At a glyph that the lookup sees, the answer of a nested call is that of the dry run. -/
theorem applyNested_eq_ok_true_iff (hlookup : list.lookup k = .ok lookup)
    (hkind : lookup.isContextual = false)
    (hligatures : ∀ ligature ∈ lookup.ligatures, ligature.components.length ≤ UInt16.size)
    (hsees : (skip.filter lookup.flag).seesAt run.gids i = true) (limit : Nat) :
    (list.applyNested skip limit k run i).result = .ok true ↔
      list.wouldApply skip k run.gids i = .ok true := by
  have hi : i < run.length := Run.lt_length_of_seesAt hsees
  rw [wouldApply_iff hlookup, applyNested_eq, hlookup]
  dsimp only
  rw [if_pos hi, Outcome.result_map]
  by_cases hselects : lookup.selectsAt (skip.filter lookup.flag) run.gids i = true
  · obtain ⟨applied, happlied, hchanged⟩ : ∃ applied,
        (lookup.applyAt skip (list.contextualAt skip limit) run i).result = .ok (some applied) ∧
          applied.changed = true :=
      Lookup.exists_applied_of_selectsAt hkind hligatures hselects
    rw [happlied]
    simp [Except.map, hchanged, hsees, hselects]
  · have hidle : lookup.edit skip run i = ⟨run, .ok none⟩ :=
      Lookup.applyAt_of_not_selectsAt (fun _ _ _ => rfl) (eq_false_of_ne_true hselects)
    rw [Lookup.applyAt_eq_edit hkind, hidle]
    simp [Except.map, hselects]

/-! ## Passes -/

omit [Payload α] in
theorem not_selectsAt_of_not_wouldApply (hlookup : list.lookup k = .ok lookup)
    (h : list.wouldApply skip k run.gids i ≠ .ok true)
    (hsees : (skip.filter lookup.flag).seesAt run.gids i = true) :
    lookup.selectsAt (skip.filter lookup.flag) run.gids i = false :=
  eq_false_of_ne_true fun hselects => h ((wouldApply_iff hlookup).2 ⟨hsees, hselects⟩)

theorem visit_of_not_wouldApply (hlookup : list.lookup k = .ok lookup)
    (h : list.wouldApply skip k run.gids i ≠ .ok true)
    (hsees : (skip.filter lookup.flag).seesAt run.gids i = true) :
    list.visit skip lookup run i = ⟨run, .ok none⟩ :=
  visit_of_not_selectsAt (not_selectsAt_of_not_wouldApply hlookup h hsees)

/-- A pass passes over the glyphs to which the lookup would not be applied. -/
theorem reaches_of_not_wouldApply (hlookup : list.lookup k = .ok lookup) {count : Nat}
    (hcount : count ≤ run.length) (h : ∀ j < count, list.wouldApply skip k run.gids j ≠ .ok true) :
    Scan.Reaches (skip.filter lookup.flag) (list.visit skip lookup) { run }
      { run, cursor := count } := by
  have hstart : ({ run } : Scan α).cursor + count = count := Nat.zero_add count
  have hreaches := Scan.reaches_of_idle (s := { run }) (by rw [hstart]; exact hcount)
    fun i hi hsees => visit_of_not_wouldApply hlookup (h i (by rw [← hstart]; exact hi)) hsees
  rw [hstart] at hreaches
  exact hreaches

/-- A pass over a run to which the lookup would be applied nowhere ends, reports no change and makes
none. -/
theorem applyLookup_of_not_wouldApply (hlookup : list.lookup k = .ok lookup)
    (h : ∀ i, list.wouldApply skip k run.gids i ≠ .ok true) {budget : Nat}
    (hbudget : run.length ≤ budget) :
    list.applyLookup skip budget k run = some ⟨run, .ok false⟩ := by
  rw [applyLookup, hlookup]
  exact Scan.finish_of_idle (s := { run })
    (fun i hsees => visit_of_not_wouldApply hlookup (h i) hsees) hbudget

/-- What stands before the first glyph to which the lookup would be applied is the same after a
pass, however that ends. -/
theorem take_applyLookup_of_not_wouldApply (hlookup : list.lookup k = .ok lookup) {count : Nat}
    (hcount : count ≤ run.length) (h : ∀ j < count, list.wouldApply skip k run.gids j ≠ .ok true)
    {budget : Nat} {o : Outcome α Bool} (ho : list.applyLookup skip budget k run = some o) :
    o.run.take count = run.take count := by
  have hR := editRelation_sameBefore (α := α)
  have hvisit := visit_rel hR (list.editsBy_sameBefore skip) hlookup
  rw [applyLookup, hlookup] at ho
  obtain ⟨s, hs, hstopped⟩ :=
    Scan.exists_stopped_ahead (reaches_of_not_wouldApply hlookup hcount h) ho
  obtain ⟨hcursor, hway⟩ := Scan.rel_of_reaches hR hvisit hs
  exact hR.trans hway (hR.widen hcursor (Scan.rel_of_stopped hR hvisit hstopped))

/-- What a pass does at a position with a lookup that edits glyphs itself is the edit. -/
theorem visit_eq_edit (hkind : lookup.isContextual = false) :
    list.visit (α := α) skip lookup = lookup.edit skip :=
  Lookup.applyAt_eq_edit hkind skip _

theorem visit_advances (hkind : lookup.isContextual = false) (f : GlyphFilter) :
    Advances f (list.visit (α := α) skip lookup) := by
  rw [visit_eq_edit hkind]
  exact lookup.edit_advances skip f

theorem visit_ne_error (hkind : lookup.isContextual = false)
    (hligatures : ∀ ligature ∈ lookup.ligatures, ligature.components.length ≤ UInt16.size)
    (run : Run α) (i : Nat) (e : ShapingError) : (list.visit skip lookup run i).result ≠ .error e :=
  Lookup.applyAt_ne_error hkind hligatures _ run i e

/-- A pass with a lookup that edits glyphs itself ends, if the budget allows for every glyph of the
run. -/
theorem exists_applyLookup (hlookup : list.lookup k = .ok lookup)
    (hkind : lookup.isContextual = false) {budget : Nat} (hbudget : run.length ≤ budget) :
    ∃ o, list.applyLookup skip budget k run = some o := by
  rw [applyLookup, hlookup]
  exact Scan.exists_finish (s := { run }) (visit_advances hkind _) hbudget

/-- Where the lookup would be applied first, a pass with a lookup that edits glyphs itself applies
it, and does not fail later. -/
theorem changed_applyLookup_of_wouldApply (hlookup : list.lookup k = .ok lookup)
    (hkind : lookup.isContextual = false)
    (hligatures : ∀ ligature ∈ lookup.ligatures, ligature.components.length ≤ UInt16.size)
    (hwould : list.wouldApply skip k run.gids i = .ok true)
    (hfirst : ∀ j < i, list.wouldApply skip k run.gids j ≠ .ok true) {budget : Nat}
    {o : Outcome α Bool} (ho : list.applyLookup skip budget k run = some o) :
    o.result = .ok true := by
  obtain ⟨hsees, hselects⟩ := (wouldApply_iff hlookup).1 hwould
  have hi : i < run.length := Run.lt_length_of_seesAt hsees
  obtain ⟨applied, happlied, hchanged⟩ : ∃ applied,
      (list.visit skip lookup run i).result = .ok (some applied) ∧ applied.changed = true :=
    Lookup.exists_applied_of_selectsAt hkind hligatures hselects
  rw [applyLookup, hlookup] at ho
  have hthere := reaches_of_not_wouldApply hlookup (Nat.le_of_lt hi) hfirst
  have hstep := Scan.step_of_applied (s := { run, cursor := i }) hsees happlied
  obtain ⟨s, hs, hstopped⟩ := Scan.exists_stopped_ahead (hthere.tail hstep) ho
  rcases Scan.stopped_cases hstopped with ⟨-, rfl⟩ | ⟨-, e, -, -, herror, -⟩
  · exact congrArg Except.ok (Scan.changed_of_reaches hs hchanged)
  · exact absurd herror (visit_ne_error hkind hligatures s.run s.cursor e)

/-- What the dry run foretells, for a list whose ligatures have not more components than a 16-bit
number can count.

At a glyph that the lookup sees, it foretells the answer of a nested call, whatever its recursion
limit, and for a contextual lookup that its subtables find a rule there, whatever the records of it
then lead to.  A pass with a lookup that edits glyphs itself reports a change exactly if the dry run
is positive somewhere in the run as it was at first.  If the dry run is negative everywhere, a pass
with any lookup reports no change and makes none; and what stands before its first positive answer
is as before after the pass, however that ends. -/
theorem dry_run_agrees (list : LookupList) (skip : SkipPredicate)
    (hligatures : ∀ ligature ∈ list.ligatures, ligature.components.length ≤ 65535)
    {k : Nat} {lookup : Lookup} (hlookup : list.lookup k = .ok lookup) (run : Run α) :
    (∀ i, (skip.filter lookup.flag).seesAt run.gids i = true →
        (lookup.isContextual = false → ∀ limit,
          (list.wouldApply skip k run.gids i = .ok true ↔
            (list.applyNested skip limit k run i).result = .ok true)) ∧
        ∀ kind tables, lookup.subtables = .contextual kind tables →
          ∀ (nested : Applier α) (limit : Nat),
            (list.wouldApply skip k run.gids i = .ok true ↔
              (applyContextual nested limit tables (skip.filter lookup.flag) run i).result ≠
                .ok none)) ∧
      (∀ budget, run.length ≤ budget →
        (lookup.isContextual = false → ∃ o changed,
          list.applyLookup skip budget k run = some o ∧ o.result = .ok changed ∧
            (changed = true ↔ ∃ i, list.wouldApply skip k run.gids i = .ok true)) ∧
        ((∀ i, list.wouldApply skip k run.gids i ≠ .ok true) →
          list.applyLookup skip budget k run = some ⟨run, .ok false⟩)) ∧
      ∀ i, list.wouldApply skip k run.gids i = .ok true →
        (∀ j < i, list.wouldApply skip k run.gids j ≠ .ok true) →
        ∀ budget o, list.applyLookup skip budget k run = some o →
          o.run.take i = run.take i := by
  have hbound : ∀ ligature ∈ lookup.ligatures, ligature.components.length ≤ UInt16.size := by
    intro ligature hmem
    have hlist : ligature ∈ list.ligatures :=
      List.mem_flatMap.2 ⟨lookup, List.mem_of_getElem? (lookup_eq_ok_iff.1 hlookup), hmem⟩
    exact Nat.le_succ_of_le (hligatures ligature hlist)
  refine ⟨fun i hsees => ⟨fun hkind limit => ?_, fun kind tables hsubtables nested limit => ?_⟩,
    fun budget hbudget => ⟨fun hkind => ?_, fun hnowhere => ?_⟩,
    fun i hwould hfirst budget o ho => ?_⟩
  · exact (applyNested_eq_ok_true_iff hlookup hkind hbound hsees limit).symm
  · rw [wouldApply_iff hlookup, applyContextual_ne_none_iff, Lookup.selectsAt, hsubtables]
    exact ⟨And.right, And.intro hsees⟩
  · by_cases hsomewhere : ∃ i, list.wouldApply skip k run.gids i = .ok true
    · classical
      obtain ⟨o, ho⟩ : ∃ o, list.applyLookup skip budget k run = some o :=
        exists_applyLookup hlookup hkind hbudget
      have hchanged := changed_applyLookup_of_wouldApply hlookup hkind hbound
        (Nat.find_spec hsomewhere) (fun j hj => Nat.find_min hsomewhere hj) ho
      exact ⟨o, true, ho, hchanged, iff_of_true rfl hsomewhere⟩
    · have hpass : list.applyLookup skip budget k run = some ⟨run, .ok false⟩ :=
        applyLookup_of_not_wouldApply hlookup (fun i hi => hsomewhere ⟨i, hi⟩) hbudget
      exact ⟨_, false, hpass, rfl, iff_of_false Bool.false_ne_true hsomewhere⟩
  · exact applyLookup_of_not_wouldApply hlookup hnowhere hbudget
  · obtain ⟨hsees, -⟩ := (wouldApply_iff hlookup).1 hwould
    have hi : i < run.length := Run.lt_length_of_seesAt hsees
    exact take_applyLookup_of_not_wouldApply hlookup (Nat.le_of_lt hi) hfirst ho

/-- Lookup 0 makes a 4 a 5, and lookup 1 forms a ligature of a 5 and the 6 after it. -/
def joining : LookupList :=
  ofFaultless
    [⟨{}, .single [Coverage.ofList [(4, 5)]]⟩,
      ⟨{}, .ligature [Coverage.ofList [(5, [⟨56, [6]⟩])]]⟩]
    (by decide)

/-- The dry run is positive at the second of these glyphs and not at the first, and so the pass with
the ligatures makes a change, and not to the first glyph. -/
theorem joining_agrees :
    joining.wouldApply .nothing 1 [6, 5, 6] 0 = .ok false ∧
      joining.wouldApply .nothing 1 [6, 5, 6] 1 = .ok true ∧
      ∃ o, joining.applyLookup .nothing 3 1 [Glyph.ofId 6 (), .ofId 5 (), .ofId 6 ()] = some o ∧
        o.result = .ok true ∧ o.run.take 1 = [.ofId 6 ()] := by
  have hfirst : joining.wouldApply .nothing 1 [6, 5, 6] 0 = .ok false := by decide
  have hsecond : joining.wouldApply .nothing 1 [6, 5, 6] 1 = .ok true := by decide
  obtain ⟨-, hpass, hkept⟩ := dry_run_agrees (α := Unit) joining .nothing (by decide) (k := 1) rfl
    [.ofId 6 (), .ofId 5 (), .ofId 6 ()]
  obtain ⟨o, changed, ho, hresult, hchanged⟩ := (hpass 3 (Nat.le_refl 3)).1 rfl
  rw [hchanged.2 ⟨1, hsecond⟩] at hresult
  refine ⟨hfirst, hsecond, o, ho, hresult, hkept 1 hsecond (fun j hj => ?_) 3 o ho⟩
  obtain rfl : j = 0 := Nat.lt_one_iff.1 hj
  show joining.wouldApply .nothing 1 [6, 5, 6] 0 ≠ .ok true
  rw [hfirst]
  exact fun h => nomatch Except.ok.inj h

end LookupList

end GlyphSubstitution
