import GlyphSubstitution.Proofs.SkipTransparency
import GlyphSubstitution.Proofs.UnmentionedGlyphs

/-!
# Cutting runs

A pass over a run can be done in parts.  Where a glyph stands that every lookup sees and none
mentions (`LookupList.Separator`), the run may be cut: the pass over the whole comes to what the
passes over the parts come to, with that glyph between them (`LookupList.applyLookup_cut`).

Applied to a stretch of a run that has such glyphs for its neighbours, a lookup does what it does to
the stretch by itself, and to nothing else (`Lookup.edit_between`, `applyContextual_between`).  Nor
does the scan leave the stretch: it moves on to the end of it at most (`StaysInside`), and so it
comes to stand at the glyph that the run is cut at, where there is nothing to do.  For the part
after that glyph, what has become of the part before it is just something out of reach.
-/

namespace GlyphSubstitution

universe u v

variable {α : Type u} {β : Type v} {f : GlyphFilter} {b : GlyphId} {before after run : Run α}
  {i : Nat}

/-! ## Outcomes for a stretch of a run -/

/-- The outcome for a run that has something before it and after it. -/
def Outcome.between (before after : Run α) (o : Outcome α β) : Outcome α β :=
  ⟨GlyphSubstitution.between before after o.run, o.result⟩

theorem Run.gids_between (before after run : Run α) :
    Run.gids (between before after run) = between before.gids after.gids run.gids := by
  rw [between, Run.gids_append, Run.gids_append, between]

/-- An edit of a stretch of a run, if what comes after the stretch makes no difference to it. -/
theorem editAt_between {edit edit' : Glyph α → Run α → Option (Outcome α β)}
    (hi : i < run.length)
    (h : ∀ front glyph rest, run = front ++ glyph :: rest → i = front.length →
      edit' glyph (rest ++ after) = (edit glyph rest).map (·.between [] after)) :
    editAt edit' (between before after run) (before.length + i) =
      (editAt edit run i).between before after := by
  obtain ⟨front, glyph, rest, rfl, rfl⟩ := exists_append_of_lt hi
  have hwhole : between before after (front ++ glyph :: rest) =
      (before ++ front) ++ glyph :: (rest ++ after) := by
    simp [between]
  rw [hwhole, ← List.length_append, editAt_append, editAt_append, h front glyph rest rfl rfl]
  cases edit glyph rest with
  | none => exact congrArg (Outcome.mk · (.ok none)) hwhole.symm
  | some o =>
    obtain ⟨run', result⟩ := o
    refine congrArg (Outcome.mk · (result.map some)) ?_
    simp [Outcome.between, between]

theorem applySingle_between (tables : List SingleSubtable) (hi : i < run.length) :
    applySingle tables (between before after run) (before.length + i) =
      (applySingle tables run i).between before after := by
  refine editAt_between hi fun front glyph rest _ _ => ?_
  cases Coverage.first? tables glyph.gid <;> rfl

theorem applyMultiple_between (tables : List MultipleSubtable) (hi : i < run.length) :
    applyMultiple tables (between before after run) (before.length + i) =
      (applyMultiple tables run i).between before after := by
  refine editAt_between hi fun front glyph rest _ _ => ?_
  cases Coverage.first? tables glyph.gid with
  | none => rfl
  | some gs =>
    simp [Outcome.between, between]

theorem length_run_applySingle (tables : List SingleSubtable) (run : Run α) (i : Nat) :
    (applySingle tables run i).run.length = run.length := by
  refine editAt_rel (Q := fun run run' => run'.length = run.length) (fun _ => rfl)
    (fun front run run' hlength => ?_) (fun glyph rest o ho => ?_) run i
  · rw [List.length_append, List.length_append, hlength]
  · obtain ⟨g, -, rfl⟩ := Option.map_eq_some_iff.1 ho
    rfl

section

variable [Payload α]

/-- Components that are all there are not looked for any further. -/
theorem absorbFrom_append (f : GlyphFilter) {wanted taken : Nat} (head : Glyph α)
    (rest after : Run α) (h : wanted ≤ taken + rest.gids.countP f.sees) :
    absorbFrom f wanted taken head (rest ++ after) =
      ⟨(absorbFrom f wanted taken head rest).head,
        (absorbFrom f wanted taken head rest).rest ++ after,
        (absorbFrom f wanted taken head rest).passed⟩ := by
  fun_induction absorbFrom f wanted taken head rest with
  | case1 taken head => exact absorbFrom_of_le f h head after
  | case2 taken head glyph rest hdone => exact absorbFrom_of_le f hdone head _
  | case3 taken head glyph rest hmore hsees ih =>
    rw [Run.gids_cons, List.countP_cons_of_pos hsees] at h
    rw [List.cons_append, absorbFrom, if_neg hmore, if_pos hsees]
    exact ih (by omega)
  | case4 taken head glyph rest hmore hsees e hplace =>
    rw [List.cons_append, absorbFrom, if_neg hmore, if_neg hsees, hplace]
  | case5 taken head glyph rest hmore hsees place hplace further ih =>
    rw [Run.gids_cons, List.countP_cons_of_neg hsees] at h
    rw [List.cons_append, absorbFrom, if_neg hmore, if_neg hsees, hplace]
    simp only [ih h]
    rfl

theorem Ligature.fuse_append {ligature : Ligature} (head : Glyph α) (rest after : Run α)
    (h : ligature.components.length ≤ rest.gids.countP f.sees) :
    ligature.fuse f head (rest ++ after) = (ligature.fuse f head rest).between [] after := by
  rw [fuse, fuse, absorbFrom_append f head rest after (by omega)]
  cases (absorbFrom f ligature.components.length 0 head rest).passed <;> rfl

theorem applyLigature_between {tables : List LigatureSubtable}
    (h : Fenced b before.gids after.gids) (hsees : f.sees b = true)
    (hb : ∀ table ∈ tables, ∀ entry ∈ table.entries, ∀ ligature ∈ entry.2,
      b ∉ ligature.components) (hi : i < run.length) :
    applyLigature tables f (between before after run) (before.length + i) =
      (applyLigature tables f run i).between before after := by
  have hselect : selectLigature? tables f (Run.gids (between before after run))
      (before.length + i) = selectLigature? tables f run.gids i := by
    rw [Run.gids_between, ← Run.length_gids before]
    exact selectLigature?_between h hsees (by rw [Run.length_gids]; exact hi) hb
  unfold applyLigature
  rw [hselect]
  refine editAt_between hi fun front glyph rest hrun hfront => ?_
  cases hligature : selectLigature? tables f run.gids i with
  | none => rfl
  | some ligature =>
    have hmatches := matchesAt_of_selectLigature? hligature
    have hcount := (Ligature.matchesAt_iff.1 hmatches).length_le
    rw [hrun, hfront, Run.gids_append, Run.gids_cons, ← Run.length_gids front,
      GlyphFilter.length_seenAfter_append_cons] at hcount
    simp only [Option.map_some, Ligature.fuse_append glyph rest after hcount]
    rfl

/-- A lookup that edits glyphs itself does to a stretch between glyphs that it does not mention what
it does to it by itself. -/
theorem Lookup.edit_between {lookup : Lookup} {skip : SkipPredicate}
    (h : Fenced b before.gids after.gids) (hsees : (skip.filter lookup.flag).sees b = true)
    (hb : b ∉ lookup.mentioned) (hi : i < run.length) :
    lookup.edit skip (between before after run) (before.length + i) =
      (lookup.edit skip run i).between before after := by
  obtain ⟨flag, subtables⟩ := lookup
  cases subtables with
  | single tables => exact applySingle_between tables hi
  | multiple tables => exact applyMultiple_between tables hi
  | ligature tables => exact applyLigature_between h hsees (not_mem_components hb) hi
  | contextual kind tables => rfl

end

/-! ## Records -/

/-- Calls to lookup `k` leave the length of a run alone, and with something before the run and after
it they come to the same. -/
def CallsBetween (before after : Run α) (nested : Applier α) (limit k : Nat) : Prop :=
  ∀ (run : Run α) i, i < run.length →
    (nested ⟨k, limit, i, run⟩).run.length = run.length ∧
      nested ⟨k, limit, before.length + i, between before after run⟩ =
        (nested ⟨k, limit, i, run⟩).between before after

namespace Application

variable {a : Application α}

/-- The application with something before its run and after it. -/
def between (before after : Run α) (a : Application α) : Application α :=
  ⟨GlyphSubstitution.between before after a.run, a.positions.map (before.length + ·), a.changed⟩

theorem Tracks.between (h : a.Tracks) (before after : Run α) :
    (a.between before after).Tracks where
  inside := by
    intro q hq
    obtain ⟨p, hp, rfl⟩ := List.mem_map.1 hq
    have hinside := h.inside p hp
    show before.length + p < (GlyphSubstitution.between before after a.run).length
    rw [length_between]
    omega
  ordered := h.ordered.map _ fun _ _ hle => Nat.add_le_add_left hle _

theorem Tracks.target?_between (h : a.Tracks) (record : SequenceLookup) :
    (a.between before after).target? record = (a.target? record).map (before.length + ·) := by
  rw [(h.between before after).target?_eq, h.target?_eq]
  exact List.getElem?_map

theorem Tracks.afterCall (h : a.Tracks) (hlength : run.length = a.run.length)
    (record : SequenceLookup) (changed : Bool) : (a.afterCall record run changed).Tracks := by
  rw [h.afterCall_eq hlength]
  exact ⟨fun p hp => hlength ▸ h.inside p hp, h.ordered⟩

theorem Tracks.afterCall_between (h : a.Tracks) (hlength : run.length = a.run.length)
    (record : SequenceLookup) (changed : Bool) :
    (a.between before after).afterCall record (GlyphSubstitution.between before after run) changed =
      (a.afterCall record run changed).between before after := by
  have hlength' : (GlyphSubstitution.between before after run).length =
      (a.between before after).run.length := by
    rw [Application.between, length_between, length_between, hlength]
  rw [h.afterCall_eq hlength, (h.between before after).afterCall_eq hlength']
  rfl

end Application

/-- Records come to the same with something before the run and after it, and they leave its length
alone. -/
theorem applyRecords_between {nested : Applier α} {limit : Nat} {records : List SequenceLookup}
    (h : ∀ record ∈ records, CallsBetween before after nested limit record.lookupIndex.toNat)
    {a : Application α} (ha : a.Tracks) :
    (applyRecords nested limit records a).run.length = a.run.length ∧
      applyRecords nested limit records (a.between before after) =
        (applyRecords nested limit records a).between before after := by
  induction records generalizing a with
  | nil => exact ⟨rfl, rfl⟩
  | cons record rest ih =>
    obtain ⟨hrecord, hrest⟩ := List.forall_mem_cons.1 h
    rw [applyRecords_cons, applyRecords_cons, ha.target?_between]
    cases htarget : a.target? record with
    | none => exact ih hrest ha
    | some index =>
      have hindex : index < a.run.length := (Application.target?_eq_some_iff.1 htarget).2
      obtain ⟨hlength, hcall⟩ := hrecord a.run index hindex
      have hcall' : nested ⟨record.lookupIndex.toNat, limit, before.length + index,
          (a.between before after).run⟩ = _ := hcall
      dsimp only [Option.map_some]
      rw [hcall']
      generalize nested ⟨record.lookupIndex.toNat, limit, index, a.run⟩ = o at hlength ⊢
      obtain ⟨run, result⟩ := o
      cases result with
      | error e => exact ⟨hlength, rfl⟩
      | ok changed =>
        obtain ⟨hmore, hbetween⟩ := ih hrest (ha.afterCall hlength record changed)
        refine ⟨hmore.trans hlength, ?_⟩
        show applyRecords nested limit rest
          ((a.between before after).afterCall record (between before after run) changed) = _
        rw [ha.afterCall_between hlength, hbetween]

/-- Contextual subtables do to a stretch between glyphs that they do not mention what they do to it
by itself, and they leave its length alone, as far as the calls do that their records make. -/
theorem applyContextual_between {nested : Applier α} {limit : Nat} {tables : List ContextSubtable}
    (h : Fenced b before.gids after.gids) (hsees : f.sees b = true)
    (hb : ∀ table ∈ tables, ∀ rule ∈ table.allRules, b ∉ rule.pattern.glyphs)
    (hcalls : ∀ table ∈ tables, ∀ rule ∈ table.allRules, ∀ record ∈ rule.records,
      CallsBetween before after nested limit record.lookupIndex.toNat)
    (hi : i < run.length) :
    (applyContextual nested limit tables f run i).run.length = run.length ∧
      applyContextual nested limit tables f (between before after run) (before.length + i) =
        (applyContextual nested limit tables f run i).between before after := by
  have hgids : i < run.gids.length := by
    rw [Run.length_gids]
    exact hi
  have hselect : selectRule? tables f (Run.gids (between before after run)) (before.length + i) =
      (selectRule? tables f run.gids i).map (·.map (before.length + ·)) := by
    rw [Run.gids_between, ← Run.length_gids before]
    exact selectRule?_between h hsees hgids hb
  rw [applyContextual_eq, applyContextual_eq, hselect]
  cases hfound : selectRule? tables f run.gids i with
  | none => exact ⟨rfl, rfl⟩
  | some found =>
    obtain ⟨table, htable, rule, hrule, hmatch, hrecords⟩ := exists_rule_of_selectRule? hfound
    have hrecordCalls : ∀ record ∈ found.records,
        CallsBetween before after nested limit record.lookupIndex.toNat := by
      rw [← hrecords]
      exact hcalls table htable rule hrule
    have htracks : Application.Tracks ⟨run, found.context.positions, false⟩ :=
      ⟨fun p hp => by
        rw [← Run.length_gids]
        exact ContextPattern.lt_length_of_mem_positions hmatch hp,
        (ContextPattern.pairwise_positions hmatch).imp Nat.le_of_lt⟩
    obtain ⟨hlength, hbetween⟩ := applyRecords_between hrecordCalls htracks
    have hrecordsBetween : applyRecords nested limit found.records
        ⟨between before after run, (found.context.map (before.length + ·)).positions, false⟩ = _ :=
      hbetween
    refine ⟨hlength, ?_⟩
    dsimp only [Option.map_some, RuleMatch.map]
    rw [hrecordsBetween, ContextMatch.length_map_add]
    rfl

/-! ## Nested calls -/

namespace LookupList

/-- A glyph number that every lookup of the list sees and none mentions. -/
structure Separator (list : LookupList) (skip : SkipPredicate) (b : GlyphId) : Prop where
  sees : ∀ lookup ∈ list.lookups, skip b lookup.flag = false
  unmentioned : ∀ lookup ∈ list.lookups, b ∉ lookup.mentioned

variable {list : LookupList} {skip : SkipPredicate}

theorem Separator.sees_filter (hb : list.Separator skip b) {lookup : Lookup}
    (hlookup : lookup ∈ list.lookups) : (skip.filter lookup.flag).sees b = true := by
  rw [SkipPredicate.sees_filter, hb.sees lookup hlookup]
  rfl

variable [Payload α]

/-- Contextual subtables of lookup `k` do to a stretch between separators what they do to it by
itself, as far as the lookups do that their records name. -/
theorem applyContextual_applier_between (hb : list.Separator skip b)
    (h : Fenced b before.gids after.gids) {limit k : Nat} {lookup : Lookup}
    (hlookup : list.lookup k = .ok lookup) {kind : RuleKind} {tables : List ContextSubtable}
    (hsubtables : lookup.subtables = .contextual kind tables)
    (hcalls : ∀ l ∈ list.named k, CallsBetween before after (list.applier skip) limit l)
    (hi : i < run.length) :
    (applyContextual (list.applier skip) limit tables (skip.filter lookup.flag) run i).run.length =
        run.length ∧
      applyContextual (list.applier skip) limit tables (skip.filter lookup.flag)
          (between before after run) (before.length + i) =
        (applyContextual (list.applier skip) limit tables (skip.filter lookup.flag) run
          i).between before after := by
  have hmem : lookup ∈ list.lookups := List.mem_of_getElem? (lookup_eq_ok_iff.1 hlookup)
  have hsees := hb.sees_filter hmem
  have hunmentioned := hb.unmentioned lookup hmem
  obtain ⟨flag, subtables⟩ := lookup
  obtain rfl : subtables = .contextual kind tables := hsubtables
  refine applyContextual_between h hsees (Lookup.not_mem_glyphs hunmentioned) ?_ hi
  exact fun table htable rule hrule record hrecord =>
    hcalls _ (mem_named_of_record (lookup_eq_ok_iff.1 hlookup) htable hrule hrecord)

/-- A call to a lookup that works in place comes to the same for a stretch between separators, as
far as contextual subtables do. -/
theorem applyNested_callsBetween_of {limit k : Nat} (hk : list.InPlaceFrom k)
    (hcontextual : ∀ lookup kind tables, list.lookup k = .ok lookup →
      lookup.subtables = .contextual kind tables → ∀ (run : Run α) i, i < run.length →
        (list.contextualAt skip limit tables (skip.filter lookup.flag) run i).run.length =
            run.length ∧
          list.contextualAt skip limit tables (skip.filter lookup.flag) (between before after run)
              (before.length + i) =
            (list.contextualAt skip limit tables (skip.filter lookup.flag) run i).between before
              after) :
    CallsBetween before after (list.applier skip) limit k := by
  intro run i hi
  have hi' : before.length + i < (between before after run).length := by
    rw [length_between]
    omega
  show (list.applyNested skip limit k run i).run.length = run.length ∧
    list.applyNested skip limit k _ _ = (list.applyNested skip limit k run i).between before after
  rw [applyNested_eq, applyNested_eq]
  cases hlookup : list.lookup k with
  | error e => exact ⟨rfl, rfl⟩
  | ok lookup =>
    have hinPlace := hk k lookup Relation.ReflTransGen.refl hlookup
    dsimp only
    rw [if_pos hi, if_pos hi']
    obtain ⟨flag, subtables⟩ := lookup
    cases subtables with
    | single tables =>
      exact ⟨length_run_applySingle tables run i,
        congrArg (Outcome.map (·.any (·.changed))) (applySingle_between tables hi)⟩
    | contextual kind tables =>
      obtain ⟨hlength, hbetween⟩ := hcontextual _ kind tables hlookup rfl run i hi
      exact ⟨hlength, congrArg (Outcome.map (·.any (·.changed))) hbetween⟩
    | multiple tables => nomatch hinPlace
    | ligature tables => nomatch hinPlace

/-- Calls to lookups from which only lookups that work in place are reached come to the same for a
stretch between separators, and leave its length alone. -/
theorem applyNested_callsBetween (hb : list.Separator skip b) (h : Fenced b before.gids after.gids)
    (limit : Nat) {k : Nat} (hk : list.InPlaceFrom k) :
    CallsBetween before after (list.applier skip) limit k := by
  induction limit generalizing k with
  | zero =>
    refine applyNested_callsBetween_of hk ?_
    exact fun lookup kind tables _ _ run i _ => ⟨rfl, rfl⟩
  | succ limit ih =>
    refine applyNested_callsBetween_of hk ?_
    intro lookup kind tables hlookup hsubtables run i hi
    exact applyContextual_applier_between hb h hlookup hsubtables
      (fun l hl => ih (hk.of_mem_named hl)) hi

end LookupList

/-! ## Scans -/

/-- Wherever a visit to a seen glyph succeeds, the scan moves on to the end of the run at most. -/
def StaysInside (f : GlyphFilter) (visit : Visit α) : Prop :=
  ∀ run i applied, f.seesAt run.gids i = true → (visit run i).result = .ok applied →
    i + stride applied ≤ (visit run i).run.length

/-- Visits to a stretch of a run come to what visits to it by itself come to. -/
def VisitsBetween (before after : Run α) (visit : Visit α) : Prop :=
  ∀ (run : Run α) i, i < run.length →
    visit (between before after run) (before.length + i) = (visit run i).between before after

/-- The scan with something before its run and after it, before which there has been a change if
`changed` says so. -/
def Scan.between (before after : Run α) (changed : Bool) (s : Scan α) : Scan α :=
  ⟨GlyphSubstitution.between before after s.run, before.length + s.cursor, changed || s.changed⟩

/-- The step with something before the run and after it, before which there has been a change if
`changed` says so. -/
def ScanStep.between (before after : Run α) (changed : Bool) : ScanStep α → ScanStep α
  | .stopped o => .stopped ((o.map (changed || ·)).between before after)
  | .moved next => .moved (next.between before after changed)

namespace Scan

variable {visit : Visit α} {s s' : Scan α}

theorem after_between (changed : Bool) (s : Scan α) (o : Outcome α (Option Applied)) :
    (s.between before after changed).after (o.between before after) =
      (s.after o).between before after changed := by
  obtain ⟨run, result⟩ := o
  rcases result with e | (_ | applied)
  · rfl
  · rfl
  · refine congrArg ScanStep.moved ?_
    simp only [between, Outcome.between, Nat.add_assoc, Bool.or_assoc]

/-- Inside a stretch of a run a scan takes the steps that it takes through the stretch by itself. -/
theorem step_between (h : VisitsBetween before after visit) (changed : Bool)
    (hcursor : s.cursor < s.run.length) :
    (s.between before after changed).step f visit =
      (s.step f visit).between before after changed := by
  have hthere : f.seesAt (s.between before after changed).run.gids
      (s.between before after changed).cursor = f.seesAt s.run.gids s.cursor := by
    show f.seesAt (Run.gids (GlyphSubstitution.between before after s.run))
      (before.length + s.cursor) = _
    rw [Run.gids_between, ← Run.length_gids before]
    exact GlyphFilter.seesAt_between (by rw [Run.length_gids]; exact hcursor)
  have hcursor' : (s.between before after changed).cursor <
      (s.between before after changed).run.length := by
    show before.length + s.cursor < (GlyphSubstitution.between before after s.run).length
    rw [length_between]
    omega
  by_cases hsees : f.seesAt s.run.gids s.cursor = true
  · rw [step_of_seesAt hsees, step_of_seesAt (hthere.trans hsees), ← after_between,
      ← h s.run s.cursor hcursor]
    rfl
  · rw [step_of_not_seesAt hcursor hsees, step_of_not_seesAt hcursor' (hthere ▸ hsees)]
    rfl

/-- A scan through a stretch of a run comes by the places that it comes by through the stretch by
itself, and does not leave it. -/
theorem reaches_between (h : VisitsBetween before after visit) (hinside : StaysInside f visit)
    (changed : Bool) (hcursor : s.cursor ≤ s.run.length) (hs : Reaches f visit s s') :
    s'.cursor ≤ s'.run.length ∧
      Reaches f visit (s.between before after changed) (s'.between before after changed) := by
  induction hs with
  | refl => exact ⟨hcursor, Relation.ReflTransGen.refl⟩
  | @tail there next _ hmoved ih =>
    obtain ⟨-, hreaches⟩ := ih
    obtain ⟨hthere, hnext⟩ := moved_by_stride hmoved
    constructor
    · rcases hnext with rfl | ⟨hsees, applied, hresult, hrun, hcursor⟩
      · exact hthere
      · rw [hrun, hcursor]
        exact hinside _ _ _ hsees hresult
    · refine hreaches.tail ?_
      rw [step_between h changed hthere, hmoved]
      rfl

/-- A scan that succeeds on a stretch by itself goes through it to its end, whatever stands before
it and after it. -/
theorem reaches_end_between (h : VisitsBetween before after visit) (hinside : StaysInside f visit)
    {budget : Nat} {run run' : Run α} {told : Bool}
    (ho : finish f visit budget { run } = some ⟨run', .ok told⟩) (changed : Bool) :
    Reaches f visit ⟨GlyphSubstitution.between before after run, before.length, changed⟩
      ⟨GlyphSubstitution.between before after run', before.length + run'.length,
        changed || told⟩ := by
  obtain ⟨s, hs, hstopped⟩ := exists_stopped_of_finish ho
  obtain ⟨hcursor, hreaches⟩ := reaches_between h hinside changed (Nat.zero_le _) hs
  rcases stopped_cases hstopped with ⟨hend, houtcome⟩ | ⟨-, e, -, -, -, houtcome⟩
  · obtain ⟨rfl, htold⟩ := Outcome.mk.inj houtcome
    obtain rfl := Except.ok.inj htold
    rw [Scan.between, Scan.between, Nat.le_antisymm hcursor hend, Bool.or_false] at hreaches
    exact hreaches
  · nomatch (Outcome.mk.inj houtcome).2

end Scan

/-! ### How far a scan moves on -/

theorem editAt_inside {edit : Glyph α → Run α → Option (Outcome α Applied)}
    (h : ∀ glyph rest o applied, edit glyph rest = some o → o.result = .ok applied →
      applied.width ≤ o.run.length)
    {applied : Option Applied} (hi : i < run.length)
    (hresult : (editAt edit run i).result = .ok applied) :
    i + stride applied ≤ (editAt edit run i).run.length := by
  obtain ⟨front, glyph, rest, rfl, rfl⟩ := exists_append_of_lt hi
  rw [editAt_append] at hresult ⊢
  cases hedit : edit glyph rest with
  | none =>
    rw [hedit] at hresult
    rw [← Except.ok.inj hresult]
    exact hi
  | some o =>
    rw [hedit] at hresult
    obtain ⟨covered, hcovered, rfl⟩ := Outcome.result_map_eq_ok_iff.1 hresult
    have hwidth := h glyph rest o covered hedit hcovered
    rw [List.length_append, stride_some]
    omega

/-- A visit by contextual subtables that leaves the length of the run alone stays inside, for the
match lay inside. -/
theorem applyContextual_inside {nested : Applier α} {limit : Nat} {tables : List ContextSubtable}
    {applied : Option Applied} (hi : i < run.length)
    (hlength : (applyContextual nested limit tables f run i).run.length = run.length)
    (hresult : (applyContextual nested limit tables f run i).result = .ok applied) :
    i + stride applied ≤ (applyContextual nested limit tables f run i).run.length := by
  rw [hlength]
  rw [applyContextual_eq] at hresult
  cases hfound : selectRule? tables f run.gids i with
  | none =>
    rw [hfound] at hresult
    rw [← Except.ok.inj hresult]
    exact hi
  | some found =>
    rw [hfound] at hresult
    obtain ⟨changed, -, rfl⟩ := Outcome.result_map_eq_ok_iff.1 hresult
    obtain ⟨-, -, rule, -, hmatch, -⟩ := exists_rule_of_selectRule? hfound
    rw [← Run.length_gids]
    exact (ContextPattern.length_bounds hmatch).2

section

variable [Payload α]

theorem passed_le_length_rest_absorbFrom (f : GlyphFilter) (wanted taken : Nat) (head : Glyph α)
    (rest : Run α) :
    ∀ passed, (absorbFrom f wanted taken head rest).passed = .ok passed →
      passed ≤ (absorbFrom f wanted taken head rest).rest.length := by
  fun_induction absorbFrom f wanted taken head rest with
  | case1 taken head => exact fun passed h => Nat.le_of_eq (Except.ok.inj h).symm
  | case2 taken head glyph rest hdone => exact fun passed h => Except.ok.inj h ▸ Nat.zero_le _
  | case3 taken head glyph rest hmore hsees ih => exact ih
  | case4 taken head glyph rest hmore hsees e hplace =>
    intro passed h
    cases h
  | case5 taken head glyph rest hmore hsees place hplace further ih =>
    intro passed h
    cases hfurther : further.passed with
    | error e =>
      rw [hfurther] at h
      cases h
    | ok count =>
      rw [hfurther] at h
      rw [← Except.ok.inj h]
      exact Nat.succ_le_succ (ih count hfurther)

theorem Ligature.passed_lt_length_fuse {ligature : Ligature} {head : Glyph α} {rest : Run α}
    {passed : Nat} (h : (ligature.fuse f head rest).result = .ok passed) :
    passed < (ligature.fuse f head rest).run.length := by
  unfold fuse at h ⊢
  cases hpassed : (absorbFrom f ligature.components.length 0 head rest).passed with
  | error e =>
    simp only [hpassed] at h
    nomatch h
  | ok count =>
    simp only [hpassed] at h ⊢
    rw [← Except.ok.inj h]
    exact Nat.lt_succ_of_le (passed_le_length_rest_absorbFrom f _ 0 head rest _ hpassed)

theorem Lookup.edit_staysInside (lookup : Lookup) (skip : SkipPredicate) (f : GlyphFilter) :
    StaysInside f (lookup.edit (α := α) skip) := by
  intro run i applied hsees hresult
  have hi : i < run.length := Run.lt_length_of_seesAt hsees
  obtain ⟨flag, subtables⟩ := lookup
  cases subtables with
  | single tables =>
    refine editAt_inside (fun glyph rest o covered ho hcovered => ?_) hi hresult
    obtain ⟨g, -, rfl⟩ := Option.map_eq_some_iff.1 ho
    rw [← Except.ok.inj hcovered]
    exact Nat.succ_pos _
  | multiple tables =>
    refine editAt_inside (fun glyph rest o covered ho hcovered => ?_) hi hresult
    obtain ⟨gs, -, rfl⟩ := Option.map_eq_some_iff.1 ho
    rw [← Except.ok.inj hcovered, List.length_append, Glyph.length_expand]
    exact Nat.le_add_right _ _
  | ligature tables =>
    refine editAt_inside (fun glyph rest o covered ho hcovered => ?_) hi hresult
    obtain ⟨ligature, -, rfl⟩ := Option.map_eq_some_iff.1 ho
    obtain ⟨passed, hpassed, rfl⟩ := Outcome.result_map_eq_ok_iff.1 hcovered
    exact ligature.passed_lt_length_fuse hpassed
  | contextual kind tables =>
    rw [← Except.ok.inj hresult]
    exact hi

end

/-! ## Passes -/

namespace LookupList

variable [Payload α] {list : LookupList} {skip : SkipPredicate}

section

variable (hb : list.Separator skip b) {k : Nat} {lookup : Lookup}
  (hlookup : list.lookup k = .ok lookup)
  (hinPlace : lookup.isContextual = true → list.InPlaceFrom k)

include hb hlookup hinPlace

/-- What a pass with a contextual lookup does to a stretch between separators. -/
theorem visit_contextual_between (h : Fenced b before.gids after.gids)
    (hkind : lookup.isContextual = true) (hi : i < run.length) :
    (list.visit skip lookup run i).run.length = run.length ∧
      list.visit skip lookup (between before after run) (before.length + i) =
        (list.visit skip lookup run i).between before after := by
  have hcalls : ∀ l ∈ list.named k,
      CallsBetween before after (list.applier skip) list.recursionLimit l :=
    fun l hl => applyNested_callsBetween hb h _ ((hinPlace hkind).of_mem_named hl)
  obtain ⟨flag, subtables⟩ := lookup
  cases subtables with
  | contextual kind tables => exact applyContextual_applier_between hb h hlookup rfl hcalls hi
  | _ => nomatch hkind

theorem length_visit_contextual (hkind : lookup.isContextual = true) (hi : i < run.length) :
    (list.visit skip lookup run i).run.length = run.length := by
  have hnothing : Fenced b (Run.gids (α := α) []) (Run.gids (α := α) []) := ⟨nofun, nofun⟩
  exact (visit_contextual_between hb hlookup hinPlace hnothing hkind hi).1

theorem visit_visitsBetween (h : Fenced b before.gids after.gids) :
    VisitsBetween before after (list.visit skip lookup) := by
  intro run i hi
  by_cases hkind : lookup.isContextual = true
  · exact (visit_contextual_between hb hlookup hinPlace h hkind hi).2
  · have hmem : lookup ∈ list.lookups := List.mem_of_getElem? (lookup_eq_ok_iff.1 hlookup)
    rw [visit_eq_edit (eq_false_of_ne_true hkind)]
    exact Lookup.edit_between h (hb.sees_filter hmem) (hb.unmentioned lookup hmem) hi

theorem visit_staysInside (f : GlyphFilter) : StaysInside f (list.visit (α := α) skip lookup) := by
  by_cases hkind : lookup.isContextual = true
  · intro run i applied hsees hresult
    have hi : i < run.length := Run.lt_length_of_seesAt hsees
    have hlength := length_visit_contextual hb hlookup hinPlace hkind hi
    obtain ⟨flag, subtables⟩ := lookup
    cases subtables with
    | contextual kind tables => exact applyContextual_inside hi hlength hresult
    | _ => nomatch hkind
  · rw [visit_eq_edit (eq_false_of_ne_true hkind)]
    exact lookup.edit_staysInside skip f

omit hinPlace in
/-- At a separator a pass has nothing to do. -/
theorem visit_separator (run₁ : Run α) {glyph : Glyph α} (hglyph : glyph.gid = b) (run₂ : Run α) :
    list.visit skip lookup (run₁ ++ glyph :: run₂) run₁.length =
      ⟨run₁ ++ glyph :: run₂, .ok none⟩ := by
  have hmem : lookup ∈ list.lookups := List.mem_of_getElem? (lookup_eq_ok_iff.1 hlookup)
  refine visit_of_not_selectsAt (Lookup.selectsAt_of_not_mentioned (hb.unmentioned lookup hmem) ?_)
  rw [Run.getElem?_gids_append, hglyph]

/-- A scan goes through the part of a run before a separator, over the separator, and through the
part after it, as it goes through the parts by themselves. -/
theorem reaches_cut {glyph : Glyph α} (hglyph : glyph.gid = b) {run₁ run₁' run₂ run₂' : Run α}
    {budget₁ budget₂ : Nat} {changed₁ changed₂ : Bool}
    (h₁ : scan (skip.filter lookup.flag) (list.visit skip lookup) budget₁ run₁ =
      some ⟨run₁', .ok changed₁⟩)
    (h₂ : scan (skip.filter lookup.flag) (list.visit skip lookup) budget₂ run₂ =
      some ⟨run₂', .ok changed₂⟩) :
    Scan.Reaches (skip.filter lookup.flag) (list.visit skip lookup) { run := run₁ ++ glyph :: run₂ }
      ⟨run₁' ++ glyph :: run₂', (run₁' ++ glyph :: run₂').length, changed₁ || changed₂⟩ := by
  have hinside := visit_staysInside hb hlookup hinPlace (skip.filter lookup.flag) (α := α)
  have hbefore : Fenced b (Run.gids (α := α) []) (Run.gids (glyph :: run₂)) :=
    ⟨nofun, fun g hg => (Option.some.inj hg).symm.trans hglyph⟩
  have hafter : Fenced b (Run.gids (run₁' ++ [glyph])) (Run.gids (α := α) []) := by
    refine ⟨fun g hg => ?_, nofun⟩
    rw [Run.gids_append, List.getLast?_append] at hg
    exact (Option.some.inj hg).symm.trans hglyph
  have hfirst := Scan.reaches_end_between (visit_visitsBetween hb hlookup hinPlace hbefore) hinside
    h₁ false
  have hsecond := Scan.reaches_end_between (visit_visitsBetween hb hlookup hinPlace hafter) hinside
    h₂ changed₁
  simp only [between, List.nil_append, List.length_nil, Nat.zero_add, Bool.false_or] at hfirst
  simp only [between, List.append_nil, List.append_assoc, List.singleton_append] at hsecond
  have hhere : run₁'.length < (run₁' ++ glyph :: run₂).length := by
    rw [List.length_append, List.length_cons]
    omega
  have hpass : Scan.step (skip.filter lookup.flag) (list.visit skip lookup)
      ⟨run₁' ++ glyph :: run₂, run₁'.length, changed₁⟩ =
        .moved ⟨run₁' ++ glyph :: run₂, run₁'.length + 1, changed₁⟩ :=
    Scan.step_of_idle hhere fun _ => visit_separator hb hlookup run₁' hglyph run₂
  have hlength : (run₁' ++ [glyph]).length + run₂'.length = (run₁' ++ glyph :: run₂').length := by
    rw [← List.length_append, List.append_assoc, List.singleton_append]
  rw [hlength, List.length_append, List.length_singleton] at hsecond
  exact (hfirst.tail hpass).trans hsecond

end

/-- A run may be cut at a glyph that every lookup sees and none mentions.  If a lookup that edits
glyphs itself, or a contextual one from which records reach only lookups that work in place,
succeeds on the parts, then it does so on the whole: the parts become what they become by
themselves, and there is a change if there is one in either of them. -/
theorem applyLookup_cut (list : LookupList) (skip : SkipPredicate) {glyph : Glyph α}
    (hglyph : list.Separator skip glyph.gid) {k : Nat}
    (hk : list.isContextual k = true → list.InPlaceFrom k) {run₁ run₁' run₂ run₂' : Run α}
    {budget₁ budget₂ : Nat} {changed₁ changed₂ : Bool}
    (h₁ : list.applyLookup skip budget₁ k run₁ = some ⟨run₁', .ok changed₁⟩)
    (h₂ : list.applyLookup skip budget₂ k run₂ = some ⟨run₂', .ok changed₂⟩) {budget : Nat}
    (hbudget : (run₁ ++ glyph :: run₂).length ≤ budget) :
    list.applyLookup skip budget k (run₁ ++ glyph :: run₂) =
      some ⟨run₁' ++ glyph :: run₂', .ok (changed₁ || changed₂)⟩ := by
  unfold applyLookup at h₁ h₂ ⊢
  cases hlookup : list.lookup k with
  | error e =>
    rw [hlookup] at h₁
    nomatch (Outcome.mk.inj (Option.some.inj h₁)).2
  | ok lookup =>
    rw [hlookup] at h₁ h₂
    have hinPlace : lookup.isContextual = true → list.InPlaceFrom k := by
      intro hkind
      refine hk ?_
      rw [isContextual, lookup_eq_ok_iff.1 hlookup]
      exact hkind
    have hadvances : Advances (skip.filter lookup.flag) (list.visit (α := α) skip lookup) :=
      visit_advances_of_length fun hkind run i hi =>
        length_visit_contextual hglyph hlookup hinPlace hkind (Run.lt_length_of_seesAt hi)
    obtain ⟨o, ho⟩ := Scan.exists_finish (s := { run := run₁ ++ glyph :: run₂ }) hadvances hbudget
    have hway := reaches_cut hglyph hlookup hinPlace rfl h₁ h₂
    have hstopped := Scan.finish_eq_of_stopped hway (Scan.stopped_at_end (Nat.le_refl _)) ho
    exact ho.trans (congrArg some hstopped)

/-- Lookup 0 makes a 5 a 50, and lookup 1 asks for it at the first 5 after a 4. -/
def pairing : LookupList :=
  ofFaultless
    [⟨{}, .single [Coverage.ofList [(5, 50)]]⟩,
      ⟨{}, .contextual .simple [⟨Coverage.ofList [(4, [.simple [5] [⟨1, 0⟩]])], by decide⟩]⟩]
    (by decide)

/-- The 1 keeps the two pairs apart, and each of them is edited as if it stood alone. -/
theorem pairing_cut :
    pairing.Separator .nothing 1 ∧
      ∃ o, pairing.applyLookup .nothing 2 1 [Glyph.ofId 4 (), .ofId 5 ()] = some o ∧
        o.result = .ok true ∧ o.run.gids = [4, 50] ∧
        pairing.applyLookup .nothing 5 1
            [Glyph.ofId 4 (), .ofId 5 (), .ofId 1 (), .ofId 4 (), .ofId 5 ()] =
          some ⟨o.run ++ .ofId 1 () :: o.run, .ok true⟩ := by
  have hseparator : pairing.Separator .nothing 1 := ⟨fun _ _ => rfl, by decide⟩
  have hall : ∀ lookup ∈ pairing.lookups, lookup.isInPlace = true := by decide
  have hinPlace : pairing.InPlaceFrom 1 := fun l lookup _ hlookup =>
    hall lookup (List.mem_of_getElem? (lookup_eq_ok_iff.1 hlookup))
  obtain ⟨run, ho, hgids⟩ : ∃ run, pairing.applyLookup .nothing 2 1
      [Glyph.ofId 4 (), .ofId 5 ()] = some ⟨run, .ok true⟩ ∧ run.gids = [4, 50] :=
    ⟨_, rfl, by decide⟩
  refine ⟨hseparator, ⟨run, .ok true⟩, ho, rfl, hgids, ?_⟩
  exact applyLookup_cut pairing .nothing hseparator (fun _ => hinPlace) ho ho
    (Nat.le_refl 5)

end LookupList

end GlyphSubstitution
