import GlyphSubstitution.Substitution.Pass

/-!
# Glyph numbers alone decide

Characters, component numbers, origins, flags and payloads of glyphs are carried along by
substitution but never looked at.  Two runs of the same glyph numbers therefore come to the same
with every lookup list: the results agree, errors included, and so do the glyph numbers of what is
left of the runs, also where an application is broken off (`gids_decide`).  The payloads need not
even be of one type, nor be merged in the same way.

`Outcome.SameGids` says so of two outcomes.  It holds of edits at one position that look at numbers
only (`editAt_sameGids`), and is passed on through records, nested calls and scans, each going side
by side with its counterpart.
-/

namespace GlyphSubstitution

universe u v w

variable {α : Type u} {β : Type v} {γ : Type w}

/-- The outcomes agree in their results and in the glyph numbers of their runs. -/
structure Outcome.SameGids (o : Outcome α γ) (o' : Outcome β γ) : Prop where
  gids : o'.run.gids = o.run.gids
  result : o'.result = o.result

theorem Outcome.SameGids.map {δ : Type w} {o : Outcome α γ} {o' : Outcome β γ} (h : o.SameGids o')
    (g : γ → δ) : (o.map g).SameGids (o'.map g) where
  gids := h.gids
  result := by rw [result_map, result_map, h.result]

theorem Run.length_eq_of_gids {run : Run α} {run' : Run β} (h : run'.gids = run.gids) :
    run'.length = run.length := by
  rw [← Run.length_gids run', h, Run.length_gids]

/-- Which glyphs are missing is decided by their numbers. -/
theorem Run.gids_replaceMissing (run : Run α) (count : UInt16) :
    (run.replaceMissing count).gids = run.gids.map fun g => if g < count then g else 0 := by
  rw [gids, gids, replaceMissing, List.map_map, List.map_map]
  refine List.map_congr_left fun glyph _ => ?_
  simp only [Function.comp_apply]
  split <;> rfl

/-! ## Edits -/

/-- Edits that look at glyph numbers only come to the same at the same position. -/
theorem editAt_sameGids {edit : Glyph α → Run α → Option (Outcome α γ)}
    {edit' : Glyph β → Run β → Option (Outcome β γ)}
    (h : ∀ glyph glyph' rest rest', glyph'.gid = glyph.gid → Run.gids rest' = Run.gids rest →
      Option.Rel Outcome.SameGids (edit glyph rest) (edit' glyph' rest'))
    {run : Run α} {run' : Run β} (hrun : run'.gids = run.gids) (i : Nat) :
    (editAt edit run i).SameGids (editAt edit' run' i) := by
  have hdrop : Run.gids (run'.drop i) = Run.gids (run.drop i) := by
    rw [Run.gids, Run.gids, List.map_drop, List.map_drop]
    exact congrArg (List.drop i) hrun
  have htake : Run.gids (run'.take i) = Run.gids (run.take i) := by
    rw [Run.gids, Run.gids, List.map_take, List.map_take]
    exact congrArg (List.take i) hrun
  unfold editAt
  cases hrest : run.drop i with
  | nil =>
    rw [hrest] at hdrop
    rw [List.map_eq_nil_iff.1 hdrop]
    exact ⟨hrun, rfl⟩
  | cons glyph rest =>
    cases hrest' : run'.drop i with
    | nil =>
      rw [hrest, hrest', Run.gids_nil, Run.gids_cons] at hdrop
      cases hdrop
    | cons glyph' rest' =>
      rw [hrest, hrest', Run.gids_cons, Run.gids_cons, List.cons.injEq] at hdrop
      have hedit := h glyph glyph' rest rest' hdrop.1 hdrop.2
      dsimp only
      generalize edit glyph rest = made at hedit ⊢
      generalize edit' glyph' rest' = made' at hedit ⊢
      cases hedit with
      | none => exact ⟨hrun, rfl⟩
      | some hsame =>
        refine ⟨?_, congrArg (Except.map some) hsame.result⟩
        dsimp only
        rw [Run.gids_append, Run.gids_append, htake, hsame.gids]

variable [Payload α] [Payload β]

/-- What is absorbed is decided by glyph numbers. -/
theorem absorbFrom_sameGids (f : GlyphFilter) (wanted taken : Nat) {head : Glyph α}
    {head' : Glyph β} (hhead : head'.gid = head.gid) {rest : Run α} {rest' : Run β}
    (hrest : rest'.gids = rest.gids) :
    (absorbFrom f wanted taken head' rest').head.gid =
        (absorbFrom f wanted taken head rest).head.gid ∧
      (absorbFrom f wanted taken head' rest').rest.gids =
        (absorbFrom f wanted taken head rest).rest.gids ∧
      (absorbFrom f wanted taken head' rest').passed =
        (absorbFrom f wanted taken head rest).passed := by
  induction rest generalizing taken head head' rest' with
  | nil =>
    obtain rfl := List.map_eq_nil_iff.1 hrest
    exact ⟨hhead, rfl, rfl⟩
  | cons glyph rest ih =>
    obtain ⟨glyph', rest', rfl⟩ : ∃ glyph' tail, rest' = glyph' :: tail := by
      cases rest' with
      | nil => nomatch hrest
      | cons glyph' tail => exact ⟨glyph', tail, rfl⟩
    rw [Run.gids_cons, Run.gids_cons, List.cons.injEq] at hrest
    obtain ⟨hglyph, hrest⟩ := hrest
    unfold absorbFrom
    by_cases hdone : wanted ≤ taken
    · rw [if_pos hdone, if_pos hdone]
      refine ⟨hhead, ?_, rfl⟩
      rw [Run.gids_cons, Run.gids_cons, hglyph, hrest]
    · rw [if_neg hdone, if_neg hdone, hglyph]
      by_cases hsees : f.sees glyph.gid = true
      · rw [if_pos hsees, if_pos hsees]
        have habsorbed : (head'.absorb glyph').gid = (head.absorb glyph).gid := hhead
        exact ih (taken + 1) habsorbed hrest
      · rw [if_neg hsees, if_neg hsees]
        cases toWord taken with
        | error e =>
          refine ⟨hhead, ?_, rfl⟩
          dsimp only
          rw [Run.gids_cons, Run.gids_cons, hglyph, hrest]
        | ok place =>
          obtain ⟨hfurther, hleft, hpassed⟩ := ih taken hhead hrest
          refine ⟨hfurther, ?_, congrArg (Except.map (· + 1)) hpassed⟩
          rw [Run.gids_cons, Run.gids_cons, hleft]

theorem Ligature.fuse_sameGids (ligature : Ligature) (f : GlyphFilter) {head : Glyph α}
    {head' : Glyph β} (hhead : head'.gid = head.gid) {rest : Run α} {rest' : Run β}
    (hrest : rest'.gids = rest.gids) :
    (ligature.fuse f head rest).SameGids (ligature.fuse f head' rest') := by
  obtain ⟨habsorbed, hleft, hpassed⟩ :=
    absorbFrom_sameGids f ligature.components.length 0 hhead hrest
  unfold fuse
  dsimp only
  rw [hpassed]
  cases (absorbFrom f ligature.components.length 0 head rest).passed with
  | ok passed => exact ⟨by rw [Run.gids_cons, Run.gids_cons, hleft]; rfl, rfl⟩
  | error e => exact ⟨by rw [Run.gids_cons, Run.gids_cons, hleft, habsorbed], rfl⟩

/-! ## Records -/

/-- The applications have come equally far, as far as glyph numbers tell. -/
structure Application.SameGids (a : Application α) (a' : Application β) : Prop where
  gids : a'.run.gids = a.run.gids
  positions : a'.positions = a.positions
  changed : a'.changed = a.changed

namespace Application.SameGids

variable {a : Application α} {a' : Application β}

omit [Payload α] [Payload β]

theorem target?_eq (h : a.SameGids a') (record : SequenceLookup) :
    a'.target? record = a.target? record := by
  rw [target?, target?, h.positions, Run.length_eq_of_gids h.gids]

theorem afterCall (h : a.SameGids a') {run : Run α} {run' : Run β} (hrun : run'.gids = run.gids)
    (record : SequenceLookup) (changed : Bool) :
    (a.afterCall record run changed).SameGids (a'.afterCall record run' changed) where
  gids := hrun
  positions := by
    simp only [Application.afterCall, growth, h.positions, Run.length_eq_of_gids hrun,
      Run.length_eq_of_gids h.gids]
  changed := by
    simp only [Application.afterCall, h.changed, Run.length_eq_of_gids hrun,
      Run.length_eq_of_gids h.gids]

end Application.SameGids

section

variable {nested : Applier α} {nested' : Applier β} {limit : Nat}
  (hnested : ∀ k i run run', Run.gids run' = Run.gids run →
    (nested ⟨k, limit, i, run⟩).SameGids (nested' ⟨k, limit, i, run'⟩))

include hnested

omit [Payload α] [Payload β] in
theorem applyRecords_sameGids (records : List SequenceLookup) {a : Application α}
    {a' : Application β} (h : a.SameGids a') :
    (applyRecords nested limit records a).SameGids (applyRecords nested' limit records a') := by
  induction records generalizing a a' with
  | nil => exact ⟨h.gids, by rw [applyRecords_nil, applyRecords_nil, h.changed]⟩
  | cons record rest ih =>
    rw [applyRecords_cons, applyRecords_cons, h.target?_eq]
    cases a.target? record with
    | none => exact ih h
    | some index =>
      have hcall := hnested record.lookupIndex.toNat index a.run a'.run h.gids
      dsimp only
      rw [hcall.result]
      split
      · exact ⟨hcall.gids, rfl⟩
      · exact ih (h.afterCall hcall.gids record _)

omit [Payload α] [Payload β] in
theorem applyContextual_sameGids (tables : List ContextSubtable) (f : GlyphFilter) {run : Run α}
    {run' : Run β} (hrun : run'.gids = run.gids) (i : Nat) :
    (applyContextual nested limit tables f run i).SameGids
      (applyContextual nested' limit tables f run' i) := by
  rw [applyContextual_eq, applyContextual_eq, hrun]
  cases selectRule? tables f run.gids i with
  | none => exact ⟨hrun, rfl⟩
  | some found => exact (applyRecords_sameGids hnested found.records ⟨hrun, rfl, rfl⟩).map _

end

/-! ## Lookups of a list -/

theorem Lookup.applyAt_sameGids {lookup : Lookup} {skip : SkipPredicate}
    {contextual :
      List ContextSubtable → GlyphFilter → Run α → Nat → Outcome α (Option Applied)}
    {contextual' :
      List ContextSubtable → GlyphFilter → Run β → Nat → Outcome β (Option Applied)}
    {run : Run α} {run' : Run β} (hrun : run'.gids = run.gids) (i : Nat)
    (h : ∀ tables f, (contextual tables f run i).SameGids (contextual' tables f run' i)) :
    (lookup.applyAt skip contextual run i).SameGids (lookup.applyAt skip contextual' run' i) := by
  obtain ⟨flag, subtables⟩ := lookup
  cases subtables with
  | single tables =>
    refine editAt_sameGids (fun glyph glyph' rest rest' hglyph hrest => ?_) hrun i
    rw [hglyph]
    cases Coverage.first? tables glyph.gid with
    | none => exact .none
    | some g => exact .some ⟨by rw [Run.gids_cons, Run.gids_cons, hrest]; rfl, rfl⟩
  | multiple tables =>
    refine editAt_sameGids (fun glyph glyph' rest rest' hglyph hrest => ?_) hrun i
    rw [hglyph]
    cases Coverage.first? tables glyph.gid with
    | none => exact .none
    | some gs =>
      refine .some ⟨?_, rfl⟩
      dsimp only
      rw [Run.gids_append, Run.gids_append, Glyph.gids_expand, Glyph.gids_expand, hrest]
  | ligature tables =>
    refine editAt_sameGids (fun glyph glyph' rest rest' hglyph hrest => ?_) hrun i
    rw [hrun]
    cases selectLigature? tables (skip.filter flag) run.gids i with
    | none => exact .none
    | some ligature => exact .some ((ligature.fuse_sameGids _ hglyph hrest).map _)
  | contextual kind tables => exact h tables (skip.filter flag)

/-! ## Scans -/

/-- The scans have come equally far, as far as glyph numbers tell. -/
structure Scan.SameGids (s : Scan α) (s' : Scan β) : Prop where
  gids : s'.run.gids = s.run.gids
  cursor : s'.cursor = s.cursor
  changed : s'.changed = s.changed

/-- The steps lead equally far, as far as glyph numbers tell. -/
inductive ScanStep.SameGids : ScanStep α → ScanStep β → Prop where
  | stopped {o : Outcome α Bool} {o' : Outcome β Bool} (h : o.SameGids o') :
    SameGids (.stopped o) (.stopped o')
  | moved {next : Scan α} {next' : Scan β} (h : next.SameGids next') :
    SameGids (.moved next) (.moved next')

namespace Scan

variable {f : GlyphFilter} {visit : Visit α} {visit' : Visit β} {s : Scan α} {s' : Scan β}

omit [Payload α] [Payload β]

theorem SameGids.after (h : s.SameGids s') {o : Outcome α (Option Applied)}
    {o' : Outcome β (Option Applied)} (ho : o.SameGids o') :
    (s.after o).SameGids (s'.after o') := by
  obtain ⟨run, result⟩ := o
  obtain ⟨run', result'⟩ := o'
  obtain ⟨hgids, rfl⟩ : run'.gids = run.gids ∧ result' = result := ⟨ho.gids, ho.result⟩
  rcases result' with e | (_ | applied)
  · exact .stopped ⟨hgids, rfl⟩
  · exact .moved ⟨hgids, congrArg (· + 1) h.cursor, h.changed⟩
  · exact .moved ⟨hgids, congrArg (· + applied.width) h.cursor,
      congrArg (· || applied.changed) h.changed⟩

section

variable (hvisit : ∀ run run' i, Run.gids run' = Run.gids run →
  (visit run i).SameGids (visit' run' i))

include hvisit

/-- Scans whose visits go by glyph numbers take the same steps. -/
theorem step_sameGids (h : s.SameGids s') : (s.step f visit).SameGids (s'.step f visit') := by
  have hglyph : s'.run[s.cursor]?.map Glyph.gid = s.run[s.cursor]?.map Glyph.gid := by
    rw [← Run.getElem?_gids, ← Run.getElem?_gids, h.gids]
  rw [step_eq, step_eq, h.cursor]
  cases hthere : s.run[s.cursor]? with
  | none =>
    rw [hthere] at hglyph
    rw [Option.map_eq_none_iff.1 hglyph]
    exact .stopped ⟨h.gids, congrArg Except.ok h.changed⟩
  | some glyph =>
    rw [hthere] at hglyph
    obtain ⟨glyph', hthere', hgid⟩ := Option.map_eq_some_iff.1 hglyph
    rw [hthere']
    dsimp only
    rw [hgid]
    by_cases hsees : f.sees glyph.gid = true
    · rw [if_pos hsees, if_pos hsees]
      exact h.after (hvisit s.run s'.run s.cursor h.gids)
    · rw [if_neg hsees, if_neg hsees]
      exact .moved ⟨h.gids, congrArg (· + 1) h.cursor, h.changed⟩

/-- Scans whose visits go by glyph numbers come to the same within the same budget. -/
theorem finish_sameGids (budget : Nat) (h : s.SameGids s') :
    Option.Rel Outcome.SameGids (finish f visit budget s) (finish f visit' budget s') := by
  induction budget generalizing s s' with
  | zero =>
    rw [finish_zero, finish_zero, h.cursor, Run.length_eq_of_gids h.gids, h.changed]
    split
    · exact .none
    · exact .some ⟨h.gids, rfl⟩
  | succ budget ih =>
    have hstep := step_sameGids (f := f) hvisit h
    rw [finish_succ, finish_succ]
    generalize s.step f visit = step at hstep ⊢
    generalize s'.step f visit' = step' at hstep ⊢
    cases hstep with
    | stopped hsame => exact .some hsame
    | moved hnext => exact ih hnext

end

end Scan

/-! ## Passes -/

namespace LookupList

variable {list : LookupList} {skip : SkipPredicate} {run : Run α} {run' : Run β}

theorem applyNested_sameGids_of {limit : Nat}
    (h : ∀ tables f (run : Run α) (run' : Run β) i, run'.gids = run.gids →
      (list.contextualAt skip limit tables f run i).SameGids
        (list.contextualAt skip limit tables f run' i))
    (hrun : run'.gids = run.gids) (k i : Nat) :
    (list.applyNested skip limit k run i).SameGids (list.applyNested skip limit k run' i) := by
  rw [applyNested_eq, applyNested_eq, Run.length_eq_of_gids hrun]
  cases list.lookup k with
  | error e => exact ⟨hrun, rfl⟩
  | ok lookup =>
    dsimp only
    split
    · exact (Lookup.applyAt_sameGids hrun i fun tables f => h tables f run run' i hrun).map _
    · exact ⟨hrun, rfl⟩

theorem applyNested_sameGids (limit : Nat) (hrun : run'.gids = run.gids) (k i : Nat) :
    (list.applyNested skip limit k run i).SameGids (list.applyNested skip limit k run' i) := by
  induction limit generalizing run run' k i with
  | zero =>
    have hrefused : ∀ tables f (run : Run α) (run' : Run β) i, run'.gids = run.gids →
        (list.contextualAt skip 0 tables f run i).SameGids
          (list.contextualAt skip 0 tables f run' i) := fun _ _ _ _ _ hgids => ⟨hgids, rfl⟩
    exact applyNested_sameGids_of hrefused hrun k i
  | succ limit ih =>
    have hcalls : ∀ k i (run : Run α) (run' : Run β), run'.gids = run.gids →
        (list.applier skip ⟨k, limit, i, run⟩).SameGids (list.applier skip ⟨k, limit, i, run'⟩) :=
      fun k i run run' hgids => ih hgids k i
    refine applyNested_sameGids_of (fun tables f run run' i hgids => ?_) hrun k i
    exact applyContextual_sameGids hcalls tables f hgids i

theorem applyLookup_sameGids (budget k : Nat) (hrun : run'.gids = run.gids) :
    Option.Rel Outcome.SameGids (list.applyLookup skip budget k run)
      (list.applyLookup skip budget k run') := by
  unfold applyLookup
  cases list.lookup k with
  | error e => exact .some ⟨hrun, rfl⟩
  | ok lookup =>
    have hcalls : ∀ k i (run : Run α) (run' : Run β), run'.gids = run.gids →
        (list.applier skip ⟨k, list.recursionLimit, i, run⟩).SameGids
          (list.applier skip ⟨k, list.recursionLimit, i, run'⟩) :=
      fun k i run run' hgids => applyNested_sameGids list.recursionLimit hgids k i
    refine Scan.finish_sameGids (fun run run' i hgids => ?_) budget ⟨hrun, rfl, rfl⟩
    refine Lookup.applyAt_sameGids hgids i fun tables f => ?_
    exact applyContextual_sameGids hcalls tables f hgids i

theorem applyInTurn_sameGids (budget : Nat) (ks : List Nat) (hrun : run'.gids = run.gids) :
    Option.Rel Outcome.SameGids (list.applyInTurn skip budget ks run)
      (list.applyInTurn skip budget ks run') := by
  induction ks generalizing run run' with
  | nil => exact .some ⟨hrun, rfl⟩
  | cons k ks ih =>
    have hfirst : Option.Rel Outcome.SameGids (list.applyLookup skip budget k run)
        (list.applyLookup skip budget k run') := applyLookup_sameGids budget k hrun
    unfold applyInTurn
    generalize list.applyLookup skip budget k run = first at hfirst ⊢
    generalize list.applyLookup skip budget k run' = first' at hfirst ⊢
    cases hfirst with
    | none => exact .none
    | @some o o' hsame =>
      obtain ⟨left, result⟩ := o
      obtain ⟨left', result'⟩ := o'
      obtain rfl : result' = result := hsame.result
      cases result' with
      | error e => exact .some ⟨hsame.gids, rfl⟩
      | ok changed =>
        have hrest : Option.Rel Outcome.SameGids (list.applyInTurn skip budget ks left)
            (list.applyInTurn skip budget ks left') := ih hsame.gids
        dsimp only
        generalize list.applyInTurn skip budget ks left = rest at hrest ⊢
        generalize list.applyInTurn skip budget ks left' = rest' at hrest ⊢
        cases hrest with
        | none => exact .none
        | some hsame => exact .some (hsame.map _)

/-- Two runs of the same glyph numbers come to the same, whatever else their glyphs carry.  Several
passes and the clearing away of missing glyphs end within a budget for the one exactly if they do
for the other; then the results agree, be they errors or not, and the runs are again of the same
glyph numbers.  So it is with every nested call. -/
theorem gids_decide (list : LookupList) (skip : SkipPredicate) (run : Run α) (run' : Run β)
    (hrun : run'.gids = run.gids) :
    (∀ budget ks count, Option.Rel Outcome.SameGids (list.applyLookups skip budget ks count run)
        (list.applyLookups skip budget ks count run')) ∧
      ∀ limit k i,
        (list.applyNested skip limit k run i).SameGids (list.applyNested skip limit k run' i) := by
  refine ⟨fun budget ks count => ?_, fun limit k i => applyNested_sameGids limit hrun k i⟩
  have hturn : Option.Rel Outcome.SameGids (list.applyInTurn skip budget ks run)
      (list.applyInTurn skip budget ks run') := applyInTurn_sameGids budget ks hrun
  unfold applyLookups
  generalize list.applyInTurn skip budget ks run = turn at hturn ⊢
  generalize list.applyInTurn skip budget ks run' = turn' at hturn ⊢
  cases hturn with
  | none => exact .none
  | @some o o' hsame =>
    obtain ⟨left, result⟩ := o
    obtain ⟨left', result'⟩ := o'
    obtain ⟨hleft, rfl⟩ : left'.gids = left.gids ∧ result' = result := ⟨hsame.gids, hsame.result⟩
    cases result' with
    | error e => exact .some hsame
    | ok changed =>
      refine .some ⟨?_, rfl⟩
      dsimp only
      rw [Run.gids_replaceMissing, Run.gids_replaceMissing, hleft]

/-- Lookup 0 forms a 45 of a 4 and a 5, and lookup 1 makes a 46 and a 70 of it. -/
def splitting : LookupList :=
  ofFaultless
    [⟨{}, .ligature [Coverage.ofList [(4, [⟨45, [5]⟩])]]⟩,
      ⟨{}, .multiple [Coverage.ofList [(45, [46, 70])]]⟩]
    (by decide)

/-- A font of 60 glyphs does not have the 70, whether the 4 and the 5 are characters with lists to
be strung together or glyphs that the caller put in without anything. -/
theorem splitting_goes_by_gids :
    Run.gids [Glyph.ofId 4 (), .ofId 2 (), .ofId 5 ()] =
        Run.gids [Glyph.ofChar 'f' 4 [0], .ofChar 'x' 2 [1], .ofChar 'i' 5 [2]] ∧
      ∃ o o', splitting.applyLookups (fun g _ => g == 2) 3 [0, 1] 60
            [Glyph.ofChar 'f' 4 [0], .ofChar 'x' 2 [1], .ofChar 'i' 5 [2]] = some o ∧
        splitting.applyLookups (fun g _ => g == 2) 3 [0, 1] 60
            [Glyph.ofId 4 (), .ofId 2 (), .ofId 5 ()] = some o' ∧
        o.result = .ok true ∧ o'.result = .ok true ∧
        o.run.gids = [46, 0, 2] ∧ o'.run.gids = [46, 0, 2] := by
  have hgids : Run.gids [Glyph.ofId 4 (), .ofId 2 (), .ofId 5 ()] =
      Run.gids [Glyph.ofChar 'f' 4 [0], .ofChar 'x' 2 [1], .ofChar 'i' 5 [2]] := rfl
  refine ⟨hgids, ?_⟩
  have hsame := (gids_decide splitting (fun g _ => g == 2) _ _ hgids).1 3 [0, 1] 60
  obtain ⟨o, ho, hresult, hleft⟩ : ∃ o, splitting.applyLookups (fun g _ => g == 2) 3 [0, 1] 60
      [Glyph.ofChar 'f' 4 [0], .ofChar 'x' 2 [1], .ofChar 'i' 5 [2]] = some o ∧
        o.result = .ok true ∧ o.run.gids = [46, 0, 2] := ⟨_, rfl, rfl, by decide⟩
  rw [ho] at hsame
  generalize splitting.applyLookups (fun g _ => g == 2) 3 [0, 1] 60
    [Glyph.ofId 4 (), .ofId 2 (), .ofId 5 ()] = outcome at hsame ⊢
  cases hsame with
  | @some _ o' h =>
    exact ⟨o, o', ho, rfl, hresult, h.result.trans hresult, hleft, h.gids.trans hleft⟩

end LookupList

end GlyphSubstitution
