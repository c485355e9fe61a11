import GlyphSubstitution.Proofs.ContextRelation
import GlyphSubstitution.Proofs.MatchingByPosition
import GlyphSubstitution.Substitution.Pass

/-!
# Editing by position

A run can be edited in place: a glyph is fetched, replaced, removed or put in at a position, and
everything that a lookup does is a succession of such steps.  As in matching by position, a step at
a position that the run does not have is a fault, and a result `none` tells that there was one.

The passes of this kind are those of the library, and no fault ever occurs in them
(`ByPosition.applyLookup_eq`).  A ligature is formed by a walk that removes the components from the
run while it goes on in it; what it has passed over stands between the ligature and the place where
it goes on (`absorb_eq`).  The loops around single edits, for records and for the scan, are those of
the library, run with edits that may fault.
-/

namespace GlyphSubstitution

namespace ByPosition

universe u

variable {α : Type u}

/-! ## Steps -/

/-- Changes the glyph at position `i`. -/
def modify (run : Run α) (i : Nat) (change : Glyph α → Glyph α) : Option (Run α) := do
  let glyph ← run[i]?
  some (run.set i (change glyph))

/-- Removes the glyph at position `i`. -/
def remove (run : Run α) (i : Nat) : Option (Run α) :=
  if i < run.length then some (run.eraseIdx i) else none

/-- Puts glyphs in at position `i` and the positions after it, one after the other. -/
def insertAll (run : Run α) (i : Nat) : List (Glyph α) → Option (Run α)
  | [] => some run
  | glyph :: more =>
    if i ≤ run.length then insertAll (run.insertIdx i glyph) (i + 1) more else none

section Steps

variable (before : Run α) (glyph : Glyph α) (after : Run α)

theorem fetch_append : (before ++ glyph :: after)[before.length]? = some glyph := by
  simp

theorem set_append (glyph' : Glyph α) :
    (before ++ glyph :: after).set before.length glyph' = before ++ glyph' :: after := by
  simp

theorem eraseIdx_append : (before ++ glyph :: after).eraseIdx before.length = before ++ after := by
  rw [List.eraseIdx_append_of_length_le (Nat.le_refl _), Nat.sub_self, List.eraseIdx_cons_zero]

theorem modify_append (change : Glyph α → Glyph α) :
    modify (before ++ glyph :: after) before.length change =
      some (before ++ change glyph :: after) := by
  rw [modify, fetch_append]
  exact congrArg some (set_append before glyph after (change glyph))

theorem remove_append :
    remove (before ++ glyph :: after) before.length = some (before ++ after) := by
  rw [remove, if_pos (by simp), eraseIdx_append]

theorem insertIdx_append :
    (before ++ after).insertIdx before.length glyph = before ++ glyph :: after := by
  induction before with
  | nil => rfl
  | cons first before ih => simpa using ih

theorem insertAll_append (more : List (Glyph α)) :
    insertAll (before ++ after) before.length more = some (before ++ (more ++ after)) := by
  induction more generalizing before with
  | nil => rfl
  | cons glyph more ih =>
    have hrest := ih (before ++ [glyph])
    rw [List.length_append, List.append_assoc, List.append_assoc] at hrest
    rw [insertAll, if_pos (by simp), insertIdx_append]
    exact hrest

end Steps

/-! ## Single and multiple substitution -/

/-- Applies single subtables to the glyph at position `i`. -/
def applySingle (tables : List SingleSubtable) (run : Run α) (i : Nat) :
    Option (Outcome α (Option Applied)) := do
  let glyph ← run[i]?
  match Coverage.first? tables glyph.gid with
  | none => some ⟨run, .ok none⟩
  | some g => do
    let run ← modify run i (·.replaceBy g)
    some ⟨run, .ok (some { width := 1, changed := true })⟩

/-- Applies multiple subtables to the glyph at position `i`.  The duplicates are made before the
glyph is replaced, and put in after it. -/
def applyMultiple (tables : List MultipleSubtable) (run : Run α) (i : Nat) :
    Option (Outcome α (Option Applied)) := do
  let glyph ← run[i]?
  match Coverage.first? tables glyph.gid with
  | none => some ⟨run, .ok none⟩
  | some [] => do
    let run ← remove run i
    some ⟨run, .ok (some { width := 0, changed := true })⟩
  | some (g :: rest) => do
    let duplicates := rest.map glyph.duplicateAs
    let run ← modify run i (·.replaceBy g)
    let run ← insertAll run (i + 1) duplicates
    some ⟨run, .ok (some { width := rest.length + 1, changed := true })⟩

theorem applySingle_eq (tables : List SingleSubtable) {run : Run α} {i : Nat}
    (hi : i < run.length) :
    applySingle tables run i = some (GlyphSubstitution.applySingle tables run i) := by
  obtain ⟨before, glyph, after, rfl, rfl⟩ := exists_append_of_lt hi
  rw [applySingle, GlyphSubstitution.applySingle, fetch_append, editAt_append]
  dsimp only [Option.bind_eq_bind, Option.bind_some]
  cases Coverage.first? tables glyph.gid with
  | none => rfl
  | some g =>
    dsimp only
    rw [modify_append]
    rfl

theorem applyMultiple_eq (tables : List MultipleSubtable) {run : Run α} {i : Nat}
    (hi : i < run.length) :
    applyMultiple tables run i = some (GlyphSubstitution.applyMultiple tables run i) := by
  obtain ⟨before, glyph, after, rfl, rfl⟩ := exists_append_of_lt hi
  rw [applyMultiple, GlyphSubstitution.applyMultiple, fetch_append, editAt_append]
  dsimp only [Option.bind_eq_bind, Option.bind_some]
  cases Coverage.first? tables glyph.gid with
  | none => rfl
  | some gs =>
    cases gs with
    | nil =>
      dsimp only
      rw [remove_append]
      rfl
    | cons g rest =>
      have hinsert : insertAll (before ++ glyph.replaceBy g :: after) (before.length + 1)
          (rest.map glyph.duplicateAs) = some (before ++ (glyph.expand (g :: rest) ++ after)) := by
        simpa [Glyph.expand] using
          insertAll_append (before ++ [glyph.replaceBy g]) after (rest.map glyph.duplicateAs)
      dsimp only
      rw [modify_append]
      dsimp only [Option.bind_some]
      rw [hinsert]
      rfl

/-! ## Ligatures -/

section Ligatures

variable [Payload α]

/-- Goes on from position `index` until the glyph at position `i` has taken in `wanted` components,
of which it has `taken` already, or the run ends.  A component is removed from the run and taken in;
any other glyph is told how many were taken before it and passed over. -/
def absorb (f : GlyphFilter) (wanted i taken index passed : Nat) (run : Run α) :
    Option (Outcome α Nat) :=
  if taken < wanted ∧ index < run.length then
    match run[index]? with
    | none => none
    | some glyph =>
      if f.sees glyph.gid then
        match (run.eraseIdx index)[i]? with
        | none => none
        | some head =>
          absorb f wanted i (taken + 1) index passed
            ((run.eraseIdx index).set i (head.absorb glyph))
      else
        match toWord taken with
        | .error e => some ⟨run, .error e⟩
        | .ok place =>
          absorb f wanted i taken (index + 1) (passed + 1)
            (run.set index { glyph with ligatureComponent := place })
  else some ⟨run, .ok passed⟩
termination_by run.length - index
decreasing_by
  · rw [List.length_set, List.length_eraseIdx]
    split <;> omega
  · rw [List.length_set]
    omega

/-- Forms a ligature at position `i`, and counts the glyphs passed over. -/
def fuse (ligature : Ligature) (f : GlyphFilter) (run : Run α) (i : Nat) :
    Option (Outcome α Nat) := do
  let o ← absorb f ligature.components.length i 0 (i + 1) 0 run
  match o.result with
  | .error e => some ⟨o.run, .error e⟩
  | .ok passed => do
    let run ← modify o.run i (·.asLigature ligature.glyph)
    some ⟨run, .ok passed⟩

/-- Applies ligature subtables at position `i`. -/
def applyLigature (tables : List LigatureSubtable) (f : GlyphFilter) (run : Run α) (i : Nat) :
    Option (Outcome α (Option Applied)) :=
  (selectLigature tables f run.gids i).bind fun selected =>
    match selected with
    | none => some ⟨run, .ok none⟩
    | some ligature =>
      (fuse ligature f run i).map
        (·.map fun passed => some { width := passed + 1, changed := true })

/-- The glyphs passed over so far stand between the glyph that takes in the components and the place
where the walk goes on. -/
theorem absorb_eq (f : GlyphFilter) (wanted taken passed : Nat) (before : Run α) (head : Glyph α)
    (between rest : Run α) :
    absorb f wanted before.length taken (before.length + 1 + between.length) passed
        (before ++ head :: (between ++ rest)) =
      some ⟨before ++ (absorbFrom f wanted taken head rest).head ::
          (between ++ (absorbFrom f wanted taken head rest).rest),
        (absorbFrom f wanted taken head rest).passed.map (passed + ·)⟩ := by
  have hsplit : ∀ (head : Glyph α) (between rest : Run α),
      before ++ head :: (between ++ rest) = before ++ head :: between ++ rest := by simp
  have hindex : ∀ (head : Glyph α) (between : Run α),
      before.length + 1 + between.length = (before ++ head :: between).length := by
    intro head between
    rw [List.length_append, List.length_cons]
    omega
  induction rest generalizing taken passed head between with
  | nil =>
    rw [absorb, if_neg (by rw [hindex head between]; simp)]
    simp [absorbFrom, Except.map]
  | cons glyph rest ih =>
    rw [absorb, absorbFrom]
    by_cases hdone : wanted ≤ taken
    · rw [if_neg (by omega), if_pos hdone]
      rfl
    · have hfetch : (before ++ head :: (between ++ glyph :: rest))[before.length + 1 +
          between.length]? = some glyph := by
        rw [hsplit, hindex head between, fetch_append]
      rw [if_pos ⟨by omega, (List.getElem?_eq_some_iff.1 hfetch).1⟩, hfetch, if_neg hdone]
      dsimp only
      by_cases hsees : f.sees glyph.gid = true
      · -- the component is taken out of the run and the walk stays where it is
        have herase : (before ++ head :: (between ++ glyph :: rest)).eraseIdx
            (before.length + 1 + between.length) = before ++ head :: (between ++ rest) := by
          rw [hsplit, hindex head between, eraseIdx_append, hsplit]
        rw [if_pos hsees, if_pos hsees, herase, fetch_append]
        dsimp only
        rw [set_append]
        exact ih (taken + 1) passed (head.absorb glyph) between
      · rw [if_neg hsees, if_neg hsees]
        cases toWord taken with
        | error e => rfl
        | ok place =>
          -- the glyph joins those between the head and the place of the walk
          have hset : (before ++ head :: (between ++ glyph :: rest)).set
              (before.length + 1 + between.length) { glyph with ligatureComponent := place } =
              before ++ head :: (between ++ [{ glyph with ligatureComponent := place }] ++ rest) := by
            rw [hsplit, hindex head between, set_append]
            simp
          have hrest := ih taken (passed + 1) head
            (between ++ [{ glyph with ligatureComponent := place }])
          rw [List.length_append] at hrest
          dsimp only
          rw [hset]
          refine hrest.trans ?_
          cases (absorbFrom f wanted taken head rest).passed with
          | error e => simp [Except.map]
          | ok further => simp [Except.map, Nat.add_assoc, Nat.add_comm 1]

theorem fuse_eq (ligature : Ligature) (f : GlyphFilter) (before : Run α) (head : Glyph α)
    (rest : Run α) :
    fuse ligature f (before ++ head :: rest) before.length =
      some ⟨before ++ (ligature.fuse f head rest).run, (ligature.fuse f head rest).result⟩ := by
  have habsorb := absorb_eq f ligature.components.length 0 0 before head [] rest
  rw [List.length_nil, List.nil_append, List.nil_append, Nat.add_zero] at habsorb
  rw [fuse, habsorb, Ligature.fuse]
  dsimp only [Option.bind_eq_bind, Option.bind_some]
  cases (absorbFrom f ligature.components.length 0 head rest).passed with
  | error e => rfl
  | ok passed =>
    dsimp only [Except.map]
    rw [modify_append, Nat.zero_add]
    rfl

theorem applyLigature_eq (tables : List LigatureSubtable) (f : GlyphFilter) {run : Run α} {i : Nat}
    (hi : i < run.length) :
    applyLigature tables f run i = some (GlyphSubstitution.applyLigature tables f run i) := by
  rw [applyLigature, selectLigature_eq tables f (by rw [Run.length_gids]; exact hi),
    GlyphSubstitution.applyLigature]
  obtain ⟨before, head, rest, rfl, rfl⟩ := exists_append_of_lt hi
  rw [editAt_append]
  dsimp only [Option.bind_some]
  cases selectLigature? tables f (Run.gids (before ++ head :: rest)) before.length with
  | none => rfl
  | some ligature =>
    dsimp only [Option.map_some]
    rw [fuse_eq]
    cases hresult : (ligature.fuse f head rest).result <;>
      simp [Outcome.map, Except.map, hresult]

end Ligatures

/-! ## Rules -/

/-- How many places of the run a match takes up.  That its end lies before its start is a fault. -/
def matchLength (m : ContextMatch) : Option Nat :=
  if m.start ≤ m.last then some m.length else none

/-- Applies contextual subtables at position `i`, where nested calls may fault. -/
def applyContextual (nested : ApplierM Option α) (limit : Nat) (tables : List ContextSubtable)
    (f : GlyphFilter) (run : Run α) (i : Nat) : Option (Outcome α (Option Applied)) :=
  (selectRule tables f run.gids i).bind fun selected =>
    match selected with
    | none => some ⟨run, .ok none⟩
    | some found =>
      (matchLength found.context).bind fun width =>
        (applyRecordsM nested limit found.records { run, positions := found.context.positions }).map
          (·.map fun changed => some { width, changed })

theorem matchLength_eq {pattern : ContextPattern} {f : GlyphFilter} {gids : List GlyphId} {i : Nat}
    {m : ContextMatch} (h : pattern.match? f gids i = some m) : matchLength m = some m.length := by
  have hstart : m.start = i := by
    obtain ⟨-, rfl⟩ := ContextPattern.match?_eq_some_iff_metAt.1 h
    rfl
  have hlast : i ≤ m.last := ContextPattern.last_eq_reached h ▸ GlyphFilter.le_reached
  rw [matchLength, if_pos (by rw [hstart]; exact hlast)]

/-- If no nested call faults, no record does. -/
theorem applyRecordsM_eq {nested : Applier α} {nested' : ApplierM Option α} {limit : Nat}
    (h : ∀ k i run, nested' ⟨k, limit, i, run⟩ = some (nested ⟨k, limit, i, run⟩))
    (records : List SequenceLookup) (a : Application α) :
    applyRecordsM nested' limit records a = some (applyRecords nested limit records a) := by
  induction records generalizing a with
  | nil => rfl
  | cons record rest ih =>
    rw [applyRecordsM, applyRecords_cons]
    cases a.target? record with
    | none => exact ih a
    | some index =>
      dsimp only
      rw [h]
      dsimp only [Option.bind_eq_bind, Option.bind_some]
      split
      · rfl
      · exact ih _

theorem applyContextual_eq {nested : Applier α} {nested' : ApplierM Option α} {limit : Nat}
    (h : ∀ k i run, nested' ⟨k, limit, i, run⟩ = some (nested ⟨k, limit, i, run⟩))
    (tables : List ContextSubtable) (f : GlyphFilter) (run : Run α) (i : Nat) :
    applyContextual nested' limit tables f run i =
      some (GlyphSubstitution.applyContextual nested limit tables f run i) := by
  rw [applyContextual, selectRule_eq, GlyphSubstitution.applyContextual_eq]
  dsimp only [Option.bind_some]
  cases hfound : selectRule? tables f run.gids i with
  | none => rfl
  | some found =>
    obtain ⟨-, -, rule, -, hmatch, -⟩ := exists_rule_of_selectRule? hfound
    dsimp only
    rw [matchLength_eq hmatch, applyRecordsM_eq h]
    rfl

/-! ## Scans -/

/-- If no visit inside the run faults, no scan does. -/
theorem finishM_eq {f : GlyphFilter} {visit : Visit α} {visit' : VisitM Option α}
    (h : ∀ run i, i < run.length → visit' run i = some (visit run i)) (budget : Nat) (s : Scan α) :
    s.finishM f visit' budget = some (s.finish f visit budget) := by
  have hstep : ∀ s : Scan α, s.stepM f visit' = some (s.step f visit) := by
    intro s
    rw [Scan.stepM, Scan.step_eq]
    cases hglyph : s.run[s.cursor]? with
    | none => rfl
    | some glyph =>
      dsimp only
      split
      · rw [h _ _ (List.getElem?_eq_some_iff.1 hglyph).1]
        rfl
      · rfl
  induction budget generalizing s with
  | zero => rfl
  | succ budget ih =>
    rw [Scan.finishM, Scan.finish_succ, hstep]
    dsimp only [Option.bind_eq_bind, Option.bind_some]
    split
    · rfl
    · exact ih _

/-! ## Lookups of a list -/

variable [Payload α]

/-- Applies the lookup at position `i`; `contextual` says how contextual subtables are applied. -/
def applyAt (lookup : Lookup) (skip : SkipPredicate)
    (contextual :
      List ContextSubtable → GlyphFilter → Run α → Nat → Option (Outcome α (Option Applied)))
    (run : Run α) (i : Nat) : Option (Outcome α (Option Applied)) :=
  match lookup.subtables with
  | .single tables => applySingle tables run i
  | .multiple tables => applyMultiple tables run i
  | .ligature tables => applyLigature tables (skip.filter lookup.flag) run i
  | .contextual _ tables => contextual tables (skip.filter lookup.flag) run i

/-- Applies lookup `k` at position `i` on behalf of a contextual lookup. -/
def applyNested (list : LookupList) (skip : SkipPredicate) (limit k : Nat) (run : Run α) (i : Nat) :
    Option (Outcome α Bool) :=
  match list.lookup k with
  | .error e => some ⟨run, .error e⟩
  | .ok lookup =>
    if i < run.length then
      let contextual :=
        match limit with
        | 0 => fun _ _ run _ => some ⟨run, .error .limitExceeded⟩
        | limit + 1 =>
          applyContextual
            (fun call => applyNested list skip limit call.lookup call.run call.index) limit
      (applyAt lookup skip contextual run i).map (·.map (·.any (·.changed)))
    else some ⟨run, .ok false⟩

/-- Scans the run with lookup `k`. -/
def applyLookup (list : LookupList) (skip : SkipPredicate) (budget k : Nat) (run : Run α) :
    Option (Option (Outcome α Bool)) :=
  match list.lookup k with
  | .error e => some (some ⟨run, .error e⟩)
  | .ok lookup =>
    let nested : ApplierM Option α := fun call =>
      applyNested list skip call.limit call.lookup call.run call.index
    let visit := applyAt lookup skip (applyContextual nested list.recursionLimit)
    scanM (skip.filter lookup.flag) visit budget run

theorem applyAt_eq {lookup : Lookup} {skip : SkipPredicate} {run : Run α} {i : Nat}
    (hi : i < run.length)
    {contextual : List ContextSubtable → GlyphFilter → Run α → Nat → Outcome α (Option Applied)}
    {contextual' :
      List ContextSubtable → GlyphFilter → Run α → Nat → Option (Outcome α (Option Applied))}
    (h : ∀ tables f, contextual' tables f run i = some (contextual tables f run i)) :
    applyAt lookup skip contextual' run i = some (lookup.applyAt skip contextual run i) := by
  obtain ⟨flag, subtables⟩ := lookup
  cases subtables with
  | single tables => exact applySingle_eq tables hi
  | multiple tables => exact applyMultiple_eq tables hi
  | ligature tables => exact applyLigature_eq tables _ hi
  | contextual kind tables => exact h tables _

/-- No nested call faults. -/
theorem applyNested_eq (list : LookupList) (skip : SkipPredicate) (limit k : Nat) (run : Run α)
    (i : Nat) : applyNested list skip limit k run i = some (list.applyNested skip limit k run i) := by
  induction limit generalizing k run i with
  | zero =>
    rw [applyNested, LookupList.applyNested_eq]
    cases list.lookup k with
    | error e => rfl
    | ok lookup =>
      have hrefused : ∀ (tables : List ContextSubtable) (f : GlyphFilter),
          some ⟨run, .error .limitExceeded⟩ = some (list.contextualAt skip 0 tables f run i) :=
        fun _ _ => rfl
      dsimp only
      split
      · next hi => exact congrArg _ (applyAt_eq hi hrefused)
      · rfl
  | succ limit ih =>
    rw [applyNested, LookupList.applyNested_eq]
    cases list.lookup k with
    | error e => rfl
    | ok lookup =>
      have hdeeper : ∀ (tables : List ContextSubtable) (f : GlyphFilter),
          applyContextual
              (fun call => applyNested list skip limit call.lookup call.run call.index) limit
              tables f run i =
            some (list.contextualAt skip (limit + 1) tables f run i) :=
        fun tables f => applyContextual_eq (fun k i run => ih k run i) tables f run i
      dsimp only
      split
      · next hi => exact congrArg _ (applyAt_eq hi hdeeper)
      · rfl

/-- No pass faults. -/
theorem applyLookup_eq (list : LookupList) (skip : SkipPredicate) (budget k : Nat) (run : Run α) :
    applyLookup list skip budget k run = some (list.applyLookup skip budget k run) := by
  rw [applyLookup, LookupList.applyLookup]
  cases list.lookup k with
  | error e => rfl
  | ok lookup =>
    refine finishM_eq (fun run i hi => applyAt_eq hi fun tables f => ?_) budget { run }
    exact applyContextual_eq
      (fun k i run => applyNested_eq list skip list.recursionLimit k run i) tables f run i

end ByPosition

end GlyphSubstitution
