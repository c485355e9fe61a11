import GlyphSubstitution.Proofs.NestedCalls
import GlyphSubstitution.Proofs.UnseenGlyphs

/-!
# Calls that stray

A record is addressed to an input glyph, and input glyphs are seen.  But where a ligature has taken
in an input glyph, or a multiple substitution has removed one, the position that is kept for it may
come to stand on an unseen glyph, and a nested call does not ask whether its glyph is seen.  A call
`strays` if its lookup has a substitution for such a glyph.

This is the one way in which a pass can change the unseen glyphs of a run, provided that all lookups
of the list see the same glyphs and that the glyphs they put in are seen:
`unseen_applyLookup_iff`.  What a pass keeps is put together from what its calls keep, along the
records of a rule (`applyRecords_keepsUnseen`), down to the limit (`applyNested_keepsUnseen`) and
along the scan (`Scan.finish_keepsUnseen`).
-/

namespace GlyphSubstitution

universe u

variable {α : Type u}

namespace LookupList

/-- Whether the call has its lookup edit a glyph that the lookup does not see. -/
def strays (list : LookupList) (skip : SkipPredicate) (call : NestedCall α) : Bool :=
  match list.lookup call.lookup with
  | .error _ => false
  | .ok lookup =>
    let f := skip.filter lookup.flag
    !lookup.isContextual && !f.seesAt call.run.gids call.index &&
      lookup.selectsAt f call.run.gids call.index

variable {list : LookupList} {skip : SkipPredicate} {call : NestedCall α} {lookup : Lookup}

theorem strays_iff (hlookup : list.lookup call.lookup = .ok lookup)
    (hkind : lookup.isContextual = false) :
    list.strays skip call = true ↔
      (skip.filter lookup.flag).seesAt call.run.gids call.index = false ∧
        lookup.selectsAt (skip.filter lookup.flag) call.run.gids call.index = true := by
  simp [strays, hlookup, hkind]

theorem strays_of_error {e : ShapingError} (hlookup : list.lookup call.lookup = .error e) :
    list.strays skip call = false := by
  simp [strays, hlookup]

theorem strays_of_isContextual (hlookup : list.lookup call.lookup = .ok lookup)
    (hkind : lookup.isContextual = true) : list.strays skip call = false := by
  simp [strays, hlookup, hkind]

theorem strays_of_length_le (h : call.run.length ≤ call.index) :
    list.strays skip call = false := by
  unfold strays
  split
  · rfl
  · dsimp only
    rw [Lookup.selectsAt_of_length_le (by rw [Run.length_gids]; exact h), Bool.and_false]

end LookupList

/-! ## Records and scans -/

variable {f : GlyphFilter}

theorem applyRecords_keepsUnseen {nested : Applier α} {limit : Nat} {P : NestedCall α → Prop}
    (h : ∀ k i run, KeepsUnseen f run (nested ⟨k, limit, i, run⟩) (P ⟨k, limit, i, run⟩))
    (records : List SequenceLookup) (a : Application α) :
    KeepsUnseen f a.run (applyRecords nested limit records a)
      (∃ call ∈ recordCalls nested limit records a, P call) := by
  induction records generalizing a with
  | nil =>
    apply KeepsUnseen.of_unchanged
    · rfl
    · simp [recordCalls]
  | cons record rest ih =>
    rw [applyRecords_cons]
    cases htarget : a.target? record with
    | none =>
      rw [recordCalls, htarget]
      exact ih a
    | some index =>
      have hcall := h record.lookupIndex.toNat index a.run
      rw [recordCalls_of_target?_eq_some htarget]
      dsimp only
      generalize nested ⟨record.lookupIndex.toNat, limit, index, a.run⟩ = o at hcall ⊢
      obtain ⟨run, result⟩ := o
      cases result with
      | error e => exact hcall.congr (by simp)
      | ok changed =>
        have hrest := ih (a.afterCall record run changed)
        exact (hcall.trans hrest).congr (by simp)

theorem applyContextual_keepsUnseen {nested : Applier α} {limit : Nat} {P : NestedCall α → Prop}
    (h : ∀ k i run, KeepsUnseen f run (nested ⟨k, limit, i, run⟩) (P ⟨k, limit, i, run⟩))
    (tables : List ContextSubtable) (g : GlyphFilter) (run : Run α) (i : Nat) :
    KeepsUnseen f run (applyContextual nested limit tables g run i)
      (∃ call ∈ contextualCalls nested limit tables g run i, P call) := by
  rw [applyContextual_eq, contextualCalls]
  cases selectRule? tables g run.gids i with
  | none => exact KeepsUnseen.of_unchanged rfl (by simp)
  | some found =>
    have hrecords := applyRecords_keepsUnseen h found.records ⟨run, found.context.positions, false⟩
    exact hrecords.map _

namespace Scan

variable {visit : Visit α} {P : Run α → Nat → Prop}

/-- One step of a scan keeps what the visit that it makes keeps. -/
theorem step_keepsUnseen
    (h : ∀ run i, f.seesAt run.gids i = true → KeepsUnseen f run (visit run i) (P run i))
    (s : Scan α) :
    match s.step f visit with
    | .stopped o => KeepsUnseen f s.run o (f.seesAt s.run.gids s.cursor = true ∧ P s.run s.cursor)
    | .moved next =>
      KeepsUnseen f s.run (⟨next.run, .ok next.changed⟩ : Outcome α Bool)
        (f.seesAt s.run.gids s.cursor = true ∧ P s.run s.cursor) := by
  have hseesAt : f.seesAt s.run.gids s.cursor = s.run[s.cursor]?.any (f.sees ·.gid) := by
    rw [GlyphFilter.seesAt, Run.getElem?_gids, Option.any_map]
  rw [step_eq]
  cases hglyph : s.run[s.cursor]? with
  | none =>
    apply KeepsUnseen.of_unchanged
    · rfl
    · simp [hseesAt, hglyph]
  | some glyph =>
    dsimp only
    by_cases hsees : f.sees glyph.gid = true
    · have hthere : f.seesAt s.run.gids s.cursor = true := by
        rw [hseesAt, hglyph]
        exact hsees
      have hvisit := (h s.run s.cursor hthere).congr (and_iff_right hthere)
      rw [if_pos hsees, after]
      generalize visit s.run s.cursor = o at hvisit ⊢
      obtain ⟨run, result⟩ := o
      cases result with
      | error e => exact hvisit.map fun _ => false
      | ok applied =>
        cases applied with
        | none => exact hvisit.map fun _ => s.changed
        | some applied => exact hvisit.map fun _ => s.changed || applied.changed
    · rw [if_neg hsees]
      apply KeepsUnseen.of_unchanged
      · rfl
      · simp [hseesAt, hglyph, hsees]

/-- Where a scan stops, it keeps what its last step keeps. -/
theorem keepsUnseen_of_stopped
    (h : ∀ run i, f.seesAt run.gids i = true → KeepsUnseen f run (visit run i) (P run i))
    {s : Scan α} {o : Outcome α Bool} (hs : s.step f visit = .stopped o) :
    KeepsUnseen f s.run o
      (∃ s', Reaches f visit s s' ∧ f.seesAt s'.run.gids s'.cursor = true ∧
        P s'.run s'.cursor) := by
  have hstep := step_keepsUnseen h s
  rw [hs] at hstep
  refine hstep.congr ?_
  simp only [reaches_of_stopped hs, exists_eq_left]

/-- A scan keeps what the visits keep that it makes on its way. -/
theorem finish_keepsUnseen
    (h : ∀ run i, f.seesAt run.gids i = true → KeepsUnseen f run (visit run i) (P run i))
    {budget : Nat} {s : Scan α} {o : Outcome α Bool} (ho : finish f visit budget s = some o) :
    KeepsUnseen f s.run o
      (∃ s', Reaches f visit s s' ∧ f.seesAt s'.run.gids s'.cursor = true ∧
        P s'.run s'.cursor) := by
  induction budget generalizing s with
  | zero =>
    rw [finish_zero] at ho
    split at ho
    · nomatch ho
    · next hcursor =>
      have hend : s.step f visit = .stopped o := by
        rw [step_eq, List.getElem?_eq_none (Nat.not_lt.1 hcursor), ← Option.some.inj ho]
      exact keepsUnseen_of_stopped h hend
  | succ budget ih =>
    rw [finish_succ] at ho
    cases hs : s.step f visit with
    | stopped o' =>
      rw [hs] at ho
      rw [← Option.some.inj ho]
      exact keepsUnseen_of_stopped h hs
    | moved next =>
      have hstep := step_keepsUnseen h s
      rw [hs] at hstep ho
      have hrest := ih ho
      refine (hstep.trans hrest).congr ?_
      simp only [reaches_of_moved hs, or_and_right, exists_or, exists_eq_left]

end Scan

/-! ## Nested calls -/

variable [Payload α] {skip : SkipPredicate}

namespace LookupList

variable {list : LookupList} {call : NestedCall α} {flag : LookupFlag}

/-- Answering the call has some lookup edit a glyph that it does not see. -/
def LeadsAstray (list : LookupList) (skip : SkipPredicate) (call : NestedCall α) : Prop :=
  ∃ call', list.LeadsTo skip call call' ∧ list.strays skip call' = true

theorem leadsAstray_iff :
    list.LeadsAstray skip call ↔
      list.strays skip call = true ∨
        ∃ made ∈ list.callsMadeBy skip call, list.LeadsAstray skip made :=
  exists_leadsTo_iff

theorem not_leadsAstray (hmade : list.callsMadeBy skip call = [])
    (hstrays : list.strays skip call = false) : ¬ list.LeadsAstray skip call := by
  rw [leadsAstray_iff, hmade, hstrays]
  simp

theorem contextualAt_keepsUnseen {limit : Nat} {P : NestedCall α → Prop}
    (h : ∀ n, limit = n + 1 → ∀ k i (run : Run α),
      KeepsUnseen f run (list.applyNested skip n k run i) (P ⟨k, n, i, run⟩))
    (tables : List ContextSubtable) (g : GlyphFilter) (run : Run α) (i : Nat) :
    KeepsUnseen f run (list.contextualAt skip limit tables g run i)
      (∃ call ∈ list.contextualCallsAt skip limit tables g run i, P call) := by
  cases limit with
  | zero => exact KeepsUnseen.of_unchanged rfl (by simp [contextualCallsAt])
  | succ n =>
    have hcalls := h n rfl
    exact applyContextual_keepsUnseen hcalls tables g run i

/-- What a nested call keeps is decided by the calls that it leads to, if those one level deeper are
of that kind. -/
theorem applyNested_keepsUnseen_of (hflag : ∀ lookup ∈ list.lookups, lookup.flag = flag)
    (houtputs : ∀ g ∈ list.outputs, skip g flag = false) {limit : Nat}
    (h : ∀ n, limit = n + 1 → ∀ k i (run : Run α),
      KeepsUnseen (skip.filter flag) run (list.applyNested skip n k run i)
        (list.LeadsAstray skip ⟨k, n, i, run⟩)) (k : Nat) (run : Run α) (i : Nat) :
    KeepsUnseen (skip.filter flag) run (list.applyNested skip limit k run i)
      (list.LeadsAstray skip ⟨k, limit, i, run⟩) := by
  rw [applyNested_eq]
  cases hlookup : list.lookup k with
  | error e =>
    refine KeepsUnseen.of_unchanged rfl (not_leadsAstray ?_ (strays_of_error hlookup))
    simp [callsMadeBy, hlookup]
  | ok lookup =>
    dsimp only
    split
    · have hmem : lookup ∈ list.lookups := List.mem_of_getElem? (lookup_eq_ok_iff.1 hlookup)
      obtain rfl := hflag lookup hmem
      have hput := sees_of_mem_lookup_outputs houtputs hmem
      apply KeepsUnseen.map
      cases hkind : lookup.isContextual with
      | false =>
        have hmade : list.callsMadeBy skip ⟨k, limit, i, run⟩ = [] :=
          callsMadeBy_of_not_isContextual hlookup hkind
        refine (Lookup.applyAt_keepsUnseen hkind hput _ run i).congr ?_
        rw [leadsAstray_iff, hmade, strays_iff hlookup hkind]
        simp
      | true =>
        obtain ⟨flag, subtables⟩ := lookup
        cases subtables with
        | contextual kind tables =>
          refine (contextualAt_keepsUnseen h tables _ run i).congr ?_
          rw [leadsAstray_iff, strays_of_isContextual hlookup hkind, callsMadeBy, hlookup]
          simp
        | _ => simp [Lookup.isContextual] at hkind
    · next hi =>
      have hle : run.length ≤ i := Nat.not_lt.1 hi
      refine KeepsUnseen.of_unchanged rfl (not_leadsAstray ?_ (strays_of_length_le hle))
      exact callsMadeBy_of_length_le hle

/-- What a nested call keeps is decided by the calls that it leads to. -/
theorem applyNested_keepsUnseen (hflag : ∀ lookup ∈ list.lookups, lookup.flag = flag)
    (houtputs : ∀ g ∈ list.outputs, skip g flag = false) (limit k : Nat) (run : Run α) (i : Nat) :
    KeepsUnseen (skip.filter flag) run (list.applyNested skip limit k run i)
      (list.LeadsAstray skip ⟨k, limit, i, run⟩) := by
  induction limit generalizing k run i with
  | zero =>
    have hno : ∀ n, 0 ≠ n + 1 := fun n => (Nat.succ_ne_zero n).symm
    exact applyNested_keepsUnseen_of hflag houtputs (fun n hn => absurd hn (hno n)) k run i
  | succ limit ih =>
    refine applyNested_keepsUnseen_of hflag houtputs (fun n hn k i run => ?_) k run i
    rw [← Nat.succ.inj hn]
    exact ih k run i

/-! ## Passes -/

/-- What a pass keeps is decided by its visits. -/
theorem applyLookup_keepsUnseen_of (hflag : ∀ lookup ∈ list.lookups, lookup.flag = flag) {k : Nat}
    {P : Run α → Nat → Prop}
    (h : ∀ lookup, list.lookup k = .ok lookup → ∀ (run : Run α) i,
      (skip.filter flag).seesAt run.gids i = true →
        KeepsUnseen (skip.filter flag) run (list.visit skip lookup run i) (P run i))
    {budget : Nat} {run : Run α} {o : Outcome α Bool}
    (ho : list.applyLookup skip budget k run = some o) :
    KeepsUnseen (skip.filter flag) run o
      (∃ lookup s, list.lookup k = .ok lookup ∧
        Scan.Reaches (skip.filter lookup.flag) (list.visit skip lookup) { run } s ∧
        (skip.filter lookup.flag).seesAt s.run.gids s.cursor = true ∧ P s.run s.cursor) := by
  unfold applyLookup at ho
  cases hlookup : list.lookup k with
  | error e =>
    rw [hlookup] at ho
    refine KeepsUnseen.of_unchanged (by rw [← Option.some.inj ho]) ?_
    simp
  | ok lookup =>
    obtain rfl := hflag lookup (List.mem_of_getElem? (lookup_eq_ok_iff.1 hlookup))
    rw [hlookup] at ho
    refine (Scan.finish_keepsUnseen (h lookup hlookup) ho).congr ?_
    simp

/-- What a pass keeps is decided by the calls that are made in its course. -/
theorem applyLookup_keepsUnseen (hflag : ∀ lookup ∈ list.lookups, lookup.flag = flag)
    (houtputs : ∀ g ∈ list.outputs, skip g flag = false) {budget k : Nat} {run : Run α}
    {o : Outcome α Bool} (ho : list.applyLookup skip budget k run = some o) :
    KeepsUnseen (skip.filter flag) run o
      (∃ call, list.AppliedDuring skip k run call ∧ list.strays skip call = true) := by
  have hvisit : ∀ lookup, list.lookup k = .ok lookup → ∀ (run : Run α) i,
      (skip.filter flag).seesAt run.gids i = true →
        KeepsUnseen (skip.filter flag) run (list.visit skip lookup run i)
          (list.LeadsAstray skip ⟨k, list.recursionLimit + 1, i, run⟩) := by
    intro lookup hlookup run i hsees
    have hi : i < run.length := by
      rw [← Run.length_gids]
      exact GlyphFilter.lt_length_of_seesAt hsees
    have hnested := applyNested_keepsUnseen hflag houtputs (list.recursionLimit + 1) k run i
    rw [← visit_eq_applyNested skip hlookup hi] at hnested
    exact KeepsUnseen.of_map hnested
  refine (applyLookup_keepsUnseen_of hflag hvisit ho).congr ?_
  constructor
  · intro ⟨call, ⟨lookup, s, hlookup, hreaches, hsees, hleads⟩, hstrays⟩
    exact ⟨lookup, s, hlookup, hreaches, hsees, call, hleads, hstrays⟩
  · intro ⟨lookup, s, hlookup, hreaches, hsees, call, hleads, hstrays⟩
    exact ⟨call, ⟨lookup, s, hlookup, hreaches, hsees, hleads⟩, hstrays⟩

/-- Let all lookups of a list carry the same flag, and let the glyphs that they can put into a run
be seen under it.  A pass keeps the glyphs that are not seen, as they are and in order, exactly if
none of the calls made in its course strays.  If it is broken off because a number does not fit in a
word, one direction remains. -/
theorem unseen_applyLookup_iff (list : LookupList) (skip : SkipPredicate) {flag : LookupFlag}
    (hflag : ∀ lookup ∈ list.lookups, lookup.flag = flag)
    (houtputs : ∀ g ∈ list.outputs, skip g flag = false) {budget k : Nat} {run : Run α}
    {o : Outcome α Bool} (ho : list.applyLookup skip budget k run = some o) :
    ((∀ call, list.AppliedDuring skip k run call → list.strays skip call = false) →
        o.run.unseen (skip.filter flag) = run.unseen (skip.filter flag)) ∧
      (o.result ≠ .error .badValue →
        o.run.unseen (skip.filter flag) = run.unseen (skip.filter flag) →
          ∀ call, list.AppliedDuring skip k run call → list.strays skip call = false) := by
  have hkeeps := applyLookup_keepsUnseen hflag houtputs ho
  constructor
  · intro hnone
    refine hkeeps.same fun ⟨call, happlied, hstrays⟩ => ?_
    rw [hnone call happlied] at hstrays
    nomatch hstrays
  · intro hresult hsame call happlied
    refine eq_false_of_ne_true fun hstrays => ?_
    have hlt := (hkeeps.fewer ⟨call, happlied, hstrays⟩).resolve_right hresult
    rw [hsame] at hlt
    exact Nat.lt_irrefl _ hlt

/-- Lookup 2 asks, where a 5 follows a 4, for the ligature 45 at the 4 and then, at the 5, for what
makes a 2 a 9. -/
def straying : LookupList :=
  ofFaultless
    [⟨{}, .ligature [Coverage.ofList [(4, [⟨45, [5]⟩])]]⟩,
      ⟨{}, .single [Coverage.ofList [(2, 9)]]⟩,
      ⟨{}, .contextual .simple
        [⟨Coverage.ofList [(4, [.simple [5] [⟨0, 0⟩, ⟨1, 1⟩]])], by decide⟩]⟩]
    (by decide)

/-- The predicate under which no lookup sees glyph 2. -/
def skipTwo : SkipPredicate := fun g _ => g == 2

theorem skipTwo_of_mem_outputs_straying : ∀ g ∈ straying.outputs, skipTwo g {} = false := by
  have houtputs : straying.outputs = [45, 9] := by decide
  rw [houtputs]
  simp [skipTwo]

/-- The ligature takes in the 5, and the record for the 5 is carried out at the 2 before it. -/
theorem straying_loses_unseen :
    (∀ lookup ∈ straying.lookups, lookup.flag = {}) ∧
      (∀ g ∈ straying.outputs, skipTwo g {} = false) ∧
      straying.applyLookup skipTwo 2 2 [.ofId 4 (), .ofId 2 (), .ofId 5 ()] =
        some ⟨[(Glyph.ofId 4 ()).asLigature 45, .ofId 9 ()], .ok true⟩ ∧
      Run.unseen (skipTwo.filter {}) [Glyph.ofId 4 (), .ofId 2 (), .ofId 5 ()] = [.ofId 2 ()] ∧
      Run.unseen (skipTwo.filter {}) [(Glyph.ofId 4 ()).asLigature 45, .ofId 9 ()] = [] :=
  ⟨by decide, skipTwo_of_mem_outputs_straying, by decide, by decide, by decide⟩

/-- So some call that is made there strays. -/
theorem straying_makes_stray_call :
    (∀ lookup ∈ straying.lookups, lookup.flag = {}) ∧
      (∀ g ∈ straying.outputs, skipTwo g {} = false) ∧
      ¬ ∀ call, straying.AppliedDuring skipTwo 2 [.ofId 4 (), .ofId 2 (), .ofId 5 ()] call →
        straying.strays skipTwo call = false := by
  have hflag : ∀ lookup ∈ straying.lookups, lookup.flag = {} := by decide
  have houtputs := skipTwo_of_mem_outputs_straying
  have ho : straying.applyLookup skipTwo 2 2 [.ofId 4 (), .ofId 2 (), .ofId 5 ()] =
      some ⟨[(Glyph.ofId 4 ()).asLigature 45, .ofId 9 ()], .ok true⟩ := by decide
  refine ⟨hflag, houtputs, fun hnone => ?_⟩
  have hsame := (unseen_applyLookup_iff straying skipTwo hflag houtputs ho).1 hnone
  exact absurd hsame (by decide)

end LookupList

end GlyphSubstitution
