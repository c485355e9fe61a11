import Mathlib.Logic.Relation
import GlyphSubstitution.Substitution.Pass

/-!
# The nested calls of a pass

What a pass does to a run is done by the lookups that it applies, and most of these are applied on
behalf of others.  This file names the applications.  `recordCalls` lists the calls that the records
of a rule make; it is what a recording applier records (`applyRecordsM_recording`).
`LookupList.callsMadeBy` lists the calls that answering one call makes, one level deeper, and
`LookupList.LeadsTo` follows them to all depths.  A scan goes from state to state by
`Scan.Reaches`, and `LookupList.AppliedDuring` puts the two together: every application of a lookup
at a position in the course of a pass, the pass's own visits included.
-/

namespace GlyphSubstitution

universe u

variable {α : Type u}

/-! ## Calls -/

/-- The calls that working off records makes, in order; after one that fails there are no more. -/
def recordCalls (nested : Applier α) (limit : Nat) :
    List SequenceLookup → Application α → List (NestedCall α)
  | [], _ => []
  | record :: rest, a =>
    match a.target? record with
    | none => recordCalls nested limit rest a
    | some index =>
      let call : NestedCall α := { lookup := record.lookupIndex.toNat, limit, index, run := a.run }
      call :: match (nested call).result with
        | .error _ => []
        | .ok changed =>
          recordCalls nested limit rest (a.afterCall record (nested call).run changed)

/-- The calls that the application of contextual subtables at position `i` makes. -/
def contextualCalls (nested : Applier α) (limit : Nat) (tables : List ContextSubtable)
    (f : GlyphFilter) (run : Run α) (i : Nat) : List (NestedCall α) :=
  match selectRule? tables f run.gids i with
  | none => []
  | some found => recordCalls nested limit found.records ⟨run, found.context.positions, false⟩

theorem contextualCalls_of_length_le (nested : Applier α) (limit : Nat)
    (tables : List ContextSubtable) (f : GlyphFilter) {run : Run α} {i : Nat}
    (h : run.length ≤ i) : contextualCalls nested limit tables f run i = [] := by
  have hnone : run.gids[i]? = none := List.getElem?_eq_none (by rw [Run.length_gids]; exact h)
  simp [contextualCalls, selectRule?, hnone]

/-- The applier that answers as another does and records each call. -/
def recording (nested : Applier α) : ApplierM (StateM (List (NestedCall α))) α :=
  fun call => do
    modify (· ++ [call])
    return nested call

theorem recordCalls_of_target?_eq_some {nested : Applier α} {limit index : Nat}
    {record : SequenceLookup} {rest : List SequenceLookup} {a : Application α}
    (h : a.target? record = some index) :
    recordCalls nested limit (record :: rest) a =
      ⟨record.lookupIndex.toNat, limit, index, a.run⟩ ::
        match (nested ⟨record.lookupIndex.toNat, limit, index, a.run⟩).result with
        | .error _ => []
        | .ok changed =>
          recordCalls nested limit rest
            (a.afterCall record (nested ⟨record.lookupIndex.toNat, limit, index, a.run⟩).run
              changed) := by
  rw [recordCalls, h]

/-- The calls are those that a recording applier gets to see, and recording changes no outcome. -/
theorem applyRecordsM_recording (nested : Applier α) (limit : Nat)
    (records : List SequenceLookup) (a : Application α) (log : List (NestedCall α)) :
    (applyRecordsM (recording nested) limit records a).run log =
      (applyRecords nested limit records a, log ++ recordCalls nested limit records a) := by
  induction records generalizing a log with
  | nil =>
    rw [recordCalls, List.append_nil]
    rfl
  | cons record rest ih =>
    rw [applyRecordsM, applyRecords_cons]
    cases htarget : a.target? record with
    | none =>
      rw [recordCalls, htarget]
      exact ih a log
    | some index =>
      rw [recordCalls_of_target?_eq_some htarget]
      have hlog : ∀ call : NestedCall α,
          (recording nested call).run log = (nested call, log ++ [call]) := fun _ => rfl
      dsimp only
      rw [StateT.run_bind, hlog]
      dsimp only [bind]
      cases hresult : (nested ⟨record.lookupIndex.toNat, limit, index, a.run⟩).result with
      | error e => rfl
      | ok changed =>
        dsimp only
        rw [ih, List.append_assoc]
        rfl

/-! ## Depth -/

variable [Payload α]

namespace LookupList

variable {list : LookupList} {skip : SkipPredicate} {call call' : NestedCall α}

/-- The calls that applying contextual subtables within a limit makes, one level deeper.  At the end
of the limit none are made. -/
def contextualCallsAt (list : LookupList) (skip : SkipPredicate) :
    Nat → List ContextSubtable → GlyphFilter → Run α → Nat → List (NestedCall α)
  | 0 => fun _ _ _ _ => []
  | limit + 1 => contextualCalls (list.applier skip) limit

/-- The calls that answering a call makes itself.  Only contextual lookups make any. -/
def callsMadeBy (list : LookupList) (skip : SkipPredicate) (call : NestedCall α) :
    List (NestedCall α) :=
  match list.lookup call.lookup with
  | .ok ⟨flag, .contextual _ tables⟩ =>
    list.contextualCallsAt skip call.limit tables (skip.filter flag) call.run call.index
  | _ => []

theorem callsMadeBy_of_not_isContextual {lookup : Lookup}
    (hlookup : list.lookup call.lookup = .ok lookup) (hkind : lookup.isContextual = false) :
    list.callsMadeBy skip call = [] := by
  obtain ⟨flag, subtables⟩ := lookup
  cases subtables with
  | contextual kind tables => nomatch hkind
  | _ => simp [callsMadeBy, hlookup]

theorem callsMadeBy_of_length_le (h : call.run.length ≤ call.index) :
    list.callsMadeBy skip call = [] := by
  unfold callsMadeBy
  split
  · cases call.limit with
    | zero => rfl
    | succ limit => exact contextualCalls_of_length_le _ limit _ _ h
  · rfl

/-- Answering the first call leads to the second, which it makes itself or on behalf of calls that
it makes; every call leads to itself. -/
def LeadsTo (list : LookupList) (skip : SkipPredicate) : NestedCall α → NestedCall α → Prop :=
  Relation.ReflTransGen fun call call' => call' ∈ list.callsMadeBy skip call

theorem leadsTo_iff :
    list.LeadsTo skip call call' ↔
      call' = call ∨ ∃ made ∈ list.callsMadeBy skip call, list.LeadsTo skip made call' :=
  Relation.ReflTransGen.cases_head_iff.trans (or_congr_left eq_comm)

/-- A property of some call that a call leads to is one of the call itself or of what the calls that
it makes lead to. -/
theorem exists_leadsTo_iff {P : NestedCall α → Prop} :
    (∃ call', list.LeadsTo skip call call' ∧ P call') ↔
      P call ∨
        ∃ made ∈ list.callsMadeBy skip call, ∃ call', list.LeadsTo skip made call' ∧ P call' := by
  constructor
  · intro ⟨call', hleads, hP⟩
    rcases leadsTo_iff.1 hleads with rfl | ⟨made, hmade, hmore⟩
    · exact Or.inl hP
    · exact Or.inr ⟨made, hmade, call', hmore, hP⟩
  · intro h
    rcases h with hP | ⟨made, hmade, call', hmore, hP⟩
    · exact ⟨call, Relation.ReflTransGen.refl, hP⟩
    · exact ⟨call', leadsTo_iff.2 (Or.inr ⟨made, hmade, hmore⟩), hP⟩

end LookupList

/-! ## Passes -/

namespace Scan

variable {f : GlyphFilter} {visit : Visit α} {s s' next : Scan α} {o : Outcome α Bool}

omit [Payload α]

/-- The scan goes from the first state to the second, in any number of steps. -/
def Reaches (f : GlyphFilter) (visit : Visit α) : Scan α → Scan α → Prop :=
  Relation.ReflTransGen fun s next => s.step f visit = .moved next

theorem reaches_of_stopped (h : s.step f visit = .stopped o) :
    Reaches f visit s s' ↔ s' = s := by
  rw [Reaches, Relation.ReflTransGen.cases_head_iff, h]
  constructor
  · intro hreaches
    rcases hreaches with heq | ⟨next, hnext, -⟩
    · exact heq.symm
    · nomatch hnext
  · intro heq
    exact Or.inl heq.symm

theorem reaches_of_moved (h : s.step f visit = .moved next) :
    Reaches f visit s s' ↔ s' = s ∨ Reaches f visit next s' := by
  rw [Reaches, Relation.ReflTransGen.cases_head_iff, h]
  constructor
  · intro hreaches
    rcases hreaches with heq | ⟨next', hnext, hmore⟩
    · exact Or.inl heq.symm
    · rw [ScanStep.moved.inj hnext]
      exact Or.inr hmore
  · intro hreaches
    rcases hreaches with heq | hmore
    · exact Or.inl heq.symm
    · exact Or.inr ⟨next, rfl, hmore⟩

end Scan

namespace LookupList

/-- What a pass does where it sees a glyph is a nested call that may go one level deeper than those
of its records. -/
theorem visit_eq_applyNested {list : LookupList} (skip : SkipPredicate) {k : Nat} {lookup : Lookup}
    (hlookup : list.lookup k = .ok lookup) {run : Run α} {i : Nat} (hi : i < run.length) :
    (list.visit skip lookup run i).map (·.any (·.changed)) =
      list.applyNested skip (list.recursionLimit + 1) k run i := by
  rw [applyNested_eq, hlookup]
  dsimp only
  rw [if_pos hi]
  rfl

/-- The call is made in the course of a pass over the run with lookup `k`: it is one of the pass's
own visits to the glyphs that it sees, or such a visit leads to it. -/
def AppliedDuring (list : LookupList) (skip : SkipPredicate) (k : Nat) (run : Run α)
    (call : NestedCall α) : Prop :=
  ∃ lookup s, list.lookup k = .ok lookup ∧
    Scan.Reaches (skip.filter lookup.flag) (list.visit skip lookup) { run } s ∧
    (skip.filter lookup.flag).seesAt s.run.gids s.cursor = true ∧
    list.LeadsTo skip ⟨k, list.recursionLimit + 1, s.cursor, s.run⟩ call

end LookupList

end GlyphSubstitution
