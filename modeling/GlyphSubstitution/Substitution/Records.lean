import GlyphSubstitution.Substitution.Outcome
import GlyphSubstitution.Matching.Context
import GlyphSubstitution.Table.Rule

/-!
# Working off the records of a rule

Where a context is met, the records of its rule ask for lookups at input glyphs, one after another.
Each record becomes a `NestedCall` to whoever applies lookups, an `Applier`, and what the calls do
to the run is not restricted in any way.  Between them only the `Application` is kept: the run,
where the input glyphs now stand in it, and whether anything has changed.  `applyRecordsM` is for
appliers with effects of their own, in any monad, and `applyRecords` for those without.
-/

namespace GlyphSubstitution

universe u w

/-- The request to apply a lookup at the position `index` of a run, where `limit` levels of
contextual lookups are still allowed. -/
structure NestedCall (α : Type u) where
  lookup : Nat
  limit : Nat
  index : Nat
  run : Run α

/-- Whoever answers nested calls: the outcome tells whether something was substituted. -/
abbrev Applier (α : Type u) := NestedCall α → Outcome α Bool

/-- Whoever answers nested calls, with effects in `m` beside the outcome. -/
abbrev ApplierM (m : Type u → Type w) (α : Type u) := NestedCall α → m (Outcome α Bool)

/-- How far the records of a rule have been worked off: the run as they have left it, where the
input glyphs of the rule now stand, and whether anything has changed. -/
structure Application (α : Type u) where
  run : Run α
  positions : List Nat
  changed : Bool := false

namespace Application

variable {α : Type u}

/-- Where the record is to be carried out.  There is no such place if earlier records have removed
the end of the run that the glyph was in. -/
def target? (a : Application α) (record : SequenceLookup) : Option Nat :=
  a.positions[record.sequenceIndex.toNat]?.filter (· < a.run.length)

/-- How many glyphs more there are in `run`. -/
def growth (a : Application α) (run : Run α) : Int := (run.length : Int) - a.run.length

/-- What is left to go on with after the call for `record` returned `run` and told whether it had
`changed` anything.  A change of length is a change in any case. -/
def afterCall (a : Application α) (record : SequenceLookup) (run : Run α) (changed : Bool) :
    Application α where
  run := run
  positions := shiftAfter a.positions record.sequenceIndex.toNat (a.growth run)
  changed := a.changed || changed || run.length != a.run.length

end Application

variable {α : Type u}

/-- Works off the records in order.  A record without a target is left out; the first call that
fails ends it all. -/
def applyRecordsM {m : Type u → Type w} [Monad m] (nested : ApplierM m α) (limit : Nat) :
    List SequenceLookup → Application α → m (Outcome α Bool)
  | [], a => pure ⟨a.run, .ok a.changed⟩
  | record :: rest, a =>
    match a.target? record with
    | none => applyRecordsM nested limit rest a
    | some index => do
      let o ← nested { lookup := record.lookupIndex.toNat, limit, index, run := a.run }
      match o.result with
      | .error e => pure ⟨o.run, .error e⟩
      | .ok changed => applyRecordsM nested limit rest (a.afterCall record o.run changed)

/-- Works off the records in order, where the calls have no effects of their own. -/
def applyRecords (nested : Applier α) (limit : Nat) (records : List SequenceLookup)
    (a : Application α) : Outcome α Bool :=
  Id.run (applyRecordsM (m := Id) nested limit records a)

@[simp] theorem applyRecords_nil (nested : Applier α) (limit : Nat) (a : Application α) :
    applyRecords nested limit [] a = ⟨a.run, .ok a.changed⟩ := rfl

theorem applyRecords_cons (nested : Applier α) (limit : Nat) (record : SequenceLookup)
    (rest : List SequenceLookup) (a : Application α) :
    applyRecords nested limit (record :: rest) a =
      match a.target? record with
      | none => applyRecords nested limit rest a
      | some index =>
        let o := nested { lookup := record.lookupIndex.toNat, limit, index, run := a.run }
        match o.result with
        | .error e => ⟨o.run, .error e⟩
        | .ok changed => applyRecords nested limit rest (a.afterCall record o.run changed) := by
  simp only [applyRecords, applyRecordsM]
  cases a.target? record with
  | none => rfl
  | some index =>
    dsimp only [Id.run, bind, pure]
    split <;> rfl

/-- Only calls to lookups that records name are ever made, with the limit that is passed on. -/
theorem applyRecords_congr {nested nested' : Applier α} {limit : Nat}
    {records : List SequenceLookup}
    (h : ∀ record ∈ records, ∀ index run,
      nested ⟨record.lookupIndex.toNat, limit, index, run⟩ =
        nested' ⟨record.lookupIndex.toNat, limit, index, run⟩)
    (a : Application α) :
    applyRecords nested limit records a = applyRecords nested' limit records a := by
  induction records generalizing a with
  | nil => rfl
  | cons record rest ih =>
    have hrest := ih fun later hlater => h later (List.mem_cons_of_mem record hlater)
    rw [applyRecords_cons, applyRecords_cons]
    cases a.target? record with
    | none => exact hrest a
    | some index =>
      dsimp only
      rw [h record List.mem_cons_self]
      split
      · rfl
      · exact hrest _

end GlyphSubstitution
