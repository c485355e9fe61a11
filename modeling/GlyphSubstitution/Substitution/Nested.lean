import GlyphSubstitution.Substitution.Contextual
import GlyphSubstitution.Substitution.Ligature
import GlyphSubstitution.Substitution.Replacement
import GlyphSubstitution.Table.LookupList

/-!
# Nested application

A lookup list answers nested calls from its own lookups.  Contextual lookups call each other,
perhaps in a circle, so each level of them lowers the limit by one, and a contextual lookup at limit
zero is refused; `LookupList.applyNested` recurses on the limit.  `applyNested_eq` says that the
calls below a nested call are answered by the list in the same way, through `LookupList.applier`.
-/

namespace GlyphSubstitution

universe u

variable {α : Type u} [Payload α]

/-- Applies the lookup at position `i`; `contextual` says how contextual subtables are applied. -/
def Lookup.applyAt (lookup : Lookup) (skip : SkipPredicate)
    (contextual : List ContextSubtable → GlyphFilter → Run α → Nat → Outcome α (Option Applied))
    (run : Run α) (i : Nat) : Outcome α (Option Applied) :=
  match lookup.subtables with
  | .single tables => applySingle tables run i
  | .multiple tables => applyMultiple tables run i
  | .ligature tables => applyLigature tables (skip.filter lookup.flag) run i
  | .contextual _ tables => contextual tables (skip.filter lookup.flag) run i

namespace LookupList

/-- Applies lookup `k` at position `i` on behalf of a contextual lookup, and tells whether anything
was substituted.  Whether the glyph there is seen is not asked.  Past the end of the run nothing is
done, whatever the lookup; contextual lookups may be invoked `limit` levels deep. -/
def applyNested (list : LookupList) (skip : SkipPredicate) (limit k : Nat) (run : Run α) (i : Nat) :
    Outcome α Bool :=
  match list.lookup k with
  | .error e => ⟨run, .error e⟩
  | .ok lookup =>
    if i < run.length then
      let contextual :=
        match limit with
        | 0 => fun _ _ run _ => ⟨run, .error .limitExceeded⟩
        | limit + 1 =>
          applyContextual
            (fun call => list.applyNested skip limit call.lookup call.run call.index) limit
      (lookup.applyAt skip contextual run i).map (·.any (·.changed))
    else ⟨run, .ok false⟩

/-- The list as the one who answers nested calls. -/
def applier (list : LookupList) (skip : SkipPredicate) : Applier α :=
  fun call => list.applyNested skip call.limit call.lookup call.run call.index

/-- How a nested call with limit `limit` applies contextual subtables: one level deeper, or not at
all. -/
def contextualAt (list : LookupList) (skip : SkipPredicate) :
    Nat → List ContextSubtable → GlyphFilter → Run α → Nat → Outcome α (Option Applied)
  | 0 => fun _ _ run _ => ⟨run, .error .limitExceeded⟩
  | limit + 1 => applyContextual (list.applier skip) limit

/-- A nested call applies its lookup with the list itself answering the calls below it. -/
theorem applyNested_eq (list : LookupList) (skip : SkipPredicate) (limit k : Nat) (run : Run α)
    (i : Nat) :
    list.applyNested skip limit k run i =
      match list.lookup k with
      | .error e => ⟨run, .error e⟩
      | .ok lookup =>
        if i < run.length then
          (lookup.applyAt skip (list.contextualAt skip limit) run i).map (·.any (·.changed))
        else ⟨run, .ok false⟩ := by
  cases limit with
  | zero => rw [applyNested]; rfl
  | succ limit =>
    rw [applyNested]
    congr 1
    funext lookup
    rw [contextualAt, applyContextual_congr]
    intro call hcall
    rw [applier, hcall]

end LookupList

end GlyphSubstitution
