/-!
# Shaping errors

The three ways in which building lookup tables or applying them can fail, the text shown for each,
and the one narrowing of numbers that can fail: `toWord` takes an integer to a 16-bit word and
refuses what a word cannot hold (`toWord_eq_ok_iff`).
-/

namespace GlyphSubstitution

/-- What is wrong with lookup data, or with the nesting of lookups. -/
inductive ShapingError where
  /-- A value that its place does not admit: a rule of the wrong kind, a number too large. -/
  | badValue
  /-- An index that names nothing. -/
  | badIndex
  /-- Contextual lookups invoked each other more deeply than allowed. -/
  | limitExceeded
  deriving DecidableEq, Repr

namespace ShapingError

/-- The text that tells a user what is wrong. -/
def message : ShapingError → String
  | badValue => "invalid value"
  | badIndex => "invalid data index"
  | limitExceeded => "limit exceeded"

end ShapingError

/-- Results are compared by the error they carry, or else by their value. -/
instance {β : Type _} [DecidableEq β] : DecidableEq (Except ShapingError β)
  | .ok a, .ok b => if h : a = b then isTrue (h ▸ rfl) else isFalse fun e => h (Except.ok.inj e)
  | .error a, .error b =>
    if h : a = b then isTrue (h ▸ rfl) else isFalse fun e => h (Except.error.inj e)
  | .ok _, .error _ => isFalse nofun
  | .error _, .ok _ => isFalse nofun

/-- The 16-bit word with the value of `n`; a number that does not fit is a bad value. -/
def toWord (n : Int) : Except ShapingError UInt16 :=
  if 0 ≤ n ∧ n.toNat < UInt16.size then .ok (UInt16.ofNat n.toNat) else .error .badValue

theorem toWord_eq_ok_iff {n : Int} {w : UInt16} : toWord n = .ok w ↔ n = w.toNat := by
  unfold toWord UInt16.size
  have hw := w.toNat_lt
  split
  · next h =>
    rw [Except.ok.injEq, ← UInt16.toNat_inj, UInt16.toNat_ofNat']
    omega
  · next h =>
    constructor
    · nofun
    · intro e
      omega

theorem toWord_eq_error_iff {n : Int} {e : ShapingError} :
    toWord n = .error e ↔ e = .badValue ∧ ¬ (0 ≤ n ∧ n.toNat < UInt16.size) := by
  unfold toWord
  split <;> simp_all [eq_comm]

end GlyphSubstitution
