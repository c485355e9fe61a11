import GlyphSubstitution.Glyph

/-!
# Mark filtering sets

A set of glyphs, kept in increasing order so that membership is a binary search.  `MarkSet.ofList`
accepts its glyphs in any order and with repetitions; `MarkSet.contains_ofList` says that a search
finds exactly the glyphs that were given.
-/

namespace GlyphSubstitution

/-- A set of glyphs in increasing order. -/
structure MarkSet where
  glyphs : Array GlyphId
  increasing : glyphs.toList.Pairwise (· < ·)

namespace MarkSet

/-! ## Construction -/

/-- Puts `g` at its place in a list in increasing order, unless it is there already. -/
def place (g : GlyphId) : List GlyphId → List GlyphId
  | [] => [g]
  | h :: rest =>
    if g < h then g :: h :: rest else if g = h then h :: rest else h :: place g rest

@[simp] theorem mem_place {g k : GlyphId} {glyphs : List GlyphId} :
    k ∈ place g glyphs ↔ k = g ∨ k ∈ glyphs := by
  induction glyphs with
  | nil => simp [place]
  | cons h rest ih =>
    unfold place
    split
    · simp
    · split
      · next hg => simp [hg]
      · simp only [List.mem_cons, ih]
        exact or_left_comm

theorem pairwise_place {g : GlyphId} {glyphs : List GlyphId} (h : glyphs.Pairwise (· < ·)) :
    (place g glyphs).Pairwise (· < ·) := by
  induction glyphs with
  | nil => simp [place]
  | cons k rest ih =>
    obtain ⟨hk, hrest⟩ := List.pairwise_cons.1 h
    unfold place
    split
    · next hlt =>
      refine List.pairwise_cons.2 ⟨fun x hx => ?_, h⟩
      rcases List.mem_cons.1 hx with rfl | hx
      · exact hlt
      · exact UInt16.lt_trans hlt (hk x hx)
    · next hlt =>
      split
      · exact h
      · next hne =>
        refine List.pairwise_cons.2 ⟨fun x hx => ?_, ih hrest⟩
        rcases mem_place.1 hx with rfl | hx
        · exact UInt16.lt_of_le_of_ne (UInt16.not_lt.1 hlt) fun e => hne e.symm
        · exact hk x hx

/-- The set of the glyphs of a list. -/
def ofList (glyphs : List GlyphId) : MarkSet where
  glyphs := (glyphs.foldr place []).toArray
  increasing := by
    induction glyphs with
    | nil => exact List.Pairwise.nil
    | cons g rest ih => exact pairwise_place ih

/-! ## Membership -/

/-- Whether `g` stands between the positions `lo` and `hi` of an increasing array, the second one
excluded.  Each step halves the stretch that is left. -/
def searchBetween (glyphs : Array GlyphId) (g : GlyphId) (lo hi : Nat) : Bool :=
  if _h : lo < hi then
    let mid := lo + (hi - lo) / 2
    match glyphs[mid]? with
    | none => false
    | some k =>
      if g = k then true
      else if g < k then searchBetween glyphs g lo mid
      else searchBetween glyphs g (mid + 1) hi
  else false
termination_by hi - lo
decreasing_by all_goals omega

/-- Whether the set holds the glyph. -/
def contains (set : MarkSet) (g : GlyphId) : Bool := searchBetween set.glyphs g 0 set.glyphs.size

theorem searchBetween_iff {glyphs : Array GlyphId} {g : GlyphId}
    (hsorted : glyphs.toList.Pairwise (· < ·)) {lo hi : Nat} (hhi : hi ≤ glyphs.size) :
    searchBetween glyphs g lo hi = true ↔ ∃ i, lo ≤ i ∧ i < hi ∧ glyphs[i]? = some g := by
  have hlt : ∀ (i j : Nat) (x y : GlyphId),
      i < j → glyphs[i]? = some x → glyphs[j]? = some y → x < y := by
    intro i j x y hij hx hy
    obtain ⟨hi, rfl⟩ := Array.getElem?_eq_some_iff.1 hx
    obtain ⟨hj, rfl⟩ := Array.getElem?_eq_some_iff.1 hy
    exact List.pairwise_iff_getElem.1 hsorted i j hi hj hij
  fun_induction searchBetween glyphs g lo hi with
  | case1 lo hi h mid hnone =>
    have : glyphs.size ≤ mid := by simpa using hnone
    omega
  | case2 lo hi h mid hsome => exact iff_of_true rfl ⟨mid, by omega, by omega, hsome⟩
  | case3 lo hi h mid k hsome hne hlt' ih =>
    refine (ih (by omega)).trans ?_
    constructor
    · rintro ⟨i, h₁, h₂, h₃⟩
      exact ⟨i, h₁, by omega, h₃⟩
    · rintro ⟨i, h₁, h₂, h₃⟩
      refine ⟨i, h₁, ?_, h₃⟩
      rcases Nat.lt_trichotomy i mid with hi | rfl | hi
      · exact hi
      · exact absurd (Option.some.inj (h₃.symm.trans hsome)) hne
      · exact absurd (UInt16.lt_trans hlt' (hlt _ _ _ _ hi hsome h₃)) (UInt16.lt_irrefl _)
  | case4 lo hi h mid k hsome hne hnlt ih =>
    refine (ih hhi).trans ?_
    constructor
    · rintro ⟨i, h₁, h₂, h₃⟩
      exact ⟨i, by omega, h₂, h₃⟩
    · rintro ⟨i, h₁, h₂, h₃⟩
      refine ⟨i, ?_, h₂, h₃⟩
      rcases Nat.lt_trichotomy i mid with hi | rfl | hi
      · exact absurd (hlt _ _ _ _ hi h₃ hsome) hnlt
      · exact absurd (Option.some.inj (h₃.symm.trans hsome)) hne
      · exact hi
  | case5 lo hi h =>
    constructor
    · nofun
    · rintro ⟨i, h₁, h₂, -⟩
      omega

/-- The search finds exactly the glyphs of the set. -/
theorem contains_iff {set : MarkSet} {g : GlyphId} : set.contains g = true ↔ g ∈ set.glyphs := by
  rw [contains, searchBetween_iff set.increasing (Nat.le_refl _), Array.mem_iff_getElem?]
  constructor
  · rintro ⟨i, -, -, h⟩
    exact ⟨i, h⟩
  · rintro ⟨i, h⟩
    exact ⟨i, Nat.zero_le _, (Array.getElem?_eq_some_iff.1 h).1, h⟩

@[simp] theorem contains_ofList {glyphs : List GlyphId} {g : GlyphId} :
    (ofList glyphs).contains g = true ↔ g ∈ glyphs := by
  rw [contains_iff, ofList, List.mem_toArray]
  induction glyphs with
  | nil => simp
  | cons k rest ih => simp [ih]

end MarkSet

end GlyphSubstitution
