import GlyphSubstitution.Glyph

/-!
# Coverage

A subtable covers some glyphs and holds one value for each of them.  A `Coverage` keeps one entry
for each covered glyph, in the order in which the glyphs were first mentioned.  Two ways of
building one from a list of pairs differ in what a repeated glyph means: with `ofList` the last pair
wins (`get?_ofList`), with `gather` the values are strung together (`getD_get?_gather`).
-/

namespace GlyphSubstitution

universe u v

theorem findSome?_congr {β : Type u} {γ : Type v} {f g : β → Option γ} {xs : List β}
    (h : ∀ x ∈ xs, f x = g x) : xs.findSome? f = xs.findSome? g := by
  induction xs with
  | nil => rfl
  | cons x rest ih =>
    rw [List.findSome?_cons, List.findSome?_cons, h x List.mem_cons_self,
      ih fun y hy => h y (List.mem_cons_of_mem x hy)]

/-- A value of type `β` for each of finitely many glyphs. -/
structure Coverage (β : Type u) where
  /-- The covered glyphs with their values. -/
  entries : List (GlyphId × β)
  nodup : (entries.map (·.1)).Nodup

namespace Coverage

variable {β : Type u}

/-- The value for a glyph, if it is covered. -/
def get? (c : Coverage β) (g : GlyphId) : Option β := c.entries.lookup g

/-- Whether the glyph is covered. -/
def covers (c : Coverage β) (g : GlyphId) : Bool := (c.get? g).isSome

/-- The value of the first of several coverages that covers the glyph. -/
def first? (cs : List (Coverage β)) (g : GlyphId) : Option β := cs.findSome? (·.get? g)

theorem lookup_cons_eq_ite (g k : GlyphId) (v : β) (rest : List (GlyphId × β)) :
    ((k, v) :: rest).lookup g = if g = k then some v else rest.lookup g := by
  rw [List.lookup_cons]
  by_cases h : g = k
  · simp [h]
  · rw [if_neg h, beq_false_of_ne h]

theorem get?_eq_some_iff {c : Coverage β} {g : GlyphId} {v : β} :
    c.get? g = some v ↔ (g, v) ∈ c.entries := by
  obtain ⟨entries, hnodup⟩ := c
  simp only [get?]
  induction entries with
  | nil => simp
  | cons entry rest ih =>
    obtain ⟨k, w⟩ := entry
    obtain ⟨hk, hrest⟩ := List.nodup_cons.1 hnodup
    rw [lookup_cons_eq_ite]
    by_cases hg : g = k
    · subst hg
      have : (g, v) ∉ rest := fun h => hk (List.mem_map.2 ⟨_, h, rfl⟩)
      simp [this, eq_comm]
    · simp [hg, ih hrest]

theorem exists_mem_of_first? {cs : List (Coverage β)} {g : GlyphId} {v : β}
    (h : first? cs g = some v) : ∃ c ∈ cs, (g, v) ∈ c.entries := by
  obtain ⟨c, hc, hget⟩ := List.exists_of_findSome?_eq_some h
  exact ⟨c, hc, get?_eq_some_iff.1 hget⟩

/-- What a coverage of lists holds for a glyph stands in the entry for the glyph. -/
theorem mem_getD_get?_iff {γ : Type u} {c : Coverage (List γ)} {g : GlyphId} {x : γ} :
    x ∈ (c.get? g).getD [] ↔ ∃ xs, (g, xs) ∈ c.entries ∧ x ∈ xs := by
  simp only [← get?_eq_some_iff]
  cases c.get? g <;> simp

/-- A glyph is covered exactly if it has an entry. -/
theorem covers_iff {c : Coverage β} {g : GlyphId} :
    c.covers g = true ↔ g ∈ c.entries.map (·.1) := by
  simp [covers, Option.isSome_iff_exists, get?_eq_some_iff]

/-! ## Construction -/

/-- Sets the value for `g` to what `f` makes of the value that it has so far. -/
def alterEntries (g : GlyphId) (f : Option β → β) : List (GlyphId × β) → List (GlyphId × β)
  | [] => [(g, f none)]
  | (k, v) :: rest => if k = g then (k, f (some v)) :: rest else (k, v) :: alterEntries g f rest

theorem mem_keys_alterEntries {g k : GlyphId} {f : Option β → β} {entries : List (GlyphId × β)} :
    k ∈ (alterEntries g f entries).map (·.1) ↔ k = g ∨ k ∈ entries.map (·.1) := by
  induction entries with
  | nil => simp [alterEntries]
  | cons entry rest ih =>
    unfold alterEntries
    split
    · next h => simp [h]
    · rw [List.map_cons, List.mem_cons, ih, List.map_cons, List.mem_cons]
      exact or_left_comm

theorem nodup_alterEntries {g : GlyphId} {f : Option β → β} {entries : List (GlyphId × β)}
    (h : (entries.map (·.1)).Nodup) : ((alterEntries g f entries).map (·.1)).Nodup := by
  induction entries with
  | nil => simp [alterEntries]
  | cons entry rest ih =>
    obtain ⟨hk, hrest⟩ := List.nodup_cons.1 h
    unfold alterEntries
    split
    · exact h
    · next hne =>
      refine List.nodup_cons.2 ⟨fun hmem => ?_, ih hrest⟩
      rcases mem_keys_alterEntries.1 hmem with rfl | hmem
      · exact hne rfl
      · exact hk hmem

/-- The coverage of no glyph. -/
def empty : Coverage β := ⟨[], List.nodup_nil⟩

/-- Sets the value for `g` to what `f` makes of the value that it has so far. -/
def alter (c : Coverage β) (g : GlyphId) (f : Option β → β) : Coverage β :=
  ⟨alterEntries g f c.entries, nodup_alterEntries c.nodup⟩

/-- The coverage in which the value for a glyph is the last one that is given for it. -/
def ofList (pairs : List (GlyphId × β)) : Coverage β :=
  pairs.foldl (fun c pair => c.alter pair.1 fun _ => pair.2) empty

/-- The coverage in which the value for a glyph is made up of all that are given for it, in
order. -/
def gather {γ : Type u} (pairs : List (GlyphId × List γ)) : Coverage (List γ) :=
  pairs.foldl (fun c pair => c.alter pair.1 fun known => known.getD [] ++ pair.2) empty

@[simp] theorem get?_empty (g : GlyphId) : (empty : Coverage β).get? g = none := rfl

theorem get?_alter (c : Coverage β) (g k : GlyphId) (f : Option β → β) :
    (c.alter g f).get? k = if k = g then some (f (c.get? g)) else c.get? k := by
  obtain ⟨entries, hnodup⟩ := c
  simp only [get?, alter]
  clear hnodup
  induction entries with
  | nil => by_cases h : k = g <;> simp [alterEntries, lookup_cons_eq_ite, h]
  | cons entry rest ih =>
    obtain ⟨e, v⟩ := entry
    by_cases he : e = g
    · subst he
      by_cases hk : k = e <;> simp [alterEntries, lookup_cons_eq_ite, hk]
    · by_cases hk : k = e
      · subst hk
        simp [alterEntries, he]
      · simp [alterEntries, lookup_cons_eq_ite, he, hk, ih, Ne.symm he]

/-- The last pair for a glyph decides. -/
theorem get?_ofList (pairs : List (GlyphId × β)) (g : GlyphId) :
    (ofList pairs).get? g = pairs.reverse.lookup g := by
  have : ∀ c : Coverage β,
      (pairs.foldl (fun c pair => c.alter pair.1 fun _ => pair.2) c).get? g =
        (pairs.reverse.lookup g).or (c.get? g) := by
    induction pairs with
    | nil => simp
    | cons pair rest ih =>
      obtain ⟨k, v⟩ := pair
      intro c
      rw [List.foldl_cons, ih, get?_alter, List.reverse_cons, List.lookup_append]
      by_cases hg : g = k <;> simp [lookup_cons_eq_ite, hg]
  simpa [ofList] using this empty

/-- All values that are given for a glyph count, in order. -/
theorem getD_get?_gather {γ : Type u} (pairs : List (GlyphId × List γ)) (g : GlyphId) :
    ((gather pairs).get? g).getD [] = (pairs.filter (·.1 == g)).flatMap (·.2) := by
  have : ∀ c : Coverage (List γ),
      ((pairs.foldl (fun c pair => c.alter pair.1 fun known => known.getD [] ++ pair.2) c).get?
        g).getD [] = (c.get? g).getD [] ++ (pairs.filter (·.1 == g)).flatMap (·.2) := by
    induction pairs with
    | nil => simp
    | cons pair rest ih =>
      obtain ⟨k, vs⟩ := pair
      intro c
      rw [List.foldl_cons, ih, get?_alter]
      by_cases hg : g = k
      · subst hg
        simp
      · simp [hg, Ne.symm hg]
  simpa [gather] using this empty

/-- A glyph is covered exactly if something is given for it. -/
theorem covers_gather {γ : Type u} (pairs : List (GlyphId × List γ)) (g : GlyphId) :
    (gather pairs).covers g = pairs.any (·.1 == g) := by
  have : ∀ c : Coverage (List γ),
      (pairs.foldl (fun c pair => c.alter pair.1 fun known => known.getD [] ++ pair.2) c).covers g =
        (c.covers g || pairs.any (·.1 == g)) := by
    induction pairs with
    | nil => simp
    | cons pair rest ih =>
      obtain ⟨k, vs⟩ := pair
      intro c
      rw [List.foldl_cons, ih, covers, get?_alter]
      by_cases hg : g = k
      · subst hg
        simp
      · simp [hg, beq_false_of_ne (Ne.symm hg), covers]
  simpa [gather, covers] using this empty

end Coverage

end GlyphSubstitution
