import Cryptomeria.Client.Persist

/-!
# Positions in a level

A level of OKX is an array `[price, size, ...]` of texts. `parse_levels` first drops what is no
text, and `parse_level` takes the first two of what is left, so a number or a null before them lets
later elements move up. `respectsPositions_iff` says for which arrays that makes no difference.
-/

set_option autoImplicit false

namespace Cryptomeria
namespace Okx

/-- Price and size at their positions in the array. -/
def levelAt (v : Value) : Option (F64 × F64) := do
  let a ← v.asArray
  let price ← (a[0]?.bind Value.asStr).bind parseF64
  let size ← (a[1]?.bind Value.asStr).bind parseF64
  return (price, size)

/-- The book gets the levels at their positions, in the order of the arrays, and nothing from an
array that has none there. -/
structure RespectsPositions (data : Value) (key : String) : Prop where
  inOrder : (parseLevels data key).filterMap parseLevel = (data.elements key).filterMap levelAt
  nothing : ∀ v ∈ data.elements key, levelAt v = none → deliver v = none

/-- Where the first two texts of an array are numbers, no other element stands before them. -/
def Straight (a : List Value) : Prop :=
  ∀ p q rest, a.filterMap Value.asStr = p :: q :: rest →
    (parseF64 p).isSome = true → (parseF64 q).isSome = true →
      a[0]? = some (.string p) ∧ a[1]? = some (.string q)

theorem filterMap_parseLevels (data : Value) (key : String) :
    (parseLevels data key).filterMap parseLevel = (data.elements key).filterMap deliver := by
  rw [parseLevels, Value.elements]
  cases (data.get key).bind Value.asArray with
  | none => rfl
  | some arr =>
    rw [Option.map_some, Option.getD_some, Option.getD_some, List.filterMap_filterMap]
    rfl

theorem pair_eq_some_iff {x y : Option F64} {e : F64 × F64} :
    (x.bind fun price => y.bind fun size => some (price, size)) = some e ↔
      x = some e.1 ∧ y = some e.2 := by
  cases x <;> cases y <;> simp [Prod.ext_iff]

theorem asStr_eq_some_iff {v : Value} {s : String} : v.asStr = some s ↔ v = .string s := by
  cases v <;> simp [Value.asStr]

/-- What the book gets of a level: its first two texts, wherever they stand. -/
theorem deliver_eq_some_iff {v : Value} {e : F64 × F64} :
    deliver v = some e ↔ ∃ a p q rest, v = .array a ∧ a.filterMap Value.asStr = p :: q :: rest ∧
      parseF64 p = some e.1 ∧ parseF64 q = some e.2 := by
  cases v with
  | array a =>
    have hdeliver : deliver (.array a) = parseLevel (a.filterMap Value.asStr) := rfl
    rw [hdeliver]
    constructor
    · intro h
      cases htexts : a.filterMap Value.asStr with
      | nil => simp [htexts, parseLevel] at h
      | cons p tail =>
        cases tail with
        | nil => simp [htexts, parseLevel] at h
        | cons q rest =>
          rw [htexts] at h
          exact ⟨a, p, q, rest, rfl, htexts, pair_eq_some_iff.mp h⟩
    · rintro ⟨_, p, q, rest, ⟨⟩, htexts, hparse⟩
      rw [htexts]
      exact pair_eq_some_iff.mpr hparse
  | _ => simp [deliver, Value.asArray]

theorem levelAt_eq_some_iff {v : Value} {e : F64 × F64} :
    levelAt v = some e ↔ ∃ p q rest, v = .array (.string p :: .string q :: rest) ∧
      parseF64 p = some e.1 ∧ parseF64 q = some e.2 := by
  constructor
  · intro h
    obtain ⟨a, ha, h⟩ := Option.bind_eq_some_iff.mp h
    obtain ⟨hprice, hsize⟩ := pair_eq_some_iff.mp h
    obtain ⟨p, hp, hparse⟩ := Option.bind_eq_some_iff.mp hprice
    obtain ⟨q, hq, hparse'⟩ := Option.bind_eq_some_iff.mp hsize
    obtain ⟨v₀, h₀, hv₀⟩ := Option.bind_eq_some_iff.mp hp
    obtain ⟨v₁, h₁, hv₁⟩ := Option.bind_eq_some_iff.mp hq
    rw [asStr_eq_some_iff.mp hv₀] at h₀
    rw [asStr_eq_some_iff.mp hv₁] at h₁
    cases v with
    | array elems =>
      obtain rfl := Option.some.inj ha
      cases elems with
      | nil => cases h₀
      | cons x tail =>
        cases tail with
        | nil => cases h₁
        | cons y rest =>
          obtain rfl := Option.some.inj h₀
          obtain rfl := Option.some.inj h₁
          exact ⟨p, q, rest, rfl, hparse, hparse'⟩
    | _ => cases ha
  · rintro ⟨p, q, rest, rfl, hparse⟩
    exact pair_eq_some_iff.mpr hparse

/-- A level at its positions is delivered. -/
theorem deliver_of_levelAt {v : Value} {e : F64 × F64} (h : levelAt v = some e) :
    deliver v = some e := by
  obtain ⟨p, q, rest, rfl, hparse⟩ := levelAt_eq_some_iff.mp h
  exact deliver_eq_some_iff.mpr ⟨_, p, q, rest.filterMap Value.asStr, rfl, rfl, hparse⟩

/-- An array delivers nothing but what stands at its positions if and only if it is straight. -/
theorem nothing_iff_straight {a : List Value} :
    (levelAt (.array a) = none → deliver (.array a) = none) ↔ Straight a := by
  constructor
  · intro h p q rest htexts hp hq
    obtain ⟨x, hx⟩ := Option.isSome_iff_exists.mp hp
    obtain ⟨y, hy⟩ := Option.isSome_iff_exists.mp hq
    have hdeliver : deliver (.array a) = some (x, y) :=
      deliver_eq_some_iff.mpr ⟨a, p, q, rest, rfl, htexts, hx, hy⟩
    cases hlevel : levelAt (.array a) with
    | none => rw [h hlevel] at hdeliver; cases hdeliver
    | some e =>
      obtain ⟨p', q', rest', ha, -⟩ := levelAt_eq_some_iff.mp hlevel
      obtain rfl := Value.array.inj ha
      -- its first two elements are the first two texts
      obtain ⟨rfl, hrest⟩ := List.cons.inj htexts
      obtain ⟨rfl, -⟩ := List.cons.inj hrest
      exact ⟨rfl, rfl⟩
  · intro hstraight hlevel
    rw [Option.eq_none_iff_forall_ne_some]
    intro e he
    obtain ⟨_, p, q, rest, ⟨⟩, htexts, hp, hq⟩ := deliver_eq_some_iff.mp he
    obtain ⟨h₀, h₁⟩ := hstraight p q rest htexts (by simp [hp]) (by simp [hq])
    have hfound : levelAt (.array a) = some e := by
      refine pair_eq_some_iff.mpr ⟨?_, ?_⟩
      · rw [h₀]
        exact hp
      · rw [h₁]
        exact hq
    rw [hfound] at hlevel
    cases hlevel

/-- **When the positions are respected**: for every JSON value and every key, if and only if all
arrays under the key are straight. -/
theorem respectsPositions_iff (data : Value) (key : String) :
    RespectsPositions data key ↔ ∀ a, .array a ∈ data.elements key → Straight a := by
  constructor
  · intro h a ha
    exact nothing_iff_straight.mp (h.nothing _ ha)
  · intro h
    have hnothing : ∀ v ∈ data.elements key, levelAt v = none → deliver v = none := by
      intro v hv
      cases v with
      | array a => exact nothing_iff_straight.mpr (h a hv)
      | _ => exact fun _ => rfl
    refine ⟨?_, hnothing⟩
    rw [filterMap_parseLevels]
    refine List.filterMap_congr fun v hv => ?_
    cases hlevel : levelAt v with
    | none => exact hnothing v hv hlevel
    | some e => exact deliver_of_levelAt hlevel

/-- A number in front of the two texts, and the level is delivered all the same. -/
theorem positions_shift :
    ¬ ∀ (data : Value) (key : String), RespectsPositions data key := by
  intro h
  have hnothing := (h (.object [("bids", .array [.array [.number (.int 1), .string "100",
    .string "2"]])]) "bids").nothing (.array [.number (.int 1), .string "100", .string "2"])
    (by simp [Value.elements, Value.get, Value.asArray]) (by decide)
  exact absurd hnothing (by decide)

end Okx
end Cryptomeria
