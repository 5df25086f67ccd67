import NcdfPlugin.ExactArithmetic

/-!
# Sampling positions of a texture

A texture coordinate runs from zero to one over the texels of a row. Outside
it is clamped to the centres of the border texels, or it repeats with the
period of the whole row. Texel centres are told apart by either rule.
-/

namespace NcdfPlugin.TextureSampling

open ExactArithmetic

variable {α : Type*} [Field α] [LinearOrder α]

/-- Coordinate of the centre of the x-th of n texels. -/
def centre (n x : ℕ) : α := (x+half)/n

/-- Coordinate clamped to the centres of the outer texels. -/
def clampEdge (n : ℕ) (u : α) : α := min (max u (half/n)) (1-half/n)

/-- Coordinate under a wrap mode. -/
def wrap [FloorRing α] (repeats : Bool) (n : ℕ) (u : α) : α :=
  if repeats=true then Int.fract u else clampEdge n u

/-- A texture that does not repeat continues with its outermost texels. -/
theorem wrap_clamped [FloorRing α] (n : ℕ) (u : α) : wrap false n u=clampEdge n u := if_neg (by simp)

/-- A texture that repeats is looked up within one turn. -/
theorem wrap_repeated [FloorRing α] (n : ℕ) (u : α) : wrap true n u=Int.fract u := if_pos rfl

variable [IsStrictOrderedRing α]

/-- One half lies strictly between zero and one. -/
theorem half_bounds : 0<(half : α) ∧ (half : α)<1 := by
  constructor <;> norm_num [half]

/-- Different texels have different centres. -/
theorem centre_inj {n x x' : ℕ} (hn : 0<n) : (centre n x : α)=centre n x' ↔ x=x' := by
  have hn' : (n : α)≠0 := Nat.cast_ne_zero.mpr hn.ne'
  rw [centre,centre,div_left_inj' hn',add_left_inj,Nat.cast_inj]

/-- A centre lies between the outer centres. -/
theorem clampEdge_centre {n x : ℕ} (hx : x<n) : clampEdge n (centre n x : α)=centre n x := by
  have hn : 0<(n : α) := Nat.cast_pos.mpr (by omega)
  have hlow : (half : α)/n ≤ centre n x := by
    rw [centre,div_le_div_iff_of_pos_right hn]
    have hx0 : (0 : α)≤x := Nat.cast_nonneg x
    linarith
  have hhigh : (centre n x : α)≤1-half/n := by
    have hx1 : (x : α)+1≤n := by exact_mod_cast hx
    rw [centre,le_sub_iff_add_le,←add_div,div_le_one hn]
    have hhalf : (half : α)+half=1 := by norm_num [half]
    linarith
  rw [clampEdge,max_eq_left hlow,min_eq_left hhigh]

/-- A repeated coordinate is a centre exactly when it is one up to whole rows. -/
theorem fract_eq_centre_iff [FloorRing α] {n x : ℕ} (hx : x<n) (p : α) :
    Int.fract ((p+half)/n)=centre n x ↔ ∃ z : ℤ,p=x+z*n := by
  have hn : 0<(n : α) := Nat.cast_pos.mpr (by omega)
  have hx0 : (0 : α)≤x := Nat.cast_nonneg x
  have hx1 : (x : α)+1≤n := by exact_mod_cast hx
  obtain ⟨hhalf0,hhalf1⟩ := half_bounds (α:=α)
  have hcentre : 0≤(centre n x : α) ∧ (centre n x : α)<1 := by
    rw [centre]
    exact ⟨div_nonneg (by linarith) hn.le,(div_lt_one hn).mpr (by linarith)⟩
  rw [Int.fract_eq_iff]
  constructor
  · rintro ⟨-,-,z,hz⟩
    refine ⟨z,?_⟩
    rw [centre,←sub_div,div_eq_iff hn.ne'] at hz
    linarith
  · rintro ⟨z,rfl⟩
    refine ⟨hcentre.1,hcentre.2,z,?_⟩
    rw [centre]
    field_simp
    ring

end NcdfPlugin.TextureSampling
