import Mathlib.Analysis.SpecialFunctions.Complex.Arg
import Mathlib.Analysis.SpecialFunctions.Trigonometric.Angle

/-!
# Bearings of plane vectors

The two-argument arc tangent of the C library is the argument of a complex
number. A bearing of a vector is an angle in degrees, clockwise from north,
whose sine and cosine give the vector back at its length. Bearings of one
vector differ by whole turns.
-/

namespace NcdfPlugin.Bearings

open Real

/-- `atan2`, the second coordinate first. -/
noncomputable def atan2 (y x : ℝ) : ℝ := Complex.arg ⟨x,y⟩

/-- Length of a vector. -/
noncomputable def length (x y : ℝ) : ℝ := √(x*x+y*y)

/-- Radians of an angle in degrees. -/
noncomputable def radians (d : ℝ) : ℝ := d*π/(180 : ℕ)

/-- Degrees of an angle in radians. -/
noncomputable def degrees (a : ℝ) : ℝ := a*(180 : ℕ)/π

/-- The angle points to the vector, clockwise from north. -/
structure IsBearing (d east north : ℝ) : Prop where
  /-- Eastward component. -/
  east_eq : length east north*sin (radians d)=east
  /-- Northward component. -/
  north_eq : length east north*cos (radians d)=north

/-- Radians of a number of degrees, with the half turn written as a numeral so that it can
be computed with. -/
theorem radians_eq (d : ℝ) : radians d=d*π/180 := by rw [radians,Nat.cast_ofNat]

/-- Degrees of a number of radians, likewise. -/
theorem degrees_eq (a : ℝ) : degrees a=a*180/π := by rw [degrees,Nat.cast_ofNat]

/-- Conversion to degrees and back to radians gives the same angle. -/
theorem radians_degrees (a : ℝ) : radians (degrees a)=a := by
  rw [radians,degrees,div_mul_cancel₀ _ pi_ne_zero]
  ring

/-- Differences of angles may be taken before or after the conversion. -/
theorem radians_sub (c d : ℝ) : radians (c-d)=radians c-radians d := by
  unfold radians
  ring

/-- Whole turns in degrees are whole turns in radians, so neither sine nor cosine sees them.
-/
theorem radians_add_turns (d : ℝ) (k : ℤ) : radians (d+k*360)=radians d+k*(2*π) := by
  unfold radians
  ring

/-- A right angle in radians. -/
theorem radians_quarter : radians 90=π/2 := by
  unfold radians
  ring

/-- The length of a vector is the norm of the complex number with its components, which
makes the facts about arguments available. -/
theorem length_eq_norm (x y : ℝ) : length x y=‖(⟨x,y⟩ : ℂ)‖ := by
  rw [length,Complex.norm_def,Complex.normSq_mk]

/-- Reflection in the second axis keeps the length. -/
theorem length_neg_left (x y : ℝ) : length (-x) y=length x y := by
  rw [length,length,neg_mul_neg]

/-- Exchange of the components, reflection in the diagonal, keeps the length. -/
theorem length_swap (x y : ℝ) : length y x=length x y := by
  rw [length,length,add_comm]

/-- A vector that is not zero has positive length, so that one may divide by it. -/
theorem length_pos {x y : ℝ} (h : x≠0 ∨ y≠0) : 0 < length x y := by
  refine sqrt_pos.mpr ?_
  rcases h with hx | hy
  · exact add_pos_of_pos_of_nonneg (mul_self_pos.mpr hx) (mul_self_nonneg y)
  · exact add_pos_of_nonneg_of_pos (mul_self_nonneg x) (mul_self_pos.mpr hy)

/-- The lower end of the range of `atan2` is not reached. -/
theorem neg_pi_lt_atan2 (y x : ℝ) : -π<atan2 y x := (Complex.arg_mem_Ioc _).1

/-- The upper end of the range of `atan2`, which is reached on the negative half axis. -/
theorem atan2_le_pi (y x : ℝ) : atan2 y x≤π := (Complex.arg_mem_Ioc _).2

/-- The arc tangent gives the vector back in polar coordinates. -/
theorem length_mul_cos_atan2 (y x : ℝ) : length x y*cos (atan2 y x)=x := by
  rw [length_eq_norm]
  exact Complex.norm_mul_cos_arg _

/-- The second component of a vector is its length times the sine of its argument. -/
theorem length_mul_sin_atan2 (y x : ℝ) : length x y*sin (atan2 y x)=y := by
  rw [length_eq_norm]
  exact Complex.norm_mul_sin_arg _

/-- The arc tangent with the eastward component first is a bearing. -/
theorem isBearing_atan2 (east north : ℝ) : IsBearing (degrees (atan2 east north)) east north := by
  constructor
  · rw [radians_degrees,←length_swap,length_mul_sin_atan2]
  · rw [radians_degrees,←length_swap,length_mul_cos_atan2]

/-- The arc tangent of the reflected vector is a bearing a quarter turn
later. -/
theorem isBearing_atan2_reflected (east north : ℝ) :
    IsBearing (degrees (atan2 north (-east))-90) east north := by
  have hcos := length_mul_cos_atan2 north (-east)
  have hsin := length_mul_sin_atan2 north (-east)
  rw [length_neg_left] at hcos hsin
  constructor
  · rw [radians_sub,radians_degrees,radians_quarter,sin_sub_pi_div_two]
    linarith
  · rw [radians_sub,radians_degrees,radians_quarter,cos_sub_pi_div_two]
    exact hsin

variable {d d' east north : ℝ}

/-- Whole turns do not matter. -/
theorem IsBearing.add_turns (h : IsBearing d east north) (k : ℤ) :
    IsBearing (d+k*360) east north := by
  constructor
  · rw [radians_add_turns,sin_add_int_mul_two_pi]
    exact h.east_eq
  · rw [radians_add_turns,cos_add_int_mul_two_pi]
    exact h.north_eq

/-- Bearings of one vector differ by whole turns. -/
theorem IsBearing.turns (h : IsBearing d east north) (h' : IsBearing d' east north)
    (hne : east≠0 ∨ north≠0) : ∃ k : ℤ,d=d'+k*360 := by
  have hpos := (length_pos hne).ne'
  have hcos : cos (radians d)=cos (radians d') := mul_left_cancel₀ hpos (h.north_eq.trans h'.north_eq.symm)
  have hsin : sin (radians d)=sin (radians d') := mul_left_cancel₀ hpos (h.east_eq.trans h'.east_eq.symm)
  obtain ⟨k,hk⟩ := Angle.angle_eq_iff_two_pi_dvd_sub.mp (Angle.cos_sin_inj hcos hsin)
  refine ⟨k,?_⟩
  have hscaled : (d-d')*π=(k*360)*π := by
    unfold radians at hk
    linarith
  have hturn := mul_right_cancel₀ pi_ne_zero hscaled
  linarith

end NcdfPlugin.Bearings
