import Mathlib.Algebra.Order.Floor.Ring
import Mathlib.Algebra.Order.Round
import Mathlib.Tactic.Linarith
import Mathlib.Tactic.Ring
import Mathlib.Tactic.Positivity
import Mathlib.Tactic.FieldSimp

/-!
# Exact arithmetic of truncation, period loops and bilinear blends

Doubles are elements of a linearly ordered field, with exact operations.
Conversion to an integer type rounds toward zero. The two loops that bring
an angle into a range are fuelled by the exact number of turns they need,
and a smoothstep bilinear blend is a convex combination of its corners.
-/

namespace NcdfPlugin.ExactArithmetic

variable {α : Type*} [Field α] [LinearOrder α]

section Truncation

variable [FloorRing α]

/-- Conversion of a floating value to an integer type, rounding toward zero. -/
def truncate (x : α) : ℤ := if 0≤x then ⌊x⌋ else ⌈x⌉

/-- On numbers that are not negative a conversion to an integer rounds down. -/
theorem truncate_of_nonneg {x : α} (hx : 0≤x) : truncate x=⌊x⌋ := if_pos hx

variable [IsStrictOrderedRing α]

/-- A whole number is converted to itself. -/
@[simp] theorem truncate_intCast (z : ℤ) : truncate (z : α)=z := by
  unfold truncate
  split <;> simp

omit [IsStrictOrderedRing α] in
/-- The truncation of a nonnegative value is nonnegative. -/
theorem truncate_nonneg {x : α} (hx : 0≤x) : 0≤truncate x := by
  rw [truncate_of_nonneg hx]
  exact Int.floor_nonneg.mpr hx

omit [IsStrictOrderedRing α] in
/-- Truncation of nonnegative values is monotone. -/
theorem truncate_mono {x y : α} (hx : 0≤x) (hxy : x≤y) : truncate x≤truncate y := by
  rw [truncate_of_nonneg hx,truncate_of_nonneg (hx.trans hxy)]
  exact Int.floor_le_floor hxy

/-- A nonnegative value exceeds its truncation by less than one. -/
theorem fract_bounds {x : α} (hx : 0≤x) :
    0≤x-truncate x ∧ x-truncate x<1 := by
  rw [truncate_of_nonneg hx]
  exact ⟨sub_nonneg.mpr (Int.floor_le x),by linarith [Int.lt_floor_add_one x]⟩

omit [IsStrictOrderedRing α] in
/-- Truncating a nonnegative value stays below an integer bound exactly
when the value does. -/
theorem truncate_lt_iff {x : α} (hx : 0≤x) (z : ℤ) : truncate x<z ↔ x<z := by
  rw [truncate_of_nonneg hx]
  exact Int.floor_lt

/-- Truncation moves a value by less than one. -/
theorem abs_truncate_sub_lt (x : α) : |(truncate x : α)-x|<1 := by
  rw [truncate,abs_lt]
  split
  · have hlow := Int.floor_le x
    have hhigh := Int.lt_floor_add_one x
    constructor <;> linarith
  · have hlow := Int.le_ceil x
    have hhigh := Int.ceil_lt_add_one x
    constructor <;> linarith

/-- Values strictly between minus one and zero truncate to zero. -/
theorem truncate_of_small {x : α} (hlow : -1<x) (hhigh : x≤0) : truncate x=0 := by
  unfold truncate
  split
  · have hx : x=0 := by linarith
    simp [hx]
  · rw [Int.ceil_eq_iff]
    exact ⟨by push_cast; linarith,by simpa using hhigh⟩

/-- Values at most minus one truncate to a negative integer. -/
theorem truncate_of_le_neg_one {x : α} (hx : x≤ -1) : truncate x<0 := by
  have hneg : ¬0≤x := by linarith
  have hceil : ⌈x⌉≤ -1 := Int.ceil_le.mpr (by push_cast; exact hx)
  rw [truncate,if_neg hneg]
  omega

/-- A nonnegative value is at most one step above its truncation to steps. -/
theorem truncate_step {x : α} (hx : 0≤x) {n : ℕ} (hn : 0<n) :
    0≤x-(truncate (x*n) : α)/n ∧ x-(truncate (x*n) : α)/n≤1/n := by
  have hpos : (0 : α)<n := Nat.cast_pos.mpr hn
  obtain ⟨hlow,hhigh⟩ := fract_bounds (mul_nonneg hx hpos.le)
  have hrest : x-(truncate (x*n) : α)/n=(x*n-truncate (x*n))/n := by field_simp
  rw [hrest]
  exact ⟨div_nonneg hlow hpos.le,(div_le_div_iff_of_pos_right hpos).mpr hhigh.le⟩

end Truncation

section PeriodLoops

variable [IsStrictOrderedRing α]

/-- Fuelled form of `while (x > high) x -= period`. -/
def lowerLoop (period high : α) : ℕ → α → α
  | 0,x => x
  | fuel+1,x => if high<x then lowerLoop period high fuel (x-period) else x

/-- Fuelled form of `while (x < low) x += period`. -/
def raiseLoop (period low : α) : ℕ → α → α
  | 0,x => x
  | fuel+1,x => if x<low then raiseLoop period low fuel (x+period) else x

/-- Raising is lowering of the mirrored value. -/
theorem raiseLoop_eq_neg (period low : α) (fuel : ℕ) (x : α) :
    raiseLoop period low fuel x= -lowerLoop period (-low) fuel (-x) := by
  induction fuel generalizing x with
  | zero => simp [raiseLoop,lowerLoop]
  | succ fuel ih =>
    have hstep : -(x+period)= -x-period := by ring
    by_cases h : x<low
    · simp [raiseLoop,lowerLoop,h,ih,hstep]
    · simp [raiseLoop,lowerLoop,h]

/-- Fuel covering the excess in whole periods lets the lowering loop exit by
its own test, after the first turn that brings the value within the bound. -/
theorem lowerLoop_spec {period : α} (high : α) {fuel : ℕ} {x : α}
    (hfuel : x-high≤fuel*period) :
    ∃ n : ℕ, lowerLoop period high fuel x=x-n*period ∧
      lowerLoop period high fuel x≤high ∧ (n=0 ∨ high-period<lowerLoop period high fuel x) := by
  induction fuel generalizing x with
  | zero =>
    refine ⟨0,by simp [lowerLoop],?_,Or.inl rfl⟩
    simp only [Nat.cast_zero,zero_mul] at hfuel
    simpa [lowerLoop] using by linarith
  | succ fuel ih =>
    by_cases h : high<x
    · have hnext : x-period-high≤fuel*period := by
        push_cast at hfuel
        linarith
      obtain ⟨n,heq,hle,hor⟩ := ih hnext
      simp only [lowerLoop,if_pos h]
      refine ⟨n+1,by rw [heq]; push_cast; ring,hle,Or.inr ?_⟩
      rcases hor with rfl | hlt
      · rw [heq]
        push_cast
        linarith
      · exact hlt
    · exact ⟨0,by simp [lowerLoop,h],by simp only [lowerLoop,if_neg h]; exact not_lt.mp h,Or.inl rfl⟩

variable [FloorRing α]

/-- `while (x > high) x -= period`, with the number of turns it needs. -/
def lowerTo (period high x : α) : α := lowerLoop period high ⌈(x-high)/period⌉.toNat x

/-- `while (x < low) x += period`, with the number of turns it needs. -/
def raiseTo (period low x : α) : α := raiseLoop period low ⌈(low-x)/period⌉.toNat x

/-- As many periods as the quotient rounded up are enough to cover a distance. -/
theorem ceil_toNat_covers {period : α} (hp : 0<period) (d : α) :
    d≤(⌈d/period⌉.toNat : α)*period := by
  have hceil : d/period≤(⌈d/period⌉ : α) := Int.le_ceil _
  have hnat : ((⌈d/period⌉ : ℤ) : α)≤((⌈d/period⌉.toNat : ℤ) : α) :=
    Int.cast_le.mpr (Int.self_le_toNat _)
  rw [Int.cast_natCast] at hnat
  exact (div_le_iff₀ hp).mp (hceil.trans hnat)

/-- The lowering loop ends at most at its bound, by the fewest whole turns. -/
theorem lowerTo_spec {period : α} (hp : 0<period) (high x : α) :
    ∃ n : ℕ, lowerTo period high x=x-n*period ∧ lowerTo period high x≤high ∧
      (n=0 ∨ high-period<lowerTo period high x) :=
  lowerLoop_spec high (ceil_toNat_covers hp _)

/-- The raising loop ends at least at its bound, by the fewest whole turns. -/
theorem raiseTo_spec {period : α} (hp : 0<period) (low x : α) :
    ∃ n : ℕ, raiseTo period low x=x+n*period ∧ low ≤ raiseTo period low x ∧
      (n=0 ∨ raiseTo period low x<low+period) := by
  have hfuel : -x- -low≤(⌈(low-x)/period⌉.toNat : α)*period := by
    have := ceil_toNat_covers hp (low-x)
    linarith
  obtain ⟨n,heq,hle,hor⟩ := lowerLoop_spec (-low) hfuel
  have hneg : raiseTo period low x= -lowerLoop period (-low) ⌈(low-x)/period⌉.toNat (-x) :=
    raiseLoop_eq_neg period low _ x
  refine ⟨n,by rw [hneg,heq]; ring,by rw [hneg]; linarith,?_⟩
  rcases hor with hn | hlt
  · exact Or.inl hn
  · exact Or.inr (by rw [hneg]; linarith)

/-- Both loops in order: first below the upper bound, then above the lower. -/
def reduce (period low high x : α) : α := raiseTo period low (lowerTo period high x)

/-- Reduction moves the value by whole periods. -/
theorem reduce_turns {period : α} (hp : 0<period) (low high x : α) :
    ∃ z : ℤ, reduce period low high x=x+z*period := by
  obtain ⟨n,hn,-,-⟩ := lowerTo_spec hp high x
  obtain ⟨m,hm,-,-⟩ := raiseTo_spec hp low (lowerTo period high x)
  refine ⟨(m : ℤ)-n,?_⟩
  rw [reduce,hm,hn]
  push_cast
  ring

/-- Reduction always ends at or above the lower bound. -/
theorem low_le_reduce {period : α} (hp : 0<period) (low high x : α) :
    low ≤ reduce period low high x :=
  (raiseTo_spec hp low _).choose_spec.2.1

/-- A value that is not raised stays at or below the upper bound; one that is
raised ends in the first period. -/
theorem reduce_le_or_lt {period : α} (hp : 0<period) (low high x : α) :
    reduce period low high x≤high ∨ reduce period low high x<low+period := by
  obtain ⟨n,hn,hle,-⟩ := lowerTo_spec hp high x
  obtain ⟨m,hm,-,hor⟩ := raiseTo_spec hp low (lowerTo period high x)
  rcases hor with rfl | hlt
  · refine Or.inl ?_
    rw [reduce,hm]
    push_cast
    linarith
  · exact Or.inr hlt

/-- A range shorter than a period gives the representative in one period. -/
theorem reduce_lt_of_short {period low high : α} (hp : 0<period) (hshort : high<low+period)
    (x : α) : reduce period low high x<low+period :=
  (reduce_le_or_lt hp low high x).elim (fun hle => hle.trans_lt hshort) id

/-- A range of at least one period keeps the reduced value within it. -/
theorem reduce_le_of_long {period low high : α} (hp : 0<period) (hlong : low+period≤high)
    (x : α) : reduce period low high x≤high :=
  (reduce_le_or_lt hp low high x).elim id fun hlt => (hlt.trans_le hlong).le

/-- A nonzero number of turns moves a value by at least one period. -/
theorem period_le_turns {period : α} (hp : 0<period) {n : ℕ} (hn : 0<n) : period≤n*period :=
  le_mul_of_one_le_left hp.le (by exact_mod_cast hn)

/-- Values already in the range are left alone: a nonzero number of turns
would have crossed a bound that the value respects. -/
theorem reduce_of_mem {period low high x : α} (hp : 0<period) (hlow : low≤x) (hhigh : x≤high) :
    reduce period low high x=x := by
  obtain ⟨n,hn,-,hor⟩ := lowerTo_spec hp high x
  obtain ⟨m,hm,-,hor'⟩ := raiseTo_spec hp low (lowerTo period high x)
  have hx : lowerTo period high x=x := by
    rcases Nat.eq_zero_or_pos n with rfl | hpos
    · simpa using hn
    · have hturn := period_le_turns hp hpos
      rcases hor with rfl | hlt <;> linarith
  rw [hx] at hm hor'
  rw [reduce,hx]
  rcases Nat.eq_zero_or_pos m with rfl | hpos
  · simpa using hm
  · have hturn := period_le_turns hp hpos
    rcases hor' with rfl | hlt <;> linarith

/-- Values less than a period apart that differ by whole turns are equal. -/
theorem eq_of_turns {period x y : α} (hp : 0<period) {z : ℤ} (hxy : x=y+z*period)
    (hlt : x-y<period) (hgt : y-x<period) : x=y := by
  have hz : z=0 := by
    have hone : (z : α)*period<1*period := by linarith
    have hneg : (-1)*period<(z : α)*period := by linarith
    have h1 : (z : α)<((1 : ℤ) : α) := by simpa using lt_of_mul_lt_mul_right hone hp.le
    have h2 : ((-1 : ℤ) : α)<(z : α) := by simpa using lt_of_mul_lt_mul_right hneg hp.le
    have := Int.cast_lt.mp h1
    have := Int.cast_lt.mp h2
    omega
  rw [hxy,hz]
  simp

/-- On a closed period, a value at most at the lower end stays below the
upper end. -/
theorem reduce_lt_of_le {period low x : α} (hp : 0<period) (hx : x≤low) :
    reduce period low (low+period) x<low+period := by
  obtain ⟨n,hn,-,-⟩ := lowerTo_spec hp (low+period) x
  obtain ⟨m,hm,-,hor⟩ := raiseTo_spec hp low (lowerTo period (low+period) x)
  rcases hor with rfl | hlt
  · have hturns : 0≤(n : α)*period := by positivity
    rw [reduce,hm]
    push_cast
    linarith
  · exact hlt

/-- On a closed period, a value above the lower end stays above it. -/
theorem lt_reduce_of_lt {period low x : α} (hp : 0<period) (hx : low<x) :
    low < reduce period low (low+period) x := by
  obtain ⟨n,hn,-,hor⟩ := lowerTo_spec hp (low+period) x
  obtain ⟨m,hm,-,-⟩ := raiseTo_spec hp low (lowerTo period (low+period) x)
  have hturns : 0≤(m : α)*period := by positivity
  have hlower : low<lowerTo period (low+period) x := by
    rcases hor with rfl | hlt
    · rw [hn]
      push_cast
      linarith
    · linarith
  rw [reduce,hm]
  linarith

/-- In a range of at least one period, exactly the values above or at the
upper bound by whole turns end at it. -/
theorem reduce_eq_high_iff {period low high : α} (hp : 0<period) (hlong : low+period≤high)
    (x : α) : reduce period low high x=high ↔ ∃ n : ℕ,x=high+n*period := by
  obtain ⟨n,hn,hle,hor⟩ := lowerTo_spec hp high x
  obtain ⟨m,hm,hlow,hor'⟩ := raiseTo_spec hp low (lowerTo period high x)
  constructor
  · intro hhigh
    rw [reduce] at hhigh
    rcases hor' with rfl | hlt
    · rw [hm,hn] at hhigh
      push_cast at hhigh
      exact ⟨n,by linarith⟩
    · linarith
  · rintro ⟨j,rfl⟩
    have hj : 0≤(j : α)*period := by positivity
    have hturns : lowerTo period high (high+j*period)=high+((j-n : ℤ) : α)*period := by
      rw [hn]
      push_cast
      ring
    have hgap : high-lowerTo period high (high+j*period)<period := by
      rcases hor with rfl | hlt
      · rw [hn]
        push_cast
        linarith
      · linarith
    have htop : lowerTo period high (high+j*period)=high :=
      eq_of_turns hp hturns (by linarith) hgap
    rcases hor' with rfl | hlt
    · rw [reduce,hm,htop]
      simp
    · rw [hm,htop] at hlt
      have hm0 : 0≤(m : α)*period := by positivity
      linarith

end PeriodLoops

section Blend

/-- A decimal constant, as numerator and denominator. -/
def decimal {α : Type*} [Field α] (n d : ℕ) : α := (n : α)/d

/-- One half, where the nearest node changes. -/
def half {α : Type*} [Field α] : α := 1/2

/-- The cubic smoothing of an interpolation fraction. -/
def smoothstep {α : Type*} [Field α] (t : α) : α := (3-2*t)*t*t

/-- Blend of two row blends, with weights wx along a row and wy across rows. -/
def bilinear {α : Type*} [Field α] (wx wy x00 x10 x01 x11 : α) : α :=
  (1-wy)*((1-wx)*x00+wx*x10)+wy*((1-wx)*x01+wx*x11)

omit [LinearOrder α] in
@[simp] theorem smoothstep_zero : smoothstep (0 : α)=0 := by simp [smoothstep]

omit [LinearOrder α] in
/-- The blend is linear in its corners, so that turns added to the corners are blended on
their own. -/
theorem bilinear_add_mul (wx wy c x00 x10 x01 x11 a00 a10 a01 a11 : α) :
    bilinear wx wy (x00+c*a00) (x10+c*a10) (x01+c*a01) (x11+c*a11)=
      bilinear wx wy x00 x10 x01 x11+c*bilinear wx wy a00 a10 a01 a11 := by
  unfold bilinear
  ring

omit [LinearOrder α] in
@[simp] theorem bilinear_zero_zero (x00 x10 x01 x11 : α) :
    bilinear 0 0 x00 x10 x01 x11=x00 := by
  simp [bilinear]

variable [IsStrictOrderedRing α]

/-- The smoothed weight of a share between zero and one is not negative. -/
theorem smoothstep_nonneg {t : α} (h0 : 0≤t) (h1 : t≤1) : 0 ≤ smoothstep t := by
  have h : 0≤3-2*t := by linarith
  unfold smoothstep
  positivity

/-- The smoothed weight is at most one, since the remainder is a square times a factor that
is not negative. -/
theorem smoothstep_le_one {t : α} (h0 : 0≤t) : smoothstep t≤1 := by
  have h : 0≤(1-t)^2*(1+2*t) := by positivity
  unfold smoothstep
  nlinarith

omit [LinearOrder α] [IsStrictOrderedRing α] in
@[simp] theorem smoothstep_one : smoothstep (1 : α)=1 := by
  unfold smoothstep
  ring

/-- On the unit interval the smoothed weight grows with the fraction. -/
theorem smoothstep_mono {s t : α} (hs : 0 ≤ s) (hst : s≤t) (ht : t≤1) :
    smoothstep s ≤ smoothstep t := by
  have hfactor : smoothstep t-smoothstep s=
      (t-s)*(2*s*(1-s)+2*t*(1-t)+s*(1-t)+t*(1-s)) := by
    unfold smoothstep
    ring
  have hgap : 0≤t-s := sub_nonneg.mpr hst
  have hs1 : 0≤1-s := by linarith
  have ht1 : 0≤1-t := by linarith
  have ht0 : 0≤t := hs.trans hst
  have hproduct : 0≤(t-s)*(2*s*(1-s)+2*t*(1-t)+s*(1-t)+t*(1-s)) := by positivity
  linarith

/-- Weights of a blend that lie in the unit interval. -/
structure UnitWeights (wx wy : α) : Prop where
  /-- The weight along a row is not negative. -/
  wx_nonneg : 0≤wx
  /-- The weight along a row is at most one. -/
  wx_le : wx≤1
  /-- The weight across rows is not negative. -/
  wy_nonneg : 0≤wy
  /-- The weight across rows is at most one. -/
  wy_le : wy≤1

/-- Smoothed shares are shares again, so that a blend by them stays between its corners. -/
theorem smoothstep_weights {dx dy : α} (hx0 : 0≤dx) (hx1 : dx≤1) (hy0 : 0≤dy) (hy1 : dy≤1) :
    UnitWeights (smoothstep dx) (smoothstep dy) :=
  ⟨smoothstep_nonneg hx0 hx1,smoothstep_le_one hx0,
    smoothstep_nonneg hy0 hy1,smoothstep_le_one hy0⟩

/-- A blend of two values stays above their common lower bound. -/
theorem le_lerp {w m x y : α} (h0 : 0≤w) (h1 : w≤1) (hx : m≤x) (hy : m≤y) :
    m≤(1-w)*x+w*y := by
  have hleft := mul_le_mul_of_nonneg_left hx (sub_nonneg.mpr h1)
  have hright := mul_le_mul_of_nonneg_left hy h0
  linarith

/-- A lower bound of the corners is a lower bound of the blend. -/
theorem le_bilinear {wx wy m x00 x10 x01 x11 : α} (hw : UnitWeights wx wy)
    (h00 : m≤x00) (h10 : m≤x10) (h01 : m≤x01) (h11 : m≤x11) :
    m≤bilinear wx wy x00 x10 x01 x11 :=
  le_lerp hw.wy_nonneg hw.wy_le (le_lerp hw.wx_nonneg hw.wx_le h00 h10)
    (le_lerp hw.wx_nonneg hw.wx_le h01 h11)

/-- An upper bound of the corners is an upper bound of the blend. -/
theorem bilinear_le {wx wy m x00 x10 x01 x11 : α} (hw : UnitWeights wx wy)
    (h00 : x00 ≤ m) (h10 : x10 ≤ m) (h01 : x01 ≤ m) (h11 : x11 ≤ m) :
    bilinear wx wy x00 x10 x01 x11 ≤ m := by
  have h := le_bilinear hw (neg_le_neg h00) (neg_le_neg h10) (neg_le_neg h01) (neg_le_neg h11)
  have hneg : bilinear wx wy (-x00) (-x10) (-x01) (-x11)= -bilinear wx wy x00 x10 x01 x11 := by
    unfold bilinear
    ring
  rw [hneg] at h
  exact neg_le_neg_iff.mp h

/-- Near the end of the unit interval the smoothed weight is near one. -/
theorem one_sub_smoothstep_le {e : α} (h0 : 0≤e) (h1 : e≤1) : 1-smoothstep (1-e) ≤ 3*e := by
  have heq : 3*e-(1-smoothstep (1-e))=3*e*(1-e)+2*e*e*e := by
    unfold smoothstep
    ring
  have hcomplement : 0≤1-e := sub_nonneg.mpr h1
  have hpos : 0≤3*e*(1-e)+2*e*e*e := by positivity
  linarith

/-- A bound on the smoothed blends of two values short of the far end bounds
the value at the far end. -/
theorem le_of_lerp_le {m x y : α}
    (h : ∀ d,0≤d → d<1 → (1-smoothstep d)*x+smoothstep d*y ≤ m) : y ≤ m := by
  by_contra hy
  have hym : 0<y-m := sub_pos.mpr (not_le.mp hy)
  have hx : x ≤ m := by simpa using h 0 le_rfl one_pos
  have hyx : 0<y-x := by linarith
  -- the rest of the way to the far end, small against the excess over the bound
  obtain ⟨e,he⟩ : ∃ e,e*(4*(y-x))=y-m := ⟨(y-m)/(4*(y-x)),div_mul_cancel₀ _ (by positivity)⟩
  have he0 : 0<e := by
    by_contra hneg
    have hle := mul_nonpos_of_nonpos_of_nonneg (not_lt.mp hneg) (by positivity : 0≤4*(y-x))
    linarith
  have he1 : e≤1 := by
    by_contra hbig
    have hlt := mul_lt_mul_of_pos_right (not_le.mp hbig) (by positivity : 0<4*(y-x))
    linarith
  have hbound := h (1-e) (sub_nonneg.mpr he1) (by linarith)
  have hweight := mul_le_mul_of_nonneg_right (one_sub_smoothstep_le he0.le he1) hyx.le
  have hblend : (1-smoothstep (1-e))*x+smoothstep (1-e)*y=y-(1-smoothstep (1-e))*(y-x) := by ring
  linarith

/-- A bound on the smoothed blends of a cell short of its far edges bounds
the corners. -/
theorem corners_le_of_bilinear_le {m x00 x10 x01 x11 : α}
    (h : ∀ dx dy,0≤dx → dx<1 → 0≤dy → dy<1 →
      bilinear (smoothstep dx) (smoothstep dy) x00 x10 x01 x11 ≤ m) :
    (x00 ≤ m ∧ x10 ≤ m) ∧ x01 ≤ m ∧ x11 ≤ m := by
  have hleft (dy : α) (h0 : 0≤dy) (h1 : dy<1) :
      (1-smoothstep dy)*x00+smoothstep dy*x01 ≤ m := by
    simpa [bilinear] using h 0 dy le_rfl one_pos h0 h1
  have hright (dy : α) (h0 : 0≤dy) (h1 : dy<1) :
      (1-smoothstep dy)*x10+smoothstep dy*x11 ≤ m := by
    refine le_of_lerp_le (x := (1-smoothstep dy)*x00+smoothstep dy*x01) fun dx hx0 hx1 => ?_
    have hcell := h dx dy hx0 hx1 h0 h1
    unfold bilinear at hcell
    linarith
  have hfirst : x00 ≤ m := by simpa using hleft 0 le_rfl one_pos
  have hsecond : x10 ≤ m := by simpa using hright 0 le_rfl one_pos
  exact ⟨⟨hfirst,hsecond⟩,le_of_lerp_le hleft,le_of_lerp_le hright⟩

end Blend

end NcdfPlugin.ExactArithmetic
