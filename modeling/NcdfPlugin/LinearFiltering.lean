import NcdfPlugin.TextureSampling

/-!
# Linear filtering and weighted means

A filtered sample blends the four texels around a texture coordinate. It stays
between bounds of the texels it reads, is the texel at its centre, and goes
around a repeated row, and outside a clamped row only the outer texels are read.
A weighted mean of samples is collected in one loop that
adds up values and weights.
-/

namespace NcdfPlugin.LinearFiltering

open ExactArithmetic TextureSampling

section Index

/-- Texel at an integer position: repeated around the row, or kept at its ends. -/
def texelIndex (repeats : Bool) (n : ℕ) (z : ℤ) : ℕ :=
  if repeats=true then (z%n).toNat else (max 0 (min z (n-1))).toNat

/-- Both repeat modes lead to a texel of the texture, whatever the index asked for is. -/
theorem texelIndex_lt (repeats : Bool) {n : ℕ} (hn : 0<n) (z : ℤ) : texelIndex repeats n z<n := by
  unfold texelIndex
  split
  · have hpos := Int.emod_nonneg z (by omega : (n : ℤ)≠0)
    have hlt := Int.emod_lt_of_pos z (by omega : (0 : ℤ)<n)
    omega
  · omega

/-- A position on the row is its own texel. -/
theorem texelIndex_of_lt (repeats : Bool) {n x : ℕ} (hx : x<n) : texelIndex repeats n x=x := by
  unfold texelIndex
  split
  · rw [Int.emod_eq_of_lt (by omega) (by omega)]
    exact Int.toNat_natCast x
  · omega

/-- Without repetition everything before the first texel is the first texel. -/
theorem texelIndex_before {n : ℕ} {z : ℤ} (hz : z≤0) : texelIndex false n z=0 := by
  simp only [texelIndex,Bool.false_eq_true,if_false]
  omega

/-- Without repetition everything behind the last texel is the last texel. -/
theorem texelIndex_behind {n : ℕ} (hn : 0<n) {z : ℤ} (hz : n-1≤z) : texelIndex false n z=n-1 := by
  simp only [texelIndex,Bool.false_eq_true,if_false]
  omega

/-- Whole rows make no difference to a repeated position. -/
theorem texelIndex_add_turns (n : ℕ) (z k : ℤ) : texelIndex true n (z+k*n)=texelIndex true n z := by
  simp only [texelIndex,if_true,Int.add_mul_emod_self_right]

end Index

section Sample

variable {α : Type*} [Field α] [LinearOrder α] [FloorRing α]

/-- Place of a texture coordinate on a row, in texels from the first centre. -/
def texelPos (n : ℕ) (u : α) : α := u*n-half

/-- Texel of the block around a coordinate, in rows and columns from the
corner of the block. -/
def blockTexel (repeats : Bool) (w h : ℕ) (u v : α) (dy dx : ℤ) : ℕ×ℕ :=
  (texelIndex false h (⌊texelPos h v⌋+dy),texelIndex repeats w (⌊texelPos w u⌋+dx))

/-- Sample with a linear filter. Rows are always clamped. -/
def linearSample (repeats : Bool) (w h : ℕ) (image : ℕ×ℕ → α) (u v : α) : α :=
  bilinear (Int.fract (texelPos w u)) (Int.fract (texelPos h v))
    (image (blockTexel repeats w h u v 0 0)) (image (blockTexel repeats w h u v 0 1))
    (image (blockTexel repeats w h u v 1 0)) (image (blockTexel repeats w h u v 1 1))

/-- Sample of a single row with a linear filter and clamped ends. -/
def linearSample1 (n : ℕ) (row : ℕ → α) (u : α) : α :=
  let x := texelPos n u
  (1-Int.fract x)*row (texelIndex false n ⌊x⌋)+Int.fract x*row (texelIndex false n (⌊x⌋+1))

variable {repeats : Bool} {w h : ℕ} {image : ℕ×ℕ → α} {u v : α}

variable [IsStrictOrderedRing α]

omit [FloorRing α] in
/-- One texel to the side is one step of the position. -/
theorem texelPos_add {n : ℕ} (hn : 0<n) (x d : α) : texelPos n ((x+d+half)*(1/n))=x+d := by
  have hn' : (n : α)≠0 := Nat.cast_ne_zero.mpr hn.ne'
  rw [texelPos]
  field_simp
  ring

/-- Fractional parts are shares, as a bilinear blend needs them. -/
theorem fract_weights (x y : α) : UnitWeights (Int.fract x) (Int.fract y) :=
  ⟨Int.fract_nonneg x,(Int.fract_lt_one x).le,Int.fract_nonneg y,(Int.fract_lt_one y).le⟩

/-- A sample is at least a lower bound of its four texels. -/
theorem le_linearSample (image : ℕ×ℕ → α) {m : α}
    (hm : ∀ dy∈[(0 : ℤ),1],∀ dx∈[(0 : ℤ),1],m ≤ image (blockTexel repeats w h u v dy dx)) :
    m≤linearSample repeats w h image u v :=
  le_bilinear (fract_weights _ _) (hm 0 (by simp) 0 (by simp)) (hm 0 (by simp) 1 (by simp))
    (hm 1 (by simp) 0 (by simp)) (hm 1 (by simp) 1 (by simp))

/-- A sample is at most an upper bound of its four texels. -/
theorem linearSample_le (image : ℕ×ℕ → α) {m : α}
    (hm : ∀ dy∈[(0 : ℤ),1],∀ dx∈[(0 : ℤ),1],image (blockTexel repeats w h u v dy dx) ≤ m) :
    linearSample repeats w h image u v ≤ m :=
  bilinear_le (fract_weights _ _) (hm 0 (by simp) 0 (by simp)) (hm 0 (by simp) 1 (by simp))
    (hm 1 (by simp) 0 (by simp)) (hm 1 (by simp) 1 (by simp))

/-- Texels of one value give that value. -/
theorem linearSample_const {c : α}
    (hc : ∀ dy∈[(0 : ℤ),1],∀ dx∈[(0 : ℤ),1],image (blockTexel repeats w h u v dy dx)=c) :
    linearSample repeats w h image u v=c :=
  le_antisymm (linearSample_le image fun dy hdy dx hdx => (hc dy hdy dx hdx).le)
    (le_linearSample image fun dy hdy dx hdx => (hc dy hdy dx hdx).ge)

omit [FloorRing α] in
/-- At the centre of a texel the position in texels is the number of that texel. -/
theorem texelPos_centre {n : ℕ} (hn : 0<n) (x : ℕ) : texelPos n (centre n x : α)=x := by
  have hn' : (n : α)≠0 := Nat.cast_ne_zero.mpr hn.ne'
  rw [texelPos,centre,div_mul_cancel₀ _ hn',add_sub_cancel_right]

/-- At the centre of a texel the sample is the texel. -/
theorem linearSample_centre {x y : ℕ} (hx : x<w) (hy : y<h) :
    linearSample repeats w h image (centre w x) (centre h y)=image (y,x) := by
  have hw := texelPos_centre (α:=α) (by omega : 0<w) x
  have hh := texelPos_centre (α:=α) (by omega : 0<h) y
  simp only [linearSample,blockTexel,hw,hh,Int.fract_natCast,Int.floor_natCast,add_zero,
    texelIndex_of_lt false hy,texelIndex_of_lt repeats hx]
  simp [bilinear]

/-- Whole turns make no difference to a repeated sample. -/
theorem linearSample_add_turns (z : ℤ) :
    linearSample true w h image (u+z) v=linearSample true w h image u v := by
  have hpos : texelPos w (u+z)=texelPos w u+((z*w : ℤ) : α) := by
    rw [texelPos,texelPos]
    push_cast
    ring
  have hcolumn (dx : ℤ) : ⌊texelPos w u⌋+z*w+dx=⌊texelPos w u⌋+dx+z*w := by ring
  simp only [linearSample,blockTexel,hpos,Int.fract_add_intCast,Int.floor_add_intCast,hcolumn,
    texelIndex_add_turns]

/-- Before a clamped row only the first texel is read. -/
theorem texelIndex_of_neg (hn : 0<w) (hu : u<0) {d : ℤ} (hd : d≤1) :
    texelIndex false w (⌊texelPos w u⌋+d)=0 := by
  have hpos : texelPos w u<0 := by
    have hmul := mul_neg_of_neg_of_pos hu (Nat.cast_pos.mpr hn : (0 : α)<w)
    rw [texelPos]
    linarith [(half_bounds (α:=α)).1]
  have hfloor : ⌊texelPos w u⌋<0 := Int.floor_lt.mpr (by exact_mod_cast hpos)
  exact texelIndex_before (by omega)

/-- Behind a clamped row only the last texel is read. -/
theorem texelIndex_of_one_lt (hn : 0<w) (hu : 1<u) {d : ℤ} (hd : 0≤d) :
    texelIndex false w (⌊texelPos w u⌋+d)=w-1 := by
  have hpos : ((w-1 : ℤ) : α)≤texelPos w u := by
    have hmul := mul_lt_mul_of_pos_right hu (Nat.cast_pos.mpr hn : (0 : α)<w)
    rw [texelPos]
    push_cast
    linarith [(half_bounds (α:=α)).2]
  have hfloor : (w-1 : ℤ)≤⌊texelPos w u⌋ := Int.le_floor.mpr hpos
  exact texelIndex_behind hn (by omega)

/-- A sample of a row is a blend of two neighbouring entries, at most one and a
half entries from the place of the coordinate between the first and the last. -/
theorem linearSample1_near {n : ℕ} (hn : 0<n) {u : α} (h0 : 0≤u) (h1 : u≤1) :
    ∃ (k k' : ℕ) (x : α),k≤k' ∧ (n-1)*u-3*half≤k ∧ (k' : α)≤(n-1)*u+3*half ∧ 0≤x ∧ x≤1 ∧
      ∀ row : ℕ → α,linearSample1 n row u=(1-x)*row k+x*row k' := by
  have hn' : (0 : α)<n := Nat.cast_pos.mpr hn
  have hscaled : u*n=(n-1)*u+u := by ring
  have hhalf : (half : α)+half=1 := by norm_num [half]
  have hlow := Int.floor_le (texelPos n u)
  have hhigh := Int.lt_floor_add_one (texelPos n u)
  unfold texelPos at hlow hhigh
  have hmin : -1≤⌊texelPos n u⌋ := Int.le_floor.mpr (by
    have hmul := mul_nonneg h0 hn'.le
    rw [texelPos]
    push_cast
    linarith)
  have hmax : ⌊texelPos n u⌋≤n-1 := by
    have hmul := mul_le_mul_of_nonneg_right h1 hn'.le
    have hlt : ⌊texelPos n u⌋<n := Int.floor_lt.mpr (by
      rw [texelPos]
      push_cast
      linarith [(half_bounds (α:=α)).1])
    omega
  refine ⟨texelIndex false n ⌊texelPos n u⌋,texelIndex false n (⌊texelPos n u⌋+1),
    Int.fract (texelPos n u),?_,?_,?_,Int.fract_nonneg _,(Int.fract_lt_one _).le,fun _ => rfl⟩
  · simp only [texelIndex,Bool.false_eq_true,if_false]
    omega
  · have hfloor : (⌊texelPos n u⌋ : α)≤(texelIndex false n ⌊texelPos n u⌋ : ℤ) := by
      have hz : ⌊texelPos n u⌋≤texelIndex false n ⌊texelPos n u⌋ := by
        simp only [texelIndex,Bool.false_eq_true,if_false]
        omega
      exact_mod_cast hz
    rw [texelPos] at hfloor ⊢
    push_cast at hfloor
    linarith
  · have hfloor : ((texelIndex false n (⌊texelPos n u⌋+1) : ℤ) : α)≤(⌊texelPos n u⌋+1 : ℤ) := by
      have hz : (texelIndex false n (⌊texelPos n u⌋+1) : ℤ)≤⌊texelPos n u⌋+1 := by
        simp only [texelIndex,Bool.false_eq_true,if_false]
        omega
      exact_mod_cast hz
    rw [texelPos] at hfloor ⊢
    push_cast at hfloor
    linarith

end Sample

section Mean

variable {ι : Type*} {α : Type*} [Field α] [LinearOrder α]

/-- One turn of the loop that adds up the counted values and their weights. -/
def accumulate (counted : ι → Prop) [DecidablePred counted] (value weight : ι → α) (sums : α×α)
    (k : ι) : α×α :=
  if counted k then (sums.1+value k*weight k,sums.2+weight k) else sums

variable {counted : ι → Prop} [DecidablePred counted] {value weight : ι → α} [IsStrictOrderedRing α]

/-- The loop keeps the sum of the values between the bounds times the sum of
the weights, and the weights of the counted ones are in their sum. -/
theorem foldl_accumulate {m M : α} {l : List ι} (hweight : ∀ k∈l,0≤weight k)
    (hvalue : ∀ k∈l,counted k → m≤value k ∧ value k≤M) (sums : α×α)
    (hlow : m*sums.2 ≤ sums.1) (hhigh : sums.1≤M*sums.2) :
    let total := l.foldl (accumulate counted value weight) sums
    (m*total.2≤total.1 ∧ total.1≤M*total.2) ∧ sums.2≤total.2 ∧
      ∀ k∈l,counted k → sums.2+weight k≤total.2 := by
  induction l generalizing sums with
  | nil => exact ⟨⟨hlow,hhigh⟩,le_rfl,fun k hk => absurd hk List.not_mem_nil⟩
  | cons k l ih =>
    obtain ⟨hweight0,hweights⟩ := List.forall_mem_cons.mp hweight
    obtain ⟨hvalue0,hvalues⟩ := List.forall_mem_cons.mp hvalue
    by_cases hk : counted k
    · obtain ⟨hm,hM⟩ := hvalue0 hk
      have hstep : accumulate counted value weight sums k=
          (sums.1+value k*weight k,sums.2+weight k) := if_pos hk
      obtain ⟨hbounds,hsum,hmem⟩ := ih hweights hvalues (sums.1+value k*weight k,sums.2+weight k)
        (by dsimp only; linarith [mul_le_mul_of_nonneg_right hm hweight0])
        (by dsimp only; linarith [mul_le_mul_of_nonneg_right hM hweight0])
      rw [List.foldl_cons,hstep]
      dsimp only at hsum hmem
      refine ⟨hbounds,by linarith,fun k' hk' hcounted => ?_⟩
      rcases List.mem_cons.mp hk' with rfl | hlater
      · exact hsum
      · have hlast := hmem k' hlater hcounted
        linarith
    · have hstep : accumulate counted value weight sums k=sums := if_neg hk
      obtain ⟨hbounds,hsum,hmem⟩ := ih hweights hvalues sums hlow hhigh
      rw [List.foldl_cons,hstep]
      refine ⟨hbounds,hsum,fun k' hk' hcounted => ?_⟩
      rcases List.mem_cons.mp hk' with rfl | hlater
      · exact absurd hcounted hk
      · exact hmem k' hlater hcounted

end Mean

end NcdfPlugin.LinearFiltering
