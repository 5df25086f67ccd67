import NcdfPlugin.LinearFiltering
import NcdfPlugin.NcdfTexelBuffer
import NcdfPlugin.NcdfColorMap
import Mathlib.Algebra.BigOperators.Fin
import Mathlib.Data.Fin.VecNotation
import Mathlib.Tactic.FinCases

/-!
# The fragment shader

The shader of the grid overlays samples the data texture sixteen times around
a fragment and weighs the visible samples with a cubic B-spline. A fragment
is discarded by the alpha at its centre. Any other fragment gets the colour
of a value between the bytes of the texels around it.
-/

namespace NcdfPlugin.NcdfShader

open ExactArithmetic TextureSampling LinearFiltering NcdfMessage NcdfReader NcdfInterpolation
open NcdfOverlay NcdfColorMap NcdfTextureLookup NcdfQuantisation NcdfTexelBuffer
open ByteBuffer (InFrame)

section Program

variable {α : Type} [Field α]

/-- Red and alpha of a sample. -/
structure Tap (α : Type) where
  /-- Normalized value. -/
  r : α
  /-- Validity. -/
  a : α

/-- `cubic`: weights of four neighbouring samples. -/
def cubic (t : α) : Fin 4 → α :=
  let t2 := t*t
  let t3 := t2*t
  fun k => ![-t3+(3 : ℕ)*t2-(3 : ℕ)*t+1,(3 : ℕ)*t3-(6 : ℕ)*t2+(4 : ℕ),
    -(3 : ℕ)*t3+(3 : ℕ)*t2+(3 : ℕ)*t+1,t3] k/(6 : ℕ)

/-- The four cubic weights as polynomials over six. -/
theorem cubic_eq (t : α) (k : Fin 4) : cubic t k=
    ![-(t*t*t)+3*(t*t)-3*t+1,3*(t*t*t)-6*(t*t)+4,-3*(t*t*t)+3*(t*t)+3*t+1,t*t*t] k/6 := by
  simp only [cubic,Nat.cast_ofNat]

/-- The weights after the division by their sum. -/
def tapWeights (t : α) : Fin 4 → α := fun k => cubic t k/∑ i,cubic t i

/-- The two loops over the samples, `j` outside. -/
def tapOrder : List (Fin 4×Fin 4) :=
  (List.finRange 4).flatMap fun j => (List.finRange 4).map fun i => (j,i)

/-- Alpha above which a sample counts. -/
def alphaLimit : α := decimal 1 100

/-- Step of a sample from the centre, from minus one to two. -/
def tapStep (k : Fin 4) : α := (k : ℕ)-1

/-- Sample of one turn of the loops. -/
def tapAt (tex : α → α → Tap α) (u v w h : α) (k : Fin 4×Fin 4) : Tap α :=
  tex ((u*w-half+tapStep k.2+half)*(1/w)) ((v*h-half+tapStep k.1+half)*(1/h))

variable [LinearOrder α] [FloorRing α]

/-- Weight of one turn of the loops. -/
def tapWeight (u v w h : α) (k : Fin 4×Fin 4) : α :=
  tapWeights (Int.fract (u*w-half)) k.2*tapWeights (Int.fract (v*h-half)) k.1

/-- A sample is visible enough to count. -/
def Counted (tex : α → α → Tap α) (u v w h : α) (k : Fin 4×Fin 4) : Prop :=
  alphaLimit<(tapAt tex u v w h k).a

instance (tex : α → α → Tap α) (u v w h : α) : DecidablePred (Counted tex u v w h) := fun _ =>
  inferInstanceAs (Decidable (_<_))

/-- `val` and `wSum` after the loops. -/
def tapSums (tex : α → α → Tap α) (u v w h : α) : α×α :=
  tapOrder.foldl (accumulate (Counted tex u v w h) (fun k => (tapAt tex u v w h k).r)
    (tapWeight u v w h)) (0,0)

/-- `bicubicLum`. -/
def bicubicLum (tex : α → α → Tap α) (u v w h : α) : α :=
  let sums := tapSums tex u v w h
  if 0 < sums.2 then sums.1/sums.2 else -1

/-- `main`: none for a discarded fragment. -/
def shade {γ : Type} (tex : α → α → Tap α) (colorLUT : α → γ) (u v w h : α) : Option γ :=
  if (tex u v).a<alphaLimit then none
  else
    let sampled := bicubicLum tex u v w h
    if sampled<0 then none else some (colorLUT sampled)

/-- Byte of a texture as the shader reads it. -/
def unitByte (b : ℕ) : α := b/(255 : ℕ)

/-- Sample of the uploaded data texture. -/
def dataTex (t : TextureData α) (u v : α) : Tap α :=
  let image := textureImage (byteOps t) t
  ⟨linearSample t.repeats (texWidth t) (texHeight t) (fun p => unitByte (image p).red) u v,
    linearSample t.repeats (texWidth t) (texHeight t) (fun p => unitByte (image p).alpha) u v⟩

/-- Sample of the uploaded colour table, for one channel. -/
def colorTex (color : ColorFunc → α → Rgb) (lut : ColorLUT α) (channel : Rgb → ℕ) (x : α) : α :=
  linearSample1 256 (fun k => unitByte (channel (color lut.colorFunc (lutValue lut k)))) x

/-- A fragment of an overlay, for one channel. -/
def fragment (color : ColorFunc → α → Rgb) (lut : ColorLUT α) (channel : Rgb → ℕ)
    (t : TextureData α) (u v : α) : Option α :=
  shade (dataTex t) (colorTex color lut channel) u v (texWidth t) (texHeight t)

end Program

section Weights

variable {α : Type} [Field α] [LinearOrder α] [IsStrictOrderedRing α]

/-- The cubic weights have sum one already. -/
theorem sum_cubic (t : α) : ∑ k,cubic t k=1 := by
  simp only [cubic_eq,Fin.sum_univ_four,Matrix.cons_val]
  ring

/-- The weights of the shader are the cubic ones, in the order of the taps. -/
theorem tapWeights_eq (t : α) : tapWeights t=cubic t := by
  funext k
  rw [tapWeights,sum_cubic,div_one]

/-- The weights of a fraction are not negative. -/
theorem cubic_nonneg {t : α} (h0 : 0≤t) (h1 : t≤1) (k : Fin 4) : 0 ≤ cubic t k := by
  have hcomplement : 0≤1-t := sub_nonneg.mpr h1
  rw [cubic_eq]
  refine div_nonneg ?_ (by norm_num)
  fin_cases k <;> simp only [Fin.zero_eta,Fin.mk_one,Fin.reduceFinMk,Matrix.cons_val]
  · have hcube : -(t*t*t)+3*(t*t)-3*t+1=(1-t)*(1-t)*(1-t) := by ring
    rw [hcube]
    positivity
  · have hsplit : 3*(t*t*t)-6*(t*t)+4=1+3*((1-t)*(1+t*(1-t))) := by ring
    rw [hsplit]
    positivity
  · have hsplit : -3*(t*t*t)+3*(t*t)+3*t+1=1+3*(t*(1+t*(1-t))) := by ring
    rw [hsplit]
    positivity
  · positivity

/-- The sample at the centre has a positive weight. -/
theorem cubic_one_pos {t : α} (h0 : 0≤t) (h1 : t≤1) : 0 < cubic t 1 := by
  have hcomplement : 0≤1-t := sub_nonneg.mpr h1
  have hsplit : 3*(t*t*t)-6*(t*t)+4=1+3*((1-t)*(1+t*(1-t))) := by ring
  rw [cubic_eq]
  refine div_pos ?_ (by norm_num)
  simp only [Matrix.cons_val]
  rw [hsplit]
  positivity

variable [FloorRing α]

/-- Weights of taps are products of cubic weights, so none is negative. -/
theorem tapWeight_nonneg (u v w h : α) (k : Fin 4×Fin 4) : 0 ≤ tapWeight u v w h k := by
  rw [tapWeight,tapWeights_eq,tapWeights_eq]
  exact mul_nonneg (cubic_nonneg (Int.fract_nonneg _) (Int.fract_lt_one _).le _)
    (cubic_nonneg (Int.fract_nonneg _) (Int.fract_lt_one _).le _)

/-- The tap at the fragment itself always counts. -/
theorem tapWeight_centre_pos (u v w h : α) : 0 < tapWeight u v w h (1,1) := by
  rw [tapWeight,tapWeights_eq,tapWeights_eq]
  exact mul_pos (cubic_one_pos (Int.fract_nonneg _) (Int.fract_lt_one _).le)
    (cubic_one_pos (Int.fract_nonneg _) (Int.fract_lt_one _).le)

end Weights

section Discard

variable {α : Type} [Field α] [LinearOrder α] [IsStrictOrderedRing α] [FloorRing α]
variable {tex : α → α → Tap α} {u v w h : α}

/-- Every tap is read. -/
theorem mem_tapOrder (k : Fin 4×Fin 4) : k∈tapOrder :=
  List.mem_flatMap.mpr ⟨k.1,List.mem_finRange _,List.mem_map.mpr ⟨k.2,List.mem_finRange _,rfl⟩⟩

omit [LinearOrder α] [IsStrictOrderedRing α] [FloorRing α] in
/-- The sample of the loops at step zero is the centre. -/
theorem tapAt_centre (hw : w≠0) (hh : h≠0) : tapAt tex u v w h (1,1)=tex u v := by
  have hstep : (tapStep 1 : α)=0 := by simp [tapStep]
  have hu : (u*w-half+0+half)*(1/w)=u := by field_simp; ring
  have hv : (v*h-half+0+half)*(1/h)=v := by field_simp; ring
  simp only [tapAt,hstep,hu,hv]

/-- Bounds of the counted samples bound the sums of the loops, weighted sum against sum of
weights. -/
theorem tapSums_spec {m M : α}
    (hvalue : ∀ k,Counted tex u v w h k → m≤(tapAt tex u v w h k).r ∧ (tapAt tex u v w h k).r≤M) :
    (m*(tapSums tex u v w h).2≤(tapSums tex u v w h).1 ∧
      (tapSums tex u v w h).1≤M*(tapSums tex u v w h).2) ∧ 0≤(tapSums tex u v w h).2 ∧
      ∀ k,Counted tex u v w h k → tapWeight u v w h k≤(tapSums tex u v w h).2 := by
  obtain ⟨hbounds,hsum,hmem⟩ := foldl_accumulate (l := tapOrder) (m := m) (M := M)
    (fun k _ => tapWeight_nonneg u v w h k) (fun k _ => hvalue k) (0,0) (by simp) (by simp)
  exact ⟨hbounds,hsum,fun k hk => (zero_add (tapWeight u v w h k)).ge.trans (hmem k (mem_tapOrder k) hk)⟩

/-- A visible weight exists: some counted sample has a positive weight. -/
def HasTap (tex : α → α → Tap α) (u v w h : α) : Prop :=
  ∃ k,Counted tex u v w h k ∧ 0 < tapWeight u v w h k

/-- The sum of the weights is positive exactly when a counted sample has a
positive weight. -/
theorem tapSums_pos_iff : 0<(tapSums tex u v w h).2 ↔ HasTap tex u v w h := by
  constructor
  · intro hpos
    by_contra hnone
    have hzero (k : Fin 4×Fin 4) (hk : Counted tex u v w h k) : tapWeight u v w h k=0 :=
      le_antisymm (not_lt.mp fun hlt => hnone ⟨k,hk,hlt⟩) (tapWeight_nonneg u v w h k)
    have hkeep (l : List (Fin 4×Fin 4)) (sums : α×α) : (l.foldl (accumulate (Counted tex u v w h)
        (fun k => (tapAt tex u v w h k).r) (tapWeight u v w h)) sums).2=sums.2 := by
      induction l generalizing sums with
      | nil => rfl
      | cons k l ih =>
        rw [List.foldl_cons,ih,accumulate]
        split
        next hk => rw [hzero k hk,add_zero]
        next => rfl
    exact hpos.ne' (hkeep tapOrder (0,0))
  · rintro ⟨k,hk,hweight⟩
    -- bounds for the finitely many samples exist, and they are not needed further
    obtain ⟨m,M,hvalue⟩ : ∃ m M : α,∀ k,Counted tex u v w h k →
        m≤(tapAt tex u v w h k).r ∧ (tapAt tex u v w h k).r≤M := by
      refine ⟨-∑ k,|(tapAt tex u v w h k).r|,∑ k,|(tapAt tex u v w h k).r|,fun k _ => ?_⟩
      have hle := Finset.single_le_sum (f := fun k => |(tapAt tex u v w h k).r|)
        (fun k _ => abs_nonneg _) (Finset.mem_univ k)
      exact ⟨by linarith [neg_abs_le (tapAt tex u v w h k).r],(le_abs_self _).trans hle⟩
    exact hweight.trans_le ((tapSums_spec hvalue).2.2 k hk)

/-- Bounds of the counted samples bound the quotient that is looked up, wherever any sample
counts. -/
theorem bicubicLum_bounds {m M : α}
    (hvalue : ∀ k,Counted tex u v w h k → m≤(tapAt tex u v w h k).r ∧ (tapAt tex u v w h k).r≤M)
    (hpos : HasTap tex u v w h) : m≤bicubicLum tex u v w h ∧ bicubicLum tex u v w h≤M := by
  have hsum := tapSums_pos_iff.mpr hpos
  obtain ⟨⟨hlow,hhigh⟩,-⟩ := tapSums_spec hvalue
  rw [bicubicLum,if_pos hsum]
  exact ⟨(le_div_iff₀ hsum).mpr hlow,(div_le_iff₀ hsum).mpr hhigh⟩

/-- A fragment is drawn exactly when its centre is visible, in a texture
without negative values. At the limit itself a neighbour has to be visible. -/
theorem shade_isSome_iff {γ : Type} {colorLUT : α → γ} (hw : w≠0) (hh : h≠0)
    (hred : ∀ u v,0≤(tex u v).r) :
    (shade tex colorLUT u v w h).isSome ↔
      alphaLimit<(tex u v).a ∨ alphaLimit=(tex u v).a ∧ HasTap tex u v w h := by
  have hvisible : 0≤bicubicLum tex u v w h ↔ HasTap tex u v w h := by
    constructor
    · intro hlum
      by_contra hnone
      have hsum := mt tapSums_pos_iff.mp hnone
      rw [bicubicLum,if_neg hsum] at hlum
      linarith [one_pos (α:=α)]
    · intro hpos
      have hsum := tapSums_pos_iff.mpr hpos
      have hvalue (k : Fin 4×Fin 4) (_ : Counted tex u v w h k) : 0≤(tapAt tex u v w h k).r ∧
          (tapAt tex u v w h k).r≤∑ k,(tapAt tex u v w h k).r :=
        ⟨hred _ _,Finset.single_le_sum (f := fun k => (tapAt tex u v w h k).r)
          (fun k _ => hred _ _) (Finset.mem_univ k)⟩
      have hlow := (tapSums_spec hvalue).1.1
      rw [bicubicLum,if_pos hsum]
      exact div_nonneg (by simpa using hlow) hsum.le
  have hcentre (hlt : alphaLimit<(tex u v).a) : HasTap tex u v w h :=
    ⟨(1,1),by rw [Counted,tapAt_centre hw hh]; exact hlt,tapWeight_centre_pos u v w h⟩
  unfold shade
  rcases lt_trichotomy (tex u v).a alphaLimit with hlt | heq | hgt
  · simp [hlt,hlt.not_gt,hlt.ne']
  · simp [heq,←hvisible]
  · simp [hgt,hgt.not_gt,hgt.ne,not_lt.mpr (hvisible.mpr (hcentre hgt))]

/-- Whole turns make no difference to a shaded fragment when the texture does
not see them. -/
theorem shade_add_turns {γ : Type} {colorLUT : α → γ} {n : ℕ} (hn : 0<n) {z : ℤ}
    (htex : ∀ u v,tex (u+z) v=tex u v) (u v : α) :
    shade tex colorLUT (u+z) v n h=shade tex colorLUT u v n h := by
  have hn' : (n : α)≠0 := Nat.cast_ne_zero.mpr hn.ne'
  have hpos : (u+z)*n-half=u*n-half+((z*n : ℤ) : α) := by
    push_cast
    ring
  have htap (k : Fin 4×Fin 4) : tapAt tex (u+z) v n h k=tapAt tex u v n h k := by
    have hplace : ((u+z)*n-half+tapStep k.2+half)*(1/n)=(u*n-half+tapStep k.2+half)*(1/n)+z := by
      field_simp
      ring
    rw [tapAt,tapAt,hplace,htex]
  have hweight : tapWeight (u+z) v n h=tapWeight u v n h := by
    funext k
    rw [tapWeight,tapWeight,hpos,Int.fract_add_intCast]
  have hturn : accumulate (Counted tex (u+z) v n h) (fun k => (tapAt tex (u+z) v n h k).r)
      (tapWeight (u+z) v n h)=accumulate (Counted tex u v n h) (fun k => (tapAt tex u v n h k).r)
        (tapWeight u v n h) := by
    funext sums k
    unfold accumulate
    exact if_congr (by rw [Counted,Counted,htap]) (by simp only [htap,hweight]) rfl
  have hsums : tapSums tex (u+z) v n h=tapSums tex u v n h := by
    rw [tapSums,hturn,tapSums]
  rw [shade,shade,htex,bicubicLum,bicubicLum,hsums]

end Discard

end NcdfPlugin.NcdfShader
