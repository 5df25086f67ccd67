import NcdfPlugin.ByteBuffer
import NcdfPlugin.NcdfGridAccess
import NcdfPlugin.NcdfQuantisation

/-!
# Bytes of a texture

The texels once more as the bytes of a flat buffer, with the offsets that the
program computes in signed integers. As long as the size of the buffer is in
the range of these integers, every cell is written, every access is inside
the buffer, and the bytes are those of the texture image: values with alpha
255 in the middle and around them the colours of the nearest texels with
alpha zero. A larger size wraps, and the first cell is already written outside
the buffer.
-/

namespace NcdfPlugin.NcdfTexelBuffer

open ExactArithmetic InPlaceSweep ByteBuffer NcdfMessage NcdfReader NcdfInterpolation NcdfOverlay
open NcdfTextureLookup NcdfQuantisation
open NcdfGridAccess (IsInt32 signedBound int32 int32_of_isInt32)

section Program

variable {α : Type}

/-- Conversion of an `int` to `size_t`. -/
def sizeT (z : ℤ) : ℕ := (z%18446744073709551616).toNat

variable (toInt : ℤ → ℤ) (t : TextureData α)

/-- `tw`. -/
def texWidthInt : ℤ := toInt (toInt (t.ni+2*borderH t)+extraCol t)

/-- `th`. -/
def texHeightInt : ℤ := toInt (t.nj+2)

/-- `tw * th * 4`. -/
def bufferSize : ℤ := toInt (toInt (texWidthInt toInt t*texHeightInt toInt t)*4)

/-- Column of a node in the texture. -/
def nodeX (i : ℕ) : ℤ := toInt (i+borderH t)

/-- Row of a node in the texture. -/
def nodeY (j : ℕ) : ℤ := toInt (texRow t j+1)

/-- `4 * (y * tw + x)`. -/
def texelOff (y x : ℤ) : ℤ := toInt (4*toInt (toInt (y*texWidthInt toInt t)+x))

/-- `4 * y * tw`. -/
def rowOff (y : ℤ) : ℤ := toInt (toInt (4*y)*texWidthInt toInt t)

/-- `4 * (y * tw + tw - back)`. -/
def backOff (y back : ℤ) : ℤ :=
  toInt (4*toInt (toInt (toInt (y*texWidthInt toInt t)+texWidthInt toInt t)-back))

/-- `4 * tw`. -/
def rowBytes : ℤ := toInt (4*texWidthInt toInt t)

/-- A node that the first loop passes over. -/
def Skipped (c : ℕ×ℕ) : Prop :=
  toInt (texWidthInt toInt t-1) ≤ nodeX toInt t c.2 ∨
    toInt (texHeightInt toInt t-1) ≤ nodeY toInt t c.1

instance (c : ℕ×ℕ) : Decidable (Skipped toInt t c) := inferInstanceAs (Decidable (_ ∨ _))

/-- The alpha at an offset is cleared. -/
def clearAlpha (off : ℤ) : ByteOp ℕ := .store (toInt (off+3)) 0

/-- The column behind the grid is a copy of column zero. -/
def repeatOps : List (ByteOp ℕ) :=
  ((List.range t.nj).filter fun j => decide ¬toInt (texHeightInt toInt t-1) ≤ nodeY toInt t j).flatMap
    fun j => [.copy (texelOff toInt t (nodeY toInt t j) t.ni) (texelOff toInt t (nodeY toInt t j) 0) 4]

/-- First and last row. -/
def borderRowOps : List (ByteOp ℕ) :=
  let tw := texWidthInt toInt t
  let th := texHeightInt toInt t
  let bytes := sizeT (rowBytes toInt t)
  [.copy 0 (rowBytes toInt t) bytes,
    .copy (toInt (rowBytes toInt t*toInt (th-1))) (toInt (rowBytes toInt t*toInt (th-2))) bytes]++
  (List.range tw.toNat).flatMap fun x : ℕ =>
    [clearAlpha toInt (toInt (4*x)),clearAlpha toInt (texelOff toInt t (toInt (th-1)) x)]

/-- First and last column. -/
def borderColumnOps : List (ByteOp ℕ) :=
  let rows := List.range (texHeightInt toInt t).toNat
  (rows.flatMap fun y : ℕ =>
    [.copy (rowOff toInt t y) (texelOff toInt t y 1) 4,.copy (backOff toInt t y 1) (backOff toInt t y 2) 4])++
  rows.flatMap fun y : ℕ =>
    [clearAlpha toInt (rowOff toInt t y),clearAlpha toInt (backOff toInt t y 1)]

variable [Field α] [LinearOrder α] [FloorRing α]

/-- Bytes that are written for a value: two for a missing one, else all. -/
def cellBytes (range : DataRange α) (val : α) : List (ℕ×ℕ) :=
  if val=notDef then [(0,0),(3,0)]
  else [(0,encoded (normalized range val)),(1,0),(2,0),(3,255)]

/-- The two loops over the grid. -/
def fillOps : List (ByteOp ℕ) :=
  (((List.range t.nj).flatMap fun j => (List.range t.ni).map fun i => (j,i)).filter fun c =>
    decide ¬Skipped toInt t c).flatMap fun c =>
      (cellBytes t.range (cellAt t.grid c.1 c.2)).map fun b =>
        .store (toInt (texelOff toInt t (nodeY toInt t c.1) (nodeX toInt t c.2)+b.1)) b.2

/-- All that is done to the buffer. -/
def bufferOps : List (ByteOp ℕ) :=
  [.fill 0 (sizeT (bufferSize toInt t)) 0]++fillOps toInt t++
    (if t.repeats=true then repeatOps toInt t else [])++borderRowOps toInt t++
    (if t.repeats=true then [] else borderColumnOps toInt t)

end Program

section Purpose

variable {α : Type}

/-- Byte of a texel. -/
def byteAt (t : TextureData α) (bytes : ℤ → ℕ) (p : ℕ×ℕ) (c : ℕ) : ℕ :=
  bytes (4*(p.1*texWidth t+p.2)+c)

/-- Texel of the border: in the first or last row or, unless the columns
repeat, column. -/
def OnBorder (t : TextureData α) (p : ℕ×ℕ) : Prop :=
  p.1=0 ∨ p.1=texHeight t-1 ∨ t.repeats=false ∧ (p.2=0 ∨ p.2=texWidth t-1)

/-- The nearest texel that is not on the border. -/
def nearest (t : TextureData α) (p : ℕ×ℕ) : ℕ×ℕ :=
  (max 1 (min p.1 (texHeight t-2)),
    if t.repeats=true then p.2 else max 1 (min p.2 (texWidth t-2)))

variable [Field α] [LinearOrder α] [FloorRing α]

/-- The bytes of a finished texture. -/
structure Finished (t : TextureData α) (bytes : ℤ → ℕ) : Prop where
  /-- Values have alpha 255 and their byte. -/
  values : ∀ j<t.nj,∀ i<t.ni,cellAt t.grid j i≠notDef →
    byteAt t bytes (nodePlace t (j,i)) 3=255 ∧
      byteAt t bytes (nodePlace t (j,i)) 0=encoded (normalized t.range (cellAt t.grid j i))
  /-- Missing values have alpha zero. -/
  missing : ∀ j<t.nj,∀ i<t.ni,cellAt t.grid j i=notDef → byteAt t bytes (nodePlace t (j,i)) 3=0
  /-- The border has alpha zero and the colours of the nearest texels. -/
  border : ∀ p,InFrame (texWidth t) (texHeight t) p → OnBorder t p →
    byteAt t bytes p 3=0 ∧ ∀ c<3,byteAt t bytes p c=byteAt t bytes (nearest t p) c
  /-- Around the globe the column behind the grid is column zero. -/
  repeated : t.repeats=true → ∀ y<texHeight t,∀ c<4,
    byteAt t bytes (y,t.ni) c=byteAt t bytes (y,0) c

/-- No cell is skipped, all accesses are inside the buffer, and the texture is
finished in the end, whatever was in the buffer before. A size below zero is
refused and nothing is built. -/
def Built (toInt : ℤ → ℤ) (t : TextureData α) : Prop :=
  0 ≤ bufferSize toInt t →
    (∀ j<t.nj,∀ i<t.ni,¬Skipped toInt t (j,i)) ∧
    ∀ bytes,∃ bytes',exec (bufferSize toInt t) (bufferOps toInt t) bytes=some bytes' ∧
      Finished t bytes'

end Purpose

section Image

variable {α τ : Type}

/-- Every node has its texel within the texture. -/
theorem nodePlace_inFrame {t : TextureData α} {j i : ℕ} (hj : j < t.nj) (hi : i < t.ni) :
    InFrame (texWidth t) (texHeight t) (nodePlace t (j,i)) := by
  obtain ⟨hrow,hcolumn⟩ := nodePlace_inside (c := (j,i)) hj hi
  exact ⟨Nat.lt_of_succ_lt hrow,Nat.lt_of_succ_lt hcolumn⟩

/-- Every row inside the border is the row of a grid row. -/
theorem exists_texRow (t : TextureData α) {y : ℕ} (hlow : 1≤y) (hhigh : y ≤ t.nj) :
    ∃ j<t.nj,texRow t j+1=y := by
  by_cases hup : t.rowsUp=true
  · exact ⟨y-1,by omega,by unfold texRow; rw [if_pos hup]; omega⟩
  · exact ⟨t.nj-y,by omega,by unfold texRow; rw [if_neg hup]; omega⟩

/-- A texture of two columns or more has at least three texels in a row. -/
theorem three_le_texWidth {t : TextureData α} (hni : 1 < t.ni) : 3 ≤ texWidth t := by
  unfold texWidth borderH extraCol
  split <;> omega

/-- The nearest index inside a border. -/
theorem clamp_inside {n : ℕ} (hn : 3≤n) (v : ℕ) :
    max 1 (min v (n-2))≠0 ∧ max 1 (min v (n-2))≠n-1 := by omega

/-- The first and the last row of texels are their neighbours without alpha. -/
theorem borderRows_nearest (ops : TexelOps τ) {t : TextureData α} (hnj : 0 < t.nj) (image : Image τ)
    {y : ℕ} (hy : y=0 ∨ y=texHeight t-1) (x : ℕ) :
    borderRows ops t image (y,x)=
      ops.transparent (borderRows ops t image (max 1 (min y (texHeight t-2)),x)) := by
  have hheight : texHeight t=t.nj+2 := rfl
  have hinside := clamp_inside (n := texHeight t) (by omega) y
  unfold borderRows
  dsimp only
  rw [if_neg hinside.1,if_neg hinside.2]
  rcases hy with rfl | rfl
  · rw [if_pos rfl,min_eq_left (Nat.zero_le _),max_eq_left zero_le_one]
  · rw [if_neg (by omega),if_pos rfl,min_eq_right (by omega),max_eq_right (by omega)]

/-- The first and the last column of texels are their neighbours without alpha, where the
texture does not repeat. -/
theorem borderColumns_nearest (ops : TexelOps τ) {t : TextureData α} (hwidth : 3 ≤ texWidth t)
    (image : Image τ) (y : ℕ) {x : ℕ} (hx : x=0 ∨ x=texWidth t-1) :
    borderColumns ops t image (y,x)=
      ops.transparent (borderColumns ops t image (y,max 1 (min x (texWidth t-2)))) := by
  have hinside := clamp_inside hwidth x
  unfold borderColumns
  dsimp only
  rw [if_neg hinside.1,if_neg hinside.2]
  rcases hx with rfl | rfl
  · rw [if_pos rfl,min_eq_left (Nat.zero_le _),max_eq_left zero_le_one]
  · rw [if_neg (by omega),if_pos rfl,min_eq_right (by omega),max_eq_right (by omega)]

/-- Between the first and the last column bordering changes nothing. -/
theorem borderColumns_of_inside (ops : TexelOps τ) {t : TextureData α} (image : Image τ) (y : ℕ)
    {x : ℕ} (hx : x≠0 ∧ x≠texWidth t-1) : borderColumns ops t image (y,x)=image (y,x) := by
  unfold borderColumns
  rw [if_neg hx.1,if_neg hx.2]

/-- A texel of the border has the value of the nearest texel inside, without alpha. -/
theorem textureImage_border (ops : TexelOps τ)
    (htwice : ∀ v,ops.transparent (ops.transparent v)=ops.transparent v) {t : TextureData α}
    (hni : 0 < t.ni) (hnj : 0 < t.nj) {p : ℕ×ℕ} (hp : InFrame (texWidth t) (texHeight t) p)
    (hborder : OnBorder t p) :
    textureImage ops t p=ops.transparent (textureImage ops t (nearest t p)) := by
  obtain ⟨y,x⟩ := p
  have hheight : texHeight t=t.nj+2 := rfl
  unfold OnBorder at hborder
  unfold InFrame at hp
  dsimp only at hborder hp
  cases ht : t.repeats with
  | true =>
    have hrow : y=0 ∨ y=texHeight t-1 := by simpa [ht] using hborder
    unfold textureImage nearest
    simp only [ht,if_true]
    exact borderRows_nearest ops hnj _ hrow x
  | false =>
    obtain ⟨-,hwidth⟩ := frame_bordered ht
    unfold textureImage nearest
    simp only [ht,Bool.false_eq_true,if_false]
    have hinside := clamp_inside (n := texWidth t) (by omega) x
    by_cases hx : x=0 ∨ x=texWidth t-1
    · -- in a corner the alpha is cleared with the row and with the column
      rw [borderColumns_nearest ops (by omega) _ y hx,borderColumns_of_inside ops _ _ hinside,
        borderColumns_of_inside ops _ _ hinside]
      by_cases hy : y=0 ∨ y=texHeight t-1
      · rw [borderRows_nearest ops hnj _ hy,htwice]
      · have hrow : max 1 (min y (texHeight t-2))=y := by omega
        rw [hrow]
    · have hy : y=0 ∨ y=texHeight t-1 := by
        simp only [ht,true_and] at hborder
        omega
      have hcolumn : max 1 (min x (texWidth t-2))=x := by omega
      rw [hcolumn] at hinside ⊢
      rw [borderColumns_of_inside ops _ _ hinside,borderColumns_of_inside ops _ _ hinside]
      exact borderRows_nearest ops hnj _ hy x

/-- Around the globe the column of texels behind the grid repeats column zero, at every
height. -/
theorem textureImage_repeated (ops : TexelOps τ) {t : TextureData α} (ht : t.repeats=true)
    (hni : 0 < t.ni) (hnj : 0 < t.nj) {y : ℕ} (hy : y<texHeight t) :
    textureImage ops t (y,t.ni)=textureImage ops t (y,0) := by
  have hheight : texHeight t=t.nj+2 := rfl
  have hcolumns {y : ℕ} (hlow : 1≤y) (hhigh : y ≤ t.nj) :
      textureImage ops t (y,t.ni)=textureImage ops t (y,0) := by
    obtain ⟨j,hj,rfl⟩ := exists_texRow t hlow hhigh
    rw [image_repeats ops ht hj hni le_rfl,image_repeats ops ht hj hni (Nat.zero_le _),if_pos rfl,
      if_neg hni.ne]
  by_cases hrow : y=0 ∨ y=texHeight t-1
  · -- the border rows are copied after the column
    unfold textureImage at hcolumns ⊢
    simp only [ht,if_true] at hcolumns ⊢
    rw [borderRows_nearest ops hnj _ hrow,borderRows_nearest ops hnj _ hrow,
      hcolumns (by omega) (by omega)]
  · exact hcolumns (by omega) (by omega)

end Image

section Bytes

variable {α : Type} [Field α] [LinearOrder α] [FloorRing α]

/-- The four bytes of a texel. -/
def rgba (v : Texel) : ℕ → ℕ
  | 0 => v.red
  | 3 => v.alpha
  | _ => 0

/-- Without alpha the colours are the same. -/
theorem rgba_transparent (v : Texel) {c : ℕ} (hc : c<3) : rgba {v with alpha := 0} c=rgba v c :=
  match c,hc with
  | 0,_ => rfl
  | 1,_ => rfl
  | 2,_ => rfl

omit [Field α] [LinearOrder α] [FloorRing α] in
/-- A byte of the buffer is the channel of its texel once the buffer holds the image. -/
theorem byteAt_of_holds {t : TextureData α} {bytes : ℤ → ℕ} {image : Image Texel}
    (himage : Holds 4 (texWidth t) (texHeight t) bytes (rgba∘image)) {p : ℕ×ℕ}
    (hp : InFrame (texWidth t) (texHeight t) p) {c : ℕ} (hc : c<4) :
    byteAt t bytes p c=rgba (image p) c := by
  rw [←Function.comp_apply (f := rgba),←himage p hp c hc]
  unfold byteAt slot
  push_cast
  rfl

/-- A buffer that holds the image of a texture is finished as one would have it: nodes,
border and repetition. -/
theorem finished_of_holds {t : TextureData α} (hni : 1 < t.ni) (hnj : 1 < t.nj) {bytes : ℤ → ℕ}
    (himage : Holds 4 (texWidth t) (texHeight t) bytes (rgba∘textureImage (byteOps t) t)) :
    Finished t bytes := by
  have hcell {j i : ℕ} (hj : j < t.nj) (hi : i < t.ni) {c : ℕ} (hc : c<4) :
      byteAt t bytes (nodePlace t (j,i)) c=rgba (texelOf t.range (cellAt t.grid j i)) c := by
    rw [byteAt_of_holds himage (nodePlace_inFrame hj hi) hc,textureImage_nodePlace hj hi]
  refine ⟨fun j hj i hi hv => ⟨?_,?_⟩,fun j hj i hi hv => ?_,fun p hp hborder => ?_,
    fun ht y hy c hc => ?_⟩
  · rw [hcell hj hi (by decide),texelOf,if_neg hv]
    rfl
  · rw [hcell hj hi (by decide),←texelOf_red t.range hv]
    rfl
  · rw [hcell hj hi (by decide),texelOf,if_pos hv]
    rfl
  · have hnearest : InFrame (texWidth t) (texHeight t) (nearest t p) := by
      have hwidth := three_le_texWidth hni
      have hheight : texHeight t=t.nj+2 := rfl
      unfold InFrame at hp
      unfold nearest InFrame
      dsimp only
      split <;> omega
    have htexel := textureImage_border (byteOps t) (fun _ => rfl) (by omega) (by omega) hp hborder
    refine ⟨?_,fun c hc => ?_⟩
    · rw [byteAt_of_holds himage hp (by decide),htexel]
      rfl
    · rw [byteAt_of_holds himage hp (by omega),byteAt_of_holds himage hnearest (by omega),htexel]
      exact rgba_transparent _ hc
  · have hwidth : t.ni < texWidth t := by
      have := (frame_repeats ht).2
      omega
    rw [byteAt_of_holds himage ⟨hy,hwidth⟩ hc,byteAt_of_holds himage ⟨hy,by omega⟩ hc,
      textureImage_repeated _ ht (by omega) (by omega) hy]

end Bytes

section Exact

variable {α : Type} {toInt : ℤ → ℤ} {t : TextureData α}

/-- Integers are converted as they should be while they are in range, and the
size of the buffer is in range. -/
structure Fits (toInt : ℤ → ℤ) (t : TextureData α) : Prop where
  /-- The grid has rows and columns. -/
  size : 1 < t.ni ∧ 1 < t.nj
  /-- Representable integers are kept. -/
  keeps : ∀ z,IsInt32 z → toInt z=z
  /-- The number of bytes is representable. -/
  small : 4*(texWidth t*texHeight t)<2147483648

/-- Results below the size of the buffer are exact. -/
theorem Fits.exact (h : Fits toInt t) {z : ℤ} {n : ℕ} (hz : z=n)
    (hn : n≤4*(texWidth t*texHeight t)) : toInt z=n := by
  have hsmall := h.small
  rw [h.keeps z (by unfold IsInt32 signedBound; omega),hz]

/-- Sizes of a texture that fits, as the arithmetic of the offsets needs them. -/
theorem Fits.frame (h : Fits toInt t) :
    3 ≤ texWidth t ∧ 4 ≤ texHeight t ∧ texWidth t ≤ texWidth t*texHeight t ∧
      texHeight t ≤ texWidth t*texHeight t := by
  obtain ⟨hni,hnj⟩ := h.size
  have hwidth := three_le_texWidth hni
  have hheight : 4 ≤ texHeight t := by
    unfold texHeight
    omega
  exact ⟨hwidth,hheight,Nat.le_mul_of_pos_right _ (by omega),Nat.le_mul_of_pos_left _ (by omega)⟩

/-- The width in int arithmetic is the width. -/
theorem Fits.texWidthInt_eq (h : Fits toInt t) : texWidthInt toInt t=texWidth t := by
  obtain ⟨-,-,hwidth,-⟩ := h.frame
  have hadded : t.ni+2*borderH t ≤ texWidth t := Nat.le_add_right _ _
  have hfirst : toInt (t.ni+2*borderH t)=(t.ni+2*borderH t : ℕ) :=
    h.exact (by push_cast; rfl) (by omega)
  unfold texWidthInt
  rw [hfirst]
  exact h.exact (by unfold texWidth; push_cast; rfl) (by omega)

/-- The height in int arithmetic is the height. -/
theorem Fits.texHeightInt_eq (h : Fits toInt t) : texHeightInt toInt t=texHeight t := by
  obtain ⟨-,-,-,hheight⟩ := h.frame
  exact h.exact (by unfold texHeight; push_cast; rfl) (by omega)

/-- The size of the buffer in int arithmetic is four bytes for each texel. -/
theorem Fits.bufferSize_eq (h : Fits toInt t) :
    bufferSize toInt t=(4*(texWidth t*texHeight t) : ℕ) := by
  have htexels : toInt (texWidth t*texHeight t)=(texWidth t*texHeight t : ℕ) :=
    h.exact (by push_cast; rfl) (by omega)
  unfold bufferSize
  rw [h.texWidthInt_eq,h.texHeightInt_eq,htexels]
  exact h.exact (by push_cast; ring) le_rfl

/-- Conversions of sizes within the buffer keep their values. -/
theorem Fits.sizeT_eq (h : Fits toInt t) {n : ℕ} (hn : n≤4*(texWidth t*texHeight t)) : sizeT n=n := by
  have hsmall := h.small
  unfold sizeT
  omega

/-- Offsets of texels in the frame. -/
theorem Fits.texelOff_eq (h : Fits toInt t) {y x : ℕ} (hy : y<texHeight t) (hx : x<texWidth t) :
    texelOff toInt t y x=slot 4 (texWidth t) (y,x) 0 := by
  have hflat := FlatLayout.flat_lt hy hx
  rw [mul_comm (texHeight t)] at hflat
  have hrow : toInt (y*texWidth t)=(y*texWidth t : ℕ) := h.exact (by push_cast; rfl) (by omega)
  have htexel : toInt ((y*texWidth t : ℕ)+x)=(y*texWidth t+x : ℕ) :=
    h.exact (by push_cast; rfl) (by omega)
  unfold texelOff
  rw [h.texWidthInt_eq,hrow,htexel]
  exact h.exact (by unfold slot; push_cast; ring) (by unfold slot; dsimp only; omega)

/-- The offset of a row is that of its first texel. -/
theorem Fits.rowOff_eq (h : Fits toInt t) {y : ℕ} (hy : y<texHeight t) :
    rowOff toInt t y=slot 4 (texWidth t) (y,0) 0 := by
  obtain ⟨hwidth,-,-,hheight⟩ := h.frame
  have hflat := FlatLayout.flat_lt (i := 0) hy (by omega : 0<texWidth t)
  rw [mul_comm (texHeight t)] at hflat
  have hfirst : toInt (4*y)=(4*y : ℕ) := h.exact (by push_cast; rfl) (by omega)
  unfold rowOff
  rw [h.texWidthInt_eq,hfirst]
  exact h.exact (by unfold slot; push_cast; ring) (by unfold slot; dsimp only; omega)

/-- An offset counted back from the end of a row is that of the texel there. -/
theorem Fits.backOff_eq (h : Fits toInt t) {y back : ℕ} (hy : y<texHeight t) (hpos : 0<back)
    (hback : back ≤ texWidth t) :
    backOff toInt t y back=slot 4 (texWidth t) (y,texWidth t-back) 0 := by
  have hflat := FlatLayout.flat_lt hy (by omega : texWidth t-back<texWidth t)
  have hrow := Nat.mul_le_mul_right (texWidth t) (Nat.succ_le_of_lt hy)
  rw [mul_comm (texHeight t)] at hflat hrow
  rw [Nat.succ_mul] at hrow
  have hstart : toInt (y*texWidth t)=(y*texWidth t : ℕ) := h.exact (by push_cast; rfl) (by omega)
  have hend : toInt ((y*texWidth t : ℕ)+texWidth t)=(y*texWidth t+texWidth t : ℕ) :=
    h.exact (by push_cast; rfl) (by omega)
  have htexel : toInt ((y*texWidth t+texWidth t : ℕ)-back)=(y*texWidth t+(texWidth t-back) : ℕ) :=
    h.exact (by omega) (by omega)
  unfold backOff
  rw [h.texWidthInt_eq,hstart,hend,htexel]
  exact h.exact (by unfold slot; push_cast; ring) (by unfold slot; dsimp only; omega)

/-- A row has four bytes for each of its texels. -/
theorem Fits.rowBytes_eq (h : Fits toInt t) : rowBytes toInt t=(4*texWidth t : ℕ) := by
  obtain ⟨-,-,hwidth,-⟩ := h.frame
  unfold rowBytes
  rw [h.texWidthInt_eq]
  exact h.exact (by push_cast; rfl) (by omega)

/-- Rows of the texture as multiples of the bytes of a row. -/
theorem Fits.rowStart_eq (h : Fits toInt t) {y : ℕ} (hy : y<texHeight t) :
    toInt (rowBytes toInt t*y)=slot 4 (texWidth t) (y,0) 0 := by
  obtain ⟨hwidth,-,-,-⟩ := h.frame
  have hflat := FlatLayout.flat_lt (i := 0) hy (by omega : 0<texWidth t)
  rw [mul_comm (texHeight t)] at hflat
  rw [h.rowBytes_eq]
  exact h.exact (by unfold slot; push_cast; ring) (by unfold slot; dsimp only; omega)

/-- The column of a node in int arithmetic is its column behind the border. -/
theorem Fits.nodeX_eq (h : Fits toInt t) {i : ℕ} (hi : i < t.ni) : nodeX toInt t i=(i+borderH t : ℕ) := by
  obtain ⟨-,-,hwidth,-⟩ := h.frame
  have hadded : t.ni+2*borderH t ≤ texWidth t := Nat.le_add_right _ _
  exact h.exact (by push_cast; rfl) (by omega)

/-- The row of a node in int arithmetic is its row behind the border. -/
theorem Fits.nodeY_eq (h : Fits toInt t) {j : ℕ} (hj : j < t.nj) :
    nodeY toInt t j=(texRow t j+1 : ℕ) := by
  obtain ⟨-,-,-,hheight⟩ := h.frame
  have hrow := texRow_lt t hj
  have hrows : texHeight t=t.nj+2 := rfl
  exact h.exact (by push_cast; rfl) (by omega)

/-- Numbers below the sizes of the frame stay as they are. -/
theorem Fits.pred_eq (h : Fits toInt t) {n k : ℕ} (hn : n≤texWidth t*texHeight t) (hk : k≤n) :
    toInt ((n : ℤ)-k)=(n-k : ℕ) := h.exact (by omega) (by omega)

/-- No cell is skipped. -/
theorem Fits.not_skipped (h : Fits toInt t) {j i : ℕ} (hj : j < t.nj) (hi : i < t.ni) :
    ¬Skipped toInt t (j,i) := by
  obtain ⟨hthree,hfour,hwidth,hheight⟩ := h.frame
  have hinside := nodePlace_inside (c := (j,i)) hj hi
  unfold nodePlace at hinside
  dsimp only at hinside
  have hone : ((1 : ℕ) : ℤ)=1 := rfl
  unfold Skipped
  rw [h.texWidthInt_eq,h.texHeightInt_eq,←hone,h.pred_eq hwidth (by omega),h.pred_eq hheight (by omega),
    h.nodeX_eq hi,h.nodeY_eq hj]
  omega

end Exact

section Stages

variable {α : Type} {toInt : ℤ → ℤ} {t : TextureData α}

/-- The bytes of a texel are found behind its offset, also in int arithmetic. -/
theorem Fits.byteOff_eq (h : Fits toInt t) {p : ℕ×ℕ} (hp : InFrame (texWidth t) (texHeight t) p)
    {off : ℤ} (hoff : off=slot 4 (texWidth t) p 0) {c : ℕ} (hc : c<4) :
    toInt (off+c)=slot 4 (texWidth t) p c := by
  have hlast := slot_add_le (k := 4) hp
  rw [hoff,←slot_zero_add p c]
  exact h.exact (by push_cast; rfl) (by omega)

/-- An image with one texel without alpha. -/
def clearTexel (image : Image Texel) (p : ℕ×ℕ) : Image Texel :=
  Function.update image p {image p with alpha := 0}

/-- Two texels without alpha, which may be the same one. -/
theorem clearTexel_clearTexel (image : Image Texel) (p q r : ℕ×ℕ) :
    clearTexel (clearTexel image p) q r=
      if r=p ∨ r=q then {image r with alpha := 0} else image r := by
  by_cases hrq : r=q
  · subst hrq
    by_cases hrp : r=p
    · simp [clearTexel,hrp]
    · simp [clearTexel,hrp]
  · by_cases hrp : r=p
    · subst hrp
      simp [clearTexel,hrq]
    · simp [clearTexel,hrq,hrp]

/-- Clearing one byte clears the alpha of its texel and touches nothing else. -/
theorem Fits.clearAlpha (h : Fits toInt t) {p : ℕ×ℕ} (hp : InFrame (texWidth t) (texHeight t) p)
    {off : ℤ} (hoff : off=slot 4 (texWidth t) p 0) :
    Simulates rgba 4 (texWidth t) (texHeight t) [clearAlpha toInt off]
      fun image => clearTexel image p := by
  have hbytes (v : Texel) : [(3,0)].foldl (fun entry b => Function.update entry b.1 b.2) (rgba v)=
      rgba {v with alpha := 0} := by
    funext c
    match c with
    | 0 | 1 | 2 | 3 => rfl
    | c+4 => rfl
  have hstore := Simulates.stores (k := 4) hp [(3,0)] (by decide) hbytes
  have halpha : toInt (off+3)=slot 4 (texWidth t) p 3 := h.byteOff_eq hp hoff (c := 3) (by decide)
  rw [NcdfTexelBuffer.clearAlpha,halpha]
  exact hstore

/-- Loop over the rows or columns with two alphas cleared in each. -/
theorem Fits.clearAlphas (h : Fits toInt t) (line : ℕ×ℕ → ℕ) {n : ℕ} (p q : ℕ → ℕ×ℕ)
    (off off' : ℕ → ℤ)
    (hp : ∀ i<n,InFrame (texWidth t) (texHeight t) (p i) ∧ off i=slot 4 (texWidth t) (p i) 0)
    (hq : ∀ i<n,InFrame (texWidth t) (texHeight t) (q i) ∧ off' i=slot 4 (texWidth t) (q i) 0)
    (hline : ∀ i,line (p i)=i ∧ line (q i)=i) :
    Simulates rgba 4 (texWidth t) (texHeight t)
      ((List.range n).flatMap fun i =>
        [NcdfTexelBuffer.clearAlpha toInt (off i),NcdfTexelBuffer.clearAlpha toInt (off' i)])
      fun image r => if line r<n ∧ (r=p (line r) ∨ r=q (line r)) then {image r with alpha := 0}
        else image r := by
  have hloop : Simulates rgba 4 (texWidth t) (texHeight t)
      ((List.range n).flatMap fun i =>
        [NcdfTexelBuffer.clearAlpha toInt (off i),NcdfTexelBuffer.clearAlpha toInt (off' i)])
      fun image =>
        (List.range n).foldl (fun image i => clearTexel (clearTexel image (p i)) (q i)) image :=
    Simulates.flatMap fun i hi =>
      (h.clearAlpha (hp i (List.mem_range.mp hi)).1 (hp i (List.mem_range.mp hi)).2).append
        (h.clearAlpha (hq i (List.mem_range.mp hi)).1 (hq i (List.mem_range.mp hi)).2)
  refine hloop.congr fun image r _ => ?_
  rw [foldl_lines line (fun image i r hr => ?_) (fun image image' i hsame r hr => ?_)]
  · rw [clearTexel_clearTexel,ite_and]
  · have happart : ¬(r=p i ∨ r=q i) := by
      rintro (rfl | rfl)
      · exact hr (hline i).1
      · exact hr (hline i).2
    rw [clearTexel_clearTexel,if_neg happart]
  · rw [clearTexel_clearTexel,clearTexel_clearTexel,hsame r hr]

/-- The four bytes that are written of a value make its texel, whatever stood there before.
-/
theorem foldl_cellBytes [Field α] [LinearOrder α] [FloorRing α] (range : DataRange α) (val : α)
    (v : Texel) :
    (cellBytes range val).foldl (fun entry b => Function.update entry b.1 b.2) (rgba v)=
      rgba (texelOf range val) := by
  funext c
  unfold cellBytes texelOf
  by_cases hval : val=notDef
  · rw [if_pos hval,if_pos hval]
    match c with
    | 0 | 1 | 2 | 3 => rfl
    | c+4 => rfl
  · rw [if_neg hval,if_neg hval]
    match c with
    | 0 | 1 | 2 | 3 => rfl
    | c+4 => rfl

/-- The loops over the nodes write the texel of each node, in place and in bounds. -/
theorem Fits.fill [Field α] [LinearOrder α] [FloorRing α] (h : Fits toInt t) :
    Simulates rgba 4 (texWidth t) (texHeight t) (fillOps toInt t) (writeNodes (byteOps t) t) := by
  have hnodes : ((List.range t.nj).flatMap fun j => (List.range t.ni).map fun i => (j,i)).filter
      (fun c => decide ¬Skipped toInt t c)=writtenNodes t := by
    refine List.filter_congr fun c hc => ?_
    simp only [List.mem_flatMap,List.mem_map,List.mem_range] at hc
    obtain ⟨j,hj,i,hi,rfl⟩ := hc
    have hwritten := mem_writtenNodes.mpr (⟨hj,hi⟩ : (j,i).1 < t.nj ∧ (j,i).2 < t.ni)
    rw [decide_eq_true (h.not_skipped hj hi)]
    exact (List.mem_filter.mp hwritten).2.symm
  unfold fillOps writeNodes scatter
  rw [hnodes]
  refine Simulates.flatMap fun c hc => ?_
  obtain ⟨hj,hi⟩ := mem_writtenNodes.mp hc
  have hplace : InFrame (texWidth t) (texHeight t) (nodePlace t c) := nodePlace_inFrame hj hi
  have hoff : texelOff toInt t (nodeY toInt t c.1) (nodeX toInt t c.2)=
      slot 4 (texWidth t) (nodePlace t c) 0 := by
    rw [h.nodeX_eq hi,h.nodeY_eq hj]
    exact h.texelOff_eq hplace.1 hplace.2
  have hbytes : ∀ b∈cellBytes t.range (cellAt t.grid c.1 c.2),b.1<4 := by
    unfold cellBytes
    split
    · decide
    · simp
  have hops : ((cellBytes t.range (cellAt t.grid c.1 c.2)).map fun b =>
      ByteOp.store (toInt (texelOff toInt t (nodeY toInt t c.1) (nodeX toInt t c.2)+b.1)) b.2)=
      (cellBytes t.range (cellAt t.grid c.1 c.2)).map fun b =>
        .store (slot 4 (texWidth t) (nodePlace t c) b.1) b.2 :=
    List.map_congr_left fun b hb => by rw [h.byteOff_eq hplace hoff (hbytes b hb)]
  rw [hops]
  exact Simulates.stores hplace (f := fun _ => (byteOps t).cell c.1 c.2) _ hbytes fun v =>
    foldl_cellBytes t.range _ v

/-- Column zero is copied behind the grid. -/
theorem Fits.repeat (h : Fits toInt t) (ht : t.repeats=true) :
    Simulates rgba 4 (texWidth t) (texHeight t) (repeatOps toInt t) (repeatColumn t) := by
  obtain ⟨hthree,hfour,hwidth,hheight⟩ := h.frame
  have hrows : texHeight t=t.nj+2 := rfl
  have hone : ((1 : ℕ) : ℤ)=1 := rfl
  have hcolumns := (frame_repeats ht).2
  have hturns : (List.range t.nj).filter
      (fun j => decide ¬toInt (texHeightInt toInt t-1) ≤ nodeY toInt t j)=repeatedRows t := by
    refine List.filter_congr fun j hj => ?_
    have hrow := List.mem_range.mp hj
    rw [h.texHeightInt_eq,←hone,h.pred_eq hheight (by omega),h.nodeY_eq hrow]
    simp only [Nat.cast_le]
  unfold repeatOps repeatColumn scatter
  rw [hturns]
  refine Simulates.flatMap fun j hj => ?_
  have hrow := mem_repeatedRows.mp hj
  have hplace := texRow_lt t hrow
  rw [h.nodeY_eq hrow,h.texelOff_eq (by omega) (by omega)]
  have hzero := h.texelOff_eq (y := texRow t j+1) (x := 0) (by omega) (by omega)
  rw [Nat.cast_zero] at hzero
  rw [hzero]
  exact Simulates.copyEntry rgba 4 ⟨by dsimp only; omega,by dsimp only; omega⟩
    ⟨by dsimp only; omega,by dsimp only; omega⟩ fun heq => by
      have hcolumn := (Prod.mk.inj heq).2
      omega

/-- The first and the last row are copied from their neighbours and then lose their alpha.
-/
theorem Fits.borderRow [Field α] [LinearOrder α] [FloorRing α] (h : Fits toInt t) :
    Simulates rgba 4 (texWidth t) (texHeight t) (borderRowOps toInt t)
      (borderRows (byteOps t) t) := by
  obtain ⟨hthree,hfour,hwidth,hheight⟩ := h.frame
  have hlast : toInt (texHeightInt toInt t-1)=(texHeight t-1 : ℕ) := by
    rw [h.texHeightInt_eq]
    exact h.pred_eq (k := 1) hheight (by omega)
  have hnext : toInt (texHeightInt toInt t-2)=(texHeight t-2 : ℕ) := by
    rw [h.texHeightInt_eq]
    exact h.pred_eq (k := 2) hheight (by omega)
  have hfirst : (0 : ℤ)=slot 4 (texWidth t) (0,0) 0 := by simp [slot]
  have hsecond : rowBytes toInt t=slot 4 (texWidth t) (1,0) 0 := by
    rw [h.rowBytes_eq]
    simp [slot]
  have hcount : sizeT (rowBytes toInt t)=4*texWidth t := by
    rw [h.rowBytes_eq,h.sizeT_eq (by omega)]
  have htop := Simulates.copyRow rgba 4 (texWidth t) (by omega : 0<texHeight t)
    (by omega : 1<texHeight t) (by decide)
  have hbottom := Simulates.copyRow rgba 4 (texWidth t) (by omega : texHeight t-1<texHeight t)
    (by omega : texHeight t-2<texHeight t) (by omega)
  have halpha := h.clearAlphas Prod.snd (n := texWidth t) (fun x => (0,x)) (fun x => (texHeight t-1,x))
    (fun x => toInt (4*x)) (fun x => texelOff toInt t (texHeight t-1 : ℕ) x)
    (fun x hx => ⟨⟨by dsimp only; omega,hx⟩,h.exact (by simp [slot]) (by simp [slot]; omega)⟩)
    (fun x hx => ⟨⟨by dsimp only; omega,hx⟩,h.texelOff_eq (by omega) hx⟩) fun x => ⟨rfl,rfl⟩
  unfold borderRowOps
  dsimp only
  rw [hlast,hnext,h.rowStart_eq (by omega),h.rowStart_eq (by omega),hcount,h.texWidthInt_eq,
    Int.toNat_natCast,hsecond]
  nth_rewrite 1 [hfirst]
  refine ((htop.append hbottom).append halpha).congr fun image r hr => ?_
  obtain ⟨y,x⟩ := r
  have hx : x<texWidth t := hr.2
  simp only [Function.comp_apply,borderRows,Prod.mk.injEq,and_true,hx,true_and]
  by_cases hzero : y=0
  · subst hzero
    rw [if_pos (Or.inl rfl),if_neg (by omega),if_pos rfl,if_pos rfl]
    rfl
  · by_cases hend : y=texHeight t-1
    · rw [if_pos (Or.inr hend),if_pos hend,if_neg (by omega),if_neg hzero,if_pos hend]
      rfl
    · rw [if_neg (by omega),if_neg hend,if_neg hzero,if_neg hzero,if_neg hend]

/-- An image with both ends of a row copied from their neighbours. -/
def copyEnds (w : ℕ) (image : Image Texel) (y : ℕ) : Image Texel :=
  let first := Function.update image (y,0) (image (y,1))
  Function.update first (y,w-1) (first (y,w-2))

/-- Copying the ends of a row changes its first and its last texel only. -/
theorem copyEnds_apply {w : ℕ} (hw : 2<w) (image : Image Texel) (y : ℕ) (r : ℕ×ℕ) :
    copyEnds w image y r=if r=(y,w-1) then image (y,w-2) else if r=(y,0) then image (y,1)
      else image r := by
  have hsource : (y,w-2)≠(y,0) := fun heq => by
    have hcolumn := (Prod.mk.inj heq).2
    omega
  unfold copyEnds
  rw [Function.update_of_ne hsource,Function.update_apply,Function.update_apply]

/-- At every height the first and the last texel are copied from their neighbours. -/
theorem Fits.copyColumns (h : Fits toInt t) (hfour : 4 ≤ texWidth t) :
    Simulates rgba 4 (texWidth t) (texHeight t)
      ((List.range (texHeight t)).flatMap fun y : ℕ =>
        [.copy (rowOff toInt t y) (texelOff toInt t y 1) 4,
          .copy (backOff toInt t y 1) (backOff toInt t y 2) 4])
      fun image r => if r.2=0 then image (r.1,1)
        else if r.2=texWidth t-1 then image (r.1,texWidth t-2) else image r := by
  refine Simulates.congr (f := fun image => (List.range (texHeight t)).foldl (copyEnds (texWidth t)) image)
    (Simulates.flatMap fun y hy => ?_) fun image r hr => ?_
  · have hrow := List.mem_range.mp hy
    have hleft := Simulates.copyEntry rgba 4 (p := (y,0)) (q := (y,1))
      ⟨hrow,(by omega : 0<texWidth t)⟩ ⟨hrow,(by omega : 1<texWidth t)⟩ (by simp)
    have hright := Simulates.copyEntry rgba 4 (p := (y,texWidth t-1)) (q := (y,texWidth t-2))
      ⟨hrow,(by omega : texWidth t-1<texWidth t)⟩ ⟨hrow,(by omega : texWidth t-2<texWidth t)⟩
      (by simp; omega)
    rw [←h.rowOff_eq hrow,←h.texelOff_eq hrow (by omega)] at hleft
    rw [←h.backOff_eq hrow (by decide) (by omega),←h.backOff_eq hrow (by decide) (by omega)] at hright
    exact hleft.append hright
  obtain ⟨y,x⟩ := r
  rw [foldl_lines Prod.fst (fun image i r hr => ?_) (fun image image' i hsame r hr => ?_)]
  · rw [if_pos hr.1,copyEnds_apply (by omega)]
    simp only [Prod.mk.injEq,true_and]
    by_cases hzero : x=0
    · rw [if_neg (by omega),if_pos hzero,if_pos hzero]
    · rw [if_neg hzero,if_neg hzero]
  · have happart (x : ℕ) : r≠(i,x) := fun heq => hr (congrArg Prod.fst heq)
    rw [copyEnds_apply (by omega),if_neg (happart _),if_neg (happart _)]
  · rw [copyEnds_apply (by omega),copyEnds_apply (by omega),hsame r hr,hsame (i,1) rfl,
      hsame (i,texWidth t-2) rfl]

/-- The first and the last column are copied from their neighbours and then lose their
alpha. -/
theorem Fits.borderColumn [Field α] [LinearOrder α] [FloorRing α] (h : Fits toInt t)
    (ht : t.repeats=false) :
    Simulates rgba 4 (texWidth t) (texHeight t) (borderColumnOps toInt t)
      (borderColumns (byteOps t) t) := by
  obtain ⟨-,hcolumns⟩ := frame_bordered ht
  obtain ⟨hni,-⟩ := h.size
  have halpha := h.clearAlphas Prod.fst (n := texHeight t) (fun y => (y,0))
    (fun y => (y,texWidth t-1)) (fun y => rowOff toInt t y) (fun y => backOff toInt t y (1 : ℕ))
    (fun y hy => ⟨⟨hy,by dsimp only; omega⟩,h.rowOff_eq hy⟩)
    (fun y hy => ⟨⟨hy,by dsimp only; omega⟩,h.backOff_eq hy (by decide) (by omega)⟩)
    fun y => ⟨rfl,rfl⟩
  unfold borderColumnOps
  dsimp only
  rw [h.texHeightInt_eq,Int.toNat_natCast]
  refine ((h.copyColumns (by omega)).append halpha).congr fun image r hr => ?_
  obtain ⟨y,x⟩ := r
  have hy : y<texHeight t := hr.1
  simp only [Function.comp_apply,borderColumns,Prod.mk.injEq,true_and,hy]
  by_cases hzero : x=0
  · rw [if_pos (Or.inl hzero),if_pos hzero,if_pos hzero]
    rfl
  · by_cases hend : x=texWidth t-1
    · rw [if_pos (Or.inr hend),if_neg hzero,if_pos hend,if_neg hzero,if_pos hend]
      rfl
    · rw [if_neg (by omega),if_neg hzero,if_neg hend,if_neg hzero,if_neg hend]

end Stages

section Buffers

variable {α : Type} [Field α] [LinearOrder α] [FloorRing α]

/-- All commands together leave the image of the texture, whatever was in the
buffer. -/
theorem Fits.exec_bufferOps {toInt : ℤ → ℤ} {t : TextureData α} (h : Fits toInt t) (bytes : ℤ → ℕ) :
    ∃ bytes',exec (bufferSize toInt t) (bufferOps toInt t) bytes=some bytes' ∧
      Holds 4 (texWidth t) (texHeight t) bytes' (rgba∘textureImage (byteOps t) t) := by
  obtain ⟨cleared,hcleared,hblank⟩ := exec_fill (k := 4) (w := texWidth t) (h := texHeight t) 0 bytes
  have hstart : Holds 4 (texWidth t) (texHeight t) cleared (rgba∘fun _ => (byteOps t).blank) := by
    intro p hp c hc
    rw [hblank p hp c hc]
    match c with
    | 0 | 1 | 2 | 3 => rfl
  have hstages : Simulates rgba 4 (texWidth t) (texHeight t)
      (fillOps toInt t++(if t.repeats=true then repeatOps toInt t else [])++borderRowOps toInt t++
        (if t.repeats=true then [] else borderColumnOps toInt t))
      fun image =>
        let nodes := writeNodes (byteOps t) t image
        let repeated := if t.repeats=true then repeatColumn t nodes else nodes
        let bordered := borderRows (byteOps t) t repeated
        if t.repeats=true then bordered else borderColumns (byteOps t) t bordered := by
    cases ht : t.repeats with
    | true =>
      simp only [if_true]
      exact ((h.fill.append (h.repeat ht)).append h.borderRow).append Simulates.nil
    | false =>
      simp only [Bool.false_eq_true,if_false]
      exact ((h.fill.append Simulates.nil).append h.borderRow).append (h.borderColumn ht)
  obtain ⟨bytes',hexec,hholds⟩ := hstages cleared _ hstart
  refine ⟨bytes',?_,hholds⟩
  unfold bufferOps
  rw [h.bufferSize_eq,h.sizeT_eq le_rfl]
  simp only [List.append_assoc] at hexec ⊢
  rw [exec_append,hcleared,Option.bind_some,hexec]

/-- A texture that is built has a buffer. -/
theorem bufferSize_ne_zero {toInt : ℤ → ℤ} {t : TextureData α} (hni : 1 < t.ni) (hnj : 1 < t.nj)
    (h : Built toInt t) : bufferSize toInt t≠0 := by
  intro hzero
  obtain ⟨hcells,hexec⟩ := h hzero.ge
  obtain ⟨bytes',hdone,-⟩ := hexec fun _ => 0
  have hallowed := allowed_of_exec hdone
  obtain ⟨b,hb⟩ : ∃ b,b∈cellBytes t.range (cellAt t.grid 0 0) := by
    unfold cellBytes
    split
    · exact ⟨_,List.mem_cons_self⟩
    · exact ⟨_,List.mem_cons_self⟩
  have hstore : ByteOp.store (toInt (texelOff toInt t (nodeY toInt t 0) (nodeX toInt t 0)+b.1)) b.2∈
      fillOps toInt t := by
    refine List.mem_flatMap.mpr ⟨(0,0),List.mem_filter.mpr ⟨?_,?_⟩,List.mem_map.mpr ⟨b,hb,rfl⟩⟩
    · simp only [List.mem_flatMap,List.mem_map,List.mem_range]
      exact ⟨0,by omega,0,by omega,rfl⟩
    · exact decide_eq_true (hcells 0 (by omega) 0 (by omega))
  have hmem := List.mem_append_left (if t.repeats=true then [] else borderColumnOps toInt t)
    (List.mem_append_left (borderRowOps toInt t)
      (List.mem_append_left (if t.repeats=true then repeatOps toInt t else [])
        (List.mem_append_right [.fill 0 (sizeT (bufferSize toInt t)) 0] hstore)))
  obtain ⟨hlow,hhigh⟩ := hallowed _ hmem
  rw [hzero] at hhigh
  omega

/-- Integers outside the range become zero. -/
def zeroBeyond (z : ℤ) : ℤ := if IsInt32 z then z else 0

/-- Products in the range of int keep their values. -/
theorem zeroBeyond_eq {z : ℤ} (hz : 0≤z) (hsmall : z<2147483648) : zeroBeyond z=z :=
  if_pos (by unfold IsInt32 signedBound; omega)

/-- Products beyond it become zero. -/
theorem zeroBeyond_large {z : ℤ} (hlarge : 2147483648≤z) : zeroBeyond z=0 :=
  if_neg (by unfold IsInt32 signedBound; omega)

/-- A product is kept or becomes zero. -/
theorem zeroBeyond_cases (z : ℤ) : zeroBeyond z=z ∨ zeroBeyond z=0 := by
  unfold zeroBeyond
  split
  · exact Or.inl rfl
  · exact Or.inr rfl

/-- Products of sizes do not become negative. -/
theorem zeroBeyond_nonneg {z : ℤ} (hz : 0≤z) : 0 ≤ zeroBeyond z := by
  rcases zeroBeyond_cases z with h | h <;> omega

omit [Field α] [LinearOrder α] [FloorRing α] in
/-- A width beyond the range leaves at most the extra column. -/
theorem texWidthInt_zeroBeyond (t : TextureData α) : texWidthInt zeroBeyond t=texWidth t ∨
    0 ≤ texWidthInt zeroBeyond t ∧ texWidthInt zeroBeyond t≤1 := by
  have hextra : extraCol t≤1 := by
    unfold extraCol
    split <;> omega
  unfold texWidthInt texWidth
  rcases zeroBeyond_cases (t.ni+2*borderH t) with h | h
  · rw [h]
    rcases zeroBeyond_cases ((t.ni+2*borderH t : ℤ)+extraCol t) with h' | h' <;> omega
  · rw [h]
    rcases zeroBeyond_cases ((0 : ℤ)+extraCol t) with h' | h' <;> omega

/-- Where a size beyond the range gives zero, a texture with too many bytes is
not built: a side of length zero has no cells, and else the buffer is empty. -/
theorem not_built_zeroBeyond {t : TextureData α} (hni : 1 < t.ni) (hnj : 1 < t.nj)
    (hlarge : 2147483648 ≤ 4*(texWidth t*texHeight t)) : ¬Built zeroBeyond t := by
  intro hbuilt
  have hwidth := texWidthInt_zeroBeyond t
  have hheight : texHeightInt zeroBeyond t=texHeight t ∨ texHeightInt zeroBeyond t=0 :=
    zeroBeyond_cases (t.nj+2)
  have hsize : 0 ≤ bufferSize zeroBeyond t :=
    zeroBeyond_nonneg (mul_nonneg (zeroBeyond_nonneg (mul_nonneg (by omega) (by omega))) (by decide))
  have hfirst := (hbuilt hsize).1 0 (by omega) 0 (by omega)
  have hx : 0 ≤ nodeX zeroBeyond t 0 := zeroBeyond_nonneg (by omega)
  have hy : 0 ≤ nodeY zeroBeyond t 0 := zeroBeyond_nonneg (by omega)
  -- otherwise the first cell would be skipped
  have hboth : texWidthInt zeroBeyond t=texWidth t ∧ texHeightInt zeroBeyond t=texHeight t := by
    obtain ⟨hcolumn,hrow⟩ := not_or.mp hfirst
    dsimp only at hcolumn hrow
    refine ⟨hwidth.resolve_right fun h => hcolumn ?_,hheight.resolve_right fun h => hrow ?_⟩
    · rcases zeroBeyond_cases (texWidthInt zeroBeyond t-1) with h' | h' <;> omega
    · rcases zeroBeyond_cases (texHeightInt zeroBeyond t-1) with h' | h' <;> omega
  have htexels : 0≤(texWidth t : ℤ)*texHeight t :=
    mul_nonneg (Int.natCast_nonneg _) (Int.natCast_nonneg _)
  refine bufferSize_ne_zero hni hnj hbuilt ?_
  unfold bufferSize
  rw [hboth.1,hboth.2]
  rcases lt_or_ge ((texWidth t : ℤ)*texHeight t) 2147483648 with hsmall | hbeyond
  · rw [zeroBeyond_eq htexels hsmall,zeroBeyond_large (by omega)]
  · rw [zeroBeyond_large hbeyond]
    rfl

/-- For all sizes of the grid, the texture is built, whatever comes of numbers
outside the range of `int`, exactly when the number of its bytes is in that
range. -/
theorem built_iff (grid : Grid α) {ni nj : ℕ} (hni : 2≤ni) (hnj : 2≤nj) (rowsUp repeats : Bool) :
    (∀ toInt : ℤ → ℤ,(∀ z,IsInt32 z → toInt z=z) →
        Built toInt (gridTexture grid ni nj rowsUp repeats)) ↔
      (if repeats=true then ni+1 else ni+2)*(nj+2)*4<2147483648 := by
  have hwidth : texWidth (gridTexture grid ni nj rowsUp repeats)=if repeats=true then ni+1 else ni+2 := by
    cases repeats <;> rfl
  have hheight : texHeight (gridTexture grid ni nj rowsUp repeats)=nj+2 := rfl
  rw [←hwidth,←hheight]
  generalize ht : gridTexture grid ni nj rowsUp repeats=t at *
  have hsize : 1 < t.ni ∧ 1 < t.nj := by
    rw [←ht]
    exact ⟨hni,hnj⟩
  constructor
  · intro hall
    by_contra hlarge
    exact not_built_zeroBeyond hsize.1 hsize.2 (by omega) (hall zeroBeyond fun z hz => if_pos hz)
  · intro hsmall toInt htoInt _
    have hfits : Fits toInt t := ⟨hsize,htoInt,by omega⟩
    refine ⟨fun j hj i hi => hfits.not_skipped hj hi,fun bytes => ?_⟩
    obtain ⟨bytes',hexec,hholds⟩ := hfits.exec_bufferOps bytes
    exact ⟨bytes',hexec,finished_of_holds hsize.1 hsize.2 hholds⟩

end Buffers

section Sample

/-- The smallest grid that there can be, of two by two nodes. -/
theorem built_iff_smallest :
    (∀ toInt : ℤ → ℤ,(∀ z,IsInt32 z → toInt z=z) →
        Built toInt (gridTexture ([[1,2],[3,4]] : Grid ℚ) 2 2 true false)) ↔
      (if false=true then 2+1 else 2+2)*(2+2)*4<2147483648 :=
  built_iff [[1,2],[3,4]] (by decide) (by decide) true false

/-- A flat grid. -/
def flatGrid (ni nj : ℕ) : Grid ℚ := List.replicate nj (List.replicate ni 0)

/-- With 32766 rows and columns the texture has as many bytes as there are
integers of 32 bits, so the size wraps to zero. -/
theorem not_built_wrapped :
    (∀ z,IsInt32 z → int32 z=z) ∧
    bufferSize int32 (gridTexture (flatGrid 32766 32766) 32766 32766 true false)=0 ∧
    ¬Built int32 (gridTexture (flatGrid 32766 32766) 32766 32766 true false) := by
  have hwraps : bufferSize int32 (gridTexture (flatGrid 32766 32766) 32766 32766 true false)=0 := by
    decide +kernel
  refine ⟨fun z => int32_of_isInt32,hwraps,fun hbuilt => ?_⟩
  exact bufferSize_ne_zero (by decide : 1<32766) (by decide : 1<32766) hbuilt hwraps

end Sample

end NcdfPlugin.NcdfTexelBuffer
