import NcdfPlugin.NcdfTextureLookup

/-!
# Quantisation of the texels

A texel keeps the place of its value in the range of the grid, in steps of
one part in 255, and the colour table has an entry for each step. The value
of an entry is at most one step below the value of the cell, as long as the
range is the range of the grid. A grid with a single value has no range and
is encoded over the range from zero to one instead.
-/

namespace NcdfPlugin.NcdfQuantisation

open ExactArithmetic NcdfMessage NcdfReader NcdfInterpolation NcdfOverlay NcdfTextureLookup

section Steps

variable {α : Type} [Field α]

/-- Value of the k-th entry of a colour table. -/
def lutValue (lut : ColorLUT α) (k : ℕ) : α := lut.dMin+k/(255 : ℕ)*lut.dRange

/-- The 256 entries of a colour table. -/
def lutEntries {γ : Type} (color : ColorFunc → α → γ) (lut : ColorLUT α) : List γ :=
  (List.range 256).map fun k => color lut.colorFunc (lutValue lut k)

/-- Place of a value in a range. -/
def normalized (range : DataRange α) (v : α) : α := (v-range.dMin)/range.dRange

/-- Value of a byte over a range. -/
def decoded (range : DataRange α) (q : ℕ) : α := range.dMin+q/(255 : ℕ)*range.dRange

variable [LinearOrder α]

/-- A byte decodes to at most one step below a value. -/
def OneStepBelow (range : DataRange α) (v : α) (q : ℕ) : Prop :=
  0≤v-decoded range q ∧ v-decoded range q ≤ range.dRange/(255 : ℕ)

variable [FloorRing α]

/-- Byte of a normalized value. -/
def encoded (x : α) : ℕ := (truncate (min (max x 0) 1*(255 : ℕ))).toNat

/-- The red byte of a value is its normalised value as a byte. -/
theorem texelOf_red (range : DataRange α) {v : α} (hv : v≠notDef) :
    (texelOf range v).red=encoded (normalized range v) := by
  rw [texelOf,if_neg hv]
  rfl

variable [IsStrictOrderedRing α]

/-- Below the range a value is stored as the lowest byte. -/
theorem encoded_of_nonpos {x : α} (hx : x≤0) : encoded x=0 := by
  rw [encoded,max_eq_right hx,min_eq_left zero_le_one]
  simp [truncate]

/-- Above the range it is stored as the highest byte. -/
theorem encoded_of_one_le {x : α} (hx : 1≤x) : encoded x=255 := by
  have htop : truncate ((1 : α)*(255 : ℕ))=255 := by
    rw [one_mul]
    exact_mod_cast truncate_intCast (α:=α) 255
  rw [encoded,max_eq_left (zero_le_one.trans hx),min_eq_right hx,htop]
  rfl

/-- Within the range the byte is the truncation to steps. -/
theorem encoded_of_mem {x : α} (h0 : 0≤x) (h1 : x≤1) :
    (encoded x : α)=truncate (x*(255 : ℕ)) := by
  have hnat := truncate_nonneg (mul_nonneg h0 (Nat.cast_nonneg (α:=α) 255))
  rw [encoded,max_eq_left h0,min_eq_left h1,←Int.cast_natCast,Int.toNat_of_nonneg hnat]

/-- Bytes lose at most one step, except below the range and more than one step
above it. -/
theorem encoded_step_iff (x : α) :
    (0≤x-(encoded x : α)/(255 : ℕ) ∧ x-(encoded x : α)/(255 : ℕ)≤1/(255 : ℕ)) ↔
      0≤x ∧ x≤1+1/(255 : ℕ) := by
  have hunit : ((255 : ℕ) : α)/(255 : ℕ)=1 := div_self (by norm_num)
  have hpos : (0 : α)<1/(255 : ℕ) := by positivity
  rcases le_or_gt x 0 with hneg | hnonneg
  · rw [encoded_of_nonpos hneg,Nat.cast_zero,zero_div,sub_zero]
    exact and_congr_right fun _ => iff_of_true (by linarith) (by linarith)
  rcases le_or_gt x 1 with hle | hgt
  · rw [encoded_of_mem hnonneg.le hle]
    exact iff_of_true (truncate_step hnonneg.le (by decide)) ⟨hnonneg.le,by linarith⟩
  · rw [encoded_of_one_le hgt.le,hunit,sub_nonneg,sub_le_iff_le_add']
    exact and_congr_left fun _ => iff_of_true hgt.le hnonneg.le

/-- A value decodes to at most one step below exactly when it is not below the
range and at most one step above it. -/
theorem oneStepBelow_texelOf_iff {range : DataRange α} (hpos : 0 < range.dRange) {v : α}
    (hv : v≠notDef) :
    OneStepBelow range v (texelOf range v).red ↔
      0≤normalized range v ∧ normalized range v≤1+1/(255 : ℕ) := by
  have hplace : v-decoded range (texelOf range v).red=
      (normalized range v-((texelOf range v).red : α)/(255 : ℕ))*range.dRange := by
    rw [decoded,normalized]
    field_simp
    ring
  have hscaled : range.dRange/(255 : ℕ)=1/(255 : ℕ)*range.dRange := by ring
  rw [OneStepBelow,hplace,hscaled,mul_le_mul_iff_left₀ hpos,mul_nonneg_iff_of_pos_right hpos,
    texelOf_red range hv,encoded_step_iff]

/-- Bytes are entries of the colour table. -/
theorem encoded_le (x : α) : encoded x≤255 := by
  rcases le_or_gt x 1 with hle | hgt
  · rcases le_or_gt x 0 with hneg | hnonneg
    · rw [encoded_of_nonpos hneg]
      decide
    · have hcast : (encoded x : α)≤(255 : ℕ) := by
        rw [encoded_of_mem hnonneg.le hle]
        have hlow := (fract_bounds (mul_nonneg hnonneg.le (Nat.cast_nonneg (α:=α) 255))).1
        have hscaled := mul_le_mul_of_nonneg_right hle (Nat.cast_nonneg (α:=α) 255)
        linarith
      exact_mod_cast hcast
  · rw [encoded_of_one_le hgt.le]

end Steps

section Range

variable {α : Type} [Field α] [LinearOrder α]

/-- A scan over copies of a single value widens the range by this value only, however many
there are. -/
theorem foldl_widen_single {l : List α} {c : α} (honly : ∀ v∈l,v≠notDef → v=c)
    (hsome : ∃ v∈l,v≠notDef) (range : α×α) :
    l.foldl widen range=(min range.1 c,max range.2 c) := by
  have hwiden {v : α} (hv : v≠notDef) (r : α×α) : widen r v=(min r.1 v,max r.2 v) := by
    rw [widen,if_neg hv,min_comm,min_def_lt,max_def_lt]
  have hrest (l : List α) (honly : ∀ v∈l,v≠notDef → v=c) (r : α×α) :
      l.foldl widen (min r.1 c,max r.2 c)=(min r.1 c,max r.2 c) := by
    induction l with
    | nil => rfl
    | cons w l ih =>
      have htail := ih fun v hv => honly v (List.mem_cons_of_mem w hv)
      rw [List.foldl_cons]
      by_cases hw : w=notDef
      · rwa [widen,if_pos hw]
      · rwa [hwiden hw,honly w List.mem_cons_self hw,min_assoc,min_self,max_assoc,max_self]
  induction l generalizing range with
  | nil =>
    obtain ⟨v,hv,-⟩ := hsome
    cases hv
  | cons w l ih =>
    have htail : ∀ v∈l,v≠notDef → v=c := fun v hv => honly v (List.mem_cons_of_mem w hv)
    rw [List.foldl_cons]
    by_cases hw : w=notDef
    · rw [widen,if_pos hw]
      refine ih htail ?_ range
      obtain ⟨v,hv,hdef⟩ := hsome
      rcases List.mem_cons.mp hv with rfl | hin
      · exact absurd hw hdef
      · exact ⟨v,hin,hdef⟩
    · rw [hwiden hw,honly w List.mem_cons_self hw]
      exact hrest l htail range

/-- Start of the scan for the smallest value. -/
def scanSentinel : α := tenBillion*tenBillion*tenBillion

/-- The width of the range, or one where the values are too close to divide by it. -/
theorem dataRange_dRange (grid : Grid α) (nj ni : ℕ) :
    (dataRange grid nj ni).dRange=
      if (dataRange grid nj ni).dMax-(dataRange grid nj ni).dMin<tiny then 1
      else (dataRange grid nj ni).dMax-(dataRange grid nj ni).dMin := rfl

variable [IsStrictOrderedRing α]

/-- Normalisation divides by a positive width in either case. -/
theorem dataRange_dRange_pos (grid : Grid α) (nj ni : ℕ) : 0 < (dataRange grid nj ni).dRange := by
  have htiny : (0 : α)<tiny := by norm_num [tiny,tenBillion]
  rw [dataRange_dRange]
  split
  next => exact zero_lt_one
  next h => exact htiny.trans_le (not_lt.mp h)

/-- Over a range with two different ends every value of the range is normalised to between
zero and one. -/
theorem normalized_of_lt {grid : Grid α} {nj ni : ℕ} {v : α}
    (hlt : (valueRange scanSentinel grid nj ni).1<(valueRange scanSentinel grid nj ni).2)
    (hlow : (valueRange scanSentinel grid nj ni).1≤v)
    (hhigh : v≤(valueRange scanSentinel grid nj ni).2) :
    0≤normalized (dataRange grid nj ni) v ∧ normalized (dataRange grid nj ni) v≤1 := by
  have hpos := dataRange_dRange_pos grid nj ni
  have hmin : (dataRange grid nj ni).dMin=(valueRange scanSentinel grid nj ni).1 :=
    if_neg (not_le.mpr hlt)
  have hmax : (dataRange grid nj ni).dMax=(valueRange scanSentinel grid nj ni).2 :=
    if_neg (not_le.mpr hlt)
  have hrange : (dataRange grid nj ni).dMax-(dataRange grid nj ni).dMin≤
      (dataRange grid nj ni).dRange := by
    have htiny : (tiny : α)≤1 := by norm_num [tiny,tenBillion]
    rw [dataRange_dRange]
    split
    next hsmall => exact hsmall.le.trans htiny
    next => exact le_rfl
  rw [hmin,hmax] at hrange
  rw [normalized,hmin,div_le_one hpos]
  exact ⟨div_nonneg (sub_nonneg.mpr hlow) hpos.le,by linarith⟩

/-- Without two ends values are encoded over the range from zero to one. -/
theorem normalized_of_le {grid : Grid α} {nj ni : ℕ}
    (hle : (valueRange scanSentinel grid nj ni).2≤(valueRange scanSentinel grid nj ni).1) (v : α) :
    normalized (dataRange grid nj ni) v=v := by
  have hmin : (dataRange grid nj ni).dMin=0 := if_pos hle
  have hmax : (dataRange grid nj ni).dMax=1 := if_pos hle
  have hrange : (dataRange grid nj ni).dRange=1 := by
    rw [dataRange_dRange,hmin,hmax,if_neg (by norm_num [tiny,tenBillion]),sub_zero]
  rw [normalized,hmin,hrange,sub_zero,div_one]

end Range

section Texels

variable {α : Type} [Field α] [LinearOrder α]

/-- The texture of a grid. -/
def gridTexture (grid : Grid α) (ni nj : ℕ) (rowsUp repeats : Bool) : TextureData α :=
  ⟨grid,ni,nj,rowsUp,repeats,dataRange grid nj ni⟩

/-- A value that some cell of a grid has. -/
def HasCell (grid : Grid α) (nj ni : ℕ) (v : α) : Prop :=
  v≠notDef ∧ ∃ j<nj,∃ i<ni,cellAt grid j i=v

omit [LinearOrder α] in
/-- The scanned values are those of the cells. -/
theorem mem_scanned_iff {grid : Grid α} {nj ni : ℕ} {v : α} :
    v∈scanned grid nj ni ↔ ∃ j<nj,∃ i<ni,cellAt grid j i=v := by
  simp only [scanned,List.mem_flatMap,List.mem_map,List.mem_range]

/-- The range that a scan finds contains every value of a cell, whatever it started from. -/
theorem mem_valueRange_of_hasCell (sentinel : α) {grid : Grid α} {nj ni : ℕ} {v : α}
    (h : HasCell grid nj ni v) :
    (valueRange sentinel grid nj ni).1≤v ∧ v≤(valueRange sentinel grid nj ni).2 := by
  obtain ⟨hdef,j,hj,i,hi,rfl⟩ := h
  exact mem_valueRange sentinel grid hj hi hdef

/-- The range of a grid with a single value: this value at both ends, unless it lies beyond
the sentinels that the scan starts from. -/
theorem valueRange_single {sentinel : α} {grid : Grid α} {nj ni : ℕ} {c : α}
    (hc : HasCell grid nj ni c) (honly : ∀ v,HasCell grid nj ni v → v=c) :
    valueRange sentinel grid nj ni=(min sentinel c,max (-sentinel) c) :=
  foldl_widen_single (fun v hv hdef => honly v ⟨hdef,mem_scanned_iff.mp hv⟩)
    ⟨c,mem_scanned_iff.mpr hc.2,hc.1⟩ _

/-- A single value has a range exactly when it is beyond the sentinels. -/
theorem valueRange_single_lt_iff [IsStrictOrderedRing α] {grid : Grid α} {nj ni : ℕ} {c : α}
    (hc : HasCell grid nj ni c) (honly : ∀ v,HasCell grid nj ni v → v=c) :
    (valueRange scanSentinel grid nj ni).1<(valueRange scanSentinel grid nj ni).2 ↔
      c < -scanSentinel ∨ scanSentinel < c := by
  have hpos : (0 : α) < scanSentinel := by norm_num [scanSentinel,tenBillion]
  rw [valueRange_single hc honly,min_lt_iff,lt_max_iff,lt_max_iff]
  constructor
  · rintro ((h | h) | (h | h))
    · exact absurd h (by linarith)
    · exact Or.inr h
    · exact Or.inl h
    · exact absurd h (lt_irrefl c)
  · rintro (h | h)
    · exact Or.inr (Or.inl h)
    · exact Or.inl (Or.inr h)

variable [FloorRing α]

/-- Byte in the texel of a cell. -/
def storedByte (t : TextureData α) (j i : ℕ) : ℕ :=
  (textureImage (byteOps t) t (nodePlace t (j,i))).red

/-- The byte of a cell and the colour found with it. -/
structure Quantised {γ : Type} (color : ColorFunc → α → γ) (X : ColorFunc) (t : TextureData α)
    (j i : ℕ) : Prop where
  /-- The byte decodes to at most one step below the value. -/
  bound : OneStepBelow t.range (cellAt t.grid j i) (storedByte t j i)
  /-- The entry at the byte is the colour of a value at most one step away. -/
  colour : ∃ w,(lutEntries color (ownLUT X t.grid t.nj t.ni))[storedByte t j i]? = some (color X w) ∧
    |cellAt t.grid j i-w|≤t.range.dRange/(255 : ℕ)

/-- The texel at the place of a cell is that of its value, since neither border nor
repetition overwrites it. -/
theorem textureImage_nodePlace {t : TextureData α} {j i : ℕ} (hj : j < t.nj) (hi : i < t.ni) :
    textureImage (byteOps t) t (nodePlace t (j,i))=texelOf t.range (cellAt t.grid j i) := by
  have hcolumn := Nat.lt_of_succ_lt (nodePlace_inside (c := (j,i)) hj hi).2
  exact textureImage_of_stores ((stores_iff hj hi hcolumn).mpr (Or.inl rfl))

/-- The stored byte of a node is the red byte of its value. -/
theorem storedByte_eq {t : TextureData α} {j i : ℕ} (hj : j < t.nj) (hi : i < t.ni) :
    storedByte t j i=(texelOf t.range (cellAt t.grid j i)).red := by
  rw [storedByte,textureImage_nodePlace hj hi]

variable [IsStrictOrderedRing α]

/-- The colour of a cell is within one step of its value exactly when its byte is, whatever
the colours are. -/
theorem quantised_iff_oneStepBelow {γ : Type} (color : ColorFunc → α → γ) (X : ColorFunc)
    {grid : Grid α} {nj ni j i : ℕ} (hj : j<nj) (hi : i<ni) (hv : cellAt grid j i≠notDef)
    (rowsUp repeats : Bool) :
    Quantised color X (gridTexture grid ni nj rowsUp repeats) j i ↔
      OneStepBelow (dataRange grid nj ni) (cellAt grid j i)
        (texelOf (dataRange grid nj ni) (cellAt grid j i)).red := by
  have hbyte : storedByte (gridTexture grid ni nj rowsUp repeats) j i=
      (texelOf (dataRange grid nj ni) (cellAt grid j i)).red := storedByte_eq hj hi
  constructor
  · intro h
    have hbound := h.bound
    rwa [hbyte] at hbound
  · intro h
    rw [texelOf_red _ hv] at h hbyte
    have hentry := encoded_le (normalized (dataRange grid nj ni) (cellAt grid j i))
    generalize encoded (normalized (dataRange grid nj ni) (cellAt grid j i))=q at h hentry hbyte
    refine ⟨hbyte.symm ▸ h,decoded (dataRange grid nj ni) q,?_,(abs_of_nonneg h.1).trans_le h.2⟩
    rw [hbyte,lutEntries,List.getElem?_map,List.getElem?_range (by omega)]
    rfl

/-- The bytes of a grid are right exactly when it has two values, or one that
the range from zero to one encodes as well, or one beyond the sentinels of the
scan. -/
theorem quantised_iff {γ : Type} (color : ColorFunc → α → γ) (X : ColorFunc) (grid : Grid α)
    (nj ni : ℕ) (rowsUp repeats : Bool) (hsome : ∃ v,HasCell grid nj ni v) :
    (∀ j<nj,∀ i<ni,cellAt grid j i≠notDef →
      Quantised color X (gridTexture grid ni nj rowsUp repeats) j i) ↔
    (∃ v w,HasCell grid nj ni v ∧ HasCell grid nj ni w ∧ v≠w) ∨
      ∃ v,HasCell grid nj ni v ∧
        (v < -scanSentinel ∨ scanSentinel<v ∨ 0≤v ∧ v≤1+1/(255 : ℕ)) := by
  have hcell {v : α} (hv : HasCell grid nj ni v) := mem_valueRange_of_hasCell scanSentinel hv
  rcases lt_or_ge (valueRange scanSentinel grid nj ni).1 (valueRange scanSentinel grid nj ni).2 with
    hlt | hle
  · -- a range: every value lies in it
    refine iff_of_true (fun j hj i hi hv => ?_) ?_
    · obtain ⟨hlow,hhigh⟩ := hcell ⟨hv,j,hj,i,hi,rfl⟩
      obtain ⟨h0,h1⟩ := normalized_of_lt hlt hlow hhigh
      rw [quantised_iff_oneStepBelow color X hj hi hv,
        oneStepBelow_texelOf_iff (dataRange_dRange_pos grid nj ni) hv]
      exact ⟨h0,h1.trans (le_add_of_nonneg_right (by positivity))⟩
    · by_contra hnot
      obtain ⟨c,hc⟩ := hsome
      obtain ⟨hsame,hone⟩ := not_or.mp hnot
      have honly (v : α) (hv : HasCell grid nj ni v) : v=c := by
        by_contra hne
        exact hsame ⟨v,c,hv,hc,hne⟩
      exact hone ⟨c,hc,((valueRange_single_lt_iff hc honly).mp hlt).imp_right Or.inl⟩
  · -- a single value between the sentinels: the range from zero to one
    have hequal {v w : α} (hv : HasCell grid nj ni v) (hw : HasCell grid nj ni w) : v=w :=
      le_antisymm ((hcell hv).2.trans (hle.trans (hcell hw).1))
        ((hcell hw).2.trans (hle.trans (hcell hv).1))
    have hquantised {j i : ℕ} (hj : j<nj) (hi : i<ni) (hv : cellAt grid j i≠notDef) :
        Quantised color X (gridTexture grid ni nj rowsUp repeats) j i ↔
          0 ≤ cellAt grid j i ∧ cellAt grid j i≤1+1/(255 : ℕ) := by
      rw [quantised_iff_oneStepBelow color X hj hi hv,
        oneStepBelow_texelOf_iff (dataRange_dRange_pos grid nj ni) hv,normalized_of_le hle]
    constructor
    · intro hall
      obtain ⟨-,hv,j,hj,i,hi,rfl⟩ := hsome
      exact Or.inr ⟨_,⟨hv,j,hj,i,hi,rfl⟩,Or.inr (Or.inr ((hquantised hj hi hv).mp (hall j hj i hi hv)))⟩
    · rintro (⟨v,w,hv,hw,hne⟩ | ⟨v,hv,hplace⟩) j hj i hi hdef
      · exact absurd (hequal hv hw) hne
      · rw [←or_assoc,←valueRange_single_lt_iff hv fun w hw => hequal hw hv] at hplace
        have hunit := hplace.resolve_left (not_lt.mpr hle)
        rw [hquantised hj hi hdef,hequal ⟨hdef,j,hj,i,hi,rfl⟩ hv]
        exact hunit

end Texels

section Sample

/-- Salinity of 35 everywhere. -/
def constantGrid : Grid ℚ := [[35,35],[35,35]]

/-- The constant grid holds the value 35. -/
theorem hasCell_constantGrid : HasCell constantGrid 2 2 35 :=
  ⟨by decide +kernel,0,by decide,0,by decide,by decide +kernel⟩

/-- All texels are 255, which decodes to one. -/
theorem not_quantised_constant :
    HasCell constantGrid 2 2 35 ∧
      ¬Quantised (fun _ v => v) .salinity (gridTexture constantGrid 2 2 true false) 0 0 := by
  refine ⟨hasCell_constantGrid,fun h => ?_⟩
  have hbound := h.bound.2
  revert hbound
  decide +kernel

/-- A grid of two by two nodes, all 35: its range is a single value, and 35 lies outside the
values that such a range decodes to. -/
theorem quantised_iff_constant :
    (∀ j<2,∀ i<2,cellAt constantGrid j i≠notDef →
      Quantised (fun _ v => v) .salinity (gridTexture constantGrid 2 2 true false) j i) ↔
    (∃ v w,HasCell constantGrid 2 2 v ∧ HasCell constantGrid 2 2 w ∧ v≠w) ∨
      ∃ v,HasCell constantGrid 2 2 v ∧
        (v < -scanSentinel ∨ scanSentinel<v ∨ 0≤v ∧ v≤1+1/(255 : ℕ)) :=
  quantised_iff _ _ constantGrid 2 2 true false ⟨35,hasCell_constantGrid⟩

end Sample

end NcdfPlugin.NcdfQuantisation
