import NcdfPlugin.NcdfShader

/-!
# What a fragment shows

The alpha at the centre of a fragment is the share of the nearest texels that
store a value. By it a fragment is drawn, so a node is drawn exactly when it
has a value and nothing is drawn outside the grid. Where all texels around a
fragment store values, the colour is blended from two entries of the colour
table that belong to values next to these.
-/

namespace NcdfPlugin.NcdfFragment

open ExactArithmetic TextureSampling LinearFiltering NcdfMessage NcdfReader NcdfInterpolation
open NcdfOverlay NcdfColorMap NcdfTextureLookup NcdfQuantisation NcdfTexelBuffer NcdfShader
open ByteBuffer (InFrame)

section Texels

variable {α : Type} [Field α] [LinearOrder α]

/-- A texel stores a node that has a value. -/
def shows (t : TextureData α) (p : ℕ×ℕ) : Bool :=
  let o := textureImage originOps t p
  o.visible && o.node.any fun c => decide (cellAt t.grid c.1 c.2≠notDef)

/-- A texel that stores a cell shows exactly when the cell is defined. -/
theorem shows_of_stores {t : TextureData α} {p c : ℕ×ℕ} (h : Stores t p c) :
    shows t p=decide (cellAt t.grid c.1 c.2≠notDef) := by
  unfold Stores at h
  simp only [shows,h,Bool.true_and,Option.any_some]

/-- The outer rows show nothing, and the outer columns unless they repeat. -/
theorem shows_border {t : TextureData α} (hni : 0 < t.ni) (hnj : 0 < t.nj) {p : ℕ×ℕ}
    (hp : InFrame (texWidth t) (texHeight t) p) (hborder : OnBorder t p) : shows t p=false := by
  have hvisible : (textureImage originOps t p).visible=false := by
    rw [textureImage_border originOps (fun _ => rfl) hni hnj hp hborder]
    rfl
  simp only [shows,hvisible,Bool.false_and]

omit [Field α] [LinearOrder α] in
/-- Inside the border every texel stores a node of the grid, so only the border is without
one. -/
theorem exists_stores {t : TextureData α} (hni : 0 < t.ni) {p : ℕ×ℕ}
    (hp : InFrame (texWidth t) (texHeight t) p)
    (hinside : ¬OnBorder t p) : ∃ j < t.nj,∃ i < t.ni,Stores t p (j,i) := by
  obtain ⟨y,x⟩ := p
  have hheight : texHeight t=t.nj+2 := rfl
  obtain ⟨hy,hx⟩ := hp
  simp only [OnBorder,not_or,not_and] at hinside
  obtain ⟨hfirst,hlast,hcolumns⟩ := hinside
  dsimp only at hy hx hfirst hlast hcolumns
  obtain ⟨j,hj,rfl⟩ := exists_texRow t (y := y) (by omega) (by omega)
  refine ⟨j,hj,?_⟩
  cases ht : t.repeats with
  | true =>
    obtain ⟨hborder,hwidth⟩ := frame_repeats ht
    by_cases hseam : x=t.ni
    · exact ⟨0,hni,(stores_iff hj hni hx).mpr (Or.inr ⟨ht,rfl,hseam⟩)⟩
    · exact ⟨x,by omega,(stores_iff hj (by omega) hx).mpr (Or.inl (by omega))⟩
  | false =>
    obtain ⟨hborder,hwidth⟩ := frame_bordered ht
    have hends := hcolumns ht
    exact ⟨x-1,by omega,(stores_iff hj (by omega) hx).mpr (Or.inl (by omega))⟩

omit [Field α] [LinearOrder α] in
/-- The node that a texel stores is a node of the grid, whichever way rows run and columns
repeat. -/
theorem inGrid_of_stores {t : TextureData α} (hni : 0 < t.ni) (hnj : 0 < t.nj) {p c : ℕ×ℕ}
    (hp : InFrame (texWidth t) (texHeight t) p) (h : Stores t p c) : c.1 < t.nj ∧ c.2 < t.ni := by
  unfold Stores at h
  by_cases hborder : OnBorder t p
  · rw [textureImage_border originOps (fun _ => rfl) hni hnj hp hborder] at h
    cases congrArg Origin.visible h
  · obtain ⟨j,hj,i,hi,hstores⟩ := exists_stores hni hp hborder
    unfold Stores at hstores
    rw [hstores,Origin.mk.injEq,Option.some_inj] at h
    rw [←h.1]
    exact ⟨hj,hi⟩

variable [FloorRing α]

/-- A stored value has alpha 255 and its byte, and any other texel alpha zero. -/
theorem texel_cases {t : TextureData α} (hni : 0 < t.ni) (hnj : 0 < t.nj) {p : ℕ×ℕ}
    (hp : InFrame (texWidth t) (texHeight t) p) :
    (shows t p=true ∧ ∃ c,Stores t p c ∧ cellAt t.grid c.1 c.2≠notDef ∧
      textureImage (byteOps t) t p=⟨encoded (normalized t.range (cellAt t.grid c.1 c.2)),255⟩) ∨
    shows t p=false ∧ (textureImage (byteOps t) t p).alpha=0 := by
  by_cases hborder : OnBorder t p
  · have horigin := textureImage_border originOps (fun _ => rfl) hni hnj hp hborder
    have hbyte := textureImage_border (byteOps t) (fun _ => rfl) hni hnj hp hborder
    refine Or.inr ⟨?_,by rw [hbyte]; rfl⟩
    rw [shows,horigin]
    rfl
  · obtain ⟨j,-,i,-,hstores⟩ := exists_stores hni hp hborder
    have htexel := textureImage_of_stores hstores
    have hshows := shows_of_stores hstores
    by_cases hdef : cellAt t.grid j i=notDef
    · exact Or.inr ⟨by simpa [hdef] using hshows,by rw [htexel,texelOf,if_pos hdef]⟩
    · exact Or.inl ⟨by simpa [hdef] using hshows,(j,i),hstores,hdef,
        by rw [htexel,texelOf,if_neg hdef]; rfl⟩

/-- Share of the four texels around a point that store a value. -/
def shownShare (t : TextureData α) (u v : α) : α :=
  linearSample t.repeats (texWidth t) (texHeight t) (fun p => if shows t p=true then 1 else 0) u v

/-- All texels that bicubic filtering reads are texels of the texture. -/
theorem blockTexel_inFrame {t : TextureData α} (hni : 0 < t.ni) (u v : α) (dy dx : ℤ) :
    InFrame (texWidth t) (texHeight t)
      (blockTexel t.repeats (texWidth t) (texHeight t) u v dy dx) := by
  have hwidth : 0<texWidth t := by unfold texWidth; omega
  have hheight : 0<texHeight t := Nat.succ_pos _
  exact ⟨texelIndex_lt false hheight _,texelIndex_lt t.repeats hwidth _⟩

/-- The alpha that the shader reads is the share of the values. -/
theorem dataTex_alpha {t : TextureData α} (hni : 0 < t.ni) (hnj : 0 < t.nj) (u v : α) :
    (dataTex t u v).a=shownShare t u v := by
  have hunit {p : ℕ×ℕ} (hp : InFrame (texWidth t) (texHeight t) p) :
      (unitByte (textureImage (byteOps t) t p).alpha : α)=if shows t p=true then 1 else 0 := by
    rcases texel_cases hni hnj hp with ⟨hshows,c,-,-,htexel⟩ | ⟨hshows,halpha⟩
    · rw [htexel,hshows,if_pos rfl,unitByte,div_self (by norm_num)]
    · rw [halpha,hshows,if_neg (by simp),unitByte,Nat.cast_zero,zero_div]
  simp only [dataTex,shownShare,linearSample,hunit (blockTexel_inFrame hni u v _ _)]

variable [IsStrictOrderedRing α]

/-- A byte as a share of the unit interval is not negative. -/
theorem unitByte_nonneg (b : ℕ) : 0≤(unitByte b : α) := by
  unfold unitByte
  positivity

/-- Linear filtering of bytes gives no negative value. -/
theorem dataTex_red_nonneg (t : TextureData α) (u v : α) : 0≤(dataTex t u v).r :=
  le_linearSample (fun p => unitByte (textureImage (byteOps t) t p).red) fun _ _ _ _ => unitByte_nonneg _

end Texels

section Drawn

variable {α : Type} [Field α] [LinearOrder α] [FloorRing α] [IsStrictOrderedRing α]

/-- Where the fragments of a texture are drawn. -/
structure DrawnWhereShown (color : ColorFunc → α → Rgb) (lut : ColorLUT α) (channel : Rgb → ℕ)
    (t : TextureData α) : Prop where
  /-- By the share of the texels with a value. -/
  share : ∀ u v,(fragment color lut channel t u v).isSome ↔
    alphaLimit < shownShare t u v ∨ alphaLimit=shownShare t u v ∧
      HasTap (dataTex t) u v (texWidth t) (texHeight t)
  /-- At a node, exactly when it has a value. -/
  node : ∀ j < t.nj,∀ i < t.ni,
    (fragment color lut channel t (centre (texWidth t) (nodePlace t (j,i)).2)
      (centre (texHeight t) (nodePlace t (j,i)).1)).isSome ↔ cellAt t.grid j i≠notDef
  /-- Not beyond the texture. -/
  outside : ∀ u v,v<0 ∨ 1<v ∨ t.repeats=false ∧ (u<0 ∨ 1<u) →
    fragment color lut channel t u v=none

/-- The limit of one percent lies strictly between nothing and everything. -/
theorem alphaLimit_bounds : 0<(alphaLimit : α) ∧ (alphaLimit : α)<1 := by
  constructor <;> norm_num [alphaLimit,decimal]

/-- Beyond the texture the share is zero. -/
theorem shownShare_outside {t : TextureData α} (hni : 0 < t.ni) (hnj : 0 < t.nj) {u v : α}
    (hout : v<0 ∨ 1<v ∨ t.repeats=false ∧ (u<0 ∨ 1<u)) : shownShare t u v=0 := by
  have hwidth : 0<texWidth t := by unfold texWidth; omega
  have hheight : 0<texHeight t := Nat.succ_pos _
  refine linearSample_const fun dy hdy dx hdx => if_neg (Bool.eq_false_iff.mp ?_)
  refine shows_border hni hnj (blockTexel_inFrame hni u v dy dx) ?_
  have hrange {d : ℤ} (hd : d∈[(0 : ℤ),1]) : 0≤d ∧ d≤1 := by
    rcases List.mem_pair.mp hd with rfl | rfl <;> omega
  rcases hout with hneg | hbig | ⟨ht,hneg | hbig⟩
  · exact Or.inl (texelIndex_of_neg hheight hneg (hrange hdy).2)
  · exact Or.inr (Or.inl (texelIndex_of_one_lt hheight hbig (hrange hdy).1))
  · refine Or.inr (Or.inr ⟨ht,Or.inl ?_⟩)
    rw [blockTexel,ht]
    exact texelIndex_of_neg hwidth hneg (hrange hdx).2
  · refine Or.inr (Or.inr ⟨ht,Or.inr ?_⟩)
    rw [blockTexel,ht]
    exact texelIndex_of_one_lt hwidth hbig (hrange hdx).1

/-- The share at the centre of a node is one or zero. -/
theorem shownShare_node {t : TextureData α} {j i : ℕ} (hj : j < t.nj) (hi : i < t.ni) :
    shownShare t (centre (texWidth t) (nodePlace t (j,i)).2)
      (centre (texHeight t) (nodePlace t (j,i)).1)=
      if cellAt t.grid j i=notDef then 0 else 1 := by
  obtain ⟨hrow,hcolumn⟩ := nodePlace_inFrame hj hi
  have hstores : Stores t (nodePlace t (j,i)) (j,i) := (stores_iff hj hi hcolumn).mpr (Or.inl rfl)
  rw [shownShare,linearSample_centre hcolumn hrow,shows_of_stores hstores]
  by_cases hdef : cellAt t.grid j i=notDef <;> simp [hdef]

section Fragments

variable (color : ColorFunc → α → Rgb) (lut : ColorLUT α) (channel : Rgb → ℕ) {t : TextureData α}

/-- A fragment is drawn by the share of the texels around it that store values. -/
theorem fragment_isSome_iff (hni : 2 ≤ t.ni) (hnj : 2 ≤ t.nj) (u v : α) :
    (fragment color lut channel t u v).isSome ↔
      alphaLimit < shownShare t u v ∨ alphaLimit=shownShare t u v ∧
        HasTap (dataTex t) u v (texWidth t) (texHeight t) := by
  have hw : (texWidth t : α)≠0 := Nat.cast_ne_zero.mpr (by unfold texWidth; omega)
  have hh : (texHeight t : α)≠0 := Nat.cast_ne_zero.mpr (Nat.succ_ne_zero _)
  rw [←dataTex_alpha (by omega) (by omega)]
  exact shade_isSome_iff hw hh (dataTex_red_nonneg t)

/-- Beyond the texture every fragment is discarded. -/
theorem fragment_outside (hni : 2 ≤ t.ni) (hnj : 2 ≤ t.nj) {u v : α}
    (hout : v<0 ∨ 1<v ∨ t.repeats=false ∧ (u<0 ∨ 1<u)) : fragment color lut channel t u v=none := by
  have hpos := (alphaLimit_bounds (α:=α)).1
  have hnot := mt (fragment_isSome_iff color lut channel hni hnj u v).mp (by
    rw [shownShare_outside (by omega) (by omega) hout]
    rintro (hlt | ⟨heq,-⟩)
    · exact hpos.not_gt hlt
    · exact hpos.ne' heq)
  exact Option.not_isSome_iff_eq_none.mp hnot

/-- Fragments are drawn exactly where the texture shows values. -/
theorem drawnWhereShown (hni : 2 ≤ t.ni) (hnj : 2 ≤ t.nj) : DrawnWhereShown color lut channel t := by
  obtain ⟨hpos,hone⟩ := alphaLimit_bounds (α:=α)
  refine ⟨fragment_isSome_iff color lut channel hni hnj,fun j hj i hi => ?_,
    fun u v => fragment_outside color lut channel hni hnj⟩
  rw [fragment_isSome_iff color lut channel hni hnj,shownShare_node hj hi]
  by_cases hdef : cellAt t.grid j i=notDef
  · simp [hdef,hpos.not_gt,hpos.ne']
  · simp [hdef,hone]

end Fragments

end Drawn

section Colour

variable {α : Type} [Field α] [LinearOrder α] [FloorRing α]

/-- Steps to the texels that the samples around a fragment read. -/
def around : List ℤ := [-1,0,1,2,3]

/-- One of the 25 texels that the samples around a point read. -/
def Near (t : TextureData α) (u v : α) (p : ℕ×ℕ) : Prop :=
  ∃ dy∈around,∃ dx∈around,p=blockTexel t.repeats (texWidth t) (texHeight t) u v dy dx

/-- All texels near a point store values between two bounds. -/
def NearValues (t : TextureData α) (u v lo hi : α) : Prop :=
  ∀ p,Near t u v p → ∃ c,Stores t p c ∧ cellAt t.grid c.1 c.2≠notDef ∧
    lo ≤ cellAt t.grid c.1 c.2 ∧ cellAt t.grid c.1 c.2≤hi

variable [IsStrictOrderedRing α]

/-- Samples a whole number of texels away read the block of texels that is moved by as many.
-/
theorem blockTexel_step (repeats : Bool) {w h : ℕ} (hw : 0<w) (hh : 0<h) (u v : α) (j i : Fin 4)
    (dy dx : ℤ) :
    blockTexel repeats w h ((u*w-half+tapStep i+half)*(1/w)) ((v*h-half+tapStep j+half)*(1/h)) dy dx=
      blockTexel repeats w h u v ((j : ℕ)-1+dy) ((i : ℕ)-1+dx) := by
  have hcast (k : Fin 4) : (tapStep k : α)=(((k : ℕ)-1 : ℤ) : α) := by
    rw [tapStep]
    push_cast
    rfl
  have hu : ⌊texelPos w ((u*w-half+tapStep i+half)*(1/w))⌋=⌊texelPos w u⌋+((i : ℕ)-1 : ℤ) := by
    rw [texelPos_add hw,hcast,Int.floor_add_intCast]
    rfl
  have hv : ⌊texelPos h ((v*h-half+tapStep j+half)*(1/h))⌋=⌊texelPos h v⌋+((j : ℕ)-1 : ℤ) := by
    rw [texelPos_add hh,hcast,Int.floor_add_intCast]
    rfl
  rw [blockTexel,blockTexel,hu,hv,add_assoc,add_assoc]

/-- Every texel that one of the sixteen samples reads lies in the block of five by five
texels around the point. -/
theorem near_of_tap {t : TextureData α} (hni : 0 < t.ni) (u v : α) (k : Fin 4×Fin 4) {dy dx : ℤ}
    (hdy : dy∈[(0 : ℤ),1]) (hdx : dx∈[(0 : ℤ),1]) :
    Near t u v (blockTexel t.repeats (texWidth t) (texHeight t)
      ((u*texWidth t-half+tapStep k.2+half)*(1/texWidth t))
      ((v*texHeight t-half+tapStep k.1+half)*(1/texHeight t)) dy dx) := by
  have hwidth : 0<texWidth t := by unfold texWidth; omega
  have hstep (j : Fin 4) {d : ℤ} (hd : d∈[(0 : ℤ),1]) : (j : ℕ)-1+d∈around := by
    have hj := j.isLt
    simp only [around,List.mem_cons,List.not_mem_nil,or_false] at hd ⊢
    omega
  exact ⟨_,hstep k.1 hdy,_,hstep k.2 hdx,blockTexel_step t.repeats hwidth (Nat.succ_pos _) u v _ _ _ _⟩

/-- A sample is a weighted mean of bytes near the point, so it stays between bounds of
these. -/
theorem tapAt_bounds {t : TextureData α} (hni : 0 < t.ni) {u v m M : α}
    (hnear : ∀ p,Near t u v p → m≤unitByte (textureImage (byteOps t) t p).red ∧
      unitByte (textureImage (byteOps t) t p).red≤M) (k : Fin 4×Fin 4) :
    m≤(tapAt (dataTex t) u v (texWidth t) (texHeight t) k).r ∧
      (tapAt (dataTex t) u v (texWidth t) (texHeight t) k).r≤M :=
  ⟨le_linearSample (fun p => unitByte (textureImage (byteOps t) t p).red)
      fun _ hdy _ hdx => (hnear _ (near_of_tap hni u v k hdy hdx)).1,
    linearSample_le (fun p => unitByte (textureImage (byteOps t) t p).red)
      fun _ hdy _ hdx => (hnear _ (near_of_tap hni u v k hdy hdx)).2⟩

omit [IsStrictOrderedRing α] in
/-- In a bordered texture all texels near a point two nodes inside are nodes. -/
theorem nearValues_of_inside {t : TextureData α} (ht : t.repeats=false) {u v lo hi : α}
    (hx : 2≤⌊texelPos (texWidth t) u⌋ ∧ ⌊texelPos (texWidth t) u⌋+3 ≤ t.ni)
    (hy : 2≤⌊texelPos (texHeight t) v⌋ ∧ ⌊texelPos (texHeight t) v⌋+3 ≤ t.nj)
    (hcells : ∀ j < t.nj,∀ i < t.ni,cellAt t.grid j i≠notDef ∧ lo ≤ cellAt t.grid j i ∧
      cellAt t.grid j i≤hi) : NearValues t u v lo hi := by
  rintro p ⟨dy,hdy,dx,hdx,rfl⟩
  obtain ⟨hborder,hwidth⟩ := frame_bordered ht
  have hheight : texHeight t=t.nj+2 := rfl
  simp only [around,List.mem_cons,List.not_mem_nil,or_false] at hdy hdx
  obtain ⟨x,hxplace⟩ : ∃ x : ℕ,⌊texelPos (texWidth t) u⌋+dx=x := ⟨_,(Int.toNat_of_nonneg (by omega)).symm⟩
  obtain ⟨y,hyplace⟩ : ∃ y : ℕ,⌊texelPos (texHeight t) v⌋+dy=y := ⟨_,(Int.toNat_of_nonneg (by omega)).symm⟩
  obtain ⟨j,hj,hrow⟩ := exists_texRow t (y := y) (by omega) (by omega)
  have hi : x-1 < t.ni := by omega
  have hxwidth : x<texWidth t := by omega
  rw [blockTexel,hxplace,hyplace,texelIndex_of_lt _ (by omega),texelIndex_of_lt _ hxwidth,←hrow]
  exact ⟨(j,x-1),(stores_iff hj hi hxwidth).mpr (Or.inl (by omega)),hcells j hj _ hi⟩

/-- Among values a fragment is visible. -/
theorem shownShare_of_values {t : TextureData α} {u v lo hi : α} (h : NearValues t u v lo hi) :
    shownShare t u v=1 := by
  refine linearSample_const fun dy hdy dx hdx => if_pos ?_
  have hmem {d : ℤ} (hd : d∈[(0 : ℤ),1]) : d∈around := by
    simp only [around,List.mem_cons,List.not_mem_nil,or_false] at hd ⊢
    omega
  obtain ⟨c,hstores,hdef,-⟩ := h _ ⟨dy,hmem hdy,dx,hmem hdx,rfl⟩
  rw [shows_of_stores hstores]
  exact decide_eq_true hdef

/-- The byte of a value, in the texture of a grid with two values. -/
theorem byte_bounds {grid : Grid α} {nj ni : ℕ}
    (hlt : (valueRange scanSentinel grid nj ni).1<(valueRange scanSentinel grid nj ni).2) {v : α}
    (hv : HasCell grid nj ni v) :
    normalized (dataRange grid nj ni) v-1/(255 : ℕ)≤
        unitByte (encoded (normalized (dataRange grid nj ni) v)) ∧
      (unitByte (encoded (normalized (dataRange grid nj ni) v)) : α)≤
        normalized (dataRange grid nj ni) v := by
  obtain ⟨hlow,hhigh⟩ := mem_valueRange_of_hasCell scanSentinel hv
  obtain ⟨h0,h1⟩ := normalized_of_lt hlt hlow hhigh
  obtain ⟨hbelow,hstep⟩ := (encoded_step_iff (normalized (dataRange grid nj ni) v)).mpr
    ⟨h0,h1.trans (le_add_of_nonneg_right (by positivity))⟩
  unfold unitByte
  constructor <;> linarith

omit [FloorRing α] [IsStrictOrderedRing α] in
/-- Two different values make a range that is not empty, so that normalising divides by
their difference. -/
theorem valueRange_lt {grid : Grid α} {nj ni : ℕ} {v w : α} (hv : HasCell grid nj ni v)
    (hw : HasCell grid nj ni w) (hne : v≠w) :
    (valueRange scanSentinel grid nj ni).1<(valueRange scanSentinel grid nj ni).2 := by
  obtain ⟨hv1,hv2⟩ := mem_valueRange_of_hasCell scanSentinel hv
  obtain ⟨hw1,hw2⟩ := mem_valueRange_of_hasCell scanSentinel hw
  rcases lt_or_gt_of_ne hne with hlt | hgt
  · exact hv1.trans_lt (hlt.trans_le hw2)
  · exact hw1.trans_lt (hgt.trans_le hv2)

/-- Where the values near a point lie between two bounds, what the filter looks up lies
between their places in the range. -/
theorem bicubicLum_among {grid : Grid α} {ni nj : ℕ} (hni : 0<ni) (hnj : 0<nj)
    (rowsUp repeats : Bool)
    (hlt : (valueRange scanSentinel grid nj ni).1<(valueRange scanSentinel grid nj ni).2)
    {u v lo hi : α} (hnear : NearValues (gridTexture grid ni nj rowsUp repeats) u v lo hi) :
    let t := gridTexture grid ni nj rowsUp repeats
    let sampled := bicubicLum (dataTex t) u v (texWidth t) (texHeight t)
    (0 ≤ sampled ∧ sampled≤1) ∧ normalized t.range lo-1/(255 : ℕ) ≤ sampled ∧
      sampled≤normalized t.range hi := by
  intro t sampled
  have hpos := dataRange_dRange_pos grid nj ni
  have hw : (texWidth t : α)≠0 := Nat.cast_ne_zero.mpr (by unfold texWidth; dsimp only [t,gridTexture]; omega)
  have hh : (texHeight t : α)≠0 := Nat.cast_ne_zero.mpr (Nat.succ_ne_zero _)
  have htap : HasTap (dataTex t) u v (texWidth t) (texHeight t) :=
    ⟨(1,1),by
      rw [Counted,tapAt_centre hw hh,dataTex_alpha (t := t) hni hnj,shownShare_of_values hnear]
      exact alphaLimit_bounds.2,tapWeight_centre_pos _ _ _ _⟩
  have hmono {x y : α} (hxy : x≤y) : normalized t.range x≤normalized t.range y :=
    div_le_div_of_nonneg_right (sub_le_sub_right hxy _) hpos.le
  have hbytes (p : ℕ×ℕ) (hp : Near t u v p) :
      max 0 (normalized t.range lo-1/(255 : ℕ))≤unitByte (textureImage (byteOps t) t p).red ∧
        unitByte (textureImage (byteOps t) t p).red ≤ min 1 (normalized t.range hi) := by
    obtain ⟨c,hstores,hdef,hlo,hhi⟩ := hnear p hp
    obtain ⟨dy,-,dx,-,rfl⟩ := hp
    obtain ⟨hj,hi'⟩ := inGrid_of_stores (t := t) hni hnj (blockTexel_inFrame hni u v dy dx) hstores
    have hcell : HasCell grid nj ni (cellAt grid c.1 c.2) := ⟨hdef,c.1,hj,c.2,hi',rfl⟩
    obtain ⟨hlow,hhigh⟩ := byte_bounds hlt hcell
    have hbyte : (unitByte (encoded (normalized (dataRange grid nj ni) (cellAt grid c.1 c.2))) : α)≤1 := by
      rw [unitByte,div_le_one (by norm_num)]
      exact_mod_cast encoded_le _
    rw [textureImage_of_stores hstores,texelOf_red _ hdef]
    exact ⟨max_le (unitByte_nonneg _) ((sub_le_sub_right (hmono hlo) _).trans hlow),
      le_min hbyte (hhigh.trans (hmono hhi))⟩
  obtain ⟨hlow,hhigh⟩ := bicubicLum_bounds (fun k _ => tapAt_bounds hni hbytes k) htap
  exact ⟨⟨(le_max_left _ _).trans hlow,hhigh.trans (min_le_left _ _)⟩,
    (le_max_right _ _).trans hlow,hhigh.trans (min_le_right _ _)⟩

section Table

variable {grid : Grid α} {nj ni : ℕ}

/-- Entries of the table of colours further up stand for greater values. -/
theorem lutValue_mono (X : ColorFunc) (grid : Grid α) (nj ni : ℕ) {k k' : ℕ} (h : k≤k') :
    lutValue (ownLUT X grid nj ni) k≤lutValue (ownLUT X grid nj ni) k' := by
  have hpos := dataRange_dRange_pos grid nj ni
  have hcast : (k : α)≤k' := Nat.cast_le.mpr h
  have hdiv := div_le_div_of_nonneg_right hcast (Nat.cast_nonneg (α:=α) 255)
  have hmul := mul_le_mul_of_nonneg_right hdiv hpos.le
  unfold lutValue ownLUT
  dsimp only
  linarith

/-- The value that an entry of the table stands for, counted from any value in steps of the
table. -/
theorem lutValue_eq (X : ColorFunc) (v : α) (k : ℕ) :
    lutValue (ownLUT X grid nj ni) k=
      v+(k-(255 : ℕ)*normalized (dataRange grid nj ni) v)*((dataRange grid nj ni).dRange/(255 : ℕ)) := by
  have hpos := dataRange_dRange_pos grid nj ni
  have hne := hpos.ne'
  unfold lutValue ownLUT normalized
  field_simp
  ring

/-- An entry near a place that is at most a step below a value. -/
theorem lutValue_near_low {X : ColorFunc} {lo x : α} {k : ℕ}
    (hlow : normalized (dataRange grid nj ni) lo-1/(255 : ℕ)≤x)
    (hk : (((256 : ℕ) : α)-1)*x-3*half≤k) :
    lo-5*half*((dataRange grid nj ni).dRange/(255 : ℕ))≤lutValue (ownLUT X grid nj ni) k := by
  have hunit : 0≤(dataRange grid nj ni).dRange/((255 : ℕ) : α) :=
    div_nonneg (dataRange_dRange_pos grid nj ni).le (Nat.cast_nonneg _)
  have hplace : -(5*half)≤(k : α)-(255 : ℕ)*normalized (dataRange grid nj ni) lo := by
    have hcast : ((256 : ℕ) : α)-1=(255 : ℕ) := by norm_num
    have hscaled := mul_le_mul_of_nonneg_left hlow (Nat.cast_nonneg (α:=α) 255)
    have hone : ((255 : ℕ) : α)*(1/(255 : ℕ))=1 := by norm_num
    have hhalf : (half : α)+half=1 := by norm_num [half]
    rw [hcast] at hk
    rw [mul_sub,hone] at hscaled
    linarith
  have hmul := mul_le_mul_of_nonneg_right hplace hunit
  rw [lutValue_eq X lo]
  linarith

/-- An entry that linear lookup reads near a place not above a value stands for at most one
and a half steps more. -/
theorem lutValue_near_high {X : ColorFunc} {hi x : α} {k : ℕ}
    (hhigh : x≤normalized (dataRange grid nj ni) hi)
    (hk : (k : α)≤(((256 : ℕ) : α)-1)*x+3*half) :
    lutValue (ownLUT X grid nj ni) k≤hi+3*half*((dataRange grid nj ni).dRange/(255 : ℕ)) := by
  have hunit : 0≤(dataRange grid nj ni).dRange/((255 : ℕ) : α) :=
    div_nonneg (dataRange_dRange_pos grid nj ni).le (Nat.cast_nonneg _)
  have hplace : (k : α)-(255 : ℕ)*normalized (dataRange grid nj ni) hi≤3*half := by
    have hcast : ((256 : ℕ) : α)-1=(255 : ℕ) := by norm_num
    have hscaled := mul_le_mul_of_nonneg_left hhigh (Nat.cast_nonneg (α:=α) 255)
    rw [hcast] at hk
    linarith
  have hmul := mul_le_mul_of_nonneg_right hplace hunit
  rw [lutValue_eq X hi]
  linarith

end Table

/-- Among values between two bounds a fragment is drawn, and its colour is
blended from the colours of two values near these bounds. -/
theorem fragment_among (color : ColorFunc → α → Rgb) (X : ColorFunc) {grid : Grid α} {ni nj : ℕ}
    (hni : 2≤ni) (hnj : 2≤nj) (rowsUp repeats : Bool)
    (htwo : ∃ v w,HasCell grid nj ni v ∧ HasCell grid nj ni w ∧ v≠w) {u v lo hi : α}
    (hnear : NearValues (gridTexture grid ni nj rowsUp repeats) u v lo hi) :
    let unit := (dataRange grid nj ni).dRange/(255 : ℕ)
    ∃ a b x,lo-5*half*unit≤a ∧ a≤b ∧ b≤hi+3*half*unit ∧ 0≤x ∧ x≤1 ∧
      ∀ channel,fragment color (ownLUT X grid nj ni) channel (gridTexture grid ni nj rowsUp repeats) u v=
        some ((1-x)*unitByte (channel (color X a))+x*unitByte (channel (color X b))) := by
  intro unit
  obtain ⟨_,_,hv,hw,hne⟩ := htwo
  obtain ⟨⟨h0,h1⟩,hlow,hhigh⟩ := bicubicLum_among (by omega) (by omega) rowsUp repeats
    (valueRange_lt hv hw hne) hnear
  have hdrawn : ¬(dataTex (gridTexture grid ni nj rowsUp repeats) u v).a<alphaLimit := by
    rw [dataTex_alpha (show 0<ni by omega) (show 0<nj by omega),shownShare_of_values hnear]
    exact alphaLimit_bounds.2.not_gt
  obtain ⟨k,k',x,hkk,hk,hk',hx0,hx1,hrow⟩ := linearSample1_near (by decide : 0<256) h0 h1
  refine ⟨lutValue (ownLUT X grid nj ni) k,lutValue (ownLUT X grid nj ni) k',x,?_,?_,?_,hx0,hx1,
    fun channel => ?_⟩
  · exact lutValue_near_low hlow hk
  · exact lutValue_mono X grid nj ni hkk
  · exact lutValue_near_high hhigh hk'
  · rw [fragment,shade,if_neg hdrawn]
    dsimp only
    rw [if_neg h0.not_gt,colorTex,hrow]
    rfl

end Colour

section Sample

/-- Temperatures from zero to eight. -/
def slopeGrid : Grid ℚ := [[0,1,2,3,4],[1,2,3,4,5],[2,3,4,5,6],[3,4,5,6,7],[4,5,6,7,8]]

/-- A slope of five by five nodes in its own table of colours. -/
theorem drawnWhereShown_slope :
    DrawnWhereShown colorOf (ownLUT .seaTemp slopeGrid 5 5) Rgb.red
      (gridTexture slopeGrid 5 5 true false) :=
  drawnWhereShown colorOf (ownLUT .seaTemp slopeGrid 5 5) Rgb.red (by decide) (by decide)

/-- The ends of the slope are among its values. -/
theorem hasCell_slopeGrid : HasCell slopeGrid 5 5 0 ∧ HasCell slopeGrid 5 5 8 :=
  ⟨⟨by decide,0,by decide,0,by decide,by decide⟩,⟨by decide,4,by decide,4,by decide,by decide⟩⟩

/-- All values of the slope are defined and between its ends. -/
theorem slopeGrid_bounds : ∀ j<5,∀ i<5,cellAt slopeGrid j i≠notDef ∧ 0 ≤ cellAt slopeGrid j i ∧
    cellAt slopeGrid j i≤8 := by decide

/-- A point in the middle of the slope, in the overlay's own table of colours. -/
theorem fragment_among_slope :
    ∃ a b x : ℚ,0-5*half*((dataRange slopeGrid 5 5).dRange/(255 : ℕ))≤a ∧ a≤b ∧
      b≤8+3*half*((dataRange slopeGrid 5 5).dRange/(255 : ℕ)) ∧ 0≤x ∧ x≤1 ∧
      ∀ channel,fragment colorOf (ownLUT .seaTemp slopeGrid 5 5) channel
        (gridTexture slopeGrid 5 5 true false) (3/7) (3/7)=
          some ((1-x)*unitByte (channel (colorOf .seaTemp a))+x*unitByte (channel (colorOf .seaTemp b))) := by
  have hfloor : ⌊texelPos 7 ((3/7 : ℚ))⌋=2 := by
    rw [Int.floor_eq_iff]
    norm_num [texelPos,half]
  have hplace : (2 : ℤ)≤⌊texelPos 7 ((3/7 : ℚ))⌋ ∧ ⌊texelPos 7 ((3/7 : ℚ))⌋+3≤(5 : ℕ) := by
    rw [hfloor]
    decide
  exact fragment_among colorOf .seaTemp (by decide) (by decide) true false
    ⟨0,8,hasCell_slopeGrid.1,hasCell_slopeGrid.2,by decide⟩
    (nearValues_of_inside rfl hplace hplace slopeGrid_bounds)

end Sample

end NcdfPlugin.NcdfFragment
