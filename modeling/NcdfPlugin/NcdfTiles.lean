import NcdfPlugin.FlatLayout
import NcdfPlugin.NcdfFragment

/-!
# Tiles of the chart window

The window is drawn in two to sixteen tiles along either side. Texture
coordinates are computed once for each corner, kept in an array and read back
by the loop over the tiles, which moves corners across the seam of the globe
and passes over tiles outside the texture. Every point of the window belongs
to one tile, the array is large enough, and what is passed over would have
been discarded.
-/

namespace NcdfPlugin.NcdfTiles

open ExactArithmetic TextureSampling LinearFiltering FlatLayout NcdfMessage NcdfReader
open NcdfInterpolation NcdfOverlay NcdfTextureLookup NcdfQuantisation NcdfTexelBuffer
open NcdfColorMap NcdfShader NcdfFragment

section Program

variable {α : Type} [Field α] [LinearOrder α] [FloorRing α]

/-- Window and projection, as far as the tiles depend on them. -/
structure ViewPort (α : Type) where
  /-- `pix_width`. -/
  pix_width : ℕ
  /-- `pix_height`. -/
  pix_height : ℕ
  /-- `rotation`. -/
  rotation : α
  /-- `pw` before it is raised to 20: from the scale and the latitude. -/
  pw : α
  /-- `GetCanvasLLPix`: latitude and longitude of a pixel. -/
  llPix : ℤ×ℤ → α×α

/-- Number of tiles, kept between 2 and 16. -/
def keptCount (n : ℤ) : ℕ :=
  let n := if n<2 then 2 else n
  (if 16<n then 16 else n).toNat

/-- `pw`. -/
def tileWidth (vp : ViewPort α) : α := if vp.pw<(20 : ℕ) then (20 : ℕ) else vp.pw

/-- `xs`. -/
def tileColumns (vp : ViewPort α) : ℕ :=
  keptCount (if vp.rotation=0 then 1 else ⌈(vp.pix_width : α)/tileWidth vp⌉)

/-- `ys`. -/
def tileRows (vp : ViewPort α) : ℕ := keptCount ⌈(vp.pix_height : α)/tileWidth vp⌉

/-- Latitude and longitude of a corner, from its pixel. -/
def cornerPlace (vp : ViewPort α) (i j : ℕ) : α×α :=
  vp.llPix (truncate ((vp.pix_width : α)/tileColumns vp*i),
    truncate ((vp.pix_height : α)/tileRows vp*j))

/-- Texture coordinates of a corner. -/
def cornerCoords (s : Factory α) (t : TextureData α) (vp : ViewPort α) (i j : ℕ) : α×α :=
  let place := cornerPlace vp i j
  textureCoords s t place.1 place.2

/-- `lva`, a pair for each corner in the order it is filled. -/
def lva (s : Factory α) (t : TextureData α) (vp : ViewPort α) : List (α×α) :=
  rowMajor (tileColumns vp+1) (tileRows vp+1) (cornerCoords s t vp)

/-- The four corners of a tile, read from the array. -/
def readTile (mesh : List (α×α)) (gridH i j : ℕ) : Option (Fin 4 → α×α) := do
  let c0 ← mesh[i*gridH+j]?
  let c1 ← mesh[(i+1)*gridH+j]?
  let c2 ← mesh[(i+1)*gridH+(j+1)]?
  let c3 ← mesh[i*gridH+(j+1)]?
  some ![c0,c1,c2,c3]

/-- A coordinate moved to within half a turn of the first one. -/
def towards (u0 u : α) : α := if half<u-u0 then u-1 else if half<u0-u then u+1 else u

/-- The corners that are drawn. -/
def seamed (repeats : Bool) (tile : Fin 4 → α×α) : Fin 4 → α×α :=
  if repeats=true then fun k => (towards (tile 0).1 (tile k).1,(tile k).2) else tile

/-- The test for tiles outside the texture. -/
def MeetsTexture (repeats : Bool) (tile : Fin 4 → α×α) : Prop :=
  (repeats=true ∨ (∃ k,0≤(tile k).1) ∧ ∃ k,(tile k).1≤1) ∧ (∃ k,0≤(tile k).2) ∧ ∃ k,(tile k).2≤1

instance (repeats : Bool) (tile : Fin 4 → α×α) : Decidable (MeetsTexture repeats tile) :=
  inferInstanceAs (Decidable (_ ∧ _))

/-- One turn of the loops: the tile if it is drawn. -/
def turn (repeats : Bool) (tile : Fin 4 → α×α) : List (Fin 4 → α×α) :=
  let corners := seamed repeats tile
  if ¬MeetsTexture repeats corners then []
  else if (corners 1).1≤(corners 0).1 then []
  else [corners]

/-- The two loops over the tiles: none when the array is left. -/
def drawnTiles (s : Factory α) (t : TextureData α) (vp : ViewPort α) : Option (List (Fin 4 → α×α)) :=
  (((List.range (tileColumns vp)).flatMap fun i => (List.range (tileRows vp)).map fun j => (i,j)).mapM
    fun c => (readTile (lva s t vp) (tileRows vp+1) c.1 c.2).map
      (turn (repeatsAround s s.gui.myMessage.lonLength))).map List.flatten

/-- A point lies between the two ends of the k-th of n parts of a side. -/
def InPart (pixels n : ℕ) (x : α) (k : ℕ) : Prop := (pixels : α)/n*k≤x ∧ x<(pixels : α)/n*(k+1)

/-- Coordinates that are interpolated between the corners of a tile. -/
def Interpolated (tile : Fin 4 → α×α) (u v : α) : Prop :=
  ∃ weight : Fin 4 → α,(∀ k,0≤weight k) ∧ ∑ k,weight k=1 ∧ u=∑ k,weight k*(tile k).1 ∧
    v=∑ k,weight k*(tile k).2

end Program

section Counts

/-- The number of tiles along a side is clamped to between two and sixteen. -/
theorem keptCount_bounds (n : ℤ) : 2 ≤ keptCount n ∧ keptCount n≤16 := by
  unfold keptCount
  dsimp only
  split <;> split <;> omega

variable {α : Type} [Field α] [LinearOrder α] [FloorRing α] [IsStrictOrderedRing α]

/-- The parts of a side cover it without overlapping. -/
theorem existsUnique_inPart {pixels n : ℕ} (hn : 0<n) {x : α} (h0 : 0≤x) (hx : x<pixels) :
    ∃! k,k<n ∧ InPart pixels n x k := by
  have hn' : (0 : α)<n := Nat.cast_pos.mpr hn
  have hpixels : (0 : α)<pixels := h0.trans_lt hx
  have hside : (0 : α)<(pixels : α)/n := div_pos hpixels hn'
  have hpart (k : ℕ) : InPart pixels n x k ↔ ⌊x/((pixels : α)/n)⌋=k := by
    rw [Int.floor_eq_iff,le_div_iff₀ hside,div_lt_iff₀ hside,InPart]
    push_cast
    rw [mul_comm (k : α),mul_comm ((k : α)+1)]
  have hfloor : 0≤⌊x/((pixels : α)/n)⌋ := Int.floor_nonneg.mpr (div_nonneg h0 hside.le)
  have hlast : ⌊x/((pixels : α)/n)⌋<n := Int.floor_lt.mpr (by
    rw [div_lt_iff₀ hside,Int.cast_natCast,mul_div_cancel₀ _ hn'.ne']
    exact hx)
  refine ⟨⌊x/((pixels : α)/n)⌋.toNat,⟨by omega,(hpart _).mpr (Int.toNat_of_nonneg hfloor).symm⟩,?_⟩
  rintro k ⟨-,hk⟩
  rw [hpart] at hk
  omega

end Counts

section Reads

variable {α : Type} [Field α] [LinearOrder α] [FloorRing α]

/-- Every tile reads its own four corners from the array, all of them in bounds. -/
theorem readTile_lva (s : Factory α) (t : TextureData α) (vp : ViewPort α) {i j : ℕ}
    (hi : i<tileColumns vp) (hj : j<tileRows vp) :
    readTile (lva s t vp) (tileRows vp+1) i j=
      some ![cornerCoords s t vp i j,cornerCoords s t vp (i+1) j,cornerCoords s t vp (i+1) (j+1),
        cornerCoords s t vp i (j+1)] := by
  have hread {i j : ℕ} (hi : i<tileColumns vp+1) (hj : j<tileRows vp+1) :
      (lva s t vp)[i*(tileRows vp+1)+j]? = some (cornerCoords s t vp i j) :=
    rowMajor_getElem? (cornerCoords s t vp) hi hj
  simp only [readTile,hread (Nat.lt_succ_of_lt hi) (Nat.lt_succ_of_lt hj),
    hread (Nat.succ_lt_succ hi) (Nat.lt_succ_of_lt hj),hread (Nat.succ_lt_succ hi) (Nat.succ_lt_succ hj),
    hread (Nat.lt_succ_of_lt hi) (Nat.succ_lt_succ hj),Option.bind_eq_bind,Option.bind_some]

end Reads

section Culling

variable {α : Type} [Field α] [LinearOrder α] [IsStrictOrderedRing α]

/-- A mean of values on one side of a bound is on that side. -/
theorem sum_weight_lt {weight value : Fin 4 → α} (hweight : ∀ k,0≤weight k) (hsum : ∑ k,weight k=1)
    {b : α} (hvalue : ∀ k,value k<b) : ∑ k,weight k*value k<b := by
  have hsome : ∃ k,0<weight k := by
    by_contra hnone
    have hzero : ∑ k,weight k=0 := Finset.sum_eq_zero fun k _ =>
      le_antisymm (not_lt.mp fun hpos => hnone ⟨k,hpos⟩) (hweight k)
    rw [hsum] at hzero
    exact one_ne_zero hzero
  obtain ⟨k,hk⟩ := hsome
  have hlt : ∑ k,weight k*value k<∑ k,weight k*b :=
    Finset.sum_lt_sum (fun k _ => mul_le_mul_of_nonneg_left (hvalue k).le (hweight k))
      ⟨k,Finset.mem_univ k,mul_lt_mul_of_pos_left (hvalue k) hk⟩
  rwa [←Finset.sum_mul,hsum,one_mul] at hlt

/-- Weighted means of values above a bound are above it, since the weights add up to one. -/
theorem lt_sum_weight {weight value : Fin 4 → α} (hweight : ∀ k,0≤weight k) (hsum : ∑ k,weight k=1)
    {b : α} (hvalue : ∀ k,b<value k) : b<∑ k,weight k*value k := by
  have h : ∑ k,weight k*(-value k) < -b :=
    sum_weight_lt hweight hsum fun k => neg_lt_neg (hvalue k)
  simp only [mul_neg,Finset.sum_neg_distrib] at h
  exact neg_lt_neg_iff.mp h

/-- Points of a tile that fails the test lie beyond the texture. -/
theorem outside_of_not_meets {repeats : Bool} {tile : Fin 4 → α×α} (h : ¬MeetsTexture repeats tile)
    {u v : α} (huv : Interpolated tile u v) : v<0 ∨ 1<v ∨ repeats=false ∧ (u<0 ∨ 1<u) := by
  obtain ⟨weight,hweight,hsum,rfl,rfl⟩ := huv
  rw [MeetsTexture,not_and_or,not_and_or] at h
  rcases h with hcolumns | hlow | hhigh
  · rw [not_or,not_and_or] at hcolumns
    refine Or.inr (Or.inr ⟨Bool.eq_false_iff.mpr hcolumns.1,hcolumns.2.imp (fun hneg => ?_) fun hbig => ?_⟩)
    · exact sum_weight_lt hweight hsum fun k => not_le.mp fun hk => hneg ⟨k,hk⟩
    · exact lt_sum_weight hweight hsum fun k => not_le.mp fun hk => hbig ⟨k,hk⟩
  · exact Or.inl (sum_weight_lt hweight hsum fun k => not_le.mp fun hk => hlow ⟨k,hk⟩)
  · exact Or.inr (Or.inl (lt_sum_weight hweight hsum fun k => not_le.mp fun hk => hhigh ⟨k,hk⟩))

omit [IsStrictOrderedRing α] in
/-- A moved coordinate is a whole number of turns away. -/
theorem exists_turns_towards (u0 u : α) : ∃ z : ℤ,towards u0 u=u+z := by
  unfold towards
  split
  next => exact ⟨-1,by push_cast; ring⟩
  next =>
    split
    next => exact ⟨1,by push_cast; ring⟩
    next => exact ⟨0,by push_cast; ring⟩

/-- Coordinates at most one and a half turns apart are moved to within half a turn. -/
theorem towards_near {u0 u : α} (h : |u-u0|≤1+half) : |towards u0 u-u0|≤half := by
  have hhalf : (half : α)+half=1 := by norm_num [half]
  obtain ⟨hlow,hhigh⟩ := abs_le.mp h
  rw [abs_le]
  unfold towards
  split
  next => constructor <;> linarith
  next hno =>
    split
    next => constructor <;> linarith
    next hno' => constructor <;> linarith

end Culling

section Drawing

variable {α : Type} [Field α] [LinearOrder α] [FloorRing α]

/-- Corners of a tile. -/
def tileCorners (s : Factory α) (t : TextureData α) (vp : ViewPort α) (c : ℕ×ℕ) : Fin 4 → α×α :=
  ![cornerCoords s t vp c.1 c.2,cornerCoords s t vp (c.1+1) c.2,cornerCoords s t vp (c.1+1) (c.2+1),
    cornerCoords s t vp c.1 (c.2+1)]

/-- Longitudes of the corners of a tile, as the projection gives them. -/
def tileLons (vp : ViewPort α) (c : ℕ×ℕ) : Fin 4 → α :=
  ![(cornerPlace vp c.1 c.2).2,(cornerPlace vp (c.1+1) c.2).2,(cornerPlace vp (c.1+1) (c.2+1)).2,
    (cornerPlace vp c.1 (c.2+1)).2]

/-- Tiles in the order of the loops. -/
def tileOrder (vp : ViewPort α) : List (ℕ×ℕ) :=
  (List.range (tileColumns vp)).flatMap fun i => (List.range (tileRows vp)).map fun j => (i,j)

/-- What the tiles draw of a texture. -/
structure TilesCover (color : ColorFunc → α → Rgb) (lut : ColorLUT α) (channel : Rgb → ℕ)
    (s : Factory α) (t : TextureData α) (vp : ViewPort α) : Prop where
  /-- Every read is inside the array and finds the corners of the tile. -/
  reads : drawnTiles s t vp=some ((tileOrder vp).flatMap fun c => turn t.repeats (tileCorners s t vp c))
  /-- There are 2 to 16 tiles along a side. -/
  counts : (2 ≤ tileColumns vp ∧ tileColumns vp≤16) ∧ 2 ≤ tileRows vp ∧ tileRows vp≤16
  /-- A point of the window is in one tile. -/
  partition : ∀ x y : α,0≤x → x<vp.pix_width → 0≤y → y<vp.pix_height →
    ∃! c : ℕ×ℕ,(c.1<tileColumns vp ∧ InPart vp.pix_width (tileColumns vp) x c.1) ∧
      c.2<tileRows vp ∧ InPart vp.pix_height (tileRows vp) y c.2
  /-- What the test passes over is discarded by the shader. -/
  passed : ∀ tile,¬MeetsTexture t.repeats tile → ∀ u v,Interpolated tile u v →
    fragment color lut channel t u v=none
  /-- A corner moved across the seam shows the same. -/
  seam : ∀ tile k,
    fragment color lut channel t (seamed t.repeats tile k).1 (seamed t.repeats tile k).2=
      fragment color lut channel t (tile k).1 (tile k).2
  /-- It is moved to within half a turn of the first corner, when the projection
  gives longitudes at most a turn and a half apart for the two. -/
  near : t.repeats=true → ∀ (c : ℕ×ℕ) (k : Fin 4),
    |tileLons vp c k-tileLons vp c 0|≤fullTurn+halfTurn →
      |(seamed t.repeats (tileCorners s t vp c) k).1-(tileCorners s t vp c 0).1|≤half

/-- Tiles are drawn for every column and row of the mesh. -/
theorem mem_tileOrder {vp : ViewPort α} {c : ℕ×ℕ} :
    c∈tileOrder vp ↔ c.1<tileColumns vp ∧ c.2<tileRows vp := by
  obtain ⟨i,j⟩ := c
  simp [tileOrder]

/-- A list of reads that all succeed succeeds as a whole. -/
theorem mapM_some {ι γ : Type} {f : ι → Option γ} {g : ι → γ} {l : List ι} (h : ∀ k∈l,f k=some (g k)) :
    l.mapM f=some (l.map g) := by
  induction l with
  | nil => rfl
  | cons k l ih =>
    obtain ⟨hk,hrest⟩ := List.forall_mem_cons.mp h
    simp [List.mapM_cons,hk,ih hrest]

variable [IsStrictOrderedRing α]

/-- The tiles divide the window: a point is in one column of them and in one row. -/
theorem existsUnique_tile {vp : ViewPort α} {x y : α} (hx0 : 0≤x) (hx : x<vp.pix_width) (hy0 : 0≤y)
    (hy : y<vp.pix_height) :
    ∃! c : ℕ×ℕ,(c.1<tileColumns vp ∧ InPart vp.pix_width (tileColumns vp) x c.1) ∧
      c.2<tileRows vp ∧ InPart vp.pix_height (tileRows vp) y c.2 := by
  have hcolumns : 0<tileColumns vp := Nat.zero_lt_of_lt (keptCount_bounds _).1
  have hrows : 0<tileRows vp := Nat.zero_lt_of_lt (keptCount_bounds _).1
  obtain ⟨i,hi,hiunique⟩ := existsUnique_inPart hcolumns hx0 hx
  obtain ⟨j,hj,hjunique⟩ := existsUnique_inPart hrows hy0 hy
  exact ⟨(i,j),⟨hi,hj⟩,fun c hc => Prod.ext (hiunique c.1 hc.1) (hjunique c.2 hc.2)⟩

/-- The fragment of a texture that repeats does not see whole turns in its coordinate, so a
corner may be moved by them. -/
theorem fragment_add_turns (color : ColorFunc → α → Rgb) (lut : ColorLUT α) (channel : Rgb → ℕ)
    {t : TextureData α} (ht : t.repeats=true) (u v : α) (z : ℤ) :
    fragment color lut channel t (u+z) v=fragment color lut channel t u v := by
  have hwidth : 0<texWidth t := by
    rw [(frame_repeats ht).2]
    omega
  refine shade_add_turns hwidth (fun u v => ?_) u v
  simp only [dataTex,ht,linearSample_add_turns]

/-- A turn of the globe is at most the width of a repeated texture. -/
theorem fullTurn_le_width {s : Factory α} {t : TextureData α} (hni : 2 ≤ t.ni)
    (hcolumns : t.ni=s.gui.myMessage.lonLength) (ht : t.repeats=true)
    (hrepeats : repeatsAround s s.gui.myMessage.lonLength=true) :
    fullTurn≤lonStep s*texWidth t := by
  have hturn := of_decide_eq_true hrepeats
  have hwidth : (texWidth t : α)=s.gui.myMessage.lonLength+1 := by
    rw [(frame_repeats ht).2,hcolumns,Nat.cast_add,Nat.cast_one]
  have hlength : (2 : α) ≤ s.gui.myMessage.lonLength := by
    rw [←hcolumns]
    exact_mod_cast hni
  have hrange : s.blon-s.tlon=lonStep s*((s.gui.myMessage.lonLength : α)-1) := by
    rw [lonStep,div_mul_cancel₀]
    linarith
  -- the columns and the step after the last one go around the globe
  have hcover : fullTurn≤lonStep s*s.gui.myMessage.lonLength := by
    calc fullTurn ≤ s.blon-s.tlon+lonStep s := hturn
      _=lonStep s*s.gui.myMessage.lonLength := by rw [hrange]; ring
  have hturnPos : (0 : α)<fullTurn := by norm_num [fullTurn]
  have hstep : 0≤lonStep s := by
    by_contra hneg
    have := mul_nonpos_of_nonpos_of_nonneg (not_le.mp hneg).le (by linarith : (0 : α) ≤ s.gui.myMessage.lonLength)
    linarith
  rw [hwidth,mul_add,mul_one]
  linarith

/-- Corners whose longitudes are at most a turn and a half apart are so on the
texture too. -/
theorem corners_near {s : Factory α} {t : TextureData α} (vp : ViewPort α) (hni : 2 ≤ t.ni)
    (hcolumns : t.ni=s.gui.myMessage.lonLength) (ht : t.repeats=true)
    (hrepeats : repeatsAround s s.gui.myMessage.lonLength=true) {c : ℕ×ℕ} {k : Fin 4}
    (h : |tileLons vp c k-tileLons vp c 0|≤fullTurn+halfTurn) :
    |(tileCorners s t vp c k).1-(tileCorners s t vp c 0).1|≤1+half := by
  have hwidth := fullTurn_le_width hni hcolumns ht hrepeats
  have hturnPos : (0 : α)<fullTurn := by norm_num [fullTurn]
  have hpos : 0<lonStep s*texWidth t := hturnPos.trans_le hwidth
  -- without a shift of the longitudes the coordinates are affine in them
  have hcoord (c : ℕ×ℕ) (k : Fin 4) : (tileCorners s t vp c k).1=
      ((tileLons vp c k-s.tlon)/lonStep s-1+(1+half))/texWidth t := by
    fin_cases k <;>
      simp [tileCorners,tileLons,cornerCoords,textureCoords,hrepeats,drawnLon]
  have hdiff : (tileCorners s t vp c k).1-(tileCorners s t vp c 0).1=
      (tileLons vp c k-tileLons vp c 0)/(lonStep s*texWidth t) := by
    rw [hcoord,hcoord,←div_div,←sub_div]
    ring
  rw [hdiff,abs_div,abs_of_pos hpos,div_le_iff₀ hpos]
  calc |tileLons vp c k-tileLons vp c 0|≤(1+half)*fullTurn := by
        refine h.trans (le_of_eq ?_)
        norm_num [fullTurn,halfTurn,half]
    _≤(1+half)*(lonStep s*texWidth t) :=
        mul_le_mul_of_nonneg_left hwidth (by norm_num [half])

/-- Tiles lose nothing of a texture with the columns and the repeat mode of
the loaded map. -/
theorem tilesCover (color : ColorFunc → α → Rgb) (lut : ColorLUT α) (channel : Rgb → ℕ)
    (s : Factory α) {t : TextureData α} (vp : ViewPort α) (hni : 2 ≤ t.ni) (hnj : 2 ≤ t.nj)
    (hcolumns : t.ni=s.gui.myMessage.lonLength)
    (hrepeats : t.repeats=repeatsAround s s.gui.myMessage.lonLength) :
    TilesCover color lut channel s t vp := by
  refine ⟨?_,⟨keptCount_bounds _,keptCount_bounds _⟩,fun x y => existsUnique_tile,
    fun tile hmeets u v huv => ?_,fun tile k => ?_,fun ht c k hk => ?_⟩
  · have hturn (c : ℕ×ℕ) (hc : c∈tileOrder vp) :
        (readTile (lva s t vp) (tileRows vp+1) c.1 c.2).map
          (turn (repeatsAround s s.gui.myMessage.lonLength))=
            some (turn t.repeats (tileCorners s t vp c)) := by
      obtain ⟨hi,hj⟩ := mem_tileOrder.mp hc
      rw [readTile_lva s t vp hi hj,Option.map_some,hrepeats]
      rfl
    have hall := mapM_some hturn
    unfold tileOrder at hall
    rw [drawnTiles,hall,Option.map_some,←List.flatMap_def]
    rfl
  · exact fragment_outside color lut channel hni hnj (outside_of_not_meets hmeets huv)
  · unfold seamed
    split
    next ht =>
      obtain ⟨z,hz⟩ := exists_turns_towards (tile 0).1 (tile k).1
      dsimp only
      rw [hz,fragment_add_turns color lut channel ht]
    next => rfl
  · rw [seamed,if_pos ht]
    exact towards_near (corners_near vp hni hcolumns ht (hrepeats.symm.trans ht) hk)

end Drawing

section Sample

/-- A window of 800 by 600 pixels, a hundred to a degree. -/
def sampleViewPort : ViewPort ℚ := ⟨800,600,0,100,fun p => (p.2/100,p.1/100)⟩

/-- The tiles of a map of four columns of 90 degrees, whose texture repeats. -/
theorem tilesCover_quarter :
    TilesCover colorOf (ownLUT .seaTemp quarterGrid 2 4) Rgb.red quarterFactory
      (gridTexture quarterGrid 4 2 true (repeatsAround quarterFactory
        quarterFactory.gui.myMessage.lonLength)) sampleViewPort :=
  tilesCover colorOf (ownLUT .seaTemp quarterGrid 2 4) Rgb.red quarterFactory sampleViewPort
    (by decide) (by decide) rfl rfl

end Sample

end NcdfPlugin.NcdfTiles
