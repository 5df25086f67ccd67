import NcdfPlugin.TextureSampling
import NcdfPlugin.InPlaceSweep
import NcdfPlugin.NcdfSeam
import NcdfPlugin.NcdfRenderCache

/-!
# Lookup of grid nodes in a texture

`RenderGridOverlay` places the nodes of a grid in the texels of a texture,
with a transparent border around them, and draws the texture by coordinates
computed from latitude and longitude. Around the globe the texture repeats:
the border columns give way to one more copy of column zero, so the texture
is one texel wider than a full turn of the grid. Nodes are found at their own
longitude; after whole turns of the globe they are not, unless the turns make
up a multiple of the texture width.
-/

namespace NcdfPlugin.NcdfTextureLookup

open ExactArithmetic InPlaceSweep TextureSampling NcdfLibrary NcdfMessage NcdfReader NcdfEvenMap
open NcdfDialog NcdfInterpolation NcdfOverlay NcdfColorTable NcdfRenderCache

section Writer

variable {α τ : Type}

/-- What the writer stores: the cleared texel, the texel of a node, and a
texel without its alpha. -/
structure TexelOps (τ : Type) where
  /-- Texel after the buffer is cleared. -/
  blank : τ
  /-- Texel of row j and column i. -/
  cell : ℕ → ℕ → τ
  /-- The same texel with alpha zero. -/
  transparent : τ → τ

/-- Texels of a buffer by row and column. -/
abbrev Image (τ : Type) := ℕ×ℕ → τ

/-- `borderH`. -/
def borderH (t : TextureData α) : ℕ := if t.repeats=true then 0 else 1

/-- `extraCol`. -/
def extraCol (t : TextureData α) : ℕ := if t.repeats=true then 1 else 0

/-- `tw`. -/
def texWidth (t : TextureData α) : ℕ := t.ni+2*borderH t+extraCol t

/-- `th`. -/
def texHeight (t : TextureData α) : ℕ := t.nj+2

/-- `texRow` of a grid row. -/
def texRow (t : TextureData α) (j : ℕ) : ℕ := if t.rowsUp=true then j else t.nj-1-j

/-- Place of a node in the texture. -/
def nodePlace (t : TextureData α) (c : ℕ×ℕ) : ℕ×ℕ := (texRow t c.1+1,c.2+borderH t)

/-- Nodes of the two loops that are not skipped. -/
def writtenNodes (t : TextureData α) : List (ℕ×ℕ) :=
  ((List.range t.nj).flatMap fun j => (List.range t.ni).map fun i => (j,i)).filter fun c =>
    decide ¬(texWidth t-1≤(nodePlace t c).2 ∨ texHeight t-1≤(nodePlace t c).1)

/-- The nodes are written. -/
def writeNodes (ops : TexelOps τ) (t : TextureData α) (image : Image τ) : Image τ :=
  scatter (nodePlace t) (fun c _ => ops.cell c.1 c.2) image (writtenNodes t)

/-- Rows of the loop that repeats column zero. -/
def repeatedRows (t : TextureData α) : List ℕ :=
  (List.range t.nj).filter fun j => decide ¬texHeight t-1≤texRow t j+1

/-- Column zero is copied behind the last column. -/
def repeatColumn (t : TextureData α) (image : Image τ) : Image τ :=
  scatter (fun j => (texRow t j+1,t.ni)) (fun j store => store (texRow t j+1,0)) image
    (repeatedRows t)

/-- First and last row: copies of their neighbours with alpha zero. -/
def borderRows (ops : TexelOps τ) (t : TextureData α) (image : Image τ) : Image τ := fun p =>
  if p.1=0 then ops.transparent (image (1,p.2))
  else if p.1=texHeight t-1 then ops.transparent (image (texHeight t-2,p.2))
  else image p

/-- First and last column: copies of their neighbours with alpha zero. -/
def borderColumns (ops : TexelOps τ) (t : TextureData α) (image : Image τ) : Image τ := fun p =>
  if p.2=0 then ops.transparent (image (p.1,1))
  else if p.2=texWidth t-1 then ops.transparent (image (p.1,texWidth t-2))
  else image p

/-- The texel buffer of a texture. -/
def textureImage (ops : TexelOps τ) (t : TextureData α) : Image τ :=
  let nodes := writeNodes ops t fun _ => ops.blank
  let repeated := if t.repeats=true then repeatColumn t nodes else nodes
  let bordered := borderRows ops t repeated
  if t.repeats=true then bordered else borderColumns ops t bordered

/-- Frame of a repeated texture: one column more than the grid. -/
theorem frame_repeats {t : TextureData α} (ht : t.repeats=true) :
    borderH t=0 ∧ texWidth t=t.ni+1 := by
  simp [texWidth,extraCol,borderH,ht]

/-- Frame of a bordered texture: a column on either side of the grid. -/
theorem frame_bordered {t : TextureData α} (ht : t.repeats=false) :
    borderH t=1 ∧ texWidth t=t.ni+2 := by
  simp [texWidth,extraCol,borderH,ht]

/-- Whichever way the rows run, a node has a row of the texture. -/
theorem texRow_lt (t : TextureData α) {j : ℕ} (hj : j < t.nj) : texRow t j < t.nj := by
  unfold texRow
  split <;> omega

/-- Rows of the grid have their own texture rows. -/
theorem texRow_inj (t : TextureData α) {j j' : ℕ} (hj : j < t.nj) (hj' : j' < t.nj)
    (h : texRow t j=texRow t j') : j=j' := by
  unfold texRow at h
  split at h <;> omega

/-- Nodes lie inside the last row and column. -/
theorem nodePlace_inside {t : TextureData α} {c : ℕ×ℕ} (hj : c.1 < t.nj) (hi : c.2 < t.ni) :
    (nodePlace t c).1+1<texHeight t ∧ (nodePlace t c).2+1<texWidth t := by
  have hrow := texRow_lt t hj
  unfold nodePlace texWidth texHeight borderH extraCol
  split <;> omega

/-- All nodes of the grid are written. -/
theorem mem_writtenNodes {t : TextureData α} {c : ℕ×ℕ} :
    c∈writtenNodes t ↔ c.1 < t.nj ∧ c.2 < t.ni := by
  simp only [writtenNodes,List.mem_filter,List.mem_flatMap,List.mem_map,List.mem_range,
    decide_eq_true_eq]
  constructor
  · rintro ⟨⟨j,hj,i,hi,rfl⟩,-⟩
    exact ⟨hj,hi⟩
  · rintro ⟨hj,hi⟩
    have hinside := nodePlace_inside hj hi
    exact ⟨⟨c.1,hj,c.2,hi,rfl⟩,by omega⟩

/-- All rows are repeated. -/
theorem mem_repeatedRows {t : TextureData α} {j : ℕ} : j∈repeatedRows t ↔ j < t.nj := by
  simp only [repeatedRows,List.mem_filter,List.mem_range,decide_eq_true_eq]
  refine ⟨fun h => h.1,fun hj => ⟨hj,?_⟩⟩
  have hrow := texRow_lt t hj
  unfold texHeight
  omega

/-- Each node is written into its own place, and no later node overwrites it. -/
theorem writeNodes_place (ops : TexelOps τ) (t : TextureData α) (image : Image τ) {c : ℕ×ℕ}
    (hj : c.1 < t.nj) (hi : c.2 < t.ni) :
    writeNodes ops t image (nodePlace t c)=ops.cell c.1 c.2 := by
  refine scatter_of_mem (nodePlace t) _ (fun a ha b hb hab => ?_) (fun _ _ _ _ => rfl)
    (mem_writtenNodes.mpr ⟨hj,hi⟩)
  have hplace := Prod.mk.inj hab
  have hrow := texRow_inj t (mem_writtenNodes.mp ha).1 (mem_writtenNodes.mp hb).1 (by omega)
  exact Prod.ext hrow (by omega)

/-- In a texture that repeats the added column holds column zero, row by row. -/
theorem repeatColumn_place (t : TextureData α) (image : Image τ) {j : ℕ} (hj : j < t.nj)
    (hni : 0 < t.ni) :
    repeatColumn t image (texRow t j+1,t.ni)=image (texRow t j+1,0) := by
  refine scatter_of_mem (fun j => (texRow t j+1,t.ni)) (fun j store => store (texRow t j+1,0))
    (fun a ha b hb hab => ?_) (fun a _ store' hstore' => ?_) (mem_repeatedRows.mpr hj)
  · have hplace := (Prod.mk.inj hab).1
    exact texRow_inj t (mem_repeatedRows.mp ha) (mem_repeatedRows.mp hb) (by omega)
  · refine hstore' _ fun d _ hd => ?_
    have hcol := (Prod.mk.inj hd).2
    omega

/-- The other columns stay. -/
theorem repeatColumn_of_ne (t : TextureData α) (image : Image τ) {p : ℕ×ℕ} (hp : p.2≠t.ni) :
    repeatColumn t image p=image p := by
  refine scatter_of_notMem _ _ (fun j _ hj => ?_) image
  exact hp (congrArg Prod.snd hj).symm

/-- Between the two border rows bordering leaves the rows as they are. -/
theorem borderRows_row (ops : TexelOps τ) (t : TextureData α) (image : Image τ) {j : ℕ}
    (hj : j < t.nj) (x : ℕ) : borderRows ops t image (texRow t j+1,x)=image (texRow t j+1,x) := by
  have hrow := texRow_lt t hj
  unfold borderRows texHeight
  rw [if_neg (by omega),if_neg (by omega)]

/-- In the repeated texture the row of a grid row is copied once more. -/
theorem image_repeats (ops : TexelOps τ) {t : TextureData α} (ht : t.repeats=true) {j x : ℕ}
    (hj : j < t.nj) (hni : 0 < t.ni) (hx : x ≤ t.ni) :
    textureImage ops t (texRow t j+1,x)=ops.cell j (if x=t.ni then 0 else x) := by
  obtain ⟨hborder,-⟩ := frame_repeats ht
  have hnode {i : ℕ} (hi : i < t.ni) :
      writeNodes ops t (fun _ => ops.blank) (texRow t j+1,i)=ops.cell j i := by
    have hplace := writeNodes_place ops t (fun _ => ops.blank) (c := (j,i)) hj hi
    rwa [nodePlace,hborder] at hplace
  unfold textureImage
  simp only [ht,if_true]
  rw [borderRows_row ops t _ hj]
  by_cases hlast : x=t.ni
  · rw [hlast,if_pos rfl,repeatColumn_place t _ hj hni]
    exact hnode hni
  · rw [if_neg hlast,repeatColumn_of_ne t _ hlast]
    exact hnode (by omega)

/-- In the bordered texture the row of a grid row lies between two texels
without alpha. -/
theorem image_bordered (ops : TexelOps τ) {t : TextureData α} (ht : t.repeats=false) {j : ℕ}
    (hj : j < t.nj) :
    (∀ i < t.ni,textureImage ops t (texRow t j+1,i+1)=ops.cell j i) ∧
      ∀ x,x=0 ∨ x=t.ni+1 → ∃ v,textureImage ops t (texRow t j+1,x)=ops.transparent v := by
  obtain ⟨hborder,hwidth⟩ := frame_bordered ht
  have himage : textureImage ops t=
      borderColumns ops t (borderRows ops t (writeNodes ops t fun _ => ops.blank)) := by
    simp [textureImage,ht]
  rw [himage]
  constructor
  · intro i hi
    have hplace := writeNodes_place ops t (fun _ => ops.blank) (c := (j,i)) hj hi
    rw [nodePlace,hborder] at hplace
    unfold borderColumns
    rw [if_neg (by simp),if_neg (by rw [hwidth]; dsimp only; omega),borderRows_row ops t _ hj,hplace]
  · rintro x (rfl | rfl)
    · exact ⟨_,if_pos rfl⟩
    · unfold borderColumns
      rw [if_neg (by simp),if_pos (by rw [hwidth]; rfl)]
      exact ⟨_,rfl⟩

/-- Node a texel was computed from, and whether it still has its alpha. -/
structure Origin where
  /-- The node, none for a texel that was only cleared. -/
  node : Option (ℕ×ℕ)
  /-- Whether its alpha was left. -/
  visible : Bool
  deriving DecidableEq

/-- Provenance of texels. -/
def originOps : TexelOps Origin where
  blank := ⟨none,false⟩
  cell := fun j i => ⟨some (j,i),true⟩
  transparent := fun o => {o with visible := false}

/-- A texel stores a node: it was computed from it and has its alpha. -/
def Stores (t : TextureData α) (p c : ℕ×ℕ) : Prop := textureImage originOps t p=⟨some c,true⟩

/-- The texels of a row that store a node: its own, and for column zero the one behind the
grid where the texture repeats. -/
theorem stores_iff {t : TextureData α} {j i x : ℕ} (hj : j < t.nj) (hi : i < t.ni)
    (hx : x < texWidth t) :
    Stores t (texRow t j+1,x) (j,i) ↔ x=i+borderH t ∨ t.repeats=true ∧ i=0 ∧ x=t.ni := by
  unfold Stores
  cases ht : t.repeats with
  | true =>
    obtain ⟨hborder,hwidth⟩ := frame_repeats ht
    rw [image_repeats originOps ht hj (by omega) (by omega),originOps,hborder]
    simp only [Origin.mk.injEq,Option.some_inj,Prod.mk.injEq,and_true,true_and]
    split <;> omega
  | false =>
    obtain ⟨hnodes,hborders⟩ := image_bordered originOps ht hj
    obtain ⟨hborder,hwidth⟩ := frame_bordered ht
    by_cases hends : x=0 ∨ x=t.ni+1
    · obtain ⟨v,hv⟩ := hborders x hends
      rw [hv,hborder]
      refine iff_of_false (fun h => ?_) (by simp; omega)
      have hvisible := congrArg Origin.visible h
      cases hvisible
    · obtain ⟨i',rfl⟩ : ∃ i',x=i'+1 := ⟨x-1,by omega⟩
      rw [hnodes i' (by omega),originOps,hborder]
      simp only [Origin.mk.injEq,Option.some_inj,Prod.mk.injEq,and_true,true_and]
      simp [eq_comm]

/-- A map of texels that respects clearing, nodes and borders maps one image
to the other. -/
theorem map_textureImage {τ' : Type} (f : τ → τ') {ops : TexelOps τ} {ops' : TexelOps τ'}
    (hblank : f ops.blank=ops'.blank) (hcell : ∀ j i,f (ops.cell j i)=ops'.cell j i)
    (htransparent : ∀ v,f (ops.transparent v)=ops'.transparent (f v)) (t : TextureData α) :
    f∘textureImage ops t=textureImage ops' t := by
  have hnodes : f∘writeNodes ops t (fun _ => ops.blank)=
      writeNodes ops' t fun _ => ops'.blank := by
    have hstart : (f∘fun _ : ℕ×ℕ => ops.blank)=fun _ => ops'.blank := funext fun _ => hblank
    rw [writeNodes,scatter_map f _ _ (fun c _ => ops'.cell c.1 c.2) fun c _ => hcell c.1 c.2,hstart]
    rfl
  have hrepeat (image : Image τ) : f∘repeatColumn t image=repeatColumn t (f∘image) :=
    scatter_map f _ _ (fun j store => store (texRow t j+1,0)) (fun _ _ => rfl) _ _
  have hrows (image : Image τ) : f∘borderRows ops t image=borderRows ops' t (f∘image) := by
    funext p
    unfold borderRows
    simp only [Function.comp_apply,apply_ite f,htransparent]
  have hcolumns (image : Image τ) :
      f∘borderColumns ops t image=borderColumns ops' t (f∘image) := by
    funext p
    unfold borderColumns
    simp only [Function.comp_apply,apply_ite f,htransparent]
  unfold textureImage
  cases ht : t.repeats with
  | true =>
    simp only [if_true]
    rw [hrows,hrepeat,hnodes]
  | false =>
    simp only [Bool.false_eq_true,if_false]
    rw [hcolumns,hrows,hnodes]

end Writer

section Bytes

variable {α : Type} [Field α] [LinearOrder α] [FloorRing α]

/-- Red and alpha of a texel. Green and blue are zero. -/
structure Texel where
  /-- Normalized value. -/
  red : ℕ
  /-- Validity. -/
  alpha : ℕ
  deriving DecidableEq

/-- Texel of a value. -/
def texelOf (range : DataRange α) (val : α) : Texel :=
  if val=notDef then ⟨0,0⟩
  else ⟨(truncate (min (max ((val-range.dMin)/range.dRange) 0) 1*(255 : ℕ))).toNat,255⟩

/-- The texels that are uploaded. -/
def byteOps (t : TextureData α) : TexelOps Texel where
  blank := ⟨0,0⟩
  cell := fun j i => texelOf t.range (cellAt t.grid j i)
  transparent := fun v => {v with alpha := 0}

/-- The texel of a provenance. -/
def Origin.texel (t : TextureData α) (o : Origin) : Texel :=
  match o.node with
  | none => ⟨0,0⟩
  | some c =>
    let texel := texelOf t.range (cellAt t.grid c.1 c.2)
    if o.visible=true then texel else {texel with alpha := 0}

/-- A texel that stores a node has the value of the node. -/
theorem textureImage_of_stores {t : TextureData α} {p c : ℕ×ℕ} (h : Stores t p c) :
    textureImage (byteOps t) t p=texelOf t.range (cellAt t.grid c.1 c.2) := by
  have hmap : Origin.texel t∘textureImage originOps t=textureImage (byteOps t) t := by
    refine map_textureImage (Origin.texel t) rfl (fun _ _ => rfl) (fun v => ?_) t
    obtain ⟨node,visible⟩ := v
    cases node with
    | none => rfl
    | some c => cases visible <;> rfl
  rw [←hmap,Function.comp_apply,h]
  rfl

end Bytes

section Reader

variable {α : Type} [Field α] [LinearOrder α]

/-- `latstep`. -/
def latStep (s : Factory α) : α := |s.tlat-s.blat|/((s.gui.myMessage.latLength : α)-1)

/-- `lonstep`. -/
def lonStep (s : Factory α) : α := (s.blon-s.tlon)/((s.gui.myMessage.lonLength : α)-1)

/-- Longitude of a point, within half a turn of the middle unless the texture
repeats. -/
def drawnLon (s : Factory α) (repeats : Bool) (lon : α) : α :=
  let clon := (s.tlon+s.blon)/((1+1 : ℕ) : α)
  if repeats=true then lon
  else if halfTurn < clon-lon then lon+fullTurn
  else if halfTurn<lon-clon then lon-fullTurn
  else lon

/-- Texture coordinates of a point. The sizes of data and texture are equal,
so their quotients are left out. -/
def textureCoords (s : Factory α) (t : TextureData α) (lat lon : α) : α×α :=
  let repeats := repeatsAround s s.gui.myMessage.lonLength
  (((drawnLon s repeats lon-s.tlon)/lonStep s-(if repeats=true then 1 else 0)+(1+half))/texWidth t,
    ((lat-s.blat)/latStep s+(1+half))/texHeight t)

variable [FloorRing α]

/-- A point falls on the centre of a texel that stores a node. -/
def FindsNode (s : Factory α) (t : TextureData α) (lat lon : α) (c : ℕ×ℕ) : Prop :=
  ∃ y < texHeight t,∃ x < texWidth t,
    wrap t.repeats (texWidth t) (textureCoords s t lat lon).1=centre (texWidth t) x ∧
    wrap false (texHeight t) (textureCoords s t lat lon).2=centre (texHeight t) y ∧
    Stores t (y,x) c

end Reader

section Map

variable {α : Type} [Field α] [LinearOrder α]

/-- The factory has the sizes and bounds of two axes, the longitudes rising. -/
structure OnMap (s : Factory α) (lat lon : Axis α) : Prop where
  /-- Columns. -/
  columns : s.gui.myMessage.lonLength=lon.count
  /-- Rows. -/
  rows : s.gui.myMessage.latLength=lat.count
  /-- Direction of the rows. -/
  jIncr : s.gui.myMessage.jDirectionIncr=lat.step
  /-- Latitude bounds. -/
  lats : s.tlat=max lat.start lat.last ∧ s.blat=min lat.start lat.last
  /-- Longitude bounds. -/
  lons : s.tlon=lon.start ∧ s.blon=lon.last

/-- Whole turns of the globe are whole rounds of the texture, or for column
zero whole rounds but for the copy of that column. -/
def TurnFits (lon : Axis α) (i : ℕ) (k : ℤ) : Prop :=
  (∃ z : ℤ,k*fullTurn=z*((lon.count : α)+1)*lon.step) ∨
    i=0 ∧ ∃ z : ℤ,k*fullTurn+lon.step=z*((lon.count : α)+1)*lon.step

variable [IsStrictOrderedRing α]

omit [LinearOrder α] [IsStrictOrderedRing α] in
/-- Last less first node is a step for each interval. -/
theorem last_sub_start (a : Axis α) : a.last-a.start=((a.count : α)-1)*a.step := by
  rw [a.last_eq]
  ring

variable {s : Factory α} {lat lon : Axis α}

/-- The vertical coordinate counts texture rows. -/
theorem latCoord_eq (hmap : OnMap s lat lon) (grid : Grid α) {j : ℕ} (hj : j < lat.count) :
    (lat.node j-s.blat)/latStep s=(texRow (textureFor s grid) j : α) := by
  have hpos := lat.count_sub_one_pos
  have hdiff := last_sub_start lat
  have hrows : (textureFor s grid).nj=lat.count := hmap.rows
  have hup : (textureFor s grid).rowsUp=decide (0 ≤ lat.step) := by rw [←hmap.jIncr]; rfl
  unfold latStep texRow
  rw [hmap.rows,hmap.lats.1,hmap.lats.2,hup,hrows]
  rcases lt_or_gt_of_ne lat.step_ne with hneg | hposs
  · have hle : lat.last ≤ lat.start := by nlinarith
    have habs : |lat.start-lat.last|=-(((lat.count : α)-1)*lat.step) := by
      rw [abs_of_nonneg (by linarith)]
      linarith
    rw [max_eq_left hle,min_eq_right hle,habs,decide_eq_false (not_le.mpr hneg),
      if_neg Bool.false_ne_true,Nat.cast_sub (by omega),Nat.cast_sub (by omega),Nat.cast_one,
      lat.last_eq,Axis.node]
    have hstep := lat.step_ne
    field_simp
    ring
  · have hle : lat.start ≤ lat.last := by nlinarith
    have habs : |lat.last-lat.start|=((lat.count : α)-1)*lat.step := by
      rw [abs_of_nonneg (by linarith),hdiff]
    rw [max_eq_right hle,min_eq_left hle,habs,decide_eq_true hposs.le,if_pos rfl,Axis.node]
    have hstep := lat.step_ne
    field_simp
    ring

/-- Steps between the bounds are steps of the axis. -/
theorem lonStep_eq (hmap : OnMap s lat lon) : lonStep s=lon.step := by
  have hpos := lon.count_sub_one_pos
  unfold lonStep
  rw [hmap.columns,hmap.lons.1,hmap.lons.2,last_sub_start,mul_comm,mul_div_assoc,
    div_self hpos.ne',mul_one]

/-- On the map itself a longitude is within half a turn of the middle. -/
theorem drawnLon_eq (hmap : OnMap s lat lon) (hascending : 0 < lon.step)
    (hrange : lon.last-lon.start≤fullTurn) (repeats : Bool) {i : ℕ} (hi : i < lon.count) :
    drawnLon s repeats (lon.node i)=lon.node i := by
  have hdiff := last_sub_start lon
  have hi0 : (0 : α) ≤ i := Nat.cast_nonneg i
  have hi1 : (i : α)+1≤lon.count := by exact_mod_cast hi
  have hlow : lon.start ≤ lon.node i := by
    rw [Axis.node]
    nlinarith
  have hhigh : lon.node i ≤ lon.last := by
    rw [lon.last_eq,Axis.node]
    nlinarith
  have hturn : (fullTurn : α)=halfTurn+halfTurn := by norm_num [fullTurn,halfTurn]
  have htwo : ((1+1 : ℕ) : α)=2 := by norm_num
  unfold drawnLon
  dsimp only
  rw [hmap.lons.1,hmap.lons.2,htwo]
  split
  · rfl
  · rw [if_neg (by linarith),if_neg (by linarith)]

variable [FloorRing α]

/-- A point of a row falls on the centres of its texture row. -/
theorem findsNode_row_iff (hmap : OnMap s lat lon) (grid : Grid α) {j i : ℕ} (hj : j < lat.count)
    (hi : i < lon.count) (lonPoint : α) :
    FindsNode s (textureFor s grid) (lat.node j) lonPoint (j,i) ↔
      ∃ x < texWidth (textureFor s grid),
        wrap (textureFor s grid).repeats (texWidth (textureFor s grid))
          (textureCoords s (textureFor s grid) (lat.node j) lonPoint).1=
            centre (texWidth (textureFor s grid)) x ∧
        (x=i+borderH (textureFor s grid) ∨ (textureFor s grid).repeats=true ∧ i=0 ∧ x=lon.count) := by
  have hrows : (textureFor s grid).nj=lat.count := hmap.rows
  have hcolumns : (textureFor s grid).ni=lon.count := hmap.columns
  have hnj : j < (textureFor s grid).nj := by omega
  have hni : i < (textureFor s grid).ni := by omega
  have hrow : texRow (textureFor s grid) j+1 < texHeight (textureFor s grid) :=
    Nat.lt_of_succ_lt (nodePlace_inside (c := (j,i)) hnj hni).1
  have hcoord : (textureCoords s (textureFor s grid) (lat.node j) lonPoint).2=
      centre (texHeight (textureFor s grid)) (texRow (textureFor s grid) j+1) := by
    unfold textureCoords centre
    dsimp only
    rw [latCoord_eq hmap grid hj]
    push_cast
    ring
  unfold FindsNode
  rw [hcoord,wrap_clamped,clampEdge_centre hrow]
  constructor
  · rintro ⟨y,hy,x,hx,hu,hv,hstores⟩
    obtain rfl := (centre_inj (by omega)).mp hv
    rw [stores_iff hnj hni hx,hcolumns] at hstores
    exact ⟨x,hx,hu,hstores⟩
  · rintro ⟨x,hx,hu,hstores⟩
    refine ⟨_,hrow,x,hx,hu,rfl,(stores_iff hnj hni hx).mpr ?_⟩
    rw [hcolumns]
    exact hstores

/-- Without repetition every node is found at its own latitude and longitude, one texel
behind the border. -/
theorem findsNode_bordered (hmap : OnMap s lat lon) (hascending : 0 < lon.step)
    (hrange : lon.last-lon.start≤fullTurn) (hrepeats : repeatsAround s lon.count=false)
    (grid : Grid α) {j i : ℕ} (hj : j < lat.count) (hi : i < lon.count) :
    FindsNode s (textureFor s grid) (lat.node j) (lon.node i) (j,i) := by
  have ht : (textureFor s grid).repeats=false := by rw [←hrepeats,←hmap.columns]; rfl
  have hcolumns : (textureFor s grid).ni=lon.count := hmap.columns
  obtain ⟨hborder,hwidth⟩ := frame_bordered ht
  have hx : i+1 < texWidth (textureFor s grid) := by omega
  have hcoord : (textureCoords s (textureFor s grid) (lat.node j) (lon.node i)).1=
      centre (texWidth (textureFor s grid)) (i+1) := by
    unfold textureCoords centre
    dsimp only
    rw [hmap.columns,hrepeats,if_neg Bool.false_ne_true,
      drawnLon_eq hmap hascending hrange false hi,lonStep_eq hmap,hmap.lons.1,Axis.node,
      add_sub_cancel_left,mul_div_cancel_right₀ _ lon.step_ne]
    push_cast
    ring
  refine (findsNode_row_iff hmap grid hj hi _).mpr ⟨i+1,hx,?_,Or.inl (by rw [hborder])⟩
  rw [hcoord,ht,wrap_clamped,clampEdge_centre hx]

/-- Around the globe a node is found after whole turns exactly when the turns
fit the texture. -/
theorem findsNode_repeated_iff (hmap : OnMap s lat lon) (hrepeats : repeatsAround s lon.count=true)
    (grid : Grid α) {j i : ℕ} (hj : j < lat.count) (hi : i < lon.count) (k : ℤ) :
    FindsNode s (textureFor s grid) (lat.node j) (lon.node i+k*fullTurn) (j,i) ↔
      TurnFits lon i k := by
  have ht : (textureFor s grid).repeats=true := by rw [←hrepeats,←hmap.columns]; rfl
  have hcolumns : (textureFor s grid).ni=lon.count := hmap.columns
  obtain ⟨hborder,hwidth⟩ := frame_repeats ht
  rw [hcolumns] at hwidth
  have hstep := lon.step_ne
  have hcoord : (textureCoords s (textureFor s grid) (lat.node j) (lon.node i+k*fullTurn)).1=
      ((i+k*fullTurn/lon.step)+half)/(texWidth (textureFor s grid) : ℕ) := by
    unfold textureCoords drawnLon
    dsimp only
    rw [hmap.columns,hrepeats,if_pos rfl,if_pos rfl,lonStep_eq hmap,hmap.lons.1,Axis.node]
    field_simp
    ring
  have hhit {x : ℕ} (hx : x < texWidth (textureFor s grid)) :
      wrap (textureFor s grid).repeats (texWidth (textureFor s grid))
          (textureCoords s (textureFor s grid) (lat.node j) (lon.node i+k*fullTurn)).1=
            centre (texWidth (textureFor s grid)) x ↔
        ∃ z : ℤ,(i : α)+k*fullTurn/lon.step=x+z*((lon.count : α)+1) := by
    rw [hcoord,ht,wrap_repeated,fract_eq_centre_iff hx,hwidth]
    push_cast
    exact Iff.rfl
  rw [findsNode_row_iff hmap grid hj hi]
  constructor
  · rintro ⟨x,hx,hu,hplace⟩
    obtain ⟨z,hz⟩ := (hhit hx).mp hu
    rcases hplace with rfl | ⟨-,rfl,rfl⟩
    · refine Or.inl ⟨z,?_⟩
      rw [hborder] at hz
      field_simp at hz
      push_cast at hz
      linarith
    · refine Or.inr ⟨rfl,z+1,?_⟩
      field_simp at hz
      push_cast at hz ⊢
      linarith
  · rintro (⟨z,hz⟩ | ⟨rfl,z,hz⟩)
    · refine ⟨i,by omega,(hhit (by omega)).mpr ⟨z,?_⟩,Or.inl (by rw [hborder,add_zero])⟩
      rw [hz]
      field_simp
    · refine ⟨lon.count,by omega,(hhit (by omega)).mpr ⟨z-1,?_⟩,Or.inr ⟨ht,rfl,rfl⟩⟩
      rw [eq_sub_of_add_eq hz]
      field_simp
      push_cast
      ring

end Map

section Loaded

variable {α : Type} [Field α] [LinearOrder α] [IsStrictOrderedRing α] [FloorRing α]
  {lat lon : Axis α}

omit [FloorRing α] in
/-- A load of evenly spaced data sets sizes and bounds of its axes. -/
theorem onMap_load [FloorRing α] (s : Factory α) (env : Env α) {m : DataMessage α}
    (hdata : hasAnyData m=true) (haxes : OnAxes m lat lon) (hascending : 0 < lon.step) :
    OnMap (overlayStep s (.load env m)) lat lon := by
  have hpos := lon.count_sub_one_pos
  have hdiff := last_sub_start lon
  have hle : lon.start ≤ lon.last := by nlinarith
  have hmessage : (overlayStep s (.load env m)).gui.myMessage.lonLength=m.lonLength ∧
      (overlayStep s (.load env m)).gui.myMessage.latLength=m.latLength ∧
      (overlayStep s (.load env m)).gui.myMessage.jDirectionIncr=m.jDirectionIncr := by
    simp [overlayStep,overlayEvent,hdata,setData,reset,readncdfFile,DataMessage.assign]
  have hbounds : (overlayStep s (.load env m)).tlat=max m.firstGridPointLat m.lastGridPointLat ∧
      (overlayStep s (.load env m)).blat=min m.firstGridPointLat m.lastGridPointLat ∧
      (overlayStep s (.load env m)).tlon=min m.firstGridPointLong m.lastGridPointLong ∧
      (overlayStep s (.load env m)).blon=max m.firstGridPointLong m.lastGridPointLong := by
    simp [overlayStep,overlayEvent,hdata,setData]
  obtain ⟨hcolumns,hrows,hjIncr⟩ := hmessage
  obtain ⟨htlat,hblat,htlon,hblon⟩ := hbounds
  refine ⟨hcolumns.trans haxes.lonLength,hrows.trans haxes.latLength,hjIncr.trans haxes.jIncr,
    ⟨?_,?_⟩,?_,?_⟩
  · rw [htlat,haxes.firstLat,haxes.lastLat]
  · rw [hblat,haxes.firstLat,haxes.lastLat]
  · rw [htlon,haxes.firstLong,haxes.lastLong,min_eq_left hle]
  · rw [hblon,haxes.firstLong,haxes.lastLong,max_eq_right hle]

omit [LinearOrder α] [IsStrictOrderedRing α] [FloorRing α] in
/-- The index formula of a message leads to the nodes of its axes. -/
theorem node_of_onAxes [LinearOrder α] {m : DataMessage α} (haxes : OnAxes m lat lon) (j i : ℕ) :
    m.firstGridPointLat+j*m.jDirectionIncr=lat.node j ∧
      m.firstGridPointLong+i*m.iDirectionIncr=lon.node i := by
  rw [haxes.firstLat,haxes.jIncr,haxes.firstLong,haxes.iIncr]
  exact ⟨rfl,rfl⟩

/-- After a load of evenly spaced data the texture coordinates of a node, at
its own longitude or whole turns away, find a texel that stores the node
exactly when the texture does not repeat or the turns fit the texture. -/
theorem findsNode_iff (s : Factory α) (env : Env α) {m : DataMessage α} (hdata : hasAnyData m=true)
    (haxes : OnAxes m lat lon) (hascending : 0 < lon.step) (hrange : lon.last-lon.start≤fullTurn)
    (grid : Grid α) {j i : ℕ} (hj : j < lat.count) (hi : i < lon.count) {k : ℤ}
    (hdrawn : repeatsAround (overlayStep s (.load env m)) lon.count=true ∨ k=0) :
    FindsNode (overlayStep s (.load env m)) (textureFor (overlayStep s (.load env m)) grid)
        (m.firstGridPointLat+j*m.jDirectionIncr)
        (m.firstGridPointLong+i*m.iDirectionIncr+k*fullTurn) (j,i) ↔
      repeatsAround (overlayStep s (.load env m)) lon.count=false ∨ TurnFits lon i k := by
  have hmap := onMap_load s env hdata haxes hascending
  obtain ⟨hlat,hlon⟩ := node_of_onAxes haxes j i
  rw [hlat,hlon]
  cases hrepeats : repeatsAround (overlayStep s (.load env m)) lon.count with
  | true =>
    simp only [Bool.true_eq_false,false_or]
    exact findsNode_repeated_iff hmap hrepeats grid hj hi k
  | false =>
    obtain rfl : k=0 := by simpa [hrepeats] using hdrawn
    refine iff_of_true ?_ (Or.inl rfl)
    rw [Int.cast_zero,zero_mul,add_zero]
    exact findsNode_bordered hmap hascending hrange hrepeats grid hj hi

omit [FloorRing α] in
/-- On columns that make up exactly one turn, the turns fit that are a
multiple of the texture width, or for column zero one more than a multiple. -/
theorem turnFits_global_iff (hglobal : (lon.count : α)*lon.step=fullTurn) (i : ℕ) (k : ℤ) :
    TurnFits lon i k ↔ (lon.count+1 : ℤ)∣k ∨ i=0 ∧ (lon.count+1 : ℤ)∣k-1 := by
  have hstep := lon.step_ne
  have hcast (a z : ℤ) : (a : α)*lon.step=z*((lon.count : α)+1)*lon.step ↔ a=z*(lon.count+1) := by
    rw [mul_left_inj' hstep]
    exact_mod_cast Iff.rfl
  have hturns : (k : α)*fullTurn=((k*lon.count : ℤ) : α)*lon.step := by
    rw [←hglobal]
    push_cast
    ring
  have hcopy : (k : α)*fullTurn+lon.step=((k*lon.count+1 : ℤ) : α)*lon.step := by
    rw [hturns]
    push_cast
    ring
  unfold TurnFits
  rw [hcopy,hturns]
  simp only [hcast]
  refine or_congr ⟨?_,?_⟩ (and_congr_right fun _ => ⟨?_,?_⟩)
  · rintro ⟨z,hz⟩
    exact ⟨k-z,by linarith⟩
  · rintro ⟨z,rfl⟩
    exact ⟨z*lon.count,by ring⟩
  · rintro ⟨z,hz⟩
    exact ⟨k-z,by linarith⟩
  · rintro ⟨z,hz⟩
    obtain rfl : k=(lon.count+1)*z+1 := by linarith
    exact ⟨z*lon.count+1,by ring⟩

end Loaded

section Sample

/-- Two rows and four columns around the globe. -/
def quarterMap : DataMessage ℚ := sampleMap southward NcdfSeam.quarterAxis

/-- The factory after that map was loaded. -/
def quarterFactory : Factory ℚ := overlayStep {} (.load (sampleEnv fun _ => none) quarterMap)

/-- The sample map has two rows to the south and four columns of 90 degrees. -/
theorem onAxes_quarterMap : OnAxes quarterMap southward NcdfSeam.quarterAxis :=
  (evenlyLoaded_sampleMap _ _).onAxes

/-- Its texture repeats around the globe. -/
theorem repeats_quarterFactory : repeatsAround quarterFactory NcdfSeam.quarterAxis.count=true := by
  decide +kernel

/-- A grid of that map with different values. -/
def quarterGrid : Grid ℚ := [[1,2,3,4],[5,6,7,8]]

/-- On four columns of 90 degrees the second one is found at its own longitude. -/
theorem findsNode_iff_quarter :
    FindsNode quarterFactory (textureFor quarterFactory quarterGrid)
      (quarterMap.firstGridPointLat+(0 : ℕ)*quarterMap.jDirectionIncr)
      (quarterMap.firstGridPointLong+(1 : ℕ)*quarterMap.iDirectionIncr+(0 : ℤ)*fullTurn) (0,1) := by
  refine (findsNode_iff {} _ (by decide +kernel) onAxes_quarterMap (by decide +kernel)
    (by decide +kernel) quarterGrid (by decide) (by decide) (Or.inr rfl)).mpr
    (Or.inr (Or.inl ⟨0,?_⟩))
  simp

/-- One turn to the right it is not: the texture has five columns. -/
theorem not_findsNode_quarter :
    OnAxes quarterMap southward NcdfSeam.quarterAxis ∧
    repeatsAround quarterFactory NcdfSeam.quarterAxis.count=true ∧
    ¬FindsNode quarterFactory (textureFor quarterFactory quarterGrid)
      (quarterMap.firstGridPointLat+(0 : ℕ)*quarterMap.jDirectionIncr)
      (quarterMap.firstGridPointLong+(1 : ℕ)*quarterMap.iDirectionIncr+(1 : ℤ)*fullTurn) (0,1) := by
  refine ⟨onAxes_quarterMap,repeats_quarterFactory,?_⟩
  obtain ⟨hlat,hlon⟩ := node_of_onAxes onAxes_quarterMap 0 1
  have hmap := onMap_load {} (sampleEnv fun _ => none) (m := quarterMap) (by decide +kernel)
    onAxes_quarterMap (by decide +kernel)
  rw [hlat,hlon]
  intro hfound
  have hfits := (findsNode_repeated_iff hmap repeats_quarterFactory quarterGrid (by decide)
    (by decide) 1).mp hfound
  rw [turnFits_global_iff (by decide +kernel)] at hfits
  revert hfits
  decide

end Sample

end NcdfPlugin.NcdfTextureLookup
