import NcdfPlugin.NcdfIsoLine

/-!
# Overlay factory

The factory draws from the grids of the dialog. `setData` keeps the sorted
bounds of a loaded message and marks every cache for rebuilding; a frame
then rebuilds the texture of each overlay it shows, once, and the cached
isolines. The textures are one for each overlay. The colour table that the
shader looks colours up in is shared by all of them.
-/

namespace NcdfPlugin.NcdfOverlay

open ExactArithmetic NcdfLibrary NcdfMessage NcdfReader NcdfInterpolation NcdfIsoLine

/-- Colour function of an overlay: `GetSeaCurrentGraphicColor`,
`GetSeaTempGraphicColor` or `GetSalinityGraphicColor`. -/
inductive ColorFunc where
  | seaCurrent
  | seaTemp
  | salinity
  deriving DecidableEq

/-- Visibility settings of the plugin. -/
structure ShowFlags where
  /-- `m_bShowCurrentForce`. -/
  showCurrentForce : Bool := true
  /-- `m_bShowCurrentDir`. -/
  showCurrentDir : Bool := true
  /-- `m_bShowParticles`. -/
  showParticles : Bool := true
  /-- `m_bShowSeaTemp`. -/
  showSeaTemp : Bool := false
  /-- `m_bShowSeaTempIso`. -/
  showSeaTempIso : Bool := false
  /-- `m_bShowSalinity`. -/
  showSalinity : Bool := false

/-- Value range of a grid as the textures and colour tables use it. -/
structure DataRange (α : Type) where
  /-- Smallest value, or zero without a range. -/
  dMin : α
  /-- Greatest value, or one without a range. -/
  dMax : α
  /-- Their difference, or one when it is tiny. -/
  dRange : α
  deriving DecidableEq

/-- Colour table of 256 entries. The k-th is the colour function at dMin plus
k/255 of dRange, so the table is determined by these three. -/
structure ColorLUT (α : Type) where
  /-- Colour function the entries were computed with. -/
  colorFunc : ColorFunc
  /-- Value of the first entry. -/
  dMin : α
  /-- Difference of the last entry's value to the first's. -/
  dRange : α
  deriving DecidableEq

/-- What the texels of a texture are computed from. -/
structure TextureData (α : Type) where
  /-- Grid whose values are normalized. -/
  grid : Grid α
  /-- Columns of the grid. -/
  ni : ℕ
  /-- Rows of the grid. -/
  nj : ℕ
  /-- Whether row zero is the lowest texture row. -/
  rowsUp : Bool
  /-- Whether the columns wrap around the globe. -/
  repeats : Bool
  /-- Range of the normalization. -/
  range : DataRange α

/-- Texture of one overlay with its two flags. -/
structure TextureSlot (α : Type) where
  /-- The texture, absent while its identifier is zero. -/
  texture : Option (TextureData α) := none
  /-- Whether the texture is in place. -/
  hasTex : Bool := false
  /-- Whether the next frame has to drop it. -/
  needsRebuild : Bool := false

/-- `IsoSeg`. -/
structure IsoSeg (α : Type) where
  /-- Latitude of the first end. -/
  lat1 : α
  /-- Longitude of the first end. -/
  lon1 : α
  /-- Latitude of the second end. -/
  lat2 : α
  /-- Longitude of the second end. -/
  lon2 : α
  deriving DecidableEq

/-- `ncdfOverlayFactory` together with the dialog's grids, which it reads
through its pointer, and the settings of the plugin. -/
structure Factory (α : Type) [Field α] where
  /-- Fields of the dialog. -/
  gui : GuiGrids α := {}
  /-- Whether the pointer to the dialog is set. -/
  attached : Bool := false
  /-- Visibility settings. -/
  flags : ShowFlags := {}
  /-- `m_bReadyToRender`. -/
  ready : Bool := false
  /-- Northern bound. -/
  tlat : α := 0
  /-- Western bound. -/
  tlon : α := 0
  /-- Southern bound. -/
  blat : α := 0
  /-- Eastern bound. -/
  blon : α := 0
  /-- Texture of each overlay. -/
  slots : ColorFunc → TextureSlot α := fun _ => {}
  /-- `m_glColorLUT`, absent while `m_bHasColorLUT` is false. -/
  colorLUT : Option (ColorLUT α) := none
  /-- `s_dMin` and `s_dMax`, handed to the shader as uniforms. -/
  uniforms : α×α := (0,1)
  /-- `m_bNeedsIsoRebuild`. -/
  needsIsoRebuild : Bool := true
  /-- `m_isoSegments`. -/
  isoSegments : List (IsoSeg α) := []

/-- One textured draw of a frame, with what the shader has bound. -/
structure Draw (α : Type) where
  /-- Overlay that is drawn. -/
  colorFunc : ColorFunc
  /-- Grid of the overlay at the time of the draw. -/
  grid : Grid α
  /-- Its columns. -/
  ni : ℕ
  /-- Its rows. -/
  nj : ℕ
  /-- Texture on unit zero. -/
  texture : TextureData α
  /-- Colour table on unit one. -/
  colorLUT : Option (ColorLUT α)
  /-- Data range uniforms. -/
  uniforms : α×α

/-- What a frame sees of the outside world. -/
structure FrameWorld where
  /-- Whether the frame is rendered to a device context instead of OpenGL. -/
  toDC : Bool := false
  /-- Whether the texel buffer of an overlay can be allocated. -/
  texData : ColorFunc → Bool := fun _ => true
  /-- Whether its vertex buffer can be allocated. -/
  lva : ColorFunc → Bool := fun _ => true

section Grids

variable {α : Type} [Field α]

/-- Grid of an overlay. -/
def gridOf (gui : GuiGrids α) : ColorFunc → Option (Grid α)
  | .seaCurrent => gui.gridMag
  | .seaTemp => gui.gridSST
  | .salinity => gui.gridSalinity

/-- Cells of a grid in the order of the scanning loops. -/
def scanned (grid : Grid α) (nj ni : ℕ) : List α :=
  (List.range nj).flatMap fun j => (List.range ni).map fun i => cellAt grid j i

variable [LinearOrder α]

/-- One step of the scan for the smallest and the greatest value. -/
def widen (range : α×α) (v : α) : α×α :=
  if v=notDef then range
  else (if v < range.1 then v else range.1,if range.2<v then v else range.2)

/-- Smallest and greatest value of a grid, starting from two sentinels. -/
def valueRange (sentinel : α) (grid : Grid α) (nj ni : ℕ) : α×α :=
  (scanned grid nj ni).foldl widen (sentinel,-sentinel)

/-- `dMin`, `dMax` and `dRange` of `RenderGridOverlay`. -/
def dataRange (grid : Grid α) (nj ni : ℕ) : DataRange α :=
  let found := valueRange (tenBillion*tenBillion*tenBillion) grid nj ni
  let dMin := if found.2≤found.1 then 0 else found.1
  let dMax := if found.2≤found.1 then 1 else found.2
  ⟨dMin,dMax,if dMax-dMin<tiny then 1 else dMax-dMin⟩

/-- Colour table of an overlay over the range of a grid. -/
def ownLUT (X : ColorFunc) (grid : Grid α) (nj ni : ℕ) : ColorLUT α :=
  ⟨X,(dataRange grid nj ni).dMin,(dataRange grid nj ni).dRange⟩

/-- A scan step only ever widens the range. -/
theorem widen_le (range : α×α) (v : α) : (widen range v).1 ≤ range.1 ∧ range.2≤(widen range v).2 := by
  unfold widen
  split
  · exact ⟨le_rfl,le_rfl⟩
  · constructor
    · dsimp only
      split
      next h => exact h.le
      next => exact le_rfl
    · dsimp only
      split
      next h => exact h.le
      next => exact le_rfl

/-- After the scan step of a value the range contains it. -/
theorem mem_widen (range : α×α) {v : α} (hv : v≠notDef) :
    (widen range v).1≤v ∧ v≤(widen range v).2 := by
  rw [widen,if_neg hv]
  constructor
  · dsimp only
    split
    next => exact le_rfl
    next h => exact not_lt.mp h
  · dsimp only
    split
    next => exact le_rfl
    next h => exact not_lt.mp h

/-- Widening by more values only widens a range. -/
theorem foldl_widen_le (l : List α) (range : α×α) :
    (l.foldl widen range).1 ≤ range.1 ∧ range.2≤(l.foldl widen range).2 := by
  induction l generalizing range with
  | nil => exact ⟨le_rfl,le_rfl⟩
  | cons v l ih =>
    obtain ⟨h1,h2⟩ := ih (widen range v)
    obtain ⟨h3,h4⟩ := widen_le range v
    exact ⟨h1.trans h3,h4.trans h2⟩

/-- The scanned range contains every value that is not missing. -/
theorem mem_foldl_widen {l : List α} (range : α×α) {v : α} (hmem : v∈l) (hv : v≠notDef) :
    (l.foldl widen range).1≤v ∧ v≤(l.foldl widen range).2 := by
  induction l generalizing range with
  | nil => cases hmem
  | cons w l ih =>
    rcases List.mem_cons.mp hmem with rfl | htail
    · obtain ⟨h1,h2⟩ := foldl_widen_le l (widen range v)
      obtain ⟨h3,h4⟩ := mem_widen range hv
      exact ⟨h1.trans h3,h4.trans h2⟩
    · exact ih (widen range w) htail

omit [LinearOrder α] in
/-- Every cell of the grid is scanned. -/
theorem cellAt_mem_scanned (grid : Grid α) {nj ni j i : ℕ} (hj : j<nj) (hi : i<ni) :
    cellAt grid j i∈scanned grid nj ni := by
  simp only [scanned,List.mem_flatMap,List.mem_map,List.mem_range]
  exact ⟨j,hj,i,hi,rfl⟩

/-- Every value of a grid lies in the range that a scan of the grid finds, whatever sentinel
it starts from. -/
theorem mem_valueRange (sentinel : α) (grid : Grid α) {nj ni j i : ℕ} (hj : j<nj) (hi : i<ni)
    (hv : cellAt grid j i≠notDef) :
    (valueRange sentinel grid nj ni).1 ≤ cellAt grid j i ∧
      cellAt grid j i≤(valueRange sentinel grid nj ni).2 :=
  mem_foldl_widen _ (cellAt_mem_scanned grid hj hi) hv

end Grids

section Rendering

variable {α : Type} [Field α] [LinearOrder α]

/-- Texture slots with one of them replaced. -/
def Factory.setSlot (s : Factory α) (X : ColorFunc) (slot : TextureSlot α) : Factory α :=
  {s with slots := fun Y => if Y=X then slot else s.slots Y}

/-- Lazy rebuild: a flagged texture is dropped. -/
def lazyRebuild (s : Factory α) (X : ColorFunc) : Factory α :=
  if (s.slots X).needsRebuild=true then s.setSlot X {} else s

/-- Whether the bounds and one more column cover the globe. -/
def repeatsAround (s : Factory α) (ni : ℕ) : Bool :=
  decide (fullTurn ≤ s.blon-s.tlon+(s.blon-s.tlon)/((ni : α)-1))

/-- Creation of a texture and of the colour table, which is dropped first.
Fails when the texel buffer cannot be allocated. -/
def createTexture (w : FrameWorld) (s : Factory α) (grid : Grid α) (nj ni : ℕ) (X : ColorFunc) :
    Factory α×Bool :=
  let range := dataRange grid nj ni
  let cleared := {s with colorLUT := none,uniforms := (range.dMin,range.dMax)}
  if w.texData X=false then (cleared,false)
  else
    let texture : TextureData α :=
      ⟨grid,ni,nj,decide (0 ≤ s.gui.myMessage.jDirectionIncr),repeatsAround s ni,range⟩
    ({cleared.setSlot X ⟨some texture,true,false⟩ with colorLUT := some (ownLUT X grid nj ni)},true)

/-- Bounds too narrow to draw in. -/
def Degenerate (s : Factory α) (nj ni : ℕ) : Prop :=
  |s.tlat-s.blat|/((nj : α)-1)<tiny ∨ (s.blon-s.tlon)/((ni : α)-1)<tiny

instance (s : Factory α) (nj ni : ℕ) : Decidable (Degenerate s nj ni) :=
  inferInstanceAs (Decidable (_ ∨ _))

/-- Draw of the texture in place. -/
def drawTexture (w : FrameWorld) (s : Factory α) (grid : Grid α) (nj ni : ℕ) (X : ColorFunc) :
    List (Draw α) :=
  match (s.slots X).texture with
  | some texture =>
    if (s.slots X).hasTex=false ∨ Degenerate s nj ni ∨ w.lva X=false then []
    else [⟨X,grid,ni,nj,texture,s.colorLUT,s.uniforms⟩]
  | none => []

/-- `RenderGridOverlay`. -/
def renderGridOverlay (w : FrameWorld) (s : Factory α) (X : ColorFunc) :
    Factory α×List (Draw α) :=
  let ni := s.gui.myMessage.lonLength
  let nj := s.gui.myMessage.latLength
  match gridOf s.gui X with
  | none => (s,[])
  | some grid =>
    if s.attached=false ∨ ni<2 ∨ nj<2 ∨ w.toDC=true then (s,[])
    else
      let fresh := lazyRebuild s X
      if (fresh.slots X).hasTex=true then (fresh,drawTexture w fresh grid nj ni X)
      else
        let created := createTexture w fresh grid nj ni X
        if created.2=true then (created.1,drawTexture w created.1 grid nj ni X)
        else (created.1,[])

variable [FloorRing α]

/-- Levels of the isolines: whole numbers around the values of the grid. -/
def isoLevels (grid : Grid α) (nj ni : ℕ) : List α :=
  let found := valueRange tenBillion grid nj ni
  if found.1<found.2 then
    (List.range (⌈found.2⌉-⌊found.1⌋+1).toNat).map fun n : ℕ =>
      ((⌊found.1⌋+(n : ℤ) : ℤ) : α)
  else []

/-- A whole number between the rounded ends of the range is a level. -/
theorem mem_isoLevels {grid : Grid α} {nj ni : ℕ} {z : ℤ}
    (hlt : (valueRange tenBillion grid nj ni).1<(valueRange tenBillion grid nj ni).2)
    (hlow : ⌊(valueRange tenBillion grid nj ni).1⌋≤z)
    (hhigh : z≤⌈(valueRange tenBillion grid nj ni).2⌉) : (z : α)∈isoLevels grid nj ni := by
  rw [isoLevels,if_pos hlt,List.mem_map]
  refine ⟨(z-⌊(valueRange tenBillion grid nj ni).1⌋).toNat,?_,?_⟩
  · rw [List.mem_range]
    omega
  · rw [Int.toNat_of_nonneg (by omega),add_sub_cancel]

/-- Origin and steps of the isolines, from the sorted bounds. -/
def isoPlacement (s : Factory α) (nj ni : ℕ) : Placement α where
  tlat := s.tlat
  tlon := s.tlon
  incrLat :=
    if s.gui.myMessage.jDirectionIncr<0 then -((s.tlat-s.blat)/((nj : α)-1))
    else (s.tlat-s.blat)/((nj : α)-1)
  incrLon := (s.blon-s.tlon)/((ni : α)-1)

/-- Segment as it is cached. -/
def isoSeg (seg : Segment α) : IsoSeg α := ⟨seg.py1,seg.px1,seg.py2,seg.px2⟩

/-- `RenderSeaTempIsoLines`, up to the drawing of the cached segments. -/
def renderSeaTempIsoLines (s : Factory α) : Factory α :=
  let ni := s.gui.myMessage.lonLength
  let nj := s.gui.myMessage.latLength
  match s.gui.gridSST with
  | none => s
  | some grid =>
    if s.attached=false ∨ ni<2 ∨ nj<2 ∨ s.needsIsoRebuild=false then s
    else
      {s with
        needsIsoRebuild := false
        isoSegments := (isoLevels grid nj ni).flatMap fun temp =>
          (isoLine (isoPlacement s nj ni) grid ni nj temp).map isoSeg}

/-- Guards at the start of `DoRenderncdfOverlay`. -/
def renders (s : Factory α) : Bool :=
  let hasCurrentGrid := s.gui.gridu.isSome && s.gui.gridv.isSome
  let hasSSTGrid := s.gui.gridSST.isSome && s.gui.hasSeaTemp
  let hasSalinityGrid := s.gui.gridSalinity.isSome && s.gui.hasSalinity
  s.attached && (hasCurrentGrid || hasSSTGrid || hasSalinityGrid) &&
    decide (2 ≤ s.gui.myMessage.lonLength ∧ 2 ≤ s.gui.myMessage.latLength) && s.ready &&
    (s.flags.showCurrentForce || s.flags.showCurrentDir || s.flags.showParticles ||
      s.flags.showSeaTemp || s.flags.showSeaTempIso || s.flags.showSalinity)

/-- Whether a frame gets to the overlay. -/
def asked (w : FrameWorld) (s : Factory α) : ColorFunc → Bool
  | .seaCurrent => s.flags.showCurrentForce && s.gui.gridu.isSome && s.gui.gridv.isSome && !w.toDC
  | .seaTemp => s.flags.showSeaTemp && s.gui.gridSST.isSome && s.gui.hasSeaTemp
  | .salinity => s.flags.showSalinity && s.gui.gridSalinity.isSome && s.gui.hasSalinity

/-- An overlay that the frame gets to is rendered. -/
def renderAsked (w : FrameWorld) (s : Factory α) (X : ColorFunc) : Factory α×List (Draw α) :=
  if asked w s X=true then renderGridOverlay w s X else (s,[])

/-- `DoRenderncdfOverlay`: current, sea temperature, isolines, salinity. -/
def doRender (w : FrameWorld) (s : Factory α) : Factory α×List (Draw α) :=
  if renders s=false then (s,[])
  else
    let current := renderAsked w s .seaCurrent
    let seaTemp := renderAsked w current.1 .seaTemp
    let isoLines :=
      if (s.flags.showSeaTempIso && s.gui.gridSST.isSome && s.gui.hasSeaTemp)=true then
        renderSeaTempIsoLines seaTemp.1
      else seaTemp.1
    let salinity := renderAsked w isoLines .salinity
    (salinity.1,current.2++seaTemp.2++salinity.2)

/-- `reset`. -/
def reset (s : Factory α) : Factory α := {s with ready := false}

/-- `setData` with the bounds of a message. -/
def setData (s : Factory α) (m : DataMessage α) : Factory α :=
  {s with
    attached := true
    ready := true
    tlat := max m.firstGridPointLat m.lastGridPointLat
    blat := min m.firstGridPointLat m.lastGridPointLat
    tlon := min m.firstGridPointLong m.lastGridPointLong
    blon := max m.firstGridPointLong m.lastGridPointLong
    slots := fun X => {s.slots X with needsRebuild := true}
    needsIsoRebuild := true}

/-- What happens to the factory and the grids it draws from. -/
inductive OverlayEvent (α : Type) [Field α] where
  /-- `readncdfFile` with a message. -/
  | load (env : Env α) (m : DataMessage α)
  /-- The dialog frees its grids and resets the factory. -/
  | fileChanged
  /-- The dialog is closed. -/
  | closed
  /-- The visibility settings change. -/
  | toggle (flags : ShowFlags)
  /-- A frame is rendered. -/
  | frame (w : FrameWorld)

/-- Effect of an event, with the draws of a frame. -/
def overlayEvent (s : Factory α) : OverlayEvent α → Factory α×List (Draw α)
  | .load env m =>
    if hasAnyData m=true then (setData (reset {s with gui := readncdfFile env s.gui m}) m,[])
    else (s,[])
  | .fileChanged => (reset {s with gui := s.gui.freeGrids},[])
  | .closed => (reset s,[])
  | .toggle flags => ({s with flags := flags},[])
  | .frame w => doRender w s

/-- Factory after an event. -/
def overlayStep (s : Factory α) (e : OverlayEvent α) : Factory α := (overlayEvent s e).1

/-- Draws of an event. -/
def drawsOf (s : Factory α) (e : OverlayEvent α) : List (Draw α) := (overlayEvent s e).2

end Rendering

end NcdfPlugin.NcdfOverlay
