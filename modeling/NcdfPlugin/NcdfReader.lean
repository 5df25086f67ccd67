import NcdfPlugin.NcdfTimeStep

/-!
# Building the displayed grids

`readncdfFile` replaces the displayed message and rebuilds every grid from
the flat buffers of the message it is handed, row by row. Isolated gaps of
the new grids are filled with the mean of two opposite neighbours, and the
magnitude grid is computed last. A message without any data changes nothing.
-/

namespace NcdfPlugin.NcdfReader

open NcdfLibrary NcdfMessage NcdfTimeStep

/-- Rows of a grid, from row zero on. -/
abbrev Grid (α : Type) := List (List α)

section Cells

variable {α : Type} [Zero α]

/-- Entry `grid[j][i]`. -/
def cellAt (grid : Grid α) (j i : ℕ) : α := (grid.getD j []).getD i 0

/-- Assignment to `grid[j][i]`. -/
def setCell (grid : Grid α) (j i : ℕ) (value : α) : Grid α :=
  grid.modify j fun row => row.set i value

/-- Row by row copy of a flat buffer. The running counter of the code is the
row times the row length plus the column. -/
def buildGrid (noPointsMeridian noPointsParallel : ℕ) (values : List α) : Grid α :=
  (List.range noPointsMeridian).map fun i =>
    (List.range noPointsParallel).map fun j => values.getD (i*noPointsParallel+j) 0

/-- A built cell is the buffer entry at its row-major position. -/
theorem cellAt_buildGrid {nj ni j i : ℕ} (hj : j<nj) (hi : i<ni) (values : List α) :
    cellAt (buildGrid nj ni values) j i=values.getD (j*ni+i) 0 := by
  simp [cellAt,buildGrid,hj,hi]

end Cells

/-- The four grids built from the buffers of a message. -/
structure GridSet (α : Type) where
  /-- `gridu`. -/
  u : Option (Grid α)
  /-- `gridv`. -/
  v : Option (Grid α)
  /-- `gridSST`. -/
  sst : Option (Grid α)
  /-- `gridSalinity`. -/
  salinity : Option (Grid α)

/-- One operation applied to each grid that is present. -/
def GridSet.map {α : Type} (f : Grid α → Grid α) (grids : GridSet α) : GridSet α :=
  ⟨grids.u.map f,grids.v.map f,grids.sst.map f,grids.salinity.map f⟩

/-- The fields of the dialog that the overlays draw from. -/
structure GuiGrids (α : Type) [Field α] where
  /-- `myMessage`. -/
  myMessage : DataMessage α := {}
  /-- Eastward current. -/
  gridu : Option (Grid α) := none
  /-- Northward current. -/
  gridv : Option (Grid α) := none
  /-- Magnitude of the current. -/
  gridMag : Option (Grid α) := none
  /-- Sea temperature. -/
  gridSST : Option (Grid α) := none
  /-- Salinity. -/
  gridSalinity : Option (Grid α) := none
  /-- Whether sea temperature is announced. -/
  hasSeaTemp : Bool := false
  /-- Whether salinity is announced. -/
  hasSalinity : Bool := false

variable {α : Type} [Field α]

/-- Some grid is present. -/
def GuiGrids.loaded (gui : GuiGrids α) : Prop :=
  gui.gridu.isSome ∨ gui.gridv.isSome ∨ gui.gridMag.isSome ∨ gui.gridSST.isSome ∨
    gui.gridSalinity.isSome

instance (gui : GuiGrids α) : Decidable gui.loaded :=
  inferInstanceAs (Decidable (_ ∨ _ ∨ _ ∨ _ ∨ _))

/-- Release of every grid, as on a change of file. The message stays. -/
def GuiGrids.freeGrids (gui : GuiGrids α) : GuiGrids α := {myMessage := gui.myMessage}

/-- With its grids freed the dialog shows nothing. -/
theorem not_loaded_freeGrids (gui : GuiGrids α) : ¬gui.freeGrids.loaded := by
  simp [GuiGrids.loaded,GuiGrids.freeGrids]

/-- `hasCurrent` of `readncdfFile`. -/
def hasCurrent (m : DataMessage α) : Bool := m.ucurr.isSome && m.vcurr.isSome

/-- `hasSST` of `readncdfFile`. -/
def hasSST (m : DataMessage α) : Bool := m.sst.isSome || m.hasSeaTemp

/-- `hasSal` of `readncdfFile`. -/
def hasSal (m : DataMessage α) : Bool := m.salinity.isSome || m.hasSalinity

/-- Whether `readncdfFile` goes past its early return. -/
def hasAnyData (m : DataMessage α) : Bool := hasCurrent m || hasSST m || hasSal m

/-- Grids of a message before any gap is filled. -/
def builtGrids (m : DataMessage α) : GridSet α :=
  let build := buildGrid m.noPointsMeridian m.noPointsParallel
  { u := if hasCurrent m=true then m.ucurr.map build else none
    v := if hasCurrent m=true then m.vcurr.map build else none
    sst := m.sst.map build
    salinity := m.salinity.map build }

variable [LinearOrder α]

/-- New value of a missing cell between two opposite neighbours. -/
def fillMean (cell before after : α) : α :=
  if cell=notDef then
    let acc := (if before≠notDef then before else 0)+(if after≠notDef then after else 0)
    let cnt : ℕ := (if before≠notDef then 1 else 0)+(if after≠notDef then 1 else 0)
    if 2 ≤ cnt then acc/cnt else cell
  else cell

/-- `FILL_V` on one grid. -/
def fillV (grid : Grid α) (j i : ℕ) : Grid α :=
  setCell grid j i (fillMean (cellAt grid j i) (cellAt grid (j-1) i) (cellAt grid (j+1) i))

/-- `FILL_H` on one grid. -/
def fillH (grid : Grid α) (j i : ℕ) : Grid α :=
  setCell grid j i (fillMean (cellAt grid j i) (cellAt grid j (i-1)) (cellAt grid j (i+1)))

/-- Cells of the vertical pass: column by column, inner rows. -/
def verticalCells (ni nj : ℕ) : List (ℕ×ℕ) :=
  (List.range ni).flatMap fun i => (List.range (nj-2)).map fun j => (j+1,i)

/-- Cells of the horizontal pass: row by row, inner columns. -/
def horizontalCells (ni nj : ℕ) : List (ℕ×ℕ) :=
  (List.range nj).flatMap fun j => (List.range (ni-2)).map fun i => (j,i+1)

/-- `FillAllGrids`: both passes write into the grids they read. -/
def fillAllGrids (grids : GridSet α) (ni nj : ℕ) : GridSet α :=
  if ni<3 ∨ nj<3 then grids
  else
    let vertical := (verticalCells ni nj).foldl (fun g c => g.map fun grid => fillV grid c.1 c.2) grids
    (horizontalCells ni nj).foldl (fun g c => g.map fun grid => fillH grid c.1 c.2) vertical

/-- Magnitude of one cell, missing when either component is. -/
def magnitudeCell (env : Env α) (u v : α) : α :=
  if u≠notDef ∧ v≠notDef then env.sqrt (u*u+v*v) else notDef

/-- Magnitude grid of two filled current grids. -/
def magnitudeGrid (env : Env α) (nj ni : ℕ) (u v : Grid α) : Grid α :=
  (List.range nj).map fun i => (List.range ni).map fun j =>
    magnitudeCell env (cellAt u i j) (cellAt v i j)

/-- `readncdfFile`, on the fields the overlays draw from. The coordinate
arrays of the old message are released before the assignment. -/
def readncdfFile (env : Env α) (gui : GuiGrids α) (m : DataMessage α) : GuiGrids α :=
  if hasAnyData m=true then
    let released := {gui.myMessage with latValues := none,lonValues := none,timeValues := none}
    let grids := fillAllGrids (builtGrids m) m.noPointsParallel m.noPointsMeridian
    { myMessage := released.assign m
      gridu := grids.u
      gridv := grids.v
      gridMag :=
        match grids.u,grids.v with
        | some u,some v => some (magnitudeGrid env m.noPointsMeridian m.noPointsParallel u v)
        | _,_ => none
      gridSST := grids.sst
      gridSalinity := grids.salinity
      hasSeaTemp := hasSST m
      hasSalinity := hasSal m }
  else gui

/-- A message without data leaves the display as it is. -/
theorem readncdfFile_noData {env : Env α} {gui : GuiGrids α} {m : DataMessage α}
    (h : hasAnyData m=false) : readncdfFile env gui m=gui := by
  simp [readncdfFile,h]

/-- A message with data becomes the displayed step. -/
theorem readncdfFile_shown {env : Env α} {gui : GuiGrids α} {m : DataMessage α}
    (h : hasAnyData m=true) : SameStep m (readncdfFile env gui m).myMessage := by
  rw [readncdfFile,if_pos h]
  exact sameStep_assign _ m

end NcdfPlugin.NcdfReader
