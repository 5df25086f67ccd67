import NcdfPlugin.NcdfReader
import NcdfPlugin.InPlaceSweep
import Mathlib.Data.List.ReduceOption

/-!
# Gap filling

Both passes of the gap filling write into the grid they read. A gap lies
between two defined cells, so its neighbours are not gaps and no filled value
is read again in the same pass: each pass equals its out-of-place definition.
The fused version for all grids is also given on addresses, where it acts on
each of four distinct grids as the version for a single grid does.
-/

namespace NcdfPlugin.NcdfGapFill

open NcdfMessage NcdfReader InPlaceSweep

section Shape

variable {α : Type}

/-- A grid of nj rows of ni cells. -/
structure Shaped (nj ni : ℕ) (grid : Grid α) : Prop where
  /-- Number of rows. -/
  rows : grid.length=nj
  /-- Length of every row. -/
  columns : ∀ row∈grid,row.length=ni

/-- Grid of nj rows and ni columns with the given cells. -/
def tabulate (nj ni : ℕ) (cell : ℕ → ℕ → α) : Grid α :=
  (List.range nj).map fun j => (List.range ni).map fun i => cell j i

/-- A tabulated grid has as many rows and columns as it was asked for. -/
theorem shaped_tabulate (nj ni : ℕ) (cell : ℕ → ℕ → α) : Shaped nj ni (tabulate nj ni cell) := by
  constructor
  · simp [tabulate]
  · intro row hrow
    obtain ⟨j,-,rfl⟩ := List.mem_map.mp hrow
    simp

/-- A row of a shaped grid. -/
theorem Shaped.row {nj ni j : ℕ} {grid : Grid α} (h : Shaped nj ni grid) (hj : j<nj) :
    ∃ row,grid[j]? = some row ∧ row.length=ni := by
  have hlt : j < grid.length := h.rows.symm ▸ hj
  exact ⟨grid[j],List.getElem?_eq_getElem hlt,h.columns _ (List.getElem_mem hlt)⟩

variable [Zero α]

/-- Cells of a grid by row and column. -/
def cells (grid : Grid α) : ℕ×ℕ → α := fun c => cellAt grid c.1 c.2

/-- Within the sizes a tabulated grid holds the values of its function. -/
theorem cells_tabulate {nj ni j i : ℕ} (hj : j<nj) (hi : i<ni) (cell : ℕ → ℕ → α) :
    cells (tabulate nj ni cell) (j,i)=cell j i := by
  simp [cells,cellAt,tabulate,hj,hi]

/-- Outside its rows and columns a grid reads as zero. -/
theorem cells_outside {nj ni : ℕ} {grid : Grid α} (h : Shaped nj ni grid) {c : ℕ×ℕ}
    (hout : ¬(c.1<nj ∧ c.2<ni)) : cells grid c=0 := by
  simp only [cells,cellAt,List.getD_eq_getElem?_getD]
  by_cases hj : c.1<nj
  · obtain ⟨row,hrow,hlen⟩ := h.row hj
    have hi : row.length ≤ c.2 := by omega
    rw [hrow,Option.getD_some,List.getElem?_eq_none hi,Option.getD_none]
  · have hlen : grid.length ≤ c.1 := by
      have := h.rows
      omega
    rw [List.getElem?_eq_none hlen,Option.getD_none,List.getElem?_nil,Option.getD_none]

/-- Grids of one shape with the same cells are equal. -/
theorem Shaped.ext {nj ni : ℕ} {grid grid' : Grid α} (h : Shaped nj ni grid)
    (h' : Shaped nj ni grid') (hcells : cells grid=cells grid') : grid=grid' := by
  refine List.ext_getElem? fun j => ?_
  by_cases hj : j<nj
  · obtain ⟨row,hrow,hlen⟩ := h.row hj
    obtain ⟨row',hrow',hlen'⟩ := h'.row hj
    rw [hrow,hrow']
    refine congrArg some (List.ext_getElem (hlen.trans hlen'.symm) fun i hi hi' => ?_)
    have hcell := congrFun hcells (j,i)
    simpa [cells,cellAt,hrow,hrow',hi,hi'] using hcell
  · have hlen := h.rows
    have hlen' := h'.rows
    rw [List.getElem?_eq_none (by omega),List.getElem?_eq_none (by omega)]

omit [Zero α] in
/-- Writing a cell keeps the shape of a grid. -/
theorem shaped_setCell {nj ni : ℕ} {grid : Grid α} (h : Shaped nj ni grid) (j i : ℕ) (value : α) :
    Shaped nj ni (setCell grid j i value) := by
  constructor
  · simp [setCell,h.rows]
  · intro row hrow
    obtain ⟨k,hk⟩ := List.mem_iff_getElem?.mp hrow
    rw [setCell,List.getElem?_modify] at hk
    obtain ⟨old,hold,rfl⟩ := Option.map_eq_some_iff.mp hk
    have hlen := h.columns old (List.mem_of_getElem? hold)
    split <;> simp [hlen]

/-- An assignment changes the cell that it names and no other, as long as the cell is one of
the grid. -/
theorem cells_setCell {nj ni : ℕ} {grid : Grid α} (h : Shaped nj ni grid) {c : ℕ×ℕ}
    (hj : c.1<nj) (hi : c.2<ni) (value : α) :
    cells (setCell grid c.1 c.2 value)=Function.update (cells grid) c value := by
  obtain ⟨row,hrow,hlen⟩ := h.row hj
  funext x
  by_cases hx : x=c
  · subst hx
    rw [Function.update_self]
    simp [cells,cellAt,setCell,hrow,hlen,hi]
  · rw [Function.update_of_ne hx]
    by_cases hrows : c.1=x.1
    · have hcol : c.2≠x.2 := fun heq => hx (Prod.ext hrows.symm heq.symm)
      simp [cells,cellAt,setCell,←hrows,hrow,hcol]
    · simp [cells,cellAt,setCell,hrows]

end Shape

section Passes

variable {α : Type} [Field α] [LinearOrder α]

/-- The cell above, the top one for itself. -/
def above (c : ℕ×ℕ) : ℕ×ℕ := (c.1-1,c.2)

/-- The cell below. -/
def below (c : ℕ×ℕ) : ℕ×ℕ := (c.1+1,c.2)

/-- The cell to the left, the first one for itself. -/
def leftOf (c : ℕ×ℕ) : ℕ×ℕ := (c.1,c.2-1)

/-- The cell to the right. -/
def rightOf (c : ℕ×ℕ) : ℕ×ℕ := (c.1,c.2+1)

/-- The cells above and below make the columns of a grid its lines. -/
theorem onLines_vertical : OnLines above below := by
  constructor
  · rintro ⟨j,i⟩
    cases j with
    | zero => exact Or.inl rfl
    | succ j => exact Or.inr rfl
  · intro c
    rfl

/-- The cells to the left and to the right make the rows of a grid its lines. -/
theorem onLines_horizontal : OnLines leftOf rightOf := by
  constructor
  · rintro ⟨j,i⟩
    cases i with
    | zero => exact Or.inl rfl
    | succ i => exact Or.inr rfl
  · intro c
    rfl

/-- Mean of two values, as `acc / cnt` computes it. -/
def mean (a b : α) : α := (a+b)/(2 : ℕ)

/-- A cell is filled exactly when it is missing and both neighbours are not. -/
theorem fillMean_eq (cell before after : α) :
    fillMean cell before after=
      if cell=notDef ∧ before≠notDef ∧ after≠notDef then mean before after else cell := by
  unfold fillMean mean
  by_cases hcell : cell=notDef <;> by_cases hbefore : before=notDef <;>
    by_cases hafter : after=notDef <;> simp [hcell,hbefore,hafter]

/-- Filling of one cell from two given neighbours, in place. -/
def fillBetween (before after : ℕ×ℕ → ℕ×ℕ) (grid : Grid α) (c : ℕ×ℕ) : Grid α :=
  setCell grid c.1 c.2 (fillMean (cells grid c) (cells grid (before c)) (cells grid (after c)))

/-- Visits of one pass in the order of a list. -/
def pass (before after : ℕ×ℕ → ℕ×ℕ) (grid : Grid α) (visits : List (ℕ×ℕ)) : Grid α :=
  visits.foldl (fillBetween before after) grid

/-- A pass over any list of cells keeps the shape of a grid. -/
theorem shaped_pass (before after : ℕ×ℕ → ℕ×ℕ) {nj ni : ℕ} {grid : Grid α}
    (h : Shaped nj ni grid) (visits : List (ℕ×ℕ)) :
    Shaped nj ni (pass before after grid visits) := by
  induction visits generalizing grid with
  | nil => exact h
  | cons c visits ih => exact ih (shaped_setCell h c.1 c.2 _)

/-- On the cells of a shaped grid a pass is a sweep. -/
theorem cells_pass {nj ni : ℕ} {before after : ℕ×ℕ → ℕ×ℕ} {grid : Grid α} (h : Shaped nj ni grid)
    {visits : List (ℕ×ℕ)} (hvisits : ∀ c∈visits,c.1<nj ∧ c.2<ni) :
    cells (pass before after grid visits)=
      sweep (fillGap notDef mean before after) (cells grid) visits := by
  induction visits generalizing grid with
  | nil => rfl
  | cons c visits ih =>
    obtain ⟨hj,hi⟩ := hvisits c (by simp)
    have hfilled : cells (fillBetween before after grid c)=
        visit (fillGap notDef mean before after) (cells grid) c := by
      rw [fillBetween,cells_setCell h hj hi,fillMean_eq]
      rfl
    have hshape : Shaped nj ni (fillBetween before after grid c) := shaped_setCell h c.1 c.2 _
    have hrest := ih hshape fun x hx => hvisits x (by simp [hx])
    rw [hfilled] at hrest
    exact hrest

/-- After any part of a pass each cell has its old or its filled value. -/
theorem partlyUpdated_pass {nj ni : ℕ} {before after : ℕ×ℕ → ℕ×ℕ} (hlines : OnLines before after)
    {grid : Grid α} (h : Shaped nj ni grid) {visits : List (ℕ×ℕ)}
    (hvisits : ∀ c∈visits,c.1<nj ∧ c.2<ni) :
    PartlyUpdated (fillGap notDef mean before after) (cells grid)
      (cells (pass before after grid visits)) := by
  rw [cells_pass h hvisits]
  exact partlyUpdated_sweep (nonCascading_fillGap hlines) visits

/-- Out-of-place filling: each listed gap of the given grid becomes the mean
of its neighbours there, and every other cell keeps its value. -/
def fillFrom (before after : ℕ×ℕ → ℕ×ℕ) (nj ni : ℕ) (sites : List (ℕ×ℕ)) (grid : Grid α) : Grid α :=
  tabulate nj ni fun j i => snapshotUpdate (fillGap notDef mean before after) (cells grid) sites (j,i)

/-- A pass in any order is the out-of-place filling of the sites it visits. -/
theorem pass_eq_fillFrom {nj ni : ℕ} {before after : ℕ×ℕ → ℕ×ℕ} (hlines : OnLines before after)
    {grid : Grid α} (h : Shaped nj ni grid) {sites visits : List (ℕ×ℕ)}
    (hsites : ∀ c∈sites,c.1<nj ∧ c.2<ni) (hsame : ∀ c,c∈visits ↔ c∈sites) :
    pass before after grid visits=fillFrom before after nj ni sites grid := by
  have hvisits : ∀ c∈visits,c.1<nj ∧ c.2<ni := fun c hc => hsites c ((hsame c).mp hc)
  refine (shaped_pass before after h visits).ext (shaped_tabulate nj ni _) ?_
  rw [cells_pass h hvisits,sweep_eq_snapshotUpdate (nonCascading_fillGap hlines)]
  funext c
  by_cases hin : c.1<nj ∧ c.2<ni
  · obtain ⟨j,i⟩ := c
    rw [fillFrom,cells_tabulate hin.1 hin.2]
    simp only [snapshotUpdate,hsame]
  · have hnot : c∉visits := fun hc => hin (hvisits c hc)
    have hempty : cells (fillFrom before after nj ni sites grid) c=0 :=
      cells_outside (shaped_tabulate nj ni _) hin
    rw [hempty,snapshotUpdate,if_neg hnot,cells_outside h hin]

/-- What is true of one pass, whatever the order of its visits: the result is
the same, defined cells keep their values, and at the visit of a gap both of
its neighbours are as they were before the pass, and were not missing. -/
structure FillsInPlace (before after : ℕ×ℕ → ℕ×ℕ) (sites : List (ℕ×ℕ)) (grid result : Grid α) :
    Prop where
  /-- The order of the visits does not matter. -/
  anyOrder : ∀ visits,visits.Perm sites → pass before after grid visits=result
  /-- No defined cell changes. -/
  keeps : ∀ c,cells grid c≠notDef → cells result c=cells grid c
  /-- No filled value is an input. -/
  inputs : ∀ visited c left,(visited++c::left).Perm sites →
    Gap notDef before after (cells (pass before after grid visited)) c →
      (cells (pass before after grid visited) (before c)=cells grid (before c) ∧
        cells grid (before c)≠notDef) ∧
      (cells (pass before after grid visited) (after c)=cells grid (after c) ∧
        cells grid (after c)≠notDef)

/-- Computing every mean from the values before a pass is what a pass in place is to be
compared with. -/
theorem fillsInPlace_fillFrom {nj ni : ℕ} {before after : ℕ×ℕ → ℕ×ℕ} (hlines : OnLines before after)
    {grid : Grid α} (h : Shaped nj ni grid) {sites : List (ℕ×ℕ)}
    (hsites : ∀ c∈sites,c.1<nj ∧ c.2<ni) :
    FillsInPlace before after sites grid (fillFrom before after nj ni sites grid) := by
  constructor
  · intro visits hperm
    exact pass_eq_fillFrom hlines h hsites fun c => hperm.mem_iff
  · intro c hc
    rw [←pass_eq_fillFrom hlines h hsites fun c => Iff.rfl]
    rcases partlyUpdated_pass hlines h hsites c with heq | heq
    · exact heq
    · exact heq.trans (fillGap_of_present hc)
  · intro visited c left hperm hgap
    have hvisited : ∀ x∈visited,x.1<nj ∧ x.2<ni := fun x hx => hsites x (hperm.mem_iff.mp (by simp [hx]))
    have hpart := partlyUpdated_pass hlines h hvisited
    obtain ⟨⟨hbefore,hafter⟩,-,hbefore',hafter'⟩ := gap_inputs hlines hpart hgap
    exact ⟨⟨hbefore,hbefore'⟩,hafter,hafter'⟩

/-- First step of the out-of-place definition: gaps of the inner rows. -/
def verticalFill (nj ni : ℕ) (grid : Grid α) : Grid α :=
  tabulate nj ni fun j i =>
    if (0<j ∧ j+1<nj) ∧ cellAt grid j i=notDef ∧ cellAt grid (j-1) i≠notDef ∧
        cellAt grid (j+1) i≠notDef then
      mean (cellAt grid (j-1) i) (cellAt grid (j+1) i)
    else cellAt grid j i

/-- Second step: gaps of the inner columns. -/
def horizontalFill (nj ni : ℕ) (grid : Grid α) : Grid α :=
  tabulate nj ni fun j i =>
    if (0 < i ∧ i+1<ni) ∧ cellAt grid j i=notDef ∧ cellAt grid j (i-1)≠notDef ∧
        cellAt grid j (i+1)≠notDef then
      mean (cellAt grid j (i-1)) (cellAt grid j (i+1))
    else cellAt grid j i

/-- The cells that the pass along the columns visits have a row before and behind them. -/
theorem mem_verticalCells {ni nj : ℕ} {c : ℕ×ℕ} :
    c∈verticalCells ni nj ↔ c.2<ni ∧ 0 < c.1 ∧ c.1+1<nj := by
  obtain ⟨j,i⟩ := c
  simp only [verticalCells,List.mem_flatMap,List.mem_map,List.mem_range,Prod.mk.injEq]
  constructor
  · rintro ⟨i',hi,j',hj,rfl,rfl⟩
    omega
  · rintro ⟨hi,hpos,hj⟩
    exact ⟨i,hi,j-1,by omega,by omega,rfl⟩

/-- The cells that the pass along the rows visits have a column before and behind them. -/
theorem mem_horizontalCells {ni nj : ℕ} {c : ℕ×ℕ} :
    c∈horizontalCells ni nj ↔ c.1<nj ∧ 0 < c.2 ∧ c.2+1<ni := by
  obtain ⟨j,i⟩ := c
  simp only [horizontalCells,List.mem_flatMap,List.mem_map,List.mem_range,Prod.mk.injEq]
  constructor
  · rintro ⟨j',hj,i',hi,rfl,rfl⟩
    omega
  · rintro ⟨hj,hpos,hi⟩
    exact ⟨j,hj,i-1,by omega,rfl,by omega⟩

/-- Filled from a snapshot along the columns. -/
theorem fillFrom_vertical (nj ni : ℕ) (grid : Grid α) :
    fillFrom above below nj ni (verticalCells ni nj) grid=verticalFill nj ni grid := by
  unfold fillFrom verticalFill tabulate
  refine List.map_congr_left fun j _ => List.map_congr_left fun i hi => ?_
  rw [List.mem_range] at hi
  simp only [snapshotUpdate,fillGap,Gap,mem_verticalCells,hi,true_and,cells,above,below]
  by_cases hrow : 0<j ∧ j+1<nj
  · simp only [hrow,and_self,if_true,true_and]
    rfl
  · simp only [hrow,if_false,false_and]

/-- Filled from a snapshot along the rows. -/
theorem fillFrom_horizontal (nj ni : ℕ) (grid : Grid α) :
    fillFrom leftOf rightOf nj ni (horizontalCells ni nj) grid=horizontalFill nj ni grid := by
  unfold fillFrom horizontalFill tabulate
  refine List.map_congr_left fun j hj => List.map_congr_left fun i _ => ?_
  rw [List.mem_range] at hj
  simp only [snapshotUpdate,fillGap,Gap,mem_horizontalCells,hj,true_and,cells,leftOf,rightOf]
  by_cases hcolumn : 0 < i ∧ i+1<ni
  · simp only [hcolumn,and_self,if_true,true_and]
    rfl
  · simp only [hcolumn,if_false,false_and]

/-- `FillGrid`. -/
def fillGrid (ni nj : ℕ) (grid : Grid α) : Grid α :=
  if ni<3 ∨ nj<3 then grid
  else
    let vertical := (verticalCells ni nj).foldl (fun g c => fillV g c.1 c.2) grid
    (horizontalCells ni nj).foldl (fun g c => fillH g c.1 c.2) vertical

/-- The two loops of `FillGrid` are a pass along the columns and, over what it leaves, a
pass along the rows. -/
theorem fillGrid_eq_pass {ni nj : ℕ} (h : ¬(ni<3 ∨ nj<3)) (grid : Grid α) :
    fillGrid ni nj grid=
      pass leftOf rightOf (pass above below grid (verticalCells ni nj)) (horizontalCells ni nj) := by
  rw [fillGrid,if_neg h]
  rfl

/-- `FillGrid` is the two steps out of place: no value that a pass computes is read again by
the same pass. -/
theorem fillGrid_eq {ni nj : ℕ} (hni : 3≤ni) (hnj : 3≤nj) {grid : Grid α}
    (h : Shaped nj ni grid) : fillGrid ni nj grid=horizontalFill nj ni (verticalFill nj ni grid) := by
  have hvertical : pass above below grid (verticalCells ni nj)=verticalFill nj ni grid := by
    rw [←fillFrom_vertical]
    refine pass_eq_fillFrom onLines_vertical h (fun c hc => ?_) fun c => Iff.rfl
    have := mem_verticalCells.mp hc
    omega
  have hhorizontal : pass leftOf rightOf (verticalFill nj ni grid) (horizontalCells ni nj)=
      horizontalFill nj ni (verticalFill nj ni grid) := by
    rw [←fillFrom_horizontal]
    refine pass_eq_fillFrom onLines_horizontal (shaped_tabulate nj ni _) (fun c hc => ?_)
      fun c => Iff.rfl
    have := mem_horizontalCells.mp hc
    omega
  rw [fillGrid_eq_pass (by omega),hvertical,hhorizontal]

/-- A fold that maps every grid of a set folds each of them. -/
theorem foldl_map_gridSet {γ β : Type} (f : Grid β → γ → Grid β) (l : List γ) (grids : GridSet β) :
    l.foldl (fun g c => g.map fun grid => f grid c) grids=grids.map fun grid => l.foldl f grid := by
  induction l generalizing grids with
  | nil => simp [GridSet.map]
  | cons c l ih =>
    rw [List.foldl_cons,ih]
    simp [GridSet.map,Function.comp_def]

/-- The fused filling fills each grid that is present. -/
theorem fillAllGrids_eq_map (ni nj : ℕ) (grids : GridSet α) :
    fillAllGrids grids ni nj=grids.map (fillGrid ni nj) := by
  unfold fillAllGrids
  by_cases hsmall : ni<3 ∨ nj<3
  · have hid : fillGrid ni nj=(id : Grid α → Grid α) := by
      funext grid
      rw [fillGrid,if_pos hsmall,id]
    rw [if_pos hsmall,hid]
    simp [GridSet.map]
  · have hfill : fillGrid ni nj=fun grid : Grid α =>
        (horizontalCells ni nj).foldl (fun g c => fillH g c.1 c.2)
          ((verticalCells ni nj).foldl (fun g c => fillV g c.1 c.2) grid) := by
      funext grid
      rw [fillGrid,if_neg hsmall]
    rw [if_neg hsmall,hfill]
    dsimp only
    rw [foldl_map_gridSet fun (grid : Grid α) (c : ℕ×ℕ) => fillV grid c.1 c.2,
      foldl_map_gridSet fun (grid : Grid α) (c : ℕ×ℕ) => fillH grid c.1 c.2]
    simp only [GridSet.map,Option.map_map,Function.comp_def]

/-- The grids of a set that are present. -/
def present (grids : GridSet α) : List (Grid α) :=
  [grids.u,grids.v,grids.sst,grids.salinity].reduceOption

omit [LinearOrder α] [Field α] in
/-- The present grids are those of the four pointers that are not null. -/
theorem mem_present {grids : GridSet α} {grid : Grid α} :
    grid∈present grids ↔ grids.u=some grid ∨ grids.v=some grid ∨ grids.sst=some grid ∨
      grids.salinity=some grid := by
  simp [present,List.reduceOption_mem_iff,eq_comm]

omit [LinearOrder α] [Field α] in
/-- Maps that agree on the present grids agree on the set. -/
theorem map_congr_present {grids : GridSet α} {f g : Grid α → Grid α}
    (h : ∀ grid∈present grids,f grid=g grid) : grids.map f=grids.map g := by
  simp only [mem_present] at h
  simp only [GridSet.map,GridSet.mk.injEq]
  exact ⟨Option.map_congr fun grid hgrid => h grid (Or.inl hgrid),
    Option.map_congr fun grid hgrid => h grid (Or.inr (Or.inl hgrid)),
    Option.map_congr fun grid hgrid => h grid (Or.inr (Or.inr (Or.inl hgrid))),
    Option.map_congr fun grid hgrid => h grid (Or.inr (Or.inr (Or.inr hgrid)))⟩

/-- Filling keeps the shape of a grid. -/
theorem shaped_fillGrid {nj ni : ℕ} {grid : Grid α} (h : Shaped nj ni grid) :
    Shaped nj ni (fillGrid ni nj grid) := by
  by_cases hsmall : ni<3 ∨ nj<3
  · rw [fillGrid,if_pos hsmall]
    exact h
  · rw [fillGrid_eq_pass hsmall]
    exact shaped_pass leftOf rightOf (shaped_pass above below h _) _

/-- In-place filling in closed form. Each present grid becomes the result of
two out-of-place steps, and each pass, in any order of its visits, keeps the
defined cells and never reads a cell it has filled. -/
theorem fillAllGrids_closed_form {ni nj : ℕ} (hni : 3≤ni) (hnj : 3≤nj) (grids : GridSet α)
    (hshape : ∀ grid∈present grids,Shaped nj ni grid) :
    fillAllGrids grids ni nj=
        grids.map (fun grid => horizontalFill nj ni (verticalFill nj ni grid)) ∧
      ∀ grid∈present grids,
        FillsInPlace above below (verticalCells ni nj) grid (verticalFill nj ni grid) ∧
        FillsInPlace leftOf rightOf (horizontalCells ni nj) (verticalFill nj ni grid)
          (horizontalFill nj ni (verticalFill nj ni grid)) ∧
        ∀ c,cells grid c≠notDef →
          cells (horizontalFill nj ni (verticalFill nj ni grid)) c=cells grid c := by
  constructor
  · rw [fillAllGrids_eq_map]
    exact map_congr_present fun grid hgrid => fillGrid_eq hni hnj (hshape grid hgrid)
  · intro grid hgrid
    have hvertical : FillsInPlace above below (verticalCells ni nj) grid (verticalFill nj ni grid) := by
      rw [←fillFrom_vertical]
      refine fillsInPlace_fillFrom onLines_vertical (hshape grid hgrid) fun c hc => ?_
      have := mem_verticalCells.mp hc
      omega
    have hhorizontal : FillsInPlace leftOf rightOf (horizontalCells ni nj) (verticalFill nj ni grid)
        (horizontalFill nj ni (verticalFill nj ni grid)) := by
      rw [←fillFrom_horizontal]
      refine fillsInPlace_fillFrom onLines_horizontal (shaped_tabulate nj ni _) fun c hc => ?_
      have := mem_horizontalCells.mp hc
      omega
    refine ⟨hvertical,hhorizontal,fun c hc => ?_⟩
    have hkept := hvertical.keeps c hc
    rw [hhorizontal.keeps c (hkept ▸ hc),hkept]

/-- Three by three cells with a gap in the middle and a missing corner. -/
def gappedGrid : Grid ℚ := [[notDef,1,2],[3,notDef,5],[6,7,8]]

/-- A single gap in the middle of three by three cells, which the column through it fills.
-/
theorem fillAllGrids_closed_form_gapped :
    fillAllGrids ⟨some gappedGrid,none,none,none⟩ 3 3=
        ⟨some [[notDef,1,2],[3,4,5],[6,7,8]],none,none,none⟩ ∧
      FillsInPlace above below (verticalCells 3 3) gappedGrid (verticalFill 3 3 gappedGrid) := by
  have hshape : ∀ grid∈present ⟨some gappedGrid,none,none,none⟩,Shaped 3 3 grid := by
    intro grid hgrid
    obtain rfl : gappedGrid=grid := by simpa [mem_present] using hgrid
    exact ⟨rfl,by decide⟩
  have hclosed := fillAllGrids_closed_form le_rfl le_rfl ⟨some gappedGrid,none,none,none⟩ hshape
  refine ⟨hclosed.1.trans ?_,(hclosed.2 gappedGrid (by simp [mem_present])).1⟩
  simp only [GridSet.map,Option.map_some,Option.map_none]
  congr 2
  decide +kernel

end Passes

section Addresses

variable {α : Type} [Field α] [LinearOrder α]

/-- Grids by the address of their row pointers. -/
abbrev GridHeap (α : Type) := ℕ → Grid α

/-- One filling macro on a pointer, which does nothing on NULL. -/
def fillAt (fill : Grid α → ℕ → ℕ → Grid α) (g : Option ℕ) (heap : GridHeap α) (c : ℕ×ℕ) : GridHeap α :=
  match g with
  | some a => Function.update heap a (fill (heap a) c.1 c.2)
  | none => heap

/-- `FillGrid` on a pointer. A loop up to a negative bound has no turns. -/
def fillGridAt (heap : GridHeap α) (grid : Option ℕ) (ni nj : ℤ) : GridHeap α :=
  if grid=none ∨ ni<3 ∨ nj<3 then heap
  else
    let vertical := (verticalCells ni.toNat nj.toNat).foldl (fillAt fillV grid) heap
    (horizontalCells ni.toNat nj.toNat).foldl (fillAt fillH grid) vertical

/-- The four macros of one loop turn, in the order of the code. -/
def fillEach (fill : Grid α → ℕ → ℕ → Grid α) (gridu gridv gridSST gridSalinity : Option ℕ)
    (heap : GridHeap α) (c : ℕ×ℕ) : GridHeap α :=
  let heap := fillAt fill gridu heap c
  let heap := fillAt fill gridv heap c
  let heap := fillAt fill gridSST heap c
  fillAt fill gridSalinity heap c

/-- `FillAllGrids` on pointers. -/
def fillAllGridsAt (heap : GridHeap α) (gridu gridv gridSST gridSalinity : Option ℕ) (ni nj : ℤ) :
    GridHeap α :=
  if ni<3 ∨ nj<3 then heap
  else
    let vertical := (verticalCells ni.toNat nj.toNat).foldl
      (fillEach fillV gridu gridv gridSST gridSalinity) heap
    (horizontalCells ni.toNat nj.toNat).foldl (fillEach fillH gridu gridv gridSST gridSalinity) vertical

omit [Field α] [LinearOrder α] in
/-- A loop turn touches the stores of the pointers that are not NULL. -/
theorem fillEach_eq_touchEach (fill : Grid α → ℕ → ℕ → Grid α)
    (gridu gridv gridSST gridSalinity : Option ℕ) (heap : GridHeap α) (c : ℕ×ℕ) :
    fillEach fill gridu gridv gridSST gridSalinity heap c=
      touchEach [gridu,gridv,gridSST,gridSalinity].reduceOption heap
        fun grid => fill grid c.1 c.2 := by
  cases gridu <;> cases gridv <;> cases gridSST <;> cases gridSalinity <;> rfl

omit [Field α] [LinearOrder α] in
/-- Two passes that touch several distinct stores fill each of these as if it were alone. -/
theorem passes_touchEach {keys : List ℕ} (hnodup : keys.Nodup) (heap : GridHeap α)
    (fill fill' : Grid α → ℕ → ℕ → Grid α) (sites sites' : List (ℕ×ℕ)) (a : ℕ) :
    sites'.foldl (fun h c => touchEach keys h fun grid => fill' grid c.1 c.2)
        (sites.foldl (fun h c => touchEach keys h fun grid => fill grid c.1 c.2) heap) a=
      if a∈keys then
        sites'.foldl (fun g c => fill' g c.1 c.2) (sites.foldl (fun g c => fill g c.1 c.2) (heap a))
      else heap a := by
  have hpass : ∀ (f : Grid α → ℕ → ℕ → Grid α) (l : List (ℕ×ℕ)) (h : GridHeap α),
      l.foldl (fun h c => touchEach keys h fun grid => f grid c.1 c.2) h a=
        if a∈keys then l.foldl (fun g c => f g c.1 c.2) (h a) else h a := by
    intro f l h
    have happly := foldl_touchEach_apply hnodup (l.map fun c grid => f grid c.1 c.2) h a
    simpa only [List.foldl_map] using happly
  rw [hpass,hpass]
  split <;> rfl

/-- A single grid is filled in its own store and no other is touched. -/
theorem fillGridAt_apply (heap : GridHeap α) (a b : ℕ) (ni nj : ℤ) :
    fillGridAt heap (some a) ni nj b=
      if b=a then fillGrid ni.toNat nj.toNat (heap a) else heap b := by
  by_cases hsmall : ni<3 ∨ nj<3
  · have hsmall' : ni.toNat<3 ∨ nj.toNat<3 := by omega
    rw [fillGridAt,if_pos (Or.inr hsmall),fillGrid,if_pos hsmall']
    split
    next hb => rw [hb]
    next => rfl
  · have hsmall' : ¬(ni.toNat<3 ∨ nj.toNat<3) := by omega
    have hpasses := passes_touchEach (List.nodup_singleton a) heap fillV fillH
      (verticalCells ni.toNat nj.toNat) (horizontalCells ni.toNat nj.toNat) b
    rw [fillGridAt,if_neg (by simpa using hsmall),fillGrid,if_neg hsmall']
    refine hpasses.trans ?_
    by_cases hb : b=a <;> simp [hb]

/-- The fused filling of four distinct pointers, store by store: each is filled by itself,
and every other store is kept. -/
theorem fillAllGridsAt_apply (heap : GridHeap α) {gridu gridv gridSST gridSalinity : Option ℕ}
    (hdistinct : [gridu,gridv,gridSST,gridSalinity].reduceOption.Nodup) (ni nj : ℤ) (a : ℕ) :
    fillAllGridsAt heap gridu gridv gridSST gridSalinity ni nj a=
      if some a∈[gridu,gridv,gridSST,gridSalinity] then fillGrid ni.toNat nj.toNat (heap a)
      else heap a := by
  by_cases hsmall : ni<3 ∨ nj<3
  · have hsmall' : ni.toNat<3 ∨ nj.toNat<3 := by omega
    rw [fillAllGridsAt,if_pos hsmall,fillGrid,if_pos hsmall']
    split <;> rfl
  · have hsmall' : ¬(ni.toNat<3 ∨ nj.toNat<3) := by omega
    have hpasses := passes_touchEach hdistinct heap fillV fillH
      (verticalCells ni.toNat nj.toNat) (horizontalCells ni.toNat nj.toNat) a
    simp only [←fillEach_eq_touchEach,List.reduceOption_mem_iff] at hpasses
    rw [fillAllGridsAt,if_neg hsmall,fillGrid,if_neg hsmall']
    exact hpasses

/-- The fused filling leaves each grid as the filling of that grid alone
would, and touches nothing else. -/
theorem fillAllGridsAt_separate (heap : GridHeap α) {gridu gridv gridSST gridSalinity : Option ℕ}
    (hdistinct : [gridu,gridv,gridSST,gridSalinity].reduceOption.Nodup) (ni nj : ℤ) (a : ℕ) :
    (some a∈[gridu,gridv,gridSST,gridSalinity] →
      fillAllGridsAt heap gridu gridv gridSST gridSalinity ni nj a=
        fillGridAt heap (some a) ni nj a) ∧
    (some a∉[gridu,gridv,gridSST,gridSalinity] →
      fillAllGridsAt heap gridu gridv gridSST gridSalinity ni nj a=heap a) := by
  rw [fillAllGridsAt_apply heap hdistinct,fillGridAt_apply,if_pos rfl]
  exact ⟨fun hin => if_pos hin,fun hout => if_neg hout⟩

/-- Two pointers to separate grids with the same gap: each gap is filled from its own grid.
-/
theorem fillAllGridsAt_separate_gapped :
    fillAllGridsAt (fun _ => gappedGrid) (some 1) none (some 2) none 3 3 1=
        fillGridAt (fun _ => gappedGrid) (some 1) 3 3 1 ∧
      fillAllGridsAt (fun _ => gappedGrid) (some 1) none (some 2) none 3 3 0=gappedGrid :=
  ⟨(fillAllGridsAt_separate (fun _ => gappedGrid) (by decide) 3 3 1).1 (by decide),
    (fillAllGridsAt_separate (fun _ => gappedGrid) (by decide) 3 3 0).2 (by decide)⟩

/-- The four grids at given addresses. -/
def gridsAt (heap : GridHeap α) (gridu gridv gridSST gridSalinity : Option ℕ) : GridSet α :=
  ⟨gridu.map heap,gridv.map heap,gridSST.map heap,gridSalinity.map heap⟩

/-- With the addresses left out, the fused filling is the one by value that `readncdfFile`
uses. -/
theorem gridsAt_fillAllGridsAt (heap : GridHeap α) {gridu gridv gridSST gridSalinity : Option ℕ}
    (hdistinct : [gridu,gridv,gridSST,gridSalinity].reduceOption.Nodup) (ni nj : ℕ) :
    gridsAt (fillAllGridsAt heap gridu gridv gridSST gridSalinity ni nj)
        gridu gridv gridSST gridSalinity=
      fillAllGrids (gridsAt heap gridu gridv gridSST gridSalinity) ni nj := by
  have hfilled : ∀ g∈[gridu,gridv,gridSST,gridSalinity],
      g.map (fillAllGridsAt heap gridu gridv gridSST gridSalinity ni nj)=
        (g.map heap).map (fillGrid ni nj) := by
    intro g hg
    rw [Option.map_map]
    refine Option.map_congr fun a ha => ?_
    rw [fillAllGridsAt_apply heap hdistinct,if_pos (ha ▸ hg)]
    simp
  rw [fillAllGrids_eq_map]
  simp only [gridsAt,GridSet.map,hfilled gridu (by simp),hfilled gridv (by simp),
    hfilled gridSST (by simp),hfilled gridSalinity (by simp)]

end Addresses

end NcdfPlugin.NcdfGapFill
