import NcdfPlugin.NcdfGapFill
import Mathlib.Data.Nat.Sqrt
import Mathlib.NumberTheory.Real.Irrational

/-!
# One mask for the current

A cell that lacks one component of the current is stored without both. Gap
filling then treats each component by itself, but whether it fills a cell
depends on the mask alone, and no mean of stored values is the marker of a
missing value. Values narrowed to single precision may come to lie below the
marker, yet there is none close enough for a mean of means to hit it. The
magnitude is the root, as the library rounds it, of the sum of the squares of
the filled components; the square of a rounded root is in general another
number than that sum.
-/

namespace NcdfPlugin.NcdfCurrentMask

open NcdfLibrary NcdfMessage NcdfTimeStep NcdfReader NcdfGapFill InPlaceSweep

section Levels

variable {α : Type} [Field α] [LinearOrder α]

/-- Facts of the rounding to single precision near the marker, which itself is
not a single-precision number. -/
structure SinglePrecision (toFloat : α → α) : Prop where
  /-- Rounding keeps the order. -/
  monotone : Monotone toFloat
  /-- A single-precision number is kept. -/
  fixed : toFloat (-1000000000)= -1000000000
  /-- Its upper neighbour is 64 away. -/
  gap : ∀ x,toFloat x≤ -1000000000 ∨ -999999936≤toFloat x

/-- Values above the marker. -/
def aboveMarker : Set α := {x | notDef < x}

/-- The lowest single-precision number below the marker, and what is at least
a given step above it. -/
def singleLevel (step : α) : Set α := {x | x= -1000000000 ∨ -1000000000+step≤x}

variable [IsStrictOrderedRing α]

/-- The mean of two values above the marker is above it again, so filling a gap never makes
a new gap. -/
theorem meansInto_aboveMarker : MeansInto (notDef : α) mean aboveMarker aboveMarker := by
  refine ⟨subset_rfl,fun a (ha : notDef < a) b (hb : notDef < b) => ?_,lt_irrefl _⟩
  change notDef < mean a b
  rw [mean,Nat.cast_ofNat,lt_div_iff₀ two_pos]
  linarith

/-- The step is halved by a mean, and must not get down to one. -/
theorem meansInto_singleLevel {step : α} (hstep : 2 < step) :
    MeansInto (notDef : α) mean (singleLevel step) (singleLevel (step/2)) := by
  constructor
  · rintro x (rfl | hx)
    · exact Or.inl rfl
    · right
      linarith
  · rintro a (rfl | ha) b (rfl | hb)
    · left
      norm_num [mean]
    all_goals
      right
      rw [mean,Nat.cast_ofNat,le_div_iff₀ two_pos]
      linarith
  · rintro (heq | hle)
    · norm_num [notDef] at heq
    · simp only [notDef] at hle
      linarith

end Levels

section Filling

variable {α : Type} [Field α] [LinearOrder α]

/-- On the cells of a shaped grid a pass is an update from one snapshot. -/
theorem cells_pass_eq {nj ni : ℕ} {before after : ℕ×ℕ → ℕ×ℕ} (hlines : OnLines before after)
    {grid : Grid α} (h : Shaped nj ni grid) {visits : List (ℕ×ℕ)}
    (hvisits : ∀ c∈visits,c.1<nj ∧ c.2<ni) :
    cells (pass before after grid visits)=
      snapshotUpdate (fillGap notDef mean before after) (cells grid) visits := by
  rw [cells_pass h hvisits,sweep_eq_snapshotUpdate (nonCascading_fillGap hlines)]

/-- One grid among two with a common mask: shape, and a set for its values
before the filling, between the passes and after it. -/
structure Fillable (nj ni : ℕ) (S T U : Set α) (grid : Grid α) : Prop where
  /-- Shape of the grid. -/
  shaped : Shaped nj ni grid
  /-- Values that are not missing. -/
  present : PresentIn notDef S (cells grid)
  /-- Means of the vertical pass. -/
  vertical : MeansInto notDef mean S T
  /-- Means of the horizontal pass. -/
  horizontal : MeansInto notDef mean T U

variable {nj ni : ℕ} {S T U S' T' U' : Set α} {u v : Grid α}

/-- The cells of a filled grid: a pass along the columns and then one along the rows, each
computed from the values before it. -/
theorem cells_fillGrid (hsize : ¬(ni<3 ∨ nj<3)) {grid : Grid α} (h : Shaped nj ni grid) :
    cells (fillGrid ni nj grid)=
      snapshotUpdate (fillGap notDef mean leftOf rightOf)
        (snapshotUpdate (fillGap notDef mean above below) (cells grid) (verticalCells ni nj))
        (horizontalCells ni nj) := by
  have hvertical : ∀ c∈verticalCells ni nj,c.1<nj ∧ c.2<ni := by
    intro c hc
    have := mem_verticalCells.mp hc
    omega
  have hhorizontal : ∀ c∈horizontalCells ni nj,c.1<nj ∧ c.2<ni := by
    intro c hc
    have := mem_horizontalCells.mp hc
    omega
  rw [fillGrid_eq_pass hsize,cells_pass_eq onLines_horizontal (shaped_pass _ _ h _) hhorizontal,
    cells_pass_eq onLines_vertical h hvertical]

/-- Two grids with a common mask still have one after both are filled, since a gap is filled
by where values are, not by what they are. -/
theorem sameMask_fillGrid (hu : Fillable nj ni S T U u) (hv : Fillable nj ni S' T' U' v)
    (hmask : SameMask notDef (cells u) (cells v)) :
    SameMask notDef (cells (fillGrid ni nj u)) (cells (fillGrid ni nj v)) := by
  by_cases hsize : ni<3 ∨ nj<3
  · rw [fillGrid,fillGrid,if_pos hsize,if_pos hsize]
    exact hmask
  · rw [cells_fillGrid hsize hu.shaped,cells_fillGrid hsize hv.shaped]
    have hvertical : SameMask notDef
        (snapshotUpdate (fillGap notDef mean above below) (cells u) (verticalCells ni nj))
        (snapshotUpdate (fillGap notDef mean above below) (cells v) (verticalCells ni nj)) :=
      hmask.snapshotUpdate hu.vertical hv.vertical hu.present hv.present _
    exact hvertical.snapshotUpdate hu.horizontal hv.horizontal
      (presentIn_snapshotUpdate hu.vertical hu.present _)
      (presentIn_snapshotUpdate hv.vertical hv.present _) _

end Filling

section Reading

variable {α : Type} [Field α] [LinearOrder α]

/-- Both components of a cell are stored, or neither is. -/
def StoredTogether (S S' : Set α) (pair : α×α) : Prop :=
  (pair.1∈S ∧ pair.2∈S') ∨ (pair.1=notDef ∧ pair.2=notDef)

/-- What is relied on of `sqrt`, which may round: roots are not negative. -/
def NonnegRoots (env : Env α) : Prop := ∀ x,0≤x → 0≤env.sqrt x

/-- The values that a read delivers, other than fill values, have an absolute
value below that of the marker. -/
def BoundedValues (env : Env α) (file : NcFile α) (varid : ℤ) (request : CurrentRequest) : Prop :=
  ∀ x∈(componentRead file varid request).delivered,
    narrow env file varid x≠currentFill env file varid → |x| < -notDef

/-- Bounded values of both components, in every request that is made. -/
def BoundedCurrent (env : Env α) (cache : FileCache) (m : DataMessage α) : Prop :=
  ∀ file request,openFile env m.fileName=.ok file →
    currentRequest env file (currentVarids cache file).1 (emptied m)=some request →
      BoundedValues env file (currentVarids cache file).1 request ∧
        BoundedValues env file (currentVarids cache file).2 request

/-- Where the values of a component lie as they are kept. -/
def keptValues (file : NcFile α) (varid : ℤ) : Set α :=
  match file.varType varid with
  | .double => singleLevel 64
  | .other => aboveMarker

omit [Field α] [LinearOrder α] in
/-- After a read a buffer holds what was delivered and, behind it, what it held before. -/
theorem mem_storeInto {buffer : List α} {read : ReadOutcome α} {x : α}
    (h : x∈storeInto buffer read) : x∈read.delivered ∨ x∈buffer := by
  rcases List.mem_append.mp h with hdelivered | hkept
  · exact Or.inl (List.mem_of_mem_take hdelivered)
  · exact Or.inr (List.mem_of_mem_drop hkept)

omit [Field α] [LinearOrder α] in
/-- An entry of a list that may be too short is one of its entries or the default. -/
theorem getD_mem_or (l : List α) (c : ℕ) (d : α) : l.getD c d∈l ∨ l.getD c d=d := by
  rw [List.getD_eq_getElem?_getD]
  cases hc : l[c]? with
  | none => exact Or.inr rfl
  | some x => exact Or.inl (List.mem_of_getElem? hc)

variable [IsStrictOrderedRing α]

/-- Zero, which the buffers hold before a read, counts among the values that a read leaves.
-/
theorem zero_mem_keptValues (file : NcFile α) (varid : ℤ) : (0 : α)∈keptValues file varid := by
  unfold keptValues
  split
  · right
    norm_num
  · change notDef<(0 : α)
    norm_num [notDef]

/-- A value above the marker may be rounded below it, but not to just there. -/
theorem narrow_mem_keptValues {env : Env α} (hsingle : SinglePrecision env.toFloat)
    (file : NcFile α) (varid : ℤ) {x : α} (hx : |x| < -notDef) :
    narrow env file varid x∈keptValues file varid := by
  have hlow : notDef<x := by
    have := (abs_lt.mp hx).1
    rwa [neg_neg] at this
  unfold narrow keptValues
  cases file.varType varid with
  | double =>
    have hbound := hsingle.monotone (by linarith : -1000000000≤x)
    rw [hsingle.fixed] at hbound
    rcases hsingle.gap x with hle | hge
    · exact Or.inl (le_antisymm hle hbound)
    · right
      linarith
  | other => exact hlow

/-- Values of a component as they are kept, apart from its fill value. -/
theorem component_mem_keptValues {env : Env α} (hsingle : SinglePrecision env.toFloat)
    {file : NcFile α} {varid : ℤ} {request : CurrentRequest}
    (hbounded : BoundedValues env file varid request) {points : ℕ} {x : α}
    (hx : x∈componentBuffer env file varid request points) (hfill : x≠currentFill env file varid) :
    x∈keptValues file varid := by
  obtain ⟨raw,hraw,rfl⟩ := List.mem_map.mp hx
  rcases mem_storeInto hraw with hdelivered | hzero
  · exact narrow_mem_keptValues hsingle file varid (hbounded raw hdelivered hfill)
  · obtain rfl := List.eq_of_mem_replicate hzero
    rw [narrow_zero]
    exact zero_mem_keptValues file varid

/-- Two passes do not lead from kept values to the marker. -/
theorem meansInto_keptValues (file : NcFile α) (varid : ℤ) :
    ∃ T U : Set α,MeansInto notDef mean (keptValues file varid) T ∧ MeansInto notDef mean T U := by
  unfold keptValues
  split
  · exact ⟨_,_,meansInto_singleLevel (by norm_num),meansInto_singleLevel (by norm_num)⟩
  · exact ⟨_,_,meansInto_aboveMarker,meansInto_aboveMarker⟩

/-- Entries of a component buffer, as the fill loops read them, are delivered values in
single precision or zero. -/
theorem getD_mem_keptValues {env : Env α} (hsingle : SinglePrecision env.toFloat)
    {file : NcFile α} {varid : ℤ} {request : CurrentRequest}
    (hbounded : BoundedValues env file varid request) {points : ℕ} (c : ℕ)
    (hfill : (componentBuffer env file varid request points).getD c 0≠currentFill env file varid) :
    (componentBuffer env file varid request points).getD c 0∈keptValues file varid := by
  rcases getD_mem_or (componentBuffer env file varid request points) c 0 with hin | hzero
  · exact component_mem_keptValues hsingle hbounded hin hfill
  · rw [hzero]
    exact zero_mem_keptValues file varid

/-- The fill loops store both components of a cell or the marker in both, also where a read
ended early. -/
theorem storedTogether_currentCells {env : Env α} (hsingle : SinglePrecision env.toFloat)
    {file : NcFile α} {uVarid vVarid : ℤ} {request : CurrentRequest} (msg : DataMessage α)
    (hu : BoundedValues env file uVarid request) (hv : BoundedValues env file vVarid request) :
    ∀ cell∈currentCells env file uVarid vVarid request msg,
      StoredTogether (keptValues file uVarid) (keptValues file vVarid) (cell.u,cell.v) := by
  intro cell hcell
  have hpair := List.mem_map_of_mem (f:=fun cell : CurrentCell α => (cell.u,cell.v)) hcell
  rw [currentCells,fillCells_pairs] at hpair
  obtain ⟨c,-,heq⟩ := List.mem_map.mp hpair
  rw [←heq,maskedCurrent]
  split
  next hkept =>
    exact Or.inl ⟨getD_mem_keptValues hsingle hu c hkept.1,getD_mem_keptValues hsingle hv c hkept.2⟩
  next => exact Or.inr ⟨rfl,rfl⟩

/-- After a successful read every cell of the current buffers holds two values of the file
or two markers. -/
theorem storedTogether_read {env : Env α} (hsingle : SinglePrecision env.toFloat)
    {cache : FileCache} {m : DataMessage α} (hbounded : BoundedCurrent env cache m)
    (hread : (readTimeStepData env cache m).1=true)
    (hcurrent : hasCurrent (readTimeStepData env cache m).2=true) :
    ∃ (file : NcFile α) (cells : List (CurrentCell α)),(readTimeStepData env cache m).2.ucurr=some (cells.map CurrentCell.u) ∧
      (readTimeStepData env cache m).2.vcurr=some (cells.map CurrentCell.v) ∧
      ∀ cell∈cells,StoredTogether (keptValues file (currentVarids cache file).1)
        (keptValues file (currentVarids cache file).2) (cell.u,cell.v) := by
  have hok : readTimeStepData env cache m=(true,(readTimeStepData env cache m).2) := by
    rw [←hread]
  obtain ⟨-,file,read,hopen,hstep,hresult⟩ := (readTimeStepData_ok_iff _).mp hok
  obtain ⟨hu,hv⟩ := readScalars_current env cache file read
  rw [←hresult] at hu hv
  rcases readCurrentStep_some hstep with ⟨-,rfl⟩ | ⟨-,request,cells,hrequest,hcells,rfl⟩
  · -- without both components there is no current
    rw [hasCurrent,hu,hv] at hcurrent
    cases hcurrent
  · obtain ⟨hbu,hbv⟩ := hbounded file request hopen hrequest
    refine ⟨file,cells,hu,hv,?_⟩
    rw [hcells]
    exact storedTogether_currentCells hsingle _ hbu hbv

end Reading

section Grids

variable {α : Type} [Field α]

/-- A grid that is cut from a flat buffer has rows of one length. -/
theorem shaped_buildGrid (nj ni : ℕ) (values : List α) : Shaped nj ni (buildGrid nj ni values) :=
  shaped_tabulate nj ni _

variable {S S' : Set α} {stored : List (CurrentCell α)}

/-- Entries of the two buffers at one position, which may lie past their end. -/
theorem storedTogether_getD (hzero : (0 : α)∈S) (hzero' : (0 : α)∈S')
    (h : ∀ cell∈stored,StoredTogether S S' (cell.u,cell.v)) (c : ℕ) :
    StoredTogether S S' ((stored.map CurrentCell.u).getD c 0,(stored.map CurrentCell.v).getD c 0) := by
  simp only [List.getD_eq_getElem?_getD,List.getElem?_map]
  cases hc : stored[c]? with
  | none => exact Or.inl ⟨hzero,hzero'⟩
  | some cell => exact h cell (List.mem_of_getElem? hc)

/-- The two grids that are built from the buffers hold their values together, cell by cell.
-/
theorem storedTogether_buildGrid (nj ni : ℕ) (hzero : (0 : α)∈S) (hzero' : (0 : α)∈S')
    (h : ∀ cell∈stored,StoredTogether S S' (cell.u,cell.v)) (c : ℕ×ℕ) :
    StoredTogether S S' (cells (buildGrid nj ni (stored.map CurrentCell.u)) c,
      cells (buildGrid nj ni (stored.map CurrentCell.v)) c) := by
  by_cases hin : c.1<nj ∧ c.2<ni
  · rw [cells,cells,cellAt_buildGrid hin.1 hin.2,cellAt_buildGrid hin.1 hin.2]
    exact storedTogether_getD hzero hzero' h _
  · rw [cells_outside (shaped_buildGrid _ _ _) hin,cells_outside (shaped_buildGrid _ _ _) hin]
    exact Or.inl ⟨hzero,hzero'⟩

/-- Stores whose values come in pairs, none of them the marker, are missing at the same
places. -/
theorem sameMask_of_storedTogether {ι : Type} {store store' : ι → α} (hclear : notDef∉S)
    (hclear' : notDef∉S') (h : ∀ c,StoredTogether S S' (store c,store' c)) :
    SameMask notDef store store' := by
  intro c
  rcases h c with ⟨hu,hv⟩ | ⟨hu,hv⟩
  · exact ⟨fun heq => absurd (heq ▸ hu) hclear,fun heq => absurd (heq ▸ hv) hclear'⟩
  · exact ⟨fun _ => hv,fun _ => hu⟩

/-- Two arrays whose cells are stored together each hold values of their own kind, or the
marker. -/
theorem presentIn_of_storedTogether {ι : Type} {store store' : ι → α}
    (h : ∀ c,StoredTogether S S' (store c,store' c)) :
    PresentIn notDef S store ∧ PresentIn notDef S' store' := by
  constructor
  · intro c hc
    exact ((h c).resolve_right fun hmissing => hc hmissing.1).1
  · intro c hc
    exact ((h c).resolve_right fun hmissing => hc hmissing.2).2

/-- A message with current data has two grids of the current, built from its buffers with
its rows and columns. -/
theorem builtGrids_current {m : DataMessage α} (hcurrent : hasCurrent m=true) {us vs : List α}
    (hu : m.ucurr=some us) (hv : m.vcurr=some vs) :
    (builtGrids m).u=some (buildGrid m.noPointsMeridian m.noPointsParallel us) ∧
      (builtGrids m).v=some (buildGrid m.noPointsMeridian m.noPointsParallel vs) := by
  simp [builtGrids,hcurrent,hu,hv]

variable [LinearOrder α] [IsStrictOrderedRing α]

/-- A force is missing exactly where the components are, and elsewhere it is the root that
the library computes of the sum of their squares. -/
theorem magnitudeCell_mask {env : Env α} (hsqrt : NonnegRoots env) {u v : α}
    (hmask : u=notDef ↔ v=notDef) :
    (u=notDef ↔ magnitudeCell env u v=notDef) ∧
      (u≠notDef → magnitudeCell env u v=env.sqrt (u*u+v*v)) := by
  have hsum : 0≤u*u+v*v := add_nonneg (mul_self_nonneg u) (mul_self_nonneg v)
  unfold magnitudeCell
  by_cases hu : u=notDef
  · rw [if_neg fun h => h.1 hu]
    exact ⟨⟨fun _ => rfl,fun _ => hu⟩,fun hne => absurd hu hne⟩
  · have hv : v≠notDef := fun h => hu (hmask.mpr h)
    rw [if_pos ⟨hu,hv⟩]
    refine ⟨⟨fun h => absurd h hu,fun h => ?_⟩,fun _ => ?_⟩
    · -- a root is not negative, and the marker is
      have hroot := hsqrt _ hsum
      rw [h] at hroot
      norm_num [notDef] at hroot
    · rfl

/-- The current grids of a successful read have one mask, and so have the
filled ones. -/
theorem sameMask_read {env : Env α} (hsingle : SinglePrecision env.toFloat) {cache : FileCache}
    {m : DataMessage α} (hbounded : BoundedCurrent env cache m)
    (hread : (readTimeStepData env cache m).1=true)
    (hcurrent : hasCurrent (readTimeStepData env cache m).2=true) :
    ∃ us vs,(readTimeStepData env cache m).2.ucurr=some us ∧
      (readTimeStepData env cache m).2.vcurr=some vs ∧ ∀ nj ni,
        SameMask notDef (cells (fillGrid ni nj (buildGrid nj ni us)))
          (cells (fillGrid ni nj (buildGrid nj ni vs))) := by
  obtain ⟨file,stored,hu,hv,htogether⟩ := storedTogether_read hsingle hbounded hread hcurrent
  obtain ⟨T,U,hvertical,hhorizontal⟩ := meansInto_keptValues file (currentVarids cache file).1
  obtain ⟨T',U',hvertical',hhorizontal'⟩ := meansInto_keptValues file (currentVarids cache file).2
  refine ⟨_,_,hu,hv,fun nj ni => ?_⟩
  have hcells := storedTogether_buildGrid nj ni (zero_mem_keptValues file _)
    (zero_mem_keptValues file _) htogether
  have hmask := sameMask_of_storedTogether (fun h => hvertical.clear (hvertical.subset h))
    (fun h => hvertical'.clear (hvertical'.subset h)) hcells
  obtain ⟨hpresent,hpresent'⟩ := presentIn_of_storedTogether hcells
  exact sameMask_fillGrid ⟨shaped_buildGrid _ _ _,hpresent,hvertical,hhorizontal⟩
    ⟨shaped_buildGrid _ _ _,hpresent',hvertical',hhorizontal'⟩ hmask

/-- Eastward current, northward current and magnitude agree on what is
missing, for any sizes and any missing pattern of the file, and where it is
defined the magnitude is the root of the sum of the squares of the filled
components. -/
theorem current_mask {env : Env α} (hsqrt : NonnegRoots env) (hsingle : SinglePrecision env.toFloat)
    (gui : GuiGrids α) {cache : FileCache} {m : DataMessage α}
    (hbounded : BoundedCurrent env cache m) (hread : (readTimeStepData env cache m).1=true)
    (hcurrent : hasCurrent (readTimeStepData env cache m).2=true) :
    ∃ u v mag,(readncdfFile env gui (readTimeStepData env cache m).2).gridu=some u ∧
      (readncdfFile env gui (readTimeStepData env cache m).2).gridv=some v ∧
      (readncdfFile env gui (readTimeStepData env cache m).2).gridMag=some mag ∧
      ∀ j<(readTimeStepData env cache m).2.noPointsMeridian,
        ∀ i<(readTimeStepData env cache m).2.noPointsParallel,
          (cellAt u j i=notDef ↔ cellAt v j i=notDef) ∧
          (cellAt u j i=notDef ↔ cellAt mag j i=notDef) ∧
          (cellAt u j i≠notDef →
            cellAt mag j i=env.sqrt (cellAt u j i*cellAt u j i+cellAt v j i*cellAt v j i)) := by
  obtain ⟨us,vs,hus,hvs,hmask⟩ := sameMask_read hsingle hbounded hread hcurrent
  generalize (readTimeStepData env cache m).2=read at hcurrent hus hvs ⊢
  obtain ⟨hu,hv⟩ := builtGrids_current hcurrent hus hvs
  have hdata : hasAnyData read=true := by simp [hasAnyData,hcurrent]
  rw [readncdfFile,if_pos hdata,fillAllGrids_eq_map]
  simp only [GridSet.map,hu,hv,Option.map_some]
  refine ⟨_,_,_,rfl,rfl,rfl,fun j hj i hi => ?_⟩
  have hcell := hmask read.noPointsMeridian read.noPointsParallel (j,i)
  obtain ⟨hmissing,hroot⟩ := magnitudeCell_mask hsqrt hcell
  have hmag := cells_tabulate hj hi fun j i => magnitudeCell env
    (cellAt (fillGrid read.noPointsParallel read.noPointsMeridian
      (buildGrid read.noPointsMeridian read.noPointsParallel us)) j i)
    (cellAt (fillGrid read.noPointsParallel read.noPointsMeridian
      (buildGrid read.noPointsMeridian read.noPointsParallel vs)) j i)
  refine ⟨hcell,hmissing.trans (Eq.congr_left hmag.symm),fun hu => ?_⟩
  exact hmag.trans (hroot hu)

end Grids

section Sample

/-- Rounding to single precision between the two neighbours of the marker;
other numbers are taken as they are. -/
def roundAtMarker (x : ℚ) : ℚ :=
  if -1000000000 < x ∧ x < -999999936 then
    if x≤ -999999968 then -1000000000 else -999999936
  else x

/-- Rounding as it is done around the marker meets what is asked of the conversion to single
precision. -/
theorem singlePrecision_roundAtMarker : SinglePrecision roundAtMarker := by
  constructor
  · intro x y hxy
    simp only [roundAtMarker]
    by_cases hx : -1000000000 < x ∧ x < -999999936 <;>
      by_cases hy : -1000000000 < y ∧ y < -999999936
    · rw [if_pos hx,if_pos hy]
      split_ifs <;> linarith
    · rw [if_pos hx,if_neg hy]
      have hbeyond := not_and.mp hy (hx.1.trans_le hxy)
      split_ifs <;> linarith
    · rw [if_neg hx,if_pos hy]
      have hbelow : ¬ -1000000000 < x := fun h => hx ⟨h,hxy.trans_lt hy.2⟩
      split_ifs <;> linarith
    · rw [if_neg hx,if_neg hy]
      exact hxy
  · norm_num [roundAtMarker]
  · intro x
    unfold roundAtMarker
    split_ifs with hin hlow
    · exact Or.inl le_rfl
    · exact Or.inr le_rfl
    · by_cases hx : -1000000000 < x
      · exact Or.inr (not_lt.mp fun h => hin ⟨hx,h⟩)
      · exact Or.inl (not_lt.mp hx)

/-- The multiple of 2^-52 nearest to the root of a number, which from 1 to 4
is what `sqrt` gives on doubles. -/
def roundedSqrt (x : ℚ) : ℚ := ((Nat.sqrt ⌊x*2^106⌋₊+1)/2 : ℕ)/2^52

/-- The rounded root is not negative. -/
theorem roundedSqrt_nonneg (x : ℚ) : 0≤roundedSqrt x :=
  div_nonneg (Nat.cast_nonneg _) (by norm_num)

/-- A double is a rational number, and the square of none is two. -/
theorem sq_ne_two (x : ℚ) : x^2≠2 := by
  intro h
  have hreal : (x : ℝ)^2=2 := by exact_mod_cast h
  have habs : |(x : ℝ)|=Real.sqrt 2 := by rw [←hreal,Real.sqrt_sq_eq_abs]
  exact irrational_sqrt_two ⟨|x|,by rw [Rat.cast_abs,habs]⟩

/-- One row of two cells, the second without an eastward component. -/
def halfFile : NcFile ℚ where
  inq := .ok (3,5)
  attText := fun _ _ => none
  attFloat := fun _ _ => none
  attDouble := fun _ _ => none
  inqVarid := fun name => ["time","lat","lon","u","v"].findIdx? (· = name)
  varDims := fun _ => some [0,1,2]
  inqDimid := fun name => ["time","lat","lon"].findIdx? (· = name)
  dimName := fun dimid => ["time","lat","lon"].getD dimid ""
  dimLen := fun dimid => [1,1,2][dimid]?
  varType := fun _ => .other
  getVarDouble := fun _ => ⟨-1,[]⟩
  getVarFloat := fun _ => ⟨-1,[]⟩
  getVaraDouble := fun _ _ _ => ⟨-1,[]⟩
  getVaraFloat := fun varid _ _ => ⟨0,if varid=3 then [1,-(32767 : ℕ)] else [1,1]⟩

/-- A world with this file, whose square roots are rounded. -/
def halfEnv : Env ℚ where
  ncOpen := fun _ _ => .ok halfFile
  calloc := fun _ => true
  toFloat := roundAtMarker
  toFloat_zero := by norm_num [roundAtMarker]
  sqrt := roundedSqrt
  toLower := Char.toLower
  parseFormat := fun _ _ => none
  getYear := fun _ => 0
  formatHour := fun _ => ""

/-- Its time step, with the coordinates loaded. -/
def halfStep : DataMessage ℚ :=
  {fileName := "half.nc",timeIndex := 0,latLength := 1,lonLength := 2,noPointsMeridian := 1,
    noPointsParallel := 2,latValues := some [0],lonValues := some [0,1]}

/-- The identifiers cached for it. -/
def halfCache : FileCache := {fileHasCurrent := true,cachedUVarid := 3,cachedVVarid := 4}

/-- Its values other than fill values are between minus one and one. -/
theorem boundedCurrent_half : BoundedCurrent halfEnv halfCache halfStep := by
  intro file request hopen _
  obtain rfl := Except.ok.inj hopen
  constructor
  · intro x hx hfill
    rcases List.mem_pair.mp hx with rfl | rfl
    · norm_num [abs_of_pos]
    · exact absurd rfl hfill
  · intro x hx _
    rcases List.mem_pair.mp hx with rfl | rfl <;> norm_num [abs_of_pos]

/-- Two nodes with halves for components, one of which is missing, and roots that are cut to
tenths. -/
theorem current_mask_half :
    ∃ u v mag,(readncdfFile halfEnv {} (readTimeStepData halfEnv halfCache halfStep).2).gridu=some u ∧
      (readncdfFile halfEnv {} (readTimeStepData halfEnv halfCache halfStep).2).gridv=some v ∧
      (readncdfFile halfEnv {} (readTimeStepData halfEnv halfCache halfStep).2).gridMag=some mag ∧
      ∀ j<(readTimeStepData halfEnv halfCache halfStep).2.noPointsMeridian,
        ∀ i<(readTimeStepData halfEnv halfCache halfStep).2.noPointsParallel,
          (cellAt u j i=notDef ↔ cellAt v j i=notDef) ∧
          (cellAt u j i=notDef ↔ cellAt mag j i=notDef) ∧
          (cellAt u j i≠notDef →
            cellAt mag j i=halfEnv.sqrt (cellAt u j i*cellAt u j i+cellAt v j i*cellAt v j i)) :=
  current_mask (fun x _ => roundedSqrt_nonneg x) singlePrecision_roundAtMarker {} boundedCurrent_half
    rfl rfl

/-- In the first cell both components are one and defined, and the square of
the magnitude is not two. -/
theorem not_exact_magnitude :
    BoundedCurrent halfEnv halfCache halfStep ∧
    (readTimeStepData halfEnv halfCache halfStep).1=true ∧
    ∃ u v mag,(readncdfFile halfEnv {} (readTimeStepData halfEnv halfCache halfStep).2).gridu=some u ∧
      (readncdfFile halfEnv {} (readTimeStepData halfEnv halfCache halfStep).2).gridv=some v ∧
      (readncdfFile halfEnv {} (readTimeStepData halfEnv halfCache halfStep).2).gridMag=some mag ∧
      cellAt u 0 0=1 ∧ cellAt v 0 0=1 ∧ cellAt mag 0 0≠notDef ∧
      cellAt mag 0 0^2≠cellAt u 0 0^2+cellAt v 0 0^2 := by
  refine ⟨boundedCurrent_half,rfl,_,_,_,rfl,rfl,rfl,rfl,rfl,?_,?_⟩
  · change roundedSqrt (1*1+1*1)≠notDef
    have hroot := roundedSqrt_nonneg (1*1+1*1)
    intro h
    rw [h] at hroot
    norm_num [notDef] at hroot
  · change roundedSqrt (1*1+1*1)^2≠1^2+1^2
    norm_num
    exact sq_ne_two _

end Sample

end NcdfPlugin.NcdfCurrentMask
