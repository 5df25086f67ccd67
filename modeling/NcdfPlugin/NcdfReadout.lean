import NcdfPlugin.NcdfDimensionOrder
import NcdfPlugin.NcdfGapFill
import NcdfPlugin.NcdfCurrentMask
import NcdfPlugin.NcdfDirection
import NcdfPlugin.NcdfBlend

/-!
# Values at the cursor

`UpdateTrackingControls` shows the values interpolated at the cursor. For the
current this is the end of the whole way from the file: the time step is read,
its cells become grids, gaps between two values are filled, and a bilinear
blend with smoothed weights is turned into force and direction. In a cell whose
four corners have values in the file the controls show the blend of these
values, at a node the value of the node, whichever turn the cursor is on.
-/

namespace NcdfPlugin.NcdfReadout

open ExactArithmetic NcdfLibrary NcdfDiscovery NcdfMessage NcdfTimeStep NcdfReader NcdfGapFill NcdfCurrentMask
  NcdfDimensionOrder NcdfEvenMap NcdfInterpolation NcdfBlend NcdfDirection InPlaceSweep

section Program

variable {α : Type} [Field α] [LinearOrder α] [FloorRing α]

/-- Text of a control for sea temperature or salinity. -/
inductive ScalarText (α : Type) where
  /-- `Clear`. -/
  | cleared
  /-- Two dashes. -/
  | dashes
  /-- A value with its unit. -/
  | value (x : α)
  deriving DecidableEq

/-- Texts that `UpdateTrackingControls` leaves. -/
structure TrackingControls (α : Type) where
  /-- Force and direction, none while their controls are cleared. -/
  current : Option (CurrentData α)
  /-- `m_textCtrlSeaTemp`. -/
  seaTemp : ScalarText α
  /-- `m_textCtrlSalinity`. -/
  salinity : ScalarText α

/-- `printCurrentData`: what it writes into the cleared controls. -/
def printCurrentData (libm : Libm α) (gui : GuiGrids α) (lat lon : α) : Option (CurrentData α) :=
  match gui.gridu,gui.gridv with
  | some gridu,some gridv =>
    let cDir := getInterpolatedValue gui.myMessage gridu lon lat true
    let cForce := getInterpolatedValue gui.myMessage gridv lon lat true
    if cDir≠notDef ∧ cForce≠notDef then some (currentData libm cDir cForce) else none
  | _,_ => none

/-- The control for a scalar grid that is announced or not. -/
def scalarText (m : DataMessage α) (grid : Option (Grid α)) (announced : Bool) (lat lon : α) :
    ScalarText α :=
  match grid with
  | some grid =>
    if announced=true then
      let value := getInterpolatedValue m grid lon lat true
      if value≠notDef then .value value else .dashes
    else .cleared
  | none => .cleared

/-- `UpdateTrackingControls`. -/
def updateTrackingControls (libm : Libm α) (gui : GuiGrids α) (lat lon : α) : TrackingControls α where
  current := printCurrentData libm gui lat lon
  seaTemp := scalarText gui.myMessage gui.gridSST gui.hasSeaTemp lat lon
  salinity := scalarText gui.myMessage gui.gridSalinity gui.hasSalinity lat lon

/-- Values at the nodes around a cell. -/
def nodeCorners (value : ℕ → ℕ → α) (j i : ℕ) : Corners α :=
  ⟨value j i,value j (i+1),value (j+1) i,value (j+1) (i+1)⟩

/-- Values, and none of them taken for an angle. -/
structure CalmCell (c : Corners α) : Prop where
  /-- All corners are above the marker. -/
  above : notDef < least c
  /-- Neighbours are at most ninety apart. -/
  gentle : Gentle c

end Program

section Cells

variable {α : Type} [Field α] [LinearOrder α] [IsStrictOrderedRing α] [FloorRing α]

omit [IsStrictOrderedRing α] [FloorRing α] in
/-- The corners of a calm cell have values, since all of them are above the marker. -/
theorem CalmCell.defined {value : ℕ → ℕ → α} {j i : ℕ} (h : CalmCell (nodeCorners value j i))
    {j' i' : ℕ} (hj : j'=j ∨ j'=j+1) (hi : i'=i ∨ i'=i+1) : value j' i'≠notDef := by
  obtain ⟨⟨h00,h10⟩,h01,h11⟩ := (lt_min_iff.trans (and_congr lt_min_iff lt_min_iff)).mp h.above
  rcases hj with rfl | rfl <;> rcases hi with rfl | rfl
  · exact h00.ne'
  · exact h10.ne'
  · exact h01.ne'
  · exact h11.ne'

omit [IsStrictOrderedRing α] [FloorRing α] in
/-- Filling keeps every cell that has a value, in both of its passes. -/
theorem cellAt_fillGrid {ni nj : ℕ} {grid : Grid α} {j i : ℕ}
    (hshape : Shaped nj ni grid) (hdefined : cellAt grid j i≠notDef) :
    cellAt (fillGrid ni nj grid) j i=cellAt grid j i := by
  by_cases hsmall : ni<3 ∨ nj<3
  · rw [fillGrid,if_pos hsmall]
  · have hkept : cells (fillGrid ni nj grid) (j,i)=cells grid (j,i) := by
      rw [cells_fillGrid hsmall hshape]
      have hvertical : snapshotUpdate (fillGap notDef mean above below) (cells grid)
          (verticalCells ni nj) (j,i)=cells grid (j,i) := by
        unfold snapshotUpdate
        split
        · exact fillGap_of_present hdefined
        · rfl
      rw [snapshotUpdate]
      split
      · rw [fillGap_of_present (by rw [hvertical]; exact hdefined),hvertical]
      · exact hvertical
    exact hkept

variable {m : DataMessage α} {lat lon : Axis α}

omit [FloorRing α] in
/-- A point between two neighbouring columns lies between the first column and the last one.
-/
theorem column_range {i : ℕ} (hrising : 0 < lon.step) (hi : i+1 < lon.count) {a : α} (h0 : 0≤a)
    (h1 : a<1) : lon.start≤lon.start+(i+a)*lon.step ∧ lon.start+(i+a)*lon.step<lon.last := by
  have hi' : (i : α)+2 ≤ lon.count := by exact_mod_cast hi
  have hi0 : (0 : α) ≤ i := Nat.cast_nonneg i
  have hlow := mul_nonneg (add_nonneg hi0 h0) hrising.le
  have hhigh := mul_lt_mul_of_pos_right (show (i : α)+a<lon.count-1 by linarith) hrising
  rw [lon.last_eq]
  constructor <;> linarith

omit [FloorRing α] in
/-- A point between two rows is on the map. -/
theorem row_inMap (hon : OnAxes m lat lon) {j : ℕ} (hj : j+1 < lat.count) {b : α} (h0 : 0≤b)
    (h1 : b<1) : isYInMap m (lat.start+(j+b)*lat.step)=true := by
  have hj' : (j : α)+2 ≤ lat.count := by exact_mod_cast hj
  have hj0 : (0 : α)≤j := Nat.cast_nonneg j
  have hplace : (0 : α)≤j+b := add_nonneg hj0 h0
  have hbefore : (j : α)+b ≤ lat.count-1 := by linarith
  rcases lt_or_gt_of_ne lat.step_ne with hneg | hpos
  · rw [isYInMap_iff_neg (by rw [hon.jIncr]; exact hneg),hon.firstLat,hon.lastLat,lat.last_eq]
    have hlow := mul_nonpos_of_nonneg_of_nonpos hplace hneg.le
    have hhigh := mul_le_mul_of_nonpos_right hbefore hneg.le
    constructor <;> linarith
  · rw [isYInMap_iff_nonneg (by rw [hon.jIncr]; exact hpos.le),hon.firstLat,hon.lastLat,lat.last_eq]
    have hlow := mul_nonneg hplace hpos.le
    have hhigh := mul_le_mul_of_nonneg_right hbefore hpos.le
    constructor <;> linarith

/-- Normalization finds the place of a longitude on a map of one turn at most,
except that the seam of a global map may be taken for its other end. -/
theorem normalizeX_place (hon : OnAxes m lat lon) (hrising : 0 < lon.step)
    (hspan : lon.count*lon.step≤fullTurn) {x place : α} {z : ℤ} (hx : x=place+z*fullTurn)
    (hlow : lon.start≤place) (hhigh : place<lon.last) (hseam : z=0 ∨ lon.start<place) :
    normalizeX m x=place := by
  have hend : lon.last+lon.step=lon.start+lon.count*lon.step := by
    rw [lon.last_eq]
    ring
  rcases hseam with rfl | hinside
  · rw [Int.cast_zero,zero_mul,add_zero] at hx
    subst hx
    refine reduce_of_mem fullTurn_pos (by rw [hon.firstLong]; exact hlow) ?_
    rw [hon.lastLong,hon.iIncr]
    linarith
  · obtain ⟨w,hw⟩ := normalizeX_turns m x
    have hfirst := first_le_normalizeX m x
    rw [hon.firstLong] at hfirst
    have hlast : normalizeX m x≤lon.start+fullTurn := by
      have hor := reduce_le_or_lt fullTurn_pos m.firstGridPointLong
        (m.lastGridPointLong+m.iDirectionIncr) x
      rw [hon.firstLong,hon.lastLong,hon.iIncr] at hor
      rw [normalizeX,hon.firstLong,hon.lastLong,hon.iIncr]
      rcases hor with h | h <;> linarith
    refine eq_of_turns fullTurn_pos (z := z+w) ?_ (by linarith) (by linarith)
    rw [hw,hx]
    push_cast
    ring

/-- Place of a point in a cell between two rows and two columns. -/
theorem cellOf_place (hon : OnAxes m lat lon) (hrising : 0 < lon.step) {j i : ℕ}
    (hi : i+1 < lon.count) {a b : α} (ha : 0≤a ∧ a<1) (hb : 0≤b ∧ b<1) :
    cellOf m (lon.start+(i+a)*lon.step) (lat.start+(j+b)*lat.step)=⟨i,i+1,j,a,b⟩ := by
  have hcolumn : columnCoord m (lon.start+(i+a)*lon.step)=i+a := by
    rw [columnCoord,hon.firstLong,hon.iIncr,add_sub_cancel_left,mul_div_cancel_right₀ _ hrising.ne']
  have hrow : rowCoord m (lat.start+(j+b)*lat.step)=j+b := by
    rw [rowCoord,hon.firstLat,hon.jIncr,add_sub_cancel_left,mul_div_cancel_right₀ _ lat.step_ne]
  have hfloor (k : ℕ) {c : α} (hc : 0 ≤ c ∧ c<1) : truncate ((k : α)+c)=k := by
    rw [truncate_of_nonneg (add_nonneg (Nat.cast_nonneg k) hc.1),Int.floor_natCast_add,
      Int.floor_eq_zero_iff.mpr hc,add_zero]
  have hright : rightColumn m i=i+1 := by
    rw [rightColumn,if_neg (by rw [hon.columns]; omega)]
  simp only [cellOf,hcolumn,hrow,hfloor i ha,hfloor j hb,hright,Int.cast_natCast,add_sub_cancel_left]

/-- A longitude on one of three turns around the map reaches its place. -/
theorem queryCell_place (hon : OnAxes m lat lon) (hrising : 0 < lon.step)
    (hspan : lon.count*lon.step≤fullTurn) {j i : ℕ} (hj : j+1 < lat.count) (hi : i+1 < lon.count)
    {a b : α} (ha : 0≤a ∧ a<1) (hb : 0≤b ∧ b<1) {z : ℤ} (hz : z∈[(0 : ℤ),1,-1])
    (hseam : z=0 ∨ 0 < i+a) :
    let px := lon.start+(i+a)*lon.step-z*fullTurn
    let py := lat.start+(j+b)*lat.step
    (∃ x,reachX m px py=some x) ∧ queryCell m px py=⟨i,i+1,j,a,b⟩ := by
  intro px py
  obtain ⟨hlow,hhigh⟩ := column_range hrising hi ha.1 ha.2
  have hy : isYInMap m py=true := row_inMap hon hj hb.1 hb.2
  have hplace : isPointInMap m (lon.start+(i+a)*lon.step) py=true := by
    have hfirst : ¬(halfTurn < m.firstGridPointLong ∧ m.lastGridPointLong<halfTurn) := by
      rw [hon.firstLong,hon.lastLong]
      rintro ⟨h,h'⟩
      linarith
    rw [isPointInMap,hy,Bool.and_true,isXInMap,if_neg hfirst]
    split
    · rfl
    · rw [if_pos (by rw [hon.iIncr]; exact hrising),hon.firstLong,hon.lastLong,decide_eq_true_eq]
      exact ⟨hlow,hhigh.le⟩
  have hseam' : z=0 ∨ lon.start<lon.start+(i+a)*lon.step :=
    hseam.imp id fun hpos => by linarith [mul_pos hpos hrising]
  -- the query is moved by whole turns, and on the first turn not at all
  obtain ⟨w,hw,hreach⟩ : ∃ w : ℤ,(z=0 → w=0) ∧ reachX m px py=some (px+w*fullTurn) := by
    unfold reachX
    by_cases h0 : isPointInMap m px py=true
    · exact ⟨0,fun _ => rfl,by rw [if_pos h0]; simp⟩
    · have hz0 : z≠0 := by
        rintro rfl
        refine h0 ?_
        simpa [px] using hplace
      rw [if_neg h0]
      by_cases h1 : isPointInMap m (px+fullTurn) py=true
      · exact ⟨1,fun h => absurd h hz0,by rw [if_pos h1]; simp⟩
      · rw [if_neg h1]
        have hback : px+fullTurn-(fullTurn+fullTurn)=px+((-1 : ℤ) : α)*fullTurn := by
          push_cast
          ring
        have hlast : z= -1 := by
          rcases hz with _ | ⟨_,_ | ⟨_,_ | ⟨_,h⟩⟩⟩
          · exact absurd rfl hz0
          · refine absurd ?_ h1
            have : px+fullTurn=lon.start+(i+a)*lon.step := by simp [px]
            rwa [this]
          · rfl
          · cases h
        have hon' : isPointInMap m (px+((-1 : ℤ) : α)*fullTurn) py=true := by
          have : px+((-1 : ℤ) : α)*fullTurn=lon.start+(i+a)*lon.step := by
            simp only [px,hlast]
            push_cast
            ring
          rwa [this]
        rw [hback,if_pos hon']
        exact ⟨-1,fun h => absurd h hz0,rfl⟩
  refine ⟨⟨_,hreach⟩,?_⟩
  have hnormal : normalizeX m (px+w*fullTurn)=lon.start+(i+a)*lon.step := by
    refine normalizeX_place hon hrising hspan (z := w-z) ?_ hlow hhigh ?_
    · simp only [px]
      push_cast
      ring
    · rcases hseam' with hzero | hinside
      · exact Or.inl (by rw [hzero,hw hzero]; rfl)
      · exact Or.inr hinside
  rw [queryCell,hreach,Option.getD_some,hnormal]
  exact cellOf_place hon hrising hi ha hb

/-- In a calm cell the interpolated value is the blend of its corners. -/
theorem getInterpolatedValue_place (hon : OnAxes m lat lon) (hrising : 0 < lon.step)
    (hspaced : tiny ≤ lon.step ∧ tiny≤|lat.step|) (hspan : lon.count*lon.step≤fullTurn) {j i : ℕ}
    (hj : j+1 < lat.count) (hi : i+1 < lon.count) (grid : Grid α)
    (hcalm : CalmCell (nodeCorners (cellAt grid) j i)) {a b : α} (ha : 0≤a ∧ a<1) (hb : 0≤b ∧ b<1)
    {z : ℤ} (hz : z∈[(0 : ℤ),1,-1]) (hseam : z=0 ∨ 0 < i+a) :
    let value := (nodeCorners (cellAt grid) j i).blend a b
    getInterpolatedValue m grid (lon.start+(i+a)*lon.step-z*fullTurn) (lat.start+(j+b)*lat.step) true=
        value ∧ value≠notDef ∧ StaysWithin (nodeCorners (cellAt grid) j i) a b value := by
  intro value
  obtain ⟨⟨x,hreach⟩,hcell⟩ := queryCell_place hon hrising hspan hj hi ha hb hz hseam
  have hw : UnitWeights (smoothstep a) (smoothstep b) :=
    smoothstep_weights ha.1 ha.2.le hb.1 hb.2.le
  have hspacedM : Spaced m := by
    rw [Spaced,hon.iIncr,hon.jIncr,abs_of_pos hrising]
    exact hspaced
  have hcorners : cornersOf grid ⟨i,i+1,j,a,b⟩=nodeCorners (cellAt grid) j i := rfl
  have hvalue {j' i' : ℕ} (hj' : j'=j ∨ j'=j+1) (hi' : i'=i ∨ i'=i+1) :
      hasValue grid m.noPointsMeridian m.noPointsParallel i' j'=true := by
    rw [hasValue_iff,hon.rows,hon.columns]
    exact ⟨by omega,by omega,hcalm.defined hj' hi'⟩
  have hfour : nbval m grid ⟨i,i+1,j,a,b⟩=4 :=
    (nbval_eq_four_iff m grid _).mpr
      ⟨⟨hvalue (Or.inl rfl) (Or.inl rfl),hvalue (Or.inl rfl) (Or.inr rfl)⟩,
        hvalue (Or.inr rfl) (Or.inl rfl),hvalue (Or.inr rfl) (Or.inr rfl)⟩
  have hadjust : (nodeCorners (cellAt grid) j i).adjust=nodeCorners (cellAt grid) j i := by
    rw [adjust_eq,turns_of_gentle hcalm.gentle]
    simp [addTurns]
  have hleast := least_le_blend (nodeCorners (cellAt grid) j i) hw
  refine ⟨?_,(hcalm.above.trans_le hleast).ne',hleast,blend_le_greatest _ hw,?_⟩
  · rw [getInterpolatedValue_of_reachX hreach hspacedM,hcell,cellValue_of_four hfour,hcorners,hadjust]
  · rintro ⟨ha0,hb0⟩
    simp only [value,ha0,hb0,blend_node]

end Cells

section File

variable {α : Type} [Field α] [LinearOrder α] {env : Env α} {cache : FileCache} {file : NcFile α}
variable {m : DataMessage α} {L : CurrentLayout} {t : ℕ} {u v : ℤ} {uValue vValue : List ℕ → α}

/-- The geometry of a step is on display after the step has been read. -/
theorem onAxes_readncdfFile {lat lon : Axis α} (hon : OnAxes m lat lon) (gui : GuiGrids α)
    (hdata : hasAnyData (readTimeStepData env cache m).2=true) :
    OnAxes (readncdfFile env gui (readTimeStepData env cache m).2).myMessage lat lon := by
  have hread : OnAxes (emptied (readTimeStepData env cache m).2) lat lon := by
    rw [readTimeStepData_emptied]
    exact ⟨hon.1,hon.2,hon.3,hon.4,hon.5,hon.6,hon.7,hon.8,hon.9,hon.10⟩
  rw [readncdfFile,if_pos hdata]
  exact ⟨hread.1,hread.2,hread.3,hread.4,hread.5,hread.6,hread.7,hread.8,hread.9,hread.10⟩

/-- The grids on display hold the current of the file in every cell that has
one, when latitude comes before longitude. -/
theorem shown_fileCurrent (h : ReadyStep env cache file m L t u v)
    (hlayout : HasLayout file u v L L.dims) (hu : DeliversSlabs file L.dims u uValue)
    (hv : DeliversSlabs file L.dims v vValue) (hfirst : L.latFirst) (gui : GuiGrids α) :
    hasAnyData (readTimeStepData env cache m).2=true ∧
    ∃ gridu gridv,(readncdfFile env gui (readTimeStepData env cache m).2).gridu=some gridu ∧
      (readncdfFile env gui (readTimeStepData env cache m).2).gridv=some gridv ∧
      ∀ j < L.latLen,∀ i < L.lonLen,
        ((fileCurrent env file L L.dims u v uValue vValue t j i).1≠notDef →
          cellAt gridu j i=(fileCurrent env file L L.dims u v uValue vValue t j i).1) ∧
        ((fileCurrent env file L L.dims u v uValue vValue t j i).2≠notDef →
          cellAt gridv j i=(fileCurrent env file L L.dims u v uValue vValue t j i).2) := by
  obtain ⟨gridu,gridv,hgridu,hgridv,hcells⟩ := (decodes_iff_shown h hlayout hu hv
    (fileCurrent env file L L.dims u v uValue vValue t)).mpr
      ⟨requestFits_self hlayout h.time_lt,fun j _ i _ => by rw [shownIndex,if_pos hfirst]; rfl⟩
  obtain ⟨hrows,hcolumns⟩ := readTimeStepData_sizes env cache m
  rw [h.noPointsMeridian] at hrows
  rw [h.noPointsParallel] at hcolumns
  have hcurrent : hasCurrent (readTimeStepData env cache m).2=true := by
    by_contra hnone
    rw [builtGrids,if_neg hnone] at hgridu
    cases hgridu
  have hdata : hasAnyData (readTimeStepData env cache m).2=true := by
    rw [hasAnyData,hcurrent,Bool.true_or,Bool.true_or]
  have hshape {grid : Grid α} {values : Option (List α)}
      (hgrid : (if hasCurrent (readTimeStepData env cache m).2=true then
        values.map (buildGrid (readTimeStepData env cache m).2.noPointsMeridian
          (readTimeStepData env cache m).2.noPointsParallel) else none)=some grid) :
      Shaped L.latLen L.lonLen grid := by
    rw [if_pos hcurrent,hrows,hcolumns,Option.map_eq_some_iff] at hgrid
    obtain ⟨values,-,rfl⟩ := hgrid
    exact shaped_buildGrid _ _ values
  refine ⟨hdata,fillGrid L.lonLen L.latLen gridu,fillGrid L.lonLen L.latLen gridv,?_,?_,
    fun j hj i hi => ?_⟩
  · rw [readncdfFile,if_pos hdata,hrows,hcolumns,fillAllGrids_eq_map]
    exact congrArg (Option.map _) hgridu
  · rw [readncdfFile,if_pos hdata,hrows,hcolumns,fillAllGrids_eq_map]
    exact congrArg (Option.map _) hgridv
  · have hcellu : cellAt gridu j i=_ := congrArg Prod.fst (hcells j hj i hi)
    have hcellv : cellAt gridv j i=_ := congrArg Prod.snd (hcells j hj i hi)
    refine ⟨fun hdefined => ?_,fun hdefined => ?_⟩
    · rw [←hcellu] at hdefined ⊢
      exact cellAt_fillGrid (hshape hgridu) hdefined
    · rw [←hcellv] at hdefined ⊢
      exact cellAt_fillGrid (hshape hgridv) hdefined

variable [IsStrictOrderedRing α] [FloorRing α]

/-- What is on file is what the cursor reads. After a time step with latitude
before longitude has been read and handed over, the controls show, at every
point of a cell whose corners have values in the file, force and direction of
the blend of these values, whichever of three turns the cursor is on. The blend
stays within the values of the corners and is the value of the file at a node. -/
theorem cursor_shows_file (h : ReadyStep env cache file m L t u v)
    (hlayout : HasLayout file u v L L.dims) (hu : DeliversSlabs file L.dims u uValue)
    (hv : DeliversSlabs file L.dims v vValue) (hfirst : L.latFirst) {lat lon : Axis α}
    (hload : EvenlyLoaded m lat lon) (hrising : 0 < lon.step)
    (hspaced : tiny ≤ lon.step ∧ tiny≤|lat.step|) (hspan : lon.count*lon.step≤fullTurn)
    (gui : GuiGrids α) {j i : ℕ} (hj : j+1 < lat.count) (hi : i+1 < lon.count)
    (heast : CalmCell (nodeCorners
      (fun j i => (fileCurrent env file L L.dims u v uValue vValue t j i).1) j i))
    (hnorth : CalmCell (nodeCorners
      (fun j i => (fileCurrent env file L L.dims u v uValue vValue t j i).2) j i))
    {a b : α} (ha : 0≤a ∧ a<1) (hb : 0≤b ∧ b<1) {z : ℤ} (hz : z∈[(0 : ℤ),1,-1])
    (hseam : z=0 ∨ 0 < i+a) :
    let shown := readncdfFile env gui (readTimeStepData env cache m).2
    let py := lat.start+(j+b)*lat.step
    let px := lon.start+(i+a)*lon.step-z*fullTurn
    let east := nodeCorners (fun j i => (fileCurrent env file L L.dims u v uValue vValue t j i).1) j i
    let north := nodeCorners (fun j i => (fileCurrent env file L L.dims u v uValue vValue t j i).2) j i
    (∀ libm,(updateTrackingControls libm shown py px).current=
        some (currentData libm (east.blend a b) (north.blend a b)) ∧
      getCurrentData libm shown py px=currentData libm (east.blend a b) (north.blend a b)) ∧
    StaysWithin east a b (east.blend a b) ∧ StaysWithin north a b (north.blend a b) := by
  intro shown py px east north
  obtain ⟨hdata,gridu,gridv,hgridu,hgridv,hcells⟩ := shown_fileCurrent h hlayout hu hv hfirst gui
  have hon := onAxes_readncdfFile hload.onAxes gui hdata
  have hrows : lat.count=L.latLen := hload.onAxes.rows.symm.trans h.noPointsMeridian
  have hcolumns : lon.count=L.lonLen := hload.onAxes.columns.symm.trans h.noPointsParallel
  have hcornersu : nodeCorners (cellAt gridu) j i=east := by
    have hcell {j' i' : ℕ} (hj' : j'=j ∨ j'=j+1) (hi' : i'=i ∨ i'=i+1) :=
      (hcells j' (by omega) i' (by omega)).1 (heast.defined hj' hi')
    simp only [nodeCorners,east,hcell (Or.inl rfl) (Or.inl rfl),hcell (Or.inl rfl) (Or.inr rfl),
      hcell (Or.inr rfl) (Or.inl rfl),hcell (Or.inr rfl) (Or.inr rfl)]
  have hcornersv : nodeCorners (cellAt gridv) j i=north := by
    have hcell {j' i' : ℕ} (hj' : j'=j ∨ j'=j+1) (hi' : i'=i ∨ i'=i+1) :=
      (hcells j' (by omega) i' (by omega)).2 (hnorth.defined hj' hi')
    simp only [nodeCorners,north,hcell (Or.inl rfl) (Or.inl rfl),hcell (Or.inl rfl) (Or.inr rfl),
      hcell (Or.inr rfl) (Or.inl rfl),hcell (Or.inr rfl) (Or.inr rfl)]
  obtain ⟨hvalueu,hdefinedu,hwithinu⟩ := getInterpolatedValue_place hon hrising hspaced hspan hj hi
    gridu (by rw [hcornersu]; exact heast) ha hb hz hseam
  obtain ⟨hvaluev,hdefinedv,hwithinv⟩ := getInterpolatedValue_place hon hrising hspaced hspan hj hi
    gridv (by rw [hcornersv]; exact hnorth) ha hb hz hseam
  rw [hcornersu] at hvalueu hdefinedu hwithinu
  rw [hcornersv] at hvaluev hdefinedv hwithinv
  refine ⟨fun libm => ⟨?_,?_⟩,hwithinu,hwithinv⟩
  · change printCurrentData libm shown py px=_
    rw [printCurrentData,hgridu,hgridv]
    dsimp only
    rw [hvalueu,hvaluev,if_pos ⟨hdefinedu,hdefinedv⟩]
  · rw [getCurrentData_of_grids libm hgridu hgridv,hvalueu,hvaluev]

end File

section Sample

/-- Latitude before longitude. -/
def latitudeMajor : CurrentLayout :=
  {longitudeMajor with
    dims := [0,1,2]
    nodup := by decide
    time_mem := by decide
    lat_mem := by decide
    lon_mem := by decide}

/-- Two nodes or more, one degree apart. -/
def degreesFrom (start : ℚ) (n : ℕ) : Axis ℚ :=
  {unitAxis with
    start := start
    count := n+2
    two_le := Nat.le_add_left 2 n}

/-- Two latitudes from ten degrees on. -/
def tenAxis : Axis ℚ := degreesFrom 10 0

/-- Three longitudes from twenty degrees on. -/
def twentyAxis : Axis ℚ := degreesFrom 20 1

/-- A file whose components have latitude before longitude has a layout. -/
theorem latitudeMajor_layout : HasLayout (orderedFile [0,1,2]) 3 4 latitudeMajor [0,1,2] :=
  ⟨rfl,rfl,List.Perm.refl _,by decide,⟨by decide,by decide,by decide⟩,by decide,by decide,by decide,
    by decide⟩

/-- Its first step is ready to be read. -/
theorem latitudeMajor_ready :
    ReadyStep (orderedEnv [0,1,2]) (orderedCache [0,1,2]) (orderedFile [0,1,2])
      (orderedStep [0,1,2]) latitudeMajor 0 3 4 :=
  ⟨rfl,fun _ => rfl,by decide +kernel,by decide,by decide,by decide +kernel,by decide +kernel,
    by decide +kernel,by decide +kernel,by decide +kernel,by decide +kernel,by decide +kernel,
    by decide +kernel⟩

/-- The library delivers the digits of the index for each of its values. -/
theorem delivers_orderedFile (dims : List ℕ) {varid : ℤ} (h : 2<varid) :
    DeliversSlabs (orderedFile dims) dims varid digits := by
  have htype : (orderedFile dims).varType varid=.other := by
    change (if varid≤2 then NcType.double else NcType.other)=_
    rw [if_neg (by omega)]
  refine ⟨fun hdouble => ?_,fun _ => ⟨fun _ _ hrange => if_pos hrange,fun start count hrange => ?_⟩⟩
  · rw [htype] at hdouble
    cases hdouble
  · have hlost : ¬InRange gridFile dims start count := hrange
    change (if InRange gridFile dims start count then _ else _ : ReadOutcome ℚ).retval≠0
    rw [if_neg hlost]
    decide

/-- Its coordinates are ten degrees of latitude and twenty of longitude, evenly spaced. -/
theorem evenlyLoaded_latitudeMajor : EvenlyLoaded (orderedStep [0,1,2]) tenAxis twentyAxis := by
  have hlats : tenAxis.values=[10,11] := by decide +kernel
  have hlons : twentyAxis.values=[20,21,22] := by decide +kernel
  refine ⟨orderedEnv [0,1,2],"d\\a.nc",discoverVars (orderedFile [0,1,2]),
    NcdfTimeUnits.fileTimeInfo (orderedEnv [0,1,2]) (orderedFile [0,1,2])
      (discoverVars (orderedFile [0,1,2])).time [0],
    [0],0,fun _ => rfl,?_⟩
  rw [hlats,hlons]
  rfl

/-- East of the file between the first rows and columns: 0, 1, 10 and 11. -/
theorem calmCell_digits : CalmCell (nodeCorners (fun j i =>
      (fileCurrent (orderedEnv [0,1,2]) (orderedFile [0,1,2]) latitudeMajor [0,1,2] 3 4 digits digits 0 j
        i).1) 0 0) ∧
    CalmCell (nodeCorners (fun j i =>
      (fileCurrent (orderedEnv [0,1,2]) (orderedFile [0,1,2]) latitudeMajor [0,1,2] 3 4 digits digits 0 j
        i).2) 0 0) := by
  refine ⟨⟨?_,?_,?_,?_,?_⟩,?_,?_,?_,?_,?_⟩ <;> decide +kernel

/-- A quarter of a row up and half a column along, one turn to the west. -/
theorem cursor_shows_file_west :
    let shown := readncdfFile (orderedEnv [0,1,2]) {}
      (readTimeStepData (orderedEnv [0,1,2]) (orderedCache [0,1,2]) (orderedStep [0,1,2])).2
    let py := tenAxis.start+((0 : ℕ)+1/4)*tenAxis.step
    let px := twentyAxis.start+((0 : ℕ)+1/2)*twentyAxis.step-(1 : ℤ)*fullTurn
    let east := nodeCorners (fun j i => (fileCurrent (orderedEnv [0,1,2]) (orderedFile [0,1,2])
      latitudeMajor [0,1,2] 3 4 digits digits 0 j i).1) 0 0
    let north := nodeCorners (fun j i => (fileCurrent (orderedEnv [0,1,2]) (orderedFile [0,1,2])
      latitudeMajor [0,1,2] 3 4 digits digits 0 j i).2) 0 0
    (∀ libm,(updateTrackingControls libm shown py px).current=
        some (currentData libm (east.blend (1/2) (1/4)) (north.blend (1/2) (1/4))) ∧
      getCurrentData libm shown py px=
        currentData libm (east.blend (1/2) (1/4)) (north.blend (1/2) (1/4))) ∧
    StaysWithin east (1/2) (1/4) (east.blend (1/2) (1/4)) ∧
      StaysWithin north (1/2) (1/4) (north.blend (1/2) (1/4)) :=
  cursor_shows_file latitudeMajor_ready latitudeMajor_layout (delivers_orderedFile [0,1,2] (by decide))
    (delivers_orderedFile [0,1,2] (by decide)) (by decide) evenlyLoaded_latitudeMajor (by decide)
    (by decide +kernel) (by decide +kernel) {} (by decide) (by decide) calmCell_digits.1 calmCell_digits.2
    (by norm_num) (by norm_num) (by decide) (Or.inr (by norm_num))

end Sample

end NcdfPlugin.NcdfReadout
