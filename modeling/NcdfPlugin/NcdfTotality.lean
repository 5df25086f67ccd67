import NcdfPlugin.NcdfBlend

/-!
# Answers on the whole map

A point counts as on the map up to and including the last row and, on a
global map, at every longitude. The cell of a point in the last row has no
second row, the upper end of a wrapped range lies past the last column, and
with falling longitudes only the turn above the first column is reached.
-/

namespace NcdfPlugin.NcdfTotality

open ExactArithmetic NcdfMessage NcdfReader NcdfEvenMap NcdfInterpolation NcdfBlend

variable {α : Type} [Field α] [LinearOrder α]

/-- Longitudes of the map whose normalized column is a column of the grid.
Rising: all but the end of a full turn and its copies to the right. Falling:
those less than one step above the first column, up to whole turns. -/
def ColumnReached (lon : Axis α) (px : α) : Prop :=
  if 0 < lon.step then
    fullTurn ≤ lon.count*lon.step → ∀ n : ℕ,px≠lon.start+lon.count*lon.step+n*fullTurn
  else ∃ k : ℤ,lon.start≤px+k*fullTurn ∧ px+k*fullTurn<lon.start-lon.step

/-- No cell of the grid is missing. -/
def NoGaps (lat lon : Axis α) (grid : Grid α) : Prop :=
  ∀ j < lat.count,∀ i < lon.count,cellAt grid j i≠notDef

instance (lat lon : Axis α) (grid : Grid α) : Decidable (NoGaps lat lon grid) :=
  inferInstanceAs (Decidable (∀ j < lat.count,∀ i < lon.count,cellAt grid j i≠notDef))

/-- Every cell of the grid is above the marker. -/
def AboveMarker (lat lon : Axis α) (grid : Grid α) : Prop :=
  ∀ j < lat.count,∀ i < lon.count,notDef < cellAt grid j i

/-- The weighted corners and turns of a cell do not happen to sum to the
marker. -/
def NotMarkerSum (c : Corners α) (dx dy : α) : Prop :=
  c.blend dx dy+fullTurn*turnWeight (turns c) dx dy≠notDef

variable [IsStrictOrderedRing α] {m : DataMessage α} {lat lon : Axis α}

section Geometry

/-- An axis has two nodes at least, as a number of its coordinates. -/
theorem two_le_count (a : Axis α) : (2 : α) ≤ a.count := by exact_mod_cast a.two_le

/-- The distance of the ends and one step make count steps. -/
theorem coversGlobe_iff (hon : OnAxes m lat lon) :
    coversGlobe m=true ↔ fullTurn ≤ lon.count*|lon.step| := by
  have hcount := two_le_count lon
  have hrange : lon.last-lon.start=(lon.count-1)*lon.step := by
    rw [lon.last_eq]
    ring
  have hsum : |lon.last-lon.start|+|lon.step|=lon.count*|lon.step| := by
    rw [hrange,abs_mul,abs_of_nonneg (by linarith)]
    ring
  rw [coversGlobe,decide_eq_true_eq,hon.lastLong,hon.firstLong,hon.iIncr,hsum]

/-- On the map the row coordinate is at most that of the last row. -/
theorem rowCoord_le (hon : OnAxes m lat lon) {py : α} (hy : isYInMap m py=true) :
    rowCoord m py≤(lat.count : α)-1 := by
  have hlast := lat.last_eq
  rw [rowCoord,hon.firstLat,hon.jIncr]
  rcases lt_or_gt_of_ne lat.step_ne with hneg | hpos
  · have hle := ((isYInMap_iff_neg (by rwa [hon.jIncr]) py).mp hy).2
    rw [hon.lastLat,hlast] at hle
    rw [div_le_iff_of_neg hneg]
    linarith
  · have hle := ((isYInMap_iff_nonneg (by rw [hon.jIncr]; exact hpos.le) py).mp hy).2
    rw [hon.lastLat,hlast] at hle
    rw [div_le_iff₀ hpos]
    linarith

omit [LinearOrder α] [IsStrictOrderedRing α] in
/-- The row coordinate of the last row belongs to its latitude alone. -/
theorem rowCoord_eq_iff (hon : OnAxes m lat lon) (py : α) :
    rowCoord m py=(lat.count : α)-1 ↔ py=lat.last := by
  rw [rowCoord,hon.firstLat,hon.jIncr,div_eq_iff lat.step_ne,lat.last_eq,sub_eq_iff_eq_add']

end Geometry

variable [FloorRing α]

/-- A point on the map has a next row exactly when it is not in the last. -/
theorem next_row_iff (hon : OnAxes m lat lon) {py : α} (hy : isYInMap m py=true) :
    truncate (rowCoord m py)+1 < lat.count ↔ py≠lat.last := by
  have hle := rowCoord_le hon hy
  have hcast : (((lat.count : ℤ)-1 : ℤ) : α)=(lat.count : α)-1 := by push_cast; rfl
  have hstep : truncate (rowCoord m py)+1 < lat.count ↔
      truncate (rowCoord m py)<(lat.count : ℤ)-1 := by omega
  rw [hstep,truncate_lt_iff (rowCoord_nonneg hy),hcast,←not_iff_not,not_lt,not_not,
    ←rowCoord_eq_iff hon]
  exact ⟨fun hge => le_antisymm hle hge,fun heq => heq.ge⟩

section Columns

omit [LinearOrder α] [IsStrictOrderedRing α] [FloorRing α] in
/-- The normalization bound lies one step past the last column. -/
theorem dataEnd_eq (hon : OnAxes m lat lon) :
    m.lastGridPointLong+m.iDirectionIncr=lon.start+lon.count*lon.step := by
  rw [hon.lastLong,hon.iIncr,lon.last_eq]
  ring

omit [FloorRing α] in
/-- Rising columns that do not cover the globe end at the last one. -/
theorem mem_of_not_global (hon : OnAxes m lat lon) (hpos : 0 < lon.step)
    (hglobal : coversGlobe m≠true) {px : α} (hx : isXInMap m px=true) :
    lon.start≤px ∧ px ≤ lon.last := by
  have hcount := two_le_count lon
  have hlast : lon.start < lon.last := by
    rw [lon.last_eq]
    nlinarith
  have hseam : ¬(halfTurn < lon.start ∧ lon.last<halfTurn) := by
    rintro ⟨h1,h2⟩
    linarith
  rw [isXInMap,if_neg hglobal] at hx
  simpa only [hon.firstLong,hon.lastLong,hon.iIncr,if_neg hseam,if_pos hpos,decide_eq_true_eq]
    using hx

/-- A rising column coordinate is below the number of columns exactly when
the normalized longitude is not the end of the range. -/
theorem rising_truncate_lt_iff (hon : OnAxes m lat lon) (hpos : 0 < lon.step) (px : α) :
    truncate (columnCoord m (normalizeX m px)) < lon.count ↔
      normalizeX m px < lon.start+lon.count*lon.step := by
  have hincr : 0 < m.iDirectionIncr := by rwa [hon.iIncr]
  have hnonneg := columnCoord_nonneg hincr (first_le_normalizeX m px)
  rw [truncate_lt_iff hnonneg,columnCoord,div_lt_iff₀ hincr,hon.firstLong,hon.iIncr,
    Int.cast_natCast]
  exact sub_lt_iff_lt_add'

/-- Rising longitudes: the left column is a column of the grid unless the
longitude ends a full turn. -/
theorem rising_column_iff (hon : OnAxes m lat lon) (hpos : 0 < lon.step) {px : α}
    (hx : isXInMap m px=true) :
    truncate (columnCoord m (normalizeX m px)) < lon.count ↔
      (fullTurn ≤ lon.count*lon.step →
        ∀ n : ℕ,px≠lon.start+lon.count*lon.step+n*fullTurn) := by
  have hnormal : normalizeX m px=
      reduce fullTurn lon.start (lon.start+lon.count*lon.step) px := by
    rw [normalizeX,dataEnd_eq hon,hon.firstLong]
  rw [rising_truncate_lt_iff hon hpos]
  by_cases hglobal : fullTurn ≤ lon.count*lon.step
  · have hlong : lon.start+fullTurn ≤ lon.start+lon.count*lon.step := by linarith
    have hle := reduce_le_of_long fullTurn_pos hlong px
    rw [←hnormal] at hle
    have hend := reduce_eq_high_iff fullTurn_pos hlong px
    rw [←hnormal] at hend
    rw [hle.lt_iff_ne,ne_eq,hend,not_exists]
    exact ⟨fun h _ => h,fun h => h hglobal⟩
  · have hcovers : coversGlobe m≠true := by
      rwa [ne_eq,coversGlobe_iff hon,abs_of_pos hpos]
    obtain ⟨hlow,hhigh⟩ := mem_of_not_global hon hpos hcovers hx
    have hlast := lon.last_eq
    have hbelow : px < lon.start+lon.count*lon.step := by linarith
    have hsame : normalizeX m px=px := by
      rw [hnormal]
      exact reduce_of_mem fullTurn_pos hlow hbelow.le
    rw [hsame]
    exact ⟨fun _ h => absurd h hglobal,fun _ => hbelow⟩

/-- Falling longitudes: normalized values fill the turn above the first
column. -/
theorem falling_normalizeX_mem (hon : OnAxes m lat lon) (hneg : lon.step<0) (px : α) :
    lon.start ≤ normalizeX m px ∧ normalizeX m px < lon.start+fullTurn := by
  have hcount := two_le_count lon
  have hend : lon.start+lon.count*lon.step < lon.start+fullTurn := by
    have hfull := fullTurn_pos (α := α)
    nlinarith
  rw [normalizeX,dataEnd_eq hon,hon.firstLong]
  exact ⟨low_le_reduce fullTurn_pos _ _ _,reduce_lt_of_short fullTurn_pos hend px⟩

/-- Falling longitudes: the left column is column zero below one step above
the first longitude, and negative from there on. -/
theorem falling_truncate_iff (hon : OnAxes m lat lon) (hneg : lon.step<0) (px : α) :
    0 ≤ truncate (columnCoord m (normalizeX m px)) ∧
        truncate (columnCoord m (normalizeX m px)) < lon.count ↔
      normalizeX m px < lon.start-lon.step := by
  have hcount := lon.two_le
  have hlow := (falling_normalizeX_mem hon hneg px).1
  have hcoord : columnCoord m (normalizeX m px)=(normalizeX m px-lon.start)/lon.step := by
    rw [columnCoord,hon.firstLong,hon.iIncr]
  rcases lt_or_ge (normalizeX m px) (lon.start-lon.step) with hlt | hge
  · have hgt : -1 < columnCoord m (normalizeX m px) := by
      rw [hcoord,lt_div_iff_of_neg hneg]
      linarith
    have hle : columnCoord m (normalizeX m px)≤0 := by
      rw [hcoord]
      exact div_nonpos_of_nonneg_of_nonpos (sub_nonneg.mpr hlow) hneg.le
    rw [truncate_of_small hgt hle]
    exact iff_of_true ⟨le_rfl,by omega⟩ hlt
  · have hle : columnCoord m (normalizeX m px)≤ -1 := by
      rw [hcoord,div_le_iff_of_neg hneg]
      linarith
    have htrunc := truncate_of_le_neg_one hle
    exact iff_of_false (fun h => not_lt.mpr h.1 htrunc) (not_lt.mpr hge)

/-- Falling longitudes: the normalized value is the copy of the longitude in
the turn above the first column. -/
theorem falling_reached_iff (hon : OnAxes m lat lon) (hneg : lon.step<0) (px : α) :
    normalizeX m px < lon.start-lon.step ↔
      ∃ k : ℤ,lon.start≤px+k*fullTurn ∧ px+k*fullTurn<lon.start-lon.step := by
  obtain ⟨hlow,hhigh⟩ := falling_normalizeX_mem hon hneg px
  obtain ⟨z,hz⟩ := normalizeX_turns m px
  constructor
  · intro h
    exact ⟨z,by rwa [←hz],by rwa [←hz]⟩
  · rintro ⟨k,hk1,hk2⟩
    rcases le_or_gt fullTurn (-lon.step) with hwide | hnarrow
    · linarith
    · have hturns : normalizeX m px=px+k*fullTurn+((z-k : ℤ) : α)*fullTurn := by
        rw [hz]
        push_cast
        ring
      rw [eq_of_turns fullTurn_pos hturns (by linarith) (by linarith)]
      exact hk2

/-- The left column of a point on the map is a column of the grid exactly
at the reached longitudes. -/
theorem column_iff (hon : OnAxes m lat lon) {px : α} (hx : isXInMap m px=true) :
    0 ≤ truncate (columnCoord m (normalizeX m px)) ∧
        truncate (columnCoord m (normalizeX m px)) < lon.count ↔ ColumnReached lon px := by
  unfold ColumnReached
  rcases lt_or_gt_of_ne lon.step_ne with hneg | hpos
  · rw [if_neg hneg.not_gt,falling_truncate_iff hon hneg,falling_reached_iff hon hneg]
  · have hincr : 0 < m.iDirectionIncr := by rwa [hon.iIncr]
    have hnonneg := truncate_nonneg (columnCoord_nonneg hincr (first_le_normalizeX m px))
    rw [if_pos hpos,←rising_column_iff hon hpos hx]
    exact ⟨fun h => h.2,fun h => ⟨hnonneg,h⟩⟩

omit [IsStrictOrderedRing α] [FloorRing α] in
/-- The right column of a column of the grid is one too. -/
theorem rightColumn_mem (hon : OnAxes m lat lon) {i0 : ℤ} (hi : 0 ≤ i0 ∧ i0 < lon.count) :
    0 ≤ rightColumn m i0 ∧ rightColumn m i0 < lon.count := by
  have hcount := lon.two_le
  rw [rightColumn,hon.columns]
  split
  · split <;> omega
  · omega

end Columns

omit [IsStrictOrderedRing α] [FloorRing α] in
/-- A cell of a grid without gaps has all four values exactly when its left
column and its second row are in the grid; otherwise it has at most two. -/
theorem nbval_of_noGaps (hon : OnAxes m lat lon) {grid : Grid α} (hgrid : NoGaps lat lon grid)
    {c : Cell α} (hj : 0 ≤ c.j0) (hright : c.i1=rightColumn m c.i0) :
    if c.j0+1 < lat.count ∧ 0 ≤ c.i0 ∧ c.i0 < lon.count then nbval m grid c=4
    else nbval m grid c<3 := by
  split
  next hin =>
    have hi1 := rightColumn_mem hon hin.2
    rw [←hright] at hi1
    have hvalue {j i : ℤ} (hj : 0≤j ∧ j < lat.count) (hi : 0 ≤ i ∧ i < lon.count) :
        hasValue grid m.noPointsMeridian m.noPointsParallel i j=true := by
      rw [hasValue_iff,hon.rows,hon.columns]
      exact ⟨hj,hi,hgrid _ (by omega) _ (by omega)⟩
    exact (nbval_eq_four_iff _ _ _).mpr
      ⟨⟨hvalue (by omega) hin.2,hvalue (by omega) hi1⟩,
        hvalue (by omega) hin.2,hvalue (by omega) hi1⟩
  next hout =>
    by_cases hrow : c.j0+1 < lat.count
    · refine nbval_lt_of_column grid ?_
      rw [hon.columns]
      by_contra hcolumn
      exact hout ⟨hrow,by omega,by omega⟩
    · refine nbval_lt_of_row grid ?_
      rw [hon.rows]
      exact not_lt.mp hrow

omit [IsStrictOrderedRing α] [FloorRing α] in
/-- The corners of a cell in the grid are above the marker when all cells
are. -/
theorem notDef_lt_least (hon : OnAxes m lat lon) {grid : Grid α}
    (hgrid : AboveMarker lat lon grid) {c : Cell α} (hj : 0 ≤ c.j0)
    (hright : c.i1=rightColumn m c.i0)
    (hin : c.j0+1 < lat.count ∧ 0 ≤ c.i0 ∧ c.i0 < lon.count) :
    notDef < least (cornersOf grid c) := by
  have hi1 := rightColumn_mem hon hin.2
  rw [←hright] at hi1
  have hcell {j i : ℤ} (hj : 0≤j ∧ j < lat.count) (hi : 0 ≤ i ∧ i < lon.count) :
      notDef < cellAt grid j.toNat i.toNat := hgrid _ (by omega) _ (by omega)
  exact lt_min (lt_min (hcell (by omega) hin.2) (hcell (by omega) hi1))
    (lt_min (hcell (by omega) hin.2) (hcell (by omega) hi1))

/-- A point on the map is read from a cell of the grid exactly when it is not
in the last row and its longitude is reached. -/
theorem queryCell_inside_iff (hon : OnAxes m lat lon) {px py : α}
    (hin : isPointInMap m px py=true) :
    ((queryCell m px py).j0+1 < lat.count ∧
        0≤(queryCell m px py).i0 ∧ (queryCell m px py).i0 < lon.count) ↔
      py≠lat.last ∧ ColumnReached lon px := by
  have hcell : queryCell m px py=cellOf m (normalizeX m px) py := by
    simp [queryCell,reachX_of_inMap hin]
  rw [isPointInMap,Bool.and_eq_true] at hin
  rw [hcell]
  exact and_congr (next_row_iff hon hin.2) (column_iff hon hin.1)

omit [FloorRing α] in
/-- Corners above the marker keep the weighted sum above it. -/
theorem notMarkerSum_of_lt_least {c : Corners α} {dx dy : α}
    (hw : UnitWeights (smoothstep dx) (smoothstep dy)) (h : notDef < least c) :
    NotMarkerSum c dx dy := by
  have hblend := least_le_blend c hw
  have hturns := mul_nonneg (fullTurn_pos (α := α)).le (turnWeight_nonneg (turns c) hw)
  exact ne_of_gt (by linarith)

/-- A query on the map of a grid without gaps is answered exactly when its
latitude is not that of the last row, its longitude is reached, and the
weighted corners do not happen to sum to the marker. With rising longitudes
and all cells above the marker the last condition always holds. -/
theorem answered_iff (m : DataMessage α) (lat lon : Axis α) (hload : EvenlyLoaded m lat lon)
    (hspaced : tiny≤|lon.step| ∧ tiny≤|lat.step|) (grid : Grid α)
    (hgrid : NoGaps lat lon grid) (px py : α) (hin : isPointInMap m px py=true) :
    (getInterpolatedValue m grid px py true≠notDef ↔
      py≠lat.last ∧ ColumnReached lon px ∧
        NotMarkerSum (cornersOf grid (queryCell m px py)) (queryCell m px py).dx
          (queryCell m px py).dy) ∧
    (0 < lon.step → AboveMarker lat lon grid →
      (getInterpolatedValue m grid px py true≠notDef ↔ py≠lat.last ∧ ColumnReached lon px)) := by
  have hon := hload.onAxes
  have hy : isYInMap m py=true := by
    rw [isPointInMap,Bool.and_eq_true] at hin
    exact hin.2
  have hreach := reachX_of_inMap hin
  have hspacedM : Spaced m := by rwa [Spaced,hon.iIncr,hon.jIncr]
  have hinside := queryCell_inside_iff hon hin
  have hj : 0≤(queryCell m px py).j0 := truncate_nonneg (rowCoord_nonneg hy)
  have hcount := nbval_of_noGaps hon hgrid hj rfl
  rw [getInterpolatedValue_of_reachX hreach hspacedM]
  by_cases hread : py≠lat.last ∧ ColumnReached lon px
  · rw [if_pos (hinside.mpr hread)] at hcount
    have hsum : cellValue m grid (queryCell m px py) true≠notDef ↔
        NotMarkerSum (cornersOf grid (queryCell m px py)) (queryCell m px py).dx
          (queryCell m px py).dy := by
      rw [cellValue_of_four hcount,adjust_eq,blend_addTurns,NotMarkerSum]
    refine ⟨hsum.trans ⟨fun h => ⟨hread.1,hread.2,h⟩,fun h => h.2.2⟩,fun hpos habove => ?_⟩
    have hleast := notDef_lt_least hon habove hj rfl (hinside.mpr hread)
    have hw := queryCell_weights px (by rwa [hon.iIncr]) hy
    exact iff_of_true (hsum.mpr (notMarkerSum_of_lt_least hw hleast)) hread
  · rw [if_neg (mt hinside.mp hread)] at hcount
    have hmarker := cellValue_of_few hcount true
    exact ⟨iff_of_false (fun h => h hmarker) fun h => hread ⟨h.1,h.2.1⟩,
      fun _ _ => iff_of_false (fun h => h hmarker) hread⟩

section Sample

/-- A unit cell of ones. -/
def onesRows : Grid ℚ := [[1,1],[1,1]]

/-- In the middle of a map of two by two nodes, all ones, a query is answered. -/
theorem answered_iff_middle :
    NoGaps unitAxis unitAxis onesRows ∧
    isPointInMap (sampleMap unitAxis unitAxis) (1/2) (1/2)=true ∧
    getInterpolatedValue (sampleMap unitAxis unitAxis) onesRows (1/2) (1/2) true≠notDef := by
  refine ⟨by decide +kernel,by decide +kernel,?_⟩
  refine (answered_iff (sampleMap unitAxis unitAxis) unitAxis unitAxis
    (evenlyLoaded_sampleMap _ _) (by decide +kernel) onesRows (by decide +kernel) (1/2) (1/2)
    (by decide +kernel)).1.mpr ⟨by decide +kernel,?_,?_⟩
  · rw [ColumnReached,if_pos (by decide +kernel)]
    exact fun hglobal => absurd hglobal (by decide +kernel)
  · unfold NotMarkerSum
    decide +kernel

/-- In the last row of the same map, which lies in the map, a query is not answered. -/
theorem not_answered_last_row :
    EvenlyLoaded (sampleMap unitAxis unitAxis) unitAxis unitAxis ∧
    Spaced (sampleMap unitAxis unitAxis) ∧ NoGaps unitAxis unitAxis onesRows ∧
    isPointInMap (sampleMap unitAxis unitAxis) (1/2) 1=true ∧
    getInterpolatedValue (sampleMap unitAxis unitAxis) onesRows (1/2) 1 true=notDef :=
  ⟨evenlyLoaded_sampleMap _ _,by decide +kernel,by decide +kernel,by decide +kernel,
    by decide +kernel⟩

end Sample

end NcdfPlugin.NcdfTotality
