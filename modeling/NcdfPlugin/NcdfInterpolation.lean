import NcdfPlugin.NcdfReader

/-!
# Values between the grid nodes

`getInterpolatedValue` brings the longitude of a query point into the map,
selects the cell around it and blends its four corners. Columns wrap on a
map that covers the globe; rows do not. Before the blend, corners more than
ninety apart are taken for angles, and the smaller one gains a full turn.
-/

namespace NcdfPlugin.NcdfInterpolation

open ExactArithmetic NcdfMessage NcdfReader

/-- Degrees of a full turn. -/
def fullTurn {α : Type} [Field α] : α := 360

/-- Degrees of half a turn. -/
def halfTurn {α : Type} [Field α] : α := 180

/-- Degrees of a quarter turn. -/
def quarterTurn {α : Type} [Field α] : α := 90

/-- Ten to the tenth. -/
def tenBillion {α : Type} [Field α] : α := 10000000000

/-- Increments and value ranges below this size count as zero. -/
def tiny {α : Type} [Field α] : α := 1/tenBillion

/-- Values at the corners of a cell, named by column and then row offset. -/
structure Corners (α : Type) where
  /-- Column i0 of row j0. -/
  x00 : α
  /-- Column i1 of row j0. -/
  x10 : α
  /-- Column i0 of row j0+1. -/
  x01 : α
  /-- Column i1 of row j0+1. -/
  x11 : α

/-- Indices of the selected cell and distances to its corner 00. -/
structure Cell (α : Type) where
  /-- Left column. -/
  i0 : ℤ
  /-- Right column, after the wrap. -/
  i1 : ℤ
  /-- First row. -/
  j0 : ℤ
  /-- Fraction of a column past i0. -/
  dx : α
  /-- Fraction of a row past j0. -/
  dy : α

variable {α : Type} [Field α] [LinearOrder α]

/-- Whether range and increment cover a full turn. -/
def coversGlobe (m : DataMessage α) : Bool :=
  decide (fullTurn≤|m.lastGridPointLong-m.firstGridPointLong|+|m.iDirectionIncr|)

/-- `isXInMap`. -/
def isXInMap (m : DataMessage α) (x : α) : Bool :=
  if coversGlobe m=true then true
  else
    let lastlon :=
      if halfTurn < m.firstGridPointLong ∧ m.lastGridPointLong<halfTurn then
        m.lastGridPointLong+fullTurn
      else m.lastGridPointLong
    if 0 < m.iDirectionIncr then decide (m.firstGridPointLong≤x ∧ x≤lastlon)
    else decide (lastlon≤x ∧ x ≤ m.firstGridPointLong)

/-- `isYInMap`. -/
def isYInMap (m : DataMessage α) (y : α) : Bool :=
  if m.jDirectionIncr<0 then decide (y ≤ m.firstGridPointLat ∧ m.lastGridPointLat≤y)
  else decide (m.firstGridPointLat≤y ∧ y ≤ m.lastGridPointLat)

/-- `isPointInMap`. -/
def isPointInMap (m : DataMessage α) (x y : α) : Bool := isXInMap m x && isYInMap m y

/-- The longitude among px, one turn right and one turn left of it that is
on the map, tried in this order. -/
def reachX (m : DataMessage α) (px py : α) : Option α :=
  if isPointInMap m px py=true then some px
  else if isPointInMap m (px+fullTurn) py=true then some (px+fullTurn)
  else if isPointInMap m (px+fullTurn-(fullTurn+fullTurn)) py=true then
    some (px+fullTurn-(fullTurn+fullTurn))
  else none

/-- `hasValue`. A negative index becomes an unsigned one beyond any grid. -/
def hasValue (grid : Grid α) (nolat nolon : ℕ) (indexlon indexlat : ℤ) : Bool :=
  decide (0 ≤ indexlat ∧ indexlat<nolat) && decide (0 ≤ indexlon ∧ indexlon<nolon) &&
    decide (cellAt grid indexlat.toNat indexlon.toNat≠notDef)

/-- Corner values of a cell. -/
def cornersOf (grid : Grid α) (c : Cell α) : Corners α where
  x00 := cellAt grid c.j0.toNat c.i0.toNat
  x10 := cellAt grid c.j0.toNat c.i1.toNat
  x01 := cellAt grid (c.j0+1).toNat c.i0.toNat
  x11 := cellAt grid (c.j0+1).toNat c.i1.toNat

/-- How many corners of the cell have a value. -/
def nbval (m : DataMessage α) (grid : Grid α) (c : Cell α) : ℕ :=
  let has := hasValue grid m.noPointsMeridian m.noPointsParallel
  (has c.i0 c.j0).toNat+(has c.i1 c.j0).toNat+(has c.i0 (c.j0+1)).toNat+(has c.i1 (c.j0+1)).toNat

/-- Two neighbouring corners; the one more than ninety below the other gains
a full turn. -/
def adjustPair (a b : α) : α×α :=
  if quarterTurn<a-b then (a,b+fullTurn)
  else if quarterTurn<b-a then (a+fullTurn,b)
  else (a,b)

/-- The four adjustments in the order of the code: right column, left column,
first row, second row. Each tests what the earlier ones left. -/
def Corners.adjust (c : Corners α) : Corners α :=
  let right := adjustPair c.x10 c.x11
  let left := adjustPair c.x00 c.x01
  let first := adjustPair left.1 right.1
  let second := adjustPair left.2 right.2
  ⟨first.1,first.2,second.1,second.2⟩

/-- Bilinear blend with smoothed fractions. -/
def Corners.blend (c : Corners α) (dx dy : α) : α :=
  bilinear (smoothstep dx) (smoothstep dy) c.x00 c.x10 c.x01 c.x11

/-- Corner nearest to the point. -/
def Corners.nearest (c : Corners α) (dx dy : α) : α :=
  if dx<half then if dy<half then c.x00 else c.x01
  else if dy<half then c.x10 else c.x11

/-- Result on the selected cell. Three values are not enough for a blend:
the code that handled them is behind an unconditional return. -/
def cellValue (m : DataMessage α) (grid : Grid α) (c : Cell α) (numerical : Bool) : α :=
  if nbval m grid c<3 then notDef
  else if numerical=false then (cornersOf grid c).nearest c.dx c.dy
  else if nbval m grid c=4 then (cornersOf grid c).adjust.blend c.dx c.dy
  else notDef

/-- Both increments are large enough to divide by. -/
def Spaced (m : DataMessage α) : Prop := tiny≤|m.iDirectionIncr| ∧ tiny≤|m.jDirectionIncr|

instance (m : DataMessage α) : Decidable (Spaced m) := inferInstanceAs (Decidable (_ ∧ _))

variable [FloorRing α]

/-- The two loops that bring a longitude into the range of the data. -/
def normalizeX (m : DataMessage α) (px : α) : α :=
  reduce fullTurn m.firstGridPointLong (m.lastGridPointLong+m.iDirectionIncr) px

/-- Column coordinate of a normalized longitude, `pi`. -/
def columnCoord (m : DataMessage α) (px : α) : α := (px-m.firstGridPointLong)/m.iDirectionIncr

/-- Row coordinate of a latitude, `pj`. -/
def rowCoord (m : DataMessage α) (py : α) : α := (py-m.firstGridPointLat)/m.jDirectionIncr

/-- Right column: past the last one it wraps on a global map and otherwise
stays on the left column. -/
def rightColumn (m : DataMessage α) (i0 : ℤ) : ℤ :=
  if m.noPointsParallel ≤ i0+1 then if coversGlobe m=true then 0 else i0 else i0+1

/-- Cell around a point with normalized longitude. -/
def cellOf (m : DataMessage α) (px py : α) : Cell α :=
  let i0 := truncate (columnCoord m px)
  let j0 := truncate (rowCoord m py)
  ⟨i0,rightColumn m i0,j0,columnCoord m px-i0,rowCoord m py-j0⟩

/-- `getInterpolatedValue`. -/
def getInterpolatedValue (m : DataMessage α) (grid : Grid α) (px py : α) (numerical : Bool) : α :=
  match reachX m px py with
  | none => notDef
  | some x =>
    if Spaced m then cellValue m grid (cellOf m (normalizeX m x) py) numerical else notDef

/-- Cell that a query on the map ends up reading. -/
def queryCell (m : DataMessage α) (px py : α) : Cell α :=
  cellOf m (normalizeX m ((reachX m px py).getD px)) py

omit [FloorRing α] in
/-- A reachable longitude leaves the latitude as it is. -/
theorem isYInMap_of_reachX {m : DataMessage α} {px py x : α} (h : reachX m px py=some x) :
    isYInMap m py=true := by
  unfold reachX at h
  simp only [isPointInMap,Bool.and_eq_true] at h
  split at h
  next h1 => exact h1.2
  next =>
    split at h
    next h2 => exact h2.2
    next =>
      split at h
      next h3 => exact h3.2
      next => cases h

omit [FloorRing α] in
/-- A point on the map keeps its longitude. -/
theorem reachX_of_inMap {m : DataMessage α} {px py : α} (h : isPointInMap m px py=true) :
    reachX m px py=some px := if_pos h

omit [FloorRing α] in
/-- Where rows run south a latitude is in the map between its last row and its first. -/
theorem isYInMap_iff_neg {m : DataMessage α} (hneg : m.jDirectionIncr<0) (y : α) :
    isYInMap m y=true ↔ y ≤ m.firstGridPointLat ∧ m.lastGridPointLat≤y := by
  simp [isYInMap,hneg]

omit [FloorRing α] in
/-- Where rows run north a latitude is in the map between its first row and its last. -/
theorem isYInMap_iff_nonneg {m : DataMessage α} (hpos : 0 ≤ m.jDirectionIncr) (y : α) :
    isYInMap m y=true ↔ m.firstGridPointLat≤y ∧ y ≤ m.lastGridPointLat := by
  simp [isYInMap,not_lt.mpr hpos]

omit [FloorRing α] in
/-- A corner has a value when it lies in the grid and its cell does not hold the marker. -/
theorem hasValue_iff (grid : Grid α) (nj ni : ℕ) (i j : ℤ) :
    hasValue grid nj ni i j=true ↔
      (0≤j ∧ j<nj) ∧ (0 ≤ i ∧ i<ni) ∧ cellAt grid j.toNat i.toNat≠notDef := by
  simp only [hasValue,Bool.and_eq_true,decide_eq_true_eq,and_assoc]

/-- Four of four are counted exactly when each corner has a value. -/
theorem count_eq_four (h00 h10 h01 h11 : Bool) :
    h00.toNat+h10.toNat+h01.toNat+h11.toNat=4 ↔
      (h00=true ∧ h10=true) ∧ (h01=true ∧ h11=true) := by
  revert h00 h10 h01 h11
  decide

omit [FloorRing α] in
/-- All four values of a cell are there exactly when each of its corners lies in the grid
and has one. -/
theorem nbval_eq_four_iff (m : DataMessage α) (grid : Grid α) (c : Cell α) :
    nbval m grid c=4 ↔
      (hasValue grid m.noPointsMeridian m.noPointsParallel c.i0 c.j0=true ∧
        hasValue grid m.noPointsMeridian m.noPointsParallel c.i1 c.j0=true) ∧
      (hasValue grid m.noPointsMeridian m.noPointsParallel c.i0 (c.j0+1)=true ∧
        hasValue grid m.noPointsMeridian m.noPointsParallel c.i1 (c.j0+1)=true) :=
  count_eq_four _ _ _ _

omit [FloorRing α] in
/-- No value lies outside the grid. -/
theorem hasValue_outside (grid : Grid α) {nj ni : ℕ} {i j : ℤ}
    (h : ¬((0≤j ∧ j<nj) ∧ 0 ≤ i ∧ i<ni)) : hasValue grid nj ni i j=false := by
  rw [Bool.eq_false_iff,ne_eq,hasValue_iff]
  exact fun hin => h ⟨hin.1,hin.2.1⟩

/-- Without a column or a row fewer than three corners are counted. -/
theorem count_lt_three {h00 h10 h01 h11 : Bool}
    (h : (h00=false ∧ h01=false) ∨ h01=false ∧ h11=false) :
    h00.toNat+h10.toNat+h01.toNat+h11.toNat<3 := by
  revert h00 h10 h01 h11
  decide

omit [FloorRing α] in
/-- A left column outside the grid leaves at most two values. -/
theorem nbval_lt_of_column {m : DataMessage α} (grid : Grid α) {c : Cell α}
    (h : c.i0<0 ∨ m.noPointsParallel ≤ c.i0) : nbval m grid c<3 :=
  count_lt_three (Or.inl ⟨hasValue_outside grid (by omega),hasValue_outside grid (by omega)⟩)

omit [FloorRing α] in
/-- A second row outside the grid leaves at most two values. -/
theorem nbval_lt_of_row {m : DataMessage α} (grid : Grid α) {c : Cell α}
    (h : m.noPointsMeridian ≤ c.j0+1) : nbval m grid c<3 :=
  count_lt_three (Or.inr ⟨hasValue_outside grid (by omega),hasValue_outside grid (by omega)⟩)

omit [FloorRing α] in
/-- With fewer than three corners a cell has no value. -/
theorem cellValue_of_few {m : DataMessage α} {grid : Grid α} {c : Cell α}
    (h : nbval m grid c<3) (numerical : Bool) : cellValue m grid c numerical=notDef := if_pos h

omit [FloorRing α] in
/-- With all four values the numerical result is the blend of the corners, after turns
between them were taken out. -/
theorem cellValue_of_four {m : DataMessage α} {grid : Grid α} {c : Cell α}
    (h : nbval m grid c=4) :
    cellValue m grid c true=(cornersOf grid c).adjust.blend c.dx c.dy := by
  simp [cellValue,h]

omit [FloorRing α] in
/-- A numerical result other than the marker needs all four values. -/
theorem nbval_of_cellValue {m : DataMessage α} {grid : Grid α} {c : Cell α}
    (h : cellValue m grid c true≠notDef) : nbval m grid c=4 := by
  unfold cellValue at h
  split at h
  · exact absurd rfl h
  · simp only [Bool.true_eq_false,if_false] at h
    split at h
    next h4 => exact h4
    next => exact absurd rfl h

/-- A query whose longitude can be brought into the map is answered from the cell it then
lies in. -/
theorem getInterpolatedValue_of_reachX {m : DataMessage α} {px py x : α}
    (hreach : reachX m px py=some x) (hspaced : Spaced m) (grid : Grid α) (numerical : Bool) :
    getInterpolatedValue m grid px py numerical=
      cellValue m grid (queryCell m px py) numerical := by
  simp [getInterpolatedValue,queryCell,hreach,hspaced]

/-- A point that no turn brings into the map has no value. -/
theorem getInterpolatedValue_of_unreachable {m : DataMessage α} {px py : α}
    (hreach : reachX m px py=none) (grid : Grid α) (numerical : Bool) :
    getInterpolatedValue m grid px py numerical=notDef := by
  simp [getInterpolatedValue,hreach]

/-- A map whose increments are too small to divide by has no values. -/
theorem getInterpolatedValue_of_not_spaced {m : DataMessage α} (hspaced : ¬Spaced m)
    (grid : Grid α) (px py : α) (numerical : Bool) :
    getInterpolatedValue m grid px py numerical=notDef := by
  unfold getInterpolatedValue
  split <;> simp [hspaced]

/-- A numerical answer other than the marker is the blend of the queried
cell, whose four values are all there. -/
theorem answered {m : DataMessage α} {grid : Grid α} {px py : α}
    (h : getInterpolatedValue m grid px py true≠notDef) :
    Spaced m ∧ isYInMap m py=true ∧ nbval m grid (queryCell m px py)=4 ∧
      getInterpolatedValue m grid px py true=
        (cornersOf grid (queryCell m px py)).adjust.blend
          (queryCell m px py).dx (queryCell m px py).dy := by
  have hspaced : Spaced m :=
    Decidable.byContradiction fun hn => h (getInterpolatedValue_of_not_spaced hn grid px py true)
  cases hreach : reachX m px py with
  | none => exact absurd (getInterpolatedValue_of_unreachable hreach grid true) h
  | some x =>
    have heq := getInterpolatedValue_of_reachX hreach hspaced grid true
    rw [heq] at h ⊢
    have hfour := nbval_of_cellValue h
    exact ⟨hspaced,isYInMap_of_reachX hreach,hfour,cellValue_of_four hfour⟩

variable [IsStrictOrderedRing α]

omit [FloorRing α] in
theorem fullTurn_pos : 0 < (fullTurn : α) := by norm_num [fullTurn]

omit [FloorRing α] in
theorem quarterTurn_pos : 0 < (quarterTurn : α) := by norm_num [quarterTurn]

omit [FloorRing α] in
/-- Rows are counted forward from row zero in either direction. -/
theorem rowCoord_nonneg {m : DataMessage α} {py : α} (h : isYInMap m py=true) :
    0 ≤ rowCoord m py := by
  rcases lt_or_ge m.jDirectionIncr 0 with hneg | hpos
  · have hle := ((isYInMap_iff_neg hneg py).mp h).1
    exact div_nonneg_of_nonpos (sub_nonpos.mpr hle) hneg.le
  · have hle := ((isYInMap_iff_nonneg hpos py).mp h).1
    exact div_nonneg (sub_nonneg.mpr hle) hpos

omit [FloorRing α] in
/-- East of the first column the position in columns is not negative. -/
theorem columnCoord_nonneg {m : DataMessage α} {x : α} (hincr : 0 < m.iDirectionIncr)
    (h : m.firstGridPointLong≤x) : 0 ≤ columnCoord m x :=
  div_nonneg (sub_nonneg.mpr h) hincr.le

/-- Normalization moves a longitude by whole turns. -/
theorem normalizeX_turns (m : DataMessage α) (px : α) :
    ∃ z : ℤ,normalizeX m px=px+z*fullTurn := reduce_turns fullTurn_pos _ _ _

/-- A longitude is brought to the first column or east of it. -/
theorem first_le_normalizeX (m : DataMessage α) (px : α) :
    m.firstGridPointLong ≤ normalizeX m px := low_le_reduce fullTurn_pos _ _ _

/-- The row fraction of a point on the map lies in the unit interval. -/
theorem dy_bounds {m : DataMessage α} (px : α) {py : α} (h : isYInMap m py=true) :
    0≤(queryCell m px py).dy ∧ (queryCell m px py).dy<1 :=
  fract_bounds (rowCoord_nonneg h)

/-- With ascending longitudes the column fraction does too. -/
theorem dx_bounds {m : DataMessage α} (hincr : 0 < m.iDirectionIncr) (px py : α) :
    0≤(queryCell m px py).dx ∧ (queryCell m px py).dx<1 :=
  fract_bounds (columnCoord_nonneg hincr (first_le_normalizeX m _))

end NcdfPlugin.NcdfInterpolation
