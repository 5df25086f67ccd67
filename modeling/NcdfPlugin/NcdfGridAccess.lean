import NcdfPlugin.NcdfEvenMap
import NcdfPlugin.NcdfInterpolation

/-!
# Accesses to the grid

The interpolation once more with machine integers and with every access to
the grid recorded. Indices are signed; at the test for a value they become
unsigned, which is what keeps negative ones away from the grid. Three values
among the four corners already put both rows and both columns in range.
-/

namespace NcdfPlugin.NcdfGridAccess

open ExactArithmetic NcdfMessage NcdfReader NcdfEvenMap NcdfInterpolation

/-- Number of values of a 32-bit integer. -/
def wordSize : ℤ := 4294967296

/-- Bound of a signed 32-bit integer. -/
def signedBound : ℤ := 2147483648

/-- Value that a signed 32-bit integer takes. -/
def int32 (z : ℤ) : ℤ := (z+signedBound)%wordSize-signedBound

/-- Conversion to an unsigned 32-bit integer. -/
def uint32 (z : ℤ) : ℕ := (z%wordSize).toNat

/-- An integer is representable as a signed 32-bit integer. -/
def IsInt32 (z : ℤ) : Prop := -signedBound≤z ∧ z < signedBound

instance (z : ℤ) : Decidable (IsInt32 z) := inferInstanceAs (Decidable (_ ∧ _))

/-- Whatever is wrapped to 32 bits with a sign is in the range of these. -/
theorem isInt32_int32 (z : ℤ) : IsInt32 (int32 z) := by
  unfold IsInt32 int32 wordSize signedBound
  omega

/-- Wrapping keeps what is in range. -/
theorem int32_of_isInt32 {z : ℤ} (h : IsInt32 z) : int32 z=z := by
  unfold IsInt32 signedBound at h
  unfold int32 wordSize signedBound
  omega

/-- After the conversion a signed index is in range exactly when it was. -/
theorem uint32_lt_iff {z : ℤ} (h : IsInt32 z) {n : ℕ} (hn : (n : ℤ) < signedBound) :
    uint32 z<n ↔ 0≤z ∧ z<n := by
  unfold IsInt32 signedBound at h
  unfold signedBound at hn
  unfold uint32 wordSize
  omega

/-- Of a number in range that is not negative the conversion to an unsigned one keeps the
value. -/
theorem uint32_of_nonneg {z : ℤ} (h : IsInt32 z) (hz : 0≤z) : uint32 z=z.toNat := by
  unfold IsInt32 signedBound at h
  unfold uint32 wordSize
  omega

/-- A size below the bound survives both conversions. -/
theorem uint32_int32 {n : ℕ} (hn : (n : ℤ) < signedBound) : uint32 (int32 n)=n := by
  unfold signedBound at hn
  unfold uint32 int32 wordSize signedBound
  omega

/-- An access `grid[r][c]`, by row and column. -/
abbrev Access := ℤ×ℤ

section Recorded

variable {α : Type} [Field α] [LinearOrder α]

/-- `hasValue` with its access. The indices are unsigned. -/
def hasValueAt (grid : Grid α) (nolat nolon indexlon indexlat : ℕ) : Bool×List Access :=
  if indexlat<nolat ∧ indexlon<nolon then
    (decide (cellAt grid indexlat indexlon≠notDef),[(indexlat,indexlon)])
  else (false,[])

/-- The value read by an access. -/
def readAt (grid : Grid α) (a : Access) : α := cellAt grid a.1.toNat a.2.toNat

/-- Row of the second corners, `j0 + 1`. -/
def nextRow (c : Cell α) : ℤ := int32 (c.j0+1)

/-- The nearest corner, as it is addressed. -/
def nearestAccess (c : Cell α) : Access :=
  if c.dx<half then if c.dy<half then (c.j0,c.i0) else (nextRow c,c.i0)
  else if c.dy<half then (c.j0,c.i1) else (nextRow c,c.i1)

/-- The four corners in the order in which the blend reads them. -/
def cornerAccesses (c : Cell α) : List Access :=
  [(c.j0,c.i0),(nextRow c,c.i0),(c.j0,c.i1),(nextRow c,c.i1)]

/-- `hasValue` of a corner. Its signed indices become unsigned here. -/
def cornerHasValue (nolat nolon : ℕ) (grid : Grid α) (i j : ℤ) : Bool×List Access :=
  hasValueAt grid nolat nolon (uint32 i) (uint32 j)

/-- The count of corners with a value. -/
def countAt (nolat nolon : ℕ) (grid : Grid α) (c : Cell α) : ℕ :=
  let has := fun i j => (cornerHasValue nolat nolon grid i j).1.toNat
  has c.i0 c.j0+has c.i1 c.j0+has c.i0 (nextRow c)+has c.i1 (nextRow c)

/-- Accesses of the four tests. -/
def testAccesses (nolat nolon : ℕ) (grid : Grid α) (c : Cell α) : List Access :=
  let tests := fun i j => (cornerHasValue nolat nolon grid i j).2
  tests c.i0 c.j0++tests c.i1 c.j0++tests c.i0 (nextRow c)++tests c.i1 (nextRow c)

/-- Corner values as the blend reads them. -/
def cornersAt (grid : Grid α) (c : Cell α) : Corners α :=
  ⟨readAt grid (c.j0,c.i0),readAt grid (c.j0,c.i1),readAt grid (nextRow c,c.i0),
    readAt grid (nextRow c,c.i1)⟩

/-- Value of a selected cell with all accesses. -/
def cellValueIn (nolat nolon : ℕ) (grid : Grid α) (c : Cell α) (numerical : Bool) : α×List Access :=
  let tested := testAccesses nolat nolon grid c
  if countAt nolat nolon grid c<3 then (notDef,tested)
  else if numerical=false then (readAt grid (nearestAccess c),tested++[nearestAccess c])
  else if countAt nolat nolon grid c=4 then
    ((cornersAt grid c).adjust.blend c.dx c.dy,tested++cornerAccesses c)
  else (notDef,tested)

/-- The same with the sizes of a message, signed in `ni` and `nj` and unsigned
again in the calls of `hasValue`. -/
def cellValueAt (m : DataMessage α) (grid : Grid α) (c : Cell α) (numerical : Bool) :
    α×List Access :=
  let ni := int32 m.noPointsParallel
  let nj := int32 m.noPointsMeridian
  cellValueIn (uint32 nj) (uint32 ni) grid c numerical

variable [FloorRing α]

/-- Cell around a point, with the columns as machine integers. -/
def cellAround (m : DataMessage α) (px py : α) : Cell α :=
  let i0 := truncate (columnCoord m px)
  let j0 := truncate (rowCoord m py)
  let i1 := int32 (i0+1)
  let i1 := if int32 m.noPointsParallel ≤ i1 then if coversGlobe m=true then 0 else i0 else i1
  ⟨i0,i1,j0,columnCoord m px-i0,rowCoord m py-j0⟩

/-- `getInterpolatedValue` with all accesses. -/
def interpolateAt (m : DataMessage α) (grid : Grid α) (px py : α) (numerical : Bool) :
    α×List Access :=
  match reachX m px py with
  | none => (notDef,[])
  | some x =>
    if Spaced m then cellValueAt m grid (cellAround m (normalizeX m x) py) numerical
    else (notDef,[])

/-- The normalised grid coordinates of a query fit a 32-bit integer. -/
def FitsInt32 (m : DataMessage α) (px py : α) : Prop :=
  ∀ x,reachX m px py=some x → IsInt32 (truncate (columnCoord m (normalizeX m x))) ∧
    IsInt32 (truncate (rowCoord m py))

/-- Both sizes of a message fit a 32-bit integer. -/
def SizesFit (m : DataMessage α) : Prop :=
  (m.noPointsMeridian : ℤ) < signedBound ∧ (m.noPointsParallel : ℤ) < signedBound

/-- An access within the rows and columns of a message. -/
def InGrid (m : DataMessage α) (a : Access) : Prop :=
  (0≤a.1 ∧ a.1 < m.noPointsMeridian) ∧ 0≤a.2 ∧ a.2 < m.noPointsParallel

end Recorded

section Bounds

variable {α : Type} [Field α] [LinearOrder α]

/-- Both rows and both columns of a cell lie in the grid. -/
def CellInGrid (m : DataMessage α) (c : Cell α) : Prop :=
  ∀ a∈cornerAccesses c,InGrid m a

/-- Indices of a cell as signed integers. -/
def CellIsInt32 (c : Cell α) : Prop := IsInt32 c.i0 ∧ IsInt32 c.i1 ∧ IsInt32 c.j0

omit [LinearOrder α] in
/-- A cell is in the grid exactly when both of its rows and both of its columns are. -/
theorem cellInGrid_iff (m : DataMessage α) (c : Cell α) :
    CellInGrid m c ↔ ((0 ≤ c.j0 ∧ c.j0 < m.noPointsMeridian) ∧
      0≤nextRow c ∧ nextRow c < m.noPointsMeridian) ∧
      (0 ≤ c.i0 ∧ c.i0 < m.noPointsParallel) ∧ 0 ≤ c.i1 ∧ c.i1 < m.noPointsParallel := by
  simp only [CellInGrid,cornerAccesses,InGrid,List.forall_mem_cons,List.not_mem_nil,
    false_implies,implies_true,and_true]
  constructor
  · rintro ⟨h00,h01,h10,-⟩
    exact ⟨⟨h00.1,h01.1⟩,h00.2,h10.2⟩
  · rintro ⟨⟨hr0,hr1⟩,hc0,hc1⟩
    exact ⟨⟨hr0,hc0⟩,⟨hr1,hc0⟩,⟨hr0,hc1⟩,hr1,hc1⟩

/-- A corner is only found to have a value in range, since the test compares its signed
indices with the sizes. -/
theorem cornerHasValue_true (grid : Grid α) {nj ni : ℕ} {i j : ℤ} (hi : IsInt32 i)
    (hj : IsInt32 j) (hnj : (nj : ℤ) < signedBound) (hni : (ni : ℤ) < signedBound)
    (h : (cornerHasValue nj ni grid i j).1=true) : (0≤j ∧ j<nj) ∧ 0 ≤ i ∧ i<ni := by
  unfold cornerHasValue hasValueAt at h
  split at h
  next hin => exact ⟨(uint32_lt_iff hj hnj).mp hin.1,(uint32_lt_iff hi hni).mp hin.2⟩
  next => cases h

/-- The test itself accesses the grid in range only. -/
theorem hasValueAt_access {grid : Grid α} {nj ni i j : ℕ} {a : Access}
    (h : a∈(hasValueAt grid nj ni i j).2) : (0≤a.1 ∧ a.1<nj) ∧ 0≤a.2 ∧ a.2<ni := by
  unfold hasValueAt at h
  split at h
  next hin =>
    obtain rfl := List.mem_singleton.mp h
    dsimp only
    omega
  next => cases h

/-- Three of the four corners of a cell meet both of its rows and both of its columns. -/
theorem three_of_four {h00 h10 h01 h11 : Bool}
    (h : ¬h00.toNat+h10.toNat+h01.toNat+h11.toNat<3) :
    ((h00=true ∨ h10=true) ∧ (h01=true ∨ h11=true)) ∧
      (h00=true ∨ h01=true) ∧ (h10=true ∨ h11=true) := by
  revert h00 h10 h01 h11
  decide

/-- Three values put the whole cell into the grid, the corner without a value included. -/
theorem cellInGrid_of_three {m : DataMessage α} (hm : SizesFit m) {c : Cell α} (hc : CellIsInt32 c)
    {grid : Grid α} (h : ¬countAt m.noPointsMeridian m.noPointsParallel grid c<3) :
    CellInGrid m c := by
  obtain ⟨hi0,hi1,hj0⟩ := hc
  have hj1 : IsInt32 (nextRow c) := isInt32_int32 _
  have h00 := cornerHasValue_true grid hi0 hj0 hm.1 hm.2
  have h10 := cornerHasValue_true grid hi1 hj0 hm.1 hm.2
  have h01 := cornerHasValue_true grid hi0 hj1 hm.1 hm.2
  have h11 := cornerHasValue_true grid hi1 hj1 hm.1 hm.2
  obtain ⟨⟨hrow0,hrow1⟩,hcol0,hcol1⟩ := three_of_four h
  refine (cellInGrid_iff m c).mpr ⟨⟨?_,?_⟩,?_,?_⟩
  · exact hrow0.elim (fun hv => (h00 hv).1) (fun hv => (h10 hv).1)
  · exact hrow1.elim (fun hv => (h01 hv).1) (fun hv => (h11 hv).1)
  · exact hcol0.elim (fun hv => (h00 hv).2) (fun hv => (h01 hv).2)
  · exact hcol1.elim (fun hv => (h10 hv).2) (fun hv => (h11 hv).2)

/-- The nearest corner is one of the four. -/
theorem nearestAccess_mem (c : Cell α) : nearestAccess c∈cornerAccesses c := by
  unfold nearestAccess cornerAccesses
  split <;> split <;> simp

/-- The four tests for a value read the grid only after the range of their indices has been
tested. -/
theorem testAccesses_inGrid {m : DataMessage α} {grid : Grid α} {c : Cell α} {a : Access}
    (h : a∈testAccesses m.noPointsMeridian m.noPointsParallel grid c) : InGrid m a := by
  simp only [testAccesses,List.mem_append] at h
  rcases h with ((h | h) | h) | h <;> exact hasValueAt_access h

/-- A selected cell is read within the grid, whatever the grid holds. -/
theorem cellValueIn_inGrid {m : DataMessage α} (hm : SizesFit m) {c : Cell α} (hc : CellIsInt32 c)
    (grid : Grid α) (numerical : Bool) {a : Access}
    (h : a∈(cellValueIn m.noPointsMeridian m.noPointsParallel grid c numerical).2) :
    InGrid m a := by
  unfold cellValueIn at h
  dsimp only at h
  split at h
  next => exact testAccesses_inGrid h
  next hthree =>
    have hcell := cellInGrid_of_three hm hc hthree
    split at h
    next =>
      rcases List.mem_append.mp h with h | h
      · exact testAccesses_inGrid h
      · exact hcell a (List.mem_singleton.mp h ▸ nearestAccess_mem c)
    next =>
      split at h
      next =>
        rcases List.mem_append.mp h with h | h
        · exact testAccesses_inGrid h
        · exact hcell a h
      next => exact testAccesses_inGrid h

/-- Sizes in the range of an int survive the conversions to unsigned numbers and back. -/
theorem cellValueAt_eq_cellValueIn {m : DataMessage α} (hm : SizesFit m) (grid : Grid α)
    (c : Cell α) (numerical : Bool) :
    cellValueAt m grid c numerical=
      cellValueIn m.noPointsMeridian m.noPointsParallel grid c numerical := by
  unfold cellValueAt
  dsimp only
  rw [uint32_int32 hm.1,uint32_int32 hm.2]

/-- On machine indices the unsigned test is the test of the model. -/
theorem cornerHasValue_eq (grid : Grid α) {nj ni : ℕ} {i j : ℤ} (hi : IsInt32 i) (hj : IsInt32 j)
    (hnj : (nj : ℤ) < signedBound) (hni : (ni : ℤ) < signedBound) :
    (cornerHasValue nj ni grid i j).1=hasValue grid nj ni i j := by
  have hj' := uint32_lt_iff hj hnj
  have hi' := uint32_lt_iff hi hni
  unfold cornerHasValue hasValueAt
  split
  next hin =>
    have hjr := hj'.mp hin.1
    have hir := hi'.mp hin.2
    rw [uint32_of_nonneg hi hir.1,uint32_of_nonneg hj hjr.1]
    simp [hasValue,hjr,hir]
  next hout =>
    have hout' : ¬((0≤j ∧ j<nj) ∧ 0 ≤ i ∧ i<ni) := by rwa [hj',hi'] at hout
    exact (hasValue_outside grid hout').symm

/-- Without a wrap of the second row the count is that of the model. -/
theorem countAt_eq {m : DataMessage α} (hm : SizesFit m) {c : Cell α} (hc : CellIsInt32 c)
    (hnext : nextRow c=c.j0+1) (grid : Grid α) :
    countAt m.noPointsMeridian m.noPointsParallel grid c=nbval m grid c := by
  obtain ⟨hi0,hi1,hj0⟩ := hc
  have hj1 : IsInt32 (c.j0+1) := hnext ▸ isInt32_int32 _
  unfold countAt nbval
  dsimp only
  rw [hnext,cornerHasValue_eq grid hi0 hj0 hm.1 hm.2,cornerHasValue_eq grid hi1 hj0 hm.1 hm.2,
    cornerHasValue_eq grid hi0 hj1 hm.1 hm.2,cornerHasValue_eq grid hi1 hj1 hm.1 hm.2]

omit [LinearOrder α] in
/-- Where the next row is the row after the first one the corners read are those of the
cell. -/
theorem cornersAt_eq {c : Cell α} (hnext : nextRow c=c.j0+1) (grid : Grid α) :
    cornersAt grid c=cornersOf grid c := by
  unfold cornersAt cornersOf readAt
  rw [hnext]

/-- The nearest corner is the nearest of the corner values. -/
theorem readAt_nearestAccess {c : Cell α} (hnext : nextRow c=c.j0+1) (grid : Grid α) :
    readAt grid (nearestAccess c)=(cornersOf grid c).nearest c.dx c.dy := by
  unfold nearestAccess Corners.nearest
  rw [hnext]
  split <;> split <;> rfl

/-- Without a wrap of the second row a cell has the value of the model. -/
theorem cellValueIn_eq {m : DataMessage α} (hm : SizesFit m) {c : Cell α} (hc : CellIsInt32 c)
    (hnext : nextRow c=c.j0+1) (grid : Grid α) (numerical : Bool) :
    (cellValueIn m.noPointsMeridian m.noPointsParallel grid c numerical).1=
      cellValue m grid c numerical := by
  unfold cellValueIn cellValue
  rw [countAt_eq hm hc hnext,cornersAt_eq hnext,readAt_nearestAccess hnext]
  dsimp only
  split
  · rfl
  · split
    · rfl
    · split <;> rfl

/-- A cell that starts beyond the last row or column has fewer than three values, hence
none. -/
theorem cellValueIn_outside {m : DataMessage α} (hm : SizesFit m) {c : Cell α} (hc : CellIsInt32 c)
    (h : m.noPointsMeridian ≤ c.j0 ∨ m.noPointsParallel ≤ c.i0) (grid : Grid α)
    (numerical : Bool) :
    (cellValueIn m.noPointsMeridian m.noPointsParallel grid c numerical).1=notDef := by
  unfold cellValueIn
  dsimp only
  split
  next => rfl
  next hthree =>
    have hcell := (cellInGrid_iff m c).mp (cellInGrid_of_three hm hc hthree)
    omega

end Bounds

section Interpolated

variable {α : Type} [Field α] [LinearOrder α] [FloorRing α]

/-- The right column stays a machine integer: it is the wrapped sum, the left
column or zero. -/
theorem cellAround_isInt32 {m : DataMessage α} {px py x : α} (hfit : FitsInt32 m px py)
    (hx : reachX m px py=some x) : CellIsInt32 (cellAround m (normalizeX m x) py) := by
  obtain ⟨hi0,hj0⟩ := hfit x hx
  refine ⟨hi0,?_,hj0⟩
  unfold cellAround
  dsimp only
  split
  next =>
    split
    · unfold IsInt32 signedBound
      omega
    · exact hi0
  next => exact isInt32_int32 _

/-- Every access that an interpolation makes lies within the rows and columns of the grid,
for all indices of 32 bits. -/
theorem interpolateAt_inGrid (m : DataMessage α) (grid : Grid α) (px py : α) (numerical : Bool)
    (hm : SizesFit m) (hfit : FitsInt32 m px py) :
    ∀ a∈(interpolateAt m grid px py numerical).2,InGrid m a := by
  intro a ha
  unfold interpolateAt at ha
  split at ha
  next => cases ha
  next x hx =>
    split at ha
    · rw [cellValueAt_eq_cellValueIn hm] at ha
      exact cellValueIn_inGrid hm (cellAround_isInt32 hfit hx) grid numerical ha
    · cases ha

/-- Without a wrap of the right column the cell is that of the model. -/
theorem cellAround_eq_cellOf {m : DataMessage α} (hm : SizesFit m) {px py : α}
    (h : IsInt32 (truncate (columnCoord m px)+1)) : cellAround m px py=cellOf m px py := by
  have hni : int32 m.noPointsParallel=m.noPointsParallel := by
    refine int32_of_isInt32 ⟨?_,hm.2⟩
    unfold signedBound
    omega
  unfold cellAround cellOf rightColumn
  dsimp only
  rw [int32_of_isInt32 h,hni]

/-- A grid with a missing corner. -/
def missingCorner : Grid ℚ := [[1,1],[1,notDef]]

/-- With one corner missing the nearest value is still read in bounds. -/
theorem interpolateAt_inGrid_missing :
    (interpolateAt (sampleMap unitAxis unitAxis) missingCorner (1/4) (1/4) false).2=
      [(0,0),(0,1),(1,0),(1,1),(0,0)] ∧
    ∀ a∈(interpolateAt (sampleMap unitAxis unitAxis) missingCorner (1/4) (1/4) false).2,
      InGrid (sampleMap unitAxis unitAxis) a := by
  refine ⟨by decide +kernel,interpolateAt_inGrid _ missingCorner _ _ _ ⟨by decide,by decide⟩ ?_⟩
  intro x hx
  have hreach : reachX (sampleMap unitAxis unitAxis) (1/4) (1/4)=some (1/4) := by decide +kernel
  obtain rfl := Option.some.inj (hx.symm.trans hreach)
  exact ⟨⟨by decide +kernel,by decide +kernel⟩,by decide +kernel,by decide +kernel⟩

/-- A machine index either has a successor or is past every grid. -/
theorem succ_isInt32_or_past {z : ℤ} (hz : IsInt32 z) {n : ℕ} (hn : (n : ℤ) < signedBound) :
    IsInt32 (z+1) ∨ (n : ℤ)≤z := by
  unfold IsInt32 signedBound at *
  omega

/-- A selected cell has the value of the model: an index at the end of the
machine range is outside the grid already. -/
theorem cellValueIn_cellAround {m : DataMessage α} (hm : SizesFit m) {px py : α}
    (hc : CellIsInt32 (cellAround m px py)) (grid : Grid α) (numerical : Bool) :
    (cellValueIn m.noPointsMeridian m.noPointsParallel grid (cellAround m px py) numerical).1=
      cellValue m grid (cellOf m px py) numerical := by
  rcases succ_isInt32_or_past hc.2.2 hm.1 with hj | hj
  · rcases succ_isInt32_or_past hc.1 hm.2 with hi | hi
    · rw [cellValueIn_eq hm hc (int32_of_isInt32 hj),cellAround_eq_cellOf hm hi]
    · rw [cellValueIn_outside hm hc (Or.inr hi),
        cellValue_of_few (nbval_lt_of_column grid (c := cellOf m px py) (Or.inr hi))]
  · have hrow : m.noPointsMeridian≤(cellOf m px py).j0+1 := Int.le_add_one hj
    rw [cellValueIn_outside hm hc (Or.inl hj),cellValue_of_few (nbval_lt_of_row grid hrow)]

/-- The interpolation whose accesses are recorded computes the same value as the model
without machine integers. -/
theorem interpolateAt_value {m : DataMessage α} {px py : α} (hm : SizesFit m)
    (hfit : FitsInt32 m px py) (grid : Grid α) (numerical : Bool) :
    (interpolateAt m grid px py numerical).1=getInterpolatedValue m grid px py numerical := by
  unfold interpolateAt
  cases hreach : reachX m px py with
  | none => exact (getInterpolatedValue_of_unreachable hreach grid numerical).symm
  | some x =>
    dsimp only
    split
    next hspaced =>
      rw [cellValueAt_eq_cellValueIn hm,
        cellValueIn_cellAround hm (cellAround_isInt32 hfit hreach) grid numerical]
      simp [getInterpolatedValue,hreach,hspaced]
    next hspaced => exact (getInterpolatedValue_of_not_spaced hspaced grid px py numerical).symm

end Interpolated

end NcdfPlugin.NcdfGridAccess
