import NcdfPlugin.NcdfBlend

/-!
# Periodicity in longitude and the seam of a global map

On columns that cover the globe exactly, the loops bring every longitude to
the closed range of one turn. Both ends of that range are the same meridian
but different columns: the lower end is column zero, the upper end lies past
the last column. Only queries on that meridian can tell them apart.
-/

namespace NcdfPlugin.NcdfSeam

open ExactArithmetic NcdfMessage NcdfReader NcdfEvenMap NcdfInterpolation NcdfBlend

variable {α : Type} [Field α] [LinearOrder α] [IsStrictOrderedRing α]

/-- Ascending columns that cover the globe exactly. -/
structure GlobalColumns (m : DataMessage α) : Prop where
  /-- Longitudes ascend. -/
  incr_pos : 0 < m.iDirectionIncr
  /-- The increment is the mean distance of the columns. -/
  incr_eq : m.iDirectionIncr=
    (m.lastGridPointLong-m.firstGridPointLong)/((m.noPointsParallel : α)-1)
  /-- One more column closes the turn. -/
  turn : m.lastGridPointLong-m.firstGridPointLong+m.iDirectionIncr=fullTurn

/-- A query and its copy k turns away lie on the meridian of column zero and
on different sides of it: at most at it, and beyond it. -/
structure CrossesSeam (m : DataMessage α) (px : α) (k : ℤ) : Prop where
  /-- The meridian of column zero. -/
  meridian : ∃ z : ℤ,px=m.firstGridPointLong+z*fullTurn
  /-- Different sides. -/
  sides : ¬(px ≤ m.firstGridPointLong ↔ px+k*fullTurn ≤ m.firstGridPointLong)

/-- A latitude whose row and next row are both rows of the map. -/
structure RowsRead [FloorRing α] (m : DataMessage α) (py : α) : Prop where
  /-- Increments are large enough to divide by. -/
  spaced : Spaced m
  /-- The latitude is on the map. -/
  onMap : isYInMap m py=true
  /-- There is a next row. -/
  next : truncate (rowCoord m py)+1 < m.noPointsMeridian

section Columns

variable {m : DataMessage α}

/-- Columns that close the circle cover the globe in the sense of the code. -/
theorem GlobalColumns.coversGlobe (h : GlobalColumns m) : coversGlobe m=true := by
  have hturn := h.turn
  have hrange := le_abs_self (m.lastGridPointLong-m.firstGridPointLong)
  have hincr := le_abs_self m.iDirectionIncr
  rw [NcdfInterpolation.coversGlobe,decide_eq_true_eq]
  linarith

/-- The columns share one turn evenly. -/
theorem GlobalColumns.columns_mul (h : GlobalColumns m) :
    (m.noPointsParallel : α)*m.iDirectionIncr=fullTurn := by
  have hne : (m.noPointsParallel : α)-1≠0 := by
    intro hzero
    have heq := h.incr_eq
    rw [hzero,div_zero] at heq
    exact h.incr_pos.ne' heq
  have hmul := (eq_div_iff hne).mp h.incr_eq
  have hturn := h.turn
  linarith

/-- There are two columns at least, since a single one would lie a whole turn from itself.
-/
theorem GlobalColumns.two_le (h : GlobalColumns m) : 2 ≤ m.noPointsParallel := by
  have hmul := h.columns_mul
  have hincr := h.incr_pos
  have hfull := fullTurn_pos (α := α)
  by_contra hsmall
  have hcases : m.noPointsParallel=0 ∨ m.noPointsParallel=1 := by omega
  rcases hcases with hzero | hone
  · rw [hzero,Nat.cast_zero,zero_mul] at hmul
    exact hfull.ne hmul
  · have heq := h.incr_eq
    rw [hone,Nat.cast_one,sub_self,div_zero] at heq
    exact hincr.ne' heq

end Columns

variable [FloorRing α]

section Normalization

variable {m : DataMessage α}

/-- The two loops bring a longitude into the turn from the first column on. -/
theorem GlobalColumns.normalizeX_eq (h : GlobalColumns m) (px : α) :
    normalizeX m px=reduce fullTurn m.firstGridPointLong (m.firstGridPointLong+fullTurn) px := by
  have hend : m.lastGridPointLong+m.iDirectionIncr=m.firstGridPointLong+fullTurn := by
    linarith [h.turn]
  rw [normalizeX,hend]

/-- The normalized longitude lies in the closed turn from column zero on. -/
theorem GlobalColumns.normalizeX_mem (h : GlobalColumns m) (px : α) :
    m.firstGridPointLong ≤ normalizeX m px ∧ normalizeX m px ≤ m.firstGridPointLong+fullTurn := by
  rw [h.normalizeX_eq]
  exact ⟨low_le_reduce fullTurn_pos _ _ _,reduce_le_of_long fullTurn_pos le_rfl _⟩

/-- At most at the meridian of column zero, the upper end is not reached. -/
theorem GlobalColumns.normalizeX_lt (h : GlobalColumns m) {px : α}
    (hpx : px ≤ m.firstGridPointLong) :
    normalizeX m px < m.firstGridPointLong+fullTurn := by
  rw [h.normalizeX_eq]
  exact reduce_lt_of_le fullTurn_pos hpx

/-- Beyond the meridian of column zero, the lower end is not reached. -/
theorem GlobalColumns.lt_normalizeX (h : GlobalColumns m) {px : α}
    (hpx : m.firstGridPointLong<px) : m.firstGridPointLong < normalizeX m px := by
  rw [h.normalizeX_eq]
  exact lt_reduce_of_lt fullTurn_pos hpx

/-- Off the meridian of column zero a longitude is brought strictly between the two ends of
the turn. -/
theorem GlobalColumns.normalizeX_interior (h : GlobalColumns m) {px : α}
    (hoff : ¬∃ z : ℤ,px=m.firstGridPointLong+z*fullTurn) :
    m.firstGridPointLong < normalizeX m px ∧ normalizeX m px < m.firstGridPointLong+fullTurn := by
  obtain ⟨hlow,hhigh⟩ := h.normalizeX_mem px
  obtain ⟨z,hz⟩ := normalizeX_turns m px
  refine ⟨hlow.lt_of_ne fun heq => hoff ⟨-z,?_⟩,hhigh.lt_of_ne fun heq => hoff ⟨1-z,?_⟩⟩ <;>
    push_cast <;> linarith

/-- On the meridian of column zero and at most at it: the lower end. -/
theorem GlobalColumns.normalizeX_low (h : GlobalColumns m) {px : α}
    (hmeridian : ∃ z : ℤ,px=m.firstGridPointLong+z*fullTurn) (hpx : px ≤ m.firstGridPointLong) :
    normalizeX m px=m.firstGridPointLong := by
  obtain ⟨z,hz⟩ := hmeridian
  obtain ⟨w,hw⟩ := normalizeX_turns m px
  have hturns : normalizeX m px=m.firstGridPointLong+((w+z : ℤ) : α)*fullTurn := by
    rw [hw,hz]
    push_cast
    ring
  have hlow := (h.normalizeX_mem px).1
  have hlt := h.normalizeX_lt hpx
  have hfull := fullTurn_pos (α := α)
  exact eq_of_turns hfull hturns (by linarith) (by linarith)

/-- On the meridian of column zero and beyond it: the upper end. -/
theorem GlobalColumns.normalizeX_high (h : GlobalColumns m) {px : α}
    (hmeridian : ∃ z : ℤ,px=m.firstGridPointLong+z*fullTurn) (hpx : m.firstGridPointLong<px) :
    normalizeX m px=m.firstGridPointLong+fullTurn := by
  obtain ⟨z,hz⟩ := hmeridian
  obtain ⟨w,hw⟩ := normalizeX_turns m px
  have hturns : normalizeX m px=
      m.firstGridPointLong+fullTurn+((w+z-1 : ℤ) : α)*fullTurn := by
    rw [hw,hz]
    push_cast
    ring
  have hhigh := (h.normalizeX_mem px).2
  have hlt := h.lt_normalizeX hpx
  have hfull := fullTurn_pos (α := α)
  exact eq_of_turns hfull hturns (by linarith) (by linarith)

omit [LinearOrder α] [IsStrictOrderedRing α] [FloorRing α] in
/-- Turns lead from the first meridian to the first meridian. -/
theorem meridian_add_turns {px : α} (k : ℤ)
    (hmeridian : ∃ z : ℤ,px=m.firstGridPointLong+z*fullTurn) :
    ∃ z : ℤ,px+k*fullTurn=m.firstGridPointLong+z*fullTurn := by
  obtain ⟨z,rfl⟩ := hmeridian
  exact ⟨z+k,by push_cast; ring⟩

omit [LinearOrder α] [IsStrictOrderedRing α] [FloorRing α] in
/-- Only from the first meridian do turns lead to it. -/
theorem meridian_of_add_turns {px : α} {k : ℤ}
    (hmeridian : ∃ z : ℤ,px+k*fullTurn=m.firstGridPointLong+z*fullTurn) :
    ∃ z : ℤ,px=m.firstGridPointLong+z*fullTurn := by
  obtain ⟨z,hz⟩ := hmeridian
  exact ⟨z-k,by rw [eq_sub_iff_add_eq.mpr hz]; push_cast; ring⟩

/-- Whole turns do not change the normalized longitude of a query that does
not cross the seam. -/
theorem GlobalColumns.normalizeX_add_turns (h : GlobalColumns m) {px : α} {k : ℤ}
    (hcross : ¬CrossesSeam m px k) : normalizeX m (px+k*fullTurn)=normalizeX m px := by
  by_cases hmeridian : ∃ z : ℤ,px=m.firstGridPointLong+z*fullTurn
  · have hsides : px ≤ m.firstGridPointLong ↔ px+k*fullTurn ≤ m.firstGridPointLong := by
      by_contra hsides
      exact hcross ⟨hmeridian,hsides⟩
    have hcopy := meridian_add_turns k hmeridian
    rcases le_or_gt px m.firstGridPointLong with hle | hlt
    · rw [h.normalizeX_low hmeridian hle,h.normalizeX_low hcopy (hsides.mp hle)]
    · have hgt : m.firstGridPointLong<px+k*fullTurn := not_le.mp fun hc => not_le.mpr hlt (hsides.mpr hc)
      rw [h.normalizeX_high hmeridian hlt,h.normalizeX_high hcopy hgt]
  · obtain ⟨hlow,hhigh⟩ := h.normalizeX_interior hmeridian
    obtain ⟨hlow',hhigh'⟩ := h.normalizeX_interior
      fun hcopy => hmeridian (meridian_of_add_turns (k := k) hcopy)
    obtain ⟨w,hw⟩ := normalizeX_turns m px
    obtain ⟨w',hw'⟩ := normalizeX_turns m (px+k*fullTurn)
    have hturns : normalizeX m (px+k*fullTurn)=normalizeX m px+((w'+k-w : ℤ) : α)*fullTurn := by
      rw [hw,hw']
      push_cast
      ring
    exact eq_of_turns fullTurn_pos hturns (by linarith) (by linarith)

end Normalization

section Values

variable {m : DataMessage α}

/-- On a global map only the latitude and the increments decide whether a
query is answered from its cell. -/
theorem GlobalColumns.value_eq (h : GlobalColumns m) (grid : Grid α) (px py : α)
    (numerical : Bool) :
    getInterpolatedValue m grid px py numerical=
      if isYInMap m py=true ∧ Spaced m then
        cellValue m grid (cellOf m (normalizeX m px) py) numerical
      else notDef := by
  have hreach (x : α) : isPointInMap m x py=isYInMap m py := by
    simp [isPointInMap,isXInMap,h.coversGlobe]
  cases hy : isYInMap m py <;> simp [getInterpolatedValue,reachX,hreach,hy]

/-- Without two rows to read every query gets the marker, on whichever turn it is asked. -/
theorem GlobalColumns.value_of_no_rows (h : GlobalColumns m) {py : α} (hrows : ¬RowsRead m py)
    (grid : Grid α) (px : α) (numerical : Bool) :
    getInterpolatedValue m grid px py numerical=notDef := by
  rw [h.value_eq]
  split
  next hread =>
    have hnext : m.noPointsMeridian ≤ truncate (rowCoord m py)+1 :=
      not_lt.mp fun hlt => hrows ⟨hread.2,hread.1,hlt⟩
    exact cellValue_of_few (nbval_lt_of_row grid hnext) numerical
  next => rfl

/-- The upper end of the turn lies past the last column, so a longitude that is brought
there has no value. -/
theorem GlobalColumns.value_high (h : GlobalColumns m) {px : α} (py : α)
    (hx : normalizeX m px=m.firstGridPointLong+fullTurn) (grid : Grid α) (numerical : Bool) :
    getInterpolatedValue m grid px py numerical=notDef := by
  have hcolumn : columnCoord m (m.firstGridPointLong+fullTurn)=((m.noPointsParallel : ℤ) : α) := by
    rw [columnCoord,add_sub_cancel_left,div_eq_iff h.incr_pos.ne',Int.cast_natCast,h.columns_mul]
  rw [h.value_eq,hx]
  split
  next =>
    refine cellValue_of_few (nbval_lt_of_column grid (Or.inr ?_)) numerical
    rw [cellOf,hcolumn,truncate_intCast]
  next => rfl

/-- A grid of ones. -/
def onesGrid (m : DataMessage α) : Grid α :=
  List.replicate m.noPointsMeridian (List.replicate m.noPointsParallel 1)

omit [FloorRing α] in
/-- The value one is not taken for a missing one. -/
theorem one_ne_notDef : (1 : α)≠notDef := by
  norm_num [notDef]

/-- A grid of one value. -/
def evenGrid (m : DataMessage α) (c : α) : Grid α :=
  List.replicate m.noPointsMeridian (List.replicate m.noPointsParallel c)

omit [FloorRing α] in
/-- A cell with the same value at its corners has that value. -/
theorem cellValue_evenGrid {v : α} (hv : v≠notDef) {c : Cell α}
    (hj : 0 ≤ c.j0 ∧ c.j0+1 < m.noPointsMeridian)
    (hi0 : 0 ≤ c.i0 ∧ c.i0 < m.noPointsParallel) (hi1 : 0 ≤ c.i1 ∧ c.i1 < m.noPointsParallel) :
    cellValue m (evenGrid m v) c true=v := by
  have hcell {j i : ℤ} (hj : 0≤j ∧ j < m.noPointsMeridian) (hi : 0 ≤ i ∧ i < m.noPointsParallel) :
      cellAt (evenGrid m v) j.toNat i.toNat=v := by
    have hj' : j.toNat < m.noPointsMeridian := by omega
    have hi' : i.toNat < m.noPointsParallel := by omega
    simp [cellAt,evenGrid,hj',hi']
  have hvalue {j i : ℤ} (hj : 0≤j ∧ j < m.noPointsMeridian)
      (hi : 0 ≤ i ∧ i < m.noPointsParallel) :
      hasValue (evenGrid m v) m.noPointsMeridian m.noPointsParallel i j=true :=
    (hasValue_iff _ _ _ _ _).mpr ⟨hj,hi,by rw [hcell hj hi]; exact hv⟩
  have hj0 : 0 ≤ c.j0 ∧ c.j0 < m.noPointsMeridian := by omega
  have hj1 : 0 ≤ c.j0+1 ∧ c.j0+1 < m.noPointsMeridian := by omega
  have hfour : nbval m (evenGrid m v) c=4 :=
    (nbval_eq_four_iff _ _ _).mpr ⟨⟨hvalue hj0 hi0,hvalue hj0 hi1⟩,hvalue hj1 hi0,hvalue hj1 hi1⟩
  have hcorners : cornersOf (evenGrid m v) c=⟨v,v,v,v⟩ := by
    simp only [cornersOf,hcell hj0 hi0,hcell hj0 hi1,hcell hj1 hi0,hcell hj1 hi1]
  have hgentle : Gentle (⟨v,v,v,v⟩ : Corners α) := by
    constructor <;> simp [quarterTurn_pos.le]
  rw [cellValue_of_four hfour,hcorners,adjust_eq,turns_of_gentle hgentle]
  simp only [addTurns,Nat.cast_zero,mul_zero,add_zero,Corners.blend,bilinear]
  ring

/-- Before the upper end of the turn a value that is everywhere is
answered. -/
theorem GlobalColumns.value_even (h : GlobalColumns m) {px py : α} (hrows : RowsRead m py)
    (hx : normalizeX m px < m.firstGridPointLong+fullTurn) {v : α} (hv : v≠notDef) :
    getInterpolatedValue m (evenGrid m v) px py true=v := by
  have hlow := (h.normalizeX_mem px).1
  have htwo := h.two_le
  have hcolumn : 0 ≤ columnCoord m (normalizeX m px) ∧
      columnCoord m (normalizeX m px) < (m.noPointsParallel : ℤ) := by
    rw [columnCoord,div_lt_iff₀ h.incr_pos,Int.cast_natCast,h.columns_mul]
    exact ⟨div_nonneg (by linarith) h.incr_pos.le,by linarith⟩
  have hi0 := truncate_nonneg hcolumn.1
  have hi0' := (truncate_lt_iff hcolumn.1 _).mpr hcolumn.2
  rw [h.value_eq,if_pos ⟨hrows.onMap,hrows.spaced⟩]
  refine cellValue_evenGrid hv ⟨truncate_nonneg (rowCoord_nonneg hrows.onMap),hrows.next⟩
    ⟨hi0,hi0'⟩ ?_
  unfold cellOf rightColumn
  dsimp only
  rw [if_pos h.coversGlobe]
  split <;> omega

/-- The lower end of the turn is column zero, where ones are answered. -/
theorem GlobalColumns.value_low (h : GlobalColumns m) {px py : α} (hrows : RowsRead m py)
    (hx : normalizeX m px=m.firstGridPointLong) :
    getInterpolatedValue m (onesGrid m) px py true=1 :=
  h.value_even hrows (hx ▸ lt_add_of_pos_right _ fullTurn_pos) one_ne_notDef

end Values

/-- On columns that cover the globe exactly, a query and its copy k turns
away get the same answer on every grid, unless both rows are read and the two
lie on the meridian of column zero on different sides. -/
theorem periodic_iff (m : DataMessage α) (h : GlobalColumns m) (px py : α) (k : ℤ) :
    (∀ (grid : Grid α) (numerical : Bool),
        getInterpolatedValue m grid (px+k*fullTurn) py numerical=
          getInterpolatedValue m grid px py numerical) ↔
      ¬(RowsRead m py ∧ CrossesSeam m px k) := by
  constructor
  · rintro hsame ⟨hrows,hcross⟩
    have hones := hsame (onesGrid m) true
    have hmeridian := hcross.meridian
    have hcopy := meridian_add_turns k hmeridian
    rcases le_or_gt px m.firstGridPointLong with hle | hlt
    · have hgt : m.firstGridPointLong<px+k*fullTurn :=
        not_le.mp fun hc => hcross.sides ⟨fun _ => hc,fun _ => hle⟩
      rw [h.value_low hrows (h.normalizeX_low hmeridian hle),
        h.value_high py (h.normalizeX_high hcopy hgt)] at hones
      exact one_ne_notDef hones.symm
    · have hle : px+k*fullTurn ≤ m.firstGridPointLong :=
        not_lt.mp fun hc => hcross.sides
          ⟨fun hx => absurd hx (not_le.mpr hlt),fun hx => absurd hx (not_le.mpr hc)⟩
      rw [h.value_low hrows (h.normalizeX_low hcopy hle),
        h.value_high py (h.normalizeX_high hmeridian hlt)] at hones
      exact one_ne_notDef hones
  · intro hseam grid numerical
    by_cases hrows : RowsRead m py
    · have hcross : ¬CrossesSeam m px k := fun hc => hseam ⟨hrows,hc⟩
      rw [h.value_eq,h.value_eq,h.normalizeX_add_turns hcross]
    · rw [h.value_of_no_rows hrows,h.value_of_no_rows hrows]

section Sample

/-- Four columns from zero on, a quarter of a turn apart. -/
def quarterAxis : Axis ℚ := ⟨0,90,4,by decide,by decide⟩

/-- Four columns of 90 degrees close the circle. -/
theorem globalColumns_quarters : GlobalColumns (sampleMap unitAxis quarterAxis) :=
  ⟨by decide +kernel,by decide +kernel,by decide +kernel⟩

/-- Off the seam a query one turn to the right agrees on every grid. -/
theorem periodic_iff_off_seam :
    GlobalColumns (sampleMap unitAxis quarterAxis) ∧
    ∀ (grid : Grid ℚ) (numerical : Bool),
      getInterpolatedValue (sampleMap unitAxis quarterAxis) grid (45+(1 : ℤ)*fullTurn) (1/2)
          numerical=
        getInterpolatedValue (sampleMap unitAxis quarterAxis) grid 45 (1/2) numerical := by
  refine ⟨globalColumns_quarters,(periodic_iff _ globalColumns_quarters 45 (1/2) 1).mpr ?_⟩
  rintro ⟨-,hcross⟩
  exact hcross.sides (by decide +kernel)

/-- At longitude zero the ones are answered, one turn to the right they are
not. -/
theorem not_periodic_seam :
    GlobalColumns (sampleMap unitAxis quarterAxis) ∧
    getInterpolatedValue (sampleMap unitAxis quarterAxis) (onesGrid (sampleMap unitAxis quarterAxis))
      0 0 true=1 ∧
    getInterpolatedValue (sampleMap unitAxis quarterAxis) (onesGrid (sampleMap unitAxis quarterAxis))
      (0+(1 : ℤ)*fullTurn) 0 true=notDef :=
  ⟨globalColumns_quarters,by decide +kernel,by decide +kernel⟩

end Sample

end NcdfPlugin.NcdfSeam
