import NcdfPlugin.NcdfSeam

/-!
# Values of records

`ncdfData` has a lookup of its own, with the parameters of the last message. It knows
no map that covers the globe: a longitude has to be brought between the first and the
last column by one turn at most. On other maps it gives what the lookup of the data
message gives. On columns that cover the globe it gives nothing between the last
column and the seam, but at the closing longitude, where the other lookup gives
nothing, it gives what the first column has.
-/

namespace NcdfPlugin.NcdfRecordLookup

open ExactArithmetic NcdfMessage NcdfReader NcdfEvenMap NcdfInterpolation NcdfBlend NcdfSeam

variable {α : Type} [Field α] [LinearOrder α]

/-- `ncdfData::isXInMap`. -/
def isXInMap (m : DataMessage α) (x : α) : Bool :=
  let lastlon :=
    if halfTurn < m.firstGridPointLong ∧ m.lastGridPointLong<halfTurn then
      m.lastGridPointLong+fullTurn
    else m.lastGridPointLong
  if 0 < m.iDirectionIncr then decide (m.firstGridPointLong≤x ∧ x≤lastlon)
  else decide (lastlon≤x ∧ x ≤ m.firstGridPointLong)

/-- `ncdfData::isPointInMap`. -/
def isPointInMap (m : DataMessage α) (x y : α) : Bool := isXInMap m x && isYInMap m y

/-- The longitude that is on the map, as in the other lookup. -/
def reachX (m : DataMessage α) (px py : α) : Option α :=
  if isPointInMap m px py=true then some px
  else if isPointInMap m (px+fullTurn) py=true then some (px+fullTurn)
  else if isPointInMap m (px+fullTurn-(fullTurn+fullTurn)) py=true then
    some (px+fullTurn-(fullTurn+fullTurn))
  else none

/-- `ncdfData::getInterpolatedValue`. The increments are divided by untested. -/
def getInterpolatedValue [FloorRing α] (m : DataMessage α) (grid : Grid α) (px py : α)
    (numerical : Bool) : α :=
  match reachX m px py with
  | none => notDef
  | some x => cellValue m grid (cellOf m (normalizeX m x) py) numerical

/-- Between the first and the last column. -/
def OnColumns (m : DataMessage α) (x : α) : Prop := m.firstGridPointLong≤x ∧ x ≤ m.lastGridPointLong

/-- One turn at most brings a longitude between the columns. -/
def Reached (m : DataMessage α) (px : α) : Prop :=
  OnColumns m px ∨ OnColumns m (px+fullTurn) ∨ OnColumns m (px-fullTurn)

section Regional

variable {m : DataMessage α}

/-- Away from global maps both versions test the same. -/
theorem isXInMap_of_regional (h : coversGlobe m=false) (x : α) :
    isXInMap m x=NcdfInterpolation.isXInMap m x := by
  rw [NcdfInterpolation.isXInMap,if_neg (by simp [h])]
  rfl

/-- On a regional map both copies of the lookup bring a longitude into the map in the same
way. -/
theorem reachX_of_regional (h : coversGlobe m=false) (px py : α) :
    reachX m px py=NcdfInterpolation.reachX m px py := by
  have hpoint (x : α) : isPointInMap m x py=NcdfInterpolation.isPointInMap m x py := by
    rw [isPointInMap,NcdfInterpolation.isPointInMap,isXInMap_of_regional h]
  rw [reachX,NcdfInterpolation.reachX,hpoint,hpoint,hpoint]

end Regional

variable [IsStrictOrderedRing α] [FloorRing α]

section Global

variable {m : DataMessage α}

omit [LinearOrder α] [IsStrictOrderedRing α] [FloorRing α] in
/-- A turn is two half turns. -/
theorem fullTurn_eq_halves [CharZero α] : (fullTurn : α)=halfTurn+halfTurn := by
  norm_num [fullTurn,halfTurn]

omit [FloorRing α] in
/-- There are two columns at least. -/
theorem incr_le_halfTurn (h : GlobalColumns m) : m.iDirectionIncr≤halfTurn := by
  have htwo : (2 : α)≤(m.noPointsParallel : α) := by exact_mod_cast h.two_le
  have hmul := h.columns_mul
  have hfull := fullTurn_eq_halves (α := α)
  nlinarith [h.incr_pos]

omit [FloorRing α] in
/-- On global columns the test is a range of one turn less one column. -/
theorem isXInMap_of_global (h : GlobalColumns m) (x : α) : isXInMap m x=true ↔ OnColumns m x := by
  have hhalf := incr_le_halfTurn h
  have hplain : ¬(halfTurn < m.firstGridPointLong ∧ m.lastGridPointLong<halfTurn) := by
    rintro ⟨hfirst,hlast⟩
    have hturn := h.turn
    linarith [fullTurn_eq_halves (α := α),fullTurn_pos (α := α)]
  rw [isXInMap,if_neg hplain,if_pos h.incr_pos,decide_eq_true_eq]
  rfl

omit [FloorRing α] in
/-- Where the older copy reaches a longitude on global columns: as it is, or one turn
further on either side. -/
theorem reachX_of_global (h : GlobalColumns m) {py : α} (hrow : isYInMap m py=true) (px : α) :
    (OnColumns m px → reachX m px py=some px) ∧
    (¬OnColumns m px → OnColumns m (px+fullTurn) → reachX m px py=some (px+fullTurn)) ∧
    (¬OnColumns m px → ¬OnColumns m (px+fullTurn) → OnColumns m (px-fullTurn) →
      reachX m px py=some (px-fullTurn)) ∧
    (¬Reached m px → reachX m px py=none) := by
  have hon {x : α} (hx : OnColumns m x) : isPointInMap m x py=true := by
    rw [isPointInMap,hrow,Bool.and_true,isXInMap_of_global h]
    exact hx
  have hoff {x : α} (hx : ¬OnColumns m x) : ¬isPointInMap m x py=true := by
    rw [isPointInMap,hrow,Bool.and_true,isXInMap_of_global h]
    exact hx
  have hback : px+fullTurn-(fullTurn+fullTurn)=px-fullTurn := by ring
  rw [reachX,hback]
  refine ⟨fun hin => if_pos (hon hin),fun hout hright => ?_,fun hout hout' hleft => ?_,fun hnone => ?_⟩
  · rw [if_neg (hoff hout),if_pos (hon hright)]
  · rw [if_neg (hoff hout),if_neg (hoff hout'),if_pos (hon hleft)]
  · obtain ⟨hout,hout',hout''⟩ :
        ¬OnColumns m px ∧ ¬OnColumns m (px+fullTurn) ∧ ¬OnColumns m (px-fullTurn) := by
      simpa [Reached] using hnone
    rw [if_neg (hoff hout),if_neg (hoff hout'),if_neg (hoff hout'')]

/-- On global columns the older copy gives what the newer one gives for the longitude that
it reaches. -/
theorem value_of_reachX (h : GlobalColumns m) (hspaced : Spaced m) {px py x : α}
    (hreach : reachX m px py=some x) (hrow : isYInMap m py=true) (grid : Grid α) (numerical : Bool) :
    getInterpolatedValue m grid px py numerical=
      NcdfInterpolation.getInterpolatedValue m grid x py numerical := by
  rw [h.value_eq,if_pos ⟨hrow,hspaced⟩,getInterpolatedValue,hreach]

/-- Queries that a turn brings to the same place get the same answer. -/
theorem value_add_turns (h : GlobalColumns m) {px : α} {k : ℤ} (hcross : ¬CrossesSeam m px k)
    (grid : Grid α) (py : α) (numerical : Bool) :
    NcdfInterpolation.getInterpolatedValue m grid (px+k*fullTurn) py numerical=
      NcdfInterpolation.getInterpolatedValue m grid px py numerical := by
  rw [h.value_eq,h.value_eq,h.normalizeX_add_turns hcross]

/-- One turn to the right onto the columns does not cross the seam. -/
theorem not_crossesSeam_right (h : GlobalColumns m) {px : α} (hright : OnColumns m (px+fullTurn)) :
    ¬CrossesSeam m px 1 := by
  rintro ⟨⟨z,hz⟩,hsides⟩
  have hturn := h.turn
  have hincr := h.incr_pos
  have hfull := fullTurn_pos (α := α)
  obtain ⟨hlow,hhigh⟩ := hright
  have hmeridian : px+fullTurn=m.firstGridPointLong+((z+1 : ℤ) : α)*fullTurn := by
    rw [hz]
    push_cast
    ring
  have hfirst : px+fullTurn=m.firstGridPointLong :=
    eq_of_turns hfull hmeridian (by linarith) (by linarith)
  refine hsides ⟨fun _ => ?_,fun _ => by linarith⟩
  rw [Int.cast_one,one_mul,hfirst]

omit [FloorRing α] in
/-- One turn to the left onto the columns crosses the seam from the closing longitude
only. -/
theorem not_crossesSeam_left {px : α} (hleft : OnColumns m (px-fullTurn))
    (hopen : px≠m.firstGridPointLong+fullTurn) : ¬CrossesSeam m px (-1) := by
  rintro ⟨-,hsides⟩
  have hfull := fullTurn_pos (α := α)
  have hlow := hleft.1
  refine hsides ⟨fun hpx => by linarith,fun hpx => ?_⟩
  have hback : px-fullTurn ≤ m.firstGridPointLong := by simpa [sub_eq_add_neg] using hpx
  exact absurd (sub_eq_iff_eq_add.mp (le_antisymm hback hlow)) hopen

/-- North and south of the rows neither copy of the lookup gives a value. -/
theorem value_off_rows (h : GlobalColumns m) {py : α} (hrow : isYInMap m py=false) (grid : Grid α)
    (px : α) (numerical : Bool) :
    getInterpolatedValue m grid px py numerical=notDef ∧
      NcdfInterpolation.getInterpolatedValue m grid px py numerical=notDef := by
  constructor
  · simp [getInterpolatedValue,reachX,isPointInMap,hrow]
  · rw [h.value_eq,if_neg (by simp [hrow])]

end Global

/-- The older lookup against the newer one. They agree on maps that do not cover the
globe. On global columns they agree where one turn brings the longitude between the
columns, except that the closing longitude counts as the first column; elsewhere the
older one gives nothing. -/
theorem getInterpolatedValue_older (m : DataMessage α) (hspaced : Spaced m) (grid : Grid α) (px py : α)
    (numerical : Bool) :
    (coversGlobe m=false → getInterpolatedValue m grid px py numerical=
      NcdfInterpolation.getInterpolatedValue m grid px py numerical) ∧
    (GlobalColumns m →
      (Reached m px → px≠m.firstGridPointLong+fullTurn →
        getInterpolatedValue m grid px py numerical=
          NcdfInterpolation.getInterpolatedValue m grid px py numerical) ∧
      (px=m.firstGridPointLong+fullTurn →
        getInterpolatedValue m grid px py numerical=
            NcdfInterpolation.getInterpolatedValue m grid m.firstGridPointLong py numerical ∧
          NcdfInterpolation.getInterpolatedValue m grid px py numerical=notDef) ∧
      (¬Reached m px → getInterpolatedValue m grid px py numerical=notDef)) := by
  refine ⟨fun hregional => ?_,fun h => ?_⟩
  · rw [getInterpolatedValue,NcdfInterpolation.getInterpolatedValue,reachX_of_regional hregional]
    cases NcdfInterpolation.reachX m px py with
    | none => rfl
    | some x => exact (if_pos hspaced).symm
  · cases hrow : isYInMap m py with
    | false =>
      have hnothing := fun px => value_off_rows h hrow grid px numerical
      refine ⟨fun _ _ => ?_,fun _ => ⟨?_,(hnothing px).2⟩,fun _ => (hnothing px).1⟩
      · rw [(hnothing px).1,(hnothing px).2]
      · rw [(hnothing px).1,(hnothing m.firstGridPointLong).2]
    | true =>
      have hreach := reachX_of_global h hrow px
      have hfull := fullTurn_pos (α := α)
      have hturn := h.turn
      have hincr := h.incr_pos
      refine ⟨fun hreached hopen => ?_,fun hclosing => ⟨?_,?_⟩,fun hnone => ?_⟩
      · rcases em (OnColumns m px) with hin | hout
        · rw [value_of_reachX h hspaced (hreach.1 hin) hrow]
        · rcases em (OnColumns m (px+fullTurn)) with hright | hout'
          · rw [value_of_reachX h hspaced (hreach.2.1 hout hright) hrow]
            have hcross : ¬CrossesSeam m px 1 := not_crossesSeam_right h hright
            simpa using value_add_turns h hcross grid py numerical
          · have hleft : OnColumns m (px-fullTurn) := by
              simpa [Reached,hout,hout'] using hreached
            rw [value_of_reachX h hspaced (hreach.2.2.1 hout hout' hleft) hrow]
            have hcross : ¬CrossesSeam m px (-1) := not_crossesSeam_left hleft hopen
            simpa [sub_eq_add_neg] using value_add_turns h hcross grid py numerical
      · have hleft : px-fullTurn=m.firstGridPointLong := by rw [hclosing,add_sub_cancel_right]
        have hout : ¬OnColumns m px := fun hin => by linarith [hin.2]
        have hout' : ¬OnColumns m (px+fullTurn) := fun hin => by linarith [hin.2]
        have hin : OnColumns m (px-fullTurn) :=
          ⟨hleft.ge,by linarith [incr_le_halfTurn h,fullTurn_eq_halves (α := α)]⟩
        rw [value_of_reachX h hspaced (hreach.2.2.1 hout hout' hin) hrow,hleft]
      · have hmeridian : ∃ z : ℤ,px=m.firstGridPointLong+z*fullTurn := ⟨1,by simpa using hclosing⟩
        exact h.value_high py (h.normalizeX_high hmeridian (by linarith)) grid numerical
      · rw [getInterpolatedValue,hreach.2.2.2 hnone]

/-- Four columns of 90 degrees, asked for at a point that both copies reach. -/
theorem getInterpolatedValue_older_seam :
    let m := sampleMap unitAxis quarterAxis
    getInterpolatedValue m (onesGrid m) (m.firstGridPointLong+fullTurn) 0 true=1 ∧
      NcdfInterpolation.getInterpolatedValue m (onesGrid m) (m.firstGridPointLong+fullTurn) 0 true=
        notDef := by
  intro m
  have hspaced : Spaced m := by decide +kernel
  have holder := getInterpolatedValue_older m hspaced (onesGrid m) (m.firstGridPointLong+fullTurn) 0 true
  obtain ⟨hvalue,hnothing⟩ := (holder.2 globalColumns_quarters).2.1 rfl
  exact ⟨hvalue.trans (by decide +kernel),hnothing⟩

end NcdfPlugin.NcdfRecordLookup
