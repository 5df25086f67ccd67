import NcdfPlugin.SteppedLoops
import NcdfPlugin.NcdfDirection

/-!
# The field of current arrows

`RenderncdfCurrent` draws arrows at the multiples of a spacing in degrees that
comes from the pixels of one degree at the centre of the view. Its nested loops
start at the last multiple before the view, go on to one spacing behind it, and
stop after 5000 points. Up to that number every point of the view is surrounded
by four points of the field; beyond it the rows in the north are missing.
-/

namespace NcdfPlugin.NcdfArrows

open ExactArithmetic FlatLayout SteppedLoops NcdfLibrary NcdfMessage NcdfReader NcdfInterpolation
  NcdfDirection

section Program

variable {α : Type} [Field α] [LinearOrder α]

/-- What `RenderncdfCurrent` reads of the viewport. -/
structure ArrowView (α : Type) where
  /-- `clat`. -/
  clat : α
  /-- `clon`. -/
  clon : α
  /-- `lat_min`. -/
  lat_min : α
  /-- `lat_max`. -/
  lat_max : α
  /-- `lon_min`. -/
  lon_min : α
  /-- `lon_max`. -/
  lon_max : α
  /-- `rotation`. -/
  rotation : α
  /-- `GetCanvasPixLL`: pixel of a latitude and a longitude. -/
  canvasPixLL : α → α → ℤ×ℤ

/-- `arrowSpacing`, in pixels. -/
def arrowSpacing : ℕ := 80

/-- `maxIter`. -/
def maxIter : ℕ := 5000

/-- Step in degrees for the number of pixels of one degree. -/
def arrowStep (d : α) : α :=
  let sp := if 1<d then arrowSpacing/d else 1
  if sp<half then half else sp

/-- `dy`: pixels between the centre and a degree to the north. -/
def degreeHeight (vp : ArrowView α) : α :=
  |(((vp.canvasPixLL (vp.clat+1) (vp.clon+1)).2-(vp.canvasPixLL vp.clat vp.clon).2 : ℤ) : α)|

/-- `dx`: pixels between the centre and a degree to the east. -/
def degreeWidth (vp : ArrowView α) : α :=
  |(((vp.canvasPixLL (vp.clat+1) (vp.clon+1)).1-(vp.canvasPixLL vp.clat vp.clon).1 : ℤ) : α)|

/-- `lat_sp`. -/
def latSp (vp : ArrowView α) : α := arrowStep (degreeHeight vp)

/-- `lon_sp`. -/
def lonSp (vp : ArrowView α) : α := arrowStep (degreeWidth vp)

variable [FloorRing α]

/-- `start_lat`. -/
def startLat (vp : ArrowView α) : α := ⌊vp.lat_min/latSp vp⌋*latSp vp

/-- `start_lon`. -/
def startLon (vp : ArrowView α) : α := ⌊vp.lon_min/lonSp vp⌋*lonSp vp

/-- The points that the loops visit, with `fuel` turns for the outer one. -/
def arrowPoints (fuel : ℕ) (vp : ArrowView α) : Option (List (α×α)) :=
  stepLattice (latSp vp) (vp.lat_max+latSp vp) (lonSp vp) (vp.lon_max+lonSp vp) (startLon vp) fuel
    maxIter (startLat vp)

/-- What a turn of the inner loop draws. The current is interpolated at the
longitude between -180 and 180, the arrow is placed at the true one. -/
def arrowAt (libm : Libm α) (m : DataMessage α) (gridu gridv : Grid α) (vp : ArrowView α) (p : α×α) :
    List (Line α) :=
  let nlon := reduce fullTurn (-halfTurn) halfTurn p.2
  let pixel := vp.canvasPixLL p.1 p.2
  currentArrow libm vp.rotation (getInterpolatedValue m gridu nlon p.1 true)
    (getInterpolatedValue m gridv nlon p.1 true) pixel.1 pixel.2

/-- `RenderncdfCurrent`: the lines it draws in their order. -/
def renderncdfCurrent (libm : Libm α) (fuel : ℕ) (gui : GuiGrids α) (vp : ArrowView α) :
    Option (List (Line α)) :=
  match gui.gridu,gui.gridv with
  | some gridu,some gridv =>
    if gui.myMessage.lonLength<2 ∨ gui.myMessage.latLength<2 then some []
    else (arrowPoints fuel vp).map (List.flatMap (arrowAt libm gui.myMessage gridu gridv vp))
  | _,_ => some []

/-- Rows of the field without the limit. -/
def arrowRows (vp : ArrowView α) : ℕ := stepCount (latSp vp) (startLat vp) (vp.lat_max+latSp vp)

/-- Columns of the field. -/
def arrowColumns (vp : ArrowView α) : ℕ := stepCount (lonSp vp) (startLon vp) (vp.lon_max+lonSp vp)

/-- Node of the field at multiples of the spacings. -/
def arrowNode (vp : ArrowView α) (m n : ℤ) : α×α := (m*latSp vp,n*lonSp vp)

/-- A node is at most one spacing outside the view. -/
structure NearView (vp : ArrowView α) (p : α×α) : Prop where
  /-- Not a whole step to the south. -/
  south : vp.lat_min-latSp vp<p.1
  /-- At most a step to the north. -/
  north : p.1≤vp.lat_max+latSp vp
  /-- Not a whole step to the west. -/
  west : vp.lon_min-lonSp vp<p.2
  /-- At most a step to the east. -/
  east : p.2≤vp.lon_max+lonSp vp

/-- What the visited points have to do with the view. -/
structure ArrowField (vp : ArrowView α) (points : List (α×α)) : Prop where
  /-- Every point is a node of the field. -/
  nodes : ∀ p∈points,∃ m n : ℤ,p=arrowNode vp m n
  /-- A node is visited when it is near the view and among the first ones. -/
  visited : ∀ m n : ℤ,arrowNode vp m n∈points ↔ NearView vp (arrowNode vp m n) ∧
    (m-⌊vp.lat_min/latSp vp⌋)*arrowColumns vp+(n-⌊vp.lon_min/lonSp vp⌋) < maxIter
  /-- No point is visited twice. -/
  once : points.Nodup
  /-- As many as there are, up to the limit. -/
  count : points.length=min maxIter (arrowRows vp*arrowColumns vp)
  /-- Within the limit all corners around a point of the view are visited. -/
  surrounded : arrowRows vp*arrowColumns vp ≤ maxIter → ∀ lat lon : α,
    vp.lat_min≤lat → lat≤vp.lat_max → vp.lon_min≤lon → lon≤vp.lon_max → ∀ a∈[(0 : ℤ),1],∀ b∈[(0 : ℤ),1],
      arrowNode vp (⌊lat/latSp vp⌋+a) (⌊lon/lonSp vp⌋+b)∈points

end Program

section Field

variable {α : Type} [Field α] [LinearOrder α] [IsStrictOrderedRing α]

omit [IsStrictOrderedRing α] in
/-- Steps are half a degree at least, and at least what the pixels ask for. -/
theorem arrowStep_ge (d : α) : half≤arrowStep d ∧ (if 1<d then arrowSpacing/d else 1)≤arrowStep d := by
  unfold arrowStep
  generalize (if 1<d then (arrowSpacing : α)/d else 1)=sp
  by_cases h : sp<half
  · rw [if_pos h]
    exact ⟨le_rfl,h.le⟩
  · rw [if_neg h]
    exact ⟨not_lt.mp h,le_rfl⟩

/-- Steps between arrows are never zero, so the loops advance. -/
theorem arrowStep_pos (d : α) : 0<arrowStep d :=
  lt_of_lt_of_le (by norm_num [half]) (arrowStep_ge d).1

/-- Step between the rows of arrows. -/
theorem latSp_pos (vp : ArrowView α) : 0 < latSp vp := arrowStep_pos _

/-- Step between the columns of arrows. -/
theorem lonSp_pos (vp : ArrowView α) : 0 < lonSp vp := arrowStep_pos _

/-- Where a degree has more than one pixel, steps have 80 pixels at least. -/
theorem arrowStep_pixels {d : α} (hd : 1<d) : arrowSpacing≤arrowStep d*d := by
  have hraw := (arrowStep_ge d).2
  rw [if_pos hd] at hraw
  exact (div_le_iff₀ (zero_lt_one.trans hd)).mp hraw

variable [FloorRing α]

/-- A multiple of the step is at or behind the first one exactly when it is
not a whole step before the bound. -/
theorem floor_le_iff {d : α} (hd : 0<d) (low : α) (m : ℤ) : ⌊low/d⌋ ≤ m ↔ low-d < m*d := by
  rw [←Int.lt_add_one_iff,Int.floor_lt,div_lt_iff₀ hd]
  push_cast
  constructor <;> intro h <;> linarith

omit [IsStrictOrderedRing α] in
/-- The point of a turn of the two loops is the node of the lattice that many rows and
columns from the first. -/
theorem latticePoint_eq (vp : ArrowView α) (j i : ℕ) :
    latticePoint (latSp vp) (startLat vp) (lonSp vp) (startLon vp) j i=
      arrowNode vp (⌊vp.lat_min/latSp vp⌋+j) (⌊vp.lon_min/lonSp vp⌋+i) := by
  simp only [latticePoint,arrowNode,startLat,startLon,Int.cast_add,Int.cast_natCast,add_mul]

/-- Different rows or columns of the lattice are different points of the chart. -/
theorem arrowNode_inj {vp : ArrowView α} {m n m' n' : ℤ} (h : arrowNode vp m n=arrowNode vp m' n') :
    m=m' ∧ n=n' := by
  obtain ⟨hlat,hlon⟩ := Prod.mk.inj h
  exact ⟨Int.cast_injective (mul_right_cancel₀ (latSp_pos vp).ne' hlat),
    Int.cast_injective (mul_right_cancel₀ (lonSp_pos vp).ne' hlon)⟩

/-- The row of a turn is in the field when its node is near the view. -/
theorem lt_arrowRows_iff (vp : ArrowView α) (j : ℕ) :
    j<arrowRows vp ↔ ((⌊vp.lat_min/latSp vp⌋+j : ℤ) : α)*latSp vp≤vp.lat_max+latSp vp := by
  rw [arrowRows,lt_stepCount_iff (latSp_pos vp),startLat]
  push_cast
  rw [add_mul]

/-- The columns that are visited are those up to one step beyond the eastern edge of the
view. -/
theorem lt_arrowColumns_iff (vp : ArrowView α) (i : ℕ) :
    i<arrowColumns vp ↔ ((⌊vp.lon_min/lonSp vp⌋+i : ℤ) : α)*lonSp vp≤vp.lon_max+lonSp vp := by
  rw [arrowColumns,lt_stepCount_iff (lonSp_pos vp),startLon]
  push_cast
  rw [add_mul]

/-- The points that the loops visit. -/
def visitedPoints (vp : ArrowView α) : List (α×α) :=
  (rowMajor (arrowRows vp) (arrowColumns vp)
    (latticePoint (latSp vp) (startLat vp) (lonSp vp) (startLon vp))).take maxIter

/-- With a turn for each row and one to see the end, the loops visit exactly the listed
points. -/
theorem arrowPoints_eq {vp : ArrowView α} {fuel : ℕ} (hfuel : arrowRows vp<fuel) :
    arrowPoints fuel vp=some (visitedPoints vp) :=
  stepLattice_eq (latSp_pos vp) (lonSp_pos vp) maxIter hfuel

/-- A view needs at most two rows for each degree, and three more. -/
theorem arrowRows_le {vp : ArrowView α} (hview : vp.lat_min≤vp.lat_max) :
    (arrowRows vp : α)≤2*(vp.lat_max-vp.lat_min)+3 := by
  have hsp := latSp_pos vp
  have hhalf : 1≤2*latSp vp := by
    have hstep := (arrowStep_ge (degreeHeight vp)).1
    unfold half at hstep
    unfold latSp
    linarith
  cases hrows : arrowRows vp with
  | zero =>
    rw [Nat.cast_zero]
    linarith
  | succ k =>
    have hlast := (lt_arrowRows_iff vp k).mp (by omega)
    have hfloor := Int.lt_floor_add_one (vp.lat_min/latSp vp)
    rw [div_lt_iff₀ hsp] at hfloor
    push_cast at hlast ⊢
    have hspan : (k : α)*latSp vp<(2*(vp.lat_max-vp.lat_min)+2)*latSp vp := by
      have hmul := mul_le_mul_of_nonneg_left hhalf (sub_nonneg.mpr hview)
      linarith
    linarith [lt_of_mul_lt_mul_right hspan hsp.le]

/-- A point of the lattice is visited when it lies near the view and its number in the order
of rows is below the limit. -/
theorem visited_iff (vp : ArrowView α) (m n : ℤ) :
    arrowNode vp m n∈visitedPoints vp ↔ NearView vp (arrowNode vp m n) ∧
      (m-⌊vp.lat_min/latSp vp⌋)*arrowColumns vp+(n-⌊vp.lon_min/lonSp vp⌋) < maxIter := by
  have hlat := floor_le_iff (latSp_pos vp) vp.lat_min m
  have hlon := floor_le_iff (lonSp_pos vp) vp.lon_min n
  rw [visitedPoints,mem_take_rowMajor]
  constructor
  · rintro ⟨j,hj,i,hi,hlt,heq⟩
    rw [latticePoint_eq] at heq
    obtain ⟨rfl,rfl⟩ := arrowNode_inj heq
    refine ⟨⟨hlat.mp (by omega),(lt_arrowRows_iff vp j).mp hj,hlon.mp (by omega),
      (lt_arrowColumns_iff vp i).mp hi⟩,?_⟩
    rw [add_sub_cancel_left,add_sub_cancel_left]
    exact_mod_cast hlt
  · rintro ⟨hnear,hlt⟩
    obtain ⟨j,hj⟩ := Int.le.dest (hlat.mpr hnear.south)
    obtain ⟨i,hi⟩ := Int.le.dest (hlon.mpr hnear.west)
    subst hj hi
    rw [add_sub_cancel_left,add_sub_cancel_left] at hlt
    exact ⟨j,(lt_arrowRows_iff vp j).mpr hnear.north,i,(lt_arrowColumns_iff vp i).mpr hnear.east,
      by exact_mod_cast hlt,latticePoint_eq vp j i⟩

/-- No point is visited twice, since the points of a lattice differ. -/
theorem nodup_visitedPoints (vp : ArrowView α) : (visitedPoints vp).Nodup := by
  refine List.Nodup.sublist (List.take_sublist _ _) ?_
  rw [rowMajor_eq_map_range]
  refine List.Nodup.map_on ?_ List.nodup_range
  intro k _ k' _ heq
  rw [latticePoint_eq,latticePoint_eq] at heq
  obtain ⟨hrow,hcolumn⟩ := arrowNode_inj heq
  have hdiv : k/arrowColumns vp=k'/arrowColumns vp := by omega
  have hmod : k%arrowColumns vp=k'%arrowColumns vp := by omega
  rw [←Nat.div_add_mod k (arrowColumns vp),←Nat.div_add_mod k' (arrowColumns vp),hdiv,hmod]

omit [IsStrictOrderedRing α] in
/-- There are as many points as rows and columns give, up to the limit of the loops. -/
theorem length_visitedPoints (vp : ArrowView α) :
    (visitedPoints vp).length=min maxIter (arrowRows vp*arrowColumns vp) := by
  rw [visitedPoints,List.length_take,rowMajor_length]

/-- Steps to the sides of a value stay in a range around it. -/
theorem corner_range {d low high x : α} (hd : 0<d) (hlow : low≤x) (hhigh : x≤high) {a : ℤ}
    (ha : a∈[(0 : ℤ),1]) :
    low-d<((⌊x/d⌋+a : ℤ) : α)*d ∧ ((⌊x/d⌋+a : ℤ) : α)*d≤high+d := by
  have hbelow : (⌊x/d⌋ : α)*d≤x := (le_div_iff₀ hd).mp (Int.floor_le _)
  have habove := Int.lt_floor_add_one (x/d)
  rw [div_lt_iff₀ hd] at habove
  rcases List.mem_pair.mp ha with rfl | rfl <;> push_cast <;> constructor <;> linarith

/-- Below the limit the four points of the lattice around any point of the view are visited,
so no part of the view is without arrows. -/
theorem surrounded_visitedPoints {vp : ArrowView α} (hlimit : arrowRows vp*arrowColumns vp ≤ maxIter)
    {lat lon : α} (hsouth : vp.lat_min≤lat) (hnorth : lat≤vp.lat_max) (hwest : vp.lon_min≤lon)
    (heast : lon≤vp.lon_max) {a b : ℤ} (ha : a∈[(0 : ℤ),1]) (hb : b∈[(0 : ℤ),1]) :
    arrowNode vp (⌊lat/latSp vp⌋+a) (⌊lon/lonSp vp⌋+b)∈visitedPoints vp := by
  obtain ⟨hlatLow,hlatHigh⟩ := corner_range (latSp_pos vp) hsouth hnorth ha
  obtain ⟨hlonLow,hlonHigh⟩ := corner_range (lonSp_pos vp) hwest heast hb
  obtain ⟨j,hj⟩ := Int.le.dest ((floor_le_iff (latSp_pos vp) _ _).mpr hlatLow)
  obtain ⟨i,hi⟩ := Int.le.dest ((floor_le_iff (lonSp_pos vp) _ _).mpr hlonLow)
  rw [←hj] at hlatHigh ⊢
  rw [←hi] at hlonHigh ⊢
  have hrow := (lt_arrowRows_iff vp j).mpr hlatHigh
  have hcolumn := (lt_arrowColumns_iff vp i).mpr hlonHigh
  rw [visitedPoints,mem_take_rowMajor]
  exact ⟨j,hrow,i,hcolumn,(flat_lt hrow hcolumn).trans_le hlimit,latticePoint_eq vp j i⟩

/-- The visited points are the field of arrows that one would ask for. -/
theorem arrowField_visitedPoints (vp : ArrowView α) : ArrowField vp (visitedPoints vp) where
  nodes := by
    intro p hp
    obtain ⟨j,-,i,-,-,rfl⟩ := (mem_take_rowMajor _ _ _ _ p).mp hp
    exact ⟨_,_,latticePoint_eq vp j i⟩
  visited := visited_iff vp
  once := nodup_visitedPoints vp
  count := length_visitedPoints vp
  surrounded := fun hlimit _ _ hsouth hnorth hwest heast _ ha _ hb =>
    surrounded_visitedPoints hlimit hsouth hnorth hwest heast ha hb

/-- An arrow shows the current at its place, up to whole turns. -/
theorem arrowAt_turned (libm : Libm α) (m : DataMessage α) (gridu gridv : Grid α) (vp : ArrowView α)
    (p : α×α) : ∃ z : ℤ,|p.2+z*fullTurn|≤halfTurn ∧ arrowAt libm m gridu gridv vp p=
      currentArrow libm vp.rotation (getInterpolatedValue m gridu (p.2+z*fullTurn) p.1 true)
        (getInterpolatedValue m gridv (p.2+z*fullTurn) p.1 true) (vp.canvasPixLL p.1 p.2).1
        (vp.canvasPixLL p.1 p.2).2 := by
  obtain ⟨z,hz⟩ := reduce_turns (fullTurn_pos (α:=α)) (-halfTurn) halfTurn p.2
  have hlow := low_le_reduce (fullTurn_pos (α:=α)) (-halfTurn) halfTurn p.2
  have hhigh : reduce fullTurn (-halfTurn) halfTurn p.2≤halfTurn :=
    reduce_le_of_long fullTurn_pos (by norm_num [halfTurn,fullTurn]) p.2
  rw [hz] at hlow hhigh
  exact ⟨z,abs_le.mpr ⟨hlow,hhigh⟩,by rw [arrowAt,hz]⟩

/-- The arrows of a view. The loops end, the points visited are the nodes of
the field near the view up to the limit, each arrow shows the current at its own
place, and steps have 80 pixels at least where a degree has more than one. -/
theorem renderncdfCurrent_field (libm : Libm α) {gui : GuiGrids α} {gridu gridv : Grid α}
    (hu : gui.gridu=some gridu) (hv : gui.gridv=some gridv) (hni : 2 ≤ gui.myMessage.lonLength)
    (hnj : 2 ≤ gui.myMessage.latLength) {vp : ArrowView α} (hview : vp.lat_min≤vp.lat_max) {fuel : ℕ}
    (hfuel : 2*(vp.lat_max-vp.lat_min)+3<fuel) :
    ∃ points,ArrowField vp points ∧
      renderncdfCurrent libm fuel gui vp=
        some (points.flatMap (arrowAt libm gui.myMessage gridu gridv vp)) ∧
      (∀ p∈points,∃ z : ℤ,|p.2+z*fullTurn|≤halfTurn ∧ arrowAt libm gui.myMessage gridu gridv vp p=
        currentArrow libm vp.rotation
          (getInterpolatedValue gui.myMessage gridu (p.2+z*fullTurn) p.1 true)
          (getInterpolatedValue gui.myMessage gridv (p.2+z*fullTurn) p.1 true)
          (vp.canvasPixLL p.1 p.2).1 (vp.canvasPixLL p.1 p.2).2) ∧
      (1<degreeHeight vp → arrowSpacing ≤ latSp vp*degreeHeight vp) ∧
      (1<degreeWidth vp → arrowSpacing ≤ lonSp vp*degreeWidth vp) := by
  have hrows : arrowRows vp<fuel := by
    have hcast : (arrowRows vp : α)<fuel := (arrowRows_le hview).trans_lt hfuel
    exact_mod_cast hcast
  have hsizes : ¬(gui.myMessage.lonLength<2 ∨ gui.myMessage.latLength<2) := by omega
  refine ⟨visitedPoints vp,arrowField_visitedPoints vp,?_,fun p _ => arrowAt_turned libm _ _ _ vp p,
    arrowStep_pixels,arrowStep_pixels⟩
  unfold renderncdfCurrent
  rw [hu,hv]
  dsimp only
  rw [if_neg hsizes,arrowPoints_eq hrows,Option.map_some]

end Field

section Sample

/-- Two rows of a current to the north-east. -/
noncomputable def northEast : GuiGrids ℝ where
  myMessage := {lonLength := 2,latLength := 2}
  gridu := some [[1,1],[1,1]]
  gridv := some [[1,1],[1,1]]

/-- A view around the equator with 100 pixels for a degree. -/
noncomputable def equatorView : ArrowView ℝ where
  clat := 0
  clon := 0
  lat_min := -1
  lat_max := 1
  lon_min := -1
  lon_max := 1
  rotation := 0
  canvasPixLL := fun lat lon => (⌊((100 : ℕ) : ℝ)*lon⌋,⌊-(((100 : ℕ) : ℝ)*lat)⌋)

/-- A view around the equator with a uniform current to the northeast on a map of two by two
nodes. -/
theorem renderncdfCurrent_field_equator :
    ∃ points,ArrowField equatorView points ∧
      renderncdfCurrent realLibm 10 northEast equatorView=some (points.flatMap
        (arrowAt realLibm northEast.myMessage [[1,1],[1,1]] [[1,1],[1,1]] equatorView)) ∧
      (∀ p∈points,∃ z : ℤ,|p.2+z*fullTurn|≤halfTurn ∧
        arrowAt realLibm northEast.myMessage [[1,1],[1,1]] [[1,1],[1,1]] equatorView p=
          currentArrow realLibm equatorView.rotation
            (getInterpolatedValue northEast.myMessage [[1,1],[1,1]] (p.2+z*fullTurn) p.1 true)
            (getInterpolatedValue northEast.myMessage [[1,1],[1,1]] (p.2+z*fullTurn) p.1 true)
            (equatorView.canvasPixLL p.1 p.2).1 (equatorView.canvasPixLL p.1 p.2).2) ∧
      (1<degreeHeight equatorView → arrowSpacing ≤ latSp equatorView*degreeHeight equatorView) ∧
      (1<degreeWidth equatorView → arrowSpacing ≤ lonSp equatorView*degreeWidth equatorView) := by
  have hview : equatorView.lat_min≤equatorView.lat_max := by norm_num [equatorView]
  have hfuel : 2*(equatorView.lat_max-equatorView.lat_min)+3<(10 : ℕ) := by norm_num [equatorView]
  exact renderncdfCurrent_field realLibm rfl rfl le_rfl le_rfl hview hfuel

end Sample

end NcdfPlugin.NcdfArrows
