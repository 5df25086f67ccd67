import NcdfPlugin.Bearings
import NcdfPlugin.NcdfInterpolation

/-!
# Direction of the current

Three places turn the components of a current into a direction. The value at
the cursor is a bearing in degrees from zero to 360, computed from the
reflected vector. Particles move by a bearing too. Arrows are turned by an
angle in radians, from a shape that points to the left. Over the reals all
three are the direction the current flows to.
-/

namespace NcdfPlugin.NcdfDirection

open ExactArithmetic NcdfLibrary NcdfMessage NcdfReader NcdfInterpolation Bearings

section Model

variable {α : Type} [Field α] [LinearOrder α]

/-- `CurrentData`. -/
structure CurrentData (α : Type) where
  /-- Force. -/
  force : α
  /-- Bearing in degrees. -/
  dir : α

/-- The result of `getCurrentData` for two interpolated components. -/
def currentData (libm : Libm α) (cDir cForce : α) : CurrentData α :=
  if cDir≠notDef ∧ cForce≠notDef then
    let dir := quarterTurn+libm.atan2 cForce (-cDir)*halfTurn/libm.pi-halfTurn
    ⟨libm.sqrt (cDir*cDir+cForce*cForce),if dir<0 then fullTurn+dir else dir⟩
  else ⟨0,0⟩

/-- `getCurrentData`. -/
def getCurrentData [FloorRing α] (libm : Libm α) (gui : GuiGrids α) (lat lon : α) : CurrentData α :=
  match gui.gridu,gui.gridv with
  | some gridu,some gridv =>
    currentData libm (getInterpolatedValue gui.myMessage gridu lon lat true)
      (getInterpolatedValue gui.myMessage gridv lon lat true)
  | _,_ => ⟨0,0⟩

/-- The value at a position is that of the components interpolated there. -/
theorem getCurrentData_of_grids [FloorRing α] (libm : Libm α) {gui : GuiGrids α} {gridu gridv : Grid α}
    (hu : gui.gridu=some gridu) (hv : gui.gridv=some gridv) (lat lon : α) :
    getCurrentData libm gui lat lon=
      currentData libm (getInterpolatedValue gui.myMessage gridu lon lat true)
        (getInterpolatedValue gui.myMessage gridv lon lat true) := by
  rw [getCurrentData,hu,hv]

/-- Bearing that `RenderParticles` moves a particle by. -/
def particleBearing (libm : Libm α) (vx vy : α) : α := libm.atan2 vx vy*halfTurn/libm.pi

/-- A line between two points. -/
structure Line (α : Type) where
  /-- First point. -/
  first : α×α
  /-- Second point. -/
  second : α×α

/-- `m_ArrowBuffer`: the shaft and both sides of the head, to the left. -/
def arrowBuffer : List (Line α) :=
  [⟨(-(10 : ℕ),0),((10 : ℕ),0)⟩,⟨(-(10 : ℕ),0),(-(3 : ℕ),(5 : ℕ))⟩,⟨(-(10 : ℕ),0),(-(3 : ℕ),-(5 : ℕ))⟩]

/-- A vertex as `drawLineBuffer` places it. -/
def placeVertex (libm : Libm α) (x y ang scale : α) (k : α×α) : α×α :=
  let six := libm.sin (libm.toFloat ang)
  let cox := libm.cos (libm.toFloat ang)
  (k.1*cox*scale+k.2*six*scale+x,k.1*six*scale-k.2*cox*scale+y)

/-- The lines that `drawLineBuffer` draws, ten at most. -/
def drawLineBuffer (libm : Libm α) (lines : List (Line α)) (x y ang scale : α) : List (Line α) :=
  (lines.take 10).map fun line =>
    ⟨placeVertex libm x y ang scale line.first,placeVertex libm x y ang scale line.second⟩

/-- The arrow that `RenderncdfCurrent` draws at a point of the screen. -/
def currentArrow (libm : Libm α) (rotation vx vy x y : α) : List (Line α) :=
  if vx=notDef ∨ vy=notDef then []
  else
    let mag := libm.sqrt (vx*vx+vy*vy)
    if mag<decimal 1 100 then []
    else drawLineBuffer libm arrowBuffer x y (libm.atan2 vy (-vx)+rotation) (max 1 mag)

end Model

section Reals

/-- The mathematical functions over the reals. -/
noncomputable def realLibm : Libm ℝ where
  sqrt := Real.sqrt
  atan2 := atan2
  sin := Real.sin
  cos := Real.cos
  asin := Real.arcsin
  pi := Real.pi
  toFloat := id

/-- The reflected bearing, before and after it is brought up to zero. -/
theorem currentData_bearing {u v : ℝ} (hu : u≠notDef) (hv : v≠notDef) :
    IsBearing (currentData realLibm u v).dir u v ∧ 0≤(currentData realLibm u v).dir ∧
      (currentData realLibm u v).dir<360 := by
  have hraw : quarterTurn+realLibm.atan2 v (-u)*halfTurn/realLibm.pi-halfTurn=
      degrees (atan2 v (-u))-90 := by
    rw [degrees_eq]
    change 90+atan2 v (-u)*180/Real.pi-180=_
    ring
  have hpi := Real.pi_pos
  have hlow : -180<degrees (atan2 v (-u)) := by
    rw [degrees_eq,lt_div_iff₀ hpi]
    linarith [neg_pi_lt_atan2 v (-u)]
  have hhigh : degrees (atan2 v (-u))≤180 := by
    rw [degrees_eq,div_le_iff₀ hpi]
    linarith [atan2_le_pi v (-u)]
  have hbearing := isBearing_atan2_reflected u v
  rw [currentData,if_pos ⟨hu,hv⟩]
  dsimp only
  rw [hraw,fullTurn]
  split
  next hneg =>
    have hturn := hbearing.add_turns 1
    rw [Int.cast_one,one_mul,add_comm] at hturn
    exact ⟨hturn,by linarith,by linarith⟩
  next hnonneg => exact ⟨hbearing,not_lt.mp hnonneg,by linarith⟩

/-- The tip of the shape goes to where the current flows, with the second
coordinate of the screen pointing down. -/
theorem placeVertex_head (u v x y scale : ℝ) (hne : u≠0 ∨ v≠0) :
    placeVertex realLibm x y (realLibm.atan2 v (-u)+0) scale (-10,0)=
      (x+10*scale/length u v*u,y-10*scale/length u v*v) := by
  have hpos := (length_pos hne).ne'
  have hcos := length_mul_cos_atan2 v (-u)
  have hsin := length_mul_sin_atan2 v (-u)
  rw [length_neg_left] at hcos hsin
  have hcos' : Real.cos (atan2 v (-u))= -u/length u v := by
    rw [eq_div_iff hpos,mul_comm,hcos]
  have hsin' : Real.sin (atan2 v (-u))=v/length u v := by
    rw [eq_div_iff hpos,mul_comm,hsin]
  rw [add_zero]
  change (-10*Real.cos (atan2 v (-u))*scale+0*Real.sin (atan2 v (-u))*scale+x,
    -10*Real.sin (atan2 v (-u))*scale-0*Real.cos (atan2 v (-u))*scale+y)=_
  rw [hcos',hsin',Prod.mk.injEq]
  constructor <;> ring

/-- One direction everywhere. The value at the cursor is the bearing of the
current in the range of the display, particles move by the same bearing up to
whole turns, and without rotation every line of an arrow starts at a tip that
lies from its centre in the direction of the current. -/
theorem one_direction {u v : ℝ} (hu : u≠notDef) (hv : v≠notDef) (hne : u≠0 ∨ v≠0) (x y : ℝ) :
    (0≤(currentData realLibm u v).dir ∧ (currentData realLibm u v).dir<360) ∧
    ((currentData realLibm u v).force*Real.sin (radians (currentData realLibm u v).dir)=u ∧
      (currentData realLibm u v).force*Real.cos (radians (currentData realLibm u v).dir)=v) ∧
    (∃ k : ℤ,particleBearing realLibm u v=(currentData realLibm u v).dir+k*360) ∧
    (1/100 ≤ realLibm.sqrt (u*u+v*v) → (currentArrow realLibm 0 u v x y).length=3) ∧
    ∃ c>0,∀ line∈currentArrow realLibm 0 u v x y,line.first=(x+c*u,y-c*v) := by
  obtain ⟨hbearing,hlow,hhigh⟩ := currentData_bearing hu hv
  have hforce : (currentData realLibm u v).force=length u v := by
    rw [currentData,if_pos ⟨hu,hv⟩]
    rfl
  have hdefined : ¬(u=notDef ∨ v=notDef) := not_or.mpr ⟨hu,hv⟩
  refine ⟨⟨hlow,hhigh⟩,?_,(isBearing_atan2 u v).turns hbearing hne,fun hmag => ?_,?_⟩
  · rw [hforce]
    exact ⟨hbearing.east_eq,hbearing.north_eq⟩
  · rw [currentArrow,if_neg hdefined]
    dsimp only
    have hmag' : (decimal 1 100 : ℝ) ≤ realLibm.sqrt (u*u+v*v) := by
      rw [decimal]
      exact_mod_cast hmag
    rw [if_neg (not_lt.mpr hmag')]
    rfl
  · have hscale : 0 < max 1 (realLibm.sqrt (u*u+v*v)) := zero_lt_one.trans_le (le_max_left _ _)
    have hpos := length_pos hne
    refine ⟨10*max 1 (realLibm.sqrt (u*u+v*v))/length u v,by positivity,fun line hline => ?_⟩
    rw [currentArrow,if_neg hdefined] at hline
    dsimp only at hline
    split at hline
    · cases hline
    · obtain ⟨shape,hshape,rfl⟩ := List.mem_map.mp hline
      have htip : shape.first=(-10,0) := by
        rcases List.mem_of_mem_take hshape with _ | ⟨_,_ | ⟨_,_ | ⟨_,h⟩⟩⟩
        · rfl
        · rfl
        · rfl
        · cases h
      dsimp only
      rw [htip]
      exact placeVertex_head u v x y _ hne

/-- A current of three to the east and four to the south, which all readers turn the same
way. -/
theorem one_direction_southeast :
    (0≤(currentData realLibm 3 (-4)).dir ∧ (currentData realLibm 3 (-4)).dir<360) ∧
    ((currentData realLibm 3 (-4)).force*Real.sin (radians (currentData realLibm 3 (-4)).dir)=3 ∧
      (currentData realLibm 3 (-4)).force*
        Real.cos (radians (currentData realLibm 3 (-4)).dir)= -4) ∧
    (∃ k : ℤ,particleBearing realLibm 3 (-4)=(currentData realLibm 3 (-4)).dir+k*360) ∧
    (1/100 ≤ realLibm.sqrt (3*3+(-4)*(-4)) → (currentArrow realLibm 0 3 (-4) 7 9).length=3) ∧
    ∃ c>0,∀ line∈currentArrow realLibm 0 3 (-4) 7 9,line.first=(7+c*3,9-c*(-4)) :=
  one_direction (by norm_num [notDef]) (by norm_num [notDef]) (Or.inl (by norm_num)) 7 9

end Reals

end NcdfPlugin.NcdfDirection
