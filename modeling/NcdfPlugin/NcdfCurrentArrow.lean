import NcdfPlugin.GuardedRun
import NcdfPlugin.NcdfDirection
import NcdfPlugin.NcdfParticle
import Mathlib.Analysis.SpecialFunctions.Log.Base

/-!
# Arrows placed by the user

An arrow that the user places shows the current at its place by a shape that is
turned downstream and grows with the logarithm of the speed. On a device context the
outline is drawn and filled at once. With OpenGL the filling is drawn from points that
the factory keeps, and a current too slow for a shape leaves these points as they are:
its arrow is filled with the shape of the arrow before it.
-/

namespace NcdfPlugin.NcdfCurrentArrow

open GuardedRun ExactArithmetic NcdfLibrary NcdfMessage NcdfReader NcdfInterpolation NcdfOverlay
  NcdfParticle NcdfDirection Bearings
open NcdfColorMap (Rgb seaCurrentColor)

section Program

variable {α : Type} [Field α] [LinearOrder α]

/-- `CurrentArrowArray`. -/
def currentArrowArray : List (ℤ×ℤ) :=
  [(0,0),(0,-10),(55,-10),(55,-25),(100,0),(55,25),(55,10),(0,10),(0,0)]

/-- Members of the factory that the arrows share. -/
structure ArrowState where
  /-- `c_GLcolour`. -/
  c_GLcolour : Rgb
  /-- `p_basic`. -/
  p_basic : List (ℤ×ℤ)

/-- One arrow on the screen. -/
structure ShownArrow (α : Type) where
  /-- Pixel of its place. -/
  place : ℤ×ℤ
  /-- Lines of the outline. -/
  lines : List (Line ℤ)
  /-- Corners of the filled polygon. -/
  polygon : List (ℤ×ℤ)
  /-- Colour of the filling. -/
  fill : Rgb
  /-- Numbers at the arrow, with their distance below its place. -/
  labels : List (α×ℤ)

/-- What is read of viewport and display. -/
structure ArrowCanvas (α : Type) where
  /-- `chart_scale`. -/
  chart_scale : α
  /-- `rotation`. -/
  rotation : α
  /-- `GetCanvasPixLL`. -/
  canvasPixLL : α → α → ℤ×ℤ
  /-- Width of the display in pixels. -/
  sx : ℤ
  /-- Width of the display in millimetres. -/
  mmx : ℤ

/-- The loop over the points: a line from each point to the next, seen from a place. -/
def arrowLines (place : ℤ×ℤ) (turned : ℤ×ℤ → ℤ×ℤ) : ℤ×ℤ → List (ℤ×ℤ) → List (Line ℤ)
  | _,[] => []
  | p,q::points =>
    ⟨(p.1+place.1,p.2+place.2),((turned q).1+place.1,(turned q).2+place.2)⟩::
      arrowLines place turned (turned q) points

/-- `scale` of an arrow, from the pixels of a millimetre and the decimal logarithm. -/
def arrowScale (libm : Libm α) (log10 : α → α) (cv : ArrowCanvas α) (tcvalue : α) : α :=
  let m_pix_per_mm : α := cv.sx/cv.mmx
  let current_draw_scaler := libm.toFloat ((10 : ℕ)*m_pix_per_mm*(100 : ℕ)/(100 : ℕ))
  let a1 := max 1 (|tcvalue| * (10 : ℕ))
  current_draw_scaler*log10 a1

variable [FloorRing α]

/-- A point of the shape, turned, scaled and cut to whole pixels. -/
def turnedPoint (libm : Libm α) (rot_angle scale : α) (p : ℤ×ℤ) : ℤ×ℤ :=
  let sin_rot := libm.toFloat (libm.sin (rot_angle*libm.pi/halfTurn))
  let cos_rot := libm.toFloat (libm.cos (rot_angle*libm.pi/halfTurn))
  let xp := libm.toFloat (p.1*cos_rot-p.2*sin_rot)
  let yp := libm.toFloat (p.1*sin_rot+p.2*cos_rot)
  (truncate (xp*scale),truncate (yp*scale))

/-- `p_basic` after an arrow with a shape: the points around the middle of an image. -/
def basicPoints (libm : Libm α) (rot_angle scale : α) : List (ℤ×ℤ) :=
  (100,100)::currentArrowArray.tail.map fun q =>
    (100+(turnedPoint libm rot_angle scale q).1,100+(turnedPoint libm rot_angle scale q).2)

/-- `drawCurrentArrow`: the members it leaves, the lines, and the polygon that is
filled on a device context, which has the starts of the lines behind the place. -/
def drawCurrentArrow (libm : Libm α) (s : ArrowState) (place : ℤ×ℤ) (rot_angle scale rate : α) :
    ArrowState×List (Line ℤ)×List (ℤ×ℤ) :=
  let colour := seaCurrentColor |rate|
  if decimal 1 100 < scale then
    let turned := turnedPoint libm rot_angle scale
    let lines := arrowLines place turned (turned (0,0)) currentArrowArray.tail
    (⟨colour,basicPoints libm rot_angle scale⟩,lines,place::lines.map Line.first)
  else ({s with c_GLcolour := colour},[],[])

/-- Angle that an arrow is turned by. -/
def arrowAngle (libm : Libm α) (cv : ArrowCanvas α) (dir : α) : α :=
  dir-quarterTurn+cv.rotation*halfTurn/libm.pi

/-- `DrawAllCurrentsInViewPort`. -/
def drawAllCurrentsInViewPort (libm : Libm α) (log10 : α → α) (cv : ArrowCanvas α) (s : ArrowState)
    (dlat dlon ddir dfor : α) : ArrowState×Option (ShownArrow α) :=
  if (1000000 : ℕ) < cv.chart_scale then (s,none)
  else
    let tcvalue := libm.toFloat dfor
    let dir := libm.toFloat ddir
    let place := cv.canvasPixLL dlat dlon
    let scale := arrowScale libm log10 cv tcvalue
    let drawn := drawCurrentArrow libm s place (arrowAngle libm cv dir) (scale/(100 : ℕ)) tcvalue
    (drawn.1,some ⟨place,drawn.2.1,drawn.2.2,drawn.1.c_GLcolour,[(|tcvalue|,0),(dir,13)]⟩)

/-- Corner of an image of 200 by 200 pixels around a place. -/
def imageCorner (place : ℤ×ℤ) : ℤ×ℤ :=
  ((place.1+place.1-200).tdiv 2,(place.2+place.2-200).tdiv 2)

/-- `DrawAllGLCurrentsInViewPort`. The polygon is drawn from `p_basic`, in every case. -/
def drawAllGLCurrentsInViewPort (libm : Libm α) (log10 : α → α) (cv : ArrowCanvas α) (s : ArrowState)
    (dlat dlon ddir dfor : α) : ArrowState×Option (ShownArrow α) :=
  if (1000000 : ℕ) < cv.chart_scale then (s,none)
  else
    let tcvalue := libm.toFloat dfor
    let dir := libm.toFloat ddir
    let place := cv.canvasPixLL dlat dlon
    let scale := arrowScale libm log10 cv tcvalue
    let drawn := drawCurrentArrow libm s place (arrowAngle libm cv dir) (scale/(100 : ℕ)) tcvalue
    let s := {drawn.1 with c_GLcolour := seaCurrentColor tcvalue}
    let corner := imageCorner place
    (s,some ⟨place,drawn.2.1,s.p_basic.map fun p => (corner.1+p.1,corner.2+p.2),s.c_GLcolour,
      [(|tcvalue|,0),(dir,13)]⟩)

/-- An arrow with the current at its place. -/
abbrev PlacedArrow (α : Type) := (α×α)×CurrentData α

/-- One turn of the loop of `RenderGLOverlayArrow`. -/
def glArrow (libm : Libm α) (log10 : α → α) (cv : ArrowCanvas α) (s : ArrowState) (a : PlacedArrow α) :
    ArrowState×Option (ShownArrow α) :=
  drawAllGLCurrentsInViewPort libm log10 cv s a.1.1 a.1.2 a.2.dir a.2.force

/-- The loop of `RenderGLOverlayArrow`: what it shows of a list of arrows. -/
def renderGLArrows (libm : Libm α) (log10 : α → α) (cv : ArrowCanvas α) (s : ArrowState)
    (arrows : List (PlacedArrow α)) : List (ShownArrow α) :=
  emitted (fun s a => (glArrow libm log10 cv s a).1) (fun s a => (glArrow libm log10 cv s a).2.toList)
    s arrows

end Program

section Outline

variable {α : Type} [Field α] [LinearOrder α] [FloorRing α]

/-- Points of the shape on the screen. -/
def arrowPath (libm : Libm α) (place : ℤ×ℤ) (rot_angle scale : α) : List (ℤ×ℤ) :=
  currentArrowArray.map fun q =>
    ((turnedPoint libm rot_angle scale q).1+place.1,(turnedPoint libm rot_angle scale q).2+place.2)

/-- The loop over the corners joins each turned and shifted corner with the next one, as a
path through them does. -/
theorem arrowLines_eq (place : ℤ×ℤ) (turned : ℤ×ℤ → ℤ×ℤ) (q : ℤ×ℤ) (points : List (ℤ×ℤ)) :
    let path := (q::points).map fun q => ((turned q).1+place.1,(turned q).2+place.2)
    arrowLines place turned (turned q) points=List.zipWith Line.mk path path.tail := by
  induction points generalizing q with
  | nil => rfl
  | cons p points ih => simpa [arrowLines] using ih p

/-- The starts of the lines of a path are its points but the last. -/
theorem starts_zipWith (path : List (ℤ×ℤ)) :
    (List.zipWith Line.mk path path.tail).map Line.first=path.dropLast := by
  induction path with
  | nil => rfl
  | cons p path ih =>
    cases path with
    | nil => rfl
    | cons q path => simpa using ih

/-- What is drawn of an arrow whose scale is large enough for a shape: its outline, filled,
in the colour of its rate. -/
theorem drawCurrentArrow_of_shape (libm : Libm α) (s : ArrowState) (place : ℤ×ℤ) {scale : α}
    (h : decimal 1 100 < scale) (rot_angle rate : α) :
    drawCurrentArrow libm s place rot_angle scale rate=
      (⟨seaCurrentColor |rate|,basicPoints libm rot_angle scale⟩,
        List.zipWith Line.mk (arrowPath libm place rot_angle scale)
          (arrowPath libm place rot_angle scale).tail,
        place::(arrowPath libm place rot_angle scale).dropLast) := by
  have hlines := arrowLines_eq place (turnedPoint libm rot_angle scale) (0,0) currentArrowArray.tail
  rw [drawCurrentArrow]
  dsimp only at hlines ⊢
  rw [if_pos h,hlines,starts_zipWith]
  rfl

/-- Of an arrow whose scale is too small for a shape only the colour is kept, and nothing is
drawn. -/
theorem drawCurrentArrow_of_slow (libm : Libm α) (s : ArrowState) (place : ℤ×ℤ) {scale : α}
    (h : ¬decimal 1 100 < scale) (rot_angle rate : α) :
    drawCurrentArrow libm s place rot_angle scale rate=({s with c_GLcolour := seaCurrentColor |rate|},[],[]) :=
  if_neg h

/-- The colour is that of the speed, with or without a shape. -/
theorem drawCurrentArrow_colour (libm : Libm α) (s : ArrowState) (place : ℤ×ℤ) (rot_angle scale rate : α) :
    (drawCurrentArrow libm s place rot_angle scale rate).1.c_GLcolour=seaCurrentColor |rate| := by
  by_cases h : decimal 1 100 < scale
  · rw [drawCurrentArrow_of_shape libm s place h]
  · rw [drawCurrentArrow_of_slow libm s place h]

/-- What is shown on a device context, on a chart that is not too small. -/
theorem drawAllCurrents_eq (libm : Libm α) (log10 : α → α) {cv : ArrowCanvas α} (s : ArrowState)
    (h : cv.chart_scale≤((1000000 : ℕ) : α)) (dlat dlon ddir dfor : α) :
    let drawn := drawCurrentArrow libm s (cv.canvasPixLL dlat dlon) (arrowAngle libm cv (libm.toFloat ddir))
      (arrowScale libm log10 cv (libm.toFloat dfor)/(100 : ℕ)) (libm.toFloat dfor)
    (drawAllCurrentsInViewPort libm log10 cv s dlat dlon ddir dfor).2=
      some ⟨cv.canvasPixLL dlat dlon,drawn.2.1,drawn.2.2,seaCurrentColor |libm.toFloat dfor|,
        [(|libm.toFloat dfor|,0),(libm.toFloat ddir,13)]⟩ := by
  intro drawn
  rw [drawAllCurrentsInViewPort,if_neg (not_lt.mpr h)]
  dsimp only
  rw [drawCurrentArrow_colour]

end Outline

section Carried

variable {α : Type} [Field α] [LinearOrder α] [FloorRing α]

/-- Scale that the shape of an arrow is drawn with. -/
def shapeScale (libm : Libm α) (log10 : α → α) (cv : ArrowCanvas α) (force : α) : α :=
  arrowScale libm log10 cv (libm.toFloat force)/(100 : ℕ)

/-- The points that an arrow leaves for the filling, none when it has no shape. -/
def shapeOf (libm : Libm α) (log10 : α → α) (cv : ArrowCanvas α) (a : PlacedArrow α) : Option (List (ℤ×ℤ)) :=
  if decimal 1 100 < shapeScale libm log10 cv a.2.force then
    some (basicPoints libm (arrowAngle libm cv (libm.toFloat a.2.dir)) (shapeScale libm log10 cv a.2.force))
  else none

/-- The arrow that one turn of the loop shows. -/
def shownGL (libm : Libm α) (log10 : α → α) (cv : ArrowCanvas α) (s : ArrowState) (a : PlacedArrow α) :
    ShownArrow α :=
  let place := cv.canvasPixLL a.1.1 a.1.2
  let tcvalue := libm.toFloat a.2.force
  let dir := libm.toFloat a.2.dir
  ⟨place,(drawCurrentArrow libm s place (arrowAngle libm cv dir) (shapeScale libm log10 cv a.2.force)
      tcvalue).2.1,
    ((shapeOf libm log10 cv a).getD s.p_basic).map fun p => (place.1-100+p.1,place.2-100+p.2),
    seaCurrentColor tcvalue,[(|tcvalue|,0),(dir,13)]⟩

/-- The corner of the image is a hundred pixels to the upper left. -/
theorem imageCorner_eq (place : ℤ×ℤ) : imageCorner place=(place.1-100,place.2-100) := by
  have hhalf (x : ℤ) : (x+x-200).tdiv 2=x-100 := by
    rw [show x+x-200=(x-100)*2 by ring]
    exact Int.mul_tdiv_cancel _ (by decide)
  rw [imageCorner,hhalf,hhalf]

/-- An arrow sets the points that the next ones are filled with when it has a shape, and
keeps the old ones when it has none. -/
theorem drawCurrentArrow_basic (libm : Libm α) (log10 : α → α) (cv : ArrowCanvas α) (s : ArrowState)
    (a : PlacedArrow α) (place : ℤ×ℤ) (rate : α) :
    (drawCurrentArrow libm s place (arrowAngle libm cv (libm.toFloat a.2.dir))
      (shapeScale libm log10 cv a.2.force) rate).1.p_basic=(shapeOf libm log10 cv a).getD s.p_basic := by
  rw [shapeOf]
  by_cases hshape : decimal 1 100 < shapeScale libm log10 cv a.2.force
  · rw [drawCurrentArrow_of_shape _ _ _ hshape,if_pos hshape]
    rfl
  · rw [drawCurrentArrow_of_slow _ _ _ hshape,if_neg hshape]
    rfl

/-- One turn of the loop on a chart that is not too small. -/
theorem glArrow_eq (libm : Libm α) (log10 : α → α) {cv : ArrowCanvas α}
    (hscale : ¬((1000000 : ℕ) : α) < cv.chart_scale) (s : ArrowState) (a : PlacedArrow α) :
    (glArrow libm log10 cv s a).1.p_basic=(shapeOf libm log10 cv a).getD s.p_basic ∧
      (glArrow libm log10 cv s a).2=some (shownGL libm log10 cv s a) := by
  have hbasic := drawCurrentArrow_basic libm log10 cv s a (cv.canvasPixLL a.1.1 a.1.2)
    (libm.toFloat a.2.force)
  rw [shapeScale] at hbasic
  rw [glArrow,drawAllGLCurrentsInViewPort,if_neg hscale]
  dsimp only
  rw [imageCorner_eq,hbasic]
  exact ⟨rfl,rfl⟩

/-- On a chart smaller than one to a million no arrow is shown, whatever the list and the
state are. -/
theorem renderGLArrows_small (libm : Libm α) (log10 : α → α) {cv : ArrowCanvas α}
    (hsmall : ((1000000 : ℕ) : α) < cv.chart_scale) (s : ArrowState) (arrows : List (PlacedArrow α)) :
    renderGLArrows libm log10 cv s arrows=[] := by
  have hnone (s : ArrowState) (a : PlacedArrow α) : (glArrow libm log10 cv s a).2.toList=[] := by
    rw [glArrow,drawAllGLCurrentsInViewPort,if_pos hsmall]
    rfl
  have hnever : ∀ shown∈renderGLArrows libm log10 cv s arrows,False := by
    refine emitted_allowed (fun s a (_ : True) (_ : True) => trivial) (fun s a _ _ shown hshown => ?_)
      trivial fun _ _ => trivial
    rw [hnone] at hshown
    cases hshown
  exact List.eq_nil_iff_forall_not_mem.mpr hnever

/-- With OpenGL every arrow of a list is shown at its place, in its colour and with its
numbers, but filled with the shape of the last arrow up to it that has one, or with
what the factory kept from earlier frames. -/
theorem renderGLArrows_filled (libm : Libm α) (log10 : α → α) (cv : ArrowCanvas α) (s : ArrowState)
    (arrows : List (PlacedArrow α)) :
    (((1000000 : ℕ) : α) < cv.chart_scale → renderGLArrows libm log10 cv s arrows=[]) ∧
    (¬((1000000 : ℕ) : α) < cv.chart_scale →
      (renderGLArrows libm log10 cv s arrows).length=arrows.length ∧
      ∀ i a,arrows[i]? = some a → ∃ shown,(renderGLArrows libm log10 cv s arrows)[i]? = some shown ∧
        shown.place=cv.canvasPixLL a.1.1 a.1.2 ∧ shown.fill=seaCurrentColor (libm.toFloat a.2.force) ∧
        shown.labels=[(|libm.toFloat a.2.force|,0),(libm.toFloat a.2.dir,13)] ∧
        shown.polygon=((((arrows.take (i+1)).filterMap (shapeOf libm log10 cv)).getLast?).getD s.p_basic).map
          fun p => (shown.place.1-100+p.1,shown.place.2-100+p.2)) := by
  refine ⟨fun hsmall => renderGLArrows_small libm log10 hsmall s arrows,fun hscale => ?_⟩
  have hone (s : ArrowState) (a : PlacedArrow α) :
      (glArrow libm log10 cv s a).2.toList=[shownGL libm log10 cv s a] := by
    rw [(glArrow_eq libm log10 hscale s a).2]
    rfl
  refine ⟨emitted_length hone s arrows,fun i a ha => ?_⟩
  have hshown : (renderGLArrows libm log10 cv s arrows)[i]? =
      (arrows[i]?).map (shownGL libm log10 cv
        (run (fun s a => (glArrow libm log10 cv s a).1) s (arrows.take i))) :=
    emitted_getElem? hone s arrows i
  have hlast : (run (fun s a => (glArrow libm log10 cv s a).1) s (arrows.take (i+1))).p_basic=
      (((arrows.take (i+1)).filterMap (shapeOf libm log10 cv)).getLast?).getD s.p_basic :=
    run_carries (fun s a => (glArrow_eq libm log10 hscale s a).1) s _
  rw [ha,Option.map_some] at hshown
  refine ⟨_,hshown,rfl,rfl,rfl,?_⟩
  rw [←hlast,List.take_add_one,ha,run_append]
  exact congrArg _ (glArrow_eq libm log10 hscale _ a).1.symm

end Carried

section Downstream

/-- An outline that leaves the place of an arrow and comes back to it, filled. -/
structure ClosedOutline {α : Type} (a : ShownArrow α) (path : List (ℤ×ℤ)) : Prop where
  /-- Each line goes from a point to the next. -/
  lines : a.lines=List.zipWith Line.mk path path.tail
  /-- The filling has the corners of the outline. -/
  polygon : a.polygon=a.place::path.dropLast
  /-- The path starts at the place. -/
  starts : path.head? = some a.place
  /-- It ends there. -/
  ends : path.getLast? = some a.place

/-- A point of the screen is less than a pixel, in both coordinates, from a point of
the shape that is turned to an angle, clockwise from the top, and scaled. -/
def NearTurned (place : ℤ×ℤ) (len angle : ℝ) (q p : ℤ×ℤ) : Prop :=
  |(p.1 : ℝ)-(place.1+len*(q.1*Real.sin angle+q.2*Real.cos angle))|<1 ∧
    |(p.2 : ℝ)-(place.2-len*(q.1*Real.cos angle-q.2*Real.sin angle))|<1

/-- A quarter turn takes the axis of the shape to the top of the screen. -/
theorem radians_arrowAngle (cv : ArrowCanvas ℝ) (dir : ℝ) :
    arrowAngle realLibm cv dir*realLibm.pi/halfTurn=radians dir+cv.rotation-Real.pi/2 := by
  have hpi := Real.pi_ne_zero
  rw [arrowAngle,radians_eq]
  change (dir-90+cv.rotation*180/Real.pi)*Real.pi/180=_
  field_simp
  ring

/-- The turned points of the shape are truncated to pixels, so each lies less than a pixel
from the exact one. -/
theorem nearTurned_turnedPoint (cv : ArrowCanvas ℝ) (place : ℤ×ℤ) (dir len : ℝ) (q : ℤ×ℤ) :
    NearTurned place len (radians dir+cv.rotation) q
      ((turnedPoint realLibm (arrowAngle realLibm cv dir) len q).1+place.1,
        (turnedPoint realLibm (arrowAngle realLibm cv dir) len q).2+place.2) := by
  have hcos : realLibm.cos (arrowAngle realLibm cv dir*realLibm.pi/halfTurn)=
      Real.sin (radians dir+cv.rotation) := by
    rw [radians_arrowAngle]
    exact Real.cos_sub_pi_div_two _
  have hsin : realLibm.sin (arrowAngle realLibm cv dir*realLibm.pi/halfTurn)=
      -Real.cos (radians dir+cv.rotation) := by
    rw [radians_arrowAngle]
    exact Real.sin_sub_pi_div_two _
  have hfloat (x : ℝ) : realLibm.toFloat x=x := rfl
  have hx := abs_truncate_sub_lt
    ((q.1*Real.sin (radians dir+cv.rotation)-q.2* -Real.cos (radians dir+cv.rotation))*len)
  have hy := abs_truncate_sub_lt
    ((q.1* -Real.cos (radians dir+cv.rotation)+q.2*Real.sin (radians dir+cv.rotation))*len)
  rw [turnedPoint]
  simp only [hcos,hsin,hfloat]
  constructor
  · refine lt_of_eq_of_lt (congrArg _ ?_) hx
    push_cast
    ring
  · refine lt_of_eq_of_lt (congrArg _ ?_) hy
    push_cast
    ring

/-- Both ends of the shape stay at the place. -/
theorem turnedPoint_zero (rot_angle scale : ℝ) : turnedPoint realLibm rot_angle scale (0,0)=(0,0) := by
  have hzero : truncate ((0 : ℝ)*scale)=0 := by rw [zero_mul,←Int.cast_zero,truncate_intCast]
  rw [turnedPoint]
  simp only [Int.cast_zero,zero_mul,sub_zero,add_zero]
  exact Prod.ext hzero hzero

/-- The lines of an arrow with a shape are a closed outline that starts and ends at its
place, and the filling has the same corners. -/
theorem closedOutline_arrowPath {a : ShownArrow ℝ} {rot_angle scale : ℝ}
    (hlines : a.lines=List.zipWith Line.mk (arrowPath realLibm a.place rot_angle scale)
      (arrowPath realLibm a.place rot_angle scale).tail)
    (hpolygon : a.polygon=a.place::(arrowPath realLibm a.place rot_angle scale).dropLast) :
    ClosedOutline a (arrowPath realLibm a.place rot_angle scale) := by
  have hplace : ((turnedPoint realLibm rot_angle scale (0,0)).1+a.place.1,
      (turnedPoint realLibm rot_angle scale (0,0)).2+a.place.2)=a.place := by
    rw [turnedPoint_zero,zero_add,zero_add]
  exact ⟨hlines,hpolygon,congrArg some hplace,congrArg some hplace⟩

/-- A current of a tenth at most has no shape. -/
theorem shapeScale_of_slow (cv : ArrowCanvas ℝ) {force : ℝ} (h0 : 0≤force) (h : force≤1/10) :
    shapeScale realLibm (Real.logb 10) cv force=0 := by
  have hone : max 1 (|force| * (10 : ℕ))=1 := by
    rw [abs_of_nonneg h0]
    refine max_eq_left ?_
    push_cast
    linarith
  rw [shapeScale,arrowScale]
  change _*Real.logb 10 (max 1 (|force| * (10 : ℕ)))/_=_
  rw [hone,Real.logb_one,mul_zero,zero_div]

/-- The force at the cursor is never negative. -/
theorem getCurrentData_force_nonneg (gui : GuiGrids ℝ) (lat lon : ℝ) :
    0 ≤ (getCurrentData realLibm gui lat lon).force := by
  unfold getCurrentData
  split
  · rw [currentData]
    split
    · exact Real.sqrt_nonneg _
    · exact le_rfl
  · exact le_rfl

/-- On a device context an arrow is a closed and filled outline that points to where
the current at its place flows, corner by corner within a pixel, in the size of its
force, with force and bearing as its numbers. It has no outline when the current is
slow, and nothing is drawn on small charts. -/
theorem drawnDownstream (cv : ArrowCanvas ℝ) (s : ArrowState) (gui : GuiGrids ℝ) (lat lon : ℝ) :
    let c := getCurrentData realLibm gui lat lon
    let len := shapeScale realLibm (Real.logb 10) cv c.force
    let shown := (drawAllCurrentsInViewPort realLibm (Real.logb 10) cv s lat lon c.dir c.force).2
    (∀ gridu gridv,gui.gridu=some gridu → gui.gridv=some gridv →
      let east := getInterpolatedValue gui.myMessage gridu lon lat true
      let north := getInterpolatedValue gui.myMessage gridv lon lat true
      east≠notDef → north≠notDef → IsBearing c.dir east north ∧ c.force=length east north) ∧
    (c.force≤1/10 → len=0) ∧
    (((1000000 : ℕ) : ℝ) < cv.chart_scale → shown=none) ∧
    (cv.chart_scale≤((1000000 : ℕ) : ℝ) → ∃ a,shown=some a ∧ a.place=cv.canvasPixLL lat lon ∧
      a.labels=[(c.force,0),(c.dir,13)] ∧ a.fill=seaCurrentColor c.force ∧
      (len≤decimal 1 100 → a.lines=[] ∧ a.polygon=[]) ∧
      (decimal 1 100<len → ∃ path,ClosedOutline a path ∧
        List.Forall₂ (NearTurned a.place len (radians c.dir+cv.rotation)) currentArrowArray path)) := by
  intro c len shown
  have hforce : 0 ≤ c.force := getCurrentData_force_nonneg gui lat lon
  refine ⟨fun gridu gridv hu hv => ?_,shapeScale_of_slow cv hforce,fun hsmall => ?_,fun hlarge => ?_⟩
  · intro east north heast hnorth
    rw [show c=_ from getCurrentData_of_grids realLibm hu hv lat lon]
    refine ⟨(currentData_bearing heast hnorth).1,?_⟩
    rw [currentData,if_pos ⟨heast,hnorth⟩]
    rfl
  · exact congrArg Prod.snd (if_pos hsmall)
  · have hshown := drawAllCurrents_eq realLibm (Real.logb 10) s hlarge lat lon c.dir c.force
    have habs : |realLibm.toFloat c.force|=c.force := abs_of_nonneg hforce
    dsimp only at hshown
    rw [habs] at hshown
    refine ⟨_,hshown,rfl,rfl,rfl,fun hslow => ?_,fun hfast => ?_⟩
    · have hdrawn := drawCurrentArrow_of_slow realLibm s (cv.canvasPixLL lat lon) (not_lt.mpr hslow)
        (arrowAngle realLibm cv c.dir) c.force
      exact ⟨congrArg (fun d => d.2.1) hdrawn,congrArg (fun d => d.2.2) hdrawn⟩
    · have hdrawn := drawCurrentArrow_of_shape realLibm s (cv.canvasPixLL lat lon) hfast
        (arrowAngle realLibm cv c.dir) c.force
      refine ⟨_,closedOutline_arrowPath (congrArg (fun d => d.2.1) hdrawn)
        (congrArg (fun d => d.2.2) hdrawn),?_⟩
      exact List.forall₂_map_right_iff.mpr
        (List.forall₂_same.mpr fun q _ => nearTurned_turnedPoint cv _ c.dir len q)

end Downstream

end NcdfPlugin.NcdfCurrentArrow
