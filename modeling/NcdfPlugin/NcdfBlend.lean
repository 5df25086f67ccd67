import NcdfPlugin.NcdfInterpolation
import NcdfPlugin.NcdfEvenMap

/-!
# Blend within its corners

The adjustments of the four corners add whole turns to the original values.
The plain blend of the corners is a convex combination of them, so the value
returned stays within the corners exactly when the turns, weighted like the
corners, fit into the room above the plain blend. Over a whole cell this says
that no raised corner exceeds the greatest one and corner 00 is not raised.
-/

namespace NcdfPlugin.NcdfBlend

open ExactArithmetic NcdfMessage NcdfReader NcdfEvenMap NcdfInterpolation

variable {α : Type} [Field α] [LinearOrder α]

/-- Smallest corner. -/
def least (c : Corners α) : α := min (min c.x00 c.x10) (min c.x01 c.x11)

/-- Greatest corner. -/
def greatest (c : Corners α) : α := max (max c.x00 c.x10) (max c.x01 c.x11)

/-- Which of two neighbouring corners gains a turn. -/
def turnPair (a b : α) : ℕ×ℕ :=
  if quarterTurn<a-b then (0,1) else if quarterTurn<b-a then (1,0) else (0,0)

/-- Corners raised by whole turns. -/
def addTurns (c : Corners α) (t : Corners ℕ) : Corners α :=
  ⟨c.x00+fullTurn*t.x00,c.x10+fullTurn*t.x10,c.x01+fullTurn*t.x01,c.x11+fullTurn*t.x11⟩

/-- Turns that the corners of a cell gain: the columns are compared first,
the rows with the turns gained so far. -/
def turns (c : Corners α) : Corners ℕ :=
  let right := turnPair c.x10 c.x11
  let left := turnPair c.x00 c.x01
  let first := turnPair (c.x00+fullTurn*left.1) (c.x10+fullTurn*right.1)
  let second := turnPair (c.x01+fullTurn*left.2) (c.x11+fullTurn*right.2)
  ⟨left.1+first.1,right.1+first.2,left.2+second.1,right.2+second.2⟩

/-- Turns weighted like the corners they are added to. -/
def turnWeight (t : Corners ℕ) (dx dy : α) : α :=
  bilinear (smoothstep dx) (smoothstep dy) t.x00 t.x10 t.x01 t.x11

/-- A value lies between the corners, and is corner 00 on its node. -/
structure StaysWithin (c : Corners α) (dx dy value : α) : Prop where
  /-- No smaller than every corner. -/
  least_le : least c≤value
  /-- No greater than every corner. -/
  le_greatest : value≤greatest c
  /-- At the node the value is that of the node. -/
  node : dx=0 ∧ dy=0 → value=c.x00

/-- The turns fit above the plain blend, and corner 00 gains none when the
point is its node. -/
structure TurnsFit (c : Corners α) (dx dy : α) : Prop where
  /-- Weighted turns against the room below the greatest corner. -/
  room : fullTurn*turnWeight (turns c) dx dy≤greatest c-c.blend dx dy
  /-- No turn at the node. -/
  node : dx=0 ∧ dy=0 → (turns c).x00=0

/-- No raised corner exceeds the greatest corner, and corner 00 is not raised. -/
structure CornersFit (c : Corners α) : Prop where
  /-- Corners with their turns. -/
  raised : greatest (addTurns c (turns c)) ≤ greatest c
  /-- Corner 00 has none. -/
  node : (turns c).x00=0

/-- Corners joined by an edge of the cell are at most ninety apart. -/
structure Gentle (c : Corners α) : Prop where
  /-- Left column. -/
  left : |c.x00-c.x01| ≤ quarterTurn
  /-- Right column. -/
  right : |c.x10-c.x11| ≤ quarterTurn
  /-- First row. -/
  first : |c.x00-c.x10| ≤ quarterTurn
  /-- Second row. -/
  second : |c.x01-c.x11| ≤ quarterTurn

section Turns

/-- An adjustment adds a turn where the comparison says. -/
theorem adjustPair_eq (a b : α) :
    adjustPair a b=(a+fullTurn*(turnPair a b).1,b+fullTurn*(turnPair a b).2) := by
  unfold adjustPair turnPair
  split
  · simp
  · split <;> simp

/-- The four adjustments together add the turns of the cell. -/
theorem adjust_eq (c : Corners α) : c.adjust=addTurns c (turns c) := by
  simp only [Corners.adjust,adjustPair_eq,turns,addTurns,Nat.cast_add,mul_add,add_assoc]

omit [LinearOrder α] in
/-- Whole turns enter the blend with their own weighted sum. -/
theorem blend_addTurns (c : Corners α) (t : Corners ℕ) (dx dy : α) :
    (addTurns c t).blend dx dy=c.blend dx dy+fullTurn*turnWeight t dx dy :=
  bilinear_add_mul _ _ _ _ _ _ _ _ _ _ _

variable [IsStrictOrderedRing α]

/-- Close corners are left alone. -/
theorem turnPair_of_close {a b : α} (h : |a-b| ≤ quarterTurn) : turnPair a b=(0,0) := by
  obtain ⟨hlow,hhigh⟩ := abs_le.mp h
  rw [turnPair,if_neg (by linarith),if_neg (by linarith)]

/-- A gentle cell gains no turn at all. -/
theorem turns_of_gentle {c : Corners α} (h : Gentle c) : turns c=⟨0,0,0,0⟩ := by
  simp only [turns,turnPair_of_close h.left,turnPair_of_close h.right,Nat.cast_zero,mul_zero,
    add_zero,turnPair_of_close h.first,turnPair_of_close h.second]

/-- The plain blend is no smaller than every corner. -/
theorem least_le_blend {dx dy : α} (c : Corners α)
    (hw : UnitWeights (smoothstep dx) (smoothstep dy)) : least c ≤ c.blend dx dy :=
  le_bilinear hw ((min_le_left _ _).trans (min_le_left _ _))
    ((min_le_left _ _).trans (min_le_right _ _)) ((min_le_right _ _).trans (min_le_left _ _))
    ((min_le_right _ _).trans (min_le_right _ _))

/-- The plain blend is no greater than every corner. -/
theorem blend_le_greatest {dx dy : α} (c : Corners α)
    (hw : UnitWeights (smoothstep dx) (smoothstep dy)) : c.blend dx dy≤greatest c :=
  bilinear_le hw ((le_max_left _ _).trans (le_max_left _ _))
    ((le_max_right _ _).trans (le_max_left _ _)) ((le_max_left _ _).trans (le_max_right _ _))
    ((le_max_right _ _).trans (le_max_right _ _))

/-- Turns only ever raise the blend. -/
theorem turnWeight_nonneg {dx dy : α} (t : Corners ℕ)
    (hw : UnitWeights (smoothstep dx) (smoothstep dy)) : 0≤turnWeight t dx dy :=
  le_bilinear hw (Nat.cast_nonneg _) (Nat.cast_nonneg _) (Nat.cast_nonneg _) (Nat.cast_nonneg _)

omit [LinearOrder α] [IsStrictOrderedRing α] in
/-- A blend with no share of the other corners is the first corner. -/
theorem blend_node (c : Corners α) : c.blend 0 0=c.x00 := by simp [Corners.blend]

omit [LinearOrder α] [IsStrictOrderedRing α] in
/-- At a node no turn but that of the node itself is counted. -/
theorem turnWeight_node (t : Corners ℕ) : turnWeight t (0 : α) 0=t.x00 := by simp [turnWeight]

/-- With weights in the unit interval, the adjusted blend stays within the
corners exactly when the turns fit. -/
theorem staysWithin_adjust_iff {dx dy : α} (c : Corners α)
    (hw : UnitWeights (smoothstep dx) (smoothstep dy)) :
    StaysWithin c dx dy (c.adjust.blend dx dy) ↔ TurnsFit c dx dy := by
  rw [adjust_eq,blend_addTurns]
  constructor
  · intro h
    refine ⟨by linarith [h.le_greatest],?_⟩
    rintro ⟨rfl,rfl⟩
    have hnode := h.node ⟨rfl,rfl⟩
    rw [blend_node,turnWeight_node,add_eq_left,mul_eq_zero] at hnode
    exact_mod_cast hnode.resolve_left fullTurn_pos.ne'
  · intro h
    have hplain := least_le_blend c hw
    have hturns := mul_nonneg (fullTurn_pos (α := α)).le (turnWeight_nonneg (turns c) hw)
    refine ⟨by linarith,by linarith [h.room],?_⟩
    rintro ⟨rfl,rfl⟩
    rw [blend_node,turnWeight_node,h.node ⟨rfl,rfl⟩]
    simp

/-- At every point of a cell the turns fit exactly when the corners do. -/
theorem turnsFit_everywhere_iff (c : Corners α) :
    (∀ dx dy,0≤dx → dx<1 → 0≤dy → dy<1 → TurnsFit c dx dy) ↔ CornersFit c := by
  constructor
  · intro h
    refine ⟨?_,(h 0 0 le_rfl one_pos le_rfl one_pos).node ⟨rfl,rfl⟩⟩
    obtain ⟨⟨h00,h10⟩,h01,h11⟩ :=
      corners_le_of_bilinear_le fun dx dy hx0 hx1 hy0 hy1 => by
        have hroom := (h dx dy hx0 hx1 hy0 hy1).room
        have hblend := blend_addTurns c (turns c) dx dy
        exact hblend.le.trans (by linarith)
    exact max_le (max_le h00 h10) (max_le h01 h11)
  · intro h dx dy hx0 hx1 hy0 hy1
    have hblend := blend_addTurns c (turns c) dx dy
    have hle := blend_le_greatest (addTurns c (turns c)) (smoothstep_weights hx0 hx1.le hy0 hy1.le)
    have hraised := h.raised
    exact ⟨by linarith,fun _ => h.node⟩

/-- In a gentle cell no corner is raised. -/
theorem cornersFit_of_gentle {c : Corners α} (h : Gentle c) : CornersFit c := by
  have hturns := turns_of_gentle h
  have hsame : addTurns c (turns c)=c := by simp [hturns,addTurns]
  exact ⟨by rw [hsame],by rw [hturns]⟩

end Turns

variable [IsStrictOrderedRing α] [FloorRing α]

/-- The fractions of a point on an ascending map give weights of a convex
combination. -/
theorem queryCell_weights {m : DataMessage α} (px : α) {py : α} (hincr : 0 < m.iDirectionIncr)
    (hy : isYInMap m py=true) :
    UnitWeights (smoothstep (queryCell m px py).dx) (smoothstep (queryCell m px py).dy) := by
  obtain ⟨hx0,hx1⟩ := dx_bounds hincr px py
  obtain ⟨hy0,hy1⟩ := dy_bounds px hy
  exact smoothstep_weights hx0 hx1.le hy0 hy1.le

/-- On a map with ascending longitudes, an interpolated value stays within
the four corners it was computed from, and is the node's own value on a
node, exactly when the full turns given to corners more than ninety apart
fit above their plain blend. It does at every point of a cell whose raised
corners fit. -/
theorem within_corners_iff (m : DataMessage α) (grid : Grid α) (px py : α)
    (hincr : 0 < m.iDirectionIncr) (hvalue : getInterpolatedValue m grid px py true≠notDef) :
    (StaysWithin (cornersOf grid (queryCell m px py)) (queryCell m px py).dx
        (queryCell m px py).dy (getInterpolatedValue m grid px py true) ↔
      TurnsFit (cornersOf grid (queryCell m px py)) (queryCell m px py).dx
        (queryCell m px py).dy) ∧
    (CornersFit (cornersOf grid (queryCell m px py)) →
      StaysWithin (cornersOf grid (queryCell m px py)) (queryCell m px py).dx
        (queryCell m px py).dy (getInterpolatedValue m grid px py true)) := by
  obtain ⟨-,hy,-,heq⟩ := answered hvalue
  obtain ⟨hx0,hx1⟩ := dx_bounds hincr px py
  obtain ⟨hy0,hy1⟩ := dy_bounds px hy
  have hiff := staysWithin_adjust_iff (cornersOf grid (queryCell m px py))
    (queryCell_weights px hincr hy)
  rw [heq]
  refine ⟨hiff,fun hfit => hiff.mpr ?_⟩
  exact (turnsFit_everywhere_iff _).mpr hfit _ _ hx0 hx1 hy0 hy1

section Sample

/-- Rows of a unit cell a hundred apart. -/
def steepRows : Grid ℚ := [[0,0],[100,100]]

/-- Rows of a unit cell fifty apart. -/
def gentleRows : Grid ℚ := [[0,0],[50,50]]

/-- In the middle of a gentle cell the value is the mean of its corners. -/
theorem within_corners_iff_gentle :
    (0 : ℚ)<(sampleMap unitAxis unitAxis).iDirectionIncr ∧
    getInterpolatedValue (sampleMap unitAxis unitAxis) gentleRows (1/2) (1/2) true=25 ∧
    StaysWithin (cornersOf gentleRows (queryCell (sampleMap unitAxis unitAxis) (1/2) (1/2)))
      (queryCell (sampleMap unitAxis unitAxis) (1/2) (1/2)).dx
      (queryCell (sampleMap unitAxis unitAxis) (1/2) (1/2)).dy
      (getInterpolatedValue (sampleMap unitAxis unitAxis) gentleRows (1/2) (1/2) true) := by
  refine ⟨by decide +kernel,by decide +kernel,?_⟩
  refine (within_corners_iff _ gentleRows (1/2) (1/2) (by decide +kernel) (by decide +kernel)).2 ?_
  refine cornersFit_of_gentle ?_
  constructor <;> decide +kernel

/-- On the node of a zero cell below a cell of a hundred the value is a full
turn, outside the corners. -/
theorem not_staysWithin_steepRows :
    (0 : ℚ)<(sampleMap unitAxis unitAxis).iDirectionIncr ∧
    getInterpolatedValue (sampleMap unitAxis unitAxis) steepRows 0 0 true=360 ∧
    ¬StaysWithin (cornersOf steepRows (queryCell (sampleMap unitAxis unitAxis) 0 0))
      (queryCell (sampleMap unitAxis unitAxis) 0 0).dx
      (queryCell (sampleMap unitAxis unitAxis) 0 0).dy
      (getInterpolatedValue (sampleMap unitAxis unitAxis) steepRows 0 0 true) := by
  refine ⟨by decide +kernel,by decide +kernel,fun h => ?_⟩
  exact absurd h.le_greatest (by decide +kernel)

end Sample

end NcdfPlugin.NcdfBlend
