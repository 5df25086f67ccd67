import NcdfPlugin.NcdfIsoLine
import Mathlib.Data.Rat.Floor

/-!
# Contour points lie at the level

Each end of an extracted segment is the crossing of the level with an edge of
the grid. The cases of a cell pick edges that the level crosses, so the
fraction along the edge is a quotient in the unit interval and neither of its
fallbacks is taken; with a step of at most half a turn the longitude is not
corrected either.
-/

namespace NcdfPlugin.NcdfIsoLevel

open NcdfReader NcdfInterpolation NcdfIsoLine

variable {α : Type} [Field α] [LinearOrder α]

/-- Longitude of a column. -/
def columnLon (f : Placement α) (i : ℕ) : α := f.tlon+i*f.incrLon

/-- Latitude of a row. -/
def rowLat (f : Placement α) (j : ℕ) : α := f.tlat+j*f.incrLat

/-- The point of an edge at a fraction, where the values of its nodes
interpolate to the level. -/
structure AtFraction (f : Placement α) (grid : Grid α) (value : α) (e : Edge) (px py t : α) :
    Prop where
  /-- The fraction is not negative. -/
  nonneg : 0≤t
  /-- The fraction is at most one. -/
  le_one : t≤1
  /-- Longitude between the columns of the nodes. -/
  lon : px=columnLon f e.i+t*(columnLon f e.k-columnLon f e.i)
  /-- Latitude between the rows of the nodes. -/
  lat : py=rowLat f e.j+t*(rowLat f e.l-rowLat f e.j)
  /-- Interpolated value. -/
  level : cellAt grid e.j e.i+t*(cellAt grid e.l e.k-cellAt grid e.j e.i)=value

/-- What `intersectionAreteGrille` computes for an edge without any of its
exceptions. -/
structure AtLevel (f : Placement α) (grid : Grid α) (W H : ℕ) (value : α) (e : Edge) (px py : α) :
    Prop where
  /-- Two neighbouring nodes of the grid. -/
  edge : GridEdge W H e
  /-- The divisor is not zero. -/
  divisor : cellAt grid e.l e.k-cellAt grid e.j e.i≠0
  /-- The fraction is not replaced by one half. -/
  kept : ¬1 < |(value-cellAt grid e.j e.i)/(cellAt grid e.l e.k-cellAt grid e.j e.i)|
  /-- The longitude difference is not raised by a turn. -/
  notRaised : ¬columnLon f e.k-columnLon f e.i< -halfTurn
  /-- The longitude difference is not lowered by a turn. -/
  notLowered : ¬halfTurn < columnLon f e.k-columnLon f e.i
  /-- The point lies at the level. -/
  point : ∃ t,AtFraction f grid value e px py t

variable [IsStrictOrderedRing α]

omit [LinearOrder α] [IsStrictOrderedRing α] in
/-- Neighbouring columns are at most one step apart. -/
theorem columnLon_sub (f : Placement α) {W H : ℕ} {e : Edge} (he : GridEdge W H e) :
    columnLon f e.k-columnLon f e.i=f.incrLon ∨ columnLon f e.k-columnLon f e.i=0 := by
  unfold columnLon
  rcases he.adjacent with ⟨hk,-⟩ | ⟨hk,-⟩
  · refine Or.inl ?_
    rw [hk]
    push_cast
    ring
  · refine Or.inr ?_
    rw [hk]
    ring

/-- With a step of at most half a turn no longitude difference of an edge is
corrected. -/
theorem abs_columnLon_sub_le {f : Placement α} (hlon : |f.incrLon| ≤ halfTurn) {W H : ℕ} {e : Edge}
    (he : GridEdge W H e) : |columnLon f e.k-columnLon f e.i| ≤ halfTurn := by
  rcases columnLon_sub f he with h | h
  · rw [h]
    exact hlon
  · rw [h,abs_zero]
    exact (abs_nonneg _).trans hlon

/-- The intersection with a crossed edge of the grid lies at the level. -/
theorem atLevel_intersection {f : Placement α} (hlon : |f.incrLon| ≤ halfTurn) {grid : Grid α}
    {W H : ℕ} {value : α} {e : Edge} (h : CrossedEdge grid W H value e) :
    AtLevel f grid W H value e (intersectionX f grid value e) (intersectionY f grid value e) := by
  obtain ⟨hfraction,h0,h1⟩ := crossFraction_eq h.crosses
  have hsmall := abs_columnLon_sub_le hlon h.edge
  obtain ⟨hlow,hhigh⟩ := abs_le.mp hsmall
  have hdivisor : cellAt grid e.l e.k-cellAt grid e.j e.i≠0 := by
    rcases h.crosses with ⟨hx,hy⟩ | ⟨hx,hy⟩
    · exact sub_ne_zero.mpr (hx.trans_lt hy).ne'
    · exact sub_ne_zero.mpr (hy.trans_lt hx).ne
  refine ⟨h.edge,hdivisor,?_,not_lt.mpr hlow,not_lt.mpr hhigh,
    edgeFraction grid value e,h0,h1,?_,?_,?_⟩
  · rw [←hfraction,abs_of_nonneg h0]
    exact not_lt.mpr h1
  · have hwrap : wrapDifference (columnLon f e.k-columnLon f e.i)=columnLon f e.k-columnLon f e.i :=
      wrapDifference_of_small hsmall
    have hx : intersectionX f grid value e=columnLon f e.i+
        wrapDifference (columnLon f e.k-columnLon f e.i)*edgeFraction grid value e := rfl
    rw [hx,hwrap,mul_comm]
  · have hy : intersectionY f grid value e=
        rowLat f e.j+(rowLat f e.l-rowLat f e.j)*edgeFraction grid value e := rfl
    rw [hy,mul_comm]
  · rw [edgeFraction,hfraction,div_mul_cancel₀ _ hdivisor]
    ring

/-- Both ends of every extracted segment lie at the level, on edges of the
grid. -/
theorem endpoints_at_level (f : Placement α) (hlon : |f.incrLon| ≤ halfTurn) (grid : Grid α)
    (W H : ℕ) (value : α) :
    ∀ seg∈extractIsoLine f grid W H value,
      AtLevel f grid W H value seg.first seg.px1 seg.py1 ∧
        AtLevel f grid W H value seg.second seg.px2 seg.py2 := by
  intro seg hseg
  rw [extractIsoLine_eq] at hseg
  obtain ⟨e,he,rfl⟩ := List.mem_map.mp hseg
  obtain ⟨hfirst,hsecond⟩ := crossedEdge_of_mem he
  exact ⟨atLevel_intersection hlon hfirst,atLevel_intersection hlon hsecond⟩

/-- Contour of level one on a cell with one corner above it. -/
theorem endpoints_at_level_corner :
    (extractIsoLine ⟨0,0,1,-2⟩ [[0,1],[1,(4 : ℚ)]] 2 2 1).length=1 ∧
    ∀ seg∈extractIsoLine ⟨0,0,1,-2⟩ [[0,1],[1,(4 : ℚ)]] 2 2 1,
      AtLevel ⟨0,0,1,-2⟩ [[0,1],[1,4]] 2 2 1 seg.first seg.px1 seg.py1 ∧
        AtLevel ⟨0,0,1,-2⟩ [[0,1],[1,4]] 2 2 1 seg.second seg.px2 seg.py2 :=
  ⟨by decide +kernel,endpoints_at_level _ (by decide +kernel) _ _ _ _⟩

end NcdfPlugin.NcdfIsoLevel
