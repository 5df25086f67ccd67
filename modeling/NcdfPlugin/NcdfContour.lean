import NcdfPlugin.NcdfIsoLine

/-!
# Topology of an isoline

Each cell with four defined corners uses each of its sides that the level
crosses once as the end of a segment, and no other edge. A cell names the
nodes of a side from left to right and from top to bottom, so both cells of
an edge compute the same point on it. Counting over the cells of the grid, a
crossed edge is the end of exactly one segment in each of its full cells.
-/

namespace NcdfPlugin.NcdfContour

open NcdfMessage NcdfReader NcdfIsoLine

/-- The edges a segment ends on. -/
def ends {α : Type} (seg : Segment α) : List Edge := [seg.first,seg.second]

/-- Ends of a segment with their coordinates. -/
def placedEnds {α : Type} (seg : Segment α) : List (Edge×α×α) :=
  [(seg.first,seg.px1,seg.py1),(seg.second,seg.px2,seg.py2)]

/-- The four sides of the cell whose corner a is at a column and row. -/
def cellEdges (c : ℕ×ℕ) : List Edge := sides.map fun side => edgeOf (c.1+1) (c.2+1) side.1 side.2

/-- Cells of a grid of W columns and H rows, by column and row of corner a. -/
def gridCells (W H : ℕ) : List (ℕ×ℕ) :=
  (List.range (H-1)).flatMap fun j => (List.range (W-1)).map fun i => (i,j)

/-- The cells of a grid are those with a column and a row to their far side. -/
theorem mem_gridCells {W H : ℕ} {c : ℕ×ℕ} : c∈gridCells W H ↔ c.1+1<W ∧ c.2+1<H := by
  obtain ⟨i,j⟩ := c
  simp only [gridCells,List.mem_flatMap,List.mem_map,List.mem_range,Prod.mk.injEq]
  constructor
  · rintro ⟨j',hj,i',hi,rfl,rfl⟩
    omega
  · rintro ⟨hi,hj⟩
    exact ⟨j,by omega,i,by omega,rfl,rfl⟩

/-- Each cell is scanned once. -/
theorem nodup_gridCells (W H : ℕ) : (gridCells W H).Nodup := by
  refine List.nodup_flatMap.mpr ⟨fun j _ => ?_,?_⟩
  · exact List.nodup_range.map fun i i' h => (Prod.mk.inj h).1
  · refine List.Pairwise.imp ?_ List.nodup_range
    intro j j' hne c hc hc'
    obtain ⟨i,-,rfl⟩ := List.mem_map.mp hc
    obtain ⟨i',-,heq⟩ := List.mem_map.mp hc'
    exact hne (Prod.mk.inj heq).2.symm

/-- The sides of a cell, with their nodes in the order of the code. -/
theorem mem_cellEdges {c : ℕ×ℕ} {e : Edge} :
    e∈cellEdges c ↔ e=⟨c.1,c.2,c.1+1,c.2⟩ ∨ e=⟨c.1,c.2+1,c.1+1,c.2+1⟩ ∨
      e=⟨c.1,c.2,c.1,c.2+1⟩ ∨ e=⟨c.1+1,c.2,c.1+1,c.2+1⟩ := by
  simp [cellEdges,sides,edgeOf]

/-- Different sides of a cell are different edges. -/
theorem edgeOf_injOn_sides (I J : ℕ) {s s' : Char×Char} (hs : s∈sides) (hs' : s'∈sides)
    (h : edgeOf (I+1) (J+1) s.1 s.2=edgeOf (I+1) (J+1) s'.1 s'.2) : s=s' := by
  simp only [sides,List.mem_cons,List.not_mem_nil,or_false] at hs hs'
  rcases hs with rfl | rfl | rfl | rfl <;> rcases hs' with rfl | rfl | rfl | rfl <;>
    simp [edgeOf] at h ⊢

/-- In every pattern a side is used once if its corners lie on different
sides of the level, and not at all otherwise. -/
theorem count_cellPattern : ∀ a b c d : Bool,∀ side∈sides,
    ((cellPattern a b c d).flatMap fun code => [code.1,code.2]).count side=
      if cornerValue a b c d side.1≠cornerValue a b c d side.2 then 1 else 0 := by
  decide

section Count

/-- Counting an image under a map that is injective on the listed elements. -/
theorem count_map_of_injOn {β γ : Type} [BEq β] [LawfulBEq β] [BEq γ] [LawfulBEq γ] {f : β → γ}
    {l : List β} {x : β} (h : ∀ y∈l,f y=f x → y=x) : (l.map f).count (f x)=l.count x := by
  induction l with
  | nil => rfl
  | cons y l ih =>
    have hrest := ih fun z hz => h z (List.mem_cons_of_mem y hz)
    by_cases hy : y=x
    · subst hy
      simp [hrest]
    · have hfy : f y≠f x := fun heq => hy (h y (by simp) heq)
      simp [hrest,hy,hfy]

/-- A count over the parts of a flat map that are each zero or one. -/
theorem count_flatMap_indicator {β γ : Type} [DecidableEq γ] {l : List β} {f : β → List γ} {x : γ}
    {p : β → Prop} [DecidablePred p] (h : ∀ y∈l,(f y).count x=if p y then 1 else 0) :
    (l.flatMap f).count x=(l.filter p).length := by
  induction l with
  | nil => rfl
  | cons y l ih =>
    rw [List.flatMap_cons,List.count_append,ih fun z hz => h z (List.mem_cons_of_mem y hz),
      h y (by simp),List.filter_cons]
    by_cases hp : p y <;> simp [hp,Nat.add_comm]

end Count

variable {α : Type} [Field α] [LinearOrder α]

instance (value x y : α) : Decidable (Crosses value x y) := inferInstanceAs (Decidable (_ ∨ _))

/-- The level crosses an edge. -/
def EdgeCrossed (grid : Grid α) (value : α) (e : Edge) : Prop :=
  Crosses value (cellAt grid e.j e.i) (cellAt grid e.l e.k)

instance (grid : Grid α) (value : α) (e : Edge) : Decidable (EdgeCrossed grid value e) :=
  inferInstanceAs (Decidable (Crosses _ _ _))

/-- All four corners of a cell are defined. -/
def FullCell (grid : Grid α) (c : ℕ×ℕ) : Prop :=
  ¬(cellAt grid c.2 c.1=notDef ∨ cellAt grid c.2 (c.1+1)=notDef ∨
    cellAt grid (c.2+1) c.1=notDef ∨ cellAt grid (c.2+1) (c.1+1)=notDef)

instance (grid : Grid α) (c : ℕ×ℕ) : Decidable (FullCell grid c) :=
  inferInstanceAs (Decidable ¬_)

/-- Segments that the extraction adds in one cell. -/
def segmentsOf (f : Placement α) (grid : Grid α) (value : α) (c : ℕ×ℕ) : List (Segment α) :=
  cellSegments f grid value (c.1+1) (c.2+1)

/-- The extraction goes through the cells of the grid and lists the segments of each, row by
row. -/
theorem extractIsoLine_eq_flatMap (f : Placement α) (grid : Grid α) (W H : ℕ) (value : α) :
    extractIsoLine f grid W H value=(gridCells W H).flatMap (segmentsOf f grid value) := by
  simp only [extractIsoLine,gridCells,segmentsOf,List.flatMap_assoc,List.flatMap_map]

/-- Letters of the sides that the segments of a cell end on. -/
def endCodes (grid : Grid α) (value : α) (c : ℕ×ℕ) : List (Char×Char) :=
  (cellCodes value (cellAt grid c.2 c.1) (cellAt grid c.2 (c.1+1)) (cellAt grid (c.2+1) c.1)
    (cellAt grid (c.2+1) (c.1+1))).flatMap fun code => [code.1,code.2]

/-- The ends of the segments in a cell lie on the edges that the letters of the cell's
pattern name. -/
theorem ends_segmentsOf (f : Placement α) (grid : Grid α) (value : α) (c : ℕ×ℕ) :
    (segmentsOf f grid value c).flatMap ends=
      (endCodes grid value c).map fun side => edgeOf (c.1+1) (c.2+1) side.1 side.2 := by
  simp only [segmentsOf,cellSegments,endCodes,List.flatMap_map,List.map_flatMap,Nat.add_sub_cancel]
  rfl

/-- Ends of the segments of a cell lie on its four sides. -/
theorem endCodes_sides {grid : Grid α} {value : α} {c : ℕ×ℕ} {side : Char×Char}
    (h : side∈endCodes grid value c) : side∈sides := by
  simp only [endCodes,List.mem_flatMap,List.mem_cons,List.not_mem_nil,or_false] at h
  obtain ⟨code,hcode,rfl | rfl⟩ := h
  · exact (cellCodes_cross hcode).1.1
  · exact (cellCodes_cross hcode).2.1

/-- A side is used once when the cell is full and the level crosses it. -/
theorem count_endCodes (grid : Grid α) (value : α) (c : ℕ×ℕ) {side : Char×Char} (hside : side∈sides) :
    (endCodes grid value c).count side=
      if FullCell grid c ∧ EdgeCrossed grid value (edgeOf (c.1+1) (c.2+1) side.1 side.2) then 1
      else 0 := by
  have hcorner := cellAt_traduitCode grid (c.1+1) (c.2+1)
  simp only [Nat.add_sub_cancel] at hcorner
  by_cases hfull : FullCell grid c
  · have hcount := count_cellPattern (decide (value < cellAt grid c.2 c.1))
      (decide (value < cellAt grid c.2 (c.1+1))) (decide (value < cellAt grid (c.2+1) c.1))
      (decide (value < cellAt grid (c.2+1) (c.1+1))) side hside
    have hcrossed : EdgeCrossed grid value (edgeOf (c.1+1) (c.2+1) side.1 side.2) ↔
        cornerValue (decide (value < cellAt grid c.2 c.1)) (decide (value < cellAt grid c.2 (c.1+1)))
            (decide (value < cellAt grid (c.2+1) c.1))
            (decide (value < cellAt grid (c.2+1) (c.1+1))) side.1≠
          cornerValue (decide (value < cellAt grid c.2 c.1)) (decide (value < cellAt grid c.2 (c.1+1)))
            (decide (value < cellAt grid (c.2+1) c.1))
            (decide (value < cellAt grid (c.2+1) (c.1+1))) side.2 := by
      simp only [EdgeCrossed,edgeOf,hcorner,crosses_iff,decide_cornerValue]
    rw [endCodes,cellCodes_eq_pattern value hfull,hcount]
    simp only [hfull,hcrossed,true_and]
  · have hmissing := not_not.mp hfull
    simp [endCodes,cellCodes,hmissing,hfull]

/-- How often a cell uses an edge as the end of a segment. -/
theorem count_ends_segmentsOf (f : Placement α) (grid : Grid α) (value : α) (c : ℕ×ℕ) (e : Edge) :
    ((segmentsOf f grid value c).flatMap ends).count e=
      if (FullCell grid c ∧ e∈cellEdges c) ∧ EdgeCrossed grid value e then 1 else 0 := by
  rw [ends_segmentsOf]
  by_cases he : e∈cellEdges c
  · obtain ⟨side,hside,rfl⟩ := List.mem_map.mp he
    have hinj : ∀ s∈endCodes grid value c,
        edgeOf (c.1+1) (c.2+1) s.1 s.2=edgeOf (c.1+1) (c.2+1) side.1 side.2 → s=side :=
      fun s hs heq => edgeOf_injOn_sides c.1 c.2 (endCodes_sides hs) hside heq
    have hcount := count_map_of_injOn
      (f := fun s : Char×Char => edgeOf (c.1+1) (c.2+1) s.1 s.2) hinj
    rw [hcount,count_endCodes grid value c hside]
    simp [he]
  · have hnot : e∉(endCodes grid value c).map fun side =>
        edgeOf (c.1+1) (c.2+1) side.1 side.2 := by
      intro hmem
      obtain ⟨side,hside,rfl⟩ := List.mem_map.mp hmem
      exact he (List.mem_map.mpr ⟨side,endCodes_sides hside,rfl⟩)
    rw [List.count_eq_zero_of_not_mem hnot]
    simp [he]

/-- Cells of an edge: on either side of it, where there is one. -/
theorem mem_cellEdges_iff {c : ℕ×ℕ} {e : Edge} :
    e∈cellEdges c ↔
      ((e.k=e.i+1 ∧ e.l=e.j) ∧ c.1=e.i ∧ (c.2=e.j ∨ c.2+1=e.j)) ∨
      ((e.k=e.i ∧ e.l=e.j+1) ∧ c.2=e.j ∧ (c.1=e.i ∨ c.1+1=e.i)) := by
  obtain ⟨i,j,k,l⟩ := e
  rw [mem_cellEdges]
  simp only [Edge.mk.injEq]
  omega

/-- No edge has three cells. -/
theorem cells_of_edge {c c' c'' : ℕ×ℕ} {e : Edge} (h : e∈cellEdges c) (h' : e∈cellEdges c')
    (h'' : e∈cellEdges c'') (hne : c≠c') : c''=c ∨ c''=c' := by
  rw [mem_cellEdges_iff] at h h' h''
  rw [ne_eq,Prod.ext_iff] at hne
  rw [Prod.ext_iff,Prod.ext_iff]
  omega

/-- An isoline ends as many segments on an edge as the edge has full cells beside it, when
the level crosses it, and none otherwise. -/
theorem count_ends (f : Placement α) (grid : Grid α) (W H : ℕ) (value : α) (e : Edge) :
    ((extractIsoLine f grid W H value).flatMap ends).count e=
      ((gridCells W H).filter fun c =>
        (FullCell grid c ∧ e∈cellEdges c) ∧ EdgeCrossed grid value e).length := by
  rw [extractIsoLine_eq_flatMap,List.flatMap_assoc]
  exact count_flatMap_indicator fun c _ => count_ends_segmentsOf f grid value c e

/-- Segments that end on an edge. -/
def segmentsAt (e : Edge) (segs : List (Segment α)) : List (Segment α) :=
  segs.filter fun seg => e∈ends seg

/-- No segment has both of its ends on one edge, so counting ends on an edge counts
segments. -/
theorem count_ends_segment {f : Placement α} {grid : Grid α} {value : α} {c : ℕ×ℕ} {seg : Segment α}
    (hseg : seg∈segmentsOf f grid value c) (e : Edge) :
    (ends seg).count e=if e∈ends seg then 1 else 0 := by
  have hsub : (ends seg).Sublist ((segmentsOf f grid value c).flatMap ends) := by
    rw [List.flatMap_def]
    exact List.sublist_flatten_of_mem (List.mem_map_of_mem hseg)
  have hle := hsub.count_le e
  rw [count_ends_segmentsOf] at hle
  have hone : (ends seg).count e≤1 := hle.trans (by split <;> omega)
  split
  next hmem => exact le_antisymm hone (List.count_pos_iff.mpr hmem)
  next hnot => exact List.count_eq_zero_of_not_mem hnot

/-- In a cell an edge is the end of as many segments as it is used. -/
theorem length_segmentsAt_segmentsOf (f : Placement α) (grid : Grid α) (value : α) (c : ℕ×ℕ)
    (e : Edge) :
    (segmentsAt e (segmentsOf f grid value c)).length=
      if (FullCell grid c ∧ e∈cellEdges c) ∧ EdgeCrossed grid value e then 1 else 0 := by
  rw [←count_ends_segmentsOf f]
  exact (count_flatMap_indicator fun seg hseg => count_ends_segment hseg e).symm

/-- On the whole isoline an edge is the end of as many segments as it has
full cells, if the level crosses it. -/
theorem length_segmentsAt (f : Placement α) (grid : Grid α) (W H : ℕ) (value : α) (e : Edge) :
    (segmentsAt e (extractIsoLine f grid W H value)).length=
      ((gridCells W H).filter fun c =>
        (FullCell grid c ∧ e∈cellEdges c) ∧ EdgeCrossed grid value e).length := by
  rw [←count_ends f]
  refine (count_flatMap_indicator fun seg hseg => ?_).symm
  rw [extractIsoLine_eq_flatMap,List.mem_flatMap] at hseg
  obtain ⟨c,-,hc⟩ := hseg
  exact count_ends_segment hc e

/-- A list without repetitions whose members are two different elements. -/
theorem length_eq_two {β : Type} {l : List β} {x y : β} (hnodup : l.Nodup) (hne : x≠y)
    (hmem : ∀ z,z∈l ↔ z=x ∨ z=y) : l.length=2 := by
  have hpair : [x,y].Nodup := by simp [hne]
  have hperm : l.Perm [x,y] := (List.perm_ext_iff_of_nodup hnodup hpair).mpr fun z => by simp [hmem]
  exact hperm.length_eq

/-- A crossed edge between two full cells is the end of two segments. -/
theorem length_segmentsAt_shared (f : Placement α) {grid : Grid α} {W H : ℕ} {value : α} {e : Edge}
    (he : EdgeCrossed grid value e) {c c' : ℕ×ℕ} (hc : c∈gridCells W H) (hc' : c'∈gridCells W H)
    (hne : c≠c') (hfull : FullCell grid c ∧ e∈cellEdges c) (hfull' : FullCell grid c' ∧ e∈cellEdges c') :
    (segmentsAt e (extractIsoLine f grid W H value)).length=2 := by
  rw [length_segmentsAt]
  refine length_eq_two ((nodup_gridCells W H).filter _) hne fun c'' => ?_
  simp only [List.mem_filter,decide_eq_true_eq]
  constructor
  · rintro ⟨-,⟨-,h''⟩,-⟩
    exact cells_of_edge hfull.2 hfull'.2 h'' hne
  · rintro (rfl | rfl)
    · exact ⟨hc,hfull,he⟩
    · exact ⟨hc',hfull',he⟩

/-- An edge along the border of a grid of W columns and H rows. -/
def BorderEdge (W H : ℕ) (e : Edge) : Prop :=
  (e.l=e.j ∧ (e.j=0 ∨ e.j+1=H)) ∨ (e.k=e.i ∧ (e.i=0 ∨ e.i+1=W))

/-- An edge that is not on the border has two cells of the grid. -/
theorem cells_of_inner {W H : ℕ} {e : Edge} (he : GridEdge W H e) (hinner : ¬BorderEdge W H e) :
    ∃ c∈gridCells W H,∃ c'∈gridCells W H,c≠c' ∧ e∈cellEdges c ∧ e∈cellEdges c' := by
  unfold BorderEdge at hinner
  have hcolumn := he.column
  have hrow := he.row
  have hcell : ∀ {i j : ℕ},i+1<W → j+1<H → (i,j)∈gridCells W H := fun hi hj => mem_gridCells.mpr ⟨hi,hj⟩
  rcases he.adjacent with hhorizontal | hvertical
  · refine ⟨(e.i,e.j),hcell (by omega) (by omega),(e.i,e.j-1),hcell (by omega) (by omega),?_,?_,?_⟩
    · simp only [ne_eq,Prod.mk.injEq,true_and]
      omega
    · exact mem_cellEdges_iff.mpr (Or.inl ⟨hhorizontal,rfl,Or.inl rfl⟩)
    · exact mem_cellEdges_iff.mpr (Or.inl ⟨hhorizontal,rfl,Or.inr (by omega)⟩)
  · refine ⟨(e.i,e.j),hcell (by omega) (by omega),(e.i-1,e.j),hcell (by omega) (by omega),?_,?_,?_⟩
    · simp only [ne_eq,Prod.mk.injEq,and_true]
      omega
    · exact mem_cellEdges_iff.mpr (Or.inr ⟨hvertical,rfl,Or.inl rfl⟩)
    · exact mem_cellEdges_iff.mpr (Or.inr ⟨hvertical,rfl,Or.inr (by omega)⟩)

/-- Every end of a segment lies at the point of its edge. -/
theorem placedEnds_eq {f : Placement α} {grid : Grid α} {W H : ℕ} {value : α} {seg : Segment α}
    (hseg : seg∈extractIsoLine f grid W H value) {p : Edge×α×α} (hp : p∈placedEnds seg) :
    p=(p.1,intersectionX f grid value p.1,intersectionY f grid value p.1) := by
  rw [extractIsoLine_eq,List.mem_map] at hseg
  obtain ⟨e,-,rfl⟩ := hseg
  simp only [placedEnds,mkSegment,List.mem_cons,List.not_mem_nil,or_false] at hp
  rcases hp with rfl | rfl <;> rfl

/-- How an isoline uses the edges of its grid. -/
structure ContourTopology (f : Placement α) (grid : Grid α) (W H : ℕ) (value : α) : Prop where
  /-- Each full cell of a crossed edge uses it as one end of one segment, and
  no other cell uses it. -/
  once : ∀ e,CrossedEdge grid W H value e → ∀ c∈gridCells W H,
    ((segmentsOf f grid value c).flatMap ends).count e=
      if FullCell grid c ∧ e∈cellEdges c then 1 else 0
  /-- The segments are those of the cells. -/
  segments : extractIsoLine f grid W H value=(gridCells W H).flatMap (segmentsOf f grid value)
  /-- No other edge is used. -/
  crossed : ∀ seg∈extractIsoLine f grid W H value,∀ e∈ends seg,CrossedEdge grid W H value e
  /-- All uses of an edge compute the same point. -/
  samePoint : ∀ seg∈extractIsoLine f grid W H value,∀ seg'∈extractIsoLine f grid W H value,
    ∀ p∈placedEnds seg,∀ p'∈placedEnds seg',p.1=p'.1 → p=p'
  /-- A crossed edge shared by two full cells is the end of exactly two
  segments, one in each of them. -/
  shared : ∀ e,CrossedEdge grid W H value e → ∀ c∈gridCells W H,∀ c'∈gridCells W H,c≠c' →
    FullCell grid c ∧ e∈cellEdges c → FullCell grid c' ∧ e∈cellEdges c' →
      (segmentsAt e (extractIsoLine f grid W H value)).length=2 ∧
      (segmentsAt e (segmentsOf f grid value c)).length=1 ∧
      (segmentsAt e (segmentsOf f grid value c')).length=1
  /-- A line ends on the border or next to a cell with a missing corner. -/
  lineEnd : ∀ e,(segmentsAt e (extractIsoLine f grid W H value)).length=1 →
    BorderEdge W H e ∨ ∃ c∈gridCells W H,e∈cellEdges c ∧ ¬FullCell grid c

/-- Every edge a segment ends on is an edge of the grid that the level
crosses. -/
theorem crossedEdge_of_mem_ends {f : Placement α} {grid : Grid α} {W H : ℕ} {value : α}
    {seg : Segment α} (hseg : seg∈extractIsoLine f grid W H value) {e : Edge} (he : e∈ends seg) :
    CrossedEdge grid W H value e := by
  rw [extractIsoLine_eq,List.mem_map] at hseg
  obtain ⟨pair,hpair,rfl⟩ := hseg
  obtain ⟨hfirst,hsecond⟩ := crossedEdge_of_mem hpair
  simp only [ends,mkSegment,List.mem_cons,List.not_mem_nil,or_false] at he
  rcases he with rfl | rfl
  · exact hfirst
  · exact hsecond

/-- Contour topology, on any grid and at any level. -/
theorem contourTopology (f : Placement α) (grid : Grid α) (W H : ℕ) (value : α) :
    ContourTopology f grid W H value := by
  constructor
  · intro e he c _
    have hcrossed : EdgeCrossed grid value e := he.crosses
    rw [count_ends_segmentsOf]
    simp only [hcrossed,and_true]
  · exact extractIsoLine_eq_flatMap f grid W H value
  · intro seg hseg e he
    exact crossedEdge_of_mem_ends hseg he
  · intro seg hseg seg' hseg' p hp p' hp' heq
    rw [placedEnds_eq hseg hp,placedEnds_eq hseg' hp',heq]
  · intro e he c hc c' hc' hne hfull hfull'
    have hcrossed : EdgeCrossed grid value e := he.crosses
    refine ⟨length_segmentsAt_shared f hcrossed hc hc' hne hfull hfull',?_,?_⟩
    · rw [length_segmentsAt_segmentsOf,if_pos ⟨hfull,hcrossed⟩]
    · rw [length_segmentsAt_segmentsOf,if_pos ⟨hfull',hcrossed⟩]
  · intro e hone
    by_contra hnot
    obtain ⟨hinner,hall⟩ := not_or.mp hnot
    have hused : segmentsAt e (extractIsoLine f grid W H value)≠[] := by
      intro hnil
      rw [hnil] at hone
      cases hone
    obtain ⟨seg,hseg⟩ := List.exists_mem_of_ne_nil _ hused
    obtain ⟨hmem,hend⟩ := List.mem_filter.mp hseg
    have he := crossedEdge_of_mem_ends hmem (of_decide_eq_true hend)
    obtain ⟨c,hc,c',hc',hne,hcell,hcell'⟩ := cells_of_inner he.edge hinner
    have hfull : ∀ x∈gridCells W H,e∈cellEdges x → FullCell grid x := fun x hx hex =>
      Decidable.not_not.mp fun hpart => hall ⟨x,hx,hex,hpart⟩
    have htwo := length_segmentsAt_shared f he.crosses hc hc' hne ⟨hfull c hc hcell,hcell⟩
      ⟨hfull c' hc' hcell',hcell'⟩
    omega

end NcdfPlugin.NcdfContour
