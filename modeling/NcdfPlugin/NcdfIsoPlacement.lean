import NcdfPlugin.NcdfOverlay
import NcdfPlugin.NcdfEvenMap

/-!
# Where isolines are placed

The isolines take their origin from the sorted bounds, north and west, and
the sign of their row step from the message. That is right for falling
latitudes and rising longitudes. Rising latitudes are counted upward from
the last row, and falling longitudes are mirrored, so a crossing stays on
its edge only where that displacement happens to keep it.
-/

namespace NcdfPlugin.NcdfIsoPlacement

open ExactArithmetic NcdfMessage NcdfReader NcdfEvenMap NcdfInterpolation NcdfIsoLine NcdfOverlay

variable {α : Type} [Field α] [LinearOrder α]

/-- A position on the segment between the true nodes of an edge. -/
def OnEdge (lat lon : Axis α) (y x : α) (e : Edge) : Prop :=
  ∃ u : α,0≤u ∧ u≤1 ∧ y=lat.node e.j+u*(lat.node e.l-lat.node e.j) ∧
    x=lon.node e.i+u*(lon.node e.k-lon.node e.i)

/-- A position inside the bounds of the data. -/
structure InBox (lat lon : Axis α) (y x : α) : Prop where
  /-- Not south of the data. -/
  south : min lat.start lat.last≤y
  /-- Not north of the data. -/
  north : y ≤ max lat.start lat.last
  /-- Not west of the data. -/
  west : min lon.start lon.last≤x
  /-- Not east of the data. -/
  east : x ≤ max lon.start lon.last

/-- A cached segment has the two ends of an extracted one, each on the edge
it was computed from and inside the bounds. -/
structure Placed (lat lon : Axis α) (seg : Segment α) (cached : IsoSeg α) : Prop where
  /-- The cached ends are those of the segment. -/
  ends : cached=isoSeg seg ∨ cached=isoSeg seg.swapped
  /-- The first end lies on its edge. -/
  first : OnEdge lat lon seg.py1 seg.px1 seg.first
  /-- The second end lies on its edge. -/
  second : OnEdge lat lon seg.py2 seg.px2 seg.second
  /-- The first cached end is inside the bounds. -/
  box1 : InBox lat lon cached.lat1 cached.lon1
  /-- The second cached end is inside the bounds. -/
  box2 : InBox lat lon cached.lat2 cached.lon2

/-- A fraction of an edge, after the displacement of its row and column,
is a fraction of the same edge. -/
def KeptOnEdge (lat lon : Axis α) (e : Edge) (t : α) : Prop :=
  ∃ u : α,0≤u ∧ u≤1 ∧
    (if lat.step<0 then 0 else (lat.count : α)-1)+(e.j+t*(e.l-e.j))=e.j+u*((e.l : α)-e.j) ∧
    (if 0 < lon.step then e.i+t*((e.k : α)-e.i) else (lon.count : α)-1-(e.i+t*(e.k-e.i)))=
      e.i+u*((e.k : α)-e.i)

variable [FloorRing α]

/-- Segments of all levels before they are joined. -/
def extractedSegments (s : Factory α) (grid : Grid α) (nj ni : ℕ) : List (Segment α) :=
  (isoLevels grid nj ni).flatMap (extractIsoLine (isoPlacement s nj ni) grid ni nj)

/-- The factory after a message with a sea temperature grid was set. -/
def prepared (s : Factory α) (m : DataMessage α) (sst : Grid α) : Factory α :=
  setData {s with gui := {s.gui with myMessage := m,gridSST := some sst}} m

/-- Every segment cached by the next rendering of the isolines is placed on
the edges of its extracted segment. -/
def PlacedOnEdges (s : Factory α) (m : DataMessage α) (lat lon : Axis α) (sst : Grid α) : Prop :=
  List.Forall₂ (Placed lat lon) (extractedSegments (prepared s m sst) sst lat.count lon.count)
    (renderSeaTempIsoLines (prepared s m sst)).isoSegments

variable [IsStrictOrderedRing α] {m : DataMessage α} {lat lon : Axis α}

section Geometry

omit [FloorRing α] in
/-- Distance of the ends of an axis over the number of steps. -/
theorem axis_span (a : Axis α) :
    (max a.start a.last-min a.start a.last)/((a.count : α)-1)=|a.step| := by
  have hpos := a.count_sub_one_pos
  have hspan : a.start-a.last= -((a.count-1)*a.step) := by
    rw [a.last_eq]
    ring
  rw [max_sub_min_eq_abs,abs_sub_comm,hspan,abs_neg,abs_mul,abs_of_pos hpos]
  field_simp

omit [FloorRing α] in
/-- Falling latitudes keep row zero in the north; rising ones put it at the
last row, and the step is the step of the axis in both cases. -/
theorem isoPlacement_lat (hon : OnAxes m lat lon) (s : Factory α) (sst : Grid α) :
    (isoPlacement (prepared s m sst) lat.count lon.count).tlat=
        (if lat.step<0 then lat.start else lat.last) ∧
      (isoPlacement (prepared s m sst) lat.count lon.count).incrLat=lat.step := by
  have hpos := lat.count_sub_one_pos
  have hspan := axis_span lat
  have hlast := lat.last_eq
  simp only [isoPlacement,prepared,setData,hon.firstLat,hon.lastLat,hon.jIncr]
  rw [hspan]
  rcases lt_or_gt_of_ne lat.step_ne with hneg | hstep
  · have hle : lat.last ≤ lat.start := by nlinarith
    rw [if_pos hneg,if_pos hneg,max_eq_left hle,abs_of_neg hneg,neg_neg]
    exact ⟨rfl,rfl⟩
  · have hle : lat.start ≤ lat.last := by nlinarith
    rw [if_neg hstep.not_gt,if_neg hstep.not_gt,max_eq_right hle,abs_of_pos hstep]
    exact ⟨rfl,rfl⟩

omit [FloorRing α] in
/-- Columns are counted eastward from the western bound of the map, whichever way its
longitudes run. -/
theorem isoPlacement_lon (hon : OnAxes m lat lon) (s : Factory α) (sst : Grid α) :
    (isoPlacement (prepared s m sst) lat.count lon.count).tlon=
        (if 0 < lon.step then lon.start else lon.last) ∧
      (isoPlacement (prepared s m sst) lat.count lon.count).incrLon=|lon.step| := by
  have hpos := lon.count_sub_one_pos
  have hspan := axis_span lon
  have hlast := lon.last_eq
  simp only [isoPlacement,prepared,setData,hon.firstLong,hon.lastLong]
  rw [hspan]
  rcases lt_or_gt_of_ne lon.step_ne with hneg | hstep
  · have hle : lon.last ≤ lon.start := by nlinarith
    rw [if_neg hneg.not_gt,min_eq_right hle]
    exact ⟨rfl,rfl⟩
  · have hle : lon.start ≤ lon.last := by nlinarith
    rw [if_pos hstep,min_eq_left hle]
    exact ⟨rfl,rfl⟩

omit [FloorRing α] in
/-- Latitude of a crossing: that of its row, displaced by the height of the map when
latitudes rise. -/
theorem intersectionY_eq (hon : OnAxes m lat lon) (s : Factory α) (sst grid : Grid α) (value : α)
    (e : Edge) :
    intersectionY (isoPlacement (prepared s m sst) lat.count lon.count) grid value e=
      lat.start+((if lat.step<0 then 0 else (lat.count : α)-1)+
        (e.j+edgeFraction grid value e*(e.l-e.j)))*lat.step := by
  obtain ⟨htlat,hincr⟩ := isoPlacement_lat hon s sst
  simp only [intersectionY,htlat,hincr,lat.last_eq]
  split <;> ring

omit [FloorRing α] in
/-- Longitude of a crossing: that of its column where longitudes rise, mirrored at the ends
of the axis where they fall. -/
theorem intersectionX_eq (hon : OnAxes m lat lon) (hlon : |lon.step| ≤ halfTurn)
    (s : Factory α) (sst grid : Grid α) (value : α) {e : Edge}
    (hedge : GridEdge lon.count lat.count e) :
    intersectionX (isoPlacement (prepared s m sst) lat.count lon.count) grid value e=
      lon.start+(if 0 < lon.step then e.i+edgeFraction grid value e*((e.k : α)-e.i)
        else (lon.count : α)-1-(e.i+edgeFraction grid value e*(e.k-e.i)))*lon.step := by
  obtain ⟨htlon,hincr⟩ := isoPlacement_lon hon s sst
  have hcolumns : (e.k : α)-e.i=0 ∨ (e.k : α)-e.i=1 := by
    rcases hedge.adjacent with ⟨hk,-⟩ | ⟨hk,-⟩
    · exact Or.inr (by rw [hk]; push_cast; ring)
    · exact Or.inl (by rw [hk]; ring)
  have hdiff (a : α) : a+e.k*|lon.step|-(a+e.i*|lon.step|)=((e.k : α)-e.i)*|lon.step| := by ring
  have hsmall : abs (((e.k : α)-e.i)*|lon.step|) ≤ halfTurn := by
    rcases hcolumns with h | h <;> rw [h]
    · simpa using (abs_nonneg lon.step).trans hlon
    · simpa using hlon
  simp only [intersectionX,htlon,hincr,hdiff,wrapDifference_of_small hsmall,lon.last_eq]
  rcases lt_or_gt_of_ne lon.step_ne with hneg | hstep
  · simp only [if_neg hneg.not_gt,abs_of_neg hneg]
    ring
  · simp only [if_pos hstep,abs_of_pos hstep]
    ring

omit [FloorRing α] [IsStrictOrderedRing α] [LinearOrder α] in
/-- Positions along an axis agree exactly when their indices do. -/
theorem axis_eq_iff (a : Axis α) (r u : α) (j l : ℕ) :
    a.start+r*a.step=a.node j+u*(a.node l-a.node j) ↔ r=j+u*((l : α)-j) := by
  have hright : a.node j+u*(a.node l-a.node j)=a.start+(j+u*((l : α)-j))*a.step := by
    simp only [Axis.node]
    ring
  rw [hright,add_right_inj,mul_left_inj' a.step_ne]

omit [FloorRing α] in
/-- A crossing is placed on its edge exactly when the displacement keeps it
there. -/
theorem onEdge_iff (hon : OnAxes m lat lon) (hlon : |lon.step| ≤ halfTurn) (s : Factory α)
    (sst grid : Grid α) (value : α) {e : Edge}
    (hedge : GridEdge lon.count lat.count e) :
    OnEdge lat lon
        (intersectionY (isoPlacement (prepared s m sst) lat.count lon.count) grid
          value e)
        (intersectionX (isoPlacement (prepared s m sst) lat.count lon.count) grid
          value e) e ↔
      KeptOnEdge lat lon e (edgeFraction grid value e) := by
  rw [intersectionY_eq hon,intersectionX_eq hon hlon s sst grid value hedge]
  simp only [OnEdge,KeptOnEdge,axis_eq_iff]

omit [FloorRing α] in
/-- A node of the axis lies between its ends. -/
theorem node_between (a : Axis α) {k : ℕ} (hk : k < a.count) :
    min a.start a.last ≤ a.node k ∧ a.node k ≤ max a.start a.last := by
  have hcast : (k : α)≤(a.count : α)-1 := by
    have hsucc : ((k+1 : ℕ) : α) ≤ a.count := by exact_mod_cast hk
    push_cast at hsucc
    linarith
  have hnonneg : (0 : α)≤k := k.cast_nonneg
  rw [min_le_iff,le_max_iff,a.last_eq,Axis.node]
  rcases lt_or_gt_of_ne a.step_ne with hneg | hpos
  · exact ⟨Or.inr (by nlinarith),Or.inl (by nlinarith)⟩
  · exact ⟨Or.inl (by nlinarith),Or.inr (by nlinarith)⟩

omit [FloorRing α] in
/-- Positions on an edge of the grid are inside the bounds. -/
theorem inBox_of_onEdge {e : Edge} (hedge : GridEdge lon.count lat.count e) {y x : α}
    (h : OnEdge lat lon y x e) : InBox lat lon y x := by
  obtain ⟨u,hu0,hu1,rfl,rfl⟩ := h
  have hcolumn := hedge.column
  have hrow := hedge.row
  obtain ⟨hi,hj⟩ : e.i < lon.count ∧ e.j < lat.count := by
    rcases hedge.adjacent with ⟨h1,h2⟩ | ⟨h1,h2⟩ <;> omega
  obtain ⟨hj0,hj1⟩ := node_between lat hj
  obtain ⟨hl0,hl1⟩ := node_between lat hrow
  obtain ⟨hi0,hi1⟩ := node_between lon hi
  obtain ⟨hk0,hk1⟩ := node_between lon hcolumn
  constructor <;> nlinarith

end Geometry

section Caching

/-- The crossings of a grid on its isoline levels stay on their edges under
the displacement of their rows and columns. -/
def CrossingsKept (lat lon : Axis α) (sst : Grid α) : Prop :=
  ∀ temp∈isoLevels sst lat.count lon.count,∀ e∈joinedEdges sst lon.count lat.count temp,
    KeptOnEdge lat lon e.1 (edgeFraction sst temp e.1) ∧
      KeptOnEdge lat lon e.2 (edgeFraction sst temp e.2)

omit [IsStrictOrderedRing α] in
/-- The cached segments are the joined isolines of all levels of the sea temperature, one
level after another. -/
theorem cached_eq (hon : OnAxes m lat lon) (s : Factory α) (sst : Grid α) :
    (renderSeaTempIsoLines (prepared s m sst)).isoSegments=
      (isoLevels sst lat.count lon.count).flatMap fun temp =>
        (isoLine (isoPlacement (prepared s m sst) lat.count lon.count) sst lon.count lat.count
          temp).map isoSeg := by
  have hlat := lat.two_le
  have hlon := lon.two_le
  have hguard : ¬((prepared s m sst).attached=false ∨ lon.count<2 ∨ lat.count<2 ∨
      (prepared s m sst).needsIsoRebuild=false) := by
    simp only [prepared,setData,Bool.true_eq_false,false_or,or_false]
    omega
  have hni : (prepared s m sst).gui.myMessage.lonLength=lon.count := hon.lonLength
  have hnj : (prepared s m sst).gui.myMessage.latLength=lat.count := hon.latLength
  have hgrid : (prepared s m sst).gui.gridSST=some sst := rfl
  simp only [renderSeaTempIsoLines,hgrid,hni,hnj,if_neg hguard]

/-- A cached segment has the ends of an extracted one. -/
def SameEnds (seg : Segment α) (cached : IsoSeg α) : Prop :=
  cached=isoSeg seg ∨ cached=isoSeg seg.swapped

omit [Field α] [LinearOrder α] [FloorRing α] [IsStrictOrderedRing α] in
/-- A segment whose ends were exchanged is drawn between the same two points. -/
theorem sameEnds_of_sameUpToSwap {seg seg' : Segment α} (h : SameUpToSwap seg seg') :
    SameEnds seg (isoSeg seg') := by
  rcases h.2 with ⟨h1,h2,h3,h4⟩ | ⟨h1,h2,h3,h4⟩
  · exact Or.inl (by simp [isoSeg,h1,h2,h3,h4])
  · exact Or.inr (by simp [isoSeg,Segment.swapped,h1,h2,h3,h4])

/-- Lists that are related element by element of a third list concatenate to related lists.
-/
theorem forall₂_flatMap {β γ δ : Type} {R : γ → δ → Prop} {f : β → List γ} {g : β → List δ}
    (l : List β) (h : ∀ x∈l,List.Forall₂ R (f x) (g x)) :
    List.Forall₂ R (l.flatMap f) (l.flatMap g) := by
  induction l with
  | nil => exact List.Forall₂.nil
  | cons x l ih =>
    simp only [List.flatMap_cons]
    exact List.rel_append (h x (by simp)) (ih fun y hy => h y (by simp [hy]))

omit [IsStrictOrderedRing α] in
/-- Joining and caching keep the two ends of every extracted segment, though perhaps in the
other order. -/
theorem sameEnds_cached (hon : OnAxes m lat lon) (s : Factory α) (sst : Grid α) :
    List.Forall₂ SameEnds (extractedSegments (prepared s m sst) sst lat.count lon.count)
      (renderSeaTempIsoLines (prepared s m sst)).isoSegments := by
  rw [cached_eq hon]
  refine forall₂_flatMap _ fun temp _ => ?_
  rw [List.forall₂_map_right_iff]
  exact (joined_isoLine _ _ _ _ _).imp fun _ _ => sameEnds_of_sameUpToSwap

omit [LinearOrder α] [FloorRing α] [IsStrictOrderedRing α] in
/-- What holds of every left element follows from what it is related by. -/
theorem forall_of_forall₂ {γ δ : Type} {R : γ → δ → Prop} {P : γ → Prop} {l : List γ}
    {l' : List δ} (h : List.Forall₂ R l l') (hP : ∀ x y,R x y → P x) : ∀ x∈l,P x :=
  ((List.forall₂_and_left l l').mp (h.imp fun x y hxy => (⟨hP x y hxy,hxy⟩ : P x ∧ R x y))).1

omit [FloorRing α] in
/-- Ends on their edges of the grid are placed, in either direction. -/
theorem placed_of_onEdge {seg : Segment α} {cached : IsoSeg α} (hends : SameEnds seg cached)
    (hedge1 : GridEdge lon.count lat.count seg.first)
    (hedge2 : GridEdge lon.count lat.count seg.second)
    (h1 : OnEdge lat lon seg.py1 seg.px1 seg.first)
    (h2 : OnEdge lat lon seg.py2 seg.px2 seg.second) : Placed lat lon seg cached := by
  have hbox1 := inBox_of_onEdge hedge1 h1
  have hbox2 := inBox_of_onEdge hedge2 h2
  refine ⟨hends,h1,h2,?_,?_⟩ <;> rcases hends with rfl | rfl <;> assumption

/-- For one grid: the cached segments are placed on their edges exactly when
the displacement keeps every crossing on its edge. -/
theorem placedOnEdges_iff_kept (hon : OnAxes m lat lon) (hlon : |lon.step| ≤ halfTurn)
    (s : Factory α) (sst : Grid α) :
    PlacedOnEdges s m lat lon sst ↔ CrossingsKept lat lon sst := by
  have hextracted (P : Segment α → Prop) :
      (∀ seg∈extractedSegments (prepared s m sst) sst lat.count lon.count,P seg) ↔
        ∀ temp∈isoLevels sst lat.count lon.count,∀ e∈joinedEdges sst lon.count lat.count temp,
          P (mkSegment (isoPlacement (prepared s m sst) lat.count lon.count) sst temp e.1 e.2) := by
    simp only [extractedSegments,extractIsoLine_eq,List.mem_flatMap,List.mem_map]
    constructor
    · intro h temp htemp e he
      exact h _ ⟨temp,htemp,e,he,rfl⟩
    · rintro h seg ⟨temp,htemp,e,he,rfl⟩
      exact h temp htemp e he
  have hkept : (∀ seg∈extractedSegments (prepared s m sst) sst lat.count lon.count,
      OnEdge lat lon seg.py1 seg.px1 seg.first ∧ OnEdge lat lon seg.py2 seg.px2 seg.second) ↔
      CrossingsKept lat lon sst := by
    rw [hextracted]
    refine forall₂_congr fun temp _ => forall₂_congr fun e he => ?_
    obtain ⟨hcross1,hcross2⟩ := crossedEdge_of_mem he
    exact and_congr (onEdge_iff hon hlon s sst sst temp hcross1.edge)
      (onEdge_iff hon hlon s sst sst temp hcross2.edge)
  have hedges : ∀ seg∈extractedSegments (prepared s m sst) sst lat.count lon.count,
      GridEdge lon.count lat.count seg.first ∧ GridEdge lon.count lat.count seg.second :=
    (hextracted _).mpr fun temp _ e he =>
      ⟨(crossedEdge_of_mem he).1.edge,(crossedEdge_of_mem he).2.edge⟩
  rw [←hkept]
  constructor
  · intro h
    exact forall_of_forall₂ h fun seg cached hplaced => ⟨hplaced.first,hplaced.second⟩
  · intro h
    have hall := (List.forall₂_and_left _ _).mpr
      ⟨fun seg hseg => And.intro (hedges seg hseg) (h seg hseg),sameEnds_cached hon s sst⟩
    exact hall.imp fun seg cached hc =>
      placed_of_onEdge hc.2 hc.1.1.1 hc.1.1.2 hc.1.2.1 hc.1.2.2

end Caching

section Directions

omit [FloorRing α] in
/-- With rows running south and columns running east nothing is displaced, so every crossing
stays on its edge. -/
theorem keptOnEdge_of_directions (hlat : lat.step<0) (hlon : 0 < lon.step) {sst : Grid α}
    {temp : α} {e : Edge} (h : CrossedEdge sst lon.count lat.count temp e) :
    KeptOnEdge lat lon e (edgeFraction sst temp e) := by
  obtain ⟨-,h0,h1⟩ := crossFraction_eq h.crosses
  refine ⟨edgeFraction sst temp e,h0,h1,?_,?_⟩
  · rw [if_pos hlat,zero_add]
  · rw [if_pos hlon]

omit [LinearOrder α] [FloorRing α] [IsStrictOrderedRing α] in
/-- A grid that rises by two after its first row. -/
def stepGrid (nj ni : ℕ) : Grid α :=
  (List.range nj).map fun j => List.replicate ni (if j=0 then 0 else 1+1)

omit [LinearOrder α] [FloorRing α] [IsStrictOrderedRing α] in
/-- The first row is zero and all others are two, so that the level one is crossed in every
column. -/
theorem cellAt_stepGrid {nj ni j i : ℕ} (hj : j<nj) (hi : i<ni) :
    cellAt (stepGrid nj ni : Grid α) j i=if j=0 then 0 else 1+1 := by
  simp [cellAt,stepGrid,hj,hi]

/-- One is an isoline level of the step. -/
theorem one_mem_isoLevels {nj ni : ℕ} (hj : 1<nj) (hi : 0<ni) :
    (1 : α)∈isoLevels (stepGrid nj ni) nj ni := by
  have hj0 : 0<nj := by omega
  have hzero : cellAt (stepGrid nj ni : Grid α) 0 0=0 := cellAt_stepGrid hj0 hi
  have htwo : cellAt (stepGrid nj ni : Grid α) 1 0=1+1 := cellAt_stepGrid hj hi
  have hlow := (mem_valueRange tenBillion (stepGrid nj ni : Grid α) hj0 hi
    (by rw [hzero]; norm_num [notDef])).1
  have hhigh := (mem_valueRange tenBillion (stepGrid nj ni : Grid α) hj hi
    (by rw [htwo]; norm_num [notDef])).2
  rw [hzero] at hlow
  rw [htwo] at hhigh
  have hfloor : ⌊(valueRange (tenBillion : α) (stepGrid nj ni) nj ni).1⌋≤1 := by
    have hmono := Int.floor_mono hlow
    rw [Int.floor_zero] at hmono
    omega
  have hceil : 1≤⌈(valueRange (tenBillion : α) (stepGrid nj ni) nj ni).2⌉ := by
    rw [Int.one_le_ceil_iff]
    linarith
  have hone := mem_isoLevels (z := 1) (by linarith) hfloor hceil
  rwa [Int.cast_one] at hone

omit [FloorRing α] in
/-- The level one joins the left and the right side of the first cell. -/
theorem mem_joinedEdges_step {nj ni : ℕ} (hj : 1<nj) (hi : 1<ni) :
    ((⟨0,0,0,1⟩,⟨1,0,1,1⟩) : Edge×Edge)∈joinedEdges (stepGrid nj ni : Grid α) ni nj 1 := by
  have hvalue {j i : ℕ} (hj' : j<2) (hi' : i<2) :
      cellAt (stepGrid nj ni : Grid α) j i=if j=0 then 0 else 1+1 :=
    cellAt_stepGrid (by omega) (by omega)
  simp only [joinedEdges,List.mem_flatMap,List.mem_range,List.mem_map]
  refine ⟨0,by omega,0,by omega,(('a','c'),('b','d')),?_,rfl⟩
  have hmissing : ¬((0 : α)=notDef ∨ (0 : α)=notDef ∨ (1 : α)+1=notDef ∨ (1 : α)+1=notDef) := by
    norm_num [notDef]
  have hbelow : decide ((1 : α)<0)=false := by simp [zero_le_one]
  have habove : decide ((1 : α)<1+1)=true := by simp
  rw [hvalue (by omega) (by omega),hvalue (by omega) (by omega),hvalue (by omega) (by omega),
    hvalue (by omega) (by omega),if_pos rfl,if_neg (by omega),cellCodes_eq_pattern 1 hmissing,
    hbelow,habove]
  decide

/-- The displacement moves the crossing of the step at its first edge off
that edge. -/
theorem directions_of_kept (h : CrossingsKept lat lon (stepGrid lat.count lon.count)) :
    lat.step<0 ∧ 0 < lon.step := by
  have hj := lat.two_le
  have hi := lon.two_le
  obtain ⟨⟨u,hu0,hu1,hrow,hcolumn⟩,-⟩ :=
    h 1 (one_mem_isoLevels (by omega) (by omega)) _ (mem_joinedEdges_step (by omega) (by omega))
  have hzero : cellAt (stepGrid lat.count lon.count : Grid α) 0 0=0 :=
    cellAt_stepGrid (by omega) (by omega)
  have htwo : cellAt (stepGrid lat.count lon.count : Grid α) 1 0=1+1 :=
    cellAt_stepGrid (by omega) (by omega)
  have hcross : Crosses (1 : α) (cellAt (stepGrid lat.count lon.count : Grid α) 0 0)
      (cellAt (stepGrid lat.count lon.count : Grid α) 1 0) := by
    rw [hzero,htwo]
    exact Or.inl ⟨zero_le_one,by linarith [zero_lt_one (α := α)]⟩
  have hfraction : edgeFraction (stepGrid lat.count lon.count : Grid α) 1 ⟨0,0,0,1⟩=1/(1+1) := by
    rw [edgeFraction,(crossFraction_eq hcross).1,hzero,htwo]
    ring
  have hlatPos := lat.count_sub_one_pos
  have hlonPos := lon.count_sub_one_pos
  simp only [hfraction,Nat.cast_zero,Nat.cast_one] at hrow hcolumn
  constructor
  · by_contra hlat
    rw [if_neg hlat] at hrow
    have hcount : (2 : α) ≤ lat.count := by exact_mod_cast hj
    have hhalf : (0 : α)<1/(1+1) := by positivity
    linarith
  · by_contra hlon
    rw [if_neg hlon] at hcolumn
    linarith

/-- Isolines are placed on the edges they were computed from, for every sea
temperature grid, exactly on maps with falling latitudes and rising
longitudes. For one grid they are exactly when the displacement of the other
directions keeps all its crossings on their edges. -/
theorem placedOnEdges_iff (m : DataMessage α) (lat lon : Axis α) (hon : OnAxes m lat lon)
    (hlon : |lon.step| ≤ halfTurn) (s : Factory α) :
    ((∀ sst,PlacedOnEdges s m lat lon sst) ↔ lat.step<0 ∧ 0 < lon.step) ∧
    (∀ sst,PlacedOnEdges s m lat lon sst ↔ CrossingsKept lat lon sst) := by
  have hkept := placedOnEdges_iff_kept hon hlon s
  refine ⟨⟨fun h => directions_of_kept ((hkept _).mp (h _)),fun hdir sst => ?_⟩,hkept⟩
  refine (hkept sst).mpr fun temp _ e he => ?_
  obtain ⟨hcross1,hcross2⟩ := crossedEdge_of_mem he
  exact ⟨keptOnEdge_of_directions hdir.1 hdir.2 hcross1,
    keptOnEdge_of_directions hdir.1 hdir.2 hcross2⟩

end Directions

section Sample

/-- On a map from north to south and from west to east every grid has its
isolines in place. -/
theorem placedOnEdges_iff_southward :
    OnAxes (sampleMap southward unitAxis) southward unitAxis ∧
    ∀ sst,PlacedOnEdges {} (sampleMap southward unitAxis) southward unitAxis sst := by
  have hon := (evenlyLoaded_sampleMap southward unitAxis).onAxes
  refine ⟨hon,(placedOnEdges_iff _ _ _ hon (by decide +kernel) {}).1.mpr ?_⟩
  decide +kernel

/-- On a map from south to north the level one of a step between latitudes
zero and one is cached at latitude three halves. -/
theorem not_placedOnEdges_northward :
    OnAxes (sampleMap unitAxis unitAxis) unitAxis unitAxis ∧
    |unitAxis.step| ≤ halfTurn ∧
    (renderSeaTempIsoLines (prepared {} (sampleMap unitAxis unitAxis) (stepGrid 2 2))).isoSegments=
      [⟨1,0,1,1⟩,⟨3/2,0,3/2,1⟩] ∧
    ¬PlacedOnEdges {} (sampleMap unitAxis unitAxis) unitAxis unitAxis (stepGrid 2 2) := by
  have hon := (evenlyLoaded_sampleMap unitAxis unitAxis).onAxes
  have hlon : |unitAxis.step| ≤ halfTurn := by decide +kernel
  refine ⟨hon,hlon,by decide +kernel,fun h => ?_⟩
  have hdir := directions_of_kept ((placedOnEdges_iff_kept hon hlon {} _).mp h)
  exact absurd hdir.1 (by decide +kernel)

end Sample

end NcdfPlugin.NcdfIsoPlacement
