import NcdfPlugin.NcdfDialog
import Mathlib.Tactic.IntervalCases

/-!
# Decoding currents stored in any dimension order

The hyperslab of one time step is requested axis by axis, in the order of the
eastward component. What is delivered is flat in the order of the variable.
The fill loops keep that order, while the grids are rebuilt latitude by
latitude. When both components share their order, the grids are right exactly
when latitude comes before longitude, or when the field does not see the
difference.
-/

namespace NcdfPlugin.NcdfDimensionOrder

open NcdfLibrary NcdfDiscovery NcdfMessage NcdfTimeStep NcdfReader NcdfDialog FlatLayout

/-- Dimensions of a variable in its own order, for the current that of the
eastward component, with the three recognised axes among them. -/
structure CurrentLayout where
  /-- Dimension identifiers of the variable. -/
  dims : List ℕ
  /-- Time dimension. -/
  timeDim : ℕ
  /-- Latitude dimension. -/
  latDim : ℕ
  /-- Longitude dimension. -/
  lonDim : ℕ
  /-- Number of time steps. -/
  timeLen : ℕ
  /-- Number of latitudes. -/
  latLen : ℕ
  /-- Number of longitudes. -/
  lonLen : ℕ
  /-- No dimension occurs twice. -/
  nodup : dims.Nodup
  /-- Time is a dimension. -/
  time_mem : timeDim∈dims
  /-- Latitude is a dimension. -/
  lat_mem : latDim∈dims
  /-- Longitude is a dimension. -/
  lon_mem : lonDim∈dims
  /-- Time and latitude differ. -/
  time_ne_lat : timeDim≠latDim
  /-- Time and longitude differ. -/
  time_ne_lon : timeDim≠lonDim
  /-- Latitude and longitude differ. -/
  lat_ne_lon : latDim≠lonDim

namespace CurrentLayout

variable (L : CurrentLayout)

/-- Start of the request on one dimension. -/
def startOf (timeIndex d : ℕ) : ℕ := if d=L.timeDim then timeIndex else 0

/-- Count of the request on one dimension. -/
def countOf (d : ℕ) : ℕ :=
  if d=L.latDim then L.latLen else if d=L.lonDim then L.lonLen else 1

/-- Multi-index, in an order of the dimensions, of a time, the first depth
level, a latitude index and a longitude index. -/
def index (order : List ℕ) (timeIndex j i : ℕ) : List ℕ :=
  order.map fun d =>
    if d=L.timeDim then timeIndex else if d=L.latDim then j else if d=L.lonDim then i else 0

/-- Latitude comes before longitude among the dimensions. -/
def latFirst : Prop := L.dims.idxOf L.latDim<L.dims.idxOf L.lonDim

instance : Decidable L.latFirst := inferInstanceAs (Decidable (_<_))

/-- Moving the start of the request along both axes of the grid gives the multi-index of a
node in the variable's own order. -/
theorem map_update_index (timeIndex j i : ℕ) :
    L.dims.map (Function.update (Function.update (L.startOf timeIndex) L.latDim j) L.lonDim i)=
      L.index L.dims timeIndex j i := by
  apply List.map_congr_left
  intro d _
  by_cases hlon : d=L.lonDim
  · subst hlon
    rw [Function.update_self,if_neg L.time_ne_lon.symm,if_neg L.lat_ne_lon.symm,if_pos rfl]
  · rw [Function.update_of_ne hlon]
    by_cases hlat : d=L.latDim
    · subst hlat
      rw [Function.update_self,if_neg L.time_ne_lat.symm,if_pos rfl]
    · rw [Function.update_of_ne hlat,startOf,if_neg hlat,if_neg hlon]

/-- All latitudes are requested, so the request starts at the first. -/
theorem startOf_lat (timeIndex : ℕ) : L.startOf timeIndex L.latDim=0 :=
  if_neg L.time_ne_lat.symm

/-- All longitudes are requested, so the request starts at the first. -/
theorem startOf_lon (timeIndex : ℕ) : L.startOf timeIndex L.lonDim=0 :=
  if_neg L.time_ne_lon.symm

/-- The request counts every latitude. -/
theorem countOf_lat : L.countOf L.latDim=L.latLen := if_pos rfl

/-- The request counts every longitude. -/
theorem countOf_lon : L.countOf L.lonDim=L.lonLen := by
  rw [countOf,if_neg L.lat_ne_lon.symm,if_pos rfl]

/-- Of any other dimension, time among them, one entry is requested. -/
theorem countOf_other {d : ℕ} (hlat : d≠L.latDim) (hlon : d≠L.lonDim) : L.countOf d=1 := by
  rw [countOf,if_neg hlat,if_neg hlon]

/-- With latitude before longitude the request delivers the rows of latitude one after
another. -/
theorem hyperslab_latFirst (h : L.latFirst) (timeIndex : ℕ) :
    hyperslab (L.dims.map fun d => (L.startOf timeIndex d,L.countOf d))=
      rowMajor L.latLen L.lonLen fun j i => L.index L.dims timeIndex j i := by
  have hslab := hyperslab_rectangle (L.startOf timeIndex) L.countOf L.lat_ne_lon L.lat_mem
    L.lon_mem L.nodup h fun d _ hlat hlon => L.countOf_other hlat hlon
  simpa only [countOf_lat,countOf_lon,startOf_lat,startOf_lon,Nat.zero_add,map_update_index]
    using hslab

/-- With longitude before latitude the same request delivers the longitudes one after
another, each with all its latitudes. -/
theorem hyperslab_lonFirst (h : ¬L.latFirst) (timeIndex : ℕ) :
    hyperslab (L.dims.map fun d => (L.startOf timeIndex d,L.countOf d))=
      rowMajor L.lonLen L.latLen fun i j => L.index L.dims timeIndex j i := by
  have hne : L.dims.idxOf L.latDim≠L.dims.idxOf L.lonDim := by
    intro heq
    exact L.lat_ne_lon ((List.idxOf_inj L.lat_mem).mp heq)
  have horder : L.dims.idxOf L.lonDim<L.dims.idxOf L.latDim := by
    unfold latFirst at h
    omega
  have hslab := hyperslab_rectangle (L.startOf timeIndex) L.countOf L.lat_ne_lon.symm L.lon_mem
    L.lat_mem L.nodup horder fun d _ hlon hlat => L.countOf_other hlat hlon
  have hcomm : ∀ i j,Function.update (Function.update (L.startOf timeIndex) L.lonDim i) L.latDim j=
      Function.update (Function.update (L.startOf timeIndex) L.latDim j) L.lonDim i := by
    intro i j
    rw [Function.update_comm L.lat_ne_lon.symm]
  simpa only [countOf_lat,countOf_lon,startOf_lat,startOf_lon,Nat.zero_add,hcomm,map_update_index]
    using hslab

end CurrentLayout

section Detection

/-- The recognised names lead to the three axes of a layout. -/
structure Names (dims : AxisDims) (L : CurrentLayout) : Prop where
  /-- The time dimension is recognised. -/
  time : dims.time=some L.timeDim
  /-- The latitude dimension is recognised. -/
  lat : dims.lat=some L.latDim
  /-- The longitude dimension is recognised. -/
  lon : dims.lon=some L.lonDim

/-- Position of an entry found by a scan that starts at an offset. -/
def scanned (dimids : List ℕ) (offset d : ℕ) (before : Option ℕ) : Option ℕ :=
  if d∈dimids then some (offset+dimids.idxOf d) else before

/-- One step of a scan: the head is met, or the position moves by one. -/
theorem scanned_cons {d e : ℕ} {dimids : List ℕ} (offset : ℕ) (before : Option ℕ)
    (hnotMem : e∉dimids) :
    scanned dimids (offset+1) d (if e=d then some offset else before)=
      scanned (e::dimids) offset d before := by
  unfold scanned
  by_cases hed : e=d
  · subst hed
    simp [hnotMem]
  · have hde : d≠e := fun h => hed h.symm
    by_cases hmem : d∈dimids
    · rw [if_pos hmem,if_pos (List.mem_cons_of_mem _ hmem),List.idxOf_cons_ne _ hed]
      congr 1
      omega
    · simp [hmem,hde,hed]

variable {dims : AxisDims} {L : CurrentLayout}

/-- One comparison chain sets at most the field of the axis it meets. -/
theorem matchAxis_fields (h : Names dims L) (found : AxisIndices) (i d : ℕ) :
    (matchAxis dims found i d).time=(if d=L.timeDim then some i else found.time) ∧
    (matchAxis dims found i d).lat=(if d=L.latDim then some i else found.lat) ∧
    (matchAxis dims found i d).lon=(if d=L.lonDim then some i else found.lon) := by
  have hne := L.time_ne_lat
  have hne' := L.time_ne_lon
  have hne'' := L.lat_ne_lon
  unfold matchAxis
  rw [h.time,h.lat,h.lon]
  simp only [Option.some.injEq]
  by_cases htime : d=L.timeDim
  · subst htime
    simp [hne,hne']
  · by_cases hlat : d=L.latDim
    · subst hlat
      simp [htime,hne'']
    · by_cases hlon : d=L.lonDim
      · subst hlon
        simp [htime,hlat]
      · simp only [htime,hlat,hlon,if_false]
        split <;> exact ⟨rfl,rfl,rfl⟩

/-- A depth position is set by a dimension that is none of the three axes. -/
theorem matchAxis_depth (h : Names dims L) {found : AxisIndices} {i d p : ℕ}
    (hp : (matchAxis dims found i d).depth=some p) :
    found.depth=some p ∨ (p=i ∧ d≠L.timeDim ∧ d≠L.latDim ∧ d≠L.lonDim) := by
  unfold matchAxis at hp
  rw [h.time,h.lat,h.lon] at hp
  simp only [Option.some.injEq] at hp
  by_cases htime : d=L.timeDim
  · rw [if_pos htime] at hp
    exact Or.inl hp
  · by_cases hlat : d=L.latDim
    · rw [if_neg htime,if_pos hlat] at hp
      exact Or.inl hp
    · by_cases hlon : d=L.lonDim
      · rw [if_neg htime,if_neg hlat,if_pos hlon] at hp
        exact Or.inl hp
      · rw [if_neg htime,if_neg hlat,if_neg hlon] at hp
        split at hp
        · exact Or.inr ⟨(Option.some.inj hp).symm,htime,hlat,hlon⟩
        · exact Or.inl hp

/-- The detection loop over distinct dimensions, from any offset and any earlier result:
each axis is found at its own position. -/
theorem detect_from (h : Names dims L) {dimids : List ℕ} (hnodup : dimids.Nodup) (offset : ℕ)
    (found : AxisIndices) :
    let r := (dimids.zipIdx offset).foldl (fun f e => matchAxis dims f e.2 e.1) found
    r.time=scanned dimids offset L.timeDim found.time ∧
    r.lat=scanned dimids offset L.latDim found.lat ∧
    r.lon=scanned dimids offset L.lonDim found.lon ∧
    ∀ p,r.depth=some p → found.depth=some p ∨
      ∃ q d,p=offset+q ∧ dimids[q]? = some d ∧ d≠L.timeDim ∧ d≠L.latDim ∧ d≠L.lonDim := by
  induction dimids generalizing offset found with
  | nil => exact ⟨rfl,rfl,rfl,fun p hp => Or.inl hp⟩
  | cons e dimids ih =>
    obtain ⟨hnotMem,htail⟩ := List.nodup_cons.mp hnodup
    obtain ⟨htime,hlat,hlon⟩ := matchAxis_fields h found offset e
    obtain ⟨ihtime,ihlat,ihlon,ihdepth⟩ := ih htail (offset+1) (matchAxis dims found offset e)
    rw [List.zipIdx_cons,List.foldl_cons]
    dsimp only
    refine ⟨?_,?_,?_,fun p hp => ?_⟩
    · rw [ihtime,htime,scanned_cons offset found.time hnotMem]
    · rw [ihlat,hlat,scanned_cons offset found.lat hnotMem]
    · rw [ihlon,hlon,scanned_cons offset found.lon hnotMem]
    · rcases ihdepth p hp with hold | ⟨q,d,rfl,hd,hne⟩
      · rcases matchAxis_depth h hold with hfound | ⟨rfl,hne⟩
        · exact Or.inl hfound
        · exact Or.inr ⟨0,e,rfl,rfl,hne⟩
      · exact Or.inr ⟨q+1,d,by omega,hd,hne⟩

/-- Detected positions of the three axes, and what a depth position is not. -/
structure Detected (axes : AxisIndices) (L : CurrentLayout) : Prop where
  /-- Position of time. -/
  time : axes.time=some (L.dims.idxOf L.timeDim)
  /-- Position of latitude. -/
  lat : axes.lat=some (L.dims.idxOf L.latDim)
  /-- Position of longitude. -/
  lon : axes.lon=some (L.dims.idxOf L.lonDim)
  /-- A depth position belongs to another dimension. -/
  depth : ∀ p d,axes.depth=some p → L.dims[p]? = some d →
    d≠L.timeDim ∧ d≠L.latDim ∧ d≠L.lonDim

/-- Where the names of the dimensions tell the axes apart, the scan finds each axis at its
own position. -/
theorem detected (h : Names dims L) : Detected (detectAxes dims L.dims) L := by
  obtain ⟨htime,hlat,hlon,hdepth⟩ := detect_from h L.nodup 0 {}
  have hscan : ∀ d∈L.dims,scanned L.dims 0 d none=some (L.dims.idxOf d) := by
    intro d hd
    rw [scanned,if_pos hd,Nat.zero_add]
  refine ⟨htime.trans (hscan _ L.time_mem),hlat.trans (hscan _ L.lat_mem),
    hlon.trans (hscan _ L.lon_mem),fun p d hp hd => ?_⟩
  rcases hdepth p hp with hnone | ⟨q,d',rfl,hd',hne⟩
  · cases hnone
  · rw [Nat.zero_add] at hd
    obtain rfl := Option.some.inj (hd.symm.trans hd')
    exact hne

end Detection

section Request

variable {axes : AxisIndices} {L : CurrentLayout}

/-- Entry of a four-element vector set at three positions and at a fourth
one, if there is any. -/
theorem request_getElem? (depth : Option ℕ) (base first second third last a b c p : ℕ)
    (hp : p<4) :
    (match depth with
      | some d => ((([base,base,base,base].set a first).set b second).set c third).set d last
      | none => (([base,base,base,base].set a first).set b second).set c third)[p]? =
      some (if depth=some p then last else if c=p then third else if b=p then second
        else if a=p then first else base) := by
  have hbase : ([base,base,base,base] : List ℕ)[p]? = some base := by
    interval_cases p <;> rfl
  have hset : ∀ (l : List ℕ) (x y i : ℕ),l.length=4 → l[p]? = some x →
      (l.set i y)[p]? = some (if i=p then y else x) := by
    intro l x y i hl hx
    rw [List.getElem?_set,hl,hx]
    split
    · rename_i hip
      rw [if_pos (by omega)]
    · rfl
  have h₁ := hset _ _ first a (by simp) hbase
  have h₂ := hset _ _ second b (by simp) h₁
  have h₃ := hset _ _ third c (by simp) h₂
  cases depth with
  | none => simpa using h₃
  | some d =>
    have h₄ := hset _ _ last d (by simp) h₃
    simpa using h₄

/-- The entry of the starts at a position, in the order in which the source overwrites them.
-/
theorem currentStart_getElem? (axes : AxisIndices) (timeIdx latIdx lonIdx timeIndex p : ℕ)
    (hp : p<4) :
    (currentStart axes timeIdx latIdx lonIdx timeIndex)[p]? =
      some (if axes.depth=some p then 0 else if lonIdx=p then 0 else if latIdx=p then 0
        else if timeIdx=p then timeIndex else 0) :=
  request_getElem? axes.depth 0 timeIndex 0 0 0 timeIdx latIdx lonIdx p hp

/-- The entry of the counts at a position, in the order in which the source overwrites them.
-/
theorem currentCount_getElem? (axes : AxisIndices)
    (timeIdx latIdx lonIdx latLength lonLength p : ℕ) (hp : p<4) :
    (currentCount axes timeIdx latIdx lonIdx latLength lonLength)[p]? =
      some (if axes.depth=some p then 1 else if lonIdx=p then lonLength
        else if latIdx=p then latLength else if timeIdx=p then 1 else 1) :=
  request_getElem? axes.depth 1 1 latLength lonLength 1 timeIdx latIdx lonIdx p hp

/-- The position of a dimension identifies it. -/
theorem idxOf_eq_iff {d d' p : ℕ} (hp : L.dims[p]? = some d) (hd' : d'∈L.dims) :
    L.dims.idxOf d'=p ↔ d=d' := by
  obtain ⟨hlt,hget⟩ := List.getElem?_eq_some_iff.mp hp
  have hidx : L.dims.idxOf d=p := by rw [←hget,L.nodup.idxOf_getElem]
  rw [←hidx,List.idxOf_inj hd',eq_comm]

/-- Starts and counts are paired position by position. -/
theorem zip_getElem? {starts counts : List ℕ} {x y p : ℕ} (hx : starts[p]? = some x)
    (hy : counts[p]? = some y) : (starts.zip counts)[p]? = some (x,y) :=
  List.getElem?_zip_eq_some.mpr ⟨hx,hy⟩

/-- The four start and count entries, cut to the dimensions of the variable,
are the request on each of its dimensions. -/
theorem request_eq (h : Detected axes L) (hlength : L.dims.length≤4) (timeIndex : ℕ) :
    ((currentStart axes (L.dims.idxOf L.timeDim) (L.dims.idxOf L.latDim)
        (L.dims.idxOf L.lonDim) timeIndex).zip
      (currentCount axes (L.dims.idxOf L.timeDim) (L.dims.idxOf L.latDim)
        (L.dims.idxOf L.lonDim) L.latLen L.lonLen)).take L.dims.length=
      L.dims.map fun d => (L.startOf timeIndex d,L.countOf d) := by
  apply List.ext_getElem?
  intro p
  by_cases hp : p<L.dims.length
  · obtain ⟨d,hd⟩ : ∃ d,L.dims[p]? = some d := ⟨_,List.getElem?_eq_getElem hp⟩
    have hfour : p<4 := hp.trans_le hlength
    have hstart := currentStart_getElem? axes (L.dims.idxOf L.timeDim)
      (L.dims.idxOf L.latDim) (L.dims.idxOf L.lonDim) timeIndex p hfour
    have hcount := currentCount_getElem? axes (L.dims.idxOf L.timeDim)
      (L.dims.idxOf L.latDim) (L.dims.idxOf L.lonDim) L.latLen L.lonLen p hfour
    rw [List.getElem?_take_of_lt hp,zip_getElem? hstart hcount,List.getElem?_map,hd,
      Option.map_some]
    simp only [idxOf_eq_iff hd L.time_mem,idxOf_eq_iff hd L.lat_mem,idxOf_eq_iff hd L.lon_mem]
    have hne := L.time_ne_lat
    have hne' := L.time_ne_lon
    have hne'' := L.lat_ne_lon
    unfold CurrentLayout.startOf CurrentLayout.countOf
    by_cases hdepth : axes.depth=some p
    · obtain ⟨htime,hlat,hlon⟩ := h.depth p d hdepth hd
      simp [hdepth,htime,hlat,hlon]
    · by_cases htime : d=L.timeDim
      · subst htime
        simp [hdepth,hne,hne']
      · by_cases hlat : d=L.latDim
        · subst hlat
          simp [hdepth,hne.symm,hne'']
        · simp [hdepth,htime,hlat]
  · rw [List.getElem?_eq_none (by simp; omega),List.getElem?_eq_none (by simpa using hp)]

end Request

section Reading

variable {α : Type}

/-- A request stays within the dimensions of a variable. -/
def InRange (file : NcFile α) (dims start count : List ℕ) : Prop :=
  ∀ entry∈dims.zip ((start.zip count).take dims.length),
    ∃ len,file.dimLen entry.1=some len ∧ entry.2.1+entry.2.2≤len

instance (file : NcFile α) (dims start count : List ℕ) :
    Decidable (InRange file dims start count) :=
  decidable_of_iff
    (∀ entry∈dims.zip ((start.zip count).take dims.length),
      (file.dimLen entry.1).any (fun len => decide (entry.2.1+entry.2.2≤len))=true)
    (by simp only [InRange,Option.any_eq_true,decide_eq_true_eq])

/-- A read call of the library on a variable with the given dimensions: a
request in range delivers its box, flat in the variable's own order, and any
other request is refused. -/
structure DeliversBoxes (file : NcFile α) (dims : List ℕ) (value : List ℕ → α)
    (call : List ℕ → List ℕ → ReadOutcome α) : Prop where
  /-- Requests in range. -/
  delivers : ∀ start count,InRange file dims start count →
    call start count=⟨0,(hyperslab ((start.zip count).take dims.length)).map value⟩
  /-- Requests out of range. -/
  refuses : ∀ start count,¬InRange file dims start count → (call start count).retval≠0

/-- The library does so for a variable by the call for its type. -/
structure DeliversSlabs (file : NcFile α) (dims : List ℕ) (varid : ℤ)
    (value : List ℕ → α) : Prop where
  /-- Doubles. -/
  asDouble : file.varType varid=.double → DeliversBoxes file dims value (file.getVaraDouble varid)
  /-- All other types. -/
  asFloat : file.varType varid=.other → DeliversBoxes file dims value (file.getVaraFloat varid)

/-- The components have the dimensions of a layout, the northward one in an
order of its own. The axes are found by name and have the lengths of the
layout; there is at most one further dimension, and it is not empty. -/
structure HasLayout (file : NcFile α) (u v : ℤ) (L : CurrentLayout) (order : List ℕ) :
    Prop where
  /-- Dimensions of the eastward component. -/
  uDims : file.varDims u=some L.dims
  /-- Dimensions of the northward component. -/
  vDims : file.varDims v=some order
  /-- The components share their dimensions. -/
  perm : order.Perm L.dims
  /-- At most one depth besides the three axes: the request has four entries. -/
  length_le : L.dims.length≤4
  /-- Recognised names. -/
  names : Names (axisDims file) L
  /-- Length of time. -/
  timeLen : file.dimLen L.timeDim=some L.timeLen
  /-- Length of latitude. -/
  latLen : file.dimLen L.latDim=some L.latLen
  /-- Length of longitude. -/
  lonLen : file.dimLen L.lonDim=some L.lonLen
  /-- A depth has a first level. -/
  otherLen : ∀ d∈L.dims,d≠L.timeDim → d≠L.latDim → d≠L.lonDim →
    ∃ len,file.dimLen d=some len ∧ 0<len

/-- Each dimension of an order is long enough for what is requested on the
dimension of the layout in its place. -/
def RequestFits (file : NcFile α) (L : CurrentLayout) (order : List ℕ) (timeIndex : ℕ) : Prop :=
  ∀ entry∈order.zip L.dims,
    ∃ len,file.dimLen entry.1=some len ∧ L.startOf timeIndex entry.2+L.countOf entry.2≤len

/-- A request made for the layout is in range of an order when it fits. -/
theorem inRange_iff_fits {file : NcFile α} {L : CurrentLayout} {order start count : List ℕ}
    {timeIndex : ℕ} (hlength : order.length=L.dims.length)
    (hrequest : (start.zip count).take L.dims.length=
      L.dims.map fun d => (L.startOf timeIndex d,L.countOf d)) :
    InRange file order start count ↔ RequestFits file L order timeIndex := by
  unfold InRange RequestFits
  rw [hlength,hrequest,List.zip_map_right]
  simp only [List.forall_mem_map,Prod.map_fst,Prod.map_snd,id_eq]

/-- The request of a time step of the file fits its own order. -/
theorem requestFits_self {file : NcFile α} {u v : ℤ} {L : CurrentLayout} {order : List ℕ}
    (h : HasLayout file u v L order) {timeIndex : ℕ} (ht : timeIndex<L.timeLen) :
    RequestFits file L L.dims timeIndex := by
  intro entry hmem
  have hpairs : L.dims.map (fun d => (d,d))=L.dims.zip L.dims := by
    simpa using List.map_prod_left_eq_zip (l := L.dims) (f := id)
  rw [←hpairs] at hmem
  obtain ⟨d,hd,rfl⟩ := List.mem_map.mp hmem
  dsimp only
  by_cases htime : d=L.timeDim
  · subst htime
    refine ⟨L.timeLen,h.timeLen,?_⟩
    rw [L.countOf_other L.time_ne_lat L.time_ne_lon,CurrentLayout.startOf,if_pos rfl]
    omega
  · have hstart : L.startOf timeIndex d=0 := if_neg htime
    rw [hstart,Nat.zero_add]
    by_cases hlat : d=L.latDim
    · subst hlat
      exact ⟨L.latLen,h.latLen,L.countOf_lat.le⟩
    · by_cases hlon : d=L.lonDim
      · subst hlon
        exact ⟨L.lonLen,h.lonLen,L.countOf_lon.le⟩
      · obtain ⟨len,hlen,hpos⟩ := h.otherLen d hd htime hlat hlon
        rw [L.countOf_other hlat hlon]
        exact ⟨len,hlen,hpos⟩

/-- The read of a component is one of the library's two calls. -/
theorem DeliversSlabs.componentRead {file : NcFile α} {dims : List ℕ} {varid : ℤ}
    {value : List ℕ → α} (h : DeliversSlabs file dims varid value) (request : CurrentRequest) :
    ∃ call,DeliversBoxes file dims value call ∧
      componentRead file varid request=call request.start request.count := by
  unfold NcdfTimeStep.componentRead
  cases htype : file.varType varid with
  | double => exact ⟨_,h.asDouble htype,rfl⟩
  | other => exact ⟨_,h.asFloat htype,rfl⟩

variable [Field α]

/-- When the request is in range, the buffer of a component is the delivered rectangle in
the order of the variable. -/
theorem readComponent_eq {env : Env α} {file : NcFile α} {dims : List ℕ} {site : CallocSite}
    {varid : ℤ} {value : List ℕ → α} (request : CurrentRequest) {n m : ℕ}
    {f : ℕ → ℕ → List ℕ} (halloc : env.calloc site=true)
    (h : DeliversSlabs file dims varid value)
    (hrange : InRange file dims request.start request.count)
    (hbox : hyperslab ((request.start.zip request.count).take dims.length)=rowMajor n m f) :
    readComponent env file site varid request (n*m)=
      some (rowMajor n m fun a b => narrow env file varid (value (f a b))) := by
  obtain ⟨call,hcall,hread⟩ := h.componentRead request
  rw [hcall.delivers _ _ hrange,hbox] at hread
  have hfull : ((rowMajor n m f).map value).length=(zeros (n*m) : List α).length := by simp
  unfold readComponent componentBuffer
  rw [hread,storeInto_full hfull,rowMajor_map,rowMajor_map]
  simp [halloc]

/-- When the library refuses the request of a component, the whole component is lost. -/
theorem readComponent_refused {env : Env α} {file : NcFile α} {dims : List ℕ}
    {site : CallocSite} {varid : ℤ} {value : List ℕ → α} {request : CurrentRequest}
    (h : DeliversSlabs file dims varid value)
    (hrange : ¬InRange file dims request.start request.count) (points : ℕ) :
    readComponent env file site varid request points=none := by
  obtain ⟨call,hcall,hread⟩ := h.componentRead request
  have hcode := hcall.refuses _ _ hrange
  rw [←hread] at hcode
  rw [readComponent,if_pos hcode,ite_self]

variable [LinearOrder α]

/-- Both fill loops, for either order of the axes, keep the order of the buffers that they
read. -/
theorem fillCells_rowMajor {latBeforeLon : Bool} {msg : DataMessage α} {fillU fillV : α}
    {n m : ℕ} {U V : ℕ → ℕ → α} (hpoints : n*m = msg.latLength*msg.lonLength) :
    (fillCells latBeforeLon msg fillU fillV (rowMajor n m U) (rowMajor n m V)).map
        (fun cell => (cell.u,cell.v))=
      rowMajor n m fun a b => maskedCurrent fillU fillV (U a b) (V a b) := by
  rw [fillCells_pairs,←hpoints]
  refine Eq.trans (List.map_congr_left fun c hc => ?_) (rowMajor_eq_map_range n m _).symm
  have hget (W : ℕ → ℕ → α) : (rowMajor n m W).getD c 0=W (c/m) (c%m) := by
    rw [List.getD_eq_getElem?_getD,rowMajor_getElem?_flat W (List.mem_range.mp hc)]
    rfl
  rw [hget,hget]

/-- A time step of a file with a layout is about to be read: the file opens,
no allocation fails, and the message has the sizes of the layout. -/
structure ReadyStep (env : Env α) (cache : FileCache) (file : NcFile α) (m : DataMessage α)
    (L : CurrentLayout) (t : ℕ) (u v : ℤ) : Prop where
  /-- The file opens. -/
  opens : openFile env m.fileName=.ok file
  /-- No allocation fails. -/
  allocates : ∀ site,env.calloc site=true
  /-- The components that are cached or discovered. -/
  ids : currentVarids cache file=(u,v)
  /-- The eastward component is found. -/
  u_found : u≠ -1
  /-- The northward component is found. -/
  v_found : v≠ -1
  /-- Latitudes of the message. -/
  latLength : m.latLength=L.latLen
  /-- Longitudes of the message. -/
  lonLength : m.lonLength=L.lonLen
  /-- Rows of the grids. -/
  noPointsMeridian : m.noPointsMeridian=L.latLen
  /-- Columns of the grids. -/
  noPointsParallel : m.noPointsParallel=L.lonLen
  /-- Time step of the message. -/
  timeIndex : m.timeIndex=t
  /-- The time step exists. -/
  time_lt : t<L.timeLen
  /-- The latitudes are loaded. -/
  latValues : m.latValues.isSome=true
  /-- The longitudes are loaded. -/
  lonValues : m.lonValues.isSome=true

/-- Current at two multi-indices, one in the order of each component: both
values, or the marker when either is a fill. -/
def currentAt (env : Env α) (file : NcFile α) (u v : ℤ) (uValue vValue : List ℕ → α)
    (uIndex vIndex : List ℕ) : α×α :=
  maskedCurrent (currentFill env file u) (currentFill env file v)
    (narrow env file u (uValue uIndex)) (narrow env file v (vValue vIndex))

/-- Current of the file at a time, the first depth level, a latitude index
and a longitude index. -/
def fileCurrent (env : Env α) (file : NcFile α) (L : CurrentLayout) (order : List ℕ) (u v : ℤ)
    (uValue vValue : List ℕ → α) (t j i : ℕ) : α×α :=
  currentAt env file u v uValue vValue (L.index L.dims t j i) (L.index order t j i)

/-- What is delivered for a latitude index and a longitude index: both
components are read at the position of the eastward one. -/
def readCurrentAt (env : Env α) (file : NcFile α) (L : CurrentLayout) (u v : ℤ)
    (uValue vValue : List ℕ → α) (t j i : ℕ) : α×α :=
  currentAt env file u v uValue vValue (L.index L.dims t j i) (L.index L.dims t j i)

variable {env : Env α} {cache : FileCache} {file : NcFile α} {m : DataMessage α}
  {L : CurrentLayout} {order : List ℕ} {t : ℕ} {u v : ℤ} {uValue vValue : List ℕ → α}

/-- Request of a time step of a layout. -/
def layoutRequest (file : NcFile α) (L : CurrentLayout) (t : ℕ) : CurrentRequest where
  start := currentStart (detectAxes (axisDims file) L.dims) (L.dims.idxOf L.timeDim)
    (L.dims.idxOf L.latDim) (L.dims.idxOf L.lonDim) t
  count := currentCount (detectAxes (axisDims file) L.dims) (L.dims.idxOf L.timeDim)
    (L.dims.idxOf L.latDim) (L.dims.idxOf L.lonDim) L.latLen L.lonLen
  latBeforeLon := decide L.latFirst

omit [LinearOrder α] in
/-- For a variable with a layout the detection loop ends in the request that the layout
calls for. -/
theorem currentRequest_eq (h : ReadyStep env cache file m L t u v)
    (hlayout : HasLayout file u v L order) :
    currentRequest env file u (emptied m)=some (layoutRequest file L t) := by
  have hdetected := detected hlayout.names
  have htime : (emptied m).timeIndex.toNat=t := by
    change m.timeIndex.toNat=t
    rw [h.timeIndex,Int.toNat_natCast]
  have hlat : (emptied m).latLength=L.latLen := h.latLength
  have hlon : (emptied m).lonLength=L.lonLen := h.lonLength
  unfold currentRequest
  simp only [hlayout.uDims,hdetected.time,hdetected.lat,hdetected.lon,h.allocates,htime,hlat,
    hlon,Option.bind_eq_bind,Option.bind_some,guard,if_true,Option.pure_def]
  rfl

omit [Field α] [LinearOrder α] in
/-- The request that is made for the layout asks, dimension by dimension, for what the
layout says. -/
theorem layoutRequest_eq (hlayout : HasLayout file u v L order) :
    ((layoutRequest file L t).start.zip (layoutRequest file L t).count).take L.dims.length=
      L.dims.map fun d => (L.startOf t d,L.countOf d) :=
  request_eq (detected hlayout.names) hlayout.length_le t

/-- What reading fills in, once the request is known to be a rectangle. -/
theorem readCurrent_of_box (h : ReadyStep env cache file m L t u v)
    (hlayout : HasLayout file u v L order) (hu : DeliversSlabs file L.dims u uValue)
    (hv : DeliversSlabs file order v vValue) (hfits : RequestFits file L order t)
    {rows columns : ℕ} {f : ℕ → ℕ → List ℕ} (hpoints : rows*columns=L.latLen*L.lonLen)
    (hbox : hyperslab (L.dims.map fun d => (L.startOf t d,L.countOf d))=
      rowMajor rows columns f) :
    readCurrent env file u v (emptied m)=
      some (fillCells (decide L.latFirst) (emptied m) (currentFill env file u)
        (currentFill env file v)
        (rowMajor rows columns fun a b => narrow env file u (uValue (f a b)))
        (rowMajor rows columns fun a b => narrow env file v (vValue (f a b)))) := by
  have hrequest := layoutRequest_eq (t := t) hlayout
  have hlength := hlayout.perm.length_eq
  have hrangeU := (inRange_iff_fits rfl hrequest).mpr (requestFits_self hlayout h.time_lt)
  have hrangeV := (inRange_iff_fits hlength hrequest).mpr hfits
  rw [←hrequest] at hbox
  have hboxV := hbox
  rw [←hlength] at hboxV
  have hreadU := readComponent_eq _ (h.allocates .uValsDouble) hu hrangeU hbox
  have hreadV := readComponent_eq _ (h.allocates .vValsDouble) hv hrangeV hboxV
  have hlat : (emptied m).latLength=L.latLen := h.latLength
  have hlon : (emptied m).lonLength=L.lonLen := h.lonLength
  unfold readCurrent
  simp only [currentRequest_eq h hlayout,h.allocates,hlat,hlon,←hpoints,hreadU,hreadV,
    Option.bind_eq_bind,Option.bind_some,guard,if_true,and_self,Option.pure_def]
  rfl

/-- A request that does not fit the northward component is refused, and with
it the whole read. -/
theorem readCurrent_refused (h : ReadyStep env cache file m L t u v)
    (hlayout : HasLayout file u v L order) (hv : DeliversSlabs file order v vValue)
    (hfits : ¬RequestFits file L order t) : readCurrent env file u v (emptied m)=none := by
  have hrange := mt (inRange_iff_fits hlayout.perm.length_eq (layoutRequest_eq hlayout)).mp hfits
  have hlost (points : ℕ) :
      readComponent env file .vValsDouble v (layoutRequest file L t) points=none :=
    readComponent_refused hv hrange points
  unfold readCurrent
  simp only [currentRequest_eq h hlayout,hlost,Option.bind_eq_bind,Option.bind_some,
    Option.bind_none,Option.bind_fun_none]

/-- The current buffers keep the order of the eastward component's grid axes. -/
theorem readCurrent_pairs (h : ReadyStep env cache file m L t u v)
    (hlayout : HasLayout file u v L order) (hu : DeliversSlabs file L.dims u uValue)
    (hv : DeliversSlabs file order v vValue) (hfits : RequestFits file L order t) :
    ∃ cells,readCurrent env file u v (emptied m)=some cells ∧
      cells.map (fun cell => (cell.u,cell.v))=
        if L.latFirst then
          rowMajor L.latLen L.lonLen fun j i =>
            readCurrentAt env file L u v uValue vValue t j i
        else
          rowMajor L.lonLen L.latLen fun i j =>
            readCurrentAt env file L u v uValue vValue t j i := by
  have hpoints : L.latLen*L.lonLen=(emptied m).latLength*(emptied m).lonLength := by
    rw [←h.latLength,←h.lonLength]
    rfl
  by_cases hfirst : L.latFirst
  · refine ⟨_,readCurrent_of_box h hlayout hu hv hfits rfl (L.hyperslab_latFirst hfirst t),?_⟩
    rw [if_pos hfirst,fillCells_rowMajor hpoints]
    rfl
  · have hcomm := Nat.mul_comm L.lonLen L.latLen
    refine ⟨_,readCurrent_of_box h hlayout hu hv hfits hcomm (L.hyperslab_lonFirst hfirst t),?_⟩
    rw [if_neg hfirst,fillCells_rowMajor (hcomm.trans hpoints)]
    rfl

/-- The current part of a step that is about to be read. -/
theorem readCurrentStep_eq (h : ReadyStep env cache file m L t u v) :
    readCurrentStep env cache file (emptied m)=
      (readCurrent env file u v (emptied m)).map fun cells =>
        {emptied m with
          ucurr := some (cells.map CurrentCell.u)
          vcurr := some (cells.map CurrentCell.v)
          uvlats := some (cells.map CurrentCell.lat)
          uvlons := some (cells.map CurrentCell.lon)} := by
  unfold readCurrentStep
  rw [h.ids]
  exact if_pos ⟨h.u_found,h.v_found⟩

/-- The current buffers after the whole read: reading the scalar variables leaves them as
the current part filled them. -/
theorem readTimeStepData_current (h : ReadyStep env cache file m L t u v)
    {cells : List (CurrentCell α)} (hcells : readCurrent env file u v (emptied m)=some cells) :
    (readTimeStepData env cache m).2.ucurr=some (cells.map CurrentCell.u) ∧
      (readTimeStepData env cache m).2.vcurr=some (cells.map CurrentCell.v) := by
  have hread := readCurrentStep_eq h
  rw [hcells] at hread
  rw [(readTimeStepData_ok_iff _).mpr ⟨⟨h.latValues,h.lonValues⟩,file,_,h.opens,hread,rfl⟩]
  exact readScalars_current env cache file _

/-- When the current part is refused the read leaves an empty message, scalar variables and
all. -/
theorem readTimeStepData_refused (h : ReadyStep env cache file m L t u v)
    (hnone : readCurrent env file u v (emptied m)=none) :
    (readTimeStepData env cache m).2=emptied m := by
  have hread := readCurrentStep_eq h
  rw [hnone] at hread
  unfold readTimeStepData
  split
  next hmissing =>
    rcases hmissing with hlat | hlon
    · exact absurd h.latValues (by simp [Option.isNone_iff_eq_none.mp hlat])
    · exact absurd h.lonValues (by simp [Option.isNone_iff_eq_none.mp hlon])
  next => simp only [h.opens,hread,Option.map_none]

/-- The grids a message gives before any gap is filled hold, at every row
and column, the current of the file. -/
def DecodesCurrent (grids : GridSet α) (latLen lonLen : ℕ) (current : ℕ → ℕ → α×α) : Prop :=
  ∃ gridu gridv,grids.u=some gridu ∧ grids.v=some gridv ∧
    ∀ j<latLen,∀ i<lonLen,(cellAt gridu j i,cellAt gridv j i)=current j i

omit [LinearOrder α] in
/-- Rows and columns of two grids built from one list of pairs. -/
theorem cellAt_pairs {nj ni j i : ℕ} (hj : j<nj) (hi : i<ni) (cells : List (CurrentCell α)) :
    (cellAt (buildGrid nj ni (cells.map CurrentCell.u)) j i,
      cellAt (buildGrid nj ni (cells.map CurrentCell.v)) j i)=
      (cells.map fun cell => (cell.u,cell.v)).getD (j*ni+i) (0,0) := by
  rw [cellAt_buildGrid hj hi,cellAt_buildGrid hj hi]
  simp only [List.getD_eq_getElem?_getD,List.getElem?_map]
  cases cells[j*ni+i]? <;> rfl

omit [LinearOrder α] in
/-- Grids built from two buffers of pairs decode a field cell by cell. -/
theorem decodesCurrent_iff_cells {msg : DataMessage α} {cells : List (CurrentCell α)} {nj ni : ℕ}
    {current : ℕ → ℕ → α×α} (hu : msg.ucurr=some (cells.map CurrentCell.u))
    (hv : msg.vcurr=some (cells.map CurrentCell.v)) (hrows : msg.noPointsMeridian=nj)
    (hcolumns : msg.noPointsParallel=ni) :
    DecodesCurrent (builtGrids msg) nj ni current ↔
      ∀ j<nj,∀ i<ni,
        (cells.map fun cell => (cell.u,cell.v)).getD (j*ni+i) (0,0)=current j i := by
  have hcurrent : hasCurrent msg=true := by simp [hasCurrent,hu,hv]
  have hgridu : (builtGrids msg).u=some (buildGrid nj ni (cells.map CurrentCell.u)) := by
    simp [builtGrids,hcurrent,hu,hrows,hcolumns]
  have hgridv : (builtGrids msg).v=some (buildGrid nj ni (cells.map CurrentCell.v)) := by
    simp [builtGrids,hcurrent,hv,hrows,hcolumns]
  constructor
  · rintro ⟨gridu,gridv,hgu,hgv,hgrids⟩ j hj i hi
    obtain rfl := Option.some.inj (hgridu.symm.trans hgu)
    obtain rfl := Option.some.inj (hgridv.symm.trans hgv)
    rw [←cellAt_pairs hj hi]
    exact hgrids j hj i hi
  · intro hcells
    refine ⟨_,_,hgridu,hgridv,fun j hj i hi => ?_⟩
    rw [cellAt_pairs hj hi]
    exact hcells j hj i hi

/-- Reading a step leaves the numbers of rows and columns alone, whether it succeeds or not.
-/
theorem readTimeStepData_sizes (env : Env α) (cache : FileCache) (m : DataMessage α) :
    (readTimeStepData env cache m).2.noPointsMeridian=m.noPointsMeridian ∧
      (readTimeStepData env cache m).2.noPointsParallel=m.noPointsParallel := by
  have h := readTimeStepData_emptied env cache m
  have hrows := congrArg DataMessage.noPointsMeridian h
  have hcolumns := congrArg DataMessage.noPointsParallel h
  exact ⟨hrows,hcolumns⟩

/-- Latitude and longitude index whose value row j, column i shows. A
longitude-major buffer is cut into rows as if it were latitude-major. -/
def shownIndex (L : CurrentLayout) (j i : ℕ) : ℕ×ℕ :=
  if L.latFirst then (j,i) else ((j*L.lonLen+i)%L.latLen,(j*L.lonLen+i)/L.latLen)

omit [LinearOrder α] in
/-- The entry of the delivered pairs at a row-major position: the node itself with latitude
first, else the one that the position has among columns. -/
theorem pairs_getD (current : ℕ → ℕ → α×α) {j i : ℕ} (hj : j<L.latLen) (hi : i<L.lonLen) :
    (if L.latFirst then rowMajor L.latLen L.lonLen fun j i => current j i
      else rowMajor L.lonLen L.latLen fun i j => current j i).getD (j*L.lonLen+i) (0,0)=
      current (shownIndex L j i).1 (shownIndex L j i).2 := by
  unfold shownIndex
  rw [List.getD_eq_getElem?_getD]
  by_cases hfirst : L.latFirst
  · rw [if_pos hfirst,if_pos hfirst,rowMajor_getElem? _ hj hi]
    rfl
  · have hflat := flat_lt hj hi
    rw [Nat.mul_comm L.latLen] at hflat
    rw [if_neg hfirst,if_neg hfirst,rowMajor_getElem?_flat _ hflat]
    rfl

/-- Decoding in terms of what is read: the request fits both orders, and each
row and column shows its own current. -/
theorem decodes_iff_shown (h : ReadyStep env cache file m L t u v)
    (hlayout : HasLayout file u v L order) (hu : DeliversSlabs file L.dims u uValue)
    (hv : DeliversSlabs file order v vValue) (current : ℕ → ℕ → α×α) :
    DecodesCurrent (builtGrids (readTimeStepData env cache m).2) L.latLen L.lonLen current ↔
      RequestFits file L order t ∧ ∀ j<L.latLen,∀ i<L.lonLen,
        readCurrentAt env file L u v uValue vValue t (shownIndex L j i).1 (shownIndex L j i).2=
          current j i := by
  by_cases hfits : RequestFits file L order t
  · obtain ⟨cells,hcells,hpairs⟩ := readCurrent_pairs h hlayout hu hv hfits
    obtain ⟨hucurr,hvcurr⟩ := readTimeStepData_current h hcells
    obtain ⟨hrows,hcolumns⟩ := readTimeStepData_sizes env cache m
    rw [h.noPointsMeridian] at hrows
    rw [h.noPointsParallel] at hcolumns
    rw [decodesCurrent_iff_cells hucurr hvcurr hrows hcolumns,hpairs]
    constructor
    · intro hshown
      refine ⟨hfits,fun j hj i hi => ?_⟩
      rw [←hshown j hj i hi,pairs_getD _ hj hi]
    · rintro ⟨-,hshown⟩ j hj i hi
      rw [pairs_getD _ hj hi]
      exact hshown j hj i hi
  · have hempty := readTimeStepData_refused h (readCurrent_refused h hlayout hv hfits)
    refine iff_of_false ?_ fun hboth => hfits hboth.1
    rintro ⟨gridu,gridv,hgu,-⟩
    rw [hempty] at hgu
    cases hgu

/-- The displayed grids decode the file exactly when the request made for the
eastward component fits the northward one and each row and column shows its
own current. With a shared order this is exactly when latitude comes before
longitude, or when every cell equals the one whose flat position in the
longitude-major buffer is its own row-major position. -/
theorem decodes_iff (h : ReadyStep env cache file m L t u v)
    (hlayout : HasLayout file u v L order) (hu : DeliversSlabs file L.dims u uValue)
    (hv : DeliversSlabs file order v vValue) :
    (DecodesCurrent (builtGrids (readTimeStepData env cache m).2) L.latLen L.lonLen
        (fileCurrent env file L order u v uValue vValue t) ↔
      RequestFits file L order t ∧ ∀ j<L.latLen,∀ i<L.lonLen,
        readCurrentAt env file L u v uValue vValue t (shownIndex L j i).1 (shownIndex L j i).2=
          fileCurrent env file L order u v uValue vValue t j i) ∧
    (order=L.dims →
      (DecodesCurrent (builtGrids (readTimeStepData env cache m).2) L.latLen L.lonLen
          (fileCurrent env file L order u v uValue vValue t) ↔
        L.latFirst ∨ ∀ j<L.latLen,∀ i<L.lonLen,
          fileCurrent env file L order u v uValue vValue t ((j*L.lonLen+i)%L.latLen)
              ((j*L.lonLen+i)/L.latLen)=
            fileCurrent env file L order u v uValue vValue t j i)) := by
  have hshown := decodes_iff_shown h hlayout hu hv (fileCurrent env file L order u v uValue vValue t)
  refine ⟨hshown,fun hsame => ?_⟩
  obtain rfl := hsame
  have hread : ∀ j i,readCurrentAt env file L u v uValue vValue t j i=
      fileCurrent env file L L.dims u v uValue vValue t j i := fun _ _ => rfl
  rw [hshown,and_iff_right (requestFits_self hlayout h.time_lt)]
  unfold shownIndex
  by_cases hfirst : L.latFirst
  · simp only [hread,if_pos hfirst]
    exact iff_of_true (fun _ _ _ _ => trivial) (Or.inl hfirst)
  · rw [or_iff_right hfirst]
    simp only [hread,if_neg hfirst]

/-- Without a look at the field the condition on the longitude-major buffer
holds for a single row or a single column only. -/
theorem reshuffle_invisible_iff {β : Type} [Nontrivial β] (latLen lonLen : ℕ) :
    (∀ current : ℕ → ℕ → β,∀ j<latLen,∀ i<lonLen,
      current ((j*lonLen+i)%latLen) ((j*lonLen+i)/latLen)=current j i) ↔
      latLen≤1 ∨ lonLen≤1 := by
  constructor
  · intro h
    by_contra hsizes
    obtain ⟨x,y,hxy⟩ := exists_pair_ne β
    have hmoved := h (fun j _ => if j=0 then x else y) 0 (by omega) 1 (by omega)
    rw [Nat.zero_mul,Nat.zero_add,Nat.mod_eq_of_lt (by omega)] at hmoved
    exact hxy hmoved.symm
  · rintro (hrow | hcolumn) current j hj i hi
    · obtain rfl : j=0 := by omega
      obtain rfl : latLen=1 := by omega
      simp [Nat.mod_one]
    · obtain rfl : i=0 := by omega
      obtain rfl : lonLen=1 := by omega
      rw [Nat.mul_one,Nat.add_zero,Nat.mod_eq_of_lt hj,Nat.div_eq_of_lt hj]

end Reading

section Sample

/-- Value that tells the entries of a small variable apart. -/
def digits (index : List ℕ) : ℚ := index.foldl (fun acc k => 10*acc+k) 0

/-- One time step of two latitudes and three longitudes. -/
def gridFile : NcFile ℚ := sampleFile [0] [10,11] [20,21,22] fun _ => []

/-- The file with the current variables in the given order of dimensions. -/
def orderedFile (dims : List ℕ) : NcFile ℚ :=
  {gridFile with
    varDims := fun varid => if varid≤2 then some [varid.toNat] else some dims
    getVaraFloat := fun _ start count =>
      if InRange gridFile dims start count then
        ⟨0,(hyperslab ((start.zip count).take dims.length)).map digits⟩
      else ⟨-1,[]⟩}

/-- Longitude before latitude. -/
def longitudeMajor : CurrentLayout :=
  ⟨[0,2,1],0,1,2,1,2,3,by decide,by decide,by decide,by decide,by decide,by decide,by decide⟩

/-- A world with one such file. -/
def orderedEnv (dims : List ℕ) : Env ℚ := sampleEnv fun _ => some (orderedFile dims)

/-- The loaded time step of that file. -/
def orderedStep (dims : List ℕ) : DataMessage ℚ :=
  (fileSteps (orderedEnv dims) "d\\a.nc").getD 0 {}

/-- The identifiers cached when it was loaded. -/
def orderedCache (dims : List ℕ) : FileCache := FileCache.ofIds (discoverVars (orderedFile dims))

/-- A file whose components have longitude before latitude has a layout like any other. -/
theorem longitudeMajor_layout : HasLayout (orderedFile [0,2,1]) 3 4 longitudeMajor [0,2,1] :=
  ⟨rfl,rfl,List.Perm.refl _,by decide,⟨by decide,by decide,by decide⟩,by decide,by decide,by decide,
    by decide⟩

/-- Its first step is ready to be read. -/
theorem longitudeMajor_ready :
    ReadyStep (orderedEnv [0,2,1]) (orderedCache [0,2,1]) (orderedFile [0,2,1])
      (orderedStep [0,2,1]) longitudeMajor 0 3 4 :=
  ⟨rfl,fun _ => rfl,by decide +kernel,by decide,by decide,by decide +kernel,by decide +kernel,
    by decide +kernel,by decide +kernel,by decide +kernel,by decide +kernel,by decide +kernel,
    by decide +kernel⟩

/-- The library delivers the digits of the index for each of its values. -/
theorem longitudeMajor_delivers (varid : ℤ) (h : 2<varid) :
    DeliversSlabs (orderedFile [0,2,1]) [0,2,1] varid digits := by
  have htype : (orderedFile [0,2,1]).varType varid=.other := by
    change (if varid≤2 then NcType.double else NcType.other)=_
    rw [if_neg (by omega)]
  refine ⟨fun hdouble => ?_,fun _ => ⟨fun _ _ hrange => if_pos hrange,fun _ _ hrange => ?_⟩⟩
  · rw [htype] at hdouble
    cases hdouble
  · have hlost : ¬InRange gridFile [0,2,1] _ _ := hrange
    change (if InRange gridFile _ _ _ then _ else _ : ReadOutcome ℚ).retval≠0
    rw [if_neg hlost]
    decide

/-- Grids of that file before any gap is filled. -/
def longitudeMajorGrids : GridSet ℚ :=
  builtGrids (readTimeStepData (orderedEnv [0,2,1]) (orderedCache [0,2,1]) (orderedStep [0,2,1])).2

/-- Current of that file. -/
def longitudeMajorCurrent : ℕ → ℕ → ℚ×ℚ :=
  fileCurrent (orderedEnv [0,2,1]) (orderedFile [0,2,1]) longitudeMajor [0,2,1] 3 4 digits digits 0

/-- The equivalence for a file whose components both have longitude before latitude. -/
theorem decodes_iff_longitudeMajor :
    DecodesCurrent longitudeMajorGrids 2 3 longitudeMajorCurrent ↔
      longitudeMajor.latFirst ∨ ∀ j<2,∀ i<3,
        longitudeMajorCurrent ((j*3+i)%2) ((j*3+i)/2)=longitudeMajorCurrent j i :=
  (decodes_iff longitudeMajor_ready longitudeMajor_layout (longitudeMajor_delivers 3 (by decide))
    (longitudeMajor_delivers 4 (by decide))).2 rfl

/-- Row zero, column one of the displayed grid is latitude one, longitude
zero of the file. -/
theorem not_decodes_longitudeMajor :
    ReadyStep (orderedEnv [0,2,1]) (orderedCache [0,2,1]) (orderedFile [0,2,1])
        (orderedStep [0,2,1]) longitudeMajor 0 3 4 ∧
      HasLayout (orderedFile [0,2,1]) 3 4 longitudeMajor [0,2,1] ∧
      DeliversSlabs (orderedFile [0,2,1]) [0,2,1] 3 digits ∧
      DeliversSlabs (orderedFile [0,2,1]) [0,2,1] 4 digits ∧
      ¬DecodesCurrent longitudeMajorGrids 2 3 longitudeMajorCurrent := by
  refine ⟨longitudeMajor_ready,longitudeMajor_layout,longitudeMajor_delivers 3 (by decide),
    longitudeMajor_delivers 4 (by decide),?_⟩
  rintro ⟨gridu,gridv,hu,-,hgrids⟩
  have hcell : cellAt gridu 0 1=(longitudeMajorCurrent 0 1).1 :=
    congrArg Prod.fst (hgrids 0 (by decide) 1 (by decide))
  have hshown : longitudeMajorGrids.u.map (fun grid => cellAt grid 0 1)=some 1 := by
    decide +kernel
  have hfile : (longitudeMajorCurrent 0 1).1=10 := by decide +kernel
  rw [hu] at hshown
  have hone : cellAt gridu 0 1=1 := Option.some.inj hshown
  rw [hone,hfile] at hcell
  exact absurd hcell (by decide)

end Sample

end NcdfPlugin.NcdfDimensionOrder
