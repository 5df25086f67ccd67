import NcdfPlugin.NcdfDialog
import Mathlib.Algebra.BigOperators.Group.List.Basic

/-!
# Reads of the coordinate variables

The buffers of the coordinates are as long as the first dimension of their
variable, and every read transfers the whole variable. A read fits when the
further dimensions add nothing; the bounds exist when the first dimensions of
latitude and longitude are not empty.
-/

namespace NcdfPlugin.NcdfCoordinateReads

open NcdfLibrary NcdfDiscovery NcdfMessage NcdfDialog

variable {α : Type}

/-- A read of a whole variable. -/
structure WholeRead where
  /-- Number of values stored. -/
  stored : ℕ
  /-- Number of cells of the destination. -/
  allocated : ℕ

/-- The reads of one coordinate on the way to the bounds: as double, and when
that fails as float into a buffer of the same length. -/
def wholeReads (file : NcFile α) (varid : ℤ) (length : ℕ) : List WholeRead :=
  let asDouble := ⟨(file.getVarDouble varid).delivered.length,length⟩
  if (file.getVarDouble varid).retval=0 then [asDouble]
  else [asDouble,⟨(file.getVarFloat varid).delivered.length,length⟩]

/-- `n - 1` for a `size_t`. -/
def lastIndex (n : ℕ) : ℕ := (n+(2^64-1))%2^64

/-- `nc_get` gets as far as computing the bounds. -/
structure ReachesBounds [Field α] [LinearOrder α] [FloorRing α] (env : Env α) (filename : String)
    (file : NcFile α) (ids : VarIds) (coords : Coordinates α) : Prop where
  /-- The file is opened and its variables are found. -/
  opened : openAndDiscover env filename=.ok (file,ids)
  /-- The coordinates are read. -/
  read : readCoordinates env file ids=.ok coords

/-- No read of a coordinate and no bound leaves its buffer. -/
structure CoordinatesFit (file : NcFile α) (ids : VarIds) (coords : Coordinates α) : Prop where
  /-- Reads of the latitudes. -/
  lats : ∀ read∈wholeReads file ids.lat coords.lats.length,read.stored ≤ read.allocated
  /-- Reads of the longitudes. -/
  lons : ∀ read∈wholeReads file ids.lon coords.lons.length,read.stored ≤ read.allocated
  /-- Reads of the times. -/
  times : ∀ read∈wholeReads file ids.time coords.times.length,read.stored ≤ read.allocated
  /-- Bounds of the latitudes. -/
  latBounds : 0 < coords.lats.length ∧ lastIndex coords.lats.length < coords.lats.length
  /-- Bounds of the longitudes. -/
  lonBounds : 0 < coords.lons.length ∧ lastIndex coords.lons.length < coords.lons.length

/-- Length of a dimension. -/
def dimSize (file : NcFile α) (dimid : ℕ) : ℕ := (file.dimLen dimid).getD 0

/-- Length of the first dimension of a variable. -/
def firstSize (file : NcFile α) (varid : ℤ) : ℕ :=
  (((file.varDims varid).getD []).head?.map (dimSize file)).getD 0

/-- Product of the lengths of its further dimensions. -/
def furtherSize (file : NcFile α) (varid : ℤ) : ℕ :=
  ((((file.varDims varid).getD []).tail).map (dimSize file)).prod

/-- A read of a whole variable stores as many values as the variable has. -/
structure ReadsWhole (file : NcFile α) : Prop where
  /-- Reads as double. -/
  double : ∀ varid dimids,file.varDims varid=some dimids →
    (file.getVarDouble varid).delivered.length=(dimids.map (dimSize file)).prod
  /-- Reads as float. -/
  float : ∀ varid dimids,file.varDims varid=some dimids →
    (file.getVarFloat varid).delivered.length=(dimids.map (dimSize file)).prod

section Lengths

/-- Both parts of a successful sequence succeed. -/
theorem exists_of_bind_ok {ε β γ : Type} {x : Except ε β} {f : β → Except ε γ} {c : γ}
    (h : x >>= f=.ok c) : ∃ b,x=.ok b ∧ f b=.ok c := by
  cases x with
  | error e => cases h
  | ok b => exact ⟨b,rfl,h⟩

variable [Field α] [LinearOrder α] [FloorRing α] {env : Env α} {file : NcFile α} {ids : VarIds}

/-- A variable whose first dimension has the given length. -/
def FirstLength (file : NcFile α) (varid : ℤ) (n : ℕ) : Prop :=
  ∃ dimid rest,file.varDims varid=some (dimid::rest) ∧ file.dimLen dimid=some n

omit [Field α] [LinearOrder α] [FloorRing α] in
/-- The length taken for a buffer is that of the first dimension. -/
theorem firstLength_of_dimLength {varid : ℤ} {n : ℕ} (hdim : findDimByVar file varid 0≠ -1)
    (h : dimLength file (findDimByVar file varid 0)=.ok n) : FirstLength file varid n := by
  unfold findDimByVar at hdim h
  cases hdims : file.varDims varid with
  | none => simp [hdims] at hdim
  | some dimids =>
    cases dimids with
    | nil => simp [hdims] at hdim
    | cons dimid rest =>
      refine ⟨dimid,rest,hdims,?_⟩
      simp only [hdims,dimLength,List.getElem?_cons_zero,Option.map_some,Option.getD_some,
        Int.ofNat_eq_natCast,Int.toNat_natCast] at h
      cases hlen : file.dimLen dimid with
      | none => simp [hlen] at h
      | some m => rw [hlen] at h; cases h; rfl

omit [LinearOrder α] [FloorRing α] in
/-- A coordinate is read into a buffer of the given length. -/
theorem length_readCoordinate {site : CallocSite} {varid : ℤ} {n : ℕ} {values : List α}
    (h : readCoordinate env file site varid n=.ok values) : values.length=n := by
  unfold readCoordinate at h
  dsimp only at h
  split at h
  · cases h; simp
  · split at h
    · cases h
    · split at h <;> cases h <;> simp

omit [LinearOrder α] [FloorRing α] in
/-- On the way to the bounds every buffer is as long as the first dimension of
its variable. -/
theorem readCoordinates_lengths {coords : Coordinates α}
    (h : readCoordinates env file ids=.ok coords) :
    FirstLength file ids.lat coords.lats.length ∧ FirstLength file ids.lon coords.lons.length ∧
      FirstLength file ids.time coords.times.length := by
  unfold readCoordinates at h
  by_cases hmissing : ids.lat= -1 ∨ ids.lon= -1 ∨ ids.time= -1
  · rw [if_pos hmissing] at h
    cases h
  rw [if_neg hmissing] at h
  by_cases hdims : findDimByVar file ids.time 0= -1 ∨ findDimByVar file ids.lat 0= -1 ∨
      findDimByVar file ids.lon 0= -1
  · rw [if_pos hdims] at h
    cases h
  rw [if_neg hdims] at h
  obtain ⟨htime,hrest⟩ := not_or.mp hdims
  obtain ⟨hlat,hlon⟩ := not_or.mp hrest
  obtain ⟨timelength,htimelength,h⟩ := exists_of_bind_ok h
  obtain ⟨latlength,hlatlength,h⟩ := exists_of_bind_ok h
  obtain ⟨lonlength,hlonlength,h⟩ := exists_of_bind_ok h
  by_cases hcalloc : env.calloc .lats=false ∨ env.calloc .lons=false ∨ env.calloc .timeOut=false
  · rw [if_pos hcalloc] at h
    cases h
  rw [if_neg hcalloc] at h
  obtain ⟨lats,hlats,h⟩ := exists_of_bind_ok h
  obtain ⟨lons,hlons,h⟩ := exists_of_bind_ok h
  obtain ⟨times,htimes,h⟩ := exists_of_bind_ok h
  cases h
  rw [length_readCoordinate hlats,length_readCoordinate hlons,length_readCoordinate htimes]
  exact ⟨firstLength_of_dimLength hlat hlatlength,firstLength_of_dimLength hlon hlonlength,
    firstLength_of_dimLength htime htimelength⟩

end Lengths

section Fitting

variable {file : NcFile α} {ids : VarIds} {varid : ℤ} {n : ℕ}

/-- Latitude and longitude are not empty, and no further dimension adds to the
values of a coordinate that is not empty. -/
structure FlatCoordinates (file : NcFile α) (ids : VarIds) : Prop where
  /-- Dimensions of the latitudes. -/
  lat : 0 < firstSize file ids.lat ∧ furtherSize file ids.lat≤1
  /-- Dimensions of the longitudes. -/
  lon : 0 < firstSize file ids.lon ∧ furtherSize file ids.lon≤1
  /-- Dimensions of the times. -/
  time : firstSize file ids.time=0 ∨ furtherSize file ids.time≤1

/-- The length that nc_get takes for the array is that of the first dimension. -/
theorem FirstLength.firstSize_eq (h : FirstLength file varid n) : firstSize file varid=n := by
  obtain ⟨dimid,rest,hdims,hlen⟩ := h
  simp [firstSize,dimSize,hdims,hlen]

/-- A whole variable is the product of its first and its further dimensions. -/
theorem FirstLength.prod_eq (h : FirstLength file varid n) :
    ∃ dimids,file.varDims varid=some dimids ∧
      (dimids.map (dimSize file)).prod=n*furtherSize file varid := by
  obtain ⟨dimid,rest,hdims,hlen⟩ := h
  exact ⟨dimid::rest,hdims,by simp [furtherSize,dimSize,hdims,hlen]⟩

/-- The reads of a coordinate fit exactly when its buffer is empty or its
further dimensions add nothing. -/
theorem wholeReads_fit_iff (hread : ReadsWhole file) (h : FirstLength file varid n) :
    (∀ read∈wholeReads file varid n,read.stored ≤ read.allocated) ↔
      n=0 ∨ furtherSize file varid≤1 := by
  obtain ⟨dimids,hdims,hprod⟩ := h.prod_eq
  have hdouble := (hread.double varid dimids hdims).trans hprod
  have hfloat := (hread.float varid dimids hdims).trans hprod
  have hfit : n*furtherSize file varid≤n ↔ n=0 ∨ furtherSize file varid≤1 := by
    rcases Nat.eq_zero_or_pos n with rfl | hn
    · simp
    · constructor
      · intro hle
        exact Or.inr (Nat.le_of_mul_le_mul_left (by simpa using hle) hn)
      · intro hor
        simpa using Nat.mul_le_mul_left n (hor.resolve_left hn.ne')
  unfold wholeReads
  split <;> simp [hdouble,hfloat,hfit]

/-- The last index of a buffer lies in it exactly when it is not empty. -/
theorem bounds_iff (n : ℕ) : (0<n ∧ lastIndex n<n) ↔ 0<n := by
  unfold lastIndex
  omega

variable [Field α] [LinearOrder α] [FloorRing α] {env : Env α} {filename : String}
  {coords : Coordinates α}

/-- On the way to the bounds reads and bounds stay in their buffers exactly
when the coordinates are flat. -/
theorem coordinatesFit_iff (hread : ReadsWhole file)
    (h : ReachesBounds env filename file ids coords) :
    CoordinatesFit file ids coords ↔ FlatCoordinates file ids := by
  obtain ⟨hlat,hlon,htime⟩ := readCoordinates_lengths h.read
  have hlats := wholeReads_fit_iff hread hlat
  have hlons := wholeReads_fit_iff hread hlon
  have htimes := wholeReads_fit_iff hread htime
  have hlatBounds := bounds_iff coords.lats.length
  have hlonBounds := bounds_iff coords.lons.length
  have hlatSize := hlat.firstSize_eq
  have hlonSize := hlon.firstSize_eq
  have htimeSize := htime.firstSize_eq
  constructor
  · intro hfit
    have hlatPos := hfit.latBounds.1
    have hlonPos := hfit.lonBounds.1
    refine ⟨⟨hlatSize ▸ hlatPos,?_⟩,⟨hlonSize ▸ hlonPos,?_⟩,htimeSize ▸ htimes.mp hfit.times⟩
    · exact (hlats.mp hfit.lats).resolve_left hlatPos.ne'
    · exact (hlons.mp hfit.lons).resolve_left hlonPos.ne'
  · rintro ⟨hflatLat,hflatLon,hflatTime⟩
    rw [hlatSize] at hflatLat
    rw [hlonSize] at hflatLon
    rw [htimeSize] at hflatTime
    exact ⟨hlats.mpr (Or.inr hflatLat.2),hlons.mpr (Or.inr hflatLon.2),htimes.mpr hflatTime,
      hlatBounds.mpr hflatLat.1,hlonBounds.mpr hflatLon.1⟩

end Fitting

section Sample

/-- Lengths of four dimensions, the last one empty. -/
def dimLengths : List ℕ := [1,2,3,0]

/-- All values of a variable over some of these dimensions. -/
def wholeValues (dimids : List ℕ) : ReadOutcome ℚ :=
  ⟨0,zeros (dimids.map fun d => (dimLengths[d]?).getD 0).prod⟩

/-- A file with coordinate variables over some of these dimensions. -/
def coordinateFile (lat lon time : List ℕ) : NcFile ℚ where
  inq := .ok (4,3)
  attText := fun _ _ => none
  attFloat := fun _ _ => none
  attDouble := fun _ _ => none
  inqVarid := fun name => ["nav_lat","nav_lon","time"].findIdx? (· = name)
  varDims := fun varid => [lat,lon,time][varid.toNat]?
  inqDimid := fun _ => none
  dimName := fun _ => ""
  dimLen := fun dimid => dimLengths[dimid]?
  varType := fun _ => .double
  getVarDouble := fun varid => wholeValues (([lat,lon,time][varid.toNat]?).getD [])
  getVarFloat := fun varid => wholeValues (([lat,lon,time][varid.toNat]?).getD [])
  getVaraDouble := fun _ _ _ => ⟨-1,[]⟩
  getVaraFloat := fun _ _ _ => ⟨-1,[]⟩

/-- A file with coordinates of the given lengths has variables that are read whole. -/
theorem readsWhole_coordinateFile (lat lon time : List ℕ) :
    ReadsWhole (coordinateFile lat lon time) := by
  have hwhole (varid : ℤ) (dimids : List ℕ)
      (hdims : (coordinateFile lat lon time).varDims varid=some dimids) :
      (wholeValues (([lat,lon,time][varid.toNat]?).getD [])).delivered.length=
        (dimids.map (dimSize (coordinateFile lat lon time))).prod := by
    have hvar : [lat,lon,time][varid.toNat]? = some dimids := hdims
    rw [hvar,Option.getD_some,wholeValues,zeros_length]
    rfl
  exact ⟨hwhole,hwhole⟩

/-- A world with that file. -/
def coordinateEnv (lat lon time : List ℕ) : Env ℚ :=
  sampleEnv fun _ => some (coordinateFile lat lon time)

/-- Its variables. -/
def coordinateIds : VarIds := ⟨-1,-1,0,1,2,-1,-1⟩

/-- Its coordinates as they are read. -/
def readValues (nlat nlon ntime : ℕ) : Coordinates ℚ := ⟨zeros nlat,zeros nlon,zeros ntime⟩

/-- The equivalence for a file with coordinates of one dimension each, which fit. -/
theorem coordinatesFit_iff_flat :
    ReachesBounds (coordinateEnv [1] [2] [0]) "a.nc" (coordinateFile [1] [2] [0]) coordinateIds
      (readValues 2 3 1) ∧
    (CoordinatesFit (coordinateFile [1] [2] [0]) coordinateIds (readValues 2 3 1) ↔
      FlatCoordinates (coordinateFile [1] [2] [0]) coordinateIds) := by
  have h : ReachesBounds (coordinateEnv [1] [2] [0]) "a.nc" (coordinateFile [1] [2] [0])
      coordinateIds (readValues 2 3 1) := ⟨by rfl,by rfl⟩
  exact ⟨h,coordinatesFit_iff (readsWhole_coordinateFile _ _ _) h⟩

/-- Six latitudes over two dimensions are read into a buffer of two cells, and
of an empty latitude the last index is far outside. -/
theorem not_coordinatesFit_curvilinear :
    (ReadsWhole (coordinateFile [1,2] [1,2] [0]) ∧
      ReachesBounds (coordinateEnv [1,2] [1,2] [0]) "a.nc" (coordinateFile [1,2] [1,2] [0])
        coordinateIds (readValues 2 2 1) ∧
      wholeReads (coordinateFile [1,2] [1,2] [0]) 0 2=[⟨6,2⟩] ∧
      ¬CoordinatesFit (coordinateFile [1,2] [1,2] [0]) coordinateIds (readValues 2 2 1)) ∧
    ReadsWhole (coordinateFile [3] [2] [0]) ∧
      ReachesBounds (coordinateEnv [3] [2] [0]) "a.nc" (coordinateFile [3] [2] [0])
        coordinateIds (readValues 0 3 1) ∧
      lastIndex 0=18446744073709551615 ∧
      ¬CoordinatesFit (coordinateFile [3] [2] [0]) coordinateIds (readValues 0 3 1) := by
  have hreads : wholeReads (coordinateFile [1,2] [1,2] [0]) 0 2=[⟨6,2⟩] := by rfl
  refine ⟨⟨readsWhole_coordinateFile _ _ _,⟨by rfl,by rfl⟩,hreads,fun h => ?_⟩,
    readsWhole_coordinateFile _ _ _,⟨by rfl,by rfl⟩,by decide,fun h => ?_⟩
  · have hlats : ∀ read∈wholeReads (coordinateFile [1,2] [1,2] [0]) 0 2,
        read.stored ≤ read.allocated := h.lats
    rw [hreads] at hlats
    exact absurd (hlats ⟨6,2⟩ List.mem_cons_self) (by decide)
  · exact absurd h.latBounds.1 (by decide)

end Sample

end NcdfPlugin.NcdfCoordinateReads
