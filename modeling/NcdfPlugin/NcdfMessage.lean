import NcdfPlugin.NcdfTimeUnits

/-!
# Time-step messages and the loader

A message carries the geometry of one time step and, once read, its value
buffers. `nc_get` opens a file, discovers its variables, reads the three
coordinate arrays and builds one message per time value. Its exits before
the discovery and after it are kept apart, because the dialog stores the
discovered identifiers between them.
-/

namespace NcdfPlugin.NcdfMessage

open NcdfLibrary NcdfDiscovery NcdfTimeUnits ExactArithmetic

/-- `ncdf_NOTDEF`, the marker of a missing value. -/
abbrev notDef {α : Type} [Field α] : α := -999999999

/-- `ncdfDataMessage`. Buffers are absent while their pointer is NULL. -/
structure DataMessage (α : Type) [Field α] where
  /-- Full path of the file. -/
  fileName : String := ""
  /-- Position of the time step in its file. -/
  timeIndex : ℤ := -1
  /-- Whether the date below is meaningful. -/
  timeValid : Bool := false
  /-- Instant of the time step in seconds. -/
  dataDateTime : Option ℤ := none
  /-- Minutes since the epoch, or sixty per step without one. -/
  minutesAfterStart : ℤ := 0
  /-- Number of grid cells. -/
  numberOfPoints : ℤ := 0
  /-- Columns of the grid. -/
  noPointsParallel : ℕ := 0
  /-- Rows of the grid. -/
  noPointsMeridian : ℕ := 0
  /-- Latitude of row zero. -/
  firstGridPointLat : α := 0
  /-- Longitude of column zero. -/
  firstGridPointLong : α := 0
  /-- Latitude of the last row. -/
  lastGridPointLat : α := 0
  /-- Longitude of the last column. -/
  lastGridPointLong : α := 0
  /-- Longitude step from one column to the next. -/
  iDirectionIncr : α := 0
  /-- Latitude step from one row to the next. -/
  jDirectionIncr : α := 0
  /-- Length of the latitude array. -/
  latLength : ℕ := 0
  /-- Length of the longitude array. -/
  lonLength : ℕ := 0
  /-- Length of the time array. -/
  timeLength : ℕ := 0
  /-- Latitudes of the rows. -/
  latValues : Option (List α) := none
  /-- Longitudes of the columns. -/
  lonValues : Option (List α) := none
  /-- Raw time values of the file. -/
  timeValues : Option (List α) := none
  /-- Eastward current, flat. -/
  ucurr : Option (List α) := none
  /-- Northward current, flat. -/
  vcurr : Option (List α) := none
  /-- Latitudes of the current values, flat. -/
  uvlats : Option (List α) := none
  /-- Longitudes of the current values, flat. -/
  uvlons : Option (List α) := none
  /-- Sea temperature, flat. -/
  sst : Option (List α) := none
  /-- Whether sea temperature was found or read. -/
  hasSeaTemp : Bool := false
  /-- Salinity, flat. -/
  salinity : Option (List α) := none
  /-- Whether salinity was found or read. -/
  hasSalinity : Bool := false

section Message

variable {α : Type} [Field α]

/-- `ncdfDataMessage::clear`: releases the value buffers and nothing else. -/
def DataMessage.clear (m : DataMessage α) : DataMessage α :=
  {m with ucurr := none,vcurr := none,uvlats := none,uvlons := none,sst := none,salinity := none}

/-- `calloc` and `memcpy` of a source buffer, when there is one. -/
def copyBuffer (n : ℕ) (source : Option (List α)) : Option (List α) := source.map (List.take n)

/-- `operator=`: the value buffers are released first, and each array is
written only when the source has it. -/
def DataMessage.assign (m other : DataMessage α) : DataMessage α :=
  let points := other.latLength*other.lonLength
  {other with
    latValues := copyBuffer other.latLength other.latValues <|> m.latValues
    lonValues := copyBuffer other.lonLength other.lonValues <|> m.lonValues
    timeValues := copyBuffer other.timeLength other.timeValues <|> m.timeValues
    ucurr := copyBuffer points other.ucurr
    vcurr := copyBuffer points other.vcurr
    uvlats := copyBuffer points other.uvlats
    uvlons := copyBuffer points other.uvlons
    sst := copyBuffer points other.sst
    salinity := copyBuffer points other.salinity}

/-- The step, file and size fields that `clear` and reading leave alone. -/
structure SameStep (m m' : DataMessage α) : Prop where
  /-- Both name the same file. -/
  fileName : m'.fileName=m.fileName
  /-- Both are the same time step. -/
  timeIndex : m'.timeIndex=m.timeIndex

/-- A message that stays that of one step through two calls stays it through both. -/
theorem SameStep.trans {m m' m'' : DataMessage α} (h : SameStep m m') (h' : SameStep m' m'') :
    SameStep m m'' :=
  ⟨h'.fileName.trans h.fileName,h'.timeIndex.trans h.timeIndex⟩

/-- A message that is assigned becomes that of the step it is assigned from. -/
theorem sameStep_assign (m other : DataMessage α) : SameStep other (m.assign other) := ⟨rfl,rfl⟩

end Message

section Loader

variable {α : Type} [Field α] [LinearOrder α] [FloorRing α]

/-- Whole read of a coordinate variable into a zeroed buffer: as double,
and when that fails as float over whatever the failing read left. Only a
failing allocation ends the loader; two failing reads do not. -/
def readCoordinate (env : Env α) (file : NcFile α) (floatSite : CallocSite) (varid : ℤ)
    (length : ℕ) : Except NcError (List α) :=
  let asDouble := storeInto (zeros length) (file.getVarDouble varid)
  if (file.getVarDouble varid).retval=0 then .ok asDouble
  else if env.calloc floatSite=false then .error outOfMemory
  else if (file.getVarFloat varid).retval=0 then
    .ok (storeInto (zeros length) (file.getVarFloat varid))
  else .ok asDouble

/-- The coordinate arrays of a file. -/
structure Coordinates (α : Type) where
  /-- Latitudes. -/
  lats : List α
  /-- Longitudes. -/
  lons : List α
  /-- Raw time values. -/
  times : List α

/-- Length of the first dimension of a variable, by identifier. -/
def dimLength (file : NcFile α) (dimid : ℤ) : Except NcError ℕ :=
  match file.dimLen dimid.toNat with
  | some n => .ok n
  | none => .error unusableFile

/-- Exits of `nc_get` from the missing-variable tests to the last read. -/
def readCoordinates (env : Env α) (file : NcFile α) (ids : VarIds) :
    Except NcError (Coordinates α) := do
  if ids.lat= -1 ∨ ids.lon= -1 ∨ ids.time= -1 then .error unusableFile
  let timeid := findDimByVar file ids.time 0
  let latid := findDimByVar file ids.lat 0
  let lonid := findDimByVar file ids.lon 0
  if timeid= -1 ∨ latid= -1 ∨ lonid= -1 then .error unusableFile
  let timelength ← dimLength file timeid
  let latlength ← dimLength file latid
  let lonlength ← dimLength file lonid
  if env.calloc .lats=false ∨ env.calloc .lons=false ∨ env.calloc .timeOut=false then
    .error outOfMemory
  let lats ← readCoordinate env file .latFloat ids.lat latlength
  let lons ← readCoordinate env file .lonFloat ids.lon lonlength
  let times ← readCoordinate env file .timeFloat ids.time timelength
  return ⟨lats,lons,times⟩

/-- Number of steps that the bounds are apart, in single precision. -/
def stepCount (env : Env α) (length : ℕ) : α :=
  if 1<length then env.toFloat ((length-1 : ℕ) : α) else 1

/-- Difference of the single-precision bounds over the number of steps. The
difference and the quotient are `float` as well and are widened at the end. -/
def gridIncrement (env : Env α) (first last : α) (length : ℕ) : α :=
  env.toFloat (env.toFloat (last-first)/stepCount env length)

/-- First entry of a coordinate array, in single precision. -/
def firstBound (env : Env α) (values : List α) : α := env.toFloat (values.getD 0 0)

/-- Last entry of a coordinate array, in single precision. -/
def lastBound (env : Env α) (values : List α) : α :=
  env.toFloat (values.getD (values.length-1) 0)

/-- Message of the i-th time value. Every modelled field of the reused
message is overwritten, so its previous content does not matter. -/
def stepMessage (env : Env α) (filename : String) (ids : VarIds) (info : CFTimeInfo α)
    (coords : Coordinates α) (i : ℕ) : DataMessage α where
  fileName := filename
  timeIndex := i
  timeValid := info.valid
  dataDateTime := if info.valid=true then instantOf info (coords.times.getD i 0) else none
  minutesAfterStart :=
    if info.valid=true then minutesOf info (coords.times.getD i 0) else i*60
  numberOfPoints := coords.lats.length*coords.lons.length
  noPointsParallel := coords.lons.length
  noPointsMeridian := coords.lats.length
  firstGridPointLat := firstBound env coords.lats
  firstGridPointLong := firstBound env coords.lons
  lastGridPointLat := lastBound env coords.lats
  lastGridPointLong := lastBound env coords.lons
  iDirectionIncr :=
    gridIncrement env (firstBound env coords.lons) (lastBound env coords.lons) coords.lons.length
  jDirectionIncr :=
    gridIncrement env (firstBound env coords.lats) (lastBound env coords.lats) coords.lats.length
  latLength := coords.lats.length
  lonLength := coords.lons.length
  timeLength := coords.times.length
  latValues := some coords.lats
  lonValues := some coords.lons
  timeValues := some coords.times
  hasSeaTemp := decide (ids.sst≠ -1)
  hasSalinity := decide (ids.sal≠ -1)

/-- Exits of `nc_get` before the discovery, and the discovery itself. -/
def openAndDiscover (env : Env α) (filename : String) : Except NcError (NcFile α×VarIds) := do
  let file ← openFile env filename
  let (ndims,_) ← file.inq
  if ndims<3 ∨ 4<ndims then .error unusableFile
  return (file,discoverVars file)

/-- Part of `nc_get` after the discovery: one message per time value. -/
def loadSteps (env : Env α) (filename : String) (file : NcFile α) (ids : VarIds) :
    Except NcError (List (DataMessage α)) := do
  let coords ← readCoordinates env file ids
  let info := fileTimeInfo env file ids.time coords.times
  return (List.range coords.times.length).map (stepMessage env filename ids info coords)

/-- Messages of one file: each names the file and its own position. -/
def StepsOf (filename : String) (steps : List (DataMessage α)) : Prop :=
  ∀ (k : ℕ) (m : DataMessage α),steps[k]? = some m → m.fileName=filename ∧ m.timeIndex=k

omit [LinearOrder α] [FloorRing α] in
/-- No steps are the steps of any file. -/
theorem stepsOf_nil (filename : String) : StepsOf filename ([] : List (DataMessage α)) := by
  intro k m h
  simp at h

/-- A vector of steps that is loaded comes from one set of coordinate arrays, one message
for each time. -/
theorem loadSteps_ok {env : Env α} {filename : String} {file : NcFile α} {ids : VarIds}
    {steps : List (DataMessage α)} (h : loadSteps env filename file ids=.ok steps) :
    ∃ coords info,readCoordinates env file ids=.ok coords ∧
      steps=(List.range coords.times.length).map (stepMessage env filename ids info coords) := by
  unfold loadSteps at h
  cases hc : readCoordinates env file ids with
  | error e => rw [hc] at h; cases h
  | ok coords =>
    rw [hc] at h
    cases h
    exact ⟨coords,_,rfl,rfl⟩

/-- The message at position k of a loaded vector names the file and carries the index k. -/
theorem stepsOf_loadSteps {env : Env α} {filename : String} {file : NcFile α} {ids : VarIds}
    {steps : List (DataMessage α)} (h : loadSteps env filename file ids=.ok steps) :
    StepsOf filename steps := by
  obtain ⟨coords,info,-,rfl⟩ := loadSteps_ok h
  intro k m hm
  simp only [List.getElem?_map,Option.map_eq_some_iff] at hm
  obtain ⟨i,hi,rfl⟩ := hm
  have hik : i=k := by
    rw [List.getElem?_range (by simpa using (List.getElem?_eq_some_iff.mp hi).1)] at hi
    exact (Option.some.inj hi).symm
  rw [hik]
  exact ⟨rfl,rfl⟩

end Loader

end NcdfPlugin.NcdfMessage
