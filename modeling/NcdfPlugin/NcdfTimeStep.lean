import NcdfPlugin.NcdfMessage
import NcdfPlugin.FlatLayout

/-!
# Reading the values of one time step

The current components are read as one hyperslab whose axes are matched by
dimension identifier, with every return code tested. Sea temperature and
salinity are read by dimension name, into a zeroed buffer, without testing
the return code. Missing cells receive the marker.
-/

namespace NcdfPlugin.NcdfTimeStep

open NcdfLibrary NcdfDiscovery NcdfMessage FlatLayout

variable {α : Type}

/-- File-level fields of the dialog, set by the discovery of the loader. -/
structure FileCache where
  /-- `m_fileHasCurrent`. -/
  fileHasCurrent : Bool := false
  /-- `m_fileHasSeaTemp`. -/
  fileHasSeaTemp : Bool := false
  /-- `m_fileHasSalinity`. -/
  fileHasSalinity : Bool := false
  /-- `m_cached_u_varid`. -/
  cachedUVarid : ℤ := -1
  /-- `m_cached_v_varid`. -/
  cachedVVarid : ℤ := -1
  /-- `m_cached_sst_varid`. -/
  cachedSstVarid : ℤ := -1
  /-- `m_cached_sal_varid`. -/
  cachedSalVarid : ℤ := -1
  deriving DecidableEq

/-- Availability flags and cached identifiers stored after a discovery. -/
def FileCache.ofIds (ids : VarIds) : FileCache where
  fileHasCurrent := decide (ids.u≠ -1 ∧ ids.v≠ -1)
  fileHasSeaTemp := decide (ids.sst≠ -1)
  fileHasSalinity := decide (ids.sal≠ -1)
  cachedUVarid := ids.u
  cachedVVarid := ids.v
  cachedSstVarid := ids.sst
  cachedSalVarid := ids.sal

/-- Dimension identifiers under their recognised names. -/
structure AxisDims where
  /-- Dimension named time. -/
  time : Option ℕ
  /-- Dimension named latitude, or else lat. -/
  lat : Option ℕ
  /-- Dimension named longitude, or else lon. -/
  lon : Option ℕ
  /-- Dimension named depth, or else z. -/
  depth : Option ℕ

/-- Lookup of the four axes by name. -/
def axisDims (file : NcFile α) : AxisDims where
  time := file.inqDimid "time"
  lat := file.inqDimid "latitude" <|> file.inqDimid "lat"
  lon := file.inqDimid "longitude" <|> file.inqDimid "lon"
  depth := file.inqDimid "depth" <|> file.inqDimid "z"

/-- Positions of the axes in a variable, absent while not met. -/
structure AxisIndices where
  /-- `time_idx`. -/
  time : Option ℕ := none
  /-- `lat_idx`. -/
  lat : Option ℕ := none
  /-- `lon_idx`. -/
  lon : Option ℕ := none
  /-- `depth_idx`. -/
  depth : Option ℕ := none

/-- One comparison chain of the detection loop. -/
def matchAxis (dims : AxisDims) (found : AxisIndices) (i dimid : ℕ) : AxisIndices :=
  if some dimid=dims.time then {found with time := some i}
  else if some dimid=dims.lat then {found with lat := some i}
  else if some dimid=dims.lon then {found with lon := some i}
  else if some dimid=dims.depth then {found with depth := some i}
  else found

/-- Detection loop over the dimensions of a variable. -/
def detectAxes (dims : AxisDims) (dimids : List ℕ) : AxisIndices :=
  dimids.zipIdx.foldl (fun found entry => matchAxis dims found entry.2 entry.1) {}

/-- The four `start` entries of the current components. -/
def currentStart (axes : AxisIndices) (timeIdx latIdx lonIdx timeIndex : ℕ) : List ℕ :=
  let start := (([0,0,0,0].set timeIdx timeIndex).set latIdx 0).set lonIdx 0
  match axes.depth with
  | some depthIdx => start.set depthIdx 0
  | none => start

/-- The four `count` entries of the current components. -/
def currentCount (axes : AxisIndices) (timeIdx latIdx lonIdx latLength lonLength : ℕ) : List ℕ :=
  let count := (([1,1,1,1].set timeIdx 1).set latIdx latLength).set lonIdx lonLength
  match axes.depth with
  | some depthIdx => count.set depthIdx 1
  | none => count

/-- Values of one cell of the four current buffers. -/
structure CurrentCell (α : Type) where
  /-- Entry of `uvlats`. -/
  lat : α
  /-- Entry of `uvlons`. -/
  lon : α
  /-- Entry of `ucurr`. -/
  u : α
  /-- Entry of `vcurr`. -/
  v : α
  deriving DecidableEq

variable [Field α]

/-- Fill value of a current component: float, else double, else -32767. -/
def currentFill (env : Env α) (file : NcFile α) (varid : ℤ) : α :=
  match file.attFloat varid "_FillValue" with
  | some fill => fill
  | none => ((file.attDouble varid "_FillValue").map env.toFloat).getD (-32767)

/-- Start and count of the request for the current components, and the loop
nest that fills the buffers. -/
structure CurrentRequest where
  /-- `start`. -/
  start : List ℕ
  /-- `count`. -/
  count : List ℕ
  /-- `lat_before_lon`. -/
  latBeforeLon : Bool
  deriving DecidableEq

/-- Dimension detection of `readTimeStepData`, on the dimensions of the
eastward component. It fails when an axis is missing. -/
def currentRequest (env : Env α) (file : NcFile α) (uVarid : ℤ) (msg : DataMessage α) :
    Option CurrentRequest := do
  let dimids ← file.varDims uVarid
  guard (env.calloc .dimids=true)
  let axes := detectAxes (axisDims file) dimids
  let timeIdx ← axes.time
  let latIdx ← axes.lat
  let lonIdx ← axes.lon
  return {
    start := currentStart axes timeIdx latIdx lonIdx msg.timeIndex.toNat
    count := currentCount axes timeIdx latIdx lonIdx msg.latLength msg.lonLength
    latBeforeLon := decide (latIdx<lonIdx) }

/-- Read of one current component, by the call for its type. -/
def componentRead (file : NcFile α) (varid : ℤ) (request : CurrentRequest) : ReadOutcome α :=
  match file.varType varid with
  | .double => file.getVaraDouble varid request.start request.count
  | .other => file.getVaraFloat varid request.start request.count

/-- A value as the reader keeps it: doubles are narrowed. -/
def narrow (env : Env α) (file : NcFile α) (varid : ℤ) (x : α) : α :=
  match file.varType varid with
  | .double => env.toFloat x
  | .other => x

/-- Zero stays zero when it is narrowed. -/
theorem narrow_zero (env : Env α) (file : NcFile α) (varid : ℤ) : narrow env file varid 0=0 := by
  unfold narrow
  split
  · exact env.toFloat_zero
  · rfl

/-- Buffer of one current component after its read. -/
def componentBuffer (env : Env α) (file : NcFile α) (varid : ℤ) (request : CurrentRequest)
    (points : ℕ) : List α :=
  (storeInto (zeros points) (componentRead file varid request)).map (narrow env file varid)

/-- A component is lost when its read returns a nonzero code, or when the
buffer of doubles cannot be allocated. -/
def readComponent (env : Env α) (file : NcFile α) (doubleSite : CallocSite) (varid : ℤ)
    (request : CurrentRequest) (points : ℕ) : Option (List α) :=
  if file.varType varid=.double ∧ env.calloc doubleSite=false then none
  else if (componentRead file varid request).retval≠0 then none
  else some (componentBuffer env file varid request points)

variable [LinearOrder α]

/-- A cell is defined when neither component equals its fill value. -/
def currentCell (fillU fillV lat lon u v : α) : CurrentCell α :=
  if u≠fillU ∧ v≠fillV then ⟨lat,lon,u,v⟩ else ⟨notDef,notDef,notDef,notDef⟩

/-- Both components of a cell, missing when either equals its fill value. -/
def maskedCurrent (fillU fillV u v : α) : α×α :=
  if u≠fillU ∧ v≠fillV then (u,v) else (notDef,notDef)

/-- A cell of the current carries both components, or the marker in both. -/
theorem currentCell_pair (fillU fillV lat lon u v : α) :
    ((currentCell fillU fillV lat lon u v).u,(currentCell fillU fillV lat lon u v).v)=
      maskedCurrent fillU fillV u v := by
  unfold currentCell maskedCurrent
  split <;> rfl

/-- The two fill loops. The counter runs over the flat buffers in the order
of the loop nest that the axis order selects. -/
def fillCells (latBeforeLon : Bool) (msg : DataMessage α) (fillU fillV : α)
    (uVals vVals : List α) : List (CurrentCell α) :=
  let cell := fun count j k => currentCell fillU fillV ((msg.latValues.getD []).getD j 0)
    ((msg.lonValues.getD []).getD k 0) (uVals.getD count 0) (vVals.getD count 0)
  if latBeforeLon=true then
    rowMajor msg.latLength msg.lonLength fun j k => cell (j*msg.lonLength+k) j k
  else
    rowMajor msg.lonLength msg.latLength fun k j => cell (k*msg.latLength+j) j k

/-- In either loop nest the components of a flat position are the masked pair
of the two buffer entries at that position. -/
theorem fillCells_pairs (latBeforeLon : Bool) (msg : DataMessage α) (fillU fillV : α)
    (uVals vVals : List α) :
    (fillCells latBeforeLon msg fillU fillV uVals vVals).map (fun cell => (cell.u,cell.v))=
      (List.range (msg.latLength*msg.lonLength)).map fun c =>
        maskedCurrent fillU fillV (uVals.getD c 0) (vVals.getD c 0) := by
  unfold fillCells
  cases latBeforeLon with
  | true =>
    rw [if_pos rfl,rowMajor_map,rowMajor_eq_map_range]
    simp only [currentCell_pair,Nat.div_add_mod']
  | false =>
    rw [if_neg Bool.false_ne_true,rowMajor_map,rowMajor_eq_map_range,Nat.mul_comm msg.lonLength]
    simp only [currentCell_pair,Nat.div_add_mod']

/-- Current part of `readTimeStepData`, from the fill values to the filled
buffers. Each of its failing exits gives nothing. -/
def readCurrent (env : Env α) (file : NcFile α) (uVarid vVarid : ℤ) (msg : DataMessage α) :
    Option (List (CurrentCell α)) := do
  let request ← currentRequest env file uVarid msg
  let points := msg.latLength*msg.lonLength
  guard (env.calloc .uVals=true ∧ env.calloc .vVals=true)
  let uVals ← readComponent env file .uValsDouble uVarid request points
  let vVals ← readComponent env file .vValsDouble vVarid request points
  guard (env.calloc .ucurr=true ∧ env.calloc .vcurr=true ∧ env.calloc .uvlats=true ∧
    env.calloc .uvlons=true)
  return fillCells request.latBeforeLon msg (currentFill env file uVarid)
    (currentFill env file vVarid) uVals vVals

/-- Cached identifiers of the components, or the discovery's on a miss. -/
def currentVarids (cache : FileCache) (file : NcFile α) : ℤ×ℤ :=
  if cache.cachedUVarid<0 ∨ cache.cachedVVarid<0 then
    (findVarByCf file uHints,findVarByCf file vHints)
  else (cache.cachedUVarid,cache.cachedVVarid)

/-- Message with its four current buffers, when the file has both
components; unchanged when it does not; nothing on a failing exit. -/
def readCurrentStep (env : Env α) (cache : FileCache) (file : NcFile α) (msg : DataMessage α) :
    Option (DataMessage α) :=
  let (u,v) := currentVarids cache file
  if u≠ -1 ∧ v≠ -1 then
    (readCurrent env file u v msg).map fun cells =>
      {msg with
        ucurr := some (cells.map CurrentCell.u)
        vcurr := some (cells.map CurrentCell.v)
        uvlats := some (cells.map CurrentCell.lat)
        uvlons := some (cells.map CurrentCell.lon)}
  else some msg

/-- Start and count of one axis of a scalar variable, by its name. -/
def scalarAxis (file : NcFile α) (msg : DataMessage α) (dimid : ℕ) : ℕ×ℕ :=
  let dimname := file.dimName dimid
  if strstr dimname "time" ∨ strstr dimname "Time" then (msg.timeIndex.toNat,1)
  else if strstr dimname "lat" ∨ strstr dimname "Lat" then (0,msg.latLength)
  else if strstr dimname "lon" ∨ strstr dimname "Lon" then (0,msg.lonLength)
  else (0,1)

/-- The read of a scalar variable; its return code is never looked at. -/
def scalarRead (file : NcFile α) (varid : ℤ) (msg : DataMessage α) : ReadOutcome α :=
  let slab := ((file.varDims varid).getD []).map (scalarAxis file msg)
  file.getVaraFloat varid (slab.map Prod.fst) (slab.map Prod.snd)

/-- Buffer of a scalar variable: zeros, overwritten by what was delivered. -/
def scalarBuffer (file : NcFile α) (varid : ℤ) (msg : DataMessage α) : List α :=
  storeInto (zeros (msg.latLength*msg.lonLength)) (scalarRead file varid msg)

/-- Fill value of a scalar variable, -32767 without the attribute. -/
def scalarFill (file : NcFile α) (varid : ℤ) : α :=
  (file.attFloat varid "_FillValue").getD (-32767)

/-- Whether the units text of the temperature names kelvin. -/
def isKelvin (file : NcFile α) (varid : ℤ) : Bool :=
  match file.attText varid "units" with
  | some units => strstr units "K" || strstr units "kelvin"
  | none => false

/-- Conversion of a valid temperature to degrees Celsius. -/
def sstConvert (kelvin : Bool) (val : α) : α := if kelvin=true then val-27315/100 else val

/-- Validity test and conversion of a temperature cell. -/
def sstCell (kelvin : Bool) (fill val : α) : α :=
  let minValid : α := if kelvin=true then 100 else -10
  let maxValid : α := if kelvin=true then 370 else 50
  if val≠fill ∧ minValid<val ∧ val < maxValid then sstConvert kelvin val else notDef

/-- Validity test of a salinity cell. -/
def salCell (fill val : α) : α := if val≠fill ∧ 0<val ∧ val<100 then val else notDef

/-- Cached identifier of a scalar variable, or the discovery's on a miss. -/
def scalarVarid (cached : ℤ) (file : NcFile α) (hints : CfHints) : ℤ :=
  if cached<0 then findVarByCf file hints else cached

/-- The variable sea temperature is read from. -/
def sstVarid (cache : FileCache) (file : NcFile α) : ℤ :=
  scalarVarid cache.cachedSstVarid file sstHints

/-- The variable salinity is read from. -/
def salVarid (cache : FileCache) (file : NcFile α) : ℤ :=
  scalarVarid cache.cachedSalVarid file salHints

/-- Sea temperature buffer of a time step. -/
def sstBuffer (file : NcFile α) (varid : ℤ) (msg : DataMessage α) : List α :=
  (scalarBuffer file varid msg).map (sstCell (isKelvin file varid) (scalarFill file varid))

/-- Salinity buffer of a time step. -/
def salBuffer (file : NcFile α) (varid : ℤ) (msg : DataMessage α) : List α :=
  (scalarBuffer file varid msg).map (salCell (scalarFill file varid))

/-- Whether sea temperature is read at all. -/
def ReadsSeaTemp (env : Env α) (cache : FileCache) (file : NcFile α) : Prop :=
  cache.fileHasSeaTemp=true ∧ sstVarid cache file≠ -1 ∧ env.calloc .sstVals=true

/-- Whether salinity is read at all. -/
def ReadsSalinity (env : Env α) (cache : FileCache) (file : NcFile α) : Prop :=
  cache.fileHasSalinity=true ∧ salVarid cache file≠ -1 ∧ env.calloc .salVals=true

instance (env : Env α) (cache : FileCache) (file : NcFile α) :
    Decidable (ReadsSeaTemp env cache file) := inferInstanceAs (Decidable (_ ∧ _ ∧ _))

instance (env : Env α) (cache : FileCache) (file : NcFile α) :
    Decidable (ReadsSalinity env cache file) := inferInstanceAs (Decidable (_ ∧ _ ∧ _))

/-- Sea temperature part of `readTimeStepData`. -/
def readSeaTemp (env : Env α) (cache : FileCache) (file : NcFile α) (msg : DataMessage α) :
    DataMessage α :=
  if ReadsSeaTemp env cache file then
    {msg with sst := some (sstBuffer file (sstVarid cache file) msg),hasSeaTemp := true}
  else msg

/-- Salinity part of `readTimeStepData`. -/
def readSalinity (env : Env α) (cache : FileCache) (file : NcFile α) (msg : DataMessage α) :
    DataMessage α :=
  if ReadsSalinity env cache file then
    {msg with salinity := some (salBuffer file (salVarid cache file) msg),hasSalinity := true}
  else msg

/-- Message without value buffers and availability flags. -/
def emptied (msg : DataMessage α) : DataMessage α :=
  {msg.clear with hasSeaTemp := false,hasSalinity := false}

/-- `readTimeStepData`: success flag and the message it leaves behind. -/
def readTimeStepData (env : Env α) (cache : FileCache) (msg : DataMessage α) :
    Bool×DataMessage α :=
  if msg.latValues.isNone=true ∨ msg.lonValues.isNone=true then (false,msg)
  else
    match openFile env msg.fileName with
    | .error _ => (false,emptied msg)
    | .ok file =>
      match readCurrentStep env cache file (emptied msg) with
      | none => (false,emptied msg)
      | some read => (true,readSalinity env cache file (readSeaTemp env cache file read))

/-- The parts that read the scalar variables leave the buffers of the current alone. -/
theorem readScalars_current (env : Env α) (cache : FileCache) (file : NcFile α)
    (msg : DataMessage α) :
    (readSalinity env cache file (readSeaTemp env cache file msg)).ucurr=msg.ucurr ∧
      (readSalinity env cache file (readSeaTemp env cache file msg)).vcurr=msg.vcurr := by
  unfold readSalinity readSeaTemp
  split <;> split <;> exact ⟨rfl,rfl⟩

/-- Cells filled from the buffers of both components of one request. -/
def currentCells (env : Env α) (file : NcFile α) (uVarid vVarid : ℤ) (request : CurrentRequest)
    (msg : DataMessage α) : List (CurrentCell α) :=
  let points := msg.latLength*msg.lonLength
  fillCells request.latBeforeLon msg (currentFill env file uVarid) (currentFill env file vVarid)
    (componentBuffer env file uVarid request points)
    (componentBuffer env file vVarid request points)

/-- A current part that does not fail fills its cells from one request. -/
theorem readCurrent_some {env : Env α} {file : NcFile α} {uVarid vVarid : ℤ}
    {msg : DataMessage α} {cells : List (CurrentCell α)}
    (h : readCurrent env file uVarid vVarid msg=some cells) :
    ∃ request,currentRequest env file uVarid msg=some request ∧
      cells=currentCells env file uVarid vVarid request msg := by
  have hbuffer : ∀ {site varid request points buffer},
      readComponent env file site varid request points=some buffer →
        buffer=componentBuffer env file varid request points := by
    intro site varid request points buffer hread
    unfold readComponent at hread
    split at hread
    · cases hread
    · split at hread
      · cases hread
      · exact (Option.some.inj hread).symm
  unfold readCurrent at h
  simp only [Option.bind_eq_bind,Option.bind_eq_some_iff,Option.pure_def,Option.some.injEq] at h
  obtain ⟨request,hrequest,-,-,uVals,hu,vVals,hv,-,-,rfl⟩ := h
  refine ⟨request,hrequest,?_⟩
  rw [hbuffer hu,hbuffer hv]
  rfl

/-- The current step keeps the message, or fills its buffers from one request
when both components were found. -/
theorem readCurrentStep_some {env : Env α} {cache : FileCache} {file : NcFile α}
    {msg read : DataMessage α} (h : readCurrentStep env cache file msg=some read) :
    (¬((currentVarids cache file).1≠ -1 ∧ (currentVarids cache file).2≠ -1) ∧ read=msg) ∨
    ((currentVarids cache file).1≠ -1 ∧ (currentVarids cache file).2≠ -1) ∧
      ∃ request cells,currentRequest env file (currentVarids cache file).1 msg=some request ∧
        cells=currentCells env file (currentVarids cache file).1 (currentVarids cache file).2
          request msg ∧
        read={msg with
          ucurr := some (cells.map CurrentCell.u)
          vcurr := some (cells.map CurrentCell.v)
          uvlats := some (cells.map CurrentCell.lat)
          uvlons := some (cells.map CurrentCell.lon)} := by
  unfold readCurrentStep at h
  dsimp only at h
  split at h
  · rename_i hfound
    obtain ⟨cells,hcells,rfl⟩ := Option.map_eq_some_iff.mp h
    obtain ⟨request,hrequest,hfilled⟩ := readCurrent_some hcells
    exact Or.inr ⟨hfound,request,cells,hrequest,hfilled,rfl⟩
  · rename_i hmissing
    exact Or.inl ⟨hmissing,(Option.some.inj h).symm⟩

/-- A read succeeds exactly when the coordinates are loaded, the file opens
and its current part does not fail; sea temperature and salinity cannot. -/
theorem readTimeStepData_ok_iff {env : Env α} {cache : FileCache} {msg : DataMessage α}
    (result : DataMessage α) :
    readTimeStepData env cache msg=(true,result) ↔
      (msg.latValues.isSome=true ∧ msg.lonValues.isSome=true) ∧
      ∃ file read,openFile env msg.fileName=.ok file ∧
        readCurrentStep env cache file (emptied msg)=some read ∧
        result=readSalinity env cache file (readSeaTemp env cache file read) := by
  unfold readTimeStepData
  by_cases hloaded : msg.latValues.isNone=true ∨ msg.lonValues.isNone=true
  · rw [if_pos hloaded]
    have hmissing : ¬(msg.latValues.isSome=true ∧ msg.lonValues.isSome=true) := by
      rcases hloaded with h | h <;> simp [Option.isNone_iff_eq_none.mp h]
    simp [hmissing]
  · rw [if_neg hloaded]
    obtain ⟨hlat,hlon⟩ := not_or.mp hloaded
    have hpresent : msg.latValues.isSome=true ∧ msg.lonValues.isSome=true :=
      ⟨by simpa [Option.isSome_iff_ne_none] using hlat,
        by simpa [Option.isSome_iff_ne_none] using hlon⟩
    cases hopen : openFile env msg.fileName with
    | error e => simp
    | ok file =>
      dsimp only
      cases hread : readCurrentStep env cache file (emptied msg) with
      | none => simp [hread]
      | some read => simp [hread,hpresent,eq_comm]

omit [LinearOrder α] in
@[simp] theorem emptied_emptied (msg : DataMessage α) : emptied (emptied msg)=emptied msg := rfl

/-- Reading the current changes nothing of a message but its buffers. -/
theorem readCurrentStep_emptied {env : Env α} {cache : FileCache} {file : NcFile α}
    {msg read : DataMessage α} (h : readCurrentStep env cache file msg=some read) :
    emptied read=emptied msg := by
  unfold readCurrentStep at h
  dsimp only at h
  split at h
  · obtain ⟨cells,-,rfl⟩ := Option.map_eq_some_iff.mp h
    rfl
  · cases h
    rfl

/-- Reading the sea temperature changes nothing of a message but its buffers. -/
theorem readSeaTemp_emptied (env : Env α) (cache : FileCache) (file : NcFile α)
    (msg : DataMessage α) : emptied (readSeaTemp env cache file msg)=emptied msg := by
  unfold readSeaTemp
  split <;> rfl

/-- Reading the salinity changes nothing of a message but its buffers. -/
theorem readSalinity_emptied (env : Env α) (cache : FileCache) (file : NcFile α)
    (msg : DataMessage α) : emptied (readSalinity env cache file msg)=emptied msg := by
  unfold readSalinity
  split <;> rfl

/-- Reading changes value buffers and availability flags only. -/
theorem readTimeStepData_emptied (env : Env α) (cache : FileCache) (msg : DataMessage α) :
    emptied (readTimeStepData env cache msg).2=emptied msg := by
  unfold readTimeStepData
  split
  · rfl
  · split
    · rfl
    · split
      · rfl
      · rename_i read hread
        rw [readSalinity_emptied,readSeaTemp_emptied,readCurrentStep_emptied hread,
          emptied_emptied]

/-- In particular the message stays the same step of the same file. -/
theorem sameStep_readTimeStepData (env : Env α) (cache : FileCache) (msg : DataMessage α) :
    SameStep msg (readTimeStepData env cache msg).2 := by
  have h := readTimeStepData_emptied env cache msg
  have hfile := congrArg DataMessage.fileName h
  have hindex := congrArg DataMessage.timeIndex h
  exact ⟨hfile,hindex⟩

end NcdfPlugin.NcdfTimeStep
