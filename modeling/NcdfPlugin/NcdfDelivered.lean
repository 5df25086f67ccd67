import NcdfPlugin.NcdfDialog

/-!
# Cells without delivered data

All four quantities are read into zeroed buffers. A current read that fails
ends the whole read, but one that delivers too little does not, and the code
of a scalar read is never looked at. A cell nothing was delivered for then
holds zero. It is shown as data unless zero is rejected on the way: as a fill
value, as a temperature in kelvin, or always in the case of salinity.
-/

namespace NcdfPlugin.NcdfDelivered

open NcdfLibrary NcdfDiscovery NcdfMessage NcdfTimeStep NcdfDialog FlatLayout

section Cells

variable {α : Type} [Field α]

/-- Every cell that is not the marker is the conversion of the value that the
read delivered for that cell. -/
def FromRead (convert : α → α) (read : ReadOutcome α) (values : List α) : Prop :=
  ∀ (c : ℕ) (x : α),values[c]? = some x → x≠notDef → ∃ y,read.delivered[c]? = some y ∧ x=convert y

/-- A buffer cell holds the delivered value, or zero without one. -/
theorem buffer_getElem? {points c : ℕ} (read : ReadOutcome α) (hc : c<points) :
    (storeInto (zeros points) read)[c]? = some (read.delivered[c]?.getD 0) := by
  by_cases hd : c < read.delivered.length
  · rw [storeInto_delivered (by simpa using hc) hd,List.getElem?_eq_getElem hd]
    rfl
  · rw [storeInto_undelivered (by omega),zeros_getElem? hc,List.getElem?_eq_none (by omega)]
    rfl

/-- A cell of a component buffer holds the delivered value in single precision, or zero
where nothing was delivered. -/
theorem componentBuffer_getD {env : Env α} {file : NcFile α} {varid : ℤ}
    {request : CurrentRequest} {points c : ℕ} (hc : c<points) :
    (componentBuffer env file varid request points).getD c 0=
      narrow env file varid ((componentRead file varid request).delivered[c]?.getD 0) := by
  rw [componentBuffer,List.getD_eq_getElem?_getD,List.getElem?_map,buffer_getElem? _ hc]
  rfl

/-- No value was delivered for a cell. -/
def Undelivered (read : ReadOutcome α) (c : ℕ) : Prop := read.delivered.length ≤ c

omit [Field α] in
/-- A cell that is not undelivered has a delivered value. -/
theorem delivered_of_not_undelivered {read : ReadOutcome α} {c : ℕ} (h : ¬Undelivered read c) :
    ∃ y,read.delivered[c]? = some y :=
  ⟨_,List.getElem?_eq_getElem (not_le.mp h)⟩

omit [Field α] in
/-- A cell is undelivered exactly when the read ended before it. -/
theorem undelivered_iff {read : ReadOutcome α} {c : ℕ} :
    Undelivered read c ↔ read.delivered[c]? = none :=
  List.getElem?_eq_none_iff.symm

variable [LinearOrder α] [IsStrictOrderedRing α]

/-- A buffer that was never written holds zeros, and these are taken for values. -/
theorem zero_ne_notDef : (0 : α)≠notDef := by norm_num [notDef]

omit [IsStrictOrderedRing α] in
/-- A conversion of the buffer cell by cell takes its values from the read
exactly when a zero without delivery becomes the marker. -/
theorem fromRead_map_iff {convert validate : α → α} {read : ReadOutcome α} {points : ℕ}
    (hvalid : ∀ y,validate y≠notDef → validate y=convert y) :
    FromRead convert read ((storeInto (zeros points) read).map validate) ↔
      points ≤ read.delivered.length ∨ validate 0=notDef := by
  constructor
  · intro h
    by_contra hbad
    obtain ⟨hshort,hzero⟩ := not_or.mp hbad
    have hc : read.delivered.length<points := not_le.mp hshort
    have hnone : read.delivered[read.delivered.length]? = none := by simp
    obtain ⟨y,hy,-⟩ := h read.delivered.length (validate 0) (by
      rw [List.getElem?_map,buffer_getElem? read hc,hnone]
      rfl) hzero
    rw [hnone] at hy
    cases hy
  · intro h c x hx hne
    obtain ⟨hc,-⟩ := List.getElem?_eq_some_iff.mp hx
    rw [List.length_map,storeInto_length,zeros_length] at hc
    rw [List.getElem?_map,buffer_getElem? read hc,Option.map_some] at hx
    obtain rfl := Option.some.inj hx
    cases hy : read.delivered[c]? with
    | some y =>
      rw [hy] at hne
      exact ⟨y,rfl,hvalid y hne⟩
    | none =>
      rw [hy] at hne
      rcases h with hfull | hzero
      · exact absurd (List.getElem?_eq_none_iff.mp hy) (by omega)
      · exact absurd hzero hne

/-- Temperatures: a zero without delivery passes as zero degrees unless the
file is in kelvin or zero is the fill value. -/
theorem fromRead_sst_iff (kelvin : Bool) (fill : α) (read : ReadOutcome α) (points : ℕ) :
    FromRead (sstConvert kelvin) read ((storeInto (zeros points) read).map (sstCell kelvin fill)) ↔
      points ≤ read.delivered.length ∨ kelvin=true ∨ fill=0 := by
  have hvalid : ∀ y,sstCell kelvin fill y≠notDef → sstCell kelvin fill y=sstConvert kelvin y := by
    intro y hy
    by_cases hcell : y≠fill ∧ (if kelvin=true then 100 else -10)<y ∧
        y<(if kelvin=true then 370 else 50)
    · exact if_pos hcell
    · exact absurd (if_neg hcell) hy
  have hzero : sstCell kelvin fill 0=notDef ↔ kelvin=true ∨ fill=0 := by
    unfold sstCell
    cases kelvin with
    | true =>
      have hrange : ¬((100 : α)<0) := by norm_num
      simp [hrange]
    | false =>
      have hlow : (-10 : α)<0 := by norm_num
      have hhigh : (0 : α)<50 := by norm_num
      by_cases hfill : fill=0
      · simp [hfill]
      · have hne : (0 : α)≠fill := fun h => hfill h.symm
        simp [sstConvert,hfill,hne,hlow,hhigh]
  rw [fromRead_map_iff hvalid,hzero]

/-- Salinities: a zero without delivery is never valid. -/
theorem fromRead_salinity (fill : α) (read : ReadOutcome α) (points : ℕ) :
    FromRead id read ((storeInto (zeros points) read).map (salCell fill)) := by
  rw [fromRead_map_iff]
  · refine Or.inr ?_
    simp [salCell]
  · intro y hy
    by_cases hcell : y≠fill ∧ 0<y ∧ y<100
    · exact if_pos hcell
    · exact absurd (if_neg hcell) hy

variable {env : Env α} {file : NcFile α} {u v : ℤ} {request : CurrentRequest}
  {msg : DataMessage α}

/-- A cell is masked by the fill value of either component. -/
def Masked (env : Env α) (file : NcFile α) (u v : ℤ) (request : CurrentRequest) (points c : ℕ) :
    Prop :=
  (componentBuffer env file u request points).getD c 0=currentFill env file u ∨
    (componentBuffer env file v request points).getD c 0=currentFill env file v

omit [IsStrictOrderedRing α] in
/-- The components of a flat position are the masked pair of the two buffer
entries at that position. -/
theorem currentCells_pair {c : ℕ} (hc : c < msg.latLength*msg.lonLength) :
    ((currentCells env file u v request msg).map fun cell => (cell.u,cell.v))[c]? =
      some (maskedCurrent (currentFill env file u) (currentFill env file v)
        ((componentBuffer env file u request (msg.latLength*msg.lonLength)).getD c 0)
        ((componentBuffer env file v request (msg.latLength*msg.lonLength)).getD c 0)) := by
  rw [currentCells,fillCells_pairs,List.getElem?_map,List.getElem?_range hc,Option.map_some]

omit [IsStrictOrderedRing α] in
/-- There is a pair of components for each latitude and longitude. -/
theorem currentCells_length :
    (currentCells env file u v request msg).length=msg.latLength*msg.lonLength := by
  have h := congrArg List.length
    (fillCells_pairs request.latBeforeLon msg (currentFill env file u) (currentFill env file v)
      (componentBuffer env file u request (msg.latLength*msg.lonLength))
      (componentBuffer env file v request (msg.latLength*msg.lonLength)))
  rwa [List.length_map,List.length_map,List.length_range] at h

omit [IsStrictOrderedRing α] in
/-- A masked cell is the marker in both buffers, any other cell holds what
its two reads delivered, or zero. -/
theorem currentCells_getElem? {c : ℕ} (hc : c < msg.latLength*msg.lonLength) :
    (Masked env file u v request (msg.latLength*msg.lonLength) c ∧
      ((currentCells env file u v request msg).map CurrentCell.u)[c]? = some notDef ∧
      ((currentCells env file u v request msg).map CurrentCell.v)[c]? = some notDef) ∨
    (¬Masked env file u v request (msg.latLength*msg.lonLength) c ∧
      ((currentCells env file u v request msg).map CurrentCell.u)[c]? =
        some (narrow env file u ((componentRead file u request).delivered[c]?.getD 0)) ∧
      ((currentCells env file u v request msg).map CurrentCell.v)[c]? =
        some (narrow env file v ((componentRead file v request).delivered[c]?.getD 0))) := by
  have hu : ((currentCells env file u v request msg).map CurrentCell.u)[c]? =
      (((currentCells env file u v request msg).map fun cell => (cell.u,cell.v))[c]?).map
        Prod.fst := by simp [List.getElem?_map,Function.comp_def]
  have hv : ((currentCells env file u v request msg).map CurrentCell.v)[c]? =
      (((currentCells env file u v request msg).map fun cell => (cell.u,cell.v))[c]?).map
        Prod.snd := by simp [List.getElem?_map,Function.comp_def]
  rw [currentCells_pair hc] at hu hv
  by_cases hmask : Masked env file u v request (msg.latLength*msg.lonLength) c
  · refine Or.inl ⟨hmask,?_⟩
    have hnot : ¬((componentBuffer env file u request (msg.latLength*msg.lonLength)).getD c 0≠
        currentFill env file u ∧
        (componentBuffer env file v request (msg.latLength*msg.lonLength)).getD c 0≠
        currentFill env file v) := by
      rintro ⟨hneu,hnev⟩
      exact hmask.elim hneu hnev
    rw [hu,hv,maskedCurrent,if_neg hnot]
    exact ⟨rfl,rfl⟩
  · obtain ⟨hneu,hnev⟩ := not_or.mp hmask
    refine Or.inr ⟨hmask,?_⟩
    rw [hu,hv,maskedCurrent,if_pos ⟨hneu,hnev⟩,componentBuffer_getD hc,componentBuffer_getD hc]
    exact ⟨rfl,rfl⟩

omit [LinearOrder α] [IsStrictOrderedRing α] in
/-- Cells that are masked or hold their delivered value come from the read
when every cell without delivery is masked. -/
theorem fromRead_of_masked {convert : α → α} {read : ReadOutcome α} {values : List α}
    {points : ℕ} {masked : ℕ → Prop} (hlength : values.length=points)
    (hcell : ∀ c<points,masked c ∧ values[c]? = some notDef ∨
      ¬masked c ∧ values[c]? = some (convert (read.delivered[c]?.getD 0)))
    (hmask : ∀ c<points,Undelivered read c → masked c) : FromRead convert read values := by
  intro c x hx hne
  obtain ⟨hlt,-⟩ := List.getElem?_eq_some_iff.mp hx
  have hc : c<points := by omega
  rcases hcell c hc with ⟨-,hmark⟩ | ⟨hnot,hvalue⟩
  · rw [hmark] at hx
    exact absurd (Option.some.inj hx).symm hne
  · obtain ⟨y,hy⟩ := delivered_of_not_undelivered fun hd => hnot (hmask c hc hd)
    rw [hvalue,hy] at hx
    exact ⟨y,hy,(Option.some.inj hx).symm⟩

/-- A cell that holds a zero nobody delivered is fabricated, since its value comes from no
read. -/
theorem not_fromRead_of_zero {convert : α → α} {read : ReadOutcome α} {values : List α} {c : ℕ}
    (hd : Undelivered read c) (hzero : values[c]? = some 0) : ¬FromRead convert read values := by
  intro h
  obtain ⟨y,hy,-⟩ := h c 0 hzero zero_ne_notDef
  rw [undelivered_iff.mp hd] at hy
  cases hy

/-- The current buffers take their cells from their reads exactly when every
cell that one of them did not deliver is masked. -/
theorem fromRead_current_iff :
    (FromRead (narrow env file u) (componentRead file u request)
        ((currentCells env file u v request msg).map CurrentCell.u) ∧
      FromRead (narrow env file v) (componentRead file v request)
        ((currentCells env file u v request msg).map CurrentCell.v)) ↔
      ∀ c < msg.latLength*msg.lonLength,
        Undelivered (componentRead file u request) c ∨
          Undelivered (componentRead file v request) c →
        Masked env file u v request (msg.latLength*msg.lonLength) c := by
  constructor
  · rintro ⟨hu,hv⟩ c hc hd
    rcases currentCells_getElem? hc with ⟨hmask,-⟩ | ⟨-,hcu,hcv⟩
    · exact hmask
    · rcases hd with hd | hd
      · rw [undelivered_iff.mp hd,Option.getD_none,narrow_zero] at hcu
        exact absurd hu (not_fromRead_of_zero hd hcu)
      · rw [undelivered_iff.mp hd,Option.getD_none,narrow_zero] at hcv
        exact absurd hv (not_fromRead_of_zero hd hcv)
  · intro h
    refine ⟨fromRead_of_masked (by rw [List.length_map,currentCells_length]) (fun c hc => ?_)
        fun c hc hd => h c hc (Or.inl hd),
      fromRead_of_masked (by rw [List.length_map,currentCells_length]) (fun c hc => ?_)
        fun c hc hd => h c hc (Or.inr hd)⟩
    · exact (currentCells_getElem? hc).imp (fun hm => ⟨hm.1,hm.2.1⟩) fun hm => ⟨hm.1,hm.2.1⟩
    · exact (currentCells_getElem? hc).imp (fun hm => ⟨hm.1,hm.2.2⟩) fun hm => ⟨hm.1,hm.2.2⟩

end Cells

section Steps

variable {α : Type} [Field α] [LinearOrder α]

/-- Both current buffers take their cells from their own reads. -/
def CurrentFromReads (env : Env α) (cache : FileCache) (file : NcFile α)
    (msg result : DataMessage α) : Prop :=
  ∀ values values' request,result.ucurr=some values → result.vcurr=some values' →
    currentRequest env file (currentVarids cache file).1 msg=some request →
    FromRead (narrow env file (currentVarids cache file).1)
        (componentRead file (currentVarids cache file).1 request) values ∧
      FromRead (narrow env file (currentVarids cache file).2)
        (componentRead file (currentVarids cache file).2 request) values'

/-- Every cell that is not the marker comes from a value its read delivered. -/
structure NothingFabricated (env : Env α) (cache : FileCache) (file : NcFile α)
    (msg result : DataMessage α) : Prop where
  /-- Cells of the current. -/
  current : CurrentFromReads env cache file msg result
  /-- Cells of the sea temperature. -/
  sst : ∀ values,result.sst=some values →
    FromRead (sstConvert (isKelvin file (sstVarid cache file)))
      (scalarRead file (sstVarid cache file) msg) values
  /-- Cells of the salinity. -/
  salinity : ∀ values,result.salinity=some values →
    FromRead id (scalarRead file (salVarid cache file) msg) values

/-- When both components are found, each cell for which one of their reads
delivers nothing is masked by a fill value. -/
def CurrentZerosMasked (env : Env α) (cache : FileCache) (file : NcFile α)
    (msg : DataMessage α) : Prop :=
  (currentVarids cache file).1≠ -1 ∧ (currentVarids cache file).2≠ -1 →
    ∀ request,currentRequest env file (currentVarids cache file).1 msg=some request →
      ∀ c < msg.latLength*msg.lonLength,
        Undelivered (componentRead file (currentVarids cache file).1 request) c ∨
          Undelivered (componentRead file (currentVarids cache file).2 request) c →
        Masked env file (currentVarids cache file).1 (currentVarids cache file).2 request
          (msg.latLength*msg.lonLength) c

/-- When sea temperature is read, it is delivered in full, in kelvin, or has
the fill value zero. -/
def SeaTempZerosRejected (env : Env α) (cache : FileCache) (file : NcFile α)
    (msg : DataMessage α) : Prop :=
  ReadsSeaTemp env cache file →
    msg.latLength*msg.lonLength≤(scalarRead file (sstVarid cache file) msg).delivered.length ∨
      isKelvin file (sstVarid cache file)=true ∨ scalarFill file (sstVarid cache file)=0

/-- The scalar buffers after a successful read are those of the message. -/
theorem scalar_buffers (env : Env α) (cache : FileCache) (file : NcFile α)
    {msg read : DataMessage α} (hread : emptied read=emptied msg)
    (hsst : read.sst=none) (hsal : read.salinity=none) :
    let result := readSalinity env cache file (readSeaTemp env cache file read)
    result.sst=(if ReadsSeaTemp env cache file then
        some (sstBuffer file (sstVarid cache file) msg) else none) ∧
      result.salinity=(if ReadsSalinity env cache file then
        some (salBuffer file (salVarid cache file) msg) else none) := by
  have hsame : ∀ varid,scalarBuffer file varid read=scalarBuffer file varid msg := by
    intro varid
    change scalarBuffer file varid (emptied read)=scalarBuffer file varid (emptied msg)
    rw [hread]
  have hsstBuffer : ∀ varid,sstBuffer file varid read=sstBuffer file varid msg := by
    intro varid
    rw [sstBuffer,sstBuffer,hsame]
  have hsalBuffer : ∀ varid,salBuffer file varid read=salBuffer file varid msg := by
    intro varid
    rw [salBuffer,salBuffer,hsame]
  intro result
  dsimp only [result]
  unfold readSalinity readSeaTemp
  rw [←hsstBuffer,←hsalBuffer]
  constructor
  · split <;> split <;> first | rfl | exact hsst
  · split <;> split <;> first | rfl | exact hsal

variable [IsStrictOrderedRing α] {env : Env α} {cache : FileCache} {file : NcFile α}
  {msg read result : DataMessage α}

/-- The current buffers come from their reads exactly when no undelivered
cell is left unmasked. -/
theorem currentFromReads_iff (h : readCurrentStep env cache file (emptied msg)=some read) :
    CurrentFromReads env cache file msg read ↔ CurrentZerosMasked env cache file msg := by
  rcases readCurrentStep_some h with ⟨hmissing,rfl⟩ | ⟨hfound,request,cells,hrequest,rfl,rfl⟩
  · refine ⟨fun _ hfound => absurd hfound hmissing,fun _ values values' request hu => ?_⟩
    cases hu
  · have hsame : currentRequest env file (currentVarids cache file).1 msg=some request := hrequest
    constructor
    · intro hread _ request' hrequest'
      obtain rfl := Option.some.inj (hsame.symm.trans hrequest')
      exact fromRead_current_iff.mp (hread _ _ request rfl rfl hsame)
    · intro hmasked values values' request' hu hv hrequest'
      obtain rfl := Option.some.inj (hsame.symm.trans hrequest')
      obtain rfl := Option.some.inj hu
      obtain rfl := Option.some.inj hv
      exact fromRead_current_iff.mpr (hmasked hfound request hsame)

omit [IsStrictOrderedRing α] in
/-- The scalar parts do not take part in the condition on the current. -/
theorem currentFromReads_scalars :
    CurrentFromReads env cache file msg
        (readSalinity env cache file (readSeaTemp env cache file read)) ↔
      CurrentFromReads env cache file msg read := by
  obtain ⟨hu,hv⟩ := readScalars_current env cache file read
  unfold CurrentFromReads
  rw [hu,hv]

/-- A successful read fabricates nothing exactly when the zeros of cells
without delivered data are masked in the current and rejected in the sea
temperature. -/
theorem nothingFabricated_iff (hopen : openFile env msg.fileName=.ok file)
    (h : readTimeStepData env cache msg=(true,result)) :
    NothingFabricated env cache file msg result ↔
      CurrentZerosMasked env cache file msg ∧ SeaTempZerosRejected env cache file msg := by
  obtain ⟨-,file',read,hopen',hread,rfl⟩ := (readTimeStepData_ok_iff result).mp h
  obtain rfl : file=file' := Except.ok.inj (hopen.symm.trans hopen')
  have hempty := (readCurrentStep_emptied hread).trans (emptied_emptied msg)
  have hnone : read.sst=none ∧ read.salinity=none := by
    rcases readCurrentStep_some hread with ⟨-,rfl⟩ | ⟨-,_,_,-,-,rfl⟩ <;> exact ⟨rfl,rfl⟩
  obtain ⟨hsst,hsal⟩ := scalar_buffers env cache file hempty hnone.1 hnone.2
  have hcurrent := currentFromReads_scalars.trans (currentFromReads_iff hread)
  constructor
  · intro hfabricated
    refine ⟨hcurrent.mp hfabricated.current,fun hreads => ?_⟩
    rw [if_pos hreads] at hsst
    exact (fromRead_sst_iff _ _ _ _).mp (hfabricated.sst _ hsst)
  · rintro ⟨hmasked,hrejected⟩
    refine ⟨hcurrent.mpr hmasked,fun values hvalues => ?_,fun values hvalues => ?_⟩
    · by_cases hreads : ReadsSeaTemp env cache file
      · rw [hsst,if_pos hreads] at hvalues
        obtain rfl := Option.some.inj hvalues
        exact (fromRead_sst_iff _ _ _ _).mpr (hrejected hreads)
      · rw [hsst,if_neg hreads] at hvalues
        cases hvalues
    · by_cases hreads : ReadsSalinity env cache file
      · rw [hsal,if_pos hreads] at hvalues
        obtain rfl := Option.some.inj hvalues
        exact fromRead_salinity _ _ _
      · rw [hsal,if_neg hreads] at hvalues
        cases hvalues

end Steps

section Sample

/-- A readable file with sea temperature in degrees, whose read fails. -/
def failingSeaTemp : NcFile ℚ :=
  {sampleSteps 1 with
    getVaraFloat := fun varid _ _ => if varid=5 then ⟨-1,[]⟩ else ⟨0,[1,1,1,1]⟩}

/-- A world with that file. -/
def failingSeaTempEnv : Env ℚ := sampleEnv fun _ => some failingSeaTemp

/-- The identifiers cached for it. -/
def failingSeaTempCache : FileCache := FileCache.ofIds (discoverVars failingSeaTemp)

/-- Its first time step. -/
def failingSeaTempStep : DataMessage ℚ := (fileSteps failingSeaTempEnv "d\\a.nc").getD 0 {}

/-- The step after the read. -/
def failingSeaTempResult : DataMessage ℚ :=
  (readTimeStepData failingSeaTempEnv failingSeaTempCache failingSeaTempStep).2

/-- A step whose sea temperature cannot be read counts as read all the same. -/
theorem failingSeaTemp_succeeds :
    readTimeStepData failingSeaTempEnv failingSeaTempCache failingSeaTempStep=
      (true,failingSeaTempResult) :=
  Prod.ext (by decide +kernel) rfl

/-- The equivalence for a file whose sea temperature cannot be read. -/
theorem nothingFabricated_iff_failing :
    NothingFabricated failingSeaTempEnv failingSeaTempCache failingSeaTemp failingSeaTempStep
        failingSeaTempResult ↔
      CurrentZerosMasked failingSeaTempEnv failingSeaTempCache failingSeaTemp
          failingSeaTempStep ∧
        SeaTempZerosRejected failingSeaTempEnv failingSeaTempCache failingSeaTemp
          failingSeaTempStep :=
  nothingFabricated_iff rfl failingSeaTemp_succeeds

/-- The read that fails counts as a success, and zero degrees are reported at every node. -/
theorem failingSeaTemp_fabricates :
    readTimeStepData failingSeaTempEnv failingSeaTempCache failingSeaTempStep=
        (true,failingSeaTempResult) ∧
      failingSeaTempResult.sst=some [0,0,0,0] ∧
      ¬NothingFabricated failingSeaTempEnv failingSeaTempCache failingSeaTemp failingSeaTempStep
        failingSeaTempResult := by
  have hsst : failingSeaTempResult.sst=some [0,0,0,0] := by decide +kernel
  refine ⟨failingSeaTemp_succeeds,hsst,fun h => ?_⟩
  have hread : (scalarRead failingSeaTemp (sstVarid failingSeaTempCache failingSeaTemp)
      failingSeaTempStep).delivered=[] := by decide +kernel
  obtain ⟨y,hy,-⟩ := h.sst [0,0,0,0] hsst 0 0 rfl zero_ne_notDef
  rw [hread] at hy
  cases hy

end Sample

end NcdfPlugin.NcdfDelivered
