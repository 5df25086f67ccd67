import NcdfPlugin.NcdfDimensionOrder
import NcdfPlugin.NcdfDelivered

/-!
# Sea temperature and salinity of a step

The scalar variables are requested axis by axis, in their own order, and their
axes are known by the names of the dimensions alone. What is delivered goes
into the grids row by row. So each cell shows the value of the file at its
indices when latitude comes before longitude, and that of a moved cell
otherwise, in degrees Celsius and with the values out of range missing.
-/

namespace NcdfPlugin.NcdfScalarFields

open NcdfLibrary NcdfMessage NcdfTimeStep NcdfReader NcdfDelivered NcdfDimensionOrder FlatLayout

section Layout

variable {α : Type} [Field α]

/-- The name of a dimension contains one of two texts. -/
def Named (file : NcFile α) (d : ℕ) (text text' : String) : Prop :=
  strstr (file.dimName d) text ∨ strstr (file.dimName d) text'

instance (file : NcFile α) (d : ℕ) (text text' : String) : Decidable (Named file d text text') :=
  inferInstanceAs (Decidable (_ ∨ _))

/-- A scalar variable is about to be read for a step: its dimensions are those
of a layout, the names of which tell the axes apart, the step lies within the
variable, and the library delivers its values. -/
structure ScalarStep (file : NcFile α) (varid : ℤ) (m : DataMessage α) (L : CurrentLayout) (t : ℕ)
    (value : List ℕ → α) : Prop where
  /-- Dimensions of the variable. -/
  dims : file.varDims varid=some L.dims
  /-- The name of time. -/
  time : Named file L.timeDim "time" "Time"
  /-- The name of latitude, which is not taken for time. -/
  lat : ¬Named file L.latDim "time" "Time" ∧ Named file L.latDim "lat" "Lat"
  /-- The name of longitude, which is not taken for another axis. -/
  lon : ¬Named file L.lonDim "time" "Time" ∧ ¬Named file L.lonDim "lat" "Lat" ∧
    Named file L.lonDim "lon" "Lon"
  /-- Names of further dimensions. -/
  others : ∀ d∈L.dims,d≠L.timeDim → d≠L.latDim → d≠L.lonDim →
    ¬Named file d "time" "Time" ∧ ¬Named file d "lat" "Lat" ∧ ¬Named file d "lon" "Lon"
  /-- The step lies within the variable. -/
  fits : RequestFits file L L.dims t
  /-- Delivered values. -/
  delivers : DeliversBoxes file L.dims value (file.getVaraFloat varid)
  /-- Latitudes of the message. -/
  latLength : m.latLength=L.latLen
  /-- Longitudes of the message. -/
  lonLength : m.lonLength=L.lonLen
  /-- Time step of the message. -/
  timeIndex : m.timeIndex=t

variable {file : NcFile α} {varid : ℤ} {m : DataMessage α} {L : CurrentLayout} {t : ℕ}
  {value : List ℕ → α}

/-- The names lead to the request of the layout on each dimension. -/
theorem scalarAxis_eq (h : ScalarStep file varid m L t value) {d : ℕ} (hd : d∈L.dims) :
    scalarAxis file m d=(L.startOf t d,L.countOf d) := by
  have htime : m.timeIndex.toNat=t := by rw [h.timeIndex,Int.toNat_natCast]
  have hchain : scalarAxis file m d=
      if Named file d "time" "Time" then (m.timeIndex.toNat,1)
      else if Named file d "lat" "Lat" then (0,m.latLength)
      else if Named file d "lon" "Lon" then (0,m.lonLength) else (0,1) := rfl
  rw [hchain,htime,h.latLength,h.lonLength]
  by_cases hdt : d=L.timeDim
  · subst hdt
    rw [if_pos h.time,L.countOf_other L.time_ne_lat L.time_ne_lon,CurrentLayout.startOf,if_pos rfl]
  · by_cases hdlat : d=L.latDim
    · subst hdlat
      rw [if_neg h.lat.1,if_pos h.lat.2,L.startOf_lat,L.countOf_lat]
    · by_cases hdlon : d=L.lonDim
      · subst hdlon
        rw [if_neg h.lon.1,if_neg h.lon.2.1,if_pos h.lon.2.2,L.startOf_lon,L.countOf_lon]
      · obtain ⟨hnotTime,hnotLat,hnotLon⟩ := h.others d hd hdt hdlat hdlon
        rw [if_neg hnotTime,if_neg hnotLat,if_neg hnotLon,L.countOf_other hdlat hdlon,
          CurrentLayout.startOf,if_neg hdt]

/-- The read delivers the box of the layout. -/
theorem scalarRead_eq (h : ScalarStep file varid m L t value) :
    scalarRead file varid m=
      ⟨0,(hyperslab (L.dims.map fun d => (L.startOf t d,L.countOf d))).map value⟩ := by
  have hslab : L.dims.map (scalarAxis file m)=L.dims.map fun d => (L.startOf t d,L.countOf d) :=
    List.map_congr_left fun d hd => scalarAxis_eq h hd
  have hzip : ((L.dims.map (scalarAxis file m)).map Prod.fst).zip
      ((L.dims.map (scalarAxis file m)).map Prod.snd)=
        L.dims.map fun d => (L.startOf t d,L.countOf d) := by
    rw [←hslab,←List.unzip_fst,←List.unzip_snd,List.zip_unzip]
  have hrequest := congrArg (List.take L.dims.length) hzip
  rw [List.take_of_length_le (l := L.dims.map fun d => (L.startOf t d,L.countOf d)) (by simp)]
    at hrequest
  unfold scalarRead
  rw [h.dims,Option.getD_some]
  dsimp only
  rw [h.delivers.delivers _ _ ((inRange_iff_fits rfl hrequest).mpr h.fits),hrequest]

omit [Field α] in
/-- Entry of a rectangle of the delivered order at a row-major position. -/
theorem rectangle_getD (f : ℕ → ℕ → α) (default : α) {j i : ℕ} (hj : j<L.latLen) (hi : i<L.lonLen) :
    (if L.latFirst then rowMajor L.latLen L.lonLen fun j i => f j i
      else rowMajor L.lonLen L.latLen fun i j => f j i).getD (j*L.lonLen+i) default=
      f (shownIndex L j i).1 (shownIndex L j i).2 := by
  unfold shownIndex
  rw [List.getD_eq_getElem?_getD]
  by_cases hfirst : L.latFirst
  · rw [if_pos hfirst,if_pos hfirst,rowMajor_getElem? _ hj hi]
    rfl
  · have hflat := flat_lt hj hi
    rw [Nat.mul_comm L.latLen] at hflat
    rw [if_neg hfirst,if_neg hfirst,rowMajor_getElem?_flat _ hflat]
    rfl

/-- The box that is requested of a layout is a rectangle of rows, or of columns where
longitude comes first. -/
theorem hyperslab_layout (L : CurrentLayout) (t : ℕ) :
    hyperslab (L.dims.map fun d => (L.startOf t d,L.countOf d))=
      if L.latFirst then rowMajor L.latLen L.lonLen fun j i => L.index L.dims t j i
      else rowMajor L.lonLen L.latLen fun i j => L.index L.dims t j i := by
  by_cases hfirst : L.latFirst
  · rw [if_pos hfirst,L.hyperslab_latFirst hfirst]
  · rw [if_neg hfirst,L.hyperslab_lonFirst hfirst]

/-- The buffer of a scalar variable is the delivered rectangle, in the variable's own order
of dimensions. -/
theorem scalarBuffer_eq (h : ScalarStep file varid m L t value) :
    scalarBuffer file varid m=
      if L.latFirst then rowMajor L.latLen L.lonLen fun j i => value (L.index L.dims t j i)
      else rowMajor L.lonLen L.latLen fun i j => value (L.index L.dims t j i) := by
  have hbox : (hyperslab (L.dims.map fun d => (L.startOf t d,L.countOf d))).map value=
      if L.latFirst then rowMajor L.latLen L.lonLen fun j i => value (L.index L.dims t j i)
      else rowMajor L.lonLen L.latLen fun i j => value (L.index L.dims t j i) := by
    rw [hyperslab_layout]
    split <;> exact rowMajor_map _ _ _ _
  have hfull : ((hyperslab (L.dims.map fun d => (L.startOf t d,L.countOf d))).map value).length=
      (zeros (m.latLength*m.lonLength) : List α).length := by
    rw [hbox,h.latLength,h.lonLength]
    split <;> simp [Nat.mul_comm]
  unfold scalarBuffer
  rw [scalarRead_eq h,storeInto_full hfull,hbox]

/-- Value of the file for a cell, as it is stored. -/
def fileScalar (cell : α → α) (L : CurrentLayout) (value : List ℕ → α) (t j i : ℕ) : α :=
  cell (value (L.index L.dims t j i))

/-- A cell of the grid shows the value of the file at the indices it is
delivered for. -/
theorem cellAt_scalarGrid (h : ScalarStep file varid m L t value) (cell : α → α) {j i : ℕ}
    (hj : j<L.latLen) (hi : i<L.lonLen) :
    cellAt (buildGrid L.latLen L.lonLen ((scalarBuffer file varid m).map cell)) j i=
      fileScalar cell L value t (shownIndex L j i).1 (shownIndex L j i).2 := by
  have hmap : (scalarBuffer file varid m).map cell=
      if L.latFirst then rowMajor L.latLen L.lonLen fun j i => fileScalar cell L value t j i
      else rowMajor L.lonLen L.latLen fun i j => fileScalar cell L value t j i := by
    rw [scalarBuffer_eq h]
    split <;> exact rowMajor_map _ _ _ _
  rw [cellAt_buildGrid hj hi,hmap,rectangle_getD _ _ hj hi]

/-- Every cell of a grid shows the value of the file at the indices it is
delivered for. -/
def ShowsScalar (grid : Option (Grid α)) (cell : α → α) (L : CurrentLayout) (value : List ℕ → α)
    (t : ℕ) : Prop :=
  ∃ shown,grid=some shown ∧ ∀ j<L.latLen,∀ i<L.lonLen,
    cellAt shown j i=fileScalar cell L value t (shownIndex L j i).1 (shownIndex L j i).2

/-- With latitude before longitude each cell of the grid shows the value of the file at its
own indices. -/
theorem ShowsScalar.own {grid : Option (Grid α)} {cell : α → α}
    (h : ShowsScalar grid cell L value t) (hfirst : L.latFirst) :
    ∃ shown,grid=some shown ∧
      ∀ j<L.latLen,∀ i<L.lonLen,cellAt shown j i=fileScalar cell L value t j i := by
  obtain ⟨shown,hgrid,hcells⟩ := h
  refine ⟨shown,hgrid,fun j hj i hi => ?_⟩
  rw [hcells j hj i hi,shownIndex,if_pos hfirst]

end Layout

section Reading

variable {α : Type} [Field α] [LinearOrder α] {env : Env α} {cache : FileCache} {file : NcFile α}
  {m result : DataMessage α}

/-- The scalar buffers of a step that was read: those of the variables that are looked for
and found. -/
theorem readTimeStepData_scalars (hread : readTimeStepData env cache m=(true,result))
    (hopen : openFile env m.fileName=.ok file) :
    result.sst=(if ReadsSeaTemp env cache file then
        some (sstBuffer file (sstVarid cache file) m) else none) ∧
      result.salinity=(if ReadsSalinity env cache file then
        some (salBuffer file (salVarid cache file) m) else none) := by
  obtain ⟨-,file',read,hopen',hcurrent,rfl⟩ := (readTimeStepData_ok_iff result).mp hread
  obtain rfl := Except.ok.inj (hopen'.symm.trans hopen)
  have hempty : emptied read=emptied m := by
    rw [readCurrentStep_emptied hcurrent,emptied_emptied]
  have hnone : read.sst=none ∧ read.salinity=none := by
    rcases readCurrentStep_some hcurrent with ⟨-,rfl⟩ | ⟨-,request,cells,-,-,rfl⟩
    · exact ⟨rfl,rfl⟩
    · exact ⟨rfl,rfl⟩
  exact scalar_buffers env cache file' hempty hnone.1 hnone.2

/-- After a step has been read, the grids of sea temperature and salinity show
the values of the file, each variable in its own order of dimensions. -/
theorem scalars_shown (hread : readTimeStepData env cache m=(true,result))
    (hopen : openFile env m.fileName=.ok file) {L : CurrentLayout} {t : ℕ} {value : List ℕ → α}
    (hrows : m.noPointsMeridian=L.latLen) (hcolumns : m.noPointsParallel=L.lonLen) :
    (ReadsSeaTemp env cache file → ScalarStep file (sstVarid cache file) m L t value →
      ShowsScalar (builtGrids result).sst
        (sstCell (isKelvin file (sstVarid cache file)) (scalarFill file (sstVarid cache file)))
        L value t) ∧
    (ReadsSalinity env cache file → ScalarStep file (salVarid cache file) m L t value →
      ShowsScalar (builtGrids result).salinity (salCell (scalarFill file (salVarid cache file)))
        L value t) := by
  obtain ⟨hsst,hsal⟩ := readTimeStepData_scalars hread hopen
  have hsizes := readTimeStepData_sizes env cache m
  rw [hread,hrows,hcolumns] at hsizes
  refine ⟨fun hreads hstep => ?_,fun hreads hstep => ?_⟩
  · rw [if_pos hreads] at hsst
    refine ⟨_,by rw [builtGrids,hsst,hsizes.1,hsizes.2]; rfl,fun j hj i hi => ?_⟩
    exact cellAt_scalarGrid hstep _ hj hi
  · rw [if_pos hreads] at hsal
    refine ⟨_,by rw [builtGrids,hsal,hsizes.1,hsizes.2]; rfl,fun j hj i hi => ?_⟩
    exact cellAt_scalarGrid hstep _ hj hi

end Reading

section Sample

/-- A scalar variable with longitude before latitude is about to be read. -/
theorem scalarStep_longitudeMajor :
    ScalarStep (orderedFile [0,2,1]) 5 (orderedStep [0,2,1]) longitudeMajor 0 digits :=
  ⟨rfl,by decide,by decide,by decide,by decide,requestFits_self longitudeMajor_layout (by decide),
    (longitudeMajor_delivers 5 (by decide)).asFloat rfl,by decide +kernel,by decide +kernel,
    by decide +kernel⟩

/-- Temperatures that are stored longitude by longitude. -/
theorem scalars_shown_longitudeMajor :
    ShowsScalar (builtGrids (readTimeStepData (orderedEnv [0,2,1]) (orderedCache [0,2,1])
      (orderedStep [0,2,1])).2).sst
      (sstCell (isKelvin (orderedFile [0,2,1]) (sstVarid (orderedCache [0,2,1]) (orderedFile [0,2,1])))
        (scalarFill (orderedFile [0,2,1]) (sstVarid (orderedCache [0,2,1]) (orderedFile [0,2,1]))))
      longitudeMajor digits 0 := by
  have hid : sstVarid (orderedCache [0,2,1]) (orderedFile [0,2,1])=5 := by decide +kernel
  refine (scalars_shown (Prod.ext (by decide +kernel) rfl) rfl (by decide +kernel)
    (by decide +kernel)).1 (by decide +kernel) ?_
  rw [hid]
  exact scalarStep_longitudeMajor

end Sample

end NcdfPlugin.NcdfScalarFields
