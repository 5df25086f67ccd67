import NcdfPlugin.NcdfLibrary

/-!
# Discovery of the variables of a file

Variables are found by CF conventions: exact standard name, alternative
standard names, long names, and last the variable's own name. The loader
and the time-step reader search with the same lists.
-/

namespace NcdfPlugin.NcdfDiscovery

open NcdfLibrary

variable {α : Type}

/-- Names under which one quantity is searched. -/
structure CfHints where
  /-- Preferred `standard_name`. -/
  target : String
  /-- Alternative standard names, in order of preference. -/
  altStdNames : List String
  /-- Accepted `long_name` texts, in order of preference. -/
  longNameHints : List String
  /-- Accepted variable names, in order of preference. -/
  varNameHints : List String

/-- Eastward current. -/
def uHints : CfHints where
  target := "eastward_sea_water_velocity"
  altStdNames := ["surface_eastward_sea_water_velocity"]
  longNameHints := ["Eastward Current Velocity","u-velocity component of current"]
  varNameHints := ["u","uo","current_u","curr_u","u10","u100"]

/-- Northward current. -/
def vHints : CfHints where
  target := "northward_sea_water_velocity"
  altStdNames := ["surface_northward_sea_water_velocity"]
  longNameHints := ["Northward Current Velocity","v-velocity component of current"]
  varNameHints := ["v","vo","current_v","curr_v","v10","v100"]

/-- Latitude. -/
def latHints : CfHints where
  target := "latitude"
  altStdNames := ["projection_y_coordinate"]
  longNameHints := ["Latitude","latitude coordinate"]
  varNameHints := ["lat","latitude","nav_lat"]

/-- Longitude. -/
def lonHints : CfHints where
  target := "longitude"
  altStdNames := ["projection_x_coordinate"]
  longNameHints := ["Longitude","longitude coordinate"]
  varNameHints := ["lon","longitude","nav_lon"]

/-- Time. -/
def timeHints : CfHints where
  target := "time"
  altStdNames := []
  longNameHints := ["Time","time coordinate"]
  varNameHints := ["time","t","Time"]

/-- Sea surface temperature. -/
def sstHints : CfHints where
  target := "sea_water_temperature"
  altStdNames := ["sea_surface_temperature","surface_temperature"]
  longNameHints := ["Sea surface temperature","sea_water_temperature","SST","Temperature",
    "temperature"]
  varNameHints := ["thetao","sst","temperature","temp","SST","votemper","to"]

/-- Sea surface salinity. -/
def salHints : CfHints where
  target := "sea_water_salinity"
  altStdNames := ["sea_surface_salinity","surface_salinity"]
  longNameHints := ["Sea surface salinity","sea_water_salinity","Salinity","salinity"]
  varNameHints := ["so","salinity","salt","vosaline","sos","SSS"]

/-- First variable whose text attribute equals the given text. -/
def findByAttText (file : NcFile α) (nvars : ℕ) (att text : String) : Option ℕ :=
  (List.range nvars).find? fun i => file.attText i att=some text

/-- `find_var_by_cf`. The first tier counts its matches only to log a
warning: one match or several, the first one is returned. -/
def findVarByCf (file : NcFile α) (hints : CfHints) : ℤ :=
  match file.inq with
  | .error _ => -1
  | .ok (_,nvars) =>
    match findByAttText file nvars "standard_name" hints.target with
    | some best => best
    | none =>
      match hints.altStdNames.findSome? (findByAttText file nvars "standard_name") with
      | some i => i
      | none =>
        match hints.longNameHints.findSome? (findByAttText file nvars "long_name") with
        | some i => i
        | none =>
          match hints.varNameHints.findSome? file.inqVarid with
          | some i => i
          | none => -1

/-- `find_dim_by_var`: a dimension of a variable, or minus one past its
last. A variable without readable dimensions has none. -/
def findDimByVar (file : NcFile α) (varid : ℤ) (dimIdx : ℕ) : ℤ :=
  match file.varDims varid with
  | none => -1
  | some dimids => (dimids[dimIdx]?.map Int.ofNat).getD (-1)

/-- Identifiers of everything the loader searches for. -/
structure VarIds where
  /-- Eastward current, or minus one. -/
  u : ℤ
  /-- Northward current, or minus one. -/
  v : ℤ
  /-- Latitude, or minus one. -/
  lat : ℤ
  /-- Longitude, or minus one. -/
  lon : ℤ
  /-- Time, or minus one. -/
  time : ℤ
  /-- Sea temperature, or minus one. -/
  sst : ℤ
  /-- Salinity, or minus one. -/
  sal : ℤ
  deriving DecidableEq

/-- The seven searches of the loader. -/
def discoverVars (file : NcFile α) : VarIds where
  u := findVarByCf file uHints
  v := findVarByCf file vHints
  lat := findVarByCf file latHints
  lon := findVarByCf file lonHints
  time := findVarByCf file timeHints
  sst := findVarByCf file sstHints
  sal := findVarByCf file salHints

end NcdfPlugin.NcdfDiscovery
