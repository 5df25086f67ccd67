import Mathlib.Algebra.Order.Floor.Ring
import Mathlib.Data.List.Infix

/-!
# Interface of the netCDF and wxWidgets libraries

The netCDF library, the file system and the date class are outside the
repository. An opened file is the table of the results of the library calls
the plugin makes on it; nothing relates two entries of the table unless a
theorem assumes it. Values are elements of a type of exact numbers; the
narrowing conversion to single precision stays explicit.
-/

namespace NcdfPlugin.NcdfLibrary

/-- Code of a failing library call. `NC_NOERR` is zero and excluded. -/
structure NcError where
  /-- Returned status. -/
  code : ℤ
  /-- A failing call never returns `NC_NOERR`. -/
  ne_zero : code≠0
  deriving DecidableEq

/-- The status `2` that the loader itself returns for an unusable file. -/
def unusableFile : NcError := ⟨2,by decide⟩

/-- The status `1` that the loader returns when an allocation fails. -/
def outOfMemory : NcError := ⟨1,by decide⟩

/-- Status of a buffer read and the values it stored, from the start of the
destination on. Cells past the stored values are left unchanged. -/
structure ReadOutcome (α : Type) where
  /-- Returned status, zero for `NC_NOERR`. -/
  retval : ℤ
  /-- Values stored in the destination, in order. -/
  delivered : List α
  deriving DecidableEq

/-- External type of a variable; only `NC_DOUBLE` is told apart. -/
inductive NcType where
  | double
  | other
  deriving DecidableEq

/-- Results of the library calls on one opened file. Variable identifiers
are the code's `int`, with minus one for `NC_GLOBAL` or no variable. -/
structure NcFile (α : Type) where
  /-- `nc_inq`: numbers of dimensions and of variables. -/
  inq : Except NcError (ℕ×ℕ)
  /-- `nc_inq_attlen` and `nc_get_att_text`: text of an attribute. -/
  attText : ℤ → String → Option String
  /-- `nc_get_att_float`. -/
  attFloat : ℤ → String → Option α
  /-- `nc_get_att_double`. -/
  attDouble : ℤ → String → Option α
  /-- `nc_inq_varid`. -/
  inqVarid : String → Option ℕ
  /-- `nc_inq_varndims` with `nc_inq_var` or `nc_inq_vardimid`: dimension
  identifiers in the variable's own order. -/
  varDims : ℤ → Option (List ℕ)
  /-- `nc_inq_dimid`. -/
  inqDimid : String → Option ℕ
  /-- `nc_inq_dim`: name of a dimension. -/
  dimName : ℕ → String
  /-- `nc_inq_dimlen`. -/
  dimLen : ℕ → Option ℕ
  /-- `nc_inq_vartype`. -/
  varType : ℤ → NcType
  /-- `nc_get_var_double`. -/
  getVarDouble : ℤ → ReadOutcome α
  /-- `nc_get_var_float`. -/
  getVarFloat : ℤ → ReadOutcome α
  /-- `nc_get_vara_double` with its start and count vectors. -/
  getVaraDouble : ℤ → List ℕ → List ℕ → ReadOutcome α
  /-- `nc_get_vara_float` with its start and count vectors. -/
  getVaraFloat : ℤ → List ℕ → List ℕ → ReadOutcome α

/-- Allocations whose failure the code tests. -/
inductive CallocSite where
  | lats | lons | timeOut | latFloat | lonFloat | timeFloat
  | dimids | uVals | vVals | uValsDouble | vValsDouble
  | ucurr | vcurr | uvlats | uvlons | sstVals | salVals
  deriving DecidableEq

/-- Everything a handler call sees of the outside world. Each event of a run
carries its own, so files may change or fail between events. -/
structure Env (α : Type) [Zero α] where
  /-- `nc_open` by name, with or without `NC_NETCDF4`. -/
  ncOpen : String → Bool → Except NcError (NcFile α)
  /-- Whether the allocation at a site succeeds. -/
  calloc : CallocSite → Bool
  /-- Conversion of a double to single precision, read back as a double. -/
  toFloat : α → α
  /-- Zero is exact in single precision. -/
  toFloat_zero : toFloat 0=0
  /-- `sqrt`. -/
  sqrt : α → α
  /-- `wxString::Lower`, character by character. -/
  toLower : Char → Char
  /-- `wxDateTime::ParseFormat`: text and format to seconds of the epoch. -/
  parseFormat : String → String → Option ℤ
  /-- `wxDateTime::GetYear`. -/
  getYear : ℤ → ℤ
  /-- `wxDateTime::Format` with the item format `%Y-%m-%d %H:00`. -/
  formatHour : ℤ → String

/-- Functions and constants of the mathematical library, on exact numbers. The
conversion to single precision stays explicit. -/
structure Libm (α : Type) where
  /-- `sqrt`. -/
  sqrt : α → α
  /-- `atan2`, the second coordinate first. -/
  atan2 : α → α → α
  /-- `sinf`. -/
  sin : α → α
  /-- `cosf`. -/
  cos : α → α
  /-- `asinf`. -/
  asin : α → α
  /-- `PI`. -/
  pi : α
  /-- Conversion of a double to single precision. -/
  toFloat : α → α

section Buffers

variable {α : Type}

/-- Effect of a read on its destination buffer. -/
def storeInto (buffer : List α) (read : ReadOutcome α) : List α :=
  read.delivered.take buffer.length++buffer.drop read.delivered.length

/-- A read never changes the length of its destination. -/
@[simp] theorem storeInto_length (buffer : List α) (read : ReadOutcome α) :
    (storeInto buffer read).length=buffer.length := by
  simp only [storeInto,List.length_append,List.length_take,List.length_drop]
  omega

/-- A cell of the buffer that the read has delivered holds the delivered value. -/
theorem storeInto_delivered {buffer : List α} {read : ReadOutcome α} {c : ℕ}
    (hc : c<buffer.length) (hd : c < read.delivered.length) :
    (storeInto buffer read)[c]? = read.delivered[c]? := by
  rw [storeInto,List.getElem?_append_left (by simp; omega),List.getElem?_take_of_lt hc]

/-- An undelivered cell keeps what the buffer held. -/
theorem storeInto_undelivered {buffer : List α} {read : ReadOutcome α} {c : ℕ}
    (hd : read.delivered.length ≤ c) : (storeInto buffer read)[c]? = buffer[c]? := by
  by_cases hc : c<buffer.length
  · have hlen : (read.delivered.take buffer.length).length=read.delivered.length := by
      rw [List.length_take]
      omega
    rw [storeInto,List.getElem?_append_right (by omega),hlen,List.getElem?_drop]
    congr 1
    omega
  · rw [List.getElem?_eq_none (by simpa using hc),List.getElem?_eq_none (by simpa using hc)]

/-- A read that delivers exactly the buffer's length replaces it. -/
theorem storeInto_full {buffer : List α} {read : ReadOutcome α}
    (h : read.delivered.length=buffer.length) : storeInto buffer read=read.delivered := by
  rw [storeInto,←h,List.take_length,h,List.drop_length,List.append_nil]

/-- Zero-initialised buffer of a given number of cells. -/
def zeros [Zero α] (n : ℕ) : List α := List.replicate n 0

/-- A fresh buffer has the size that it was allocated with. -/
@[simp] theorem zeros_length [Zero α] (n : ℕ) : (zeros n : List α).length=n := by simp [zeros]

/-- A fresh buffer holds zero at every place. -/
theorem zeros_getElem? [Zero α] {n c : ℕ} (hc : c<n) : (zeros n : List α)[c]? = some 0 := by
  simp [zeros,hc]

end Buffers

/-- `strstr`: whether a text occurs in another. -/
def strstr (text part : String) : Bool := decide (part.toList<:+:text.toList)

/-- Opening without `NC_NETCDF4` first, then with it. -/
def openFile {α : Type} [Zero α] (env : Env α) (filename : String) : Except NcError (NcFile α) :=
  match env.ncOpen filename false with
  | .ok file => .ok file
  | .error _ => env.ncOpen filename true

end NcdfPlugin.NcdfLibrary
