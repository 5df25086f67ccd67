import NcdfPlugin.PrioritySearch
import NcdfPlugin.NcdfDiscovery

/-!
# Priority of the discovery

The discovery tries four tiers one after another: the preferred standard
name, the alternative standard names, the long names and the variable names.
Within a tier it tries the hints in order, and for each hint the variables.
So it finds the match of least tier, then least hint, then least identifier.
-/

namespace NcdfPlugin.NcdfPriority

open PrioritySearch NcdfLibrary NcdfDiscovery

variable {α : Type}

/-- What the discovery can see of a variable. -/
structure CfVariable where
  /-- Name in the file. -/
  name : String
  /-- `standard_name`, when it has one. -/
  standardName : Option String
  /-- `long_name`, when it has one. -/
  longName : Option String

/-- The library answers for a file with these variables. -/
structure HasVariables (file : NcFile α) (vars : List CfVariable) : Prop where
  /-- Names are pairwise distinct. -/
  distinct : (vars.map CfVariable.name).Nodup
  /-- `nc_inq` succeeds and counts them. -/
  inq : ∃ ndims,file.inq=.ok (ndims,vars.length)
  /-- Standard names are read as they are. -/
  standardName : ∀ (i : ℕ) v,vars[i]? = some v → file.attText i "standard_name"=v.standardName
  /-- Long names are read as they are. -/
  longName : ∀ (i : ℕ) v,vars[i]? = some v → file.attText i "long_name"=v.longName
  /-- A name is found at the variable that has it. -/
  inqVarid : ∀ name i,file.inqVarid name=some i ↔ ∃ v,vars[i]? = some v ∧ v.name=name

/-- One search over the variables of a file. -/
inductive CfSearch where
  | standardName (text : String)
  | longName (text : String)
  | varName (text : String)

/-- Whether a variable is what a search looks for. -/
def Answers (v : CfVariable) : CfSearch → Prop
  | .standardName text => v.standardName=some text
  | .longName text => v.longName=some text
  | .varName text => v.name=text

/-- The four tiers, each with its searches in order. -/
def tiers (hints : CfHints) : List (List CfSearch) :=
  [[.standardName hints.target],hints.altStdNames.map .standardName,
    hints.longNameHints.map .longName,hints.varNameHints.map .varName]

/-- A variable answers a hint of a tier. -/
def Matches (vars : List CfVariable) (hints : CfHints) (tier position id : ℕ) : Prop :=
  ∃ searches search v,(tiers hints)[tier]? = some searches ∧ searches[position]? = some search ∧
    vars[id]? = some v ∧ Answers v search

/-- All matches, ordered by tier, then position in the hint list, then
variable. -/
def matchKeys (vars : List CfVariable) (hints : CfHints) : Set (ℕ×ₗ(ℕ×ₗℕ)) :=
  {key | Matches vars hints (ofLex key).1 (ofLex (ofLex key).2).1 (ofLex (ofLex key).2).2}

/-- Variables that answer a search. -/
def candidates (vars : List CfVariable) (search : CfSearch) : Set ℕ :=
  {id | ∃ v,vars[id]? = some v ∧ Answers v search}

/-- The keys by which matches are compared rank the searches first and the candidates within
each second. -/
theorem matchKeys_eq_ranked (vars : List CfVariable) (hints : CfHints) :
    matchKeys vars hints=
      ranked (tiers hints) fun searches => ranked searches (candidates vars) := by
  ext key
  constructor
  · rintro ⟨searches,search,v,htier,hposition,hvar,hanswer⟩
    exact ⟨searches,htier,search,hposition,v,hvar,hanswer⟩
  · rintro ⟨searches,htier,search,hposition,v,hvar,hanswer⟩
    exact ⟨searches,search,v,htier,hposition,hvar,hanswer⟩

/-- How the code runs a search. -/
def runSearch (file : NcFile α) (nvars : ℕ) : CfSearch → Option ℕ
  | .standardName text => findByAttText file nvars "standard_name" text
  | .longName text => findByAttText file nvars "long_name" text
  | .varName text => file.inqVarid text

section Search

variable {file : NcFile α} {vars : List CfVariable}

/-- Searching an attribute of the variables in order finds the first one whose attribute has
the text. -/
theorem finds_findByAttText {att : String} {attOf : CfVariable → Option String}
    (hatt : ∀ (i : ℕ) v,vars[i]? = some v → file.attText i att=attOf v) (text : String) :
    Finds {id | ∃ v,vars[id]? = some v ∧ attOf v=some text}
      (findByAttText file vars.length att text) := by
  have hset : {id | ∃ v,vars[id]? = some v ∧ attOf v=some text}=
      {i | i<vars.length ∧ decide (file.attText i att=some text)=true} := by
    ext i
    constructor
    · rintro ⟨v,hv,htext⟩
      exact ⟨(List.getElem?_eq_some_iff.mp hv).1,by rw [hatt i v hv]; exact decide_eq_true htext⟩
    · rintro ⟨hi,htext⟩
      have hv : vars[i]? = some vars[i] := List.getElem?_eq_getElem hi
      rw [hatt i _ hv] at htext
      exact ⟨vars[i],hv,of_decide_eq_true htext⟩
  rw [hset]
  exact finds_find?_range vars.length fun i => decide (file.attText i att=some text)

/-- Every search finds the first variable that answers it. -/
theorem finds_runSearch (h : HasVariables file vars) (search : CfSearch) :
    Finds (candidates vars search) (runSearch file vars.length search) := by
  cases search with
  | standardName text => exact finds_findByAttText h.standardName text
  | longName text => exact finds_findByAttText h.longName text
  | varName text => exact finds_of_unique fun id => (h.inqVarid text id).symm

/-- The first match of all tiers, with its tier and its hint. -/
def firstMatch (file : NcFile α) (nvars : ℕ) (hints : CfHints) : Option (ℕ×ₗ(ℕ×ₗℕ)) :=
  searchRanked (searchRanked (runSearch file nvars)) (tiers hints)

/-- The first match is the least one. -/
theorem finds_firstMatch (h : HasVariables file vars) (hints : CfHints) :
    Finds (matchKeys vars hints) (firstMatch file vars.length hints) := by
  rw [matchKeys_eq_ranked]
  exact finds_searchRanked fun searches _ => finds_searchRanked fun search _ =>
    finds_runSearch h search

/-- The code returns the variable of the first match, in the order of the keys, or minus one
where nothing matches. -/
theorem findVarByCf_eq {ndims nvars : ℕ} (hinq : file.inq=.ok (ndims,nvars)) (hints : CfHints) :
    findVarByCf file hints=
      ((firstMatch file nvars hints).map fun key => ((ofLex (ofLex key).2).2 : ℤ)).getD (-1) := by
  have hanswer := searchRanked_nested_map (runSearch file nvars) (tiers hints)
  have hcode : findVarByCf file hints=
      (((tiers hints).findSome? fun searches => searches.findSome? (runSearch file nvars)).map
        Int.ofNat).getD (-1) := by
    have hstandard : runSearch file nvars∘CfSearch.standardName=
        findByAttText file nvars "standard_name" := rfl
    have hlong : runSearch file nvars∘CfSearch.longName=findByAttText file nvars "long_name" := rfl
    have hname : runSearch file nvars∘CfSearch.varName=file.inqVarid := rfl
    simp only [findVarByCf,hinq,tiers,List.findSome?_cons,List.findSome?_nil,List.findSome?_map,
      hstandard,hlong,hname,runSearch]
    cases findByAttText file nvars "standard_name" hints.target <;>
      cases hints.altStdNames.findSome? (findByAttText file nvars "standard_name") <;>
      cases hints.longNameHints.findSome? (findByAttText file nvars "long_name") <;>
      cases hints.varNameHints.findSome? file.inqVarid <;> rfl
  rw [hcode,←hanswer,Option.map_map]
  rfl

/-- The discovery returns the variable of the least match by tier, hint and
variable, and minus one exactly when nothing matches. -/
theorem findVarByCf_least (h : HasVariables file vars) (hints : CfHints) :
    (∀ id : ℕ,findVarByCf file hints=id ↔ ∃ tier position,
      IsLeast (matchKeys vars hints) (toLex (tier,toLex (position,id)))) ∧
    (findVarByCf file hints= -1 ↔ matchKeys vars hints=∅) := by
  obtain ⟨ndims,hinq⟩ := h.inq
  have hfinds := finds_firstMatch h hints
  rw [findVarByCf_eq hinq]
  refine ⟨fun id => ⟨fun heq => ?_,?_⟩,?_⟩
  · cases hfirst : firstMatch file vars.length hints with
    | none =>
      rw [hfirst] at heq
      exact absurd heq (by simp)
    | some key =>
      rw [hfirst] at heq
      have hid : (ofLex (ofLex key).2).2=id := by simpa using heq
      refine ⟨(ofLex key).1,(ofLex (ofLex key).2).1,?_⟩
      rw [←hid]
      exact (hfinds.eq_some_iff key).mp hfirst
  · rintro ⟨tier,position,hleast⟩
    rw [(hfinds.eq_some_iff _).mpr hleast]
    rfl
  · rw [←hfinds.eq_none_iff]
    cases firstMatch file vars.length hints with
    | none => simp
    | some key => simp

end Search

section Tables

/-- A file with given variables and nothing else. -/
def tableFile (vars : List CfVariable) : NcFile α where
  inq := .ok (3,vars.length)
  attText varid att :=
    if varid<0 then none
    else if att="standard_name" then vars[varid.toNat]?.bind CfVariable.standardName
    else if att="long_name" then vars[varid.toNat]?.bind CfVariable.longName
    else none
  attFloat _ _ := none
  attDouble _ _ := none
  inqVarid name := vars.findIdx? fun v => decide (v.name=name)
  varDims _ := none
  inqDimid _ := none
  dimName _ := ""
  dimLen _ := none
  varType _ := .double
  getVarDouble _ := ⟨0,[]⟩
  getVarFloat _ := ⟨0,[]⟩
  getVaraDouble _ _ _ := ⟨0,[]⟩
  getVaraFloat _ _ _ := ⟨0,[]⟩

/-- Variables with distinct names make up a file. -/
theorem hasVariables_tableFile {vars : List CfVariable} (h : (vars.map CfVariable.name).Nodup) :
    HasVariables (tableFile vars : NcFile α) vars := by
  refine ⟨h,⟨3,rfl⟩,fun i v hv => ?_,fun i v hv => ?_,fun name i => ?_⟩
  · simp [tableFile,hv]
  · simp [tableFile,hv]
  · simp only [tableFile,List.findIdx?_eq_some_iff_getElem,decide_eq_true_eq,List.getElem?_eq_some_iff]
    constructor
    · rintro ⟨hi,hname,-⟩
      exact ⟨vars[i],⟨hi,rfl⟩,hname⟩
    · rintro ⟨v,⟨hi,rfl⟩,hname⟩
      refine ⟨hi,hname,fun j hj hsame => ?_⟩
      have hj' : j<vars.length := hj.trans hi
      have heq : (vars.map CfVariable.name)[j]? = (vars.map CfVariable.name)[i]? := by
        simpa [hi,hj'] using hsame.trans hname.symm
      exact hj.ne ((List.getElem?_inj (by simpa using hj') h).mp heq)

/-- A file in which two long names, an alternative standard name and a
variable name match; the alternative standard name comes first. -/
def waterFile : List CfVariable :=
  [⟨"to",none,some "temperature"⟩,⟨"a",none,some "SST"⟩,⟨"b",some "surface_temperature",none⟩]

/-- The discovery in a file where two variables could be meant. -/
theorem findVarByCf_least_waterFile :
    findVarByCf (tableFile waterFile : NcFile ℕ) sstHints=2 ∧
    (∀ id : ℕ,findVarByCf (tableFile waterFile : NcFile ℕ) sstHints=id ↔ ∃ tier position,
      IsLeast (matchKeys waterFile sstHints) (toLex (tier,toLex (position,id)))) ∧
    (findVarByCf (tableFile waterFile : NcFile ℕ) sstHints= -1 ↔
      matchKeys waterFile sstHints=∅) :=
  ⟨by decide +kernel,findVarByCf_least (hasVariables_tableFile (by decide)) _⟩

end Tables

end NcdfPlugin.NcdfPriority
