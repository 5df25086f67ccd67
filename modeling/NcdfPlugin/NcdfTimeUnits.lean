import NcdfPlugin.NcdfDiscovery
import NcdfPlugin.ExactArithmetic
import NcdfPlugin.DateFormats

/-!
# CF time units

The units text is split at its first " since ". The unit word selects a
number of seconds, and the date part is cleaned of zone designators before
six formats are tried in order. Without units the loader guesses from the
first two time values.
-/

namespace NcdfPlugin.NcdfTimeUnits

open NcdfLibrary ExactArithmetic DateFormats

variable {α : Type}

/-- Epoch and unit of a time axis. -/
structure CFTimeInfo (α : Type) where
  /-- Parsed epoch in seconds, absent while invalid. -/
  baseDateTime : Option ℤ
  /-- Length of one unit in seconds. -/
  secondsPerUnit : α
  /-- Whether both parts were recognised. -/
  valid : Bool

/-- `wxString::Trim` removes the blanks at the right end. -/
def trimRight (text : List Char) : List Char := (text.reverse.dropWhile isBlank).reverse

/-- Split at the first occurrence of a separator. -/
def splitAtFirst (sep : List Char) : List Char → Option (List Char×List Char)
  | [] => if sep=[] then some ([],[]) else none
  | c::text =>
    if sep<+:c::text then some ([],(c::text).drop sep.length)
    else (splitAtFirst sep text).map fun parts => (c::parts.1,parts.2)

/-- Removal of `Z`, and of a zone offset after a blank. The previous
character is the one of the uncleaned text. -/
def cleanDate : Option Char → List Char → List Char
  | _,[] => []
  | prev,c::text =>
    if c= 'Z' ∨ c= 'z' then cleanDate (some c) text
    else if (c= '+' ∨ c= '-') ∧ prev=some ' ' then []
    else c::cleanDate (some c) text

/-- The six formats, in the order in which they are tried. -/
def dateFormats : List String :=
  ["%Y-%m-%d %H:%M:%S","%Y-%m-%dT%H:%M:%S","%Y-%m-%d","%Y-%m-%dT%H:%M:%SZ",
    "%Y-%m-%dT%H:%M:%S%z","%Y-%m-%d %H:%M:%S %z"]

section Texts

/-- The text is split where the separator occurs first, since it does not begin anywhere
before. -/
theorem splitAtFirst_append {sep : List Char} (hsep : sep≠[]) {before : List Char}
    (h : ¬sep<:+:before++sep.dropLast) (after : List Char) :
    splitAtFirst sep (before++sep++after)=some (before,after) := by
  induction before with
  | nil =>
    obtain ⟨c,sep,rfl⟩ := List.exists_cons_of_ne_nil hsep
    have hbegins : (c::sep)<+:c::(sep++after) := ⟨after,rfl⟩
    simp [splitAtFirst,hbegins]
  | cons c before ih =>
    have hnot : ¬sep<+:c::(before++sep++after) := by
      intro hbegins
      have hfront : c::before++sep.dropLast<+:c::(before++sep++after) := by
        rw [List.append_assoc,List.cons_append,List.prefix_cons_inj,List.prefix_append_right_inj]
        exact (List.dropLast_prefix sep).trans (List.prefix_append sep after)
      refine h (List.IsPrefix.isInfix (List.prefix_of_prefix_length_le hbegins hfront ?_))
      have hpos := List.length_pos_of_ne_nil hsep
      simp only [List.cons_append,List.length_cons,List.length_append,List.length_dropLast]
      omega
    have hrest : ¬sep<:+:before++sep.dropLast := fun hin => h (hin.trans (List.infix_cons List.infix_rfl))
    simp only [List.cons_append,splitAtFirst,if_neg hnot,ih hrest,Option.map_some]

/-- A text that ends in another character is not trimmed. -/
theorem trimRight_of_last {c : Char} (hc : isBlank c=false) (text : List Char) :
    trimRight (text++[c])=text++[c] := by
  simp [trimRight,hc]

/-- Blanks at the end are trimmed. -/
theorem trimRight_blank {c : Char} (hc : isBlank c=true) (text : List Char) :
    trimRight (text++[c])=trimRight text := by
  simp [trimRight,hc]

/-- Characters other than zone letters and signs are kept, whatever stands before them. -/
theorem cleanDate_plain {text : List Char}
    (h : ∀ c∈text,c≠ 'Z' ∧ c≠ 'z' ∧ c≠ '+' ∧ c≠ '-') (prev : Option Char) (rest : List Char) :
    cleanDate prev (text++rest)=text++cleanDate (text.getLast?.or prev) rest := by
  induction text generalizing prev with
  | nil => rfl
  | cons c text ih =>
    obtain ⟨hZ,hz,hplus,hminus⟩ := h c List.mem_cons_self
    have hlast : (c::text).getLast?.or prev=text.getLast?.or (some c) := by
      cases text with
      | nil => rfl
      | cons c' text => simp [List.getLast?_cons]
    simp only [List.cons_append,cleanDate,hZ,hz,hplus,hminus,or_self,if_false,false_and]
    rw [ih (fun c' hc' => h c' (List.mem_cons_of_mem _ hc')),hlast]

/-- A sign is kept unless it follows a blank, as the signs within a date do not. -/
theorem cleanDate_sign {c : Char} (hc : c= '+' ∨ c= '-') {prev : Option Char}
    (hprev : prev≠some ' ') (rest : List Char) :
    cleanDate prev (c::rest)=c::cleanDate (some c) rest := by
  have hzone : ¬(c= 'Z' ∨ c= 'z') := by
    rcases hc with rfl | rfl <;> decide
  rw [cleanDate,if_neg hzone,if_neg fun hcut => hprev hcut.2]

/-- A sign after a blank ends the date. -/
theorem cleanDate_cut {c : Char} (hc : c= '+' ∨ c= '-') (rest : List Char) :
    cleanDate (some ' ') (c::rest)=[] := by
  have hzone : ¬(c= 'Z' ∨ c= 'z') := by
    rcases hc with rfl | rfl <;> decide
  rw [cleanDate,if_neg hzone,if_pos ⟨hc,rfl⟩]

end Texts

variable [Field α]

/-- Seconds of a trimmed lower-case unit word. Full words are recognised
as substrings, abbreviations exactly. -/
def unitSeconds (unitPart : String) : Option α :=
  if strstr unitPart "second" ∨ unitPart="secs" ∨ unitPart="sec" ∨ unitPart="s" then some 1
  else if strstr unitPart "minute" ∨ unitPart="mins" ∨ unitPart="min" then some 60
  else if strstr unitPart "hour" ∨ unitPart="hrs" ∨ unitPart="hr" ∨ unitPart="h" then some 3600
  else if strstr unitPart "day" ∨ unitPart="d" then some 86400
  else none

/-- `ParseCFTimeUnits`. -/
def parseCFTimeUnits (env : Env α) (unitsStr : String) : CFTimeInfo α :=
  match splitAtFirst " since ".toList unitsStr.toList with
  | none => ⟨none,0,false⟩
  | some (before,after) =>
    let unitPart := String.ofList ((trimRight before).map env.toLower)
    let datePart := trimRight after
    match unitSeconds unitPart with
    | none => ⟨none,0,false⟩
    | some secondsPerUnit =>
      let cleaned := String.ofList (trimRight (cleanDate none datePart))
      match dateFormats.findSome? (env.parseFormat cleaned) with
      | some base => ⟨some base,secondsPerUnit,true⟩
      | none => ⟨none,secondsPerUnit,false⟩

/-- Unit word of the text before the separator, as it is looked up. -/
def unitText (env : Env α) (before : List Char) : String :=
  String.ofList ((trimRight before).map env.toLower)

/-- Epoch of the text after the separator. -/
def parseDate (env : Env α) (after : List Char) : Option ℤ :=
  dateFormats.findSome? (env.parseFormat (String.ofList (trimRight (cleanDate none (trimRight after)))))

/-- The unit word decides over the unit, the date over the epoch, and both
over the validity. -/
theorem parseCFTimeUnits_eq (env : Env α) {unitsStr : String} {before after : List Char}
    (h : splitAtFirst " since ".toList unitsStr.toList=some (before,after)) :
    parseCFTimeUnits env unitsStr=
      match (unitSeconds (unitText env before) : Option α) with
      | none => ⟨none,0,false⟩
      | some secondsPerUnit =>
        ⟨parseDate env after,secondsPerUnit,(parseDate env after).isSome⟩ := by
  simp only [parseCFTimeUnits,h,unitText,parseDate]
  cases (unitSeconds (String.ofList ((trimRight before).map env.toLower)) : Option α) with
  | none => rfl
  | some secondsPerUnit =>
    cases dateFormats.findSome?
      (env.parseFormat (String.ofList (trimRight (cleanDate none (trimRight after))))) <;> rfl

/-- A units text without a separator gives an invalid result and no unit. -/
theorem parseCFTimeUnits_none (env : Env α) {unitsStr : String}
    (h : splitAtFirst " since ".toList unitsStr.toList=none) :
    parseCFTimeUnits env unitsStr=⟨none,0,false⟩ := by
  simp only [parseCFTimeUnits,h]

variable [LinearOrder α] [FloorRing α]

/-- Instant of a time value: epoch plus whole seconds, rounded toward zero. -/
def instantOf (info : CFTimeInfo α) (value : α) : Option ℤ :=
  info.baseDateTime.map fun base => base+truncate (value*info.secondsPerUnit)

/-- Minutes of a time value after the epoch, rounded toward zero. -/
def minutesOf (info : CFTimeInfo α) (value : α) : ℤ := truncate (value*info.secondsPerUnit/60)

/-- One guess of the units: accepted while the first date lies at or before
the last plausible year. -/
def guessUnits (env : Env α) (unitsStr : String) (first : α) : Option (CFTimeInfo α) :=
  let info := parseCFTimeUnits env unitsStr
  match info.valid,instantOf info first with
  | true,some date => if env.getYear date≤2050 then some info else none
  | _,_ => none

/-- Guess for a time axis without units: Unix seconds for wide steps, then
hours since 1950 for narrow ones, else sequential labels. -/
def guessTimeInfo (env : Env α) (times : List α) : CFTimeInfo α :=
  let first := times.getD 0 0
  let timeStep := if 1<times.length then times.getD 1 0-times.getD 0 0 else 1
  let unixGuess :=
    if (0≤first ∧ first≤2000000000) ∧ (3600≤timeStep ∨ 86400≤timeStep) then
      guessUnits env "seconds since 1970-01-01" first
    else none
  let cmemsGuess :=
    if (0≤first ∧ first≤700000) ∧ 1≤timeStep ∧ timeStep≤24 then
      guessUnits env "hours since 1950-01-01" first
    else none
  match unixGuess with
  | some info => info
  | none => cmemsGuess.getD ⟨none,0,false⟩

/-- Time information of a file: units of the time variable, else the global
units, else the guess. -/
def fileTimeInfo (env : Env α) (file : NcFile α) (timeVarid : ℤ) (times : List α) :
    CFTimeInfo α :=
  match file.attText timeVarid "units" <|> file.attText (-1) "units" with
  | some units => parseCFTimeUnits env units
  | none => if 0<times.length then guessTimeInfo env times else ⟨none,0,false⟩

end NcdfPlugin.NcdfTimeUnits
