import NcdfPlugin.NcdfTimeUnits
import NcdfPlugin.PrioritySearch
import Mathlib.Data.Rat.Floor

/-!
# Epochs of CF time units

A date text names a day, optionally a time of day and optionally a zone. The
cleaning drops a `Z` and an offset after a blank, and the first three formats
match a prefix of what is left. So the epoch has no zone, and it has the time
of day only when that comes with seconds.
-/

namespace NcdfPlugin.NcdfEpoch

open NcdfLibrary NcdfTimeUnits DateFormats

/-- What stands between the date and the time of day. -/
inductive Separator where
  | blank
  | letterT
  deriving DecidableEq

/-- A time of day. -/
inductive DayTime where
  /-- Hour and minute. -/
  | minutes (t : HourMinute)
  /-- Hour, minute and second, with the digits of a fraction. -/
  | seconds (t : HourMinute) (second : Fin 60) (fraction : List (Fin 10))

/-- A zone, with or without a blank before it. -/
inductive Zone where
  | none
  | letterZ (blank : Bool)
  | utc (blank : Bool)
  | offset (blank negative : Bool) (t : HourMinute)

/-- A date text. -/
structure DateText where
  /-- The day. -/
  date : CivilDate
  /-- The time of day, midnight without one. -/
  time : Option (Separator×DayTime)
  /-- The zone, UTC without one. -/
  zone : Zone

/-- Character of a separator. -/
def Separator.render : Separator → Char
  | .blank => ' '
  | .letterT => 'T'

/-- Fraction of a second with its point. -/
def renderFraction : List (Fin 10) → List Char
  | [] => []
  | digits => '.'::digits.map fun d => Nat.digitChar d.val

/-- A time of day as text. -/
def DayTime.render : DayTime → List Char
  | .minutes t => t.render
  | .seconds t second fraction => t.render++ ':'::(padded 2 second++renderFraction fraction)

/-- An optional blank. -/
def renderBlank (blank : Bool) : List Char := if blank=true then [' '] else []

/-- A zone as text. -/
def Zone.render : Zone → List Char
  | .none => []
  | .letterZ blank => renderBlank blank++['Z']
  | .utc blank => renderBlank blank++['U','T','C']
  | .offset blank negative t => renderBlank blank++(if negative=true then '-' else '+')::t.render

/-- A time of day with its separator, as text. -/
def renderTime : Option (Separator×DayTime) → List Char
  | none => []
  | some (separator,time) => separator.render::time.render

/-- A date text. -/
def DateText.render (text : DateText) : List Char :=
  text.date.render++renderTime text.time++text.zone.render

/-- Seconds of a time of day, without the fraction. -/
def DayTime.value : DayTime → ℤ
  | .minutes t => 60*t.minutes
  | .seconds t second _ => 60*t.minutes+second

/-- Offset of a zone in minutes. -/
def Zone.minutes : Zone → ℤ
  | .offset _ negative t => if negative=true then -t.minutes else t.minutes
  | _ => 0

/-- Start of the day. -/
def CivilDate.start (d : CivilDate) : ℤ := 86400*dayNumber d.year d.month d.day

/-- Instant of a date text to the second, in UTC. -/
def DateText.instant (text : DateText) : ℤ :=
  CivilDate.start text.date+(text.time.map fun t => t.2.value).getD 0-60*text.zone.minutes

/-- Seconds of the time of day that the formats read. -/
def readValue : Option (Separator×DayTime) → ℤ
  | some (_,.seconds t second fraction) => (DayTime.seconds t second fraction).value
  | _ => 0

section Cleaning

/-- What the cleaning and the last trimming leave of a zone. -/
def leftover : Zone → List Char
  | .utc blank => renderBlank blank++['U','T','C']
  | .offset false negative t => (if negative=true then '-' else '+')::t.render
  | _ => []

/-- The day and the time of day as text. -/
def DateText.core (text : DateText) : List Char := text.date.render++renderTime text.time

/-- Characters the cleaning never looks at. -/
def Plain (text : List Char) : Prop := ∀ c∈text,c≠ 'Z' ∧ c≠ 'z' ∧ c≠ '+' ∧ c≠ '-'

/-- A text that does not end in a blank. -/
def Solid (text : List Char) : Prop := ∃ c,text.getLast? = some c ∧ isBlank c=false

/-- The cleaning keeps a text after a given character. -/
def KeptAfter (prev : Option Char) (text : List Char) : Prop :=
  ∀ rest,cleanDate prev (text++rest)=text++cleanDate (text.getLast?.or prev) rest

/-- Two texts that the cleaning never looks at make one that it never looks at. -/
theorem Plain.append {l l' : List Char} (h : Plain l) (h' : Plain l') : Plain (l++l') :=
  fun c hc => (List.mem_append.mp hc).elim (h c) (h' c)

/-- One more character that the cleaning passes over. -/
theorem Plain.cons {c : Char} {l : List Char} (hc : c≠ 'Z' ∧ c≠ 'z' ∧ c≠ '+' ∧ c≠ '-') (h : Plain l) :
    Plain (c::l) :=
  fun c' hc' => (List.mem_cons.mp hc').elim (fun heq => heq ▸ hc) (h c')

/-- Whether a text ends in a blank is decided by its second part. -/
theorem Solid.append (l : List Char) {l' : List Char} (h : Solid l') : Solid (l++l') := by
  obtain ⟨c,hlast,hc⟩ := h
  exact ⟨c,by rw [List.getLast?_append,hlast,Option.some_or],hc⟩

/-- A character in front does not change how a text ends. -/
theorem Solid.cons (c : Char) {l : List Char} (h : Solid l) : Solid (c::l) := h.append [c]

/-- A text that does not end in a blank is not trimmed. -/
theorem Solid.trimRight_eq {l : List Char} (h : Solid l) : trimRight l=l := by
  obtain ⟨c,hlast,hc⟩ := h
  obtain ⟨front,rfl⟩ := List.getLast?_eq_some_iff.mp hlast
  exact trimRight_of_last hc front

/-- A text without zone letters and signs is kept whatever stands before it. -/
theorem keptAfter_of_plain {l : List Char} (h : Plain l) (prev : Option Char) : KeptAfter prev l :=
  cleanDate_plain h prev

/-- Two texts that are each kept where they stand are kept together. -/
theorem KeptAfter.append {prev : Option Char} {l l' : List Char} (h : KeptAfter prev l)
    (h' : KeptAfter (l.getLast?.or prev) l') : KeptAfter prev (l++l') := by
  intro rest
  rw [List.append_assoc,h,h',List.getLast?_append,Option.or_assoc,List.append_assoc]

/-- A kept text that ends there is not changed. -/
theorem KeptAfter.cleanDate_eq {prev : Option Char} {l : List Char} (h : KeptAfter prev l) :
    cleanDate prev l=l := by
  simpa [cleanDate] using h []

/-- A sign is kept after anything but a blank. -/
theorem keptAfter_sign {c : Char} (hc : c= '+' ∨ c= '-') {prev : Option Char} (hprev : prev≠some ' ') :
    KeptAfter prev [c] := cleanDate_sign hc hprev

/-- A digit is neither a zone letter nor a sign. -/
theorem digit_ne {c : Char} (h : c.isDigit=true) : c≠ 'Z' ∧ c≠ 'z' ∧ c≠ '+' ∧ c≠ '-' := by
  refine ⟨?_,?_,?_,?_⟩ <;> rintro rfl <;> exact absurd h (by decide)

/-- A digit is no blank. -/
theorem isBlank_of_isDigit : ∀ d : Fin 10,isBlank (Nat.digitChar d)=false := by decide

/-- The cleaning passes over the digits of a number. -/
theorem plain_padded (w n : ℕ) : Plain (padded w n) := fun _ hc => digit_ne (isDigit_padded hc)

/-- A number does not end in a blank. -/
theorem solid_padded (w n : ℕ) : Solid (padded (w+1) n) :=
  Solid.append _ ⟨_,rfl,isBlank_of_isDigit ⟨n%10,Nat.mod_lt _ (by decide)⟩⟩

/-- Behind a text that does not end in a blank the character before is no blank, so a sign
there is kept. -/
theorem Solid.ne_blank {l : List Char} (h : Solid l) (prev : Option Char) :
    l.getLast?.or prev≠some ' ' := by
  obtain ⟨c,hlast,hc⟩ := h
  rw [hlast,Option.some_or]
  rintro heq
  cases heq
  exact absurd hc (by decide)

/-- The cleaning passes over hours, minutes and the colon between them. -/
theorem plain_hourMinute (t : HourMinute) : Plain t.render :=
  (plain_padded _ _).append (Plain.cons (by decide) (plain_padded _ _))

/-- A time of day in hours and minutes does not end in a blank. -/
theorem solid_hourMinute (t : HourMinute) : Solid t.render :=
  Solid.append _ (Solid.cons _ (solid_padded 1 _))

/-- A date is kept: its dashes follow digits. -/
theorem keptAfter_date (d : CivilDate) : KeptAfter none d.render := by
  have hdash (w n : ℕ) (prev : Option Char) :
      KeptAfter ((padded (w+1) n).getLast?.or prev) ['-'] :=
    keptAfter_sign (Or.inr rfl) ((solid_padded w n).ne_blank prev)
  have hsplit : d.render=
      padded 4 d.year++(['-']++(padded 2 d.month++(['-']++padded 2 d.day))) := rfl
  rw [hsplit]
  refine (keptAfter_of_plain (plain_padded _ _) _).append ((hdash 3 _ _).append ?_)
  exact (keptAfter_of_plain (plain_padded _ _) _).append
    ((hdash 1 _ _).append (keptAfter_of_plain (plain_padded _ _) _))

/-- The cleaning passes over a time of day with its separator. -/
theorem plain_renderTime (time : Option (Separator×DayTime)) : Plain (renderTime time) := by
  match time with
  | none => exact fun c hc => nomatch hc
  | some (separator,time) =>
    have hseparator : separator.render≠ 'Z' ∧ separator.render≠ 'z' ∧ separator.render≠ '+' ∧
        separator.render≠ '-' := by cases separator <;> decide
    refine Plain.cons hseparator ?_
    cases time with
    | minutes t => exact plain_hourMinute t
    | seconds t second fraction =>
      refine (plain_hourMinute t).append (Plain.cons (by decide) ((plain_padded _ _).append ?_))
      cases fraction with
      | nil => exact fun c hc => nomatch hc
      | cons d digits =>
        refine Plain.cons (by decide) fun c hc => ?_
        obtain ⟨d',-,rfl⟩ := List.mem_map.mp hc
        exact digit_ne (digitChar_spec d').1

/-- Days and times end in a digit. -/
theorem solid_core (text : DateText) : Solid text.core := by
  have hdate : Solid text.date.render :=
    Solid.append _ (Solid.cons _ (Solid.append _ (Solid.cons _ (solid_padded 1 _))))
  unfold DateText.core
  match text.time with
  | none => rw [renderTime,List.append_nil]; exact hdate
  | some (separator,.minutes t) => exact Solid.append _ (Solid.cons _ (solid_hourMinute t))
  | some (separator,.seconds t second []) =>
    rw [renderTime,DayTime.render,renderFraction,List.append_nil]
    exact Solid.append _ (Solid.cons _ (Solid.append _ (Solid.cons _ (solid_padded 1 _))))
  | some (separator,.seconds t second (d::digits)) =>
    refine Solid.append _ (Solid.cons _ (Solid.append _ (Solid.cons _ (Solid.append _ ?_))))
    refine Solid.cons _ ⟨_,List.getLast?_eq_some_getLast (by simp),?_⟩
    rw [List.getLast_map]
    exact isBlank_of_isDigit _

/-- The date itself is kept, its two signs included, since no blank stands before them. -/
theorem keptAfter_core (text : DateText) : KeptAfter none text.core :=
  (keptAfter_date text.date).append (keptAfter_of_plain (plain_renderTime _) _)

/-- The letters of the zone name are not looked at, so the name is left where it is. -/
theorem plain_utc (blank : Bool) : Plain (renderBlank blank++['U','T','C']) := by
  cases blank <;> simp [Plain,renderBlank]

/-- A date text does not end in a blank. -/
theorem solid_render (text : DateText) : Solid text.render := by
  have hcore := solid_core text
  have hletter (c : Char) (hc : isBlank c=false) : Solid [c] := ⟨c,rfl,hc⟩
  unfold DateText.render
  match text.zone with
  | .none => rw [Zone.render,List.append_nil]; exact hcore
  | .letterZ blank => exact Solid.append _ (Solid.append _ (hletter 'Z' (by decide)))
  | .utc blank =>
    exact Solid.append _ (Solid.append _ (Solid.append ['U','T'] (hletter 'C' (by decide))))
  | .offset blank negative t =>
    exact Solid.append _ (Solid.append _ (Solid.cons _ (solid_hourMinute t)))

/-- The cleaned text is the day, the time of day and what is left of the
zone. -/
theorem cleaned_render (text : DateText) :
    trimRight (cleanDate none (trimRight text.render))=text.core++leftover text.zone := by
  have hcore := solid_core text
  have hsign (negative : Bool) : (if negative=true then '-' else '+')= '+' ∨
      (if negative=true then '-' else '+')= '-' := by cases negative <;> simp
  have htrimmed : trimRight (text.core++[' '])=text.core := by
    rw [trimRight_blank (by decide),hcore.trimRight_eq]
  have hkept : cleanDate none text.render=
      text.core++cleanDate (text.core.getLast?.or none) text.zone.render :=
    keptAfter_core text text.zone.render
  rw [(solid_render text).trimRight_eq,hkept]
  match text.zone with
  | .none =>
    simp only [Zone.render,cleanDate,leftover,List.append_nil]
    exact hcore.trimRight_eq
  | .letterZ false =>
    simp only [Zone.render,renderBlank,leftover,List.append_nil,cleanDate,true_or,if_true,
      Bool.false_eq_true,if_false,List.nil_append]
    exact hcore.trimRight_eq
  | .letterZ true =>
    have hclean (prev : Option Char) : cleanDate prev [' ','Z']=[' '] := by simp [cleanDate]
    simp only [Zone.render,renderBlank,leftover,List.append_nil,if_true,List.cons_append,
      List.nil_append,hclean]
    exact htrimmed
  | .utc blank =>
    have hutc := keptAfter_of_plain (plain_utc blank) (text.core.getLast?.or none)
    rw [Zone.render,leftover,hutc.cleanDate_eq]
    exact (Solid.append _ (Solid.append _ ⟨'C',rfl,by decide⟩)).trimRight_eq
  | .offset true negative t =>
    have hblank (prev : Option Char) (rest : List Char) :
        cleanDate prev (' '::rest)= ' '::cleanDate (some ' ') rest := by simp [cleanDate]
    simp only [Zone.render,renderBlank,leftover,if_true,List.cons_append,List.nil_append,
      List.append_nil,hblank,cleanDate_cut (hsign negative)]
    exact htrimmed
  | .offset false negative t =>
    have hzone := (keptAfter_sign (hsign negative) (hcore.ne_blank none)).append
      (keptAfter_of_plain (plain_hourMinute t) _)
    have hrender : (Zone.offset false negative t).render=
        [if negative=true then '-' else '+']++t.render := rfl
    rw [hrender,hzone.cleanDate_eq]
    exact (Solid.append _ (Solid.cons _ (solid_hourMinute t))).trimRight_eq

end Cleaning

section Parsing

/-- Items of a time of day after its separator. -/
def timeItems : List Char := minuteItems++[':','%','S']

/-- The three formats that are tried, item by item: with seconds after a blank or the letter
T, and with the date alone. -/
theorem toList_timeFormats :
    "%Y-%m-%d %H:%M:%S".toList=dateItems++Separator.blank.render::timeItems ∧
    "%Y-%m-%dT%H:%M:%S".toList=dateItems++Separator.letterT.render::timeItems ∧
    "%Y-%m-%d".toList=dateItems++[] := by decide

/-- What the cleaning leaves where the zone was starts with no digit, letter T or colon, so
no further item is read from it. -/
theorem leftover_head (zone : Zone) :
    (∀ c∈((leftover zone).dropWhile isBlank).head?,c.isDigit=false) ∧
    (leftover zone).head? ≠ some 'T' ∧ (leftover zone).head? ≠ some ':' := by
  match zone with
  | .none | .letterZ _ | .offset true _ _ =>
    exact ⟨fun c hc => (nomatch hc),fun h => (nomatch h),fun h => (nomatch h)⟩
  | .utc true | .utc false => simp [leftover,renderBlank,isBlank,Char.isDigit]
  | .offset false true t | .offset false false t =>
    refine ⟨fun c hc => ?_,by simp [leftover],by simp [leftover]⟩
    simp [leftover,isBlank] at hc
    rw [←hc]
    decide

/-- An hour starts with a digit. -/
theorem hourMinute_head (t : HourMinute) (rest : List Char) :
    (t.render++rest).dropWhile isBlank=t.render++rest := by
  have hblank := isBlank_of_isDigit ⟨t.hour/10%10,Nat.mod_lt _ (by decide)⟩
  simp only [HourMinute.render,padded,List.nil_append,List.cons_append,List.dropWhile_cons,hblank,
    Bool.false_eq_true,if_false]

/-- A separator in front of an hour is read on its own, a blank as well as the letter T. -/
theorem readFormat_separator (separator : Separator) (t : HourMinute) (items rest : List Char)
    (f : Fields) :
    readFormat (separator.render::items) (separator.render::(t.render++rest)) f=
      readFormat items (t.render++rest) f := by
  cases separator with
  | blank =>
    have hskip : (' '::(t.render++rest)).dropWhile isBlank=t.render++rest := by
      rw [List.dropWhile_cons_of_pos (by decide),hourMinute_head]
    rw [Separator.render,readFormat_blank,hskip]
  | letterT => exact readFormat_literal (by decide) (by decide) _ _ _

/-- Hour, minute and second are read behind their own separator, and fractions of a second
are left unread. -/
theorem readFormat_time (separator : Separator) (t : HourMinute) (second : Fin 60)
    (fraction : List (Fin 10)) (rest : List Char) (f : Fields) :
    readFormat (separator.render::timeItems)
      (renderTime (some (separator,.seconds t second fraction))++rest) f=
      some {f with hour := t.hour,minute := t.minute,second := second} := by
  have hsecond := second.isLt
  have hread := readRange_padded (w := 2) (by decide) (by omega) (Nat.zero_le second.val)
    (by omega : second.val≤61) (renderFraction fraction++rest)
  have hseconds (f : Fields) : readFormat [':','%','S']
      (':'::(padded 2 second++(renderFraction fraction++rest))) f=
        some {f with second := second} := by
    rw [readFormat_literal (by decide) (by decide),readFormat_item,readItem,hread]
    rfl
  have hminutes (f : Fields) : readFormat timeItems
      (t.render++(':'::(padded 2 second++(renderFraction fraction++rest)))) f=
        some {f with hour := t.hour,minute := t.minute,second := second} := by
    rw [timeItems,readFormat_minuteItems,hseconds]
  simp only [renderTime,DayTime.render,List.cons_append,List.append_assoc]
  rw [readFormat_separator,hminutes]

/-- A time of day behind one separator is not read by the format with the other one. -/
theorem readFormat_other_none {separator other : Separator} (h : separator≠other) (time : DayTime)
    (rest : List Char) (f : Fields) :
    readFormat (other.render::timeItems) (renderTime (some (separator,time))++rest) f=none := by
  cases separator <;> cases other <;> try exact absurd rfl h
  · simp only [renderTime,Separator.render,List.cons_append]
    exact readFormat_literal_none (by decide) (by decide) (by simp) _ _
  · simp only [renderTime,Separator.render,List.cons_append]
    rw [readFormat_blank,List.dropWhile_cons_of_neg (by decide)]
    exact readFormat_minuteItems_none (by simp) _ _

/-- A time of day without seconds is not read by the formats that ask for them, and the
whole format fails. -/
theorem readFormat_minutes_none (separator other : Separator) (t : HourMinute) {rest : List Char}
    (hrest : rest.head? ≠ some ':') (f : Fields) :
    readFormat (other.render::timeItems) (renderTime (some (separator,.minutes t))++rest) f=none := by
  by_cases h : separator=other
  · rw [←h]
    have hminutes (f : Fields) : readFormat timeItems (t.render++rest) f=none := by
      rw [timeItems,readFormat_minuteItems,readFormat_literal_none (by decide) (by decide) hrest]
    exact (readFormat_separator separator t timeItems rest f).trans (hminutes f)
  · exact readFormat_other_none h _ _ _

/-- Where there is no time of day none is read. -/
theorem readFormat_zone_none (separator : Separator) (zone : Zone) (f : Fields) :
    readFormat (separator.render::timeItems) (renderTime none++leftover zone) f=none := by
  obtain ⟨hdigit,hT,-⟩ := leftover_head zone
  cases separator with
  | blank => exact (readFormat_blank _ _ _).trans (readFormat_minuteItems_none hdigit _ _)
  | letterT => exact readFormat_literal_none (by decide) (by decide) hT _ _

/-- The instant of a day with a time of day, in seconds from the start of that day. -/
theorem instant_date (d : CivilDate) (hour minute second : ℕ) :
    Fields.instant ⟨d.year,d.month,d.day,hour,minute,second,0⟩=
      some (CivilDate.start d+(3600*hour+60*minute+second)) := by
  rw [Fields.instant,if_pos ⟨d.day_pos,d.day_le⟩,CivilDate.start]
  congr 1
  ring

/-- A format that starts with a date reads the day, and what follows by its
other items. -/
theorem parseFormat_date (d : CivilDate) (rest : List Char) {format : String} {items : List Char}
    (h : format.toList=dateItems++items) :
    parseFormat (String.ofList (d.render++rest)) format=
      (readFormat items rest {year := d.year,month := d.month,day := d.day}).bind
        Fields.instant := by
  rw [parseFormat,h,String.toList_ofList,readFormat_dateItems]

/-- What the formats read of a cleaned date text: the day, and the time of
day when it has seconds. -/
theorem findSome?_parseFormat (text : DateText) :
    dateFormats.findSome? (parseFormat (String.ofList (text.core++leftover text.zone)))=
      some (CivilDate.start text.date+readValue text.time) := by
  obtain ⟨hblank,hT,hdate⟩ := toList_timeFormats
  have hday : parseFormat (String.ofList (text.date.render++(renderTime text.time++leftover text.zone)))
      "%Y-%m-%d"=some (CivilDate.start text.date) := by
    rw [parseFormat_date _ _ hdate,readFormat_nil,Option.bind_some,instant_date]
    simp
  rw [DateText.core,List.append_assoc,dateFormats,List.findSome?_cons,List.findSome?_cons,
    List.findSome?_cons,parseFormat_date _ _ hblank,parseFormat_date _ _ hT,hday]
  match htime : text.time with
  | none =>
    have hnone (separator : Separator) := readFormat_zone_none separator text.zone
    simp only [hnone .blank,hnone .letterT,Option.bind_none,readValue,add_zero]
  | some (separator,.minutes t) =>
    have hnone (other : Separator) :=
      readFormat_minutes_none separator other t (leftover_head text.zone).2.2
    simp only [hnone .blank,hnone .letterT,Option.bind_none,readValue,add_zero]
  | some (separator,.seconds t second fraction) =>
    have hvalue : CivilDate.start text.date+(3600*t.hour+60*t.minute+second.val)=
        CivilDate.start text.date+readValue (some (separator,.seconds t second fraction)) := by
      simp only [readValue,DayTime.value,HourMinute.minutes]
      push_cast
      ring
    cases separator with
    | blank => rw [readFormat_time .blank,Option.bind_some,instant_date,hvalue]
    | letterT =>
      have hother : Separator.letterT≠.blank := by decide
      rw [readFormat_other_none hother,readFormat_time .letterT,Option.bind_none,Option.bind_some,
        instant_date,hvalue]

end Parsing

section Epochs

variable {α : Type} [Field α]

/-- `ParseFormat` reads a prefix of the text by each of the formats and gives
exactly its fields. -/
def ParsesPrefixes (env : Env α) : Prop :=
  ∀ text,∀ format∈dateFormats,env.parseFormat text format=parseFormat text format

/-- Units text of a unit and a date text. -/
def unitsText (unit : List Char) (text : DateText) : String :=
  String.ofList (unit++" since ".toList++text.render)

/-- The separator of the units text is not found earlier. -/
def FirstSince (unit : List Char) : Prop :=
  ¬" since ".toList<:+:unit++" since ".toList.dropLast

/-- A valid epoch is the instant that the text denotes. -/
def EpochFaithful (env : Env α) (unit : List Char) (text : DateText) : Prop :=
  (parseCFTimeUnits env (unitsText unit text)).valid=true →
    (parseCFTimeUnits env (unitsText unit text)).baseDateTime=some text.instant

/-- Neither the time of day nor the zone is lost: without seconds the minutes
of the day make up for the offset, otherwise there is no offset. -/
def NothingLost (text : DateText) : Prop :=
  match text.time with
  | some (_,.minutes t) => (t.minutes : ℤ)=text.zone.minutes
  | _ => text.zone.minutes=0

variable {env : Env α} {unit : List Char}

/-- The parsed date of a units text. -/
theorem parseDate_render (henv : ParsesPrefixes env) (text : DateText) :
    parseDate env text.render=some (CivilDate.start text.date+readValue text.time) := by
  have hformats (cleaned : String) : dateFormats.findSome? (env.parseFormat cleaned)=
      dateFormats.findSome? (parseFormat cleaned) :=
    PrioritySearch.findSome?_congr fun format h => henv cleaned format h
  rw [parseDate,cleaned_render,hformats,findSome?_parseFormat]

/-- What `ParseCFTimeUnits` makes of a units text: unit and epoch where the unit is known
and the date parses, and nothing otherwise. -/
theorem parseCFTimeUnits_unitsText (henv : ParsesPrefixes env) (hunit : FirstSince unit)
    (text : DateText) :
    parseCFTimeUnits env (unitsText unit text)=
      match (unitSeconds (unitText env unit) : Option α) with
      | none => ⟨none,0,false⟩
      | some secondsPerUnit =>
        ⟨some (CivilDate.start text.date+readValue text.time),secondsPerUnit,true⟩ := by
  have hsplit : splitAtFirst " since ".toList (unitsText unit text).toList=
      some (unit,text.render) := by
    have hlist : (unitsText unit text).toList=unit++" since ".toList++text.render :=
      String.toList_ofList
    rw [hlist]
    exact splitAtFirst_append (by decide) hunit _
  rw [parseCFTimeUnits_eq env hsplit,parseDate_render henv]
  rfl

/-- The formats read the instant exactly when nothing is lost. -/
theorem readValue_eq_iff (text : DateText) :
    CivilDate.start text.date+readValue text.time=text.instant ↔ NothingLost text := by
  unfold DateText.instant NothingLost
  match text.time with
  | none => simp only [readValue,Option.map_none,Option.getD_none]; omega
  | some (_,.minutes t) =>
    simp only [readValue,Option.map_some,Option.getD_some,DayTime.value]
    omega
  | some (_,.seconds t second fraction) =>
    simp only [readValue,Option.map_some,Option.getD_some]
    omega

/-- The epoch of every units text is the instant that it denotes, unless the
unit is known and something of the time of day or of the zone is lost. Texts
of one instant of which nothing is lost have one epoch. -/
theorem epochFaithful_iff (henv : ParsesPrefixes env) :
    (∀ unit,FirstSince unit → ∀ text,EpochFaithful env unit text ↔
      (unitSeconds (unitText env unit) : Option α)=none ∨ NothingLost text) ∧
    ∀ unit unit',FirstSince unit → FirstSince unit' → ∀ text text',
      NothingLost text → NothingLost text' → text.instant=text'.instant →
      (parseCFTimeUnits env (unitsText unit text)).valid=true →
      (parseCFTimeUnits env (unitsText unit' text')).valid=true →
      (parseCFTimeUnits env (unitsText unit text)).baseDateTime=
        (parseCFTimeUnits env (unitsText unit' text')).baseDateTime := by
  have hfaithful (unit : List Char) (hunit : FirstSince unit) (text : DateText) :
      EpochFaithful env unit text ↔
        (unitSeconds (unitText env unit) : Option α)=none ∨ NothingLost text := by
    unfold EpochFaithful
    rw [parseCFTimeUnits_unitsText henv hunit]
    cases (unitSeconds (unitText env unit) : Option α) with
    | none => simp
    | some secondsPerUnit =>
      simp only [forall_const,reduceCtorEq,false_or,Option.some.injEq]
      exact readValue_eq_iff text
  refine ⟨hfaithful,fun unit unit' hunit hunit' text text' h h' heq hvalid hvalid' => ?_⟩
  have hbase := (hfaithful unit hunit text).mpr (Or.inr h) hvalid
  have hbase' := (hfaithful unit' hunit' text').mpr (Or.inr h') hvalid'
  rw [hbase,hbase',heq]

end Epochs

section Sample

theorem id_zero : id (0 : ℚ)=0 := rfl

/-- An environment that parses dates. -/
def dateEnv : Env ℚ where
  ncOpen _ _ := .error unusableFile
  calloc _ := true
  toFloat := id
  toFloat_zero := id_zero
  sqrt := id
  toLower := Char.toLower
  parseFormat := parseFormat
  getYear _ := 0
  formatHour _ := ""

theorem parsesPrefixes_dateEnv : ParsesPrefixes dateEnv := fun _ _ _ => rfl

/-- The first of January 1950. -/
def newYear1950 : CivilDate := ⟨1950,1,1,by decide,by decide,by decide,by decide,by decide⟩

/-- Half past twelve. -/
def halfPastTwelve : HourMinute := ⟨12,30,by decide,by decide⟩

/-- Two hours. -/
def twoHours : HourMinute := ⟨2,0,by decide,by decide⟩

/-- A time of day without seconds. -/
def withoutSeconds : DateText := ⟨newYear1950,some (.letterT,.minutes halfPastTwelve),.none⟩

/-- A time of day with seconds and an offset. -/
def withOffset : DateText :=
  ⟨newYear1950,some (.blank,.seconds halfPastTwelve 0 []),.offset true false twoHours⟩

/-- The equivalence in an environment whose parsing of dates follows the formats. -/
theorem epochFaithful_iff_dateEnv :
    (∀ unit,FirstSince unit → ∀ text,EpochFaithful dateEnv unit text ↔
      (unitSeconds (unitText dateEnv unit) : Option ℚ)=none ∨ NothingLost text) ∧
    ∀ unit unit',FirstSince unit → FirstSince unit' → ∀ text text',
      NothingLost text → NothingLost text' → text.instant=text'.instant →
      (parseCFTimeUnits dateEnv (unitsText unit text)).valid=true →
      (parseCFTimeUnits dateEnv (unitsText unit' text')).valid=true →
      (parseCFTimeUnits dateEnv (unitsText unit text)).baseDateTime=
        (parseCFTimeUnits dateEnv (unitsText unit' text')).baseDateTime :=
  epochFaithful_iff parsesPrefixes_dateEnv

/-- Half past twelve without seconds is read as midnight, and an offset of two
hours is not subtracted. -/
theorem not_epochFaithful_dateEnv :
    unitsText "hours".toList withoutSeconds="hours since 1950-01-01T12:30" ∧
    unitsText "hours".toList withOffset="hours since 1950-01-01 12:30:00 +02:00" ∧
    FirstSince "hours".toList ∧
    (parseCFTimeUnits dateEnv "hours since 1950-01-01T12:30").baseDateTime=some (-631152000) ∧
    withoutSeconds.instant= -631107000 ∧
    (parseCFTimeUnits dateEnv "hours since 1950-01-01 12:30:00 +02:00").baseDateTime=
      some (-631107000) ∧
    withOffset.instant= -631114200 ∧
    ¬∀ unit,FirstSince unit → ∀ text,EpochFaithful dateEnv unit text := by
  have hfirst : FirstSince "hours".toList := by unfold FirstSince; decide
  refine ⟨by decide +kernel,by decide +kernel,hfirst,by decide +kernel,by decide +kernel,
    by decide +kernel,by decide +kernel,fun h => ?_⟩
  have hbase := h _ hfirst withoutSeconds (by decide +kernel)
  exact absurd hbase (by decide +kernel)

end Sample

end NcdfPlugin.NcdfEpoch
