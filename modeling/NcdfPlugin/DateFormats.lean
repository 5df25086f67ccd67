import Mathlib.Algebra.Ring.Nat
import Mathlib.Data.List.TakeWhile

/-!
# Date formats

A format is a text of items, blanks and literal characters. Reading a text by
a format consumes a prefix: an item reads a number of bounded width, a blank
of the format skips the blanks of the text, and any other character has to
stand for itself. What follows the prefix is not looked at. The fields that
were read denote an instant, in seconds from the start of 1970.
-/

namespace NcdfPlugin.DateFormats

section Numbers

/-- Blanks of ASCII. -/
def isBlank (c : Char) : Bool := c= ' ' || (decide (9 ≤ c.toNat) && decide (c.toNat≤13))

/-- Value of a digit. -/
def digitValue (c : Char) : ℕ := c.toNat-48

/-- Value of a list of digits. -/
def digitsValue (digits : List Char) : ℕ := digits.foldl (fun n c => 10*n+digitValue c) 0

/-- A number in a given number of digits. -/
def padded : ℕ → ℕ → List Char
  | 0,_ => []
  | w+1,n => padded w (n/10)++[Nat.digitChar (n%10)]

/-- Read a number of at most the given number of digits. -/
def readNumber (width : ℕ) (text : List Char) : Option (ℕ×List Char) :=
  let digits := (text.take width).takeWhile Char.isDigit
  if digits=[] then none else some (digitsValue digits,text.drop digits.length)

/-- The ten characters of digits are digits and have the values one expects. -/
theorem digitChar_spec : ∀ d : Fin 10,(Nat.digitChar d).isDigit=true ∧
    digitValue (Nat.digitChar d)=d := by decide

/-- A number padded to a width has exactly that many characters. -/
@[simp] theorem length_padded (w n : ℕ) : (padded w n).length=w := by
  induction w generalizing n with
  | zero => rfl
  | succ w ih => simp [padded,ih]

/-- A padded number consists of digits only, the leading zeros among them. -/
theorem isDigit_padded {w n : ℕ} {c : Char} (h : c∈padded w n) : c.isDigit=true := by
  induction w generalizing n with
  | zero => cases h
  | succ w ih =>
    rcases List.mem_append.mp h with h | h
    · exact ih h
    · rw [List.mem_singleton.mp h]
      exact (digitChar_spec ⟨n%10,Nat.mod_lt _ (by decide)⟩).1

/-- The value of a padded number is the number itself, less what does not fit into the
width. -/
theorem digitsValue_padded (w n : ℕ) : digitsValue (padded w n)=n%10^w := by
  induction w generalizing n with
  | zero => simp [padded,digitsValue,Nat.mod_one]
  | succ w ih =>
    have hdigit := (digitChar_spec ⟨n%10,Nat.mod_lt _ (by decide)⟩).2
    have hsplit : n%10^(w+1)=10*(n/10%10^w)+n%10 := by
      rw [Nat.pow_succ',Nat.mod_mul]
      omega
    have hfold := ih (n/10)
    unfold digitsValue at hfold ⊢
    rw [padded,List.foldl_append,hfold,List.foldl_cons,List.foldl_nil,hdigit,hsplit]

/-- A padded number is read back, whatever follows. -/
theorem readNumber_padded {w n : ℕ} (hw : 0<w) (hn : n<10^w) (rest : List Char) :
    readNumber w (padded w n++rest)=some (n,rest) := by
  have htake : (padded w n++rest).take w=padded w n := by
    rw [List.take_append_of_le_length (by simp)]
    exact List.take_of_length_le (by simp)
  have hdigits : (padded w n).takeWhile Char.isDigit=padded w n :=
    List.takeWhile_eq_self_iff.mpr fun c hc => isDigit_padded hc
  have hne : padded w n≠[] := by
    intro hnil
    have hlen := length_padded w n
    rw [hnil] at hlen
    simp only [List.length_nil] at hlen
    omega
  have hdrop : (padded w n++rest).drop w=rest := by
    rw [List.drop_append_of_le_length (by simp),List.drop_of_length_le (by simp),List.nil_append]
  simp only [readNumber,htake,hdigits,if_neg hne,digitsValue_padded,Nat.mod_eq_of_lt hn,
    length_padded,hdrop]

/-- Where no digit comes next, no number is read. -/
theorem readNumber_none {text : List Char} (h : ∀ c∈text.head?,c.isDigit=false) (width : ℕ) :
    readNumber width text=none := by
  cases text with
  | nil => simp [readNumber]
  | cons c text =>
    have hc : c.isDigit=false := h c rfl
    cases width with
    | zero => simp [readNumber]
    | succ width => simp [readNumber,hc]

end Numbers

section Calendar

/-- Leap years of the Gregorian calendar. -/
def isLeap (year : ℕ) : Bool := decide (year%4=0) && (decide (year%100≠0) || decide (year%400=0))

/-- Number of days of a month. -/
def daysInMonth (year month : ℕ) : ℕ :=
  if month=2 then (if isLeap year=true then 29 else 28)
  else if month=4 ∨ month=6 ∨ month=9 ∨ month=11 then 30
  else 31

/-- Days before a month of a year. -/
def daysBeforeMonth (year month : ℕ) : ℕ :=
  ((List.range (month-1)).map fun k => daysInMonth year (k+1)).sum

/-- Number of a day, counted from the first of 1970. -/
def dayNumber (year month day : ℕ) : ℤ :=
  365*year+(year+3)/4-(year+99)/100+(year+399)/400+daysBeforeMonth year month+day-719529

example : dayNumber 1970 1 1=0 ∧ dayNumber 2000 3 1=11017 := by decide

/-- A date of the calendar. -/
structure CivilDate where
  /-- Year. -/
  year : ℕ
  /-- Month. -/
  month : ℕ
  /-- Day of the month. -/
  day : ℕ
  /-- The year has at most four digits. -/
  year_lt : year<10000
  /-- Months start at one. -/
  month_pos : 1 ≤ month
  /-- There are twelve months. -/
  month_le : month≤12
  /-- Days start at one. -/
  day_pos : 1≤day
  /-- The month has that day. -/
  day_le : day ≤ daysInMonth year month

/-- Hour and minute of a day. -/
structure HourMinute where
  /-- Hour. -/
  hour : ℕ
  /-- Minute. -/
  minute : ℕ
  /-- A day has twenty-four hours. -/
  hour_lt : hour<24
  /-- An hour has sixty minutes. -/
  minute_lt : minute<60

/-- Minutes from the start of the day. -/
def HourMinute.minutes (t : HourMinute) : ℕ := 60*t.hour+t.minute

/-- No month has more than 31 days, so the day of any date fits two digits. -/
theorem daysInMonth_le (year month : ℕ) : daysInMonth year month≤31 := by
  unfold daysInMonth
  split <;> split <;> omega

end Calendar

section Formats

/-- Fields of a date, and the offset of its zone in minutes. -/
structure Fields where
  /-- `%Y`. -/
  year : ℕ := 0
  /-- `%m`. -/
  month : ℕ := 0
  /-- `%d`. -/
  day : ℕ := 0
  /-- `%H`. -/
  hour : ℕ := 0
  /-- `%M`. -/
  minute : ℕ := 0
  /-- `%S`. -/
  second : ℕ := 0
  /-- `%z`. -/
  offset : ℤ := 0

/-- Instant of the fields, when they are a date. -/
def Fields.instant (f : Fields) : Option ℤ :=
  if 1≤f.day ∧ f.day ≤ daysInMonth f.year f.month then
    some (86400*dayNumber f.year f.month f.day+3600*f.hour+60*f.minute+f.second-60*f.offset)
  else none

/-- Read a number in a range. -/
def readRange (width low high : ℕ) (text : List Char) : Option (ℕ×List Char) :=
  (readNumber width text).bind fun r => if low ≤ r.1 ∧ r.1≤high then some r else none

/-- Read the offset of a zone: a sign, hours and minutes with or without a
colon. -/
def readOffset : List Char → Option (ℤ×List Char)
  | [] => none
  | c::text =>
    if c= '+' ∨ c= '-' then
      (readNumber 2 text).bind fun h =>
        (readNumber 2 (if h.2.head? = some ':' then h.2.tail else h.2)).map fun m =>
          ((if c= '-' then -1 else 1)*(60*h.1+m.1),m.2)
    else none

/-- Read one item. -/
def readItem (item : Char) (text : List Char) (f : Fields) : Option (Fields×List Char) :=
  match item with
  | 'Y' => (readNumber 4 text).map fun r => ({f with year := r.1},r.2)
  | 'm' => (readRange 2 1 12 text).map fun r => ({f with month := r.1},r.2)
  | 'd' => (readRange 2 1 31 text).map fun r => ({f with day := r.1},r.2)
  | 'H' => (readRange 2 0 23 text).map fun r => ({f with hour := r.1},r.2)
  | 'M' => (readRange 2 0 59 text).map fun r => ({f with minute := r.1},r.2)
  | 'S' => (readRange 2 0 61 text).map fun r => ({f with second := r.1},r.2)
  | 'z' => (readOffset text).map fun r => ({f with offset := r.1},r.2)
  | _ => none

/-- Read a prefix of a text by a format. -/
def readFormat : List Char → List Char → Fields → Option Fields
  | [],_,f => some f
  | '%'::item::format,text,f => (readItem item text f).bind fun r => readFormat format r.2 r.1
  | c::format,text,f =>
    if isBlank c=true then readFormat format (text.dropWhile isBlank) f
    else if text.head? = some c then readFormat format text.tail f
    else none

/-- Instant of a text by a format. -/
def parseFormat (text format : String) : Option ℤ :=
  (readFormat format.toList text.toList {}).bind Fields.instant

/-- A padded number that is within the range is read back, and reading stops behind it. -/
theorem readRange_padded {w n : ℕ} (hw : 0<w) (hn : n<10^w) {low high : ℕ} (hlow : low≤n)
    (hhigh : n≤high) (rest : List Char) :
    readRange w low high (padded w n++rest)=some (n,rest) := by
  simp [readRange,readNumber_padded hw hn,hlow,hhigh]

/-- Where no digit stands no number is read. -/
theorem readRange_none {text : List Char} (h : ∀ c∈text.head?,c.isDigit=false)
    (w low high : ℕ) : readRange w low high text=none := by
  rw [readRange,readNumber_none h,Option.bind_none]

@[simp] theorem readFormat_nil (text : List Char) (f : Fields) : readFormat [] text f=some f := rfl

@[simp] theorem readFormat_item (item : Char) (format text : List Char) (f : Fields) :
    readFormat ('%'::item::format) text f=
      (readItem item text f).bind fun r => readFormat format r.2 r.1 := by
  simp only [readFormat]

/-- A blank skips the blanks of the text. -/
theorem readFormat_blank (format text : List Char) (f : Fields) :
    readFormat (' '::format) text f=readFormat format (text.dropWhile isBlank) f := by
  simp [readFormat,isBlank]

/-- A literal of the format that stands at the head of the text is skipped, and reading goes
on behind it. -/
theorem readFormat_literal {c : Char} (hblank : isBlank c=false) (hc : c≠ '%')
    (format text : List Char) (f : Fields) :
    readFormat (c::format) (c::text) f=readFormat format text f := by
  rw [readFormat]
  · simp [hblank]
  · exact fun _ _ h => absurd h hc

/-- Reading fails at a literal of the format that does not stand at the head of the text. -/
theorem readFormat_literal_none {c : Char} (hblank : isBlank c=false) (hc : c≠ '%')
    {text : List Char} (h : text.head? ≠ some c) (format : List Char) (f : Fields) :
    readFormat (c::format) text f=none := by
  rw [readFormat]
  · simp [hblank,h]
  · exact fun _ _ h => absurd h hc

end Formats

section Texts

/-- A date as year, month and day. -/
def CivilDate.render (d : CivilDate) : List Char :=
  padded 4 d.year++ '-'::(padded 2 d.month++ '-'::padded 2 d.day)

/-- Items of a date. -/
def dateItems : List Char := ['%','Y','-','%','m','-','%','d']

/-- Items of an hour and a minute. -/
def minuteItems : List Char := ['%','H',':','%','M']

/-- Hour and minute as a text. -/
def HourMinute.render (t : HourMinute) : List Char := padded 2 t.hour++ ':'::padded 2 t.minute

/-- The items of a date read a rendered date back, field by field, and go on behind it. -/
theorem readFormat_dateItems (d : CivilDate) (format rest : List Char) (f : Fields) :
    readFormat (dateItems++format) (d.render++rest) f=
      readFormat format rest {f with year := d.year,month := d.month,day := d.day} := by
  have hday := d.day_le.trans (daysInMonth_le _ _)
  have hyear := d.year_lt
  have hmonth := d.month_le
  have hy := readNumber_padded (w := 4) (by decide) hyear
  have hm := readRange_padded (w := 2) (by decide) (by omega) d.month_pos d.month_le
  have hd := readRange_padded (w := 2) (by decide) (by omega) d.day_pos hday
  simp only [dateItems,CivilDate.render,List.cons_append,List.nil_append,List.append_assoc,
    readFormat_item,readItem,hy,hm,hd,Option.map_some,Option.bind_some,
    readFormat_literal (c := '-') (by decide) (by decide)]

/-- The items of an hour and a minute read both back from their rendering, and go on behind
it. -/
theorem readFormat_minuteItems (t : HourMinute) (format rest : List Char) (f : Fields) :
    readFormat (minuteItems++format) (t.render++rest) f=
      readFormat format rest {f with hour := t.hour,minute := t.minute} := by
  have hhour := t.hour_lt
  have hminute := t.minute_lt
  have hh := readRange_padded (w := 2) (by decide) (by omega) (Nat.zero_le t.hour)
    (by omega : t.hour≤23)
  have hm := readRange_padded (w := 2) (by decide) (by omega) (Nat.zero_le t.minute)
    (by omega : t.minute≤59)
  simp only [minuteItems,HourMinute.render,List.cons_append,List.nil_append,List.append_assoc,
    readFormat_item,readItem,hh,hm,Option.map_some,Option.bind_some,
    readFormat_literal (c := ':') (by decide) (by decide)]

/-- Where the text does not start with a digit no hour is read, and the whole format fails.
-/
theorem readFormat_minuteItems_none {text : List Char} (h : ∀ c∈text.head?,c.isDigit=false)
    (format : List Char) (f : Fields) : readFormat (minuteItems++format) text f=none := by
  simp [minuteItems,readItem,readRange_none h]

end Texts

end NcdfPlugin.DateFormats
