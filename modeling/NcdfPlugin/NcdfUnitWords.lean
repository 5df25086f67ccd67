import NcdfPlugin.NcdfEpoch

/-!
# Unit words

A full unit word is recognised wherever it occurs in the unit text, an
abbreviation only when it is the whole text. So every recognised text is a
spelling of its unit exactly when nothing stands around a full word but
leading blanks and a plural ending.
-/

namespace NcdfPlugin.NcdfUnitWords

open NcdfLibrary NcdfTimeUnits NcdfEpoch DateFormats

variable {α : Type}

/-- A unit of time with the words for it. -/
structure TimeUnit where
  /-- The full word. -/
  word : List Char
  /-- Abbreviations. -/
  short : List (List Char)
  /-- Length in seconds. -/
  seconds : ℕ

/-- The supported units, in the order in which they are tried. -/
def timeUnits : List TimeUnit :=
  [⟨"second".toList,["secs".toList,"sec".toList,"s".toList],1⟩,
    ⟨"minute".toList,["mins".toList,"min".toList],60⟩,
    ⟨"hour".toList,["hrs".toList,"hr".toList,"h".toList],3600⟩,⟨"day".toList,["d".toList],86400⟩]

/-- Spellings of a unit: the word, its plural and the abbreviations. -/
def TimeUnit.spellings (u : TimeUnit) : List (List Char) := u.word::(u.word++['s'])::u.short

/-- The text before the separator, lower-case, without blanks at its right
end. -/
def lowered [Zero α] (env : Env α) (before : List Char) : List Char :=
  (trimRight before).map env.toLower

/-- The text before the separator, trimmed at both ends and lower-case. -/
def unitWord [Zero α] (env : Env α) (before : List Char) : List Char :=
  (lowered env before).dropWhile isBlank

/-- How the code recognises a unit. -/
def Recognises (text : List Char) (u : TimeUnit) : Prop := u.word<:+:text ∨ text∈u.short

instance (text : List Char) : DecidablePred (Recognises text) :=
  fun _ => inferInstanceAs (Decidable (_ ∨ _))

/-- Around a full word there are only blanks before it and a plural ending
after it. -/
def OnlyPlural (text : List Char) : Prop :=
  ∀ u∈timeUnits,∀ left right,text=left++u.word++right →
    (∀ c∈left,isBlank c=true) ∧ (right=[] ∨ right=['s'])

section Words

/-- No name of a unit starts with a blank. -/
theorem word_head : ∀ u∈timeUnits,∀ c∈u.word.head?,isBlank c=false := by
  simp [timeUnits,isBlank]

/-- No name of a unit is empty. -/
theorem word_ne_nil : ∀ u∈timeUnits,u.word≠[] := by decide

/-- No short name of a unit starts with a blank. -/
theorem short_head : ∀ u∈timeUnits,∀ text∈u.short,text.dropWhile isBlank=text := by decide

/-- In a spelling a full word comes first, and only a plural ending follows. -/
theorem word_in_spelling : ∀ u∈timeUnits,∀ u'∈timeUnits,∀ word∈u'.spellings,
    ∀ k∈List.range (word.length+1),u.word<+:word.drop k →
      k=0 ∧ (word.drop u.word.length=[] ∨ word.drop u.word.length=['s']) := by
  decide +kernel

/-- Leading blanks are dropped, and nothing else. -/
theorem dropWhile_blank {left rest : List Char} (hleft : ∀ c∈left,isBlank c=true)
    (hrest : ∀ c∈rest.head?,isBlank c=false) : (left++rest).dropWhile isBlank=rest := by
  rw [List.dropWhile_append_of_pos hleft]
  cases rest with
  | nil => rfl
  | cons c rest => exact List.dropWhile_cons_of_neg (by simp [hrest c rfl])

/-- A recognised text around which only blanks and a plural ending stand is a
spelling of its unit. -/
theorem spelling_of_recognises {text : List Char} (h : OnlyPlural text) {u : TimeUnit}
    (hu : u∈timeUnits) (hrec : Recognises text u) : text.dropWhile isBlank∈u.spellings := by
  rcases hrec with ⟨left,right,rfl⟩ | hshort
  · obtain ⟨hleft,hright⟩ := h u hu left right rfl
    have hhead : ∀ c∈(u.word++right).head?,isBlank c=false := by
      obtain ⟨c,word,hword⟩ := List.exists_cons_of_ne_nil (word_ne_nil u hu)
      have hc := word_head u hu
      rw [hword] at hc ⊢
      exact hc
    rw [List.append_assoc,dropWhile_blank hleft hhead]
    rcases hright with rfl | rfl <;> simp [TimeUnit.spellings]
  · rw [short_head u hu text hshort]
    exact List.mem_cons_of_mem _ (List.mem_cons_of_mem _ hshort)

/-- Around a full word in a spelling, blanks before it not counted, there is
only a plural ending. -/
theorem onlyPlural_of_spelling {text : List Char} {u' : TimeUnit} (hu' : u'∈timeUnits)
    (h : text.dropWhile isBlank∈u'.spellings) : OnlyPlural text := by
  intro u hu left right htext
  have hblanks : ∀ c∈text.takeWhile isBlank,isBlank c=true := fun c hc => List.mem_takeWhile_imp hc
  have hsplit : left++(u.word++right)=text.takeWhile isBlank++text.dropWhile isBlank := by
    rw [List.takeWhile_append_dropWhile,htext,List.append_assoc]
  rcases List.append_eq_append_iff.mp hsplit with ⟨front,hfront,hword⟩ | ⟨front,hfront,hword⟩
  · -- the word would begin among the blanks
    have hnil : front=[] := by
      by_contra hne
      obtain ⟨c,front,rfl⟩ := List.exists_cons_of_ne_nil hne
      obtain ⟨c',word,hcons⟩ := List.exists_cons_of_ne_nil (word_ne_nil u hu)
      have hc' := word_head u hu c' (by rw [hcons]; rfl)
      rw [hcons,List.cons_append,List.cons_append] at hword
      have hcc : c'=c := (List.cons.inj hword).1
      have hc := hblanks c (by rw [hfront]; simp)
      rw [hcc,hc] at hc'
      cases hc'
    rw [hnil,List.nil_append] at hword
    rw [hnil,List.append_nil] at hfront
    have hspelling := word_in_spelling u hu u' hu' _ h 0 (by simp)
      (by rw [List.drop_zero,←hword]; exact List.prefix_append _ _)
    rw [←hword,List.drop_left] at hspelling
    exact ⟨fun c hc => hblanks c (hfront ▸ hc),hspelling.2⟩
  · have hlength : front.length∈List.range ((text.dropWhile isBlank).length+1) := by
      rw [List.mem_range,hword,List.length_append]
      omega
    have hspelling := word_in_spelling u hu u' hu' _ h front.length hlength
      (by rw [hword,List.drop_left]; exact List.prefix_append _ _)
    have hnil : front=[] := List.length_eq_zero_iff.mp hspelling.1
    rw [hnil,List.nil_append] at hword
    rw [hnil,List.append_nil] at hfront
    rw [hword,List.drop_left] at hspelling
    exact ⟨fun c hc => hblanks c (hfront ▸ hc),hspelling.2⟩

end Words

section Units

variable [Field α]

/-- The code tries the units in order and takes the seconds of the first one that it
recognises. -/
theorem unitSeconds_eq (text : List Char) :
    (unitSeconds (String.ofList text) : Option α)=
      (timeUnits.find? fun u => decide (Recognises text u)).map fun u => (u.seconds : α) := by
  have hword (s : String) : String.ofList text=s ↔ text=s.toList := by
    constructor
    · rintro rfl
      exact String.toList_ofList.symm
    · rintro rfl
      exact String.ofList_toList
  have hrec (u : TimeUnit) (rest : List TimeUnit) (seconds : α) (others : Option α)
      (hseconds : (u.seconds : α)=seconds)
      (hrest : others=(rest.find? fun u => decide (Recognises text u)).map fun u => (u.seconds : α)) :
      (if Recognises text u then some seconds else others)=
        ((u::rest).find? fun u => decide (Recognises text u)).map fun u => (u.seconds : α) := by
    by_cases h : Recognises text u
    · simp [h,hseconds]
    · simp [h,hrest]
  have hcode : (unitSeconds (String.ofList text) : Option α)=
      if Recognises text ⟨"second".toList,["secs".toList,"sec".toList,"s".toList],1⟩ then some 1
      else if Recognises text ⟨"minute".toList,["mins".toList,"min".toList],60⟩ then some 60
      else if Recognises text ⟨"hour".toList,["hrs".toList,"hr".toList,"h".toList],3600⟩ then
        some 3600
      else if Recognises text ⟨"day".toList,["d".toList],86400⟩ then some 86400
      else none := by
    simp only [unitSeconds,strstr,String.toList_ofList,hword,decide_eq_true_eq,Recognises,
      List.mem_cons,List.not_mem_nil,or_false]
  rw [hcode]
  exact hrec _ _ _ _ (by norm_num) (hrec _ _ _ _ (by norm_num) (hrec _ _ _ _ (by norm_num)
    (hrec _ _ _ _ (by norm_num) rfl)))

variable {unitsStr : String}

/-- A valid unit text is a spelling of its unit, and the unit has its length in
seconds. -/
def UnitExact (env : Env α) (unitsStr : String) : Prop :=
  (parseCFTimeUnits env unitsStr).valid=true →
    ∃ before after,splitAtFirst " since ".toList unitsStr.toList=some (before,after) ∧
      ∃ u∈timeUnits,unitWord env before∈u.spellings ∧
        (parseCFTimeUnits env unitsStr).secondsPerUnit=u.seconds

/-- Either no unit is recognised and the result is invalid, or the result has
the seconds of a unit that is recognised and the epoch of the date. -/
theorem parseCFTimeUnits_cases (env : Env α) {before after : List Char}
    (h : splitAtFirst " since ".toList unitsStr.toList=some (before,after)) :
    ((∀ u∈timeUnits,¬Recognises (lowered env before) u) ∧
      parseCFTimeUnits env unitsStr=⟨none,0,false⟩) ∨
    ∃ u∈timeUnits,Recognises (lowered env before) u ∧
      parseCFTimeUnits env unitsStr=
        ⟨parseDate env after,u.seconds,(parseDate env after).isSome⟩ := by
  have hunit : (unitSeconds (unitText env before) : Option α)=_ := unitSeconds_eq (lowered env before)
  rw [parseCFTimeUnits_eq env h,hunit]
  cases hfind : timeUnits.find? fun u => decide (Recognises (lowered env before) u) with
  | none => exact Or.inl ⟨by simpa using List.find?_eq_none.mp hfind,rfl⟩
  | some u =>
    exact Or.inr ⟨u,List.mem_of_find?_eq_some hfind,by simpa using List.find?_some hfind,rfl⟩

/-- Exactly the supported units are accepted, unless the date is readable and
something else stands around a full unit word. -/
theorem unitExact_iff (env : Env α) (unitsStr : String) :
    UnitExact env unitsStr ↔ ∀ before after,
      splitAtFirst " since ".toList unitsStr.toList=some (before,after) →
      (parseDate env after).isSome=true → OnlyPlural (lowered env before) := by
  constructor
  · intro hexact before after hsplit hdate u hu left right htext
    have hvalid : (parseCFTimeUnits env unitsStr).valid=true := by
      rcases parseCFTimeUnits_cases env hsplit with ⟨hnone,-⟩ | ⟨_,-,-,heq⟩
      · exact absurd (Or.inl ⟨left,right,htext.symm⟩) (hnone u hu)
      · rw [heq]
        exact hdate
    obtain ⟨before',after',hsplit',u',hu',hword,-⟩ := hexact hvalid
    rw [hsplit] at hsplit'
    cases hsplit'
    exact onlyPlural_of_spelling hu' hword u hu left right htext
  · intro hplural hvalid
    cases hsplit : splitAtFirst " since ".toList unitsStr.toList with
    | none => rw [parseCFTimeUnits_none env hsplit] at hvalid; cases hvalid
    | some parts =>
      obtain ⟨before,after⟩ := parts
      rcases parseCFTimeUnits_cases env hsplit with ⟨-,heq⟩ | ⟨u,hu,hrec,heq⟩
      · rw [heq] at hvalid
        cases hvalid
      · rw [heq] at hvalid ⊢
        have hword := spelling_of_recognises (hplural before after hsplit hvalid) hu hrec
        exact ⟨before,after,rfl,u,hu,hword,rfl⟩

end Units

/-- A text that counts in thousandths of a second is accepted, and counted in seconds. -/
theorem not_unitExact_milliseconds :
    (parseCFTimeUnits dateEnv "milliseconds since 1970-01-01").valid=true ∧
    (parseCFTimeUnits dateEnv "milliseconds since 1970-01-01").secondsPerUnit=1 ∧
    ¬∀ unitsStr,UnitExact dateEnv unitsStr := by
  have hvalid : (parseCFTimeUnits dateEnv "milliseconds since 1970-01-01").valid=true := by
    decide +kernel
  refine ⟨hvalid,by decide +kernel,fun h => ?_⟩
  obtain ⟨before,after,hsplit,u,hu,hword,-⟩ := h _ hvalid
  have hbefore : splitAtFirst " since ".toList "milliseconds since 1970-01-01".toList=
      some ("milliseconds".toList,"1970-01-01".toList) := by decide +kernel
  rw [hbefore] at hsplit
  cases hsplit
  have hnone : ∀ u∈timeUnits,unitWord dateEnv "milliseconds".toList∉u.spellings := by decide +kernel
  exact hnone u hu hword

end NcdfPlugin.NcdfUnitWords
