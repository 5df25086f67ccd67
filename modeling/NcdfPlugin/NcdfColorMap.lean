import NcdfPlugin.IncreasingStops
import NcdfPlugin.NcdfOverlay
import Mathlib.Data.Rat.Floor
import Mathlib.Tactic.NormNum

/-!
# Colour maps

Three colour maps blend the stops of a table: the value is clamped at both
ends of the table, and between two stops each channel is a smoothed blend of
theirs, converted to a byte. The maps of sea current and sea temperature
follow their tables everywhere; the map of salinity has a colour of its own
from the last stop on.
-/

namespace NcdfPlugin.NcdfColorMap

open IncreasingStops ExactArithmetic NcdfOverlay

variable {α : Type}

/-- A colour. -/
structure Rgb where
  /-- Red. -/
  red : ℕ
  /-- Green. -/
  green : ℕ
  /-- Blue. -/
  blue : ℕ
  deriving DecidableEq

/-- The three channels of a colour. -/
def channels : List (Rgb → ℕ) := [Rgb.red,Rgb.green,Rgb.blue]

/-- Stops of a colour map. -/
structure ColorTable (α : Type) [LinearOrder α] where
  /-- Stop at the lower end. -/
  first : α×Rgb
  /-- Stops between the ends. -/
  inner : List (α×Rgb)
  /-- Stop at the upper end. -/
  last : α×Rgb
  /-- The positions increase. -/
  increasing : Increasing (first::(inner++[last]))
  /-- The channels are bytes. -/
  bytes : ∀ stop∈first::(inner++[last]),∀ channel∈channels,channel stop.2<256

/-- All stops, in order. -/
def ColorTable.stops [LinearOrder α] (table : ColorTable α) : List (α×Rgb) :=
  table.first::(table.inner++[table.last])

section Maps

variable [Field α] [LinearOrder α] [FloorRing α]

/-- Conversion to `unsigned char`. -/
def unsignedChar (x : α) : ℕ := (truncate x % 256).toNat

/-- A channel between two stops before its conversion. -/
def channelAt (t : α) (low high : ℕ) : α := low+t*(high-low)

/-- Smoothed fraction of a value between two stops. -/
def fractionAt (val : α) (a b : α×Rgb) : α :=
  let range := b.1-a.1
  smoothstep (if 0 < range then (val-a.1)/range else 0)

/-- Colour between two stops. -/
def blendColor (val : α) (a b : α×Rgb) : Rgb :=
  let t := fractionAt val a b
  ⟨unsignedChar (channelAt t a.2.red b.2.red),unsignedChar (channelAt t a.2.green b.2.green),
    unsignedChar (channelAt t a.2.blue b.2.blue)⟩

/-- The loop over the stops, and the colour written after it. -/
def interpolateStops (fallback : Rgb) (val : α) (stops : List (α×Rgb)) : Rgb :=
  match findNeighbours val stops with
  | some (a,b) => blendColor val a b
  | none => fallback

/-- Body of a colour map, with the colour written for the upper end. -/
def graphicColor (table : ColorTable α) (top fallback : Rgb) (val : α) : Rgb :=
  if table.last.1≤val then top
  else if val≤table.first.1 then table.first.2
  else interpolateStops fallback val table.stops

/-- Stops of `GetSeaCurrentGraphicColor`, by speed. -/
def seaCurrentStops : List (α×Rgb) :=
  [(0,⟨20,20,180⟩),(decimal 1 10,⟨30,80,220⟩),(decimal 1 4,⟨0,180,220⟩),(decimal 1 2,⟨0,200,80⟩),
    (decimal 3 4,⟨220,220,20⟩),(1,⟨240,100,20⟩),(decimal 3 2,⟨220,20,20⟩)]

/-- `GetSeaCurrentGraphicColor`. Negative values are clamped first, and the
lower end is tested before the upper one. -/
def seaCurrentColor (val_in : α) : Rgb :=
  let val := max val_in 0
  if val≤0 then ⟨20,20,180⟩
  else if decimal 3 2≤val then ⟨220,20,20⟩
  else interpolateStops ⟨220,20,20⟩ val seaCurrentStops

end Maps

section Tables

variable [Field α] [LinearOrder α] [IsStrictOrderedRing α]

/-- The stops of sea current as a table. -/
def seaCurrentTable : ColorTable α where
  first := (0,⟨20,20,180⟩)
  inner := seaCurrentStops.tail.dropLast
  last := (decimal 3 2,⟨220,20,20⟩)
  increasing := increasing_of_isChain (by
    simp only [seaCurrentStops,List.tail_cons,List.dropLast_cons_cons,List.dropLast_singleton,
      List.cons_append,List.nil_append,List.isChain_cons_cons,List.isChain_singleton,decimal]
    norm_num)
  bytes := by simp [seaCurrentStops,channels]

/-- Stops of `GetSeaTempGraphicColor`. -/
def seaTempTable : ColorTable α where
  first := (-decimal 2 1,⟨0x80,0x00,0xc0⟩)
  inner := [(decimal 2 1,⟨0x40,0x30,0xff⟩),(decimal 7 1,⟨0x00,0x90,0xfa⟩),
    (decimal 12 1,⟨0x00,0xd8,0xb0⟩),(decimal 17 1,⟨0x10,0xbb,0x20⟩),
    (decimal 22 1,⟨0x90,0xd0,0x00⟩),(decimal 26 1,⟨0xf0,0xd0,0x00⟩),
    (decimal 30 1,⟨0xf0,0x70,0x00⟩)]
  last := (decimal 32 1,⟨0xff,0x00,0x00⟩)
  increasing := increasing_of_isChain (by
    simp only [List.cons_append,List.nil_append,List.isChain_cons_cons,List.isChain_singleton,
      decimal]
    norm_num)
  bytes := by simp [channels]

/-- Stops of `GetSalinityGraphicColor`. -/
def salinityTable : ColorTable α where
  first := (decimal 30 1,⟨0x87,0xCE,0xEB⟩)
  inner := [(decimal 31 1,⟨0x60,0xB0,0xE0⟩),(decimal 32 1,⟨0x40,0x90,0xD0⟩),
    (decimal 33 1,⟨0x20,0x70,0xC0⟩),(decimal 34 1,⟨0x10,0x50,0xA0⟩),
    (decimal 35 1,⟨0x00,0x80,0x80⟩),(decimal 355 10,⟨0x20,0xA0,0x70⟩),
    (decimal 36 1,⟨0x40,0xC0,0x60⟩),(decimal 365 10,⟨0x80,0xC0,0x40⟩),
    (decimal 37 1,⟨0xC0,0xB0,0x20⟩),(decimal 375 10,⟨0xE0,0xA0,0x10⟩),
    (decimal 38 1,⟨0xE0,0x70,0x20⟩),(decimal 385 10,⟨0xD0,0x40,0x20⟩)]
  last := (decimal 39 1,⟨0xC0,0x20,0x20⟩)
  increasing := increasing_of_isChain (by
    simp only [List.cons_append,List.nil_append,List.isChain_cons_cons,List.isChain_singleton,
      decimal]
    norm_num)
  bytes := by simp [channels]

variable [FloorRing α]

/-- `GetSeaTempGraphicColor`. -/
def seaTempColor (temp_c : α) : Rgb :=
  graphicColor seaTempTable ⟨0xff,0x00,0x00⟩ ⟨0xff,0x00,0x00⟩ temp_c

/-- `GetSalinityGraphicColor`. The colour for the upper end is not the one of
the last stop. -/
def salinityColor (sal_psu : α) : Rgb :=
  graphicColor salinityTable ⟨0xFF,0x00,0x00⟩ ⟨0xFF,0x00,0x00⟩ sal_psu

/-- Table of a colour function. -/
def tableOf : ColorFunc → ColorTable α
  | .seaCurrent => seaCurrentTable
  | .seaTemp => seaTempTable
  | .salinity => salinityTable

/-- Colour map of a colour function. -/
def colorOf : ColorFunc → α → Rgb
  | .seaCurrent => seaCurrentColor
  | .seaTemp => seaTempColor
  | .salinity => salinityColor

end Tables

section Blends

/-- A value lies between two others, in either order. -/
def Between {β : Type*} [LE β] (x y z : β) : Prop := (x≤z ∧ z≤y) ∨ (y≤z ∧ z≤x)

/-- A value moves toward the second of two others. -/
def Toward (x y z w : ℕ) : Prop := (x≤y → z≤w) ∧ (y≤x → w≤z)

variable [Field α] [LinearOrder α] [FloorRing α]

/-- A colour map follows its table at a value. -/
structure FollowsTable (table : ColorTable α) (color : α → Rgb) (val : α) : Prop where
  /-- Colour at or below the first stop. -/
  below : val≤table.first.1 → color val=table.first.2
  /-- Colour at or above the last stop. -/
  above : table.last.1≤val → color val=table.last.2
  /-- Colour at a stop. -/
  atStop : ∀ stop∈table.stops,val=stop.1 → color val=stop.2
  /-- Between two stops every channel lies between theirs. -/
  between : ∀ a b,(a,b)∈neighbours table.stops → a.1<val → val<b.1 → ∀ channel∈channels,
    Between (channel a.2) (channel b.2) (channel (color val))
  /-- No conversion to a byte wraps. -/
  exact : ∀ a b,(a,b)∈neighbours table.stops → a.1<val → val<b.1 → ∀ channel∈channels,
    (channel (color val) : ℤ)=
      truncate (channelAt (fractionAt val a b) (channel a.2) (channel b.2))
  /-- Between two stops every channel moves toward the second one's. -/
  moves : ∀ a b,(a,b)∈neighbours table.stops → a.1<val → ∀ w,val≤w → w<b.1 →
    ∀ channel∈channels,Toward (channel a.2) (channel b.2) (channel (color val)) (channel (color w))

/-- A colour is given by its three channels. -/
theorem rgb_ext {c d : Rgb} (h : ∀ channel∈channels,channel c=channel d) : c=d := by
  cases c
  cases d
  simpa [channels] using h

omit [FloorRing α] in
/-- The share of a value between two stops is the smoothed one. -/
theorem fractionAt_eq {a b : α×Rgb} (hab : a.1<b.1) (val : α) [IsStrictOrderedRing α] :
    fractionAt val a b=smoothstep ((val-a.1)/(b.1-a.1)) := by
  rw [fractionAt]
  simp only [if_pos (sub_pos.mpr hab)]

/-- Every channel of a blended colour is the byte of the blend of this channel, all by the
same share. -/
theorem channel_blendColor (val : α) (a b : α×Rgb) {channel : Rgb → ℕ} (h : channel∈channels) :
    channel (blendColor val a b)=
      unsignedChar (channelAt (fractionAt val a b) (channel a.2) (channel b.2)) := by
  simp only [channels,List.mem_cons,List.not_mem_nil,or_false] at h
  rcases h with rfl | rfl | rfl <;> rfl

variable [IsStrictOrderedRing α]

omit [FloorRing α] in
/-- Between its stops the fraction lies in the unit interval. -/
theorem fractionAt_bounds {a b : α×Rgb} (hab : a.1<b.1) {val : α} (hlow : a.1≤val)
    (hhigh : val≤b.1) : 0 ≤ fractionAt val a b ∧ fractionAt val a b≤1 := by
  have hrange : 0<b.1-a.1 := sub_pos.mpr hab
  have h0 : 0≤(val-a.1)/(b.1-a.1) := div_nonneg (sub_nonneg.mpr hlow) hrange.le
  have h1 : (val-a.1)/(b.1-a.1)≤1 := (div_le_one hrange).mpr (sub_le_sub_right hhigh _)
  rw [fractionAt_eq hab]
  exact ⟨smoothstep_nonneg h0 h1,smoothstep_le_one h0⟩

omit [FloorRing α] in
/-- The fraction grows with the value. -/
theorem fractionAt_mono {a b : α×Rgb} (hab : a.1<b.1) {val w : α} (hlow : a.1≤val) (hvw : val≤w)
    (hhigh : w≤b.1) : fractionAt val a b ≤ fractionAt w a b := by
  have hrange : 0<b.1-a.1 := sub_pos.mpr hab
  rw [fractionAt_eq hab,fractionAt_eq hab]
  exact smoothstep_mono (div_nonneg (sub_nonneg.mpr hlow) hrange.le)
    ((div_le_div_iff_of_pos_right hrange).mpr (sub_le_sub_right hvw _))
    ((div_le_one hrange).mpr (sub_le_sub_right hhigh _))

omit [FloorRing α] in
/-- At the second stop the fraction is one. -/
theorem fractionAt_stop {a b : α×Rgb} (hab : a.1<b.1) : fractionAt b.1 a b=1 := by
  rw [fractionAt_eq hab,div_self (sub_ne_zero.mpr hab.ne'),smoothstep_one]

omit [FloorRing α] in
/-- A blended channel lies between those of the stops. -/
theorem channelAt_between {t : α} (h0 : 0≤t) (h1 : t≤1) (low high : ℕ) :
    Between (low : α) high (channelAt t low high) := by
  unfold Between channelAt
  rcases le_total low high with h | h
  · have hgap : (0 : α)≤high-low := sub_nonneg.mpr (Nat.cast_le.mpr h)
    have hleft := mul_nonneg h0 hgap
    have hright := mul_le_of_le_one_left hgap h1
    exact Or.inl ⟨by linarith,by linarith⟩
  · have hgap : (0 : α)≤low-high := sub_nonneg.mpr (Nat.cast_le.mpr h)
    have hleft := mul_nonneg h0 hgap
    have hright := mul_le_of_le_one_left hgap h1
    have hneg : t*((high : α)-low)= -(t*(low-high)) := by ring
    exact Or.inr ⟨by rw [hneg]; linarith,by rw [hneg]; linarith⟩

omit [FloorRing α] in
/-- A blended channel moves toward the one of the second stop. -/
theorem channelAt_mono {s t : α} (hst : s≤t) {low high : ℕ} (h : low≤high) :
    channelAt s low high ≤ channelAt t low high :=
  add_le_add_right (mul_le_mul_of_nonneg_right hst (sub_nonneg.mpr (Nat.cast_le.mpr h))) _

omit [FloorRing α] in
/-- A channel that falls from stop to stop falls in between as well. -/
theorem channelAt_anti {s t : α} (hst : s≤t) {low high : ℕ} (h : high≤low) :
    channelAt t low high ≤ channelAt s low high :=
  add_le_add_right (mul_le_mul_of_nonpos_right hst (sub_nonpos.mpr (Nat.cast_le.mpr h))) _

omit [IsStrictOrderedRing α] in
/-- A value in the range of a byte is truncated and does not wrap. -/
theorem unsignedChar_cast {x : α} (h0 : 0≤x) (h : x<((256 : ℤ) : α)) :
    (unsignedChar x : ℤ)=truncate x := by
  have hlow := truncate_nonneg h0
  have hhigh := (truncate_lt_iff h0 256).mpr h
  unfold unsignedChar
  omega

omit [FloorRing α] in
/-- The blend of two bytes by a share between zero and one lies in the range of a byte,
before it is cut to one. -/
theorem channelAt_byte {t : α} (h0 : 0≤t) (h1 : t≤1) {low high : ℕ} (hlow : low<256)
    (hhigh : high<256) :
    0 ≤ channelAt t low high ∧ channelAt t low high<((256 : ℤ) : α) := by
  have hl : (low : α)<((256 : ℤ) : α) := by exact_mod_cast hlow
  have hh : (high : α)<((256 : ℤ) : α) := by exact_mod_cast hhigh
  have hl0 : (0 : α)≤low := Nat.cast_nonneg low
  have hh0 : (0 : α)≤high := Nat.cast_nonneg high
  rcases channelAt_between h0 h1 low high with ⟨h,h'⟩ | ⟨h,h'⟩
  · exact ⟨hl0.trans h,h'.trans_lt hh⟩
  · exact ⟨hh0.trans h,h'.trans_lt hl⟩

/-- Within that range the cast to a byte is the truncation, so nothing wraps. -/
theorem unsignedChar_channelAt {t : α} (h0 : 0≤t) (h1 : t≤1) {low high : ℕ} (hlow : low<256)
    (hhigh : high<256) :
    (unsignedChar (channelAt t low high) : ℤ)=truncate (channelAt t low high) :=
  unsignedChar_cast (channelAt_byte h0 h1 hlow hhigh).1 (channelAt_byte h0 h1 hlow hhigh).2

/-- The byte of a blended channel lies between those of the stops. -/
theorem unsignedChar_between {t : α} (h0 : 0≤t) (h1 : t≤1) {low high : ℕ} (hlow : low<256)
    (hhigh : high<256) : Between low high (unsignedChar (channelAt t low high)) := by
  have heq := unsignedChar_channelAt h0 h1 hlow hhigh
  have hpos := (channelAt_byte h0 h1 hlow hhigh).1
  have hcast (n : ℕ) : truncate (n : α)=n := by exact_mod_cast truncate_intCast (n : ℤ)
  unfold Between
  rcases channelAt_between h0 h1 low high with ⟨h,h'⟩ | ⟨h,h'⟩
  · have hl := truncate_mono (Nat.cast_nonneg low) h
    have hh := truncate_mono hpos h'
    rw [hcast] at hl hh
    omega
  · have hl := truncate_mono (Nat.cast_nonneg high) h
    have hh := truncate_mono hpos h'
    rw [hcast] at hl hh
    omega

/-- The byte of a blended channel moves toward the one of the second stop. -/
theorem unsignedChar_toward {s t : α} (h0 : 0 ≤ s) (hst : s≤t) (h1 : t≤1) {low high : ℕ}
    (hlow : low<256) (hhigh : high<256) :
    Toward low high (unsignedChar (channelAt s low high)) (unsignedChar (channelAt t low high)) := by
  have hs := unsignedChar_channelAt h0 (hst.trans h1) hlow hhigh
  have ht := unsignedChar_channelAt (h0.trans hst) h1 hlow hhigh
  have hs0 := (channelAt_byte h0 (hst.trans h1) hlow hhigh).1
  have ht0 := (channelAt_byte (h0.trans hst) h1 hlow hhigh).1
  refine ⟨fun h => ?_,fun h => ?_⟩
  · have hmono := truncate_mono hs0 (channelAt_mono hst h)
    omega
  · have hmono := truncate_mono ht0 (channelAt_anti hst h)
    omega

/-- At the second stop the blend is its colour. -/
theorem blendColor_stop {a b : α×Rgb} (hab : a.1<b.1) (hbytes : ∀ channel∈channels,channel b.2<256) :
    blendColor b.1 a b=b.2 := by
  refine rgb_ext fun channel h => ?_
  have hone : channelAt (1 : α) (channel a.2) (channel b.2)=((channel b.2 : ℤ) : α) := by
    unfold channelAt
    push_cast
    ring
  have hbyte := hbytes channel h
  rw [channel_blendColor _ _ _ h,fractionAt_stop hab,hone]
  unfold unsignedChar
  rw [truncate_intCast]
  omega

end Blends

section Following

variable [Field α] [LinearOrder α] [IsStrictOrderedRing α] [FloorRing α]
variable (table : ColorTable α) (top fallback : Rgb)

omit [FloorRing α] [IsStrictOrderedRing α] [Field α] in
/-- A table with increasing stops starts below its end. -/
theorem first_lt_last : table.first.1<table.last.1 :=
  List.rel_of_pairwise_cons table.increasing (by simp)

omit [FloorRing α] [IsStrictOrderedRing α] [Field α] in
/-- Every stop lies between the ends. -/
theorem stop_bounds {stop : α×Rgb} (h : stop∈table.stops) :
    table.first.1 ≤ stop.1 ∧ stop.1≤table.last.1 := by
  have hinc := table.increasing
  simp only [ColorTable.stops,List.mem_cons,List.mem_append,List.not_mem_nil,or_false] at h
  rcases h with rfl | h | rfl
  · exact ⟨le_rfl,(first_lt_last table).le⟩
  · refine ⟨(List.rel_of_pairwise_cons hinc (List.mem_append_left _ h)).le,?_⟩
    have hrest := (List.pairwise_append.mp (List.Pairwise.of_cons hinc)).2.2
    exact (hrest _ h _ List.mem_cons_self).le
  · exact ⟨(first_lt_last table).le,le_rfl⟩

omit [IsStrictOrderedRing α] in
/-- Inside the table a colour map blends the two stops around the value. -/
theorem graphicColor_eq {a b : α×Rgb} (h : (a,b)∈neighbours table.stops) {val : α} (hlow : a.1<val)
    (hhigh : val≤b.1) (hlast : val<table.last.1) :
    graphicColor table top fallback val=blendColor val a b := by
  have hfirst : table.first.1<val :=
    (stop_bounds table (mem_of_neighbours h).1).1.trans_lt hlow
  have hfound : findNeighbours val table.stops=some (a,b) :=
    findNeighbours_eq table.increasing h hlow hhigh
  rw [graphicColor,if_neg (not_le.mpr hlast),if_neg (not_le.mpr hfirst),interpolateStops,hfound]

omit [IsStrictOrderedRing α] in
/-- Below the table stands the colour of its first stop. -/
theorem graphicColor_first {val : α} (hle : val≤table.first.1) :
    graphicColor table top fallback val=table.first.2 := by
  rw [graphicColor,if_neg (not_le.mpr (hle.trans_lt (first_lt_last table))),if_pos hle]

omit [IsStrictOrderedRing α] in
/-- Above the table stands the colour of its last stop, where the overlay has the same
colour on top. -/
theorem graphicColor_last {val : α} (htop : top=table.last.2) (hle : table.last.1≤val) :
    graphicColor table top fallback val=table.last.2 := by
  rw [graphicColor,if_pos hle,htop]

omit [Field α] [IsStrictOrderedRing α] [FloorRing α] in
/-- Only the last stop lies at the upper end. -/
theorem eq_last_of_le {stop : α×Rgb} (h : stop∈table.stops) (hle : table.last.1 ≤ stop.1) :
    stop=table.last := by
  rcases List.mem_cons.mp h with rfl | h
  · exact absurd hle (not_le.mpr (first_lt_last table))
  · rcases List.mem_append.mp h with hinner | hlast
    · have hapart := (List.pairwise_append.mp (List.Pairwise.of_cons table.increasing)).2.2
      exact absurd hle (not_le.mpr (hapart _ hinner _ List.mem_cons_self))
    · exact List.mem_singleton.mp hlast

/-- At a stop a colour map has its colour. -/
theorem graphicColor_stop {stop : α×Rgb} (h : stop∈table.stops)
    (htop : table.last.1 ≤ stop.1 → top=table.last.2) :
    graphicColor table top fallback stop.1=stop.2 := by
  rcases List.mem_cons.mp h with rfl | hrest
  · exact graphicColor_first table top fallback le_rfl
  rcases le_or_gt table.last.1 stop.1 with hle | hlt
  · rw [graphicColor_last table top fallback (htop hle) hle,eq_last_of_le table h hle]
  · obtain ⟨a,ha,-⟩ := findNeighbours_stop table.increasing hrest
    have hab := table.increasing.neighbours_lt ha
    rw [graphicColor_eq table top fallback ha hab le_rfl hlt]
    exact blendColor_stop hab (table.bytes _ h)

variable {table}

omit [Field α] [IsStrictOrderedRing α] [FloorRing α] in
/-- Channels of neighbouring stops are bytes. -/
theorem neighbours_bytes {a b : α×Rgb} (h : (a,b)∈neighbours table.stops) {channel : Rgb → ℕ}
    (hc : channel∈channels) : channel a.2<256 ∧ channel b.2<256 :=
  ⟨table.bytes _ (mem_of_neighbours h).1 _ hc,table.bytes _ (mem_of_neighbours h).2 _ hc⟩

omit [IsStrictOrderedRing α] in
/-- Between two neighbouring stops of the table every channel of the colour is the byte of
the blend of their channels. -/
theorem channel_graphicColor {a b : α×Rgb} (h : (a,b)∈neighbours table.stops) {val : α}
    (hlow : a.1<val) (hhigh : val<b.1) {channel : Rgb → ℕ} (hc : channel∈channels) :
    channel (graphicColor table top fallback val)=
      unsignedChar (channelAt (fractionAt val a b) (channel a.2) (channel b.2)) := by
  have hlast : val<table.last.1 := hhigh.trans_le (stop_bounds table (mem_of_neighbours h).2).2
  rw [graphicColor_eq table top fallback h hlow hhigh.le hlast,channel_blendColor _ _ _ hc]

omit [FloorRing α] in
/-- Between neighbouring stops the fraction lies in the unit interval. -/
theorem fractionAt_inside {a b : α×Rgb} (h : (a,b)∈neighbours table.stops) {val : α}
    (hlow : a.1<val) (hhigh : val<b.1) : 0 ≤ fractionAt val a b ∧ fractionAt val a b≤1 :=
  fractionAt_bounds (table.increasing.neighbours_lt h) hlow.le hhigh.le

/-- Where the colour for the upper end is not used, or is the one of the last
stop, a colour map follows its table. -/
theorem followsTable_graphicColor {val : α} (htop : table.last.1≤val → top=table.last.2) :
    FollowsTable table (graphicColor table top fallback) val := by
  constructor
  · exact fun hle => graphicColor_first table top fallback hle
  · exact fun hle => graphicColor_last table top fallback (htop hle) hle
  · rintro stop hstop rfl
    exact graphicColor_stop table top fallback hstop htop
  · intro a b h hlow hhigh channel hc
    obtain ⟨h0,h1⟩ := fractionAt_inside h hlow hhigh
    obtain ⟨ha,hb⟩ := neighbours_bytes h hc
    rw [channel_graphicColor top fallback h hlow hhigh hc]
    exact unsignedChar_between h0 h1 ha hb
  · intro a b h hlow hhigh channel hc
    obtain ⟨h0,h1⟩ := fractionAt_inside h hlow hhigh
    obtain ⟨ha,hb⟩ := neighbours_bytes h hc
    rw [channel_graphicColor top fallback h hlow hhigh hc]
    exact unsignedChar_channelAt h0 h1 ha hb
  · intro a b h hlow w hvw hhigh channel hc
    have hbelow : val<b.1 := hvw.trans_lt hhigh
    have habove : a.1<w := hlow.trans_le hvw
    obtain ⟨ha,hb⟩ := neighbours_bytes h hc
    have hmono : fractionAt val a b ≤ fractionAt w a b :=
      fractionAt_mono (table.increasing.neighbours_lt h) hlow.le hvw hhigh.le
    rw [channel_graphicColor top fallback h hlow hbelow hc,
      channel_graphicColor top fallback h habove hhigh hc]
    exact unsignedChar_toward (fractionAt_inside h hlow hbelow).1 hmono
      (fractionAt_inside h habove hhigh).2 ha hb

end Following

section ColorMaps

variable [Field α] [LinearOrder α] [IsStrictOrderedRing α] [FloorRing α]

/-- The colour map of sea current has the common body: clamping at zero first
changes nothing, as the first stop is there. -/
theorem seaCurrentColor_eq (val_in : α) :
    seaCurrentColor val_in=graphicColor seaCurrentTable ⟨220,20,20⟩ ⟨220,20,20⟩ val_in := by
  have hlast : (0 : α)<decimal 3 2 := first_lt_last seaCurrentTable
  have hbody : graphicColor seaCurrentTable ⟨220,20,20⟩ ⟨220,20,20⟩ val_in=
      if decimal 3 2≤val_in then ⟨220,20,20⟩
      else if val_in≤0 then ⟨20,20,180⟩
      else interpolateStops ⟨220,20,20⟩ val_in seaCurrentStops := rfl
  rw [hbody,seaCurrentColor]
  rcases le_or_gt val_in 0 with h | h
  · rw [max_eq_right h,if_pos le_rfl,if_neg (not_le.mpr (h.trans_lt hlast)),if_pos h]
  · rw [max_eq_left h.le,if_neg (not_le.mpr h),if_neg (not_le.mpr h)]

/-- A colour map follows its table, unless it is the one of salinity and the
value lies at the last stop or above. -/
theorem followsTable_iff (func : ColorFunc) (val : α) :
    FollowsTable (tableOf func) (colorOf func) val ↔ ¬(func=.salinity ∧ decimal 39 1≤val) := by
  constructor
  · rintro h ⟨rfl,hval⟩
    have hcolor : colorOf .salinity val=⟨0xFF,0x00,0x00⟩ := if_pos hval
    have hstop := h.above hval
    rw [hcolor] at hstop
    exact absurd hstop (by simp [tableOf,salinityTable])
  · intro h
    cases func with
    | seaCurrent =>
      have hmap : colorOf (α := α) .seaCurrent=
          graphicColor seaCurrentTable ⟨220,20,20⟩ ⟨220,20,20⟩ := funext seaCurrentColor_eq
      rw [hmap]
      exact followsTable_graphicColor _ _ fun _ => rfl
    | seaTemp => exact followsTable_graphicColor _ _ fun _ => rfl
    | salinity => exact followsTable_graphicColor _ _ fun hval => absurd ⟨rfl,hval⟩ h

/-- At a salinity of thirty-five. -/
theorem followsTable_thirtyFive :
    FollowsTable (tableOf .salinity) (colorOf .salinity) (35 : ℚ) :=
  (followsTable_iff .salinity 35).mpr fun h => absurd h.2 (by simp only [decimal]; norm_num)

/-- At a salinity of thirty-nine the colour is a pure red, and the one of the
last stop is darker. -/
theorem not_followsTable_salinity :
    colorOf .salinity (39 : ℚ)=⟨255,0,0⟩ ∧ (tableOf (α := ℚ) .salinity).last=(39,⟨192,32,32⟩) ∧
    ¬∀ (func : ColorFunc) (val : ℚ),FollowsTable (tableOf func) (colorOf func) val := by
  have hlast : (tableOf (α := ℚ) .salinity).last=(39,⟨192,32,32⟩) := by
    simp [tableOf,salinityTable,decimal]
  have htop : (tableOf (α := ℚ) .salinity).last.1≤39 := by rw [hlast]
  have hcolor : colorOf .salinity (39 : ℚ)=⟨255,0,0⟩ := if_pos htop
  refine ⟨hcolor,hlast,fun h => ?_⟩
  have hstop := (h .salinity 39).above htop
  rw [hcolor,hlast] at hstop
  exact absurd hstop (by decide)

end ColorMaps

end NcdfPlugin.NcdfColorMap
