import NcdfPlugin.SplittingStack
import NcdfPlugin.ExactArithmetic
import Mathlib.Algebra.Order.Archimedean.Basic
import Mathlib.Data.List.Chain
import Mathlib.Data.Rat.Floor
import Mathlib.Tactic.LinearCombination

/-!
# The spline through an isoline

The points of a chain control a curve of quadratic arcs between the midpoints
of its segments. Each arc is halved on a stack of twenty entries until it is
flat, and the starts and middles of the flat parts are emitted. The emitted
points lie on the curve in order and leave no gap of five pixels. The stack is
deep enough exactly for arcs whose points are less than 5242880 pixels apart.
-/

namespace NcdfPlugin.NcdfSpline

open SplittingStack
open ExactArithmetic (truncate truncate_intCast abs_truncate_sub_lt)

section Program

variable {α : Type} [Field α]

/-- `half`. -/
def half (z1 z2 : α) : α := (z1+z2)/(2 : ℕ)

/-- Half of a sum in the usual notation. -/
theorem half_eq (z1 z2 : α) : half z1 z2=(z1+z2)/2 := by rw [half,Nat.cast_ofNat]

/-- One coordinate of the four points of a stack entry. -/
structure Controls (α : Type) where
  /-- First point. -/
  p1 : α
  /-- Second point. -/
  p2 : α
  /-- Third point. -/
  p3 : α
  /-- Fourth point. -/
  p4 : α
  deriving DecidableEq

/-- `xmid` or `ymid`. -/
def Controls.mid (c : Controls α) : α := half c.p2 c.p3

/-- Entry that is pushed last. -/
def Controls.left (c : Controls α) : Controls α := ⟨c.p1,half c.p1 c.p2,half c.p2 c.mid,c.mid⟩

/-- Entry that is pushed first. -/
def Controls.right (c : Controls α) : Controls α := ⟨c.mid,half c.mid c.p3,half c.p3 c.p4,c.p4⟩

/-- `Stack`: an entry of the stack. -/
structure Entry (α : Type) where
  /-- The x coordinates. -/
  x : Controls α
  /-- The y coordinates. -/
  y : Controls α
  deriving DecidableEq

/-- `SPLINE_STACK_DEPTH`. -/
def splineStackDepth : ℕ := 20

variable [LinearOrder α]

/-- `THRESHOLD`. -/
def threshold : α := (5 : ℕ)

/-- Both halves are short in one coordinate. -/
def Controls.Short (c : Controls α) : Prop := |c.p1-c.mid|<threshold ∧ |c.mid-c.p4|<threshold

instance (c : Controls α) : Decidable c.Short := inferInstanceAs (Decidable (_ ∧ _))

/-- What the loop does with an entry: none when it is flat, else its halves. -/
def splineRule (e : Entry α) : Option (Entry α×Entry α) :=
  if e.x.Short ∧ e.y.Short then none else some (⟨e.x.left,e.y.left⟩,⟨e.x.right,e.y.right⟩)

variable [FloorRing α]

/-- `ocpn_wx_spline_add_point`. -/
def addPoint (x y : α) : List (ℤ×ℤ) := [(truncate x,truncate y)]

/-- The two points of a flat entry. -/
def splineEmit (e : Entry α) : List (ℤ×ℤ) := addPoint e.x.p1 e.y.p1++addPoint e.x.mid e.y.mid

/-- `ocpn_wx_quadratic_spline`, after the points that are already listed. -/
def quadraticSpline (fuel : ℕ) (e : Entry α) (out : List (ℤ×ℤ)) : Outcome (ℤ×ℤ) :=
  drain splineStackDepth splineRule splineEmit fuel [e] out

/-- Entry of a turn of `GenSpline`: from `c1` around the point x1 to `c4`. -/
def turnControls (c1 c2 x1 x2 : α) : Controls α :=
  let c4 := half x1 x2
  ⟨c1,c2,half x1 c4,c4⟩

/-- The loop of `GenSpline`. `c1` is the end of the last arc and `c2` half way
from there to the last point. -/
def splineLoop (fuel : ℕ) (c1 c2 last : α×α) : List (ℤ×ℤ) → List (ℤ×ℤ) → Outcome (ℤ×ℤ)
  | [],out => .done (out++addPoint c1.1 c1.2++addPoint last.1 last.2)
  | p::rest,out =>
    let next : α×α := (p.1,p.2)
    let entry : Entry α := ⟨turnControls c1.1 c2.1 last.1 next.1,turnControls c1.2 c2.2 last.2 next.2⟩
    match quadraticSpline fuel entry out with
    | .done out' =>
      let end1 := (entry.x.p4,entry.y.p4)
      splineLoop fuel end1 (half end1.1 next.1,half end1.2 next.2) next rest out'
    | .overrun => .overrun
    | .unfinished => .unfinished

/-- `GenSpline`: none where the second point of the list is missing. -/
def genSpline (α : Type) [Field α] [LinearOrder α] [FloorRing α] (fuel : ℕ) :
    List (ℤ×ℤ) → Option (Outcome (ℤ×ℤ))
  | [] => some (.done [])
  | [_] => none
  | p1::p2::rest =>
    let x1 : α×α := (p1.1,p1.2)
    let x2 : α×α := (p2.1,p2.2)
    let c1 := (half x1.1 x2.1,half x1.2 x2.2)
    some (splineLoop fuel c1 (half c1.1 x2.1,half c1.2 x2.2) x2 rest (addPoint x1.1 x1.2))

end Program

section Curve

variable {α : Type} [Field α]

/-- The control point of an arc. -/
def Controls.control (c : Controls α) : α := (2 : ℕ)*c.p2-c.p1

/-- Both inner points lie half way to the same control point. -/
def Controls.Balanced (c : Controls α) : Prop := (2 : ℕ)*c.p2-c.p1=(2 : ℕ)*c.p3-c.p4

/-- Point of an arc. -/
def Controls.at (c : Controls α) (t : α) : α :=
  (1-t)*(1-t)*c.p1+(2 : ℕ)*t*(1-t)*c.control+t*t*c.p4

/-- Arc around a point, from half way before it to half way behind it. -/
def arcControls (before here after : α) : Controls α :=
  ⟨half before here,half (half before here) here,half here (half here after),half here after⟩

/-- Arc around a point of a chain. -/
def arcEntry (α : Type) [Field α] (p q r : ℤ×ℤ) : Entry α :=
  ⟨arcControls p.1 q.1 r.1,arcControls p.2 q.2 r.2⟩

/-- Arcs of a chain of points, one around each inner point. -/
def arcs (α : Type) [Field α] : List (ℤ×ℤ) → List (Entry α)
  | p::q::r::rest => arcEntry α p q r::arcs α (q::r::rest)
  | _ => []

/-- A curve starts at its first control value. -/
theorem Controls.at_zero (c : Controls α) : c.at 0=c.p1 := by
  simp [Controls.at]

/-- An arc ends at its fourth point. -/
theorem Controls.at_one (c : Controls α) : c.at 1=c.p4 := by
  simp [Controls.at]

variable [CharZero α]

/-- The third point of a balanced arc. -/
theorem Controls.p3_eq {c : Controls α} (h : c.Balanced) : c.p3=(2*c.p2-c.p1+c.p4)/2 := by
  unfold Balanced at h
  field_simp
  linear_combination -h

/-- The middle that the subdivision computes is the point of the curve at one half. -/
theorem Controls.mid_eq {c : Controls α} (h : c.Balanced) : c.mid=c.at (1/2) := by
  simp only [mid,half_eq,Controls.at,control,c.p3_eq h]
  ring

/-- Halves are balanced. -/
theorem Controls.balanced_halves (c : Controls α) : c.left.Balanced ∧ c.right.Balanced := by
  simp only [Balanced,left,right,mid,half_eq]
  constructor <;> field_simp <;> ring

/-- The first half of an arc. -/
theorem Controls.at_left {c : Controls α} (h : c.Balanced) (t : α) : c.left.at t=c.at (t/2) := by
  simp only [Controls.at,control,left,mid,half_eq,c.p3_eq h]
  field_simp
  ring

/-- The second half of an arc. -/
theorem Controls.at_right {c : Controls α} (h : c.Balanced) (t : α) :
    c.right.at t=c.at ((1+t)/2) := by
  simp only [Controls.at,control,right,mid,half_eq,c.p3_eq h]
  field_simp
  ring

/-- The arcs of the loop are balanced: their third value is the one that makes them
quadratic. -/
theorem balanced_arcControls (before here after : α) : (arcControls before here after).Balanced := by
  simp only [Controls.Balanced,arcControls,half_eq]
  field_simp
  ring

/-- Of the first half the first leg is the old one halved, the second the mean of both legs
halved. -/
theorem Controls.legs_left {c : Controls α} (h : c.Balanced) :
    c.left.control-c.left.p1=(c.control-c.p1)/2 ∧
      c.left.p4-c.left.control=((c.control-c.p1)+(c.p4-c.control))/4 := by
  simp only [control,left,mid,half_eq,c.p3_eq h]
  constructor <;> field_simp <;> ring

/-- Of the second half the first leg is the mean of both legs halved, the second one half of
the old second leg. -/
theorem Controls.legs_right {c : Controls α} (h : c.Balanced) :
    c.right.control-c.right.p1=((c.control-c.p1)+(c.p4-c.control))/4 ∧
      c.right.p4-c.right.control=(c.p4-c.control)/2 := by
  simp only [control,right,mid,half_eq,c.p3_eq h]
  constructor <;> field_simp <;> ring

/-- The distances of the ends of an arc to its middle, expressed by its two legs. -/
theorem Controls.mid_legs {c : Controls α} (h : c.Balanced) :
    c.mid-c.p1=(3*(c.control-c.p1)+(c.p4-c.control))/4 ∧
      c.p4-c.mid=((c.control-c.p1)+3*(c.p4-c.control))/4 := by
  simp only [control,mid,half_eq,c.p3_eq h]
  constructor <;> field_simp <;> ring

/-- The legs of the arc around a point are half the ways from its neighbours. -/
theorem legs_arcControls (before here after : α) :
    (arcControls before here after).control-(arcControls before here after).p1=(here-before)/2 ∧
      (arcControls before here after).p4-(arcControls before here after).control=(after-here)/2 := by
  simp only [Controls.control,arcControls,half_eq]
  constructor <;> field_simp <;> ring

end Curve

section Legs

variable {α : Type} [Field α] [LinearOrder α]

/-- Both legs are shorter than a bound. -/
def Controls.Within (c : Controls α) (m : α) : Prop := |c.control-c.p1| < m ∧ |c.p4-c.control| < m

/-- Both legs lead at least as far in one direction. -/
def Controls.Beyond (c : Controls α) (m : α) : Prop :=
  (m ≤ c.control-c.p1 ∧ m ≤ c.p4-c.control) ∨ m ≤ c.p1-c.control ∧ m ≤ c.control-c.p4

variable [IsStrictOrderedRing α] {c : Controls α} {m : α}

/-- The legs of the halves are half as long. -/
theorem Controls.within_halves (h : c.Balanced) (hm : c.Within (2*m)) :
    c.left.Within m ∧ c.right.Within m := by
  obtain ⟨h1,h2⟩ := hm
  obtain ⟨hl1,hl2⟩ := Controls.legs_left h
  obtain ⟨hr1,hr2⟩ := Controls.legs_right h
  rw [abs_lt] at h1 h2
  simp only [Within,hl1,hl2,hr1,hr2,abs_lt]
  refine ⟨⟨⟨?_,?_⟩,?_,?_⟩,⟨?_,?_⟩,?_,?_⟩ <;> linarith

/-- Legs below the threshold make an arc short. -/
theorem Controls.short_of_within (h : c.Balanced) (hm : c.Within threshold) : c.Short := by
  obtain ⟨h1,h2⟩ := hm
  obtain ⟨hm1,hm2⟩ := Controls.mid_legs h
  rw [abs_lt] at h1 h2
  rw [Short,abs_lt,abs_lt]
  refine ⟨⟨?_,?_⟩,?_,?_⟩ <;> linarith

/-- Long legs leave long legs in the first half. -/
theorem Controls.beyond_left (h : c.Balanced) (hm : c.Beyond (2*m)) : c.left.Beyond m := by
  obtain ⟨hl1,hl2⟩ := Controls.legs_left h
  refine hm.imp (fun ⟨h1,h2⟩ => ⟨by rw [hl1]; linarith,by rw [hl2]; linarith⟩) fun ⟨h1,h2⟩ => ?_
  constructor <;> linarith

/-- Legs that are too long in one direction keep an arc from being emitted. -/
theorem Controls.not_short_of_beyond (h : c.Balanced) (hm : c.Beyond threshold) : ¬c.Short := by
  obtain ⟨hm1,hm2⟩ := Controls.mid_legs h
  rintro ⟨hshort,-⟩
  rw [abs_lt] at hshort
  rcases hm with ⟨h1,h2⟩ | ⟨h1,h2⟩ <;> linarith

/-- Both coordinates are balanced. -/
def Entry.Balanced (e : Entry α) : Prop := e.x.Balanced ∧ e.y.Balanced

/-- Both halves of a balanced arc are balanced. -/
theorem Entry.balanced_halves {e first second : Entry α} (h : splineRule e=some (first,second)) :
    first.Balanced ∧ second.Balanced := by
  unfold splineRule at h
  split at h
  next => cases h
  next =>
    cases h
    exact ⟨⟨e.x.balanced_halves.1,e.y.balanced_halves.1⟩,e.x.balanced_halves.2,e.y.balanced_halves.2⟩

/-- An entry is flat after n levels when its legs are below two to the n thresholds. -/
theorem flatWithin_of_within (n : ℕ) {e : Entry α} (he : e.Balanced)
    (hx : e.x.Within (threshold*2^n)) (hy : e.y.Within (threshold*2^n)) :
    FlatWithin splineRule n e := by
  induction n generalizing e with
  | zero =>
    rw [pow_zero,mul_one] at hx hy
    exact if_pos ⟨Controls.short_of_within he.1 hx,Controls.short_of_within he.2 hy⟩
  | succ n ih =>
    intro first second hrule
    obtain ⟨hfirst,hsecond⟩ := Entry.balanced_halves hrule
    have hpow : (threshold : α)*2^(n+1)=2*(threshold*2^n) := by ring
    rw [hpow] at hx hy
    obtain ⟨hxl,hxr⟩ := Controls.within_halves he.1 hx
    obtain ⟨hyl,hyr⟩ := Controls.within_halves he.2 hy
    unfold splineRule at hrule
    split at hrule
    next => cases hrule
    next =>
      cases hrule
      exact ⟨ih hfirst hxl hyl,ih hsecond hxr hyr⟩

/-- The legs of an arc are shorter than some number of doublings of the
threshold. -/
theorem exists_within [Archimedean α] (c : Controls α) : ∃ n,c.Within (threshold*2^n) := by
  have hone : (1 : α)≤threshold := by norm_num [threshold]
  obtain ⟨n,hn⟩ := pow_unbounded_of_one_lt (max |c.control-c.p1| |c.p4-c.control|) one_lt_two
  have hpow : (2 : α)^n≤threshold*2^n := le_mul_of_one_le_left (by positivity) hone
  have hlt := hn.trans_le hpow
  exact ⟨n,(le_max_left _ _).trans_lt hlt,(le_max_right _ _).trans_lt hlt⟩

omit [IsStrictOrderedRing α] in
/-- A longer bound holds as well. -/
theorem Controls.Within.mono {m' : α} (h : c.Within m) (hle : m ≤ m') : c.Within m' :=
  ⟨h.1.trans_le hle,h.2.trans_le hle⟩

/-- Every balanced entry becomes flat. -/
theorem exists_flatWithin [Archimedean α] {e : Entry α} (he : e.Balanced) :
    ∃ n,FlatWithin splineRule n e := by
  obtain ⟨n,hx⟩ := exists_within e.x
  obtain ⟨m,hy⟩ := exists_within e.y
  have hlonger {k l : ℕ} (hkl : k≤l) : (threshold : α)*2^k≤threshold*2^l :=
    mul_le_mul_of_nonneg_left (pow_le_pow_right₀ one_le_two hkl) (by norm_num [threshold])
  exact ⟨max n m,flatWithin_of_within _ he (hx.mono (hlonger (le_max_left n m)))
    (hy.mono (hlonger (le_max_right n m)))⟩

/-- An entry with long legs in one coordinate is not flat enough to be emitted, so it is
split into its halves. -/
theorem splineRule_of_beyond (n : ℕ) {e : Entry α} (he : e.Balanced)
    (hlong : e.x.Beyond (threshold*2^n) ∨ e.y.Beyond (threshold*2^n)) :
    splineRule e=some (⟨e.x.left,e.y.left⟩,⟨e.x.right,e.y.right⟩) := by
  have hle : (threshold : α)≤threshold*2^n :=
    le_mul_of_one_le_right (by unfold threshold; positivity) (one_le_pow₀ (by norm_num))
  have hone {c : Controls α} (hc : c.Beyond (threshold*2^n)) : c.Beyond threshold :=
    hc.imp (fun ⟨h1,h2⟩ => ⟨hle.trans h1,hle.trans h2⟩) fun ⟨h1,h2⟩ => ⟨hle.trans h1,hle.trans h2⟩
  refine if_neg fun hshort => ?_
  rcases hlong with hx | hy
  · exact Controls.not_short_of_beyond he.1 (hone hx) hshort.1
  · exact Controls.not_short_of_beyond he.2 (hone hy) hshort.2

/-- The first halves are split for n levels more when the legs are that long. -/
theorem splitsFirst_of_beyond (n : ℕ) {e : Entry α} (he : e.Balanced)
    (hlong : e.x.Beyond (threshold*2^n) ∨ e.y.Beyond (threshold*2^n)) :
    SplitsFirst splineRule (n+1) e := by
  have hrule := splineRule_of_beyond n he hlong
  induction n generalizing e with
  | zero => exact ⟨_,_,hrule,trivial⟩
  | succ n ih =>
    have hpow : (threshold : α)*2^(n+1)=2*(threshold*2^n) := by ring
    rw [hpow] at hlong
    have hleft := (Entry.balanced_halves hrule).1
    have hlong' := hlong.imp (Controls.beyond_left he.1) (Controls.beyond_left he.2)
    exact ⟨_,_,hrule,ih hleft hlong' (splineRule_of_beyond n hleft hlong')⟩

end Legs

section Tracing

variable {α : Type} [Field α] [LinearOrder α]

/-- Two points of an arc are less than the threshold apart in each coordinate. -/
def Entry.Close (e : Entry α) (s t : α) : Prop :=
  |e.x.at s-e.x.at t|<threshold ∧ |e.y.at s-e.y.at t|<threshold

variable [FloorRing α]

/-- The emitted points are points of the arc at increasing parameters from its
start, close to each other and to every point of the arc. -/
structure Entry.Traced (e : Entry α) (out : List (ℤ×ℤ)) (ts : List α) : Prop where
  /-- Each point is rounded toward zero. -/
  points : out=ts.flatMap fun t => addPoint (e.x.at t) (e.y.at t)
  /-- The first one is the start. -/
  start : ts.head? = some 0
  /-- The parameters increase. -/
  increasing : ts.Pairwise (·<·)
  /-- They stay before the end. -/
  inside : ∀ t∈ts,0≤t ∧ t<1
  /-- Neighbours are close, and the last one is close to the end. -/
  linked : (ts++[1]).IsChain e.Close
  /-- Every point of the arc has one close to it. -/
  covered : ∀ t,0≤t → t≤1 → ∃ s∈ts,e.Close s t

variable [IsStrictOrderedRing α]

omit [FloorRing α] in
/-- Between short halves every point is close to the middle. -/
theorem Controls.close_mid {c : Controls α} (h : c.Balanced) (hshort : c.Short) {t : α} (h0 : 0≤t)
    (h1 : t≤1) : |c.at (1/2)-c.at t|<threshold := by
  obtain ⟨hfirst,hsecond⟩ := hshort
  have hplace : c.at (1/2)-c.at t=(2*t-1)*((1-t)*(c.p1-c.mid)+t*(c.mid-c.p4)) := by
    rw [c.mid_eq h]
    unfold Controls.at control
    ring
  have hunit : |2*t-1|≤1 := abs_le.mpr ⟨by linarith,by linarith⟩
  have hmean : |(1-t)*(c.p1-c.mid)+t*(c.mid-c.p4)|<threshold := by
    have hle : |(1-t)*(c.p1-c.mid)+t*(c.mid-c.p4)|≤(1-t)*|c.p1-c.mid|+t*|c.mid-c.p4| := by
      refine (abs_add_le _ _).trans_eq ?_
      rw [abs_mul,abs_mul,abs_of_nonneg h0,abs_of_nonneg (sub_nonneg.mpr h1)]
    refine hle.trans_lt ?_
    rcases h0.eq_or_lt with rfl | hpos
    · simpa using hfirst
    · have hleft := mul_le_mul_of_nonneg_left hfirst.le (sub_nonneg.mpr h1)
      have hright := mul_lt_mul_of_pos_left hsecond hpos
      linarith
  rw [hplace,abs_mul]
  exact (mul_le_of_le_one_left (abs_nonneg _) hunit).trans_lt hmean

/-- A flat entry traces its arc. -/
theorem traced_leaf {e : Entry α} (he : e.Balanced) (hflat : splineRule e=none) :
    e.Traced (splineEmit e) [0,1/2] := by
  have hshort : e.x.Short ∧ e.y.Short := by
    by_contra hno
    rw [splineRule,if_neg hno] at hflat
    cases hflat
  have hmid {t : α} (h0 : 0≤t) (h1 : t≤1) : e.Close (1/2) t :=
    ⟨Controls.close_mid he.1 hshort.1 h0 h1,Controls.close_mid he.2 hshort.2 h0 h1⟩
  have hsymm {s t : α} (h : e.Close s t) : e.Close t s :=
    ⟨by rw [abs_sub_comm]; exact h.1,by rw [abs_sub_comm]; exact h.2⟩
  refine ⟨?_,rfl,by simp,?_,?_,fun t h0 h1 => ⟨1/2,by simp,hmid h0 h1⟩⟩
  · simp only [splineEmit,List.flatMap_cons,List.flatMap_nil,Controls.at_zero,
      ←Controls.mid_eq he.1,←Controls.mid_eq he.2,List.append_nil]
  · simp only [List.mem_cons,List.not_mem_nil,or_false,forall_eq_or_imp,forall_eq]
    norm_num
  · simp only [List.cons_append,List.nil_append,List.isChain_cons_cons,List.isChain_singleton,
      and_true]
    exact ⟨hsymm (hmid le_rfl zero_le_one),hmid zero_le_one le_rfl⟩

/-- Traces of the two halves make up a trace of the arc, with parameters in the lower and in
the upper half. -/
theorem traced_split {e first second : Entry α} (he : e.Balanced)
    (hrule : splineRule e=some (first,second)) {out out' : List (ℤ×ℤ)} {ts ts' : List α}
    (h : first.Traced out ts) (h' : second.Traced out' ts') :
    e.Traced (out++out') (ts.map (·/2)++ts'.map fun t => (1+t)/2) := by
  obtain ⟨hx,hy⟩ := he
  unfold splineRule at hrule
  split at hrule
  next => cases hrule
  next =>
    cases hrule
    have hleft (s t : α) (hst : Entry.Close ⟨e.x.left,e.y.left⟩ s t) : e.Close (s/2) (t/2) := by
      simpa only [Entry.Close,Controls.at_left hx,Controls.at_left hy] using hst
    have hright (s t : α) (hst : Entry.Close ⟨e.x.right,e.y.right⟩ s t) :
        e.Close ((1+s)/2) ((1+t)/2) := by
      simpa only [Entry.Close,Controls.at_right hx,Controls.at_right hy] using hst
    obtain ⟨tail,rfl⟩ : ∃ tail,ts'=0::tail := by
      have hstart := h'.start
      cases ts' with
      | nil => cases hstart
      | cons t tail => exact ⟨tail,by rw [List.head?_cons,Option.some_inj] at hstart; rw [hstart]⟩
    refine ⟨?_,?_,?_,?_,?_,fun t h0 h1 => ?_⟩
    · rw [h.points,h'.points]
      simp only [List.flatMap_append,List.flatMap_map,Controls.at_left hx,Controls.at_left hy,
        Controls.at_right hx,Controls.at_right hy]
    · have hstart := h.start
      cases ts with
      | nil => cases hstart
      | cons t ts =>
        rw [List.head?_cons,Option.some_inj] at hstart
        simp [hstart]
    · rw [List.pairwise_append]
      refine ⟨List.Pairwise.map _ (fun s t hst => by linarith) h.increasing,
        List.Pairwise.map _ (fun s t hst => by linarith) h'.increasing,?_⟩
      simp only [List.mem_map]
      rintro _ ⟨s,hs,rfl⟩ _ ⟨t,ht,rfl⟩
      have hs1 := (h.inside s hs).2
      have ht0 := (h'.inside t ht).1
      linarith
    · simp only [List.mem_append,List.mem_map]
      rintro _ (⟨s,hs,rfl⟩ | ⟨t,ht,rfl⟩)
      · obtain ⟨hs0,hs1⟩ := h.inside s hs
        constructor <;> linarith
      · obtain ⟨ht0,ht1⟩ := h'.inside t ht
        constructor <;> linarith
    · -- both chains meet at the middle, the start of the second half
      have hchain := List.isChain_map_of_isChain (·/2) hleft h.linked
      have hchain' := List.isChain_map_of_isChain (fun t => (1+t)/2) hright h'.linked
      have hend : ((1 : α)+1)/2=1 := by norm_num
      have hmeet : ((1 : α)+0)/2=1/2 := by norm_num
      simp only [List.map_append,List.map_cons,List.map_nil,List.cons_append,hend,hmeet]
        at hchain hchain' ⊢
      rw [List.append_assoc,List.cons_append,List.isChain_split]
      exact ⟨hchain,hchain'⟩
    · rcases le_total t (1/2) with hlow | hhigh
      · obtain ⟨s,hs,hclose⟩ := h.covered (2*t) (by linarith) (by linarith)
        refine ⟨s/2,List.mem_append_left _ (List.mem_map.mpr ⟨s,hs,rfl⟩),?_⟩
        simpa using hleft s (2*t) hclose
      · obtain ⟨s,hs,hclose⟩ := h'.covered (2*t-1) (by linarith) (by linarith)
        refine ⟨(1+s)/2,List.mem_append_right _ (List.mem_map.mpr ⟨s,hs,rfl⟩),?_⟩
        simpa using hright s (2*t-1) hclose

/-- What the loop emits for a balanced entry traces its arc. -/
theorem traced_flatten {n : ℕ} {e : Entry α} (he : e.Balanced) (hflat : FlatWithin splineRule n e) :
    ∃ ts,e.Traced (flatten splineRule splineEmit n e) ts :=
  flatten_induction (fun e out => ∃ ts,e.Traced out ts) Entry.Balanced
    (fun _ he hrule => ⟨_,traced_leaf he hrule⟩)
    (fun _ _ _ _ _ he hrule ⟨_,h⟩ ⟨_,h'⟩ => ⟨_,traced_split he hrule h h'⟩)
    (fun _ _ _ _ hrule => Entry.balanced_halves hrule) hflat he

end Tracing

section Chains

/-- Two points of a chain are near enough for the stack. -/
def Near (p q : ℤ×ℤ) : Prop := |q.1-p.1|<5242880 ∧ |q.2-p.2|<5242880

/-- Three numbers lead too far in one direction. -/
def Strides (a b c : ℤ) : Prop :=
  (5242880≤b-a ∧ 5242880 ≤ c-b) ∨ 5242880≤a-b ∧ 5242880≤b-c

/-- The end of the curve: half way along the last segment and the last point. -/
def closing (α : Type) [Field α] [LinearOrder α] [FloorRing α] : List (ℤ×ℤ) → List (ℤ×ℤ)
  | _::q::r::rest => closing α (q::r::rest)
  | [p,q] => addPoint (half (p.1 : α) q.1) (half (p.2 : α) q.2)++addPoint (q.1 : α) q.2
  | _ => []

variable {α : Type} [Field α] [LinearOrder α] [IsStrictOrderedRing α]

/-- Near points give an arc that the stack can hold. -/
theorem within_arcControls {a b c : ℤ} (hab : |b-a|<5242880) (hbc : |c-b|<5242880) :
    (arcControls (a : α) b c).Within (threshold*2^19) := by
  have hlimit : (threshold : α)*2^19=(5242880 : ℤ)/2 := by norm_num [threshold]
  have hleg {x y : ℤ} (hxy : |y-x|<5242880) : |((y : α)-x)/2|<threshold*2^19 := by
    have hcast : |(y : α)-x|<(5242880 : ℤ) := by exact_mod_cast hxy
    rw [abs_div,abs_two,hlimit]
    exact div_lt_div_of_pos_right hcast two_pos
  obtain ⟨h1,h2⟩ := legs_arcControls (a : α) b c
  exact ⟨by rw [h1]; exact hleg hab,by rw [h2]; exact hleg hbc⟩

/-- Points too far apart give an arc that it cannot. -/
theorem beyond_arcControls {a b c : ℤ} (h : Strides a b c) :
    (arcControls (a : α) b c).Beyond (threshold*2^19) := by
  have hlimit : (threshold : α)*2^19=(5242880 : ℤ)/2 := by norm_num [threshold]
  have hleg {x y : ℤ} (hxy : 5242880≤y-x) : threshold*2^19≤((y : α)-x)/2 := by
    have hcast : ((5242880 : ℤ) : α)≤((y-x : ℤ) : α) := Int.cast_le.mpr hxy
    push_cast at hcast
    rw [hlimit]
    push_cast
    linarith
  obtain ⟨h1,h2⟩ := legs_arcControls (a : α) b c
  refine h.imp (fun ⟨hab,hbc⟩ => ⟨by rw [h1]; exact hleg hab,by rw [h2]; exact hleg hbc⟩)
    fun ⟨hab,hbc⟩ => ⟨?_,?_⟩
  · have hba := hleg hab
    linarith
  · have hcb := hleg hbc
    linarith

variable [FloorRing α]

omit [FloorRing α] in
/-- An arc of the loop is balanced in both coordinates. -/
theorem balanced_arcEntry (p q r : ℤ×ℤ) : (arcEntry α p q r).Balanced :=
  ⟨balanced_arcControls _ _ _,balanced_arcControls _ _ _⟩

/-- Among near points the arc is traced, on the stack of twenty entries. -/
theorem quadraticSpline_near {fuel : ℕ} (hfuel : 2^20≤fuel) {p q r : ℤ×ℤ} (hpq : Near p q)
    (hqr : Near q r) (out : List (ℤ×ℤ)) :
    ∃ arc,quadraticSpline fuel (arcEntry α p q r) out=.done (out++arc) ∧
      ∃ ts,(arcEntry α p q r).Traced arc ts := by
  have hflat := flatWithin_of_within 19 (balanced_arcEntry (α:=α) p q r)
    (within_arcControls hpq.1 hqr.1) (within_arcControls hpq.2 hqr.2)
  have hturns := (turns_lt splineRule 19 (arcEntry α p q r)).le.trans hfuel
  exact ⟨_,drain_single hflat (by decide) hturns out,traced_flatten (balanced_arcEntry p q r) hflat⟩

/-- Every arc of a chain is done with after enough turns: it is emitted or
overruns the stack. -/
theorem quadraticSpline_ends (α : Type) [Field α] [LinearOrder α] [IsStrictOrderedRing α]
    [FloorRing α] (p q r : ℤ×ℤ) :
    ∃ enough,∀ fuel≥enough,∀ out,
      quadraticSpline fuel (arcEntry α p q r) out≠Outcome.unfinished := by
  obtain ⟨n,hflat⟩ := exists_flatWithin (balanced_arcEntry (α:=α) p q r)
  exact ⟨turns splineRule n (arcEntry α p q r),fun fuel hfuel out =>
    drain_single_ends hflat hfuel out⟩

/-- Three points that lead too far in one direction overrun the stack within twenty turns.
-/
theorem quadraticSpline_far {p q r : ℤ×ℤ} (hfar : Strides p.1 q.1 r.1 ∨ Strides p.2 q.2 r.2)
    (fuel : ℕ) (out : List (ℤ×ℤ)) :
    quadraticSpline fuel (arcEntry α p q r) out=.overrun ∨
      fuel<20 ∧ quadraticSpline fuel (arcEntry α p q r) out=.unfinished :=
  drain_overrun (splitsFirst_of_beyond 19 (balanced_arcEntry p q r)
    (hfar.imp beyond_arcControls beyond_arcControls)) (by simp [splineStackDepth])
    (by simp [splineStackDepth]) fuel out

/-- The loop of `GenSpline` after two points of a chain. -/
def loopFrom (α : Type) [Field α] [LinearOrder α] [FloorRing α] (fuel : ℕ) (p q : ℤ×ℤ)
    (rest out : List (ℤ×ℤ)) : Outcome (ℤ×ℤ) :=
  let c1 : α×α := (half (p.1 : α) q.1,half (p.2 : α) q.2)
  splineLoop fuel c1 (half c1.1 q.1,half c1.2 q.2) (q.1,q.2) rest out

omit [IsStrictOrderedRing α] in
/-- One turn of the loop subdivides one arc and goes on unless the stack was overrun. -/
theorem loopFrom_cons (fuel : ℕ) (p q r : ℤ×ℤ) (rest out : List (ℤ×ℤ)) :
    loopFrom α fuel p q (r::rest) out=
      match quadraticSpline fuel (arcEntry α p q r) out with
      | .done out' => loopFrom α fuel q r rest out'
      | .overrun => .overrun
      | .unfinished => .unfinished := rfl

/-- Along a chain of near points every arc is traced, one after the other, and the loop goes
on to the closing point. -/
theorem loopFrom_near {fuel : ℕ} (hfuel : 2^20≤fuel) {p q : ℤ×ℤ} {rest : List (ℤ×ℤ)}
    (hnear : (p::q::rest).IsChain Near) (out : List (ℤ×ℤ)) :
    ∃ outs,loopFrom α fuel p q rest out=.done (out++outs.flatten++closing α (p::q::rest)) ∧
      List.Forall₂ (fun e arc => ∃ ts,Entry.Traced e arc ts) (arcs α (p::q::rest)) outs := by
  induction rest generalizing p q out with
  | nil =>
    refine ⟨[],?_,List.Forall₂.nil⟩
    simp only [loopFrom,splineLoop,closing,List.flatten_nil,List.append_nil,List.append_assoc]
  | cons r rest ih =>
    obtain ⟨hpq,hrest⟩ := List.isChain_cons_cons.mp hnear
    obtain ⟨hqr,-⟩ := List.isChain_cons_cons.mp hrest
    obtain ⟨arc,harc,htraced⟩ := quadraticSpline_near (α:=α) hfuel hpq hqr out
    obtain ⟨outs,houts,hall⟩ := ih hrest (out++arc)
    refine ⟨arc::outs,?_,List.Forall₂.cons htraced hall⟩
    rw [loopFrom_cons,harc]
    dsimp only
    rw [houts,List.flatten_cons,List.append_assoc out,closing]

/-- `GenSpline` starts the loop at its first point. -/
theorem genSpline_eq (fuel : ℕ) (p q : ℤ×ℤ) (rest : List (ℤ×ℤ)) :
    genSpline α fuel (p::q::rest)=some (loopFrom α fuel p q rest [p]) := by
  have hstart : addPoint (p.1 : α) p.2=[p] := by simp [addPoint]
  simp only [genSpline,hstart]
  rfl

/-- A chain of near points is drawn from its first to its last point along
its arcs, within the stack and in a bounded number of turns for each arc. -/
theorem genSpline_near {fuel : ℕ} (hfuel : 2^20≤fuel) {p q : ℤ×ℤ} {rest : List (ℤ×ℤ)}
    (hnear : (p::q::rest).IsChain Near) :
    ∃ outs,genSpline α fuel (p::q::rest)=some (.done (p::(outs.flatten++closing α (p::q::rest)))) ∧
      List.Forall₂ (fun e arc => ∃ ts,Entry.Traced e arc ts) (arcs α (p::q::rest)) outs := by
  obtain ⟨outs,houts,hall⟩ := loopFrom_near (α:=α) hfuel hnear [p]
  refine ⟨outs,?_,hall⟩
  rw [genSpline_eq,houts]
  simp

/-- The loop overruns the stack at the latest at three points too far apart,
unless it is given too few turns for the arcs up to there. -/
theorem loopFrom_far {before after : List (ℤ×ℤ)} {p q r : ℤ×ℤ}
    (hfar : Strides p.1 q.1 r.1 ∨ Strides p.2 q.2 r.2) {a b : ℤ×ℤ} {rest : List (ℤ×ℤ)}
    (hpoints : a::b::rest=before++p::q::r::after) :
    ∃ enough,∀ fuel out,loopFrom α fuel a b rest out=.overrun ∨
      fuel<enough ∧ loopFrom α fuel a b rest out=.unfinished := by
  induction before generalizing a b rest with
  | nil =>
    cases hpoints
    refine ⟨20,fun fuel out => ?_⟩
    rw [loopFrom_cons]
    rcases quadraticSpline_far (α:=α) hfar fuel out with h | ⟨hfuel,h⟩
    · exact Or.inl (by rw [h])
    · exact Or.inr ⟨hfuel,by rw [h]⟩
  | cons c before ih =>
    rw [List.cons_append] at hpoints
    obtain ⟨rfl,htail⟩ := List.cons.inj hpoints
    cases rest with
    | nil =>
      have hlength := congrArg List.length htail
      simp only [List.length_cons,List.length_nil,List.length_append] at hlength
      omega
    | cons c' rest =>
      -- the arc before may overrun by itself; it does not take turns forever
      obtain ⟨enough,hlater⟩ := ih htail
      obtain ⟨enough',harc⟩ := quadraticSpline_ends α a b c'
      refine ⟨max enough enough',fun fuel out => ?_⟩
      rw [loopFrom_cons]
      cases hout : quadraticSpline fuel (arcEntry α a b c') out with
      | done out' =>
        exact (hlater fuel out').imp_right fun ⟨hfuel,hend⟩ =>
          ⟨hfuel.trans_le (le_max_left _ _),hend⟩
      | overrun => exact Or.inl rfl
      | unfinished =>
        have hfuel : fuel<enough' := not_le.mp fun hle => harc fuel hle out hout
        exact Or.inr ⟨hfuel.trans_le (le_max_right _ _),rfl⟩

/-- Three points of a chain that lead too far in one direction overrun the
stack, wherever they stand, as soon as the loop is given enough turns; with
fewer turns it is still unfinished. -/
theorem genSpline_far {before after : List (ℤ×ℤ)} {p q r : ℤ×ℤ}
    (hfar : Strides p.1 q.1 r.1 ∨ Strides p.2 q.2 r.2) :
    ∃ enough,∀ fuel,genSpline α fuel (before++p::q::r::after)=some .overrun ∨
      fuel<enough ∧ genSpline α fuel (before++p::q::r::after)=some .unfinished := by
  obtain ⟨a,b,rest,hpoints⟩ : ∃ a b rest,before++p::q::r::after=a::b::rest := by
    match before with
    | [] => exact ⟨_,_,_,rfl⟩
    | [a] => exact ⟨_,_,_,rfl⟩
    | a::b::before => exact ⟨_,_,_,rfl⟩
  obtain ⟨enough,hloop⟩ := loopFrom_far (α:=α) hfar hpoints.symm
  refine ⟨enough,fun fuel => ?_⟩
  rw [hpoints,genSpline_eq]
  exact (hloop fuel [a]).imp (congrArg some) fun ⟨hfuel,hend⟩ => ⟨hfuel,congrArg some hend⟩

/-- Two points are at most a number of pixels apart in each coordinate. -/
def Reaches (limit : ℤ) (p q : ℤ×ℤ) : Prop := |q.1-p.1|≤limit ∧ |q.2-p.2|≤limit

/-- Pixel of a point of an arc. -/
def Entry.pixel (e : Entry α) (t : α) : ℤ×ℤ := (truncate (e.x.at t),truncate (e.y.at t))

/-- Pixels of values less than five apart are at most six apart. -/
theorem abs_truncate_sub_le {x y : α} (h : |x-y|<threshold) : |truncate y-truncate x|≤6 := by
  have hx := abs_lt.mp (abs_truncate_sub_lt x)
  have hy := abs_lt.mp (abs_truncate_sub_lt y)
  have hxy := abs_lt.mp h
  simp only [threshold,Nat.cast_ofNat] at hxy
  have hcast : |((truncate y-truncate x : ℤ) : α)|<((7 : ℤ) : α) := by
    rw [abs_lt]
    push_cast
    constructor <;> linarith
  rw [←Int.cast_abs,Int.cast_lt] at hcast
  omega

/-- Half a segment reaches half as far as the segment. -/
theorem reaches_half {a b limit : ℤ} (h : |b-a|≤2*limit) :
    |truncate (half (a : α) b)-a|≤limit ∧ |b-truncate (half (a : α) b)|≤limit := by
  have htruncate := abs_lt.mp (abs_truncate_sub_lt (half (a : α) b))
  rw [half_eq] at htruncate ⊢
  obtain ⟨hlow,hhigh⟩ := abs_le.mp h
  have hlow' : ((-(2*limit) : ℤ) : α)≤((b-a : ℤ) : α) := Int.cast_le.mpr hlow
  have hhigh' : ((b-a : ℤ) : α)≤((2*limit : ℤ) : α) := Int.cast_le.mpr hhigh
  push_cast at hlow' hhigh'
  have hfirst : |((truncate (((a : α)+b)/2)-a : ℤ) : α)|<((limit+1 : ℤ) : α) := by
    rw [abs_lt]
    push_cast
    constructor <;> linarith
  have hsecond : |((b-truncate (((a : α)+b)/2) : ℤ) : α)|<((limit+1 : ℤ) : α) := by
    rw [abs_lt]
    push_cast
    constructor <;> linarith
  rw [←Int.cast_abs,Int.cast_lt] at hfirst hsecond
  omega

/-- The points of a traced arc and its end follow each other closely. -/
theorem Entry.Traced.isChain {e : Entry α} {out : List (ℤ×ℤ)} {ts : List α}
    (h : e.Traced out ts) {limit : ℤ} (hlimit : 6≤limit) :
    (out++[e.pixel 1]).IsChain (Reaches limit) ∧ ∃ later,out=e.pixel 0::later := by
  have hpoints : out=ts.map e.pixel := by
    rw [h.points,List.map_eq_flatMap]
    rfl
  constructor
  · have hlinked := List.isChain_map_of_isChain (S:=Reaches limit) e.pixel (fun s t hclose =>
      ⟨(abs_truncate_sub_le hclose.1).trans hlimit,(abs_truncate_sub_le hclose.2).trans hlimit⟩)
      h.linked
    rwa [List.map_append,←hpoints] at hlinked
  · have hstart := h.start
    cases ts with
    | nil => cases hstart
    | cons t ts =>
      rw [List.head?_cons,Option.some_inj] at hstart
      exact ⟨ts.map e.pixel,by rw [hpoints,hstart,List.map_cons]⟩

/-- The emitted points start in the middle of the first segment and reach at
most half as far as the segments of the chain, or six pixels. -/
theorem reaches_loop {limit : ℤ} (hlimit : 6≤limit) {p q : ℤ×ℤ} {rest : List (ℤ×ℤ)}
    (hchain : (p::q::rest).IsChain (Reaches (2*limit))) {outs : List (List (ℤ×ℤ))}
    (houts : List.Forall₂ (fun e arc => ∃ ts,Entry.Traced e arc ts) (arcs α (p::q::rest)) outs) :
    ∃ later,outs.flatten++closing α (p::q::rest)=
        (truncate (half (p.1 : α) q.1),truncate (half (p.2 : α) q.2))::later ∧
      (outs.flatten++closing α (p::q::rest)).IsChain (Reaches limit) := by
  induction rest generalizing p q outs with
  | nil =>
    obtain ⟨hpq,-⟩ := List.isChain_cons_cons.mp hchain
    cases houts
    refine ⟨[q],?_,?_⟩
    · simp [closing,addPoint]
    · simp only [List.flatten_nil,List.nil_append,closing,addPoint,truncate_intCast,
        List.cons_append,List.isChain_cons_cons,List.isChain_singleton,and_true]
      exact ⟨(reaches_half hpq.1).2,(reaches_half hpq.2).2⟩
  | cons r rest ih =>
    obtain ⟨-,hrest⟩ := List.isChain_cons_cons.mp hchain
    cases houts with
    | @cons _ arc _ outs harc houts =>
      obtain ⟨ts,htraced⟩ := harc
      obtain ⟨later,hlater,hlaterChain⟩ := ih hrest houts
      obtain ⟨harcChain,first,hfirst⟩ := htraced.isChain hlimit
      -- the arc ends where what follows it starts
      have hmeet : (arcEntry α p q r).pixel 1=
          (truncate (half (q.1 : α) r.1),truncate (half (q.2 : α) r.2)) := by
        simp only [Entry.pixel,Controls.at_one,arcEntry,arcControls]
      have hstart : (arcEntry α p q r).pixel 0=
          (truncate (half (p.1 : α) q.1),truncate (half (p.2 : α) q.2)) := by
        simp only [Entry.pixel,Controls.at_zero,arcEntry,arcControls]
      rw [List.flatten_cons,List.append_assoc,closing]
      refine ⟨first++(outs.flatten++closing α (q::r::rest)),?_,?_⟩
      · rw [hfirst,hstart,List.cons_append]
      · rw [hlater] at hlaterChain ⊢
        rw [List.isChain_split,←hmeet]
        rw [←hmeet] at hlaterChain
        exact ⟨harcChain,hlaterChain⟩

/-- Neighbouring points of a spline reach at most half as far as those of its
chain, or six pixels. -/
theorem reaches_genSpline {limit : ℤ} (hlimit : 6≤limit) {fuel : ℕ} (hfuel : 2^20≤fuel)
    {p q : ℤ×ℤ} {rest : List (ℤ×ℤ)} (hnear : (p::q::rest).IsChain Near)
    (hchain : (p::q::rest).IsChain (Reaches (2*limit))) {spline : List (ℤ×ℤ)}
    (hspline : genSpline α fuel (p::q::rest)=some (.done spline)) :
    spline.IsChain (Reaches limit) := by
  obtain ⟨outs,houts,hall⟩ := loopFrom_near (α:=α) hfuel hnear [p]
  obtain ⟨later,hlater,hlaterChain⟩ := reaches_loop hlimit hchain hall
  obtain ⟨hpq,-⟩ := List.isChain_cons_cons.mp hchain
  rw [genSpline_eq,houts] at hspline
  obtain rfl := Outcome.done.inj (Option.some.inj hspline)
  rw [hlater] at hlaterChain
  rw [List.append_assoc,hlater,List.singleton_append,List.isChain_cons_cons]
  exact ⟨⟨(reaches_half hpq.1).1,(reaches_half hpq.2).1⟩,hlaterChain⟩

/-- A corner of three points, some tens of pixels apart. -/
theorem genSpline_near_corner :
    ∃ outs,genSpline ℚ (2^20) [(0,0),(30,40),(80,40)]=
        some (.done ((0,0)::(outs.flatten++closing ℚ [(0,0),(30,40),(80,40)]))) ∧
      List.Forall₂ (fun e arc => ∃ ts,Entry.Traced e arc ts) (arcs ℚ [(0,0),(30,40),(80,40)]) outs :=
  have hnear : List.IsChain Near [(0,0),(30,40),(80,40)] := by simp [Near]
  genSpline_near le_rfl hnear

/-- Three points on a line, six million pixels apart. -/
theorem genSpline_far_line :
    ∃ enough,∀ fuel,
      genSpline ℚ fuel ([]++((0,0) : ℤ×ℤ)::(6000000,0)::(12000000,0)::[])=some .overrun ∨
        fuel<enough ∧
          genSpline ℚ fuel ([]++((0,0) : ℤ×ℤ)::(6000000,0)::(12000000,0)::[])=some .unfinished :=
  genSpline_far (p := (0,0)) (q := (6000000,0)) (r := (12000000,0)) (Or.inl (Or.inl (by decide)))

end Chains

end NcdfPlugin.NcdfSpline
