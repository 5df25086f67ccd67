import NcdfPlugin.NcdfIsoLine
import Mathlib.Data.List.Chain
import Mathlib.Data.List.Perm.Basic

/-!
# Joining segments into chains

The loops of the isoline constructor are given once more as derivations that
need no fuel: one for the growth of a chain at one end, one for a chain and
one for the whole constructor. A derivation exists for every list of
segments, because each turn uses up a segment. What the chains contain, how
they are linked and where they stop is read off the derivation.
-/

namespace NcdfPlugin.NcdfChains

open NcdfReader NcdfIsoLine

section Loops

variable {α : Type}

/-- First point of a segment. -/
def point1 (seg : Segment α) : α×α := (seg.px1,seg.py1)

/-- Second point of a segment. -/
def point2 (seg : Segment α) : α×α := (seg.px2,seg.py2)

/-- The segment at a position has no chain yet. -/
def Unused (traced : List (Segment α)) (n : ℕ) : Prop :=
  ∃ seg,traced[n]? = some seg ∧ seg.bUsed=false

/-- The segment at a position is in a chain. -/
def Used (traced : List (Segment α)) (n : ℕ) : Prop :=
  ∃ seg,traced[n]? = some seg ∧ seg.bUsed=true

/-- The point of a segment where a chain that grows at a side is open. -/
def openPoint (side : ChainSide) (seg : Segment α) : α×α :=
  match side with
  | .two => point2 seg
  | .one => point1 seg

/-- The point at which a segment is appended on that side. -/
def joinPoint (side : ChainSide) (seg : Segment α) : α×α :=
  match side with
  | .two => point1 seg
  | .one => point2 seg

/-- The second of two positions is appended to the first. -/
def Linked (side : ChainSide) (traced : List (Segment α)) (x y : ℕ) : Prop :=
  ∃ sx sy,traced[x]? = some sx ∧ traced[y]? = some sy ∧ joinPoint side sy=openPoint side sx

/-- A segment has a point at one of its ends. -/
def Touches (seg : Segment α) (p : α×α) : Prop := point1 seg=p ∨ point2 seg=p

/-- The pruning loop of the constructor. A used segment is erased and the
scan starts again at the first node. -/
def pruneFrom (used : ℕ → Bool) (seen rest : List ℕ) : List ℕ :=
  match rest with
  | [] => seen
  | n::rest => if used n=true then pruneFrom used [] (seen++rest) else pruneFrom used (seen++[n]) rest
termination_by (seen.length+rest.length,rest.length)
decreasing_by
  · simp only [Prod.lex_def,List.length_append,List.length_cons,List.length_nil]
    omega
  · simp only [Prod.lex_def,List.length_append,List.length_cons,List.length_nil]
    omega

/-- `bUsed` of the segment at a position. -/
def isUsed (traced : List (Segment α)) (n : ℕ) : Bool := (traced[n]?.map Segment.bUsed).getD false

/-- A chain with the segments as they were when it was finished. -/
structure Finished (α : Type) where
  /-- Positions of the chain, in the order of the built list. -/
  chain : List ℕ
  /-- Traced segments at that moment. -/
  traced : List (Segment α)

variable [DecidableEq α]

/-- One of the two loops of `BuildContinuousSegment`, run to its end. -/
inductive Grown (side : ChainSide) (seglist : List ℕ) :
    List (Segment α) → ℕ → List (Segment α) → List ℕ → Prop
  /-- No listed segment continues the chain. -/
  | stop {traced : List (Segment α)} {here : ℕ} {tseg : Segment α} (hhere : traced[here]? = some tseg)
      (hnone : findNext side traced seglist tseg=none) : Grown side seglist traced here traced []
  /-- The first one that does is appended. -/
  | turn {traced traced' : List (Segment α)} {here n : ℕ} {tseg : Segment α} {added : List ℕ}
      (hhere : traced[here]? = some tseg) (hnext : findNext side traced seglist tseg=some n)
      (hrest : Grown side seglist (traced.modify n (takeSegment side tseg)) n traced' added) :
      Grown side seglist traced here traced' (n::added)

/-- `BuildContinuousSegment`, run to its end. -/
inductive Built : List (Segment α) → List ℕ → List (Segment α) → List ℕ → Prop
  /-- Growth on side two, then on side one, from the first listed segment. -/
  | chain {traced grown2 grown1 : List (Segment α)} {seg0 : ℕ} {rest segjoin2 segjoin1 : List ℕ}
      (htwo : Grown .two (seg0::rest) (traced.modify seg0 fun seg => {seg with bUsed := true}) seg0
        grown2 segjoin2)
      (hone : Grown .one (seg0::rest) grown2 seg0 grown1 segjoin1) :
      Built traced (seg0::rest) grown1 (segjoin1.reverse++seg0::segjoin2)

/-- The loop of the constructor, run to its end. -/
inductive Joins : List (Segment α) → List ℕ → List (Segment α) → List (Finished α) → Prop
  /-- The master list is empty after the pruning. -/
  | last {traced built : List (Segment α)} {seglist chain : List ℕ}
      (hbuilt : Built traced seglist built chain)
      (hdone : pruneFrom (isUsed built) [] seglist=[]) : Joins traced seglist built [⟨chain,built⟩]
  /-- The loop goes on with what is left. -/
  | next {traced built traced' : List (Segment α)} {seglist chain : List ℕ}
      {finished : List (Finished α)} (hbuilt : Built traced seglist built chain)
      (hmore : pruneFrom (isUsed built) [] seglist≠[])
      (hrest : Joins built (pruneFrom (isUsed built) [] seglist) traced' finished) :
      Joins traced seglist traced' (⟨chain,built⟩::finished)

/-- The segments as the constructor lists them, none of them used. -/
def listed (trace : List (Segment α)) : List (Segment α) :=
  trace.map fun seg => {seg with bUsed := false}

/-- The constructor after the extraction, run to its end. -/
inductive Constructs : List (Segment α) → List (Segment α) → List (Finished α) → Prop
  /-- Without segments it returns at once. -/
  | empty : Constructs [] [] []
  /-- Otherwise it joins all of them. -/
  | joins {trace traced : List (Segment α)} {finished : List (Finished α)} (hsome : trace≠[])
      (hjoins : Joins (listed trace) (List.range trace.length) traced finished) :
      Constructs trace traced finished

/-- The constructor after the extraction: the traced segments and the chains
of `m_SegListList`. -/
def joinTrace (trace : List (Segment α)) : List (Segment α)×List (List ℕ) :=
  joinChains trace.length (listed trace) (List.range trace.length)

end Loops

section Pruning

/-- The restarts of the pruning loop do not matter: it keeps the unused. -/
theorem pruneFrom_eq_filter (used : ℕ → Bool) (seen rest : List ℕ) (hseen : ∀ n∈seen,used n=false) :
    pruneFrom used seen rest=(seen++rest).filter fun n => !used n := by
  induction seen,rest using pruneFrom.induct used with
  | case1 seen =>
    rw [pruneFrom,List.append_nil,List.filter_eq_self.mpr]
    intro n hn
    simp [hseen n hn]
  | case2 seen n rest hused ih =>
    rw [pruneFrom,if_pos hused,ih (by simp)]
    simp [hused]
  | case3 seen n rest hused ih =>
    have hunused : used n=false := by simpa using hused
    rw [pruneFrom,if_neg hused,ih]
    · simp
    · intro m hm
      rcases List.mem_append.mp hm with h | h
      · exact hseen m h
      · rw [List.mem_singleton.mp h,hunused]

end Pruning

section Growth

variable {α : Type}

/-- A segment is not used and unused at once. -/
theorem Used.not_unused {traced : List (Segment α)} {n : ℕ} (h : Used traced n) : ¬Unused traced n := by
  rintro ⟨seg,hseg,hunused⟩
  obtain ⟨seg',hseg',hused⟩ := h
  rw [hseg] at hseg'
  cases hseg'
  rw [hunused] at hused
  cases hused

/-- A segment that was modified at its position is read back from there as modified. -/
theorem modify_self {traced : List (Segment α)} {n : ℕ} {seg : Segment α}
    {f : Segment α → Segment α} (hseg : traced[n]? = some seg) :
    (traced.modify n f)[n]? = some (f seg) := by
  rw [List.getElem?_modify_eq,hseg]
  rfl

variable [DecidableEq α]

/-- A segment continues a chain, as it is or swapped, when it has a point at
the open end. -/
theorem fits_iff_touches (side : ChainSide) (tseg seg : Segment α) :
    (fits side tseg seg || fitsSwapped side tseg seg)=true ↔ Touches seg (openPoint side tseg) := by
  cases side with
  | two =>
    simp only [fits,fitsSwapped,Touches,openPoint,point1,point2,Bool.or_eq_true,decide_eq_true_eq,
      Prod.mk.injEq]
    tauto
  | one =>
    simp only [fits,fitsSwapped,Touches,openPoint,point1,point2,Bool.or_eq_true,decide_eq_true_eq,
      Prod.mk.injEq]
    tauto

/-- What the search finds is listed, unused and has a point at the open end. -/
theorem findNext_some {side : ChainSide} {traced : List (Segment α)} {seglist : List ℕ}
    {tseg : Segment α} {n : ℕ} (h : findNext side traced seglist tseg=some n) :
    n∈seglist ∧ ∃ seg,traced[n]? = some seg ∧ seg.bUsed=false ∧ Touches seg (openPoint side tseg) := by
  refine ⟨List.mem_of_find?_eq_some h,?_⟩
  have hfound := List.find?_some h
  cases hseg : traced[n]? with
  | none =>
    rw [hseg] at hfound
    cases hfound
  | some seg =>
    rw [hseg] at hfound
    obtain ⟨hunused,hfits⟩ := Bool.and_eq_true_iff.mp hfound
    exact ⟨seg,rfl,by simpa using hunused,(fits_iff_touches side tseg seg).mp hfits⟩

/-- When it finds nothing, no listed unused segment has a point there. -/
theorem findNext_none {side : ChainSide} {traced : List (Segment α)} {seglist : List ℕ}
    {tseg : Segment α} (h : findNext side traced seglist tseg=none) {n : ℕ} (hn : n∈seglist)
    {seg : Segment α} (hseg : traced[n]? = some seg) (hunused : seg.bUsed=false) :
    ¬Touches seg (openPoint side tseg) := by
  intro htouch
  have hno := List.find?_eq_none.mp h n hn
  rw [hseg] at hno
  refine hno ?_
  simp [hunused,(fits_iff_touches side tseg seg).mpr htouch]

/-- A segment that continues a chain starts at its open end. -/
theorem joinPoint_of_fits {side : ChainSide} {tseg seg : Segment α} (h : fits side tseg seg=true) :
    joinPoint side seg=openPoint side tseg := by
  cases side with
  | two =>
    simp only [fits,decide_eq_true_eq] at h
    exact Prod.ext h.2 h.1
  | one =>
    simp only [fits,decide_eq_true_eq] at h
    exact Prod.ext h.2 h.1

/-- One that continues it the other way round does so once it is swapped. -/
theorem joinPoint_of_fitsSwapped {side : ChainSide} {tseg seg : Segment α}
    (h : fitsSwapped side tseg seg=true) : joinPoint side seg.swapped=openPoint side tseg := by
  cases side with
  | two =>
    simp only [fitsSwapped,decide_eq_true_eq] at h
    exact Prod.ext h.2 h.1
  | one =>
    simp only [fitsSwapped,decide_eq_true_eq] at h
    exact Prod.ext h.2 h.1

omit [DecidableEq α] in
/-- Where a segment can be joined does not depend on whether it is marked. -/
theorem joinPoint_used (side : ChainSide) (seg : Segment α) :
    joinPoint side {seg with bUsed := true}=joinPoint side seg := by
  cases side <;> rfl

/-- A segment that fits the open end of a chain is appended to it: its point of connection
comes to be that end. -/
theorem joinPoint_takeSegment {side : ChainSide} {tseg seg : Segment α}
    (h : Touches seg (openPoint side tseg)) :
    joinPoint side (takeSegment side tseg seg)=openPoint side tseg := by
  have hfits := Bool.or_eq_true_iff.mp ((fits_iff_touches side tseg seg).mpr h)
  unfold takeSegment
  split
  next hstraight =>
    rw [joinPoint_used]
    exact joinPoint_of_fits hstraight
  next hno =>
    rw [joinPoint_used]
    exact joinPoint_of_fitsSwapped (hfits.resolve_left hno)

/-- A segment that is taken is marked, whichever way around it is taken. -/
theorem takeSegment_bUsed (side : ChainSide) (tseg seg : Segment α) :
    (takeSegment side tseg seg).bUsed=true := by
  unfold takeSegment
  split <;> rfl

/-- What a finished growth has done. -/
structure GrowthResult (side : ChainSide) (seglist : List ℕ) (traced : List (Segment α)) (here : ℕ)
    (traced' : List (Segment α)) (added : List ℕ) : Prop where
  /-- Listed segments that were unused are appended. -/
  fresh : ∀ n∈added,n∈seglist ∧ Unused traced n
  /-- None is appended twice. -/
  nodup : added.Nodup
  /-- They are used afterwards. -/
  used : ∀ n∈added,Used traced' n
  /-- No other segment changes. -/
  kept : ∀ n,n∉added → traced'[n]? = traced[n]?
  /-- Each is appended to the one before it. -/
  linked : List.IsChain (Linked side traced') (here::added)
  /-- No listed unused segment has a point at the open end. -/
  exhausted : ∃ last tseg,(here::added).getLast? = some last ∧ traced'[last]? = some tseg ∧
    ∀ n∈seglist,∀ seg,traced'[n]? = some seg → seg.bUsed=false → ¬Touches seg (openPoint side tseg)

/-- Everything a growth in one direction does, when it starts from a used segment: which
segments it takes, how they are linked and where it ends. -/
theorem Grown.result {side : ChainSide} {seglist : List ℕ} {traced traced' : List (Segment α)}
    {here : ℕ} {added : List ℕ} (h : Grown side seglist traced here traced' added)
    (hused : Used traced here) : GrowthResult side seglist traced here traced' added := by
  induction h with
  | @stop traced here tseg hhere hnone =>
    refine ⟨by simp,by simp,by simp,fun n _ => rfl,by simp,here,tseg,rfl,hhere,?_⟩
    intro n hn seg hseg hunused
    exact findNext_none hnone hn hseg hunused
  | @turn traced traced' here n tseg added hhere hnext hrest ih =>
    obtain ⟨hlisted,seg,hseg,hunused,htouch⟩ := findNext_some hnext
    have hmodified : (traced.modify n (takeSegment side tseg))[n]? = some (takeSegment side tseg seg) :=
      modify_self hseg
    have hother : ∀ m,m≠n → (traced.modify n (takeSegment side tseg))[m]? = traced[m]? := fun m hm =>
      List.getElem?_modify_ne (takeSegment side tseg) traced (Ne.symm hm)
    have hnused : Used (traced.modify n (takeSegment side tseg)) n :=
      ⟨_,hmodified,takeSegment_bUsed side tseg seg⟩
    have hgrown := ih hnused
    have hnot : n∉added := fun hn => hnused.not_unused (hgrown.fresh n hn).2
    have hne : here≠n := by
      rintro rfl
      exact hused.not_unused ⟨seg,hseg,hunused⟩
    have hhere' : here∉added := by
      intro hmem
      obtain ⟨seg',hseg',hunused'⟩ := (hgrown.fresh here hmem).2
      rw [hother here hne] at hseg'
      exact hused.not_unused ⟨seg',hseg',hunused'⟩
    constructor
    · intro m hm
      rcases List.mem_cons.mp hm with rfl | htail
      · exact ⟨hlisted,seg,hseg,hunused⟩
      · obtain ⟨hmlisted,seg',hseg',hunused'⟩ := hgrown.fresh m htail
        have hmn : m≠n := fun heq => hnot (heq ▸ htail)
        exact ⟨hmlisted,seg',(hother m hmn).symm.trans hseg',hunused'⟩
    · exact List.nodup_cons.mpr ⟨hnot,hgrown.nodup⟩
    · intro m hm
      rcases List.mem_cons.mp hm with rfl | htail
      · exact ⟨_,(hgrown.kept m hnot).trans hmodified,takeSegment_bUsed side tseg seg⟩
      · exact hgrown.used m htail
    · intro m hm
      obtain ⟨hmn,hmadded⟩ := not_or.mp (mt List.mem_cons.mpr hm)
      rw [hgrown.kept m hmadded,hother m hmn]
    · refine List.isChain_cons_cons.mpr ⟨⟨tseg,takeSegment side tseg seg,?_,?_,?_⟩,hgrown.linked⟩
      · rw [hgrown.kept here hhere',hother here hne,hhere]
      · rw [hgrown.kept n hnot,hmodified]
      · exact joinPoint_takeSegment htouch
    · rw [List.getLast?_cons_cons]
      exact hgrown.exhausted

/-- The second point of one segment is the first point of another. -/
def Follows (traced : List (Segment α)) (x y : ℕ) : Prop :=
  ∃ sx sy,traced[x]? = some sx ∧ traced[y]? = some sy ∧ point2 sx=point1 sy

omit [DecidableEq α] in
/-- A link at the second end, read as one segment following another. -/
theorem linked_two {traced : List (Segment α)} {x y : ℕ} (h : Linked .two traced x y) :
    Follows traced x y := by
  obtain ⟨sx,sy,hx,hy,hpoint⟩ := h
  exact ⟨sx,sy,hx,hy,hpoint.symm⟩

omit [DecidableEq α] in
/-- A link at the first end, read in the opposite direction. -/
theorem linked_one {traced : List (Segment α)} {x y : ℕ} (h : Linked .one traced y x) :
    Follows traced x y := by
  obtain ⟨sy,sx,hy,hx,hpoint⟩ := h
  exact ⟨sx,sy,hx,hy,hpoint⟩

omit [DecidableEq α] in
/-- Whether one segment follows another depends on these two segments only, not on the rest
of the list. -/
theorem follows_congr {traced traced' : List (Segment α)} {x y : ℕ} (hx : traced'[x]? = traced[x]?)
    (hy : traced'[y]? = traced[y]?) (h : Follows traced x y) : Follows traced' x y := by
  obtain ⟨sx,sy,hsx,hsy,hpoint⟩ := h
  exact ⟨sx,sy,hx.trans hsx,hy.trans hsy,hpoint⟩

/-- The listed positions are those of the unused segments. -/
structure Open (traced : List (Segment α)) (seglist : List ℕ) : Prop where
  /-- No position is listed twice. -/
  nodup : seglist.Nodup
  /-- Exactly the unused ones are listed. -/
  unused : ∀ n,n∈seglist ↔ Unused traced n

/-- No unused segment has a point at the start or at the end of a chain. -/
def Closed (traced : List (Segment α)) (chain : List ℕ) : Prop :=
  ∃ first last sfirst slast,
    (chain.head? = some first ∧ traced[first]? = some sfirst) ∧
    (chain.getLast? = some last ∧ traced[last]? = some slast) ∧
    ∀ (n : ℕ) (seg : Segment α),traced[n]? = some seg → seg.bUsed=false →
      ¬Touches seg (point1 sfirst) ∧ ¬Touches seg (point2 slast)

/-- What a finished chain is. -/
structure ChainResult (traced : List (Segment α)) (seglist : List ℕ) (built : List (Segment α))
    (chain : List ℕ) : Prop where
  /-- No segment is in the chain twice. -/
  nodup : chain.Nodup
  /-- Its segments were listed. -/
  listed : ∀ n∈chain,n∈seglist
  /-- They are used. -/
  used : ∀ n∈chain,Used built n
  /-- The first listed one is among them. -/
  start : ∃ seg0∈chain,seg0∈seglist
  /-- No other segment changes. -/
  kept : ∀ n,n∉chain → built[n]? = traced[n]?
  /-- Each segment starts where the one before it ends. -/
  linked : List.IsChain (Follows built) chain
  /-- Nothing unused fits at either end. -/
  closed : Closed built chain

/-- Both growths of a chain from the same used segment. -/
structure TwoSided (marked grown2 built : List (Segment α)) (seglist : List ℕ) (seg0 : ℕ)
    (segjoin2 segjoin1 : List ℕ) : Prop where
  /-- The growth at the second point. -/
  two : GrowthResult .two seglist marked seg0 grown2 segjoin2
  /-- The growth at the first point. -/
  one : GrowthResult .one seglist grown2 seg0 built segjoin1
  /-- The first growth leaves its start used. -/
  used2 : Used grown2 seg0
  /-- Its start is not appended. -/
  not2 : seg0∉segjoin2
  /-- Nor is it in the second growth. -/
  not1 : seg0∉segjoin1
  /-- No segment is appended on both sides. -/
  disjoint : ∀ n∈segjoin1,n∉segjoin2

/-- A chain grown at both ends of one segment is a two-sided chain: what the second growth
finds was left by the first one. -/
theorem twoSided_of_grown {marked grown2 built : List (Segment α)} {seglist : List ℕ} {seg0 : ℕ}
    {segjoin2 segjoin1 : List ℕ} (hused : Used marked seg0)
    (htwo : Grown .two seglist marked seg0 grown2 segjoin2)
    (hone : Grown .one seglist grown2 seg0 built segjoin1) :
    TwoSided marked grown2 built seglist seg0 segjoin2 segjoin1 := by
  have hside2 := htwo.result hused
  have hnot2 : seg0∉segjoin2 := fun hmem => hused.not_unused (hside2.fresh seg0 hmem).2
  have hused2 : Used grown2 seg0 := by
    obtain ⟨seg,hseg,hmarked⟩ := hused
    exact ⟨seg,(hside2.kept seg0 hnot2).trans hseg,hmarked⟩
  have hside1 := hone.result hused2
  refine ⟨hside2,hside1,hused2,hnot2,fun hmem => hused2.not_unused (hside1.fresh seg0 hmem).2,?_⟩
  intro n h1 h2
  exact (hside2.used n h2).not_unused (hside1.fresh n h1).2

section TwoSided

variable {marked grown2 built : List (Segment α)} {seglist : List ℕ} {seg0 : ℕ}
  {segjoin2 segjoin1 : List ℕ}

omit [DecidableEq α] in
/-- The second growth leaves the first one alone. -/
theorem TwoSided.kept_two (h : TwoSided marked grown2 built seglist seg0 segjoin2 segjoin1) :
    ∀ n∈seg0::segjoin2,built[n]? = grown2[n]? := by
  intro n hn
  refine h.one.kept n fun h1 => ?_
  rcases List.mem_cons.mp hn with rfl | h2
  · exact h.not1 h1
  · exact h.disjoint n h1 h2

omit [DecidableEq α] in
/-- All segments of a two-sided chain are marked. -/
theorem TwoSided.used (h : TwoSided marked grown2 built seglist seg0 segjoin2 segjoin1) :
    ∀ n∈segjoin1.reverse++seg0::segjoin2,Used built n := by
  intro n hn
  rcases List.mem_append.mp hn with h1 | h2
  · exact h.one.used n (List.mem_reverse.mp h1)
  · have hgrown : Used grown2 n := by
      rcases List.mem_cons.mp h2 with rfl | h2
      · exact h.used2
      · exact h.two.used n h2
    obtain ⟨seg,hseg,hused⟩ := hgrown
    exact ⟨seg,(h.kept_two n h2).trans hseg,hused⟩

omit [DecidableEq α] in
/-- No segment stands twice in a two-sided chain, since a growth only takes what is not
marked yet. -/
theorem TwoSided.nodup (h : TwoSided marked grown2 built seglist seg0 segjoin2 segjoin1) :
    (segjoin1.reverse++seg0::segjoin2).Nodup := by
  refine List.nodup_append.mpr ⟨List.nodup_reverse.mpr h.one.nodup,
    List.nodup_cons.mpr ⟨h.not2,h.two.nodup⟩,?_⟩
  rintro n h1 m h2 rfl
  have h1' := List.mem_reverse.mp h1
  rcases List.mem_cons.mp h2 with rfl | h2
  · exact h.not1 h1'
  · exact h.disjoint n h1' h2

omit [DecidableEq α] in
/-- The reversed chain, its seed and the other chain follow one another. -/
theorem TwoSided.linked (h : TwoSided marked grown2 built seglist seg0 segjoin2 segjoin1) :
    List.IsChain (Follows built) (segjoin1.reverse++seg0::segjoin2) := by
  refine List.isChain_split.mpr ⟨?_,?_⟩
  · have hback : List.IsChain (fun y x => Follows built x y) (seg0::segjoin1) :=
      h.one.linked.imp fun _ _ => linked_one
    have hreverse := List.isChain_reverse.mpr hback
    rwa [List.reverse_cons] at hreverse
  · refine h.two.linked.imp_of_mem_imp fun x y hx hy hlink => ?_
    exact follows_congr (h.kept_two x hx) (h.kept_two y hy) (linked_two hlink)

omit [DecidableEq α] in
/-- Both growths end where no listed and unused segment fits, so nothing that is left could
have been added to the chain. -/
theorem TwoSided.closed (h : TwoSided marked grown2 built seglist seg0 segjoin2 segjoin1)
    (hlater : ∀ n seg,built[n]? = some seg → seg.bUsed=false →
      n∈seglist ∧ grown2[n]? = some seg) : Closed built (segjoin1.reverse++seg0::segjoin2) := by
  obtain ⟨last,slast,hlast,hslast,hfree2⟩ := h.two.exhausted
  obtain ⟨first,sfirst,hfirst,hsfirst,hfree1⟩ := h.one.exhausted
  refine ⟨first,last,sfirst,slast,⟨?_,hsfirst⟩,⟨?_,?_⟩,fun n seg hseg hunused => ⟨?_,?_⟩⟩
  · rw [←hfirst,List.head?_append,List.head?_reverse]
    cases segjoin1 with
    | nil => rfl
    | cons n segjoin1 =>
      rw [List.getLast?_cons_cons,List.getLast?_cons,Option.some_or]
  · rw [←hlast,List.getLast?_append,List.getLast?_cons,Option.some_or]
  · exact (h.kept_two last (List.mem_of_getLast? hlast)).trans hslast
  · exact hfree1 n (hlater n seg hseg hunused).1 seg hseg hunused
  · exact hfree2 n (hlater n seg hseg hunused).1 seg (hlater n seg hseg hunused).2 hunused

end TwoSided

/-- The growths on both sides of one segment together make one chain with all that is
claimed of a chain. -/
theorem chainResult_of_grown {traced grown2 built : List (Segment α)} {seg0 : ℕ}
    {rest segjoin2 segjoin1 : List ℕ} (hopen : Open traced (seg0::rest))
    (htwo : Grown .two (seg0::rest) (traced.modify seg0 fun seg => {seg with bUsed := true}) seg0
      grown2 segjoin2)
    (hone : Grown .one (seg0::rest) grown2 seg0 built segjoin1) :
    ChainResult traced (seg0::rest) built (segjoin1.reverse++seg0::segjoin2) := by
  obtain ⟨seg,hseg,-⟩ := (hopen.unused seg0).mp (by simp)
  have hsides := twoSided_of_grown ⟨_,modify_self hseg,rfl⟩ htwo hone
  have hkept : ∀ n,n∉segjoin1.reverse++seg0::segjoin2 → built[n]? = traced[n]? := by
    intro n hn
    simp only [List.mem_append,List.mem_reverse,List.mem_cons,not_or] at hn
    rw [hsides.one.kept n hn.1,hsides.two.kept n hn.2.2,
      List.getElem?_modify_ne _ traced (Ne.symm hn.2.1)]
  refine ⟨hsides.nodup,fun n hn => ?_,hsides.used,⟨seg0,by simp,by simp⟩,hkept,hsides.linked,
    hsides.closed fun n seg' hseg' hunused => ?_⟩
  · rcases List.mem_append.mp hn with h1 | h2
    · exact (hsides.one.fresh n (List.mem_reverse.mp h1)).1
    · rcases List.mem_cons.mp h2 with rfl | h2
      · exact List.mem_cons_self
      · exact (hsides.two.fresh n h2).1
  · -- an unused segment is outside the chain, so it was listed and unused all along
    have hnot : n∉segjoin1.reverse++seg0::segjoin2 := fun hmem =>
      (hsides.used n hmem).not_unused ⟨seg',hseg',hunused⟩
    have hnot1 : n∉segjoin1 := fun h1 => hnot (by simp [h1])
    exact ⟨(hopen.unused n).mpr ⟨seg',(hkept n hnot).symm.trans hseg',hunused⟩,
      (hsides.one.kept n hnot1).symm.trans hseg'⟩

/-- What building one chain gives: a chain, and the segments that it does not contain as
they were. -/
theorem Built.result {traced built : List (Segment α)} {seglist chain : List ℕ}
    (h : Built traced seglist built chain) (hopen : Open traced seglist) :
    ChainResult traced seglist built chain := by
  cases h with
  | chain htwo hone => exact chainResult_of_grown hopen htwo hone

omit [DecidableEq α] in
/-- The mark of a segment that is there. -/
theorem isUsed_of_some {traced : List (Segment α)} {n : ℕ} {seg : Segment α}
    (h : traced[n]? = some seg) : isUsed traced n=seg.bUsed := by
  rw [isUsed,h]
  rfl

omit [DecidableEq α] in
/-- The pruned list keeps the listed segments that the chain left unused. -/
theorem ChainResult.mem_left {traced built : List (Segment α)} {seglist chain : List ℕ}
    (h : ChainResult traced seglist built chain) (hopen : Open traced seglist) (n : ℕ) :
    n∈pruneFrom (isUsed built) [] seglist ↔ n∈seglist ∧ n∉chain := by
  rw [pruneFrom_eq_filter _ _ _ (by simp),List.nil_append,List.mem_filter]
  refine and_congr_right fun hn => ?_
  by_cases hchain : n∈chain
  · obtain ⟨seg,hseg,hused⟩ := h.used n hchain
    simp [isUsed_of_some hseg,hused,hchain]
  · obtain ⟨seg,hseg,hunused⟩ := (hopen.unused n).mp hn
    have hbuilt := (h.kept n hchain).trans hseg
    simp [isUsed_of_some hbuilt,hunused,hchain]

omit [DecidableEq α] in
/-- After the pruning the list holds exactly the unused segments again, as the next chain
expects it. -/
theorem ChainResult.openLeft {traced built : List (Segment α)} {seglist chain : List ℕ}
    (h : ChainResult traced seglist built chain) (hopen : Open traced seglist) :
    Open built (pruneFrom (isUsed built) [] seglist) := by
  constructor
  · rw [pruneFrom_eq_filter _ _ _ (by simp),List.nil_append]
    exact hopen.nodup.filter _
  · intro n
    rw [h.mem_left hopen n]
    constructor
    · rintro ⟨hn,hchain⟩
      obtain ⟨seg,hseg,hunused⟩ := (hopen.unused n).mp hn
      exact ⟨seg,(h.kept n hchain).trans hseg,hunused⟩
    · rintro ⟨seg,hseg,hunused⟩
      have hchain : n∉chain := fun hmem => (h.used n hmem).not_unused ⟨seg,hseg,hunused⟩
      exact ⟨(hopen.unused n).mpr ⟨seg,(h.kept n hchain).symm.trans hseg,hunused⟩,hchain⟩

omit [DecidableEq α] in
/-- The chain and what is left of the master list after the pruning are together the master
list. -/
theorem ChainResult.perm {traced built : List (Segment α)} {seglist chain : List ℕ}
    (h : ChainResult traced seglist built chain) (hopen : Open traced seglist) :
    (chain++pruneFrom (isUsed built) [] seglist).Perm seglist := by
  have hleft := h.mem_left hopen
  have hnodup : (chain++pruneFrom (isUsed built) [] seglist).Nodup := by
    refine List.nodup_append.mpr ⟨h.nodup,(h.openLeft hopen).nodup,?_⟩
    rintro n hn m hm rfl
    exact ((hleft n).mp hm).2 hn
  refine (List.perm_ext_iff_of_nodup hnodup hopen.nodup).mpr fun n => ?_
  rw [List.mem_append,hleft]
  have hlisted := h.listed n
  tauto

/-- What the chains of the constructor are. -/
structure JoinResult (traced : List (Segment α)) (seglist : List ℕ) (traced' : List (Segment α))
    (finished : List (Finished α)) : Prop where
  /-- Together they have every listed segment once. -/
  perm : (finished.map Finished.chain).flatten.Perm seglist
  /-- Segments that were not listed stay as they are. -/
  kept : ∀ n,n∉seglist → traced'[n]? = traced[n]?
  /-- In each chain the segments follow one another. -/
  linked : ∀ fin∈finished,List.IsChain (Follows traced') fin.chain
  /-- When a chain was finished, nothing unused fitted at either end. -/
  closed : ∀ fin∈finished,Closed fin.traced fin.chain
  /-- Its segments have not changed since. -/
  since : ∀ fin∈finished,∀ n∈fin.chain,traced'[n]? = fin.traced[n]?

/-- The invariant of the constructor's loop, carried from chain to chain until the master
list is empty. -/
theorem Joins.result {traced traced' : List (Segment α)} {seglist : List ℕ}
    {finished : List (Finished α)} (h : Joins traced seglist traced' finished)
    (hopen : Open traced seglist) : JoinResult traced seglist traced' finished := by
  induction h with
  | @last traced built seglist chain hbuilt hdone =>
    have hchain := hbuilt.result hopen
    have hperm := hchain.perm hopen
    rw [hdone,List.append_nil] at hperm
    constructor
    · simpa using hperm
    · exact fun n hn => hchain.kept n fun hmem => hn (hchain.listed n hmem)
    · intro fin hfin
      obtain rfl := List.mem_singleton.mp hfin
      exact hchain.linked
    · intro fin hfin
      obtain rfl := List.mem_singleton.mp hfin
      exact hchain.closed
    · intro fin hfin n _
      obtain rfl := List.mem_singleton.mp hfin
      rfl
  | @next traced built traced' seglist chain finished hbuilt hmore hrest ih =>
    have hchain := hbuilt.result hopen
    have hopen' := hchain.openLeft hopen
    have hjoined := ih hopen'
    have hsince : ∀ n∈chain,traced'[n]? = built[n]? := fun n hn =>
      hjoined.kept n fun hmem => ((hchain.mem_left hopen n).mp hmem).2 hn
    constructor
    · rw [List.map_cons,List.flatten_cons]
      exact (hjoined.perm.append_left chain).trans (hchain.perm hopen)
    · intro n hn
      have hnot : n∉chain := fun hmem => hn (hchain.listed n hmem)
      have hleft : n∉pruneFrom (isUsed built) [] seglist := fun hmem =>
        hn ((hchain.mem_left hopen n).mp hmem).1
      rw [hjoined.kept n hleft,hchain.kept n hnot]
    · intro fin hfin
      rcases List.mem_cons.mp hfin with rfl | htail
      · exact hchain.linked.imp_of_mem_imp fun x y hx hy hlink =>
          follows_congr (hsince x hx) (hsince y hy) hlink
      · exact hjoined.linked fin htail
    · intro fin hfin
      rcases List.mem_cons.mp hfin with rfl | htail
      · exact hchain.closed
      · exact hjoined.closed fin htail
    · intro fin hfin
      rcases List.mem_cons.mp hfin with rfl | htail
      · exact hsince
      · exact hjoined.since fin htail

end Growth

section Termination

variable {α : Type}

/-- How many listed segments are unused. -/
def unusedCount (traced : List (Segment α)) (seglist : List ℕ) : ℕ :=
  (seglist.filter fun n => !isUsed traced n).length

/-- Using up a listed segment lowers the number of unused ones, which is why the growths
end. -/
theorem unusedCount_modify_lt {traced : List (Segment α)} {seglist : List ℕ} {n : ℕ}
    {seg seg' : Segment α} {f : Segment α → Segment α} (hn : n∈seglist) (hseg : traced[n]? = some seg)
    (hunused : seg.bUsed=false) (hf : f seg=seg') (hused : seg'.bUsed=true) :
    unusedCount (traced.modify n f) seglist<unusedCount traced seglist := by
  have hself : isUsed (traced.modify n f) n=true := by
    rw [isUsed_of_some (modify_self hseg),hf,hused]
  have hother : ∀ m,m≠n → isUsed (traced.modify n f) m=isUsed traced m := by
    intro m hm
    rw [isUsed,isUsed,List.getElem?_modify_ne f traced (Ne.symm hm)]
  have hfilter : (seglist.filter fun m => !isUsed (traced.modify n f) m)=
      (seglist.filter fun m => !isUsed traced m).filter fun m => decide (m≠n) := by
    rw [List.filter_filter]
    refine List.filter_congr fun m _ => ?_
    by_cases hm : m=n
    · subst hm
      simp [hself]
    · simp [hother m hm,hm]
  have hmem : n∈seglist.filter fun m => !isUsed traced m := by
    simp [hn,isUsed_of_some hseg,hunused]
  unfold unusedCount
  rw [hfilter]
  exact List.length_filter_lt_length_iff_exists.mpr ⟨n,hmem,by simp⟩

variable [DecidableEq α]

/-- With as much fuel as there are unused segments a growth ends by itself. -/
theorem grown_growChain (side : ChainSide) (seglist : List ℕ) {fuel : ℕ} {traced : List (Segment α)}
    {here : ℕ} {tseg : Segment α} (hhere : traced[here]? = some tseg)
    (hfuel : unusedCount traced seglist≤fuel) :
    Grown side seglist traced here (growChain side seglist fuel traced here).1
      (growChain side seglist fuel traced here).2 := by
  induction fuel generalizing traced here tseg with
  | zero =>
    refine Grown.stop hhere ?_
    cases hnext : findNext side traced seglist tseg with
    | none => rfl
    | some n =>
      obtain ⟨hn,seg,hseg,hunused,-⟩ := findNext_some hnext
      have hmem : n∈seglist.filter fun m => !isUsed traced m := by
        simp [hn,isUsed_of_some hseg,hunused]
      have hpos := List.length_pos_of_mem hmem
      unfold unusedCount at hfuel
      omega
  | succ fuel ih =>
    cases hnext : findNext side traced seglist tseg with
    | none =>
      simp only [growChain,hhere,hnext]
      exact Grown.stop hhere hnext
    | some n =>
      obtain ⟨hn,seg,hseg,hunused,-⟩ := findNext_some hnext
      have hlt := unusedCount_modify_lt hn hseg hunused rfl (takeSegment_bUsed side tseg seg)
      simp only [growChain,hhere,hnext]
      exact Grown.turn hhere hnext (ih (modify_self hseg) (by omega))

omit [DecidableEq α] in
/-- At most all segments are unused, which bounds the number of chains. -/
theorem unusedCount_le_length (traced : List (Segment α)) (seglist : List ℕ) :
    unusedCount traced seglist ≤ seglist.length := List.length_filter_le _ _

/-- Building one chain from the head of the master list ends by itself, whatever the other
segments are. -/
theorem built_buildContinuousSegment {traced : List (Segment α)} {seg0 : ℕ} {rest : List ℕ}
    (hopen : Open traced (seg0::rest)) :
    Built traced (seg0::rest) (buildContinuousSegment traced (seg0::rest)).1
      (buildContinuousSegment traced (seg0::rest)).2 := by
  obtain ⟨seg,hseg,-⟩ := (hopen.unused seg0).mp (by simp)
  have hstart : (traced.modify seg0 fun seg => {seg with bUsed := true})[seg0]? =
      some {seg with bUsed := true} := modify_self hseg
  have hused0 : Used (traced.modify seg0 fun seg => {seg with bUsed := true}) seg0 := ⟨_,hstart,rfl⟩
  have htwo := grown_growChain .two (seg0::rest) hstart (unusedCount_le_length _ (seg0::rest))
  have hside2 := htwo.result hused0
  have hkept := hside2.kept seg0 fun hmem => hused0.not_unused (hside2.fresh seg0 hmem).2
  have hone := grown_growChain .one (seg0::rest) (hkept.trans hstart)
    (unusedCount_le_length _ (seg0::rest))
  exact Built.chain htwo hone

omit [DecidableEq α] in
/-- What the pruning of the model keeps is what the loop of the source keeps, index by
index. -/
theorem ChainResult.filter_eq {traced built : List (Segment α)} {seglist chain : List ℕ}
    (h : ChainResult traced seglist built chain) (hopen : Open traced seglist) :
    (seglist.filter fun n => (built[n]?.map Segment.bUsed)=some false)=
      pruneFrom (isUsed built) [] seglist := by
  rw [pruneFrom_eq_filter _ _ _ (by simp),List.nil_append]
  refine List.filter_congr fun n hn => ?_
  have hpresent : ∃ seg,built[n]? = some seg := by
    by_cases hchain : n∈chain
    · obtain ⟨seg,hseg,-⟩ := h.used n hchain
      exact ⟨seg,hseg⟩
    · obtain ⟨seg,hseg,-⟩ := (hopen.unused n).mp hn
      exact ⟨seg,(h.kept n hchain).trans hseg⟩
  obtain ⟨seg,hseg⟩ := hpresent
  rw [isUsed_of_some hseg,hseg]
  cases hused : seg.bUsed <;> simp [hused]

/-- The loop of the constructor ends by itself: each turn shortens the list. -/
theorem joins_joinChains {fuel : ℕ} {traced : List (Segment α)} {seglist : List ℕ}
    (hopen : Open traced seglist) (hsome : seglist≠[]) (hfuel : seglist.length≤fuel) :
    ∃ finished,Joins traced seglist (joinChains fuel traced seglist).1 finished ∧
      finished.map Finished.chain=(joinChains fuel traced seglist).2 := by
  induction fuel generalizing traced seglist with
  | zero => exact absurd (List.length_eq_zero_iff.mp (Nat.le_zero.mp hfuel)) hsome
  | succ fuel ih =>
    obtain ⟨seg0,rest,rfl⟩ := List.exists_cons_of_ne_nil hsome
    have hbuilt := built_buildContinuousSegment hopen
    have hchain := hbuilt.result hopen
    unfold joinChains
    dsimp only
    rw [hchain.filter_eq hopen]
    split
    next hdone => exact ⟨[⟨_,_⟩],Joins.last hbuilt hdone,rfl⟩
    next hmore =>
      -- the chain has at least one segment of the list
      have hlength := (hchain.perm hopen).length_eq
      rw [List.length_append] at hlength
      obtain ⟨n,hn,-⟩ := hchain.start
      have hpos := List.length_pos_of_mem hn
      obtain ⟨finished,hjoins,hchains⟩ := ih (hchain.openLeft hopen) hmore (by omega)
      exact ⟨⟨_,_⟩::finished,Joins.next hbuilt hmore hjoins,by rw [List.map_cons,hchains]⟩

omit [DecidableEq α] in
/-- At the start every segment is listed and unused. -/
theorem open_listed (trace : List (Segment α)) : Open (listed trace) (List.range trace.length) := by
  constructor
  · exact List.nodup_range
  · intro n
    rw [List.mem_range]
    constructor
    · intro hn
      exact ⟨{trace.get ⟨n,hn⟩ with bUsed := false},by simp [listed,hn],rfl⟩
    · rintro ⟨seg,hseg,-⟩
      have hlt := (List.getElem?_eq_some_iff.mp hseg).1
      simpa [listed] using hlt

/-- The constructor ends by itself on every list of segments. -/
theorem constructs_joinTrace (trace : List (Segment α)) :
    ∃ finished,Constructs trace (joinTrace trace).1 finished ∧
      finished.map Finished.chain=(joinTrace trace).2 := by
  by_cases hsome : trace=[]
  · subst hsome
    exact ⟨[],Constructs.empty,rfl⟩
  · have hrange : List.range trace.length≠[] := by
      rw [ne_eq,List.range_eq_nil,List.length_eq_zero_iff]
      exact hsome
    obtain ⟨finished,hjoins,hchains⟩ :=
      joins_joinChains (open_listed trace) hrange (List.length_range.le)
    exact ⟨finished,Constructs.joins hsome hjoins,hchains⟩

omit [DecidableEq α] in
/-- The segments as they are traced are joined to nothing yet. -/
theorem joined_listed (trace : List (Segment α)) : NcdfIsoLine.Joined trace (listed trace) := by
  unfold NcdfIsoLine.Joined listed
  rw [List.forall₂_map_right_iff]
  exact List.forall₂_same.mpr fun seg _ => by simp [SameUpToSwap]

/-- Joining loses nothing and joins correctly. The constructor ends by itself;
its chains have every segment once, each as it was traced or with its points
swapped; in a chain each segment starts where the one before it ends; and
when a chain was finished, no segment still unused had a point at either of
its ends. -/
theorem joinTrace_correct (trace : List (Segment α)) :
    ∃ finished,
      (Constructs trace (joinTrace trace).1 finished ∧
        finished.map Finished.chain=(joinTrace trace).2) ∧
      (joinTrace trace).2.flatten.Perm (List.range trace.length) ∧
      NcdfIsoLine.Joined trace (joinTrace trace).1 ∧
      (∀ chain∈(joinTrace trace).2,List.IsChain (Follows (joinTrace trace).1) chain) ∧
      ∀ fin∈finished,Closed fin.traced fin.chain ∧
        ∀ n∈fin.chain,(joinTrace trace).1[n]? = fin.traced[n]? := by
  obtain ⟨finished,hconstructs,hchains⟩ := constructs_joinTrace trace
  refine ⟨finished,⟨hconstructs,hchains⟩,?_,joined_joinChains _ (joined_listed trace),?_⟩
  · rw [←hchains]
    cases hconstructs with
    | empty => simp
    | joins hsome hjoins => exact (hjoins.result (open_listed trace)).perm
  · rw [←hchains]
    cases hconstructs with
    | empty => simp
    | joins hsome hjoins =>
      have hresult := hjoins.result (open_listed trace)
      refine ⟨fun chain hchain => ?_,fun fin hfin => ⟨hresult.closed fin hfin,hresult.since fin hfin⟩⟩
      obtain ⟨fin,hfin,rfl⟩ := List.mem_map.mp hchain
      exact hresult.linked fin hfin

end Termination

/-- The constructor of an isoline joins the segments that it has extracted, and does nothing
else to them. -/
theorem isoLine_eq_joinTrace {α : Type} [Field α] [LinearOrder α] (f : Placement α) (grid : Grid α)
    (W H : ℕ) (value : α) :
    isoLine f grid W H value=(joinTrace (extractIsoLine f grid W H value)).1 := by
  have hlisted : listed (extractIsoLine f grid W H value)=extractIsoLine f grid W H value := by
    rw [extractIsoLine_eq,listed,List.map_map]
    rfl
  rw [isoLine,joinTrace,hlisted]

end NcdfPlugin.NcdfChains
