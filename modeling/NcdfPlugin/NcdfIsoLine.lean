import NcdfPlugin.NcdfInterpolation
import Mathlib.Data.List.Forall2

/-!
# Isoline extraction

An isoline at a level is a list of segments, each joining two edges of one
grid cell that the level crosses. The constructor then joins the segments
into chains end to end; a segment that fits backwards has its coordinates
swapped in place, so the traced list keeps its segments up to direction.
-/

namespace NcdfPlugin.NcdfIsoLine

open ExactArithmetic NcdfMessage NcdfReader NcdfInterpolation

/-- Two neighbouring nodes of the grid, as column and row. -/
structure Edge where
  /-- Column of the first node. -/
  i : ℕ
  /-- Row of the first node. -/
  j : ℕ
  /-- Column of the second node. -/
  k : ℕ
  /-- Row of the second node. -/
  l : ℕ
  deriving DecidableEq

/-- `Segment`. -/
structure Segment (α : Type) where
  /-- Edge (i,j)-(k,l) of the first end. -/
  first : Edge
  /-- Longitude of the first end. -/
  px1 : α
  /-- Latitude of the first end. -/
  py1 : α
  /-- Edge (m,n)-(o,p) of the second end. -/
  second : Edge
  /-- Longitude of the second end. -/
  px2 : α
  /-- Latitude of the second end. -/
  py2 : α
  /-- Whether a chain has it already. -/
  bUsed : Bool

/-- Origin and steps in which an isoline places the nodes. -/
structure Placement (α : Type) where
  /-- Latitude of row zero. -/
  tlat : α
  /-- Longitude of column zero. -/
  tlon : α
  /-- Step between rows. -/
  incrLat : α
  /-- Step between columns. -/
  incrLon : α

/-- `traduitCode`: node of a letter in the cell that ends at column I and
row J. -/
def traduitCode (I J : ℕ) (code : Char) : ℕ×ℕ :=
  match code with
  | 'a' => (I-1,J-1)
  | 'b' => (I,J-1)
  | 'c' => (I-1,J)
  | _ => (I,J)

@[simp] theorem traduitCode_a (I J : ℕ) : traduitCode I J 'a' = (I-1,J-1) := rfl

@[simp] theorem traduitCode_b (I J : ℕ) : traduitCode I J 'b' = (I,J-1) := rfl

@[simp] theorem traduitCode_c (I J : ℕ) : traduitCode I J 'c' = (I-1,J) := rfl

@[simp] theorem traduitCode_d (I J : ℕ) : traduitCode I J 'd' = (I,J) := rfl

/-- Edge of two letters. -/
def edgeOf (I J : ℕ) (c1 c2 : Char) : Edge :=
  ⟨(traduitCode I J c1).1,(traduitCode I J c1).2,(traduitCode I J c2).1,(traduitCode I J c2).2⟩

section Extraction

variable {α : Type} [Field α] [LinearOrder α]

/-- Fraction of the edge at which the level lies, one half when it does not. -/
def crossFraction (pressure pa pb : α) : α :=
  let dec := if pb≠pa then (pressure-pa)/(pb-pa) else half
  if 1 < |dec| then half else dec

/-- Correction of a longitude difference across the date line. -/
def wrapDifference (xd : α) : α :=
  if xd< -halfTurn then xd+fullTurn else if halfTurn<xd then xd-fullTurn else xd

/-- Fraction of an edge of the grid. -/
def edgeFraction (grid : Grid α) (pressure : α) (e : Edge) : α :=
  crossFraction pressure (cellAt grid e.j e.i) (cellAt grid e.l e.k)

/-- `intersectionAreteGrille`, longitude. -/
def intersectionX (f : Placement α) (grid : Grid α) (pressure : α) (e : Edge) : α :=
  let a := f.tlon+e.i*f.incrLon
  let b := f.tlon+e.k*f.incrLon
  a+wrapDifference (b-a)*edgeFraction grid pressure e

/-- `intersectionAreteGrille`, latitude. -/
def intersectionY (f : Placement α) (grid : Grid α) (pressure : α) (e : Edge) : α :=
  let a := f.tlat+e.j*f.incrLat
  let b := f.tlat+e.l*f.incrLat
  a+(b-a)*edgeFraction grid pressure e

/-- Constructor of `Segment`. -/
def mkSegment (f : Placement α) (grid : Grid α) (pressure : α) (e1 e2 : Edge) : Segment α where
  first := e1
  px1 := intersectionX f grid pressure e1
  py1 := intersectionY f grid pressure e1
  second := e2
  px2 := intersectionX f grid pressure e2
  py2 := intersectionY f grid pressure e2
  bUsed := false

/-- Letters of the segments that cross a cell with corners a, b over c, d. -/
def cellCodes (value a b c d : α) : List ((Char×Char)×(Char×Char)) :=
  if a=notDef ∨ b=notDef ∨ c=notDef ∨ d=notDef then []
  else if (a≤value ∧ b≤value ∧ c≤value ∧ value<d) ∨ (value<a ∧ value<b ∧ value < c ∧ d≤value) then
    [(('c','d'),('b','d'))]
  else if (a≤value ∧ c≤value ∧ d≤value ∧ value<b) ∨ (value<a ∧ value < c ∧ value<d ∧ b≤value) then
    [(('a','b'),('b','d'))]
  else if (c≤value ∧ d≤value ∧ b≤value ∧ value<a) ∨ (value < c ∧ value<d ∧ value<b ∧ a≤value) then
    [(('a','b'),('a','c'))]
  else if (a≤value ∧ b≤value ∧ d≤value ∧ value < c) ∨ (value<a ∧ value<b ∧ value<d ∧ c≤value) then
    [(('a','c'),('c','d'))]
  else if (a≤value ∧ b≤value ∧ value < c ∧ value<d) ∨ (value<a ∧ value<b ∧ c≤value ∧ d≤value) then
    [(('a','c'),('b','d'))]
  else if (a≤value ∧ c≤value ∧ value<b ∧ value<d) ∨ (value<a ∧ value < c ∧ b≤value ∧ d≤value) then
    [(('a','b'),('c','d'))]
  else if a≤value ∧ d≤value ∧ value < c ∧ value<b then
    [(('a','b'),('b','d')),(('a','c'),('c','d'))]
  else if value<a ∧ value<d ∧ c≤value ∧ b≤value then
    [(('a','b'),('a','c')),(('b','d'),('c','d'))]
  else []

/-- Segments of the cell that ends at column I and row J. -/
def cellSegments (f : Placement α) (grid : Grid α) (value : α) (I J : ℕ) : List (Segment α) :=
  (cellCodes value (cellAt grid (J-1) (I-1)) (cellAt grid (J-1) I) (cellAt grid J (I-1))
    (cellAt grid J I)).map fun code =>
      mkSegment f grid value (edgeOf I J code.1.1 code.1.2) (edgeOf I J code.2.1 code.2.2)

/-- `extractIsoLine` on a grid of W columns and H rows. -/
def extractIsoLine (f : Placement α) (grid : Grid α) (W H : ℕ) (value : α) : List (Segment α) :=
  (List.range (H-1)).flatMap fun j =>
    (List.range (W-1)).flatMap fun i => cellSegments f grid value (i+1) (j+1)

/-- A level crosses between two values: exactly one of them is above it. -/
def Crosses (value x y : α) : Prop := (x≤value ∧ value<y) ∨ (value<x ∧ y≤value)

/-- Corner of a cell by its letter. -/
def cornerValue {β : Type} (a b c d : β) (code : Char) : β :=
  match code with
  | 'a' => a
  | 'b' => b
  | 'c' => c
  | _ => d

/-- Letters of the four sides of a cell, in the order they are written. -/
def sides : List (Char×Char) := [('a','b'),('c','d'),('a','c'),('b','d')]

/-- The cases of a cell without missing corners, by which of them are above
the level. -/
def cellPattern (a b c d : Bool) : List ((Char×Char)×(Char×Char)) :=
  if (a=false ∧ b=false ∧ c=false ∧ d=true) ∨ (a=true ∧ b=true ∧ c=true ∧ d=false) then
    [(('c','d'),('b','d'))]
  else if (a=false ∧ c=false ∧ d=false ∧ b=true) ∨ (a=true ∧ c=true ∧ d=true ∧ b=false) then
    [(('a','b'),('b','d'))]
  else if (c=false ∧ d=false ∧ b=false ∧ a=true) ∨ (c=true ∧ d=true ∧ b=true ∧ a=false) then
    [(('a','b'),('a','c'))]
  else if (a=false ∧ b=false ∧ d=false ∧ c=true) ∨ (a=true ∧ b=true ∧ d=true ∧ c=false) then
    [(('a','c'),('c','d'))]
  else if (a=false ∧ b=false ∧ c=true ∧ d=true) ∨ (a=true ∧ b=true ∧ c=false ∧ d=false) then
    [(('a','c'),('b','d'))]
  else if (a=false ∧ c=false ∧ b=true ∧ d=true) ∨ (a=true ∧ c=true ∧ b=false ∧ d=false) then
    [(('a','b'),('c','d'))]
  else if a=false ∧ d=false ∧ c=true ∧ b=true then
    [(('a','b'),('b','d')),(('a','c'),('c','d'))]
  else if a=true ∧ d=true ∧ c=false ∧ b=false then
    [(('a','b'),('a','c')),(('b','d'),('c','d'))]
  else []

/-- In a cell with four values the chain of comparisons depends only on which corners are
above the level. -/
theorem cellCodes_eq_pattern {a b c d : α} (value : α)
    (h : ¬(a=notDef ∨ b=notDef ∨ c=notDef ∨ d=notDef)) :
    cellCodes value a b c d=
      cellPattern (decide (value<a)) (decide (value<b)) (decide (value < c)) (decide (value<d)) := by
  simp only [cellCodes,if_neg h,cellPattern,decide_eq_true_eq,decide_eq_false_iff_not,not_lt]

/-- In every pattern the ends of a segment are sides with one corner above
the level and one not. -/
theorem cellPattern_cross : ∀ a b c d : Bool,∀ code∈cellPattern a b c d,
    (code.1∈sides ∧ cornerValue a b c d code.1.1≠cornerValue a b c d code.1.2) ∧
      (code.2∈sides ∧ cornerValue a b c d code.2.1≠cornerValue a b c d code.2.2) := by
  decide

omit [Field α] in
/-- A level lies between two values exactly when one of them is above it and the other is
not. -/
theorem crosses_iff (value x y : α) :
    Crosses value x y ↔ decide (value<x)≠decide (value<y) := by
  rcases lt_or_ge value x with hx | hx <;> rcases lt_or_ge value y with hy | hy <;>
    simp [Crosses,hx,hy,not_lt.mpr,not_le.mpr]

omit [Field α] in
/-- Which corner is above the level may be asked before or after the corner is chosen. -/
theorem decide_cornerValue (value a b c d : α) (code : Char) :
    decide (value < cornerValue a b c d code)=
      cornerValue (decide (value<a)) (decide (value<b)) (decide (value < c)) (decide (value<d))
        code := by
  unfold cornerValue
  split <;> rfl

/-- Both ends of every segment lie on sides of the cell that the level
crosses. -/
theorem cellCodes_cross {value a b c d : α} {code : (Char×Char)×(Char×Char)}
    (h : code∈cellCodes value a b c d) :
    (code.1∈sides ∧ Crosses value (cornerValue a b c d code.1.1) (cornerValue a b c d code.1.2)) ∧
    (code.2∈sides ∧ Crosses value (cornerValue a b c d code.2.1) (cornerValue a b c d code.2.2)) := by
  by_cases hmissing : a=notDef ∨ b=notDef ∨ c=notDef ∨ d=notDef
  · simp [cellCodes,hmissing] at h
  · rw [cellCodes_eq_pattern value hmissing] at h
    simp only [crosses_iff,decide_cornerValue]
    exact cellPattern_cross _ _ _ _ code h

/-- An edge between neighbouring nodes of a grid of W columns and H rows. -/
structure GridEdge (W H : ℕ) (e : Edge) : Prop where
  /-- One column to the right or one row on. -/
  adjacent : (e.k=e.i+1 ∧ e.l=e.j) ∨ (e.k=e.i ∧ e.l=e.j+1)
  /-- The second column is in the grid, and so is the first. -/
  column : e.k<W
  /-- The second row is in the grid, and so is the first. -/
  row : e.l<H

/-- An edge of the grid that a level crosses. -/
structure CrossedEdge (grid : Grid α) (W H : ℕ) (value : α) (e : Edge) : Prop where
  /-- It is an edge of the grid. -/
  edge : GridEdge W H e
  /-- One end is above the level and the other is not. -/
  crosses : Crosses value (cellAt grid e.j e.i) (cellAt grid e.l e.k)

/-- Sides of a cell inside the grid are edges of the grid. -/
theorem gridEdge_edgeOf {W H I J : ℕ} (hI : I+1<W) (hJ : J+1<H) {code : Char×Char}
    (h : code∈sides) : GridEdge W H (edgeOf (I+1) (J+1) code.1 code.2) := by
  simp only [sides,List.mem_cons,List.not_mem_nil,or_false] at h
  rcases h with rfl | rfl | rfl | rfl <;> constructor <;> simp [edgeOf] <;> omega

omit [LinearOrder α] in
/-- Values at the ends of a side are the corners of its letters. -/
theorem cellAt_traduitCode (grid : Grid α) (I J : ℕ) (code : Char) :
    cellAt grid (traduitCode I J code).2 (traduitCode I J code).1=
      cornerValue (cellAt grid (J-1) (I-1)) (cellAt grid (J-1) I) (cellAt grid J (I-1))
        (cellAt grid J I) code := by
  unfold traduitCode cornerValue
  split <;> rfl

/-- Pairs of edges that the segments of a level join, cell by cell. -/
def joinedEdges (grid : Grid α) (W H : ℕ) (value : α) : List (Edge×Edge) :=
  (List.range (H-1)).flatMap fun j => (List.range (W-1)).flatMap fun i =>
    (cellCodes value (cellAt grid j i) (cellAt grid j (i+1)) (cellAt grid (j+1) i)
      (cellAt grid (j+1) (i+1))).map fun code =>
        (edgeOf (i+1) (j+1) code.1.1 code.1.2,edgeOf (i+1) (j+1) code.2.1 code.2.2)

/-- The extracted segments are those of the joined edges, whatever the
placement. -/
theorem extractIsoLine_eq (f : Placement α) (grid : Grid α) (W H : ℕ) (value : α) :
    extractIsoLine f grid W H value=
      (joinedEdges grid W H value).map fun e => mkSegment f grid value e.1 e.2 := by
  simp only [extractIsoLine,joinedEdges,cellSegments,List.map_flatMap,List.map_map,
    Nat.add_sub_cancel,Function.comp_def]

/-- Both ends of every segment lie on edges of the grid that the level crosses. -/
theorem crossedEdge_of_mem {grid : Grid α} {W H : ℕ} {value : α} {e : Edge×Edge}
    (h : e∈joinedEdges grid W H value) :
    CrossedEdge grid W H value e.1 ∧ CrossedEdge grid W H value e.2 := by
  simp only [joinedEdges,List.mem_flatMap,List.mem_range,List.mem_map] at h
  obtain ⟨J,hJ,I,hI,code,hcode,rfl⟩ := h
  obtain ⟨⟨hside1,hcross1⟩,hside2,hcross2⟩ := cellCodes_cross hcode
  have hcorner := cellAt_traduitCode grid (I+1) (J+1)
  simp only [Nat.add_sub_cancel] at hcorner
  simp only [←hcorner] at hcross1 hcross2
  have hIW : I+1<W := by omega
  have hJH : J+1<H := by omega
  exact ⟨⟨gridEdge_edgeOf hIW hJH hside1,hcross1⟩,⟨gridEdge_edgeOf hIW hJH hside2,hcross2⟩⟩

variable [IsStrictOrderedRing α]

/-- On a crossed edge the fraction is that of the exact crossing point, between its two
nodes. -/
theorem crossFraction_eq {pressure pa pb : α} (h : Crosses pressure pa pb) :
    crossFraction pressure pa pb=(pressure-pa)/(pb-pa) ∧
      0 ≤ crossFraction pressure pa pb ∧ crossFraction pressure pa pb≤1 := by
  have hne : pb≠pa := by
    rcases h with ⟨hx,hy⟩ | ⟨hx,hy⟩ <;> intro heq <;> linarith
  have hbounds : 0≤(pressure-pa)/(pb-pa) ∧ (pressure-pa)/(pb-pa)≤1 := by
    rcases h with ⟨hx,hy⟩ | ⟨hx,hy⟩
    · have hpos : 0<pb-pa := by linarith
      exact ⟨div_nonneg (by linarith) hpos.le,(div_le_one hpos).mpr (by linarith)⟩
    · have hneg : pb-pa<0 := by linarith
      exact ⟨div_nonneg_of_nonpos (by linarith) hneg.le,
        (div_le_one_of_neg hneg).mpr (by linarith)⟩
  have heq : crossFraction pressure pa pb=(pressure-pa)/(pb-pa) := by
    simp only [crossFraction,if_pos hne,abs_of_nonneg hbounds.1,if_neg (not_lt.mpr hbounds.2)]
  rw [heq]
  exact ⟨rfl,hbounds⟩

/-- Longitude differences of at most half a turn are not corrected. -/
theorem wrapDifference_of_small {xd : α} (h : |xd| ≤ halfTurn) : wrapDifference xd=xd := by
  obtain ⟨hlow,hhigh⟩ := abs_le.mp h
  rw [wrapDifference,if_neg (not_lt.mpr hlow),if_neg (not_lt.mpr hhigh)]

end Extraction

section Joining

variable {α : Type}

/-- A segment with its ends swapped. The indices stay, as nothing reads them
after construction. -/
def Segment.swapped (seg : Segment α) : Segment α :=
  {seg with px1 := seg.px2,py1 := seg.py2,px2 := seg.px1,py2 := seg.py1}

/-- End of the start segment from which a chain grows. -/
inductive ChainSide where
  | two
  | one
  deriving DecidableEq

variable [DecidableEq α]

/-- Whether a segment continues the chain as it is. -/
def fits (side : ChainSide) (tseg seg : Segment α) : Bool :=
  match side with
  | .two => decide (seg.py1=tseg.py2 ∧ seg.px1=tseg.px2)
  | .one => decide (seg.py2=tseg.py1 ∧ seg.px2=tseg.px1)

/-- Whether it continues the chain once its ends are swapped. -/
def fitsSwapped (side : ChainSide) (tseg seg : Segment α) : Bool :=
  match side with
  | .two => decide (seg.py2=tseg.py2 ∧ seg.px2=tseg.px2)
  | .one => decide (seg.py1=tseg.py1 ∧ seg.px1=tseg.px1)

/-- First unused segment of `m_seglist` that continues the chain. Segments
are positions in the traced list. -/
def findNext (side : ChainSide) (traced : List (Segment α)) (seglist : List ℕ)
    (tseg : Segment α) : Option ℕ :=
  seglist.find? fun n =>
    match traced[n]? with
    | some seg => !seg.bUsed && (fits side tseg seg || fitsSwapped side tseg seg)
    | none => false

/-- The found segment as the chain takes it. -/
def takeSegment (side : ChainSide) (tseg seg : Segment α) : Segment α :=
  if fits side tseg seg=true then {seg with bUsed := true} else {seg.swapped with bUsed := true}

/-- One of the two loops of `BuildContinuousSegment`: the traced list
afterwards and the positions appended. Each turn uses up a segment. -/
def growChain (side : ChainSide) (seglist : List ℕ) :
    ℕ → List (Segment α) → ℕ → List (Segment α)×List ℕ
  | 0,traced,_ => (traced,[])
  | fuel+1,traced,here =>
    match traced[here]? with
    | none => (traced,[])
    | some tseg =>
      match findNext side traced seglist tseg with
      | none => (traced,[])
      | some n =>
        let grown := growChain side seglist fuel (traced.modify n (takeSegment side tseg)) n
        (grown.1,n::grown.2)

/-- `BuildContinuousSegment`: the chain through the first listed segment. -/
def buildContinuousSegment (traced : List (Segment α)) (seglist : List ℕ) :
    List (Segment α)×List ℕ :=
  match seglist with
  | [] => (traced,[])
  | seg0::_ =>
    let started := traced.modify seg0 fun seg => {seg with bUsed := true}
    let segjoin2 := growChain .two seglist seglist.length started seg0
    let segjoin1 := growChain .one seglist seglist.length segjoin2.1 seg0
    (segjoin1.1,segjoin1.2.reverse++seg0::segjoin2.2)

/-- The loop of the constructor: chains until no segment is left. -/
def joinChains : ℕ → List (Segment α) → List ℕ → List (Segment α)×List (List ℕ)
  | 0,traced,_ => (traced,[])
  | fuel+1,traced,seglist =>
    let built := buildContinuousSegment traced seglist
    let left := seglist.filter fun n => (built.1[n]?.map Segment.bUsed)=some false
    if left=[] then (built.1,[built.2])
    else
      let rest := joinChains fuel built.1 left
      (rest.1,built.2::rest.2)

/-- Same segment up to the direction of its coordinates and its use. -/
def SameUpToSwap (seg seg' : Segment α) : Prop :=
  (seg'.first=seg.first ∧ seg'.second=seg.second) ∧
    ((seg'.px1=seg.px1 ∧ seg'.py1=seg.py1 ∧ seg'.px2=seg.px2 ∧ seg'.py2=seg.py2) ∨
      (seg'.px1=seg.px2 ∧ seg'.py1=seg.py2 ∧ seg'.px2=seg.px1 ∧ seg'.py2=seg.py1))

omit [DecidableEq α] in
/-- A segment is itself. -/
theorem SameUpToSwap.refl (seg : Segment α) : SameUpToSwap seg seg := by
  simp [SameUpToSwap]

omit [DecidableEq α] in
/-- Two exchanges of ends, or none, make the same segment again. -/
theorem SameUpToSwap.trans {a b c : Segment α} (h : SameUpToSwap a b) (h' : SameUpToSwap b c) :
    SameUpToSwap a c := by
  unfold SameUpToSwap at *
  grind

/-- Taking a segment into a chain changes at most its direction. -/
theorem sameUpToSwap_takeSegment (side : ChainSide) (tseg seg : Segment α) :
    SameUpToSwap seg (takeSegment side tseg seg) := by
  unfold takeSegment
  split <;> simp [SameUpToSwap,Segment.swapped]

/-- The traced lists of one construction: the same segments in the same
order, up to direction. -/
def Joined (extracted traced : List (Segment α)) : Prop :=
  List.Forall₂ SameUpToSwap extracted traced

omit [DecidableEq α] in
/-- Segments that were not touched are joined from themselves. -/
theorem Joined.refl (extracted : List (Segment α)) : Joined extracted extracted :=
  List.forall₂_same.mpr fun seg _ => SameUpToSwap.refl seg

omit [DecidableEq α] in
/-- A change of one segment up to direction keeps the lists joined. -/
theorem Joined.modify {extracted traced : List (Segment α)} (h : Joined extracted traced)
    {f : Segment α → Segment α} (hf : ∀ seg,SameUpToSwap seg (f seg)) (n : ℕ) :
    Joined extracted (traced.modify n f) := by
  unfold Joined at *
  induction h generalizing n with
  | nil => simp
  | cons hhead htail ih =>
    cases n with
    | zero => exact List.Forall₂.cons (hhead.trans (hf _)) htail
    | succ n => exact List.Forall₂.cons hhead (ih n)

/-- Growing a chain keeps the lists joined: each turn takes one segment. -/
theorem joined_growChain {side : ChainSide} {seglist : List ℕ} {fuel : ℕ}
    {extracted traced : List (Segment α)} (here : ℕ) (h : Joined extracted traced) :
    Joined extracted (growChain side seglist fuel traced here).1 := by
  induction fuel generalizing traced here with
  | zero => exact h
  | succ fuel ih =>
    unfold growChain
    split
    · exact h
    · split
      · exact h
      · exact ih _ (h.modify (sameUpToSwap_takeSegment side _) _)

/-- Building one continuous chain only marks and turns segments, so they stay joined from
the extracted ones. -/
theorem joined_buildContinuousSegment {extracted traced : List (Segment α)} (seglist : List ℕ)
    (h : Joined extracted traced) :
    Joined extracted (buildContinuousSegment traced seglist).1 := by
  unfold buildContinuousSegment
  split
  · exact h
  next seg0 _ =>
    have hstart := h.modify (f := fun seg => {seg with bUsed := true})
      (fun seg => by simp [SameUpToSwap]) seg0
    exact joined_growChain _ (joined_growChain _ hstart)

/-- So does the whole loop of the constructor, chain after chain, whatever its list of
segments is. -/
theorem joined_joinChains {fuel : ℕ} {extracted traced : List (Segment α)} (seglist : List ℕ)
    (h : Joined extracted traced) : Joined extracted (joinChains fuel traced seglist).1 := by
  induction fuel generalizing traced seglist with
  | zero => exact h
  | succ fuel ih =>
    have hbuilt := joined_buildContinuousSegment seglist h
    unfold joinChains
    dsimp only
    split
    · exact hbuilt
    · exact ih _ hbuilt

end Joining

section Constructor

variable {α : Type} [Field α] [LinearOrder α]

/-- `IsoLine`: the traced segments after the constructor. -/
def isoLine (f : Placement α) (grid : Grid α) (W H : ℕ) (value : α) : List (Segment α) :=
  let extracted := extractIsoLine f grid W H value
  (joinChains extracted.length extracted (List.range extracted.length)).1

/-- The traced segments are the extracted ones up to direction. -/
theorem joined_isoLine (f : Placement α) (grid : Grid α) (W H : ℕ) (value : α) :
    Joined (extractIsoLine f grid W H value) (isoLine f grid W H value) :=
  joined_joinChains _ (Joined.refl _)

end Constructor

end NcdfPlugin.NcdfIsoLine
