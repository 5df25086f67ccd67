import NcdfPlugin.MaskedData
import NcdfPlugin.NcdfGapFill
import NcdfPlugin.FlatLayout
import NcdfPlugin.ExactArithmetic

/-!
# Records

`addRecord` unpacks one message into a grid: a bit mask says which places have a
value, and the data list the values of those places only. Missing places between two
others are filled along the rows and then along the columns, and the first record of
a field is kept. Messages that each encode a partial grid are read inside their masks
and data, whatever the new arrays held, and every field has the filled grid of its
first message.
-/

namespace NcdfPlugin.NcdfRecord

open NcdfMessage NcdfReader NcdfGapFill MaskedData FlatLayout InPlaceSweep ExactArithmetic

section Walk

variable {σ : Type}

/-- Row and column of a flat place. -/
def place (ni k : ℕ) : ℕ×ℕ := (k/ni,k%ni)

/-- The next column, or the first one of the next row. -/
def nextPlace (ni : ℕ) (c : ℕ×ℕ) : ℕ×ℕ := if c.2+1=ni then (c.1+1,0) else (c.1,c.2+1)

/-- A loop of so many turns over the places of a grid, which stops when the rows end. -/
def walk (nj ni : ℕ) (visit : ℕ×ℕ → σ → Option σ) : ℕ → ℕ×ℕ → σ → Option σ
  | 0,_,s => some s
  | n+1,c,s => (visit c s).bind fun s =>
    if (nextPlace ni c).1=nj then some s else walk nj ni visit n (nextPlace ni c) s

variable {nj ni : ℕ}

/-- The loops over rows and columns advance from one place of a grid to the next in
row-major order, from the last column of a row to the first of the row behind it. -/
theorem nextPlace_place (hi : 0 < ni) (k : ℕ) : nextPlace ni (place ni k)=place ni (k+1) := by
  rw [nextPlace,place,place]
  dsimp only
  rcases div_mod_succ hi k with ⟨hdiv,hmod,hlast⟩ | ⟨hdiv,hmod,hlast⟩
  · rw [if_pos (by omega),hdiv,hmod]
  · rw [if_neg (by omega),hdiv,hmod]

/-- The first places, as many as rows times columns, are exactly within the rows and columns
of the grid. -/
theorem place_lt {k : ℕ} (hk : k<nj*ni) : (place ni k).1<nj ∧ (place ni k).2<ni := by
  have hi : 0 < ni := Nat.pos_of_ne_zero (by rintro rfl; simp at hk)
  exact ⟨Nat.div_lt_of_lt_mul (by rwa [Nat.mul_comm]),Nat.mod_lt k hi⟩

/-- A row and a column have the place that row-major order gives them. -/
theorem place_flat {j i : ℕ} (hi : i < ni) : place ni (j*ni+i)=(j,i) := by
  have hpos : 0 < ni := by omega
  rw [place,Nat.add_comm,Nat.add_mul_div_right _ _ hpos,Nat.add_mul_mod_self_right,
    Nat.div_eq_of_lt hi,Nat.mod_eq_of_lt hi,Nat.zero_add]

/-- Two places of a grid with the same row and column are one place, so each is written
once. -/
theorem place_inj {k k' : ℕ} (h : place ni k=place ni k') : k=k' := by
  obtain ⟨hdiv,hmod⟩ := Prod.mk.inj h
  rw [←Nat.div_add_mod' k ni,hdiv,hmod,Nat.div_add_mod']

/-- The rows end behind the last place. -/
theorem place_succ_row {k : ℕ} (hk : k<nj*ni) : (place ni (k+1)).1=nj ↔ k+1=nj*ni := by
  have hi : 0 < ni := Nat.pos_of_ne_zero (by rintro rfl; simp at hk)
  constructor
  · intro hrow
    have hback := Nat.div_mul_le_self (k+1) ni
    rw [place] at hrow
    dsimp only at hrow
    rw [hrow] at hback
    omega
  · intro heq
    rw [place,heq]
    exact Nat.mul_div_left nj hi

/-- From a place on, the loop visits the places of the grid in their order, as many
as it has turns. -/
theorem walk_eq (visit : ℕ×ℕ → σ → Option σ) {k : ℕ} (hk : k<nj*ni) (n : ℕ) (s : σ) :
    walk nj ni visit n (place ni k) s=
      (List.range' k (min n (nj*ni-k))).foldlM (fun s k => visit (place ni k) s) s := by
  have hi : 0 < ni := Nat.pos_of_ne_zero (by rintro rfl; simp at hk)
  induction n generalizing k s with
  | zero => simp [walk]
  | succ n ih =>
    have hturns : min (n+1) (nj*ni-k)=min n (nj*ni-(k+1))+1 := by omega
    rw [walk,hturns,List.range'_succ,List.foldlM_cons,nextPlace_place hi]
    refine Option.bind_congr fun s _ => ?_
    by_cases hlast : k+1=nj*ni
    · rw [if_pos ((place_succ_row hk).mpr hlast),hlast,Nat.sub_self,Nat.min_zero]
      rfl
    · rw [if_neg fun hrow => hlast ((place_succ_row hk).mp hrow)]
      exact ih (by omega) s

/-- A walk with at least as many turns as places visits the whole grid in row-major order
and then stops. -/
theorem walk_whole (visit : ℕ×ℕ → σ → Option σ) (hn : 0<nj*ni) {n : ℕ} (h : nj*ni≤n) (s : σ) :
    walk nj ni visit n (0,0) s=
      (List.range (nj*ni)).foldlM (fun s k => visit (place ni k) s) s := by
  have hstart : place ni 0=(0,0) := by simp [place]
  rw [←hstart,walk_eq visit hn,Nat.sub_zero,Nat.min_eq_right h,List.range_eq_range']

/-- What every turn keeps, a whole run of turns has at its end. -/
theorem foldlM_range {turn : σ → ℕ → Option σ} (P : ℕ → σ → Prop) {n : ℕ} {s : σ} (hstart : P 0 s)
    (hturn : ∀ k<n,∀ s,P k s → ∃ s',turn s k=some s' ∧ P (k+1) s') :
    ∃ s',(List.range n).foldlM turn s=some s' ∧ P n s' := by
  induction n with
  | zero => exact ⟨s,rfl,hstart⟩
  | succ n ih =>
    obtain ⟨t,hrun,ht⟩ := ih fun k hk => hturn k (by omega)
    obtain ⟨s',hlast,hs'⟩ := hturn n (by omega) t ht
    refine ⟨s',?_,hs'⟩
    rw [List.range_succ,List.foldlM_append,hrun]
    simpa using hlast

end Walk

section Messages

/-- `FIELDS`. -/
inductive Fields
  | wind | winddir | windwave | wavehight | wavedir | swell | swellmax | swelldir | current | currentdir
  | currentu | currentv | pressure | gust | temp | cloud | rain
  deriving DecidableEq

variable {α : Type}

/-- What `addRecord` reads of an `ncdfMessage`. -/
structure Message (α : Type) where
  /-- `discipline`. -/
  discipline : UInt8
  /-- `paramCategory`. -/
  paramCategory : UInt8
  /-- `paramNo`. -/
  paramNo : UInt8
  /-- `scaledValueSurface1`. -/
  scaledValueSurface1 : UInt32
  /-- `noSectors`. -/
  noSectors : ℕ
  /-- `noPointsParallel`. -/
  noPointsParallel : ℕ
  /-- `noPointsMeridian`. -/
  noPointsMeridian : ℕ
  /-- `bmpMask`, none for NULL. -/
  bmpMask : Option (List (BitVec 8))
  /-- `bmpSize`. -/
  bmpSize : ℕ
  /-- `data`. -/
  data : List α

/-- The parameter of a message is the given one. -/
def Message.isParam (message : Message α) (paramCategory paramNo : UInt8) : Prop :=
  message.paramCategory=paramCategory ∧ message.paramNo=paramNo

instance (message : Message α) (paramCategory paramNo : UInt8) :
    Decidable (message.isParam paramCategory paramNo) := inferInstanceAs (Decidable (_ ∧ _))

/-- Field of a meteorological message. Each test of the code overrides those before it. -/
def meteorological (message : Message α) (field : Option Fields) : Option Fields :=
  let field := if message.isParam 2 0 then some .winddir else field
  let field := if message.isParam 2 1 then some .wind else field
  let field := if message.isParam 0 0 then some .temp else field
  let field := if message.isParam 3 0 then some .pressure else field
  let field := if message.isParam 6 1 then some .cloud else field
  if message.isParam 2 22 then some .gust else field

/-- Field of an oceanographical message. -/
def oceanographical (message : Message α) (field : Option Fields) : Option Fields :=
  let field := if message.isParam 0 3 then some .wavehight else field
  let field := if message.isParam 0 4 then some .wavedir else field
  let field := if (message.isParam 0 8 ∧ message.scaledValueSurface1=1) ∨ message.isParam 0 8 then
    some .swell else field
  let field := if message.isParam 0 8 ∧ message.scaledValueSurface1=2 then some .swellmax else field
  let field := if message.isParam 1 2 then some .currentu else field
  if message.isParam 1 3 then some .currentv else field

/-- The field `addRecord` files a message under, none for -1. -/
def fieldOf (message : Message α) : Option Fields :=
  let field := if message.discipline=0 then meteorological message none else none
  if message.discipline=10 then oceanographical message field else field

end Messages

section Unpacking

variable {α : Type} [Field α] [LinearOrder α]

/-- Value in the unit of a field. -/
def inUnit (field : Fields) (value : α) : α :=
  match field with
  | .temp => value-decimal 27315 100
  | .pressure => value/(100 : ℕ)
  | _ => value

/-- The converted copy of the data, one zero without sectors. -/
def dataOf (field : Fields) (message : Message α) : Option (List α) :=
  if message.noSectors=0 then some [0]
  else if message.noSectors ≤ message.data.length then
    some ((message.data.take message.noSectors).map (inUnit field))
  else none

/-- `isInBmpMask`, none for a read behind the mask. -/
def isInBmpMask (bmpMask : List (BitVec 8)) (c : Cursor) : Option (Bool×Cursor) := readBit bmpMask c

/-- State of the unpacking loops. -/
structure Unpacked (α : Type) where
  /-- `grid`. -/
  grid : Grid α
  /-- `index` and `bit`. -/
  cursor : Cursor
  /-- `count`. -/
  count : ℕ

/-- One place of the unpacking loops, none for a read behind the mask or the data. -/
def unpackCell (bmpMask : Option (List (BitVec 8))) (data : List α) (c : ℕ×ℕ) (s : Unpacked α) :
    Option (Unpacked α) :=
  match bmpMask with
  | some bmpMask => (isInBmpMask bmpMask s.cursor).bind fun (isSet,cursor) =>
    if isSet=true then
      (data[s.count]?).map fun value => ⟨setCell s.grid c.1 c.2 value,cursor.step,s.count+1⟩
    else some ⟨setCell s.grid c.1 c.2 notDef,cursor.step,s.count⟩
  | none => (data[s.count]?).map fun value => ⟨setCell s.grid c.1 c.2 value,s.cursor,s.count+1⟩

/-- The unpacking loops. -/
def unpack (bmpMask : Option (List (BitVec 8))) (data : List α) (nj ni : ℕ) (grid : Grid α) :
    Option (Unpacked α) :=
  (rowMajor nj ni Prod.mk).foldlM (fun s c => unpackCell bmpMask data c s) ⟨grid,Cursor.start 8,0⟩

/-- The next cell of the row, when it is a gap. -/
def fillRowGap (ni : ℕ) (grid : Grid α) (lat lon : ℕ) : Grid α :=
  if lon+2<ni then
    if cellAt grid lat (lon+2)≠notDef ∧ cellAt grid lat lon≠notDef ∧ cellAt grid lat (lon+1)=notDef then
      setCell grid lat (lon+1) ((cellAt grid lat lon+cellAt grid lat (lon+2))/(2 : ℕ))
    else grid
  else grid

/-- The next cell of the column, when it is a gap. -/
def fillColumnGap (nj : ℕ) (grid : Grid α) (lat lon : ℕ) : Grid α :=
  if lat+2<nj then
    if cellAt grid (lat+2) lon≠notDef ∧ cellAt grid lat lon≠notDef ∧ cellAt grid (lat+1) lon=notDef then
      setCell grid (lat+1) lon ((cellAt grid lat lon+cellAt grid (lat+2) lon)/(2 : ℕ))
    else grid
  else grid

/-- One turn of the loop along the rows, which tests the mask. -/
def visitRow (bmpMask : List (BitVec 8)) (ni : ℕ) (c : ℕ×ℕ) (s : Grid α×Cursor) : Option (Grid α×Cursor) :=
  (isInBmpMask bmpMask s.2).map fun (isSet,cursor) =>
    (if isSet=true then fillRowGap ni s.1 c.1 c.2 else s.1,cursor.step)

/-- One turn of the loop along the columns, where the test is commented out. -/
def visitColumn (nj : ℕ) (c : ℕ×ℕ) (grid : Grid α) : Option (Grid α) :=
  some (fillColumnGap nj grid c.1 c.2)

/-- The two filling loops. -/
def fillRecord (bmpMask : List (BitVec 8)) (bmpSize nj ni : ℕ) (grid : Grid α) : Option (Grid α) :=
  (walk nj ni (visitRow bmpMask ni) (bmpSize*8) (0,0) (grid,Cursor.start 8)).bind fun s =>
    walk nj ni (visitColumn nj) (bmpSize*8) (0,0) s.1

/-- The grid `addRecord` makes of a message, from what the new array holds. None
where the code leaves its arrays or its integers. -/
def recordOf (fresh : ℕ → ℕ → α) (field : Fields) (message : Message α) : Option (Grid α) :=
  let y := message.noPointsMeridian
  let x := message.noPointsParallel
  if 0<y ∧ 0<x ∧ y*x<2^31 then
    (dataOf field message).bind fun data =>
      (unpack message.bmpMask data y x (tabulate y x fresh)).bind fun s =>
        match message.bmpMask with
        | some bmpMask =>
          if message.bmpSize*8<2^31 then fillRecord bmpMask message.bmpSize y x s.grid else none
        | none => some s.grid
  else none

/-- The records by field. -/
abbrev Records (α : Type) := Fields → Option (Grid α)

/-- `addRecord`. A grid for a field that has a record is not kept. -/
def addRecord (hash : Records α) (fresh : ℕ → ℕ → α) (message : Message α) : Option (Records α) :=
  match fieldOf message with
  | some field => (recordOf fresh field message).map fun grid =>
    if (hash field).isNone then Function.update hash field (some grid) else hash
  | none => some hash

end Unpacking

section Unpacked

variable {α : Type} [Field α]

/-- Places with a value: those of the mask, or all. -/
def marked (bmpMask : Option (List (BitVec 8))) (k : ℕ) : Bool :=
  match bmpMask with
  | some bmpMask => maskBit bmpMask k
  | none => true

/-- The loops have unpacked the first k places. -/
structure UnpackedUpTo (bmpMask : Option (List (BitVec 8))) (data : List α) (nj ni k : ℕ)
    (s : Unpacked α) : Prop where
  /-- Size of the grid. -/
  shaped : Shaped nj ni s.grid
  /-- The mask is read in step with the grid. -/
  reads : bmpMask.isSome → At 8 k s.cursor
  /-- The data are read in step with the mask. -/
  counts : s.count=rank (marked bmpMask) k
  /-- What the places hold. -/
  holds : ∀ m<k,cells s.grid (place ni m)=spread notDef (marked bmpMask) data m

variable {bmpMask : Option (List (BitVec 8))} {data : List α} {nj ni k : ℕ} {s : Unpacked α}

/-- Writing one more place keeps what was unpacked before it, and counts the datum that was
used. -/
theorem UnpackedUpTo.write (h : UnpackedUpTo bmpMask data nj ni k s) (hk : k<nj*ni) {cursor : Cursor}
    (hreads : bmpMask.isSome → At 8 (k+1) cursor) :
    UnpackedUpTo bmpMask data nj ni (k+1)
      ⟨setCell s.grid (place ni k).1 (place ni k).2 (spread notDef (marked bmpMask) data k),cursor,
        s.count+if marked bmpMask k=true then 1 else 0⟩ := by
  obtain ⟨hj,hi⟩ := place_lt hk
  refine ⟨shaped_setCell h.shaped _ _ _,hreads,by rw [h.counts,rank_succ],fun m hm => ?_⟩
  rw [cells_setCell h.shaped hj hi]
  by_cases hlast : m=k
  · rw [hlast,Function.update_self]
  · rw [Function.update_of_ne fun hplace => hlast (place_inj hplace)]
    exact h.holds m (by omega)

/-- One turn of the unpacking loops reads inside mask and data and writes the value of its
place, or the marker. -/
theorem unpackCell_place (hdata : rank (marked bmpMask) (nj*ni)≤data.length)
    (hmask : ∀ mask,bmpMask=some mask → nj*ni≤8*mask.length) (hk : k<nj*ni)
    (h : UnpackedUpTo bmpMask data nj ni k s) :
    ∃ s',unpackCell bmpMask data (place ni k) s=some s' ∧
      UnpackedUpTo bmpMask data nj ni (k+1) s' := by
  have hvalue : marked bmpMask k=true →
      data[s.count]? = some (spread notDef (marked bmpMask) data k) := by
    intro hmarked
    have hrank : s.count < data.length := by
      rw [h.counts]
      exact lt_of_lt_of_le (rank_lt _ hmarked hk) hdata
    rw [spread,if_pos hmarked,←h.counts,List.getD_eq_getElem?_getD,List.getElem?_eq_getElem hrank,
      Option.getD_some]
  cases bmpMask with
  | none =>
    have hreads : (none : Option (List (BitVec 8))).isSome → At 8 (k+1) s.cursor :=
      fun hsome => absurd hsome (by simp)
    refine ⟨_,?_,h.write hk hreads⟩
    rw [unpackCell,hvalue rfl]
    rfl
  | some mask =>
    have hinside : k<8*mask.length := lt_of_lt_of_le hk (hmask mask rfl)
    have hread : readBit mask s.cursor=some (marked (some mask) k,s.cursor.settle 8) :=
      readBit_of_at (by decide) (h.reads rfl) hinside
    have hreads := (h.reads rfl).step (by decide)
    refine ⟨_,?_,h.write hk fun _ => hreads⟩
    rw [unpackCell,isInBmpMask,hread,Option.bind_some]
    dsimp only
    by_cases hmarked : marked (some mask) k=true
    · rw [if_pos hmarked,hvalue hmarked,if_pos hmarked]
      rfl
    · rw [if_neg hmarked,if_neg hmarked,spread,if_neg hmarked]
      rfl

/-- The unpacking loops spread the data over the places of the mask. -/
theorem unpack_eq (hdata : rank (marked bmpMask) (nj*ni)≤data.length)
    (hmask : ∀ mask,bmpMask=some mask → nj*ni≤8*mask.length) {grid : Grid α} (h : Shaped nj ni grid) :
    ∃ s,unpack bmpMask data nj ni grid=some s ∧
      s.grid=tabulate nj ni fun j i => spread notDef (marked bmpMask) data (j*ni+i) := by
  have hstart : UnpackedUpTo bmpMask data nj ni 0 ⟨grid,Cursor.start 8,0⟩ :=
    ⟨h,fun _ => at_start (by decide),rfl,fun m hm => absurd hm (Nat.not_lt_zero m)⟩
  obtain ⟨s,hrun,hs⟩ := foldlM_range (UnpackedUpTo bmpMask data nj ni) hstart
    fun k hk s hs => unpackCell_place hdata hmask hk hs
  refine ⟨s,?_,hs.shaped.ext (shaped_tabulate nj ni _) ?_⟩
  · rw [unpack,rowMajor_eq_map_range,List.foldlM_map]
    exact hrun
  · funext c
    by_cases hin : c.1<nj ∧ c.2<ni
    · obtain ⟨j,i⟩ := c
      have hplace : cells s.grid (place ni (j*ni+i))=_ := hs.holds _ (flat_lt hin.1 hin.2)
      rwa [place_flat hin.2,←cells_tabulate hin.1 hin.2 fun j i => spread _ _ data (j*ni+i)] at hplace
    · rw [cells_outside hs.shaped hin,cells_outside (shaped_tabulate nj ni _) hin]

end Unpacked

section Filling

variable {α : Type} [Field α] [LinearOrder α] {nj ni : ℕ} {grid : Grid α}

/-- Next to the first n places, those that pass a test. -/
def sites (next : ℕ×ℕ → ℕ×ℕ) (test : ℕ → Bool) (ni n : ℕ) : List (ℕ×ℕ) :=
  ((List.range n).filter test).map fun k => next (place ni k)

/-- One more place adds one more site, if the test asks for it. -/
theorem sites_succ (next : ℕ×ℕ → ℕ×ℕ) (test : ℕ → Bool) (ni n : ℕ) :
    sites next test ni (n+1)=
      sites next test ni n++if test n=true then [next (place ni n)] else [] := by
  rw [sites,List.range_succ,List.filter_append,List.map_append]
  by_cases h : test n=true <;> simp [sites,h]

/-- The sites are what follows the places that the test asks for. -/
theorem mem_sites {next : ℕ×ℕ → ℕ×ℕ} {test : ℕ → Bool} {n : ℕ} {c : ℕ×ℕ} :
    c∈sites next test ni n ↔ ∃ k<n,test k=true ∧ next (place ni k)=c := by
  simp [sites,and_assoc]

omit [LinearOrder α] in
/-- Writing what a cell holds changes nothing. -/
theorem setCell_self (h : Shaped nj ni grid) {c : ℕ×ℕ} (hj : c.1<nj) (hi : c.2<ni) :
    setCell grid c.1 c.2 (cells grid c)=grid := by
  refine (shaped_setCell h _ _ _).ext h ?_
  rw [cells_setCell h hj hi,Function.update_eq_self]

/-- A cell is written exactly when it is a gap, with the mean of its two neighbours. -/
theorem fillBetween_eq (before after : ℕ×ℕ → ℕ×ℕ) (h : Shaped nj ni grid) {c : ℕ×ℕ} (hj : c.1<nj)
    (hi : c.2<ni) :
    fillBetween before after grid c=
      if Gap notDef before after (cells grid) c then
        setCell grid c.1 c.2 (mean (cells grid (before c)) (cells grid (after c)))
      else grid := by
  rw [fillBetween,fillMean_eq]
  by_cases hgap : Gap notDef before after (cells grid) c
  · exact (congrArg _ (if_pos hgap)).trans (if_pos hgap).symm
  · exact ((congrArg _ (if_neg hgap)).trans (setCell_self h hj hi)).trans (if_neg hgap).symm

/-- The test of the row loop leaves out the last two columns; elsewhere the next cell is
filled from both sides. -/
theorem fillRowGap_eq (h : Shaped nj ni grid) {c : ℕ×ℕ} (hj : c.1<nj) :
    fillRowGap ni grid c.1 c.2=
      if c.2+2<ni then fillBetween leftOf rightOf grid (rightOf c) else grid := by
  rw [fillRowGap]
  split
  next hi =>
    have hrow : (rightOf c).1<nj := hj
    have hcell : (rightOf c).2<ni := by rw [rightOf]; omega
    rw [fillBetween_eq leftOf rightOf h hrow hcell]
    refine if_congr ⟨fun hgap => ⟨hgap.2.2,hgap.2.1,hgap.1⟩,fun hgap => ⟨hgap.2.2,hgap.2.1,hgap.1⟩⟩ rfl rfl
  next => rfl

/-- The test of the column loop leaves out the last two rows; elsewhere the cell below is
filled from both sides. -/
theorem fillColumnGap_eq (h : Shaped nj ni grid) {c : ℕ×ℕ} (hi : c.2<ni) :
    fillColumnGap nj grid c.1 c.2=
      if c.1+2<nj then fillBetween above below grid (below c) else grid := by
  rw [fillColumnGap]
  split
  next hj =>
    have hcell : (below c).1<nj := by rw [below]; omega
    have hcolumn : (below c).2<ni := hi
    rw [fillBetween_eq above below h hcell hcolumn]
    refine if_congr ⟨fun hgap => ⟨hgap.2.2,hgap.2.1,hgap.1⟩,fun hgap => ⟨hgap.2.2,hgap.2.1,hgap.1⟩⟩ rfl rfl
  next => rfl

/-- The last visit of a pass finds the grid that the visits before it left. -/
theorem pass_append (before after : ℕ×ℕ → ℕ×ℕ) (grid : Grid α) (visits : List (ℕ×ℕ)) (c : ℕ×ℕ) :
    NcdfGapFill.pass before after grid (visits++[c])=
      fillBetween before after (NcdfGapFill.pass before after grid visits) c := by
  simp only [NcdfGapFill.pass,List.foldl_append,List.foldl_cons,List.foldl_nil]

/-- Places to the left of the cells that the loop along the rows visits. -/
def rowTest (mask : List (BitVec 8)) (ni k : ℕ) : Bool := maskBit mask k && decide ((place ni k).2+2<ni)

/-- Places above the cells that the loop along the columns visits. -/
def columnTest (nj ni k : ℕ) : Bool := decide ((place ni k).1+2<nj)

/-- One turn of the loop along the rows reads its mask bit in bounds and makes the next
visit of the pass. -/
theorem visitRow_place {mask : List (BitVec 8)} {k : ℕ} {cursor : Cursor} (h : Shaped nj ni grid)
    (hk : k<nj*ni) (hmask : k<8*mask.length) (hat : At 8 k cursor) :
    visitRow mask ni (place ni k) (pass leftOf rightOf grid (sites rightOf (rowTest mask ni) ni k),cursor)=
      some (pass leftOf rightOf grid (sites rightOf (rowTest mask ni) ni (k+1)),
        (cursor.settle 8).step) := by
  have hshape := shaped_pass leftOf rightOf h (sites rightOf (rowTest mask ni) ni k)
  rw [visitRow,isInBmpMask,readBit_of_at (by decide) hat hmask,Option.map_some,
    fillRowGap_eq hshape (place_lt hk).1,sites_succ,rowTest]
  by_cases hbit : maskBit mask k=true <;> by_cases hlon : (place ni k).2+2<ni <;>
    simp [hbit,hlon,pass_append]

/-- One turn of the loop along the columns makes the next visit of the pass, without looking
at the mask. -/
theorem visitColumn_place {k : ℕ} (h : Shaped nj ni grid) (hk : k<nj*ni) :
    visitColumn nj (place ni k) (pass above below grid (sites below (columnTest nj ni) ni k))=
      some (pass above below grid (sites below (columnTest nj ni) ni (k+1))) := by
  have hshape := shaped_pass above below h (sites below (columnTest nj ni) ni k)
  rw [visitColumn,fillColumnGap_eq hshape (place_lt hk).2,sites_succ,columnTest]
  by_cases hlat : (place ni k).1+2<nj <;> simp [hlat,pass_append]

/-- Two lists of sites that agree on the gaps fill a grid alike, so sites that are no gaps
may be left out. -/
theorem fillFrom_congr {before after : ℕ×ℕ → ℕ×ℕ} {l l' : List (ℕ×ℕ)}
    (h : ∀ c,Gap notDef before after (cells grid) c → (c∈l ↔ c∈l')) :
    fillFrom before after nj ni l grid=fillFrom before after nj ni l' grid := by
  unfold fillFrom
  congr 1
  funext j i
  rw [snapshotUpdate,snapshotUpdate]
  by_cases hgap : Gap notDef before after (cells grid) (j,i)
  · by_cases hin : (j,i)∈l
    · rw [if_pos hin,if_pos ((h _ hgap).mp hin)]
    · rw [if_neg hin,if_neg fun hin' => hin ((h _ hgap).mpr hin')]
  · rw [fillGap,if_neg hgap,ite_self,ite_self]

/-- The mask does not restrict the loop along the rows: it visits every gap. -/
theorem pass_rows {mask : List (BitVec 8)} (h : Shaped nj ni grid)
    (hunmarked : ∀ k<nj*ni,maskBit mask k≠true → cells grid (place ni k)=notDef) :
    pass leftOf rightOf grid (sites rightOf (rowTest mask ni) ni (nj*ni))=horizontalFill nj ni grid := by
  have hinside : ∀ c∈sites rightOf (rowTest mask ni) ni (nj*ni),c.1<nj ∧ c.2<ni := by
    intro c hc
    obtain ⟨k,hk,htest,rfl⟩ := mem_sites.mp hc
    have hlon : (place ni k).2+2<ni := by simpa using (Bool.and_eq_true_iff.mp htest).2
    exact ⟨(place_lt hk).1,by rw [rightOf]; omega⟩
  rw [pass_eq_fillFrom onLines_horizontal h hinside fun c => Iff.rfl,←fillFrom_horizontal]
  refine fillFrom_congr fun c hgap => ⟨fun hc => ?_,fun hc => ?_⟩
  · obtain ⟨k,hk,htest,rfl⟩ := mem_sites.mp hc
    have hlon : (place ni k).2+2<ni := by simpa using (Bool.and_eq_true_iff.mp htest).2
    exact mem_horizontalCells.mpr ⟨(place_lt hk).1,Nat.succ_pos _,by rw [rightOf]; omega⟩
  · obtain ⟨hj,hpos,hi⟩ := mem_horizontalCells.mp hc
    obtain ⟨j,i⟩ := c
    obtain ⟨i,rfl⟩ := Nat.exists_eq_succ_of_ne_zero hpos.ne'
    dsimp only at hj hi
    have hplace : place ni (j*ni+i)=(j,i) := place_flat (by omega)
    have hflat : j*ni+i<nj*ni := flat_lt hj (by omega)
    refine mem_sites.mpr ⟨j*ni+i,hflat,Bool.and_eq_true_iff.mpr ⟨?_,?_⟩,by rw [hplace]; rfl⟩
    · by_contra hbit
      have hmissing := hunmarked _ hflat hbit
      rw [hplace] at hmissing
      exact hgap.2.1 hmissing
    · rw [hplace]
      exact decide_eq_true (by omega)

/-- The loop along the columns visits every inner row. -/
theorem pass_columns (h : Shaped nj ni grid) :
    pass above below grid (sites below (columnTest nj ni) ni (nj*ni))=verticalFill nj ni grid := by
  rw [←fillFrom_vertical]
  refine pass_eq_fillFrom onLines_vertical h (fun c hc => ?_) fun c => ⟨fun hc => ?_,fun hc => ?_⟩
  · have hcell := mem_verticalCells.mp hc
    omega
  · obtain ⟨k,hk,htest,rfl⟩ := mem_sites.mp hc
    have hlat : (place ni k).1+2<nj := of_decide_eq_true htest
    exact mem_verticalCells.mpr ⟨(place_lt hk).2,Nat.succ_pos _,by rw [below]; omega⟩
  · obtain ⟨hi,hpos,hj⟩ := mem_verticalCells.mp hc
    obtain ⟨j,i⟩ := c
    obtain ⟨j,rfl⟩ := Nat.exists_eq_succ_of_ne_zero hpos.ne'
    dsimp only at hj hi
    have hplace : place ni (j*ni+i)=(j,i) := place_flat hi
    refine mem_sites.mpr ⟨j*ni+i,flat_lt (by omega) hi,?_,by rw [hplace]; rfl⟩
    rw [columnTest,hplace]
    exact decide_eq_true (by omega)

/-- The two loops fill the rows and then, over the result, the columns, each as a step out
of place. -/
theorem fillRecord_eq {mask : List (BitVec 8)} {bmpSize : ℕ} (hn : 0<nj*ni) (hsize : nj*ni≤8*bmpSize)
    (hmask : nj*ni≤8*mask.length) (h : Shaped nj ni grid)
    (hunmarked : ∀ k<nj*ni,maskBit mask k≠true → cells grid (place ni k)=notDef) :
    fillRecord mask bmpSize nj ni grid=some (verticalFill nj ni (horizontalFill nj ni grid)) := by
  have hturns : nj*ni≤bmpSize*8 := by omega
  have hturn : ∀ k<nj*ni,∀ s : Grid α×Cursor,
      s.1=pass leftOf rightOf grid (sites rightOf (rowTest mask ni) ni k) ∧ At 8 k s.2 →
      ∃ s',visitRow mask ni (place ni k) s=some s' ∧
        s'.1=pass leftOf rightOf grid (sites rightOf (rowTest mask ni) ni (k+1)) ∧ At 8 (k+1) s'.2 := by
    rintro k hk ⟨grid',cursor⟩ ⟨rfl,hat⟩
    exact ⟨_,visitRow_place h hk (lt_of_lt_of_le hk hmask) hat,rfl,hat.step (by decide)⟩
  obtain ⟨s,hrows,hs,-⟩ := foldlM_range
    (fun k (s : Grid α×Cursor) =>
      s.1=pass leftOf rightOf grid (sites rightOf (rowTest mask ni) ni k) ∧ At 8 k s.2)
    (⟨rfl,at_start (by decide)⟩ : (grid,Cursor.start 8).1=_ ∧ At 8 0 (grid,Cursor.start 8).2) hturn
  have hfilled : Shaped nj ni (horizontalFill nj ni grid) := shaped_tabulate nj ni _
  obtain ⟨s',hcolumns,hs'⟩ := foldlM_range
    (fun k s => s=pass above below (horizontalFill nj ni grid) (sites below (columnTest nj ni) ni k))
    (rfl : horizontalFill nj ni grid=_)
    fun k hk s hs => ⟨_,hs ▸ visitColumn_place hfilled hk,rfl⟩
  rw [pass_rows h hunmarked] at hs
  rw [pass_columns hfilled] at hs'
  rw [fillRecord,walk_whole _ hn hturns,hrows,Option.bind_some,walk_whole _ hn hturns,hs,hcolumns,hs']

end Filling

section Records

variable {α : Type} [Field α] [LinearOrder α]

/-- A message encodes a partial grid. -/
structure Encodes (message : Message α) (value : ℕ → ℕ → Option α) : Prop where
  /-- There are rows. -/
  rows : 0 < message.noPointsMeridian
  /-- There are columns. -/
  columns : 0 < message.noPointsParallel
  /-- The number of places is an int. -/
  size : message.noPointsMeridian*message.noPointsParallel<2^31
  /-- The data have as many entries as they say. -/
  sectors : message.noSectors ≤ message.data.length
  /-- The mask has the places of the values, the data the values. -/
  lists : Lists (fun k => value (place message.noPointsParallel k).1 (place message.noPointsParallel k).2)
    (message.noPointsMeridian*message.noPointsParallel) (marked message.bmpMask)
    (message.data.take message.noSectors)
  /-- The mask covers the grid. -/
  covers : ∀ mask,message.bmpMask=some mask →
    message.noPointsMeridian*message.noPointsParallel≤8*mask.length ∧
      message.noPointsMeridian*message.noPointsParallel≤8*message.bmpSize ∧ message.bmpSize*8<2^31

/-- A partial grid in the unit of a field. -/
def unfilled (field : Fields) (message : Message α) (value : ℕ → ℕ → Option α) : Grid α :=
  tabulate message.noPointsMeridian message.noPointsParallel fun j i =>
    ((value j i).map (inUnit field)).getD notDef

/-- What is to be recorded of a partial grid: with a mask, gaps are filled along the
rows and then along the columns. -/
def recorded (field : Fields) (message : Message α) (value : ℕ → ℕ → Option α) : Grid α :=
  if message.bmpMask.isSome then
    verticalFill message.noPointsMeridian message.noPointsParallel
      (horizontalFill message.noPointsMeridian message.noPointsParallel (unfilled field message value))
  else unfilled field message value

variable {message : Message α} {value : ℕ → ℕ → Option α}

omit [LinearOrder α] in
/-- The converted data list the converted values, for the unit of any field. -/
theorem Encodes.dataOf (h : Encodes message value) (field : Fields) :
    ∃ data,NcdfRecord.dataOf field message=some data ∧
      Lists (fun k => (value (place message.noPointsParallel k).1 (place message.noPointsParallel k).2).map
        (inUnit field)) (message.noPointsMeridian*message.noPointsParallel) (marked message.bmpMask)
        data := by
  have hmarks : ∀ k < message.noPointsMeridian*message.noPointsParallel,marked message.bmpMask k=
      ((value (place message.noPointsParallel k).1 (place message.noPointsParallel k).2).map
        (inUnit field)).isSome := by
    intro k hk
    rw [Option.isSome_map]
    exact h.lists.marks k hk
  have hlists := h.lists.lists.map (inUnit field)
  rw [List.map_filterMap] at hlists
  by_cases hnone : message.noSectors=0
  · rw [hnone,List.take_zero,List.map_nil] at hlists
    exact ⟨[0],by rw [NcdfRecord.dataOf,if_pos hnone],hmarks,hlists.trans List.nil_prefix⟩
  · exact ⟨_,by rw [NcdfRecord.dataOf,if_neg hnone,if_pos h.sectors],hmarks,hlists⟩

omit [LinearOrder α] in
/-- A place that the mask does not mark has no value, so the test of the mask agrees with
the test of the cell. -/
theorem Encodes.unmarked (h : Encodes message value) (field : Fields) {mask : List (BitVec 8)}
    (hmask : message.bmpMask=some mask) {k : ℕ}
    (hk : k < message.noPointsMeridian*message.noPointsParallel) (hbit : maskBit mask k≠true) :
    cells (unfilled field message value) (place message.noPointsParallel k)=notDef := by
  obtain ⟨hj,hi⟩ := place_lt hk
  have hmarks := h.lists.marks k hk
  rw [hmask,marked,Bool.eq_false_iff.mpr hbit] at hmarks
  rw [unfilled,cells_tabulate hj hi]
  cases hvalue : value (place message.noPointsParallel k).1 (place message.noPointsParallel k).2 with
  | none => rfl
  | some v => simp [hvalue] at hmarks

/-- The grid of a message does not depend on what its array held before. -/
theorem Encodes.recordOf (h : Encodes message value) (fresh : ℕ → ℕ → α) (field : Fields) :
    NcdfRecord.recordOf fresh field message=some (recorded field message value) := by
  obtain ⟨data,hdata,hlists⟩ := h.dataOf field
  have hrank := (rank_eq_length hlists.marks le_rfl).trans_le hlists.lists.length_le
  obtain ⟨s,hunpack,hgrid⟩ := unpack_eq hrank (fun mask hmask => (h.covers mask hmask).1)
    (shaped_tabulate message.noPointsMeridian message.noPointsParallel fresh)
  have hvalues : s.grid=unfilled field message value := by
    rw [hgrid,unfilled,tabulate,tabulate]
    refine List.map_congr_left fun j hj => List.map_congr_left fun i hi => ?_
    rw [List.mem_range] at hj hi
    rw [spread_of_lists hlists (flat_lt hj hi),place_flat hi]
  have hn : 0 < message.noPointsMeridian*message.noPointsParallel := Nat.mul_pos h.rows h.columns
  rw [NcdfRecord.recordOf,if_pos ⟨h.rows,h.columns,h.size⟩,hdata,Option.bind_some,hunpack,
    Option.bind_some,recorded,hvalues]
  cases hmask : message.bmpMask with
  | none => rfl
  | some mask =>
    obtain ⟨hlength,hsize,hint⟩ := h.covers mask hmask
    have hshape : Shaped message.noPointsMeridian message.noPointsParallel (unfilled field message value) :=
      shaped_tabulate _ _ _
    dsimp only
    rw [if_pos hint,fillRecord_eq hn hsize hlength hshape fun k hk => h.unmarked field hmask hk]
    rfl

/-- What one message adds to the records: its own field's record where there is none yet,
and nothing otherwise. -/
theorem addRecord_eq (hash : Records α) (fresh : ℕ → ℕ → α)
    (h : (fieldOf message).isSome → Encodes message value) :
    ∃ hash',addRecord hash fresh message=some hash' ∧
      ∀ field,hash' field=(hash field).or
        (if fieldOf message=some field then some (recorded field message value) else none) := by
  cases hfield : fieldOf message with
  | none =>
    refine ⟨hash,by rw [addRecord,hfield],fun field => ?_⟩
    rw [if_neg (by simp),Option.or_none]
  | some filed =>
    have hencodes := h (by rw [hfield]; rfl)
    refine ⟨_,by rw [addRecord,hfield]; dsimp only; rw [hencodes.recordOf,Option.map_some],fun field => ?_⟩
    by_cases hsame : field=filed
    · subst hsame
      cases hold : hash field <;> simp [hold]
    · have hother : ¬some filed=some field := fun heq => hsame (Option.some.inj heq).symm
      rw [if_neg hother,Option.or_none]
      split
      · exact Function.update_of_ne hsame _ _
      · rfl

/-- Messages that encode partial grids are all added inside their masks and data, and
each field has the grid of its first message, whatever the new arrays held. -/
theorem addRecords_first (value : Message α → ℕ → ℕ → Option α)
    (messages : List (Message α×(ℕ → ℕ → α)))
    (h : ∀ m∈messages,(fieldOf m.1).isSome → Encodes m.1 (value m.1)) :
    ∃ hash,messages.foldlM (fun hash m => addRecord hash m.2 m.1) (fun _ => none)=some hash ∧
      ∀ field,hash field=(messages.find? fun m => fieldOf m.1=some field).map
        fun m => recorded field m.1 (value m.1) := by
  have hrun : ∀ old : Records α,
      ∃ hash,messages.foldlM (fun hash m => addRecord hash m.2 m.1) old=some hash ∧
        ∀ field,hash field=(old field).or ((messages.find? fun m => fieldOf m.1=some field).map
          fun m => recorded field m.1 (value m.1)) := by
    induction messages with
    | nil => exact fun old => ⟨old,rfl,fun field => by simp⟩
    | cons m messages ih =>
      intro old
      obtain ⟨next,hadd,hnext⟩ := addRecord_eq old m.2 (h m List.mem_cons_self)
      obtain ⟨hash,hrest,hhash⟩ := ih (fun m hm => h m (List.mem_cons_of_mem _ hm)) next
      refine ⟨hash,by rw [List.foldlM_cons,hadd]; exact hrest,fun field => ?_⟩
      rw [hhash,hnext,Option.or_assoc,List.find?_cons]
      by_cases hfield : fieldOf m.1=some field <;> simp [hfield]
  obtain ⟨hash,hfold,hhash⟩ := hrun fun _ => none
  exact ⟨hash,hfold,fun field => (hhash field).trans (Option.none_or)⟩

/-- One row with two temperatures and a gap between them. -/
def gapRow : Message ℚ := ⟨0,0,0,0,2,3,1,some [160#8],1,[300,310]⟩

/-- The same row later, without a mask. -/
def laterRow : Message ℚ := ⟨0,0,0,0,3,3,1,none,0,[280,281,282]⟩

/-- The values of these rows. -/
def rowValue (message : Message ℚ) (_ i : ℕ) : Option ℚ :=
  if message.bmpMask.isNone then message.data[i]? else if i=1 then none else message.data[i/2]?

/-- The row of three places encodes two temperatures and a gap between them. -/
theorem encodes_gapRow : Encodes gapRow (rowValue gapRow) := by
  refine ⟨by decide,by decide,by decide,by decide,⟨by decide,⟨[],rfl⟩⟩,fun mask hmask => ?_⟩
  obtain rfl : [160#8]=mask := Option.some.inj hmask
  exact ⟨by decide,by decide,by decide⟩

/-- The later message of the same field encodes a row without gaps. -/
theorem encodes_laterRow : Encodes laterRow (rowValue laterRow) :=
  ⟨by decide,by decide,by decide,by decide,⟨by decide,⟨[],rfl⟩⟩,fun _ hmask => nomatch hmask⟩

/-- The first record stays, with its gap filled by the mean of the two temperatures in
Celsius. -/
theorem addRecords_first_gap :
    ∃ hash,[(gapRow,fun _ _ => (0 : ℚ)),(laterRow,fun _ _ => 1)].foldlM
        (fun hash m => addRecord hash m.2 m.1) (fun _ => none)=some hash ∧
      hash .temp=some [[decimal 2685 100,decimal 3185 100,decimal 3685 100]] := by
  obtain ⟨hash,hfold,hhash⟩ := addRecords_first rowValue
    [(gapRow,fun _ _ => (0 : ℚ)),(laterRow,fun _ _ => 1)] (by
      intro m hm _
      rcases List.mem_pair.mp hm with rfl | rfl
      · exact encodes_gapRow
      · exact encodes_laterRow)
  exact ⟨hash,hfold,(hhash .temp).trans (by decide +kernel)⟩

end Records

end NcdfPlugin.NcdfRecord
