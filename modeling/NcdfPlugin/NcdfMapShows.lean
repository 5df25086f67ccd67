import NcdfPlugin.NcdfFragment
import NcdfPlugin.NcdfReadout
import NcdfPlugin.NcdfScalarFields

/-!
# What the map shows of a file

From the file to the fragments of the map. The overlays of a step that was
read and handed over are drawn from textures built from its grids, whatever
frames and switches come after. A point of the chart falls between the texels
of the nodes around it, so what a fragment shows there are values of the file.
-/

namespace NcdfPlugin.NcdfMapShows

open ExactArithmetic TextureSampling LinearFiltering NcdfLibrary NcdfMessage NcdfTimeStep NcdfReader
open NcdfEvenMap NcdfDimensionOrder NcdfScalarFields NcdfReadout NcdfOverlay NcdfColorTable
open NcdfRenderCache NcdfTextureLookup NcdfQuantisation NcdfTexelBuffer NcdfShader NcdfFragment
open NcdfInterpolation (fullTurn halfTurn)
open NcdfGapFill (fillGrid fillAllGrids_eq_map)
open NcdfColorMap (Rgb)

section Place

variable {α : Type} [Field α] [LinearOrder α] [IsStrictOrderedRing α] {l : Factory α} {lat lon : Axis α}

/-- Between the first and the last column a longitude is drawn as it is. -/
theorem drawnLon_between (hmap : OnMap l lat lon) (hrange : lon.last-lon.start≤fullTurn)
    (repeats : Bool) {p : α} (hlow : lon.start≤p) (hhigh : p≤lon.last) : drawnLon l repeats p=p := by
  have hturn : (fullTurn : α)=halfTurn+halfTurn := by norm_num [fullTurn,halfTurn]
  have htwo : ((1+1 : ℕ) : α)=2 := by norm_num
  unfold drawnLon
  dsimp only
  rw [hmap.lons.1,hmap.lons.2,htwo]
  split
  · rfl
  · rw [if_neg (by linarith),if_neg (by linarith)]

/-- The position of a longitude among the texels of a row, in columns of the grid behind the
border, for both repeat modes. -/
theorem texelPos_lon (hmap : OnMap l lat lon) (hascending : 0 < lon.step)
    (hrange : lon.last-lon.start≤fullTurn) (grid : Grid α) (py : α) {x : α} (hlow : 0≤x)
    (hhigh : x≤(lon.count : α)-1) :
    texelPos (texWidth (textureFor l grid))
        (textureCoords l (textureFor l grid) py (lon.start+x*lon.step)).1=
      x+(borderH (textureFor l grid) : ℕ) := by
  have hdiff := last_sub_start lon
  have hmul := mul_le_mul_of_nonneg_right hhigh hascending.le
  have hwidth : ((texWidth (textureFor l grid) : ℕ) : α)≠0 := by
    refine Nat.cast_ne_zero.mpr ?_
    have htwo := lon.two_le
    have hcolumns : (textureFor l grid).ni=lon.count := hmap.columns
    unfold texWidth
    omega
  have hborder : ((borderH (textureFor l grid) : ℕ) : α)=
      1-(if repeatsAround l l.gui.myMessage.lonLength=true then 1 else 0) := by
    unfold borderH
    change ((if repeatsAround l l.gui.myMessage.lonLength=true then 0 else 1 : ℕ) : α)=_
    split <;> simp
  unfold texelPos textureCoords
  dsimp only
  rw [drawnLon_between hmap hrange _ (by nlinarith) (by linarith),lonStep_eq hmap,hmap.lons.1,
    add_sub_cancel_left,mul_div_cancel_right₀ _ hascending.ne',div_mul_cancel₀ _ hwidth,hborder]
  ring

/-- Texel position of a latitude, in rows of the grid from below. -/
theorem texelPos_lat (hmap : OnMap l lat lon) (grid : Grid α) (px y : α) :
    texelPos (texHeight (textureFor l grid))
        (textureCoords l (textureFor l grid) (lat.start+y*lat.step) px).2=
      (if (textureFor l grid).rowsUp=true then y else (lat.count : α)-1-y)+1 := by
  have hpos := lat.count_sub_one_pos
  have hdiff := last_sub_start lat
  have hheight : ((texHeight (textureFor l grid) : ℕ) : α)≠0 :=
    Nat.cast_ne_zero.mpr (Nat.succ_ne_zero _)
  have hup : (textureFor l grid).rowsUp=decide (0 ≤ lat.step) := by rw [←hmap.jIncr]; rfl
  have hstep := lat.step_ne
  unfold texelPos textureCoords latStep
  dsimp only
  rw [div_mul_cancel₀ _ hheight,hmap.rows,hmap.lats.1,hmap.lats.2,hup]
  rcases lt_or_gt_of_ne lat.step_ne with hneg | hposs
  · have hle : lat.last ≤ lat.start := by nlinarith
    have habs : |lat.start-lat.last|=-(((lat.count : α)-1)*lat.step) := by
      rw [abs_of_nonneg (by linarith)]
      linarith
    rw [max_eq_left hle,min_eq_right hle,habs,decide_eq_false (not_le.mpr hneg),
      if_neg Bool.false_ne_true,lat.last_eq]
    field_simp
    ring
  · have hle : lat.start ≤ lat.last := by nlinarith
    have habs : |lat.last-lat.start|=((lat.count : α)-1)*lat.step := by
      rw [abs_of_nonneg (by linarith),hdiff]
    rw [max_eq_right hle,min_eq_left hle,habs,decide_eq_true hposs.le,if_pos rfl,
      add_sub_cancel_left]
    field_simp
    ring

/-- A node of the map falls on the centre of the texel that stores it, whichever way the
rows run. -/
theorem textureCoords_node (hmap : OnMap l lat lon) (hascending : 0 < lon.step)
    (hrange : lon.last-lon.start≤fullTurn) (grid : Grid α) {j i : ℕ} (hj : j < lat.count)
    (hi : i < lon.count) :
    textureCoords l (textureFor l grid) (lat.node j) (lon.node i)=
      (centre (texWidth (textureFor l grid)) (nodePlace (textureFor l grid) (j,i)).2,
        centre (texHeight (textureFor l grid)) (nodePlace (textureFor l grid) (j,i)).1) := by
  have hcolumns : (textureFor l grid).ni=lon.count := hmap.columns
  have hrows : (textureFor l grid).nj=lat.count := hmap.rows
  have hcentre {n k : ℕ} {u : α} (hn : n≠0) (hu : texelPos n u=k) : u=centre n k := by
    have hne : (n : α)≠0 := Nat.cast_ne_zero.mpr hn
    rw [centre,eq_div_iff hne,←hu,texelPos]
    ring
  have hx := texelPos_lon hmap hascending hrange grid (lat.node j) (Nat.cast_nonneg (α:=α) i)
    (by rw [le_sub_iff_add_le]; exact_mod_cast hi)
  have hy := texelPos_lat hmap grid (lon.node i) (j : α)
  refine Prod.ext (hcentre ?_ (hx.trans ?_)) (hcentre (Nat.succ_ne_zero _) (hy.trans ?_))
  · unfold texWidth
    omega
  · rw [nodePlace]
    push_cast
    rfl
  · rw [nodePlace,texRow,hrows]
    split
    · push_cast
      rfl
    · rw [Nat.cast_add,Nat.cast_sub (by omega),Nat.cast_sub (by omega),Nat.cast_one]

variable [FloorRing α]

/-- The nodes at most three rows and columns from a cell have values between
two bounds. -/
def BlockBetween (value : ℕ → ℕ → α) (j i : ℕ) (lo hi : α) : Prop :=
  ∀ j' i',j≤j'+3 → j'≤j+3 → i ≤ i'+3 → i' ≤ i+3 →
    value j' i'≠notDef ∧ lo ≤ value j' i' ∧ value j' i'≤hi

/-- Around a point of a cell the texels store nodes near the cell. -/
theorem nearValues_block (hmap : OnMap l lat lon) (hascending : 0 < lon.step)
    (hrange : lon.last-lon.start≤fullTurn) (grid : Grid α) {j i : ℕ} (hj : 3≤j ∧ j+3 < lat.count)
    (hi : 3 ≤ i ∧ i+3 < lon.count) {a b : α} (ha : 0≤a ∧ a<1) (hb : 0≤b ∧ b<1) {lo top : α}
    (hblock : BlockBetween (cellAt grid) j i lo top) :
    NearValues (textureFor l grid)
      (textureCoords l (textureFor l grid) (lat.start+(j+b)*lat.step) (lon.start+(i+a)*lon.step)).1
      (textureCoords l (textureFor l grid) (lat.start+(j+b)*lat.step) (lon.start+(i+a)*lon.step)).2
      lo top := by
  have hcolumns : (textureFor l grid).ni=lon.count := hmap.columns
  have hrows : (textureFor l grid).nj=lat.count := hmap.rows
  have hi1 : ((i+1 : ℕ) : α)≤(lon.count : α)-1 := by
    rw [le_sub_iff_add_le]
    exact_mod_cast (by omega : i+1+1≤lon.count)
  have hx := texelPos_lon hmap hascending hrange grid (lat.start+(j+b)*lat.step)
    (add_nonneg (Nat.cast_nonneg (α:=α) i) ha.1) (by push_cast at hi1; linarith [ha.2])
  have hy := texelPos_lat hmap grid (lon.start+(i+a)*lon.step) (j+b)
  have hcolumn : ⌊texelPos (texWidth (textureFor l grid)) (textureCoords l (textureFor l grid)
      (lat.start+(j+b)*lat.step) (lon.start+(i+a)*lon.step)).1⌋=i+borderH (textureFor l grid) := by
    rw [hx,Int.floor_eq_iff]
    push_cast
    constructor <;> linarith [ha.1,ha.2]
  rintro p ⟨dy,hdy,dx,hdx,rfl⟩
  simp only [around,List.mem_cons,List.not_mem_nil,or_false] at hdy hdx
  -- the column of a texel is that of the point, moved by the step
  obtain ⟨i',hi'⟩ : ∃ i' : ℕ,(i' : ℤ)=i+dx :=
    ⟨((i : ℤ)+dx).toNat,Int.toNat_of_nonneg (by omega)⟩
  have hwidth : i'+borderH (textureFor l grid)<texWidth (textureFor l grid) := by
    unfold texWidth
    omega
  have htexel : texelIndex (textureFor l grid).repeats (texWidth (textureFor l grid))
      (⌊texelPos (texWidth (textureFor l grid)) (textureCoords l (textureFor l grid)
        (lat.start+(j+b)*lat.step) (lon.start+(i+a)*lon.step)).1⌋+dx)=
      i'+borderH (textureFor l grid) := by
    have hplace : (i : ℤ)+borderH (textureFor l grid)+dx=(i'+borderH (textureFor l grid) : ℕ) := by
      push_cast
      omega
    rw [hcolumn,hplace,texelIndex_of_lt _ hwidth]
  -- rows are counted from either end
  obtain ⟨j',hj',hlow,hhigh,hrow⟩ : ∃ j'<lat.count,j≤j'+3 ∧ j'≤j+3 ∧
      ⌊texelPos (texHeight (textureFor l grid)) (textureCoords l (textureFor l grid)
        (lat.start+(j+b)*lat.step) (lon.start+(i+a)*lon.step)).2⌋+dy=
          (texRow (textureFor l grid) j'+1 : ℕ) := by
    rw [hy]
    by_cases hup : (textureFor l grid).rowsUp=true
    · have hfloor : ⌊(j : α)+b+1⌋=(j : ℤ)+1 := by
        rw [Int.floor_eq_iff]
        push_cast
        constructor <;> linarith [hb.1,hb.2]
      obtain ⟨j',hj'⟩ : ∃ j' : ℕ,(j' : ℤ)=j+dy :=
        ⟨((j : ℤ)+dy).toNat,Int.toNat_of_nonneg (by omega)⟩
      refine ⟨j',by omega,by omega,by omega,?_⟩
      rw [if_pos hup,hfloor,texRow,if_pos hup]
      omega
    · obtain ⟨z,hz,hfloor⟩ : ∃ z : ℤ,(z=lat.count-j ∨ z=lat.count-j-1) ∧
          ⌊(lat.count : α)-1-(j+b)+1⌋=z := by
        by_cases hzero : b=0
        · refine ⟨lat.count-j,Or.inl rfl,?_⟩
          rw [Int.floor_eq_iff,hzero]
          push_cast
          constructor <;> linarith
        · have hpos := lt_of_le_of_ne hb.1 (Ne.symm hzero)
          refine ⟨lat.count-j-1,Or.inr rfl,?_⟩
          rw [Int.floor_eq_iff]
          push_cast
          constructor <;> linarith [hb.2]
      obtain ⟨j',hj'⟩ : ∃ j' : ℕ,(j' : ℤ)=lat.count-(z+dy) :=
        ⟨((lat.count : ℤ)-(z+dy)).toNat,Int.toNat_of_nonneg (by omega)⟩
      refine ⟨j',by omega,by omega,by omega,?_⟩
      rw [if_neg hup,hfloor,texRow,if_neg hup,hrows]
      omega
  have hheight : texRow (textureFor l grid) j'+1<texHeight (textureFor l grid) :=
    Nat.succ_lt_succ ((texRow_lt (textureFor l grid) (by omega)).trans (Nat.lt_succ_self _))
  rw [blockTexel,htexel,hrow,texelIndex_of_lt _ hheight]
  exact ⟨(j',i'),(stores_iff (by omega) (by omega) hwidth).mpr (Or.inl rfl),
    hblock j' i' hlow hhigh (by omega) (by omega)⟩

end Place

section Frames

variable {α : Type} [Field α] [LinearOrder α] {l s : Factory α}

/-- A draw is of the grid on display, with its sizes. -/
structure DrawOf (s : Factory α) (d : Draw α) : Prop where
  /-- The grid of its overlay. -/
  grid : gridOf s.gui d.colorFunc=some d.grid
  /-- Its rows. -/
  rows : d.nj=s.gui.myMessage.latLength
  /-- Its columns. -/
  columns : d.ni=s.gui.myMessage.lonLength

/-- Each draw of an overlay is of its own grid, with the sizes of the message. -/
theorem drawOf_renderAsked (w : FrameWorld) (s : Factory α) (X : ColorFunc) :
    ∀ d∈(renderAsked w s X).2,DrawOf s d := by
  have hdraw {s' : Factory α} {grid : Grid α} (hgrid : gridOf s.gui X=some grid) :
      ∀ d∈drawTexture w s' grid s.gui.myMessage.latLength s.gui.myMessage.lonLength X,DrawOf s d := by
    intro d hd
    unfold drawTexture at hd
    split at hd
    · split at hd
      · cases hd
      · obtain rfl := List.mem_singleton.mp hd
        exact ⟨hgrid,rfl,rfl⟩
    · cases hd
  intro d hd
  unfold renderAsked at hd
  split at hd
  · unfold renderGridOverlay at hd
    dsimp only at hd
    split at hd
    · cases hd
    next grid hgrid =>
      split at hd
      · cases hd
      · split at hd
        · exact hdraw hgrid d hd
        · split at hd
          · exact hdraw hgrid d hd
          · cases hd
  · cases hd

variable [FloorRing α]

/-- A frame draws the grids of the load. -/
theorem drawOf_doRender (h : CachesFrom l s) (hdata : SameData l s) (w : FrameWorld) :
    ∀ d∈(doRender w s).2,DrawOf l d := by
  have hview {s' : Factory α} (hgui : s'.gui=l.gui) {d : Draw α} (hd : DrawOf s' d) : DrawOf l d := by
    obtain ⟨hgrid,hrows,hcolumns⟩ := hd
    rw [hgui] at hgrid hrows hcolumns
    exact ⟨hgrid,hrows,hcolumns⟩
  intro d hd
  cases hrenders : renders s with
  | false =>
    rw [doRender,if_pos hrenders] at hd
    cases hd
  | true =>
    obtain ⟨hattached,-,hsizes⟩ := renders_true hrenders
    have hcurrent := overlayRendered_renderAsked h.textures hdata w .seaCurrent
    have hseaTemp := overlayRendered_renderAsked hcurrent.textures (hdata.view hcurrent.view) w .seaTemp
    have hdata2 : SameData l (afterSeaTemp w s) := (hdata.view hcurrent.view).view hseaTemp.view
    have hview2 : SameView s (afterSeaTemp w s) := hcurrent.view.trans hseaTemp.view
    have hcaches2 : CachesFrom l (afterSeaTemp w s) := hseaTemp.caches (hcurrent.caches h.iso).iso
    have hstage := isoLines_stage hcaches2 hdata2 (hview2.attached.trans hattached)
      (by rw [hview2.gui]; exact hsizes)
    rw [isoAsked_of_view hview2] at hstage
    rw [NcdfRenderCache.doRender_eq w hrenders] at hd
    rcases List.mem_append.mp hd with hfirst | hlast
    · rcases List.mem_append.mp hfirst with hd | hd
      · exact hview hdata.gui (drawOf_renderAsked w s .seaCurrent d hd)
      · exact hview (hdata.view hcurrent.view).gui (drawOf_renderAsked w _ .seaTemp d hd)
    · exact hview (hdata2.view hstage.2.1).gui (drawOf_renderAsked w _ .salinity d hlast)

/-- Events that leave the loaded data alone: frames, switches, closing. -/
def KeepsData : OverlayEvent α → Prop
  | .load _ _ => False
  | .fileChanged => False
  | _ => True

/-- The data and the valid caches are those of a load. -/
structure FromLoad (l s : Factory α) : Prop where
  /-- The data. -/
  data : SameData l s
  /-- The caches. -/
  caches : CachesFrom l s

/-- A load leaves no texture that is still valid, so each is that of the load. -/
theorem fromLoad_load {s : Factory α} (env : Env α) {m : DataMessage α} (hdata : hasAnyData m=true) :
    FromLoad (overlayStep s (.load env m)) (overlayStep s (.load env m)) := by
  refine ⟨SameData.refl _,fun X hX => ?_,fun hvalid => ?_⟩
  · simp [Cached,overlayStep,overlayEvent,hdata,setData] at hX
  · simp [overlayStep,overlayEvent,hdata,setData] at hvalid

/-- An event keeps them. -/
theorem fromLoad_step (h : FromLoad l s) {e : OverlayEvent α} (he : KeepsData e) :
    FromLoad l (overlayStep s e) := by
  cases e with
  | load env m => exact he.elim
  | fileChanged => exact he.elim
  | closed => exact ⟨⟨h.data.gui,h.data.lats,h.data.lons⟩,h.caches.textures,h.caches.iso⟩
  | toggle flags => exact ⟨⟨h.data.gui,h.data.lats,h.data.lons⟩,h.caches.textures,h.caches.iso⟩
  | frame w =>
    change FromLoad l (doRender w s).1
    cases hrenders : renders s with
    | false =>
      rw [doRender,if_pos hrenders]
      exact h
    | true =>
      have hframe := frameRendered_doRender h.caches h.data w hrenders
      exact ⟨h.data.view hframe.view,hframe.caches⟩

/-- Whatever is drawn after a load, up to the next one, is drawn from the grids of that load
and in a texture of these. -/
theorem drawn_from_load (h : FromLoad l s) {events : List (OverlayEvent α)}
    (hevents : ∀ e∈events,KeepsData e) :
    ∀ d∈drawsAlong s events,DrawOf l d ∧ d.texture=textureFor l d.grid := by
  induction events generalizing s with
  | nil =>
    intro d hd
    cases hd
  | cons e events ih =>
    obtain ⟨hhead,htail⟩ := List.forall_mem_cons.mp hevents
    intro d hd
    rcases List.mem_append.mp hd with hhere | hlater
    · cases e with
      | frame w =>
        have hdraw : DrawOf l d := drawOf_doRender h.caches h.data w d hhere
        have htexture : textureOf l d.colorFunc=some d.texture := by
          have hin : d∈(doRender w s).2 := hhere
          cases hrenders : renders s with
          | false =>
            rw [doRender,if_pos hrenders] at hin
            cases hin
          | true => exact (frameRendered_doRender h.caches h.data w hrenders).draws d hin
        rw [textureOf,hdraw.grid] at htexture
        exact ⟨hdraw,(Option.some.inj htexture).symm⟩
      | load env m => exact hhead.elim
      | fileChanged => exact hhead.elim
      | closed => cases hhere
      | toggle flags => cases hhere
    · exact ih (fromLoad_step h hhead) htail d hlater

end Frames

section File

variable {α : Type} [Field α] [LinearOrder α]

/-- The variables of a file that the overlays show, each with the order of its
dimensions and with its values. -/
structure StepVars (α : Type) where
  /-- Eastward component. -/
  u : ℤ
  /-- Northward component. -/
  v : ℤ
  /-- Dimensions of both. -/
  current : CurrentLayout
  /-- Values of the eastward component. -/
  uValue : List ℕ → α
  /-- Values of the northward component. -/
  vValue : List ℕ → α
  /-- Dimensions of sea temperature. -/
  seaTemp : CurrentLayout
  /-- Its values. -/
  seaTempValue : List ℕ → α
  /-- Dimensions of salinity. -/
  salinity : CurrentLayout
  /-- Its values. -/
  salinityValue : List ℕ → α

/-- Value of a step on file for an overlay, by latitude and longitude index:
force of the current, degrees Celsius, salinity. -/
def StepVars.field (x : StepVars α) (env : Env α) (cache : FileCache) (file : NcFile α) (t : ℕ) :
    ColorFunc → ℕ → ℕ → α
  | .seaCurrent,j,i =>
    let current := fileCurrent env file x.current x.current.dims x.u x.v x.uValue x.vValue t j i
    magnitudeCell env current.1 current.2
  | .seaTemp,j,i =>
    fileScalar (sstCell (isKelvin file (sstVarid cache file)) (scalarFill file (sstVarid cache file)))
      x.seaTemp x.seaTempValue t j i
  | .salinity,j,i =>
    fileScalar (salCell (scalarFill file (salVarid cache file))) x.salinity x.salinityValue t j i

/-- A step of a file is about to be read, with latitude before longitude in
each variable that is read. -/
structure StepOnFile (env : Env α) (cache : FileCache) (file : NcFile α) (m : DataMessage α)
    (x : StepVars α) (t : ℕ) : Prop where
  /-- The current is ready to be read. -/
  ready : ReadyStep env cache file m x.current t x.u x.v
  /-- Dimensions of the current. -/
  layout : HasLayout file x.u x.v x.current x.current.dims
  /-- Delivered values of the eastward component. -/
  uDelivers : DeliversSlabs file x.current.dims x.u x.uValue
  /-- Delivered values of the northward component. -/
  vDelivers : DeliversSlabs file x.current.dims x.v x.vValue
  /-- Order of the axes. -/
  latFirst : x.current.latFirst
  /-- Sea temperature, if there is any. -/
  seaTemp : ReadsSeaTemp env cache file →
    ScalarStep file (sstVarid cache file) m x.seaTemp t x.seaTempValue ∧ x.seaTemp.latFirst
  /-- Salinity, if there is any. -/
  salinity : ReadsSalinity env cache file →
    ScalarStep file (salVarid cache file) m x.salinity t x.salinityValue ∧ x.salinity.latFirst

variable {env : Env α} {cache : FileCache} {file : NcFile α} {m : DataMessage α} {x : StepVars α}
  {t : ℕ}

/-- The step is read. -/
theorem readTimeStepData_stepOnFile (h : StepOnFile env cache file m x t) :
    ∃ result,readTimeStepData env cache m=(true,result) := by
  obtain ⟨cells,hcells,-⟩ := readCurrent_pairs h.ready h.layout h.uDelivers h.vDelivers
    (requestFits_self h.layout h.ready.time_lt)
  have hread := readCurrentStep_eq h.ready
  rw [hcells] at hread
  exact ⟨_,(readTimeStepData_ok_iff _).mpr
    ⟨⟨h.ready.latValues,h.ready.lonValues⟩,file,_,h.ready.opens,hread,rfl⟩⟩

omit [LinearOrder α] in
/-- The grids of the step have the rows and columns of every scalar variable that is read
with it. -/
theorem StepOnFile.sizes (h : StepOnFile env cache file m x t) {varid : ℤ} {L : CurrentLayout}
    {value : List ℕ → α} (hstep : ScalarStep file varid m L t value) :
    m.noPointsMeridian=L.latLen ∧ m.noPointsParallel=L.lonLen :=
  ⟨h.ready.noPointsMeridian.trans (h.ready.latLength.symm.trans hstep.latLength),
    h.ready.noPointsParallel.trans (h.ready.lonLength.symm.trans hstep.lonLength)⟩

/-- A scalar grid on display holds at each node that has a value on file this value, since
filling only touches gaps. -/
theorem scalar_on_display {values : Option (List α)} {nj ni : ℕ} {cell : α → α} {L : CurrentLayout}
    {value : List ℕ → α} (h : ShowsScalar (values.map (buildGrid nj ni)) cell L value t)
    (hfirst : L.latFirst) {grid : Grid α}
    (hgrid : (values.map (buildGrid nj ni)).map (fillGrid ni nj)=some grid) {j i : ℕ}
    (hj : j < L.latLen) (hi : i < L.lonLen) (hdef : fileScalar cell L value t j i≠notDef) :
    cellAt grid j i=fileScalar cell L value t j i := by
  obtain ⟨built,hbuilt,hvalues⟩ := h.own hfirst
  have hvalue := hvalues j hj i hi
  obtain ⟨_,-,rfl⟩ := Option.map_eq_some_iff.mp hbuilt
  rw [hbuilt,Option.map_some,Option.some_inj] at hgrid
  rw [←hgrid,cellAt_fillGrid (NcdfCurrentMask.shaped_buildGrid _ _ _) (by rwa [hvalue]),hvalue]

/-- The force at a node is computed from both components at this node. -/
theorem cellAt_magnitudeGrid (env : Env α) {nj ni j i : ℕ} (hj : j<nj) (hi : i<ni)
    (u v : Grid α) :
    cellAt (magnitudeGrid env nj ni u v) j i=magnitudeCell env (cellAt u j i) (cellAt v j i) := by
  simp [cellAt,magnitudeGrid,hj,hi]

/-- The grid of an overlay holds the value of the file at each node that has one. -/
theorem field_shown (h : StepOnFile env cache file m x t) (gui : GuiGrids α) {X : ColorFunc}
    {grid : Grid α} (hgrid : gridOf (readncdfFile env gui (readTimeStepData env cache m).2) X=some grid)
    {j i : ℕ} (hj : j < m.noPointsMeridian) (hi : i < m.noPointsParallel)
    (hdef : x.field env cache file t X j i≠notDef) : cellAt grid j i=x.field env cache file t X j i := by
  obtain ⟨hdata,gridu,gridv,hgridu,hgridv,hcells⟩ := shown_fileCurrent h.ready h.layout h.uDelivers
    h.vDelivers h.latFirst gui
  obtain ⟨result,hread⟩ := readTimeStepData_stepOnFile h
  obtain ⟨hsst,hsal⟩ := readTimeStepData_scalars hread h.ready.opens
  have hsizes := readTimeStepData_sizes env cache m
  rw [hread] at hgrid hgridu hgridv hdata hsizes
  rw [readncdfFile,if_pos hdata,hsizes.1,hsizes.2,fillAllGrids_eq_map] at hgrid hgridu hgridv
  cases X with
  | seaCurrent =>
    have hboth : (fileCurrent env file x.current x.current.dims x.u x.v x.uValue x.vValue t j i).1≠notDef ∧
        (fileCurrent env file x.current x.current.dims x.u x.v x.uValue x.vValue t j i).2≠notDef := by
      by_contra hnone
      exact hdef (if_neg hnone)
    obtain ⟨heast,hnorth⟩ := hcells j (h.ready.noPointsMeridian ▸ hj) i (h.ready.noPointsParallel ▸ hi)
    dsimp only [gridOf] at hgrid hgridu hgridv
    rw [hgridu,hgridv] at hgrid
    obtain rfl := Option.some.inj hgrid
    rw [cellAt_magnitudeGrid env hj hi,heast hboth.1,hnorth hboth.2]
    rfl
  | seaTemp =>
    by_cases hreads : ReadsSeaTemp env cache file
    · obtain ⟨hstep,hfirst⟩ := h.seaTemp hreads
      obtain ⟨hrows,hcolumns⟩ := h.sizes hstep
      have hshown := (scalars_shown hread h.ready.opens hrows hcolumns).1 hreads hstep
      rw [builtGrids,hsizes.1,hsizes.2] at hshown hgrid
      exact scalar_on_display hshown hfirst hgrid (hrows ▸ hj) (hcolumns ▸ hi) hdef
    · rw [if_neg hreads] at hsst
      dsimp only [gridOf,GridSet.map,builtGrids] at hgrid
      rw [hsst] at hgrid
      cases hgrid
  | salinity =>
    by_cases hreads : ReadsSalinity env cache file
    · obtain ⟨hstep,hfirst⟩ := h.salinity hreads
      obtain ⟨hrows,hcolumns⟩ := h.sizes hstep
      have hshown := (scalars_shown hread h.ready.opens hrows hcolumns).2 hreads hstep
      rw [builtGrids,hsizes.1,hsizes.2] at hshown hgrid
      exact scalar_on_display hshown hfirst hgrid (hrows ▸ hj) (hcolumns ▸ hi) hdef
    · rw [if_neg hreads] at hsal
      dsimp only [gridOf,GridSet.map,builtGrids] at hgrid
      rw [hsal] at hgrid
      cases hgrid

end File

section Shown

variable {α : Type} [Field α] [LinearOrder α] [FloorRing α]

/-- Two nodes have different values. -/
def TwoValues (value : ℕ → ℕ → α) (nj ni : ℕ) : Prop :=
  ∃ j < nj,∃ i < ni,∃ j' < nj,∃ i' < ni,
    value j i≠notDef ∧ value j' i'≠notDef ∧ value j i≠value j' i'

/-- What a draw shows of a field on file. -/
structure MapShows (color : ColorFunc → α → Rgb) (l : Factory α) (lat lon : Axis α)
    (field : ℕ → ℕ → α) (d : Draw α) : Prop where
  /-- A node with a value on file is drawn, at its place on the chart. -/
  node : ∀ j < lat.count,∀ i < lon.count,field j i≠notDef → ∀ lut channel,
    (fragment color lut channel d.texture (textureCoords l d.texture (lat.node j) (lon.node i)).1
      (textureCoords l d.texture (lat.node j) (lon.node i)).2).isSome
  /-- In its own table, any point of a cell inside the map is drawn in a blend
  of the colours of two values near those of the nodes around it. -/
  colour : OwnTable d → TwoValues field lat.count lon.count →
    ∀ j i,3≤j ∧ j+3 < lat.count → 3 ≤ i ∧ i+3 < lon.count →
    ∀ a b,0≤a ∧ a<1 → 0≤b ∧ b<1 → ∀ lo hi,BlockBetween field j i lo hi →
      let place := textureCoords l d.texture (lat.start+(j+b)*lat.step) (lon.start+(i+a)*lon.step)
      let unit := (dataRange d.grid d.nj d.ni).dRange/(255 : ℕ)
      ∃ low high share,lo-5*half*unit≤low ∧ low≤high ∧ high≤hi+3*half*unit ∧
        0 ≤ share ∧ share≤1 ∧ ∃ lut,d.colorLUT=some lut ∧
          ∀ channel,fragment color lut channel d.texture place.1 place.2=
            some ((1-share)*unitByte (channel (color d.colorFunc low))+
              share*unitByte (channel (color d.colorFunc high)))

variable [IsStrictOrderedRing α] {env : Env α} {cache : FileCache} {file : NcFile α}
  {m : DataMessage α} {x : StepVars α} {t : ℕ} {l : Factory α} {lat lon : Axis α}

/-- A draw from the grid of a load shows the values that the grid holds. -/
theorem mapShows_of_cells (hmap : OnMap l lat lon) (hascending : 0 < lon.step)
    (hrange : lon.last-lon.start≤fullTurn) (color : ColorFunc → α → Rgb) {d : Draw α}
    (hd : DrawOf l d) (htexture : d.texture=textureFor l d.grid) {field : ℕ → ℕ → α}
    (hcells : ∀ j < lat.count,∀ i < lon.count,field j i≠notDef → cellAt d.grid j i=field j i) :
    MapShows color l lat lon field d := by
  have hni : d.ni=lon.count := hd.columns.trans hmap.columns
  have hnj : d.nj=lat.count := hd.rows.trans hmap.rows
  have hcolumns : (textureFor l d.grid).ni=lon.count := hmap.columns
  have hrows : (textureFor l d.grid).nj=lat.count := hmap.rows
  have hhas {j i : ℕ} (hj : j < lat.count) (hi : i < lon.count) (hdef : field j i≠notDef) :
      HasCell d.grid lat.count lon.count (field j i) :=
    ⟨hdef,j,hj,i,hi,hcells j hj i hi hdef⟩
  have htwo := lat.two_le
  have htwo' := lon.two_le
  refine ⟨fun j hj i hi hdef lut channel => ?_,
    fun hown htwovalues j i hj hi a b ha hb lo hi' hblock => ?_⟩
  · rw [htexture,textureCoords_node hmap hascending hrange d.grid hj hi]
    refine ((drawnWhereShown color lut channel (by omega) (by omega)).node j (by omega) i
      (by omega)).mpr ?_
    change cellAt d.grid j i≠notDef
    rwa [hcells j hj i hi hdef]
  · obtain ⟨j₁,hj₁,i₁,hi₁,j₂,hj₂,i₂,hi₂,hdef₁,hdef₂,hne⟩ := htwovalues
    have hgrid : BlockBetween (cellAt d.grid) j i lo hi' := by
      intro j' i' h₁ h₂ h₃ h₄
      obtain ⟨hdef,hlow,hhigh⟩ := hblock j' i' h₁ h₂ h₃ h₄
      rw [hcells j' (by omega) i' (by omega) hdef]
      exact ⟨hdef,hlow,hhigh⟩
    have hnear := nearValues_block hmap hascending hrange d.grid hj hi ha hb hgrid
    have hfor : textureFor l d.grid=gridTexture d.grid lon.count lat.count
        (decide (0 ≤ l.gui.myMessage.jDirectionIncr)) (repeatsAround l l.gui.myMessage.lonLength) := by
      simp only [textureFor,gridTexture,hmap.columns,hmap.rows]
    rw [htexture,hni,hnj]
    rw [hfor] at hnear ⊢
    obtain ⟨low,high,share,hlow,hle,hhigh,hzero,hone,hdrawn⟩ := fragment_among color d.colorFunc htwo'
      htwo (decide (0 ≤ l.gui.myMessage.jDirectionIncr)) (repeatsAround l l.gui.myMessage.lonLength)
      ⟨_,_,hhas hj₁ hi₁ hdef₁,hhas hj₂ hi₂ hdef₂,hne⟩ hnear
    refine ⟨low,high,share,hlow,hle,hhigh,hzero,hone,_,hown,fun channel => ?_⟩
    rw [hni,hnj]
    exact hdrawn channel

/-- What is on file is what the map shows. After a step has been read and
handed over, in all frames up to the next one, whatever is switched on and off
between them. -/
theorem map_shows_file (h : StepOnFile env cache file m x t) (hload : EvenlyLoaded m lat lon)
    (hascending : 0 < lon.step) (hrange : lon.last-lon.start≤fullTurn) (s : Factory α)
    {events : List (OverlayEvent α)} (hevents : ∀ e∈events,KeepsData e)
    (color : ColorFunc → α → Rgb) :
    let l := overlayStep s (.load env (readTimeStepData env cache m).2)
    ∀ d∈drawsAlong l events,MapShows color l lat lon (x.field env cache file t d.colorFunc) d := by
  intro l d hd
  have hon := hload.onAxes
  have hrowsM : m.noPointsMeridian=lat.count := hon.rows
  have hcolumnsM : m.noPointsParallel=lon.count := hon.columns
  obtain ⟨hdata,-⟩ := shown_fileCurrent h.ready h.layout h.uDelivers h.vDelivers h.latFirst s.gui
  have honRead : OnAxes (readTimeStepData env cache m).2 lat lon := by
    have hsame : emptied (readTimeStepData env cache m).2=emptied m := readTimeStepData_emptied env cache m
    have hread : OnAxes (emptied (readTimeStepData env cache m).2) lat lon := by
      rw [hsame]
      exact ⟨hon.1,hon.2,hon.3,hon.4,hon.5,hon.6,hon.7,hon.8,hon.9,hon.10⟩
    exact ⟨hread.1,hread.2,hread.3,hread.4,hread.5,hread.6,hread.7,hread.8,hread.9,hread.10⟩
  have hmap : OnMap l lat lon := onMap_load s env hdata honRead hascending
  obtain ⟨hdraw,htexture⟩ := drawn_from_load (fromLoad_load (s := s) env hdata) hevents d hd
  have hgui : l.gui=readncdfFile env s.gui (readTimeStepData env cache m).2 := by
    change (overlayEvent s (.load env (readTimeStepData env cache m).2)).1.gui=_
    rw [overlayEvent,if_pos hdata]
    rfl
  have hgrid := hdraw.grid
  rw [hgui] at hgrid
  exact mapShows_of_cells hmap hascending hrange color hdraw htexture fun j hj i hi hdef =>
    field_shown h s.gui hgrid (hrowsM ▸ hj) (hcolumnsM ▸ hi) hdef

end Shown

section Sample

/-- One time step of seven latitudes and seven longitudes. -/
def degreesFile : NcFile ℚ :=
  NcdfDialog.sampleFile [0] [10,11,12,13,14,15,16] [20,21,22,23,24,25,26] fun _ => []

/-- The eastward component tells the nodes apart, and so does the temperature;
the northward component is zero. -/
def degreesValue (varid : ℤ) (index : List ℕ) : ℚ :=
  if varid=3 then digits index else if varid=4 then 0 else digits index/10

/-- The file with these values. -/
def valuesFile : NcFile ℚ :=
  {degreesFile with
    getVaraFloat := fun varid start count =>
      if InRange degreesFile [0,1,2] start count then
        ⟨0,(FlatLayout.hyperslab ((start.zip count).take 3)).map (degreesValue varid)⟩
      else ⟨-1,[]⟩}

/-- A world with this file. -/
def valuesEnv : Env ℚ := NcdfDialog.sampleEnv fun _ => some valuesFile

/-- Its loaded time step. -/
def valuesStep : DataMessage ℚ := (NcdfDialog.fileSteps valuesEnv "d\\a.nc").getD 0 {}

/-- The identifiers cached when it was loaded. -/
def valuesCache : FileCache := FileCache.ofIds (NcdfDiscovery.discoverVars valuesFile)

/-- Latitude before longitude, seven of each. -/
def sevenBySeven : CurrentLayout := {latitudeMajor with latLen := 7,lonLen := 7}

/-- Variables of the file. -/
def valuesVars : StepVars ℚ :=
  ⟨3,4,sevenBySeven,degreesValue 3,degreesValue 4,sevenBySeven,degreesValue 5,sevenBySeven,
    degreesValue 6⟩

/-- The library delivers the values of the sample file for every request in range. -/
theorem delivers_valuesFile (varid : ℤ) :
    DeliversBoxes valuesFile [0,1,2] (degreesValue varid) (valuesFile.getVaraFloat varid) := by
  refine ⟨fun _ _ hrange => if_pos hrange,fun start count hrange => ?_⟩
  have hlost : ¬InRange degreesFile [0,1,2] start count := hrange
  change (if InRange degreesFile [0,1,2] start count then _ else _ : ReadOutcome ℚ).retval≠0
  rw [if_neg hlost]
  decide

/-- So do the reads of its variables. -/
theorem deliversSlabs_valuesFile {varid : ℤ} (h : 2<varid) :
    DeliversSlabs valuesFile [0,1,2] varid (degreesValue varid) := by
  have htype : valuesFile.varType varid=.other := by
    change (if varid≤2 then NcType.double else NcType.other)=_
    rw [if_neg (by omega)]
  refine ⟨fun hdouble => ?_,fun _ => delivers_valuesFile varid⟩
  rw [htype] at hdouble
  cases hdouble

/-- The sample file has time before latitude before longitude. -/
theorem layout_values : HasLayout valuesFile 3 4 sevenBySeven [0,1,2] :=
  ⟨rfl,rfl,List.Perm.refl _,by decide,⟨by decide,by decide,by decide⟩,by decide,by decide,by decide,
    by decide⟩

/-- Its first step is about to be read, with a temperature and without a salinity. -/
theorem stepOnFile_values : StepOnFile valuesEnv valuesCache valuesFile valuesStep valuesVars 0 where
  ready := ⟨rfl,fun _ => rfl,by decide +kernel,by decide,by decide,by decide +kernel,by decide +kernel,
    by decide +kernel,by decide +kernel,by decide +kernel,by decide +kernel,by decide +kernel,
    by decide +kernel⟩
  layout := layout_values
  uDelivers := deliversSlabs_valuesFile (by decide)
  vDelivers := deliversSlabs_valuesFile (by decide)
  latFirst := by decide
  seaTemp := fun _ => by
    have hid : sstVarid valuesCache valuesFile=5 := by decide +kernel
    rw [hid]
    exact ⟨⟨rfl,by decide,by decide,by decide,by decide,requestFits_self layout_values (by decide),
      delivers_valuesFile 5,by decide +kernel,by decide +kernel,by decide +kernel⟩,by decide⟩
  salinity := fun hreads => absurd hreads (by decide +kernel)

/-- Its coordinates are seven degrees of latitude and seven of longitude. -/
theorem evenlyLoaded_values : EvenlyLoaded valuesStep (degreesFrom 10 5) (degreesFrom 20 5) := by
  have hlats : (degreesFrom 10 5).values=[10,11,12,13,14,15,16] := by decide +kernel
  have hlons : (degreesFrom 20 5).values=[20,21,22,23,24,25,26] := by decide +kernel
  refine ⟨valuesEnv,"d\\a.nc",NcdfDiscovery.discoverVars valuesFile,
    NcdfTimeUnits.fileTimeInfo valuesEnv valuesFile (NcdfDiscovery.discoverVars valuesFile).time [0],
    [0],0,fun _ => rfl,?_⟩
  rw [hlats,hlons]
  rfl

/-- The current and the temperature of that file, drawn in one frame. -/
theorem map_shows_file_values :
    let l := overlayStep {flags := {showSeaTemp := true}}
      (.load valuesEnv (readTimeStepData valuesEnv valuesCache valuesStep).2)
    (drawsAlong l [.frame {}]).length=2 ∧
      ∀ d∈drawsAlong l [.frame {}],MapShows NcdfColorMap.colorOf l (degreesFrom 10 5) (degreesFrom 20 5)
        (valuesVars.field valuesEnv valuesCache valuesFile 0 d.colorFunc) d :=
  ⟨by decide +kernel,map_shows_file stepOnFile_values evenlyLoaded_values (by decide) (by decide +kernel)
    {flags := {showSeaTemp := true}} (by simp [KeepsData]) NcdfColorMap.colorOf⟩

end Sample

end NcdfPlugin.NcdfMapShows
