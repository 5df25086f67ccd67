import NcdfPlugin.NcdfOverlay
import NcdfPlugin.NcdfEvenMap
import NcdfPlugin.SharedSlot

/-!
# Ownership of the colour table

The colour table is a slot that the overlays share: an overlay fills it when
its texture is built, once after a load, and relies on it whenever it is
drawn. The factory refines that slot, so every draw finds its own table
exactly when, between two loads, no overlay is drawn again after another one
was drawn.
-/

namespace NcdfPlugin.NcdfColorTable

open GuardedRun SharedSlot ExactArithmetic NcdfMessage NcdfReader NcdfInterpolation NcdfIsoLine
open NcdfOverlay

variable {α : Type} [Field α] [LinearOrder α]

/-- The table bound by a draw was computed with the overlay's own colour
function over the range of its present grid. -/
def OwnTable (d : Draw α) : Prop := d.colorLUT=some (ownLUT d.colorFunc d.grid d.nj d.ni)

instance (d : Draw α) : Decidable (OwnTable d) := inferInstanceAs (Decidable (_=_))

/-- Every buffer of a frame can be allocated. -/
structure Allocates (w : FrameWorld) : Prop where
  /-- Texel buffers. -/
  texData : ∀ X,w.texData X=true
  /-- Vertex buffers. -/
  lva : ∀ X,w.lva X=true

/-- The bounds of the present message are too narrow to draw in. -/
def Narrow (s : Factory α) : Prop :=
  Degenerate s s.gui.myMessage.latLength s.gui.myMessage.lonLength

instance (s : Factory α) : Decidable (Narrow s) := inferInstanceAs (Decidable (Degenerate _ _ _))

/-- What a frame decides by: the fields that rendering leaves alone. -/
structure SameView (s s' : Factory α) : Prop where
  /-- Fields of the dialog. -/
  gui : s'.gui=s.gui
  /-- Pointer to the dialog. -/
  attached : s'.attached=s.attached
  /-- Visibility settings. -/
  flags : s'.flags=s.flags
  /-- Latitude bounds. -/
  lats : s'.tlat=s.tlat ∧ s'.blat=s.blat
  /-- Longitude bounds. -/
  lons : s'.tlon=s.tlon ∧ s'.blon=s.blon

/-- A frame in which overlays can be drawn. -/
structure Drawable (w : FrameWorld) (s : Factory α) : Prop where
  /-- Rendering is by OpenGL. -/
  gl : w.toDC=false
  /-- Allocations succeed. -/
  allocates : Allocates w
  /-- The dialog is known. -/
  attached : s.attached=true
  /-- There are two columns. -/
  columns : 2 ≤ s.gui.myMessage.lonLength
  /-- There are two rows. -/
  rows : 2 ≤ s.gui.myMessage.latLength

/-- The texture of an overlay is in place and not flagged. -/
def Cached (s : Factory α) (X : ColorFunc) : Prop :=
  (s.slots X).hasTex=true ∧ (s.slots X).needsRebuild=false

/-- A texture is announced only when there is one. -/
def TexturesInPlace (s : Factory α) : Prop :=
  ∀ X,(s.slots X).hasTex=true → (s.slots X).texture.isSome=true

section Overlay

variable {w : FrameWorld} {s s' : Factory α} {X : ColorFunc} {grid : Grid α}

omit [LinearOrder α] in
theorem SameView.refl (s : Factory α) : SameView s s := ⟨rfl,rfl,rfl,⟨rfl,rfl⟩,rfl,rfl⟩

omit [LinearOrder α] in
/-- The relation composes, as it does over the overlays of one frame. -/
theorem SameView.trans {s'' : Factory α} (h : SameView s s') (h' : SameView s' s'') :
    SameView s s'' :=
  ⟨h'.gui.trans h.gui,h'.attached.trans h.attached,h'.flags.trans h.flags,
    ⟨h'.lats.1.trans h.lats.1,h'.lats.2.trans h.lats.2⟩,
    h'.lons.1.trans h.lons.1,h'.lons.2.trans h.lons.2⟩

/-- Whether there is nothing to draw is decided by what stays the same. -/
theorem SameView.degenerate_iff (h : SameView s s') (nj ni : ℕ) :
    Degenerate s' nj ni ↔ Degenerate s nj ni := by
  simp only [Degenerate,h.lats.1,h.lats.2,h.lons.1,h.lons.2]

/-- Whether the map is too narrow for a texture is decided by what stays the same. -/
theorem SameView.narrow_iff (h : SameView s s') : Narrow s' ↔ Narrow s := by
  rw [Narrow,h.gui]
  exact h.degenerate_iff _ _

omit [LinearOrder α] in
/-- What can be drawn before an overlay can still be drawn after it. -/
theorem SameView.drawable (h : SameView s s') (hd : Drawable w s) : Drawable w s' :=
  ⟨hd.gl,hd.allocates,h.attached.trans hd.attached,by rw [h.gui]; exact hd.columns,
    by rw [h.gui]; exact hd.rows⟩

omit [LinearOrder α] in
/-- Whether an overlay is asked for does not change within a frame. -/
theorem SameView.asked_eq (h : SameView s s') : asked w s' X=asked w s X := by
  cases X <;> simp only [asked,h.flags,h.gui]

/-- A frame that can draw gets past the guards of `RenderGridOverlay`. -/
theorem renderGridOverlay_eq (hd : Drawable w s) (hgrid : gridOf s.gui X=some grid) :
    renderGridOverlay w s X=
      (let ni := s.gui.myMessage.lonLength
      let nj := s.gui.myMessage.latLength
      let fresh := lazyRebuild s X
      if (fresh.slots X).hasTex=true then (fresh,drawTexture w fresh grid nj ni X)
      else
        let created := createTexture w fresh grid nj ni X
        if created.2=true then (created.1,drawTexture w created.1 grid nj ni X)
        else (created.1,[])) := by
  have hguard : ¬(s.attached=false ∨ s.gui.myMessage.lonLength<2 ∨
      s.gui.myMessage.latLength<2 ∨ w.toDC=true) := by
    have hcolumns := hd.columns
    have hrows := hd.rows
    simp only [hd.attached,hd.gl,Bool.true_eq_false,Bool.false_eq_true,false_or,or_false]
    omega
  simp only [renderGridOverlay,hgrid,if_neg hguard]

/-- Effect of rendering one overlay, with the table it draws with. -/
structure Rendered (s : Factory α) (X : ColorFunc) (grid : Grid α) (lut : Option (ColorLUT α))
    (r : Factory α×List (Draw α)) : Prop where
  /-- What the frame decides by is as before. -/
  view : SameView s r.1
  /-- The textures of the other overlays are as before. -/
  others : ∀ Y,Y≠X → r.1.slots Y=s.slots Y
  /-- The texture of the overlay is in place. -/
  cached : Cached r.1 X ∧ (r.1.slots X).texture.isSome=true
  /-- The table afterwards. -/
  table : r.1.colorLUT=lut
  /-- In narrow bounds nothing is drawn. -/
  silent : Narrow s → r.2=[]
  /-- Otherwise the draw has its own table exactly when this one is. -/
  owned : ¬Narrow s → ((∀ d∈r.2,OwnTable d) ↔
    lut=some (ownLUT X grid s.gui.myMessage.latLength s.gui.myMessage.lonLength))

/-- A texture that is in place is drawn with the present table of colours, unless the bounds
of the map are degenerate. -/
theorem drawTexture_eq (ha : Allocates w) (grid : Grid α) (nj ni : ℕ)
    {texture : TextureData α} (htexture : (s.slots X).texture=some texture)
    (hhas : (s.slots X).hasTex=true) :
    drawTexture w s grid nj ni X=
      if Degenerate s nj ni then [] else [⟨X,grid,ni,nj,texture,s.colorLUT,s.uniforms⟩] := by
  simp only [drawTexture,htexture,hhas,ha.lva X,Bool.true_eq_false,false_or,or_false]

/-- Rendering ends with the draw of the texture that is then in place. -/
theorem rendered_of_draw (ha : Allocates w) (hview : SameView s s')
    (hothers : ∀ Y,Y≠X → s'.slots Y=s.slots Y) (hcached : Cached s' X)
    (hplace : (s'.slots X).texture.isSome=true) :
    Rendered s X grid s'.colorLUT
      (s',drawTexture w s' grid s.gui.myMessage.latLength s.gui.myMessage.lonLength X) := by
  obtain ⟨texture,htexture⟩ := Option.isSome_iff_exists.mp hplace
  rw [drawTexture_eq ha grid _ _ htexture hcached.1]
  have hnarrow := hview.degenerate_iff s.gui.myMessage.latLength s.gui.myMessage.lonLength
  refine ⟨hview,hothers,⟨hcached,hplace⟩,rfl,fun h => ?_,fun h => ?_⟩
  · exact if_pos (hnarrow.mpr h)
  · have hwide : ¬Degenerate s' s.gui.myMessage.latLength s.gui.myMessage.lonLength :=
      fun hc => h (hnarrow.mp hc)
    simp only [if_neg hwide,List.mem_singleton,forall_eq,OwnTable]

/-- An overlay whose texture is still valid is drawn from it with the table of colours that
happens to be there. -/
theorem rendered_cached (hd : Drawable w s) (hgrid : gridOf s.gui X=some grid)
    (hplace : TexturesInPlace s) (hc : Cached s X) :
    Rendered s X grid s.colorLUT (renderGridOverlay w s X) := by
  have hlazy : lazyRebuild s X=s := by simp [lazyRebuild,hc.2]
  rw [renderGridOverlay_eq hd hgrid]
  simp only [hlazy,hc.1,if_true]
  exact rendered_of_draw hd.allocates (SameView.refl s) (fun _ _ => rfl) hc (hplace X hc.1)

omit [LinearOrder α] in
/-- Dropping a flagged texture leaves an overlay without a valid one without
any, and the rest as it was. -/
theorem lazyRebuild_spec (hc : ¬Cached s X) :
    ((lazyRebuild s X).slots X).hasTex=false ∧ SameView s (lazyRebuild s X) ∧
      ∀ Y,Y≠X → (lazyRebuild s X).slots Y=s.slots Y := by
  unfold lazyRebuild
  split
  next => exact ⟨by simp [Factory.setSlot],⟨rfl,rfl,rfl,⟨rfl,rfl⟩,rfl,rfl⟩,
    fun Y hY => by simp [Factory.setSlot,hY]⟩
  next hflag =>
    refine ⟨?_,SameView.refl s,fun _ _ => rfl⟩
    by_contra hhas
    exact hc ⟨by simpa using hhas,by simpa using hflag⟩

/-- Creating a texture puts it and the overlay's own table in place, and touches no other
texture. -/
theorem createTexture_spec (ha : Allocates w) (s : Factory α) (grid : Grid α) (nj ni : ℕ)
    (X : ColorFunc) :
    ∃ s' : Factory α,createTexture w s grid nj ni X=(s',true) ∧
      SameView s s' ∧ (∀ Y,Y≠X → s'.slots Y=s.slots Y) ∧
      (Cached s' X ∧ (s'.slots X).texture.isSome=true) ∧
      s'.colorLUT=some (ownLUT X grid nj ni) := by
  unfold createTexture
  rw [if_neg (by simp [ha.texData X])]
  refine ⟨_,rfl,⟨rfl,rfl,rfl,⟨rfl,rfl⟩,rfl,rfl⟩,fun Y hY => ?_,?_,rfl⟩
  · simp only [Factory.setSlot,if_neg hY]
  · simp [Factory.setSlot,Cached]

/-- An overlay without a valid texture is built and drawn with its own table. -/
theorem rendered_fresh (hd : Drawable w s) (hgrid : gridOf s.gui X=some grid)
    (hc : ¬Cached s X) :
    Rendered s X grid
      (some (ownLUT X grid s.gui.myMessage.latLength s.gui.myMessage.lonLength))
      (renderGridOverlay w s X) := by
  obtain ⟨hno,hview,hothers⟩ := lazyRebuild_spec hc
  obtain ⟨s',hcreated,hview',hothers',⟨hcached,hplace⟩,htable⟩ :=
    createTexture_spec hd.allocates (lazyRebuild s X) grid s.gui.myMessage.latLength
      s.gui.myMessage.lonLength X
  rw [renderGridOverlay_eq hd hgrid,←htable]
  simp only [hno,Bool.false_eq_true,if_false,hcreated,if_true]
  exact rendered_of_draw hd.allocates (hview.trans hview')
    (fun Y hY => (hothers' Y hY).trans (hothers Y hY)) hcached hplace

end Overlay

section Frame

variable {w : FrameWorld} {s s' : Factory α} {X : ColorFunc} {slot : SlotState ColorFunc}

/-- The factory behaves as the shared slot does. -/
structure Refines (s : Factory α) (slot : SlotState ColorFunc) : Prop where
  /-- Owners that filled the slot have a valid texture, and only they. -/
  built_iff : ∀ X,X∈slot.built ↔ Cached s X
  /-- The content belongs to one of them. -/
  owner : ∀ X∈slot.built,∃ Y∈slot.built,slot.owner=some Y
  /-- The table is that of the owner, over the range of its present grid. -/
  table : ∀ Y∈slot.built,slot.owner=some Y → ∃ lut,s.colorLUT=some lut ∧ lut.colorFunc=Y ∧
    ∀ grid,gridOf s.gui Y=some grid →
      lut=ownLUT Y grid s.gui.myMessage.latLength s.gui.myMessage.lonLength

/-- The overlay is one that the frame draws when the bounds are wide enough. -/
def Visible (w : FrameWorld) (s : Factory α) (X : ColorFunc) : Prop :=
  asked w s X=true ∧ (gridOf s.gui X).isSome=true

instance (w : FrameWorld) (s : Factory α) (X : ColorFunc) : Decidable (Visible w s X) :=
  inferInstanceAs (Decidable (_ ∧ _))

/-- Rendering an overlay makes its own texture valid and keeps the others as valid as they
were. -/
theorem Rendered.cached_iff {grid : Grid α} {lut : Option (ColorLUT α)}
    {r : Factory α×List (Draw α)} (h : Rendered s X grid lut r) (Y : ColorFunc) :
    Cached r.1 Y ↔ Y=X ∨ Cached s Y := by
  by_cases hY : Y=X
  · rw [hY]
    exact iff_of_true h.cached.1 (Or.inl rfl)
  · simp only [Cached,h.others Y hY,hY,false_or]

/-- The table of a refined slot is an overlay's own exactly when the overlay
is the owner. -/
theorem Refines.own_iff (h : Refines s slot) (hX : X∈slot.built) {grid : Grid α}
    (hgrid : gridOf s.gui X=some grid) :
    s.colorLUT=some (ownLUT X grid s.gui.myMessage.latLength s.gui.myMessage.lonLength) ↔
      slot.owner=some X := by
  obtain ⟨Y,hY,howner⟩ := h.owner X hX
  obtain ⟨lut,hlut,hfunc,hown⟩ := h.table Y hY howner
  rw [hlut,howner,Option.some_inj,Option.some_inj]
  constructor
  · intro heq
    rw [←hfunc,heq]
    rfl
  · rintro rfl
    exact hown grid hgrid

/-- Drawing a visible overlay is a use of the slot by it. -/
theorem Refines.use (h : Refines s slot) (hd : Drawable w s) (hplace : TexturesInPlace s)
    (hwide : ¬Narrow s) (hX : Visible w s X) :
    Refines (renderAsked w s X).1 (slotStep slot (.use X)) ∧
      ((∀ d∈(renderAsked w s X).2,OwnTable d) ↔ Owned slot (.use X)) := by
  obtain ⟨grid,hgrid⟩ := Option.isSome_iff_exists.mp hX.2
  rw [renderAsked,if_pos hX.1]
  by_cases hbuilt : X∈slot.built
  · have hc := (h.built_iff X).mp hbuilt
    have hr := rendered_cached hd hgrid hplace hc
    have hsame (Y : ColorFunc) : Cached (renderGridOverlay w s X).1 Y ↔ Cached s Y := by
      rw [hr.cached_iff]
      exact ⟨fun hor => hor.elim (fun heq => heq ▸ hc) id,Or.inr⟩
    have hstep : slotStep slot (.use X)=slot := if_pos hbuilt
    rw [Owned,hstep,hr.owned hwide,h.own_iff hbuilt hgrid]
    refine ⟨⟨fun Y => by rw [h.built_iff,hsame],h.owner,fun Y hY howner => ?_⟩,Iff.rfl⟩
    rw [hr.table,hr.view.gui]
    exact h.table Y hY howner
  · have hc : ¬Cached s X := fun hc => hbuilt ((h.built_iff X).mpr hc)
    have hr := rendered_fresh hd hgrid hc
    have hstep : slotStep slot (.use X)=⟨X::slot.built,some X⟩ := if_neg hbuilt
    rw [Owned,hstep,hr.owned hwide]
    refine ⟨⟨fun Y => ?_,fun _ _ => ⟨X,List.mem_cons_self,rfl⟩,fun Y _ howner => ?_⟩,
      iff_of_true rfl rfl⟩
    · rw [hr.cached_iff,List.mem_cons,h.built_iff]
    · obtain rfl : X=Y := Option.some.inj howner
      refine ⟨_,hr.table,rfl,fun grid' hgrid' => ?_⟩
      rw [hr.view.gui] at hgrid' ⊢
      rw [Option.some.inj (hgrid.symm.trans hgrid')]

/-- An overlay that is not visible is not drawn and changes nothing. -/
theorem renderAsked_of_not_visible (hX : ¬Visible w s X) : renderAsked w s X=(s,[]) := by
  unfold renderAsked
  split
  next hasked =>
    have hnone : gridOf s.gui X=none := by
      by_contra hgrid
      exact hX ⟨hasked,Option.isSome_iff_ne_none.mpr hgrid⟩
    simp only [renderGridOverlay,hnone]
  next => rfl

/-- Rendering keeps what the frame decides by, and textures in place; in
narrow bounds it draws nothing. -/
theorem renderAsked_spec (hd : Drawable w s) (hplace : TexturesInPlace s) (X : ColorFunc) :
    SameView s (renderAsked w s X).1 ∧ TexturesInPlace (renderAsked w s X).1 ∧
      (Narrow s → (renderAsked w s X).2=[]) := by
  by_cases hX : Visible w s X
  · obtain ⟨grid,hgrid⟩ := Option.isSome_iff_exists.mp hX.2
    rw [renderAsked,if_pos hX.1]
    obtain ⟨lut,hr⟩ : ∃ lut,Rendered s X grid lut (renderGridOverlay w s X) := by
      by_cases hc : Cached s X
      · exact ⟨_,rendered_cached hd hgrid hplace hc⟩
      · exact ⟨_,rendered_fresh hd hgrid hc⟩
    refine ⟨hr.view,fun Y hY => ?_,hr.silent⟩
    by_cases hYX : Y=X
    · rw [hYX]
      exact hr.cached.2
    · rw [hr.others Y hYX] at hY ⊢
      exact hplace Y hY
  · rw [renderAsked_of_not_visible hX]
    exact ⟨SameView.refl s,hplace,fun _ => rfl⟩

/-- Rendering to a device context draws no overlay. -/
theorem renderAsked_of_toDC (h : w.toDC=true) (s : Factory α) (X : ColorFunc) :
    renderAsked w s X=(s,[]) := by
  unfold renderAsked renderGridOverlay
  dsimp only
  split
  · split
    · rfl
    · rw [if_pos (Or.inr (Or.inr (Or.inr h)))]
  · rfl

/-- The slot is refined by any state with the same textures, table and grids. -/
theorem Refines.congr (h : Refines s slot) (hslots : s'.slots=s.slots)
    (htable : s'.colorLUT=s.colorLUT) (hgui : s'.gui=s.gui) : Refines s' slot := by
  refine ⟨fun X => ?_,h.owner,fun Y hY howner => ?_⟩
  · rw [h.built_iff,Cached,Cached,hslots]
  · rw [htable,hgui]
    exact h.table Y hY howner

omit [LinearOrder α] in
/-- Whether an overlay is visible does not change within a frame. -/
theorem SameView.visible_iff (h : SameView s s') : Visible w s' X ↔ Visible w s X := by
  rw [Visible,Visible,h.asked_eq,h.gui]

variable [FloorRing α]

/-- A part of a frame: an overlay, or the isolines when they are shown. -/
inductive FramePart where
  | overlay (X : ColorFunc)
  | isoLines (shown : Bool)

/-- Effect of one part. -/
def renderPart (w : FrameWorld) (s : Factory α) : FramePart → Factory α×List (Draw α)
  | .overlay X => renderAsked w s X
  | .isoLines shown => (if shown=true then renderSeaTempIsoLines s else s,[])

/-- Effect of several parts in order. -/
def renderParts (w : FrameWorld) : Factory α → List FramePart → Factory α×List (Draw α)
  | s,[] => (s,[])
  | s,part::parts =>
    let here := renderPart w s part
    let rest := renderParts w here.1 parts
    (rest.1,here.2++rest.2)

/-- Parts of a frame in the order of `DoRenderncdfOverlay`. -/
def frameParts (s : Factory α) : List FramePart :=
  [.overlay .seaCurrent,.overlay .seaTemp,
    .isoLines (s.flags.showSeaTempIso && s.gui.gridSST.isSome && s.gui.hasSeaTemp),
    .overlay .salinity]

/-- A frame past its guards is the sequence of its parts. -/
theorem doRender_eq (hrenders : renders s=true) : doRender w s=renderParts w s (frameParts s) := by
  simp only [doRender,hrenders,Bool.true_eq_false,if_false,frameParts,renderParts,renderPart,
    List.append_nil,List.nil_append,List.append_assoc]

/-- Uses of the slot by a part in wide bounds. -/
def partOps (w : FrameWorld) (s : Factory α) : FramePart → List (SlotOp ColorFunc)
  | .overlay X => if Visible w s X then [.use X] else []
  | .isoLines _ => []

/-- Extracting the isolines leaves the textures, the table of colours and the view alone. -/
theorem isoLines_spec (s : Factory α) (shown : Bool) :
    SameView s (renderPart w s (.isoLines shown)).1 ∧
      (renderPart w s (.isoLines shown)).1.slots=s.slots ∧
      (renderPart w s (.isoLines shown)).1.colorLUT=s.colorLUT := by
  simp only [renderPart,renderSeaTempIsoLines]
  split
  · split
    · exact ⟨SameView.refl s,rfl,rfl⟩
    · split
      · exact ⟨SameView.refl s,rfl,rfl⟩
      · exact ⟨⟨rfl,rfl,rfl,⟨rfl,rfl⟩,rfl,rfl⟩,rfl,rfl⟩
  · exact ⟨SameView.refl s,rfl,rfl⟩

/-- Every part keeps what the frame decides by and textures in place, and
draws nothing in narrow bounds. -/
theorem renderPart_spec (hd : Drawable w s) (hplace : TexturesInPlace s) (part : FramePart) :
    SameView s (renderPart w s part).1 ∧ TexturesInPlace (renderPart w s part).1 ∧
      (Narrow s → (renderPart w s part).2=[]) := by
  cases part with
  | overlay X => exact renderAsked_spec hd hplace X
  | isoLines shown =>
    obtain ⟨hview,hslots,-⟩ := isoLines_spec (w := w) s shown
    exact ⟨hview,by rw [TexturesInPlace,hslots]; exact hplace,fun _ => rfl⟩

/-- Several parts of a frame keep what the frame decides by, and draw nothing in narrow
bounds, by induction over the parts. -/
theorem renderParts_spec (hd : Drawable w s) (hplace : TexturesInPlace s)
    (parts : List FramePart) :
    SameView s (renderParts w s parts).1 ∧ TexturesInPlace (renderParts w s parts).1 ∧
      (Narrow s → (renderParts w s parts).2=[]) := by
  induction parts generalizing s with
  | nil => exact ⟨SameView.refl s,hplace,fun _ => rfl⟩
  | cons part parts ih =>
    obtain ⟨hview,hplace',hsilent⟩ := renderPart_spec hd hplace part
    obtain ⟨hviewRest,hplaceRest,hsilentRest⟩ := ih (hview.drawable hd) hplace'
    refine ⟨hview.trans hviewRest,hplaceRest,fun hnarrow => ?_⟩
    simp only [renderParts,hsilent hnarrow,hsilentRest (hview.narrow_iff.mpr hnarrow),
      List.append_nil]

/-- In wide bounds a part of a frame uses the slot of the table as its operations say, and
draws with its own table exactly when the owner is right. -/
theorem Refines.part (h : Refines s slot) (hd : Drawable w s) (hplace : TexturesInPlace s)
    (hwide : ¬Narrow s) (part : FramePart) :
    Refines (renderPart w s part).1 (run slotStep slot (partOps w s part)) ∧
      ((∀ d∈(renderPart w s part).2,OwnTable d) ↔ Along slotStep Owned slot (partOps w s part)) := by
  cases part with
  | overlay X =>
    by_cases hX : Visible w s X
    · obtain ⟨hrefines,howned⟩ := h.use hd hplace hwide hX
      simp only [partOps,if_pos hX,run_cons,run_nil,along_cons,along_nil,and_true]
      exact ⟨hrefines,howned⟩
    · simp only [partOps,if_neg hX,renderPart,renderAsked_of_not_visible hX,run_nil,along_nil]
      exact ⟨h,by simp⟩
  | isoLines shown =>
    obtain ⟨hview,hslots,htable⟩ := isoLines_spec (w := w) s shown
    exact ⟨h.congr hslots htable hview.gui,by simp [renderPart,partOps]⟩

/-- In wide bounds several parts use the slot in order, one after another, by induction over
the parts. -/
theorem Refines.parts (h : Refines s slot) (hd : Drawable w s) (hplace : TexturesInPlace s)
    (hwide : ¬Narrow s) (parts : List FramePart) :
    Refines (renderParts w s parts).1 (run slotStep slot (parts.flatMap (partOps w s))) ∧
      ((∀ d∈(renderParts w s parts).2,OwnTable d) ↔
        Along slotStep Owned slot (parts.flatMap (partOps w s))) := by
  induction parts generalizing s slot with
  | nil => exact ⟨h,by simp [renderParts]⟩
  | cons part parts ih =>
    obtain ⟨hview,hplace',-⟩ := renderPart_spec hd hplace part
    obtain ⟨hrefines,howned⟩ := h.part hd hplace hwide part
    have hwide' : ¬Narrow (renderPart w s part).1 := fun hc => hwide (hview.narrow_iff.mp hc)
    have hops : partOps w (renderPart w s part).1=partOps w s := by
      funext next
      cases next with
      | overlay X => simp only [partOps,hview.visible_iff]
      | isoLines shown => rfl
    obtain ⟨hrest,hownedRest⟩ := ih hrefines (hview.drawable hd) hplace' hwide'
    rw [hops] at hrest hownedRest
    simp only [renderParts,List.flatMap_cons,run_append,along_append,List.forall_mem_append]
    exact ⟨hrest,and_congr howned hownedRest⟩

end Frame

section Runs

variable [FloorRing α]

/-- Overlays that a frame draws, in order. -/
def shownOverlays (w : FrameWorld) (s : Factory α) : List ColorFunc :=
  if renders s=false ∨ w.toDC=true ∨ Narrow s then []
  else [.seaCurrent,.seaTemp,.salinity].filter fun X => decide (Visible w s X)

/-- What an event means for the shared table: a load starts afresh, a frame
uses it once for each overlay it draws. -/
def tableOps (s : Factory α) : OverlayEvent α → List (SlotOp ColorFunc)
  | .load _ m => if hasAnyData m=true then [.reset] else []
  | .frame w => (shownOverlays w s).map .use
  | _ => []

/-- Uses of the table along a run. -/
def tableOpsAlong : Factory α → List (OverlayEvent α) → List (SlotOp ColorFunc)
  | _,[] => []
  | s,e::events => tableOps s e++tableOpsAlong (overlayStep s e) events

/-- Draws along a run. -/
def drawsAlong : Factory α → List (OverlayEvent α) → List (Draw α)
  | _,[] => []
  | s,e::events => drawsOf s e++drawsAlong (overlayStep s e) events

/-- Allocations of a frame event succeed. -/
def AllocatesIn : OverlayEvent α → Prop
  | .frame w => Allocates w
  | _ => True

/-- Invariant of a run: textures are in place, and in wide bounds the
factory refines the slot. -/
structure TableInv (s : Factory α) (slot : SlotState ColorFunc) : Prop where
  /-- Announced textures exist. -/
  place : TexturesInPlace s
  /-- Bounds in which nothing is drawn put no condition on the table. -/
  refines : Narrow s ∨ Refines s slot

omit [FloorRing α] in
/-- The uses that a frame makes of the slot are those of its parts, in the order of the
source. -/
theorem frameOps_eq {w : FrameWorld} {s : Factory α} (hrenders : renders s=true)
    (hgl : w.toDC=false) (hwide : ¬Narrow s) :
    (shownOverlays w s).map SlotOp.use=(frameParts s).flatMap (partOps w s) := by
  have hguard : ¬(renders s=false ∨ w.toDC=true ∨ Narrow s) := by
    simp [hrenders,hgl,hwide]
  rw [shownOverlays,if_neg hguard]
  by_cases h1 : Visible w s .seaCurrent <;> by_cases h2 : Visible w s .seaTemp <;>
    by_cases h3 : Visible w s .salinity <;> simp [frameParts,partOps,h1,h2,h3]

/-- A frame that is rendered to a device context draws no textures and changes at most the
isolines. -/
theorem doRender_of_toDC {w : FrameWorld} (h : w.toDC=true) (s : Factory α) :
    SameView s (doRender w s).1 ∧ (doRender w s).1.slots=s.slots ∧
      (doRender w s).1.colorLUT=s.colorLUT ∧ (doRender w s).2=[] := by
  by_cases hrenders : renders s=true
  · rw [doRender_eq hrenders]
    simp only [frameParts,renderParts,renderPart,renderAsked_of_toDC h,List.append_nil]
    obtain ⟨hview,hslots,htable⟩ := isoLines_spec (w := w) s
      (s.flags.showSeaTempIso && s.gui.gridSST.isSome && s.gui.hasSeaTemp)
    exact ⟨hview,hslots,htable,trivial⟩
  · have hno : doRender w s=(s,[]) := by
      rw [doRender,if_pos (by simpa using hrenders)]
    rw [hno]
    exact ⟨SameView.refl s,rfl,rfl,rfl⟩

omit [LinearOrder α] [FloorRing α] in
/-- A rendering frame by OpenGL can draw. -/
theorem drawable_of_renders {w : FrameWorld} {s : Factory α} (hrenders : renders s=true)
    (hgl : w.toDC=false) (ha : Allocates w) : Drawable w s := by
  simp only [renders,Bool.and_eq_true,decide_eq_true_eq] at hrenders
  obtain ⟨⟨⟨⟨hattached,-⟩,hcolumns,hrows⟩,-⟩,-⟩ := hrenders
  exact ⟨hgl,ha,hattached,hcolumns,hrows⟩

/-- A frame keeps the invariant, and its draws have their own tables exactly
when the slot serves its uses. -/
theorem TableInv.frame {w : FrameWorld} {s : Factory α} {slot : SlotState ColorFunc}
    (h : TableInv s slot) (ha : Allocates w) :
    TableInv (doRender w s).1 (run slotStep slot ((shownOverlays w s).map .use)) ∧
      ((∀ d∈(doRender w s).2,OwnTable d) ↔
        Along slotStep Owned slot ((shownOverlays w s).map .use)) := by
  cases hgl : w.toDC with
  | true =>
    obtain ⟨hview,hslots,htable,hdraws⟩ := doRender_of_toDC hgl s
    have hops : shownOverlays w s=[] := if_pos (Or.inr (Or.inl hgl))
    rw [hops,hdraws]
    refine ⟨⟨by rw [TexturesInPlace,hslots]; exact h.place,?_⟩,by simp⟩
    exact h.refines.imp hview.narrow_iff.mpr fun hr => hr.congr hslots htable hview.gui
  | false =>
    cases hrenders : renders s with
    | false =>
      have hops : shownOverlays w s=[] := if_pos (Or.inl hrenders)
      have hno : doRender w s=(s,[]) := by rw [doRender,if_pos hrenders]
      rw [hops,hno]
      exact ⟨h,by simp⟩
    | true =>
      have hd := drawable_of_renders hrenders hgl ha
      obtain ⟨hview,hplace,hsilent⟩ := renderParts_spec hd h.place (frameParts s)
      rw [doRender_eq hrenders]
      by_cases hnarrow : Narrow s
      · have hops : shownOverlays w s=[] := if_pos (Or.inr (Or.inr hnarrow))
        rw [hops,hsilent hnarrow]
        exact ⟨⟨hplace,Or.inl (hview.narrow_iff.mpr hnarrow)⟩,by simp⟩
      · have hr := h.refines.resolve_left hnarrow
        obtain ⟨hrefines,howned⟩ := hr.parts hd h.place hnarrow (frameParts s)
        rw [frameOps_eq hrenders hgl hnarrow]
        exact ⟨⟨hplace,Or.inr hrefines⟩,howned⟩

omit [FloorRing α] in
/-- Loaded data flag every texture, so no overlay has filled the table. -/
theorem TableInv.load {s : Factory α} {slot : SlotState ColorFunc} (h : TableInv s slot)
    (gui : GuiGrids α) (m : DataMessage α) :
    TableInv (setData (reset {s with gui := gui}) m) (slotStep slot .reset) := by
  refine ⟨h.place,Or.inr ⟨fun X => ?_,fun X hX => ?_,fun Y hY => ?_⟩⟩
  · simp [slotStep,setData,Cached]
  · simp [slotStep] at hX
  · simp [slotStep] at hY

/-- Every event keeps the invariant and refines its uses of the table. -/
theorem TableInv.event {s : Factory α} {slot : SlotState ColorFunc} (h : TableInv s slot)
    {e : OverlayEvent α} (ha : AllocatesIn e) :
    TableInv (overlayStep s e) (run slotStep slot (tableOps s e)) ∧
      ((∀ d∈drawsOf s e,OwnTable d) ↔ Along slotStep Owned slot (tableOps s e)) := by
  cases e with
  | load env m =>
    by_cases hdata : hasAnyData m=true
    · simp only [overlayStep,drawsOf,overlayEvent,tableOps,if_pos hdata]
      exact ⟨h.load _ m,by simp [Owned]⟩
    · simp only [overlayStep,drawsOf,overlayEvent,tableOps,if_neg hdata]
      exact ⟨h,by simp⟩
  | fileChanged =>
    refine ⟨⟨h.place,h.refines.imp id fun hr => ⟨hr.built_iff,hr.owner,fun Y hY howner => ?_⟩⟩,
      by simp [drawsOf,overlayEvent,tableOps]⟩
    obtain ⟨lut,hlut,hfunc,-⟩ := hr.table Y hY howner
    refine ⟨lut,hlut,hfunc,fun grid hgrid => ?_⟩
    cases Y <;> cases hgrid
  | closed =>
    exact ⟨⟨h.place,h.refines.imp id fun hr => hr.congr rfl rfl rfl⟩,
      by simp [drawsOf,overlayEvent,tableOps]⟩
  | toggle flags =>
    exact ⟨⟨h.place,h.refines.imp id fun hr => hr.congr rfl rfl rfl⟩,
      by simp [drawsOf,overlayEvent,tableOps]⟩
  | frame w => exact h.frame ha

/-- The draws of a run have their own tables exactly when the slot serves
every use of the run. -/
theorem TableInv.run_owned {s : Factory α} {slot : SlotState ColorFunc} (h : TableInv s slot)
    {events : List (OverlayEvent α)} (ha : ∀ e∈events,AllocatesIn e) :
    (∀ d∈drawsAlong s events,OwnTable d) ↔
      Along slotStep Owned slot (tableOpsAlong s events) := by
  induction events generalizing s slot with
  | nil => simp [drawsAlong,tableOpsAlong]
  | cons e events ih =>
    obtain ⟨hnext,howned⟩ := h.event (ha e (by simp))
    have hrest := ih hnext fun e' he' => ha e' (by simp [he'])
    simp only [drawsAlong,tableOpsAlong,List.forall_mem_append,along_append]
    exact and_congr howned hrest

/-- The factory after construction. The constructor leaves the colour table
uninitialised. -/
def constructed (lut : Option (ColorLUT α)) (flags : ShowFlags) : Factory α :=
  {colorLUT := lut,flags := flags}

/-- In every run of loads, file changes, toggles and frames with successful
allocations, every draw has its overlay's own table over the range of the
present grid exactly when, between two loads, an overlay drawn before is
drawn again only as the latest one drawn. -/
theorem own_tables_iff (lut : Option (ColorLUT α)) (flags : ShowFlags)
    (events : List (OverlayEvent α)) (ha : ∀ e∈events,AllocatesIn e) :
    (∀ d∈drawsAlong (constructed lut flags) events,OwnTable d) ↔
      Along recent Returns [] (tableOpsAlong (constructed lut flags) events) := by
  have hinv : TableInv (constructed lut flags : Factory α) {} := by
    refine ⟨fun X hX => ?_,Or.inr ⟨fun X => ?_,fun X hX => ?_,fun Y hY => ?_⟩⟩
    · simp [constructed] at hX
    · simp [constructed,Cached]
    · simp at hX
    · simp at hY
  rw [hinv.run_owned ha]
  exact along_owned_iff (tracks_nil none) _

end Runs

section Sample

/-- A step with current and sea temperature on a unit map. -/
def sampleStep : DataMessage ℚ :=
  {NcdfEvenMap.sampleMap NcdfEvenMap.unitAxis NcdfEvenMap.unitAxis with
    ucurr := some [0,0,0,0]
    vcurr := some [1,2,3,4]
    sst := some [10,11,12,13]}

/-- The step is loaded, the sea temperature shown besides the current, and
two frames are rendered. -/
def twoFrames : List (OverlayEvent ℚ) :=
  [.load (NcdfDialog.sampleEnv fun _ => none) sampleStep,.toggle {showSeaTemp := true},
    .frame {},.frame {}]

/-- With the current hidden, two frames draw the sea temperature twice. -/
def seaTempOnly : List (OverlayEvent ℚ) :=
  [.load (NcdfDialog.sampleEnv fun _ => none) sampleStep,
    .toggle {showCurrentForce := false,showSeaTemp := true},.frame {},.frame {}]

theorem allocates_default : Allocates {} := ⟨fun _ => rfl,fun _ => rfl⟩

/-- With the sea temperature alone on display, its table is there from frame to frame. -/
theorem own_tables_iff_seaTempOnly :
    (drawsAlong (constructed none {}) seaTempOnly).map Draw.colorFunc=[.seaTemp,.seaTemp] ∧
    ∀ d∈drawsAlong (constructed none {}) seaTempOnly,OwnTable d := by
  have hops : tableOpsAlong (constructed none {}) seaTempOnly=
      [.reset,.use .seaTemp,.use .seaTemp] := by decide +kernel
  refine ⟨by decide +kernel,(own_tables_iff none {} seaTempOnly ?_).mpr ?_⟩
  · simp [seaTempOnly,AllocatesIn,allocates_default]
  · rw [hops]
    simp [Returns,recent]

/-- The second frame draws the current again with the table of the sea
temperature. -/
theorem not_own_tables_twoFrames :
    (∀ e∈twoFrames,AllocatesIn e) ∧
    ((drawsAlong (constructed none {}) twoFrames).map Draw.colorFunc=
      [.seaCurrent,.seaTemp,.seaCurrent,.seaTemp]) ∧
    ((drawsAlong (constructed none {}) twoFrames).map fun d =>
      d.colorLUT.map ColorLUT.colorFunc)=
        [some .seaCurrent,some .seaTemp,some .seaTemp,some .seaTemp] ∧
    ¬∀ d∈drawsAlong (constructed none {}) twoFrames,OwnTable d := by
  refine ⟨?_,by decide +kernel,by decide +kernel,by decide +kernel⟩
  simp [twoFrames,AllocatesIn,allocates_default]

end Sample

end NcdfPlugin.NcdfColorTable
