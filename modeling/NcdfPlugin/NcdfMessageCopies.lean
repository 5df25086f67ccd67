import NcdfPlugin.OwnedBlocks
import NcdfPlugin.GuardedRun
import NcdfPlugin.NcdfMessage

/-!
# Copies of messages

A message holds nine arrays by pointer. An assignment frees six of them, takes
over the lengths and gives an array a new block for each array of the source.
The three coordinate arrays are left as they are when the source has none, so
an assignment is a copy exactly when the source has every coordinate array
that the target has.
-/

namespace NcdfPlugin.NcdfMessageCopies

open GuardedRun OwnedBlocks NcdfMessage

/-- Arrays of a message. -/
inductive ArrayField where
  | latValues | lonValues | timeValues
  | ucurr | vcurr | uvlats | uvlons | sst | salinity
  deriving DecidableEq

/-- Arrays that `clear` frees, in its order. -/
def clearedFields : List ArrayField := [.ucurr,.vcurr,.uvlats,.uvlons,.sst,.salinity]

/-- Arrays that `clear` leaves alone. -/
def coordinateFields : List ArrayField := [.latValues,.lonValues,.timeValues]

/-- Arrays in the order in which `copyFrom` copies them. -/
def copiedFields : List ArrayField := coordinateFields++clearedFields

/-- Lengths of a message. -/
structure Lengths where
  /-- `latLength`. -/
  lat : ℕ
  /-- `lonLength`. -/
  lon : ℕ
  /-- `timeLength`. -/
  time : ℕ
  deriving DecidableEq

/-- Number of values of an array. A buffer of as many values as a product that
leaves the range of `size_t` cannot exist. -/
def Lengths.count (l : Lengths) : ArrayField → ℕ
  | .latValues => l.lat
  | .lonValues => l.lon
  | .timeValues => l.time
  | _ => l.lat*l.lon

/-- The messages of a program and the memory of their arrays. -/
structure Messages (ι α : Type) where
  /-- Memory, with a pointer for each array of each message. -/
  store : Store (ι×ArrayField) (List α)
  /-- Lengths of each message. -/
  lengths : ι → Lengths

section Model

variable {ι α : Type} [DecidableEq ι] (A : Allocator (List α))

/-- `clear`. -/
def clear (s : Messages ι α) (target : ι) : Messages ι α :=
  {s with store := clearedFields.foldl (fun store f => store.release (target,f)) s.store}

/-- `calloc` and `memcpy` of one array, when the source has it. -/
def copyArray (target source : ι) (count : ArrayField → ℕ) (store : Store (ι×ArrayField) (List α))
    (f : ArrayField) : Store (ι×ArrayField) (List α) :=
  if store.ptr (source,f)=none then store
  else store.install A (target,f) (((store.content (source,f)).getD []).take (count f))

/-- `copyFrom`. -/
def copyFrom (s : Messages ι α) (target source : ι) : Messages ι α where
  store := copiedFields.foldl (copyArray A target source (s.lengths source).count) s.store
  lengths := Function.update s.lengths target (s.lengths source)

/-- `operator=`. -/
def assign (s : Messages ι α) (target source : ι) : Messages ι α :=
  if target=source then s else copyFrom A (clear s target) target source

/-- A new message starts with null pointers. -/
def startNull (s : Messages ι α) (target : ι) : Messages ι α :=
  {s with store := ⟨s.store.heap,fun k => if k.1=target then none else s.store.ptr k⟩}

/-- Copy constructor. -/
def construct (s : Messages ι α) (target source : ι) : Messages ι α :=
  copyFrom A (startNull s target) target source

/-- Contents of the arrays. -/
def Messages.content (s : Messages ι α) (i : ι) (f : ArrayField) : Option (List α) :=
  s.store.content (i,f)

/-- Pointers of the arrays. -/
def Messages.ptr (s : Messages ι α) (i : ι) (f : ArrayField) : Option ℕ := s.store.ptr (i,f)

end Model

section Copying

variable {ι α : Type} [DecidableEq ι] {A : Allocator (List α)} {s : Messages ι α} {target source : ι}

/-- A list of releases keeps the ownership, empties the fields that it lists and leaves all
others. -/
theorem foldl_release {store : Store (ι×ArrayField) (List α)} (h : Owned store) (target : ι)
    (fields : List ArrayField) :
    Owned (fields.foldl (fun store f => store.release (target,f)) store) ∧
    ∀ i f,(fields.foldl (fun store f => store.release (target,f)) store).content (i,f)=
      if i=target ∧ f∈fields then none else store.content (i,f) := by
  induction fields generalizing store with
  | nil => simp [h]
  | cons g fields ih =>
    obtain ⟨howned,hcontent⟩ := ih (h.release (target,g))
    refine ⟨howned,fun i f => ?_⟩
    rw [List.foldl_cons,hcontent,h.content_release]
    by_cases hi : i=target
    · by_cases hf : f=g
      · simp [hi,hf]
      · simp [hi,hf]
    · simp [hi]

/-- What a copy does: the array of the target becomes the one of the source,
where the source has it. -/
theorem copyArray_spec {store : Store (ι×ArrayField) (List α)} (h : Owned store)
    (target source : ι) (count : ArrayField → ℕ) (g : ArrayField) :
    Owned (copyArray A target source count store g) ∧
    ∀ i f,(copyArray A target source count store g).content (i,f)=
      if i=target ∧ f=g then
        copyBuffer (count g) (store.content (source,g)) <|> store.content (target,g)
      else store.content (i,f) := by
  unfold copyArray
  simp only [h.ptr_eq_none_iff]
  cases hsource : store.content (source,g) with
  | none =>
    rw [if_pos rfl]
    refine ⟨h,fun i f => ?_⟩
    by_cases hif : i=target ∧ f=g
    · rw [if_pos hif,hif.1,hif.2]
      rfl
    · rw [if_neg hif]
  | some values =>
    rw [if_neg (Option.some_ne_none values)]
    refine ⟨h.install A _ _,fun i f => ?_⟩
    rw [h.content_install A]
    by_cases hif : i=target ∧ f=g
    · rw [if_pos hif,hif.1,hif.2,Function.update_self]
      rfl
    · rw [if_neg hif]
      exact Function.update_of_ne (fun heq => hif (by simpa using heq)) _ _

/-- A list of copies from another message keeps the ownership and leaves in each listed
field a copy of the source's array. -/
theorem foldl_copyArray {store : Store (ι×ArrayField) (List α)} (h : Owned store)
    (hne : target≠source) (count : ArrayField → ℕ) {fields : List ArrayField}
    (hfields : fields.Nodup) :
    Owned (fields.foldl (copyArray A target source count) store) ∧
    ∀ i f,(fields.foldl (copyArray A target source count) store).content (i,f)=
      if i=target ∧ f∈fields then
        copyBuffer (count f) (store.content (source,f)) <|> store.content (target,f)
      else store.content (i,f) := by
  induction fields generalizing store with
  | nil => simp [h]
  | cons g fields ih =>
    obtain ⟨hg,hrest⟩ := List.nodup_cons.mp hfields
    obtain ⟨hstep,hstepContent⟩ := copyArray_spec (A := A) h target source count g
    obtain ⟨howned,hcontent⟩ := ih hstep hrest
    have hsource (f : ArrayField) :
        (copyArray A target source count store g).content (source,f)=store.content (source,f) := by
      rw [hstepContent,if_neg fun hif => hne hif.1.symm]
    refine ⟨howned,fun i f => ?_⟩
    rw [List.foldl_cons,hcontent,hsource]
    by_cases hi : i=target
    · by_cases hf : f=g
      · subst hf
        simp [hi,hg,hstepContent]
      · simp [hi,hf,hstepContent]
    · simp [hi,hstepContent]

/-- Releases in one message leave the pointers of every other message as they were. -/
theorem ptr_foldl_release (store : Store (ι×ArrayField) (List α)) (target : ι)
    (fields : List ArrayField) {i : ι} (hi : i≠target) (f : ArrayField) :
    (fields.foldl (fun store f => store.release (target,f)) store).ptr (i,f)=store.ptr (i,f) := by
  induction fields generalizing store with
  | nil => rfl
  | cons g fields ih =>
    rw [List.foldl_cons,ih,ptr_release_of_ne fun heq => hi (Prod.mk.inj heq).1]

/-- Copies into one message leave the pointers of every other one as they were. -/
theorem ptr_foldl_copyArray (store : Store (ι×ArrayField) (List α)) (target source : ι)
    (count : ArrayField → ℕ) (fields : List ArrayField) {i : ι} (hi : i≠target) (f : ArrayField) :
    (fields.foldl (copyArray A target source count) store).ptr (i,f)=store.ptr (i,f) := by
  induction fields generalizing store with
  | nil => rfl
  | cons g fields ih =>
    rw [List.foldl_cons,ih,copyArray]
    split
    · rfl
    · exact ptr_install_of_ne A (fun heq => hi (Prod.mk.inj heq).1) _

/-- Every array of a message is copied by an assignment. -/
theorem mem_copiedFields : ∀ f : ArrayField,f∈copiedFields := by
  intro f
  cases f <;> decide

/-- Clearing a message frees no coordinates, so an empty message may still have them. -/
theorem notMem_clearedFields : ∀ f∈coordinateFields,f∉clearedFields := by decide

/-- What `copyFrom` does: each array of the source is copied, and where the source has none
the old pointer stays. -/
theorem copyFrom_spec (h : Owned s.store) (hne : target≠source) :
    Owned (copyFrom A s target source).store ∧
    (∀ f,(copyFrom A s target source).content target f=
      (copyBuffer ((s.lengths source).count f) (s.content source f) <|> s.content target f)) ∧
    ∀ i,i≠target → ∀ f,(copyFrom A s target source).content i f=s.content i f ∧
      (copyFrom A s target source).ptr i f=s.ptr i f := by
  obtain ⟨howned,hcontent⟩ := foldl_copyArray (A := A) h hne (s.lengths source).count
    (by decide : copiedFields.Nodup)
  refine ⟨howned,fun f => ?_,fun i hi f => ⟨?_,ptr_foldl_copyArray _ _ _ _ _ hi f⟩⟩
  · exact (hcontent target f).trans (if_pos ⟨rfl,mem_copiedFields f⟩)
  · exact (hcontent i f).trans (if_neg fun hif => hi hif.1)

/-- The target takes over the lengths of the source, in owned memory, and no
other message changes. -/
structure WritesOnly (before after : Messages ι α) (target source : ι) : Prop where
  /-- Memory is owned. -/
  owned : Owned after.store
  /-- Lengths of the target. -/
  lengths : after.lengths=Function.update before.lengths target (before.lengths source)
  /-- Other messages. -/
  others : ∀ i,i≠target → ∀ f,after.content i f=before.content i f ∧ after.ptr i f=before.ptr i f

/-- What an assignment does: fields that are freed first come to be copies of the source's,
coordinates stay where the source has none. -/
theorem assign_spec (h : Owned s.store) (hne : target≠source) :
    WritesOnly s (assign A s target source) target source ∧
    ∀ f,(assign A s target source).content target f=
      (copyBuffer ((s.lengths source).count f) (s.content source f) <|>
        if f∈clearedFields then none else s.content target f) := by
  obtain ⟨hcleared,hclear⟩ := foldl_release h target clearedFields
  obtain ⟨howned,hcontent,hother⟩ := copyFrom_spec (A := A) (s := clear s target) hcleared hne
  have hclearOther {i : ι} (hi : i≠target) (f : ArrayField) :
      (clear s target).content i f=s.content i f :=
    (hclear i f).trans (if_neg fun hif => hi hif.1)
  rw [assign,if_neg hne]
  refine ⟨⟨howned,rfl,fun i hi f => ?_⟩,fun f => ?_⟩
  · rw [(hother i hi f).1,(hother i hi f).2,hclearOther hi]
    exact ⟨rfl,ptr_foldl_release _ _ _ hi f⟩
  · have htarget : (clear s target).content target f=
        if f∈clearedFields then none else s.content target f := by
      refine (hclear target f).trans ?_
      simp only [true_and]
      rfl
    rw [hcontent,hclearOther hne.symm,htarget]
    rfl

/-- What a copy construction does: as there is nothing to keep, every field is a copy of the
source's or null. -/
theorem construct_spec (h : Owned s.store) (hne : target≠source) :
    WritesOnly s (construct A s target source) target source ∧
    ∀ f,(construct A s target source).content target f=
      copyBuffer ((s.lengths source).count f) (s.content source f) := by
  have hptr {i : ι} (hi : i≠target) (f : ArrayField) :
      (startNull s target).ptr i f=s.ptr i f := if_neg hi
  have hcontent {i : ι} (hi : i≠target) (f : ArrayField) :
      (startNull s target).content i f=s.content i f := by
    unfold Messages.content Store.content
    rw [show (startNull s target).store.ptr (i,f)=s.store.ptr (i,f) from hptr hi f]
    rfl
  have hnull (f : ArrayField) : (startNull s target).content target f=none := by
    simp [Messages.content,Store.content,startNull]
  have hkept {k : ι×ArrayField} {a : ℕ} (hk : (startNull s target).store.ptr k=some a) :
      s.store.ptr k=some a := by
    simp only [startNull] at hk
    split at hk
    · cases hk
    · exact hk
  have hstarted : Owned (startNull s target).store :=
    ⟨fun k a hk => h.live k a (hkept hk),fun k k' a hk hk' => h.apart k k' a (hkept hk) (hkept hk')⟩
  obtain ⟨howned,htarget,hother⟩ := copyFrom_spec (A := A) hstarted hne
  refine ⟨⟨howned,rfl,fun i hi f => ?_⟩,fun f => ?_⟩
  · exact ⟨(hother i hi f).1.trans (hcontent hi f),(hother i hi f).2.trans (hptr hi f)⟩
  · refine (htarget f).trans ?_
    rw [hcontent hne.symm,hnull,Option.orElse_eq_orElse,Option.orElse_eq_or,Option.or_none]
    rfl

end Copying

section Faithful

variable {ι α : Type}

/-- Every array has memory of its own, of the length that its message
states. -/
structure Intact (s : Messages ι α) : Prop where
  /-- Memory of its own. -/
  owned : Owned s.store
  /-- Stated lengths. -/
  sizes : ∀ i f values,s.content i f=some values → values.length=(s.lengths i).count f

/-- The target has become a deep copy of the source, and the source is
unchanged. -/
structure Copied (before after : Messages ι α) (target source : ι) : Prop where
  /-- An array is null exactly when the source's is. -/
  null : ∀ f,after.ptr target f=none ↔ before.ptr source f=none
  /-- Arrays have the contents of the source's. -/
  contents : ∀ f,after.content target f=before.content source f
  /-- No other pointer leads to an array of the target. -/
  own : ∀ f a,after.ptr target f=some a → ∀ i g,after.ptr i g=some a → i=target ∧ g=f
  /-- Arrays have the lengths that the target states. -/
  sizes : ∀ f values,after.content target f=some values → values.length=(after.lengths target).count f
  /-- Lengths of the target. -/
  lengths : after.lengths target=before.lengths source
  /-- Lengths of the source. -/
  sourceLengths : after.lengths source=before.lengths source
  /-- Pointers and contents of the source. -/
  sourceArrays : ∀ f,after.ptr source f=before.ptr source f ∧
    after.content source f=before.content source f

/-- The source has every coordinate array that the target has. -/
def Covers (s : Messages ι α) (target source : ι) : Prop :=
  ∀ f∈coordinateFields,s.ptr source f=none → s.ptr target f=none

variable {s s' : Messages ι α} {target source : ι}

/-- Taking as many values as there are changes nothing. -/
theorem Intact.copyBuffer_eq (h : Intact s) (i : ι) (f : ArrayField) :
    copyBuffer ((s.lengths i).count f) (s.content i f)=s.content i f := by
  cases hcontent : s.content i f with
  | none => rfl
  | some values =>
    rw [copyBuffer,Option.map_some,←h.sizes i f values hcontent,List.take_length]

/-- A message is a copy when its contents are equal, since the calls here write nowhere else
and share nothing. -/
theorem WritesOnly.copied [DecidableEq ι] (hwrites : WritesOnly s s' target source) (h : Intact s)
    (hne : target≠source) (hcontents : ∀ f,s'.content target f=s.content source f) :
    Copied s s' target source := by
  obtain ⟨howned,hlengths,hother⟩ := hwrites
  have htarget : s'.lengths target=s.lengths source := by rw [hlengths,Function.update_self]
  constructor
  · intro f
    exact (howned.ptr_eq_none_iff _).trans
      ((iff_of_eq (congrArg (·=none) (hcontents f))).trans (h.owned.ptr_eq_none_iff _).symm)
  · exact hcontents
  · intro f a hf i g hg
    exact Prod.mk.inj (howned.apart (i,g) (target,f) a hg hf)
  · intro f values hf
    rw [htarget]
    exact h.sizes source f values ((hcontents f).symm.trans hf)
  · exact htarget
  · rw [hlengths,Function.update_of_ne hne.symm]
  · exact fun f => ⟨(hother source hne.symm f).2,(hother source hne.symm f).1⟩

/-- A copy keeps the messages intact. -/
theorem WritesOnly.intact [DecidableEq ι] (hwrites : WritesOnly s s' target source) (h : Intact s)
    (hcopied : Copied s s' target source) : Intact s' := by
  refine ⟨hwrites.owned,fun i f values hf => ?_⟩
  by_cases hi : i=target
  · rw [hi] at hf ⊢
    exact hcopied.sizes f values hf
  · rw [hwrites.lengths,Function.update_of_ne hi]
    exact h.sizes i f values ((hwrites.others i hi f).1.symm.trans hf)

/-- A message is a copy of itself. -/
theorem copied_self (h : Intact s) (i : ι) : Copied s s i i :=
  ⟨fun _ => Iff.rfl,fun _ => rfl,fun f a hf j g hg => Prod.mk.inj (h.owned.apart (j,g) (i,f) a hg hf),
    fun f values hf => h.sizes i f values hf,rfl,rfl,fun _ => ⟨rfl,rfl⟩⟩

end Faithful

section Chains

variable {ι α : Type} [DecidableEq ι]

/-- An assignment or a copy construction. -/
inductive CopyOp (ι : Type) where
  | assign (target source : ι)
  | construct (target source : ι) (other : target≠source)

/-- Message that is written. -/
def CopyOp.target : CopyOp ι → ι
  | .assign target _ => target
  | .construct target _ _ => target

/-- Message that is copied. -/
def CopyOp.source : CopyOp ι → ι
  | .assign _ source => source
  | .construct _ source _ => source

/-- One copy. -/
def copyStep (A : Allocator (List α)) (s : Messages ι α) : CopyOp ι → Messages ι α
  | .assign target source => assign A s target source
  | .construct target source _ => construct A s target source

/-- Condition on a copy: an assignment needs a source that covers its
target. -/
def CopyGuard (s : Messages ι α) : CopyOp ι → Prop
  | .assign target source => Covers s target source
  | .construct _ _ _ => True

variable {A : Allocator (List α)} {s : Messages ι α} {target source : ι}

/-- What an assignment leaves in each field of the target, the sizes of arrays aside. -/
theorem content_assign (h : Intact s) (hne : target≠source) (f : ArrayField) :
    (assign A s target source).content target f=
      (s.content source f <|> if f∈clearedFields then none else s.content target f) := by
  rw [(assign_spec h.owned hne).2,h.copyBuffer_eq]

/-- An assignment is a faithful copy exactly when the source covers the
target. -/
theorem copied_assign_iff (h : Intact s) (target source : ι) :
    Copied s (assign A s target source) target source ↔ Covers s target source := by
  by_cases hne : target=source
  · subst hne
    have hself : assign A s target target=s := if_pos rfl
    rw [hself]
    exact ⟨fun _ _ _ hf => hf,fun _ => copied_self h target⟩
  have hwrites := (assign_spec (A := A) h.owned hne).1
  have hcontent := content_assign (A := A) h hne
  constructor
  · intro hcopied f hf hnull
    have hsource : s.content source f=none := (h.owned.ptr_eq_none_iff _).mp hnull
    have hkept := notMem_clearedFields f hf
    have htarget := hcontent f
    rw [hsource,if_neg hkept,hcopied.contents f,hsource] at htarget
    exact (h.owned.ptr_eq_none_iff _).mpr htarget.symm
  · intro hcovers
    refine hwrites.copied h hne fun f => ?_
    rw [hcontent f]
    cases hsource : s.content source f with
    | some values => rfl
    | none =>
      by_cases hf : f∈clearedFields
      · rw [if_pos hf]
        rfl
      · have hcoordinate : f∈coordinateFields :=
          (List.mem_append.mp (mem_copiedFields f)).resolve_right hf
        have hnull := hcovers f hcoordinate ((h.owned.ptr_eq_none_iff _).mpr hsource)
        rw [if_neg hf]
        exact (h.owned.ptr_eq_none_iff _).mp hnull

/-- A copy construction is a faithful copy. -/
theorem copied_construct (h : Intact s) (hne : target≠source) :
    Copied s (construct A s target source) target source := by
  obtain ⟨hwrites,hcontent⟩ := construct_spec (A := A) h.owned hne
  exact hwrites.copied h hne fun f => (hcontent f).trans (h.copyBuffer_eq source f)

/-- A guarded copy is faithful and keeps the messages intact. -/
theorem copyStep_guarded (h : Intact s) (op : CopyOp ι) (hguard : CopyGuard s op) :
    Copied s (copyStep A s op) op.target op.source ∧ Intact (copyStep A s op) := by
  cases op with
  | assign target source =>
    have hcopied := (copied_assign_iff (A := A) h target source).mpr hguard
    refine ⟨hcopied,?_⟩
    by_cases hne : target=source
    · have hself : copyStep A s (.assign target source)=s := if_pos hne
      rw [hself]
      exact h
    · exact (assign_spec h.owned hne).1.intact h hcopied
  | construct target source hne =>
    have hcopied := copied_construct (A := A) h hne
    exact ⟨hcopied,(construct_spec h.owned hne).1.intact h hcopied⟩

/-- An assignment is a deep copy exactly when the source has every coordinate
array that the target has, a copy construction always is, and in a chain of
copies that all meet this every one is a deep copy. -/
theorem copies_iff (h : Intact s) :
    (∀ target source,Copied s (assign A s target source) target source ↔ Covers s target source) ∧
    (∀ target source,target≠source → Copied s (construct A s target source) target source) ∧
    ∀ ops,Along (copyStep A) CopyGuard s ops →
      Along (copyStep A) (fun s op => Copied s (copyStep A s op) op.target op.source ∧
        Intact (copyStep A s op)) s ops :=
  ⟨copied_assign_iff h,fun _ _ hne => copied_construct h hne,
    fun _ hops => along_of_invariant (fun _ op hs hguard => (copyStep_guarded hs op hguard).2)
      (fun _ op hs hguard => copyStep_guarded hs op hguard) h hops⟩

end Chains

section Refinement

variable {ι α : Type} [DecidableEq ι] [Field α] {A : Allocator (List α)} {s : Messages ι α}

/-- Arrays of a message by name. -/
def arrayOf (m : DataMessage α) : ArrayField → Option (List α)
  | .latValues => m.latValues
  | .lonValues => m.lonValues
  | .timeValues => m.timeValues
  | .ucurr => m.ucurr
  | .vcurr => m.vcurr
  | .uvlats => m.uvlats
  | .uvlons => m.uvlons
  | .sst => m.sst
  | .salinity => m.salinity

/-- A message in memory has the arrays and lengths of a message by value. -/
structure Represents (s : Messages ι α) (i : ι) (m : DataMessage α) : Prop where
  /-- Arrays. -/
  arrays : ∀ f,s.content i f=arrayOf m f
  /-- Lengths. -/
  lengths : s.lengths i=⟨m.latLength,m.lonLength,m.timeLength⟩

/-- The assignment in memory leaves what the assignment by value leaves, which is the one
the dialog is modelled with. -/
theorem represents_assign {target source : ι} (h : Owned s.store) (hne : target≠source)
    {m other : DataMessage α} (ht : Represents s target m) (hs : Represents s source other) :
    Represents (assign A s target source) target (m.assign other) := by
  obtain ⟨hwrites,hcontent⟩ := assign_spec (A := A) h hne
  constructor
  · intro f
    rw [hcontent,hs.arrays,hs.lengths,ht.arrays]
    have hnull (o : Option (List α)) : (o <|> none)=o := by cases o <;> rfl
    cases f with
    | latValues | lonValues | timeValues => rfl
    | ucurr | vcurr | uvlats | uvlons | sst | salinity => exact hnull _
  · rw [hwrites.lengths,Function.update_self,hs.lengths]
    rfl

end Refinement

section Sample

/-- Memory without blocks. -/
def emptyStore : Store (Bool×ArrayField) (List ℚ) := ⟨⟨fun _ => none,0,fun _ _ => rfl⟩,fun _ => none⟩

/-- Without messages nothing is owned and nothing is shared. -/
theorem owned_emptyStore : Owned emptyStore := ⟨fun _ _ h => (nomatch h),fun _ _ _ h => (nomatch h)⟩

/-- A message with two latitudes, and a message without arrays. -/
def loadedAndEmpty : Messages Bool ℚ where
  store := emptyStore.install nextAddress (true,.latValues) [1,2]
  lengths i := if i=true then ⟨2,0,0⟩ else ⟨3,0,0⟩

/-- The two sample messages own their arrays, and none is shared. -/
theorem intact_loadedAndEmpty : Intact loadedAndEmpty := by
  refine ⟨owned_emptyStore.install _ _ _,fun i f values hf => ?_⟩
  have hcontent : loadedAndEmpty.store.content=
      Function.update emptyStore.content (true,.latValues) (some [1,2]) :=
    owned_emptyStore.content_install nextAddress _ _
  rw [Messages.content,hcontent] at hf
  by_cases hk : (i,f)=(true,ArrayField.latValues)
  · obtain ⟨rfl,rfl⟩ := Prod.mk.inj hk
    rw [Function.update_self] at hf
    cases hf
    rfl
  · rw [Function.update_of_ne hk] at hf
    cases hf

/-- Copies between a message with coordinates and one without. -/
theorem copies_iff_loadedAndEmpty :
    (∀ target source,Copied loadedAndEmpty (assign nextAddress loadedAndEmpty target source) target
      source ↔ Covers loadedAndEmpty target source) ∧
    (∀ target source,target≠source →
      Copied loadedAndEmpty (construct nextAddress loadedAndEmpty target source) target source) ∧
    ∀ ops,Along (copyStep nextAddress) CopyGuard loadedAndEmpty ops →
      Along (copyStep nextAddress) (fun s op =>
        Copied s (copyStep nextAddress s op) op.target op.source ∧
          Intact (copyStep nextAddress s op)) loadedAndEmpty ops :=
  copies_iff intact_loadedAndEmpty

/-- Assigned from the message without arrays, the other one keeps its two
latitudes and states a length of three. -/
theorem not_copied_loadedAndEmpty :
    loadedAndEmpty.ptr false .latValues=none ∧
    (assign nextAddress loadedAndEmpty true false).content true .latValues=some [1,2] ∧
    ((assign nextAddress loadedAndEmpty true false).lengths true).count .latValues=3 ∧
    ¬∀ (s : Messages Bool ℚ) (target source : Bool),Intact s →
      Copied s (assign nextAddress s target source) target source := by
  have hcontent : (assign nextAddress loadedAndEmpty true false).content true .latValues=
      some [1,2] := by decide +kernel
  have hlength : ((assign nextAddress loadedAndEmpty true false).lengths true).count .latValues=3 := by
    decide +kernel
  refine ⟨by decide +kernel,hcontent,hlength,fun h => ?_⟩
  have hsizes := (h loadedAndEmpty true false intact_loadedAndEmpty).sizes .latValues [1,2] hcontent
  rw [hlength] at hsizes
  exact absurd hsizes (by decide)

end Sample

end NcdfPlugin.NcdfMessageCopies
