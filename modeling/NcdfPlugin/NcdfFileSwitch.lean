import NcdfPlugin.NcdfSelection

/-!
# The loaded steps belong to the current path

Three handlers replace the loaded steps. Adding a file and selecting a
time-step node of another file also set the current path; selecting a file
node does not. As long as no file node replaces the steps of another path
that the tree still offers, the message shown after a click names the file
and the position that were clicked.
-/

namespace NcdfPlugin.NcdfFileSwitch

open NcdfLibrary NcdfMessage NcdfTimeStep NcdfReader NcdfDialog NcdfSelection GuardedRun

section Invariant

variable {α : Type} [Field α]

/-- No time-step node of the tree belongs to the current path. -/
def PathUnused (s : MainDialog α) : Prop :=
  ∀ fn k,hasStepNode s fn k=true → filePath s fn≠s.currentFilePath

/-- The loaded steps are those of the current path, unless the tree offers
no step of that path. -/
def PathNamesSteps (s : MainDialog α) : Prop :=
  StepsOf s.currentFilePath s.myDataVector ∨ PathUnused s

/-- Names of the file nodes. -/
def treeNames (s : MainDialog α) : List String := s.treeFiles.map Prod.fst

/-- Files of one directory have different paths. -/
theorem filePath_injective {s : MainDialog α} {fn fn' : String}
    (h : filePath s fn=filePath s fn') : fn=fn' := by
  unfold filePath at h
  have hlists := congrArg String.toList h
  simp only [String.toList_append] at hlists
  exact String.toList_injective (List.append_cancel_left hlists)

/-- A file with a time-step node is a file of the tree. -/
theorem mem_treeNames_of_hasStepNode {s : MainDialog α} {fn : String} {k : ℕ}
    (h : hasStepNode s fn k=true) : fn∈treeNames s := by
  simp only [hasStepNode,List.any_eq_true,decide_eq_true_eq] at h
  obtain ⟨entry,hmem,hname,-⟩ := h
  rw [←hname]
  exact List.mem_map_of_mem hmem

/-- A file node that is added without children adds no time-step node to the tree. -/
theorem hasStepNode_append_empty {s s' : MainDialog α} {name fn : String} {k : ℕ}
    (htree : s'.treeFiles=s.treeFiles++[(name,0)]) (h : hasStepNode s' fn k=true) :
    hasStepNode s fn k=true := by
  unfold hasStepNode at h ⊢
  rw [htree,List.any_append,Bool.or_eq_true] at h
  rcases h with hold | hnew
  · exact hold
  · simp at hnew

/-- A handler that leaves tree and file alone keeps the invariant. -/
theorem PathNamesSteps.of_sameFiles {s s' : MainDialog α} (h : PathNamesSteps s)
    (hfiles : SameFiles s s') : PathNamesSteps s' := by
  rcases h with hsteps | hunused
  · refine Or.inl ?_
    rw [hfiles.currentFilePath]
    exact hfiles.steps _ hsteps
  · refine Or.inr fun fn k hnode => ?_
    have hold : hasStepNode s fn k=true := by
      rw [hasStepNode,←hfiles.treeFiles]
      exact hnode
    rw [filePath,hfiles.dirText,hfiles.currentFilePath]
    exact hunused fn k hold

variable [LinearOrder α] [FloorRing α]

/-- Adding one file: its steps and its path on success; on failure a path
that no time-step node of the tree has, because the name is new. -/
theorem pathNamesSteps_addFile {s : MainDialog α} {entry : String×Env α}
    (h : PathNamesSteps s) (hnew : entry.1∉treeNames s) : PathNamesSteps (addFile s entry) := by
  unfold addFile
  split
  · unfold addChildren
    dsimp only
    rw [ncGet_eq]
    split
    · refine Or.inr fun fn k hnode => ?_
      have hold := hasStepNode_append_empty (s:=s) rfl hnode
      have hname : fn≠entry.1 := by
        rintro rfl
        exact hnew (mem_treeNames_of_hasStepNode hold)
      exact fun hpath => hname (filePath_injective (s:=s) hpath)
    · exact Or.inl (stepsOf_fileSteps entry.2 (filePath s entry.1))
  · exact h

/-- Adding one file adds its name to the tree at most. -/
theorem treeNames_addFile {s : MainDialog α} {entry : String×Env α} {fn : String}
    (h : fn∈treeNames (addFile s entry)) :
    fn∈treeNames s ∨ fn=entry.1 := by
  unfold addFile at h
  split at h
  · have htree : (addChildren entry.2 s entry.1).1.treeFiles=s.treeFiles := by
      unfold addChildren
      dsimp only
      rw [ncGet_eq]
      split <;> rfl
    simpa [treeNames,htree] using h
  · exact Or.inl h

/-- Loop over the files of a directory, whose names are not in the tree yet. -/
theorem pathNamesSteps_addFiles {entries : List (String×Env α)} {s : MainDialog α}
    (hnodup : (entries.map Prod.fst).Nodup) (hnew : ∀ entry∈entries,entry.1∉treeNames s)
    (h : PathNamesSteps s) : PathNamesSteps (entries.foldl addFile s) := by
  induction entries generalizing s with
  | nil => exact h
  | cons entry entries ih =>
    obtain ⟨hhead,htail⟩ := List.nodup_cons.mp hnodup
    refine ih htail (fun later hlater htree => ?_)
      (pathNamesSteps_addFile h (hnew entry List.mem_cons_self))
    rcases treeNames_addFile htree with hold | hname
    · exact hnew later (List.mem_cons_of_mem _ hlater) hold
    · exact hhead (hname ▸ List.mem_map_of_mem hlater)

/-- A new directory empties the tree, which then offers no step of the current path. -/
theorem pathNamesSteps_onDirChanged (s : MainDialog α) (dir : String) (listing : DirListing α) :
    PathNamesSteps (onDirChanged s dir listing) := by
  apply pathNamesSteps_addFiles listing.nodup
  · intro entry _ htree
    simp [treeNames] at htree
  · exact Or.inr fun fn k hnode => by simp [hasStepNode] at hnode

/-- A file node may be selected when it is the current file, when its load
gives no steps, or when the tree offers no step of the current path. -/
def FileNodeKeepsPath (s : MainDialog α) : DialogEvent α → Prop
  | .fileNode env fn => hasStepNode s fn 0=true →
      s.currentFilePath=filePath s fn ∨ fileSteps env (filePath s fn)=[] ∨ PathUnused s
  | _ => True

/-- The click of a file node leaves the path as it is, so it keeps the relation when the
steps it loads are none, those of the path, or not on offer. -/
theorem pathNamesSteps_selectFileNode {env : Env α} {s : MainDialog α} {fn : String}
    (h : PathNamesSteps s) (hguard : FileNodeKeepsPath s (.fileNode env fn)) :
    PathNamesSteps (selectFileNode env s fn) := by
  have hafter (hnode : hasStepNode s fn 0=true) :
      PathNamesSteps (ncGet env s (filePath s fn)).2 := by
    rw [ncGet_eq]
    rcases hguard hnode with hpath | hnone | hunused
    · refine Or.inl ?_
      dsimp only
      rw [hpath]
      exact stepsOf_fileSteps env (filePath s fn)
    · refine Or.inl ?_
      dsimp only
      rw [hnone]
      exact stepsOf_nil _
    · exact Or.inr hunused
  unfold selectFileNode
  split
  · rename_i hnode
    dsimp only
    split
    · exact hafter hnode
    · exact hafter hnode
  · exact h

/-- After a change of file the path is that of the file and the steps are those it loads. -/
theorem pathNamesSteps_switched (env : Env α) (s : MainDialog α) (filename : String) :
    PathNamesSteps (switched env s filename) := by
  unfold switched
  rw [ncGet_eq]
  exact Or.inl (stepsOf_fileSteps env filename)

/-- The click of a step node either keeps the current file or switches to that of the node.
-/
theorem pathNamesSteps_selectStepNode {env : Env α} {s : MainDialog α} {fn : String} {k : ℕ}
    (h : PathNamesSteps s) : PathNamesSteps (selectStepNode env s fn k).1 := by
  rcases selectStepNode_cases env s fn k with ⟨-,heq⟩ | ⟨-,-,heq⟩ | ⟨-,-,hcode,heq⟩ | ⟨-,-,-,heq⟩
  · rw [heq]
    exact h
  · rw [heq]
    exact h.of_sameFiles (sameFiles_selectLoadedStep env s k)
  · rw [heq,ncGet_eq,fileSteps_of_failed hcode]
    exact Or.inl (stepsOf_nil _)
  · rw [heq]
    exact (pathNamesSteps_switched env s _).of_sameFiles (sameFiles_selectLoadedStep env _ k)

/-- Every selection keeps the relation: only the click of a step node can change the file.
-/
theorem pathNamesSteps_handleSelection {env : Env α} {s : MainDialog α} (selection : Selection)
    (h : PathNamesSteps s) : PathNamesSteps (handleSelection env s selection).1 := by
  cases selection with
  | stepNode fn k => exact pathNamesSteps_selectStepNode h
  | timeChoice idx => exact h.of_sameFiles (sameFiles_onTimeChange env s idx)
  | slider idx => exact h.of_sameFiles (sameFiles_onTimeline env s idx)
  | prevNext idx => exact h.of_sameFiles (sameFiles_readData env s idx)

/-- Every guarded event keeps the invariant. -/
theorem pathNamesSteps_dialogStep (s : MainDialog α) (e : DialogEvent α) (h : PathNamesSteps s)
    (hguard : FileNodeKeepsPath s e) : PathNamesSteps (dialogStep s e) := by
  cases e with
  | dirChanged dir listing => exact pathNamesSteps_onDirChanged s dir listing
  | fileNode env fn => exact pathNamesSteps_selectFileNode h hguard
  | select env selection => exact pathNamesSteps_handleSelection selection h

/-- What reaches `readncdfFile` after a click on a time-step node names the
clicked file and position. -/
def HandsClicked (s : MainDialog α) (e : DialogEvent α) : Prop :=
  ∀ env fn k m,e=.select env (.stepNode fn k) → (handle s e).2=some m →
    m.fileName=filePath s fn ∧ m.timeIndex=k

/-- Under the invariant the clicked step is the one handed over. -/
theorem handsClicked_of_pathNamesSteps {s : MainDialog α} (e : DialogEvent α)
    (h : PathNamesSteps s) : HandsClicked s e := by
  rintro env fn k m rfl hm
  have hm' : (selectStepNode env s fn k).2=some m := hm
  rcases selectStepNode_cases env s fn k with
    ⟨-,heq⟩ | ⟨hnode,hpath,heq⟩ | ⟨-,-,-,heq⟩ | ⟨-,-,-,heq⟩
  · rw [heq] at hm'
    cases hm'
  · rw [heq] at hm'
    rcases h with hsteps | hunused
    · rw [hpath]
      exact selectLoadedStep_hands hsteps hm'
    · exact absurd hpath (hunused fn k hnode)
  · rw [heq] at hm'
    cases hm'
  · rw [heq] at hm'
    refine selectLoadedStep_hands ?_ hm'
    unfold switched
    rw [ncGet_eq]
    exact stepsOf_fileSteps env (filePath s fn)

/-- In every run from the initial dialog whose file nodes keep the path,
every click on a time-step node hands over the clicked step. -/
theorem clicked_is_handed_over (events : List (DialogEvent α))
    (hguard : Along dialogStep FileNodeKeepsPath {} events) :
    Along dialogStep HandsClicked {} events :=
  along_of_invariant pathNamesSteps_dialogStep
    (fun _ e h _ => handsClicked_of_pathNamesSteps e h) (Or.inl (stepsOf_nil _)) hguard

end Invariant

section Sample

/-- A step of `a.nc`, the file node of `a.nc`, and another step of it. -/
def switchThenReload : List (DialogEvent ℚ) :=
  [enterTwoFiles,.select twoFiles (.stepNode "a.nc" 0),.fileNode twoFiles "a.nc",
    .select twoFiles (.stepNode "a.nc" 1)]

/-- The file node of `a.nc` while `b.nc` is current, then a step of `b.nc`. -/
def reloadThenSwitch : List (DialogEvent ℚ) :=
  [enterTwoFiles,.fileNode twoFiles "a.nc",.select twoFiles (.stepNode "b.nc" 0)]

/-- Reloading the current file through its node keeps the clicks right. -/
theorem clicked_is_handed_over_reload : Along dialogStep HandsClicked {} switchThenReload :=
  clicked_is_handed_over switchThenReload
    ⟨trivial,trivial,fun _ => Or.inl (by decide +kernel),trivial,trivial⟩

/-- After the file node of `a.nc`, a click on a step of `b.nc` hands over a
message of `a.nc`. -/
theorem clicked_is_not_handed_over : ¬Along dialogStep HandsClicked {} reloadThenSwitch := by
  rintro ⟨-,-,hclick,-⟩
  let s := run dialogStep {} (reloadThenSwitch.take 2)
  have hname : ((handle s (.select twoFiles (.stepNode "b.nc" 0))).2.map DataMessage.fileName)=
      some "d\\a.nc" := by decide +kernel
  have hpath : filePath s "b.nc"="d\\b.nc" := by decide +kernel
  obtain ⟨m,hm,hfile⟩ := Option.map_eq_some_iff.mp hname
  have hclicked := (hclick twoFiles "b.nc" 0 m rfl hm).1
  have heq : "d\\a.nc"="d\\b.nc" := hfile.symm.trans (hclicked.trans hpath)
  exact absurd heq (by decide)

end Sample

end NcdfPlugin.NcdfFileSwitch
