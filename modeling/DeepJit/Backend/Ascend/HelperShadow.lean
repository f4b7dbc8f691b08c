import DeepJit.Backend.Ascend.HelperSafety

/-!
# The shadow of the toolkit

A helper that returns leaves a shadow in which every path of the installed toolkit leads where it
leads in the toolkit, but for the private package and configuration. However it ends, the toolkit is
as it was.
-/

namespace DeepJit.Ascend.Aicpu.Helper

open FileTree (Location Target Tree)

/-- The directory whose files are packed. -/
abbrev stageNames : List Bytes := [bytes "aicpu_kernels_device", bytes "build"]

/-- The directory of the private package. -/
abbrev packageNames (host : Host) : List Bytes :=
  [bytes "kernel", bytes "aicpu", bytes (packageName host), bytes "vendors", bytes "opp"]

/-- The directories of the toolkit that `overlay` goes through, each with the names that it leaves
out. -/
def layers (host : Host) : List (List Bytes × List Bytes) :=
  [([], [bytes "conf", bytes "opp", bytes "build"]),
    ([bytes "conf"], [bytes "ascend_package_load.ini", bytes "bootstrap.json"]),
    ([bytes "opp"], [bytes "vendors"]),
    ([bytes "vendors", bytes "opp"], [bytes (packageName host)])]

/-- The staged files. -/
def stagedTable (host : Host) (data cfg : Bytes) : Table :=
  ((Table.mkdirs (fun _ => none) stageNames).put (bytes (library host) :: stageNames) (.file data)).put
    (bytes "bin_hash.cfg" :: stageNames) (.file cfg)

/-- The installed toolkit is shown. -/
def overlaidTable (host : Host) (cann : Path) (data cfg : Bytes) (names₁ names₂ names₃ names₄ : List Bytes) :
    Table :=
  ((((stagedTable host data cfg).overlay cann ([], [bytes "conf", bytes "opp", bytes "build"]) names₁).overlay cann
    ([bytes "conf"], [bytes "ascend_package_load.ini", bytes "bootstrap.json"]) names₂).overlay cann
    ([bytes "opp"], [bytes "vendors"]) names₃).overlay cann
    ([bytes "vendors", bytes "opp"], [bytes (packageName host)]) names₄

/-- The private package and configuration are there. -/
def deployedTable (host : Host) (overlaid : Table) (archive listed registered : Bytes) : Table :=
  (((overlaid.mkdirs (packageNames host)).put
    ((bytes (packageName host) ++ bytes ".tar.gz") :: packageNames host) (.file archive)).put
    [bytes "ascend_package_load.ini", bytes "conf"] (.file listed)).put
    [bytes "bootstrap.json", bytes "conf"] (.file registered)

/-- What the helper leaves below the shadow. -/
structure Deployed (host : Host) (tree : Tree Bytes Bytes) (cann loader : Path) (table : Table) : Prop where
  linked : ∀ layer ∈ layers host, table layer.1 = some .directory ∧
    ∃ names, Lists host tree (cann.under layer.1) names ∧ ∀ name, name ∉ layer.2 →
      table (name :: layer.1) =
        if name ∈ names then some (.link ((cann.under layer.1).child name).target) else none
  packed : ∃ data cfg files, (∀ data', Reads host tree loader data' → data = data') ∧
    host.encode (binHash host (host.sha256 data)) = some cfg ∧
    files.Perm [(bytes (library host), data), (bytes "bin_hash.cfg", cfg)] ∧
    table ((bytes (packageName host) ++ bytes ".tar.gz") :: packageNames host) =
      some (.file (host.archive (bytes "aicpu_kernels_device") files))
  listed : ∃ installed data,
    (∀ data', Reads host tree (cann.under [bytes "ascend_package_load.ini", bytes "conf"]) data' →
      ∃ text, host.decode data' = some text ∧ installed = String.ofList (universalNewlines text.toList)) ∧
    host.encode (manifest host installed) = some data ∧
    table [bytes "ascend_package_load.ini", bytes "conf"] = some (.file data)
  registered : ∃ data, host.encode (bootstrapJson host) = some data ∧
    table [bytes "bootstrap.json", bytes "conf"] = some (.file data)

section

variable {host : Host} {tree : Tree Bytes Bytes} {state cann loader : Path} {work : Location Bytes} {left : Nat}
  {s : Files} {l : List Bytes} {name : Bytes} {data cfg archive listed registered : Bytes}
  {names₁ names₂ names₃ names₄ : List Bytes}

/-! ### The table after each part -/

/-- The names that are told apart. -/
theorem names_distinct : (bytes "conf" ≠ bytes "build" ∧ bytes "build" ≠ bytes "conf") ∧
    (bytes "opp" ≠ bytes "build" ∧ bytes "build" ≠ bytes "opp") ∧
    (bytes "opp" ≠ bytes "conf" ∧ bytes "conf" ≠ bytes "opp") ∧
    bytes "aicpu_kernels_device" ≠ bytes "vendors" ∧
    bytes "bootstrap.json" ≠ bytes "ascend_package_load.ini" := by
  decide

theorem library_ne_binHash : bytes (library host) ≠ bytes "bin_hash.cfg" := by
  have hhead : (bytes (library host)).head? = some 108 := by
    simp [library, bytes]
  intro h
  rw [h] at hhead
  simp [bytes] at hhead

theorem staged_apply (hl : l.getLast? ≠ some (bytes "build")) :
    stagedTable host data cfg l = if l = [] then some .directory else none := by
  have hne (name : Bytes) : l ≠ name :: stageNames := by
    rintro rfl
    simp at hl
  rw [stagedTable, put_apply, if_neg (hne _), put_apply, if_neg (hne _), mkdirs_apply]
  congr 1
  rw [List.suffix_cons_iff, List.suffix_cons_iff, List.suffix_nil, eq_iff_iff]
  constructor
  · rintro (rfl | rfl | rfl)
    · simp at hl
    · simp at hl
    · rfl
  · exact fun hnil => .inr (.inr hnil)

theorem staged_singleton (hn : name ≠ bytes "build") : stagedTable host data cfg [name] = none := by
  rw [staged_apply]
  · simp
  · rw [List.getLast?_singleton]
    exact fun h => hn (Option.some.inj h)

theorem staged_stage : stagedTable host data cfg stageNames = some .directory := by
  simp [stagedTable, put_apply, mkdirs_apply]

theorem staged_file : stagedTable host data cfg (name :: stageNames) =
    if name = bytes "bin_hash.cfg" then some (.file cfg)
    else if name = bytes (library host) then some (.file data) else none := by
  simp [stagedTable, put_apply, mkdirs_apply, List.suffix_cons_iff]

theorem staged_top : stagedTable host data cfg [] = some .directory := staged_apply (by simp)

theorem overlaid_stage :
    overlaidTable host cann data cfg names₁ names₂ names₃ names₄ stageNames = some .directory := by
  simp [overlaidTable, overlay_cons, staged_stage, names_distinct]

theorem overlaid_file : overlaidTable host cann data cfg names₁ names₂ names₃ names₄ (name :: stageNames) =
    stagedTable host data cfg (name :: stageNames) := by
  simp [overlaidTable, overlay_cons, names_distinct]

/-! ### What is missing when it is made -/

theorem overlaid_conf : ((stagedTable host data cfg).overlay cann
    ([], [bytes "conf", bytes "opp", bytes "build"]) names₁).Plain [bytes "conf"] := by
  refine .cons (.nil overlay_nil) (.inl ?_)
  simp [overlay_cons, staged_singleton, names_distinct]

theorem overlaid_opp : (((stagedTable host data cfg).overlay cann
    ([], [bytes "conf", bytes "opp", bytes "build"]) names₁).overlay cann
    ([bytes "conf"], [bytes "ascend_package_load.ini", bytes "bootstrap.json"]) names₂).Plain [bytes "opp"] := by
  refine .cons (.nil ?_) (.inl ?_)
  · simp [overlay_nil]
  · simp [overlay_cons, staged_singleton, names_distinct]

theorem overlaid_vendors : ((((stagedTable host data cfg).overlay cann
    ([], [bytes "conf", bytes "opp", bytes "build"]) names₁).overlay cann
    ([bytes "conf"], [bytes "ascend_package_load.ini", bytes "bootstrap.json"]) names₂).overlay cann
    ([bytes "opp"], [bytes "vendors"]) names₃).Plain [bytes "vendors", bytes "opp"] := by
  refine .cons (.cons (.nil ?_) (.inr ?_)) (.inl ?_)
  · simp [overlay_nil]
  · simp [overlay_cons]
  · simp [overlay_cons, staged_apply, names_distinct]

theorem overlaid_package :
    (overlaidTable host cann data cfg names₁ names₂ names₃ names₄).Plain (packageNames host) := by
  refine .cons (.cons (.cons (.cons (.cons (.nil ?_) (.inr ?_)) (.inr ?_)) (.inl ?_)) (.inl ?_)) (.inl ?_)
  all_goals simp [overlaidTable, overlay_nil, overlay_cons, staged_apply, names_distinct]

theorem overlaid_archive :
    overlaidTable host cann data cfg names₁ names₂ names₃ names₄ (name :: packageNames host) = none := by
  simp [overlaidTable, overlay_cons, staged_apply, names_distinct]

theorem packed_stage : (overlaidTable host cann data cfg names₁ names₂ names₃ names₄).mkdirs (packageNames host)
    stageNames = some .directory := by
  rw [mkdirs_apply, overlaid_stage, ite_self]

theorem packed_file : (overlaidTable host cann data cfg names₁ names₂ names₃ names₄).mkdirs (packageNames host)
    (name :: stageNames) = stagedTable host data cfg (name :: stageNames) := by
  rw [mkdirs_apply, overlaid_file, if_neg]
  simp [List.suffix_cons_iff, names_distinct]

theorem packed_files (name : Bytes) :
    (overlaidTable host cann data cfg names₁ names₂ names₃ names₄).mkdirs (packageNames host)
      (name :: stageNames) = none ∨
    ∃ content, (overlaidTable host cann data cfg names₁ names₂ names₃ names₄).mkdirs (packageNames host)
      (name :: stageNames) = some (.file content) := by
  rw [packed_file, staged_file]
  split
  · exact .inr ⟨cfg, rfl⟩
  · split
    · exact .inr ⟨data, rfl⟩
    · exact .inl rfl

/-- The private configuration is not there yet, nor is a link in its place. -/
theorem packed_conf :
    (((overlaidTable host cann data cfg names₁ names₂ names₃ names₄).mkdirs (packageNames host)).put
      ((bytes (packageName host) ++ bytes ".tar.gz") :: packageNames host) (.file archive)).Plain [bytes "conf"] ∧
    ((overlaidTable host cann data cfg names₁ names₂ names₃ names₄).mkdirs (packageNames host)).put
      ((bytes (packageName host) ++ bytes ".tar.gz") :: packageNames host) (.file archive)
      [bytes "ascend_package_load.ini", bytes "conf"] = none := by
  refine ⟨.cons (.nil ?_) (.inr ?_), ?_⟩
  all_goals simp [put_apply, mkdirs_apply, List.suffix_cons_iff, overlaidTable, overlay_cons, staged_apply,
    names_distinct]

theorem listed_conf :
    ((((overlaidTable host cann data cfg names₁ names₂ names₃ names₄).mkdirs (packageNames host)).put
      ((bytes (packageName host) ++ bytes ".tar.gz") :: packageNames host) (.file archive)).put
      [bytes "ascend_package_load.ini", bytes "conf"] (.file listed)).Plain [bytes "conf"] ∧
    (((overlaidTable host cann data cfg names₁ names₂ names₃ names₄).mkdirs (packageNames host)).put
      ((bytes (packageName host) ++ bytes ".tar.gz") :: packageNames host) (.file archive)).put
      [bytes "ascend_package_load.ini", bytes "conf"] (.file listed)
      [bytes "bootstrap.json", bytes "conf"] = none := by
  refine ⟨.cons (.nil ?_) (.inr ?_), ?_⟩
  all_goals simp [put_apply, mkdirs_apply, List.suffix_cons_iff, overlaidTable, overlay_cons, staged_apply,
    names_distinct]

theorem deployed_directory (layer : List Bytes × List Bytes) (hlayer : layer ∈ layers host) :
    deployedTable host (overlaidTable host cann data cfg names₁ names₂ names₃ names₄) archive listed registered
      layer.1 = some .directory := by
  simp only [layers, List.mem_cons, List.not_mem_nil, or_false] at hlayer
  rcases hlayer with rfl | rfl | rfl | rfl
  all_goals simp [deployedTable, put_apply, mkdirs_apply, List.suffix_cons_iff, overlaidTable, overlay_cons,
    names_distinct]

theorem deployed_linked (name : Bytes) :
    (name ∉ [bytes "conf", bytes "opp", bytes "build"] →
      deployedTable host (overlaidTable host cann data cfg names₁ names₂ names₃ names₄) archive listed registered
        [name] = if name ∈ names₁ then some (.link ((cann.under []).child name).target) else none) ∧
    (name ∉ [bytes "ascend_package_load.ini", bytes "bootstrap.json"] →
      deployedTable host (overlaidTable host cann data cfg names₁ names₂ names₃ names₄) archive listed registered
        [name, bytes "conf"] =
          if name ∈ names₂ then some (.link ((cann.under [bytes "conf"]).child name).target) else none) ∧
    (name ∉ [bytes "vendors"] →
      deployedTable host (overlaidTable host cann data cfg names₁ names₂ names₃ names₄) archive listed registered
        [name, bytes "opp"] =
          if name ∈ names₃ then some (.link ((cann.under [bytes "opp"]).child name).target) else none) ∧
    (name ∉ [bytes (packageName host)] →
      deployedTable host (overlaidTable host cann data cfg names₁ names₂ names₃ names₄) archive listed registered
        [name, bytes "vendors", bytes "opp"] =
          if name ∈ names₄ then some (.link ((cann.under [bytes "vendors", bytes "opp"]).child name).target)
          else none) := by
  refine ⟨fun hname => ?_, fun hname => ?_, fun hname => ?_, fun hname => ?_⟩
  · simp only [List.mem_cons, List.not_mem_nil, or_false, not_or] at hname
    simp [deployedTable, overlaidTable, put_apply, mkdirs_apply, overlay_cons, List.suffix_cons_iff,
      staged_singleton, hname]
  · simp only [List.mem_cons, List.not_mem_nil, or_false, not_or] at hname
    simp [deployedTable, overlaidTable, put_apply, mkdirs_apply, overlay_cons, List.suffix_cons_iff,
      staged_apply, hname, names_distinct]
  · simp only [List.mem_cons, List.not_mem_nil, or_false] at hname
    simp [deployedTable, overlaidTable, put_apply, mkdirs_apply, overlay_cons, List.suffix_cons_iff,
      staged_apply, hname, names_distinct]
  · simp only [List.mem_cons, List.not_mem_nil, or_false] at hname
    simp [deployedTable, overlaidTable, put_apply, mkdirs_apply, overlay_cons, List.suffix_cons_iff,
      staged_apply, hname, names_distinct]

/-! ### The run -/

/-- The copy of the loader is read back. -/
theorem copied_eq {table : Table} (hfresh : Fresh host tree state work left)
    (h : Holds tree work ((Table.mkdirs table stageNames).put (name :: stageNames) (.file data)) s)
    {file : Location Bytes} {left' : Nat} {copied : Bytes}
    (hleads : (dest state (name :: stageNames)).leads host s.tree = some (file, left'))
    (hcopied : s.tree.node file = some (.file copied)) : data = copied := by
  have hnode : s.tree.node (name :: (stageNames ++ top work)) = some (.file data) :=
    (h.below (name :: stageNames)).trans put_apply_self
  have hstage : (Table.mkdirs table stageNames).put (name :: stageNames) (.file data) stageNames =
      some .directory := by
    simp [put_apply, mkdirs_apply]
  obtain rfl := leads_file hfresh h hstage hleads hnode
  rw [hnode] at hcopied
  exact FileTree.Node.file.inj (Option.some.inj hcopied)

theorem staged_new : (Table.mkdirs (fun _ => none) stageNames).put (bytes (library host) :: stageNames)
    (.file data) (bytes "bin_hash.cfg" :: stageNames) = none := by
  simp [put_apply, mkdirs_apply, library_ne_binHash.symm, List.suffix_cons_iff]

/-- The archive takes in the library and its hash. -/
theorem staged_perm {files : List (Bytes × Bytes)}
    (hfiles : Holding ((overlaidTable host cann data cfg names₁ names₂ names₃ names₄).mkdirs (packageNames host))
      stageNames files) :
    files.Perm [(bytes (library host), data), (bytes "bin_hash.cfg", cfg)] := by
  apply (List.perm_ext_iff_of_nodup hfiles.1.of_map (by simp [library_ne_binHash])).mpr
  rintro ⟨name, content⟩
  rw [hfiles.2, packed_file, staged_file, List.mem_pair, Prod.mk.injEq, Prod.mk.injEq]
  split
  · rename_i hcfg
    rw [Option.some.injEq, FileTree.Node.file.injEq, eq_comm]
    simp [hcfg, library_ne_binHash.symm]
  · rename_i hcfg
    split
    · rename_i hlibrary
      rw [Option.some.injEq, FileTree.Node.file.injEq, eq_comm]
      simp [hlibrary, library_ne_binHash]
    · rename_i hlibrary
      simp [hcfg, hlibrary]

/-- What each call of `overlay` linked stays. -/
theorem deployed_layers (hnames₁ : Lists host tree (cann.under []) names₁)
    (hnames₂ : Lists host tree (cann.under [bytes "conf"]) names₂)
    (hnames₃ : Lists host tree (cann.under [bytes "opp"]) names₃)
    (hnames₄ : Lists host tree (cann.under [bytes "vendors", bytes "opp"]) names₄) :
    ∀ layer ∈ layers host,
      deployedTable host (overlaidTable host cann data cfg names₁ names₂ names₃ names₄) archive listed registered
        layer.1 = some .directory ∧
      ∃ names, Lists host tree (cann.under layer.1) names ∧ ∀ name, name ∉ layer.2 →
        deployedTable host (overlaidTable host cann data cfg names₁ names₂ names₃ names₄) archive listed registered
          (name :: layer.1) =
            if name ∈ names then some (.link ((cann.under layer.1).child name).target) else none := by
  intro layer hlayer
  refine ⟨deployed_directory layer hlayer, ?_⟩
  simp only [layers, List.mem_cons, List.not_mem_nil, or_false] at hlayer
  rcases hlayer with rfl | rfl | rfl | rfl
  · exact ⟨names₁, hnames₁, fun name => (deployed_linked name).1⟩
  · exact ⟨names₂, hnames₂, fun name => (deployed_linked name).2.1⟩
  · exact ⟨names₃, hnames₃, fun name => (deployed_linked name).2.2.1⟩
  · exact ⟨names₄, hnames₄, fun name => (deployed_linked name).2.2.2⟩

theorem post_readText (path : Path) :
    Post (fun text s' => s'.tree = s.tree ∧ ∃ file left data, path.leads host s.tree = some (file, left) ∧
        s.tree.node file = some (.file data) ∧ ∃ decoded, host.decode data = some decoded ∧
        text = String.ofList (universalNewlines decoded.toList))
      (fun _ s' => s'.tree = s.tree) (readText host path s) := by
  apply Action.post_bind (post_readBytes path)
  rintro data t ⟨htree, file, left', hleads, hnode⟩
  cases hdecode : host.decode data with
  | none => exact htree
  | some decoded => exact ⟨htree, file, left', data, hleads, hnode, decoded, hdecode, rfl⟩

theorem post_deploy (functions : List String) :
    Post (fun _ s' => s'.tree = s.tree) (fun _ s' => s'.tree = s.tree) (deploy host functions s) := by
  induction functions with
  | nil => rfl
  | cons function functions ih =>
      rw [deploy]
      split
      · rfl
      · exact ih

variable (cann loader) in
/-- The run, call by call. -/
theorem main_post (hfresh : Fresh host tree state work left) (hs : s.tree = tree) :
    Post (fun _ s' => ∃ table, Holds tree work table s' ∧ Deployed host tree cann loader table)
      (fun _ s' => Outside tree work s') (main host cann state loader s) := by
  have h₀ := hfresh.holds hs
  -- Stage the library and its hash.
  apply Action.post_bind (mkdirParents_below (l := stageNames) hfresh h₀ (fun _ _ => .inl rfl) false)
  intro _ t₁ h₁
  apply Action.post_bind (copyfile_below (l := stageNames) hfresh h₁ .mkdirs mkdirs_new loader)
  rintro _ t₂ ⟨data, hloader, h₂⟩
  apply Action.post_bind ((post_readBytes _).imp (fun _ _ hread => hread) fun _ _ htree => ⟨_, h₂.of_tree htree⟩)
  rintro copied t₃ ⟨htree₃, file, left', hleads, hcopied⟩
  obtain rfl : data = copied := copied_eq hfresh h₂ hleads hcopied
  have h₃ := h₂.of_tree htree₃
  apply Action.post_bind (writeText_below (l := stageNames) hfresh h₃ Table.Plain.mkdirs.put staged_new _)
  rintro _ t₄ ⟨cfg, hcfg, h₄⟩
  change Holds tree work (stagedTable host data cfg) t₄ at h₄
  -- Show the installed toolkit.
  apply Action.post_bind (overlay_below (l := []) hfresh h₄ (.nil staged_top) cann _)
  rintro _ t₅ ⟨names₁, hnames₁, h₅⟩
  apply Action.post_bind (overlay_below (l := [bytes "conf"]) hfresh h₅ overlaid_conf cann _)
  rintro _ t₆ ⟨names₂, hnames₂, h₆⟩
  apply Action.post_bind (overlay_below (l := [bytes "opp"]) hfresh h₆ overlaid_opp cann _)
  rintro _ t₇ ⟨names₃, hnames₃, h₇⟩
  apply Action.post_bind (overlay_below (l := [bytes "vendors", bytes "opp"]) hfresh h₇ overlaid_vendors cann _)
  rintro _ t₈ ⟨names₄, hnames₄, h₈⟩
  change Holds tree work (overlaidTable host cann data cfg names₁ names₂ names₃ names₄) t₈ at h₈
  -- Add the private package and configuration.
  apply Action.post_bind (mkdirParents_below (l := packageNames host) hfresh h₈ overlaid_package false)
  intro _ t₉ h₉
  apply Action.post_bind (writeArchive_below (l := packageNames host) hfresh h₉ .mkdirs
    (mkdirs_new.trans overlaid_archive) stageNames packed_stage (by simp) packed_files _)
  rintro _ t₁₀ ⟨files, hfiles, h₁₀⟩
  apply Action.post_bind ((post_readText _).imp (fun _ _ hread => hread) fun _ _ htree => ⟨_, h₁₀.of_tree htree⟩)
  rintro installed t₁₁ ⟨htree₁₁, ini, left'', read, hini, hread, decoded, hdecoded, rfl⟩
  have h₁₁ := h₁₀.of_tree htree₁₁
  apply Action.post_bind (writeText_below (l := [bytes "conf"]) hfresh h₁₁ packed_conf.1 packed_conf.2 _)
  rintro _ t₁₂ ⟨listed, hlisted, h₁₂⟩
  apply Action.post_bind (writeText_below (l := [bytes "conf"]) hfresh h₁₂ listed_conf.1 listed_conf.2 _)
  rintro _ t₁₃ ⟨registered, hregistered, h₁₃⟩
  change Holds tree work (deployedTable host (overlaidTable host cann data cfg names₁ names₂ names₃ names₄)
    (host.archive (bytes "aicpu_kernels_device") files) listed registered) t₁₃ at h₁₃
  -- Deploy.
  apply Action.post_bind (Q := fun _ s' => Holds tree work _ s') (Action.post_modify.mpr (h₁₃.of_tree rfl))
  intro _ t₁₄ h₁₄
  apply Action.post_bind ((post_openRead _).imp (fun _ _ hopen => hopen) fun _ _ htree => ⟨_, h₁₄.of_tree htree⟩)
  rintro _ t₁₅ ⟨htree₁₅, -⟩
  have h₁₅ := h₁₄.of_tree htree₁₅
  refine (post_deploy _).imp (fun _ _ htree => ⟨_, h₁₅.of_tree htree, ?_⟩) fun _ _ htree => ⟨_, h₁₅.of_tree htree⟩
  refine ⟨deployed_layers hnames₁ hnames₂ hnames₃ hnames₄, ?_, ?_, ?_⟩
  · exact ⟨data, cfg, files, hloader, hcfg, staged_perm hfiles, by simp [deployedTable, put_apply]⟩
  · refine ⟨_, listed, fun data' hdata' => ?_, hlisted, ?_⟩
    · exact ⟨decoded, by rw [← hfresh.reads h₁₀ hini hread hdata', hdecoded], rfl⟩
    · rw [deployedTable, put_apply, if_neg (by simp [names_distinct.2.2.2.2.symm]), put_apply_self]
  · exact ⟨registered, hregistered, put_apply_self⟩

/-! ### A small toolkit -/

/-- A host without faults. -/
def smallHost : Host where
  links := 40
  cwd := []
  fails _ := false
  hex := "0"
  decode data := some (String.ofList (data.map fun b => Char.ofNat b.toNat))
  encode text := some (bytes text)
  sha256 _ := "ff"
  archive _ files := files.flatMap fun file => file.1 ++ file.2
  status _ := 0

/-- A toolkit with one library, the cached loader and an empty work directory. -/
def smallTree : Tree Bytes Bytes :=
  let t := Tree.root.create (bytes "cann") [] .directory rfl rfl
  let t := t.create (bytes "conf") [bytes "cann"] .directory rfl rfl
  let t := t.create (bytes "ascend_package_load.ini") [bytes "conf", bytes "cann"] (.file (bytes "x\n")) rfl rfl
  let t := t.create (bytes "lib64") [bytes "cann"] .directory rfl rfl
  let t := t.create (bytes "libascendcl.so") [bytes "lib64", bytes "cann"] (.file [1]) rfl rfl
  let t := t.create (bytes "tmp") [] .directory rfl rfl
  t.create (bytes "loader.so") [] (.file [2]) rfl rfl

def rootPath (name : String) : Path := ⟨true, [.entry (bytes name)]⟩

def smallFiles : Files := { tree := smallTree }

def smallRun : Except Exception Unit × Files :=
  main smallHost (rootPath "cann") (rootPath "tmp") (rootPath "loader.so") smallFiles

theorem small_fresh : Fresh smallHost smallFiles.tree (rootPath "tmp") [bytes "tmp"] 40 where
  leads := by decide +kernel
  isDirectory := by decide +kernel
  new := rfl

theorem small_ok : main smallHost (rootPath "cann") (rootPath "tmp") (rootPath "loader.so") smallFiles =
    (.ok (), smallRun.2) := by
  have hok : smallRun.1 = .ok () := by decide +kernel
  rw [← smallRun, ← hok]

/-! ### The toolkit and its shadow -/

variable (cann loader)

/-- However the helper ends, nothing outside the shadow is different, and the toolkit is as it was
once the work directory is removed. -/
theorem toolkit_kept {base : Location Bytes} (hfresh : Fresh host s.tree state (name :: base) left) :
    (∀ loc, ¬ top (name :: base) <:+ loc → (main host cann state loader s).2.tree.node loc = s.tree.node loc) ∧
      ∀ loc, ((main host cann state loader s).2.tree.prune name base).node loc =
        if name :: base <:+ loc then none else s.tree.node loc := by
  have houtside : Outside s.tree (name :: base) (main host cann state loader s).2 := by
    have hpost := main_post cann loader hfresh rfl
    cases hmain : main host cann state loader s with
    | mk result s' =>
        rw [hmain] at hpost
        cases result with
        | ok value =>
            obtain ⟨table, hholds, -⟩ := hpost
            exact ⟨table, hholds⟩
        | error error => exact hpost
  obtain ⟨table, hholds⟩ := houtside
  refine ⟨hholds.outside, fun loc => ?_⟩
  rw [Tree.node_prune]
  split
  · rfl
  · rename_i hloc
    exact hholds.outside loc fun htop => hloc ((List.suffix_cons _ _).trans htop)

theorem toolkit_kept_small :
    (∀ loc, ¬ top [bytes "tmp"] <:+ loc → smallRun.2.tree.node loc = smallFiles.tree.node loc) ∧
      ∀ loc, (smallRun.2.tree.prune (bytes "tmp") []).node loc =
        if [bytes "tmp"] <:+ loc then none else smallFiles.tree.node loc := by
  rw [smallRun]
  exact toolkit_kept (rootPath "cann") (rootPath "loader.so") small_fresh

omit cann loader in
/-- A link in a directory is followed. -/
theorem walk_link {dir : Location Bytes} {target : Target Bytes}
    (hlink : tree.node (name :: dir) = some (.link target)) (budget : Nat) (rest : List (FileTree.Part Bytes)) :
    tree.walk 0 dir (.entry name :: rest) = none ∧
      tree.walk (budget + 1) dir (.entry name :: rest) =
        tree.walk budget (target.start dir) (target.parts ++ rest) := by
  constructor
  · rw [Tree.walk, Tree.walkWith, hlink]
  · rw [Tree.walk, Tree.walkWith, hlink]

/-- Every path into the toolkit that the helper does not hide leads to the same place through the
shadow, with one link more, and every such path of the shadow that leads somewhere is one of the
toolkit. -/
theorem toolkit_shown {s' : Files} (hfresh : Fresh host s.tree state work left) (hcann : cann.absolute = true)
    (h : main host cann state loader s = (.ok (), s')) {layer : List Bytes × List Bytes}
    (hlayer : layer ∈ layers host) (name : Bytes) (hname : name ∉ layer.2) (rest : List (FileTree.Part Bytes)) :
    (∀ budget ≤ host.links, ∀ reached more,
      s.tree.walk budget [] ((cann.under (name :: layer.1)).target.parts ++ rest) = some (reached, more + 1) →
      s'.tree.walk budget (top work) ((name :: layer.1).reverse.map .entry ++ rest) = some (reached, more)) ∧
    ∀ budget reached,
      s'.tree.walk budget (top work) ((name :: layer.1).reverse.map .entry ++ rest) = some reached →
      ∃ less, budget = less + 1 ∧
        s'.tree.walk less [] ((cann.under (name :: layer.1)).target.parts ++ rest) = some reached := by
  have hpost := main_post cann loader hfresh rfl
  rw [h] at hpost
  obtain ⟨table, hholds, hdeployed⟩ := hpost
  obtain ⟨hdir, names, hlists, hlinked⟩ := hdeployed.linked layer hlayer
  have hparts : (cann.under (name :: layer.1)).target.parts ++ rest =
      (cann.under layer.1).target.parts ++ .entry name :: rest := by
    simp [Path.under, Path.target]
  have hstart (dir : Location Bytes) : ((cann.under layer.1).child name).target.start dir = [] := by
    simp [Path.under, Path.child, Path.target, Target.start, hcann]
  have hnode : s'.tree.node (name :: (layer.1 ++ top work)) =
      if name ∈ names then some (.link ((cann.under layer.1).child name).target) else none :=
    (hholds.below (name :: layer.1)).trans (hlinked name hname)
  -- The walk through the layer, which is a directory of the shadow.
  have hwalk (budget : Nat) : s'.tree.walk budget (top work) ((name :: layer.1).reverse.map .entry ++ rest) =
      s'.tree.walk budget (layer.1 ++ top work) (.entry name :: rest) := by
    have hlayer' := s'.tree.resolve_direct budget (top work) (hholds.isDirectory_iff.mpr hdir)
    rw [Tree.resolve] at hlayer'
    rw [List.reverse_cons, List.map_append, List.append_assoc, Tree.walk_append, hlayer', Option.bind_some]
    rfl
  constructor
  · intro budget hbudget reached more hreached
    have hmem : name ∈ names := by
      rw [hparts] at hreached
      apply hlists budget hbudget name rest
      rw [show (cann.under layer.1).target.start host.cwd = [] by
        simp [Path.under, Path.target, Target.start, hcann], hreached]
      simp
    rw [if_pos hmem] at hnode
    obtain ⟨less, rfl⟩ : ∃ less, budget = less + 1 := by
      have hleft := s.tree.walk_left hreached
      exact ⟨budget - 1, by simp only at hleft; omega⟩
    rw [hwalk, (walk_link hnode less rest).2, hstart]
    exact (hfresh.extends_tree hholds).walk (s.tree.walk_succ.mp hreached)
  · intro budget reached hreached
    rw [hwalk] at hreached
    by_cases hmem : name ∈ names
    · rw [if_pos hmem] at hnode
      cases budget with
      | zero =>
          rw [(walk_link hnode 0 rest).1] at hreached
          simp at hreached
      | succ less =>
          rw [(walk_link hnode less rest).2, hstart] at hreached
          exact ⟨less, rfl, hreached⟩
    · rw [if_neg hmem] at hnode
      exact absurd hnode (walk_of_entry (by rw [hreached]; simp))

theorem toolkit_shown_small : smallRun.2.tree.walk 40 (top [bytes "tmp"])
    [.entry (bytes "lib64"), .entry (bytes "libascendcl.so")] =
      some ([bytes "libascendcl.so", bytes "lib64", bytes "cann"], 39) :=
  (toolkit_shown (rootPath "cann") (rootPath "loader.so") small_fresh rfl small_ok (List.mem_cons_self ..)
    (bytes "lib64") (by decide) [.entry (bytes "libascendcl.so")]).1 40 le_rfl _ 39 (by decide +kernel)

/-- The private package: its archive holds the copied loader and a file with its hash, the package
list is that of the toolkit with the package added, and the entry is registered. -/
theorem package_deployed {s' : Files} (hfresh : Fresh host s.tree state work left)
    (h : main host cann state loader s = (.ok (), s')) {loaded installed : Bytes}
    (hloader : Reads host s.tree loader loaded)
    (hinstalled : Reads host s.tree (cann.under [bytes "ascend_package_load.ini", bytes "conf"]) installed) :
    (∃ cfg files, host.encode (binHash host (host.sha256 loaded)) = some cfg ∧
      files.Perm [(bytes (library host), loaded), (bytes "bin_hash.cfg", cfg)] ∧
      s'.tree.node (((bytes (packageName host) ++ bytes ".tar.gz") :: packageNames host) ++ top work) =
        some (.file (host.archive (bytes "aicpu_kernels_device") files))) ∧
    (∃ text list, host.decode installed = some text ∧
      host.encode (manifest host (String.ofList (universalNewlines text.toList))) = some list ∧
      s'.tree.node ([bytes "ascend_package_load.ini", bytes "conf"] ++ top work) = some (.file list)) ∧
    ∃ config, host.encode (bootstrapJson host) = some config ∧
      s'.tree.node ([bytes "bootstrap.json", bytes "conf"] ++ top work) = some (.file config) := by
  have hpost := main_post cann loader hfresh rfl
  rw [h] at hpost
  obtain ⟨table, hholds, hdeployed⟩ := hpost
  obtain ⟨data, cfg, files, hdata, hcfg, hfiles, harchive⟩ := hdeployed.packed
  obtain ⟨_, list, htext, hlist, hconf⟩ := hdeployed.listed
  obtain ⟨config, hconfig, hjson⟩ := hdeployed.registered
  obtain rfl := hdata loaded hloader
  obtain ⟨text, hdecode, rfl⟩ := htext installed hinstalled
  exact ⟨⟨cfg, files, hcfg, hfiles, (hholds.below _).trans harchive⟩,
    ⟨text, list, hdecode, hlist, (hholds.below _).trans hconf⟩, config, hconfig, (hholds.below _).trans hjson⟩

theorem small_loader : Reads smallHost smallFiles.tree (rootPath "loader.so") [2] :=
  ⟨[bytes "loader.so"], 40, by decide +kernel, rfl⟩

theorem small_installed : Reads smallHost smallFiles.tree
    ((rootPath "cann").under [bytes "ascend_package_load.ini", bytes "conf"]) (bytes "x\n") :=
  ⟨[bytes "ascend_package_load.ini", bytes "conf", bytes "cann"], 40, by decide +kernel, rfl⟩

theorem package_deployed_small : ∃ config, smallHost.encode (bootstrapJson smallHost) = some config ∧
    smallRun.2.tree.node ([bytes "bootstrap.json", bytes "conf"] ++ top [bytes "tmp"]) = some (.file config) :=
  (package_deployed (rootPath "cann") (rootPath "loader.so") small_fresh small_ok small_loader small_installed).2.2

end

end DeepJit.Ascend.Aicpu.Helper
