import DeepJit.Backend.Builder
import DeepJit.Runtime.Config
import DeepJit.Utils.PathNormal

/-!
# The constructor of the configuration

`Config` checks its paths and the prefix of its environment variables, and keeps the paths in their
normal form.
-/

namespace DeepJit

open FileTree (Location Tree)

/-- `Config` with all of its members. -/
structure NamedConfig extends Config where
  envPrefix : Bytes

/-- `is_absolute`. -/
def isAbsolute (path : Bytes) : Bool := path.head? = some slash

/-- The loop over the include directories. -/
def checkIncludes : List Bytes → Except Bytes (List Bytes)
  | [] => .ok []
  | includeDir :: rest => do
      hostAssert (includeDir ≠ []) "not include_dir.empty()" (bytes "JIT include directory must not be empty")
      hostAssert (isAbsolute includeDir) "include_dir.is_absolute()"
        (bytes "JIT include directory must be absolute: " ++ includeDir)
      let checked ← checkIncludes rest
      .ok (lexicallyNormal includeDir :: checked)

/-- The constructor of `Config`. -/
def NamedConfig.make (pythonLibraryRoot envPrefix extraSignature : Bytes) (includeDirs includePrefixes : List Bytes) :
    Except Bytes NamedConfig := do
  hostAssert (pythonLibraryRoot ≠ []) "not this->python_library_root.empty()"
    (bytes "Python library root must not be empty")
  hostAssert (isAbsolute pythonLibraryRoot) "this->python_library_root.is_absolute()"
    (bytes "Python library root must be absolute: " ++ pythonLibraryRoot)
  hostAssert (envPrefix ≠ []) "not this->env_prefix.empty()"
    (bytes "environment variable prefix must not be empty")
  hostAssert (envPrefix ≠ bytes "DJ") "this->env_prefix != \"DJ\""
    (bytes "DJ is reserved for global environment variables")
  let checked ← checkIncludes includeDirs
  .ok {
    pythonLibraryRoot := lexicallyNormal pythonLibraryRoot
    extraSignature := extraSignature
    includeDirs := checked
    includePrefixes := includePrefixes
    envPrefix := envPrefix
  }

/-! ### What is accepted -/

theorem ne_nil_of_isAbsolute {path : Bytes} (h : isAbsolute path = true) : path ≠ [] := by
  rintro rfl
  simp [isAbsolute] at h

theorem isAbsolute_lexicallyNormal {path : Bytes} (h : isAbsolute path = true) :
    isAbsolute (lexicallyNormal path) = true := by
  rw [isAbsolute, decide_eq_true_eq] at h ⊢
  exact (head_lexicallyNormal (ne_nil_of_isAbsolute (by simpa [isAbsolute] using h))).mpr h

theorem checkIncludes_eq_ok {includeDirs checked : List Bytes} :
    checkIncludes includeDirs = .ok checked ↔
      (∀ includeDir ∈ includeDirs, isAbsolute includeDir = true) ∧ checked = includeDirs.map lexicallyNormal := by
  induction includeDirs generalizing checked with
  | nil =>
      rw [checkIncludes, Except.ok.injEq]
      exact ⟨fun h => ⟨by simp, h.symm⟩, fun h => h.2.symm⟩
  | cons includeDir rest ih =>
      rw [checkIncludes, hostAssert_bind, hostAssert_bind, decide_eq_true_eq]
      constructor
      · rintro ⟨-, habsolute, hrest⟩
        cases hchecked : checkIncludes rest with
        | error what => simp [hchecked, bind, Except.bind] at hrest
        | ok others =>
            obtain ⟨hothers, rfl⟩ := ih.mp hchecked
            obtain rfl : lexicallyNormal includeDir :: rest.map lexicallyNormal = checked := by
              simpa [hchecked, bind, Except.bind] using hrest
            exact ⟨List.forall_mem_cons.mpr ⟨habsolute, hothers⟩, rfl⟩
      · rintro ⟨hall, rfl⟩
        obtain ⟨habsolute, hothers⟩ := List.forall_mem_cons.mp hall
        refine ⟨ne_nil_of_isAbsolute habsolute, habsolute, ?_⟩
        rw [ih.mpr ⟨hothers, rfl⟩]
        rfl

namespace NamedConfig

variable {pythonLibraryRoot envPrefix extraSignature : Bytes} {includeDirs includePrefixes : List Bytes}
  {config : NamedConfig}

theorem make_eq_ok :
    make pythonLibraryRoot envPrefix extraSignature includeDirs includePrefixes = .ok config ↔
      isAbsolute pythonLibraryRoot = true ∧ envPrefix ≠ [] ∧ envPrefix ≠ bytes "DJ" ∧
      (∀ includeDir ∈ includeDirs, isAbsolute includeDir = true) ∧
      config = {
        pythonLibraryRoot := lexicallyNormal pythonLibraryRoot
        extraSignature := extraSignature
        includeDirs := includeDirs.map lexicallyNormal
        includePrefixes := includePrefixes
        envPrefix := envPrefix
      } := by
  rw [make, hostAssert_bind, hostAssert_bind, hostAssert_bind, hostAssert_bind, decide_eq_true_eq,
    decide_eq_true_eq, decide_eq_true_eq]
  constructor
  · rintro ⟨-, hroot, hempty, hreserved, hrest⟩
    cases hchecked : checkIncludes includeDirs with
    | error what => simp [hchecked, bind, Except.bind] at hrest
    | ok checked =>
        obtain ⟨hall, rfl⟩ := checkIncludes_eq_ok.mp hchecked
        rw [hchecked] at hrest
        exact ⟨hroot, hempty, hreserved, hall, (Except.ok.inj hrest).symm⟩
  · rintro ⟨hroot, hempty, hreserved, hall, rfl⟩
    refine ⟨ne_nil_of_isAbsolute hroot, hroot, hempty, hreserved, ?_⟩
    rw [checkIncludes_eq_ok.mpr ⟨hall, rfl⟩]
    rfl

/-- A configuration is built again from its own members, and its include directories and hooks are
found where the arguments of the constructor lead. -/
theorem make_keeps
    (h : make pythonLibraryRoot envPrefix extraSignature includeDirs includePrefixes = .ok config) :
    make config.pythonLibraryRoot config.envPrefix config.extraSignature config.includeDirs
        config.includePrefixes = .ok config ∧
    ∀ (tree : Tree Bytes Bytes) (links left : Nat) (cwd found : Location Bytes), tree.isDirectory cwd = true →
      tree.isDirectory found = true →
      (∀ (i : Nat) includeDir, includeDirs[i]? = some includeDir → Straight tree links cwd includeDir →
        leadsTo tree links cwd includeDir = some (found, left) →
        ∃ kept, config.includeDirs[i]? = some kept ∧ ∀ header : Bytes, header.head? ≠ some slash →
          leadsTo tree links cwd (appendPath kept header) = leadsTo tree links cwd (appendPath includeDir header)) ∧
      (Straight tree links cwd pythonLibraryRoot →
        leadsTo tree links cwd pythonLibraryRoot = some (found, left) →
        ∀ relPath : Bytes, relPath ≠ [] → relPath.head? ≠ some slash → Straight tree left found relPath →
          ∀ reached, leadsTo tree left found relPath = some reached →
          leadsTo tree links cwd (config.getPythonPath relPath) = some reached) := by
  obtain ⟨hroot, hempty, hreserved, hall, rfl⟩ := make_eq_ok.mp h
  refine ⟨?_, fun tree links left cwd found hcwd hfound => ⟨?_, ?_⟩⟩
  · rw [make_eq_ok]
    refine ⟨isAbsolute_lexicallyNormal hroot, hempty, hreserved, ?_, ?_⟩
    · intro includeDir hmem
      obtain ⟨given, hgiven, rfl⟩ := List.mem_map.mp hmem
      exact isAbsolute_lexicallyNormal (hall given hgiven)
    · simp [lexicallyNormal_idem]
  · intro i includeDir hi hstraight hleads
    refine ⟨lexicallyNormal includeDir, by simp [hi], ?_⟩
    intro header hheader
    have habsolute := hall includeDir (List.mem_of_getElem? hi)
    have hkept := leadsTo_lexicallyNormal (ne_nil_of_isAbsolute habsolute) hcwd hstraight hleads
    have hhead := isAbsolute_lexicallyNormal habsolute
    rw [isAbsolute, decide_eq_true_eq] at habsolute hhead
    rw [leadsTo_appendPath hhead hheader hkept hfound, leadsTo_appendPath habsolute hheader hleads hfound]
  · intro hstraight hleads relPath hrel hrelative hstraight' reached hreached
    have hkept := leadsTo_lexicallyNormal (ne_nil_of_isAbsolute hroot) hcwd hstraight hleads
    have hhead := isAbsolute_lexicallyNormal hroot
    rw [isAbsolute, decide_eq_true_eq] at hhead
    have hrelative' : (lexicallyNormal relPath).head? ≠ some slash := mt (head_lexicallyNormal hrel).mp hrelative
    rw [Config.getPythonPath, leadsTo_appendPath hhead hrelative' hkept hfound]
    exact leadsTo_lexicallyNormal hrel hfound hstraight' hreached

/-- A library below `/include`, given by a longer name. -/
def headerConfig : NamedConfig where
  pythonLibraryRoot := lexicallyNormal (bytes "/work/../include")
  includeDirs := [bytes "/include//."].map lexicallyNormal
  envPrefix := bytes "LIB"

theorem make_keeps_header :
    leadsTo headerTree 40 [bytes "work"] (headerConfig.getPythonPath (bytes "./a.h")) =
      some ([bytes "a.h", bytes "include"], 40) :=
  ((@make_keeps (bytes "/work/../include") (bytes "LIB") [] [bytes "/include//."] [] headerConfig
    (make_eq_ok.mpr ⟨by decide +kernel, by decide, by decide +kernel,
      by decide +kernel, rfl⟩)).2 headerTree 40 40 [bytes "work"] [bytes "include"] (by decide +kernel)
    (by decide +kernel)).2 (straight_of_no_links headerTree_no_links _) (by decide +kernel) (bytes "./a.h")
    (by decide) (by decide +kernel) (straight_of_no_links headerTree_no_links _) _ (by decide +kernel)

end NamedConfig

end DeepJit
