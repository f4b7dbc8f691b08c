import DeepJit.Cache.Disk
import DeepJit.Utils.Env

/-!
# The roots of the disk cache

`DiskCache::from_env`, which takes the roots from a list of paths in a variable, or from the home
directory.
-/

namespace DeepJit

def colon : UInt8 := 58

/-- `value.find(':', start)`. -/
def findColon (value : Bytes) (start : Nat) : Option Nat :=
  ((value.drop start).findIdx? (· = colon)).map (start + ·)

/-- What is before and behind the colon that is found. -/
theorem drop_of_findColon {value : Bytes} {start stop : Nat} (h : findColon value start = some stop) :
    stop < value.length ∧ colon ∉ (value.drop start).take (stop - start) ∧
      value.drop start = (value.drop start).take (stop - start) ++ colon :: value.drop (stop + 1) := by
  obtain ⟨i, hi, rfl⟩ := Option.map_eq_some_iff.mp h
  obtain ⟨hlt, hcolon, hbefore⟩ := List.findIdx?_eq_some_iff_getElem.mp hi
  rw [List.length_drop] at hlt
  rw [decide_eq_true_eq, List.getElem_drop] at hcolon
  refine ⟨by omega, ?_, ?_⟩
  · rw [Nat.add_sub_cancel_left]
    intro hmem
    obtain ⟨j, hj, hget⟩ := List.getElem_of_mem hmem
    rw [List.length_take] at hj
    have hnot := hbefore j (by omega)
    rw [List.getElem_take] at hget
    simp [hget] at hnot
  · rw [Nat.add_sub_cancel_left]
    calc value.drop start = (value.drop start).take i ++ (value.drop start).drop i :=
          (List.take_append_drop i _).symm
      _ = (value.drop start).take i ++ value.drop (start + i) := by rw [List.drop_drop]
      _ = (value.drop start).take i ++ colon :: value.drop (start + i + 1) := by
          rw [List.drop_eq_getElem_cons (by omega : start + i < value.length), hcolon]

theorem not_mem_of_findColon {value : Bytes} {start : Nat} (h : findColon value start = none) :
    colon ∉ value.drop start := by
  rw [findColon, Option.map_eq_none_iff, List.findIdx?_eq_none_iff] at h
  intro hmem
  simpa using h colon hmem

def emptyRoot (value : Bytes) : Bytes := bytes "disk cache path list contains an empty path: " ++ value

/-- The loop of `from_env` over the items of the list. -/
def collectRoots (value : Bytes) (start : Nat) (paths : List Bytes) : Except Bytes (List Bytes) :=
  match _hfind : findColon value start with
  | none => if value.drop start = [] then .error (emptyRoot value) else .ok (paths ++ [value.drop start])
  | some stop =>
      let item := (value.drop start).take (stop - start)
      if item = [] then .error (emptyRoot value) else collectRoots value (stop + 1) (paths ++ [item])
termination_by value.length - start
decreasing_by
  have hlt := (drop_of_findColon _hfind).1
  have hle : start ≤ stop := by
    obtain ⟨i, -, rfl⟩ := Option.map_eq_some_iff.mp _hfind
    exact Nat.le_add_right start i
  omega

/-- The paths that `from_env` constructs a cache with. -/
def rootsFromEnv (env : Env) (getenv : Getenv) : Except Bytes (List Bytes) :=
  match env.get? getenv (bytes "JIT_CACHE_DIR") with
  | .error what => .error what
  | .ok (some value) => collectRoots value 0 []
  | .ok none =>
      match getEnv getenv (bytes "HOME") ([] : Bytes) with
      | .error what => .error what
      | .ok home =>
          if home = [] then .error (bytes "HOME environment variable must not be empty")
          else .ok [appendPath home (bytes ".dj")]

namespace DiskCache

/-- The constructor. -/
def construct (paths : List Bytes) : Except Bytes DiskCache :=
  if h : paths = [] then .error (bytes "not this->paths.empty()") else .ok ⟨paths, h⟩

/-- `DiskCache::from_env`. -/
def fromEnv (env : Env) (getenv : Getenv) : Except Bytes DiskCache :=
  match rootsFromEnv env getenv with
  | .error what => .error what
  | .ok paths => construct paths

end DiskCache

/-! ### The items of the list -/

theorem collectRoots_eq (value : Bytes) (start : Nat) (paths : List Bytes) :
    collectRoots value start paths =
      if [] ∈ (value.drop start).splitOn colon then .error (emptyRoot value)
      else .ok (paths ++ (value.drop start).splitOn colon) := by
  fun_induction collectRoots value start paths with
  | case1 start paths hfind hempty =>
      rw [List.splitOn_eq_singleton (not_mem_of_findColon hfind)]
      simp [hempty]
  | case2 start paths hfind hitem =>
      rw [List.splitOn_eq_singleton (not_mem_of_findColon hfind)]
      simp [hitem, eq_comm]
  | case3 start paths stop hfind item hempty =>
      obtain ⟨-, hcolon, hsplit⟩ := drop_of_findColon hfind
      change item = [] at hempty
      rw [hsplit, List.splitOn_append_cons_self_of_not_mem hcolon, if_pos]
      exact List.mem_cons.mpr (.inl hempty.symm)
  | case4 start paths stop hfind item hitem ih =>
      obtain ⟨-, hcolon, hsplit⟩ := drop_of_findColon hfind
      have hitem' : ([] : Bytes) ≠ (value.drop start).take (stop - start) := fun h => hitem h.symm
      rw [ih, hsplit, List.splitOn_append_cons_self_of_not_mem hcolon]
      simp only [List.mem_cons, hitem', false_or, List.append_assoc, List.singleton_append]
      rfl

/-- The list is split at its colons. -/
theorem collectRoots_zero_eq_ok_iff (value : Bytes) (paths : List Bytes) :
    collectRoots value 0 [] = .ok paths ↔
      paths ≠ [] ∧ [colon].intercalate paths = value ∧ ∀ path ∈ paths, path ≠ [] ∧ colon ∉ path := by
  rw [collectRoots_eq, List.drop_zero, List.nil_append]
  constructor
  · intro h
    by_cases hempty : [] ∈ value.splitOn colon
    · simp [hempty] at h
    · rw [if_neg hempty, Except.ok.injEq] at h
      subst h
      refine ⟨List.splitOn_ne_nil _ _, List.intercalate_splitOn colon, fun path hpath => ⟨?_, ?_⟩⟩
      · rintro rfl
        exact hempty hpath
      · exact not_mem_of_mem_splitOn hpath
  · rintro ⟨hne, rfl, hpaths⟩
    rw [List.splitOn_intercalate colon (fun path hpath => (hpaths path hpath).2) hne, if_neg]
    exact fun hempty => (hpaths [] hempty).1 rfl

theorem collectRoots_zero_eq_error_iff (value what : Bytes) :
    collectRoots value 0 [] = .error what ↔ [] ∈ value.splitOn colon ∧ what = emptyRoot value := by
  rw [collectRoots_eq, List.drop_zero, List.nil_append]
  by_cases hempty : [] ∈ value.splitOn colon
  · simp [hempty, eq_comm]
  · simp [hempty]

theorem rootsFromEnv_eq_ok_iff (env : Env) (getenv : Getenv) (paths : List Bytes) :
    rootsFromEnv env getenv = .ok paths ↔
      (∃ name value, env.deciding getenv (bytes "JIT_CACHE_DIR") = some (name, value) ∧
        paths ≠ [] ∧ [colon].intercalate paths = value ∧ ∀ path ∈ paths, path ≠ [] ∧ colon ∉ path) ∨
      (env.deciding getenv (bytes "JIT_CACHE_DIR") = none ∧ ∃ home, getenv (bytes "HOME") = some home ∧
        home ≠ [] ∧ paths = [appendPath home (bytes ".dj")]) := by
  unfold rootsFromEnv
  cases hdeciding : env.deciding getenv (bytes "JIT_CACHE_DIR") with
  | some decision =>
      obtain ⟨name, value⟩ := decision
      have hget : env.get? getenv (bytes "JIT_CACHE_DIR") = .ok (some value) := env.get?_of_decided hdeciding
      simp only [hget, collectRoots_zero_eq_ok_iff]
      constructor
      · exact fun h => .inl ⟨name, value, rfl, h⟩
      · rintro (⟨_, _, heq, h⟩ | ⟨heq, -⟩)
        · obtain ⟨rfl, rfl⟩ := Prod.mk.inj (Option.some.inj heq)
          exact h
        · simp at heq
  | none =>
      have hget : env.get? getenv (bytes "JIT_CACHE_DIR") = .ok (none : Option Bytes) :=
        env.get?_of_undecided hdeciding
      simp only [hget, getEnv]
      cases hhome : getenv (bytes "HOME") with
      | none => simp
      | some home =>
          by_cases hempty : home = []
          · simp [EnvValue.parse, hempty]
          · simp [EnvValue.parse, hempty, eq_comm]

theorem rootsFromEnv_eq_error_iff (env : Env) (getenv : Getenv) (what : Bytes) :
    rootsFromEnv env getenv = .error what ↔
      (∃ name value, env.deciding getenv (bytes "JIT_CACHE_DIR") = some (name, value) ∧
        [] ∈ value.splitOn colon ∧ what = emptyRoot value) ∨
      (env.deciding getenv (bytes "JIT_CACHE_DIR") = none ∧ (getenv (bytes "HOME")).getD [] = [] ∧
        what = bytes "HOME environment variable must not be empty") := by
  unfold rootsFromEnv
  cases hdeciding : env.deciding getenv (bytes "JIT_CACHE_DIR") with
  | some decision =>
      obtain ⟨name, value⟩ := decision
      have hget : env.get? getenv (bytes "JIT_CACHE_DIR") = .ok (some value) := env.get?_of_decided hdeciding
      simp only [hget, collectRoots_zero_eq_error_iff]
      constructor
      · exact fun h => .inl ⟨name, value, rfl, h⟩
      · rintro (⟨_, _, heq, h⟩ | ⟨heq, -⟩)
        · obtain ⟨rfl, rfl⟩ := Prod.mk.inj (Option.some.inj heq)
          exact h
        · simp at heq
  | none =>
      have hget : env.get? getenv (bytes "JIT_CACHE_DIR") = .ok (none : Option Bytes) :=
        env.get?_of_undecided hdeciding
      simp only [hget, getEnv]
      cases hhome : getenv (bytes "HOME") with
      | none => simp [eq_comm]
      | some home =>
          by_cases hempty : home = []
          · simp [EnvValue.parse, hempty, eq_comm]
          · simp [EnvValue.parse, hempty]

/-- The constructor accepts whatever `from_env` passes. -/
theorem fromEnv_eq_ok_iff (env : Env) (getenv : Getenv) (cache : DiskCache) :
    DiskCache.fromEnv env getenv = .ok cache ↔ rootsFromEnv env getenv = .ok cache.paths := by
  obtain ⟨paths, hpaths⟩ := cache
  unfold DiskCache.fromEnv DiskCache.construct
  cases rootsFromEnv env getenv with
  | error what => simp
  | ok roots =>
      by_cases hroots : roots = []
      · simp [hroots, Ne.symm hpaths]
      · simp [hroots]

theorem fromEnv_eq_error_iff (env : Env) (getenv : Getenv) (what : Bytes) :
    DiskCache.fromEnv env getenv = .error what ↔ rootsFromEnv env getenv = .error what := by
  unfold DiskCache.fromEnv DiskCache.construct
  cases hroots : rootsFromEnv env getenv with
  | error text => simp
  | ok roots =>
      have hne : roots ≠ [] := by
        rcases (rootsFromEnv_eq_ok_iff env getenv roots).mp hroots with ⟨_, _, -, hne, -⟩ | ⟨-, _, -, -, rfl⟩
        · exact hne
        · simp
      simp [hne]

/-- The roots are the items of the deciding variable in their order, none of them empty: joined by
colons they give its value. Without one, there is one root below the home directory. -/
theorem fromEnv_exact (env : Env) (getenv : Getenv) :
    (∀ cache, DiskCache.fromEnv env getenv = .ok cache ↔
      (∃ name value, env.deciding getenv (bytes "JIT_CACHE_DIR") = some (name, value) ∧
        [colon].intercalate cache.paths = value ∧ ∀ path ∈ cache.paths, path ≠ [] ∧ colon ∉ path) ∨
      (env.deciding getenv (bytes "JIT_CACHE_DIR") = none ∧ ∃ home, getenv (bytes "HOME") = some home ∧
        home ≠ [] ∧ cache.paths = [appendPath home (bytes ".dj")])) ∧
    ∀ what, DiskCache.fromEnv env getenv = .error what ↔
      (∃ name value, env.deciding getenv (bytes "JIT_CACHE_DIR") = some (name, value) ∧
        [] ∈ value.splitOn colon ∧
        what = bytes "disk cache path list contains an empty path: " ++ value) ∨
      (env.deciding getenv (bytes "JIT_CACHE_DIR") = none ∧ (getenv (bytes "HOME")).getD [] = [] ∧
        what = bytes "HOME environment variable must not be empty") := by
  constructor
  · intro cache
    rw [fromEnv_eq_ok_iff, rootsFromEnv_eq_ok_iff]
    simp only [ne_eq, cache.paths_ne, not_false_eq_true, true_and]
  · intro what
    rw [fromEnv_eq_error_iff, rootsFromEnv_eq_error_iff]
    simp only [emptyRoot]

end DeepJit
