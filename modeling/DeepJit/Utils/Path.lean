import DeepJit.Basic

/-!
# Lexical path operations

The operations of `std::filesystem::path` that only look at the text of a POSIX path.
-/

namespace DeepJit

def slash : UInt8 := 47

/-- `operator/`: an absolute right side replaces the left one. -/
def appendPath (dir filename : Bytes) : Bytes :=
  if filename.head? = some slash then filename
  else if dir = [] ∨ dir.getLast? = some slash then dir ++ filename
  else dir ++ slash :: filename

/-- `parent_path`: without the last file name and the separators before it. The root is its own
parent. -/
def parentPath (path : Bytes) : Bytes :=
  let dir := (path.reverse.dropWhile (· ≠ slash)).reverse
  let parent := (dir.reverse.dropWhile (· = slash)).reverse
  if parent = [] then dir.take 1 else parent

/-- One file name of `lexically_normal`, with the names kept so far in reverse and whether a
separator follows them. -/
def normalizeStep (absolute : Bool) (kept : List Bytes × Bool) (name : Bytes) : List Bytes × Bool :=
  if name = [] ∨ name = bytes "." then (kept.1, true)
  else if name = bytes ".." then
    match kept.1 with
    | [] => if absolute then ([], true) else ([name], false)
    | last :: rest => if last = bytes ".." then (name :: kept.1, false) else (rest, true)
  else (name :: kept.1, false)

/-- `lexically_normal`. -/
def lexicallyNormal (path : Bytes) : Bytes :=
  if path = [] then []
  else
    let absolute := path.head? = some slash
    let (names, trailing) := (path.splitOn slash).foldl (normalizeStep absolute) ([], false)
    let root := if absolute then [slash] else []
    let tail := if trailing ∧ names ≠ [] ∧ names.head? ≠ some (bytes "..") then [slash] else []
    let normal := root ++ [slash].intercalate names.reverse ++ tail
    if normal = [] then bytes "." else normal

example : parentPath (bytes "/cann/asc/include") = bytes "/cann/asc" := by decide

example : lexicallyNormal (bytes "./hooks//a/../b.py") = bytes "hooks/b.py" := by decide

end DeepJit
