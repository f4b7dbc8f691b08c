import DeepJit.Basic

/-!
# Joining strings

`str::join` builds the command lines and the flag component of the cache key.
-/

namespace DeepJit.Str

/-- `str::join` with its default separator, one blank. -/
def join : List Bytes → Bytes
  | [] => []
  | front :: rest => rest.foldl (fun result value => result ++ 32 :: value) front

/-! ### Words

Command lines go through a shell, and free-form flags and paths hold neither quoting nor
metacharacters, so its words are the runs of characters between blanks. -/

def isBlank (byte : UInt8) : Bool := byte == 32 || byte == 9 || byte == 10

/-- The words of a command line. -/
def words (line : Bytes) : List Bytes := (line.splitOnP isBlank).filter (· ≠ [])

theorem words_append_blank (left right : Bytes) :
    words (left ++ 32 :: right) = words left ++ words right := by
  rw [words, List.splitOnP_append_cons left right (by rfl), List.filter_append, words, words]

/-- The words of a joined list are those of its members, so an empty member is no word. -/
theorem words_join (values : List Bytes) : words (join values) = values.flatMap words := by
  have hfold : ∀ (rest : List Bytes) (start : Bytes),
      words (rest.foldl (fun result value => result ++ 32 :: value) start) =
        words start ++ rest.flatMap words := by
    intro rest
    induction rest with
    | nil => simp
    | cons value rest ih =>
        intro start
        rw [List.foldl_cons, ih, words_append_blank, List.flatMap_cons, List.append_assoc]
  cases values with
  | nil => rfl
  | cons front rest => rw [join, hfold, List.flatMap_cons]

example : words (bytes " nvcc  -O3 -o\tx ") = [bytes "nvcc", bytes "-O3", bytes "-o", bytes "x"] := by decide

end DeepJit.Str
