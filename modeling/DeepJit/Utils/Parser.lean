import DeepJit.Library.MemoEval
import DeepJit.Utils.Path

/-!
# The include parser

`Parser` hashes a source together with the headers it includes under one of the tracked prefixes.
`parseInclude` recognises an include line, `parseIncludesIntoHash` hashes one header through the
memo `cache` and the set `visiting` of headers being expanded, and `parseIntoHash` hashes a text
line by line. The digest is a parameter: it is applied to the sequence of components that the source
passes to `FNV1a::update`.

The parser is the memoised evaluation of `Library.MemoEval` at the system `includeSystem`, which is
what the last section shows.
-/

namespace DeepJit

/-! ### The filesystem as the parser sees it -/

/-- What a path names. `inaccessible` makes `std::filesystem::exists` throw, `unopenable` exists but
cannot be opened, `unreadable` opens and fails on the first read, as a directory does. -/
inductive Resolution (n : Nat)
  | missing
  | inaccessible
  | unopenable
  | unreadable
  | file (index : Fin n)

/-- Finitely many file contents, and any resolution of paths to them: two spellings may name one
file. -/
structure FileSystem where
  files : List Bytes
  resolve : Bytes → Resolution files.length

inductive ParseError
  | nonStandardInclude (included : Bytes)
  | circularInclude (key : Bytes)
  | failedToOpen (path : Bytes)
  | filesystemError (path : Bytes)
  | readError (path : Bytes)
deriving DecidableEq, Repr

/-- The text after the location that the exception carries. -/
def ParseError.message : ParseError → Bytes
  | nonStandardInclude included => bytes "non-standard include: " ++ included
  | circularInclude key => bytes "circular include may occur: " ++ key
  | failedToOpen path => bytes "input.is_open(): failed to open: " ++ path
  | filesystemError path => bytes "filesystem error: status: " ++ path
  | readError path => bytes "basic_filebuf::underflow error reading the file: " ++ path

/-- `std::filesystem::exists`. -/
def FileSystem.exists (fs : FileSystem) (path : Bytes) : Except ParseError Bool :=
  match fs.resolve path with
  | .missing => .ok false
  | .inaccessible => .error (.filesystemError path)
  | _ => .ok true

/-- Open a path and read it to the end. The empty path cannot be opened. -/
def FileSystem.readCode (fs : FileSystem) (path : Bytes) : Except ParseError Bytes :=
  if path = [] then .error (.failedToOpen path)
  else
    match fs.resolve path with
    | .file index => .ok fs.files[index]
    | .unreadable => .error (.readError path)
    | _ => .error (.failedToOpen path)

/-! ### Include lines -/

def isSpace (value : UInt8) : Bool := value == 32 || value == 9 || value == 12 || value == 11

def trimLeft (value : Bytes) : Bytes := value.dropWhile isSpace

def isClosing (value : UInt8) : Bool := value == 62 || value == 34

/-- `Parser::parse_include`: the tracked file name of an include line, or the empty string. -/
def parseInclude (includePrefixes : List Bytes) (line : Bytes) : Except ParseError Bytes :=
  let line := trimLeft line
  if line.head? ≠ some 35 then .ok []
  else
    let line := trimLeft line.tail
    if ¬ (bytes "include").isPrefixOf line then .ok []
    else
      let line := trimLeft (line.drop (bytes "include").length)
      match line with
      | [] => .ok []
      | front :: rest =>
          if front ≠ 60 ∧ front ≠ 34 then .ok []
          else
            match rest.findIdx? isClosing with
            | none => .ok []
            | some length =>
                let filename := rest.take length
                if front ≠ 60 ∨ rest[length]? ≠ some 62 ∨ filename = [] ∨
                    filename.head?.any isSpace ∨ filename.getLast?.any isSpace then
                  .error (.nonStandardInclude (line.take (length + 2)))
                else if includePrefixes.any (·.isPrefixOf filename) then .ok filename
                else .ok []

/-- The lines that the loop of `parse_into_hash` sees: a text that ends in a newline has no further
empty line. -/
def splitLines : Bytes → List Bytes
  | [] => []
  | byte :: rest =>
      if byte = 10 then [] :: splitLines rest
      else
        match splitLines rest with
        | [] => [[byte]]
        | line :: lines => (byte :: line) :: lines

/-! ### The recursion -/

structure Parser where
  includeDirs : List Bytes
  includePrefixes : List Bytes

/-- The members `cache` and `visiting`. -/
abbrev Parser.State := MemoEval.Memo Bytes Bytes

section

variable (digest : List Bytes → Bytes) (fs : FileSystem) (parser : Parser)

/-- The loop over `include_dirs`. The empty path says that no directory has the header. -/
def findHeader (filename : Bytes) : List Bytes → Except ParseError Bytes
  | [] => .ok []
  | dir :: dirs =>
      match fs.exists (appendPath dir filename) with
      | .error e => .error e
      | .ok true => .ok (appendPath dir filename)
      | .ok false => findHeader filename dirs

/-- The contents of a tracked header. -/
def readHeader (filename : Bytes) : Except ParseError Bytes :=
  match findHeader fs filename parser.includeDirs with
  | .error e => .error e
  | .ok path => fs.readCode path

/-- The line loop of `parse_into_hash`. `components` are the `update` calls made so far. -/
def parseLines (visit : Bytes → Parser.State → Option (Except ParseError Bytes × Parser.State)) :
    List Bytes → List Bytes → Parser.State → Option (Except ParseError (List Bytes) × Parser.State)
  | [], components, state => some (.ok components, state)
  | line :: lines, components, state =>
      match parseInclude parser.includePrefixes line with
      | .error e => some (.error e, state)
      | .ok [] => parseLines visit lines components state
      | .ok filename =>
          match visit filename state with
          | none => none
          | some (.error e, state) => some (.error e, state)
          | some (.ok hash, state) => parseLines visit lines (components ++ [hash]) state

/-- `Parser::parse_into_hash`, given the function for one header. -/
def parseIntoHashWith (visit : Bytes → Parser.State → Option (Except ParseError Bytes × Parser.State))
    (code : Bytes) (state : Parser.State) : Option (Except ParseError Bytes × Parser.State) :=
  match parseLines parser visit (splitLines code) [code] state with
  | none => none
  | some (.error e, state) => some (.error e, state)
  | some (.ok components, state) => some (.ok (digest components), state)

/-- `Parser::parse_includes_into_hash`. `fuel` bounds the depth of the recursion. -/
def parseIncludesIntoHash :
    Nat → Bytes → Parser.State → Option (Except ParseError Bytes × Parser.State)
  | 0, _, _ => none
  | fuel + 1, key, state =>
      match state.find key with
      | some hash => some (.ok hash, state)
      | none =>
          if key ∈ state.visiting then some (.error (.circularInclude key), state)
          else
            let state := state.enter key
            match readHeader fs parser key with
            | .error e => some (.error e, state.leave key)
            | .ok code =>
                match parseIntoHashWith digest parser (parseIncludesIntoHash fuel) code state with
                | none => none
                | some (.error e, state) => some (.error e, state.leave key)
                | some (.ok hash, state) => some (.ok hash, (state.leave key).store key hash)

/-! ### The parser as a dependency system -/

/-- The includes of a text in line order. A line that `parse_include` rejects is an error in its
place. -/
def scan (includePrefixes : List Bytes) (code : Bytes) : List (Except ParseError Bytes) :=
  (splitLines code).filterMap fun line =>
    match parseInclude includePrefixes line with
    | .error e => some (.error e)
    | .ok [] => none
    | .ok filename => some (.ok filename)

/-- The names a text tracks, one for each occurrence. -/
def tracked (includePrefixes : List Bytes) (code : Bytes) : List Bytes :=
  (scan includePrefixes code).filterMap Except.toOption

theorem mem_tracked {includePrefixes : List Bytes} {code name : Bytes} :
    name ∈ tracked includePrefixes code ↔ .ok name ∈ scan includePrefixes code := by
  rw [tracked, List.mem_filterMap]
  constructor
  · rintro ⟨item, hmem, hitem⟩
    cases item with
    | error e => simp [Except.toOption] at hitem
    | ok n =>
        simp only [Except.toOption, Option.some.injEq] at hitem
        exact hitem ▸ hmem
  · exact fun hmem => ⟨.ok name, hmem, rfl⟩

def includeSystem : MemoEval.System Bytes Bytes Bytes ParseError where
  expand name :=
    match readHeader fs parser name with
    | .error e => .error e
    | .ok code => .ok (code, scan parser.includePrefixes code)
  combine code hashes := digest (code :: hashes)
  cyclic := .circularInclude

theorem parseLines_eq
    (visit : Bytes → Parser.State → Option (Except ParseError Bytes × Parser.State))
    (lines components : List Bytes) (state : Parser.State) :
    parseLines parser visit lines components state =
      match MemoEval.memoItems visit (lines.filterMap fun line =>
          match parseInclude parser.includePrefixes line with
          | .error e => some (.error e)
          | .ok [] => none
          | .ok filename => some (.ok filename)) state with
      | none => none
      | some (.error e, state) => some (.error e, state)
      | some (.ok hashes, state) => some (.ok (components ++ hashes), state) := by
  induction lines generalizing components state with
  | nil => simp [parseLines, MemoEval.memoItems]
  | cons line lines ih =>
      rw [parseLines, List.filterMap_cons]
      cases hline : parseInclude parser.includePrefixes line with
      | error e => simp [MemoEval.memoItems]
      | ok filename =>
          cases filename with
          | nil => exact ih components state
          | cons byte rest =>
              simp only [MemoEval.memoItems]
              cases hvisit : visit (byte :: rest) state with
              | none => rfl
              | some out =>
                  obtain ⟨result, after⟩ := out
                  cases result with
                  | error e => rfl
                  | ok hash =>
                      simp only [ih]
                      cases MemoEval.memoItems visit _ after with
                      | none => rfl
                      | some out =>
                          obtain ⟨result, final⟩ := out
                          cases result <;> simp

theorem parseIntoHashWith_eq
    (visit : Bytes → Parser.State → Option (Except ParseError Bytes × Parser.State))
    (code : Bytes) (state : Parser.State) :
    parseIntoHashWith digest parser visit code state =
      MemoEval.memoBody (includeSystem digest fs parser) visit
        (.ok (code, scan parser.includePrefixes code)) state := by
  rw [parseIntoHashWith, parseLines_eq, MemoEval.memoBody]
  unfold scan
  cases MemoEval.memoItems visit _ state with
  | none => rfl
  | some out =>
      obtain ⟨result, after⟩ := out
      cases result <;> rfl

theorem parseIncludesIntoHash_eq (fuel : Nat) (key : Bytes) (state : Parser.State) :
    parseIncludesIntoHash digest fs parser fuel key state =
      MemoEval.memoEval (includeSystem digest fs parser) fuel key state := by
  induction fuel generalizing key state with
  | zero => rfl
  | succ fuel ih =>
      have hvisit : parseIncludesIntoHash digest fs parser fuel =
          MemoEval.memoEval (includeSystem digest fs parser) fuel := by
        funext key state
        exact ih key state
      rw [parseIncludesIntoHash, MemoEval.memoEval]
      cases hlookup : state.find key with
      | some hash => rfl
      | none =>
          by_cases hmem : key ∈ state.visiting
          · simp [hmem, includeSystem]
          · simp only [hmem, if_false, hvisit]
            cases hread : readHeader fs parser key with
            | error e => simp [includeSystem, hread, MemoEval.memoBody]
            | ok code =>
                have hexpand : (includeSystem digest fs parser).expand key =
                    .ok (code, scan parser.includePrefixes code) := by simp [includeSystem, hread]
                simp only [parseIntoHashWith_eq digest fs, hexpand]
                cases MemoEval.memoBody (includeSystem digest fs parser) _ _ _ with
                | none => rfl
                | some out =>
                    obtain ⟨result, after⟩ := out
                    cases result <;> rfl

end

end DeepJit
