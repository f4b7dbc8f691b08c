import DeepJit.Library.MemoTermination
import DeepJit.Utils.ParserDigest

/-!
# Termination of the include parser

`parse_into_hash` returns for every cache and every set of headers being visited, with a recursion
that is at most one deeper than there are tracked names: every open call below the first one has a
tracked name of its own in `visiting`. The set is restored however the call ends, and a header only
comes into the cache when its whole closure was parsed.
-/

namespace DeepJit

open MemoEval

section

variable (digest : List Bytes → Bytes) (fs : FileSystem) (parser : Parser)

/-- `Parser::parse_includes_into_hash`, given the function for the text of a header. -/
def parseHeaderWith
    (parse : Bytes → Parser.State → Option (Except ParseError Bytes × Parser.State)) (key : Bytes)
    (state : Parser.State) : Option (Except ParseError Bytes × Parser.State) :=
  match state.find key with
  | some hash => some (.ok hash, state)
  | none =>
      if state.visiting.contains key then some (.error (.circularInclude key), state)
      else
        let state := state.enter key
        match readHeader fs parser key with
        | .error e => some (.error e, state.leave key)
        | .ok code =>
            match parse code state with
            | none => none
            | some (.error e, state) => some (.error e, state.leave key)
            | some (.ok hash, state) => some (.ok hash, (state.leave key).store key hash)

/-- `Parser::parse_into_hash` with at most `frames` calls of it open at a time, and at most as many
of `parse_includes_into_hash`. -/
def parseIntoHashFrames : Nat → Bytes → Parser.State → Option (Except ParseError Bytes × Parser.State)
  | 0, _, _ => none
  | frames + 1, code, state =>
      parseIntoHashWith digest parser (parseHeaderWith fs parser (parseIntoHashFrames frames)) code state

theorem parseIntoHashFrames_eq (frames : Nat) (code : Bytes) (state : Parser.State) :
    parseIntoHashFrames digest fs parser frames code state =
      memoRun (includeSystem digest fs parser) frames (code, scan parser.includePrefixes code) state := by
  induction frames generalizing code state with
  | zero => rfl
  | succ frames ih =>
      have hvisit : parseHeaderWith fs parser (parseIntoHashFrames digest fs parser frames) =
          memoVisit (includeSystem digest fs parser) (memoRun (includeSystem digest fs parser) frames) := by
        funext key state
        rw [parseHeaderWith, memoVisit]
        cases state.find key with
        | some hash => rfl
        | none =>
            by_cases hmem : key ∈ state.visiting
            · simp [hmem, includeSystem]
            · simp only [List.contains_iff_mem, hmem, if_false]
              cases hread : readHeader fs parser key with
              | error e => simp [includeSystem, hread]
              | ok text =>
                  have hexpand : (includeSystem digest fs parser).expand key =
                      .ok (text, scan parser.includePrefixes text) := by simp [includeSystem, hread]
                  simp only [hexpand, ih]
                  cases memoRun (includeSystem digest fs parser) frames _ _ with
                  | none => rfl
                  | some out =>
                      obtain ⟨result, after⟩ := out
                      cases result <;> rfl
      rw [parseIntoHashFrames, memoRun, hvisit, parseIntoHashWith_eq digest fs]

/-- The whole tracked closure of the header parses, down to headers that hold `prior`: it can be
read, none of its lines is rejected, and so on for the headers that it tracks. -/
inductive ClosureParsed (prior : Bytes → Prop) : Bytes → Prop
  | prior {name : Bytes} (h : prior name) : ClosureParsed prior name
  | header {name code : Bytes} (hread : readHeader fs parser name = .ok code)
      (hlines : ∀ item ∈ scan parser.includePrefixes code, ∃ included, item = .ok included)
      (hbelow : ∀ below ∈ tracked parser.includePrefixes code, ClosureParsed prior below) :
      ClosureParsed prior name

variable {digest fs parser}

theorem closureParsed_of_expanded {prior : Bytes → Prop} {name : Bytes}
    (h : Expanded (includeSystem digest fs parser) prior name) : ClosureParsed fs parser prior name := by
  induction h with
  | prior h => exact .prior h
  | @expand name code items hexpand hnames _ ih =>
      cases hread : readHeader fs parser name with
      | error e => simp [includeSystem, hread] at hexpand
      | ok text =>
          simp only [includeSystem, hread, Except.ok.injEq, Prod.mk.injEq] at hexpand
          obtain ⟨rfl, rfl⟩ := hexpand
          exact .header hread hnames fun below hbelow => ih below (mem_tracked.mp hbelow)

theorem ClosureParsed.trans {prior prior' : Bytes → Prop}
    (hprior : ∀ name, prior name → ClosureParsed fs parser prior' name) {name : Bytes}
    (h : ClosureParsed fs parser prior name) : ClosureParsed fs parser prior' name := by
  induction h with
  | prior h => exact hprior _ h
  | header hread hlines _ ih => exact .header hread hlines ih

end

/-- For any files and any resolution of paths, any prior cache and set of visited headers, and any
source: `parse_into_hash` returns, with at most one call open more than there are distinct tracked
names in the source and the files. However it ends, the set of visited headers is as it was, and
every header that was added to the cache has a tracked closure that was parsed, down to headers that
the cache already had. If their closures were parsed as well, that of every header in the cache
was. -/
theorem parseIntoHash_terminates (digest : List Bytes → Bytes) (fs : FileSystem) (parser : Parser)
    (code : Bytes) (state : Parser.State) :
    ∃ result after,
      parseIntoHash digest fs parser code state = some (result, after) ∧
      parseIntoHashFrames digest fs parser ((trackedNames fs parser code).length + 1) code state =
        some (result, after) ∧
      after.visiting = state.visiting ∧
      (∃ added, after.cache = added ++ state.cache ∧
        ∀ entry ∈ added, ClosureParsed fs parser (fun name => name ∈ state.cache.map Prod.fst) entry.1) ∧
      ((∀ entry ∈ state.cache, ClosureParsed fs parser (fun _ => False) entry.1) →
        ∀ entry ∈ after.cache, ClosureParsed fs parser (fun _ => False) entry.1) := by
  have hbody : ∀ name, .ok name ∈ scan parser.includePrefixes code → name ∈ trackedNames fs parser code := by
    intro name hname
    rw [trackedNames, List.mem_dedup, List.mem_flatMap]
    exact ⟨code, List.mem_cons_self, mem_tracked.mpr hname⟩
  obtain ⟨result, after, hrun, hextends, -⟩ := memoRun_returns (trackedNames fs parser code)
    (trackedNames_closed digest fs parser code) (depth fs parser code) (code, scan parser.includePrefixes code)
    state hbody (Nat.lt_succ_of_le (List.length_filter_le _ _))
  obtain ⟨added, hcache, hadded⟩ := hextends.cache
  have hparsed : ∀ entry ∈ added,
      ClosureParsed fs parser (fun name => name ∈ state.cache.map Prod.fst) entry.1 :=
    fun entry hentry => closureParsed_of_expanded (hadded entry hentry)
  have hfuel : parseIncludesIntoHash digest fs parser (depth fs parser code) =
      memoEval (includeSystem digest fs parser) (depth fs parser code) := by
    funext key state
    exact parseIncludesIntoHash_eq digest fs parser _ key state
  refine ⟨result, after, ?_, ?_, hextends.visiting, ⟨added, hcache, hparsed⟩, ?_⟩
  · rw [parseIntoHash, hfuel, parseIntoHashWith_eq digest fs]
    exact memoBody_of_memoRun hrun
  · rw [parseIntoHashFrames_eq]
    exact hrun
  · intro hprior entry hentry
    rw [hcache] at hentry
    rcases List.mem_append.mp hentry with hnew | hold
    · refine (hparsed entry hnew).trans fun name hname => ?_
      obtain ⟨old, hold, rfl⟩ := List.mem_map.mp hname
      exact hprior old hold
    · exact hprior entry hold

end DeepJit
