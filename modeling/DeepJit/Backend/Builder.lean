import DeepJit.Library.Action
import DeepJit.Runtime.Request
import DeepJit.Utils.Env

/-!
# Building in a directory

What `Backend::compile` is made of, with the files of the directory: I/O tasks, external commands
and checks. The environment answers them one after the other. A command may change any file, and so
may an I/O task that fails or is given up.
-/

namespace DeepJit

/-- The regular files below a directory, by their relative paths. -/
abbrev Files := Bytes → Option Bytes

/-- How the environment answers one I/O task or command. -/
structure Answer where
  /-- The error of a system call in the task. -/
  fault : Option Bytes := none
  late : Bool := false
  command : CommandOutcome
  site : Site := {}
  /-- Whether `safe_remove_all` in the task leaves its file there. -/
  removeFails : Bool := false
  /-- The files after a command, or after a task that did not end well. -/
  after : Files → Files := id

/-- A build under way. -/
structure Job where
  files : Files
  /-- The number of answers so far. -/
  answered : Nat := 0
  /-- The commands that were run, each with the files it found. -/
  commands : List (Bytes × Files) := []
  stdout : Bytes := []

abbrev Builder := Action Exn Job

section

variable (fallbackDisabled : Bool) (answers : Nat → Answer)

/-- What a task ends with that is given its time. -/
def Answer.result {α : Type} (answer : Answer) (body : Answer → Files → Except Bytes (α × Files)) (files : Files) :
    Except Bytes (α × Files) :=
  match answer.fault with
  | some what => .error what
  | none => body answer files

/-- An I/O task with the given body, which throws the texts it ends with. -/
def runTask {α : Type} (body : Answer → Files → Except Bytes (α × Files)) : Builder α := fun job =>
  let answer := answers job.answered
  match runInIothread fallbackDisabled { result := answer.result body job.files, late := answer.late } with
  | .ok (value, files) => (.ok value, { job with files := files, answered := job.answered + 1 })
  | .error error => (.error error, { job with files := answer.after job.files, answered := job.answered + 1 })

/-- The state after a command. -/
def Job.ran (job : Job) (answer : Answer) (text : Bytes) (printCommand : Bool) : Job where
  files := answer.after job.files
  answered := job.answered + 1
  commands := job.commands ++ [(text, job.files)]
  stdout :=
    if printCommand then job.stdout ++ bytes "Running command: " ++ cString text ++ bytes "\n" else job.stdout

/-- `call_external_command`. -/
def runCommand (printCommand : Bool) (text : Bytes) : Builder Bytes := fun job =>
  (callExternalCommand text (answers job.answered).command, job.ran (answers job.answered) text printCommand)

/-- What throws or not between two steps, at the site of the last answer. `raise` gives the text. -/
def check {α : Type} (raise : Site → Bytes → Bytes) (result : Except Bytes α) : Builder α := fun job =>
  (result.mapError fun what => .other (raise (answers (job.answered - 1)).site what), job)

/-- The text of `DJ_PANIC`. -/
def panicText (site : Site) (what : Bytes) : Bytes := exceptionWhat "Panic" site what

/-- The text of `DJ_HOST_ASSERT`. -/
def assertText (site : Site) (what : Bytes) : Bytes := exceptionWhat "Assertion" site what

/-- An assertion of the condition that is written `text`, with its message. -/
def hostAssert (condition : Bool) (text : String) (message : Bytes) : Except Bytes Unit :=
  if condition then .ok () else .error (bytes text ++ bytes ": " ++ message)

theorem hostAssert_bind {α : Type} {condition : Bool} {text : String} {message : Bytes} {f : Unit → Except Bytes α}
    {value : α} : (hostAssert condition text message >>= f) = .ok value ↔ condition = true ∧ f () = .ok value := by
  cases condition with
  | true => simp [hostAssert, bind, Except.bind]
  | false => simp [hostAssert, bind, Except.bind]

theorem hostAssert_eq_ok {condition : Bool} {text : String} {message : Bytes} :
    hostAssert condition text message = .ok () ↔ condition = true := by
  cases condition with
  | true => simp [hostAssert]
  | false => simp [hostAssert]

/-- `std::fputs` to the standard output. -/
def putText (text : Bytes) : Builder Unit :=
  Action.modify fun job => { job with stdout := job.stdout ++ cString text }

/-! ### The rules of the steps -/

section

variable {fallbackDisabled answers} {α : Type} {Q : α → Job → Prop} {E : Exn → Job → Prop} {job : Job}

theorem post_runTask {body : Answer → Files → Except Bytes (α × Files)}
    (hok : ∀ value files, (answers job.answered).fault = none →
      body (answers job.answered) job.files = .ok (value, files) →
      Q value { job with files := files, answered := job.answered + 1 })
    (herror : ∀ error, E error
      { job with files := (answers job.answered).after job.files, answered := job.answered + 1 }) :
    Post Q E (runTask fallbackDisabled answers body job) := by
  unfold runTask runInIothread Answer.result
  by_cases hlate : ((answers job.answered).late && !fallbackDisabled) = true
  · simp only [hlate, if_true]
    exact herror _
  · simp only [hlate]
    cases hfault : (answers job.answered).fault with
    | some what => exact herror _
    | none =>
        cases hbody : body (answers job.answered) job.files with
        | error what => exact herror _
        | ok result => exact hok _ _ hfault hbody

theorem post_runCommand {Q : Bytes → Job → Prop} {printCommand : Bool} {text : Bytes}
    (hok : ∀ output site, (answers job.answered).command = .exited 0 output site →
      Q output (job.ran (answers job.answered) text printCommand))
    (herror : ∀ error, E error (job.ran (answers job.answered) text printCommand)) :
    Post Q E (runCommand answers printCommand text job) := by
  unfold runCommand callExternalCommand
  cases hcommand : (answers job.answered).command with
  | exited code output site =>
      by_cases hcode : code = 0
      · subst hcode
        exact hok output site hcommand
      · simp only [hcode, if_false]
        exact herror _
  | expired output site => exact herror _
  | broken what => exact herror _

theorem post_check {raise : Site → Bytes → Bytes} {result : Except Bytes α}
    (hok : ∀ value, result = .ok value → Q value job) (herror : ∀ error, E error job) :
    Post Q E (check answers raise result job) := by
  cases result with
  | ok value => exact hok value rfl
  | error what => exact herror _

end

/-! ### The commands of a build -/

/-- Nothing but the build itself writes the file. -/
def LeavesAlone (answers : Nat → Answer) (name : Bytes) : Prop :=
  ∀ k files, (answers k).after files name = files name

/-- A build that has written its source and then run the commands `ran`, all of which exited with 0.
The first of them, or the build itself, finds the source. -/
structure Progress (answers : Nat → Answer) (initial : Files) (name source : Bytes) (ran : List Bytes) (job : Job) :
    Prop where
  commands : job.commands.map Prod.fst = ran
  answered : job.answered = ran.length + 1
  exited : ∀ i < ran.length, ∃ output site, (answers (i + 1)).command = .exited 0 output site
  source : ∀ files ∈ (job.commands.map Prod.snd ++ [job.files]).head?, files name = some source
  untouched : ∀ other ≠ name, LeavesAlone answers other → job.files other = initial other

theorem Progress.run {answers : Nat → Answer} {initial : Files} {name source : Bytes} {ran : List Bytes} {job : Job}
    (h : Progress answers initial name source ran job) {text output : Bytes} {site : Site} {printCommand : Bool}
    (hexited : (answers job.answered).command = .exited 0 output site) :
    Progress answers initial name source (ran ++ [text]) (job.ran (answers job.answered) text printCommand) where
  commands := by simp [Job.ran, h.commands]
  answered := by simp [Job.ran, h.answered]
  exited := by
    intro i hi
    rw [List.length_append, List.length_singleton] at hi
    by_cases hlast : i < ran.length
    · exact h.exited i hlast
    · rw [h.answered] at hexited
      rw [show i = ran.length by omega]
      exact ⟨output, site, hexited⟩
  source := by
    have hsource := h.source
    cases hcommands : job.commands with
    | nil => simpa [Job.ran, hcommands] using hsource
    | cons first rest => simpa [Job.ran, hcommands] using hsource
  untouched := by
    intro other hother halone
    rw [← h.untouched other hother halone]
    exact halone _ _

/-- What is kept of a build that failed: it stopped on the way through its plan, and unless it got
to the end, it left the metadata alone. -/
structure Stopped (answers : Nat → Answer) (initial : Files) (plan : List Bytes) (job : Job) : Prop where
  commands : job.commands.map Prod.fst <+: plan
  noMetadata : LeavesAlone answers (bytes "meta.json") → (job.commands.map Prod.fst = plan → plan = []) →
    job.files (bytes "meta.json") = initial (bytes "meta.json")

section

variable {fallbackDisabled : Bool} {answers : Nat → Answer} {initial : Files} {name source : Bytes}
  {ran plan : List Bytes} {job : Job}

theorem Progress.stopped (h : Progress answers initial name source ran job) (hplan : ran <+: plan)
    (hname : bytes "meta.json" ≠ name) : Stopped answers initial plan job where
  commands := h.commands ▸ hplan
  noMetadata halone _ := h.untouched _ hname halone

/-- A command that fails stops the build behind it. -/
theorem Progress.post_runCommand (h : Progress answers initial name source ran job) (printCommand : Bool)
    {text : Bytes} (hplan : ran ++ [text] <+: plan) (hname : bytes "meta.json" ≠ name) :
    Post (fun output job' => Progress answers initial name source (ran ++ [text]) job' ∧
        ∃ site, (answers (ran.length + 1)).command = .exited 0 output site)
      (fun _ => Stopped answers initial plan) (runCommand answers printCommand text job) := by
  apply DeepJit.post_runCommand
  · intro output site hexited
    exact ⟨h.run hexited, site, h.answered ▸ hexited⟩
  · intro error
    refine ⟨?_, fun halone _ => ?_⟩
    · simpa [Job.ran, h.commands] using hplan
    · rw [← h.untouched _ hname halone]
      exact halone _ _

theorem Progress.post_check (h : Progress answers initial name source ran job) {α : Type}
    (raise : Site → Bytes → Bytes) (result : Except Bytes α) (hplan : ran <+: plan)
    (hname : bytes "meta.json" ≠ name) :
    Post (fun value job' => Progress answers initial name source ran job' ∧ result = .ok value)
      (fun _ => Stopped answers initial plan) (check answers raise result job) :=
  DeepJit.post_check (fun _ hok => ⟨h, hok⟩) fun _ => h.stopped hplan hname

theorem Progress.post_putText (h : Progress answers initial name source ran job) (text : Bytes)
    {E : Exn → Job → Prop} :
    Post (fun _ => Progress answers initial name source ran) E (putText text job) :=
  ⟨h.commands, h.answered, h.exited, h.source, h.untouched⟩

/-- The first task of a build, which writes the source. -/
theorem post_writeSource {α : Type} {body : Answer → Files → Except Bytes (α × Files)} {value : α}
    (hnew : job.commands = [] ∧ job.answered = 0)
    (hbody : ∀ answer files, body answer files = .ok (value, Function.update files name (some source))) :
    Post (fun result job' => Progress answers job.files name source [] job' ∧ result = value)
      (fun _ => Stopped answers job.files plan) (runTask fallbackDisabled answers body job) := by
  apply post_runTask
  · intro result files _ hok
    rw [hbody, Except.ok.injEq, Prod.mk.injEq] at hok
    obtain ⟨rfl, rfl⟩ := hok
    refine ⟨⟨by simp [hnew.1], by simp [hnew.2], by simp, by simp [hnew.1], fun other hother _ => ?_⟩, rfl⟩
    exact Function.update_of_ne hother _ _
  · intro error
    refine ⟨by simp [hnew.1], fun halone _ => halone _ _⟩

end

end

end DeepJit
