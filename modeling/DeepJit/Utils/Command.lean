import DeepJit.Utils.Outcome

/-!
# External commands

`call_external_command` runs a shell with its output on a pipe, and reads, waits and polls in turn
until the output has ended and the shell was reaped. Every system call is answered by the
environment, one `Round` for each turn of the loop, and the effects of the function are logged.
-/

namespace DeepJit.Command

/-! ### The environment -/

inductive Errno
  | eagain
  | eintr
  | other (number : Int)

/-- A status from `waitpid`, which reports no stopped children without further options. -/
inductive WaitStatus
  | exited (code : UInt8)
  | signaled (signal : Nat)
deriving DecidableEq

/-- `WIFEXITED(status) ? WEXITSTATUS(status) : 128 + WTERMSIG(status)`. -/
def WaitStatus.exitCode : WaitStatus → Nat
  | exited code => code.toNat
  | signaled signal => 128 + signal

/-- The answers to one turn of the loop. A read of no bytes is the end of the output, and no status
means that the child is still running. -/
structure Round where
  now : Int
  read : Except Errno Bytes
  wait : Except Errno (Option WaitStatus)
  poll : Except Errno Unit

/-- The answers before the loop, the error numbers of the calls that return one, and the rounds. -/
structure Environment where
  pipe : Bool
  nonblocking : Bool
  fileActionsInit : Bool
  adddup2Stdout : Int
  adddup2Stderr : Int
  addcloseRead : Int
  addcloseWrite : Int
  spawn : Int
  child : Nat
  now : Int
  rounds : List Round

/-- The local `error`: every call is made if none before it failed. -/
def Environment.error (env : Environment) : Int :=
  let error := env.adddup2Stdout
  let error := if error = 0 then env.adddup2Stderr else error
  let error := if error = 0 then env.addcloseRead else error
  let error := if error = 0 then env.addcloseWrite else error
  if error = 0 then env.spawn else error

inductive PipeEnd
  | read
  | write
deriving DecidableEq

inductive Effect
  | printed (text : Bytes)
  | piped
  | spawned (child : Nat)
  | received (chunk : Bytes)
  | ended
  | reaped (status : WaitStatus)
  | closed (pipeEnd : PipeEnd)
  | killed (child : Nat)
deriving DecidableEq

/-! ### Failures -/

/-- What the function throws. -/
inductive Failure
  | emptyCommand
  | negativeTimeout
  | pipe
  | nonblocking
  | fileActionsInit
  | spawn (error : Int)
  | timedOut (output : Bytes)
  | read
  | wait
  | poll
  | exitCode (code : Nat) (output : Bytes)

/-- The exception of a failure at the place where it is raised. -/
def Failure.raise (command : Bytes) (timeout : Int) (site : Site) : Failure → Exn
  | emptyCommand => djHostAssert "not command.empty()" site (bytes "command must not be empty")
  | negativeTimeout =>
      djHostAssert "timeout.count() >= 0" site (bytes "command timeout must not be negative")
  | pipe => djHostAssert "pipe2(fd, O_CLOEXEC) == 0" site (bytes "command pipe failed")
  | nonblocking =>
      djHostAssert "fcntl(fd[0], F_SETFL, O_NONBLOCK) == 0" site (bytes "nonblocking pipe failed")
  | fileActionsInit =>
      .other (exceptionWhat "Assertion" site (bytes "posix_spawn_file_actions_init(&actions) == 0"))
  | spawn error => djHostAssert "error == 0" site
      (bytes "command spawn failed (" ++ decimalInt error ++ bytes "): " ++ command)
  | timedOut output => djPanic site
      (bytes "command timed out after " ++ decimalInt timeout ++ bytes " ms:\n" ++ command ++ bytes "\n" ++ output)
  | read => djHostAssert "errno == EAGAIN or errno == EINTR" site (bytes "command read failed")
  | wait => djHostAssert "reaped >= 0 or errno == EINTR" site (bytes "command wait failed")
  | poll => djHostAssert "poll(&polling, 1, 10) >= 0 or errno == EINTR" site (bytes "command poll failed")
  | exitCode code output => djHostAssert "exit_code == 0" site
      (bytes "command failed with exit code " ++ decimal code ++ bytes ":\n" ++ command ++ bytes "\n" ++ output)

/-! ### The function -/

/-- The variables of the function, and the log of its effects. `fd[0]` stays set, `writeEnd` says
that `fd[1]` is, and no `pid` is `-1`. -/
structure Locals where
  writeEnd : Bool := true
  pid : Option Nat := none
  status : WaitStatus := .exited 0
  eof : Bool := false
  output : Bytes := []
  log : List Effect

/-- The `try` block up to the loop. -/
def start (env : Environment) (l : Locals) : Except Failure Unit × Locals :=
  if ¬ env.nonblocking then (.error .nonblocking, l)
  else if ¬ env.fileActionsInit then (.error .fileActionsInit, l)
  else if env.error ≠ 0 then (.error (.spawn env.error), l)
  else (.ok (),
    { l with pid := some env.child, writeEnd := false, log := l.log ++ [.spawned env.child, .closed .write] })

/-- The end of a turn: leave the loop, or poll for at most ten milliseconds. -/
def pollOutput (round : Round) (l : Locals) : Except Failure Unit × Locals :=
  if l.eof ∧ l.pid = none then (.ok (), l)
  else
    match round.poll with
    | .ok () | .error .eintr => (.ok (), l)
    | .error _ => (.error .poll, l)

def waitChild (round : Round) (l : Locals) : Except Failure Unit × Locals :=
  match l.pid with
  | none => pollOutput round l
  | some _ =>
      match round.wait with
      | .ok none | .error .eintr => pollOutput round l
      | .ok (some status) =>
          pollOutput round { l with pid := none, status := status, log := l.log ++ [.reaped status] }
      | .error _ => (.error .wait, l)

/-- One turn of the loop. -/
def turn (deadline : Int) (round : Round) (l : Locals) : Except Failure Unit × Locals :=
  if deadline ≤ round.now then (.error (.timedOut l.output), l)
  else if l.eof then waitChild round l
  else
    match round.read with
    | .ok [] => waitChild round { l with eof := true, log := l.log ++ [.ended] }
    | .ok chunk => (.ok (), { l with output := l.output ++ chunk, log := l.log ++ [.received chunk] })
    | .error .eagain | .error .eintr => waitChild round l
    | .error _ => (.error .read, l)

/-- The loop. Without a result the environment has given its last answer and the function goes on. -/
def watch (deadline : Int) : List Round → Locals → Option (Except Failure Unit) × Locals
  | [], l => if l.eof ∧ l.pid = none then (some (.ok ()), l) else (none, l)
  | round :: rounds, l =>
      if l.eof ∧ l.pid = none then (some (.ok ()), l)
      else
        match turn deadline round l with
        | (.error failure, l) => (some (.error failure), l)
        | (.ok (), l) => watch deadline rounds l

/-- `std::chrono::steady_clock::time_point::max()`, in nanoseconds. -/
def timePointMax : Int := 0x7fffffffffffffff

def deadline (timeout now : Int) : Int :=
  if timeout = 0 then timePointMax else now + timeout * 1000000

/-- The `try` block. -/
def tryBlock (timeout : Int) (env : Environment) (l : Locals) :
    Option (Except Failure Bytes) × Locals :=
  match start env l with
  | (.error failure, l) => (some (.error failure), l)
  | (.ok (), l) =>
      match watch (deadline timeout env.now) env.rounds l with
      | (none, l) => (none, l)
      | (some (.error failure), l) => (some (.error failure), l)
      | (some (.ok ()), l) =>
          if l.status.exitCode ≠ 0 then (some (.error (.exitCode l.status.exitCode l.output)), l)
          else (some (.ok l.output), { l with log := l.log ++ [.closed .read] })

/-- What the `catch` block does before it rethrows. -/
def Locals.cleanup (l : Locals) : List Effect :=
  [.closed .read] ++ (if l.writeEnd then [.closed .write] else []) ++
    match l.pid with
    | none => []
    | some child => [.killed child]

/-- `call_external_command`: its result and its effects. -/
def callExternalCommand (command : Bytes) (printCommand : Bool) (timeout : Int) (env : Environment) :
    Option (Except Failure Bytes) × List Effect :=
  if command = [] then (some (.error .emptyCommand), [])
  else if timeout < 0 then (some (.error .negativeTimeout), [])
  else
    let printed := if printCommand then [.printed (bytes "Running command: " ++ cString command ++ bytes "\n")] else []
    if ¬ env.pipe then (some (.error .pipe), printed)
    else
      match tryBlock timeout env { log := printed ++ [.piped] } with
      | (some (.error failure), l) => (some (.error failure), l.log ++ l.cleanup)
      | (result, l) => (result, l.log)

/-- The chunks of a log, one after the other. -/
def received (log : List Effect) : Bytes :=
  log.flatMap fun effect =>
    match effect with
    | .received chunk => chunk
    | _ => []

end DeepJit.Command
