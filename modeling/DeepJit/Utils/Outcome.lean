import DeepJit.Basic
import Mathlib.Data.List.Infix

/-!
# Exceptions, I/O tasks and commands

What a request sees of the outside world: the result of every task that `run_in_iothread` runs, and
the exit of every command. Handlers distinguish `IOTimeoutError` by `dynamic_cast` and timed-out
commands by their text, so an exception is its class and its text.
-/

namespace DeepJit

/-! ### Exceptions -/

inductive Exn where
  | ioTimeout
  | other (what : Bytes)
deriving DecidableEq, Repr

namespace Exn

def what : Exn → Bytes
  | ioTimeout => bytes "I/O task timed out"
  | other what => what

/-- `dynamic_cast<const IOTimeoutError*>(&error) != nullptr`. -/
def isTimeout : Exn → Bool
  | ioTimeout => true
  | other _ => false

end Exn

/-- Where an exception is raised, and the backtrace it captures there. -/
structure Site where
  file : Bytes := []
  file_noNul : 0 ∉ file := by simp
  line : Nat := 0
  trace : Bytes := []

/-- `exception::Exception::what`. -/
def exceptionWhat (name : String) (site : Site) (error : Bytes) : Bytes :=
  bytes name ++ bytes " error (" ++ site.file ++ bytes ":" ++ decimal site.line ++ bytes "): " ++ error ++
    if site.trace = [] then [] else bytes "\nC++ trace (most recent call first):\n" ++ site.trace

/-- `DJ_PANIC`. -/
def djPanic (site : Site) (error : Bytes) : Exn := .other (exceptionWhat "Panic" site error)

/-- `DJ_HOST_ASSERT` on a false condition. -/
def djHostAssert (condition : String) (site : Site) (error : Bytes) : Exn :=
  .other (exceptionWhat "Assertion" site (bytes condition ++ bytes ": " ++ error))

/-! ### Tasks on the I/O thread -/

/-- What a task does when it is given the time it needs, and whether it needs more than its
timeout. -/
structure IoTask (α : Type) where
  result : Except Bytes α
  late : Bool := false

/-- `run_in_iothread`. Without fallback the task runs on the caller, without a timeout. -/
def runInIothread {α : Type} (fallbackDisabled : Bool) (task : IoTask α) : Except Exn α :=
  if task.late && !fallbackDisabled then .error .ioTimeout
  else
    match task.result with
    | .ok value => .ok value
    | .error what => .error (.other what)

theorem runInIothread_disabled {α : Type} (task : IoTask α) :
    runInIothread true task ≠ .error .ioTimeout := by
  unfold runInIothread
  cases task.result <;> simp

/-! ### Commands -/

/-- How a command ends: an exit status with its output, the timeout, or a failure to start or to
watch it. -/
inductive CommandOutcome where
  | exited (code : Nat) (output : Bytes) (site : Site)
  | expired (output : Bytes) (site : Site)
  | broken (what : Bytes)

def CommandOutcome.isExpired : CommandOutcome → Bool
  | expired _ _ => true
  | _ => false

/-- `call_external_command` with its default timeout of five minutes. -/
def callExternalCommand (command : Bytes) : CommandOutcome → Except Exn Bytes
  | .exited code output site =>
      if code = 0 then .ok output
      else .error (djHostAssert "exit_code == 0" site
        (bytes "command failed with exit code " ++ decimal code ++ bytes ":\n" ++ command ++ bytes "\n" ++ output))
  | .expired output site => .error (djPanic site
      (bytes "command timed out after " ++ decimal 300000 ++ bytes " ms:\n" ++ command ++ bytes "\n" ++ output))
  | .broken what => .error (.other what)

/-- The `std::string_view` of a C string, which ends at its first zero byte. -/
def cString (text : Bytes) : Bytes := text.takeWhile (· ≠ 0)

/-- `find("command timed out") != npos` on the text of an exception. -/
def mentionsCommandTimeout (text : Bytes) : Bool := decide (bytes "command timed out" <:+: cString text)

theorem isTimeout_of_callExternalCommand {command : Bytes} {outcome : CommandOutcome} {e : Exn}
    (h : callExternalCommand command outcome = .error e) : e.isTimeout = false := by
  unfold callExternalCommand at h
  cases outcome with
  | exited code output site =>
      by_cases hcode : code = 0
      · simp [hcode] at h
      · simp only [hcode, if_false, Except.error.injEq] at h
        rw [← h, djHostAssert, Exn.isTimeout]
  | expired output site =>
      simp only [Except.error.injEq] at h
      rw [← h, djPanic, Exn.isTimeout]
  | broken what =>
      simp only [Except.error.injEq] at h
      rw [← h, Exn.isTimeout]

theorem decimal_noNul (n : Nat) : 0 ∉ decimal n := by
  intro h
  obtain ⟨c, hc, hzero⟩ := List.mem_map.mp h
  have hdigit : c.isDigit = true := Nat.isDigit_of_mem_toDigits (by omega) (by omega) hc
  simp only [Char.isDigit, Bool.and_eq_true, decide_eq_true_eq, UInt32.le_iff_toNat_le] at hdigit
  have hlow : 48 ≤ c.toNat := hdigit.1
  have hhigh : c.toNat ≤ 57 := hdigit.2
  have hbyte := congrArg UInt8.toNat hzero
  rw [Nat.toUInt8_eq, UInt8.toNat_ofNat', Nat.mod_eq_of_lt (by omega)] at hbyte
  change c.toNat = 0 at hbyte
  omega

/-- What an exception is raised with, up to its first zero byte, is part of its text. -/
theorem infix_exceptionWhat {name : String} (hname : 0 ∉ bytes name) {site : Site}
    {error needle : Bytes} (h : needle <+: error) (hneedle : 0 ∉ needle) :
    needle <:+: cString (exceptionWhat name site error) := by
  obtain ⟨rest, rfl⟩ := h
  unfold exceptionWhat cString
  generalize (if site.trace = [] then [] else bytes "\nC++ trace (most recent call first):\n" ++ site.trace) = trace
  have hstart : ∀ byte ∈ bytes name ++ bytes " error (" ++ site.file ++ bytes ":" ++ decimal site.line ++
      bytes "): " ++ needle, decide (byte ≠ 0) = true := by
    intro byte hbyte
    rw [decide_eq_true_eq]
    rintro rfl
    have hline := decimal_noNul site.line
    have hfile := site.file_noNul
    have herror : 0 ∉ bytes " error (" := by decide
    have hcolon : 0 ∉ bytes ":" := by decide
    have hclose : 0 ∉ bytes "): " := by decide
    simp only [List.mem_append] at hbyte
    tauto
  rw [← List.append_assoc, List.append_assoc _ rest, List.takeWhile_append_of_pos hstart]
  exact ⟨_, _, rfl⟩

/-- The error of a timed-out command says so. -/
theorem mentionsCommandTimeout_of_isExpired {command : Bytes} {outcome : CommandOutcome} {e : Exn}
    (h : callExternalCommand command outcome = .error e) (hexpired : outcome.isExpired = true) :
    mentionsCommandTimeout e.what = true := by
  cases outcome with
  | exited code output site => simp [CommandOutcome.isExpired] at hexpired
  | broken what => simp [CommandOutcome.isExpired] at hexpired
  | expired output site =>
      simp only [callExternalCommand, Except.error.injEq] at h
      rw [← h, mentionsCommandTimeout, decide_eq_true_eq, djPanic, Exn.what]
      have hstart : bytes "command timed out" <+: bytes "command timed out after " := by decide
      refine infix_exceptionWhat (by decide) ?_ (by decide)
      simp only [List.append_assoc]
      exact List.IsPrefix.trans hstart (List.prefix_append _ _)

end DeepJit
