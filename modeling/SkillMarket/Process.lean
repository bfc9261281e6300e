import SkillMarket.FileTree.Basic

/-!
Running programs: what is run, and what comes of it.
-/

namespace SkillMarket

/-- A program, its arguments, and the directory it is run in. -/
structure Invocation where
  program : String
  args : List String
  directory : String
deriving DecidableEq, Repr

/-- How a program has ended: with an exit code, or by a signal. -/
inductive ExitStatus where
  | code (n : Nat)
  | signal (number : Nat) (coreDumped : Bool)
deriving DecidableEq, Repr

/-- The names of the signals, from number 1 on. -/
def signalNames : List String :=
  ["SIGHUP", "SIGINT", "SIGQUIT", "SIGILL", "SIGTRAP", "SIGABRT", "SIGBUS", "SIGFPE", "SIGKILL",
    "SIGUSR1", "SIGSEGV", "SIGUSR2", "SIGPIPE", "SIGALRM", "SIGTERM", "SIGSTKFLT", "SIGCHLD",
    "SIGCONT", "SIGSTOP", "SIGTSTP", "SIGTTIN", "SIGTTOU", "SIGURG", "SIGXCPU", "SIGXFSZ",
    "SIGVTALRM", "SIGPROF", "SIGWINCH", "SIGIO", "SIGPWR", "SIGSYS"]

def signalText (number : Nat) : String :=
  match (none :: signalNames.map some)[number]? with
  | some (some name) => s!"signal: {number} ({name})"
  | _ => s!"signal: {number}"

def ExitStatus.text : ExitStatus → String
  | code n => s!"exit status: {n}"
  | signal number coreDumped => signalText number ++ if coreDumped then " (core dumped)" else ""

/-- What a program has left behind: how it has ended and what it has written. -/
structure Completed where
  status : ExitStatus
  output : ByteArray
  errors : ByteArray

def Completed.succeeded (c : Completed) : Bool := c.status = .code 0

/-- Why a program cannot be started. -/
inductive LaunchError where
  | file (error : FileError)
  | noFormat
  | nulByte
deriving DecidableEq, Repr

def LaunchError.message : LaunchError → String
  | file error => error.message
  | noFormat => "Exec format error (os error 8)"
  | nulByte => "nul byte found in provided data"

/-- Runs programs in a world that they may change. -/
abbrev Launcher (σ : Type) := Invocation → σ → Except LaunchError Completed × σ

end SkillMarket
