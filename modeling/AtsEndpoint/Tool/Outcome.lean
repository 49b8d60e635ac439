import AtsEndpoint.Fault
import AtsEndpoint.Tool.Help

/-!
# Outcomes of the tool

A run prints lines and may end in a failure. The failure decides the exit code
and what goes to the error output: one line that says what failed, and after it
the cause, where a cause stands behind it.
-/

namespace AtsEndpoint.Tool

/-- Why a file cannot be read. -/
inductive ReadProblem
  | notFound
  | notDirectory
  | isDirectory
  | nameTooLong
  /-- A reason in other words. -/
  | other (text : String)
deriving DecidableEq, Repr

/-- The wording of a read problem. -/
def ReadProblem.message : ReadProblem → String
  | .notFound => "No such file or directory (os error 2)"
  | .notDirectory => "Not a directory (os error 20)"
  | .isDirectory => "Is a directory (os error 21)"
  | .nameTooLong => "File name too long (os error 36)"
  | .other text => text

/-- Why a run ends early. -/
inductive Failure
  /-- A file cannot be read. -/
  | unreadable (file : String) (problem : ReadProblem)
  /-- A file is too long for the LENGTH register. -/
  | fileTooLong (file : String)
  /-- The scratch buffer is too long for the LENGTH register. -/
  | lengthTooLong
  /-- The buffer cannot be mapped. -/
  | unmapped (fault : Fault)
  /-- The endpoint cannot be set up or driven. -/
  | endpoint (fault : Fault)
  /-- The endpoint reports that the digest of a file failed. -/
  | checksumFailed (file : String)
  /-- The endpoint reports that the digest of the scratch buffer failed. -/
  | scratchChecksumFailed
  /-- The word read is not the word written. -/
  | readBack (read written : UInt32)
  /-- The digest of the endpoint is not the digest of the scratch buffer. -/
  | digestDiffers
  /-- The run cannot go on at all. -/
  | aborted
deriving DecidableEq, Repr

/-- What does not fit 32 bits. -/
private def outOfRange : String := "out of range integral type conversion attempted"

/-- What failed, and what caused it. -/
def Failure.report : Failure → String × Option String
  | unreadable file problem => ("reading " ++ file, some problem.message)
  | fileTooLong file => (file ++ " does not fit the 32-bit LENGTH register", some outOfRange)
  | lengthTooLong => (outOfRange, none)
  | unmapped fault => ("mapping host buffer", some fault.message)
  | endpoint fault => (fault.message, none)
  | checksumFailed file => (file ++ ": device reported ERR", none)
  | scratchChecksumFailed => ("checksum reported ERR", none)
  | readBack read written =>
    ("read back " ++ Text.hex read.toNat ++ ", wrote " ++ Text.hex written.toNat, none)
  | digestDiffers => ("device digest differs from host digest", none)
  | aborted => ("", none)

/-- The lines that a run prints, and its failure if it has one. -/
structure Report where
  /-- The lines, in order. -/
  lines : List String := []
  /-- The failure. -/
  failure : Option Failure := none
deriving DecidableEq, Repr

namespace Report

/-- Print a line and go on. -/
def say (line : String) (rest : Report) : Report :=
  { rest with lines := line :: rest.lines }

/-- End early. -/
def stop (failure : Failure) : Report :=
  { failure := some failure }

@[simp] theorem lines_say (line : String) (rest : Report) :
    (say line rest).lines = line :: rest.lines := rfl
@[simp] theorem failure_say (line : String) (rest : Report) :
    (say line rest).failure = rest.failure := rfl

end Report

/-- What a process leaves behind. -/
structure Outcome where
  /-- The exit code. -/
  code : UInt8 := 0
  /-- The standard output. -/
  stdout : String := ""
  /-- The error output. -/
  stderr : String := ""
deriving DecidableEq, Repr

namespace Outcome

/-- A failed run exits with 1 and says why; one that cannot go on exits with
101 and leaves it at that. -/
def ofReport (report : Report) : Outcome :=
  let stdout := unlines report.lines
  match report.failure with
  | none => { stdout }
  | some .aborted => { code := 101, stdout }
  | some failure =>
    match failure.report with
    | (what, none) => { code := 1, stdout, stderr := "Error: " ++ what ++ "\n" }
    | (what, some cause) =>
      { code := 1
        stdout
        stderr := "Error: " ++ what ++ "\n\nCaused by:\n    " ++ cause ++ "\n" }

/-- A refused argument list exits with 2. The error output is no terminal, so
the control sequences are taken out, those of the arguments as well. -/
def ofUsageError (error : UsageError) : Outcome :=
  match error with
  | .noCommand => { code := 2, stderr := toolHelp }
  | _ =>
    { code := 2
      stderr := Text.Control.strip <|
        error.message ++ "\n\nFor more information, try " ++ quoted "--help" ++ ".\n" }

end Outcome

end AtsEndpoint.Tool
