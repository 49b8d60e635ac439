import AtsEndpoint.Text.Control
import AtsEndpoint.Text.Numeral

/-!
# Commands of the tool

The tool digests files through an endpoint, tests an endpoint on a scratch
buffer, and prints the register map. The first two take a setup: where the
host buffer lies on either side, the granule, and the failure policy.
-/

namespace AtsEndpoint.Tool

/-- Where the host buffer lies and how the endpoint is set up. -/
structure Setup where
  /-- The virtual address of the buffer. -/
  iova : UInt64 := 0x8000
  /-- The physical address of the buffer. -/
  physBase : UInt64 := 0x10000000
  /-- The granule in bytes. -/
  granule : UInt64 := 4096
  /-- Failed accesses are reported in STATUS instead of halting the endpoint. -/
  reportErrors : Bool := false
deriving DecidableEq, Repr

/-- The names of the commands. -/
inductive CommandName
  | md5sum
  | selftest
  | registers
  | help
deriving DecidableEq, Repr

namespace CommandName

/-- Every command, in the order of the help page. -/
def all : List CommandName := [md5sum, selftest, registers, help]

/-- The word that names a command. -/
def word : CommandName → String
  | md5sum => "md5sum"
  | selftest => "selftest"
  | registers => "regs"
  | help => "help"

/-- The command that a word names. -/
def ofWord? (word : String) : Option CommandName :=
  all.find? fun name => name.word = word

/-- What a command does, in one line. -/
def summary : CommandName → String
  | md5sum => "MD5 one or more files via the accelerator's checksum operation"
  | selftest => "Run every operation against a scratch buffer and check the results"
  | registers => "Print the BAR0 register map"
  | help => "Print this message or the help of the given subcommand(s)"

end CommandName

/-- What the tool is told to do. -/
inductive Command
  /-- Digest files. -/
  | md5sum (files : List String) (setup : Setup)
  /-- Test an endpoint. -/
  | selftest (setup : Setup)
  /-- Print the register map. -/
  | registers
  /-- Print the help page of the tool or of a command. -/
  | help (topic : Option CommandName)
  /-- Print the version. -/
  | version
deriving DecidableEq, Repr

/-- An option that takes a value. -/
inductive Slot
  | iova
  | physBase
  | granule
deriving DecidableEq, Repr

namespace Slot

/-- Every option that takes a value. -/
def all : List Slot := [iova, physBase, granule]

/-- The word of an option, without its dashes. -/
def word : Slot → String
  | iova => "iova"
  | physBase => "phys-base"
  | granule => "granule"

/-- The option that a word names. -/
def ofWord? (word : String) : Option Slot :=
  all.find? fun slot => slot.word = word

/-- The option with its dashes and a stand-in for its value. -/
def usage : Slot → String
  | iova => "--iova <IOVA>"
  | physBase => "--phys-base <PHYS_BASE>"
  | granule => "--granule <GRANULE>"

end Slot

/-- Why an argument list is refused. -/
inductive UsageError
  /-- An argument has no place here. -/
  | unexpectedArgument (argument : String)
  /-- A word names no command. -/
  | unknownCommand (word : String)
  /-- An option, or a file name, is left without a value. -/
  | missingValue (usage : String)
  /-- An option that takes no value is given one. -/
  | unexpectedValue (value option : String)
  /-- An option is given twice. -/
  | repeated (usage : String)
  /-- A value is not a numeral. -/
  | invalidValue (value : String) (slot : Slot) (problem : Text.Numeral.Problem)
  /-- No file is named. -/
  | noFiles
  /-- No command is named. -/
  | noCommand
deriving DecidableEq, Repr

/-- The stand-in for file names. -/
def filesUsage : String := "<FILES>..."

/-- A text in quotes, which a terminal emphasizes. -/
def quoted (text : String) : String :=
  "'" ++ Text.Control.emphasize text ++ "'"

/-- The wording of a usage error, for a terminal. -/
def UsageError.message : UsageError → String
  | unexpectedArgument argument => "error: unexpected argument " ++ quoted argument ++ " found"
  | unknownCommand word => "error: unrecognized subcommand " ++ quoted word
  | missingValue usage =>
    "error: a value is required for " ++ quoted usage ++ " but none was supplied"
  | unexpectedValue value option =>
    "error: unexpected value " ++ quoted value ++ " for " ++ quoted option
      ++ " found; no more were expected"
  | repeated usage => "error: the argument " ++ quoted usage ++ " cannot be used multiple times"
  | invalidValue value slot problem =>
    "error: invalid value " ++ quoted value ++ " for " ++ quoted slot.usage ++ ": "
      ++ String.ofList (Text.Numeral.significant value) ++ ": " ++ problem.message
  | noFiles => "error: the following required arguments were not provided:"
  | noCommand => "PCIe ATS accelerator model CLI"

end AtsEndpoint.Tool
