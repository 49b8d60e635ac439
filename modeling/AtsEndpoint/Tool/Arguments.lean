import AtsEndpoint.Tool.Command

/-!
# Argument lists

An argument list is read from left to right. A value that belongs to an option,
and a run of file names, is taken in when the next argument of another sort is
met, or at the end; only then is it checked. So an option without a place is
refused before an earlier value that is no numeral, and such a value before a
later option that is given twice.

After a lone `--` every argument is positional. Before it an argument that
begins with a dash and goes on is an option, and a dash alone is positional.
-/

namespace AtsEndpoint.Tool

/-- Values that are read and not yet taken in. -/
inductive Waiting
  /-- An option that takes a value, and its value if that was read. -/
  | value (slot : Slot) (text : Option String)
  /-- A run of file names. -/
  | files (names : List String)
deriving DecidableEq, Repr

/-- The arguments of a command as far as they are read. -/
structure Scan where
  /-- The values not yet taken in. -/
  waiting : Option Waiting := none
  /-- The virtual address given. -/
  iova : Option UInt64 := none
  /-- The physical address given. -/
  physBase : Option UInt64 := none
  /-- The granule given. -/
  granule : Option UInt64 := none
  /-- The failure policy is given. -/
  reportErrors : Bool := false
  /-- The files named. -/
  files : List String := []
deriving DecidableEq, Repr

/-- Why reading ends before the list does. -/
inductive Stop
  /-- The list is refused. -/
  | refused (error : UsageError)
  /-- A help page is asked for. -/
  | help
deriving DecidableEq, Repr

namespace Scan

/-- The value given for an option. -/
def get? (scan : Scan) : Slot → Option UInt64
  | .iova => scan.iova
  | .physBase => scan.physBase
  | .granule => scan.granule

/-- Keep the value of an option. -/
def put (scan : Scan) (slot : Slot) (value : UInt64) : Scan :=
  match slot with
  | .iova => { scan with iova := some value }
  | .physBase => { scan with physBase := some value }
  | .granule => { scan with granule := some value }

/-- Take in the value of an option, which must not have one yet. -/
def take (scan : Scan) (slot : Slot) (text : String) : Except Stop Scan :=
  if (scan.get? slot).isSome then .error (.refused (.repeated slot.usage))
  else
    match Text.Numeral.parse text with
    | .ok value => .ok (scan.put slot value)
    | .error problem => .error (.refused (.invalidValue text slot problem))

/-- Take in what is waiting. -/
def settle (scan : Scan) : Except Stop Scan :=
  match scan.waiting with
  | none => .ok scan
  | some (.value slot none) => .error (.refused (.missingValue slot.usage))
  | some (.value slot (some text)) => { scan with waiting := none }.take slot text
  | some (.files names) =>
    if names.any (·.isEmpty) then .error (.refused (.missingValue filesUsage))
    else .ok { scan with waiting := none, files := scan.files ++ names }

/-- The setup given; what is not given has its default. -/
def setup (scan : Scan) : Setup :=
  let default : Setup := {}
  { iova := scan.iova.getD default.iova
    physBase := scan.physBase.getD default.physBase
    granule := scan.granule.getD default.granule
    reportErrors := scan.reportErrors }

end Scan

/-- The sorts of argument before a lone `--`. -/
inductive Argument
  /-- A lone `--`. -/
  | separator
  /-- An option in words, and the value attached to it by `=`. -/
  | long (name : String) (value : Option String)
  /-- A dash with letters. -/
  | short (first : Char) (more : List Char)
  /-- Anything else. -/
  | plain (text : String)
deriving DecidableEq, Repr

namespace Argument

/-- The sort of an argument. -/
def ofString (text : String) : Argument :=
  match text.toList with
  | ['-', '-'] => .separator
  | '-' :: '-' :: rest =>
    let name := String.ofList (rest.takeWhile (· ≠ '='))
    match rest.dropWhile (· ≠ '=') with
    | [] => .long name none
    | _ :: value => .long name (some (String.ofList value))
  | '-' :: first :: more => .short first more
  | _ => .plain text

/-- The refusal of an option in words that has no place here. -/
def unknownLong (name : String) : UsageError :=
  .unexpectedArgument ("--" ++ name)

/-- The refusal of a letter that has no place here. -/
def unknownShort (letter : Char) : UsageError :=
  .unexpectedArgument (String.ofList ['-', letter])

end Argument

/-- Which arguments a command takes besides `--help`. -/
structure Grammar where
  /-- It takes file names. -/
  takesFiles : Bool
  /-- It takes a setup. -/
  takesSetup : Bool
deriving DecidableEq, Repr

namespace Grammar

/-- Read a positional argument. -/
def positional (grammar : Grammar) (scan : Scan) (text : String) : Except Stop Scan :=
  if !grammar.takesFiles then .error (.refused (.unexpectedArgument text))
  else
    match scan.waiting with
    | some (.files names) => .ok { scan with waiting := some (.files (names ++ [text])) }
    | _ => do
      let scan ← scan.settle
      .ok { scan with waiting := some (.files [text]) }

/-- Ask for the help page. -/
def askHelp (scan : Scan) : Except Stop Scan := do
  let _ ← scan.settle
  .error .help

/-- Read an option in words. -/
def long (grammar : Grammar) (scan : Scan) (name : String) (value : Option String) :
    Except Stop Scan :=
  match if grammar.takesSetup then Slot.ofWord? name else none, value with
  | some slot, none => do
    let scan ← scan.settle
    .ok { scan with waiting := some (.value slot none) }
  | some slot, some text => do
    let scan ← scan.settle
    scan.take slot text
  | none, _ =>
    if name = "help" ∨ name = "report-errors" ∧ grammar.takesSetup then
      match value with
      | some text => .error (.refused (.unexpectedValue text ("--" ++ name)))
      | none =>
        if name = "help" then askHelp scan
        else do
          let scan ← scan.settle
          if scan.reportErrors then .error (.refused (.repeated ("--" ++ name)))
          else .ok { scan with reportErrors := true }
    else .error (.refused (Argument.unknownLong name))

/-- Read the arguments of a command. -/
def read (grammar : Grammar) : Scan → List String → Except Stop Scan
  | scan, [] => scan.settle
  | scan, text :: rest =>
    match Argument.ofString text with
    | .separator => do
      let scan ← rest.foldlM grammar.positional scan
      scan.settle
    | .long name value => do
      let scan ← grammar.long scan name value
      grammar.read scan rest
    | .short first _ =>
      if first = 'h' then askHelp scan
      else .error (.refused (Argument.unknownShort first))
    | .plain text =>
      match scan.waiting with
      | some (.value slot none) =>
        grammar.read { scan with waiting := some (.value slot (some text)) } rest
      | _ => do
        let scan ← grammar.positional scan text
        grammar.read scan rest

end Grammar

namespace Command

/-- Read the arguments that follow the name of a command, and make the command
of what was given; or ask for its help page. -/
def parseAfter (name : CommandName) (grammar : Grammar) (arguments : List String)
    (make : Scan → Except UsageError Command) : Except UsageError Command :=
  match grammar.read {} arguments with
  | .ok scan => make scan
  | .error (.refused error) => .error error
  | .error .help => .ok (.help (some name))

/-- Read what follows the word `help`. -/
def parseHelp : List String → Except UsageError Command
  | [] => .ok (.help none)
  | word :: rest =>
    match CommandName.ofWord? word, rest with
    | none, _ => .error (.unknownCommand word)
    | some name, [] => .ok (.help (some name))
    | some _, extra :: _ => .error (.unknownCommand extra)

/-- Read a command and its arguments. -/
def parseNamed (name : CommandName) (arguments : List String) : Except UsageError Command :=
  match name with
  | .md5sum =>
    parseAfter name ⟨true, true⟩ arguments fun scan =>
      if scan.files.isEmpty then .error .noFiles else .ok (.md5sum scan.files scan.setup)
  | .selftest => parseAfter name ⟨false, true⟩ arguments fun scan => .ok (.selftest scan.setup)
  | .registers => parseAfter name ⟨false, false⟩ arguments fun _ => .ok .registers
  | .help => parseHelp arguments

/-- Read an argument list that does not begin with the name of a command. -/
def parseUnnamed (text : String) (rest : List String) : Except UsageError Command :=
  match Argument.ofString text, rest with
  | .separator, [] => .error .noCommand
  | .separator, word :: _ =>
    if (CommandName.ofWord? word).isSome then .error (.unexpectedArgument word)
    else .error (.unknownCommand word)
  | .long name value, _ =>
    if name = "help" ∨ name = "version" then
      match value with
      | some value => .error (.unexpectedValue value ("--" ++ name))
      | none => .ok (if name = "help" then .help none else .version)
    else .error (Argument.unknownLong name)
  | .short 'h' _, _ => .ok (.help none)
  | .short 'V' _, _ => .ok .version
  | .short first _, _ => .error (Argument.unknownShort first)
  | .plain text, _ => .error (.unknownCommand text)

/-- Read an argument list. -/
def parse : List String → Except UsageError Command
  | [] => .error .noCommand
  | text :: rest =>
    match CommandName.ofWord? text with
    | some name => parseNamed name rest
    | none => parseUnnamed text rest

end Command

end AtsEndpoint.Tool
