/-!
# Control sequences

Text for a terminal holds characters to show and control sequences, which begin
with an escape character and say how to show them. Where there is no terminal,
`strip` leaves the characters to show: those from the blank on but not the
delete character, tabs, and the ends of lines and pages.

A sequence that has an end of its own takes what it holds along. White space
inside it is shown all the same; so is then what follows, up to the next
character that is not to be shown, and from there on the sequence goes on.
-/

namespace AtsEndpoint.Text.Control

/-- The sequences, and where in one of them a text stands. -/
inductive Mode
  /-- In no sequence. -/
  | ground
  /-- Behind an escape character. -/
  | escape
  /-- Behind an escape character and intermediate characters. -/
  | intermediate
  /-- In a control sequence proper, which ends with a final character. -/
  | parameters
  /-- At the head of a device string. -/
  | device
  /-- Among the parameters of a device string. -/
  | deviceParameters
  /-- Among the intermediate characters of a device string. -/
  | deviceIntermediate
  /-- In a string, which ends with a terminator. -/
  | string
  /-- In a command to the system, which ends with a bell. -/
  | command
deriving DecidableEq, Repr

/-- White space that a terminal acts on: a tab, or the end of a line or a page. -/
def isSpacing (c : Char) : Bool :=
  c = '\t' ∨ c = '\n' ∨ c = '\x0c' ∨ c = '\r'

/-- A character to show where no sequence is open. -/
def isShown (c : Char) : Bool :=
  isSpacing c ∨ ' ' ≤ c ∧ c ≠ '\x7f'

/-- The terminator is a byte, wherever in the encoding of a character it stands. -/
def holdsTerminator (c : Char) : Bool :=
  (String.utf8EncodeChar c).contains 0x9c

namespace Mode

/-- White space is shown in this mode. -/
def showsSpacing : Mode → Bool
  | ground | escape | intermediate | parameters => true
  | device | deviceParameters | deviceIntermediate | string | command => false

/-- Where an escape character is followed by `c`. -/
def afterEscape (c : Char) : Mode :=
  if ' ' ≤ c ∧ c ≤ '/' then intermediate
  else
    match c with
    | '[' => parameters
    | ']' => command
    | 'P' => device
    | 'X' | '^' | '_' => string
    | _ => if '0' ≤ c ∧ c ≤ '~' then ground else escape

/-- Where the head of a device string goes on with `c`. -/
def afterDevice (c : Char) : Mode :=
  if ' ' ≤ c ∧ c ≤ '/' then deviceIntermediate
  else if '0' ≤ c ∧ c ≤ '?' then deviceParameters
  else if '@' ≤ c ∧ c ≤ '~' then string
  else device

/-- Where the parameters of a device string go on with `c`. -/
def afterDeviceParameters (c : Char) : Mode :=
  if ' ' ≤ c ∧ c ≤ '/' then deviceIntermediate
  else if '<' ≤ c ∧ c ≤ '~' then string
  else deviceParameters

/-- Where a character that is not shown leads. An escape character begins a
sequence and a cancelling one ends it, wherever they stand. -/
def after (mode : Mode) (c : Char) : Mode :=
  if c = '\x1b' then escape
  else if c = '\x18' ∨ c = '\x1a' then ground
  else
    match mode with
    | ground => ground
    | escape => afterEscape c
    | intermediate => if '0' ≤ c ∧ c ≤ '~' then ground else intermediate
    | parameters => if '@' ≤ c ∧ c ≤ '~' then ground else parameters
    | device => afterDevice c
    | deviceParameters => afterDeviceParameters c
    | deviceIntermediate => if '0' ≤ c ∧ c ≤ '~' then string else deviceIntermediate
    | string => if holdsTerminator c then ground else string
    | command => if c = '\x07' then ground else command

end Mode

/-- What is shown of a text that begins in a mode. `showing` tells that white
space is being shown inside a sequence; a character of more than one byte ends
the sequence then. -/
def shown (mode : Mode) (showing : Bool) : List Char → List Char
  | [] => []
  | c :: rest =>
    if showing ∨ mode = .ground then
      if isShown c then c :: shown (if c ≤ '\x7f' then mode else .ground) showing rest
      else shown (mode.after c) false rest
    else if isSpacing c ∧ mode.showsSpacing then c :: shown mode true rest
    else shown (mode.after c) false rest

/-- A text without its control sequences and control characters. -/
def strip (text : String) : String :=
  String.ofList (shown .ground false text.toList)

/-- A text that a terminal shows in bold type. -/
def emphasize (text : String) : String :=
  "\x1b[1m" ++ text ++ "\x1b[0m"

/-- Only characters to show are left. -/
theorem isShown_of_mem_shown {mode : Mode} {showing : Bool} {text : List Char} {c : Char}
    (h : c ∈ shown mode showing text) : isShown c := by
  induction text generalizing mode showing with
  | nil => cases h
  | cons d rest ih =>
    unfold shown at h
    split at h
    · split at h
      case isTrue hd =>
        rcases List.mem_cons.mp h with rfl | h
        · exact hd
        · exact ih h
      case isFalse => exact ih h
    · split at h
      case isTrue hd =>
        rcases List.mem_cons.mp h with rfl | h
        · simp [isShown, hd.1]
        · exact ih h
      case isFalse => exact ih h

/-- A text of characters to show stays as it is. -/
theorem shown_eq_self {text : List Char} (h : ∀ c ∈ text, isShown c) :
    shown .ground false text = text := by
  induction text with
  | nil => rfl
  | cons c rest ih =>
    have hc : isShown c := h c List.mem_cons_self
    have hrest : shown .ground false rest = rest :=
      ih fun d hd => h d (List.mem_cons_of_mem c hd)
    simp [shown, hc, hrest]

/-- Stripping twice is stripping once. -/
@[simp] theorem strip_strip (text : String) : strip (strip text) = strip text := by
  have h : ∀ c ∈ shown .ground false text.toList, isShown c := fun _ => isShown_of_mem_shown
  simp [strip, shown_eq_self h]

end AtsEndpoint.Text.Control
