import KernelImage.Board
import KernelImage.Outcome

/-!
# The command line

`Options.parse` reads the arguments in two passes. The scan goes from left to right and splits them
into occurrences of options; help, version and anything unknown end it at once. The occurrences are
then judged together.

A value follows its option as the next argument, after `=`, or directly after a short option's
letter. In the option's own argument every `=` before the value is dropped. An argument that starts
with a dash is no value, except a dash alone.
-/

namespace KernelImage.Command

/-- The reasons why a command line gives no options to work with. -/
inductive UsageError where
  | helpDisplayed
  | versionDisplayed
  | unknownArgument
  | emptyValue
  | invalidValue
  | unexpectedMultipleUsage
  | missingRequiredArgument
deriving DecidableEq

/-- Asking for help or for the version is not a failure. -/
def UsageError.exitCode : UsageError → Nat
  | helpDisplayed => 0
  | versionDisplayed => 0
  | _ => 1

/-- An option that takes a value. -/
inductive Key where
  | elf
  | board
  | print
deriving DecidableEq

def Key.all : List Key := [.elf, .board, .print]

/-- A file that the program can write instead of checking an image. -/
inductive Printable where
  | script
  | entry
deriving DecidableEq

def Printable.name : Printable → String
  | script => "script"
  | entry => "entry"

def Printable.ofName? (s : String) : Option Printable :=
  [script, entry].find? fun p => p.name = s

structure Options where
  board : Board
  /-- The path of the image to check. -/
  elf : Option String
  print : Option Printable
deriving DecidableEq

/-! ## Arguments -/

/-- What one argument is when no option waits for a value. -/
inductive Argument where
  /-- Two dashes alone: only plain arguments follow. -/
  | endOfOptions
  | help
  | version
  | option (key : Key) (value : Option String)
  | unknown
deriving DecidableEq

def longArgument (name : String) (value : Option String) : Argument :=
  match name with
  | "elf" => .option .elf value
  | "board" => .option .board value
  | "print" => .option .print value
  | "help" => .help
  | "version" => .version
  | _ => .unknown

/-- A value written in the same argument as its option, without any leading `=`. -/
def attachedValue (text : List Char) : String := String.ofList (text.dropWhile (· = '='))

/-- What follows a letter is a value, also if that is nothing but `=`. -/
def valueAfterLetter (rest : List Char) : Option String :=
  if rest.isEmpty then none else some (attachedValue rest)

def shortArgument (letter : Char) (rest : List Char) : Argument :=
  match letter with
  | 'e' => .option .elf (valueAfterLetter rest)
  | 'b' => .option .board (valueAfterLetter rest)
  | 'p' => .option .print (valueAfterLetter rest)
  | 'h' => .help
  | 'V' => .version
  | _ => .unknown

/-- The text before the first `=`, and the value after it if there is one. -/
def splitAtEquals (text : List Char) : String × Option String :=
  (String.ofList (text.takeWhile (· ≠ '=')),
    (text.dropWhile (· ≠ '=')).tail?.map attachedValue)

/-- Any number of dashes from two on makes an option a long one. -/
def Argument.ofChars : List Char → Argument
  | ['-', '-'] => .endOfOptions
  | '-' :: '-' :: rest =>
    let (name, value) := splitAtEquals (rest.dropWhile (· = '-'))
    longArgument name value
  | '-' :: letter :: rest => shortArgument letter rest
  | _ => .unknown

/-- The argument can be the value of the option before it. -/
def IsValue (arg : String) : Prop := arg = "-" ∨ arg.toList.head? ≠ some '-'

instance (arg : String) : Decidable (IsValue arg) :=
  inferInstanceAs (Decidable (arg = "-" ∨ arg.toList.head? ≠ some '-'))

/-! ## Scan -/

structure Occurrence where
  key : Key
  value : Option String
deriving DecidableEq

/-- The occurrences of options, in order. -/
def scan : List String → Except UsageError (List Occurrence)
  | [] => .ok []
  | arg :: rest =>
    match Argument.ofChars arg.toList with
    | .help => .error .helpDisplayed
    | .version => .error .versionDisplayed
    | .unknown => .error .unknownArgument
    | .endOfOptions => if rest.isEmpty then .ok [] else .error .unknownArgument
    | .option key (some value) => (⟨key, some value⟩ :: ·) <$> scan rest
    | .option key none =>
      match rest with
      | [] => .ok [⟨key, none⟩]
      | next :: others =>
        if IsValue next then (⟨key, some next⟩ :: ·) <$> scan others
        else (⟨key, none⟩ :: ·) <$> scan (next :: others)

/-! ## Judgement -/

def occurrencesOf (key : Key) (found : List Occurrence) : List Occurrence :=
  found.filter fun o => o.key = key

def valuesOf (key : Key) (found : List Occurrence) : List String :=
  (occurrencesOf key found).filterMap Occurrence.value

/-- The values of an option as far as it was used, with the board's value when none was given. -/
def effectiveValues (key : Key) (found : List Occurrence) : List String :=
  match key, valuesOf key found with
  | .board, [] => [Board.qemu.name]
  | _, values => values

def Key.accepts : Key → String → Bool
  | elf, _ => true
  | board, value => (Board.ofName? value).isSome
  | print, value => (Printable.ofName? value).isSome

/-- An image to check is needed unless something is to be printed. -/
def checkRequired (found : List Occurrence) : Except UsageError Unit :=
  ensure (∃ o ∈ found, o.key = .elf ∨ o.key = .print) .missingRequiredArgument

def checkNonempty (key : Key) (found : List Occurrence) : Except UsageError Unit :=
  ensure (effectiveValues key found ≠ []) .emptyValue

/-- The last option must not still be waiting for its only value. -/
def checkLast (found : List Occurrence) : Except UsageError Unit :=
  match found.getLast? with
  | some ⟨key, none⟩ => checkNonempty key found
  | _ => .ok ()

/-- The rules for one option: a value where it was used, only accepted values, and a single use. -/
def checkKey (found : List Occurrence) (key : Key) : Except UsageError Unit := do
  if occurrencesOf key found ≠ [] then checkNonempty key found
  ensure (∀ v ∈ effectiveValues key found, key.accepts v) .invalidValue
  ensure ((occurrencesOf key found).length ≤ 1) .unexpectedMultipleUsage

def Options.ofOccurrences (found : List Occurrence) : Options where
  board := ((effectiveValues .board found).head?.bind Board.ofName?).getD .qemu
  elf := (effectiveValues .elf found).head?
  print := (effectiveValues .print found).head?.bind Printable.ofName?

/-- The options that the arguments give, without the name of the program. -/
def Options.parse (args : List String) : Except UsageError Options := do
  let found ← scan args
  checkRequired found
  checkLast found
  Key.all.forM (checkKey found)
  return .ofOccurrences found

end KernelImage.Command
