import KernelImage.Text.Hex

/-!
# Linker scripts

The part of the linker script language that an image layout needs, as syntax trees, and the text
of each construct. Blocks are indented by four spaces a level.
-/

namespace KernelImage.Script

inductive Operator where
  | sub
  | mod
  | eq
  | le
deriving DecidableEq

def Operator.text : Operator → String
  | sub => "-"
  | mod => "%"
  | eq => "=="
  | le => "<="

/-- Operators are written without brackets; every one in use binds tighter on its left. -/
inductive Expr where
  /-- The location counter. -/
  | here
  | name (symbol : String)
  | decimal (n : Nat)
  | hexadecimal (n : Nat)
  /-- The location counter, advanced to a multiple of `n`. -/
  | align (n : Nat)
  | binary (op : Operator) (left right : Expr)
deriving DecidableEq

def Expr.text : Expr → String
  | here => "."
  | name symbol => symbol
  | decimal n => toString n
  | hexadecimal n => hex n
  | align n => "ALIGN(" ++ toString n ++ ")"
  | binary op left right => left.text ++ " " ++ op.text ++ " " ++ right.text

/-- A statement inside an output section, or between output sections. -/
inductive Statement where
  | blank
  /-- Sets the location counter. -/
  | moveTo (value : Expr)
  | define (symbol : String) (value : Expr)
  /-- Places all input sections whose names match one of the patterns. -/
  | place (patterns : List String) (semicolon : Bool)
deriving DecidableEq

def Statement.text : Statement → String
  | blank => ""
  | moveTo value => ". = " ++ value.text ++ ";"
  | define symbol value => symbol ++ " = " ++ value.text ++ ";"
  | place patterns semicolon =>
    "*(" ++ " ".intercalate patterns ++ ")" ++ if semicolon then ";" else ""

/-- A part of the list of sections. -/
inductive Part where
  | statement (s : Statement)
  | output (name : String) (body : List Statement)
deriving DecidableEq

inductive Command where
  | blank
  | outputArch (arch : String)
  | entry (symbol : String)
  | define (symbol : String) (value : Expr)
  | sections (parts : List Part)
  /-- Makes the link fail with a message unless the condition holds. -/
  | require (condition : Expr) (message : String)
deriving DecidableEq

/-! ## Text -/

/-- Indents a line by one level. Blank lines stay empty. -/
def indent (line : String) : String := if line.isEmpty then line else "    " ++ line

def Part.lines : Part → List String
  | statement s => [s.text]
  | output name body => [name ++ " : \x7b"] ++ body.map (fun s => indent s.text) ++ ["\x7d"]

def Command.lines : Command → List String
  | blank => [""]
  | outputArch arch => ["OUTPUT_ARCH(" ++ arch ++ ")"]
  | entry symbol => ["ENTRY(" ++ symbol ++ ")"]
  | define symbol value => [symbol ++ " = " ++ value.text ++ ";"]
  | sections parts =>
    ["SECTIONS", "\x7b"] ++ (parts.flatMap Part.lines).map indent ++ ["\x7d"]
  | require condition message =>
    ["ASSERT(" ++ condition.text ++ ", \"" ++ message ++ "\");"]

def render (commands : List Command) : String :=
  String.join ((commands.flatMap Command.lines).map fun line => line ++ "\n")

end KernelImage.Script
