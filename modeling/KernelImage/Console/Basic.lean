import KernelImage.Text.Column

/-!
# The kernel's console

Text and log lines, in the order in which they are written. A logger is installed once, with a
threshold; records below it are dropped.
-/

namespace KernelImage

inductive Level where
  | error
  | warn
  | info
  | debug
  | trace
deriving DecidableEq

namespace Level

def all : List Level := [error, warn, info, debug, trace]

def name : Level → String
  | error => "ERROR"
  | warn => "WARN"
  | info => "INFO"
  | debug => "DEBUG"
  | trace => "TRACE"

def ofName? (s : String) : Option Level := all.find? fun l => l.name = s

/-- The position from the most to the least important level. -/
def rank (l : Level) : Nat := all.idxOf l

/-- The colour of a line, as a terminal numbers it. -/
def color : Level → Nat
  | error => 31
  | warn => 93
  | info => 34
  | debug => 32
  | trace => 90

/-- The threshold that a setting names, by default `info`. -/
def threshold (setting : Option String) : Level := (setting.bind ofName?).getD info

end Level

structure Console where
  /-- The threshold of the logger, once there is one. -/
  threshold : Option Level
  output : String
deriving DecidableEq

namespace Console

/-- A console on which nothing is written yet. -/
def start : Console := ⟨none, ""⟩

def print (c : Console) (text : String) : Console := { c with output := c.output ++ text }

def printLine (c : Console) (text : String) : Console := c.print (text ++ "\n")

/-- Installs the logger. A second one is refused with a line of text. -/
def installLogger (c : Console) (setting : Option String) : Console :=
  match c.threshold with
  | none => { c with threshold := some (Level.threshold setting) }
  | some _ =>
    c.printLine
      "[kernel] attempted to set a logger after the logging system was already initialized"

/-- A record as a coloured line. -/
def logLine (level : Level) (message : String) : String :=
  "\x1b[" ++ toString level.color ++ "m[" ++ alignRight 5 level.name ++ "] " ++ message ++ "\x1b[0m"

def log (c : Console) (level : Level) (message : String) : Console :=
  match c.threshold with
  | none => c
  | some threshold =>
    if level.rank ≤ threshold.rank then c.printLine (logLine level message) else c

end Console

end KernelImage
