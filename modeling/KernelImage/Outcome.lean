import KernelImage.Defect

/-!
# Outcomes

An examination ends with a value or with a reported `Defect`. Where it computes with machine words
or reads bytes that need not be there, it may instead end without an answer; a `Fault` says why.
-/

namespace KernelImage

inductive Fault where
  /-- A sum or difference of machine words leaves their range. -/
  | overflow
  /-- A read reaches past the end of the bytes. -/
  | outOfBounds
  /-- A table does not start on the boundary that its entries need. -/
  | misaligned
  /-- A section index lies in the reserved range. -/
  | reservedIndex
  /-- Bytes that should be text are not valid UTF-8. -/
  | invalidText
  /-- A section has too few bytes, or not a whole number of entries, for its type. -/
  | brokenEntries
  /-- Sections of this type cannot be read in this file class. -/
  | unsupportedType
  /-- Control runs past the last instruction. -/
  | noTransfer
deriving DecidableEq

inductive Failure where
  | defect (d : Defect)
  | fault (f : Fault)
deriving DecidableEq

abbrev Outcome (α : Type) := Except Failure α

/-- Goes on only if the condition holds. -/
def ensure {ε : Type} (condition : Prop) [Decidable condition] (failure : ε) : Except ε Unit :=
  if condition then .ok () else .error failure

namespace Outcome

def defect {α : Type} (d : Defect) : Outcome α := .error (.defect d)

def fault {α : Type} (f : Fault) : Outcome α := .error (.fault f)

/-- The value, or the fault that its absence means. -/
def orFault {α : Type} (f : Fault) : Option α → Outcome α
  | some a => .ok a
  | none => fault f

/-- A result in which only defects are possible. -/
def ofResult {α : Type} : Except Defect α → Outcome α
  | .ok a => .ok a
  | .error d => defect d

end Outcome

end KernelImage
