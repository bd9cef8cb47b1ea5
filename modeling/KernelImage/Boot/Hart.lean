import KernelImage.Boot.Program
import KernelImage.Outcome

/-!
# A hart at boot

The registers that the boot program writes, the effect of one instruction, and the run of the
program up to the point where it hands control over.
-/

namespace KernelImage.Boot

structure Hart where
  pc : Address
  sp : Option Address
  ra : Option Address
deriving DecidableEq

/-- A hart about to execute the instruction at `pc`, with nothing known of its other registers. -/
def Hart.start (pc : Address) : Hart := ⟨pc, none, none⟩

/-- The addresses of symbols, as far as they are known. -/
abbrev Resolver := String → Option Address

/--
Executes one instruction. The outcome holds the target when control is transferred. A load stores
the stack pointer before it advances, so the new value stays when the program counter overflows;
a call computes the return address before it stores anything.
-/
def Hart.step (hart : Hart) (resolve : Resolver) : Instr → Hart × Outcome (Option Address)
  | .loadStackPointer symbol =>
    match resolve symbol with
    | none => (hart, .defect (.unresolvedSymbol symbol))
    | some a =>
      match hart.pc.offset? (Instr.loadStackPointer symbol).size with
      | none => ({ hart with sp := some a }, .fault .overflow)
      | some next => ({ hart with sp := some a, pc := next }, .ok none)
  | .call symbol =>
    match resolve symbol with
    | none => (hart, .defect (.unresolvedSymbol symbol))
    | some target =>
      match hart.pc.offset? (Instr.call symbol).size with
      | none => (hart, .fault .overflow)
      | some next => ({ hart with ra := some next, pc := target }, .ok (some target))

/--
The states and outcomes of all instructions in order, also after a defect or a call. Only a fault
ends the list.
-/
def Hart.steps (resolve : Resolver) (hart : Hart) :
    List Instr → List (Hart × Outcome (Option Address))
  | [] => []
  | instr :: rest =>
    match hart.step resolve instr with
    | (after, .error (.fault f)) => [(after, .fault f)]
    | (after, outcome) => (after, outcome) :: after.steps resolve rest

/-- The state in which control is handed over. -/
structure Handover where
  entry : Address
  stackPointer : Option Address
  /-- The return address, which points past the program. -/
  link : Option Address
  target : Address
  /-- The number of instructions not executed. -/
  pending : Nat
deriving DecidableEq

/-- Executes instructions until one of them transfers control. -/
def runFrom (entry : Address) (resolve : Resolver) (hart : Hart) : List Instr → Outcome Handover
  | [] => .fault .noTransfer
  | instr :: rest =>
    match hart.step resolve instr with
    | (_, .error e) => .error e
    | (after, .ok (some target)) => .ok ⟨entry, after.sp, after.ra, target, rest.length⟩
    | (after, .ok none) => runFrom entry resolve after rest

/-- Executes the boot program at `entry`. -/
def run (entry : Address) (resolve : Resolver) : Outcome Handover :=
  runFrom entry resolve (Hart.start entry) program

end KernelImage.Boot
