import KernelImage.Boot.Hart
import KernelImage.Proofs.Memory.Address

/-!
# Runs of the boot program

One lemma for each way in which an instruction ends, and one for what a run makes of it. The run of
the boot program is a chain of these.
-/

namespace KernelImage.Boot

namespace Instr

/-- The symbol that the instruction refers to. -/
def symbol : Instr → String
  | loadStackPointer symbol => symbol
  | call symbol => symbol

end Instr

theorem toNat_programSize : programSize.toNat = 16 := by decide

variable {hart after : Hart} {resolve : Resolver} {entry next sp target link : Address}

/-! ## Instructions -/

namespace Hart

theorem step_of_unresolved {i : Instr} (h : resolve i.symbol = none) :
    hart.step resolve i = (hart, .defect (.unresolvedSymbol i.symbol)) := by
  cases i with
  | loadStackPointer symbol =>
    change resolve symbol = none at h
    simp only [step, h, Instr.symbol]
  | call symbol =>
    change resolve symbol = none at h
    simp only [step, h, Instr.symbol]

theorem step_loadStackPointer {symbol : String} (h : resolve symbol = some sp)
    (hnext : hart.pc.offset? 8 = some next) :
    hart.step resolve (.loadStackPointer symbol) =
      ({ hart with sp := some sp, pc := next }, .ok none) := by
  simp only [step, h, Instr.size, hnext]

theorem step_call {symbol : String} (h : resolve symbol = some target)
    (hlink : hart.pc.offset? 8 = some link) :
    hart.step resolve (.call symbol) =
      ({ hart with ra := some link, pc := target }, .ok (some target)) := by
  simp only [step, h, Instr.size, hlink]

end Hart

/-! ## Runs -/

variable {i : Instr} {rest : List Instr}

theorem runFrom_of_next (h : hart.step resolve i = (after, .ok none)) :
    runFrom entry resolve hart (i :: rest) = runFrom entry resolve after rest := by
  rw [runFrom, h]

theorem runFrom_of_transfer (h : hart.step resolve i = (after, .ok (some target))) :
    runFrom entry resolve hart (i :: rest) =
      .ok ⟨entry, after.sp, after.ra, target, rest.length⟩ := by
  rw [runFrom, h]

theorem runFrom_of_error {e : Failure} (h : hart.step resolve i = (after, .error e)) :
    runFrom entry resolve hart (i :: rest) = .error e := by
  rw [runFrom, h]

theorem run_eq_call (hstack : resolve Symbol.bootStackTop.name = some sp)
    (hnext : entry.offset? 8 = some next) :
    run entry resolve = runFrom entry resolve ⟨next, some sp, none⟩ [.call kernelMain] := by
  have hload : (Hart.start entry).step resolve (.loadStackPointer Symbol.bootStackTop.name) =
      (⟨next, some sp, none⟩, .ok none) := Hart.step_loadStackPointer hstack hnext
  rw [run, program, runFrom_of_next hload]

theorem run_eq_ok (hstack : resolve Symbol.bootStackTop.name = some sp)
    (hmain : resolve kernelMain = some target)
    (hlink : link.toNat = entry.toNat + programSize.toNat) :
    run entry resolve = .ok ⟨entry, some sp, some link, target, 0⟩ := by
  have hsize := toNat_programSize
  have hwidth : (8 : UInt64).toNat = 8 := by decide
  have hbound := link.toNat_lt
  have hfits : entry.toNat + (8 : UInt64).toNat < 2 ^ 64 := by omega
  obtain ⟨next, hnext, hvalue⟩ := Address.exists_offset?_eq_some hfits
  have hreturn : next.offset? 8 = some link := Address.offset?_eq_some_iff.mpr (by omega)
  have hcall : Hart.step ⟨next, some sp, none⟩ resolve (.call kernelMain) =
      (⟨target, some sp, some link⟩, .ok (some target)) := Hart.step_call hmain hreturn
  rw [run_eq_call hstack hnext]
  exact runFrom_of_transfer hcall

theorem run_eq_unresolved (hstack : resolve Symbol.bootStackTop.name = some sp)
    (hmain : resolve kernelMain = none) (hnext : entry.offset? 8 = some next) :
    run entry resolve = .defect (.unresolvedSymbol kernelMain) := by
  have hcall : Hart.step ⟨next, some sp, none⟩ resolve (.call kernelMain) =
      (⟨next, some sp, none⟩, .defect (.unresolvedSymbol kernelMain)) :=
    Hart.step_of_unresolved hmain
  rw [run_eq_call hstack hnext]
  exact runFrom_of_error hcall

end KernelImage.Boot
