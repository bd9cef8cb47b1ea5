import KernelImage.Command.Run
import KernelImage.Proofs.Audit.Faults
import KernelImage.Proofs.Audit.Report

/-!
# Runs that a fault ends

The report on an accepted image never faults, so a run that checks an image faults exactly when the
bytes of the image are faulty.
-/

namespace KernelImage

namespace Command

theorem faults_checkImage_iff {path : String} {board : Board} {bytes : ByteArray} :
    (checkImage path board bytes).Faults ↔ FaultyBytes bytes := by
  rw [checkImage, Outcome.faults_bind_iff, Audit.faults_ofImage_iff, or_iff_left_iff_imp]
  rintro ⟨a, ha, hfault⟩
  rw [Audit.report_eq_ok ha] at hfault
  exact absurd hfault (Outcome.not_faults_ok _)

theorem exitCode_run_eq_101_iff {options : Options} {read : String → Except ReadError ByteArray} :
    (run options read).exitCode = 101 ↔
      options.print = none ∧ (options.elf = none ∨
        ∃ path bytes, options.elf = some path ∧ read path = .ok bytes ∧ FaultyBytes bytes) := by
  unfold run
  rcases options.print with _ | printable
  · rcases options.elf with _ | path
    · simp [Finish.fault]
    · rcases hread : read path with e | bytes
      · simp [Finish.failure, hread]
      have hcheck : (∃ p b, some path = some p ∧ read p = .ok b ∧ FaultyBytes b) ↔
          (checkImage path options.board bytes).Faults := by
        simp only [faults_checkImage_iff, Option.some.injEq, exists_and_left, exists_eq_left', hread,
          Except.ok.injEq]
      simp only [hread, hcheck, reduceCtorEq, false_or, true_and]
      rcases checkImage path options.board bytes with (d | f) | text
      · simp [Finish.failure, Outcome.Faults]
      · simp [Finish.fault, Outcome.Faults]
      · simp [Finish.success, Outcome.Faults]
  · simp [Finish.success]

/-- An audit gives no answer, and a run that checks an image faults, on faulty bytes and no others. -/
theorem faults_iff_faultyBytes (bytes : ByteArray) (board : Board) (options : Options)
    (read : String → Except ReadError ByteArray) :
    ((Audit.ofImage bytes board).Faults ↔ FaultyBytes bytes) ∧
      ((run options read).exitCode = 101 ↔
        options.print = none ∧ (options.elf = none ∨ ∃ path image,
          options.elf = some path ∧ read path = .ok image ∧ FaultyBytes image)) :=
  ⟨Audit.faults_ofImage_iff, exitCode_run_eq_101_iff⟩

/-- The header of an image whose section header table starts at offset 1. -/
def shiftedTable : ByteArray :=
  ⟨#[0x7f, 0x45, 0x4c, 0x46, 2, 1, 1, 0, 0, 0, 0, 0, 0, 0, 0, 0,
    2, 0, 0xf3, 0, 1, 0, 0, 0, 0, 0, 0x20, 0x80, 0, 0, 0, 0,
    0, 0, 0, 0, 0, 0, 0, 0, 1, 0, 0, 0, 0, 0, 0, 0,
    5, 0, 0, 0, 64, 0, 56, 0, 0, 0, 64, 0, 1, 0, 0, 0, 0]⟩

theorem ofImage_shiftedTable :
    Audit.ofImage shiftedTable .qemu = .error (.fault .misaligned) ∧
      (run ⟨.qemu, some "os", none⟩ fun _ => .ok shiftedTable).exitCode = 101 := by
  decide +kernel

end Command

end KernelImage
