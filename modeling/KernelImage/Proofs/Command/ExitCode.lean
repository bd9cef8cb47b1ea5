import KernelImage.Proofs.Audit.Sound
import KernelImage.Proofs.Command.Options
import KernelImage.Proofs.Command.Run
import KernelImage.Proofs.Defect
import KernelImage.Proofs.Script.Text

/-!
# How a run ends

What the program is asked to print does not depend on any file. A run that checks an image ends by
what becomes of the image: it cannot be read, it is rejected, it faults the audit, or it is accepted
and reported on.
-/

namespace KernelImage.Command

/-- The board that the arguments name, or the usual one where they name none. -/
def ChoosesBoard (args : List String) : Board → Prop
  | .qemu => Occurs args .board (some "qemu") ∨ ∀ name, ¬ Occurs args .board (some name)
  | .k210 => Occurs args .board (some "k210")

/-- The run ends well and prints the file that the value names. -/
def Prints (board : Board) (finish : Finish) (value : Option String) : Prop :=
  value = some "script" ∧ finish = ⟨0, board.linkerScript, some ""⟩ ∧
      finish.stdout = board.scriptText ∨
    value = some "entry" ∧ finish = ⟨0, Assembly.render Boot.entryFile, some ""⟩ ∧
      finish.stdout = Boot.entryText

structure ChecksImage (path : String) (board : Board)
    (read : String → Except ReadError ByteArray) (finish : Finish) : Prop where
  accepted : finish.exitCode = 0 ↔
    ∃ bytes a, read path = .ok bytes ∧ Audit.ofImage bytes board = .ok a
  report : ∀ bytes, read path = .ok bytes → ∀ a, Audit.ofImage bytes board = .ok a →
    a.report path = .ok finish.stdout ∧ finish.stdout = a.reportText path
  rejected : finish.exitCode = 1 ↔
    ∃ bytes d, read path = .ok bytes ∧ Audit.ofImage bytes board = .defect d
  unreadable : finish.exitCode = 2 ↔ ∃ e, read path = .error e
  faulted : finish.exitCode = 101 ↔
    ∃ bytes, read path = .ok bytes ∧ (Audit.ofImage bytes board).Faults
  exitCode : finish.exitCode ∈ [0, 1, 2, 101]
  silent : finish.exitCode ≠ 0 → finish.stdout = ""

/-- The run does what the arguments ask for. -/
structure Answers (args : List String) (board : Board)
    (read : String → Except ReadError ByteArray) (finish : Finish) : Prop where
  chosen : ChoosesBoard args board
  printed : ∀ value, Occurs args .print value → Prints board finish value
  checked : (∀ value, ¬ Occurs args .print value) →
    ∃ path, Occurs args .elf (some path) ∧ ChecksImage path board read finish

variable {args : List String} {found : List Occurrence} {path : String} {board : Board}
  {bytes : ByteArray} {read : String → Except ReadError ByteArray}

/-! ## Runs that check an image -/

theorem checkImage_eq_error {e : Failure} (haudit : Audit.ofImage bytes board = .error e) :
    checkImage path board bytes = .error e := by
  rw [checkImage, haudit]
  rfl

theorem run_of_unreadable {e : ReadError} (hread : read path = .error e) :
    run ⟨board, some path, none⟩ read =
      .failure 2 ("cannot read " ++ path ++ ": " ++ e.message) := by
  simp only [run, hread]

theorem run_of_rejected {d : Defect} (hread : read path = .ok bytes)
    (haudit : Audit.ofImage bytes board = .error (.defect d)) :
    run ⟨board, some path, none⟩ read = .failure 1 (path ++ ": " ++ d.message) := by
  simp only [run, hread, checkImage_eq_error haudit]

theorem run_of_faulted {f : Fault} (hread : read path = .ok bytes)
    (haudit : Audit.ofImage bytes board = .error (.fault f)) :
    run ⟨board, some path, none⟩ read = .fault := by
  simp only [run, hread, checkImage_eq_error haudit]

theorem run_of_accepted {a : Audit} (hread : read path = .ok bytes)
    (haudit : Audit.ofImage bytes board = .ok a) :
    run ⟨board, some path, none⟩ read = .success (a.reportText path) := by
  have hcheck : checkImage path board bytes = .ok (a.reportText path) := by
    rw [checkImage, haudit]
    exact Audit.report_eq_ok haudit path
  simp only [run, hread, hcheck]

theorem checksImage_run (path : String) (board : Board)
    (read : String → Except ReadError ByteArray) :
    ChecksImage path board read (run ⟨board, some path, none⟩ read) := by
  -- One case for each exit code: what is known of file and audit rules out the other three.
  rcases hread : read path with e | bytes
  · rw [run_of_unreadable hread]
    constructor <;> simp [Finish.failure, hread]
  rcases haudit : Audit.ofImage bytes board with (d | f) | a
  · rw [run_of_rejected hread haudit]
    constructor <;> simp [Finish.failure, hread, haudit, Outcome.defect, Outcome.Faults]
  · rw [run_of_faulted hread haudit]
    constructor <;> simp [Finish.fault, hread, haudit, Outcome.defect, Outcome.Faults]
  · have hreport := Audit.report_eq_ok haudit path
    rw [run_of_accepted hread haudit]
    constructor <;> simp [Finish.success, hread, haudit, hreport, Outcome.defect, Outcome.Faults]

/-- No two defects are reported alike, neither by themselves nor in the line that a run ends with. -/
theorem rejection_eq_iff (d e : Defect) :
    (d.message = e.message ↔ d = e) ∧
      ∀ path : String, Finish.failure 1 (path ++ ": " ++ d.message) =
        Finish.failure 1 (path ++ ": " ++ e.message) ↔ d = e := by
  have hmessage : d.message = e.message ↔ d = e := Defect.message_injective.eq_iff
  refine ⟨hmessage, fun path => ?_⟩
  rw [Finish.failure, Finish.failure, Finish.mk.injEq, Option.some.injEq, String.append_left_inj,
    String.append_right_inj, hmessage]
  simp

/-! ## Command lines -/

theorem choosesBoard_of_judged (hscan : scan args = .ok found) (h : Judged found) :
    ChoosesBoard args (Options.ofOccurrences found).board := by
  by_cases hnamed : ∃ name, ⟨.board, some name⟩ ∈ found
  · obtain ⟨name, hname⟩ := hnamed
    have hboard := h.name_board_eq hname
    rw [← occurs_iff hscan, ← hboard] at hname
    generalize (Options.ofOccurrences found).board = board at hname
    cases board with
    | qemu => exact .inl hname
    | k210 => exact hname
  · rw [not_exists] at hnamed
    rw [board_eq_qemu hnamed]
    refine .inr fun name => ?_
    rw [occurs_iff hscan]
    exact hnamed name

theorem prints_run (h : Judged found) {value : Option String}
    (hprint : ⟨.print, value⟩ ∈ found) :
    Prints (Options.ofOccurrences found).board (run (.ofOccurrences found) read) value := by
  obtain ⟨v, rfl⟩ := h.exists_value (by decide) hprint
  obtain ⟨p, rfl, hp⟩ := h.exists_print_eq hprint
  have hrun : run (.ofOccurrences found) read =
      .success (p.text (Options.ofOccurrences found).board) := by
    unfold run
    rw [hp]
  rw [hrun]
  cases p with
  | script =>
    refine .inl ⟨rfl, ?_, ?_⟩
    · rw [Finish.success, Printable.text]
    · rw [Finish.success, Printable.text, Board.linkerScript_eq]
  | entry =>
    refine .inr ⟨rfl, ?_, ?_⟩
    · rw [Finish.success, Printable.text]
    · rw [Finish.success, Printable.text, Boot.render_entryFile]

theorem exists_checksImage (h : Judged found) (hprint : ∀ value, ⟨.print, value⟩ ∉ found) :
    ∃ path, ⟨.elf, some path⟩ ∈ found ∧
      ChecksImage path (Options.ofOccurrences found).board read
        (run (.ofOccurrences found) read) := by
  obtain ⟨⟨key, value⟩, hmem, rfl | rfl⟩ := h.required
  · obtain ⟨path, rfl⟩ := h.exists_value (by decide) hmem
    have hoptions : Options.ofOccurrences found =
        ⟨(Options.ofOccurrences found).board, some path, none⟩ := by
      rw [← h.elf_eq hmem, ← print_eq_none fun v => hprint (some v)]
    refine ⟨path, hmem, ?_⟩
    rw [hoptions]
    exact checksImage_run path _ read
  · exact absurd hmem (hprint value)

/-- How a run ends depends on the arguments, the one file that they name, and its audit. -/
theorem answers_of_parse {options : Options} (h : Options.parse args = .ok options)
    (read : String → Except ReadError ByteArray) :
    Answers args options.board read (run options read) := by
  obtain ⟨found, hscan, hjudged, rfl⟩ := parse_eq_ok_iff.mp h
  refine ⟨choosesBoard_of_judged hscan hjudged, ?_, ?_⟩
  · intro value hprint
    exact prints_run hjudged ((occurs_iff hscan).mp hprint)
  · intro hprint
    simp only [occurs_iff hscan] at hprint ⊢
    exact exists_checksImage hjudged hprint

theorem answers_smallImage :
    (Options.parse ["--board=k210", "-e", "os"] = .ok ⟨.k210, some "os", none⟩ ∧
      Answers ["--board=k210", "-e", "os"] .k210
        (FileStore.ofFiles [("os", Audit.smallImage.encode)]).read
        (run ⟨.k210, some "os", none⟩
          (FileStore.ofFiles [("os", Audit.smallImage.encode)]).read)) ∧
    (Options.parse ["-e", "os"] = .ok ⟨.qemu, some "os", none⟩ ∧
      (run ⟨.qemu, some "os", none⟩ fun _ => .ok Audit.smallImage.encode).stdout =
        Audit.smallAudit.reportText "os") ∧
    (Options.parse ["--print", "entry", "-e", "os"] = .ok ⟨.qemu, some "os", some .entry⟩ ∧
      Answers ["--print", "entry", "-e", "os"] .qemu (FileStore.ofFiles []).read
        (run ⟨.qemu, some "os", some .entry⟩ (FileStore.ofFiles []).read)) ∧
    Options.parse ["--print=script"] = .ok ⟨.qemu, none, some .script⟩ ∧
      run ⟨.qemu, none, some .script⟩ (FileStore.ofFiles []).read =
        ⟨0, Board.qemu.linkerScript, some ""⟩ := by
  have hboard : Options.parse ["--board=k210", "-e", "os"] = .ok ⟨.k210, some "os", none⟩ := by
    decide +kernel
  have helf : Options.parse ["-e", "os"] = .ok ⟨.qemu, some "os", none⟩ := by decide +kernel
  have hentry : Options.parse ["--print", "entry", "-e", "os"] =
      .ok ⟨.qemu, some "os", some .entry⟩ := by
    decide +kernel
  have hscript : Options.parse ["--print=script"] = .ok ⟨.qemu, none, some .script⟩ := by
    decide +kernel
  refine ⟨⟨hboard, answers_of_parse hboard _⟩, ⟨helf, ?_⟩, ⟨hentry, answers_of_parse hentry _⟩,
    hscript, ?_⟩
  · have hscan : scan ["-e", "os"] = .ok [⟨.elf, some "os"⟩] := by decide +kernel
    have hprint (value : Option String) : ¬ Occurs ["-e", "os"] .print value := by
      simp [occurs_iff hscan]
    obtain ⟨path, hpath, hchecks⟩ := (answers_of_parse helf _).checked hprint
    obtain rfl : path = "os" := by simpa [occurs_iff hscan] using hpath
    exact (hchecks.report _ rfl _ Audit.ofImage_smallImage).2
  · have hoccurs : Occurs ["--print=script"] .print (some "script") :=
      ⟨[⟨.print, some "script"⟩], by decide +kernel, List.mem_singleton_self _⟩
    rcases (answers_of_parse hscript _).printed _ hoccurs with ⟨-, hfinish, -⟩ | ⟨hvalue, -⟩
    · exact hfinish
    · exact absurd hvalue (by decide)

end KernelImage.Command
