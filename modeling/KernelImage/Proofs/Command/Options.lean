import KernelImage.Command.Options
import KernelImage.Proofs.Outcome

/-!
# Command lines that parse

`Options.parse` gives options for the occurrences that `Judged` describes. Each value among the
options is then the value of the only occurrence of its option.
-/

namespace KernelImage.Command

variable {args : List String} {found : List Occurrence} {options : Options} {key : Key}

/-- The option occurs on the command line, with this value or without one. -/
def Occurs (args : List String) (key : Key) (value : Option String) : Prop :=
  ∃ found, scan args = .ok found ∧ ⟨key, value⟩ ∈ found

theorem occurs_iff (hscan : scan args = .ok found) {value : Option String} :
    Occurs args key value ↔ ⟨key, value⟩ ∈ found := by
  unfold Occurs
  simp only [hscan, Except.ok.injEq, exists_eq_left']

/-- The occurrences obey all rules. -/
structure Judged (found : List Occurrence) : Prop where
  required : ∃ o ∈ found, o.key = .elf ∨ o.key = .print
  valued : ∀ key, occurrencesOf key found ≠ [] → effectiveValues key found ≠ []
  accepted : ∀ key, ∀ v ∈ effectiveValues key found, key.accepts v
  single : ∀ key, (occurrencesOf key found).length ≤ 1

/-! ## The rules -/

theorem mem_occurrencesOf {o : Occurrence} :
    o ∈ occurrencesOf key found ↔ o ∈ found ∧ o.key = key := by
  simp [occurrencesOf]

theorem mem_valuesOf {v : String} : v ∈ valuesOf key found ↔ ⟨key, some v⟩ ∈ found := by
  simp only [valuesOf, List.mem_filterMap, mem_occurrencesOf]
  constructor
  · rintro ⟨⟨k, value⟩, ⟨hmem, rfl⟩, rfl⟩
    exact hmem
  · intro hmem
    exact ⟨_, ⟨hmem, rfl⟩, rfl⟩

theorem checkKey_eq_ok_iff {u : Unit} :
    checkKey found key = .ok u ↔
      (occurrencesOf key found ≠ [] → effectiveValues key found ≠ []) ∧
      (∀ v ∈ effectiveValues key found, key.accepts v) ∧
      (occurrencesOf key found).length ≤ 1 := by
  unfold checkKey
  split
  case isTrue hused =>
    simp only [bind_eq_ok_iff, checkNonempty, ensure_eq_ok_iff, exists_const]
    exact and_congr_left fun _ => ⟨fun h _ => h, fun h => h hused⟩
  case isFalse hunused =>
    simp only [bind_eq_ok_iff, ensure_eq_ok_iff, exists_const]
    exact (and_iff_right fun h => absurd h hunused).symm

theorem Key.mem_all (key : Key) : key ∈ Key.all := by cases key <;> decide

theorem checkLast_eq_ok (h : ∀ key, occurrencesOf key found ≠ [] → effectiveValues key found ≠ []) :
    checkLast found = .ok () := by
  unfold checkLast
  split
  case h_1 key hlast =>
    have hmem := List.mem_of_getLast? hlast
    exact ensure_eq_ok_iff.mpr (h key (List.ne_nil_of_mem (mem_occurrencesOf.mpr ⟨hmem, rfl⟩)))
  case h_2 => rfl

theorem parse_eq_ok_iff :
    Options.parse args = .ok options ↔
      ∃ found, scan args = .ok found ∧ Judged found ∧ options = .ofOccurrences found := by
  simp only [Options.parse, bind_eq_ok_iff, checkRequired, ensure_eq_ok_iff, forM_eq_ok_iff,
    checkKey_eq_ok_iff, Key.mem_all, forall_const, pure_eq_ok_iff, exists_const]
  refine exists_congr fun found => and_congr_right fun _ => ?_
  constructor
  · rintro ⟨hrequired, _, -, hkeys, rfl⟩
    refine ⟨⟨hrequired, ?_, ?_, ?_⟩, rfl⟩
    · exact fun key => (hkeys key).1
    · exact fun key => (hkeys key).2.1
    · exact fun key => (hkeys key).2.2
  · rintro ⟨h, rfl⟩
    refine ⟨h.required, (), checkLast_eq_ok h.valued, fun key => ?_, rfl⟩
    exact ⟨h.valued key, h.accepted key, h.single key⟩

/-! ## The values -/

namespace Judged

variable {v : String} {value : Option String}

theorem occurrencesOf_eq (h : Judged found) {o : Occurrence} (ho : o ∈ found) :
    occurrencesOf o.key found = [o] := by
  have hmem : o ∈ occurrencesOf o.key found := mem_occurrencesOf.mpr ⟨ho, rfl⟩
  have hsingle := h.single o.key
  match hfound : occurrencesOf o.key found with
  | [] => simp [hfound] at hmem
  | [p] =>
    rw [hfound, List.mem_singleton] at hmem
    rw [hmem]
  | _ :: _ :: _ => simp [hfound] at hsingle

theorem valuesOf_eq (h : Judged found) (ho : ⟨key, value⟩ ∈ found) :
    valuesOf key found = value.toList := by
  unfold valuesOf
  rw [h.occurrencesOf_eq ho]
  cases value <;> rfl

theorem effectiveValues_eq (h : Judged found) (hv : ⟨key, some v⟩ ∈ found) :
    effectiveValues key found = [v] := by
  unfold effectiveValues
  rw [h.valuesOf_eq hv]
  cases key <;> rfl

/-- Only the board has a value of its own when none is given. -/
theorem exists_value (h : Judged found) (hkey : key ≠ .board) (ho : ⟨key, value⟩ ∈ found) :
    ∃ v, value = some v := by
  have hused : occurrencesOf key found ≠ [] :=
    List.ne_nil_of_mem (mem_occurrencesOf.mpr ⟨ho, rfl⟩)
  have hvalues : effectiveValues key found = value.toList := by
    rw [← h.valuesOf_eq ho]
    cases key with
    | board => exact absurd rfl hkey
    | elf | print => rfl
  cases value with
  | none => exact absurd hvalues (h.valued key hused)
  | some v => exact ⟨v, rfl⟩

theorem elf_eq (h : Judged found) (hv : ⟨.elf, some v⟩ ∈ found) :
    (Options.ofOccurrences found).elf = some v := by
  simp only [Options.ofOccurrences, h.effectiveValues_eq hv, List.head?_cons]

theorem exists_print_eq (h : Judged found) (hv : ⟨.print, some v⟩ ∈ found) :
    ∃ p : Printable, p.name = v ∧ (Options.ofOccurrences found).print = some p := by
  have hvalues := h.effectiveValues_eq hv
  have haccepted : (Printable.ofName? v).isSome := h.accepted .print v (by simp [hvalues])
  obtain ⟨p, hp⟩ := Option.isSome_iff_exists.mp haccepted
  refine ⟨p, by simpa using List.find?_some hp, ?_⟩
  simp only [Options.ofOccurrences, hvalues, List.head?_cons, Option.bind_some, hp]

theorem name_board_eq (h : Judged found) (hv : ⟨.board, some v⟩ ∈ found) :
    (Options.ofOccurrences found).board.name = v := by
  have hvalues := h.effectiveValues_eq hv
  have haccepted : (Board.ofName? v).isSome := h.accepted .board v (by simp [hvalues])
  obtain ⟨b, hb⟩ := Option.isSome_iff_exists.mp haccepted
  simp only [Options.ofOccurrences, hvalues, List.head?_cons, Option.bind_some, hb,
    Option.getD_some]
  simpa using List.find?_some hb

end Judged

theorem valuesOf_eq_nil (h : ∀ v, ⟨key, some v⟩ ∉ found) : valuesOf key found = [] :=
  List.eq_nil_iff_forall_not_mem.mpr fun v hv => h v (mem_valuesOf.mp hv)

theorem print_eq_none (h : ∀ v, ⟨.print, some v⟩ ∉ found) :
    (Options.ofOccurrences found).print = none := by
  simp [Options.ofOccurrences, effectiveValues, valuesOf_eq_nil h]

theorem board_eq_qemu (h : ∀ v, ⟨.board, some v⟩ ∉ found) :
    (Options.ofOccurrences found).board = .qemu := by
  simp only [Options.ofOccurrences, effectiveValues, valuesOf_eq_nil h]
  rfl

end KernelImage.Command
