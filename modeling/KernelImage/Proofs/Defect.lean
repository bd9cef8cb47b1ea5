import KernelImage.Proofs.Layout.Basic
import KernelImage.Proofs.Memory.Address
import KernelImage.Proofs.Text.Words

/-!
# The text of a defect

A defect is reported in words, some of which are its addresses, lengths and symbols, and a text at the
end. The first two words are different for each kind of defect and so tell how many words there are:
the whole defect can be read off its text.
-/

namespace KernelImage

theorem Address.hex_inj {a b : Address} : a.hex = b.hex ↔ a = b := by
  rw [hex, hex, KernelImage.hex_inj, toNat_inj]

theorem Address.unbroken_hex (a : Address) : Unbroken a.hex := KernelImage.unbroken_hex a.toNat

theorem Symbol.name_inj {s t : Symbol} : s.name = t.name ↔ s = t :=
  ⟨name_injective, congrArg name⟩

theorem Symbol.unbroken_name (s : Symbol) : Unbroken s.name := by cases s <;> decide

namespace Defect

/-- The words of a message up to its last blank, or up to a text that may have blanks itself. -/
def words : Defect → List String
  | baseMismatch _ found =>
    ["image", "starts", "at", found.hex ++ ",", "expected", "base", "address"]
  | entryMismatch _ found => ["entry", "point", found.hex, "is", "not", "the", "image", "start"]
  | unaligned symbol address => [symbol.name, "=", address.hex, "is", "not", "page"]
  | outOfOrder before _ => [before.name, "must", "not", "lie", "above"]
  | gap after before length =>
    [hex length.toNat, "bytes", "between", after.name, "and", before.name, "exceed", "alignment"]
  | stackSize _ found => ["boot", "stack", "is", hex found.toNat, "bytes,", "expected"]
  | exceedsMemory stop _ => ["image", "ends", "at", stop.hex ++ ",", "beyond", "memory", "end"]
  | addressOverflow => ["address", "computation"]
  | missingSymbol symbol => ["boundary", "symbol", symbol.name, "is", "not"]
  | unresolvedSymbol _ => ["unresolved", "symbol"]
  | forbiddenSection _ => ["image", "still", "contains"]
  | malformedElf _ => ["malformed", "elf:"]

def ending : Defect → String
  | baseMismatch expected _ => expected.hex
  | entryMismatch expected _ => expected.hex
  | unaligned _ _ => "aligned"
  | outOfOrder _ after => after.name
  | gap _ _ _ => "padding"
  | stackSize expected _ => hex expected.toNat
  | exceedsMemory _ limit => limit.hex
  | addressOverflow => "overflowed"
  | missingSymbol _ => "defined"
  | unresolvedSymbol name => name
  | forbiddenSection start => start ++ "* sections"
  | malformedElf reason => reason

theorem message_eq (d : Defect) : d.message = spaced d.words d.ending := by
  apply String.toList_injective
  unfold message
  cases d <;> simp [words, ending, spaced]

theorem unbroken_words (d : Defect) : ∀ w ∈ d.words, Unbroken w := by
  have hcomma (a : Address) : Unbroken (a.hex ++ ",") := a.unbroken_hex.append (by decide)
  cases d <;>
    simp only [words, List.forall_mem_cons, List.not_mem_nil, false_implies, implies_true,
      hcomma, unbroken_hex, Address.unbroken_hex, Symbol.unbroken_name, and_true, true_and] <;>
    decide

/-! ## Reading a message -/

variable {d e : Defect}

theorem take_words_eq (h : d.message = e.message) : d.words.take 2 = e.words.take 2 := by
  have hlength (f : Defect) : (f.words.take 2).length = 2 := by cases f <;> rfl
  have hunbroken (f : Defect) : ∀ w ∈ f.words.take 2, Unbroken w :=
    fun w hw => f.unbroken_words w (List.mem_of_mem_take hw)
  have hmessage (f : Defect) :
      f.message = spaced (f.words.take 2) (spaced (f.words.drop 2) f.ending) := by
    rw [← spaced_append, List.take_append_drop, f.message_eq]
  rw [hmessage, hmessage] at h
  exact (spaced_inj ((hlength d).trans (hlength e).symm) (hunbroken d) (hunbroken e) h).1

/-- Defects of different kinds differ in one of their first two words. -/
theorem length_words_eq (h : d.words.take 2 = e.words.take 2) : d.words.length = e.words.length := by
  cases d <;> cases e <;> simp [words] at h ⊢

theorem eq_of_words_eq (hwords : d.words = e.words) (hending : d.ending = e.ending) : d = e := by
  cases d <;> cases e <;>
    simp only [words, ending, List.cons.injEq, String.reduceEq, String.append_left_inj,
      KernelImage.hex_inj, Address.hex_inj, UInt64.toNat_inj, Symbol.name_inj, and_true, true_and,
      and_false, reduceCtorEq] at hwords hending
  all_goals simp [hwords, hending]

theorem message_injective : Function.Injective message := by
  intro d e h
  have hlength : d.words.length = e.words.length := length_words_eq (take_words_eq h)
  rw [message_eq, message_eq] at h
  obtain ⟨hwords, hending⟩ := spaced_inj hlength d.unbroken_words e.unbroken_words h
  exact eq_of_words_eq hwords hending

end Defect

end KernelImage
