import KernelImage.Boot.OfLayout
import KernelImage.Proofs.Boot.Hart
import KernelImage.Proofs.Layout.Partition

/-!
# Booting an accepted image

The boot program of an accepted image hands over with an empty boot stack. All of the stack lies in
zeroed memory, but outside the range that the kernel clears while it runs on that stack.
-/

namespace KernelImage.Layout

theorem resolver_name (l : Layout) (kernel : Option Address) (s : Symbol) :
    l.resolver kernel s.name = l.address? s.name := by
  have hne : s.name ≠ Boot.kernelMain := by cases s <;> decide
  rw [resolver, if_neg hne]

structure BootsSafely (l : Layout) (resolve : Boot.Resolver) : Prop where
  handover : ∀ t, resolve Boot.kernelMain = some t →
    ∃ link, link.toNat = l.stext.toNat + Boot.programSize.toNat ∧
      Boot.run l.stext resolve = .ok ⟨l.stext, some l.bootStackTop, some link, t, 0⟩
  unresolved : resolve Boot.kernelMain = none →
    Boot.run l.stext resolve = .defect (.unresolvedSymbol "rust_main")
  stackTop : l.bootStackTop.toNat = l.bootStack.toNat + 65536
  aligned : l.bootStackTop.PageAligned
  stack : ∀ a : Address, l.bootStackTop.toNat ≤ a.toNat + 65536 → a < l.bootStackTop →
    a ∈ (l.region .bss).range ∧ (∀ o, o ≠ .bss → a ∉ (l.region o).range) ∧ a ∉ l.clearedRange

namespace Seamless

variable {l : Layout} {board : Board}

/-! ## The program -/

theorem stext_add_lt (h : l.Seamless board) (n : UInt64) (hn : n.toNat ≤ 4096) :
    l.stext.toNat + n.toNat < 2 ^ 64 := by
  have hmemory : board.memoryEnd.toNat + 4096 < 2 ^ 64 := by cases board <;> decide
  have hbase : board.base.toNat ≤ board.memoryEnd.toNat := by cases board <;> decide
  have hstext := h.stext
  omega

theorem run_eq_ok (h : l.Seamless board) {resolve : Boot.Resolver} {t : Address}
    (hstack : resolve Symbol.bootStackTop.name = some l.bootStackTop)
    (hmain : resolve Boot.kernelMain = some t) :
    ∃ link, link.toNat = l.stext.toNat + Boot.programSize.toNat ∧
      Boot.run l.stext resolve = .ok ⟨l.stext, some l.bootStackTop, some link, t, 0⟩ := by
  have hlt := h.stext_add_lt Boot.programSize (by decide)
  obtain ⟨link, -, hlink⟩ := Address.exists_offset?_eq_some hlt
  exact ⟨link, hlink, Boot.run_eq_ok hstack hmain hlink⟩

theorem run_eq_unresolved (h : l.Seamless board) {resolve : Boot.Resolver}
    (hstack : resolve Symbol.bootStackTop.name = some l.bootStackTop)
    (hmain : resolve Boot.kernelMain = none) :
    Boot.run l.stext resolve = .defect (.unresolvedSymbol "rust_main") := by
  have hlt := h.stext_add_lt 8 (by decide)
  obtain ⟨next, hnext, -⟩ := Address.exists_offset?_eq_some hlt
  exact Boot.run_eq_unresolved hstack hmain hnext

/-! ## The stack -/

theorem mem_bootStackRange (h : l.Seamless board) {a : Address}
    (hbottom : l.bootStackTop.toNat ≤ a.toNat + 65536) (htop : a < l.bootStackTop) :
    a ∈ l.bootStackRange := by
  have hsize := h.bootStackTop
  rw [Address.lt_iff_toNat_lt] at htop
  rw [AddressRange.mem_iff]
  change l.bootStack.toNat ≤ a.toNat ∧ a.toNat < l.bootStackTop.toNat
  omega

theorem not_mem_region_of_bootStack (h : l.Seamless board) {a : Address}
    (ha : a ∈ l.bootStackRange) (o : OutputSection) (ho : o ≠ .bss) :
    a ∉ (l.region o).range := by
  have hstart : l.bootStack.toNat ≤ a.toNat := (AddressRange.mem_iff.mp ha).1
  have hbootStack := h.bootStack
  have hedata := h.edata.1
  have hsdata := h.sdata
  have herodata := h.erodata.1
  have hsrodata := h.srodata
  intro hmem
  obtain ⟨-, hstop⟩ := AddressRange.mem_iff.mp hmem
  cases o with
  | text => change a.toNat < l.etext.toNat at hstop; omega
  | rodata => change a.toNat < l.erodata.toNat at hstop; omega
  | data => change a.toNat < l.edata.toNat at hstop; omega
  | bss => exact ho rfl

theorem not_mem_clearedRange_of_bootStack (h : l.Seamless board) {a : Address}
    (ha : a ∈ l.bootStackRange) : a ∉ l.clearedRange := by
  have hstop : a.toNat < l.bootStackTop.toNat := (AddressRange.mem_iff.mp ha).2
  have hsbss := h.sbss
  intro hmem
  have hstart : l.sbss.toNat ≤ a.toNat := (AddressRange.mem_iff.mp hmem).1
  omega

end Seamless

/-- The kernel is entered on a stack that no other part of the image shares. -/
theorem bootsSafely_of_check {l : Layout} {board : Board} {resolve : Boot.Resolver}
    (hcheck : l.check board = .ok ())
    (hsymbols : ∀ s : Symbol, resolve s.name = l.address? s.name) : l.BootsSafely resolve := by
  have h : l.Seamless board := seamless_of_check hcheck
  have hstack : resolve Symbol.bootStackTop.name = some l.bootStackTop := by
    rw [hsymbols, address?_name]
    rfl
  refine
    { handover := fun t hmain => h.run_eq_ok hstack hmain
      unresolved := h.run_eq_unresolved hstack
      stackTop := h.bootStackTop
      aligned := h.aligned .bootStackTop
      stack := ?_ }
  intro a hbottom htop
  have ha : a ∈ l.bootStackRange := h.mem_bootStackRange hbottom htop
  refine ⟨h.bootStackRange_within.mem ha, ?_, h.not_mem_clearedRange_of_bootStack ha⟩
  exact h.not_mem_region_of_bootStack ha

theorem bootsSafely_sample :
    sample.check .qemu = .ok () ∧
      (∀ s : Symbol, sample.resolver (some ⟨0x80202000⟩) s.name = sample.address? s.name) ∧
      sample.BootsSafely (sample.resolver (some ⟨0x80202000⟩)) :=
  ⟨check_sample, sample.resolver_name _, bootsSafely_of_check check_sample (sample.resolver_name _)⟩

end KernelImage.Layout
