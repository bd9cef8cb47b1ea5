import KernelImage.Proofs.Layout.Sizes

/-!
# Zeroed memory

Zeroed memory holds the boot stack and the range that is cleared at boot. The rules keep `sbss`
between the two ends of that range, but not next to the boot stack, so that an accepted layout may
leave any part of the range uncleared.
-/

namespace KernelImage.Layout

/-- The bytes behind the boot stack that are not cleared. -/
def unclearedRange (l : Layout) : AddressRange := ⟨l.bootStackTop, l.sbss⟩

def zeroedParts (l : Layout) : List AddressRange :=
  [l.bootStackRange, l.unclearedRange, l.clearedRange]

structure ZeroedMemory (l : Layout) (board : Board) : Prop where
  parts : ∀ a : Address,
    l.zeroedParts.countP (fun r => a ∈ r) = if a ∈ (l.region .bss).range then 1 else 0
  total : (l.zeroedParts.map fun r => r.size.toNat).sum = (l.region .bss).range.size.toNat
  /-- All but a page is stack or cleared exactly when `sbss` lies within a page of the stack. -/
  covered_iff : (l.region .bss).range.size.toNat <
      l.bootStackRange.size.toNat + l.clearedRange.size.toNat + pageSize.toNat ↔
    l.sbss.toNat < l.bootStackTop.toNat + pageSize.toNat
  sbss_iff : ∀ a : Address,
    (l.set .sbss a).check board = .ok () ↔ l.bootStackTop ≤ a ∧ a ≤ l.ebss
  planned : ∀ sizes, plan board sizes = .ok l → l.unclearedRange.size = 0

variable {l : Layout} {board : Board} {sizes : InputSizes}

theorem Seamless.tiled_zeroedParts (h : l.Seamless board) :
    (l.region .bss).range.TiledBy l.zeroedParts := by
  have hbootStack := h.bootStack
  have hsbssWithStack := h.sbssWithStack
  have hbootStackTop := h.bootStackTop
  have hsbss := h.sbss
  have hebss := h.ebss.1
  simp only [AddressRange.TiledBy, zeroedParts, region, bootStackRange, unclearedRange,
    clearedRange, List.map_cons, List.map_nil, Tiles, true_and, and_true]
  omega

theorem Seamless.covered_iff (h : l.Seamless board) :
    (l.region .bss).range.size.toNat <
        l.bootStackRange.size.toNat + l.clearedRange.size.toNat + pageSize.toNat ↔
      l.sbss.toNat < l.bootStackTop.toNat + pageSize.toNat := by
  have hsum := h.tiled_zeroedParts.sum_size
  have huncleared : l.unclearedRange.size.toNat = l.sbss.toNat - l.bootStackTop.toNat :=
    l.unclearedRange.toNat_size
  have hpage : pageSize.toNat = 4096 := by decide
  simp only [zeroedParts, List.map_cons, List.map_nil, List.sum_cons, List.sum_nil] at hsum
  omega

theorem size_unclearedRange_of_plan (h : plan board sizes = .ok l) : l.unclearedRange.size = 0 := by
  rw [← UInt64.toNat_inj, AddressRange.toNat_size, unclearedRange, sbss_eq_of_plan h]
  exact Nat.sub_self _

/-- Nothing in zeroed memory is left uncleared but what lies between the boot stack and `sbss`. -/
theorem zeroedMemory_of_check (h : l.check board = .ok ()) : l.ZeroedMemory board := by
  have hseamless : l.Seamless board := seamless_of_check h
  exact
    { parts := hseamless.tiled_zeroedParts.countP_mem
      total := hseamless.tiled_zeroedParts.sum_size
      covered_iff := hseamless.covered_iff
      sbss_iff := hseamless.check_set_sbss_iff
      planned := fun _ hplan => size_unclearedRange_of_plan hplan }

theorem zeroedMemory_sample : sample.check .qemu = .ok () ∧ sample.ZeroedMemory .qemu :=
  ⟨check_sample, zeroedMemory_of_check check_sample⟩

/-- An image of which nothing is cleared, although it has two pages behind the boot stack. -/
def uncleared : Layout := { sample with sbss := sample.ebss }

theorem check_uncleared :
    uncleared.check .qemu = .ok () ∧ uncleared.clearedRange.size = 0 ∧
      ¬ uncleared.sbss.toNat - uncleared.bootStackTop.toNat < pageSize.toNat ∧
      ¬ (uncleared.region .bss).range.size.toNat - uncleared.bootStackRange.size.toNat -
        uncleared.clearedRange.size.toNat < pageSize.toNat := by
  decide +kernel

end KernelImage.Layout
