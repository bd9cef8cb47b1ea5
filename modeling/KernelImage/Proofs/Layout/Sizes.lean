import KernelImage.Layout.Region
import KernelImage.Proofs.Layout.Plan
import KernelImage.Proofs.Layout.Seamless
import KernelImage.Proofs.Memory.Range

/-!
# The sizes behind a layout

A layout within memory has a plan exactly when a check accepts it and `sbss` follows the boot stack
at once. Sizes for it can then be read off the boundaries: every group fills the room that it has.
-/

namespace KernelImage.Layout

/-- The sizes with which each group ends where the next boundary lies. -/
def fillingSizes (l : Layout) : InputSizes where
  entry := AddressRange.size ⟨l.stext, l.strampoline⟩
  trampoline := l.trampoline.size
  text := AddressRange.size ⟨l.etrampoline, l.etext⟩
  rodata := (l.region .rodata).range.size
  data := (l.region .data).range.size
  bss := l.clearedRange.size

variable {board : Board} {sizes : InputSizes} {l : Layout}

theorem Seamless.exactAddress_step (h : l.Seamless board) {s t : Symbol}
    (hstart : exactAddress board sizes s = (l.get s).toNat)
    (hsize : exactAddress board sizes t =
      exactAddress board sizes s + roundUp (AddressRange.size ⟨l.get s, l.get t⟩).toNat)
    (hle : (l.get s).toNat ≤ (l.get t).toNat) (hs : s.OnPageBoundary := by decide)
    (ht : t.OnPageBoundary := by decide) :
    exactAddress board sizes t = (l.get t).toNat := by
  have haligned : AddressRange.PageAligned ⟨l.get s, l.get t⟩ := ⟨h.aligned s hs, h.aligned t ht⟩
  rw [hsize, hstart]
  exact haligned.start_add_roundUp_size hle

theorem Seamless.exactAddress_fillingSizes (h : l.Seamless board)
    (hsbss : l.sbss = l.bootStackTop) (s : Symbol) :
    exactAddress board l.fillingSizes s = (l.get s).toNat := by
  have hstext : exactAddress board l.fillingSizes .stext = l.stext.toNat := h.stext.symm
  have hstrampoline : exactAddress board l.fillingSizes .strampoline = l.strampoline.toNat :=
    h.exactAddress_step hstext rfl h.strampoline.1
  have hetrampoline : exactAddress board l.fillingSizes .etrampoline = l.etrampoline.toNat :=
    h.exactAddress_step hstrampoline rfl h.etrampoline.1
  have hetext : exactAddress board l.fillingSizes .etext = l.etext.toNat :=
    h.exactAddress_step hetrampoline rfl h.etext.1
  have hsrodata : exactAddress board l.fillingSizes .srodata = l.srodata.toNat :=
    hetext.trans h.srodata.symm
  have herodata : exactAddress board l.fillingSizes .erodata = l.erodata.toNat :=
    h.exactAddress_step hsrodata rfl h.erodata.1
  have hsdata : exactAddress board l.fillingSizes .sdata = l.sdata.toNat :=
    herodata.trans h.sdata.symm
  have hedata : exactAddress board l.fillingSizes .edata = l.edata.toNat :=
    h.exactAddress_step hsdata rfl h.edata.1
  have hbootStackTop : exactAddress board l.fillingSizes .bootStackTop = l.bootStackTop.toNat := by
    change exactAddress board l.fillingSizes .edata + 65536 = _
    rw [hedata, h.bootStackTop, h.bootStack]
  have hebss : exactAddress board l.fillingSizes .ebss = l.ebss.toNat := by
    -- The group starts at `sbss`, which is no page boundary by itself.
    have hbss : l.fillingSizes.bss = AddressRange.size ⟨l.bootStackTop, l.ebss⟩ := by
      rw [← hsbss]
      rfl
    refine h.exactAddress_step hbootStackTop ?_ (Nat.le_trans h.sbss h.ebss.1)
    exact congrArg (fun n : UInt64 => _ + roundUp n.toNat) hbss
  cases s with
  | skernel => exact h.skernel.symm
  | stext => exact hstext
  | strampoline => exact hstrampoline
  | etrampoline => exact hetrampoline
  | etext => exact hetext
  | srodata => exact hsrodata
  | erodata => exact herodata
  | sdata => exact hsdata
  | edata => exact hedata
  | sbssWithStack => exact hedata.trans h.sbssWithStack.symm
  | bootStack => exact hedata.trans h.bootStack.symm
  | bootStackTop => exact hbootStackTop
  | sbss => exact hbootStackTop.trans (congrArg Address.toNat hsbss.symm)
  | ebss => exact hebss
  | ekernel => exact hebss.trans h.ekernel.symm

theorem Seamless.plan_fillingSizes (h : l.Seamless board) (hsbss : l.sbss = l.bootStackTop) :
    plan board l.fillingSizes = .ok l := by
  rw [plan_eq_ok_iff]
  intro s
  rw [planned_eq_exactAddress, h.exactAddress_fillingSizes hsbss]

theorem sbss_eq_of_plan (h : plan board sizes = .ok l) : l.sbss = l.bootStackTop := by
  have hget := plan_eq_ok_iff.mp h
  exact Address.toNat_inj.mp ((hget .sbss).trans (hget .bootStackTop).symm)

theorem check_and_sbss_of_plan (h : plan board sizes = .ok l)
    (hmemory : l.ekernel ≤ board.memoryEnd) :
    l.check board = .ok () ∧ l.sbss = l.bootStackTop := by
  have hobeys : l.Obeys board := (wellPlaced_of_plan h).obeys_iff.mpr hmemory
  exact ⟨check_eq_ok_iff.mpr hobeys, sbss_eq_of_plan h⟩

theorem plan_of_check (h : l.check board = .ok ()) (hsbss : l.sbss = l.bootStackTop) :
    plan board l.fillingSizes = .ok l ∧ l.ekernel ≤ board.memoryEnd := by
  have hseamless : l.Seamless board := seamless_of_check h
  exact ⟨hseamless.plan_fillingSizes hsbss, Address.le_iff_toNat_le.mpr hseamless.memory⟩

/-- Planning reaches the accepted layouts that leave no room behind the boot stack, and no more. -/
theorem exists_plan_iff (board : Board) (l : Layout) :
    ((∃ sizes, plan board sizes = .ok l ∧ l.ekernel ≤ board.memoryEnd) ↔
        l.check board = .ok () ∧ l.sbss = l.bootStackTop) ∧
      (l.check board = .ok () ∧ l.sbss = l.bootStackTop ↔
        plan board l.fillingSizes = .ok l ∧ l.ekernel ≤ board.memoryEnd) := by
  constructor
  · constructor
    · rintro ⟨sizes, hplan, hmemory⟩
      exact check_and_sbss_of_plan hplan hmemory
    · rintro ⟨hcheck, hsbss⟩
      exact ⟨l.fillingSizes, plan_of_check hcheck hsbss⟩
  · constructor
    · rintro ⟨hcheck, hsbss⟩
      exact plan_of_check hcheck hsbss
    · rintro ⟨hplan, hmemory⟩
      exact check_and_sbss_of_plan hplan hmemory

end KernelImage.Layout
