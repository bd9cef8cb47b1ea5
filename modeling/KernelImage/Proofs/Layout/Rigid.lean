import KernelImage.Proofs.Layout.Defects

/-!
# Moving one boundary of an accepted layout

The rules tie most boundaries to the board or to another boundary, so that none of them can be moved
alone. Three are only kept in order: the two ends of the trampoline, which may be moved by whole pages,
and `sbss`.
-/

namespace KernelImage.Layout

structure Rigid (l : Layout) (board : Board) : Prop where
  tied : ∀ (s : Symbol) (a : Address), s ≠ .strampoline → s ≠ .etrampoline → s ≠ .sbss →
    a ≠ l.get s → ∃ d, (l.set s a).check board = .error (.defect d)
  strampoline : ∀ a : Address, (l.set .strampoline a).check board = .ok () ↔
    l.stext ≤ a ∧ a ≤ l.etrampoline ∧ 4096 ∣ a.toNat
  etrampoline : ∀ a : Address, (l.set .etrampoline a).check board = .ok () ↔
    l.strampoline ≤ a ∧ a ≤ l.etext ∧ 4096 ∣ a.toNat
  sbss : ∀ a : Address, (l.set .sbss a).check board = .ok () ↔ l.bootStackTop ≤ a ∧ a ≤ l.ebss

variable {l : Layout} {board : Board} {s : Symbol} {a : Address}

namespace Seamless

/-- The place of a tied boundary can be read off the board or another boundary, which has not moved. -/
theorem eq_get_of_set (h : l.Seamless board) (hstrampoline : s ≠ .strampoline)
    (hetrampoline : s ≠ .etrampoline) (hsbss : s ≠ .sbss) (hset : (l.set s a).Seamless board) :
    a = l.get s := by
  rw [← Address.toNat_inj]
  cases s with
  | skernel => exact hset.skernel.trans h.skernel.symm
  | stext => exact hset.stext.trans h.stext.symm
  | strampoline => exact absurd rfl hstrampoline
  | etrampoline => exact absurd rfl hetrampoline
  | etext => exact hset.srodata.symm.trans h.srodata
  | srodata => exact hset.srodata.trans h.srodata.symm
  | erodata => exact hset.sdata.symm.trans h.sdata
  | sdata => exact hset.sdata.trans h.sdata.symm
  | edata => exact hset.sbssWithStack.symm.trans h.sbssWithStack
  | sbssWithStack => exact hset.sbssWithStack.trans h.sbssWithStack.symm
  | bootStack => exact hset.bootStack.trans h.bootStack.symm
  | bootStackTop => exact hset.bootStackTop.trans h.bootStackTop.symm
  | sbss => exact absurd rfl hsbss
  | ebss => exact hset.ekernel.symm.trans h.ekernel
  | ekernel => exact hset.ekernel.trans h.ekernel.symm

end Seamless

theorem exists_defect_of_not_seamless (h : ¬ l.Seamless board) :
    ∃ d, l.check board = .error (.defect d) := by
  rcases hcheck : l.check board with e | u
  · obtain ⟨d, rfl, -⟩ := exists_firstDefect_of_check hcheck
    exact ⟨d, rfl⟩
  · exact absurd (seamless_of_check hcheck) h

/-- A boundary that is moved alone is noticed, but for three of them and these only within limits. -/
theorem rigid_of_check (h : l.check board = .ok ()) : l.Rigid board := by
  have hseamless : l.Seamless board := seamless_of_check h
  refine
    { tied := ?_
      strampoline := hseamless.check_set_strampoline_iff
      etrampoline := hseamless.check_set_etrampoline_iff
      sbss := hseamless.check_set_sbss_iff }
  intro s a hstrampoline hetrampoline hsbss hmoved
  apply exists_defect_of_not_seamless
  intro hset
  exact hmoved (hseamless.eq_get_of_set hstrampoline hetrampoline hsbss hset)

theorem rigid_sample : sample.check .qemu = .ok () ∧ sample.Rigid .qemu :=
  ⟨check_sample, rigid_of_check check_sample⟩

end KernelImage.Layout
