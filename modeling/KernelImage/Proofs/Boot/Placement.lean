import KernelImage.Proofs.Boot.Hart
import KernelImage.Proofs.Layout.Sizes

/-!
# The boot program and the trampoline

The boot program lies at the start of the code, the trampoline on pages further up. The rules put
`strampoline` on a page boundary, which may be the start of the code itself: then the trampoline
takes in the boot program. On any other page boundary there is room for it.
-/

namespace KernelImage.Layout

/-- The address holds a byte of the boot program. -/
def HoldsBoot (l : Layout) (a : Address) : Prop :=
  l.stext.toNat ≤ a.toNat ∧ a.toNat < l.stext.toNat + Boot.programSize.toNat

/-- The boot program ends before the trampoline starts. -/
def BootFits (l : Layout) : Prop :=
  l.stext.toNat + Boot.programSize.toNat ≤ l.strampoline.toNat

structure BootPlacement (l : Layout) (board : Board) : Prop where
  fits_iff : l.BootFits ↔ l.strampoline ≠ l.stext
  apart_iff : (∀ a, l.HoldsBoot a → a ∉ l.trampoline) ↔ l.BootFits ∨ l.trampoline.size = 0
  /-- The trampoline takes in all of the boot program or nothing. -/
  within : ¬ l.BootFits → l.trampoline.size ≠ 0 → ∀ a, l.HoldsBoot a → a ∈ l.trampoline
  /-- The rules never keep the trampoline from starting where the code starts. -/
  collapses : (l.set .strampoline l.stext).check board = .ok ()
  planned : ∀ sizes, plan board sizes = .ok l → (l.BootFits ↔ sizes.entry ≠ 0)

variable {l : Layout} {board : Board} {sizes : InputSizes}

namespace Seamless

theorem bootFits_iff (h : l.Seamless board) : l.BootFits ↔ l.strampoline ≠ l.stext := by
  obtain ⟨hle, hdvd⟩ := h.strampoline
  have hstext := h.obeys.dvd .stext
  rw [BootFits, Boot.toNat_programSize, ← not_iff_not, not_not, ← Address.toNat_inj]
  change 4096 ∣ l.stext.toNat at hstext
  omega

theorem mem_trampoline_of_holdsBoot (h : l.Seamless board) (hfits : ¬ l.BootFits)
    (hsize : l.trampoline.size ≠ 0) {a : Address} (ha : l.HoldsBoot a) : a ∈ l.trampoline := by
  have hstart : l.strampoline = l.stext := not_not.mp (mt h.bootFits_iff.mpr hfits)
  have hle := h.etrampoline.1
  have hdvd := h.strampoline.2
  have hdvd' := h.etrampoline.2
  have hpos : l.trampoline.size.toNat ≠ 0 := fun hzero => hsize (UInt64.toNat_inj.mp hzero)
  rw [AddressRange.toNat_size] at hpos
  rw [HoldsBoot, Boot.toNat_programSize, ← hstart] at ha
  rw [AddressRange.mem_iff]
  change l.etrampoline.toNat - l.strampoline.toNat ≠ 0 at hpos
  change l.strampoline.toNat ≤ a.toNat ∧ a.toNat < l.etrampoline.toNat
  omega

theorem apart_iff (h : l.Seamless board) :
    (∀ a, l.HoldsBoot a → a ∉ l.trampoline) ↔ l.BootFits ∨ l.trampoline.size = 0 := by
  constructor
  · intro hapart
    by_contra hnot
    obtain ⟨hfits, hsize⟩ := not_or.mp hnot
    have hfirst : l.HoldsBoot l.stext := by
      rw [HoldsBoot, Boot.toNat_programSize]
      omega
    exact hapart _ hfirst (h.mem_trampoline_of_holdsBoot hfits hsize hfirst)
  · intro hcase a ha hmem
    obtain ⟨hstart, hstop⟩ := AddressRange.mem_iff.mp hmem
    rcases hcase with hfits | hsize
    · unfold BootFits at hfits
      have hend := ha.2
      change l.strampoline.toNat ≤ a.toNat at hstart
      omega
    · have hzero := congrArg UInt64.toNat hsize
      rw [AddressRange.toNat_size, UInt64.toNat_zero] at hzero
      omega

theorem check_set_strampoline_stext (h : l.Seamless board) :
    (l.set .strampoline l.stext).check board = .ok () := by
  rw [check_eq_ok_iff, obeys_iff_seamless, h.seamless_set_strampoline_iff]
  have hle : l.stext.toNat ≤ l.etrampoline.toNat := Nat.le_trans h.strampoline.1 h.etrampoline.1
  exact ⟨Address.le_iff_toNat_le.mpr (Nat.le_refl _), Address.le_iff_toNat_le.mpr hle,
    h.aligned .stext⟩

theorem bootFits_iff_of_plan (h : l.Seamless board) (hplan : plan board sizes = .ok l) :
    l.BootFits ↔ sizes.entry ≠ 0 := by
  have hstrampoline : l.strampoline.toNat = l.stext.toNat + roundUp sizes.entry.toNat := by
    rw [h.stext]
    exact (plan_eq_ok_iff.mp hplan .strampoline).trans (planned_eq_exactAddress .strampoline)
  have hle := le_roundUp sizes.entry.toNat
  have hlt := roundUp_lt sizes.entry.toNat
  have hmod := roundUp_mod sizes.entry.toNat
  rw [BootFits, Boot.toNat_programSize, hstrampoline, ne_eq, ← UInt64.toNat_inj, UInt64.toNat_zero]
  omega

end Seamless

/-- The boot program lies before the trampoline, unless the trampoline starts with the code. -/
theorem bootPlacement_of_check (h : l.check board = .ok ()) : l.BootPlacement board := by
  have hseamless : l.Seamless board := seamless_of_check h
  exact
    { fits_iff := hseamless.bootFits_iff
      apart_iff := hseamless.apart_iff
      within := fun hfits hsize _ ha => hseamless.mem_trampoline_of_holdsBoot hfits hsize ha
      collapses := hseamless.check_set_strampoline_stext
      planned := fun _ hplan => hseamless.bootFits_iff_of_plan hplan }

theorem bootPlacement_sample : sample.check .qemu = .ok () ∧ sample.BootPlacement .qemu :=
  ⟨check_sample, bootPlacement_of_check check_sample⟩

/-- An image whose trampoline starts with the code. -/
def bootInTrampoline : Layout := { sample with strampoline := sample.stext }

theorem check_bootInTrampoline :
    bootInTrampoline.check .qemu = .ok () ∧
      ¬ bootInTrampoline.stext.toNat + Boot.programSize.toNat ≤ bootInTrampoline.strampoline.toNat ∧
      bootInTrampoline.stext ∈ bootInTrampoline.trampoline := by
  decide +kernel

end KernelImage.Layout
