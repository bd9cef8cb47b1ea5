import KernelImage.Proofs.Layout.Check

/-!
# What a check accepts

`Layout.Seamless` says of each boundary where it lies: on which page boundary, and next to which
other boundary. The rules allow a gap of less than a page at a seam, but both sides of a seam are
page boundaries, so that no gap is left.
-/

namespace KernelImage.Layout

structure Seamless (l : Layout) (board : Board) : Prop where
  skernel : l.skernel.toNat = board.base.toNat
  stext : l.stext.toNat = board.base.toNat
  strampoline : l.stext.toNat ≤ l.strampoline.toNat ∧ 4096 ∣ l.strampoline.toNat
  etrampoline : l.strampoline.toNat ≤ l.etrampoline.toNat ∧ 4096 ∣ l.etrampoline.toNat
  etext : l.etrampoline.toNat ≤ l.etext.toNat ∧ 4096 ∣ l.etext.toNat
  srodata : l.srodata.toNat = l.etext.toNat
  erodata : l.srodata.toNat ≤ l.erodata.toNat ∧ 4096 ∣ l.erodata.toNat
  sdata : l.sdata.toNat = l.erodata.toNat
  edata : l.sdata.toNat ≤ l.edata.toNat ∧ 4096 ∣ l.edata.toNat
  sbssWithStack : l.sbssWithStack.toNat = l.edata.toNat
  bootStack : l.bootStack.toNat = l.edata.toNat
  bootStackTop : l.bootStackTop.toNat = l.bootStack.toNat + 65536
  sbss : l.bootStackTop.toNat ≤ l.sbss.toNat
  ebss : l.sbss.toNat ≤ l.ebss.toNat ∧ 4096 ∣ l.ebss.toNat
  ekernel : l.ekernel.toNat = l.ebss.toNat
  memory : l.ekernel.toNat ≤ board.memoryEnd.toNat

variable {l : Layout} {board : Board}

/-! ## From the rules -/

theorem Obeys.le (h : l.Obeys board) (s t : Symbol)
    (hst : (s, t) ∈ Symbol.neighbours := by decide) :
    (l.get s).toNat ≤ (l.get t).toNat :=
  Address.le_iff_toNat_le.mp (h.ordered (s, t) hst)

theorem Obeys.dvd (h : l.Obeys board) (s : Symbol) (hs : s.OnPageBoundary := by decide) :
    4096 ∣ (l.get s).toNat := h.onPages.dvd s hs

theorem Obeys.seam (h : l.Obeys board) (s t : Symbol) (hst : (s, t) ∈ Layout.seams := by decide) :
    (l.get t).toNat = (l.get s).toNat :=
  (congrArg Address.toNat ((h.onPages.lt_iff_joined hst).mp (h.seams (s, t) hst))).symm

theorem Obeys.seamless (h : l.Obeys board) : l.Seamless board where
  skernel := congrArg Address.toNat h.skernel
  stext := congrArg Address.toNat h.stext
  strampoline := ⟨h.le .stext .strampoline, h.dvd .strampoline⟩
  etrampoline := ⟨h.le .strampoline .etrampoline, h.dvd .etrampoline⟩
  etext := ⟨h.le .etrampoline .etext, h.dvd .etext⟩
  srodata := h.seam .etext .srodata
  erodata := ⟨h.le .srodata .erodata, h.dvd .erodata⟩
  sdata := h.seam .erodata .sdata
  edata := ⟨h.le .sdata .edata, h.dvd .edata⟩
  sbssWithStack := h.seam .edata .sbssWithStack
  bootStack := (h.seam .sbssWithStack .bootStack).trans (h.seam .edata .sbssWithStack)
  bootStackTop := by rw [← h.stack, toNat_bootStackSize]
  sbss := h.le .bootStackTop .sbss
  ebss := ⟨h.le .sbss .ebss, h.dvd .ebss⟩
  ekernel := h.seam .ebss .ekernel
  memory := Address.le_iff_toNat_le.mp h.memory

/-! ## Back to the rules -/

theorem Seamless.ordered (h : l.Seamless board) :
    ∀ p ∈ Symbol.neighbours, l.get p.1 ≤ l.get p.2 := by
  obtain ⟨hskernel, hstext, hstrampoline, hetrampoline, hetext, hsrodata, herodata, hsdata, hedata,
    hsbssWithStack, hbootStack, hbootStackTop, hsbss, hebss, hekernel, -⟩ := h
  simp only [Symbol.neighbours, Symbol.all, List.tail_cons, List.zip_cons_cons, List.zip_nil_right,
    List.forall_mem_cons, Address.le_iff_toNat_le, get]
  refine ⟨?_, ?_, ?_, ?_, ?_, ?_, ?_, ?_, ?_, ?_, ?_, ?_, ?_, ?_, by simp⟩ <;> omega

theorem Seamless.aligned (h : l.Seamless board) (s : Symbol)
    (hs : s.OnPageBoundary := by decide) :
    (l.get s).PageAligned := by
  have hbase := base_mod board
  rw [Address.pageAligned_iff]
  cases s with
  | skernel => rw [get, h.skernel, hbase]
  | stext => rw [get, h.stext, hbase]
  | strampoline => exact Nat.mod_eq_zero_of_dvd h.strampoline.2
  | etrampoline => exact Nat.mod_eq_zero_of_dvd h.etrampoline.2
  | etext => exact Nat.mod_eq_zero_of_dvd h.etext.2
  | srodata => rw [get, h.srodata]; exact Nat.mod_eq_zero_of_dvd h.etext.2
  | erodata => exact Nat.mod_eq_zero_of_dvd h.erodata.2
  | sdata => rw [get, h.sdata]; exact Nat.mod_eq_zero_of_dvd h.erodata.2
  | edata => exact Nat.mod_eq_zero_of_dvd h.edata.2
  | sbssWithStack => rw [get, h.sbssWithStack]; exact Nat.mod_eq_zero_of_dvd h.edata.2
  | bootStack => rw [get, h.bootStack]; exact Nat.mod_eq_zero_of_dvd h.edata.2
  | bootStackTop =>
    have hedata := h.edata.2
    rw [get, h.bootStackTop, h.bootStack]
    omega
  | sbss => exact absurd rfl hs
  | ebss => exact Nat.mod_eq_zero_of_dvd h.ebss.2
  | ekernel => rw [get, h.ekernel]; exact Nat.mod_eq_zero_of_dvd h.ebss.2

theorem Seamless.seams (h : l.Seamless board) :
    ∀ p ∈ Layout.seams, (l.get p.2).toNat = (l.get p.1).toNat := by
  simp only [Layout.seams, List.forall_mem_cons, get]
  refine ⟨h.srodata, h.sdata, h.sbssWithStack, ?_, h.ekernel, by simp⟩
  rw [h.bootStack, h.sbssWithStack]

theorem Seamless.obeys (h : l.Seamless board) : l.Obeys board where
  skernel := Address.toNat_inj.mp h.skernel
  stext := Address.toNat_inj.mp h.stext
  ordered := h.ordered
  stackNonempty := by
    intro heq
    have hne := h.bootStackTop
    rw [← heq] at hne
    omega
  aligned := fun s hs => h.aligned s hs
  seams := by
    intro p hp
    rw [h.seams p hp]
    exact Nat.lt_add_of_pos_right (by decide)
  stack := by rw [h.bootStackTop, toNat_bootStackSize]
  memory := Address.le_iff_toNat_le.mpr h.memory

theorem obeys_iff_seamless : l.Obeys board ↔ l.Seamless board :=
  ⟨Obeys.seamless, Seamless.obeys⟩

theorem seamless_of_check (h : l.check board = .ok ()) : l.Seamless board :=
  (check_eq_ok_iff.mp h).seamless

/-- The rules together leave no room between the parts of an image. -/
theorem check_eq_ok_iff_seamless (l : Layout) (board : Board) :
    l.check board = .ok () ↔ l.Seamless board := by
  rw [check_eq_ok_iff, obeys_iff_seamless]

/-! ## Moving a boundary -/

theorem Seamless.seamless_set_sbss_iff (h : l.Seamless board) {a : Address} :
    (l.set .sbss a).Seamless board ↔ l.bootStackTop ≤ a ∧ a ≤ l.ebss := by
  simp only [Address.le_iff_toNat_le]
  constructor
  · intro hset
    exact ⟨hset.sbss, hset.ebss.1⟩
  · rintro ⟨htop, hebss⟩
    exact { h with sbss := htop, ebss := ⟨hebss, h.ebss.2⟩ }

theorem Seamless.seamless_set_strampoline_iff (h : l.Seamless board) {a : Address} :
    (l.set .strampoline a).Seamless board ↔ l.stext ≤ a ∧ a ≤ l.etrampoline ∧ a.PageAligned := by
  simp only [Address.le_iff_toNat_le, Address.pageAligned_iff, ← Nat.dvd_iff_mod_eq_zero]
  constructor
  · intro hset
    exact ⟨hset.strampoline.1, hset.etrampoline.1, hset.strampoline.2⟩
  · rintro ⟨hstext, hetrampoline, haligned⟩
    exact
      { h with
        strampoline := ⟨hstext, haligned⟩
        etrampoline := ⟨hetrampoline, h.etrampoline.2⟩ }

theorem Seamless.seamless_set_etrampoline_iff (h : l.Seamless board) {a : Address} :
    (l.set .etrampoline a).Seamless board ↔ l.strampoline ≤ a ∧ a ≤ l.etext ∧ a.PageAligned := by
  simp only [Address.le_iff_toNat_le, Address.pageAligned_iff, ← Nat.dvd_iff_mod_eq_zero]
  constructor
  · intro hset
    exact ⟨hset.etrampoline.1, hset.etext.1, hset.etrampoline.2⟩
  · rintro ⟨hstrampoline, hetext, haligned⟩
    exact
      { h with
        etrampoline := ⟨hstrampoline, haligned⟩
        etext := ⟨hetext, h.etext.2⟩ }

theorem Seamless.check_set_sbss_iff (h : l.Seamless board) (a : Address) :
    (l.set .sbss a).check board = .ok () ↔ l.bootStackTop ≤ a ∧ a ≤ l.ebss := by
  rw [check_eq_ok_iff, obeys_iff_seamless, h.seamless_set_sbss_iff]

theorem Seamless.check_set_strampoline_iff (h : l.Seamless board) (a : Address) :
    (l.set .strampoline a).check board = .ok () ↔
      l.stext ≤ a ∧ a ≤ l.etrampoline ∧ 4096 ∣ a.toNat := by
  rw [check_eq_ok_iff, obeys_iff_seamless, h.seamless_set_strampoline_iff, Address.pageAligned_iff,
    Nat.dvd_iff_mod_eq_zero]

theorem Seamless.check_set_etrampoline_iff (h : l.Seamless board) (a : Address) :
    (l.set .etrampoline a).check board = .ok () ↔
      l.strampoline ≤ a ∧ a ≤ l.etext ∧ 4096 ∣ a.toNat := by
  rw [check_eq_ok_iff, obeys_iff_seamless, h.seamless_set_etrampoline_iff, Address.pageAligned_iff,
    Nat.dvd_iff_mod_eq_zero]

/--
A layout that no plan has: `sbss` leaves eight bytes free behind the boot stack. The code fills
three pages with one of trampoline, and constants and data one page each.
-/
def sample : Layout where
  skernel := ⟨0x80200000⟩
  stext := ⟨0x80200000⟩
  strampoline := ⟨0x80201000⟩
  etrampoline := ⟨0x80202000⟩
  etext := ⟨0x80203000⟩
  srodata := ⟨0x80203000⟩
  erodata := ⟨0x80204000⟩
  sdata := ⟨0x80204000⟩
  edata := ⟨0x80205000⟩
  sbssWithStack := ⟨0x80205000⟩
  bootStack := ⟨0x80205000⟩
  bootStackTop := ⟨0x80215000⟩
  sbss := ⟨0x80215008⟩
  ebss := ⟨0x80217000⟩
  ekernel := ⟨0x80217000⟩

theorem check_sample : sample.check .qemu = .ok () := by decide +kernel

end KernelImage.Layout
