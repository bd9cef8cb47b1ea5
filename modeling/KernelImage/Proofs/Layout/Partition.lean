import KernelImage.Layout.Region
import KernelImage.Proofs.Layout.Seamless
import KernelImage.Proofs.Memory.Range

/-!
# The regions of an accepted layout

The regions of an accepted layout tile the image, from `skernel` to `ekernel`. Their ends are page
boundaries, so that they tile its pages as well, and each page is mapped with the rights of one
region.
-/

namespace KernelImage

theorem OutputSection.not_writable_and_executable (o : OutputSection) :
    ¬ (o.access.write ∧ o.access.execute) := by
  cases o <;> decide

/-- The rights of all regions that a page is part of. -/
def Layout.pageAccess (l : Layout) (p : PageNumber) : Access :=
  ((l.regions.filter fun r => r.range.CoversPage p).map Region.access).foldl Access.union .empty

namespace Layout

structure Partitioned (l : Layout) : Prop where
  address : ∀ a : Address,
    l.regions.countP (fun r => a ∈ r.range) = if l.skernel ≤ a ∧ a < l.ekernel then 1 else 0
  consecutive : l.regions.IsChain fun r s => r.range.pages.2 = s.range.pages.1
  page : ∀ p : PageNumber, l.regions.countP (fun r => r.range.CoversPage p) =
    if l.skernel.floor.val ≤ p.val ∧ p.val < l.ekernel.floor.val then 1 else 0
  access : ∀ p : PageNumber, ¬ ((l.pageAccess p).write ∧ (l.pageAccess p).execute)
  wholePages : ∀ r ∈ l.regions, ∃ n, r.range.FillsPages n
  total : (l.regions.map fun r => r.range.size.toNat).sum = l.imageSize.toNat
  trampoline : (∃ n, l.trampoline.FillsPages n) ∧ l.trampoline.Within (l.region .text).range
  bootStack : l.bootStackRange.FillsPages 16 ∧ l.bootStackRange.Within (l.region .bss).range

namespace Seamless

variable {l : Layout} {board : Board}

/-! ## Tilings -/

theorem tiles (h : l.Seamless board) : l.imageRange.TiledBy (l.regions.map Region.range) := by
  obtain ⟨hskernel, hstext, hstrampoline, hetrampoline, hetext, hsrodata, herodata, hsdata, hedata,
    hsbssWithStack, hbootStack, hbootStackTop, hsbss, hebss, hekernel, -⟩ := h
  simp only [AddressRange.TiledBy, imageRange, regions, OutputSection.all, region, List.map_cons,
    List.map_nil, Tiles]
  omega

theorem region_ordered (h : l.Seamless board) {r : Region} (hr : r ∈ l.regions) :
    r.range.start ≤ r.range.stop :=
  h.tiles.ordered _ (List.mem_map_of_mem hr)

theorem region_aligned (h : l.Seamless board) {r : Region} (hr : r ∈ l.regions) :
    r.range.PageAligned := by
  obtain ⟨o, -, rfl⟩ := List.mem_map.mp hr
  cases o with
  | text => exact ⟨h.aligned .stext, h.aligned .etext⟩
  | rodata => exact ⟨h.aligned .srodata, h.aligned .erodata⟩
  | data => exact ⟨h.aligned .sdata, h.aligned .edata⟩
  | bss => exact ⟨h.aligned .sbssWithStack, h.aligned .ebss⟩

theorem tiles_pages (h : l.Seamless board) :
    Tiles l.skernel.floor.val.toNat
      (l.regions.map fun r => (r.range.pages.1.val.toNat, r.range.pages.2.val.toNat))
      l.ekernel.floor.val.toNat := by
  have hpages : (l.regions.map fun r => (r.range.pages.1.val.toNat, r.range.pages.2.val.toNat)) =
      l.regions.map fun r => (r.range.start.toNat / 4096, r.range.stop.toNat / 4096) := by
    apply List.map_congr_left
    intro r hr
    obtain ⟨hfirst, hlast⟩ := (h.region_aligned hr).toNat_pages
    rw [hfirst, hlast]
  have htiles := Tiles.map_div h.tiles 4096
  rw [List.map_map, List.map_map] at htiles
  rw [hpages, Address.toNat_floor, Address.toNat_floor]
  exact htiles

/-! ## Counting -/

theorem countP_mem (h : l.Seamless board) (a : Address) :
    l.regions.countP (fun r => a ∈ r.range) = if l.skernel ≤ a ∧ a < l.ekernel then 1 else 0 := by
  have hcount := h.tiles.countP_mem a
  rw [List.countP_map] at hcount
  exact hcount

theorem countP_coversPage (h : l.Seamless board) (p : PageNumber) :
    l.regions.countP (fun r => r.range.CoversPage p) =
      if l.skernel.floor.val ≤ p.val ∧ p.val < l.ekernel.floor.val then 1 else 0 := by
  have hcount := h.tiles_pages.countP_mem p.val.toNat
  rw [List.countP_map] at hcount
  simp only [AddressRange.coversPage_iff, UInt64.le_iff_toNat_le, UInt64.lt_iff_toNat_lt]
  exact hcount

theorem isChain_pages (h : l.Seamless board) :
    l.regions.IsChain fun r s => r.range.pages.2 = s.range.pages.1 := by
  have hchain := h.tiles_pages.isChain
  rw [List.isChain_map] at hchain
  exact hchain.imp fun r s => PageNumber.toNat_inj.mp

theorem sum_size (h : l.Seamless board) :
    (l.regions.map fun r => r.range.size.toNat).sum = l.imageSize.toNat := by
  have hsum := h.tiles.sum_size
  rw [List.map_map] at hsum
  exact hsum

theorem not_writable_and_executable (h : l.Seamless board) (p : PageNumber) :
    ¬ ((l.pageAccess p).write ∧ (l.pageAccess p).execute) := by
  have hcount := h.countP_coversPage p
  rw [List.countP_eq_length_filter] at hcount
  unfold pageAccess
  generalize l.regions.filter (fun r => r.range.CoversPage p) = covering at hcount ⊢
  match covering with
  | [] => decide
  | [r] => exact r.output.not_writable_and_executable
  | r :: s :: rest =>
    rw [List.length_cons, List.length_cons] at hcount
    split at hcount <;> omega

/-! ## Parts of regions -/

theorem fillsPages_trampoline (h : l.Seamless board) : ∃ n, l.trampoline.FillsPages n :=
  AddressRange.exists_fillsPages (Address.le_iff_toNat_le.mpr h.etrampoline.1)
    ⟨h.aligned .strampoline, h.aligned .etrampoline⟩

theorem trampoline_within (h : l.Seamless board) :
    l.trampoline.Within (l.region .text).range := by
  simp only [AddressRange.Within, Address.le_iff_toNat_le]
  exact ⟨h.strampoline.1, h.etrampoline.1, h.etext.1⟩

theorem fillsPages_bootStack (h : l.Seamless board) : l.bootStackRange.FillsPages 16 := by
  have htop := h.bootStackTop
  have hle : l.bootStackRange.start ≤ l.bootStackRange.stop :=
    Address.le_iff_toNat_le.mpr (htop ▸ Nat.le_add_right _ _)
  obtain ⟨n, haligned, hcount, hsize⟩ := AddressRange.exists_fillsPages hle
    ⟨h.aligned .bootStack, h.aligned .bootStackTop⟩
  have hn : n = 16 := by
    rw [AddressRange.toNat_size] at hsize
    rw [← UInt64.toNat_inj]
    change n.toNat * 4096 = l.bootStackTop.toNat - l.bootStack.toNat at hsize
    change n.toNat = 16
    omega
  rw [hn] at hcount hsize
  exact ⟨haligned, hcount, hsize⟩

theorem bootStackRange_within (h : l.Seamless board) :
    l.bootStackRange.Within (l.region .bss).range := by
  obtain ⟨-, -, -, -, -, -, -, -, -, hsbssWithStack, hbootStack, hbootStackTop, hsbss, hebss, -, -⟩ :=
    h
  simp only [AddressRange.Within, Address.le_iff_toNat_le, bootStackRange, region]
  omega

end Seamless

/-- An accepted layout divides the image by address, by page and by access right. -/
theorem partitioned_of_check {l : Layout} {board : Board} (h : l.check board = .ok ()) :
    l.Partitioned := by
  have hseamless : l.Seamless board := seamless_of_check h
  exact
    { address := hseamless.countP_mem
      consecutive := hseamless.isChain_pages
      page := hseamless.countP_coversPage
      access := hseamless.not_writable_and_executable
      wholePages := fun r hr =>
        AddressRange.exists_fillsPages (hseamless.region_ordered hr) (hseamless.region_aligned hr)
      total := hseamless.sum_size
      trampoline := ⟨hseamless.fillsPages_trampoline, hseamless.trampoline_within⟩
      bootStack := ⟨hseamless.fillsPages_bootStack, hseamless.bootStackRange_within⟩ }

theorem partitioned_sample : sample.check .qemu = .ok () ∧ sample.Partitioned :=
  ⟨check_sample, partitioned_of_check check_sample⟩

end Layout

end KernelImage
