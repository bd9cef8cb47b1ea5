import KernelImage.Memory.Range
import KernelImage.Proofs.Memory.Page
import Mathlib.Data.List.Chain

/-!
# Ranges of whole pages, and ranges that follow one another

A range between page boundaries has exactly the bytes of its pages. `Tiles` says of a list of
intervals that it leads from one number to another without a gap; addresses, pages and lengths of
consecutive ranges are counted with it. `AddressRange.TiledBy` says it of address ranges.
-/

namespace KernelImage

namespace AddressRange

theorem mem_iff {a : Address} {r : AddressRange} :
    a ∈ r ↔ r.start.toNat ≤ a.toNat ∧ a.toNat < r.stop.toNat :=
  and_congr Address.le_iff_toNat_le Address.lt_iff_toNat_lt

theorem toNat_size (r : AddressRange) : r.size.toNat = r.stop.toNat - r.start.toNat := by
  unfold size
  rcases hdistance : r.start.distance? r.stop with _ | n
  · rw [Address.distance?_eq_none_iff] at hdistance
    simp only [Option.getD_none, UInt64.toNat_zero]
    omega
  · rw [Address.distance?_eq_some_iff] at hdistance
    simp only [Option.getD_some]
    omega

/-- The ends are in order, and none of the addresses lies outside the other range. -/
def Within (r outer : AddressRange) : Prop :=
  outer.start ≤ r.start ∧ r.start ≤ r.stop ∧ r.stop ≤ outer.stop

theorem Within.mem {r outer : AddressRange} (h : r.Within outer) {a : Address} (ha : a ∈ r) :
    a ∈ outer := by
  simp only [Within, Address.le_iff_toNat_le] at h
  rw [mem_iff] at ha ⊢
  omega

/-! ## Whole pages -/

theorem pages_ordered {r : AddressRange} (h : r.start ≤ r.stop) :
    r.pages.1.val ≤ r.pages.2.val := by
  rw [Address.le_iff_toNat_le] at h
  rw [UInt64.le_iff_toNat_le, pages, Address.toNat_floor, Address.toNat_ceil]
  omega

theorem pageCount?_eq_some {r : AddressRange} (h : r.start ≤ r.stop) :
    r.pageCount? = some (r.pages.2.val - r.pages.1.val) :=
  if_pos (pages_ordered h)

theorem PageAligned.toNat_pages {r : AddressRange} (h : r.PageAligned) :
    r.pages.1.val.toNat = r.start.toNat / 4096 ∧ r.pages.2.val.toNat = r.stop.toNat / 4096 := by
  have hstop := Address.pageAligned_iff.mp h.2
  refine ⟨r.start.toNat_floor, ?_⟩
  rw [pages, Address.toNat_ceil]
  omega

theorem PageAligned.start_add_roundUp_size {r : AddressRange} (h : r.PageAligned)
    (hle : r.start.toNat ≤ r.stop.toNat) :
    r.start.toNat + roundUp r.size.toNat = r.stop.toNat := by
  have hstart := Address.pageAligned_iff.mp h.1
  have hstop := Address.pageAligned_iff.mp h.2
  rw [toNat_size, ← roundUp_add hstart, Nat.add_sub_of_le hle, roundUp_of_mod_eq_zero hstop]

/-- The range consists of `n` pages. -/
def FillsPages (r : AddressRange) (n : UInt64) : Prop :=
  r.PageAligned ∧ r.pageCount? = some n ∧ n.toNat * 4096 = r.size.toNat

theorem exists_fillsPages {r : AddressRange} (hle : r.start ≤ r.stop) (h : r.PageAligned) :
    ∃ n, r.FillsPages n := by
  refine ⟨_, h, pageCount?_eq_some hle, ?_⟩
  obtain ⟨hfirst, hlast⟩ := h.toNat_pages
  have hstart := Address.pageAligned_iff.mp h.1
  have hstop := Address.pageAligned_iff.mp h.2
  rw [UInt64.toNat_sub_of_le _ _ (pages_ordered hle), hfirst, hlast, toNat_size]
  omega

/-- The page is one of the pages that cover the range. -/
def CoversPage (r : AddressRange) (p : PageNumber) : Prop :=
  r.pages.1.val ≤ p.val ∧ p.val < r.pages.2.val

instance (r : AddressRange) (p : PageNumber) : Decidable (r.CoversPage p) :=
  inferInstanceAs (Decidable (_ ∧ _))

theorem coversPage_iff {r : AddressRange} {p : PageNumber} :
    r.CoversPage p ↔ r.pages.1.val.toNat ≤ p.val.toNat ∧ p.val.toNat < r.pages.2.val.toNat :=
  and_congr UInt64.le_iff_toNat_le UInt64.lt_iff_toNat_lt

end AddressRange

/-! ## Intervals that follow one another -/

/-- Each interval starts where the one before it ends. -/
def Tiles : Nat → List (Nat × Nat) → Nat → Prop
  | first, [], last => first = last
  | first, i :: rest, last => i.1 = first ∧ i.1 ≤ i.2 ∧ Tiles i.2 rest last

namespace Tiles

variable {first last : Nat} {l : List (Nat × Nat)}

theorem le (h : Tiles first l last) : first ≤ last := by
  induction l generalizing first with
  | nil => exact Nat.le_of_eq h
  | cons i rest ih =>
    obtain ⟨rfl, hle, hrest⟩ := h
    exact Nat.le_trans hle (ih hrest)

theorem ordered (h : Tiles first l last) : ∀ i ∈ l, i.1 ≤ i.2 := by
  induction l generalizing first with
  | nil =>
    intro i hi
    cases hi
  | cons i rest ih =>
    obtain ⟨-, hle, hrest⟩ := h
    exact List.forall_mem_cons.mpr ⟨hle, ih hrest⟩

/-- Each number between the ends is in one interval, and no other number is in any. -/
theorem countP_mem (h : Tiles first l last) (n : Nat) :
    l.countP (fun i => i.1 ≤ n ∧ n < i.2) = if first ≤ n ∧ n < last then 1 else 0 := by
  induction l generalizing first with
  | nil =>
    obtain rfl : first = last := h
    rw [List.countP_nil, if_neg (by omega)]
  | cons i rest ih =>
    obtain ⟨rfl, hle, hrest⟩ := h
    have hlast := hrest.le
    rw [List.countP_cons, ih hrest]
    simp only [decide_eq_true_eq]
    split_ifs <;> omega

theorem sum_length (h : Tiles first l last) : (l.map fun i => i.2 - i.1).sum = last - first := by
  induction l generalizing first with
  | nil =>
    obtain rfl : first = last := h
    simp
  | cons i rest ih =>
    obtain ⟨rfl, hle, hrest⟩ := h
    have hlast := hrest.le
    rw [List.map_cons, List.sum_cons, ih hrest]
    omega

theorem isChain (h : Tiles first l last) : l.IsChain fun i j => i.2 = j.1 := by
  induction l generalizing first with
  | nil => exact .nil
  | cons i rest ih =>
    obtain ⟨-, -, hrest⟩ := h
    cases rest with
    | nil => exact .singleton i
    | cons j rest =>
      refine .cons_cons ?_ (ih hrest)
      exact hrest.1.symm

theorem map_div (h : Tiles first l last) (d : Nat) :
    Tiles (first / d) (l.map fun i => (i.1 / d, i.2 / d)) (last / d) := by
  induction l generalizing first with
  | nil => exact congrArg (· / d) h
  | cons i rest ih =>
    obtain ⟨rfl, hle, hrest⟩ := h
    exact ⟨rfl, Nat.div_le_div_right hle, ih hrest⟩

end Tiles

namespace AddressRange

/-- The parts follow one another through the whole range. -/
def TiledBy (r : AddressRange) (parts : List AddressRange) : Prop :=
  Tiles r.start.toNat (parts.map fun p => (p.start.toNat, p.stop.toNat)) r.stop.toNat

namespace TiledBy

variable {r : AddressRange} {parts : List AddressRange}

theorem ordered (h : r.TiledBy parts) : ∀ p ∈ parts, p.start ≤ p.stop :=
  fun _ hp => Address.le_iff_toNat_le.mpr (Tiles.ordered h _ (List.mem_map_of_mem hp))

theorem countP_mem (h : r.TiledBy parts) (a : Address) :
    parts.countP (fun p => a ∈ p) = if a ∈ r then 1 else 0 := by
  have hcount := Tiles.countP_mem h a.toNat
  rw [List.countP_map] at hcount
  simp only [mem_iff]
  exact hcount

theorem sum_size (h : r.TiledBy parts) :
    (parts.map fun p => p.size.toNat).sum = r.size.toNat := by
  have hsum := Tiles.sum_length h
  rw [List.map_map] at hsum
  simp only [toNat_size]
  exact hsum

end TiledBy

end AddressRange

end KernelImage
