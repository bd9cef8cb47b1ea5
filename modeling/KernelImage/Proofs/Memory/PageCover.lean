import KernelImage.Proofs.Memory.Range

/-!
# The pages that cover a range

The pages of a range that is not empty are just those that hold one of its addresses. They have more
bytes than the range: what lies on the first page before it, and what lies on the last page after it.
-/

namespace KernelImage.AddressRange

/-- The bytes that the covering pages have and the range has not. -/
def slack (r : AddressRange) : Int :=
  ((r.pages.2.val.toNat : Int) - r.pages.1.val.toNat) * 4096 - r.size.toNat

structure PageCover (r : AddressRange) : Prop where
  covers_iff : ∀ p : PageNumber, r.CoversPage p ↔ ∃ a ∈ r, a.floor = p
  ordered : r.pages.1.val ≤ r.pages.2.val
  counted : ∃ n, r.pageCount? = some n ∧ r.pages.1.val.toNat + n.toNat = r.pages.2.val.toNat
  slack_nonneg : 0 ≤ r.slack
  slack_le : r.slack ≤ 8190
  slack_eq_zero_iff : r.slack = 0 ↔ r.PageAligned

variable {r : AddressRange} {p : PageNumber}

/-! ## Pages and addresses -/

theorem coversPage_floor {a : Address} (ha : a ∈ r) : r.CoversPage a.floor := by
  rw [mem_iff] at ha
  rw [coversPage_iff, pages, Address.toNat_floor, Address.toNat_floor, Address.toNat_ceil]
  omega

theorem exists_mem_of_coversPage (h : r.start < r.stop) (hp : r.CoversPage p) :
    ∃ a ∈ r, a.floor = p := by
  have hstop := r.stop.toNat_lt
  rw [Address.lt_iff_toNat_lt] at h
  rw [coversPage_iff, pages, Address.toNat_floor, Address.toNat_ceil] at hp
  have hlt : max r.start.toNat (p.val.toNat * 4096) < r.stop.toNat := by omega
  have hvalue := Address.toNat_ofNat (Nat.lt_trans hlt hstop)
  refine ⟨.ofNat (max r.start.toNat (p.val.toNat * 4096)), ?_, ?_⟩
  · rw [mem_iff, hvalue]
    exact ⟨Nat.le_max_left _ _, hlt⟩
  · rw [← PageNumber.toNat_inj, Address.toNat_floor, hvalue]
    omega

theorem coversPage_iff_exists_mem (h : r.start < r.stop) :
    r.CoversPage p ↔ ∃ a ∈ r, a.floor = p := by
  constructor
  · exact exists_mem_of_coversPage h
  · rintro ⟨a, ha, rfl⟩
    exact coversPage_floor ha

/-! ## Bytes -/

theorem slack_eq (h : r.start ≤ r.stop) :
    r.slack = ((r.start.toNat % 4096 + (roundUp r.stop.toNat - r.stop.toNat) : Nat) : Int) := by
  have hle := le_roundUp r.stop.toNat
  rw [Address.le_iff_toNat_le] at h
  rw [slack, pages, Address.toNat_floor, Address.toNat_ceil, toNat_size]
  unfold roundUp at hle ⊢
  omega

theorem slack_le (h : r.start ≤ r.stop) : r.slack ≤ 8190 := by
  have hlt := roundUp_lt r.stop.toNat
  rw [slack_eq h]
  omega

theorem slack_eq_zero_iff (h : r.start ≤ r.stop) : r.slack = 0 ↔ r.PageAligned := by
  have hmod := roundUp_mod r.stop.toNat
  have hle := le_roundUp r.stop.toNat
  rw [slack_eq h, PageAligned, Address.pageAligned_iff, Address.pageAligned_iff]
  constructor
  · intro hzero
    omega
  · rintro ⟨hstart, hstop⟩
    rw [hstart, roundUp_of_mod_eq_zero hstop]
    omega

/-- The covering pages are the pages of the range's addresses, and they are counted right. -/
theorem pageCover_of_lt (h : r.start < r.stop) : r.PageCover := by
  have hle : r.start ≤ r.stop :=
    Address.le_iff_toNat_le.mpr (Nat.le_of_lt (Address.lt_iff_toNat_lt.mp h))
  have hordered := pages_ordered hle
  refine
    { covers_iff := fun _ => coversPage_iff_exists_mem h
      ordered := hordered
      counted := ⟨_, pageCount?_eq_some hle, ?_⟩
      slack_nonneg := ?_
      slack_le := slack_le hle
      slack_eq_zero_iff := slack_eq_zero_iff hle }
  · rw [UInt64.toNat_sub_of_le _ _ hordered]
    exact Nat.add_sub_of_le (UInt64.le_iff_toNat_le.mp hordered)
  · rw [slack_eq hle]
    omega

theorem pageCover_unaligned :
    (⟨⟨0xfff⟩, ⟨0x2001⟩⟩ : AddressRange).start < (⟨⟨0xfff⟩, ⟨0x2001⟩⟩ : AddressRange).stop ∧
      (⟨⟨0xfff⟩, ⟨0x2001⟩⟩ : AddressRange).slack = 8190 ∧
      (⟨⟨0xfff⟩, ⟨0x2001⟩⟩ : AddressRange).PageCover :=
  ⟨by decide, by decide, pageCover_of_lt (by decide)⟩

end KernelImage.AddressRange
