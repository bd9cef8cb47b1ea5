import KernelImage.Proofs.Memory.Address

/-! # The pages around addresses, as natural numbers -/

namespace KernelImage

theorem PageNumber.toNat_inj {p q : PageNumber} : p.val.toNat = q.val.toNat ↔ p = q := by
  obtain ⟨p⟩ := p
  obtain ⟨q⟩ := q
  rw [mk.injEq]
  exact UInt64.toNat_inj

namespace Address

theorem toNat_floor (a : Address) : a.floor.val.toNat = a.toNat / 4096 := by
  unfold floor
  rw [UInt64.toNat_shiftRight, Nat.shiftRight_eq_div_pow]
  rfl

theorem toNat_ceil (a : Address) : a.ceil.val.toNat = (a.toNat + 4095) / 4096 := by
  have hlt := a.toNat_lt
  have hfloor : (a.val >>> pageSizeBits).toNat = a.toNat / 4096 := a.toNat_floor
  unfold ceil
  rw [UInt64.toNat_add, hfloor]
  by_cases h : a.PageAligned
  · rw [if_pos h]
    rw [pageAligned_iff] at h
    simp only [UInt64.toNat_zero]
    omega
  · rw [if_neg h]
    rw [pageAligned_iff] at h
    simp only [UInt64.toNat_one]
    omega

theorem toNat_ofPage (p : PageNumber) : (ofPage p).toNat = p.val.toNat * 4096 % 2 ^ 64 := by
  change (p.val <<< pageSizeBits).toNat = _
  rw [UInt64.toNat_shiftLeft, Nat.shiftLeft_eq]
  rfl

theorem toNat_ofPage_of_lt {p : PageNumber} (h : p.val.toNat < 2 ^ 52) :
    (ofPage p).toNat = p.val.toNat * 4096 := by
  rw [toNat_ofPage]
  omega

end Address

end KernelImage
