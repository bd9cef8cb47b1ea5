import KernelImage.Proofs.Memory.Page

/-!
# Rounding to pages

An address is rounded down to a page, up to a page, or up to a page boundary. There is a page for
every address, and comparing pages comes to comparing addresses with page boundaries. There is no
boundary above the last one: the page above is then page 2 ^ 52, and its first address wraps around
to zero.
-/

namespace KernelImage.Address

/-- What rounding an address to pages gives, and how the three ways to round agree. -/
structure PageRounding (a : Address) : Prop where
  isLeast : IsLeast {n | a.toNat ≤ n ∧ 4096 ∣ n} (roundUp a.toNat)
  alignUp_eq : a.alignUp? =
    if roundUp a.toNat < 2 ^ 64 then some (ofNat (roundUp a.toNat)) else none
  alignUp_eq_none_iff : a.alignUp? = none ↔ 2 ^ 64 - 4096 < a.toNat
  monotone : ∀ b c, a ≤ b → b.alignUp? = some c → ∃ d, a.alignUp? = some d ∧ d ≤ c
  idempotent : ∀ b, a.alignUp? = some b → b.alignUp? = some b
  ceil_exact : a.ceil.val.toNat = a.floor.val.toNat + if a.PageAligned then 0 else 1
  ofPage_ceil : ofPage a.ceil = a.alignUp?.getD ⟨0⟩
  le_floor_iff : ∀ p : PageNumber, p.val.toNat < 2 ^ 52 → (p.val ≤ a.floor.val ↔ ofPage p ≤ a)
  ceil_le_iff : ∀ p : PageNumber, p.val.toNat < 2 ^ 52 → (a.ceil.val ≤ p.val ↔ a ≤ ofPage p)

variable {a b c : Address} {p : PageNumber}

/-! ## Page boundaries -/

theorem alignUp?_eq (a : Address) :
    a.alignUp? = if roundUp a.toNat < 2 ^ 64 then some (ofNat (roundUp a.toNat)) else none := by
  split
  case isTrue hlt => rw [alignUp?_eq_some_iff, toNat_ofNat hlt]
  case isFalse hge => rwa [alignUp?_eq_none_iff, ← Nat.not_lt]

theorem alignUp?_mono (hle : a ≤ b) (hb : b.alignUp? = some c) :
    ∃ d, a.alignUp? = some d ∧ d ≤ c := by
  rw [le_iff_toNat_le] at hle
  rw [alignUp?_eq_some_iff] at hb
  have hround : roundUp a.toNat ≤ roundUp b.toNat := roundUp_mono hle
  have hlt := c.toNat_lt
  have hd : (ofNat (roundUp a.toNat)).toNat = roundUp a.toNat := toNat_ofNat (by omega)
  refine ⟨ofNat (roundUp a.toNat), alignUp?_eq_some_iff.mpr hd, ?_⟩
  rwa [le_iff_toNat_le, hd, hb]

theorem alignUp?_alignUp? (h : a.alignUp? = some b) : b.alignUp? = some b := by
  rw [alignUp?_eq_some_iff] at h ⊢
  rw [h, roundUp_roundUp]

/-! ## Pages -/

theorem toNat_ceil_eq_add (a : Address) :
    a.ceil.val.toNat = a.floor.val.toNat + if a.PageAligned then 0 else 1 := by
  rw [toNat_ceil, toNat_floor]
  split
  case isTrue h =>
    rw [pageAligned_iff] at h
    omega
  case isFalse h =>
    rw [pageAligned_iff] at h
    omega

theorem ofPage_ceil (a : Address) : ofPage a.ceil = a.alignUp?.getD ⟨0⟩ := by
  have hceil : (ofPage a.ceil).toNat = roundUp a.toNat % 2 ^ 64 := by
    rw [toNat_ofPage, toNat_ceil]
    rfl
  rw [← toNat_inj, hceil]
  rcases halign : a.alignUp? with _ | b
  · -- The page above is then page 2 ^ 52, which starts where the address space ends.
    rw [alignUp?_eq_none_iff] at halign
    have hlt := a.toNat_lt
    have htop : roundUp a.toNat = 2 ^ 64 := by
      unfold roundUp at halign ⊢
      omega
    rw [htop]
    rfl
  · rw [alignUp?_eq_some_iff] at halign
    rw [← halign, Nat.mod_eq_of_lt b.toNat_lt]
    rfl

theorem le_floor_iff (hp : p.val.toNat < 2 ^ 52) : p.val ≤ a.floor.val ↔ ofPage p ≤ a := by
  rw [UInt64.le_iff_toNat_le, le_iff_toNat_le, toNat_floor, toNat_ofPage_of_lt hp]
  exact Nat.le_div_iff_mul_le (by decide)

theorem ceil_le_iff (hp : p.val.toNat < 2 ^ 52) : a.ceil.val ≤ p.val ↔ a ≤ ofPage p := by
  rw [UInt64.le_iff_toNat_le, le_iff_toNat_le, toNat_ceil, toNat_ofPage_of_lt hp]
  omega

theorem floor_ofPage_iff : (ofPage p).floor = p ↔ p.val.toNat < 2 ^ 52 := by
  rw [← PageNumber.toNat_inj, toNat_floor, toNat_ofPage]
  omega

/-- Rounding is exact, and the ways to round agree. A page number that is too large for an address is
not found again. -/
theorem pageRounding (a : Address) (p : PageNumber) :
    a.PageRounding ∧ ((ofPage p).floor = p ↔ p.val.toNat < 2 ^ 52) := by
  refine ⟨?_, floor_ofPage_iff⟩
  exact
    { isLeast := isLeast_roundUp a.toNat
      alignUp_eq := alignUp?_eq a
      alignUp_eq_none_iff := alignUp?_eq_none_iff.trans le_roundUp_iff_top_lt
      monotone := fun _ _ => alignUp?_mono
      idempotent := fun _ => alignUp?_alignUp?
      ceil_exact := toNat_ceil_eq_add a
      ofPage_ceil := ofPage_ceil a
      le_floor_iff := fun _ => le_floor_iff
      ceil_le_iff := fun _ => ceil_le_iff }

theorem pageRounding_lastPage :
    (⟨0xfffffffffffff001⟩ : Address).alignUp? = none ∧
      (⟨0xfffffffffffff001⟩ : Address).PageRounding ∧
      ((ofPage ⟨0xfffffffffffff⟩).floor = ⟨0xfffffffffffff⟩ ↔
        (0xfffffffffffff : UInt64).toNat < 2 ^ 52) :=
  ⟨by decide, pageRounding ⟨0xfffffffffffff001⟩ ⟨0xfffffffffffff⟩⟩

end KernelImage.Address
