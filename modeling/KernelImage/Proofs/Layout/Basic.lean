import KernelImage.Layout.Basic
import KernelImage.Proofs.Outcome

/-! # Layouts as functions from symbols to addresses -/

namespace KernelImage

namespace Symbol

theorem mem_all (s : Symbol) : s ∈ all := by cases s <;> decide

theorem name_injective {s t : Symbol} (h : s.name = t.name) : s = t := by
  revert h; cases s <;> cases t <;> decide

theorem ofName?_name (s : Symbol) : ofName? s.name = some s := by cases s <;> rfl

theorem ofName?_eq_none_iff {t : String} : ofName? t = none ↔ ∀ s : Symbol, s.name ≠ t := by
  simp [ofName?, mem_all]

theorem count_all (s : Symbol) : all.count s = 1 := by cases s <;> decide

end Symbol

theorem toNat_bootStackSize : bootStackSize.toNat = 65536 := by decide

namespace Layout

@[simp]
theorem get_ofFn (f : Symbol → Address) (s : Symbol) : (ofFn f).get s = f s := by cases s <;> rfl

@[simp]
theorem ofFn_get (l : Layout) : ofFn l.get = l := rfl

theorem ext_get {l m : Layout} (h : ∀ s, l.get s = m.get s) : l = m := by
  rw [← ofFn_get l, ← ofFn_get m, funext h]

theorem address?_name (l : Layout) (s : Symbol) : l.address? s.name = some (l.get s) := by
  rw [address?, Symbol.ofName?_name]
  rfl

theorem address?_eq_none_iff {l : Layout} {t : String} :
    l.address? t = none ↔ ∀ s : Symbol, s.name ≠ t := by
  rw [address?, Option.map_eq_none_iff, Symbol.ofName?_eq_none_iff]

theorem resolve_eq_ok_iff {lookup : Symbol → Option Address} {l : Layout} :
    resolve lookup = .ok l ↔ ∀ s, lookup s = some (l.get s) := by
  unfold resolve
  constructor
  · intro h s
    split at h
    · cases h
    case h_2 hnone =>
      obtain rfl := Except.ok.inj h
      have hs := List.find?_eq_none.mp hnone s (Symbol.mem_all s)
      obtain ⟨a, ha⟩ := Option.isSome_iff_exists.mp (by simpa [Option.isSome_iff_ne_none] using hs : (lookup s).isSome)
      rw [get_ofFn, ha]; rfl
  · intro h
    have hnone : Symbol.all.find? (fun s => (lookup s).isNone) = none := by
      rw [List.find?_eq_none]
      intro s _
      simp [h s]
    rw [hnone]
    exact congrArg Except.ok (ext_get fun s => by simp [h s])

theorem exists_resolve_eq_ok_iff {lookup : Symbol → Option Address} :
    (∃ l, resolve lookup = .ok l) ↔ ∀ s, (lookup s).isSome := by
  simp only [resolve_eq_ok_iff]
  constructor
  · rintro ⟨l, hl⟩ s
    rw [hl s]
    rfl
  · intro h
    refine ⟨ofFn fun s => (lookup s).get (h s), fun s => ?_⟩
    rw [get_ofFn, Option.some_get]

theorem resolve_eq_error_iff {lookup : Symbol → Option Address} {d : Defect} :
    resolve lookup = .error d ↔
      ∃ s, IsFirst (fun t => lookup t = none) Symbol.all s ∧ d = .missingSymbol s := by
  have hfirst (s : Symbol) : IsFirst (fun t => lookup t = none) Symbol.all s ↔
      Symbol.all.find? (fun t => (lookup t).isNone) = some s := by
    simp only [← find?_eq_some_iff_isFirst, ← Option.isNone_iff_eq_none, Bool.decide_eq_true]
  simp only [hfirst]
  unfold resolve
  split
  · simp [*, eq_comm]
  · simp [*]

end Layout

end KernelImage
