import KernelImage.Proofs.Text.Digits

/-!
# Words with blanks between them

The words of a text can be read off it, as long as it is known how many there are and none of them
has a blank of its own. What follows the last one may be any text.
-/

namespace KernelImage

/-- The text has no blank. -/
def Unbroken (w : String) : Prop := ' ' ∉ w.toList

instance (w : String) : Decidable (Unbroken w) := inferInstanceAs (Decidable (' ' ∉ w.toList))

theorem unbroken_hex (n : Nat) : Unbroken (hex n) := by
  rw [Unbroken, toList_hex, List.mem_append, not_or]
  refine ⟨by decide, fun hblank => ?_⟩
  obtain ⟨k, hk, hdigit⟩ := mem_toDigits (by decide) hblank
  have hall : ∀ k < 16, ' ' ≠ Nat.digitChar k := by decide
  exact hall k hk hdigit

theorem Unbroken.append {v w : String} (hv : Unbroken v) (hw : Unbroken w) : Unbroken (v ++ w) := by
  rw [Unbroken, String.toList_append, List.mem_append, not_or]
  exact ⟨hv, hw⟩

/-- The words, each with a blank after it, and then the text. -/
def spaced (words : List String) (text : String) : String :=
  words.foldr (fun w rest => w ++ " " ++ rest) text

@[simp]
theorem toList_spaced_cons (w : String) (words : List String) (text : String) :
    (spaced (w :: words) text).toList = w.toList ++ ' ' :: (spaced words text).toList := by
  simp [spaced]

theorem spaced_append (v w : List String) (text : String) :
    spaced (v ++ w) text = spaced v (spaced w text) := List.foldr_append

variable {v w : List String} {s t : String}

theorem Unbroken.takeWhile_spaced {a : String} (ha : Unbroken a) :
    (spaced (a :: v) s).toList.takeWhile (· ≠ ' ') = a.toList := by
  have hall : ∀ c ∈ a.toList, decide (c ≠ ' ') := by
    rintro c hc
    exact decide_eq_true fun hblank => ha (hblank ▸ hc)
  rw [toList_spaced_cons, List.takeWhile_append_of_pos hall]
  simp

theorem spaced_cons_inj {a b : String} (ha : Unbroken a) (hb : Unbroken b)
    (h : spaced (a :: v) s = spaced (b :: w) t) : a = b ∧ spaced v s = spaced w t := by
  have hword : a.toList = b.toList := by rw [← ha.takeWhile_spaced, h, hb.takeWhile_spaced]
  obtain rfl : a = b := String.toList_injective hword
  have hlist := congrArg String.toList h
  rw [toList_spaced_cons, toList_spaced_cons, List.append_cancel_left_eq] at hlist
  exact ⟨rfl, String.toList_injective (List.cons.inj hlist).2⟩

theorem spaced_inj (hlength : v.length = w.length) (hv : ∀ a ∈ v, Unbroken a)
    (hw : ∀ b ∈ w, Unbroken b) (h : spaced v s = spaced w t) : v = w ∧ s = t := by
  induction v generalizing w with
  | nil =>
    obtain rfl := List.eq_nil_of_length_eq_zero hlength.symm
    exact ⟨rfl, h⟩
  | cons a v ih =>
    rcases w with _ | ⟨b, w⟩
    · cases hlength
    rw [List.forall_mem_cons] at hv hw
    obtain ⟨rfl, hrest⟩ := spaced_cons_inj hv.1 hw.1 h
    obtain ⟨rfl, rfl⟩ := ih (Nat.succ.inj hlength) hv.2 hw.2 hrest
    exact ⟨rfl, rfl⟩

end KernelImage
