import KernelImage.Outcome
import Mathlib.Data.List.Forall2

/-!
# Reasoning about outcomes

An examination is a chain of steps, so questions about it are answered step by step: when does it
give this value, when does it end in this error, and when does it end in a fault. Each step has one
lemma for each question.
-/

namespace KernelImage

/-! ## Values -/

theorem bind_eq_ok_iff {ε α β : Type} {x : Except ε α} {f : α → Except ε β} {b : β} :
    (x >>= f) = .ok b ↔ ∃ a, x = .ok a ∧ f a = .ok b := by
  cases x <;> simp [bind, Except.bind]

@[simp]
theorem ok_bind {ε α β : Type} (a : α) (f : α → Except ε β) : (Except.ok a >>= f) = f a := rfl

theorem pure_eq_ok_iff {ε α : Type} {a b : α} : (pure a : Except ε α) = .ok b ↔ a = b := by
  simp [pure, Except.pure]

theorem ensure_eq_ok_iff {ε : Type} {c : Prop} [Decidable c] {e : ε} {u : Unit} :
    ensure c e = .ok u ↔ c := by
  unfold ensure; split <;> simp_all

theorem mapM_eq_ok_iff {ε α β : Type} {f : α → Except ε β} {l : List α} {r : List β} :
    l.mapM f = .ok r ↔ List.Forall₂ (fun a b => f a = .ok b) l r := by
  induction l generalizing r with
  | nil => simp [pure, Except.pure, eq_comm]
  | cons a l ih =>
    simp only [List.mapM_cons, bind_eq_ok_iff, pure_eq_ok_iff, ih]
    rw [List.forall₂_cons_left_iff]
    constructor
    · rintro ⟨b, hb, bs, hbs, rfl⟩
      exact ⟨b, bs, hb, hbs, rfl⟩
    · rintro ⟨b, bs, hb, hbs, rfl⟩
      exact ⟨b, hb, bs, hbs, rfl⟩

theorem mapM_eq_ok_iff_of_mem {ε α β : Type} {f : α → Except ε β} {R : α → β → Prop} {l : List α}
    {r : List β} (h : ∀ a ∈ l, ∀ b, f a = .ok b ↔ R a b) :
    l.mapM f = .ok r ↔ List.Forall₂ R l r := by
  rw [mapM_eq_ok_iff]
  induction l generalizing r with
  | nil => simp
  | cons a l ih =>
    simp only [List.forall₂_cons_left_iff, h a (by simp), ih fun x hx => h x (by simp [hx])]

theorem exists_forall₂_iff {α β : Type} {R : α → β → Prop} {l : List α} :
    (∃ r, List.Forall₂ R l r) ↔ ∀ a ∈ l, ∃ b, R a b := by
  induction l with
  | nil => simp
  | cons a l ih =>
    simp only [List.forall₂_cons_left_iff, List.mem_cons, forall_eq_or_imp, ← ih]
    constructor
    · rintro ⟨_, b, bs, hb, hbs, rfl⟩
      exact ⟨⟨b, hb⟩, bs, hbs⟩
    · rintro ⟨⟨b, hb⟩, bs, hbs⟩
      exact ⟨_, b, bs, hb, hbs, rfl⟩

theorem mapM_eq_ok_map {ε α β : Type} {f : α → Except ε β} {g : α → β} {l : List α}
    (h : ∀ a ∈ l, f a = .ok (g a)) : l.mapM f = .ok (l.map g) := by
  rw [mapM_eq_ok_iff, List.forall₂_map_right_iff, List.forall₂_same]
  exact h

theorem mapM_eq_findSome? {ε α β : Type} {f : α → Except ε β} {e : α → Option ε} {g : α → β}
    {l : List α} (h : ∀ a ∈ l, f a = (e a).elim (.ok (g a)) .error) :
    l.mapM f = (l.findSome? e).elim (.ok (l.map g)) .error := by
  induction l with
  | nil => rfl
  | cons a l ih =>
    have hl := ih fun x hx => h x (List.mem_cons_of_mem _ hx)
    rw [List.mapM_cons, h a List.mem_cons_self, hl, List.findSome?_cons]
    rcases e a with _ | x
    · rcases l.findSome? e with _ | y <;> rfl
    · rfl

theorem forM_eq_ok_iff {ε α : Type} {f : α → Except ε Unit} {l : List α} {u : Unit} :
    l.forM f = .ok u ↔ ∀ a ∈ l, f a = .ok () := by
  induction l with
  | nil => simp [pure, Except.pure]
  | cons a l ih =>
    change (f a >>= fun _ => l.forM f) = .ok u ↔ _
    simp only [bind_eq_ok_iff, ih, List.mem_cons, forall_eq_or_imp]
    exact ⟨fun ⟨_, ha, hl⟩ => ⟨ha, hl⟩, fun ⟨ha, hl⟩ => ⟨(), ha, hl⟩⟩

theorem bind_congr_of_ok {ε α β : Type} {x : Except ε α} {f g : α → Except ε β}
    (h : ∀ a, x = .ok a → f a = g a) : (x >>= f) = (x >>= g) := by
  rcases x with e | a
  · rfl
  · exact h a rfl

theorem mapM_congr {ε α β : Type} {f g : α → Except ε β} {l : List α} (h : ∀ a ∈ l, f a = g a) :
    l.mapM f = l.mapM g := by
  induction l with
  | nil => rfl
  | cons a l ih =>
    rw [List.mapM_cons, List.mapM_cons, h a List.mem_cons_self,
      ih fun x hx => h x (List.mem_cons_of_mem a hx)]

/-! ## Errors -/

theorem bind_eq_error_iff {ε α β : Type} {x : Except ε α} {f : α → Except ε β} {e : ε} :
    (x >>= f) = .error e ↔ x = .error e ∨ ∃ a, x = .ok a ∧ f a = .error e := by
  cases x <;> simp [bind, Except.bind]

theorem ensure_eq_error_iff {ε : Type} {c : Prop} [Decidable c] {e e' : ε} :
    ensure c e = .error e' ↔ ¬ c ∧ e' = e := by
  unfold ensure; split <;> simp_all [eq_comm]

/-- The element is the first one of the list that has the property. -/
def IsFirst {α : Type} (P : α → Prop) (l : List α) (a : α) : Prop :=
  P a ∧ ∃ earlier later, l = earlier ++ a :: later ∧ ∀ b ∈ earlier, ¬ P b

theorem IsFirst.mem {α : Type} {P : α → Prop} {l : List α} {a : α} (h : IsFirst P l a) : a ∈ l := by
  obtain ⟨-, earlier, later, rfl, -⟩ := h
  simp

theorem isFirst_congr {α : Type} {P Q : α → Prop} {l : List α} {a : α}
    (h : ∀ b ∈ l, P b ↔ Q b) : IsFirst P l a ↔ IsFirst Q l a := by
  constructor <;> rintro ⟨ha, earlier, later, rfl, hfirst⟩
  · exact ⟨(h a (by simp)).mp ha, earlier, later, rfl,
      fun b hb hbad => hfirst b hb ((h b (by simp [hb])).mpr hbad)⟩
  · exact ⟨(h a (by simp)).mpr ha, earlier, later, rfl,
      fun b hb hbad => hfirst b hb ((h b (by simp [hb])).mp hbad)⟩

theorem find?_eq_some_iff_isFirst {α : Type} {P : α → Prop} [DecidablePred P] {l : List α} {a : α} :
    l.find? (fun a => P a) = some a ↔ IsFirst P l a := by
  rw [List.find?_eq_some_iff_append]
  simp [IsFirst]

theorem isFirst_cons_iff {α : Type} {P : α → Prop} {l : List α} {a b : α} :
    IsFirst P (b :: l) a ↔ P b ∧ a = b ∨ ¬ P b ∧ IsFirst P l a := by
  constructor
  · rintro ⟨ha, earlier, later, hl, hfirst⟩
    rcases earlier with _ | ⟨c, earlier⟩
    · obtain ⟨rfl, rfl⟩ := List.cons.inj hl
      exact .inl ⟨ha, rfl⟩
    · obtain ⟨rfl, rfl⟩ := List.cons.inj hl
      exact .inr ⟨hfirst b (by simp), ha, earlier, later, rfl, fun c hc => hfirst c (by simp [hc])⟩
  · rintro (⟨hb, rfl⟩ | ⟨hb, ha, earlier, later, rfl, hfirst⟩)
    · exact ⟨hb, [], l, rfl, by simp⟩
    · refine ⟨ha, b :: earlier, later, rfl, ?_⟩
      simpa using ⟨hb, hfirst⟩

theorem mapM_eq_error_of_mem {ε α β : Type} {f : α → Except ε β} {l : List α} {e : ε} {a : α}
    (h : ∀ b ∈ l, f b = .error e ∨ ∃ c, f b = .ok c) (ha : a ∈ l) (he : f a = .error e) :
    l.mapM f = .error e := by
  induction l with
  | nil => cases ha
  | cons b l ih =>
    rw [List.mapM_cons]
    obtain hb | ⟨c, hb⟩ := h b (by simp)
    · rw [hb]
      rfl
    · have hmem : a ∈ l := by
        rcases List.mem_cons.mp ha with rfl | hmem
        · rw [he] at hb
          cases hb
        · exact hmem
      rw [hb, ok_bind, ih (fun x hx => h x (by simp [hx])) hmem]
      rfl

/-- A list of checks reports what the first one that fails reports. -/
theorem forM_eq_error_iff {ε α : Type} {f : α → Except ε Unit} {l : List α} {e : ε} :
    l.forM f = .error e ↔ ∃ a, IsFirst (fun a => f a ≠ .ok ()) l a ∧ f a = .error e := by
  induction l with
  | nil => simp [IsFirst, pure, Except.pure]
  | cons b l ih =>
    change (f b >>= fun _ => l.forM f) = .error e ↔ _
    simp only [bind_eq_error_iff, ih, isFirst_cons_iff]
    constructor
    · rintro (hb | ⟨_, hb, a, ha, he⟩)
      · exact ⟨b, .inl ⟨by simp [hb], rfl⟩, hb⟩
      · exact ⟨a, .inr ⟨by simp [hb], ha⟩, he⟩
    · rintro ⟨a, ⟨-, rfl⟩ | ⟨hb, ha⟩, he⟩
      · exact .inl he
      · exact .inr ⟨(), not_not.mp hb, a, ha, he⟩

namespace Outcome

variable {α β : Type}

theorem orFault_eq_error_iff {f : Fault} {o : Option α} {e : Failure} :
    orFault f o = .error e ↔ o = none ∧ e = .fault f := by
  cases o <;> simp [orFault, fault, eq_comm]

theorem orFault_eq_ok_iff {f : Fault} {o : Option α} {a : α} : orFault f o = .ok a ↔ o = some a := by
  cases o <;> simp [orFault, fault]

theorem ofResult_eq_ok_iff {x : Except Defect α} {a : α} : ofResult x = .ok a ↔ x = .ok a := by
  cases x <;> simp [ofResult, defect]

theorem ofResult_eq_defect_iff {x : Except Defect α} {d : Defect} :
    ofResult x = .error (.defect d) ↔ x = .error d := by
  cases x <;> simp [ofResult, defect]

/-! ## Faults -/

/-- The examination ends without an answer. -/
def Faults (o : Outcome α) : Prop := ∃ f, o = .error (.fault f)

theorem not_faults_ok (a : α) : ¬ Faults (.ok a) := by simp [Faults]

theorem not_faults_pure (a : α) : ¬ Faults (pure a : Outcome α) := not_faults_ok a

theorem not_faults_defect (d : Defect) : ¬ Faults (defect d : Outcome α) := by
  simp [Faults, defect]

theorem faults_fault (f : Fault) : Faults (fault f : Outcome α) := ⟨f, rfl⟩

instance (o : Outcome α) : Decidable o.Faults :=
  match o with
  | .ok a => isFalse (not_faults_ok a)
  | .error (.defect d) => isFalse (not_faults_defect d)
  | .error (.fault f) => isTrue (faults_fault f)

theorem faults_bind_iff {x : Outcome α} {f : α → Outcome β} :
    Faults (x >>= f) ↔ x.Faults ∨ ∃ a, x = .ok a ∧ (f a).Faults := by
  cases x <;> simp [Faults, bind, Except.bind]

theorem faults_ensure_iff {c : Prop} [Decidable c] {f : Fault} :
    Faults (ensure c (.fault f)) ↔ ¬ c := by
  unfold ensure; split <;> simp_all [Faults]

theorem not_faults_ensure_defect {c : Prop} [Decidable c] {d : Defect} :
    ¬ Faults (ensure c (.defect d)) := by
  unfold ensure; split <;> simp [Faults]

theorem faults_orFault_iff {f : Fault} {o : Option α} : Faults (orFault f o) ↔ o = none := by
  cases o <;> simp [orFault, Faults, fault]

theorem not_faults_ofResult (x : Except Defect α) : ¬ Faults (ofResult x) := by
  cases x <;> simp [ofResult, Faults, defect]

/-- A list of steps ends in a fault at the first step that gives no value. -/
theorem faults_mapM_iff {f : α → Outcome β} {l : List α} :
    Faults (l.mapM f) ↔
      ∃ i, ∃ h : i < l.length, (f l[i]).Faults ∧ ∀ j, (hj : j < i) → ∃ b, f l[j] = .ok b := by
  induction l with
  | nil => simp [not_faults_pure]
  | cons a l ih =>
    simp only [List.mapM_cons, faults_bind_iff, not_faults_pure, and_false, exists_false, or_false,
      ih]
    constructor
    · rintro (h | ⟨b, hb, i, hi, hfault, hpre⟩)
      · exact ⟨0, by simp, h, by omega⟩
      · refine ⟨i + 1, by simpa using hi, hfault, ?_⟩
        rintro (_ | j) hj
        · exact ⟨b, hb⟩
        · exact hpre j (by omega)
    · rintro ⟨_ | i, hi, hfault, hpre⟩
      · exact .inl hfault
      · obtain ⟨b, hb⟩ := hpre 0 (by omega)
        exact .inr ⟨b, hb, i, by simpa using hi, hfault, fun j hj => hpre (j + 1) (by omega)⟩

theorem faults_mapM_range_iff {f : Nat → Outcome β} {n : Nat} :
    Faults ((List.range n).mapM f) ↔ ∃ i < n, (f i).Faults ∧ ∀ j < i, ∃ b, f j = .ok b := by
  simp only [faults_mapM_iff, List.length_range, List.getElem_range, exists_prop]

theorem not_faults_forM {f : α → Outcome Unit} {l : List α} (h : ∀ a ∈ l, ¬ (f a).Faults) :
    ¬ Faults (l.forM f) := by
  induction l with
  | nil => exact not_faults_pure _
  | cons a l ih =>
    change ¬ Faults (f a >>= fun _ => l.forM f)
    rw [faults_bind_iff]
    rintro (ha | ⟨_, -, hl⟩)
    · exact h a (by simp) ha
    · exact ih (fun x hx => h x (by simp [hx])) hl

theorem faults_mapM_iff_exists {f : α → Outcome β} {l : List α}
    (h : ∀ a ∈ l, (f a).Faults ∨ ∃ b, f a = .ok b) :
    Faults (l.mapM f) ↔ ∃ a ∈ l, (f a).Faults := by
  induction l with
  | nil => simp [not_faults_pure]
  | cons a l ih =>
    simp only [List.mapM_cons, faults_bind_iff, not_faults_pure, and_false, exists_false, or_false,
      ih fun x hx => h x (by simp [hx]), List.mem_cons, exists_eq_or_imp]
    constructor
    · rintro (ha | ⟨b, -, hl⟩)
      · exact .inl ha
      · exact .inr hl
    · rintro (ha | hl)
      · exact .inl ha
      · exact (h a (by simp)).imp_right fun ⟨b, hb⟩ => ⟨b, hb, hl⟩

/-! ## Failures of a kind -/

/-- Whenever the examination fails, its failure is one of these. -/
def FailsWithin (P : Failure → Prop) (o : Outcome α) : Prop := ∀ e, o = .error e → P e

section FailsWithin

variable {P : Failure → Prop}

theorem failsWithin_ok (a : α) : FailsWithin P (.ok a) := by simp [FailsWithin]

theorem failsWithin_pure (a : α) : FailsWithin P (pure a : Outcome α) := failsWithin_ok a

theorem failsWithin_error {e : Failure} (h : P e) : FailsWithin P (.error e : Outcome α) := by
  rintro _ ⟨⟩
  exact h

theorem FailsWithin.bind {x : Outcome α} {f : α → Outcome β} (hx : x.FailsWithin P)
    (hf : ∀ a, x = .ok a → (f a).FailsWithin P) : (x >>= f).FailsWithin P := by
  rcases x with e | a
  · exact failsWithin_error (hx e rfl)
  · exact hf a rfl

theorem failsWithin_ensure {c : Prop} [Decidable c] {e : Failure} (h : P e) :
    FailsWithin P (ensure c e) := by
  unfold ensure
  split
  · exact failsWithin_ok ()
  · exact failsWithin_error h

theorem failsWithin_mapM {f : α → Outcome β} {l : List α} (h : ∀ a ∈ l, (f a).FailsWithin P) :
    FailsWithin P (l.mapM f) := by
  induction l with
  | nil => exact failsWithin_pure _
  | cons a l ih =>
    rw [List.mapM_cons]
    refine (h a List.mem_cons_self).bind fun _ _ => ?_
    refine (ih fun x hx => h x (List.mem_cons_of_mem a hx)).bind fun _ _ => ?_
    exact failsWithin_pure _

theorem failsWithin_of_not_faults {Q : Fault → Prop} {o : Outcome α} (h : ¬ o.Faults) :
    o.FailsWithin fun e => ∀ x, e = .fault x → Q x := by
  rintro e he x rfl
  exact absurd ⟨x, he⟩ h

end FailsWithin

end Outcome

end KernelImage
