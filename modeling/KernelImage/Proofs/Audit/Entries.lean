import KernelImage.Proofs.Audit.Bounds

/-!
# Layouts read from the entries of a symbol table

`Audit.readLayout` reads a layout from a list of entries, as an audit does. Only the names of the
entries and the values of those that are named as boundaries matter. Their order matters only among
entries with the same name, of which the last one counts.
-/

namespace KernelImage

namespace Elf

variable {names : ByteArray} {e u : SymbolEntry} {entries entries' : List SymbolEntry}
  {name : String}

namespace SymbolEntry

def HasName (names : ByteArray) (e : SymbolEntry) (name : String) : Prop :=
  HasText names e.nameOffset name

theorem hasName_congr (h : u.nameOffset = e.nameOffset) :
    u.HasName names name ↔ e.HasName names name := by
  rw [HasName, HasName, h]

/-- The symbol that an entry stands for, if its name can be read. -/
def symbol? (names : ByteArray) (e : SymbolEntry) : Option NamedSymbol :=
  match e.named names with
  | .ok s => s
  | .error _ => none

theorem named_of_unreadable (h : Unreadable names e.nameOffset) :
    e.named names = .error (.fault .invalidText) := by
  obtain ⟨x, hx⟩ := faults_named_iff.mpr h
  rw [hx, (of_named_eq_error hx).1]

theorem named_of_readable (h : ¬ Unreadable names e.nameOffset) :
    e.named names = .ok (e.symbol? names) := by
  unfold symbol?
  rcases hnamed : e.named names with failure | s
  · exact absurd (of_named_eq_error hnamed).2 h
  · rfl

theorem symbol?_eq_some_iff {s : NamedSymbol} :
    e.symbol? names = some s ↔ e.HasName names s.name ∧ s.value = e.value := by
  have hnamed : e.symbol? names = some s ↔ e.named names = .ok (some s) := by
    unfold symbol?
    rcases e.named names with failure | o <;> simp
  rw [hnamed, named_eq_ok_iff]
  rfl

theorem symbol?_of_hasName (h : e.HasName names name) :
    e.symbol? names = some ⟨name, e.value⟩ := symbol?_eq_some_iff.mpr ⟨h, rfl⟩

end SymbolEntry

/-- The values of the entries with this name, in the order of the table. -/
def valuesOf (names : ByteArray) (entries : List SymbolEntry) (name : String) : List Address :=
  ((entries.filterMap (SymbolEntry.symbol? names)).filter fun s => s.name = name).map
    NamedSymbol.value

theorem lastValue?_eq_getLast? :
    lastValue? (entries.filterMap (SymbolEntry.symbol? names)) name =
      (valuesOf names entries name).getLast? := by
  rw [valuesOf, List.getLast?_map]
  rfl

@[simp]
theorem valuesOf_nil : valuesOf names [] name = [] := rfl

theorem valuesOf_append :
    valuesOf names (entries ++ entries') name =
      valuesOf names entries name ++ valuesOf names entries' name := by
  simp [valuesOf]

theorem valuesOf_cons_of_hasName (h : e.HasName names name) :
    valuesOf names (e :: entries) name = e.value :: valuesOf names entries name := by
  simp [valuesOf, SymbolEntry.symbol?_of_hasName h]

theorem valuesOf_cons_of_not_hasName (h : ¬ e.HasName names name) :
    valuesOf names (e :: entries) name = valuesOf names entries name := by
  unfold valuesOf
  rcases hsymbol : e.symbol? names with _ | s
  · simp [hsymbol]
  · obtain ⟨hname, -⟩ := SymbolEntry.symbol?_eq_some_iff.mp hsymbol
    have hne : s.name ≠ name := by
      rintro rfl
      exact h hname
    simp [hsymbol, hne]

theorem valuesOf_eq_nil_iff :
    valuesOf names entries name = [] ↔ ∀ e ∈ entries, ¬ e.HasName names name := by
  induction entries with
  | nil => simp
  | cons e entries ih =>
    by_cases h : e.HasName names name
    · simp [valuesOf_cons_of_hasName h, h]
    · simp [valuesOf_cons_of_not_hasName h, h, ih]

end Elf

namespace Audit

open Elf

variable {names : ByteArray} {entries entries' : List SymbolEntry} {l : Layout}

/-- The layout that is read from the entries of a symbol table. -/
def readLayout (names : ByteArray) (entries : List SymbolEntry) : Outcome Layout := do
  let named ← entries.mapM (SymbolEntry.named names)
  .ofResult (layoutOf (named.filterMap id))

/-- The layout in which each boundary has the value of the last entry with its name. -/
def lastLayout (names : ByteArray) (entries : List SymbolEntry) : Except Defect Layout :=
  Layout.resolve fun s => (valuesOf names entries s.name).getLast?

theorem readLayout_of_readable (h : ∀ e ∈ entries, ¬ Unreadable names e.nameOffset) :
    readLayout names entries = .ofResult (lastLayout names entries) := by
  have hnamed : entries.mapM (SymbolEntry.named names) =
      .ok (entries.map (SymbolEntry.symbol? names)) :=
    mapM_eq_ok_map fun e he => SymbolEntry.named_of_readable (h e he)
  rw [readLayout, hnamed, ok_bind, List.filterMap_map, layoutOf, lastLayout]
  simp only [Function.id_comp, lastValue?_eq_getLast?]

theorem readLayout_of_unreadable (h : ∃ e ∈ entries, Unreadable names e.nameOffset) :
    readLayout names entries = .error (.fault .invalidText) := by
  obtain ⟨e, he, hbad⟩ := h
  have hstep (x : SymbolEntry) :
      x.named names = .error (.fault .invalidText) ∨ ∃ s, x.named names = .ok s := by
    by_cases hx : Unreadable names x.nameOffset
    · exact .inl (SymbolEntry.named_of_unreadable hx)
    · exact .inr ⟨_, SymbolEntry.named_of_readable hx⟩
  have hentries : entries.mapM (SymbolEntry.named names) = .error (.fault .invalidText) :=
    mapM_eq_error_of_mem (fun x _ => hstep x) he (SymbolEntry.named_of_unreadable hbad)
  rw [readLayout, hentries]
  rfl

theorem readLayout_eq_ok_iff :
    readLayout names entries = .ok l ↔
      (∀ e ∈ entries, ¬ Unreadable names e.nameOffset) ∧
        ∀ s : Symbol, (valuesOf names entries s.name).getLast? = some (l.get s) := by
  by_cases h : ∀ e ∈ entries, ¬ Unreadable names e.nameOffset
  · rw [readLayout_of_readable h, Outcome.ofResult_eq_ok_iff, lastLayout, Layout.resolve_eq_ok_iff]
    exact (and_iff_right h).symm
  · simp only [h, false_and, iff_false]
    push Not at h
    rw [readLayout_of_unreadable h]
    exact nofun

theorem readLayout_eq_missing_iff (h : ∀ e ∈ entries, ¬ Unreadable names e.nameOffset)
    {s : Symbol} :
    readLayout names entries = .error (.defect (.missingSymbol s)) ↔
      IsFirst (fun t => ∀ e ∈ entries, ¬ e.HasName names t.name) Symbol.all s := by
  have hnone (t : Symbol) : (valuesOf names entries t.name).getLast? = none ↔
      ∀ e ∈ entries, ¬ e.HasName names t.name := by
    rw [List.getLast?_eq_none_iff, valuesOf_eq_nil_iff]
  rw [readLayout_of_readable h, Outcome.ofResult_eq_defect_iff, lastLayout,
    Layout.resolve_eq_error_iff]
  simp only [Defect.missingSymbol.injEq, exists_eq_right']
  exact isFirst_congr fun t _ => hnone t

/-! ## What does not matter -/

theorem readLayout_congr
    (hread : (∃ e ∈ entries', Unreadable names e.nameOffset) ↔
      ∃ e ∈ entries, Unreadable names e.nameOffset)
    (hlast : ∀ s : Symbol, (valuesOf names entries' s.name).getLast? =
      (valuesOf names entries s.name).getLast?) :
    readLayout names entries' = readLayout names entries := by
  by_cases h : ∃ e ∈ entries, Unreadable names e.nameOffset
  · rw [readLayout_of_unreadable h, readLayout_of_unreadable (hread.mpr h)]
  · have h' := mt hread.mp h
    push Not at h h'
    rw [readLayout_of_readable h, readLayout_of_readable h', lastLayout, lastLayout]
    simp only [hlast]

/-- No two entries of the list have this name. -/
def Distinct (names : ByteArray) (entries : List SymbolEntry) (name : String) : Prop :=
  entries.Pairwise fun e e' => ¬ (e.HasName names name ∧ e'.HasName names name)

theorem length_valuesOf_le_one {name : String} (h : Distinct names entries name) :
    (valuesOf names entries name).length ≤ 1 := by
  induction entries with
  | nil => simp
  | cons e entries ih =>
    obtain ⟨hfirst, hrest⟩ := List.pairwise_cons.mp h
    by_cases he : e.HasName names name
    · have hnil : valuesOf names entries name = [] :=
        valuesOf_eq_nil_iff.mpr fun x hx hname => hfirst x hx ⟨he, hname⟩
      rw [valuesOf_cons_of_hasName he, hnil]
      exact le_rfl
    · rw [valuesOf_cons_of_not_hasName he]
      exact ih hrest

theorem readLayout_perm (h : entries'.Perm entries)
    (distinct : ∀ s : Symbol, Distinct names entries s.name) :
    readLayout names entries' = readLayout names entries := by
  refine readLayout_congr ?_ fun s => ?_
  · simp only [h.mem_iff]
  · have hperm : (valuesOf names entries' s.name).Perm (valuesOf names entries s.name) :=
      ((h.filterMap _).filter _).map _
    have hlength := length_valuesOf_le_one (distinct s)
    rcases hvalues : valuesOf names entries s.name with _ | ⟨v, _ | ⟨w, rest⟩⟩
    · rw [hvalues] at hperm
      rw [hperm.eq_nil]
    · rw [hvalues] at hperm
      rw [List.perm_singleton.mp hperm]
    · rw [hvalues] at hlength
      simp at hlength

/-- The entries have the same name, and the same value if they are named as a boundary. -/
def SameBoundary (names : ByteArray) (e e' : SymbolEntry) : Prop :=
  e'.nameOffset = e.nameOffset ∧ ((∃ s : Symbol, e.HasName names s.name) → e'.value = e.value)

theorem readLayout_of_sameBoundaries (h : List.Forall₂ (SameBoundary names) entries entries') :
    readLayout names entries' = readLayout names entries := by
  refine readLayout_congr ?_ fun s => ?_
  · induction h with
    | nil => rfl
    | cons hsame _ ih => simp only [List.mem_cons, exists_eq_or_imp, hsame.1, ih]
  · congr 1
    induction h with
    | nil => rfl
    | @cons e e' _ _ hsame _ ih =>
      have hname : e'.HasName names s.name ↔ e.HasName names s.name :=
        SymbolEntry.hasName_congr hsame.1
      by_cases he : e.HasName names s.name
      · rw [valuesOf_cons_of_hasName he, valuesOf_cons_of_hasName (hname.mpr he), ih,
          hsame.2 ⟨s, he⟩]
      · rw [valuesOf_cons_of_not_hasName he, valuesOf_cons_of_not_hasName (mt hname.mp he), ih]

/-! ## Entries that are added -/

/-- An added entry does not change the layout if a later one has its name or it has the same value. -/
theorem readLayout_insert_eq_ok_iff (h : readLayout names (entries ++ entries') = .ok l)
    (hu : ¬ Unreadable names u.nameOffset) :
    readLayout names (entries ++ u :: entries') = .ok l ↔
      ∀ s : Symbol, u.HasName names s.name →
        (∃ e ∈ entries', e.HasName names s.name) ∨ u.value = l.get s := by
  obtain ⟨hread, hlast⟩ := readLayout_eq_ok_iff.mp h
  have hread' : ∀ e ∈ entries ++ u :: entries', ¬ Unreadable names e.nameOffset := by
    intro e he
    rcases List.mem_append.mp he with he | he
    · exact hread e (List.mem_append_left _ he)
    · rcases List.mem_cons.mp he with rfl | he
      · exact hu
      · exact hread e (List.mem_append_right _ he)
  rw [readLayout_eq_ok_iff, and_iff_right hread']
  refine forall_congr' fun s => ?_
  have hvalues := hlast s
  rw [valuesOf_append, List.getLast?_append] at hvalues
  rw [valuesOf_append, List.getLast?_append]
  by_cases hname : u.HasName names s.name
  · rw [valuesOf_cons_of_hasName hname, List.getLast?_cons]
    by_cases hlater : ∃ e ∈ entries', e.HasName names s.name
    · obtain ⟨v, hv⟩ : ∃ v, (valuesOf names entries' s.name).getLast? = some v := by
        rw [← Option.ne_none_iff_exists', Ne, List.getLast?_eq_none_iff, valuesOf_eq_nil_iff]
        push Not
        exact hlater
      rw [hv] at hvalues ⊢
      simpa [hlater] using hvalues
    · have hnil : valuesOf names entries' s.name = [] := by
        rw [valuesOf_eq_nil_iff]
        push Not at hlater
        exact hlater
      simp [hnil, hname, hlater]
  · rw [valuesOf_cons_of_not_hasName hname]
    simp [hvalues, hname]

/-! ## Audits -/

/-- What an audit does once the layout is known. -/
def conclude (f : File) (board : Board) (sections : List Section) (l : Layout) : Outcome Audit := do
  l.check board
  ensure (f.header.entry = l.skernel) (.defect (.entryMismatch l.skernel f.header.entry))
  return ⟨board, f.header.entry, sections.map Section.summary, l⟩

theorem bind_symbols_eq {f : File} {sections : List Section} {symtab : SectionHeader}
    (hfind : findSection? sections ".symtab" = some symtab) (next : Layout → Outcome Audit) :
    (do let symbols ← f.symbols sections
        let layout ← .ofResult (layoutOf symbols)
        next layout) =
      (do require (symtab.size % symbolEntrySize = 0 ∧ symtab.offset % 8 = 0) .brokenSymbolTable
          let names ← f.symbolNames sections
          let entries ← f.symbolEntries symtab
          let layout ← readLayout names entries
          next layout : Outcome Audit) := by
  unfold File.symbols readLayout
  rw [hfind]
  simp only [bind_assoc, pure_bind]

end Audit

end KernelImage
