import KernelImage.Elf.Symbols
import KernelImage.Proofs.Elf.Section
import Mathlib.Data.List.Induction

/-!
# What the symbol table says

`File.entryAt` is the entry with a given index, read off the bytes. The value of a name is the value
of the last entry with this name.
-/

namespace KernelImage.Elf

/-! ## Finding sections -/

theorem findSection?_eq_some_iff {sections : List Section} {name : String} {h : SectionHeader} :
    findSection? sections name = some h ↔
      ∃ i, ∃ hi : i < sections.length, sections[i].name = name ∧ sections[i].header = h ∧
        ∀ j, (hj : j < i) → sections[j].name ≠ name := by
  simp only [findSection?, Option.map_eq_some_iff, List.find?_eq_some_iff_getElem, decide_eq_true_eq,
    Bool.not_eq_true', decide_eq_false_iff_not]
  constructor
  · rintro ⟨s, ⟨hname, i, hi, rfl, hfirst⟩, rfl⟩
    exact ⟨i, hi, hname, rfl, hfirst⟩
  · rintro ⟨i, hi, hname, rfl, hfirst⟩
    exact ⟨_, ⟨hname, i, hi, rfl, hfirst⟩, rfl⟩

/-! ## Entries -/

namespace SymbolEntry

def of (bytes : ByteArray) (start : Nat) : SymbolEntry where
  nameOffset := littleEndian bytes start 4
  sectionIndex := littleEndian bytes (start + 6) 2
  value := .ofNat (littleEndian bytes (start + 8) 8)

theorem read_eq {bytes : ByteArray} {start : Nat} (h : HasRange bytes start symbolEntrySize) :
    read bytes start = .ok (of bytes start) := by
  have at0 : number bytes start 4 = .ok (littleEndian bytes start 4) :=
    SectionHeader.number_within h (by decide : 0 + 4 ≤ 24)
  have at6 := SectionHeader.number_within h (by decide : 6 + 2 ≤ 24)
  have at8 := SectionHeader.number_within h (by decide : 8 + 8 ≤ 24)
  simp only [read, at0, at6, at8, ok_bind]
  rfl

/-- The symbol that an entry stands for: none without a terminated name. -/
def Named (names : ByteArray) (e : SymbolEntry) : Option NamedSymbol → Prop
  | none => ¬ Terminated names e.nameOffset
  | some s => HasText names e.nameOffset s.name ∧ s.value = e.value

theorem named_eq_ok_iff {names : ByteArray} {e : SymbolEntry} {o : Option NamedSymbol} :
    e.named names = .ok o ↔ e.Named names o := by
  unfold named
  split
  case h_1 hnone =>
    have hnone := terminator?_eq_none_iff.mp hnone
    cases o with
    | none => simp [Named, hnone]
    | some s =>
      simp only [Named, Except.ok.injEq, reduceCtorEq, false_iff, not_and]
      exact fun h => absurd h.terminated hnone
  case h_2 hsome =>
    have hterm : Terminated names e.nameOffset := terminated_iff_isSome.mpr (by simp [hsome])
    simp only [bind_eq_ok_iff, pure_eq_ok_iff, stringAt_eq_ok_iff]
    cases o with
    | none => simp [Named, hterm]
    | some s =>
      constructor
      · rintro ⟨text, htext, heq⟩
        obtain rfl := Option.some.inj heq
        exact ⟨htext, rfl⟩
      · rintro ⟨htext, hvalue⟩
        exact ⟨s.name, htext, by rw [← hvalue]⟩

theorem faults_named_iff {names : ByteArray} {e : SymbolEntry} :
    (e.named names).Faults ↔ Unreadable names e.nameOffset := by
  unfold named Unreadable
  split
  case h_1 hnone =>
    simp [terminator?_eq_none_iff.mp hnone, Outcome.not_faults_ok]
  case h_2 hsome =>
    have hterm : Terminated names e.nameOffset := terminated_iff_isSome.mpr (by simp [hsome])
    simp only [Outcome.faults_bind_iff, faults_stringAt_iff, Outcome.not_faults_pure, and_false,
      exists_false, or_false, hterm, true_and]

end SymbolEntry

/-! ## The last symbol with a name -/

theorem lastValue?_eq_find? (symbols : List NamedSymbol) (name : String) :
    lastValue? symbols name =
      (symbols.reverse.find? fun s => s.name = name).map NamedSymbol.value := by
  rw [lastValue?, ← List.head?_filter, List.filter_reverse, List.head?_reverse]

theorem lastValue?_append_singleton (l : List NamedSymbol) (s : NamedSymbol) (name : String) :
    lastValue? (l ++ [s]) name = if s.name = name then some s.value else lastValue? l name := by
  unfold lastValue?
  by_cases h : s.name = name <;> simp [List.filter_append, h]

theorem lastValue?_filterMap_eq_some_iff {named : List (Option NamedSymbol)} {name : String}
    {v : Address} :
    lastValue? (named.filterMap id) name = some v ↔
      ∃ k, ∃ hk : k < named.length, named[k] = some ⟨name, v⟩ ∧
        ∀ j, (hj : j < named.length) → k < j → ∀ w, named[j] ≠ some ⟨name, w⟩ := by
  induction named using List.reverseRecOn with
  | nil => simp [lastValue?]
  | append_singleton l o ih =>
    -- The last entry decides if it has the name; otherwise the entries before it do.
    by_cases ho : ∃ w, o = some ⟨name, w⟩
    · obtain ⟨w, rfl⟩ := ho
      simp only [List.filterMap_append, List.filterMap_cons_some (id_eq _), List.filterMap_nil]
      rw [lastValue?_append_singleton, if_pos rfl, Option.some.injEq]
      constructor
      · rintro rfl
        refine ⟨l.length, by simp, by simp, fun j hj hlt => ?_⟩
        simp only [List.length_append, List.length_singleton] at hj
        omega
      · rintro ⟨k, hk, hkey, hlast⟩
        have hkl : k = l.length := by
          by_contra hne
          simp only [List.length_append, List.length_singleton] at hk
          exact hlast l.length (by simp) (by omega) w (by simp)
        subst hkl
        simpa using hkey
    · have hskip : lastValue? ((l ++ [o]).filterMap id) name = lastValue? (l.filterMap id) name := by
        rw [List.filterMap_append]
        cases o with
        | none => simp
        | some s =>
          have hname : s.name ≠ name := fun h => ho ⟨s.value, by rw [← h]⟩
          simp only [List.filterMap_cons_some (id_eq _), List.filterMap_nil]
          rw [lastValue?_append_singleton, if_neg hname]
      rw [hskip, ih]
      constructor
      · rintro ⟨k, hk, hkey, hlast⟩
        refine ⟨k, by simp; omega, by rwa [List.getElem_append_left hk], fun j hj hlt w => ?_⟩
        by_cases hjl : j < l.length
        · rw [List.getElem_append_left hjl]
          exact hlast j hjl hlt w
        · rw [List.getElem_append_right (by omega), List.getElem_singleton]
          exact fun h => ho ⟨w, h⟩
      · rintro ⟨k, hk, hkey, hlast⟩
        have hkl : k < l.length := by
          by_contra hge
          rw [List.getElem_append_right (by omega), List.getElem_singleton] at hkey
          exact ho ⟨v, hkey⟩
        rw [List.getElem_append_left hkl] at hkey
        refine ⟨k, hkl, hkey, fun j hj hlt w => ?_⟩
        have := hlast j (by simp; omega) hlt w
        rwa [List.getElem_append_left hj] at this

namespace File

def entryAt (f : File) (table : SectionHeader) (k : Nat) : SymbolEntry :=
  .of f.bytes (table.offset + k * symbolEntrySize)

theorem symbolEntries_eq {f : File} {table : SectionHeader} (hclass : f.header.fileClass = .bits64)
    (htype : table.type? = some .symTab) (h : HasRange f.bytes table.offset table.size) :
    f.symbolEntries table =
      .ok ((List.range (table.size / symbolEntrySize)).map (f.entryAt table)) := by
  rw [symbolEntries, hclass, htype]
  apply mapM_eq_ok_map
  intro k hk
  apply SymbolEntry.read_eq
  have hk : k < table.size / symbolEntrySize := by simpa using hk
  unfold HasRange symbolEntrySize at *
  omega

/-- Contents that cannot be read, for a size that is a whole number of symbol entries. -/
def BrokenContents (c : FileClass) (t : SectionType) (size : Nat) : Prop :=
  match c with
  | .bits64 =>
    (t = .rel ∨ t = .dynamic) ∧ size % 16 ≠ 0 ∨ (t = .group ∨ t = .hash ∨ t = .note) ∧ size = 0
  | .bits32 =>
    (t = .symTab ∨ t = .dynSym) ∧ size % 16 ≠ 0 ∨ (t = .group ∨ t = .hash) ∧ size = 0 ∨ t = .note

theorem contentsFault?_isSome_iff {c : FileClass} {t : SectionType} {size : Nat}
    (h : size % symbolEntrySize = 0) :
    (contentsFault? c t size).isSome ↔ BrokenContents c t size := by
  unfold symbolEntrySize at h
  cases c <;> cases t <;> simp [contentsFault?, entrySize?, BrokenContents] <;> omega

theorem symbolEntries_eq_ok_iff {f : File} {table : SectionHeader}
    (h : table.type? = some .symTab → HasRange f.bytes table.offset table.size)
    {entries : List SymbolEntry} :
    f.symbolEntries table = .ok entries ↔
      f.header.fileClass = .bits64 ∧ table.type? = some .symTab ∧
        (List.range (table.size / symbolEntrySize)).map (f.entryAt table) = entries := by
  by_cases hsym : f.header.fileClass = .bits64 ∧ table.type? = some .symTab
  · obtain ⟨hclass, htype⟩ := hsym
    rw [symbolEntries_eq hclass htype (h htype)]
    simp [hclass, htype]
  · rw [← and_assoc, iff_false_intro hsym, false_and, iff_false]
    unfold symbolEntries
    split
    · exact absurd ⟨‹_›, ‹_›⟩ hsym
    · split
      · simp [Outcome.fault]
      · exact reject_ne_ok
    · exact reject_ne_ok

theorem faults_symbolEntries_iff {f : File} {table : SectionHeader}
    (h : table.type? = some .symTab → HasRange f.bytes table.offset table.size)
    (hsize : table.size % symbolEntrySize = 0) :
    (f.symbolEntries table).Faults ↔
      ∃ t, table.type? = some t ∧ BrokenContents f.header.fileClass t table.size := by
  by_cases hsym : f.header.fileClass = .bits64 ∧ table.type? = some .symTab
  · obtain ⟨hclass, htype⟩ := hsym
    rw [symbolEntries_eq hclass htype (h htype)]
    simp [hclass, htype, BrokenContents, Outcome.not_faults_ok]
  · unfold symbolEntries
    split
    · exact absurd ⟨‹_›, ‹_›⟩ hsym
    case h_2 t htype _ =>
      simp only [htype, Option.some.injEq, exists_eq_left', ← contentsFault?_isSome_iff hsize]
      split
      · simp [*, Outcome.faults_fault]
      · simp [*, not_faults_reject]
    case h_3 htype =>
      simp [htype, not_faults_reject]

/-! ## Names -/

theorem symbolNames_eq_ok_iff {f : File} {sections : List Section} {names : ByteArray} :
    f.symbolNames sections = .ok names ↔
      findSection? sections ".strtab" = none ∧ names = .empty ∨
      ∃ s, findSection? sections ".strtab" = some s ∧ HasRange f.bytes s.offset s.size ∧
        names = if s.type? = some .strTab then f.bytes.extract s.offset (s.offset + s.size)
          else .empty := by
  unfold symbolNames
  rcases findSection? sections ".strtab" with _ | s
  · simp [eq_comm]
  · simp only [bind_eq_ok_iff, range_eq_ok_iff, pure_eq_ok_iff, reduceCtorEq, false_and, false_or,
      Option.some.injEq, exists_eq_left']
    constructor
    · rintro ⟨_, ⟨hrange, rfl⟩, rfl⟩
      exact ⟨hrange, rfl⟩
    · rintro ⟨hrange, rfl⟩
      exact ⟨_, ⟨hrange, rfl⟩, rfl⟩

theorem not_faults_symbolNames {f : File} {sections : List Section} :
    ¬ (f.symbolNames sections).Faults := by
  unfold symbolNames
  split
  · exact Outcome.not_faults_ok _
  · simp only [Outcome.faults_bind_iff, not_faults_range, Outcome.not_faults_pure, and_false,
      exists_false, or_false, not_false_eq_true]

theorem not_terminated_empty (i : Nat) : ¬ Terminated .empty i := by
  rintro ⟨j, -, h⟩
  rw [getElem?_neg _ _ (by simp)] at h
  cases h

/-- Symbols have names only in a section `.strtab` that is a string table inside the file. -/
theorem exists_strtab_of_terminated {f : File} {sections : List Section} {names : ByteArray} {i : Nat}
    (h : f.symbolNames sections = .ok names) (ht : Terminated names i) :
    ∃ s, findSection? sections ".strtab" = some s ∧ HasRange f.bytes s.offset s.size ∧
      s.type? = some .strTab ∧ names = f.bytes.extract s.offset (s.offset + s.size) := by
  obtain ⟨-, rfl⟩ | ⟨s, hs, hrange, rfl⟩ := symbolNames_eq_ok_iff.mp h
  · exact absurd ht (not_terminated_empty i)
  · by_cases htype : s.type? = some .strTab
    · exact ⟨s, hs, hrange, htype, if_pos htype⟩
    · rw [if_neg htype] at ht
      exact absurd ht (not_terminated_empty i)

/-! ## Symbols -/

theorem symbols_eq_ok_iff {f : File} {sections : List Section}
    (h : ∀ table, findSection? sections ".symtab" = some table → table.type? = some .symTab →
      HasRange f.bytes table.offset table.size)
    {found : List NamedSymbol} :
    f.symbols sections = .ok found ↔
      ∃ table names named, findSection? sections ".symtab" = some table ∧
        table.size % symbolEntrySize = 0 ∧ table.offset % 8 = 0 ∧
        f.symbolNames sections = .ok names ∧
        f.header.fileClass = .bits64 ∧ table.type? = some .symTab ∧
        List.Forall₂ (SymbolEntry.Named names)
          ((List.range (table.size / symbolEntrySize)).map (f.entryAt table)) named ∧
        named.filterMap id = found := by
  unfold symbols
  rcases hfind : findSection? sections ".symtab" with _ | table
  · simp [reject]
  · simp only [bind_eq_ok_iff, require_eq_ok_iff, pure_eq_ok_iff, mapM_eq_ok_iff, exists_const,
      symbolEntries_eq_ok_iff (h table hfind), SymbolEntry.named_eq_ok_iff, Option.some.injEq]
    constructor
    · rintro ⟨⟨hsize, hoffset⟩, names, hnames, _, ⟨hclass, htype, rfl⟩, named, hnamed, rfl⟩
      exact ⟨table, names, named, rfl, hsize, hoffset, hnames, hclass, htype, hnamed, rfl⟩
    · rintro ⟨_, names, named, rfl, hsize, hoffset, hnames, hclass, htype, hnamed, rfl⟩
      exact ⟨⟨hsize, hoffset⟩, names, hnames, _, ⟨hclass, htype, rfl⟩, named, hnamed, rfl⟩

/-- The last entry of the table that has the name has the value `v`. -/
def LastEntry (f : File) (table : SectionHeader) (names : ByteArray) (name : String) (v : Address) :
    Prop :=
  ∃ k < table.size / symbolEntrySize, HasText names (f.entryAt table k).nameOffset name ∧
    (f.entryAt table k).value = v ∧
    ∀ j < table.size / symbolEntrySize, k < j → ¬ HasText names (f.entryAt table j).nameOffset name

theorem lastValue?_eq_some_iff {f : File} {table : SectionHeader} {names : ByteArray}
    {named : List (Option NamedSymbol)}
    (h : List.Forall₂ (SymbolEntry.Named names)
      ((List.range (table.size / symbolEntrySize)).map (f.entryAt table)) named)
    {name : String} {v : Address} :
    lastValue? (named.filterMap id) name = some v ↔ f.LastEntry table names name v := by
  have hlen : table.size / symbolEntrySize = named.length := by simpa using h.length_eq
  have hstep (k : Nat) (hk : k < named.length) :
      (f.entryAt table k).Named names named[k] := by
    simpa using (List.forall₂_iff_get.mp h).2 k (by simpa [hlen] using hk) hk
  have hkey (k : Nat) (hk : k < named.length) (w : Address) :
      named[k] = some ⟨name, w⟩ ↔
        HasText names (f.entryAt table k).nameOffset name ∧ (f.entryAt table k).value = w := by
    have hnamed := hstep k hk
    constructor
    · intro heq
      rw [heq] at hnamed
      exact ⟨hnamed.1, hnamed.2.symm⟩
    · rintro ⟨htext, rfl⟩
      rcases hs : named[k] with _ | s <;> rw [hs] at hnamed
      · exact absurd htext.terminated hnamed
      · obtain ⟨hname, hvalue⟩ := hnamed
        rw [← hvalue, ← hname.unique htext]
  rw [lastValue?_filterMap_eq_some_iff, LastEntry, hlen]
  constructor
  · rintro ⟨k, hk, heq, hlast⟩
    obtain ⟨htext, hvalue⟩ := (hkey k hk v).mp heq
    exact ⟨k, hk, htext, hvalue, fun j hj hlt hj' => hlast j hj hlt _ ((hkey j hj _).mpr ⟨hj', rfl⟩)⟩
  · rintro ⟨k, hk, htext, hvalue, hlast⟩
    exact ⟨k, hk, (hkey k hk v).mpr ⟨htext, hvalue⟩,
      fun j hj hlt w hw => hlast j hj hlt ((hkey j hj w).mp hw).1⟩

theorem faults_symbols_iff {f : File} {sections : List Section}
    (h : ∀ table, findSection? sections ".symtab" = some table → table.type? = some .symTab →
      HasRange f.bytes table.offset table.size) :
    (f.symbols sections).Faults ↔
      ∃ table names, findSection? sections ".symtab" = some table ∧
        table.size % symbolEntrySize = 0 ∧ table.offset % 8 = 0 ∧
        f.symbolNames sections = .ok names ∧
        ((∃ t, table.type? = some t ∧ BrokenContents f.header.fileClass t table.size) ∨
          f.header.fileClass = .bits64 ∧ table.type? = some .symTab ∧
            ∃ k < table.size / symbolEntrySize, Unreadable names (f.entryAt table k).nameOffset) := by
  unfold symbols
  rcases hfind : findSection? sections ".symtab" with _ | table
  · simp [not_faults_reject]
  have hstep (names : ByteArray) (e : SymbolEntry) :
      (e.named names).Faults ∨ ∃ o, e.named names = .ok o := by
    simp only [SymbolEntry.faults_named_iff, SymbolEntry.named_eq_ok_iff]
    by_cases hterm : Terminated names e.nameOffset
    · by_cases htext : ∃ text, HasText names e.nameOffset text
      · obtain ⟨text, htext⟩ := htext
        exact .inr ⟨some ⟨text, e.value⟩, htext, rfl⟩
      · exact .inl ⟨hterm, not_exists.mp htext⟩
    · exact .inr ⟨none, hterm⟩
  simp only [Outcome.faults_bind_iff, not_faults_require, require_eq_ok_iff, not_faults_symbolNames,
    Outcome.not_faults_pure, exists_const, false_or, and_false, or_false, Option.some.injEq,
    symbolEntries_eq_ok_iff (h table hfind), Outcome.faults_mapM_iff_exists fun e _ => hstep _ e,
    SymbolEntry.faults_named_iff]
  constructor
  · rintro ⟨⟨hsize, hoffset⟩, names, hnames, hfault⟩
    refine ⟨table, names, rfl, hsize, hoffset, hnames, ?_⟩
    rw [faults_symbolEntries_iff (h table hfind) hsize] at hfault
    rcases hfault with hfault | ⟨_, ⟨hclass, htype, rfl⟩, e, he, hfault⟩
    · exact .inl hfault
    · obtain ⟨k, hk, rfl⟩ := List.mem_map.mp he
      exact .inr ⟨hclass, htype, k, by simpa using hk, hfault⟩
  · rintro ⟨_, names, rfl, hsize, hoffset, hnames, hfault⟩
    refine ⟨⟨hsize, hoffset⟩, names, hnames, ?_⟩
    rw [faults_symbolEntries_iff (h table hfind) hsize]
    rcases hfault with hfault | ⟨hclass, htype, k, hk, hfault⟩
    · exact .inl hfault
    · refine .inr ⟨_, ⟨hclass, htype, rfl⟩, _, List.mem_map_of_mem (by simpa using hk), hfault⟩

end File

end KernelImage.Elf
