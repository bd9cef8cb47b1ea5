import KernelImage.Boot.Assembly
import KernelImage.Proofs.Script.Tokens

/-!
# Reading assembly text

`Assembly.parse` reads assembly text line by line. A rendered file is read back as it was.
-/

namespace KernelImage.Assembly

open Script

def readOperand (directive operand : String) : Option Line :=
  if directive = ".section" then some (.enterSection operand)
  else if directive = ".globl" then some (.global operand)
  else if directive = ".balign" then (readDigits 10 operand.toList).map .align
  else if directive = ".space" then (readDigits 10 operand.toList).map .space
  else if directive = "call" then some (.instr (.call operand))
  else none

def readTokens : List Token → Option Line
  | [] => some .blank
  | [.word w] =>
    if w.toList.getLast? = some ':' then some (.label (String.ofList w.toList.dropLast)) else none
  | [.word directive, .word operand] => readOperand directive operand
  | [.word a, .word b, .mark ',', .word symbol] =>
    if a = "la" ∧ b = "sp" then some (.instr (.loadStackPointer symbol)) else none
  | _ => none

def parseLine (line : String) : Option Line := do
  readTokens (← lex line)

/-- The lines of an assembly file, of which the last one is not ended. -/
def parse (text : String) : Option (List Line) :=
  (text.toList.splitOn '\n').mapM fun line => parseLine (String.ofList line)

/-! ## Lines -/

namespace Line

def Valid : Line → Prop
  | enterSection name => IsWord name
  | global symbol => IsWord symbol
  | label symbol => IsWord symbol
  | instr (.loadStackPointer symbol) => IsWord symbol
  | instr (.call symbol) => IsWord symbol
  | _ => True

instance (l : Line) : Decidable l.Valid :=
  match l with
  | enterSection name => inferInstanceAs (Decidable (IsWord name))
  | global symbol => inferInstanceAs (Decidable (IsWord symbol))
  | label symbol => inferInstanceAs (Decidable (IsWord symbol))
  | instr (.loadStackPointer symbol) => inferInstanceAs (Decidable (IsWord symbol))
  | instr (.call symbol) => inferInstanceAs (Decidable (IsWord symbol))
  | blank => isTrue trivial
  | align _ => isTrue trivial
  | space _ => isTrue trivial

def tokens : Line → List Token
  | blank => []
  | enterSection name => [.word ".section", .word name]
  | global symbol => [.word ".globl", .word symbol]
  | label symbol => [.word (symbol ++ ":")]
  | instr (.loadStackPointer symbol) => [.word "la", .word "sp", .mark ',', .word symbol]
  | instr (.call symbol) => [.word "call", .word symbol]
  | align n => [.word ".balign", .word (toString n)]
  | space n => [.word ".space", .word (toString n)]

theorem lexes_pair {v w : String} (hv : IsWord v) (hw : IsWord w) :
    Lexes (("    " ++ v ++ " " ++ w).toList ++ ['\n']) [.word v, .word w] := by
  simpa using (lexes_indentation.append (hv.lexes ends_space)).append (hw.lexes ends_newline)

theorem isWord_label {symbol : String} (h : IsWord symbol) : IsWord (symbol ++ ":") := by
  refine ⟨by simp, fun c hc => ?_⟩
  rw [String.toList_append, List.mem_append] at hc
  rcases hc with hc | hc
  · exact h.2 c hc
  · have hcolon : IsWord ":" := by decide
    exact hcolon.2 c hc

theorem lexes {l : Line} (hl : l.Valid) : Lexes (l.text.toList ++ ['\n']) l.tokens := by
  match l with
  | blank => exact ends_newline.lexes
  | enterSection name =>
    simpa [Line.text, tokens] using lexes_pair (by decide : IsWord ".section") hl
  | global symbol => simpa [Line.text, tokens] using lexes_pair (by decide : IsWord ".globl") hl
  | label symbol => exact (isWord_label hl).lexes ends_newline
  | instr (.loadStackPointer symbol) =>
    have hla : Lexes ("la".toList ++ [' ']) [.word "la"] :=
      IsWord.lexes (by decide) ends_space
    have hsp : Lexes ("sp".toList ++ [',']) [.word "sp", .mark ','] :=
      IsWord.lexes (by decide) (.mark (by decide))
    have hsymbol := IsWord.lexes hl ends_newline
    simpa [Line.text, Boot.Instr.text, tokens] using
      (((lexes_indentation.append hla).append hsp).append ends_space.lexes).append hsymbol
  | instr (.call symbol) =>
    simpa [Line.text, Boot.Instr.text, tokens] using lexes_pair (by decide : IsWord "call") hl
  | align n =>
    simpa [Line.text, tokens] using lexes_pair (by decide : IsWord ".balign") (isWord_toString n)
  | space n =>
    simpa [Line.text, tokens] using lexes_pair (by decide : IsWord ".space") (isWord_toString n)

theorem readTokens_tokens (l : Line) : readTokens l.tokens = some l := by
  have hdigits (n : Nat) := readDigits_toDigits (by decide : 1 < 10) (by decide) n
  match l with
  | blank => rfl
  | enterSection name => simp [tokens, readTokens, readOperand]
  | global symbol => simp [tokens, readTokens, readOperand]
  | label symbol => simp [tokens, readTokens]
  | instr (.loadStackPointer symbol) => simp [tokens, readTokens]
  | instr (.call symbol) => simp [tokens, readTokens, readOperand]
  | align n => simp [tokens, readTokens, readOperand, hdigits]
  | space n => simp [tokens, readTokens, readOperand, hdigits]

theorem parseLine_text {l : Line} (hl : l.Valid) : parseLine l.text = some l := by
  rw [parseLine, lex_eq_of_lexes_line (lexes hl)]
  exact readTokens_tokens l

theorem newline_not_mem_text {l : Line} (hl : l.Valid) : '\n' ∉ l.text.toList := by
  have hword {w : String} (hw : IsWord w) : '\n' ∉ w.toList := fun h =>
    absurd (hw.2 '\n' h) (by decide)
  have hnumber (n : Nat) : '\n' ∉ Nat.toDigits 10 n := by
    rw [← toList_toString]
    exact hword (isWord_toString n)
  match l with
  | blank => simp [Line.text]
  | enterSection name => simp [Line.text, hword (w := name) hl]
  | global symbol => simp [Line.text, hword (w := symbol) hl]
  | label symbol => simp [Line.text, hword (w := symbol) hl]
  | instr (.loadStackPointer symbol) => simp [Line.text, Boot.Instr.text, hword (w := symbol) hl]
  | instr (.call symbol) => simp [Line.text, Boot.Instr.text, hword (w := symbol) hl]
  | align n => simp [Line.text, hnumber]
  | space n => simp [Line.text, hnumber]

end Line

/-! ## Files -/

theorem splitOn_lines {lines : List (List Char)} (h : ∀ l ∈ lines, '\n' ∉ l) :
    (lines.flatMap fun l => l ++ ['\n']).splitOn '\n' = lines ++ [[]] := by
  induction lines with
  | nil => rfl
  | cons l ls ih =>
    have hl : l.splitOn '\n' = [l] := List.splitOn_eq_singleton (h l List.mem_cons_self)
    rw [List.flatMap_cons, List.append_assoc, List.singleton_append, List.splitOn_append_cons_self, hl,
      ih fun m hm => h m (List.mem_cons_of_mem _ hm)]
    rfl

theorem mapM_parseLine_text {lines : List Line} (h : ∀ l ∈ lines, l.Valid) :
    lines.mapM (fun l => parseLine l.text) = some lines := by
  induction lines with
  | nil => rfl
  | cons l ls ih =>
    have hrest := ih fun m hm => h m (List.mem_cons_of_mem _ hm)
    rw [List.mapM_cons, Line.parseLine_text (h l List.mem_cons_self), hrest]
    rfl

theorem parse_render {lines : List Line} (h : ∀ l ∈ lines, l.Valid) :
    parse (render lines) = some (lines ++ [.blank]) := by
  have htext : (render lines).toList =
      (lines.map fun l => l.text.toList).flatMap fun l => l ++ ['\n'] := by
    rw [render, String.toList_join, List.flatMap_map, List.flatMap_map]
    simp
  have hsplit : (render lines).toList.splitOn '\n' = (lines.map fun l => l.text.toList) ++ [[]] := by
    rw [htext, splitOn_lines]
    intro l hl
    obtain ⟨m, hm, rfl⟩ := List.mem_map.mp hl
    exact Line.newline_not_mem_text (h m hm)
  rw [parse, hsplit, List.mapM_append, List.mapM_map]
  simp only [Function.comp_def, String.ofList_toList]
  rw [mapM_parseLine_text h]
  rfl

end KernelImage.Assembly
