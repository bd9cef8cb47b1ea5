import Mathlib.Tactic.Common

/-!
# Words and marks in a text

A text is read from left to right into words, marks and quoted texts. `Lexes` says what tokens a piece
of text gives wherever it starts between two tokens, so pieces can be put together.
-/

namespace KernelImage.Script

inductive Token where
  | word (w : String)
  | mark (c : Char)
  | quoted (text : String)
deriving DecidableEq

def isMark (c : Char) : Bool := ['(', ')', '\x7b', '\x7d', ';', ','].contains c

def isBlank (c : Char) : Bool := c = ' ' || c = '\n'

def isWordChar (c : Char) : Bool := !isMark c && !isBlank c && c ≠ '"'

/-- The characters of a token that is not complete yet. -/
inductive Pending where
  | between
  | word (w : List Char)
  | quoted (text : List Char)

structure Lexing where
  tokens : List Token
  pending : Pending

namespace Lexing

/-- The tokens, with a pending word as the last one. -/
def closed (s : Lexing) : List Token :=
  match s.pending with
  | .word w => s.tokens ++ [.word (String.ofList w)]
  | _ => s.tokens

def plain (s : Lexing) (c : Char) : Lexing :=
  if c = '"' then ⟨s.closed, .quoted []⟩
  else if isMark c then ⟨s.closed ++ [.mark c], .between⟩
  else if isBlank c then ⟨s.closed, .between⟩
  else match s.pending with
    | .word w => ⟨s.tokens, .word (w ++ [c])⟩
    | _ => ⟨s.tokens, .word [c]⟩

def step (s : Lexing) (c : Char) : Lexing :=
  match s.pending with
  | .quoted text =>
    if c = '"' then ⟨s.tokens ++ [.quoted (String.ofList text)], .between⟩
    else ⟨s.tokens, .quoted (text ++ [c])⟩
  | _ => s.plain c

end Lexing

/-- The tokens of a text, unless a quoted text does not end. -/
def lex (text : String) : Option (List Token) :=
  let s := text.toList.foldl Lexing.step ⟨[], .between⟩
  match s.pending with
  | .quoted _ => none
  | _ => some s.closed

/-- Read between two tokens, the piece of text gives just these tokens. -/
def Lexes (text : List Char) (tokens : List Token) : Prop :=
  ∀ before, text.foldl Lexing.step ⟨before, .between⟩ = ⟨before ++ tokens, .between⟩

theorem lex_eq_of_lexes {text : String} {tokens : List Token} (h : Lexes text.toList tokens) :
    lex text = some tokens := by
  unfold lex
  rw [h []]
  rfl

/-- A line break closes the last word, as the end of a text does. -/
theorem lex_eq_of_lexes_line {text : String} {tokens : List Token}
    (h : Lexes (text.toList ++ ['\n']) tokens) : lex text = some tokens := by
  have hstep := h []
  rw [List.foldl_append, List.nil_append, List.foldl_cons, List.foldl_nil] at hstep
  unfold lex
  rcases hs : text.toList.foldl Lexing.step ⟨[], .between⟩ with ⟨read, _ | w | w⟩ <;> rw [hs] at hstep
  · exact congrArg some (congrArg Lexing.tokens hstep)
  · exact congrArg some (congrArg Lexing.tokens hstep)
  · exact absurd (congrArg Lexing.pending hstep) (by simp [Lexing.step])

namespace Lexes

theorem nil : Lexes [] [] := by
  intro before
  simp

theorem append {a b : List Char} {ta tb : List Token} (ha : Lexes a ta) (hb : Lexes b tb) :
    Lexes (a ++ b) (ta ++ tb) := by
  intro before
  rw [List.foldl_append, ha before, hb, List.append_assoc]

theorem blank {c : Char} (hc : isBlank c) : Lexes [c] [] := by
  intro before
  have hquote : c ≠ '"' := by rintro rfl; exact absurd hc (by decide)
  have hmark : isMark c = false := by
    simp only [isBlank, Bool.or_eq_true, decide_eq_true_eq] at hc
    rcases hc with rfl | rfl <;> decide
  simp [Lexing.step, Lexing.plain, Lexing.closed, hquote, hmark, hc]

theorem mark {c : Char} (hc : isMark c) : Lexes [c] [.mark c] := by
  intro before
  have hquote : c ≠ '"' := by rintro rfl; exact absurd hc (by decide)
  simp [Lexing.step, Lexing.plain, Lexing.closed, hquote, hc]

end Lexes

/-! ## Words -/

def IsWord (w : String) : Prop := w ≠ "" ∧ ∀ c ∈ w.toList, isWordChar c

instance (w : String) : Decidable (IsWord w) :=
  @instDecidableAnd (w ≠ "") (∀ c ∈ w.toList, isWordChar c) inferInstance
    (List.decidableBAll _ w.toList)

theorem step_word {before : List Token} {w : List Char} {c : Char} (hc : isWordChar c) :
    Lexing.step ⟨before, .word w⟩ c = ⟨before, .word (w ++ [c])⟩ := by
  simp only [isWordChar, Bool.and_eq_true, Bool.not_eq_true', decide_eq_true_eq] at hc
  obtain ⟨⟨hmark, hblank⟩, hquote⟩ := hc
  simp [Lexing.step, Lexing.plain, hquote, hmark, hblank]

theorem foldl_step_word {before : List Token} {w cs : List Char} (hcs : ∀ c ∈ cs, isWordChar c) :
    cs.foldl Lexing.step ⟨before, .word w⟩ = ⟨before, .word (w ++ cs)⟩ := by
  induction cs generalizing w with
  | nil => simp
  | cons c cs ih =>
    rw [List.foldl_cons, step_word (hcs c List.mem_cons_self),
      ih fun d hd => hcs d (List.mem_cons_of_mem _ hd), List.append_assoc]
    rfl

theorem step_between {before : List Token} {c : Char} (hc : isWordChar c) :
    Lexing.step ⟨before, .between⟩ c = ⟨before, .word [c]⟩ := by
  simp only [isWordChar, Bool.and_eq_true, Bool.not_eq_true', decide_eq_true_eq] at hc
  obtain ⟨⟨hmark, hblank⟩, hquote⟩ := hc
  simp [Lexing.step, Lexing.plain, hquote, hmark, hblank]

/-- What ends a word: a mark, which is a token as well, or a blank. -/
inductive Ends : Char → List Token → Prop where
  | mark {c : Char} (hc : isMark c) : Ends c [.mark c]
  | blank {c : Char} (hc : isBlank c) : Ends c []

theorem Ends.lexes {c : Char} {t : List Token} (h : Ends c t) : Lexes [c] t := by
  cases h with
  | mark hc => exact .mark hc
  | blank hc => exact .blank hc

theorem ends_space : Ends ' ' [] := .blank (by decide)

theorem ends_newline : Ends '\n' [] := .blank (by decide)

theorem lexes_indentation : Lexes "    ".toList [] :=
  ((ends_space.lexes.append ends_space.lexes).append ends_space.lexes).append ends_space.lexes

theorem Ends.step {c : Char} {t : List Token} (h : Ends c t) {s : Lexing} {w : List Char}
    (hs : s.pending = .word w) :
    Lexing.step s c = ⟨s.tokens ++ [.word (String.ofList w)] ++ t, .between⟩ := by
  have hstep := h.lexes (s.tokens ++ [.word (String.ofList w)])
  obtain ⟨tokens, pending⟩ := s
  subst hs
  rw [List.foldl_cons, List.foldl_nil] at hstep
  rw [← hstep]
  have hquote : c ≠ '"' := by
    rintro rfl
    cases h with
    | mark hc => exact absurd hc (by decide)
    | blank hc => exact absurd hc (by decide)
  cases h with
  | mark hc => simp [Lexing.step, Lexing.plain, Lexing.closed, hquote, hc]
  | blank hc =>
    rcases hmark : isMark c with _ | _ <;>
      simp [Lexing.step, Lexing.plain, Lexing.closed, hquote, hmark, hc]

theorem IsWord.lexes {w : String} (hw : IsWord w) {c : Char} {t : List Token} (hc : Ends c t) :
    Lexes (w.toList ++ [c]) (.word w :: t) := by
  intro before
  obtain ⟨hne, hchars⟩ := hw
  rcases hcs : w.toList with _ | ⟨d, ds⟩
  · exact absurd (String.toList_eq_nil_iff.mp hcs) hne
  · rw [hcs] at hchars
    have hword : (d :: ds).foldl Lexing.step ⟨before, .between⟩ = ⟨before, .word (d :: ds)⟩ := by
      rw [List.foldl_cons, step_between (hchars d List.mem_cons_self),
        foldl_step_word fun e he => hchars e (List.mem_cons_of_mem _ he)]
      rfl
    rw [List.foldl_append, hword, List.foldl_cons, List.foldl_nil, hc.step rfl, ← hcs,
      String.ofList_toList, List.append_assoc]
    rfl

/-! ## Quoted texts -/

theorem foldl_step_quoted {before : List Token} {text cs : List Char} (hcs : '"' ∉ cs) :
    cs.foldl Lexing.step ⟨before, .quoted text⟩ = ⟨before, .quoted (text ++ cs)⟩ := by
  induction cs generalizing text with
  | nil => simp
  | cons c cs ih =>
    rw [List.mem_cons, not_or] at hcs
    have hstep : Lexing.step ⟨before, .quoted text⟩ c = ⟨before, .quoted (text ++ [c])⟩ := by
      simp [Lexing.step, Ne.symm hcs.1]
    rw [List.foldl_cons, hstep, ih hcs.2, List.append_assoc]
    rfl

theorem Lexes.quoted {text : String} (h : '"' ∉ text.toList) :
    Lexes (['"'] ++ text.toList ++ ['"']) [.quoted text] := by
  intro before
  have hopen : ['"'].foldl Lexing.step ⟨before, .between⟩ = ⟨before, .quoted []⟩ := rfl
  have hclose (t : List Char) : ['"'].foldl Lexing.step ⟨before, .quoted t⟩ =
      ⟨before ++ [.quoted (String.ofList t)], .between⟩ := rfl
  rw [List.foldl_append, List.foldl_append, hopen, foldl_step_quoted h, List.nil_append, hclose,
    String.ofList_toList]

end KernelImage.Script
