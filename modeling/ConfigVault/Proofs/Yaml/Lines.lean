import ConfigVault.Yaml.Cursor
import ConfigVault.Yaml.Writer

/-! # Lines

Written text is a sequence of lines, each of which ends with a line break and begins with spaces.
What a reader finds behind a line is the next one that holds anything, so most statements about
readers speak of a text `breakLine n t`: the line is over, and `t` stands `n` columns to the right
in the next one.
-/
namespace ConfigVault.Yaml

open Writer (spaces)

@[simp] theorem spaces_zero : spaces 0 = [] := rfl

theorem spaces_succ (n : Nat) : spaces (n + 1) = ' ' :: spaces n := rfl

@[simp] theorem length_spaces (n : Nat) : (spaces n).length = n := List.length_replicate ..

section Characters

variable {c : Char} {rest : List Char}

theorem isReturnOfPair_of_ne (h : c ≠ '\r') : isReturnOfPair c rest = false := by
  simp [isReturnOfPair, h]

theorem isReturnOfPair_of_not_break (h : isBreak c = false) : isReturnOfPair c rest = false :=
  isReturnOfPair_of_ne (by rintro rfl; cases h)

theorem isBreak_of_blank (h : isBlank c) : isBreak c = false := by
  rcases Bool.or_eq_true_iff.mp h with h | h <;> simp at h <;> subst h <;> rfl

theorem isBlank_of_break (h : isBreak c) : isBlank c = false := by
  cases hb : isBlank c with
  | false => rfl
  | true => rw [isBreak_of_blank hb] at h; cases h

end Characters

/-- The text is over or begins with something that a token can begin with: no blank, no comment, no
line break and no byte order mark. -/
def startsToken (t : List Char) : Bool :=
  t.head?.all fun c => !isBlank c && !isBreak c && c != '#' && c != '\ufeff'

theorem startsToken_cons {c : Char} {t : List Char} (h : startsToken (c :: t)) :
    isBlank c = false ∧ isBreak c = false ∧ c ≠ '#' ∧ c ≠ '\ufeff' := by
  simpa [startsToken, and_assoc] using h

/-- The end of a line and a text in the next one, `n` columns to the right. -/
def breakLine (n : Nat) (t : List Char) : List Char := '\n' :: (spaces n ++ t)

/-! ## Marks -/

/-- How many octets a text takes. -/
def octets : List Char → Nat
  | [] => 0
  | c :: cs => c.utf8Size + octets cs

@[simp] theorem octets_nil : octets [] = 0 := rfl

@[simp] theorem octets_cons (c : Char) (cs : List Char) :
    octets (c :: cs) = c.utf8Size + octets cs := rfl

@[simp] theorem octets_append (cs ds : List Char) :
    octets (cs ++ ds) = octets cs + octets ds := by
  induction cs with
  | nil => simp
  | cons c cs ih => simp [ih, Nat.add_assoc]

@[simp] theorem octets_spaces (n : Nat) : octets (spaces n) = n := by
  induction n with
  | zero => rfl
  | succ n ih => rw [spaces_succ, octets_cons, ih, Nat.add_comm]; rfl

namespace Mark

variable {m : Mark} {c : Char} {cs ds rest : List Char}

/-- The place behind a text that stands in one line. -/
def behind (m : Mark) (cs : List Char) : Mark :=
  ⟨m.index + octets cs, m.line, m.column + cs.length⟩

@[simp] theorem behind_line (m : Mark) (cs : List Char) : (m.behind cs).line = m.line := rfl

@[simp] theorem behind_column (m : Mark) (cs : List Char) :
    (m.behind cs).column = m.column + cs.length := rfl

@[simp] theorem behind_index (m : Mark) (cs : List Char) :
    (m.behind cs).index = m.index + octets cs := rfl

@[simp] theorem behind_nil (m : Mark) : m.behind [] = m := rfl

@[simp] theorem behind_behind (m : Mark) (cs ds : List Char) :
    (m.behind cs).behind ds = m.behind (cs ++ ds) := by
  simp [behind, Nat.add_assoc]

@[simp] theorem behind_spaces (m : Mark) (n : Nat) : m.behind (spaces n) = m.right n := by
  simp [behind, right]

/-- No character but a line break ends a line. -/
theorem past_of_not_break (h : isBreak c = false) : m.past c rest = m.behind [c] := by
  simp [past, behind, isReturnOfPair_of_not_break h, h]

theorem past_space (m : Mark) (rest : List Char) : m.past ' ' rest = m.right 1 := rfl

/-- The beginning of the line behind a line break. -/
def newLine (m : Mark) (c : Char) : Mark := ⟨m.index + c.utf8Size, m.line + 1, 0⟩

@[simp] theorem newLine_line (m : Mark) (c : Char) : (m.newLine c).line = m.line + 1 := rfl

@[simp] theorem newLine_column (m : Mark) (c : Char) : (m.newLine c).column = 0 := rfl

theorem past_of_break (h : isBreak c = true) (hr : c ≠ '\r') : m.past c rest = m.newLine c := by
  simp [past, newLine, isReturnOfPair_of_ne hr, h]

@[simp] theorem right_line (m : Mark) (n : Nat) : (m.right n).line = m.line := rfl

@[simp] theorem right_column (m : Mark) (n : Nat) : (m.right n).column = m.column + n := rfl

@[simp] theorem right_index (m : Mark) (n : Nat) : (m.right n).index = m.index + n := rfl

/-- The place `n` columns to the right in the next line, behind a line feed. -/
def nextLine (m : Mark) (n : Nat) : Mark := ⟨m.index + 1 + n, m.line + 1, n⟩

@[simp] theorem nextLine_line (m : Mark) (n : Nat) : (m.nextLine n).line = m.line + 1 := rfl

@[simp] theorem nextLine_column (m : Mark) (n : Nat) : (m.nextLine n).column = n := rfl

theorem right_newLine (m : Mark) (n : Nat) : (m.newLine '\n').right n = m.nextLine n := by
  rw [right, nextLine, newLine, Nat.zero_add]
  rfl

theorem pastMany_of_no_break (h : ∀ c ∈ cs, isBreak c = false) (m : Mark) (rest : List Char) :
    m.pastMany cs.length (cs ++ rest) = m.behind cs := by
  induction cs generalizing m with
  | nil => rfl
  | cons c cs ih =>
    rw [List.length_cons, List.cons_append, pastMany, past_of_not_break (h c (by simp)),
      ih fun d hd => h d (by simp [hd]), behind_behind, List.singleton_append]

theorem pastMany_spaces (m : Mark) (n : Nat) (rest : List Char) :
    m.pastMany n (spaces n ++ rest) = m.right n := by
  have h := @pastMany_of_no_break (spaces n)
    (fun c hc => by rw [List.eq_of_mem_replicate hc]; rfl) m rest
  rwa [length_spaces, behind_spaces] at h

end Mark

end ConfigVault.Yaml
