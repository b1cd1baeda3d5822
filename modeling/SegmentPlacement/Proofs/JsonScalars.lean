import Std.Data.String.ToNat
import SegmentPlacement.Json.Printer
import SegmentPlacement.Json.Reader

/-! Numbers and texts as JSON writes them are read back. What is read ends where it
was written to end, whatever stands behind it, as long as that does not go on with
the number. -/

namespace SegmentPlacement

namespace Text

theorem digit?_digitChar : ∀ digit < 10, digit? (Nat.digitChar digit) = some digit := by decide

theorem exists_of_mem_toDigits {number : Nat} {char : Char} (member : char ∈ Nat.toDigits 10 number) :
    ∃ digit < 10, char = Nat.digitChar digit := by
  induction number using Nat.strongRecOn with
  | _ number ih =>
    rw [Nat.toDigits_eq_if (by decide)] at member
    split at member
    · rename_i small
      exact ⟨number, small, List.mem_singleton.mp member⟩
    · rcases List.mem_append.mp member with high | last
      · exact ih (number / 10) (by omega) high
      · exact ⟨number % 10, Nat.mod_lt _ (by decide), List.mem_singleton.mp last⟩

theorem isDigit_of_mem_toDigits {number : Nat} {char : Char}
    (member : char ∈ Nat.toDigits 10 number) : isDigit char = true := by
  obtain ⟨digit, small, rfl⟩ := exists_of_mem_toDigits member
  rw [isDigit, digit?_digitChar digit small]
  rfl

private theorem continueNumber_append (high : Nat) (front back : List Char) :
    continueNumber high (front ++ back) =
      (continueNumber high front).bind fun number => continueNumber number back := by
  induction front generalizing high with
  | nil => rfl
  | cons char rest ih =>
    simp only [List.cons_append, continueNumber]
    cases digit? char with
    | none => rfl
    | some digit => exact ih _

private theorem continueNumber_toDigits (number : Nat) :
    continueNumber 0 (Nat.toDigits 10 number) = some number := by
  induction number using Nat.strongRecOn with
  | _ number ih =>
    rw [Nat.toDigits_eq_if (by decide)]
    split
    · rename_i small
      simp only [continueNumber, digit?_digitChar number small, Nat.mul_zero, Nat.zero_add]
    · rw [continueNumber_append, ih (number / 10) (by omega)]
      simp only [Option.bind_some, continueNumber,
        digit?_digitChar (number % 10) (Nat.mod_lt _ (by decide)), Nat.div_add_mod]

theorem digits?_toDigits (number : Nat) : digits? (Nat.toDigits 10 number) = some number := by
  have read := continueNumber_toDigits number
  cases written : Nat.toDigits 10 number with
  | nil => exact absurd written Nat.toDigits_ne_nil
  | cons first rest => rwa [written] at read

private theorem head_toDigits_ne_zero {number : Nat} (positive : number ≠ 0) :
    (Nat.toDigits 10 number).head? ≠ some '0' := by
  induction number using Nat.strongRecOn with
  | _ number ih =>
    rw [Nat.toDigits_eq_if (by decide)]
    split
    · rename_i small
      have apart : ∀ digit < 10, digit ≠ 0 → some (Nat.digitChar digit) ≠ some '0' := by decide
      exact apart number small positive
    · have earlier := ih (number / 10) (by omega) (by omega)
      cases written : Nat.toDigits 10 (number / 10) with
      | nil => exact absurd written Nat.toDigits_ne_nil
      | cons first rest => rwa [written] at earlier

end Text

namespace Json
open Text

/-- A number ends before this text. -/
def EndsNumber (rest : List Char) : Prop :=
  ∀ char, rest.head? = some char → isDigit char = false ∧ char ≠ '.' ∧ char ≠ 'e' ∧ char ≠ 'E'

private theorem takeDigits?_toDigits (number : Nat) {rest : List Char} (ends : EndsNumber rest) :
    takeDigits? (Nat.toDigits 10 number ++ rest) = some (Nat.toDigits 10 number, rest) := by
  have stop : rest.takeWhile isDigit = [] ∧ rest.dropWhile isDigit = rest := by
    cases rest with
    | nil => exact ⟨rfl, rfl⟩
    | cons char rest => simp [(ends char rfl).1]
  have all : ∀ char ∈ Nat.toDigits 10 number, isDigit char = true :=
    fun _ => isDigit_of_mem_toDigits
  simp only [takeDigits?, List.takeWhile_append_of_pos all, List.dropWhile_append_of_pos all,
    stop.1, stop.2, List.append_nil, List.isEmpty_eq_false_iff.mpr Nat.toDigits_ne_nil]
  rfl

private theorem takeWhole?_toDigits (number : Nat) {rest : List Char} (ends : EndsNumber rest) :
    takeWhole? (Nat.toDigits 10 number ++ rest) = some (Nat.toDigits 10 number, rest) := by
  by_cases zero : number = 0
  · subst zero
    have digits : Nat.toDigits 10 0 = ['0'] := by decide
    rw [digits]
    cases rest with
    | nil => rfl
    | cons char rest => simp [takeWhole?, (ends char rfl).1]
  · have head := head_toDigits_ne_zero zero
    have taken := takeDigits?_toDigits number ends
    unfold takeWhole?
    split
    · rename_i after same
      cases written : Nat.toDigits 10 number with
      | nil => exact absurd written Nat.toDigits_ne_nil
      | cons first others =>
        rw [written] at head same
        exact absurd (congrArg some (List.cons.inj same).1) head
    · exact taken

private theorem takeFraction?_of_ends {rest : List Char} (ends : EndsNumber rest) :
    takeFraction? rest = some (none, rest) := by
  unfold takeFraction?
  split
  · exact absurd rfl (ends '.' rfl).2.1
  · rfl

private theorem takeExponent?_of_ends {rest : List Char} (ends : EndsNumber rest) :
    takeExponent? rest = some (none, rest) := by
  cases rest with
  | nil => rfl
  | cons char rest =>
    obtain ⟨_, _, lower, upper⟩ := ends char rfl
    simp only [takeExponent?, lower, upper, or_self, if_false]

/-- The whole numbers that are kept exact. -/
def Exact (value : Int) : Prop := leastInt ≤ value ∧ value ≤ greatestInt

private theorem value?_toDigits_of_nat {number : Nat} (exact : Exact number) :
    Lexeme.value? ⟨false, Nat.toDigits 10 number, none, none⟩ = some (.int number) := by
  simp [Lexeme.value?, digits?_toDigits, exact.2]

private theorem value?_toDigits_of_negative {number : Nat} (positive : 0 < number)
    (exact : Exact (-(number : Int))) :
    Lexeme.value? ⟨true, Nat.toDigits 10 number, none, none⟩ = some (.int (-(number : Int))) := by
  simp [Lexeme.value?, digits?_toDigits, positive, exact.1]

private theorem head_toDigits_append_ne_minus (number : Nat) (rest after : List Char) :
    Nat.toDigits 10 number ++ rest ≠ '-' :: after := by
  intro same
  cases written : Nat.toDigits 10 number with
  | nil => exact Nat.toDigits_ne_nil written
  | cons first others =>
    rw [written] at same
    have digit : isDigit '-' = true := by
      rw [← (List.cons.inj same).1]
      exact isDigit_of_mem_toDigits (written ▸ List.mem_cons_self)
    exact absurd digit (by decide)

/-- The digits of a number are read as its value, with or without a sign. -/
theorem readNumber?_of_value {negative : Bool} {number : Nat} {value : Json} {rest : List Char}
    (ends : EndsNumber rest)
    (valued : Lexeme.value? ⟨negative, Nat.toDigits 10 number, none, none⟩ = some value) :
    readNumber? ((if negative then ['-'] else []) ++ Nat.toDigits 10 number ++ rest) =
      some (value, rest) := by
  unfold readNumber?
  split
  rename_i sign digits same
  have signed : (sign, digits) = (negative, Nat.toDigits 10 number ++ rest) := by
    rw [← same]
    cases negative with
    | true => rfl
    | false =>
      rw [if_neg Bool.false_ne_true, List.nil_append]
      split
      · rename_i after begun
        exact absurd begun (head_toDigits_append_ne_minus number rest after)
      · rfl
  obtain ⟨rfl, rfl⟩ := Prod.mk.inj signed
  simp only [takeWhole?_toDigits number ends, takeFraction?_of_ends ends,
    takeExponent?_of_ends ends, Option.bind_eq_bind, Option.bind_some, valued, Option.getD_some]
  rfl

theorem readNumber?_toString {value : Int} (exact : Exact value) {rest : List Char}
    (ends : EndsNumber rest) :
    readNumber? ((toString value).toList ++ rest) = some (.int value, rest) := by
  cases value with
  | ofNat number =>
    have written : (toString (Int.ofNat number)).toList = [] ++ Nat.toDigits 10 number :=
      Nat.toList_repr
    rw [written]
    exact readNumber?_of_value ends (value?_toDigits_of_nat exact)
  | negSucc number =>
    have written : (toString (Int.negSucc number)).toList = ['-'] ++ Nat.toDigits 10 (number + 1) := by
      rw [← Nat.toList_repr]
      exact String.toList_append
    rw [written]
    exact readNumber?_of_value ends (value?_toDigits_of_negative (Nat.succ_pos number) exact)

theorem hexDigit?_hexText : ∀ number < 0x20, hexDigit? (hexText (number / 16)) = some (number / 16) ∧
    hexDigit? (hexText number) = some (number % 16) := by decide

theorem readEscapedUnit?_control {char : Char} (control : char.toNat < 0x20) (rest : List Char) :
    readEscapedUnit? ('0' :: '0' :: hexText (char.toNat / 16) :: hexText char.toNat :: rest) =
      some (some char, rest) := by
  obtain ⟨high, low⟩ := hexDigit?_hexText char.toNat control
  have zero : hexDigit? '0' = some 0 := by decide
  have whole : ((0 * 16 + 0) * 16 + char.toNat / 16) * 16 + char.toNat % 16 = char.toNat := by omega
  have unit : readUnit? ('0' :: '0' :: hexText (char.toNat / 16) :: hexText char.toNat :: rest) =
      some (char.toNat, rest) := by
    simp only [readUnit?, zero, high, low, Option.bind_eq_bind, Option.bind_some, whole]
    rfl
  have small : char.toNat < 0xD800 := by omega
  simp only [readEscapedUnit?, unit, Option.bind_eq_bind, Option.bind_some, small, true_or, if_true,
    Char.ofNat_toNat]
  rfl

private theorem readString?_quotedChar (fuel : Nat) (collected : List Char) (char : Char)
    (rest : List Char) :
    readString? (fuel + 1) (some collected) (quotedChar char ++ rest) =
      readString? fuel (some (char :: collected)) rest := by
  unfold quotedChar
  split
  all_goals try rfl
  rename_i quote backslash _ _ _ _ _
  split
  · rename_i control
    simp [readString?, readEscapedUnit?_control control]
  · rename_i printed
    simp only [List.singleton_append, readString?, Option.map_some]
    rw [if_neg quote, if_neg backslash, if_neg printed]

private theorem length_quotedChar_pos (char : Char) : 0 < (quotedChar char).length := by
  unfold quotedChar
  split
  all_goals try exact Nat.zero_lt_succ _
  split <;> exact Nat.zero_lt_succ _

private theorem readString?_quoted (text collected rest : List Char) {fuel : Nat}
    (room : (text.flatMap quotedChar).length < fuel) :
    readString? fuel (some collected) (text.flatMap quotedChar ++ '"' :: rest) =
      some (some (String.ofList (collected.reverse ++ text)), rest) := by
  induction text generalizing fuel collected with
  | nil =>
    obtain ⟨fuel, rfl⟩ := Nat.exists_eq_add_of_lt room
    simp [readString?]
  | cons char text ih =>
    rw [List.flatMap_cons, List.length_append] at room
    have some := length_quotedChar_pos char
    obtain ⟨fuel, rfl⟩ : ∃ fewer, fuel = fewer + 1 := ⟨fuel - 1, by omega⟩
    rw [List.flatMap_cons, List.append_assoc, readString?_quotedChar, ih _ (by omega)]
    simp

/-- A text is read back from between its quotes. -/
theorem readText?_quoted (text : String) (rest : List Char) :
    readText? (text.toList.flatMap quotedChar ++ '"' :: rest) = some (some text, rest) := by
  have room : (text.toList.flatMap quotedChar).length <
      (text.toList.flatMap quotedChar ++ '"' :: rest).length + 1 := by
    simp only [List.length_append]
    omega
  have read := readString?_quoted text.toList [] rest room
  simpa [readText?] using read

/-- Whether a name is written with escapes. -/
def needsEscape (name : String) : Bool := isEscaped (name.toList.flatMap quotedChar)

theorem isEscaped_quoted (name : String) (rest : List Char) :
    isEscaped (name.toList.flatMap quotedChar ++ '"' :: rest) = needsEscape name := by
  unfold needsEscape isEscaped
  rw [List.takeWhile_append]
  split
  · rename_i whole
    rw [(List.takeWhile_prefix _).eq_of_length whole, List.takeWhile_cons_of_neg (by decide),
      List.append_nil]
  · rfl

theorem not_needsEscape_toString (number : Nat) : needsEscape (toString number) = false := by
  rw [needsEscape, isEscaped, Bool.eq_false_iff]
  intro escaped
  have written : (toString number).toList = Nat.toDigits 10 number := Nat.toList_repr
  have inside := (List.takeWhile_sublist _).subset (List.contains_iff_mem.mp escaped)
  rw [written] at inside
  obtain ⟨char, member, within⟩ := List.mem_flatMap.mp inside
  obtain ⟨digit, small, rfl⟩ := exists_of_mem_toDigits member
  have plain : ∀ digit < 10, '\\' ∉ quotedChar (Nat.digitChar digit) := by decide
  exact plain digit small within

end Json

end SegmentPlacement
