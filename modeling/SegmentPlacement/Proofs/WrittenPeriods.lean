import Mathlib.Data.List.Basic
import Mathlib.Data.List.TakeWhile
import Mathlib.Data.Nat.Digits.Defs
import SegmentPlacement.Period
import SegmentPlacement.Proofs.JsonScalars

/-! Periods as they are written: a number of units, with or without a plus sign,
between blanks. Reading a period accepts exactly these texts and returns the number
of seconds, so what is printed as a number and a unit is read back. -/

namespace SegmentPlacement

namespace Text

def digitValue (char : Char) : Nat := char.toNat - '0'.toNat

def decimalValue (digits : List Char) : Nat := Nat.ofDigits 10 (digits.reverse.map digitValue)

theorem isDigit_iff {char : Char} :
    char.isDigit = true ↔ '0'.toNat ≤ char.toNat ∧ char.toNat ≤ '9'.toNat := by
  simp [Char.isDigit, UInt32.le_iff_toNat_le]

theorem digit?_eq_some_iff {char : Char} {value : Nat} :
    digit? char = some value ↔ char.isDigit = true ∧ digitValue char = value := by
  rw [isDigit_iff, digit?]
  split
  · rename_i inside
    rw [Option.some.injEq, digitValue]
    exact (and_iff_right inside).symm
  · rename_i outside
    exact iff_of_false nofun fun reads => outside reads.1

private theorem decimalValue_cons (first : Char) (rest : List Char) :
    decimalValue (first :: rest) = digitValue first * 10 ^ rest.length + decimalValue rest := by
  rw [decimalValue, List.reverse_cons, List.map_append, Nat.ofDigits_append, List.length_map,
    List.length_reverse, List.map_singleton, Nat.ofDigits_singleton, Nat.add_comm, Nat.mul_comm]
  rfl

theorem continueNumber_eq_some_iff {high number : Nat} {chars : List Char} :
    continueNumber high chars = some number ↔ (∀ char ∈ chars, char.isDigit = true) ∧
      high * 10 ^ chars.length + decimalValue chars = number := by
  induction chars generalizing high with
  | nil => simp [continueNumber, decimalValue]
  | cons first rest ih =>
    rw [continueNumber, List.forall_mem_cons, decimalValue_cons, List.length_cons]
    cases read : digit? first with
    | none =>
      refine iff_of_false (Option.some_ne_none number).symm fun reads => ?_
      rw [digit?_eq_some_iff.mpr ⟨reads.1.1, rfl⟩] at read
      cases read
    | some value =>
      obtain ⟨digit, rfl⟩ := digit?_eq_some_iff.mp read
      have sum : (10 * high + digitValue first) * 10 ^ rest.length + decimalValue rest =
          high * 10 ^ (rest.length + 1) +
            (digitValue first * 10 ^ rest.length + decimalValue rest) := by ring
      rw [ih, sum, and_iff_right digit]

theorem digits?_eq_some_iff {chars : List Char} {number : Nat} :
    digits? chars = some number ↔
      chars ≠ [] ∧ (∀ char ∈ chars, char.isDigit = true) ∧ decimalValue chars = number := by
  cases chars with
  | nil => exact iff_of_false nofun fun reads => reads.1 rfl
  | cons first rest =>
    change continueNumber 0 (first :: rest) = some number ↔ _
    rw [continueNumber_eq_some_iff, Nat.zero_mul, Nat.zero_add]
    exact (and_iff_right (List.cons_ne_nil _ _)).symm

theorem unsigned?_eq_some_iff {limit number : Nat} {chars : List Char} :
    unsigned? limit chars = some number ↔ ∃ signed : Bool, ∃ digits,
      chars = (if signed then ['+'] else []) ++ digits ∧ digits? digits = some number ∧
        number < limit := by
  have plain {magnitude : Option Nat} :
      magnitude.filter (· < limit) = some number ↔ magnitude = some number ∧ number < limit := by
    rw [Option.filter_eq_some_iff, decide_eq_true_eq]
  unfold unsigned?
  split
  · rename_i rest
    rw [plain]
    constructor
    · intro ⟨reads, small⟩
      exact ⟨true, rest, rfl, reads, small⟩
    · intro ⟨signed, digits, same, reads, small⟩
      cases signed with
      | true => exact ⟨(List.cons.inj same).2 ▸ reads, small⟩
      | false =>
        obtain rfl : '+' :: rest = digits := same
        have digit := (digits?_eq_some_iff.mp reads).2.1 '+' List.mem_cons_self
        cases digit
  · rename_i unsigned
    rw [plain]
    constructor
    · intro ⟨reads, small⟩
      exact ⟨false, chars, rfl, reads, small⟩
    · intro ⟨signed, digits, same, reads, small⟩
      cases signed with
      | true => exact absurd same (unsigned digits)
      | false =>
        obtain rfl : chars = digits := same
        exact ⟨reads, small⟩

section strip

theorem isBlank_of_isDigit {char : Char} (digit : char.isDigit = true) : isBlank char = false := by
  have range : 48 ≤ char.toNat ∧ char.toNat ≤ 57 := isDigit_iff.mp digit
  rw [Bool.eq_false_iff]
  intro blank
  simp only [isBlank, blankRanges, List.any_cons, List.any_nil, Bool.or_eq_true, decide_eq_true_eq,
    Bool.or_false] at blank
  omega

variable {before inner after text : List Char}

theorem exists_strip (text : List Char) : ∃ before after, text = before ++ strip text ++ after ∧
    (∀ char ∈ before, isBlank char = true) ∧ ∀ char ∈ after, isBlank char = true := by
  let rest := text.dropWhile isBlank
  refine ⟨text.takeWhile isBlank, (rest.reverse.takeWhile isBlank).reverse, ?_, ?_, ?_⟩
  · have back : strip text ++ (rest.reverse.takeWhile isBlank).reverse = rest := by
      rw [strip, ← List.reverse_append, List.takeWhile_append_dropWhile, List.reverse_reverse]
    rw [List.append_assoc, back, List.takeWhile_append_dropWhile]
  · exact fun char member => List.mem_takeWhile_imp member
  · exact fun char member => List.mem_takeWhile_imp (List.mem_reverse.mp member)

private theorem dropWhile_blank_append (blank : ∀ char ∈ before, isBlank char = true)
    (ends : ∀ char ∈ inner.head?, isBlank char = false) (some : inner ≠ []) :
    (before ++ inner).dropWhile isBlank = inner := by
  rw [List.dropWhile_append_of_pos blank]
  cases inner with
  | nil => exact absurd rfl some
  | cons first rest => rw [List.dropWhile_cons_of_neg (by simpa using ends first rfl)]

private theorem strip_append (blank : ∀ char ∈ before, isBlank char = true)
    (alsoBlank : ∀ char ∈ after, isBlank char = true)
    (begins : ∀ char ∈ inner.head?, isBlank char = false)
    (ends : ∀ char ∈ inner.getLast?, isBlank char = false) (some : inner ≠ []) :
    strip (before ++ inner ++ after) = inner := by
  have front : (before ++ (inner ++ after)).dropWhile isBlank = inner ++ after := by
    refine dropWhile_blank_append blank ?_ (List.append_ne_nil_of_left_ne_nil some _)
    rwa [List.head?_append_of_ne_nil _ some]
  have back : (after.reverse ++ inner.reverse).dropWhile isBlank = inner.reverse := by
    refine dropWhile_blank_append (by simpa using alsoBlank) ?_ (by simpa using some)
    rwa [List.head?_reverse]
  rw [strip, List.append_assoc, front, List.reverse_append, back, List.reverse_reverse]

end strip

end Text

namespace Period
open Text

inductive Scale where
  | day
  | hour
  | minute
  | second

namespace Scale

def letter : Scale → Char
  | day => 'd'
  | hour => 'h'
  | minute => 'm'
  | second => 's'

def seconds : Scale → Nat
  | day => 86400
  | hour => 3600
  | minute => 60
  | second => 1

end Scale

/-- The parts of a period as it is written. -/
structure Form where
  before : List Char := []
  signed : Bool := false
  digits : List Char
  capital : Bool := false
  scale : Scale
  after : List Char := []

namespace Form

def letter (form : Form) : Char :=
  if form.capital then form.scale.letter.toUpper else form.scale.letter

def core (form : Form) : List Char :=
  (if form.signed then ['+'] else []) ++ form.digits ++ [form.letter]

def text (form : Form) : List Char := form.before ++ form.core ++ form.after

def number (form : Form) : Nat := decimalValue form.digits

def seconds (form : Form) : Nat := form.number * form.scale.seconds

/-- At least one digit and nothing but digits for a 64-bit word, and blanks around them. -/
structure Proper (form : Form) : Prop where
  before : ∀ char ∈ form.before, isBlank char = true
  some : form.digits ≠ []
  digits : ∀ char ∈ form.digits, char.isDigit = true
  small : form.number < wordCount 64
  after : ∀ char ∈ form.after, isBlank char = true

end Form

theorem unitSeconds?_eq_some_iff {letter : Char} {seconds : Nat} :
    unitSeconds? letter = some seconds ↔ ∃ (capital : Bool) (scale : Scale),
      (if capital then scale.letter.toUpper else scale.letter) = letter ∧
        scale.seconds = seconds := by
  constructor
  · intro found
    have known (scale : Scale)
        (listed : letter = scale.letter ∨ letter = scale.letter.toUpper)
        (counts : some scale.seconds = some seconds) : ∃ (capital : Bool) (scale : Scale),
        (if capital then scale.letter.toUpper else scale.letter) = letter ∧
          scale.seconds = seconds := by
      rcases listed with small | capital
      · exact ⟨false, scale, small.symm, Option.some.inj counts⟩
      · exact ⟨true, scale, capital.symm, Option.some.inj counts⟩
    unfold unitSeconds? at found
    split at found
    · exact known .day ‹_› found
    · split at found
      · exact known .hour ‹_› found
      · split at found
        · exact known .minute ‹_› found
        · split at found
          · exact known .second ‹_› found
          · cases found
  · intro ⟨capital, scale, same, counts⟩
    subst same counts
    cases capital <;> cases scale <;> rfl

theorem strippedSeconds?_eq_some_iff {chars : List Char} {count : Nat} :
    strippedSeconds? chars = some count ↔
      ∃ form : Form, form.Proper ∧ form.core = chars ∧ form.seconds = count := by
  rcases chars.eq_nil_or_concat with rfl | ⟨front, letter, rfl⟩
  · refine iff_of_false nofun fun ⟨form, _, empty, _⟩ => ?_
    exact List.append_ne_nil_of_right_ne_nil _ (List.cons_ne_nil _ _) empty
  · rw [strippedSeconds?, List.concat_eq_append, List.getLast?_concat, List.dropLast_concat]
    simp only [Option.bind_eq_bind, Option.bind_eq_some_iff, unsigned?_eq_some_iff,
      digits?_eq_some_iff, unitSeconds?_eq_some_iff]
    constructor
    · intro reads
      obtain ⟨number, ⟨signed, digits, rfl, ⟨some, all, rfl⟩, small⟩, _, unit, same⟩ := reads
      obtain ⟨capital, scale, rfl, rfl⟩ := unit
      exact ⟨{ signed, digits, capital, scale }, ⟨nofun, some, all, small, nofun⟩, rfl,
        Option.some.inj same⟩
    · intro ⟨form, proper, same, counts⟩
      obtain ⟨front, last⟩ := List.append_inj' same rfl
      exact ⟨form.number, ⟨form.signed, form.digits, front.symm, ⟨proper.some, proper.digits, rfl⟩,
        proper.small⟩, form.scale.seconds, ⟨form.capital, form.scale, List.cons.inj last |>.1, rfl⟩,
        congrArg some counts⟩

namespace Form

private theorem core_ne_nil (form : Form) : form.core ≠ [] :=
  List.append_ne_nil_of_right_ne_nil _ (List.cons_ne_nil _ _)

private theorem isBlank_letter (form : Form) : isBlank form.letter = false := by
  unfold letter
  cases form.capital <;> cases form.scale <;> rfl

theorem Proper.strip_text {form : Form} (proper : form.Proper) : strip form.text = form.core := by
  refine strip_append proper.before proper.after (fun char first => ?_) (fun char last => ?_)
    form.core_ne_nil
  · unfold core at first
    cases signed : form.signed with
    | true =>
      rw [signed] at first
      obtain rfl := Option.some.inj first
      rfl
    | false =>
      rw [signed, if_neg Bool.false_ne_true, List.nil_append,
        List.head?_append_of_ne_nil _ proper.some] at first
      exact isBlank_of_isDigit (proper.digits char (List.mem_of_mem_head? first))
  · rw [core, List.getLast?_concat] at last
    obtain rfl := Option.some.inj last
    exact form.isBlank_letter

end Form

/-- Reading a text accepts exactly the proper periods. -/
theorem seconds?_eq_some_iff {chars : List Char} {count : Nat} :
    seconds? chars = some count ↔
      ∃ form : Form, form.Proper ∧ form.text = chars ∧ form.seconds = count := by
  rw [seconds?, strippedSeconds?_eq_some_iff]
  constructor
  · intro ⟨form, proper, same, counts⟩
    obtain ⟨before, after, text, blank, alsoBlank⟩ := exists_strip chars
    refine ⟨{ form with before, after },
      ⟨blank, proper.some, proper.digits, proper.small, alsoBlank⟩, ?_, counts⟩
    rw [text, ← same]
    rfl
  · intro ⟨form, proper, same, counts⟩
    exact ⟨form, proper, by rw [← same, proper.strip_text], counts⟩

/-- A number as it is printed, and a unit. -/
def printed (number : Nat) (scale : Scale) : Form := { digits := Nat.toDigits 10 number, scale }

theorem number_printed (number : Nat) (scale : Scale) : (printed number scale).number = number :=
  (digits?_eq_some_iff.mp (digits?_toDigits number)).2.2

private theorem proper_printed {number : Nat} (scale : Scale) (small : number < wordCount 64) :
    (printed number scale).Proper := by
  obtain ⟨filled, digits, _⟩ := digits?_eq_some_iff.mp (digits?_toDigits number)
  exact ⟨nofun, filled, digits, (number_printed number scale).symm ▸ small, nofun⟩

private theorem text_printed (number : Nat) (scale : Scale) :
    (printed number scale).text = (toString number ++ String.singleton scale.letter).toList := by
  rw [String.toList_append, Nat.toString_eq_repr, Nat.toList_repr]
  simp [Form.text, Form.core, Form.letter, printed, String.toList_singleton]

/-- Where the number of seconds is a 64-bit word as well, reading a period returns it for exactly
the texts that are proper periods, and refuses all others with what is between the blanks. So a
number that is printed with its unit is read back. -/
theorem seconds_reads_forms :
    (∀ period : String, (∀ form : Form, form.Proper → form.text = period.toList →
        form.seconds < wordCount 64) →
      (∀ count, seconds period = .ok count ↔
        ∃ form : Form, form.Proper ∧ form.text = period.toList ∧ form.seconds = count) ∧
      ((¬ ∃ form : Form, form.Proper ∧ form.text = period.toList) → seconds period =
        .error (.invalidConfig (.period (String.ofList (strip period.toList)))))) ∧
    ∀ (number : Nat) (scale : Scale), number * scale.seconds < wordCount 64 →
      seconds (toString number ++ String.singleton scale.letter) = .ok (number * scale.seconds) := by
  have accepts (period : String) (count : Nat) : seconds period = .ok count ↔
      ∃ form : Form, form.Proper ∧ form.text = period.toList ∧ form.seconds = count := by
    rw [← seconds?_eq_some_iff, seconds]
    cases seconds? period.toList <;> simp
  refine ⟨fun period _ => ⟨accepts period, fun none => ?_⟩, fun number scale small => ?_⟩
  · unfold seconds
    cases read : seconds? period.toList with
    | none => rfl
    | some count =>
      obtain ⟨form, proper, same, _⟩ := seconds?_eq_some_iff.mp read
      exact absurd ⟨form, proper, same⟩ none
  · have word : number < wordCount 64 := by
      refine Nat.lt_of_le_of_lt (Nat.le_mul_of_pos_right number ?_) small
      cases scale <;> decide
    exact (accepts _ _).mpr ⟨printed number scale, proper_printed scale word,
      text_printed number scale, congrArg (· * scale.seconds) (number_printed number scale)⟩

/-- A week, with a sign, leading zeros and a capital unit between blanks. -/
def paddedWeek : String := " \t+007D "

theorem paddedWeek_read :
    (∀ form : Form, form.Proper → form.text = paddedWeek.toList → form.seconds < wordCount 64) ∧
      seconds paddedWeek = .ok 604800 ∧ 36 * Scale.hour.seconds < wordCount 64 ∧
      seconds (toString 36 ++ String.singleton Scale.hour.letter) = .ok 129600 := by
  have read : seconds? paddedWeek.toList = some 604800 := by decide +kernel
  have inRange (form : Form) (proper : form.Proper) (same : form.text = paddedWeek.toList) :
      form.seconds < wordCount 64 := by
    have also := seconds?_eq_some_iff.mpr ⟨form, proper, same, rfl⟩
    rw [← Option.some.inj (read.symm.trans also)]
    decide
  obtain ⟨reads, readsPrinted⟩ := seconds_reads_forms
  exact ⟨inRange, ((reads paddedWeek inRange).1 604800).mpr (seconds?_eq_some_iff.mp read),
    by decide, readsPrinted 36 .hour (by decide)⟩

end Period

end SegmentPlacement
