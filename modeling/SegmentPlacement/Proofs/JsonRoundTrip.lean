import SegmentPlacement.Proofs.JsonScalars

/-! Values that are written over lines are read back. A reader notes of every object
whether its names are written with escapes, which a writer cannot tell, so what is
read back is the value with its objects marked anew. -/

namespace SegmentPlacement.Json
open Text

mutual

/-- The value with every object marked by the names of its members. -/
def marked (mark : List String → Bool) : Json → Json
  | .arr items => .arr (markedItems mark items)
  | .obj members _ => .obj (markedMembers mark members) (mark (members.map Prod.fst))
  | value => value

def markedItems (mark : List String → Bool) : List Json → List Json
  | [] => []
  | item :: rest => marked mark item :: markedItems mark rest

def markedMembers (mark : List String → Bool) : List (String × Json) → List (String × Json)
  | [] => []
  | (name, value) :: rest => (name, marked mark value) :: markedMembers mark rest

end

variable {mark : List String → Bool}

theorem markedItems_eq_map (items : List Json) :
    markedItems mark items = items.map (marked mark) := by
  induction items with
  | nil => rfl
  | cons item rest ih => rw [markedItems, ih, List.map_cons]

theorem markedMembers_eq_map (members : List (String × Json)) :
    markedMembers mark members = members.map fun member => (member.1, marked mark member.2) := by
  induction members with
  | nil => rfl
  | cons member rest ih => rw [markedMembers, ih, List.map_cons]

/-- What is written without loss: whole numbers are kept exact, objects are not marked, and at most
`levels` arrays and objects stand inside each other. -/
inductive Plain : Nat → Json → Prop where
  | null {levels : Nat} : Plain levels .null
  | bool {levels : Nat} (value : Bool) : Plain levels (.bool value)
  | int {levels : Nat} {value : Int} (exact : Exact value) : Plain levels (.int value)
  | str {levels : Nat} (value : String) : Plain levels (.str value)
  | arr {levels : Nat} {items : List Json} (each : ∀ item ∈ items, Plain levels item) :
      Plain (levels + 1) (.arr items)
  | obj {levels : Nat} {members : List (String × Json)}
      (each : ∀ member ∈ members, Plain levels member.2) : Plain (levels + 1) (.obj members)

theorem Plain.mono {levels others : Nat} {value : Json} (plain : Plain levels value)
    (most : levels ≤ others) : Plain others value := by
  induction plain generalizing others with
  | null => exact .null
  | bool value => exact .bool value
  | int exact => exact .int exact
  | str value => exact .str value
  | arr _ ih =>
    obtain ⟨others, rfl⟩ : ∃ fewer, others = fewer + 1 := ⟨others - 1, by omega⟩
    exact .arr fun item member => ih item member (by omega)
  | obj _ ih =>
    obtain ⟨others, rfl⟩ : ∃ fewer, others = fewer + 1 := ⟨others - 1, by omega⟩
    exact .obj fun item member => ih item member (by omega)

theorem Plain.nil {levels : Nat} : Plain (levels + 1) (.obj []) := .obj nofun

theorem Plain.cons {levels : Nat} {name : String} {value : Json} {members : List (String × Json)}
    (first : Plain levels value) (rest : Plain (levels + 1) (.obj members)) :
    Plain (levels + 1) (.obj ((name, value) :: members)) := by
  cases rest with
  | obj each => exact .obj (List.forall_mem_cons.mpr ⟨first, each⟩)

theorem Plain.marked_never {levels : Nat} {value : Json} (plain : Plain levels value) :
    value.marked (fun _ => false) = value := by
  induction plain with
  | arr _ ih => rw [marked, markedItems_eq_map, List.map_congr_left ih, List.map_id']
  | @obj _ members _ ih =>
    have same : ∀ member ∈ members, (member.1, member.2.marked fun _ => false) = member :=
      fun member listed => Prod.ext rfl (ih member listed)
    rw [marked, markedMembers_eq_map, List.map_congr_left same, List.map_id']
  | _ => rfl

private theorem areSound_eq_all (items : List Json) : areSound items = items.all isSound := by
  induction items with
  | nil => rfl
  | cons item rest ih => rw [areSound, ih, List.all_cons]

private theorem areSoundMembers_eq_all (members : List (String × Json)) :
    areSoundMembers members = members.all fun member => member.2.isSound := by
  induction members with
  | nil => rfl
  | cons member rest ih => rw [areSoundMembers, ih, List.all_cons]

theorem Plain.isSound_marked {levels : Nat} {value : Json} (plain : Plain levels value)
    (mark : List String → Bool) : (value.marked mark).isSound = true := by
  induction plain with
  | arr _ ih =>
    rw [marked, isSound, markedItems_eq_map, areSound_eq_all, List.all_map]
    exact List.all_eq_true.mpr ih
  | obj _ ih =>
    rw [marked, isSound, markedMembers_eq_map, areSoundMembers_eq_all, List.all_map]
    exact List.all_eq_true.mpr ih
  | _ => rfl

/-! ### Blanks -/

def Blank (chars : List Char) : Prop := ∀ char ∈ chars, isSpace char = true

private theorem toList_newline (level : Nat) :
    (newline level).toList = '\n' :: List.replicate (2 * level) ' ' := by
  simp [newline]

private theorem blank_newline (level : Nat) : Blank (newline level).toList := by
  rw [toList_newline]
  intro char member
  rcases List.mem_cons.mp member with rfl | later
  · rfl
  · rw [List.eq_of_mem_replicate later]
    rfl

variable {blanks : List Char}

theorem dropWhile_blank (blank : Blank blanks) {first : Char} (front : isSpace first = false)
    (rest : List Char) : (blanks ++ first :: rest).dropWhile isSpace = first :: rest := by
  rw [List.dropWhile_append_of_pos blank, List.dropWhile_cons_of_neg (Bool.eq_false_iff.mp front)]

private theorem readValue?_blank (blank : Blank blanks) (fuel depth : Nat) (chars : List Char) :
    readValue? fuel depth (blanks ++ chars) = readValue? fuel depth chars := by
  cases fuel with
  | zero => rfl
  | succ fuel => simp only [readValue?, List.dropWhile_append_of_pos blank]

private theorem readItems?_blank (blank : Blank blanks) (fuel depth : Nat) (collected : List Json)
    (chars : List Char) :
    readItems? fuel depth collected (blanks ++ chars) = readItems? fuel depth collected chars := by
  cases fuel with
  | zero => rfl
  | succ fuel => simp only [readItems?, readValue?_blank blank]

private theorem readMembers?_blank (blank : Blank blanks) (fuel depth : Nat)
    (collected : Option (List (String × Json))) (escaped : Bool) (chars : List Char) :
    readMembers? fuel depth collected escaped (blanks ++ chars) =
      readMembers? fuel depth collected escaped chars := by
  cases fuel with
  | zero => rfl
  | succ fuel => simp only [readMembers?, List.dropWhile_append_of_pos blank]

/-! ### Scalars -/

private theorem isSpace_eq_false_of_isDigit {char : Char} (digit : isDigit char = true) :
    isSpace char = false := by
  rw [Bool.eq_false_iff]
  intro space
  simp only [isSpace, Bool.or_eq_true, beq_iff_eq] at space
  rcases space with ((rfl | rfl) | rfl) | rfl <;> exact absurd digit (by decide)

private theorem readValue?_of_number {first : Char} (number : isDigit first = true ∨ first = '-')
    (fuel depth : Nat) (rest : List Char) :
    readValue? (fuel + 1) depth (first :: rest) = readNumber? (first :: rest) := by
  have front : isSpace first = false := by
    rcases number with digit | rfl
    · exact isSpace_eq_false_of_isDigit digit
    · rfl
  have apart : ∀ {char : Char}, isDigit char = false → char ≠ '-' → first ≠ char := by
    rintro char other unsigned rfl
    rcases number with digit | same
    · exact Bool.false_ne_true (other.symm.trans digit)
    · exact unsigned same
  rw [readValue?, List.dropWhile_cons_of_neg (Bool.eq_false_iff.mp front)]
  split
  · rename_i none
    cases none
  all_goals first
    | rfl
    | rename_i same
      exact absurd (List.cons.inj same).1 (apart (by decide) (by decide))

private theorem toString_begins (value : Int) :
    ∃ first rest, (toString value).toList = first :: rest ∧ (isDigit first = true ∨ first = '-') := by
  cases value with
  | ofNat number =>
    have written : (toString (Int.ofNat number)).toList = Nat.toDigits 10 number := Nat.toList_repr
    cases digits : Nat.toDigits 10 number with
    | nil => exact absurd digits Nat.toDigits_ne_nil
    | cons first rest =>
      exact ⟨first, rest, written.trans digits,
        Or.inl (isDigit_of_mem_toDigits (digits ▸ List.mem_cons_self))⟩
  | negSucc number => exact ⟨'-', _, String.toList_append, Or.inr rfl⟩

private theorem toList_quoted (text : String) :
    (quoted text).toList = '"' :: (text.toList.flatMap quotedChar ++ ['"']) := by
  simp [quoted]

private theorem readValue?_quoted (fuel depth : Nat) (text : String) (rest : List Char) :
    readValue? (fuel + 1) depth ((quoted text).toList ++ rest) = some (.str text, rest) := by
  have front : isSpace '"' = false := rfl
  rw [toList_quoted, List.cons_append, List.append_assoc, List.singleton_append, readValue?,
    List.dropWhile_cons_of_neg (Bool.eq_false_iff.mp front)]
  simp only [readText?_quoted, Option.map_some, Option.getD_some]

/-! ### Arrays and objects -/

/-- The mark of a reader: whether a name is written with escapes. -/
def escapes (names : List String) : Bool := names.any needsEscape

/-- Inside `depth` arrays and objects the value is read back from where it was laid out. -/
def ReadsBack (level depth : Nat) (value : Json) : Prop :=
  ∀ fuel rest, EndsNumber rest → (indented level value).toList.length < fuel →
    readValue? fuel depth ((indented level value).toList ++ rest) =
      some (value.marked escapes, rest)

private theorem endsNumber_newline (level : Nat) (rest : List Char) :
    EndsNumber ((newline level).toList ++ rest) := by
  rw [toList_newline]
  intro char front
  cases front
  decide

private theorem endsNumber_comma (rest : List Char) : EndsNumber (',' :: rest) := by
  intro char front
  cases front
  decide

private theorem placed_some {depth : Nat} (shallow : depth ≤ depthLimit) (value : Json) :
    placed depth (some value) = value := if_pos shallow

variable {level depth : Nat}

private theorem indentedItems_cons (item next : Json) (rest : List Json) :
    (indentedItems level (item :: next :: rest)).toList =
      (newline level).toList ++ (indented level item).toList ++
        ',' :: (indentedItems level (next :: rest)).toList := by
  simp [indentedItems]

private theorem indentedItems_singleton (item : Json) :
    (indentedItems level [item]).toList =
      (newline level).toList ++ (indented level item).toList := by
  simp [indentedItems]

private theorem length_newline_pos (level : Nat) : 0 < (newline level).toList.length := by
  rw [toList_newline]
  exact Nat.succ_pos _

theorem readItems?_indented {items : List Json} (each : ∀ item ∈ items, ReadsBack level depth item)
    (filled : items ≠ []) (shallow : depth ≤ depthLimit) (close : Nat) (rest : List Char)
    {fuel : Nat} (room : (indentedItems level items).toList.length < fuel) (collected : List Json) :
    readItems? fuel depth collected
        ((indentedItems level items).toList ++ ((newline close).toList ++ ']' :: rest)) =
      some (.arr (collected.reverse ++ items.map (marked escapes)), rest) := by
  induction items generalizing fuel collected with
  | nil => exact absurd rfl filled
  | cons item others ih =>
    obtain ⟨here, there⟩ := List.forall_mem_cons.mp each
    obtain ⟨fuel, rfl⟩ : ∃ fewer, fuel = fewer + 1 := ⟨fuel - 1, by omega⟩
    have line := length_newline_pos level
    cases others with
    | nil =>
      rw [indentedItems_singleton, List.length_append] at room
      have read := here fuel _ (endsNumber_newline close (']' :: rest)) (by omega)
      rw [indentedItems_singleton, List.append_assoc, readItems?,
        readValue?_blank (blank_newline level), read]
      simp only [dropWhile_blank (blank_newline close) (rfl : isSpace ']' = false),
        placed_some shallow]
      simp
    | cons next others =>
      rw [indentedItems_cons, List.length_append, List.length_append, List.length_cons] at room
      have read (behind : List Char) := here fuel _ (endsNumber_comma behind) (by omega)
      rw [indentedItems_cons, List.append_assoc, List.append_assoc, List.cons_append, readItems?,
        readValue?_blank (blank_newline level), read]
      simp only [List.dropWhile_cons_of_neg (by decide : ¬ isSpace ',' = true)]
      rw [ih there (List.cons_ne_nil next others) (by omega)]
      simp

private theorem indentedMembers_cons (name : String) (value : Json) (next : String × Json)
    (rest : List (String × Json)) :
    (indentedMembers level ((name, value) :: next :: rest)).toList =
      (newline level).toList ++ '"' :: (name.toList.flatMap quotedChar ++
        '"' :: ':' :: ' ' :: ((indented level value).toList ++
          ',' :: (indentedMembers level (next :: rest)).toList)) := by
  simp [indentedMembers, toList_quoted]

private theorem indentedMembers_singleton (name : String) (value : Json) :
    (indentedMembers level [(name, value)]).toList =
      (newline level).toList ++ '"' :: (name.toList.flatMap quotedChar ++
        '"' :: ':' :: ' ' :: (indented level value).toList) := by
  simp [indentedMembers, toList_quoted]

private theorem readMembers?_name {fuel : Nat} (collected : List (String × Json)) (escaped : Bool)
    (name : String) (text : List Char) :
    readMembers? (fuel + 1) depth (some collected) escaped ((newline level).toList ++
        '"' :: (name.toList.flatMap quotedChar ++ '"' :: ':' :: ' ' :: text)) =
      (readValue? fuel depth text).bind fun read =>
        match read.2.dropWhile isSpace with
        | ',' :: rest =>
          readMembers? fuel depth (some ((name, read.1) :: collected)) (escaped || needsEscape name)
            rest
        | '}' :: rest =>
          some (placed depth (some (.obj ((name, read.1) :: collected).reverse
            (escaped || needsEscape name))), rest)
        | _ => none := by
  have blank : Blank [' '] := by simp [Blank, isSpace]
  have value := readValue?_blank blank fuel depth text
  rw [readMembers?_blank (blank_newline level), readMembers?]
  simp only [List.dropWhile_cons_of_neg (by decide : ¬ isSpace '"' = true), readText?_quoted,
    List.dropWhile_cons_of_neg (by decide : ¬ isSpace ':' = true), isEscaped_quoted]
  rw [← List.singleton_append, value]
  cases readValue? fuel depth text with
  | none => rfl
  | some read => rfl

private theorem readMembers?_indented {members : List (String × Json)}
    (each : ∀ member ∈ members, ReadsBack level depth member.2) (filled : members ≠ [])
    (shallow : depth ≤ depthLimit) (close : Nat) (rest : List Char) {fuel : Nat}
    (room : (indentedMembers level members).toList.length < fuel)
    (collected : List (String × Json)) (escaped : Bool) :
    readMembers? fuel depth (some collected) escaped
        ((indentedMembers level members).toList ++ ((newline close).toList ++ '}' :: rest)) =
      some (.obj (collected.reverse ++ members.map fun member =>
          (member.1, member.2.marked escapes)) (escaped || escapes (members.map Prod.fst)),
        rest) := by
  induction members generalizing fuel collected escaped with
  | nil => exact absurd rfl filled
  | cons member others ih =>
    obtain ⟨here, there⟩ := List.forall_mem_cons.mp each
    obtain ⟨fuel, rfl⟩ : ∃ fewer, fuel = fewer + 1 := ⟨fuel - 1, by omega⟩
    obtain ⟨name, value⟩ := member
    change ReadsBack level depth value at here
    cases others with
    | nil =>
      rw [indentedMembers_singleton] at room ⊢
      simp only [List.length_append, List.length_cons] at room
      have read := here fuel _ (endsNumber_newline close ('}' :: rest)) (by omega)
      simp only [List.append_assoc, List.cons_append, readMembers?_name, read, Option.bind_some,
        dropWhile_blank (blank_newline close) (rfl : isSpace '}' = false), placed_some shallow]
      simp [escapes]
    | cons next others =>
      rw [indentedMembers_cons] at room ⊢
      simp only [List.length_append, List.length_cons] at room
      have read (behind : List Char) := here fuel _ (endsNumber_comma behind) (by omega)
      simp only [List.append_assoc, List.cons_append, readMembers?_name, read, Option.bind_some,
        List.dropWhile_cons_of_neg (by decide : ¬ isSpace ',' = true)]
      rw [ih there (List.cons_ne_nil next others) (by omega)]
      simp [escapes, Bool.or_assoc]

private theorem indented_null : (indented level .null).toList = ['n', 'u', 'l', 'l'] := by
  have written : indented level .null = "null" := rfl
  simp [written]

private theorem indented_bool (value : Bool) : (indented level (.bool value)).toList =
    if value then ['t', 'r', 'u', 'e'] else ['f', 'a', 'l', 's', 'e'] := by
  have written : indented level (.bool value) = scalarText (.bool value) := rfl
  cases value <;> simp [written, scalarText]

private theorem indented_int (value : Int) : indented level (.int value) = toString value := rfl

private theorem indented_str (value : String) : indented level (.str value) = quoted value := rfl

private theorem indented_arr_nil : (indented level (.arr [])).toList = ['[', ']'] := by
  have written : indented level (.arr []) = "[]" := rfl
  simp [written]

private theorem indented_obj_nil (escaped : Bool) :
    (indented level (.obj [] escaped)).toList = ['{', '}'] := by
  have written : indented level (.obj [] escaped) = "\x7b\x7d" := rfl
  simp [written]

private theorem indented_arr (item : Json) (rest : List Json) :
    (indented level (.arr (item :: rest))).toList = '[' ::
      ((indentedItems (level + 1) (item :: rest)).toList ++ ((newline level).toList ++ [']'])) := by
  have written : indented level (.arr (item :: rest)) =
      "[" ++ indentedItems (level + 1) (item :: rest) ++ newline level ++ "]" := rfl
  simp [written]

private theorem indented_obj (member : String × Json) (rest : List (String × Json)) :
    (indented level (.obj (member :: rest))).toList = '{' ::
      ((indentedMembers (level + 1) (member :: rest)).toList ++
        ((newline level).toList ++ ['}'])) := by
  have written : indented level (.obj (member :: rest)) =
      "\x7b" ++ indentedMembers (level + 1) (member :: rest) ++ newline level ++ "\x7d" := rfl
  simp [written]

theorem Plain.begins {levels : Nat} {value : Json} (plain : Plain levels value) (level : Nat) :
    ∃ first rest, (indented level value).toList = first :: rest ∧ isSpace first = false ∧
      first ≠ ']' := by
  cases plain with
  | null => exact ⟨'n', _, indented_null, rfl, by decide⟩
  | bool value =>
    rw [indented_bool]
    cases value <;> exact ⟨_, _, rfl, by decide, by decide⟩
  | @int _ value exact =>
    obtain ⟨first, rest, written, number⟩ := toString_begins value
    refine ⟨first, rest, by rw [indented_int, written], ?_⟩
    rcases number with digit | rfl
    · refine ⟨isSpace_eq_false_of_isDigit digit, ?_⟩
      rintro rfl
      exact absurd digit (by decide)
    · exact ⟨rfl, by decide⟩
  | str value => exact ⟨'"', _, by rw [indented_str, toList_quoted], rfl, by decide⟩
  | @arr _ items each =>
    cases items with
    | nil => exact ⟨'[', _, indented_arr_nil, rfl, by decide⟩
    | cons item rest => exact ⟨'[', _, indented_arr item rest, rfl, by decide⟩
  | @obj _ members each =>
    cases members with
    | nil => exact ⟨'{', _, indented_obj_nil false, rfl, by decide⟩
    | cons member rest => exact ⟨'{', _, indented_obj member rest, rfl, by decide⟩

private theorem readValue?_arr {fuel : Nat} {first : Char} (blank : Blank blanks)
    (front : isSpace first = false) (filled : first ≠ ']') (rest : List Char) :
    readValue? (fuel + 1) depth ('[' :: (blanks ++ first :: rest)) =
      readItems? fuel (depth + 1) [] (blanks ++ first :: rest) := by
  rw [readValue?, List.dropWhile_cons_of_neg (by decide)]
  simp only [dropWhile_blank blank front]
  split
  · rename_i same
    exact absurd (List.cons.inj same).1 filled
  · exact (readItems?_blank blank ..).symm

private theorem readValue?_obj {fuel : Nat} (blank : Blank blanks) (rest : List Char) :
    readValue? (fuel + 1) depth ('{' :: (blanks ++ '"' :: rest)) =
      readMembers? fuel (depth + 1) (some []) false (blanks ++ '"' :: rest) := by
  rw [readValue?, List.dropWhile_cons_of_neg (by decide)]
  simp only [dropWhile_blank blank (rfl : isSpace '"' = false)]
  exact (readMembers?_blank blank ..).symm

private theorem indentedItems_begins {item : Json} {first : Char} {others : List Char}
    (begins : (indented level item).toList = first :: others) (rest : List Json) :
    ∃ behind, (indentedItems level (item :: rest)).toList =
      (newline level).toList ++ first :: behind := by
  cases rest with
  | nil => exact ⟨others, by rw [indentedItems_singleton, begins]⟩
  | cons next rest =>
    exact ⟨others ++ ',' :: (indentedItems level (next :: rest)).toList, by
      rw [indentedItems_cons, begins, List.append_assoc, List.cons_append]⟩

theorem indentedMembers_begins (level : Nat) (member : String × Json) (rest : List (String × Json)) :
    ∃ behind, (indentedMembers level (member :: rest)).toList =
      (newline level).toList ++ '"' :: behind := by
  cases rest with
  | nil => exact ⟨_, indentedMembers_singleton ..⟩
  | cons next rest => exact ⟨_, indentedMembers_cons ..⟩

/-- A plain value that is not nested too deeply is read back, with its objects marked by the way
that their names are written. -/
theorem Plain.readsBack {levels : Nat} {value : Json} (plain : Plain levels value) (level depth : Nat)
    (shallow : depth + levels ≤ depthLimit) : ReadsBack level depth value := by
  induction plain generalizing level depth with
  | null =>
    intro fuel rest _ room
    obtain ⟨fuel, rfl⟩ : ∃ fewer, fuel = fewer + 1 := ⟨fuel - 1, by omega⟩
    rw [indented_null]
    rfl
  | bool value =>
    intro fuel rest _ room
    obtain ⟨fuel, rfl⟩ : ∃ fewer, fuel = fewer + 1 := ⟨fuel - 1, by omega⟩
    rw [indented_bool]
    cases value <;> rfl
  | @int _ value exact =>
    intro fuel rest ends room
    obtain ⟨fuel, rfl⟩ : ∃ fewer, fuel = fewer + 1 := ⟨fuel - 1, by omega⟩
    obtain ⟨first, others, written, number⟩ := toString_begins value
    have read := readNumber?_toString exact ends
    rw [indented_int, written]
    rw [written] at read
    exact (readValue?_of_number number fuel depth _).trans read
  | str value =>
    intro fuel rest _ room
    obtain ⟨fuel, rfl⟩ : ∃ fewer, fuel = fewer + 1 := ⟨fuel - 1, by omega⟩
    rw [indented_str]
    exact readValue?_quoted fuel depth value rest
  | @arr _ items each ih =>
    intro fuel rest _ room
    obtain ⟨fuel, rfl⟩ : ∃ fewer, fuel = fewer + 1 := ⟨fuel - 1, by omega⟩
    cases items with
    | nil =>
      have inside : depth + 1 ≤ depthLimit := by omega
      rw [indented_arr_nil]
      exact congrArg (fun value => some (value, rest)) (placed_some inside (.arr []))
    | cons item others =>
      rw [indented_arr] at room ⊢
      simp only [List.length_append, List.length_cons] at room
      obtain ⟨first, behind, begun, front, filled⟩ := (each item List.mem_cons_self).begins (level + 1)
      obtain ⟨behind, begun⟩ := indentedItems_begins begun others
      have each : ∀ inner ∈ item :: others, ReadsBack (level + 1) (depth + 1) inner :=
        fun inner member => ih inner member (level + 1) (depth + 1) (by omega)
      have filling : (indentedItems (level + 1) (item :: others)).toList.length < fuel := by omega
      have read := readItems?_indented each (List.cons_ne_nil item others) (by omega) level rest
        filling []
      rw [begun] at read ⊢
      simp only [List.append_assoc, List.cons_append, List.nil_append] at read ⊢
      rw [readValue?_arr (blank_newline _) front filled, read, marked, markedItems_eq_map]
      rfl
  | @obj _ members each ih =>
    intro fuel rest _ room
    obtain ⟨fuel, rfl⟩ : ∃ fewer, fuel = fewer + 1 := ⟨fuel - 1, by omega⟩
    cases members with
    | nil =>
      have inside : depth + 1 ≤ depthLimit := by omega
      rw [indented_obj_nil]
      exact congrArg (fun value => some (value, rest)) (placed_some inside (.obj []))
    | cons member others =>
      rw [indented_obj] at room ⊢
      simp only [List.length_append, List.length_cons] at room
      obtain ⟨behind, begun⟩ := indentedMembers_begins (level + 1) member others
      have each : ∀ inner ∈ member :: others, ReadsBack (level + 1) (depth + 1) inner.2 :=
        fun inner listed => ih inner listed (level + 1) (depth + 1) (by omega)
      have filling : (indentedMembers (level + 1) (member :: others)).toList.length < fuel := by
        omega
      have read := readMembers?_indented each (List.cons_ne_nil member others) (by omega) level rest
        filling [] false
      rw [begun] at read ⊢
      simp only [List.append_assoc, List.cons_append, List.nil_append] at read ⊢
      rw [readValue?_obj (blank_newline _), read, marked, markedMembers_eq_map]
      rfl

/-- The text of a plain value is read as this value, marked anew. -/
theorem read?_pretty {levels : Nat} {value : Json} (plain : Plain levels value)
    (shallow : levels ≤ depthLimit) : read? value.pretty = some (value.marked escapes) := by
  have ends : EndsNumber [] := nofun
  have read := plain.readsBack 0 0 (by omega) (2 * value.pretty.toList.length + 4) [] ends
    (by rw [pretty]; omega)
  rw [List.append_nil] at read
  simp only [read?, pretty] at read ⊢
  rw [read]
  rfl

end SegmentPlacement.Json
