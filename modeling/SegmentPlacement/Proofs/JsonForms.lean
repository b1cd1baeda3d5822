import SegmentPlacement.Json.Decoder
import SegmentPlacement.Proofs.Chains
import SegmentPlacement.Proofs.JsonRoundTrip
import SegmentPlacement.Proofs.OrderedMap

/-! Forms that keep what is written in them: a value is decoded from its form, also
after the form was written as a text and read back, and nothing is decoded that has
no such form. The forms of lists, maps and records are made from those of their
parts. -/

namespace SegmentPlacement

def IsSignedWord (value : Int) : Prop := leastWord ≤ value ∧ value ≤ greatestWord

instance (value : Int) : Decidable (IsSignedWord value) := inferInstanceAs (Decidable (_ ∧ _))

theorem isSignedWord_iff {value : Int} : IsSignedWord value ↔
    -Int.ofNat (wordCount (64 - 1)) ≤ value ∧ value < wordCount (64 - 1) := by
  have half : wordCount (64 - 1) = 0x8000000000000000 := by decide
  rw [half]
  simp only [IsSignedWord, leastWord, greatestWord, Int.ofNat_eq_natCast]
  omega

namespace Json
open Text

/-- The mark of an object whose names are numbers is not set. -/
def Faithful (mark : List String → Bool) : Prop :=
  ∀ numbers : List Nat, mark (numbers.map toString) = false

theorem faithful_escapes : Faithful escapes := by
  intro numbers
  rw [escapes, List.any_eq_false]
  intro name listed
  obtain ⟨number, _, rfl⟩ := List.mem_map.mp listed
  exact Bool.eq_false_iff.mp (not_needsEscape_toString number)

theorem faithful_never : Faithful fun _ => false := fun _ => rfl

/-- A form of at most `levels` levels keeps the values that fit, and no others are decoded. -/
structure Keeps (levels : Nat) (encode : α → Json) (decode : Decoder α) (fits : α → Prop) :
    Prop where
  plain : ∀ value, fits value → Plain levels (encode value)
  reads : ∀ mark value, Faithful mark → fits value →
    decode ((encode value).marked mark) = some value
  sound : ∀ json value, decode json = some value → fits value

namespace Keeps

variable {α κ : Type} {levels : Nat} {encode : α → Json} {decode : Decoder α} {fits : α → Prop}

theorem of_iff {other : α → Prop} (keeps : Keeps levels encode decode fits)
    (same : ∀ value, other value ↔ fits value) : Keeps levels encode decode other where
  plain value fit := keeps.plain value ((same value).mp fit)
  reads mark value faithful fit := keeps.reads mark value faithful ((same value).mp fit)
  sound json value done := (same value).mpr (keeps.sound json value done)

theorem decode_encode {value : α} (keeps : Keeps levels encode decode fits) (fit : fits value) :
    decode (encode value) = some value := by
  have read := keeps.reads _ value faithful_never fit
  rwa [(keeps.plain value fit).marked_never] at read

theorem decode_text {value : α} (keeps : Keeps levels encode decode fits)
    (shallow : levels ≤ depthLimit) (fit : fits value) :
    (read? (encode value).pretty).bind decode = some value := by
  rw [read?_pretty (keeps.plain value fit) shallow]
  exact keeps.reads _ value faithful_escapes fit

theorem within {others : Nat} {value : α} (keeps : Keeps levels encode decode fits)
    (most : levels ≤ others) (fit : fits value) : Plain others (encode value) :=
  (keeps.plain value fit).mono most

/-! ### Scalars -/

theorem str : Keeps 0 .str str? fun _ => True where
  plain value _ := .str value
  reads _ _ _ _ := rfl
  sound _ _ _ := trivial

theorem bool : Keeps 0 .bool bool? fun _ => True where
  plain value _ := .bool value
  reads _ _ _ _ := rfl
  sound _ _ _ := trivial

theorem word {bits : Nat} (most : bits ≤ 64) :
    Keeps 0 ofNat (word? bits) fun value => value < wordCount bits where
  plain value fits := by
    have least : wordCount bits ≤ wordCount 64 := Nat.pow_le_pow_right (by decide) most
    have whole : wordCount 64 = 0x10000000000000000 := by decide
    refine .int ⟨?_, ?_⟩
    · simp only [leastInt, leastWord]
      omega
    · simp only [greatestInt]
      omega
  reads mark value _ fits := by
    have inside : 0 ≤ (value : Int) ∧ (value : Int) < wordCount bits := by omega
    simp only [ofNat, marked, word?, if_pos inside, Int.toNat_natCast]
  sound json value done := by
    unfold word? at done
    split at done
    · split at done
      · cases done
        omega
      · cases done
    · cases done

theorem signed : Keeps 0 .int (signed? 64) IsSignedWord where
  plain value fits := by
    simp only [IsSignedWord, leastWord, greatestWord] at fits
    refine .int ⟨fits.1, ?_⟩
    simp only [greatestInt]
    omega
  reads mark value _ fits := by
    simp only [marked, signed?, if_pos (isSignedWord_iff.mp fits)]
  sound json value done := by
    unfold signed? at done
    split at done
    · split at done
      · rename_i inside
        cases done
        exact isSignedWord_iff.mpr inside
      · cases done
    · cases done

theorem word32 : Keeps 0 ofNat (word? 32) fun value => value < wordCount 32 := word (by decide)

theorem word64 : Keeps 0 ofNat (word? 64) fun value => value < wordCount 64 :=
  word (Nat.le_refl 64)

theorem oneOf {meaning : String → Option α}
    (written : ∀ value, ∃ word, encode value = .str word ∧ meaning word = some value) :
    Keeps 0 encode (oneOf? meaning) fun _ => True where
  plain value _ := by
    obtain ⟨word, form, _⟩ := written value
    rw [form]
    exact .str word
  reads mark value _ _ := by
    obtain ⟨word, form, read⟩ := written value
    rw [form]
    exact read
  sound _ _ _ := trivial

theorem marked_eq_null_iff {json : Json} (mark : List String → Bool) :
    json.marked mark = .null ↔ json = .null := by
  cases json <;> simp only [marked, reduceCtorEq]

theorem option (keeps : Keeps levels encode decode fits) (some : ∀ value, encode value ≠ .null) :
    Keeps levels (ofOption encode) (option? decode) fun value => ∀ known ∈ value, fits known where
  plain value fit := by
    cases value with
    | none => exact .null
    | some known => exact keeps.plain known (fit known rfl)
  reads mark value faithful fit := by
    cases value with
    | none => rfl
    | some known =>
      have read := keeps.reads mark known faithful (fit known rfl)
      rw [ofOption]
      unfold option?
      split
      · rename_i same
        exact absurd ((marked_eq_null_iff mark).mp same) (some known)
      · rw [read]
        rfl
  sound json value done := by
    unfold option? at done
    split at done
    · cases done
      exact nofun
    · obtain ⟨known, found, rfl⟩ := Option.map_eq_some_iff.mp done
      rintro other ⟨⟩
      exact keeps.sound _ known found

theorem maybeStr : Keeps 0 (ofOption .str) (option? str?) fun _ => True :=
  (str.option nofun).of_iff fun _ => by simp only [implies_true]

theorem maybeWord32 : Keeps 0 (ofOption ofNat) (option? (word? 32)) fun value =>
    ∀ known ∈ value, known < wordCount 32 :=
  word32.option nofun

theorem maybeWord64 : Keeps 0 (ofOption ofNat) (option? (word? 64)) fun value =>
    ∀ known ∈ value, known < wordCount 64 :=
  word64.option nofun

theorem maybeSigned : Keeps 0 (ofOption .int) (option? (signed? 64)) fun value =>
    ∀ known ∈ value, IsSignedWord known :=
  signed.option nofun

/-! ### Lists and maps -/

theorem list (keeps : Keeps levels encode decode fits) :
    Keeps (levels + 1) (fun values => .arr (values.map encode)) (list? decode)
      fun values => ∀ value ∈ values, fits value where
  plain values fit := .arr fun item member => by
    obtain ⟨value, listed, rfl⟩ := List.mem_map.mp member
    exact keeps.plain value (fit value listed)
  reads mark values faithful fit := by
    rw [marked, markedItems_eq_map, List.map_map]
    exact mapM_map_eq_some fun value member => keeps.reads mark value faithful (fit value member)
  sound json values done value member := by
    unfold list? at done
    split at done
    · obtain ⟨item, _, read⟩ := exists_of_mem_mapM_some done member
      exact keeps.sound item value read
    · cases done

section
variable [Ord κ] [Std.TransOrd κ] [Std.LawfulEqOrd κ]

theorem keyedMap {keyText : κ → String} {key? : String → Option κ} {known : κ → Prop}
    (keeps : Keeps levels encode decode fits)
    (named : ∀ key, known key → key? (keyText key) = some key)
    (told : ∀ text key, key? text = some key → known key) :
    Keeps (levels + 1) (ofKeyedMap keyText encode) (keyedMap? key? decode)
      fun map => ∀ key value, map.get? key = some value → known key ∧ fits value where
  plain map fit := .obj fun member listed => by
    obtain ⟨⟨key, value⟩, stored, rfl⟩ := List.mem_map.mp listed
    exact keeps.plain value (fit key value (OrderedMap.get?_eq_some_iff.mpr stored)).2
  reads mark map faithful fit := by
    have each : (map.entries.map fun entry => (keyText entry.1, (encode entry.2).marked mark)).mapM
        (fun member => do
          let key ← key? member.1
          let value ← decode member.2
          return (key, value)) = some map.entries := by
      refine mapM_map_eq_some ?_
      rintro ⟨key, value⟩ stored
      obtain ⟨name, fit⟩ := fit key value (OrderedMap.get?_eq_some_iff.mpr stored)
      simp only [named key name, keeps.reads mark value faithful fit]
      rfl
    rw [ofKeyedMap, marked, markedMembers_eq_map, List.map_map, keyedMap?]
    refine Option.bind_eq_some_iff.mpr ⟨map.entries, each, ?_⟩
    exact congrArg some map.ofList_entries
  sound json map done key value found := by
    unfold keyedMap? at done
    split at done
    · obtain ⟨entries, read, same⟩ := Option.bind_eq_some_iff.mp done
      cases same
      rcases OrderedMap.get?_insertAll_cases found with absent | member
      · cases absent
      obtain ⟨item, _, here⟩ := exists_of_mem_mapM_some read member
      obtain ⟨other, name, here⟩ := Option.bind_eq_some_iff.mp here
      obtain ⟨held, within, same⟩ := Option.bind_eq_some_iff.mp here
      cases same
      exact ⟨told _ _ name, keeps.sound _ _ within⟩
    · cases done

end

theorem map?_eq_keyedMap? (decode : Decoder α) : map? decode = keyedMap? some decode := by
  funext json
  cases json with
  | obj members escaped =>
    have step : (fun member : String × Json => (decode member.2).map fun value => (member.1, value)) =
        fun member => do
          let key ← some member.1
          let value ← decode member.2
          return (key, value) := by
      funext member
      cases decode member.2 <;> rfl
    simp only [map?, keyedMap?, step]
  | _ => rfl

theorem map (keeps : Keeps levels encode decode fits) :
    Keeps (levels + 1) (ofMap encode) (map? decode)
      fun map => ∀ key value, map.get? key = some value → fits value := by
  rw [map?_eq_keyedMap?]
  have keyed : Keeps (levels + 1) (ofKeyedMap id encode) (keyedMap? some decode) fun map =>
      ∀ key value, map.get? key = some value → True ∧ fits value :=
    keeps.keyedMap (fun _ _ => rfl) fun _ _ _ => trivial
  exact keyed.of_iff fun map => by simp only [true_and]

theorem unsigned?_toDigits {limit number : Nat} (small : number < limit) :
    unsigned? limit (Nat.toDigits 10 number) = some number := by
  have magnitude : unsigned? limit (Nat.toDigits 10 number) =
      (digits? (Nat.toDigits 10 number)).filter (· < limit) := by
    unfold unsigned?
    cases written : Nat.toDigits 10 number with
    | nil => rfl
    | cons first rest =>
      have digit : isDigit first = true :=
        isDigit_of_mem_toDigits (written ▸ List.mem_cons_self)
      split
      · rename_i same
        cases same
        cases digit
      · rfl
  rw [magnitude, digits?_toDigits, Option.filter_some, if_pos (decide_eq_true small)]

theorem wordName?_toString {bits number : Nat} (small : number < wordCount bits) :
    wordName? bits (toString number) = some number := by
  have written : (toString number).toList = Nat.toDigits 10 number := Nat.toList_repr
  rw [wordName?, written, unsigned?_toDigits small, Option.filter_some, if_pos (decide_eq_true rfl)]

theorem lt_of_wordName? {bits number : Nat} {name : String}
    (named : wordName? bits name = some number) : number < wordCount bits := by
  obtain ⟨read, _⟩ := Option.filter_eq_some_iff.mp named
  exact of_decide_eq_true (Option.filter_eq_some_iff.mp read).2

/-- Digits need no escape, so the map of a form that was read again is not refused for its mark. -/
theorem numberedMap {bits : Nat} (keeps : Keeps levels encode decode fits) :
    Keeps (levels + 1) (ofKeyedMap toString encode) (numberedMap? bits decode) fun map =>
      ∀ key value, map.get? key = some value → key < wordCount bits ∧ fits value := by
  have keyed : Keeps (levels + 1) (ofKeyedMap toString encode) (keyedMap? (wordName? bits) decode)
      fun map => ∀ key value, map.get? key = some value → key < wordCount bits ∧ fits value :=
    keeps.keyedMap (fun _ small => wordName?_toString small) fun _ _ => lt_of_wordName?
  refine ⟨keyed.plain, fun mark map faithful fit => ?_, fun json map done => ?_⟩
  · have read := keyed.reads mark map faithful fit
    have unmarked : mark ((map.entries.map fun entry =>
        (toString entry.1, encode entry.2)).map Prod.fst) = false := by
      have names := faithful (map.entries.map Prod.fst)
      rw [List.map_map] at names ⊢
      exact names
    rw [ofKeyedMap, marked, unmarked] at read ⊢
    exact read
  · refine keyed.sound json map ?_
    unfold numberedMap? at done
    split at done
    · cases done
    · exact done

theorem strings : Keeps 1 ofStrings (list? str?) fun _ => True :=
  (list str).of_iff fun _ => by simp only [implies_true]

theorem nameSet : Keeps 1 ofNameSet nameSet? fun _ => True where
  plain names _ := strings.plain names.keys trivial
  reads mark names faithful _ := by
    have read : list? str? ((ofNameSet names).marked mark) = some names.keys :=
      strings.reads mark names.keys faithful trivial
    have entries : names.keys.map (fun name => (name, ())) = names.entries := by
      rw [OrderedMap.keys, List.map_map]
      exact List.map_id _
    rw [nameSet?, read, Option.map_some, OrderedMap.ofKeys, entries, OrderedMap.ofList_entries]
  sound _ _ _ := trivial

end Keeps

/-! ### Records -/

@[simp]
theorem marked_obj (mark : List String → Bool) (members : Members) (escaped : Bool) :
    (Json.obj members escaped).marked mark =
      .obj (members.map fun member => (member.1, member.2.marked mark))
        (mark (members.map Prod.fst)) := by
  rw [marked, markedMembers_eq_map]

theorem marked_str (mark : List String → Bool) (text : String) :
    (Json.str text).marked mark = .str text := rfl

@[simp]
theorem members?_of_names {names : List String} {members : Members}
    (listed : members.map Prod.fst = names) (distinct : names.Nodup) (escaped : Bool) :
    members? names (.obj members escaped) = some members := by
  have kept : members.filter (fun member => names.contains member.1) = members := by
    refine List.filter_eq_self.mpr fun member inside => ?_
    rw [List.contains_iff_mem, ← listed]
    exact List.mem_map_of_mem inside
  simp only [members?, kept, listed, if_pos distinct]

/-- The tag of a record that is written first and nowhere else is read off. -/
theorem tagged?_of_first {tag kind : String} {members : Members}
    (others : ∀ member ∈ members, member.1 ≠ tag) (escaped : Bool)
    (sound : (Json.obj ((tag, .str kind) :: members) escaped).isSound = true) :
    tagged? tag (.obj ((tag, .str kind) :: members) escaped) = some (kind, .obj members) := by
  have named : members.filter (fun member => member.1 == tag) = [] :=
    List.filter_eq_nil_iff.mpr fun member inside same => others member inside (beq_iff_eq.mp same)
  have left : members.filter (fun member => member.1 != tag) = members :=
    List.filter_eq_self.mpr fun member inside => bne_iff_ne.mpr (others member inside)
  have found : ((tag, Json.str kind) :: members).filter (fun member => member.1 == tag) =
      [(tag, .str kind)] := by
    rw [List.filter_cons, if_pos (beq_self_eq_true tag), named]
  have behind : ((tag, Json.str kind) :: members).filter (fun member => member.1 != tag) =
      members := by
    rw [List.filter_cons, if_neg (by simp), left]
  simp only [tagged?, found, behind, sound, if_true]

namespace Members

variable {α : Type} {levels : Nat} {encode : α → Json} {decode : Decoder α} {fits : α → Prop}
  {name other : String} {json : Json} {members : Members}

@[simp]
theorem required_here : required ((name, json) :: members) name decode = decode json := by
  rw [required, List.lookup_cons, BEq.rfl]

@[simp]
theorem required_later (apart : name ≠ other) :
    required ((other, json) :: members) name decode = members.required name decode := by
  rw [required, List.lookup_cons, beq_eq_false_iff_ne.mpr apart, required]

@[simp]
theorem withDefault_here {default : α} :
    withDefault ((name, json) :: members) name decode default = decode json := by
  rw [withDefault, List.lookup_cons, BEq.rfl]

@[simp]
theorem withDefault_later {default : α} (apart : name ≠ other) :
    withDefault ((other, json) :: members) name decode default =
      members.withDefault name decode default := by
  rw [withDefault, List.lookup_cons, beq_eq_false_iff_ne.mpr apart, withDefault]

theorem fits_of_required (keeps : Keeps levels encode decode fits) {value : α}
    (done : members.required name decode = some value) : fits value := by
  unfold required at done
  split at done
  · exact keeps.sound _ _ done
  · cases done

theorem fits_of_withDefault (keeps : Keeps levels encode decode fits) {default value : α}
    (own : fits default) (done : members.withDefault name decode default = some value) :
    fits value := by
  unfold withDefault at done
  split at done
  · exact keeps.sound _ _ done
  · cases done
    exact own

theorem fits_of_optional
    (keeps : Keeps levels (ofOption encode) (option? decode) fun value => ∀ known ∈ value, fits known)
    {value : Option α} (done : members.optional name decode = some value) :
    ∀ known ∈ value, fits known := by
  have missing : ∀ known ∈ (none : Option α), fits known := nofun
  exact fits_of_withDefault keeps missing done

theorem fits_of_map [Ord κ] [Std.TransOrd κ] [Std.LawfulEqOrd κ] {holds : κ → α → Prop}
    {encode : OrderedMap κ α → Json} {decode : Decoder (OrderedMap κ α)}
    (keeps : Keeps levels encode decode fun map =>
      ∀ key value, map.get? key = some value → holds key value)
    {map : OrderedMap κ α} (done : members.withDefault name decode {} = some map) :
    ∀ key value, map.get? key = some value → holds key value :=
  fits_of_withDefault keeps
    (fun _ _ found => nomatch (OrderedMap.get?_empty _).symm.trans found) done

end Members

end Json

end SegmentPlacement
