import SegmentPlacement.Proofs.Chains
import SegmentPlacement.Tier

/-! The tier that takes a segment: the first fixed tier that lists it, and otherwise
the oldest time tier whose age it has passed, the first of those configured with
that age. As time goes by, a segment moves to older tiers only. -/

namespace SegmentPlacement

section sorting

variable {before : α → α → Bool} (trans : ∀ first second third, before first second = true →
    before second third = true → before first third = true)
  (total : ∀ first second, (before first second || before second first) = true)

include trans total

private theorem find?_mergeSort_of_alike {items : List α} {keep : α → Bool}
    (alike : ∀ first ∈ items, ∀ second ∈ items, keep first = true → keep second = true →
      before first second = true) :
    (items.mergeSort before).find? keep = items.find? keep := by
  have ordered : (items.filter keep).Pairwise fun first second => before first second = true := by
    refine List.pairwise_of_forall_mem_list fun first here second there => ?_
    rw [List.mem_filter] at here there
    exact alike first here.1 second there.1 here.2 there.2
  have kept : (items.filter keep).Sublist ((items.mergeSort before).filter keep) := by
    simpa only [List.filter_filter, Bool.and_self] using
      (List.sublist_mergeSort trans total ordered List.filter_sublist).filter keep
  have same := kept.eq_of_length ((List.mergeSort_perm items before).filter keep).length_eq.symm
  rw [← List.head?_filter, ← List.head?_filter, same]

/-- What is found in a sorted list stands before all others that might be, and comes first among
its equals in the list as it was. -/
theorem find?_mergeSort_spec {items : List α} {takes : α → Bool} {item : α}
    (found : (items.mergeSort before).find? takes = some item) :
    (∀ other ∈ items, takes other = true → before item other = true) ∧
      ∃ front back, items = front ++ item :: back ∧
        ∀ other ∈ front, takes other = true → before other item = false := by
  obtain ⟨taken, earlier, later, split, passed⟩ := List.find?_eq_some_iff_append.mp found
  have self : before item item = true := by simpa using total item item
  have sorted := List.pairwise_mergeSort trans total items
  rw [split, List.pairwise_append, List.pairwise_cons] at sorted
  have least : ∀ other ∈ items, takes other = true → before item other = true := by
    intro other listed takes
    rw [← (List.mergeSort_perm items before).mem_iff, split, List.mem_append,
      List.mem_cons] at listed
    rcases listed with ahead | rfl | behind
    · have untaken := passed other ahead
      rw [takes] at untaken
      cases untaken
    · exact self
    · exact sorted.2.1.1 other behind
  -- Items that take and may stand before this one may stand either way, so sorting kept their order.
  let equal (other : α) : Bool := takes other && before other item
  have first : (items.mergeSort before).find? equal = some item := by
    refine List.find?_eq_some_iff_append.mpr ⟨?_, earlier, later, split, fun other ahead => ?_⟩
    · simp only [equal, taken, self, Bool.and_self]
    · have untaken := passed other ahead
      rw [Bool.not_eq_true'] at untaken ⊢
      simp only [equal, untaken, Bool.false_and]
  rw [find?_mergeSort_of_alike trans total] at first
  · obtain ⟨_, front, back, same, unequal⟩ := List.find?_eq_some_iff_append.mp first
    refine ⟨least, front, back, same, fun other ahead takes => ?_⟩
    simpa only [equal, takes, Bool.true_and, Bool.not_eq_true'] using unequal other ahead
  · intro one here other there same alike
    rw [Bool.and_eq_true] at same alike
    exact trans one item other same.2 (least other there alike.1)

end sorting

namespace TierConfig

def names (config : TierConfig) (segment : Segment) : Bool :=
  match config.rule with
  | .fixed segments => segments.contains segment.name
  | .time _ => false

/-- The segment has passed the age of a time tier. -/
def Due (config : TierConfig) (segment : Segment) (now : Int) (age : Nat) : Prop :=
  config.ageSeconds = .ok (some age) ∧
    ∃ endTime, segment.endTimeMs = some endTime ∧ (age * 1000 : Int) < now - endTime

/-- An age, if there is one, that can be read and is below the last word in milliseconds. -/
def Readable (config : TierConfig) : Prop :=
  ∃ age, config.ageSeconds = .ok age ∧ ∀ seconds ∈ age, (seconds * 1000 : Int) < greatestWord

variable {config : TierConfig} {segment : Segment} {now : Int} {age : Nat}

theorem Due.mono {later : Int} (passed : now ≤ later) (due : config.Due segment now age) :
    config.Due segment later age := by
  obtain ⟨read, endTime, ended, past⟩ := due
  exact ⟨read, endTime, ended, by omega⟩

private theorem ageSeconds_of_names (named : config.names segment = true) :
    config.ageSeconds = .ok none := by
  unfold names at named
  unfold ageSeconds
  cases rule : config.rule with
  | fixed segments => rfl
  | time segmentAge =>
    rw [rule] at named
    cases named

end TierConfig

namespace Tier

def ofConfig (config : TierConfig) : Tier :=
  { config, age := config.ageSeconds.toOption.join }

theorem age_ofConfig {config : TierConfig} {age : Option Nat} (read : config.ageSeconds = .ok age) :
    (ofConfig config).age = age := by
  simp [ofConfig, read, Except.toOption]

def inOrder (configs : List TierConfig) : List Tier := (configs.map ofConfig).mergeSort precedes

theorem sort_eq {configs : List TierConfig} (readable : ∀ config ∈ configs, config.Readable) :
    sort configs = .ok (inOrder configs) := by
  have read : (configs.mapM fun config =>
      config.ageSeconds.map fun age => ({ config, age } : Tier)) = .ok (configs.map ofConfig) := by
    refine mapM_eq_ok_of_forall fun config listed => ?_
    obtain ⟨age, read, _⟩ := readable config listed
    simp [ofConfig, read, Except.map, Except.toOption]
  rw [sort, read]
  rfl

theorem precedes_iff {first second : Tier} : first.precedes second = true ↔
    ∀ age, first.age = some age → ∃ younger, second.age = some younger ∧ younger ≤ age := by
  unfold precedes
  cases first.age <;> cases second.age <;> simp

private theorem precedes_trans (first second third : Tier) (one : first.precedes second = true)
    (two : second.precedes third = true) : first.precedes third = true := by
  rw [precedes_iff] at *
  intro age aged
  obtain ⟨middle, there, below⟩ := one age aged
  obtain ⟨least, last, lower⟩ := two middle there
  exact ⟨least, last, Nat.le_trans lower below⟩

private theorem precedes_total (first second : Tier) :
    (first.precedes second || second.precedes first) = true := by
  unfold precedes
  cases first.age <;> cases second.age <;> simp [Nat.le_total]

variable {config : TierConfig} {segment : Segment} {now : Int}

theorem takes_ofConfig_iff (readable : config.Readable) :
    (ofConfig config).takes segment now = true ↔
      config.names segment = true ∨ ∃ age, config.Due segment now age := by
  obtain ⟨age, read, small⟩ := readable
  simp only [takes, ofConfig, TierConfig.names, TierConfig.Due, read]
  cases rule : config.rule with
  | fixed segments =>
    rw [TierConfig.ageSeconds, rule] at read
    cases read
    simp
  | time segmentAge =>
    simp only [TierConfig.ageSeconds, rule] at read
    cases parsed : Period.seconds segmentAge with
    | error error => simp [parsed, Except.map] at read
    | ok seconds =>
      rw [parsed] at read
      cases read
      have inRange : (seconds * 1000 : Int) ≤ greatestWord := Int.le_of_lt (small seconds rfl)
      cases segment.endTimeMs with
      | none => simp [Except.toOption]
      | some endTime =>
        have passed : Clock.milliseconds seconds < Clock.since endTime now ↔
            (seconds * 1000 : Int) < now - endTime := by
          rw [← Int.not_le, ← Int.not_le, Clock.since_le_milliseconds_iff inRange]
        simp [Except.toOption, passed]

/-- A tier of the greatest age that the segment has passed, the first one configured with it. -/
structure Oldest (configs : List TierConfig) (segment : Segment) (now : Int) (tier : Tier)
    (age : Nat) : Prop where
  aged : tier.age = some age
  due : tier.config.Due segment now age
  greatest : ∀ config ∈ configs, ∀ other, config.Due segment now other → other ≤ age
  first : ∃ front back, configs = front ++ tier.config :: back ∧
    ∀ config ∈ front, ¬ config.Due segment now age

/-- Which tier of a configuration takes a segment. -/
structure Picks (configs : List TierConfig) (segment : Segment) (now : Int)
    (picked : Option Tier) : Prop where
  named : ∀ config, configs.find? (·.names segment) = some config →
    picked = some { config, age := none }
  aged : configs.find? (·.names segment) = none → ∀ tier, picked = some tier →
    ∃ age, Oldest configs segment now tier age
  none : picked = none ↔ ∀ config ∈ configs, config.names segment = false ∧
    ∀ age, ¬ config.Due segment now age

variable {configs : List TierConfig} {tier : Tier}

theorem select?_eq_none_iff (readable : ∀ config ∈ configs, config.Readable) :
    select? (inOrder configs) segment now = none ↔ ∀ config ∈ configs,
      config.names segment = false ∧ ∀ age, ¬ config.Due segment now age := by
  simp only [select?, inOrder, List.find?_eq_none, List.mem_mergeSort, List.forall_mem_map]
  refine forall₂_congr fun config listed => ?_
  rw [takes_ofConfig_iff (readable config listed), not_or, not_exists, Bool.not_eq_true]

/-- The tier that is selected stands before all others that take the segment, and none of them that
are configured before it stands before it. -/
theorem select?_spec (selected : select? (inOrder configs) segment now = some tier) :
    ∃ front config back, configs = front ++ config :: back ∧ ofConfig config = tier ∧
      tier.takes segment now = true ∧
      (∀ other ∈ configs, (ofConfig other).takes segment now = true →
        tier.precedes (ofConfig other) = true) ∧
      ∀ other ∈ front, (ofConfig other).takes segment now = true →
        (ofConfig other).precedes tier = false := by
  obtain ⟨least, front, back, split, first⟩ :=
    find?_mergeSort_spec precedes_trans precedes_total selected
  obtain ⟨ahead, rest, rfl, rfl, same⟩ := List.map_eq_append_iff.mp split
  obtain ⟨config, behind, rfl, here, rfl⟩ := List.map_eq_cons_iff.mp same
  have takes : tier.takes segment now = true := by
    simpa using List.find?_some selected
  exact ⟨ahead, config, behind, rfl, here, takes, List.forall_mem_map.mp least,
    List.forall_mem_map.mp first⟩

private theorem find?_names_of_fixed (readable : ∀ config ∈ configs, config.Readable)
    (selected : select? (inOrder configs) segment now = some tier) (fixed : tier.age = none) :
    configs.find? (·.names segment) = some tier.config := by
  obtain ⟨front, config, back, rfl, rfl, takes, _, first⟩ := select?_spec selected
  have named : config.names segment = true := by
    rcases (takes_ofConfig_iff (readable config (by simp))).mp takes with named | ⟨age, due⟩
    · exact named
    · cases fixed.symm.trans (age_ofConfig due.1)
  refine List.find?_eq_some_iff_append.mpr ⟨named, front, back, rfl, fun other ahead => ?_⟩
  have listed := List.mem_append_left (config :: back) ahead
  rw [Bool.not_eq_true', ← Bool.not_eq_true]
  intro also
  have behind := first other ahead
    ((takes_ofConfig_iff (readable other listed)).mpr (Or.inl also))
  have before : (ofConfig other).precedes (ofConfig config) = true := by
    rw [precedes_iff, age_ofConfig (TierConfig.ageSeconds_of_names also)]
    exact fun _ impossible => nomatch impossible
  exact Bool.noConfusion (before.symm.trans behind)

private theorem oldest_of_aged (readable : ∀ config ∈ configs, config.Readable)
    (selected : select? (inOrder configs) segment now = some tier) {age : Nat}
    (aged : tier.age = some age) :
    configs.find? (·.names segment) = none ∧ Oldest configs segment now tier age := by
  obtain ⟨front, config, back, split, rfl, takes, least, first⟩ := select?_spec selected
  have own : config ∈ configs := split ▸ List.mem_append_right _ List.mem_cons_self
  have due : config.Due segment now age := by
    rcases (takes_ofConfig_iff (readable config own)).mp takes with named | ⟨other, due⟩
    · cases aged.symm.trans (age_ofConfig (TierConfig.ageSeconds_of_names named))
    · cases aged.symm.trans (age_ofConfig due.1)
      exact due
  have younger : ∀ other ∈ configs,
      other.names segment = true ∨ (∃ age, other.Due segment now age) →
      ∃ below, (ofConfig other).age = some below ∧ below ≤ age := fun other listed either =>
    precedes_iff.mp (least other listed ((takes_ofConfig_iff (readable other listed)).mpr either))
      age aged
  refine ⟨List.find?_eq_none.mpr fun other listed named => ?_, aged, due,
    fun other listed passed due => ?_, front, back, split, fun other ahead also => ?_⟩
  · obtain ⟨below, here, _⟩ := younger other listed (Or.inl named)
    cases here.symm.trans (age_ofConfig (TierConfig.ageSeconds_of_names named))
  · obtain ⟨below, here, atMost⟩ := younger other listed (Or.inr ⟨passed, due⟩)
    cases here.symm.trans (age_ofConfig due.1)
    exact atMost
  · have listed : other ∈ configs := split ▸ List.mem_append_left _ ahead
    have behind := first other ahead
      ((takes_ofConfig_iff (readable other listed)).mpr (Or.inr ⟨age, also⟩))
    have before : (ofConfig other).precedes (ofConfig config) = true := by
      rw [precedes_iff, age_ofConfig also.1, aged]
      exact fun same equal => ⟨same, equal, Nat.le_refl same⟩
    exact Bool.noConfusion (before.symm.trans behind)

private theorem select?_picks (readable : ∀ config ∈ configs, config.Readable) (segment : Segment)
    (now : Int) : Picks configs segment now (select? (inOrder configs) segment now) where
  named config found := by
    cases selected : select? (inOrder configs) segment now with
    | none =>
      have unnamed := ((select?_eq_none_iff readable).mp selected config
        (List.mem_of_find?_eq_some found)).1
      have named : config.names segment = true := by simpa using List.find?_some found
      exact Bool.noConfusion (named.symm.trans unnamed)
    | some tier =>
      obtain ⟨config, age⟩ := tier
      cases age with
      | none =>
        cases found.symm.trans (find?_names_of_fixed readable selected rfl)
        rfl
      | some age => cases found.symm.trans (oldest_of_aged readable selected rfl).1
  aged unnamed tier selected := by
    cases age : tier.age with
    | none => cases unnamed.symm.trans (find?_names_of_fixed readable selected age)
    | some older => exact ⟨older, (oldest_of_aged readable selected age).2⟩
  none := select?_eq_none_iff readable

private theorem select?_later (readable : ∀ config ∈ configs, config.Readable) {later : Int}
    (passed : now ≤ later) (selected : select? (inOrder configs) segment now = some tier) :
    ∃ other, select? (inOrder configs) segment later = some other ∧
      (tier.age = none → other = tier) ∧
      ∀ age, tier.age = some age → ∃ older, other.age = some older ∧ age ≤ older := by
  cases again : select? (inOrder configs) segment later with
  | none =>
    have all := (select?_eq_none_iff readable).mp again
    have none : select? (inOrder configs) segment now = none :=
      (select?_eq_none_iff readable).mpr fun config listed =>
        ⟨(all config listed).1, fun age due => (all config listed).2 age (due.mono passed)⟩
    cases selected.symm.trans none
  | some other =>
    refine ⟨other, rfl, fun fixed => ?_, fun age aged => ?_⟩
    · have stays := (select?_picks readable segment later).named tier.config
        (find?_names_of_fixed readable selected fixed)
      rw [again, ← fixed] at stays
      exact Option.some.inj stays
    · obtain ⟨unnamed, oldest⟩ := oldest_of_aged readable selected aged
      obtain ⟨front, back, split, _⟩ := oldest.first
      cases older : other.age with
      | none => cases unnamed.symm.trans (find?_names_of_fixed readable again older)
      | some greater =>
        have listed : tier.config ∈ configs := split ▸ List.mem_append_right _ List.mem_cons_self
        exact ⟨greater, rfl, (oldest_of_aged readable again older).2.greatest tier.config listed age
          (oldest.due.mono passed)⟩

/-- Tiers whose ages can be read are sorted so that the first that takes a segment is the one it
belongs to, and as time goes by a segment goes to no younger one. -/
theorem sort_picks {configs : List TierConfig} (readable : ∀ config ∈ configs, config.Readable) :
    ∃ tiers, sort configs = .ok tiers ∧ ∀ segment now,
      Picks configs segment now (select? tiers segment now) ∧
      ∀ later, now ≤ later → ∀ tier, select? tiers segment now = some tier →
        ∃ other, select? tiers segment later = some other ∧ (tier.age = none → other = tier) ∧
          ∀ age, tier.age = some age → ∃ older, other.age = some older ∧ age ≤ older :=
  ⟨inOrder configs, sort_eq readable, fun segment now => ⟨select?_picks readable segment now,
    fun _ passed _ selected => select?_later readable passed selected⟩⟩

/-- A fixed tier after time tiers, two of which have the same age. -/
def mixedTiers : List TierConfig :=
  [{ name := "week", rule := .time "7d", serverTag := "warm" },
    { name := "month", rule := .time "30d", serverTag := "cold" },
    { name := "days", rule := .time "720h", serverTag := "cool" },
    { name := "pinned", rule := .fixed ["kept"], serverTag := "hot" }]

theorem mixed_picks :
    ∃ tiers, sort mixedTiers = .ok tiers ∧
      Picks mixedTiers { name := "s", endTimeMs := some 0 } 2592000001
        (select? tiers { name := "s", endTimeMs := some 0 } 2592000001) := by
  have ages : mixedTiers.map TierConfig.ageSeconds =
      [.ok (some 604800), .ok (some 2592000), .ok (some 2592000), .ok none] := rfl
  have readable : ∀ config ∈ mixedTiers, config.Readable := by
    intro config listed
    have read : config.ageSeconds ∈ mixedTiers.map TierConfig.ageSeconds :=
      List.mem_map_of_mem listed
    simp only [ages, List.mem_cons, List.not_mem_nil, or_false] at read
    rcases read with read | read | read | read <;> exact ⟨_, read, by simp [greatestWord]⟩
  obtain ⟨tiers, sorted, picks⟩ := sort_picks readable
  exact ⟨tiers, sorted, (picks _ _).1⟩

end Tier

end SegmentPlacement
