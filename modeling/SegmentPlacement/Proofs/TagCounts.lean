import SegmentPlacement.Proofs.GatheredMap
import SegmentPlacement.Proofs.SummaryBalance

/-! The servers of each tag. A summary counts the servers that will host something
under the tags of the table that they carry, and those that carry none as outdated.
A server counts as often as its list repeats the tag, so each is counted once just
where no list does. -/

namespace SegmentPlacement.Summary
open Move

variable {table : TableConfig} {current target : Assignment} {servers : List Server}

/-- What a tag has to say of the servers that count under it. -/
def tally (current target : Assignment) (tag : String) (members : List String) : TagSummary :=
  { tag
    toDownload := total (members.map fun server =>
      (additions current target).countP fun pair => pair.2 = server)
    unchanged := total (members.map fun server =>
      (target.segmentsOn server).countP fun segment => segment ∈ current.segmentsOn server)
    participants := members.length }

/-- The servers that host a segment in the target and belong under a tag: those that carry it, or
those that carry no tag of the table. -/
def membersOf (table : TableConfig) (target : Assignment) (servers : List Server) (tag : String) :
    List String :=
  target.byServer.keys.filter fun server =>
    if tag = outdatedTag then ∀ own ∈ tagsOf servers server, own ∉ table.tags.keys
    else tag ∈ tagsOf servers server

/-- Every tag of the table is listed once, and that of outdated servers when there are any, each
with the numbers of the servers that count under it. -/
structure TagsTell (tags : List TagSummary) (table : TableConfig) (current target : Assignment)
    (under : String → List String) : Prop where
  ordered : (tags.map TagSummary.tag).Pairwise (· < ·)
  listed : ∀ tag, tag ∈ tags.map TagSummary.tag ↔
    tag ∈ table.tags.keys ∨ tag = outdatedTag ∧ under outdatedTag ≠ []
  entries : ∀ entry ∈ tags, entry = tally current target entry.tag (under entry.tag)

section counted

private theorem foldl_count (summary : TagSummary) (changes : List ServerChange) :
    changes.foldl TagSummary.count summary =
      { summary with
        toDownload := summary.toDownload + total (changes.map ServerChange.added)
        unchanged := summary.unchanged + total (changes.map ServerChange.unchanged)
        participants := summary.participants + changes.length } := by
  induction changes generalizing summary with
  | nil => rfl
  | cons change rest ih =>
    simp only [List.foldl_cons, ih, TagSummary.count, List.map_cons, total, List.foldr_cons,
      List.length_cons, Nat.add_assoc, Nat.add_comm 1]

private theorem unchanged_changeOf (server : String) :
    (changeOf current target servers server).unchanged =
      (target.segmentsOn server).countP fun segment => segment ∈ current.segmentsOn server := by
  obtain ⟨⟨_, after⟩, gains, _⟩ :=
    serverChange_spec current target server (tagsOf servers server)
  have parts := (target.segmentsOn server).length_eq_countP_add_countP
    fun segment => segment ∈ current.segmentsOn server
  rw [added_serverChange, after, Assignment.load_eq, countP_additions] at gains
  simp only [decide_eq_true_eq] at parts
  unfold changeOf
  omega

private theorem counted_changes : ((serverSummary current target servers).changes.values.filter
      fun change => change.segmentsAfter ≠ 0) =
    target.byServer.keys.map (changeOf current target servers) := by
  have values : (serverSummary current target servers).changes.values =
      (serversOf current target).keys.map (changeOf current target servers) := by
    rw [changes_serverSummary]
    simp only [OrderedMap.values, OrderedMap.map, OrderedMap.keys, List.map_map]
    rfl
  have after (server : String) :
      (changeOf current target servers server).segmentsAfter = target.load server :=
    (serverChange_spec current target server (tagsOf servers server)).1.2
  rw [values, List.filter_map]
  refine congrArg _ ?_
  simp only [Function.comp_def, after]
  rw [← OrderedMap.keys_filter, OrderedMap.keys_eq_iff]
  intro server
  rw [OrderedMap.keys_filter, List.mem_filter, serversOf, OrderedMap.mem_keys_ofKeys,
    List.mem_append, decide_eq_true_iff, ← Nat.pos_iff_ne_zero, Assignment.load_pos_iff]
  tauto

/-- The servers as they are counted under a tag, once for every time that they list it. -/
def countedUnder (table : TableConfig) (target : Assignment) (servers : List Server)
    (tag : String) : List String :=
  target.byServer.keys.flatMap fun server =>
    List.replicate ((countedTags table.tags (tagsOf servers server)).count tag) server

def summaries (table : TableConfig) (current target : Assignment) (servers : List Server) :
    OrderedMap String TagSummary :=
  OrderedMap.gather (fun tag => { tag }) TagSummary.count (table.tags.map fun tag _ => { tag })
    (target.byServer.keys.flatMap fun server =>
      (countedTags table.tags (tagsOf servers server)).map fun tag =>
        (tag, changeOf current target servers server))

private theorem tags_compute (segments : OrderedMap String Segment) :
    (compute table current target servers segments).tags =
      (summaries table current target servers).values := by
  simp only [compute, tagSummaries, counted_changes, List.foldl_map]
  exact congrArg OrderedMap.values (OrderedMap.foldl_sources (fun tag => { tag }) TagSummary.count _
    (fun server => countedTags table.tags (tagsOf servers server))
    (changeOf current target servers) target.byServer.keys)

theorem get?_summaries (tag : String) : (summaries table current target servers).get? tag =
    if tag ∈ table.tags.keys ∨ countedUnder table target servers tag ≠ [] then
      some (tally current target tag (countedUnder table target servers tag))
    else none := by
  have items : (target.byServer.keys.flatMap fun server =>
      List.replicate ((countedTags table.tags (tagsOf servers server)).count tag)
        (changeOf current target servers server)) =
      (countedUnder table target servers tag).map (changeOf current target servers) := by
    simp only [countedUnder, List.map_flatMap, List.map_replicate]
  have begun : ((table.tags.get? tag).map fun _ => ({ tag } : TagSummary)).getD { tag } =
      { tag } := by
    cases table.tags.get? tag <;> rfl
  have counts : ((countedUnder table target servers tag).map
      (changeOf current target servers)).foldl TagSummary.count { tag } =
      tally current target tag (countedUnder table target servers tag) := by
    simp only [foldl_count, tally, List.map_map, Function.comp_def, unchanged_changeOf,
      Nat.zero_add, List.length_map]
    simp only [changeOf, added_serverChange]
  rw [summaries, OrderedMap.get?_gather, OrderedMap.itemsOf_flatMap, items, OrderedMap.get?_map,
    begun, counts]
  simp only [List.map_eq_nil_iff]
  by_cases none : countedUnder table target servers tag = []
  · have idle : tally current target tag [] = { tag } := rfl
    cases stored : table.tags.get? tag with
    | none =>
      have unknown : tag ∉ table.tags.keys := by simp [OrderedMap.mem_keys_iff, stored]
      simp [none, unknown]
    | some _ =>
      have known : tag ∈ table.tags.keys := OrderedMap.mem_keys_iff.mpr ⟨_, stored⟩
      simp [none, known, idle]
  · simp [none]

theorem mem_countedTags {tableTags : NameSet} {tags : List String} {tag : String} :
    tag ∈ countedTags tableTags tags ↔ tag ∈ tags ∧ tag ∈ tableTags.keys ∨
      tag = outdatedTag ∧ ∀ own ∈ tags, own ∉ tableTags.keys := by
  have relevant : tag ∈ tags.filter tableTags.contains ↔ tag ∈ tags ∧ tag ∈ tableTags.keys := by
    rw [List.mem_filter, OrderedMap.contains_iff]
  have none : tags.filter tableTags.contains = [] ↔ ∀ own ∈ tags, own ∉ tableTags.keys := by
    simp only [List.filter_eq_nil_iff, OrderedMap.contains_iff]
  rw [← relevant, ← none, countedTags]
  split
  · rename_i empty
    simp [empty]
  · rename_i some
    exact (or_iff_left fun ⟨_, empty⟩ => some empty).symm

private theorem count_countedTags {tableTags : NameSet} (free : outdatedTag ∉ tableTags.keys)
    {tag : String} (known : tag ∈ tableTags.keys) (tags : List String) :
    (countedTags tableTags tags).count tag = tags.count tag := by
  have relevant : (tags.filter tableTags.contains).count tag = tags.count tag :=
    List.count_filter (OrderedMap.contains_iff.mpr known)
  rw [← relevant, countedTags]
  split
  · rename_i empty
    have apart : outdatedTag ≠ tag := fun same => free (same ▸ known)
    rw [empty, List.count_singleton, List.count_nil]
    simp [apart]
  · rfl

private theorem count_outdated_le {tableTags : NameSet} (free : outdatedTag ∉ tableTags.keys)
    (tags : List String) : (countedTags tableTags tags).count outdatedTag ≤ 1 := by
  rw [countedTags]
  split
  · exact Nat.le_refl 1
  · have none : outdatedTag ∉ tags.filter tableTags.contains := by
      simp [List.mem_filter, OrderedMap.contains_iff, free]
    rw [List.count_eq_zero.mpr none]
    exact Nat.zero_le 1

theorem mem_countedUnder {tag server : String} :
    server ∈ countedUnder table target servers tag ↔ server ∈ target.byServer.keys ∧
      tag ∈ countedTags table.tags (tagsOf servers server) := by
  simp only [countedUnder, List.mem_flatMap, List.mem_replicate, ne_eq, List.count_eq_zero,
    not_not]
  constructor
  · rintro ⟨_, hosting, listed, rfl⟩
    exact ⟨hosting, listed⟩
  · exact fun ⟨hosting, listed⟩ => ⟨server, hosting, listed, rfl⟩

private theorem compute_tagsTell (table : TableConfig) (current target : Assignment)
    (servers : List Server) (segments : OrderedMap String Segment) :
    TagsTell (compute table current target servers segments).tags table current target
      (countedUnder table target servers) := by
  have value : ∀ entry ∈ (summaries table current target servers).entries, entry.2 =
      tally current target entry.1 (countedUnder table target servers entry.1) := by
    intro entry member
    have stored := (get?_summaries entry.1).symm.trans (OrderedMap.get?_eq_some_iff.mpr member)
    exact (Option.some.inj (Option.ite_none_right_eq_some.mp stored).2).symm
  have names : (summaries table current target servers).values.map TagSummary.tag =
      (summaries table current target servers).keys := by
    rw [OrderedMap.values, OrderedMap.keys, List.map_map]
    refine List.map_congr_left fun entry member => ?_
    rw [Function.comp_apply, value entry member]
    rfl
  rw [tags_compute]
  constructor
  case ordered =>
    rw [names]
    exact OrderedMap.pairwise_keys_lt _
  case listed =>
    intro tag
    have shown : tag ∈ (summaries table current target servers).keys ↔
        tag ∈ table.tags.keys ∨ countedUnder table target servers tag ≠ [] := by
      rw [OrderedMap.mem_keys_iff, get?_summaries]
      simp
    rw [names, shown]
    constructor
    · rintro (known | counted)
      · exact Or.inl known
      · obtain ⟨server, member⟩ := List.exists_mem_of_ne_nil _ counted
        rcases mem_countedTags.mp (mem_countedUnder.mp member).2 with ⟨_, known⟩ | ⟨rfl, _⟩
        · exact Or.inl known
        · exact Or.inr ⟨rfl, counted⟩
    · rintro (known | ⟨rfl, counted⟩)
      · exact Or.inl known
      · exact Or.inr counted
  case entries =>
    intro entry member
    obtain ⟨⟨tag, summary⟩, stored, rfl⟩ := List.mem_map.mp member
    have same := value _ stored
    simp only at same
    rw [same]
    rfl

end counted

section members

private theorem membersOf_eq (free : outdatedTag ∉ table.tags.keys) {tag : String}
    (listed : tag ∈ table.tags.keys ∨ tag = outdatedTag) :
    membersOf table target servers tag = target.byServer.keys.filter fun server =>
      0 < (countedTags table.tags (tagsOf servers server)).count tag := by
  refine List.filter_congr fun server _ => ?_
  simp only [List.count_pos_iff, mem_countedTags]
  rcases listed with known | rfl
  · have apart : tag ≠ outdatedTag := fun same => free (same ▸ known)
    simp only [apart, if_false, known, and_true, false_and, or_false]
  · simp only [if_pos, free, and_false, false_or, true_and]

private theorem countedUnder_eq (free : outdatedTag ∉ table.tags.keys) {tag : String}
    (listed : tag ∈ table.tags.keys ∨ tag = outdatedTag)
    (once : ∀ server ∈ target.byServer.keys, ∀ tag ∈ table.tags.keys,
      (tagsOf servers server).count tag ≤ 1) :
    countedUnder table target servers tag = membersOf table target servers tag := by
  rw [membersOf_eq free listed]
  refine (OrderedMap.flatMap_replicate_of_le_one fun server hosting => ?_).trans (List.map_id _)
  rcases listed with known | rfl
  · rw [count_countedTags free known]
    exact once server hosting tag known
  · exact count_outdated_le free _

end members

/-- Each server is counted once under each tag just where no server's list repeats one. -/
theorem tagsTell_iff (free : outdatedTag ∉ table.tags.keys) (segments : OrderedMap String Segment) :
    TagsTell (compute table current target servers segments).tags table current target
        (membersOf table target servers) ↔
      ∀ server ∈ target.byServer.keys, ∀ tag ∈ table.tags.keys,
        (tagsOf servers server).count tag ≤ 1 := by
  have truth := compute_tagsTell table current target servers segments
  constructor
  · intro told server hosting tag known
    obtain ⟨entry, member, rfl⟩ := List.mem_map.mp ((truth.listed tag).mpr (Or.inl known))
    -- Both accounts have this entry, so they count equally many servers.
    have same := (truth.entries entry member).symm.trans (told.entries entry member)
    have lengths := congrArg TagSummary.participants same
    simp only [tally, membersOf_eq free (Or.inl known)] at lengths
    have once := OrderedMap.le_one_of_length_flatMap_replicate lengths server hosting
    rwa [count_countedTags free known] at once
  · intro once
    have same : ∀ tag, tag ∈ table.tags.keys ∨ tag = outdatedTag →
        countedUnder table target servers tag = membersOf table target servers tag :=
      fun tag listed => countedUnder_eq free listed once
    constructor
    case ordered => exact truth.ordered
    case listed =>
      intro tag
      rw [truth.listed, same outdatedTag (Or.inr rfl)]
    case entries =>
      intro entry member
      rw [← same entry.tag]
      · exact truth.entries entry member
      · exact ((truth.listed _).mp (List.mem_map_of_mem member)).imp_right And.left

def taggedTable : TableConfig := .offline "t" 1 "T"

/-- One segment, on a server with the given tags. -/
def taggedTarget : Assignment := .ofList [("s", .uniform ["a"] .online)]

def taggedServer (tags : List String) : List Server := [{ id := "a", tags }]

theorem taggedServer_tells :
    TagsTell (compute taggedTable {} taggedTarget (taggedServer ["T", "U"]) {}).tags taggedTable {}
      taggedTarget (membersOf taggedTable taggedTarget (taggedServer ["T", "U"])) :=
  (tagsTell_iff (by decide +kernel) {}).mpr (by decide +kernel)

/-- A server that lists its tag twice is counted as two. -/
theorem not_all_tags_tell :
    ¬ ∀ (table : TableConfig) (current target : Assignment) (servers : List Server)
      (segments : OrderedMap String Segment), outdatedTag ∉ table.tags.keys →
      TagsTell (compute table current target servers segments).tags table current target
        (membersOf table target servers) := by
  intro holds
  have told := holds taggedTable {} taggedTarget (taggedServer ["T", "T"]) {} (by decide +kernel)
  let counted : TagSummary := { tag := "T", toDownload := 2, participants := 2 }
  have listed : counted ∈ (compute taggedTable {} taggedTarget (taggedServer ["T", "T"]) {}).tags := by
    decide +kernel
  have twice : counted ≠ tally {} taggedTarget "T"
      (membersOf taggedTable taggedTarget (taggedServer ["T", "T"]) "T") := by
    decide +kernel
  exact twice (told.entries counted listed)

end SegmentPlacement.Summary
