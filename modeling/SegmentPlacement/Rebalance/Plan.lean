import SegmentPlacement.Program

/-! The layouts that a rebalance works with, and those of them that have to be
stored or dropped. A stored layout is used as it is unless layouts are to be
computed anew. -/

namespace SegmentPlacement

structure LayoutPlan where
  layouts : Layouts := {}
  tiers : List TierLayout := []
  toStore : List Layout := []
  toDrop : List String := []

namespace LayoutPlan

/-- Whether anything is to be stored or dropped. -/
def changes (plan : LayoutPlan) : Bool := !plan.toStore.isEmpty || !plan.toDrop.isEmpty

/-- The layouts of the tiers by name. -/
def tierLayouts (plan : LayoutPlan) : OrderedMap String Layout :=
  OrderedMap.ofList (plan.tiers.map fun found => (found.tier.config.name, found.layout))

/-- Stores the computed layout unless it is the stored one. -/
def storeIfNew (plan : LayoutPlan) (stored : Option Layout) (computed : Layout) : LayoutPlan :=
  if stored = some computed then plan else { plan with toStore := plan.toStore ++ [computed] }

/-- Adds the layout of one kind of segments. Without settings of its own a kind has no layout to
store, so a stored one is dropped when layouts are computed anew. -/
def addKind (table : TableConfig) (options : RebalanceOptions) (servers : List Server)
    (plan : LayoutPlan) (kind : LayoutKind) (stored : Option Layout) : Except Error LayoutPlan := do
  let minimize := options.minimizeMovement.override?
  let extend (plan : LayoutPlan) (layout : Layout) : LayoutPlan :=
    { plan with layouts := plan.layouts.insert kind layout }
  if options.reassignInstances then
    if (table.layouts.get? kind).isSome then
      let computed ← table.computeLayout kind servers stored minimize
      return extend (plan.storeIfNew stored computed) computed
    else
      let computed ← table.computeLayout kind servers none (some false)
      let dropped := if stored.isSome then [kind.layoutName table.name] else []
      return extend { plan with toDrop := plan.toDrop ++ dropped } computed
  else match stored with
    | some layout => return extend plan layout
    | none =>
      let computed ← table.computeLayout kind servers none minimize
      return extend plan computed

/-- Adds the layout of one tier. -/
def addTier (table : TableConfig) (options : RebalanceOptions) (servers : List Server)
    (plan : LayoutPlan) (tier : Tier) (stored : Option Layout) : Except Error LayoutPlan := do
  let extend (plan : LayoutPlan) (layout : Layout) : LayoutPlan :=
    { plan with tiers := plan.tiers ++ [⟨tier, layout⟩] }
  let compute : Except Error Layout :=
    table.computeTierLayout tier.config servers stored
      (options.minimizeMovement.override?.getD false)
  if options.reassignInstances then
    let computed ← compute
    return extend (plan.storeIfNew stored computed) computed
  else match stored with
    | some layout => return extend plan layout
    | none => return extend plan (← compute)

/-- A stored layout, which must pass its checks. -/
def readLayout (name : String) : Program (Except Error (Option Layout)) := do
  match ← Program.call (.layout name) with
  | .error text => return .error (.cluster text)
  | .ok none => return .ok none
  | .ok (some layout) => return layout.validate.map fun _ => some layout

/-- Adds one layout after the other, each with what is stored under its name. -/
def addAll (nameOf : ι → String) (add : LayoutPlan → ι → Option Layout → Except Error LayoutPlan) :
    List ι → LayoutPlan → Program (Except Error LayoutPlan)
  | [], plan => return .ok plan
  | item :: rest, plan => do
    match ← readLayout (nameOf item) with
    | .error error => return .error error
    | .ok stored =>
      match add plan item stored with
      | .error error => return .error error
      | .ok next => addAll nameOf add rest next

/-- The layouts of all kinds of segments, then those of all tiers. -/
def make (table : TableConfig) (options : RebalanceOptions) (servers : List Server) :
    Program (Except Error LayoutPlan) := do
  match ← addAll (fun kind => kind.layoutName table.name) (addKind table options servers)
      table.layoutKinds {} with
  | .error error => return .error error
  | .ok plan =>
    match Tier.sort table.tiers with
    | .error error => return .error error
    | .ok tiers =>
      addAll (fun tier => tier.config.layoutName table.name) (addTier table options servers)
        tiers plan

end LayoutPlan

end SegmentPlacement
