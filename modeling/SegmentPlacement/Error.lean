/-! Why an operation was refused. Each cause keeps what it is about; the wording
stands in one place. -/

namespace SegmentPlacement

/-- What is wrong with a configuration. -/
inductive ConfigFault where
  | period (text : String)
  | replicationNotPositive (table : String)
  | tableNameSuffix (table suffix : String)
  | streamPartitionsMissing (table : String)
  | groupCountsNotPositive (layout : String)
  | batchSize (given : Int)
  | diskThreshold (given : String)
  | described (text : String)
  deriving DecidableEq, Repr

/-- What is wrong with a layout. -/
inductive LayoutFault where
  | noSlots (partitions groups : Nat)
  | slotOutOfRange (partition group partitions groups : Nat)
  | slotEmpty (partition group : Nat)
  | slotRepeats (partition group : Nat)
  | sizes (name : String) (partitions groups : Nat)
  | incomplete (name : String)
  | keyRepeats (key name : String)
  | missing (kind table : String)
  | slotUnset (name : String) (partition group : Nat)
  | groupsDiffer (name : String) (partition : Nat)
  | described (text : String)
  deriving DecidableEq, Repr

inductive Error where
  | invalidConfig (fault : ConfigFault)
  | emptyPool (tag : String)
  | tooFewServers (context : String) (available required : Nat)
  | invalidLayout (fault : LayoutFault)
  | tableNotFound (table : String)
  | contended (resource : String) (attempts : Nat)
  | cluster (text : String)
  | timeout (text : String)
  deriving DecidableEq, Repr

def ConfigFault.message : ConfigFault → String
  | .period text => "invalid period: '" ++ text ++ "'"
  | .replicationNotPositive table => "replication of " ++ table ++ " must be positive"
  | .tableNameSuffix table suffix => "table name " ++ table ++ " does not end with " ++ suffix
  | .streamPartitionsMissing table =>
    "implicit realtime partition selector requires stream partitions for " ++ table
  | .groupCountsNotPositive layout =>
    layout ++ ": numReplicaGroups and numPartitions must be positive"
  | .batchSize given => "batchSizePerServer must be -1 or positive, got " ++ toString given
  | .diskThreshold given => "diskUtilizationThreshold must be within [0, 1], got " ++ given
  | .described text => text

/-- A slot as its partition and group. -/
private def slotText (partition group : Nat) : String :=
  "(" ++ toString partition ++ ", " ++ toString group ++ ")"

def LayoutFault.message : LayoutFault → String
  | .noSlots partitions groups =>
    "numPartitions (" ++ toString partitions ++ ") and numReplicaGroups (" ++ toString groups
      ++ ") must be positive"
  | .slotOutOfRange partition group partitions groups =>
    "slot " ++ slotText partition group ++ " out of range [0, " ++ toString partitions
      ++ ") x [0, " ++ toString groups ++ ")"
  | .slotEmpty partition group => "empty instance list for slot " ++ slotText partition group
  | .slotRepeats partition group => "duplicate instance in slot " ++ slotText partition group
  | .sizes name partitions groups =>
    name ++ " has " ++ toString partitions ++ " partitions and " ++ toString groups
      ++ " replica groups"
  | .incomplete name => name ++ " is incomplete"
  | .keyRepeats key name => "duplicate instance in slot " ++ key ++ " of " ++ name
  | .missing kind table => "missing " ++ kind ++ " instance partitions for " ++ table
  | .slotUnset name partition group =>
    name ++ " has no instances for slot " ++ slotText partition group
  | .groupsDiffer name partition =>
    "replica groups of " ++ name ++ " partition " ++ toString partition ++ " differ in size"
  | .described text => text

def Error.message : Error → String
  | .invalidConfig fault => "Invalid config: " ++ fault.message
  | .emptyPool tag => "No enabled instances with tag: " ++ tag
  | .tooFewServers context available required =>
    "Insufficient instances for " ++ context ++ ": have " ++ toString available ++ ", need "
      ++ toString required
  | .invalidLayout fault => "Invalid instance partitions: " ++ fault.message
  | .tableNotFound table => "Table not found: " ++ table
  | .contended resource attempts =>
    "Concurrent modification of " ++ resource ++ ": gave up after " ++ toString attempts
      ++ " attempts"
  | .cluster text => "Cluster state error: " ++ text
  | .timeout text => "Timed out: " ++ text

/-- Whether servers or layouts, rather than the cluster or a setting, were at fault. -/
def Error.isPlacement : Error → Bool
  | .emptyPool _ | .tooFewServers .. | .invalidLayout _ => true
  | _ => false

end SegmentPlacement
