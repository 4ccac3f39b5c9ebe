import SpatialIndex.Tree.Pack

/-!
# Configuration

The settings of index construction, scanning and planning.  Settings may hold any numbers until
they are checked; `Config.validate` names the first one out of range.
-/

namespace SpatialIndex

/-- The settings of a catalog. -/
structure Config where
  /-- The most children of a node. -/
  fanout : Nat := 64
  /-- In how many partitions leaves are packed. -/
  buildThreads : Nat := 1
  /-- With fewer entries than this, leaves are packed in one partition. -/
  parallelThreshold : Nat := 65536
  /-- The coordinate that orders entries. -/
  sortKey : SortKey := .minX
  /-- How many rows an index scan fetches at a time. -/
  scanBatchSize : Nat := 2048
  /-- New planners use indexes. -/
  enableIndexScan : Bool := true
deriving DecidableEq

/-- A setting that has a range, and is out of it. -/
inductive RangeFault
  /-- The fanout is not one that trees are packed with. -/
  | fanout
  /-- There is no thread to build with. -/
  | buildThreads
  /-- A batch has no rows. -/
  | scanBatchSize
deriving DecidableEq

/-- The range in words. -/
def RangeFault.message : RangeFault → String
  | fanout => s!"Fanout must be between {minFanout} and {maxFanout}"
  | buildThreads => "Build threads must be greater than zero"
  | scanBatchSize => "Scan batch size must be greater than zero"

/-- Why a configuration is refused. -/
inductive ConfigFault
  /-- The fanout is not one that trees are packed with. -/
  | fanoutOutOfRange (value : Nat)
  /-- There is no thread to build with. -/
  | noBuildThreads
  /-- A batch has no rows. -/
  | emptyBatches
  /-- A setting has a name that no setting has. -/
  | unknownField (name : String)
  /-- The coordinate has a name that no coordinate has. -/
  | unknownSortKey (name : String)
  /-- A setting is given twice. -/
  | repeatedField (name : String)
  /-- The document is not well formed, or a setting has a value of the wrong kind. -/
  | malformed
deriving DecidableEq

/-- The name of a coordinate in documents. -/
def SortKey.name : SortKey → String
  | minX => "min_x"
  | centerX => "center_x"

/-- The coordinate with a given name. -/
def SortKey.ofName? (name : String) : Option SortKey :=
  [SortKey.minX, .centerX].find? (·.name == name)

namespace Config

/-- The settings by themselves. -/
inductive Field
  /-- The most children of a node. -/
  | fanout
  /-- In how many partitions leaves are packed. -/
  | buildThreads
  /-- With fewer entries than this, leaves are packed in one partition. -/
  | parallelThreshold
  /-- The coordinate that orders entries. -/
  | sortKey
  /-- How many rows an index scan fetches at a time. -/
  | scanBatchSize
  /-- New planners use indexes. -/
  | enableIndexScan
deriving DecidableEq

namespace Field

/-- All settings in the order in which documents list them. -/
def all : List Field :=
  [fanout, buildThreads, parallelThreshold, sortKey, scanBatchSize, enableIndexScan]

/-- The name of a setting in documents. -/
def name : Field → String
  | fanout => "fanout"
  | buildThreads => "build_threads"
  | parallelThreshold => "parallel_build_threshold"
  | sortKey => "sort_key"
  | scanBatchSize => "scan_batch_size"
  | enableIndexScan => "enable_index_scan"

/-- The setting with a given name. -/
def ofName? (name : String) : Option Field := all.find? (·.name == name)

end Field

/-- What a setting can be. -/
inductive FieldValue
  /-- A number. -/
  | number (n : Nat)
  /-- A coordinate. -/
  | sortKey (key : SortKey)
  /-- On or off. -/
  | truth (b : Bool)

/-- The value of one setting. -/
def value (c : Config) : Field → FieldValue
  | .fanout => .number c.fanout
  | .buildThreads => .number c.buildThreads
  | .parallelThreshold => .number c.parallelThreshold
  | .sortKey => .sortKey c.sortKey
  | .scanBatchSize => .number c.scanBatchSize
  | .enableIndexScan => .truth c.enableIndexScan

/-- The configuration with one setting changed; a value of the wrong kind changes nothing. -/
def withValue (c : Config) : Field → FieldValue → Config
  | .fanout, .number n => { c with fanout := n }
  | .buildThreads, .number n => { c with buildThreads := n }
  | .parallelThreshold, .number n => { c with parallelThreshold := n }
  | .sortKey, .sortKey key => { c with sortKey := key }
  | .scanBatchSize, .number n => { c with scanBatchSize := n }
  | .enableIndexScan, .truth b => { c with enableIndexScan := b }
  | _, _ => c

/-- The range that a value of a setting would be out of. -/
def rangeFault? : Field → FieldValue → Option RangeFault
  | .fanout, .number n => if isFanout n then none else some .fanout
  | .buildThreads, .number n => if n = 0 then some .buildThreads else none
  | .scanBatchSize, .number n => if n = 0 then some .scanBatchSize else none
  | _, _ => none

/-- Changes one setting, unless its value is out of range. -/
def withField (c : Config) (field : Field) (value : FieldValue) : Except RangeFault Config :=
  match rangeFault? field value with
  | some fault => .error fault
  | none => .ok (c.withValue field value)

/-- Checks the ranges of all settings. -/
def validate (c : Config) : Except ConfigFault Unit :=
  if !isFanout c.fanout then .error (.fanoutOutOfRange c.fanout)
  else if c.buildThreads = 0 then .error .noBuildThreads
  else if c.scanBatchSize = 0 then .error .emptyBatches
  else .ok ()

/-- How a catalog with these settings packs trees. -/
def packing (c : Config) : Packing where
  fanout := c.fanout
  threads := c.buildThreads
  parallelThreshold := c.parallelThreshold
  sortKey := c.sortKey

/-- The settings as a record, as descriptions of catalogs show them. -/
def recordText (c : Config) : String :=
  let key := match c.sortKey with
    | .minX => "MinX"
    | .centerX => "CenterX"
  s!"Config \x7b fanout: {c.fanout}, build_threads: {c.buildThreads}, " ++
    s!"parallel_build_threshold: {c.parallelThreshold}, sort_key: {key}, " ++
    s!"scan_batch_size: {c.scanBatchSize}, enable_index_scan: {c.enableIndexScan} \x7d"

end Config

/-- The fault in words. -/
def ConfigFault.message : ConfigFault → String
  | fanoutOutOfRange value => s!"{RangeFault.message .fanout}, got: {value}"
  | noBuildThreads => RangeFault.message .buildThreads
  | emptyBatches => RangeFault.message .scanBatchSize
  | unknownField name =>
    let names := Config.Field.all.map fun field => "`" ++ field.name ++ "`"
    "unknown field `" ++ name ++ "`, expected one of " ++ ", ".intercalate names
  | unknownSortKey name =>
    "unknown variant `" ++ name ++ "`, expected `" ++ SortKey.name .minX ++ "` or `" ++
      SortKey.name .centerX ++ "`"
  | repeatedField name => "duplicate field `" ++ name ++ "`"
  | malformed => "malformed document"

end SpatialIndex
