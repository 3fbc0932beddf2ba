import Arcxa.Lib.BTreeMap
import Arcxa.Lib.Text

/-!
# Row keys

A row of a source is known by a `RowId`, and the lineage store keeps it under a text,
`to_key`. `from_key` reads the text back: it cuts at the first colon for the type of the
source, and then at the first or at the last colon, at commas and at equals signs, as the type
of the source has it. Nothing is escaped, so a separator inside a table, a topic, a key column
or a value is taken for one of the key's own (`fromKey_toKey_iff`).
-/

namespace Arcxa.Lineage

inductive DatabaseType where
  | Postgres
  | DB2
  | Oracle
  | SAPHANA
  | MySQL
  | Snowflake
  | Databricks
  deriving DecidableEq

inductive SourceType where
  | Csv
  | Database (db : DatabaseType)
  | Kafka
  | S3
  deriving DecidableEq

inductive RowPosition where
  | RowNumber (n : UInt64)
  | PrimaryKey (keys : BTreeMap String String)
  | KafkaOffset (partition : Int32) (offset : Int64)
  | ParquetIndex (idx : UInt64)

structure RowId where
  sourceType : SourceType
  sourceId : String
  position : RowPosition

def DatabaseType.display : DatabaseType → String
  | .Postgres => "postgres"
  | .DB2 => "db2"
  | .Oracle => "oracle"
  | .SAPHANA => "saphana"
  | .MySQL => "mysql"
  | .Snowflake => "snowflake"
  | .Databricks => "databricks"

def SourceType.display : SourceType → String
  | .Csv => "csv"
  | .Database db => db.display
  | .Kafka => "kafka"
  | .S3 => "s3"

/-- The names of databases that `from_key` knows. -/
def DatabaseType.parse (name : String) : Option DatabaseType :=
  if name = "db2" then some .DB2
  else if name = "postgres" then some .Postgres
  else if name = "oracle" then some .Oracle
  else if name = "hana" ∨ name = "saphana" then some .SAPHANA
  else if name = "mysql" then some .MySQL
  else if name = "snowflake" then some .Snowflake
  else if name = "databricks" then some .Databricks
  else none

/-- What `ParseIntError` displays. -/
def parseIntMessage : IntErrorKind → String
  | .Empty => "cannot parse integer from empty string"
  | .InvalidDigit => "invalid digit found in string"
  | .PosOverflow => "number too large to fit in target type"
  | .NegOverflow => "number too small to fit in target type"

def parseU64 (text : List Char) : Except String UInt64 :=
  match parseUnsigned (2 ^ 64 - 1) text with
  | .ok n => .ok (UInt64.ofNat n)
  | .error e => .error (parseIntMessage e)

def parseI32 (text : List Char) : Except String Int32 :=
  match parseSigned (2 ^ 31 - 1) text with
  | .ok i => .ok (Int32.ofInt i)
  | .error e => .error (parseIntMessage e)

def parseI64 (text : List Char) : Except String Int64 :=
  match parseSigned (2 ^ 63 - 1) text with
  | .ok i => .ok (Int64.ofInt i)
  | .error e => .error (parseIntMessage e)

/-- `trim_start_matches` with one character. -/
def trimStartMatches (c : Char) (text : List Char) : List Char := text.dropWhile (· == c)

namespace RowId

def csv (filePath : String) (rowNumber : UInt64) : RowId :=
  ⟨.Csv, filePath, .RowNumber rowNumber⟩

def database (dbType : DatabaseType) (table : String) (primaryKeys : BTreeMap String String) :
    RowId :=
  ⟨.Database dbType, table, .PrimaryKey primaryKeys⟩

def kafka (topic : String) (partition : Int32) (offset : Int64) : RowId :=
  ⟨.Kafka, topic, .KafkaOffset partition offset⟩

def s3 (bucket key : String) (index : UInt64) : RowId :=
  ⟨.S3, bucket ++ "/" ++ key, .ParquetIndex index⟩

/-- The pairs of a primary key, `k=v` with commas between them. -/
def pkStr (keys : BTreeMap String String) : String :=
  String.intercalate "," (keys.entries.map fun p => p.1 ++ "=" ++ p.2)

def positionStr : RowPosition → String
  | .RowNumber n => Nat.repr n.toNat
  | .PrimaryKey keys => pkStr keys
  | .KafkaOffset partition offset =>
    "p" ++ String.ofList (intDigits partition.toInt) ++ ":o" ++
      String.ofList (intDigits offset.toInt)
  | .ParquetIndex idx => "r" ++ Nat.repr idx.toNat

def toKey (r : RowId) : String :=
  r.sourceType.display ++ ":" ++ r.sourceId ++ ":" ++ positionStr r.position

def parsePairs : List (List Char) → BTreeMap String String → Except String (BTreeMap String String)
  | [], pk => .ok pk
  | pair :: pairs, pk =>
    match splitOnce '=' pair with
    | none => .error "Invalid primary key segment"
    | some (key, value) => parsePairs pairs (pk.insert (String.ofList key) (String.ofList value))

def fromCsvKey (rest : List Char) : Except String RowId :=
  match rsplitOnce ':' rest with
  | none => .error "Missing row number in CSV key"
  | some (path, number) => do
    let rowNumber ← parseU64 number
    pure (csv (String.ofList path) rowNumber)

def fromDatabaseKey (dbType : DatabaseType) (rest : List Char) : Except String RowId :=
  match splitOnce ':' rest with
  | none => .error "Invalid database key format"
  | some (table, pkPart) => do
    let pk ← parsePairs (pkPart.splitOn ',') BTreeMap.empty
    pure (database dbType (String.ofList table) pk)

/-- `splitn(3, ':')` has a first part whatever the text is. -/
def fromKafkaKey (rest : List Char) : Except String RowId :=
  match splitOnce ':' rest with
  | none => .error "Missing Kafka partition"
  | some (topic, rest) =>
    match splitOnce ':' rest with
    | none => do
      let _ ← parseI32 (trimStartMatches 'p' rest)
      .error "Missing Kafka offset"
    | some (partition, offset) => do
      let partition ← parseI32 (trimStartMatches 'p' partition)
      let offset ← parseI64 (trimStartMatches 'o' offset)
      pure (kafka (String.ofList topic) partition offset)

def fromS3Key (rest : List Char) : Except String RowId :=
  match rsplitOnce ':' rest with
  | none => .error "Missing row index in S3 key"
  | some (bucketKey, index) => do
    let rowIndex ← parseU64 (trimStartMatches 'r' index)
    match splitOnce '/' bucketKey with
    | none => .error "Invalid S3 path (missing bucket/key)"
    | some (bucket, objectKey) =>
      pure (s3 (String.ofList bucket) (String.ofList objectKey) rowIndex)

def fromKey (key : String) : Except String RowId :=
  match splitOnce ':' key.toList with
  | none => .error "Missing source type prefix"
  | some (source, rest) =>
    let sourceType := String.ofList source
    if sourceType = "csv" then fromCsvKey rest
    else match DatabaseType.parse sourceType with
      | some dbType => fromDatabaseKey dbType rest
      | none =>
        if sourceType = "kafka" then fromKafkaKey rest
        else if sourceType = "s3" then fromS3Key rest
        else .error ("Unsupported source type: " ++ sourceType)

end RowId

/-! ## The rows of a source -/

/-- What the constructors of `RowId` are called with. -/
inductive SourceRow where
  | csv (filePath : String) (rowNumber : UInt64)
  | database (dbType : DatabaseType) (table : String) (primaryKeys : BTreeMap String String)
      (hne : primaryKeys.entries ≠ [])
  | kafka (topic : String) (partition : Int32) (offset : Int64)
  | s3 (bucket key : String) (index : UInt64)

namespace SourceRow

def rowId : SourceRow → RowId
  | csv filePath rowNumber => RowId.csv filePath rowNumber
  | database dbType table primaryKeys _ => RowId.database dbType table primaryKeys
  | kafka topic partition offset => RowId.kafka topic partition offset
  | s3 bucket key index => RowId.s3 bucket key index

def Separable : SourceRow → Prop
  | csv _ _ => True
  | database _ table primaryKeys _ => ':' ∉ table.toList ∧
      ∀ p ∈ primaryKeys.entries, ',' ∉ p.1.toList ∧ '=' ∉ p.1.toList ∧ ',' ∉ p.2.toList
  | kafka topic _ _ => ':' ∉ topic.toList
  | s3 _ _ _ => True

/-- The bucket of an S3 object is free of slashes. -/
def PlainBucket : SourceRow → Prop
  | s3 bucket _ _ => '/' ∉ bucket.toList
  | _ => True

end SourceRow

/-! ## Numbers -/

theorem parseU64_repr (n : UInt64) : parseU64 (Nat.toDigits 10 n.toNat) = .ok n := by
  have hle : n.toNat ≤ 2 ^ 64 - 1 := by
    have hlt := n.toNat_lt
    omega
  simp only [parseU64, parseUnsigned_toDigits hle, UInt64.ofNat_toNat]

theorem parseI32_intDigits (i : Int32) : parseI32 (intDigits i.toInt) = .ok i := by
  have hlow := Int32.le_toInt i
  have hhigh := Int32.toInt_lt i
  have hparse : parseSigned (2 ^ 31 - 1) (intDigits i.toInt) = .ok i.toInt :=
    parseSigned_intDigits (by omega) (by omega)
  simp only [parseI32, hparse, Int32.ofInt_toInt]

theorem parseI64_intDigits (i : Int64) : parseI64 (intDigits i.toInt) = .ok i := by
  have hlow := Int64.le_toInt i
  have hhigh := Int64.toInt_lt i
  have hparse : parseSigned (2 ^ 63 - 1) (intDigits i.toInt) = .ok i.toInt :=
    parseSigned_intDigits (by omega) (by omega)
  simp only [parseI64, hparse, Int64.ofInt_toInt]

theorem not_mem_intDigits {c : Char} (hdigit : c.isDigit = false) (hminus : c ≠ '-') (i : Int) :
    c ∉ intDigits i := by
  unfold intDigits
  split_ifs
  · rw [List.mem_cons, not_or]
    exact ⟨hminus, not_mem_toDigits hdigit⟩
  · exact not_mem_toDigits hdigit

theorem trimStartMatches_cons {c : Char} {text : List Char} (h : c ∉ text) :
    trimStartMatches c (c :: text) = text := by
  rw [trimStartMatches, List.dropWhile_cons_of_pos (by simp)]
  cases text with
  | nil => rfl
  | cons a text =>
    rw [List.mem_cons, not_or] at h
    exact List.dropWhile_cons_of_neg (by simpa using Ne.symm h.1)

/-! ## Keys -/

namespace RowId

theorem toList_toKey (r : RowId) :
    r.toKey.toList = r.sourceType.display.toList ++
      ':' :: (r.sourceId.toList ++ ':' :: (positionStr r.position).toList) := by
  simp [toKey, String.toList_append]

theorem not_mem_display (sourceType : SourceType) : ':' ∉ sourceType.display.toList := by
  cases sourceType with
  | Database db => cases db <;> decide
  | Csv => decide
  | Kafka => decide
  | S3 => decide

theorem splitOnce_toKey (r : RowId) :
    splitOnce ':' r.toKey.toList =
      some (r.sourceType.display.toList, r.sourceId.toList ++ ':' :: (positionStr r.position).toList) := by
  rw [toList_toKey, splitOnce_append (not_mem_display _)]

theorem parse_display (db : DatabaseType) : DatabaseType.parse db.display = some db := by
  cases db <;> decide

def fromSource : SourceType → List Char → Except String RowId
  | .Csv => fromCsvKey
  | .Database db => fromDatabaseKey db
  | .Kafka => fromKafkaKey
  | .S3 => fromS3Key

theorem fromKey_toKey (r : RowId) : fromKey r.toKey =
    fromSource r.sourceType (r.sourceId.toList ++ ':' :: (positionStr r.position).toList) := by
  rw [fromKey, splitOnce_toKey]
  simp only [String.ofList_toList]
  cases r.sourceType with
  | Csv => rfl
  | Database db =>
    have hcsv : (SourceType.Database db).display ≠ "csv" := by cases db <;> decide
    have hparse : DatabaseType.parse (SourceType.Database db).display = some db := parse_display db
    rw [if_neg hcsv, hparse]
    rfl
  | Kafka =>
    rw [if_neg (by decide), show DatabaseType.parse SourceType.Kafka.display = none by decide]
    rfl
  | S3 =>
    rw [if_neg (by decide), show DatabaseType.parse SourceType.S3.display = none by decide]
    rfl

theorem fromKey_csv (filePath : String) (rowNumber : UInt64) :
    fromKey (csv filePath rowNumber).toKey = .ok (csv filePath rowNumber) := by
  have hcut : rsplitOnce ':' (filePath.toList ++ ':' :: Nat.toDigits 10 rowNumber.toNat) =
      some (filePath.toList, Nat.toDigits 10 rowNumber.toNat) :=
    rsplitOnce_append (not_mem_toDigits (by decide)) _
  rw [fromKey_toKey]
  show fromCsvKey (filePath.toList ++ ':' :: (Nat.repr rowNumber.toNat).toList) = _
  rw [Nat.toList_repr, fromCsvKey, hcut]
  simp only [parseU64_repr, String.ofList_toList]
  rfl

theorem fromKey_s3 (bucket key : String) (index : UInt64) :
    fromKey (s3 bucket key index).toKey = .ok (s3 bucket key index) := by
  have hcolon : ':' ∉ 'r' :: Nat.toDigits 10 index.toNat := by
    rw [List.mem_cons, not_or]
    exact ⟨by decide, not_mem_toDigits (by decide)⟩
  have htrim : trimStartMatches 'r' ('r' :: Nat.toDigits 10 index.toNat) =
      Nat.toDigits 10 index.toNat :=
    trimStartMatches_cons (not_mem_toDigits (by decide))
  have hindex : (positionStr (.ParquetIndex index)).toList = 'r' :: Nat.toDigits 10 index.toNat := by
    simp [positionStr, String.toList_append]
  rw [fromKey_toKey]
  show fromS3Key ((bucket ++ "/" ++ key).toList ++ ':' :: (positionStr (.ParquetIndex index)).toList) = _
  rw [hindex, fromS3Key, rsplitOnce_append hcolon]
  simp only [htrim, parseU64_repr]
  obtain ⟨before, after, hcut⟩ := exists_splitOnce (l := (bucket ++ "/" ++ key).toList)
    (show '/' ∈ _ by simp [String.toList_append])
  obtain ⟨hpath, -⟩ := eq_of_splitOnce hcut
  have hjoin : String.ofList before ++ "/" ++ String.ofList after = bucket ++ "/" ++ key := by
    apply String.toList_inj.mp
    rw [hpath]
    simp [String.toList_append]
  rw [hcut]
  show Except.ok (s3 (String.ofList before) (String.ofList after) index) = _
  rw [s3, s3, hjoin]

theorem fromKey_kafka_iff (topic : String) (partition : Int32) (offset : Int64) :
    fromKey (kafka topic partition offset).toKey = .ok (kafka topic partition offset) ↔
      ':' ∉ topic.toList := by
  have hposition : (positionStr (.KafkaOffset partition offset)).toList =
      ('p' :: intDigits partition.toInt) ++ ':' :: 'o' :: intDigits offset.toInt := by
    simp [positionStr, String.toList_append]
  rw [fromKey_toKey]
  show fromKafkaKey (topic.toList ++ ':' :: (positionStr (.KafkaOffset partition offset)).toList) = _
    ↔ _
  rw [hposition, fromKafkaKey]
  constructor
  · intro h
    -- what was read as the topic is free of colons
    obtain ⟨before, after, hcut⟩ := exists_splitOnce (l := topic.toList ++
      ':' :: (('p' :: intDigits partition.toInt) ++ ':' :: 'o' :: intDigits offset.toInt))
      (show ':' ∈ _ by simp)
    obtain ⟨-, hfree⟩ := eq_of_splitOnce hcut
    simp only [hcut] at h
    have htopic : String.ofList before = topic := by
      split at h
      · cases hp : parseI32 (trimStartMatches 'p' after) <;> rw [hp] at h <;> cases h
      · rename_i p o _
        cases hp : parseI32 (trimStartMatches 'p' p) with
        | error e =>
          rw [hp] at h
          cases h
        | ok i =>
          cases ho : parseI64 (trimStartMatches 'o' o) with
          | error e =>
            rw [hp, ho] at h
            cases h
          | ok j =>
            rw [hp, ho] at h
            exact congrArg RowId.sourceId (Except.ok.inj h)
    rw [← htopic, String.toList_ofList]
    exact hfree
  · intro hfree
    have hpartition : ':' ∉ 'p' :: intDigits partition.toInt := by
      rw [List.mem_cons, not_or]
      exact ⟨by decide, not_mem_intDigits (by decide) (by decide) _⟩
    have hp : trimStartMatches 'p' ('p' :: intDigits partition.toInt) = intDigits partition.toInt :=
      trimStartMatches_cons (not_mem_intDigits (by decide) (by decide) _)
    have ho : trimStartMatches 'o' ('o' :: intDigits offset.toInt) = intDigits offset.toInt :=
      trimStartMatches_cons (not_mem_intDigits (by decide) (by decide) _)
    rw [splitOnce_append hfree]
    simp only [splitOnce_append hpartition, hp, ho, parseI32_intDigits, parseI64_intDigits,
      String.ofList_toList]
    rfl

/-! ## Primary keys -/

def pairChars (p : String × String) : List Char := p.1.toList ++ '=' :: p.2.toList

theorem toList_pkStr (keys : BTreeMap String String) :
    (pkStr keys).toList = [','].intercalate (keys.entries.map pairChars) := by
  have hpair : (fun p : String × String => (p.1 ++ "=" ++ p.2).toList) = pairChars := by
    funext p
    simp [pairChars, String.toList_append]
  rw [pkStr, String.toList_intercalate, List.map_map]
  show [','].intercalate (keys.entries.map (fun p => (p.1 ++ "=" ++ p.2).toList)) = _
  rw [hpair]

theorem parsePairs_pairChars {entries : List (String × String)}
    (h : ∀ p ∈ entries, '=' ∉ p.1.toList) (pk : BTreeMap String String) :
    parsePairs (entries.map pairChars) pk =
      .ok (entries.foldl (fun pk p => pk.insert p.1 p.2) pk) := by
  induction entries generalizing pk with
  | nil => rfl
  | cons p entries ih =>
    rw [List.forall_mem_cons] at h
    rw [List.map_cons, parsePairs, pairChars, splitOnce_append h.1]
    simp only [String.ofList_toList]
    exact ih h.2 _

theorem mem_of_parsePairs {pairs : List (List Char)} {pk pk' : BTreeMap String String}
    (h : parsePairs pairs pk = .ok pk') {p : String × String} (hp : p ∈ pk'.entries) :
    p ∈ pk.entries ∨ ∃ pair ∈ pairs, splitOnce '=' pair = some (p.1.toList, p.2.toList) := by
  induction pairs generalizing pk with
  | nil =>
    cases h
    exact .inl hp
  | cons pair pairs ih =>
    rw [parsePairs] at h
    cases hcut : splitOnce '=' pair with
    | none =>
      rw [hcut] at h
      cases h
    | some kv =>
      rw [hcut] at h
      rcases ih h with hmem | ⟨pair', hpair', hcut'⟩
      · rw [BTreeMap.mem_entries_iff, BTreeMap.get_insert] at hmem
        split_ifs at hmem with hk
        · refine .inr ⟨pair, List.mem_cons_self, ?_⟩
          rw [hcut, hk, ← Option.some.inj hmem, String.toList_ofList, String.toList_ofList]
        · exact .inl (BTreeMap.mem_entries_iff.mpr hmem)
      · exact .inr ⟨pair', List.mem_cons_of_mem _ hpair', hcut'⟩

theorem fromKey_database_iff (dbType : DatabaseType) (table : String)
    (primaryKeys : BTreeMap String String) (hne : primaryKeys.entries ≠ []) :
    fromKey (database dbType table primaryKeys).toKey =
        .ok (database dbType table primaryKeys) ↔
      ':' ∉ table.toList ∧ ∀ p ∈ primaryKeys.entries,
        ',' ∉ p.1.toList ∧ '=' ∉ p.1.toList ∧ ',' ∉ p.2.toList := by
  rw [fromKey_toKey]
  show fromDatabaseKey dbType (table.toList ++ ':' :: (pkStr primaryKeys).toList) = _ ↔ _
  rw [fromDatabaseKey]
  constructor
  · intro h
    obtain ⟨before, after, hcut⟩ := exists_splitOnce
      (l := table.toList ++ ':' :: (pkStr primaryKeys).toList) (show ':' ∈ _ by simp)
    obtain ⟨-, hfree⟩ := eq_of_splitOnce hcut
    simp only [hcut] at h
    cases hpairs : parsePairs (after.splitOn ',') BTreeMap.empty with
    | error e =>
      rw [hpairs] at h
      cases h
    | ok pk =>
      rw [hpairs] at h
      have hid := Except.ok.inj h
      have htable : String.ofList before = table := congrArg RowId.sourceId hid
      have hkeys : pk = primaryKeys := RowPosition.PrimaryKey.inj (congrArg RowId.position hid)
      constructor
      · rw [← htable, String.toList_ofList]
        exact hfree
      · -- keys and values were cut out of parts without commas
        intro p hp
        rw [← hkeys] at hp
        rcases mem_of_parsePairs hpairs hp with hempty | ⟨pair, hpair, hpcut⟩
        · cases hempty
        · have hcomma := not_mem_of_mem_splitOn hpair
          obtain ⟨hjoin, hequals⟩ := eq_of_splitOnce hpcut
          rw [hjoin, List.mem_append, List.mem_cons, not_or, not_or] at hcomma
          exact ⟨hcomma.1, hequals, hcomma.2.2⟩
  · rintro ⟨htable, hpairs⟩
    have hparts : ((pkStr primaryKeys).toList).splitOn ',' = primaryKeys.entries.map pairChars := by
      rw [toList_pkStr]
      apply List.splitOn_intercalate
      · intro part hpart
        obtain ⟨p, hp, rfl⟩ := List.mem_map.mp hpart
        obtain ⟨hkey, -, hvalue⟩ := hpairs p hp
        rw [pairChars, List.mem_append, List.mem_cons, not_or, not_or]
        exact ⟨hkey, by decide, hvalue⟩
      · simpa using hne
    have hread : parsePairs (primaryKeys.entries.map pairChars) BTreeMap.empty = .ok primaryKeys := by
      rw [parsePairs_pairChars (fun p hp => (hpairs p hp).2.1)]
      exact congrArg Except.ok (BTreeMap.ofList_entries primaryKeys)
    rw [splitOnce_append htable]
    simp only [hparts, hread, String.ofList_toList]
    rfl

end RowId

/-! ## Round trips -/

namespace SourceRow

theorem roundTrips_iff (row : SourceRow) :
    RowId.fromKey row.rowId.toKey = .ok row.rowId ↔ row.Separable := by
  cases row with
  | csv filePath rowNumber => exact iff_of_true (RowId.fromKey_csv _ _) trivial
  | database dbType table primaryKeys hne => exact RowId.fromKey_database_iff _ _ _ hne
  | kafka topic partition offset => exact RowId.fromKey_kafka_iff _ _ _
  | s3 bucket key index => exact iff_of_true (RowId.fromKey_s3 _ _ _) trivial

theorem path_injective {bucket bucket' key key' : String} (hplain : '/' ∉ bucket.toList)
    (hplain' : '/' ∉ bucket'.toList) (h : bucket ++ "/" ++ key = bucket' ++ "/" ++ key') :
    bucket = bucket' ∧ key = key' := by
  have hpath : ∀ b k : String, (b ++ "/" ++ k).toList = b.toList ++ '/' :: k.toList := by
    intro b k
    simp [String.toList_append]
  have hcut := congrArg (fun path => splitOnce '/' path.toList) h
  simp only [hpath, splitOnce_append hplain, splitOnce_append hplain'] at hcut
  obtain ⟨hbucket, hkey⟩ := Prod.mk.inj (Option.some.inj hcut)
  exact ⟨String.toList_inj.mp hbucket, String.toList_inj.mp hkey⟩

theorem rowId_injective {row row' : SourceRow} (hplain : row.PlainBucket)
    (hplain' : row'.PlainBucket) (h : row.rowId = row'.rowId) : row = row' := by
  have htype := congrArg RowId.sourceType h
  have hsource := congrArg RowId.sourceId h
  have hposition := congrArg RowId.position h
  cases row <;> cases row' <;> cases htype <;> cases hposition
  case s3.s3.refl.refl =>
    obtain ⟨rfl, rfl⟩ := path_injective hplain hplain' hsource
    rfl
  all_goals
    cases hsource
    rfl

/-- **Which row keys are faithful**: exactly those whose table or topic has no colon, whose key
columns have no comma and no equals sign, and whose key values have no comma are read back. Such
keys tell the rows apart. -/
theorem fromKey_toKey_iff (row : SourceRow) :
    (RowId.fromKey row.rowId.toKey = .ok row.rowId ↔ row.Separable) ∧
    ∀ row' : SourceRow, row.Separable → row'.Separable → row.rowId.toKey = row'.rowId.toKey →
      row.rowId = row'.rowId ∧ (row.PlainBucket → row'.PlainBucket → row = row') := by
  refine ⟨roundTrips_iff row, ?_⟩
  intro row' hrow hrow' hkey
  have hid : row.rowId = row'.rowId := by
    have hread := (roundTrips_iff row).mpr hrow
    rw [hkey, (roundTrips_iff row').mpr hrow'] at hread
    exact (Except.ok.inj hread).symm
  exact ⟨hid, fun hplain hplain' => rowId_injective hplain hplain' hid⟩

/-- A colon in a path or in a key column is no separator, and two ways to cut an S3 path into bucket
and key have one id. -/
theorem fromKey_toKey_iff_sample :
    RowId.fromKey (database .DB2 "t" (BTreeMap.ofList [("a:k", "v=1")]) (by decide)).rowId.toKey =
      .ok (database .DB2 "t" (BTreeMap.ofList [("a:k", "v=1")]) (by decide)).rowId ∧
    (s3 "a/b" "c" 1).rowId = (s3 "a" "b/c" 1).rowId := by
  refine ⟨(fromKey_toKey_iff _).1.mpr ?_, ?_⟩
  · refine ⟨by decide, ?_⟩
    intro p hp
    cases List.mem_singleton.mp hp
    decide
  · exact ((fromKey_toKey_iff (s3 "a/b" "c" 1)).2 (s3 "a" "b/c" 1) trivial trivial
      (by decide +kernel)).1

/-- A topic with a colon is not read back, and a colon moves between a table and its first key
column. -/
theorem toKey_ambiguous :
    RowId.fromKey (kafka "a:b" 0 0).rowId.toKey ≠ .ok (kafka "a:b" 0 0).rowId ∧
    (database .DB2 "t" (BTreeMap.ofList [("a:k", "v")]) (by decide)).rowId.toKey =
      (database .DB2 "t:a" (BTreeMap.ofList [("k", "v")]) (by decide)).rowId.toKey ∧
    (database .DB2 "t" (BTreeMap.ofList [("a:k", "v")]) (by decide)).rowId ≠
      (database .DB2 "t:a" (BTreeMap.ofList [("k", "v")]) (by decide)).rowId := by
  refine ⟨?_, by decide +kernel, ?_⟩
  · rw [Ne, roundTrips_iff]
    show ¬ ':' ∉ "a:b".toList
    decide
  · intro h
    have htable : "t" = "t:a" := congrArg RowId.sourceId h
    revert htable
    decide

end SourceRow

end Arcxa.Lineage
