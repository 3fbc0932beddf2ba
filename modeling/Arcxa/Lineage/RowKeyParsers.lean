import Arcxa.Lib.Buckets
import Arcxa.Lineage.RowId
import Arcxa.Workflow.StreamingDedup

/-!
# Two readers of row keys

A workflow step reads a row key with a parser of its own, which cuts at the first two colons whatever
the type of the source is, trims primary keys and skips blank ones. `parsers_agree_iff`: it agrees with
`from_key` except on CSV and S3 keys with a further colon that the lineage store can read, and on primary
keys with a blank or padded part or without an equals sign.
-/

namespace Arcxa.Lineage

open Arcxa.Workflow (isWhitespace trim)
open RowId BTreeMap

/-! ## The workflow's parser -/

def cutPair (pair : List Char) : List Char × List Char := (splitOnce '=' pair).getD (pair, [])

def pairKey (pair : List Char) : String := String.ofList (cutPair pair).1

def pairValue (pair : List Char) : String := String.ofList (cutPair pair).2

def trimmedPairs : List (List Char) → BTreeMap String String → BTreeMap String String
  | [], pkMap => pkMap
  | pair :: pairs, pkMap =>
    let key := trim (pairKey pair)
    let value := trim (pairValue pair)
    trimmedPairs pairs (if key = "" then pkMap else pkMap.insert key value)

def parseDatabaseKey (dbType : DatabaseType) (sourceId position : List Char) : Option RowId :=
  let pkMap := trimmedPairs (position.splitOn ',') BTreeMap.empty
  if pkMap.entries = [] then none
  else some (RowId.database dbType (String.ofList sourceId) pkMap)

def parseKafkaKey (sourceId position : List Char) : Option RowId :=
  match position.splitOn ':' with
  | [partition, offset] =>
    (parseI32 (trimStartMatches 'p' partition)).toOption.bind fun partition =>
      (parseI64 (trimStartMatches 'o' offset)).toOption.map fun offset =>
        RowId.kafka (String.ofList sourceId) partition offset
  | _ => none

def parseS3Key (sourceId position : List Char) : Option RowId :=
  (parseU64 (trimStartMatches 'r' position)).toOption.bind fun rowIdx =>
    (splitOnce '/' sourceId).map fun (bucket, key) =>
      RowId.s3 (String.ofList bucket) (String.ofList key) rowIdx

def parseRowIdKey (rowIdStr : String) : Option RowId :=
  match splitOnce ':' rowIdStr.toList with
  | none => none
  | some (source, rest) =>
    match splitOnce ':' rest with
    | none => none
    | some (sourceId, position) =>
      let sourceType := String.ofList source
      if sourceType = "csv" then
        (parseU64 position).toOption.map fun rowNum => RowId.csv (String.ofList sourceId) rowNum
      else match DatabaseType.parse sourceType with
        | some dbType => parseDatabaseKey dbType sourceId position
        | none =>
          if sourceType = "kafka" then parseKafkaKey sourceId position
          else if sourceType = "s3" then parseS3Key sourceId position
          else none

/-! ## Where the two agree -/

/-- The segments of a primary key, none of which the two parsers read differently. -/
def PairsAgree (pairs : List (List Char)) : Prop :=
  ((∀ pair ∈ pairs, '=' ∈ pair ∧ pairKey pair ≠ "" ∧ trim (pairKey pair) = pairKey pair) ∧
      ∀ key, ∀ pair ∈ lastUnder pairKey key pairs, trim (pairValue pair) = pairValue pair) ∨
    ((∃ pair ∈ pairs, '=' ∉ pair) ∧ ∀ pair ∈ pairs, trim (pairKey pair) = "")

/-- A key, cut at its first two colons: no further colon of a CSV or S3 key stands before a row number,
and the segments of a primary key agree. -/
def KeyAgrees (key : String) : Prop :=
  ∀ source sourceId position : List Char,
    key.toList = source ++ ':' :: (sourceId ++ ':' :: position) → ':' ∉ source → ':' ∉ sourceId →
      (String.ofList source = "csv" → ∀ path number, position = path ++ ':' :: number →
        ':' ∉ number → ∀ n, parseU64 number ≠ .ok n) ∧
      (String.ofList source = "s3" → ∀ path number, position = path ++ ':' :: number →
        ':' ∉ number → '/' ∈ sourceId ++ ':' :: path →
          ∀ n, parseU64 (trimStartMatches 'r' number) ≠ .ok n) ∧
      ∀ dbType, DatabaseType.parse (String.ofList source) = some dbType →
        PairsAgree (position.splitOn ',')

/-! ## Numbers -/

variable {text : List Char}

theorem not_mem_of_parseU64 {n : UInt64} (h : parseU64 text = .ok n) : ':' ∉ text := by
  rw [parseU64] at h
  cases hparse : parseUnsigned (2 ^ 64 - 1) text with
  | error e =>
    rw [hparse] at h
    cases h
  | ok m => exact not_mem_of_parseUnsigned (by decide) (by decide) hparse

theorem not_mem_of_parseI64 {i : Int64} (h : parseI64 text = .ok i) : ':' ∉ text := by
  rw [parseI64] at h
  cases hparse : parseSigned (2 ^ 63 - 1) text with
  | error e =>
    rw [hparse] at h
    cases h
  | ok m => exact not_mem_of_parseSigned (by decide) (by decide) (by decide) hparse

theorem mem_trimStartMatches {c : Char} (hc : c ≠ ':') (h : ':' ∈ text) :
    ':' ∈ trimStartMatches c text := by
  induction text with
  | nil => cases h
  | cons d text ih =>
    rw [trimStartMatches, List.dropWhile_cons]
    split_ifs with hd
    · rcases List.mem_cons.mp h with rfl | hmem
      · exact absurd (by simpa using hd) (Ne.symm hc)
      · exact ih hmem
    · exact h

/-! ## Trimmed texts -/

theorem trim_eq (s : String) :
    trim s = String.ofList ((s.toList.dropWhile isWhitespace).rdropWhile isWhitespace) := rfl

theorem trim_trim (s : String) : trim (trim s) = trim s := by
  rw [trim_eq (trim s), trim_eq s, String.toList_ofList, trim_ends_idempotent]

/-! ## Agreement -/

theorem agree_iff {α ε : Type} {x : Option α} {y : Except ε α} :
    (∀ a, x = some a ↔ y = .ok a) ↔ x = y.toOption := by
  cases y with
  | error e =>
    show _ ↔ x = none
    simp [Option.eq_none_iff_forall_ne_some]
  | ok b =>
    show _ ↔ x = some b
    constructor
    · intro h
      exact (h b).mpr rfl
    · rintro rfl a
      simp

section Pairs

theorem cutPair_of_splitOnce {pair key value : List Char}
    (h : splitOnce '=' pair = some (key, value)) :
    pairKey pair = String.ofList key ∧ pairValue pair = String.ofList value := by
  simp only [pairKey, pairValue, cutPair, h, Option.getD_some, and_self]

variable {pairs : List (List Char)}

theorem parsePairs_of_forall (h : ∀ pair ∈ pairs, '=' ∈ pair) (pk : BTreeMap String String) :
    RowId.parsePairs pairs pk =
      .ok (pairs.foldl (fun pk pair => pk.insert (pairKey pair) (pairValue pair)) pk) := by
  induction pairs generalizing pk with
  | nil => rfl
  | cons pair pairs ih =>
    rw [List.forall_mem_cons] at h
    obtain ⟨key, value, hcut⟩ := exists_splitOnce h.1
    obtain ⟨hkey, hvalue⟩ := cutPair_of_splitOnce hcut
    rw [parsePairs, hcut, List.foldl_cons, hkey, hvalue]
    exact ih h.2 _

theorem parsePairs_of_exists (h : ∃ pair ∈ pairs, '=' ∉ pair) (pk : BTreeMap String String) :
    (RowId.parsePairs pairs pk).toOption = none := by
  induction pairs generalizing pk with
  | nil => simp at h
  | cons pair pairs ih =>
    rw [parsePairs]
    cases hcut : splitOnce '=' pair with
    | none => rfl
    | some cut =>
      obtain ⟨bad, hbad, hnot⟩ := h
      have hmem : '=' ∈ pair := by
        rw [(eq_of_splitOnce hcut).1]
        simp
      have hrest : bad ∈ pairs :=
        (List.mem_cons.mp hbad).resolve_left fun heq => hnot (heq ▸ hmem)
      exact ih ⟨bad, hrest, hnot⟩ _

theorem trimmedPairs_eq (pairs : List (List Char)) (pk : BTreeMap String String) :
    trimmedPairs pairs pk = (pairs.filter fun pair => trim (pairKey pair) ≠ "").foldl
      (fun pk pair => pk.insert (trim (pairKey pair)) (trim (pairValue pair))) pk := by
  induction pairs generalizing pk with
  | nil => rfl
  | cons pair pairs ih =>
    rw [trimmedPairs, ih, List.filter_cons]
    by_cases hblank : trim (pairKey pair) = ""
    · simp [hblank]
    · simp [hblank]

theorem get_trimmedPairs (pairs : List (List Char)) (key : String) :
    (trimmedPairs pairs BTreeMap.empty).get key =
      (lastUnder (fun pair => trim (pairKey pair)) key
        (pairs.filter fun pair => trim (pairKey pair) ≠ "")).map fun pair =>
          trim (pairValue pair) := by
  rw [trimmedPairs_eq, get_foldl_insert, get_empty, Option.or_none]

theorem trimmedPairs_entries_eq_nil :
    (trimmedPairs pairs BTreeMap.empty).entries = [] ↔ ∀ pair ∈ pairs, trim (pairKey pair) = "" := by
  constructor
  · intro hnil pair hpair
    by_contra hne
    have hmem : pair ∈ pairs.filter fun pair => trim (pairKey pair) ≠ "" :=
      List.mem_filter.mpr ⟨hpair, by simpa using hne⟩
    have hsome := isSome_lastUnder.mpr
      (List.mem_map_of_mem (f := fun pair => trim (pairKey pair)) hmem)
    obtain ⟨last, hlast⟩ := Option.isSome_iff_exists.mp hsome
    have hget := get_trimmedPairs pairs (trim (pairKey pair))
    rw [hlast, Option.map_some] at hget
    exact entries_ne_nil_of_get hget hnil
  · intro hblank
    have hfilter : (pairs.filter fun pair => trim (pairKey pair) ≠ "") = [] := by
      rw [List.filter_eq_nil_iff]
      intro pair hpair
      simp [hblank pair hpair]
    rw [trimmedPairs_eq, hfilter]
    rfl

theorem trimmedPairs_eq_iff :
    trimmedPairs pairs BTreeMap.empty =
        pairs.foldl (fun pk pair => pk.insert (pairKey pair) (pairValue pair)) BTreeMap.empty ↔
      (∀ pair ∈ pairs, pairKey pair ≠ "" ∧ trim (pairKey pair) = pairKey pair) ∧
        ∀ key, ∀ pair ∈ lastUnder pairKey key pairs, trim (pairValue pair) = pairValue pair := by
  have hraw : ∀ key, (pairs.foldl (fun pk pair => pk.insert (pairKey pair) (pairValue pair))
      empty).get key = (lastUnder pairKey key pairs).map pairValue := by
    intro key
    rw [get_foldl_insert, get_empty, Option.or_none]
  -- where every key is trimmed, both maps have the same segment last under each key
  have hsame : (∀ pair ∈ pairs, pairKey pair ≠ "" ∧ trim (pairKey pair) = pairKey pair) →
      ∀ key, (trimmedPairs pairs empty).get key =
        (lastUnder pairKey key pairs).map fun pair => trim (pairValue pair) := by
    intro hkeys key
    have hfilter : (pairs.filter fun pair => trim (pairKey pair) ≠ "") = pairs := by
      rw [List.filter_eq_self]
      intro pair hpair
      obtain ⟨hne, htrim⟩ := hkeys pair hpair
      simpa [htrim] using hne
    have hlast : lastUnder (fun pair => trim (pairKey pair)) key pairs =
        lastUnder pairKey key pairs := by
      rw [lastUnder, lastUnder]
      refine congrArg List.getLast? (List.filter_congr fun pair hpair => ?_)
      rw [(hkeys pair hpair).2]
    rw [get_trimmedPairs, hfilter, hlast]
  constructor
  · intro heq
    have hkeys : ∀ pair ∈ pairs, pairKey pair ≠ "" ∧ trim (pairKey pair) = pairKey pair := by
      intro pair hpair
      obtain ⟨last, hlast⟩ := Option.isSome_iff_exists.mp
        (isSome_lastUnder.mpr (List.mem_map_of_mem (f := pairKey) hpair))
      have hget := get_trimmedPairs pairs (pairKey pair)
      rw [heq, hraw, hlast, Option.map_some] at hget
      obtain ⟨trimmed, htrimmed, -⟩ := Option.map_eq_some_iff.mp hget.symm
      obtain ⟨hmem, hkey⟩ := mem_of_lastUnder htrimmed
      have hne : trim (pairKey trimmed) ≠ "" := by simpa using (List.mem_filter.mp hmem).2
      rw [← hkey]
      exact ⟨hne, trim_trim _⟩
    refine ⟨hkeys, fun key pair hpair => ?_⟩
    have hget := hsame hkeys key
    rw [heq, hraw, Option.mem_def.mp hpair, Option.map_some, Option.map_some,
      Option.some.injEq] at hget
    exact hget.symm
  · rintro ⟨hkeys, hvalues⟩
    refine ext_get fun key => ?_
    rw [hsame hkeys, hraw]
    cases hlast : lastUnder pairKey key pairs with
    | none => rfl
    | some pair => rw [Option.map_some, Option.map_some, hvalues key pair hlast]

theorem database_agree_iff (dbType : DatabaseType) {sourceId : List Char}
    (hid : ':' ∉ sourceId) (position : List Char) :
    parseDatabaseKey dbType sourceId position =
        (RowId.fromDatabaseKey dbType (sourceId ++ ':' :: position)).toOption ↔
      PairsAgree (position.splitOn ',') := by
  rw [parseDatabaseKey, fromDatabaseKey, splitOnce_append hid]
  by_cases hall : ∀ pair ∈ position.splitOn ',', '=' ∈ pair
  · have hnone : ¬ ∃ pair ∈ position.splitOn ',', '=' ∉ pair := by
      rintro ⟨pair, hpair, hnot⟩
      exact hnot (hall pair hpair)
    have hpairs : PairsAgree (position.splitOn ',') ↔
        trimmedPairs (position.splitOn ',') empty =
          (position.splitOn ',').foldl
            (fun pk pair => pk.insert (pairKey pair) (pairValue pair)) empty := by
      rw [trimmedPairs_eq_iff, PairsAgree, or_iff_left fun h => hnone h.1]
      refine and_congr_left' (forall₂_congr fun pair hpair => ?_)
      rw [and_iff_right (hall pair hpair)]
    rw [hpairs]
    dsimp only
    rw [parsePairs_of_forall hall]
    show _ = some (database dbType (String.ofList sourceId) _) ↔ _
    constructor
    · intro h
      split_ifs at h
      simpa [database] using h
    · intro h
      rw [if_neg, h]
      intro hnil
      have hblank := trimmedPairs_entries_eq_nil.mp hnil
      obtain ⟨pair, hpair⟩ := List.exists_mem_of_ne_nil _ (List.splitOn_ne_nil ',' position)
      obtain ⟨hne, htrim⟩ := (trimmedPairs_eq_iff.mp h).1 pair hpair
      exact hne (htrim ▸ hblank pair hpair)
  · have hexists : ∃ pair ∈ position.splitOn ',', '=' ∉ pair := by
      simpa using hall
    have hpairs : PairsAgree (position.splitOn ',') ↔
        ∀ pair ∈ position.splitOn ',', trim (pairKey pair) = "" := by
      rw [PairsAgree, and_iff_right hexists, or_iff_right]
      rintro ⟨hkeys, -⟩
      exact hall fun pair hpair => (hkeys pair hpair).1
    have hfail : (parsePairs (position.splitOn ',') empty).toOption = none :=
      parsePairs_of_exists hexists _
    rw [hpairs, ← trimmedPairs_entries_eq_nil]
    dsimp only
    cases hparse : parsePairs (position.splitOn ',') empty with
    | ok pk =>
      rw [hparse] at hfail
      cases hfail
    | error e =>
      show _ = none ↔ _
      split_ifs with hnil
      · simp [hnil]
      · simp [hnil]

end Pairs

section Sources

variable {sourceId : List Char}

theorem splitOnce_eq_none {text : List Char} (h : ':' ∉ text) : splitOnce ':' text = none := by
  cases hcut : splitOnce ':' text with
  | none => rfl
  | some cut =>
    refine absurd ?_ h
    rw [(eq_of_splitOnce hcut).1]
    simp

theorem kafka_agree (hid : ':' ∉ sourceId) (position : List Char) :
    parseKafkaKey sourceId position =
      (RowId.fromKafkaKey (sourceId ++ ':' :: position)).toOption := by
  rw [fromKafkaKey, splitOnce_append hid]
  by_cases hcolon : ':' ∈ position
  · obtain ⟨partition, offset, hcut⟩ := exists_splitOnce hcolon
    obtain ⟨rfl, hpartition⟩ := eq_of_splitOnce hcut
    dsimp only
    rw [hcut, parseKafkaKey, List.splitOn_append_cons_self, List.splitOn_eq_singleton hpartition]
    by_cases hoffset : ':' ∈ offset
    · obtain ⟨front, back, hsplit⟩ := exists_splitOnce hoffset
      obtain ⟨hoffset', -⟩ := eq_of_splitOnce hsplit
      have hfail : (parseI64 (trimStartMatches 'o' offset)).toOption = none := by
        cases hparse : parseI64 (trimStartMatches 'o' offset) with
        | error e => rfl
        | ok o =>
          exact absurd (mem_trimStartMatches (by decide) hoffset) (not_mem_of_parseI64 hparse)
      have hmany : (offset.splitOn ':').length ≠ 1 := by
        have hfront := List.length_pos_of_ne_nil (List.splitOn_ne_nil ':' front)
        have hback := List.length_pos_of_ne_nil (List.splitOn_ne_nil ':' back)
        rw [hoffset', List.splitOn_append_cons_self, List.length_append]
        omega
      have hleft : (match [partition] ++ offset.splitOn ':' with
          | [partition, offset] =>
            (parseI32 (trimStartMatches 'p' partition)).toOption.bind fun partition =>
              (parseI64 (trimStartMatches 'o' offset)).toOption.map fun offset =>
                kafka (String.ofList sourceId) partition offset
          | _ => none) = none := by
        cases hparts : offset.splitOn ':' with
        | nil => rfl
        | cons first others =>
          cases others with
          | nil => exact absurd (by rw [hparts]; rfl) hmany
          | cons second others => rfl
      rw [hleft]
      dsimp only
      cases parseI32 (trimStartMatches 'p' partition) with
      | error e => rfl
      | ok p =>
        cases hparse : parseI64 (trimStartMatches 'o' offset) with
        | error e => rfl
        | ok o =>
          rw [hparse] at hfail
          cases hfail
    · rw [List.splitOn_eq_singleton hoffset]
      dsimp only [List.cons_append, List.nil_append]
      cases parseI32 (trimStartMatches 'p' partition) with
      | error e => rfl
      | ok p => cases parseI64 (trimStartMatches 'o' offset) <;> rfl
  · dsimp only
    rw [splitOnce_eq_none hcolon, parseKafkaKey, List.splitOn_eq_singleton hcolon]
    cases parseI32 (trimStartMatches 'p' position) <;> rfl

theorem rsplitOnce_position {path number position : List Char}
    (hposition : position = path ++ ':' :: number) (hnumber : ':' ∉ number) :
    rsplitOnce ':' (sourceId ++ ':' :: position) = some (sourceId ++ ':' :: path, number) := by
  have hassoc : sourceId ++ ':' :: (path ++ ':' :: number) =
      (sourceId ++ ':' :: path) ++ ':' :: number := by simp
  rw [hposition, hassoc, rsplitOnce_append hnumber]

theorem last_separator_unique {path number path' number' : List Char} (hnumber : ':' ∉ number)
    (hnumber' : ':' ∉ number') (h : path ++ ':' :: number = path' ++ ':' :: number') :
    path = path' ∧ number = number' := by
  have hcut := rsplitOnce_append hnumber path
  rw [h, rsplitOnce_append hnumber' path', Option.some.injEq, Prod.mk.injEq] at hcut
  exact ⟨hcut.1.symm, hcut.2.symm⟩

theorem toOption_eq_none_iff {α ε : Type} {x : Except ε α} :
    x.toOption = none ↔ ∀ a, x ≠ .ok a := by
  cases x with
  | error e => simp [Except.toOption]
  | ok a => simp [Except.toOption]

theorem csv_agree_iff (position : List Char) :
    (parseU64 position).toOption.map (fun n => RowId.csv (String.ofList sourceId) n) =
        (RowId.fromCsvKey (sourceId ++ ':' :: position)).toOption ↔
      ∀ path number, position = path ++ ':' :: number → ':' ∉ number →
        ∀ n, parseU64 number ≠ .ok n := by
  by_cases hcolon : ':' ∈ position
  · obtain ⟨path, number, hposition, hnumber⟩ := exists_last_separator hcolon
    have hleft : (parseU64 position).toOption = none :=
      toOption_eq_none_iff.mpr fun n hn => not_mem_of_parseU64 hn hcolon
    have hright : (fromCsvKey (sourceId ++ ':' :: position)).toOption = none ↔
        ∀ n, parseU64 number ≠ .ok n := by
      rw [fromCsvKey, rsplitOnce_position hposition hnumber, ← toOption_eq_none_iff]
      dsimp only
      cases parseU64 number with
      | error e => exact iff_of_true rfl rfl
      | ok n => exact ⟨fun h => (by cases h), fun h => (by cases h)⟩
    rw [hleft, Option.map_none, eq_comm, hright]
    constructor
    · intro hbad path' number' hposition' hnumber'
      obtain ⟨-, rfl⟩ := last_separator_unique hnumber hnumber' (hposition.symm.trans hposition')
      exact hbad
    · intro h
      exact h path number hposition hnumber
  · rw [fromCsvKey, rsplitOnce_append hcolon]
    dsimp only
    refine iff_of_true ?_ ?_
    · cases parseU64 position <;> rfl
    · rintro path number rfl - - -
      exact hcolon (by simp)

theorem s3_agree_iff (position : List Char) :
    parseS3Key sourceId position = (RowId.fromS3Key (sourceId ++ ':' :: position)).toOption ↔
      ∀ path number, position = path ++ ':' :: number → ':' ∉ number →
        '/' ∈ sourceId ++ ':' :: path →
          ∀ n, parseU64 (trimStartMatches 'r' number) ≠ .ok n := by
  by_cases hcolon : ':' ∈ position
  · obtain ⟨path, number, hposition, hnumber⟩ := exists_last_separator hcolon
    have hleft : (parseU64 (trimStartMatches 'r' position)).toOption = none :=
      toOption_eq_none_iff.mpr fun n hn =>
        not_mem_of_parseU64 hn (mem_trimStartMatches (by decide) hcolon)
    have hright : (fromS3Key (sourceId ++ ':' :: position)).toOption = none ↔
        ('/' ∈ sourceId ++ ':' :: path → ∀ n, parseU64 (trimStartMatches 'r' number) ≠ .ok n) := by
      rw [fromS3Key, rsplitOnce_position hposition hnumber, ← toOption_eq_none_iff]
      dsimp only
      cases parseU64 (trimStartMatches 'r' number) with
      | error e => exact iff_of_true rfl fun _ => rfl
      | ok n =>
        by_cases hslash : '/' ∈ sourceId ++ ':' :: path
        · obtain ⟨bucket, objectKey, hcut⟩ := exists_splitOnce hslash
          simp only [hcut]
          exact ⟨fun h => (by cases h), fun h => (by cases h hslash)⟩
        · cases hcut : splitOnce '/' (sourceId ++ ':' :: path) with
          | none => exact iff_of_true rfl fun h => absurd h hslash
          | some cut =>
            refine absurd ?_ hslash
            rw [(eq_of_splitOnce hcut).1]
            simp
    rw [parseS3Key, hleft, Option.bind_none, eq_comm, hright]
    constructor
    · intro hbad path' number' hposition' hnumber'
      obtain ⟨rfl, rfl⟩ := last_separator_unique hnumber hnumber' (hposition.symm.trans hposition')
      exact hbad
    · intro h
      exact h path number hposition hnumber
  · rw [fromS3Key, rsplitOnce_append hcolon, parseS3Key]
    dsimp only
    refine iff_of_true ?_ ?_
    · cases parseU64 (trimStartMatches 'r' position) with
      | error e => rfl
      | ok n => cases splitOnce '/' sourceId <;> rfl
    · rintro path number rfl - - - -
      exact hcolon (by simp)

end Sources

/-! ## The result -/

theorem keyAgrees_cut {key : String} {source sourceId position : List Char}
    (hkey : key.toList = source ++ ':' :: (sourceId ++ ':' :: position)) (hsource : ':' ∉ source)
    (hid : ':' ∉ sourceId) :
    KeyAgrees key ↔
      (String.ofList source = "csv" → ∀ path number, position = path ++ ':' :: number →
        ':' ∉ number → ∀ n, parseU64 number ≠ .ok n) ∧
      (String.ofList source = "s3" → ∀ path number, position = path ++ ':' :: number →
        ':' ∉ number → '/' ∈ sourceId ++ ':' :: path →
          ∀ n, parseU64 (trimStartMatches 'r' number) ≠ .ok n) ∧
      ∀ dbType, DatabaseType.parse (String.ofList source) = some dbType →
        PairsAgree (position.splitOn ',') := by
  constructor
  · intro h
    exact h source sourceId position hkey hsource hid
  · intro h source' sourceId' position' hkey' hsource' hid'
    have hcut := splitOnce_append hsource (sourceId ++ ':' :: position)
    rw [← hkey, hkey', splitOnce_append hsource', Option.some.injEq, Prod.mk.injEq] at hcut
    obtain ⟨rfl, hrest⟩ := hcut
    have hcut' := splitOnce_append hid position
    rw [← hrest, splitOnce_append hid', Option.some.injEq, Prod.mk.injEq] at hcut'
    obtain ⟨rfl, rfl⟩ := hcut'
    exact h

theorem keyAgrees_of_uncut {key : String}
    (h : ∀ source sourceId position : List Char,
      key.toList ≠ source ++ ':' :: (sourceId ++ ':' :: position)) : KeyAgrees key :=
  fun source sourceId position hkey => absurd hkey (h source sourceId position)

theorem fromKey_of_one_colon {key : String} {source rest : List Char}
    (hkey : key.toList = source ++ ':' :: rest) (hsource : ':' ∉ source) (hrest : ':' ∉ rest) :
    (RowId.fromKey key).toOption = none := by
  have hrsplit : rsplitOnce ':' rest = none := by
    rw [rsplitOnce, splitOnce_eq_none (by simpa using hrest), Option.map_none]
  rw [fromKey, hkey, splitOnce_append hsource]
  dsimp only
  by_cases hcsv : String.ofList source = "csv"
  · rw [if_pos hcsv, fromCsvKey, hrsplit]
    rfl
  · rw [if_neg hcsv]
    cases DatabaseType.parse (String.ofList source) with
    | some dbType =>
      dsimp only
      rw [fromDatabaseKey, splitOnce_eq_none hrest]
      rfl
    | none =>
      dsimp only
      split_ifs
      · rw [fromKafkaKey, splitOnce_eq_none hrest]
        rfl
      · rw [fromS3Key, hrsplit]
        rfl
      · rfl

/-- **The two parsers agree on a key exactly where it has no further colon to cut at and no primary key
to trim.** -/
theorem parsers_agree_iff (key : String) :
    (∀ r, parseRowIdKey key = some r ↔ RowId.fromKey key = .ok r) ↔ KeyAgrees key := by
  rw [agree_iff, parseRowIdKey]
  cases hcut : splitOnce ':' key.toList with
  | none =>
    have hcolon : ':' ∉ key.toList := by
      intro hmem
      obtain ⟨before, after, hsome⟩ := exists_splitOnce hmem
      rw [hcut] at hsome
      cases hsome
    refine iff_of_true ?_ (keyAgrees_of_uncut fun source sourceId position hkey => ?_)
    · rw [fromKey, hcut]
      rfl
    · exact hcolon (by simp [hkey])
  | some cut =>
    obtain ⟨source, rest⟩ := cut
    obtain ⟨hkey, hsource⟩ := eq_of_splitOnce hcut
    dsimp only
    cases hcut' : splitOnce ':' rest with
    | none =>
      have hrest : ':' ∉ rest := by
        intro hmem
        obtain ⟨before, after, hsome⟩ := exists_splitOnce hmem
        rw [hcut'] at hsome
        cases hsome
      refine iff_of_true (fromKey_of_one_colon hkey hsource hrest).symm
        (keyAgrees_of_uncut fun source' sourceId position hkey' => ?_)
      -- two colons, and only one of them is the first
      have hcount := congrArg (List.count ':') (hkey.symm.trans hkey')
      simp only [List.count_append, List.count_cons_self, List.count_eq_zero_of_not_mem hsource,
        List.count_eq_zero_of_not_mem hrest] at hcount
      omega
    | some cut' =>
      obtain ⟨sourceId, position⟩ := cut'
      obtain ⟨rfl, hid⟩ := eq_of_splitOnce hcut'
      rw [keyAgrees_cut hkey hsource hid, fromKey, hcut]
      dsimp only
      by_cases hcsv : String.ofList source = "csv"
      · have hdb : DatabaseType.parse "csv" = none := by decide
        rw [if_pos hcsv, if_pos hcsv, csv_agree_iff]
        simp [hcsv, hdb]
      · rw [if_neg hcsv, if_neg hcsv]
        cases hdb : DatabaseType.parse (String.ofList source) with
        | some dbType =>
          have hs3 : String.ofList source ≠ "s3" := by
            intro heq
            rw [heq, show DatabaseType.parse "s3" = none by decide] at hdb
            cases hdb
          dsimp only
          rw [database_agree_iff dbType hid]
          simp [hcsv, hs3]
        | none =>
          dsimp only
          by_cases hkafka : String.ofList source = "kafka"
          · rw [if_pos hkafka, if_pos hkafka, kafka_agree hid]
            simp [hkafka]
          · rw [if_neg hkafka, if_neg hkafka]
            by_cases hs3 : String.ofList source = "s3"
            · rw [if_pos hs3, if_pos hs3, s3_agree_iff]
              simp [hs3]
            · rw [if_neg hs3, if_neg hs3]
              simp [hcsv, hs3, Except.toOption]

/-- A path with a drive, which the lineage store reads back. -/
theorem drive_path_lost : ¬ ∀ key r, parseRowIdKey key = some r ↔ RowId.fromKey key = .ok r := by
  intro h
  have hread := fromKey_csv "C:/data/a.csv" 5
  have hparsed := (h _ _).mpr hread
  have hnone : parseRowIdKey (csv "C:/data/a.csv" 5).toKey = none := by decide
  rw [hnone] at hparsed
  cases hparsed

end Arcxa.Lineage
