import Arcxa.Lib.BTreeMap

/-!
# Record stores of the coordinator

The in-memory backends keep the records of one kind in a map by id, behind one lock; they have the
same `save`, `get`, `update` and `delete` (`Entity`).
-/

namespace Arcxa.Engine

/-- A time of the clock, in nanoseconds. -/
abbrev Time := Int

/-- `PersistenceError`, of which the in-memory backends return these two. -/
inductive PersistenceError where
  | NotFound (entityType entityId : String)
  | AlreadyExists (entityType entityId : String)
  deriving DecidableEq

def PersistenceError.text : PersistenceError → String
  | .NotFound entityType entityId => entityType ++ " '" ++ entityId ++ "' not found"
  | .AlreadyExists entityType entityId => entityType ++ " '" ++ entityId ++ "' already exists"

/-- A kind of record: its name in errors, and where its id is. -/
structure Entity (R : Type) where
  entityType : String
  id : R → String

namespace Entity

variable {R : Type} (E : Entity R)

def save (records : BTreeMap String R) (record : R) :
    Except PersistenceError (BTreeMap String R) :=
  if (records.get (E.id record)).isSome then
    .error (.AlreadyExists E.entityType (E.id record))
  else
    .ok (records.insert (E.id record) record)

def update (records : BTreeMap String R) (record : R) :
    Except PersistenceError (BTreeMap String R) :=
  if (records.get (E.id record)).isNone then
    .error (.NotFound E.entityType (E.id record))
  else
    .ok (records.insert (E.id record) record)

def delete (records : BTreeMap String R) (id : String) :
    Except PersistenceError (BTreeMap String R) :=
  if (records.get id).isNone then
    .error (.NotFound E.entityType id)
  else
    .ok (records.remove id)

def Keyed (records : BTreeMap String R) : Prop :=
  ∀ id record, records.get id = some record → E.id record = id

variable {E} {records records' : BTreeMap String R} {record : R}

theorem keyed_empty : E.Keyed .empty := nofun

theorem Keyed.insert (h : E.Keyed records) (record : R) :
    E.Keyed (records.insert (E.id record) record) := by
  intro id record' hget
  rw [BTreeMap.get_insert] at hget
  split_ifs at hget with hid
  · cases hget
    exact hid.symm
  · exact h id record' hget

theorem save_ok (h : E.save records record = .ok records') :
    records.get (E.id record) = none ∧ records' = records.insert (E.id record) record := by
  rw [save] at h
  split_ifs at h with hsome
  rw [Bool.not_eq_true, Option.isSome_eq_false_iff, Option.isNone_iff_eq_none] at hsome
  exact ⟨hsome, (Except.ok.inj h).symm⟩

theorem update_ok (h : E.update records record = .ok records') :
    (∃ stored, records.get (E.id record) = some stored) ∧
      records' = records.insert (E.id record) record := by
  rw [update] at h
  split_ifs at h with hnone
  rw [Option.isNone_iff_eq_none] at hnone
  exact ⟨Option.ne_none_iff_exists'.mp hnone, (Except.ok.inj h).symm⟩

theorem update_of_some {stored : R} (h : records.get (E.id record) = some stored) :
    E.update records record = .ok (records.insert (E.id record) record) := by
  rw [update, h]
  rfl

end Entity

end Arcxa.Engine
