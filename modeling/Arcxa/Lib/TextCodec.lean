import Mathlib.Tactic

/-!
# Values kept as texts

A store that keeps values as texts reads back what the texts parse to. Not every value survives this:
its text may not parse, or parse to another value. So nothing is assumed of a codec, and what reads
back is a property of the value.
-/

namespace Arcxa

class TextCodec (A : Type) where
  toText : A → String
  fromText : String → Option A

namespace TextCodec

variable {A : Type}

section ReadsBack

variable [TextCodec A]

/-- The value comes back from its own text. -/
def ReadsBack (a : A) : Prop := fromText (toText a) = some a

instance [DecidableEq A] (a : A) : Decidable (ReadsBack a) := inferInstanceAs (Decidable (_ = _))

variable {l : List A}

/-- A reader that fails on a text it cannot parse reads the whole list. -/
theorem mapM_fromText (h : ∀ a ∈ l, ReadsBack a) :
    (l.map toText).mapM fromText = some l := by
  induction l with
  | nil => rfl
  | cons a l ih =>
    rw [List.map_cons, List.mapM_cons, h a List.mem_cons_self,
      ih fun b hb => h b (List.mem_cons_of_mem _ hb)]
    rfl

/-- A reader that skips the texts it cannot parse skips none. -/
theorem filterMap_fromText (h : ∀ a ∈ l, ReadsBack a) :
    (l.map toText).filterMap fromText = l := by
  induction l with
  | nil => rfl
  | cons a l ih =>
    rw [List.map_cons, List.filterMap_cons_some (h a List.mem_cons_self),
      ih fun b hb => h b (List.mem_cons_of_mem _ hb)]

end ReadsBack

/-- A codec that knows the texts of some values. -/
@[reducible] def ofTable (text : A → String) (known : List A) : TextCodec A where
  toText := text
  fromText t := known.find? fun a => text a = t

end TextCodec

instance : TextCodec Bool where
  toText b := if b then "true" else "false"
  fromText text := if text = "true" then some true else if text = "false" then some false else none

end Arcxa
