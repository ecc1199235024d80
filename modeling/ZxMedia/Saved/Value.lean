import ZxMedia.Octets

/-!
# Saved values

The state of a tape, a deck or a recording can be saved and restored later. The saved
form is a tree of values, without a fixed notation. Each type has a function that saves
and a partial function that restores: numbers have to be in the range of their type, and
everything has to have its shape.

A structure is saved as an object and may also be restored from a list of its fields in
order. An alternative is saved as its name, or as an object of one field that has its
name and its content; if the content is made of fields, it has to be an object.
-/

namespace ZxMedia.Saved

/-- A saved value. -/
inductive Value where
  | null
  | bool (value : Bool)
  | int (value : Int)
  | text (value : String)
  | list (values : List Value)
  | object (fields : List (String × Value))
  /-- A value of a kind that nothing is saved as. -/
  | other
deriving Inhabited

namespace Value

/-- Saves a number. -/
def ofNat (number : Nat) : Value :=
  .int number

/-- Restores a number below a bound. -/
def below? (bound : Nat) : Value → Option Nat
  | .int value => if 0 ≤ value ∧ value < bound then some value.toNat else none
  | _ => none

/-- The number of indices. -/
def indexBound : Nat := UInt64.size

/-- Restores an index. -/
def index? : Value → Option Nat :=
  below? indexBound

/-- Saves an octet. -/
def ofByte (octet : UInt8) : Value :=
  .ofNat octet.toNat

/-- Restores an octet. -/
def byte? (value : Value) : Option UInt8 :=
  (value.below? UInt8.size).map UInt8.ofNat

/-- Saves a word of two octets. -/
def ofWord (word : UInt16) : Value :=
  .ofNat word.toNat

/-- Restores a word of two octets. -/
def word? (value : Value) : Option UInt16 :=
  (value.below? UInt16.size).map UInt16.ofNat

/-- Saves a word of four octets. -/
def ofLongWord (word : UInt32) : Value :=
  .ofNat word.toNat

/-- Restores a word of four octets. -/
def longWord? (value : Value) : Option UInt32 :=
  (value.below? UInt32.size).map UInt32.ofNat

/-- Saves a signed word of two octets. -/
def ofOffset (offset : Int16) : Value :=
  .int offset.toInt

/-- Restores a signed word of two octets. -/
def offset? : Value → Option Int16
  | .int value =>
    if Int16.minValue.toInt ≤ value ∧ value ≤ Int16.maxValue.toInt then
      some (Int16.ofInt value)
    else none
  | _ => none

/-- Restores a truth value. -/
def bool? : Value → Option Bool
  | .bool value => some value
  | _ => none

/-- Restores a text. -/
def text? : Value → Option String
  | .text value => some value
  | _ => none

/-- Saves something that may be missing. -/
def ofOption {α : Type} (save : α → Value) : Option α → Value
  | none => .null
  | some content => save content

/-- Restores something that may be missing. -/
def option? {α : Type} (restore? : Value → Option α) : Value → Option (Option α)
  | .null => some none
  | value => (restore? value).map some

/-- Saves an array. -/
def ofArray {α : Type} (save : α → Value) (items : Array α) : Value :=
  .list (items.toList.map save)

/-- Restores an array. -/
def array? {α : Type} (restore? : Value → Option α) : Value → Option (Array α)
  | .list values => (values.mapM restore?).map List.toArray
  | _ => none

/-- Saves octets. -/
def ofOctets : Octets → Value :=
  ofArray ofByte

/-- Restores octets. -/
def octets? : Value → Option Octets :=
  array? byte?

/-- The fields of a structure by their names. -/
def fields? (names : List String) : Value → Option (List (String × Value))
  | .object fields => some fields
  | .list values => if values.length = names.length then some (names.zip values) else none
  | _ => none

/-- The fields of the content of an alternative by their names. -/
def entries? : Value → Option (List (String × Value))
  | .object fields => some fields
  | _ => none

/-- Restores a field that has to be there. -/
def field? {α : Type} (fields : List (String × Value)) (name : String)
    (restore? : Value → Option α) : Option α :=
  (fields.lookup name).bind restore?

/-- Restores a field that may be missing. -/
def optionalField? {α : Type} (fields : List (String × Value)) (name : String)
    (restore? : Value → Option α) : Option (Option α) :=
  match fields.lookup name with
  | none => some none
  | some value => value.option? restore?

/-- Saves an alternative with its content. -/
def ofVariant (name : String) (content : Value) : Value :=
  .object [(name, content)]

/-- The name of an alternative and its content, if it has one. -/
def variant? : Value → Option (String × Option Value)
  | .text name => some (name, none)
  | .object [(name, content)] => some (name, some content)
  | _ => none

/-- Whether the content of an alternative is that of one that has none. -/
def isVoid : Option Value → Bool
  | none => true
  | some .null => true
  | some _ => false

/-- Restores an alternative out of several that have no content. -/
def choice? {α : Type} (choices : List (String × α)) (value : Value) : Option α :=
  match value.variant? with
  | some (name, content) => if isVoid content then choices.lookup name else none
  | none => none

end Value

end ZxMedia.Saved
