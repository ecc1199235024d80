/-!
# Extensions of file names

The extension of a file name is what follows the last dot of its last component.
Components are divided by slashes of either kind. `extension?` takes the name apart at
the slashes and looks for the dot in the last part. `dropExtension` leaves the name
whole and cuts it at a position, which it counts from the last slash on. Positions count
characters: dots and slashes are one octet wide, so a count of octets would cut at the
same places.
-/

namespace ZxMedia.FileName

/-- Whether a character divides the components of a name. -/
def isSeparator (c : Char) : Bool :=
  c == '/' || c == '\\'

/-- Position of the last character of a kind. -/
def lastIndex? (kind : Char → Bool) : List Char → Option Nat
  | [] => none
  | c :: rest =>
    match lastIndex? kind rest with
    | some pos => some (pos + 1)
    | none => if kind c then some 0 else none

/-- Parts of a name between its separators. A name without one is a single part. -/
def components : List Char → List (List Char)
  | [] => [[]]
  | c :: rest =>
    if isSeparator c then [] :: components rest
    else
      match components rest with
      | [] => [[c]]
      | first :: others => (c :: first) :: others

/-- The extension of a name in lower case. -/
def extension? (name : String) : Option String :=
  let component := (components name.toList).getLast?.getD name.toList
  (lastIndex? (· == '.') component).map fun pos =>
    String.ofList ((component.drop (pos + 1)).map Char.toLower)

/-- A name without its extension. -/
def dropExtension (name : String) : String :=
  let chars := name.toList
  let start := ((lastIndex? isSeparator chars).map (· + 1)).getD 0
  match lastIndex? (· == '.') (chars.drop start) with
  | some pos => String.ofList (chars.take (start + pos))
  | none => name

end ZxMedia.FileName
