/-!
# Cutting text at separators

Cutting at every separator gives one more piece than there are separators, so that joining the
pieces again gives the text back.
-/

namespace CompilingProxy.Text

/-- The pieces between separators; empty text is one empty piece. -/
def splitOnChar (sep : Char) : List Char → List (List Char)
  | [] => [[]]
  | c :: cs =>
    if c = sep then [] :: splitOnChar sep cs
    else
      match splitOnChar sep cs with
      | [] => [[c]]
      | piece :: pieces => (c :: piece) :: pieces

/-- The text before and after the first separator. -/
def cutFirst? (sep : Char) : List Char → Option (List Char × List Char)
  | [] => none
  | c :: cs =>
    if c = sep then some ([], cs)
    else (cutFirst? sep cs).map fun (front, back) => (c :: front, back)

/-- The text before and after the last separator. -/
def cutLast? (sep : Char) : List Char → Option (List Char × List Char)
  | [] => none
  | c :: cs =>
    match cutLast? sep cs with
    | some (front, back) => some (c :: front, back)
    | none => if c = sep then some ([], cs) else none

/-- The text after the last separator, all of it if there is none. -/
def afterLast (sep : Char) (cs : List Char) : List Char :=
  match cutLast? sep cs with
  | some (_, back) => back
  | none => cs

/-- The pieces between lines' ends, where an end is a line feed that a carriage return may precede.
Text that ends with a line feed has no empty piece after it. -/
def lines (cs : List Char) : List (List Char) :=
  let pieces := splitOnChar '\n' cs
  let pieces := if pieces.getLast? = some [] then pieces.dropLast else pieces
  pieces.map fun piece => if piece.getLast? = some '\r' then piece.dropLast else piece

/-- What stands after the front, if the text begins with it. -/
def dropFront? : (front : List Char) → List Char → Option (List Char)
  | [], cs => some cs
  | _ :: _, [] => none
  | f :: fs, c :: cs => if f = c then dropFront? fs cs else none

/-- What stands before the back, if the text ends with it. -/
def dropBack? (back cs : List Char) : Option (List Char) :=
  (dropFront? back.reverse cs.reverse).map List.reverse

def beginsWith (front cs : List Char) : Bool := (dropFront? front cs).isSome

def endsWith (back cs : List Char) : Bool := (dropBack? back cs).isSome

/-- The characters before and after the first place where the pattern stands. -/
def cutAt? (pattern : List Char) : List Char → Option (List Char × List Char)
  | [] => if pattern.isEmpty then some ([], []) else none
  | c :: cs =>
    match dropFront? pattern (c :: cs) with
    | some rest => some ([], rest)
    | none => (cutAt? pattern cs).map fun (front, back) => (c :: front, back)

/-- The pieces with the separator between each two. -/
def join (sep : List Char) : List (List Char) → List Char
  | [] => []
  | [piece] => piece
  | piece :: pieces => piece ++ sep ++ join sep pieces

end CompilingProxy.Text
