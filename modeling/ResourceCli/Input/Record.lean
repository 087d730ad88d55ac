/-!
# Comma-separated records

A list of texts in one text: the items stand between commas, and an item that holds a comma or a
quote is put in quotes, with the quotes inside written twice.  The empty text is the empty list.

Reading goes over the characters once and remembers where in an item it is (`Place`).
-/

namespace ResourceCli.Input

/-- What can be wrong with a record. -/
inductive RecordFault
  /-- An item starts with a quote, and the closing one is missing. -/
  | unterminated
  /-- A quote stands inside an item that does not start with one. -/
  | bareQuote
  /-- Something other than a comma follows the closing quote. -/
  | trailing (c : Char)
  deriving DecidableEq, Repr

/-- The wording of a fault in the record `input`. -/
def RecordFault.message (input : String) : RecordFault → String
  | unterminated => "unterminated quoted field in '" ++ input ++ "'"
  | bareQuote => "bare \" in non-quoted field in '" ++ input ++ "'"
  | trailing c =>
    "unexpected '" ++ String.singleton c ++ "' after quoted field in '" ++ input ++ "'"

/-- Where in an item a reader is. -/
inductive Place
  /-- Before its first character. -/
  | start
  /-- In an item without quotes. -/
  | plain
  /-- Between the quotes of an item. -/
  | quoted
  /-- Behind a quote that closes the item unless another one follows. -/
  | closed
  deriving DecidableEq, Repr

/-- Reads the items from a place on; `item` are the characters of the item so far. -/
def readItems (place : Place) (item : List Char) : List Char → Except RecordFault (List String)
  | [] =>
    match place with
    | .quoted => .error .unterminated
    | _ => .ok [String.ofList item]
  | c :: cs =>
    match place with
    | .quoted =>
      if c == '"' then readItems .closed item cs else readItems .quoted (item ++ [c]) cs
    | .closed =>
      if c == '"' then readItems .quoted (item ++ ['"']) cs
      else if c == ',' then (readItems .start [] cs).map (String.ofList item :: ·)
      else .error (.trailing c)
    | .start =>
      if c == '"' then readItems .quoted [] cs
      else if c == ',' then (readItems .start [] cs).map (String.ofList item :: ·)
      else readItems .plain [c] cs
    | .plain =>
      if c == '"' then .error .bareQuote
      else if c == ',' then (readItems .start [] cs).map (String.ofList item :: ·)
      else readItems .plain (item ++ [c]) cs

/-- Reads a record. -/
def readRecord (input : String) : Except RecordFault (List String) :=
  if input == "" then .ok [] else readItems .start [] input.toList

end ResourceCli.Input
