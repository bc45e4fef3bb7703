import LaneQueue.Toml.Value
/-!
# Strings, keys and blanks of a TOML text

Each function takes the part it reads from the front of the text and returns what follows it.
-/
namespace LaneQueue.Toml

abbrev Chars := List Char

def skipBlanks (cs : Chars) : Chars := cs.dropWhile fun c => c == ' ' || c == '\t'

/-- Characters that may stand in comments and strings besides line ends. -/
def isPlain (c : Char) : Bool := c == '\t' || (32 ≤ c.toNat && c.toNat != 127)

/-- A line end. -/
def newline? : Chars → Option Chars
  | '\n' :: rest => some rest
  | '\r' :: '\n' :: rest => some rest
  | _ => none

/-- A comment, if there is one, up to the line end. -/
def skipComment : Chars → Chars
  | '#' :: rest => rest.dropWhile isPlain
  | cs => cs

/-- The end of a line or of the text, after blanks and a comment. -/
def lineEnd? (cs : Chars) : Option Chars :=
  match skipComment (skipBlanks cs) with
  | [] => some []
  | cs => newline? cs

/-- Goes over blanks, comments and line ends, `fuel` lines at most. -/
def skipSpace : Nat → Chars → Chars
  | 0, cs => cs
  | fuel + 1, cs =>
    let rest := skipComment (skipBlanks cs)
    match newline? rest with
    | some rest => skipSpace fuel rest
    | none => rest

/-- Goes over everything that separates the parts of arrays and tables. -/
def skipAll (cs : Chars) : Chars := skipSpace (cs.length + 1) cs

/-- The character of `width` hexadecimal digits. -/
def takeHex (width : Nat) (cs : Chars) : Option (Char × Chars) :=
  let ds := cs.take width
  let n := ofDigits 16 ds
  if ds.length = width ∧ ds.all (fun c => (hexValue? c).isSome) ∧
      (n < 0xD800 ∨ (0xDFFF < n ∧ n < 0x110000)) then
    some (Char.ofNat n, cs.drop width)
  else none

/-- The character of an escape, after its backslash. -/
def takeEscape : Chars → Option (Char × Chars)
  | 'b' :: rest => some (Char.ofNat 8, rest)
  | 't' :: rest => some ('\t', rest)
  | 'n' :: rest => some ('\n', rest)
  | 'f' :: rest => some (Char.ofNat 12, rest)
  | 'r' :: rest => some ('\r', rest)
  | 'e' :: rest => some (Char.ofNat 27, rest)
  | '"' :: rest => some ('"', rest)
  | '\\' :: rest => some ('\\', rest)
  | 'x' :: rest => takeHex 2 rest
  | 'u' :: rest => takeHex 4 rest
  | 'U' :: rest => takeHex 8 rest
  | _ => none

/-- A string on one line with escapes, after its quote. -/
def takeBasic : Nat → Chars → Option (List Char × Chars)
  | 0, _ => none
  | fuel + 1, cs =>
    match cs with
    | '"' :: rest => some ([], rest)
    | '\\' :: rest => do
      let (c, rest) ← takeEscape rest
      let (s, rest) ← takeBasic fuel rest
      return (c :: s, rest)
    | c :: rest =>
      if isPlain c then (takeBasic fuel rest).map fun (s, r) => (c :: s, r) else none
    | [] => none

/-- A string on one line without escapes, after its quote. -/
def takeLiteral (cs : Chars) : Option (List Char × Chars) :=
  let body := cs.takeWhile fun c => isPlain c && c != '\''
  match cs.drop body.length with
  | '\'' :: rest => some (body, rest)
  | _ => none

/-- The quotes at the end of a string over several lines: three close it, and up to two more in
front of them belong to it. -/
def closing? (quote : Char) (cs : Chars) : Option (List Char × Chars) :=
  let n := (cs.takeWhile (· == quote)).length
  if n < 3 then none else some (List.replicate (min n 5 - 3) quote, cs.drop (min n 5))

/-- A string over several lines. With escapes, a backslash at a line end joins the lines. -/
def takeLong (quote : Char) (escapes : Bool) : Nat → Chars → Option (List Char × Chars)
  | 0, _ => none
  | fuel + 1, cs =>
    match closing? quote cs with
    | some found => some found
    | none =>
      match newline? cs with
      | some rest =>
        (takeLong quote escapes fuel rest).map fun (s, r) =>
          (cs.take (cs.length - rest.length) ++ s, r)
      | none =>
        match cs with
        | [] => none
        | c :: rest =>
          if escapes && c == '\\' then
            match newline? (skipBlanks rest) with
            | some after => takeLong quote escapes fuel (dropJoined (after.length + 1) after)
            | none => do
              let (e, rest) ← takeEscape rest
              let (s, rest) ← takeLong quote escapes fuel rest
              return (e :: s, rest)
          else if isPlain c then
            (takeLong quote escapes fuel rest).map fun (s, r) => (c :: s, r)
          else none
where
  /-- Blanks and line ends after a joining backslash. -/
  dropJoined : Nat → Chars → Chars
    | 0, cs => cs
    | fuel + 1, cs =>
      match newline? (skipBlanks cs) with
      | some rest => dropJoined fuel rest
      | none => skipBlanks cs

/-- Drops a line end right after the opening quotes. -/
def dropFirstLineEnd (cs : Chars) : Chars := (newline? cs).getD cs

/-- A quoted string. -/
def takeString (cs : Chars) : Option (List Char × Chars) :=
  match cs with
  | '"' :: '"' :: '"' :: rest =>
    let rest := dropFirstLineEnd rest
    takeLong '"' true (rest.length + 1) rest
  | '\'' :: '\'' :: '\'' :: rest =>
    let rest := dropFirstLineEnd rest
    takeLong '\'' false (rest.length + 1) rest
  | '"' :: rest => takeBasic (rest.length + 1) rest
  | '\'' :: rest => takeLiteral rest
  | _ => none

def isBareKeyChar (c : Char) : Bool :=
  c.isAlphanum || c == '_' || c == '-'

/-- One part of a key. -/
def takeSimpleKey (cs : Chars) : Option (String × Chars) :=
  match cs with
  | '"' :: '"' :: '"' :: _ => none
  | '\'' :: '\'' :: '\'' :: _ => none
  | '"' :: rest => (takeBasic (rest.length + 1) rest).map fun (s, r) => (String.ofList s, r)
  | '\'' :: rest => (takeLiteral rest).map fun (s, r) => (String.ofList s, r)
  | _ =>
    let name := cs.takeWhile isBareKeyChar
    if name.isEmpty then none else some (String.ofList name, cs.drop name.length)

/-- A key with its parts between dots, `fuel` parts at most. -/
def takeKeyUpTo : Nat → Chars → Option (List String × Chars)
  | 0, _ => none
  | fuel + 1, cs => do
    let (k, rest) ← takeSimpleKey (skipBlanks cs)
    match skipBlanks rest with
    | '.' :: rest =>
      let (ks, rest) ← takeKeyUpTo fuel rest
      return (k :: ks, rest)
    | rest => return ([k], rest)

def takeKey (cs : Chars) : Option (List String × Chars) := takeKeyUpTo (cs.length + 1) cs

end LaneQueue.Toml
