import PageComposer.Glob.Fault
import PageComposer.Glob.Regular

namespace PageComposer
namespace Glob

/-!
# Globs

A glob is read into tokens and then turned into a regular expression over the
bytes of a path.  A question mark and a class stand for one byte.  Two stars
that fill the place between slashes stand for any number of directories.
-/

/-- A part of a glob. -/
inductive Token
  | literal (character : Char)
  /-- A question mark. -/
  | any
  /-- A star. -/
  | star
  /-- Two stars at the front. -/
  | leadingFolders
  /-- A slash and two stars at the end. -/
  | trailingPath
  /-- Two stars between slashes. -/
  | innerFolders
  | characterClass (negated : Bool) (ranges : List (Char × Char))
  /-- Alternatives between braces. -/
  | alternatives (branches : List (List Token))

/-- How a glob is read. -/
structure Rules where
  /-- Stars and question marks stop at slashes. -/
  slashesCount : Bool := false
  /-- A class that is never closed makes its bracket, and all later ones,
  stand for themselves. -/
  openClassIsLiteral : Bool := false

/-! ## Reading -/

/-- A group of alternatives that is still open. -/
structure OpenGroup where
  /-- The tokens in front of the group, the last one first. -/
  outer : List Token
  /-- The finished branches, the last one first. -/
  branches : List (List Token)

/-- A glob that is being read. -/
structure Reading where
  /-- The tokens of the current branch, the last one first. -/
  current : List Token := []
  groups : List OpenGroup := []
  /-- The character read last. -/
  previous : Option Char := none
  /-- Whether brackets stand for themselves from here on. -/
  literalBrackets : Bool := false

/-- Add a token to the current branch. -/
def Reading.push (reading : Reading) (token : Token) : Reading :=
  { reading with current := token :: reading.current }

/-- Let the last range end with a character. -/
def extendRange (character : Char) :
    List (Char × Char) -> Except Fault (List (Char × Char))
  | (first, _) :: ranges =>
      if character < first then .error (.invalidRange first character)
      else .ok ((first, character) :: ranges)
  | [] => .ok []

/-- Read the ranges of a class up to its closing bracket, the last range
first.  There is no result when the class is never closed. -/
def readRanges (first inRange : Bool) (ranges : List (Char × Char)) :
    Text -> Except Fault (Option (List (Char × Char) × Text))
  | [] => .ok none
  | ']' :: rest =>
      if first then readRanges false inRange ((']', ']') :: ranges) rest
      else .ok (some (if inRange then ('-', '-') :: ranges else ranges, rest))
  | '-' :: rest =>
      if first then readRanges false inRange (('-', '-') :: ranges) rest
      else if inRange then do readRanges false false (<- extendRange '-' ranges) rest
      else readRanges false true ranges rest
  | character :: rest =>
      if inRange then do readRanges false false (<- extendRange character ranges) rest
      else readRanges false false ((character, character) :: ranges) rest

/-- Read a class behind its opening bracket. -/
def readClass (text : Text) : Except Fault (Option (Token × Text)) := do
  let (negated, inside) :=
    match text with
    | '!' :: rest => (true, rest)
    | '^' :: rest => (true, rest)
    | _ => (false, text)
  let found <- readRanges true false [] inside
  return found.map fun (ranges, rest) => (.characterClass negated ranges.reverse, rest)

/-- Make the last token stand for directories, together with two stars that
follow it behind a slash. -/
def Reading.widen (reading : Reading) (token : Token) : Reading :=
  match reading.current with
  | .leadingFolders :: _ => reading
  | .trailingPath :: _ => reading
  | _ :: before => { reading with current := token :: before }
  | [] => reading.push token

/-- Read a second star, and the slash that belongs to it. -/
def readSecondStar (reading : Reading) (rest : Text) : Reading × Text :=
  let stars := (reading.push .star).push .star
  let inGroup := !reading.groups.isEmpty
  if reading.current.isEmpty then
    match rest with
    | [] => (reading.push .leadingFolders, [])
    | '/' :: rest => ({ reading.push .leadingFolders with previous := some '/' }, rest)
    | _ => ({ stars with previous := some '*' }, rest)
  else
    let opensPart := reading.previous == some '/' ||
      (inGroup && (reading.previous == some ',' || reading.previous == some '\x7b'))
    if !opensPart then ({ stars with previous := some '*' }, rest)
    else
      match rest with
      | [] => (reading.widen .trailingPath, [])
      | '/' :: rest => ({ reading.widen .innerFolders with previous := some '/' }, rest)
      | next :: _ =>
          if inGroup && (next == ',' || next == '\x7d') then
            ({ reading.widen .trailingPath with previous := some '*' }, rest)
          else ({ stars with previous := some '*' }, rest)

/-- Read one character, and what belongs to it. -/
def readNext (rules : Rules) (reading : Reading) (character : Char) (rest : Text) :
    Except Fault (Reading × Text) :=
  let advanced := { reading with previous := some character }
  match character with
  | '?' => .ok (advanced.push .any, rest)
  | '*' =>
      match rest with
      | '*' :: rest => .ok (readSecondStar reading rest)
      | _ => .ok (advanced.push .star, rest)
  | '[' =>
      if reading.literalBrackets then .ok (advanced.push (.literal '['), rest)
      else do
        match <- readClass rest with
        | some (token, rest) => return ({ reading.push token with previous := some ']' }, rest)
        | none =>
            if rules.openClassIsLiteral then
              return ({ advanced.push (.literal '[') with literalBrackets := true }, rest)
            else throw .unclosedClass
  | '\x7b' =>
      .ok ({ advanced with
        current := []
        groups := ⟨reading.current, []⟩ :: reading.groups }, rest)
  | '\x7d' =>
      match reading.groups with
      | [] => .error .unopenedGroup
      | group :: groups =>
          let token := Token.alternatives (reading.current.reverse :: group.branches).reverse
          .ok ({ advanced with current := token :: group.outer, groups := groups }, rest)
  | ',' =>
      match reading.groups with
      | [] => .ok (advanced.push (.literal ','), rest)
      | group :: groups =>
          let group := { group with branches := reading.current.reverse :: group.branches }
          .ok ({ advanced with current := [], groups := group :: groups }, rest)
  | '\\' =>
      match rest with
      | [] => .error .danglingEscape
      | escaped :: rest =>
          .ok ({ reading.push (.literal escaped) with previous := some escaped }, rest)
  | _ => .ok (advanced.push (.literal character), rest)

/-- Read all of a glob.  `fuel` is at least the length of the text. -/
def readFrom (rules : Rules) : Nat -> Reading -> Text -> Except Fault (List Token)
  | _, reading, [] =>
      if reading.groups.isEmpty then .ok reading.current.reverse else .error .unclosedGroup
  | 0, reading, _ => .ok reading.current.reverse
  | fuel + 1, reading, character :: rest => do
      let (reading, rest) <- readNext rules reading character rest
      readFrom rules fuel reading rest

/-- The tokens of a glob. -/
def read (rules : Rules) (text : Text) : Except Fault (List Token) :=
  readFrom rules text.length {} text

/-! ## Meaning -/

/-- The byte of a slash. -/
def slashByte : UInt8 := 47

/-- Exactly a slash. -/
def slash : Regular := .exactly slashByte

/-- What a question mark stands for. -/
def Rules.anyOne (rules : Rules) : Regular :=
  if rules.slashesCount then .byte ⟨true, [(slashByte, slashByte)]⟩ else .anyByte

/-- The byte ranges of a range of characters.  Characters of several bytes
contribute their bytes one by one, and the range runs from the last byte of
the first character to the first byte of the last one. -/
def byteRanges (range : Char × Char) : List (UInt8 × UInt8) :=
  let single (byte : UInt8) : UInt8 × UInt8 := (byte, byte)
  let first := String.utf8EncodeChar range.1
  let last := String.utf8EncodeChar range.2
  if range.1 = range.2 then first.map single
  else
    match first.getLast?, last with
    | some low, high :: others =>
        first.dropLast.map single ++ (low, high) :: others.map single
    | _, _ => []

mutual

/-- Whether nothing is left of a token, because it is a group of empty
branches. -/
def Token.isVoid : Token -> Bool
  | .alternatives branches => allVoid branches
  | _ => false

/-- Whether nothing is left of a branch. -/
def branchIsVoid : List Token -> Bool
  | [] => true
  | token :: tokens => token.isVoid && branchIsVoid tokens

/-- Whether nothing is left of any branch. -/
def allVoid : List (List Token) -> Bool
  | [] => true
  | branch :: branches => branchIsVoid branch && allVoid branches

end

mutual

/-- The expression of a token. -/
def Token.regular (rules : Rules) : Token -> Regular
  | .literal character =>
      .sequenceOf ((String.utf8EncodeChar character).map Regular.exactly)
  | .any => rules.anyOne
  | .star => .many rules.anyOne
  | .leadingFolders =>
      .either (.either .empty slash) (.sequence (.many .anyByte) slash)
  | .trailingPath => .sequence slash (.many .anyByte)
  | .innerFolders =>
      .either slash (.sequence slash (.sequence (.many .anyByte) slash))
  | .characterClass negated ranges => .byte ⟨negated, ranges.flatMap byteRanges⟩
  | .alternatives branches => branchesRegular rules branches

/-- The expression of tokens one after the other. -/
def tokensRegular (rules : Rules) : List Token -> Regular
  | [] => .empty
  | token :: tokens => .sequence (token.regular rules) (tokensRegular rules tokens)

/-- The expression of alternatives.  Empty branches do not count, and without
any other the group stands for nothing. -/
def branchesRegular (rules : Rules) : List (List Token) -> Regular
  | [] => .empty
  | branch :: branches =>
      if branchIsVoid branch then branchesRegular rules branches
      else if allVoid branches then tokensRegular rules branch
      else .either (tokensRegular rules branch) (branchesRegular rules branches)

end

/-- A glob that has been read. -/
structure Pattern where
  rules : Rules
  tokens : List Token

/-- The glob that a text is. -/
def Pattern.ofText (rules : Rules) (text : Text) : Except Fault Pattern := do
  return ⟨rules, <- read rules text⟩

/-- The expression of a glob.  Two stars alone match everything. -/
def Pattern.regular (pattern : Pattern) : Regular :=
  match pattern.tokens with
  | [.leadingFolders] => .many .anyByte
  | tokens => tokensRegular pattern.rules tokens

end Glob
end PageComposer
