import MacroRelay.Toml.Quoted

/-!
# Reading TOML

The reader works on bytes. A mark of the byte order in front is dropped, and text that is not
UTF-8, or holds control characters or the replacement character, is refused as a whole. Arrays may be broken over lines,
inline tables may not.
-/

namespace MacroRelay.Toml

def isBlank (b : UInt8) : Bool := b == 0x20 || b == 0x09

def skipBlanks (t : Text) : Text := t.dropWhile isBlank

/-- Passes over blanks, line ends and comments; `inComment` tells whether the text starts
inside a comment. -/
def skipLayoutFrom (inComment : Bool) : Text → Text
  | [] => []
  | b :: rest =>
    if inComment then skipLayoutFrom (!isLineEnd b) rest
    else if isLayout b then skipLayoutFrom false rest
    else if b = 0x23 then skipLayoutFrom true rest
    else b :: rest

def skipLayout (t : Text) : Text := skipLayoutFrom false t

def skipComment (t : Text) : Text :=
  if t.head? = some 0x23 then t.dropWhile (!isLineEnd ·) else t

def keyPart? (t : Text) : Option (Text × Text) :=
  match t with
  | 0x22 :: _ | 0x27 :: _ => line? t
  | _ =>
    let bare := t.takeWhile isBare
    if bare = [] then none else some (bare, t.drop bare.length)

/-- Parts with points and blanks between them. -/
def key? (fuel : Nat) (t : Text) : Option (Key × Text) := do
  let (part, rest) ← keyPart? (skipBlanks t)
  let rest := skipBlanks rest
  match fuel, rest with
  | fuel + 1, 0x2E :: rest =>
    let (parts, rest) ← key? fuel rest
    return (part :: parts, rest)
  | _, _ => return ([part], rest)

/-- A key with the mark that ends it. -/
def field? (fuel : Nat) (t : Text) : Option (Key × Text) := do
  let (key, rest) ← key? fuel t
  return (key, ← mark? 0x3D rest)

mutual
/-- `size` is more than the length of the text; `fuel` bounds the nesting and the number of
values. -/
def expr? (size fuel : Nat) (t : Text) : Option (Expr × Text) :=
  match fuel with
  | 0 => none
  | fuel + 1 =>
    let t := skipBlanks t
    match t with
    | 0x5B :: rest => items? size fuel .nil rest
    | 0x7B :: rest =>
      match skipBlanks rest with
      | 0x7D :: rest => some (.inline .nil, rest)
      | rest => fields? size fuel .nil rest
    | 0x22 :: _ | 0x27 :: _ => (quoted? t).map fun (text, rest) => (.text text, rest)
    | _ => scalar? t
/-- The rest of an array behind the values `done`, the latest first; a comma may follow the
last value. -/
def items? (size fuel : Nat) (done : Items) (t : Text) : Option (Expr × Text) :=
  match fuel with
  | 0 => none
  | fuel + 1 =>
    match skipLayout t with
    | 0x5D :: rest => some (.array (done.reverseOnto .nil), rest)
    | t =>
      match expr? size fuel t with
      | none => none
      | some (item, rest) =>
        match skipLayout rest with
        | 0x2C :: rest => items? size fuel (.cons item done) rest
        | 0x5D :: rest => some (.array ((Items.cons item done).reverseOnto .nil), rest)
        | _ => none
/-- At least one field behind those `done`, the latest first, and no comma after the last
one. -/
def fields? (size fuel : Nat) (done : Fields) (t : Text) : Option (Expr × Text) :=
  match fuel with
  | 0 => none
  | fuel + 1 =>
    match field? size t with
    | none => none
    | some (key, rest) =>
      match expr? size fuel rest with
      | none => none
      | some (value, rest) =>
        match skipBlanks rest with
        | 0x2C :: rest => fields? size fuel (.cons key value done) rest
        | 0x7D :: rest => some (.inline ((Fields.cons key value done).reverseOnto .nil), rest)
        | _ => none
end

def statement? (size : Nat) (t : Text) : Option (Statement × Text) := do
  match t with
  | 0x5B :: 0x5B :: rest =>
    let (key, rest) ← key? size rest
    return (.row key, ← mark? 0x5D (← mark? 0x5D rest))
  | 0x5B :: rest =>
    let (key, rest) ← key? size rest
    return (.table key, ← mark? 0x5D rest)
  | _ =>
    let (key, rest) ← field? size t
    -- an array takes two steps down for one bracket
    let (value, rest) ← expr? size (2 * size) rest
    return (.assign key value, rest)

/-- The statements behind those `done`, the latest first. A statement is followed by a line end
or the end of the text. -/
def statements? (size fuel : Nat) (done : List Statement) (t : Text) : Option (List Statement) :=
  match fuel with
  | 0 => none
  | fuel + 1 =>
    match skipLayout t with
    | [] => some done.reverse
    | t =>
      match statement? size t with
      | none => none
      | some (statement, rest) =>
        let rest := skipComment (skipBlanks rest)
        if rest.head?.all isLineEnd then statements? size fuel (statement :: done) rest else none

def isControl (b : UInt8) : Bool :=
  (b < 0x20 && b != 0x09 && b != 0x0A && b != 0x0D) || b == 0x7F

/-- A carriage return is followed by a line feed. -/
def returnsFit : Text → Bool
  | [] => true
  | 0x0D :: rest => rest.head? == some 0x0A && returnsFit rest
  | _ :: rest => returnsFit rest

def dropByteOrderMark : Text → Text
  | 0xFF :: 0xFE :: rest | 0xFE :: 0xFF :: rest => rest
  | 0xEF :: 0xBB :: 0xBF :: rest => rest
  | t => t

/-- The replacement character counts as a sign of broken text. -/
def holdsReplacement : Text → Bool
  | [] => false
  | 0xEF :: 0xBF :: 0xBD :: _ => true
  | _ :: rest => holdsReplacement rest

def read? (whole : Text) : Option (List Statement) :=
  let t := dropByteOrderMark whole
  let size := t.length + 1
  if Utf8.valid t ∧ !t.any isControl ∧ returnsFit t ∧ !holdsReplacement t then statements? size size [] t else none

end MacroRelay.Toml
