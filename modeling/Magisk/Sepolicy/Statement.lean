import Mathlib.Data.UInt
import Mathlib.Tactic

/-!
# Policy statements

The tokenizer and the parser of textual policy statements.  The parser is
independent of the policy it works on: a statement it accepts makes one call of
the policy's methods (`Call`), which the branch of `exec_statement` does last,
after everything that can fail.

* `tokenizeStatement`: words are cut at whitespace, braces and commas;
* `parseTerm`, `parseSterm`, `parseXperms`: the arguments;
* `parseCall`, `execStatement`, `parseStatement`: the statements.
-/

namespace Magisk.Sepolicy

/-! ### Tokens -/

/-- `Token`. -/
inductive Token where
  | AL | DN | AA | DA | AX | AY | DX | PM | EF | TA | TY | AT | TT | TC | TM | GF
  | LB | RB | CM | ST | TL | HP
  | HX (n : UInt16)
  | ID (s : String)
  deriving DecidableEq

/-- The White_Space property of Unicode. -/
def isWhitespace (c : Char) : Bool :=
  let n := c.toNat
  (9 ≤ n && n ≤ 13) || n = 0x20 || n = 0x85 || n = 0xA0 || n = 0x1680 ||
    (0x2000 ≤ n && n ≤ 0x200A) || n = 0x2028 || n = 0x2029 || n = 0x202F || n = 0x205F || n = 0x3000

/-- The value of a hexadecimal digit. -/
def hexValue (c : Char) : Option Nat :=
  if '0' ≤ c ∧ c ≤ '9' then some (c.toNat - '0'.toNat)
  else if 'a' ≤ c ∧ c ≤ 'f' then some (c.toNat - 'a'.toNat + 10)
  else if 'A' ≤ c ∧ c ≤ 'F' then some (c.toNat - 'A'.toNat + 10)
  else none

/-- `u16::from_str_radix(s, 16)`: one plus sign may stand in front of the digits, of
which there is at least one, and the value has to fit. -/
def fromStrRadix (s : List Char) : Option UInt16 :=
  let digits := if s.head? = some '+' then s.tail else s
  if digits = [] then none
  else
    let value := digits.foldlM (fun v c => (hexValue c).bind fun d =>
      if v * 16 + d < 2 ^ 16 then some (v * 16 + d) else none) 0
    value.map UInt16.ofNat

/-- `parse_xperm_hex`. -/
def parseXpermHex (s : List Char) : Option UInt16 :=
  match s with
  | '0' :: 'x' :: s => fromStrRadix s
  | _ => none

/-- `parse_xperm_range`: the text is cut at the first minus sign. -/
def parseXpermRange (s : List Char) : Option (UInt16 × UInt16) :=
  if '-' ∈ s then
    (parseXpermHex (s.takeWhile (· ≠ '-'))).bind fun low =>
      (parseXpermHex ((s.dropWhile (· ≠ '-')).tail)).map fun high => (low, high)
  else none

/-- The words that are tokens of their own. -/
def keyword (s : String) : Option Token :=
  match s with
  | "allow" => some .AL
  | "deny" => some .DN
  | "auditallow" => some .AA
  | "dontaudit" => some .DA
  | "allowxperm" => some .AX
  | "auditallowxperm" => some .AY
  | "dontauditxperm" => some .DX
  | "permissive" => some .PM
  | "enforce" => some .EF
  | "typeattribute" => some .TA
  | "type" => some .TY
  | "attribute" => some .AT
  | "type_transition" => some .TT
  | "type_change" => some .TC
  | "type_member" => some .TM
  | "genfscon" => some .GF
  | "*" => some .ST
  | _ => none

/-- `extract_token`.  Every recursive call is on a shorter text, so the length of the
text is fuel enough. -/
def extractToken (fuel : Nat) (s : List Char) : List Token :=
  match fuel with
  | 0 => []
  | fuel + 1 =>
    let cut (c : Char) (t : Token) : List Token :=
      extractToken fuel (s.takeWhile (· ≠ c)) ++
        t :: extractToken fuel ((s.dropWhile (· ≠ c)).tail)
    match keyword (String.ofList s) with
    | some t => [t]
    | none =>
      if s = [] then []
      else if '{' ∈ s then cut '{' .LB
      else if '}' ∈ s then cut '}' .RB
      else if ',' ∈ s then cut ',' .CM
      else if s.head? = some '~' then .TL :: extractToken fuel s.tail
      else
        match parseXpermHex s with
        | some n => [.HX n]
        | none => [.ID (String.ofList s)]

/-- `split_whitespace`; `word` is the word so far. -/
def splitWhitespace (word : List Char) : List Char → List (List Char)
  | [] => if word = [] then [] else [word]
  | c :: s =>
    if isWhitespace c then
      if word = [] then splitWhitespace [] s else word :: splitWhitespace [] s
    else splitWhitespace (word ++ [c]) s

/-- `tokenize_statement`. -/
def tokenizeStatement (statement : List Char) : List Token :=
  (splitWhitespace [] statement).flatMap fun s => extractToken (s.length + 1) s

/-! ### Arguments -/

/-- `ParseError`. -/
inductive ParseError where
  | general
  | avtabAv (action : Token)
  | avtabXperms (action : Token)
  | avtabType (action : Token)
  | typeState (action : Token)
  | typeAttr
  | typeTrans
  | newType
  | newAttr
  | genfsCon
  | showHelp
  | unknownAction (action : Token)
  deriving DecidableEq

/-- An `Xperm`: a range of ioctl commands. -/
structure Xperm where
  low : UInt16
  high : UInt16
  reset : Bool
  deriving DecidableEq

/-- What a parser takes off the front of the tokens. -/
abbrev Parser (α : Type) := List Token → Except ParseError (α × List Token)

/-- `parse_id`. -/
def parseId : Parser String
  | .ID name :: tokens => .ok (name, tokens)
  | _ => .error .general

/-- The loop of `parse_term`. -/
def termNames (names : List String) : Parser (List String)
  | .ID name :: tokens => termNames (names ++ [name]) tokens
  | .RB :: tokens => .ok (names, tokens)
  | _ => .error .general

/-- `parse_term`. -/
def parseTerm : Parser (List String)
  | .ID name :: tokens => .ok ([name], tokens)
  | .LB :: tokens => termNames [] tokens
  | _ => .error .general

/-- The loop of `parse_sterm`; a star turns the names off. -/
def stermNames (names : Option (List String)) : Parser (List String)
  | .ID name :: tokens => stermNames (names.map (· ++ [name])) tokens
  | .ST :: tokens => stermNames none tokens
  | .RB :: tokens => .ok (names.getD [], tokens)
  | _ => .error .general

/-- `parse_sterm`. -/
def parseSterm : Parser (List String)
  | .ID name :: tokens => .ok ([name], tokens)
  | .ST :: tokens => .ok ([], tokens)
  | .LB :: tokens => stermNames (some []) tokens
  | _ => .error .general

/-- `parse_xperm`. -/
def parseXperm : Parser Xperm
  | .HX low :: .HP :: .HX high :: tokens => .ok (⟨low, high, false⟩, tokens)
  | .HX _ :: .HP :: _ => .error .general
  | .HX low :: tokens => .ok (⟨low, low, false⟩, tokens)
  | .ID s :: tokens =>
    match parseXpermRange s.toList with
    | some (low, high) => .ok (⟨low, high, false⟩, tokens)
    | none => .error .general
  | _ => .error .general

/-- The loop of `parse_xperms` over a brace list.  Every round takes a token, so their
number is fuel enough. -/
def xpermList (fuel : Nat) (reset : Bool) (xperms : List Xperm) : Parser (List Xperm) :=
  fun tokens =>
    match fuel with
    | 0 => .error .general
    | fuel + 1 => do
        let (xperm, tokens) ← parseXperm tokens
        let xperms := xperms ++ [{ xperm with reset := reset }]
        match tokens with
        | .RB :: tokens => .ok (xperms, tokens)
        | _ => xpermList fuel reset xperms tokens

/-- The second half of `parse_xperms`, once a tilde has been looked for. -/
def parseXpermsBody (reset : Bool) : Parser (List Xperm)
  | .LB :: tokens => xpermList tokens.length reset [] tokens
  | .ST :: tokens => .ok ([⟨0x0000, 0xFFFF, reset⟩], tokens)
  | .HX low :: tokens =>
    if low > 0 then .ok ([⟨low, low, reset⟩], tokens)
    else .ok ([⟨0x0000, 0xFFFF, reset⟩], tokens)
  | .ID s :: tokens =>
    match parseXpermRange s.toList with
    | some (low, high) => .ok ([⟨low, high, reset⟩], tokens)
    | none => .error .general
  | _ => .error .general

/-- `parse_xperms`. -/
def parseXperms : Parser (List Xperm)
  | .TL :: .LB :: tokens => parseXpermsBody true (.LB :: tokens)
  | .TL :: _ => .error .general
  | tokens => parseXpermsBody false tokens

/-- `match_string`. -/
def matchString (pattern : String) : Parser Unit
  | .ID s :: tokens => if s = pattern then .ok ((), tokens) else .error .general
  | _ => .error .general

/-- `check_additional_args`. -/
def checkAdditionalArgs : List Token → Except ParseError Unit
  | [] => .ok ()
  | _ => .error .general

/-! ### Statements -/

/-- The methods of `SePolicy` a statement can call. -/
inductive Call where
  | allow (src tgt cls perm : List String)
  | deny (src tgt cls perm : List String)
  | auditallow (src tgt cls perm : List String)
  | dontaudit (src tgt cls perm : List String)
  | allowxperm (src tgt cls : List String) (xperm : List Xperm)
  | auditallowxperm (src tgt cls : List String) (xperm : List Xperm)
  | dontauditxperm (src tgt cls : List String) (xperm : List Xperm)
  | permissive (types : List String)
  | enforce (types : List String)
  | typeattribute (types attrs : List String)
  | type (type : String) (attrs : List String)
  | attribute (name : String)
  | typeTransition (src tgt cls dflt obj : String)
  | typeChange (src tgt cls dflt : String)
  | typeMember (src tgt cls dflt : String)
  | genfscon (fsName path ctx : String)
  deriving DecidableEq

/-- The four arguments of an access vector statement. -/
def parseAv (call : List String → List String → List String → List String → Call)
    (tokens : List Token) : Except ParseError Call := do
  let (s, tokens) ← parseSterm tokens
  let (t, tokens) ← parseSterm tokens
  let (c, tokens) ← parseSterm tokens
  let (p, tokens) ← parseSterm tokens
  checkAdditionalArgs tokens
  return call s t c p

/-- The arguments of an extended permission statement. -/
def parseAvXperms (call : List String → List String → List String → List Xperm → Call)
    (tokens : List Token) : Except ParseError Call := do
  let (s, tokens) ← parseSterm tokens
  let (t, tokens) ← parseSterm tokens
  let (c, tokens) ← parseSterm tokens
  let (_, tokens) ← matchString "ioctl" tokens
  let (p, tokens) ← parseXperms tokens
  checkAdditionalArgs tokens
  return call s t c p

/-- The argument of a `permissive` or `enforce` statement. -/
def parseTypeState (call : List String → Call) (tokens : List Token) : Except ParseError Call := do
  let (t, tokens) ← parseSterm tokens
  checkAdditionalArgs tokens
  return call t

/-- The arguments of a `typeattribute` statement. -/
def parseTypeattribute (tokens : List Token) : Except ParseError Call := do
  let (t, tokens) ← parseTerm tokens
  let (a, tokens) ← parseTerm tokens
  checkAdditionalArgs tokens
  return .typeattribute t a

/-- The attributes of a `type` statement, which may be missing. -/
def parseAttrs (tokens : List Token) : Except ParseError (List String × List Token) :=
  if tokens = [] then .ok ([], tokens) else parseTerm tokens

/-- The object name of a `type_transition` statement, which may be missing. -/
def parseObject (tokens : List Token) : Except ParseError (String × List Token) :=
  if tokens = [] then .ok ("", tokens) else parseId tokens

/-- The arguments of a `type` statement. -/
def parseType (tokens : List Token) : Except ParseError Call := do
  let (t, tokens) ← parseId tokens
  let (a, tokens) ← parseAttrs tokens
  checkAdditionalArgs tokens
  return .type t a

/-- The argument of an `attribute` statement. -/
def parseAttribute (tokens : List Token) : Except ParseError Call := do
  let (t, tokens) ← parseId tokens
  checkAdditionalArgs tokens
  return .attribute t

/-- The arguments of a `type_change` or `type_member` statement. -/
def parseTypeRule (call : String → String → String → String → Call) (tokens : List Token) :
    Except ParseError Call := do
  let (s, tokens) ← parseId tokens
  let (t, tokens) ← parseId tokens
  let (c, tokens) ← parseId tokens
  let (d, tokens) ← parseId tokens
  checkAdditionalArgs tokens
  return call s t c d

/-- The arguments of a `type_transition` statement. -/
def parseTypeTransition (tokens : List Token) : Except ParseError Call := do
  let (s, tokens) ← parseId tokens
  let (t, tokens) ← parseId tokens
  let (c, tokens) ← parseId tokens
  let (d, tokens) ← parseId tokens
  let (o, tokens) ← parseObject tokens
  checkAdditionalArgs tokens
  return .typeTransition s t c d o

/-- The arguments of a `genfscon` statement. -/
def parseGenfscon (tokens : List Token) : Except ParseError Call := do
  let (s, tokens) ← parseId tokens
  let (t, tokens) ← parseId tokens
  let (c, tokens) ← parseId tokens
  checkAdditionalArgs tokens
  return .genfscon s t c

/-- The result of a branch of `exec_statement`: any error becomes the branch's own. -/
def orError (result : Except ParseError Call) (e : ParseError) : Except ParseError Call :=
  match result with
  | .ok call => .ok call
  | .error _ => .error e

/-- The call `exec_statement` makes. -/
def parseCall : List Token → Except ParseError Call
  | [] => .error .showHelp
  | .AL :: tokens => orError (parseAv .allow tokens) (.avtabAv .AL)
  | .DN :: tokens => orError (parseAv .deny tokens) (.avtabAv .DN)
  | .AA :: tokens => orError (parseAv .auditallow tokens) (.avtabAv .AA)
  | .DA :: tokens => orError (parseAv .dontaudit tokens) (.avtabAv .DA)
  | .AX :: tokens => orError (parseAvXperms .allowxperm tokens) (.avtabXperms .AX)
  | .AY :: tokens => orError (parseAvXperms .auditallowxperm tokens) (.avtabXperms .AY)
  | .DX :: tokens => orError (parseAvXperms .dontauditxperm tokens) (.avtabXperms .DX)
  | .PM :: tokens => orError (parseTypeState .permissive tokens) (.typeState .PM)
  | .EF :: tokens => orError (parseTypeState .enforce tokens) (.typeState .EF)
  | .TA :: tokens => orError (parseTypeattribute tokens) .typeAttr
  | .TY :: tokens => orError (parseType tokens) .newType
  | .AT :: tokens => orError (parseAttribute tokens) .newAttr
  | .TC :: tokens => orError (parseTypeRule .typeChange tokens) (.avtabType .TC)
  | .TM :: tokens => orError (parseTypeRule .typeMember tokens) (.avtabType .TM)
  | .TT :: tokens => orError (parseTypeTransition tokens) .typeTrans
  | .GF :: tokens => orError (parseGenfscon tokens) .genfsCon
  | action :: _ => .error (.unknownAction action)

section Exec

variable {σ : Type*} (api : Call → σ → σ)

/-- `exec_statement`, for the methods of the policy. -/
def execStatement (sepolicy : σ) (tokens : List Token) : σ × Except ParseError Unit :=
  match parseCall tokens with
  | .ok call => (api call sepolicy, .ok ())
  | .error e => (sepolicy, .error e)

/-- `trim`. -/
def trim (s : List Char) : List Char :=
  ((s.dropWhile isWhitespace).reverse.dropWhile isWhitespace).reverse

/-- `parse_statement`: empty statements and comments are passed over, and an error is
only logged. -/
def parseStatement (sepolicy : σ) (statement : List Char) : σ × Except ParseError Unit :=
  let statement := trim statement
  if statement = [] ∨ statement.head? = some '#' then (sepolicy, .ok ())
  else execStatement api sepolicy (tokenizeStatement statement)

end Exec

end Magisk.Sepolicy
