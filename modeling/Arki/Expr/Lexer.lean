import Arki.Expr.Language

/-! The lexer: one pass over the text. Aliases are folded here. -/

set_option autoImplicit false

namespace Arki.Expr

inductive TokenKind where
  | number
  | name
  | plus
  | minus
  | star
  | slash
  | caret
  | bang
  | open_
  | close
  | bar
  | equals
  | sep
  | radical
  | end_
  deriving DecidableEq

/-- `text` is the canonical value of a number (with a `.` mark) or a name, the source text otherwise. -/
structure Token where
  kind : TokenKind
  start : Nat
  stop : Nat
  text : Text
  deriving DecidableEq

def single (code : Nat) : Option TokenKind :=
  match code with
  | 43 => some .plus
  | 45 | 8722 => some .minus
  | 42 | 215 | 183 => some .star
  | 47 | 247 => some .slash
  | 94 => some .caret
  | 33 => some .bang
  | 40 => some .open_
  | 41 => some .close
  | 124 => some .bar
  | 61 => some .equals
  | 8730 => some .radical
  | _ => none

def charAt : Text → Text
  | high :: low :: _ =>
    if 55296 ≤ high ∧ high ≤ 56319 ∧ 56320 ≤ low ∧ low ≤ 57343 then [high, low] else [high]
  | rest => rest

def replaceMark (mark : Nat) (raw : Text) : Text := raw.replace mark dotMark

def unexpected (syntax_ : Syntax) (code index : Nat) (rest : Text) : ParseError :=
  let char := charAt rest
  let hint :=
    if code = dotMark ∧ syntax_.decimal ≠ dotMark then
      text " (this syntax writes decimals with \"" ++ [syntax_.decimal] ++ text "\")"
    else if code = commaMark ∨ code = semicolonMark then
      text " (this syntax separates arguments with \"" ++ [syntax_.separator] ++ text "\")"
    else []
  ⟨.unexpectedToken, ⟨index, index + char.length⟩, text "Unexpected character \"" ++ char ++ text "\"" ++ hint, [], char⟩

def malformed (index length : Nat) (rest : Text) : ParseError :=
  let found := rest.take length
  ⟨.badNumber, ⟨index, index + length⟩,
    text "Malformed number \"" ++ found ++ text "\": use one decimal mark, with digits after it", [text "digit"], found⟩

/-- The token that `rest`, the text from `index` on, begins with. It does not begin with a space. -/
def nextToken (syntax_ : Syntax) (index code : Nat) (rest : Text) : Except ParseError Token :=
  if startsNumber syntax_.decimal rest then
    match scanNumber rest syntax_.decimal with
    | .error length => .error (malformed index length rest)
    | .ok length => .ok ⟨.number, index, index + length, replaceMark syntax_.decimal (rest.take length)⟩
  else if isLetter code then
    let name := rest.takeWhile isWordChar
    .ok ⟨.name, index, index + name.length, name⟩
  else if code = piSign then .ok ⟨.name, index, index + 1, text "pi"⟩
  else if code = syntax_.separator then .ok ⟨.sep, index, index + 1, [code]⟩
  else
    match single code with
    | some kind => .ok ⟨kind, index, index + 1, [code]⟩
    | none => .error (unexpected syntax_ code index rest)

/-- The loop of `tokenize`: `skip` are the units left of the token just read, and `count` the tokens so far. -/
def tokenizeFrom (syntax_ : Syntax) (maxTokens : Nat) : Nat → Nat → Nat → Text → Except Stop (List Token)
  | _, _, _, [] => .ok []
  | skip + 1, index, count, _ :: rest => tokenizeFrom syntax_ maxTokens skip (index + 1) count rest
  | 0, index, count, code :: rest =>
    if isSpace code then tokenizeFrom syntax_ maxTokens 0 (index + 1) count rest
    else
      match nextToken syntax_ index code (code :: rest) with
      | .error error => .error (.refused error)
      | .ok token =>
        if maxTokens ≤ count then .error (.overBudget .tokens maxTokens (count + 1))
        else
          match tokenizeFrom syntax_ maxTokens (token.stop - index - 1) (index + 1) (count + 1) rest with
          | .error stop => .error stop
          | .ok tokens => .ok (token :: tokens)

/-- The tokens of a text, but for the `end` token that closes them. -/
def tokenize (source : Text) (syntax_ : Syntax) (maxTokens : Nat) : Except Stop (List Token) :=
  tokenizeFrom syntax_ maxTokens 0 0 0 source

end Arki.Expr
