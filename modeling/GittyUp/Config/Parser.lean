import GittyUp.Lib.Bytes
/-!
# The config parser

`src/config_parser.cc`: the config tree and its printer, the character lexer
`parseToken` and the token loop `parse`. The parser fills the caller's tree as
it goes, so `parse` returns that tree whether or not it accepts the text.
-/
open Lib

namespace GittyUp.Config

/-! ## The tree -/

/-- `NginxConfigStatement`: its tokens, and its `child_block_` if it has one. A
config is the list of its statements. -/
inductive Statement
  | line (tokens : List Str)
  | block (tokens : List Str) (childBlock : List Statement)

abbrev NginxConfig := List Statement

namespace Statement

def tokens : Statement → List Str
  | line ts => ts
  | block ts _ => ts

def childBlock : Statement → Option NginxConfig
  | line _ => none
  | block _ c => some c

@[simp] theorem tokens_line (ts : List Str) : (line ts).tokens = ts := rfl
@[simp] theorem tokens_block (ts : List Str) (c : List Statement) : (block ts c).tokens = ts := rfl
@[simp] theorem childBlock_line (ts : List Str) : (line ts).childBlock = none := rfl
@[simp] theorem childBlock_block (ts : List Str) (c : List Statement) : (block ts c).childBlock = some c := rfl

end Statement

/-- Two spaces for each level. -/
def indent : Nat → Str
  | 0 => []
  | depth + 1 => str "  " ++ indent depth

/-- Tokens separated by single spaces. -/
def spaced : List Str → Str
  | [] => []
  | t :: ts => t ++ ts.flatMap (fun u => str " " ++ u)

mutual
def Statement.toString : Statement → Nat → Str
  | .line ts, depth => indent depth ++ spaced ts ++ str ";" ++ str "\n"
  | .block ts c, depth =>
    indent depth ++ spaced ts ++ str " \x7b\n" ++ NginxConfig.toString c (depth + 1) ++
      indent depth ++ str "\x7d" ++ str "\n"

def NginxConfig.toString : NginxConfig → Nat → Str
  | [], _ => []
  | s :: ss, depth => s.toString depth ++ NginxConfig.toString ss depth
end

/-! ## The lexer -/

inductive TokenType
  | start | normal | startBlock | endBlock | comment | statementEnd | eof | error
  deriving DecidableEq, Repr

inductive TokenParserState
  | initialWhitespace | singleQuote | doubleQuote | comment | normal
  deriving DecidableEq, Repr

/-- The loop of `ParseToken`: `value` is what it has written to its out
parameter. It returns the token's type, its text and the unread input. -/
def parseTokenLoop : TokenParserState → Str → Str → TokenType × Str × Str
  | state, value, [] =>
    -- the end of the file: only an open quote is an error
    if state = .singleQuote ∨ state = .doubleQuote then (.error, value, []) else (.eof, value, [])
  | .initialWhitespace, value, c :: s =>
    if c = '{' then (.startBlock, [c], s)
    else if c = '}' then (.endBlock, [c], s)
    else if c = '#' then parseTokenLoop .comment [c] s
    else if c = '"' then parseTokenLoop .doubleQuote [c] s
    else if c = '\'' then parseTokenLoop .singleQuote [c] s
    else if c = ';' then (.statementEnd, [c], s)
    else if c = ' ' ∨ c = '\t' ∨ c = '\n' ∨ c = '\r' then parseTokenLoop .initialWhitespace value s
    else parseTokenLoop .normal (value ++ [c]) s
  | .singleQuote, value, c :: s =>
    if c = '\'' then (.normal, value ++ [c], s) else parseTokenLoop .singleQuote (value ++ [c]) s
  | .doubleQuote, value, c :: s =>
    if c = '"' then (.normal, value ++ [c], s) else parseTokenLoop .doubleQuote (value ++ [c]) s
  | .comment, value, c :: s =>
    if c = '\n' ∨ c = '\r' then (.comment, value, s) else parseTokenLoop .comment (value ++ [c]) s
  | .normal, value, c :: s =>
    -- the source tests '\t' twice and '\r' not at all; the character is put back
    if c = ' ' ∨ c = '\t' ∨ c = '\n' ∨ c = '\t' ∨ c = ';' ∨ c = '{' ∨ c = '}' then (.normal, value, c :: s)
    else parseTokenLoop .normal (value ++ [c]) s

def parseToken (input : Str) : TokenType × Str × Str := parseTokenLoop .initialWhitespace [] input

/-! ## The token loop -/

/-- The locals of `Parse`. `stack` is `config_stack`, top first; each config
below the top is the one whose last statement's child block is next above it. -/
structure Parser where
  stack : List NginxConfig
  last : TokenType
  startBlock : Int

/-- Append to the tokens of the last statement. -/
def pushToken (token : Str) (c : NginxConfig) : NginxConfig :=
  c.modifyLast fun
    | .line ts => .line (ts ++ [token])
    | .block ts child => .block (ts ++ [token]) child

/-- Make `child` the child block of the last statement. -/
def setChild (child : NginxConfig) (c : NginxConfig) : NginxConfig :=
  c.modifyLast fun s => .block s.tokens child

/-- The tree that the bottom of the stack points to. -/
def tree : List NginxConfig → NginxConfig
  | [] => []
  | top :: rest => rest.foldl setChild top

def onTop (f : NginxConfig → NginxConfig) : List NginxConfig → List NginxConfig
  | [] => []
  | top :: rest => f top :: rest

/-- `config_stack.pop()`: what was on top becomes the child block below it. -/
def pop : List NginxConfig → List NginxConfig
  | top :: below :: rest => setChild top below :: rest
  | _ => []

/-- One turn of the loop on a token that is neither a comment nor the end of
the file. `none` is a `break`. -/
def feed (p : Parser) (type : TokenType) (token : Str) : Option Parser :=
  match type with
  | .normal =>
    if p.last = .start ∨ p.last = .statementEnd ∨ p.last = .startBlock ∨ p.last = .endBlock ∨ p.last = .normal then
      let stack := if p.last ≠ .normal then onTop (· ++ [.line []]) p.stack else p.stack
      some ⟨onTop (pushToken token) stack, .normal, p.startBlock⟩
    else none
  | .statementEnd =>
    if p.last ≠ .normal then none else some ⟨p.stack, .statementEnd, p.startBlock⟩
  | .startBlock =>
    if p.last ≠ .normal then none else some ⟨[] :: p.stack, .startBlock, p.startBlock + 1⟩
  | .endBlock =>
    if p.last ≠ .statementEnd ∧ p.last ≠ .endBlock then none
    else if p.startBlock - 1 < 0 then none
    else some ⟨pop p.stack, .endBlock, p.startBlock - 1⟩
  | _ => none

/-- The test at the end of the file. -/
def accepts (p : Parser) : Bool :=
  (p.last = .statementEnd || p.last = .endBlock) && p.startBlock = 0

/-- The `while` loop of `Parse`. Each turn but the last reads at least one
character, so `fuel` beyond the length of the input is never used up. -/
def parseLoop : Nat → Parser → Str → Bool × NginxConfig
  | 0, p, _ => (false, tree p.stack)
  | fuel + 1, p, input =>
    match parseToken input with
    | (.error, _, _) => (false, tree p.stack)
    | (.comment, _, rest) => parseLoop fuel p rest
    | (.eof, _, _) => (accepts p, tree p.stack)
    | (type, token, rest) =>
      match feed p type token with
      | none => (false, tree p.stack)
      | some p' => parseLoop fuel p' rest

/-- `Parse` on a stream, with a fresh config. -/
def parse (configFile : Str) : Bool × NginxConfig :=
  parseLoop (configFile.length + 1) ⟨[[]], .start, 0⟩ configFile

end GittyUp.Config
