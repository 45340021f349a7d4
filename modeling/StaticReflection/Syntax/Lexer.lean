import StaticReflection.Syntax.Template

/-!
Splitting source text into lexemes. The lexer works in modes: text outside tags, script, the inside
of a string with embedded expressions, and the way to the end of a halted script. Each step takes
at least one character off the text, and the lexemes of a text put together are the text again.

An embedded expression is script up to a place that is known when it starts. The lexeme that reaches
that place is its last one, and behind it the string goes on.
-/

namespace StaticReflection.Syntax

open Text

/-- The signs that must follow the word that halts a script. -/
inductive HaltSign where
  | opening
  | closing
  | terminator
  deriving DecidableEq, Repr

/-- What the lexer is inside of. `opening` is the beginning of the text, `halting` waits for a sign,
and `rest` is what stands behind the end of a halted script. -/
inductive LexMode where
  | opening
  | inline
  | script
  | halting (wanted : HaltSign)
  | rest
  | template (close : TemplateEnd)
  deriving DecidableEq, Repr

/-- An embedded expression that the lexer is inside of: the number of characters up to its end,
which is negative when it was passed over, whether it stands between braces, and the end of the
string around it. -/
structure Embedding where
  left : Int
  braced : Bool
  close : TemplateEnd
  deriving DecidableEq, Repr

/-- Where the lexer is: its mode, and the embedded expressions around it from the innermost on. -/
structure LexState where
  mode : LexMode
  embeddings : List Embedding
  deriving DecidableEq, Repr

/-- One step: the lexeme taken off the text, the text that is left, the mode behind it, and the
embedded expression that it starts. -/
structure LexStep where
  kind : LexemeKind
  text : List Char
  rest : List Char
  mode : LexMode
  opened : Option Embedding
  deriving Repr

def LexStep.token (kind : TokenKind) (split : List Char × List Char) (mode : LexMode) : LexStep :=
  ⟨.token kind, split.1, split.2, mode, none⟩

def LexStep.trivia (kind : TriviaKind) (split : List Char × List Char) (mode : LexMode) :
    LexStep :=
  ⟨.trivia kind, split.1, split.2, mode, none⟩

/-- A step that takes the first token of an embedded expression, with so many characters behind
it. -/
def LexStep.embedded (kind : TokenKind) (split : List Char × List Char) (extent : Nat)
    (braced : Bool) (close : TemplateEnd) : LexStep :=
  ⟨.token kind, split.1, split.2, .script, some ⟨extent, braced, close⟩⟩

def lexInline (cs : List Char) : LexStep :=
  match splitLetters? "<?php".toList cs, stripHead? "<?".toList cs with
  | some tag, _ => .token .openTag tag .script
  | none, some ('=' :: rest) => .token .echoTag ("<?=".toList, rest) .script
  | none, some rest => .token .openTag ("<?".toList, rest) .script
  | none, none => .token .inline (splitInline cs) .inline

/-- A step at the beginning of the text. A first line that starts with `#!` runs to its end,
whatever stands in it. -/
def lexOpening (cs : List Char) : LexStep :=
  if (stripHead? "#!".toList cs).isSome then .token .inline (splitLine cs) .inline
  else lexInline cs

/-- A step at a name in script. Only where segments may follow one another a name that starts with
a letter goes on behind a backslash. -/
def lexName (segments : Bool) (cs : List Char) : LexStep :=
  let (head, tail) := splitOff 1 cs
  let (name, rest) :=
    if segments || head == ['\\'] then splitName tail else splitWhile isNameChar tail
  let text := head ++ name
  if text.contains '\\' then .token .qualifiedName (text, rest) .script
  else if lower text = "__halt_compiler".toList then
    .token .name (text, rest) (.halting .opening)
  else
    match splitWriteMark? text rest with
    | some (mark, rest) => .token .name (text ++ mark, rest) .script
    | none => .token .name (text, rest) .script

/-- A step at a quoted string, whose opening is the given number of characters. -/
def lexQuoted (opening : Nat) (cs : List Char) : Option LexStep :=
  let (start, body) := splitOff opening cs
  match start.getLast? with
  | some quote =>
    if quote == '"' && hasEmbedded body then
      some (.token .templateStart (start, body) (.template (.quote '"')))
    else
      (splitQuoted quote body).map fun (text, rest) => .token .string (start ++ text, rest) .script
  | none => none

def lexHeredoc (start : HeredocStart) (body : List Char) : Option LexStep :=
  if start.raw then
    (splitRaw start.label true body).map fun (text, rest) =>
      .token .nowdoc (start.opening ++ text, rest) .script
  else some (.token .templateStart (start.opening, body) (.template (.label start.label)))

/-- A step at a comment, if there is one. `none` inside means that it does not end. -/
def lexComment? (cs : List Char) : Option (Option LexStep) :=
  match cs with
  | '/' :: '*' :: body =>
    match cutAt ['*', '/'] body with
    | none => some none
    | some (text, rest) =>
      let kind := if text.head? = some '*' then TriviaKind.docComment else .comment
      some (some (.trivia kind ('/' :: '*' :: text ++ ['*', '/'], rest) .script))
  | '/' :: '/' :: _ => some (some (.trivia .comment (splitLineComment cs) .script))
  | '#' :: '[' :: _ => none
  | '#' :: _ => some (some (.trivia .comment (splitLineComment cs) .script))
  | _ => none

def lexSign (cs : List Char) : Option LexStep :=
  (splitSign? cs).map fun split => .token .sign split .script

/-- A step in script, where names may have several segments or not. -/
def lexScript (segments : Bool) (cs : List Char) : Option LexStep :=
  match cs with
  | [] => none
  | c :: next =>
    if isSourceBlank c then some (.trivia .blank (splitWhile isSourceBlank cs) .script)
    else
      match lexComment? cs, splitHeredocStart? cs with
      | some step, _ => step
      | none, some (start, body) => lexHeredoc start body
      | none, none =>
        match c, next with
        | '?', '>' :: rest => some (.token .closeTag (['?', '>'], rest) .inline)
        | '$', d :: _ =>
          if isNameStart d then
            let (name, rest) := splitWhile isNameChar next
            some (.token .variable (c :: name, rest) .script)
          else lexSign cs
        | '\\', d :: _ => if isNameStart d then some (lexName segments cs) else lexSign cs
        | '.', d :: _ =>
          if d.isDigit then some (.token .number (splitDecimal cs) .script)
          else lexSign cs
        | '`', rest => some (.token .templateStart ([c], rest) (.template (.quote '`')))
        | _, _ =>
          if c == '\'' || c == '"' then lexQuoted 1 cs
          else if (c == 'b' || c == 'B') && (next.head? == some '\'' || next.head? == some '"') then
            lexQuoted 2 cs
          else if isNameStart c then some (lexName segments cs)
          else if c.isDigit then
            let split := splitNumber cs
            if isBadNumber split.1 then none else some (.token .number split .script)
          else
            match splitCast? cs with
            | some split => some (.token .cast split .script)
            | none => lexSign cs

/-- A step on the way to the end of a halted script. Blanks may stand between the signs. -/
def lexHalting (wanted : HaltSign) (cs : List Char) : Option LexStep :=
  match wanted, cs with
  | _, [] => none
  | .opening, '(' :: rest => some (.token .sign (['('], rest) (.halting .closing))
  | .closing, ')' :: rest => some (.token .sign ([')'], rest) (.halting .terminator))
  | .terminator, ';' :: rest => some (.token .sign ([';'], rest) .rest)
  | .terminator, '?' :: '>' :: rest => some (.token .closeTag (['?', '>'], rest) .rest)
  | _, c :: _ =>
    if isSourceBlank c then some (.trivia .blank (splitWhile isSourceBlank cs) (.halting wanted))
    else none

/-- A step at an embedded expression: a variable with an index or a member behind it, or any
expression between braces. -/
def lexEmbedded (close : TemplateEnd) (cs : List Char) : Option LexStep :=
  match cs with
  | '{' :: rest => some (.embedded .sign (['{'], rest) (braceExtent 0 rest) true close)
  | '$' :: '{' :: rest => some (.embedded .sign (['$', '{'], rest) (braceExtent 0 rest) true close)
  | '$' :: named =>
    let (name, rest) := splitWhile isNameChar named
    let split := ('$' :: name, rest)
    match rest, memberExtent? rest with
    | '[' :: inner, _ => some (.embedded .variable split (bracketExtent 0 inner + 1) false close)
    | _, some extent => some (.embedded .variable split extent false close)
    | _, none => some (.token .variable split (.template close))
  | _ => none

def lexTemplate (close : TemplateEnd) (cs : List Char) : Option LexStep :=
  if startsEmbedded cs then lexEmbedded close cs
  else
    match close with
    | .quote quote =>
      match cs with
      | [] => none
      | c :: rest =>
        if c == quote then some (.token .templateEnd ([c], rest) .script)
        else some (.token .templateText (splitQuoteText quote cs) (.template close))
    | .label label =>
      match splitClosingLabel? label cs with
      | some closed => some (.token .templateEnd closed .script)
      | none => some (.token .templateText (splitHeredocText false cs) (.template close))

/-- One step of the lexer. In an embedded expression without braces a name is one segment. -/
def lexStep (state : LexState) (cs : List Char) : Option LexStep :=
  match state.mode with
  | .opening => some (lexOpening cs)
  | .inline => some (lexInline cs)
  | .script => lexScript (state.embeddings.head?.all (·.braced)) cs
  | .halting wanted => lexHalting wanted cs
  | .rest => some (.token .inline (cs, []) .rest)
  | .template close => lexTemplate close cs

/-- Whether the next so many characters reach the end of the embedded expression. -/
def Embedding.endsWithin (e : Embedding) (width : Nat) : Bool := 0 ≤ e.left && e.left ≤ width

/-- The embedded expression behind so many characters of it. -/
def Embedding.advance (width : Nat) (e : Embedding) : Embedding := { e with left := e.left - width }

/-- Where the lexer is after a step: behind the innermost embedded expression if the step reaches
its end, else where the step leads. -/
def LexState.after (state : LexState) (step : LexStep) : LexState :=
  let width := step.text.length
  let around := state.embeddings.map (·.advance width)
  match state.embeddings with
  | e :: _ =>
    if e.endsWithin width then ⟨.template e.close, around.tail⟩
    else ⟨step.mode, step.opened.toList ++ around⟩
  | [] => ⟨step.mode, step.opened.toList⟩

def placeLexemes : Nat → List (LexemeKind × List Char) → List (LexemeKind × String × Span)
  | _, [] => []
  | offset, (kind, text) :: rest =>
    let stop := offset + (text.map width).sum
    (kind, String.ofList text, ⟨offset, stop⟩) :: placeLexemes stop rest

/-- Whether a text may end here: not inside a string. -/
def LexState.mayEnd (state : LexState) : Bool :=
  match state.mode with
  | .template _ => false
  | _ => state.embeddings.isEmpty

/-- The lexemes of a text from a state on, in order, or the number of characters that were left when
no lexeme fits. -/
def lexFrom : Nat → LexState → List Char → Except Nat (List (LexemeKind × List Char))
  | _, state, [] => if state.mayEnd then .ok [] else .error 0
  | 0, _, cs => .error cs.length
  | fuel + 1, state, cs =>
    match lexStep state cs with
    | none => .error cs.length
    | some step => (lexFrom fuel (state.after step) step.rest).map ((step.kind, step.text) :: ·)

/-- The lexemes of a source text. Each takes at least one character. -/
def lexemes (source : String) : Except Nat (List (LexemeKind × String × Span)) :=
  (lexFrom source.toList.length ⟨.opening, []⟩ source.toList).map (placeLexemes 0)

def tokensOf (lexemes : List (LexemeKind × String × Span)) : List Token :=
  lexemes.filterMap fun
    | (.token kind, text, span) => some ⟨kind, text, span⟩
    | _ => none

def triviaOf (lexemes : List (LexemeKind × String × Span)) : List Trivia :=
  lexemes.filterMap fun
    | (.trivia kind, text, span) => some ⟨kind, span, text⟩
    | _ => none

end StaticReflection.Syntax
