import StaticReflection.Syntax.Token

/-!
Keywords. Every word may name a declaration, a member, a label or a class after `extends`; what a
keyword may not do without limits is to stand for a type or for a constant in an expression.
-/

namespace StaticReflection.Syntax

/-- The words with a meaning of their own, in small letters. A visibility for writing is one word
with the mark behind it. -/
def keywords : List String :=
  ["abstract", "and", "array", "as", "break", "callable", "case", "catch", "class", "clone",
    "const", "continue", "declare", "default", "die", "do", "echo", "else", "elseif", "empty",
    "enddeclare", "endfor", "endforeach", "endif", "endswitch", "endwhile", "enum", "eval", "exit",
    "extends", "false", "final", "finally", "fn", "for", "foreach", "from", "function", "global",
    "goto", "if", "implements", "include", "include_once", "instanceof", "insteadof", "interface",
    "isset", "list", "match", "namespace", "new", "null", "or", "parent", "print", "private",
    "private(set)", "protected", "protected(set)", "public", "public(set)", "readonly", "require",
    "require_once", "return", "self", "static", "switch", "throw", "trait", "true", "try", "unset",
    "use", "var", "while", "xor", "yield", "__class__", "__dir__", "__file__", "__function__",
    "__halt_compiler", "__line__", "__method__", "__namespace__", "__property__", "__trait__"]

def typeKeywords : List String :=
  ["array", "callable", "enum", "false", "from", "null", "parent", "self", "static", "true"]

/-- The keywords that stand for a value or a class in an expression when no form of theirs is
behind them. -/
def operandKeywords : List String :=
  ["enum", "false", "from", "list", "match", "null", "parent", "readonly", "self", "static", "true",
    "__class__", "__dir__", "__file__", "__function__", "__line__", "__method__", "__namespace__",
    "__property__", "__trait__"]

/-- The keywords that always start a form of their own where an expression is expected. -/
def formKeywords : List String :=
  ["clone", "empty", "eval", "include", "include_once", "isset", "new", "print", "require",
    "require_once", "throw", "yield"]

def modifierWords : List String :=
  ["abstract", "final", "private", "private(set)", "protected", "protected(set)", "public",
    "public(set)", "readonly", "static"]

def isTypeWord (word : String) : Bool := typeKeywords.contains word || !keywords.contains word

def isOperandWord (word : String) : Bool :=
  operandKeywords.contains word || !keywords.contains word

end StaticReflection.Syntax
