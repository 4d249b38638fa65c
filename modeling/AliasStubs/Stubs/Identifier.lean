/-!
# Identifiers

A name that C# reserves as a keyword is an identifier only behind the sign `@`.

## Main definitions

* `reservedWords` : the reserved keywords.
* `identifier` : the spelling of a name as an identifier.
-/

namespace AliasStubs

/-- The reserved keywords of C#. -/
def reservedWords : List String :=
  ["abstract", "as", "base", "bool", "break", "byte", "case", "catch", "char", "checked", "class",
    "const", "continue", "decimal", "default", "delegate", "do", "double", "else", "enum", "event",
    "explicit", "extern", "false", "finally", "fixed", "float", "for", "foreach", "goto", "if",
    "implicit", "in", "int", "interface", "internal", "is", "lock", "long", "namespace", "new",
    "null", "object", "operator", "out", "override", "params", "private", "protected", "public",
    "readonly", "ref", "return", "sbyte", "sealed", "short", "sizeof", "stackalloc", "static",
    "string", "struct", "switch", "this", "throw", "true", "try", "typeof", "uint", "ulong",
    "unchecked", "unsafe", "ushort", "using", "virtual", "void", "volatile", "while"]

/-- The spelling of a name as an identifier: reserved words go behind the sign `@`. -/
def identifier (name : String) : String :=
  if name ∈ reservedWords then "@" ++ name else name

/-- No reserved word starts with the sign that marks them. -/
theorem at_append_not_mem_reservedWords (name : String) : "@" ++ name ∉ reservedWords := by
  intro h
  have starts : ∀ word ∈ reservedWords, word.toList.head? ≠ some '@' := by decide +kernel
  exact starts _ h (by simp)

/-- An identifier is never a reserved word. -/
theorem identifier_not_mem_reservedWords (name : String) : identifier name ∉ reservedWords := by
  unfold identifier
  split
  · exact at_append_not_mem_reservedWords name
  · assumption

end AliasStubs
