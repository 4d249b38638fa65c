import AliasStubs.Stubs.Identifier
import AliasStubs.Types.Definition

/-!
# The spelling of types and parameters

C# spells a primitive type by its keyword and any other type by its simple names, joined by
points. The arguments of a generic type go to the names of the chain, the outermost first: each
name takes as many as its arity says, and the last one takes all that are left.

## Main definitions

* `distribute` : which name of a chain takes which arguments.
* `TypeName.spelling` : a name with its arguments, which are spelled already.
* `TypeDescriptor.spelling` : a type.
* `Parameter.spelling` and `parameterList` : parameters, with their names.
* `genericMarker` : the generic parameters behind the name of a method.

## Main results

* `flatten_distribute` : no argument is lost, and their order is kept.
-/

namespace AliasStubs

/-! ### Names -/

/-- Hands the arguments out to the names of a chain. -/
def distribute {α : Type} : List NameSegment → List α → List (NameSegment × List α)
  | [], _ => []
  | [s], args => [(s, args)]
  | s :: rest, args => (s, args.take s.arity) :: distribute rest (args.drop s.arity)

/-- The arguments that are handed out are all arguments, in order. -/
theorem flatten_distribute {α : Type} (segments : List NameSegment) (args : List α)
    (h : segments ≠ []) : ((distribute segments args).map (·.2)).flatten = args := by
  fun_induction distribute segments args with
  | case1 => contradiction
  | case2 => simp
  | case3 s rest args hrest ih => simp [ih hrest]

/-- A simple name with the arguments it takes. -/
def segmentSpelling (s : NameSegment) (args : List String) : String :=
  if args = [] then s.simpleName else s.simpleName ++ "<" ++ ", ".intercalate args ++ ">"

/-- A name with the spellings of its arguments. -/
def TypeName.spelling (n : TypeName) (args : List String) : String :=
  ".".intercalate ((distribute n.segments args).map fun (s, own) => segmentSpelling s own)

/-! ### Types -/

/-- The brackets of an array: one comma less than dimensions. -/
def rankSpecifier (rank : Nat) : String :=
  "[" ++ String.ofList (List.replicate (rank - 1) ',') ++ "]"

namespace TypeDescriptor

mutual

/-- The spelling of a type. -/
def spelling : TypeDescriptor → String
  | primitive p => p.keyword
  | named n =>
    match n.primitive? with
    | some p => p.keyword
    | none => n.spelling []
  | generic definition arguments => definition.spelling (spellings arguments [])
  | array element rank => element.spelling ++ rankSpecifier rank
  | pointer target => target.spelling ++ "*"
  | byRef target kind => kind.keyword ++ " " ++ target.spelling
  | parameter name => name

/-- The spellings of several types, behind those in `done`, which are in reverse order. -/
def spellings : List TypeDescriptor → (done : List String) → List String
  | [], done => done.reverse
  | t :: ts, done => spellings ts (t.spelling :: done)

end

/-- Types are spelled one by one. -/
theorem spellings_eq (ts : List TypeDescriptor) (done : List String) :
    spellings ts done = done.reverse ++ ts.map spelling := by
  induction ts generalizing done with
  | nil => simp [spellings]
  | cons t ts ih => simp [spellings, ih]

end TypeDescriptor

/-! ### Parameters -/

/-- The spelling of a parameter: its type and its name. -/
def Parameter.spelling (p : Parameter) : String :=
  p.type.spelling ++ " " ++ identifier p.name

/-- The spelling of a list of parameters, without parentheses. -/
def parameterList (ps : List Parameter) : String :=
  ", ".intercalate (ps.map Parameter.spelling)

/-- The generic parameters behind the name of a method, nothing if it has none. -/
def genericMarker (names : List String) : String :=
  if names = [] then "" else "<" ++ ", ".intercalate names ++ ">"

end AliasStubs
