/-!
Grammars, and the parsers that accept them by their interface version.
-/

namespace ConcreteSyntax

structure Grammar where
  name : String
  abi : Nat
deriving DecidableEq

namespace Grammar

def c : Grammar := ⟨"c", 15⟩

/-- The name as far as the grammar carries it: versions before 15 have no place for one. -/
def shownName (grammar : Grammar) : Option String :=
  if 15 ≤ grammar.abi then some grammar.name else none

end Grammar

inductive GrammarError where
  | incompatible (abi : Nat)
deriving DecidableEq

namespace GrammarError

def message : GrammarError → String
  | incompatible abi =>
      "incompatible grammar: Incompatible language version " ++ toString abi ++
        ". Expected minimum 13, maximum 15"

end GrammarError

structure Parser where
  grammar : Grammar
deriving DecidableEq

namespace Parser

def ofGrammar (grammar : Grammar) : Except GrammarError Parser :=
  if 13 ≤ grammar.abi ∧ grammar.abi ≤ 15 then .ok ⟨grammar⟩
  else .error (.incompatible grammar.abi)

end Parser

end ConcreteSyntax
