import TreeCheck.Analysis.Statement
import TreeCheck.Symbol.Store
import TreeCheck.Tree.Outline

/-!
# Running an analysis

An analysis checks one tree in a new scope, which defines the function `print` and whatever the
tree defines at its top. The other scopes and the catalog stay as they are.

Source: `SPEC_FULL.md`, sections 4.2 (the top-level scope) and 4.6 (context and results).
-/

namespace TreeCheck

/-- The function that every program can call. Source: `SPEC_FULL.md:103–105`. -/
def printFunction (scope : ScopeId) : Function := ⟨"print", "print", [.any], .nil, .scope scope⟩

/-- What an analysis leaves: all scopes, the one it made, and the table or why it ended early. -/
structure Analysis where
  symbols : Symbols
  scope : ScopeId
  result : Except Failure Resolutions

namespace Symbols

/-- Give the nodes of a tree identities that no other node has. -/
def label {α : Type} (s : Symbols) (tree : Node α) : Symbols × Node NodeId :=
  ({ s with nextNode := s.nextNode + tree.size }, tree.label s.nextNode)

/-- Make the scope of an analysis. -/
def openScope (s : Symbols) (parent : Option ScopeId) : Symbols × ScopeId :=
  let (s, scope) := s.createScope parent
  ({ s with scopes := s.scopes.setBlock scope ⟨[], [printFunction scope]⟩ }, scope)

/-- Check a tree in a scope made for it. -/
def checkIn (s : Symbols) (scope : ScopeId) (tree : Node NodeId) : Analysis :=
  let env : Env := ⟨s.scopes, s.catalog, (s.scopes.chain scope).tail, none⟩
  match tree.check env ⟨s.scopes.block scope, .empty⟩ with
  | .ok _ state =>
    ⟨{ s with scopes := s.scopes.setBlock scope state.block }, scope, .ok state.resolutions⟩
  | .error failure state =>
    ⟨{ s with scopes := s.scopes.setBlock scope state.block }, scope, .error failure⟩

/-- Analyse a tree inside a scope, or inside none. Source: `SPEC_FULL.md:166–173`. -/
def analyze (s : Symbols) (parent : Option ScopeId) (tree : Node NodeId) : Analysis :=
  let (s, scope) := s.openScope parent
  s.checkIn scope tree

end Symbols

/-- An analyzer makes its scope at once and then checks a single tree. Source:
`SPEC_FULL.md:168–170`. -/
structure Analyzer where
  scope : ScopeId
  spent : Bool

/-- The wording of the refusal to check a second tree. -/
def Analyzer.spentMessage : Text := "an Analyzer can only run once; create a new one"

namespace Symbols

/-- Make an analyzer. -/
def newAnalyzer (s : Symbols) (parent : Option ScopeId) : Symbols × Analyzer :=
  let (s, scope) := s.openScope parent
  (s, ⟨scope, false⟩)

/-- Let an analyzer check a tree, unless it has checked one. -/
def run (s : Symbols) (a : Analyzer) (tree : Node NodeId) : Option (Analysis × Analyzer) :=
  if a.spent then none else some (s.checkIn a.scope tree, { a with spent := true })

end Symbols

/-- What the table says about a node. -/
def Resolutions.notes (r : Resolutions) (id : NodeId) : Notes :=
  ⟨(r.type? id).map Ty.name, (r.binding? id).map Binding.describe⟩

end TreeCheck
