import Mathlib.Logic.Relation
import TreeCheck.Proofs.Runs

/-!
# Shared operands

If both operands of an operator are one and the same node, then the second visit to it retraces the
first one up to the first thing that is written, and breaks off there. Nothing is written before the
innermost of the parts that come first, so it is this part whose type or binding is found out twice.
No other error of the program can come in between: what the second visit looks up until then, the
first visit has found.
-/

namespace TreeCheck

/-- Whether something has been written about a node. -/
def Resolutions.isWritten (r : Resolutions) (id : NodeId) : Slot → Bool
  | .type => (r.type? id).isSome
  | .binding => (r.binding? id).isSome

/-- A type or a binding that has been written is not written again. -/
theorem recordType_of_written {r : Resolutions} {e : Expr NodeId} (t : Ty)
    (h : r.isWritten e.tag .type = true) :
    recordType e t r = .error (.fault (.resolvedTwice .type e.kind)) r := by
  have hs : r.setType (.expr e) t = .error (.resolvedTwice .type e.kind) := if_pos h
  have ht : trust (r.setType (.expr e) t) r = .error (.fault (.resolvedTwice .type e.kind)) r := by
    rw [hs]
    rfl
  exact (run_bind_of_ok rfl).trans (run_bind_of_error ht)

private theorem recordBinding_of_written {r : Resolutions} {node : Node NodeId} (b : Binding)
    (h : r.isWritten node.tag .binding = true) :
    recordBinding node b r = .error (.fault (.resolvedTwice .binding node.kind)) r := by
  have hs : r.setBinding node b = .error (.resolvedTwice .binding node.kind) := if_pos h
  have ht : trust (r.setBinding node b) r =
      .error (.fault (.resolvedTwice .binding node.kind)) r := by
    rw [hs]
    rfl
  exact (run_bind_of_ok rfl).trans (run_bind_of_error ht)

namespace Expr

variable {α : Type}

/-! ### Where finding a type starts -/

/-- The part of an expression whose type is found first, if it has parts. -/
def firstPart? : Expr α → Option (Expr α)
  | literal _ _ => none
  | group _ inner => some inner
  | binary _ _ left _ => some left
  | access _ receiver _ => receiver
  | call _ receiver _ arguments => arguments.head?.or receiver

/-- Going from an expression to the part that comes first, as long as there is one, one ends at
`leaf`. -/
def StartsAt (e leaf : Expr α) : Prop :=
  Relation.ReflTransGen (fun e part ↦ e.firstPart? = some part) e leaf ∧ leaf.firstPart? = none

/-- What is written first about an expression of a kind without parts. -/
def firstSlot (e : Expr α) : Slot :=
  match e.kind with
  | .literal => .type
  | _ => .binding

private theorem size_firstPart? {e part : Expr α} (h : e.firstPart? = some part) :
    part.size < e.size := by
  cases e with
  | literal tag value => cases h
  | group tag inner =>
    cases h
    simp only [size]
    omega
  | binary tag operator left right =>
    cases h
    simp only [size]
    omega
  | access tag receiver name =>
    cases h
    simp only [size]
    omega
  | call tag receiver name arguments =>
    cases arguments with
    | nil =>
      cases h
      simp only [size]
      omega
    | cons a arguments =>
      cases h
      cases receiver <;> simp only [size, sizeAll] <;> omega

private theorem exists_startsAt (e : Expr α) : ∃ leaf, e.StartsAt leaf := by
  induction hn : e.size using Nat.strongRecOn generalizing e with
  | ind n ih =>
    cases hp : e.firstPart? with
    | none => exact ⟨e, .refl, hp⟩
    | some part =>
      obtain ⟨leaf, hpath, hleaf⟩ := ih part.size (hn ▸ size_firstPart? hp) part rfl
      exact ⟨leaf, .head hp hpath, hleaf⟩

private theorem nodes_firstPart? {e part : Expr α} (h : e.firstPart? = some part) :
    part.nodes ⊆ e.nodes := by
  intro node hnode
  cases e with
  | literal tag value => cases h
  | group tag inner =>
    cases h
    exact List.mem_cons_of_mem _ hnode
  | binary tag operator left right =>
    cases h
    exact List.mem_cons_of_mem _ (List.mem_append_left _ hnode)
  | access tag receiver name =>
    cases h
    exact List.mem_cons_of_mem _ hnode
  | call tag receiver name arguments =>
    cases arguments with
    | nil =>
      cases h
      exact List.mem_cons_of_mem _ (List.mem_append_left _ hnode)
    | cons a arguments =>
      cases h
      have ha : node ∈ nodesAll (part :: arguments) := List.mem_append_left _ hnode
      cases receiver with
      | none => exact List.mem_cons_of_mem _ ha
      | some receiver => exact List.mem_cons_of_mem _ (List.mem_append_right _ ha)

private theorem mem_nodes_self (e : Expr α) : .expr e ∈ e.nodes := by
  cases e with
  | literal | group | binary => exact List.mem_cons_self
  | access tag receiver name => cases receiver <;> exact List.mem_cons_self
  | call tag receiver name arguments => cases receiver <;> exact List.mem_cons_self

private theorem StartsAt.mem_nodes {e leaf : Expr α} (h : e.StartsAt leaf) :
    .expr leaf ∈ e.nodes := by
  obtain ⟨hpath, -⟩ := h
  induction hpath using Relation.ReflTransGen.head_induction_on with
  | refl => exact leaf.mem_nodes_self
  | head hp _ ih => exact nodes_firstPart? hp ih

/-! ### The second visit -/

variable {scopes : Scopes} {chain : Chain} {r r' : Resolutions} {p : Ty × Resolutions}

private theorem elaborate_firstPart? {e part : Expr NodeId} (hp : e.firstPart? = some part)
    (h : e.elaborate scopes chain = .ok p) : ∃ q, part.elaborate scopes chain = .ok q := by
  cases e with
  | literal tag value => cases hp
  | group tag inner =>
    cases hp
    obtain ⟨-, d, hi, -⟩ := elaborate_group_ok_iff.mp h
    exact ⟨_, hi⟩
  | binary tag operator left right =>
    cases hp
    obtain ⟨t₁, d₁, t₂, d₂, hl, -⟩ := elaborate_binary_ok_iff.mp h
    exact ⟨_, hl⟩
  | access tag receiver name =>
    cases hp
    obtain ⟨owner, d, v, hr, -⟩ := elaborate_field_ok_iff.mp h
    exact ⟨_, hr⟩
  | call tag receiver name arguments =>
    cases arguments with
    | nil =>
      cases hp
      obtain ⟨ts, d₁, owner, d₂, f, -, hr, -⟩ := elaborate_method_ok_iff.mp h
      exact ⟨_, hr⟩
    | cons a arguments =>
      cases hp
      have ha : ∃ ts d, elaborateAll scopes chain (part :: arguments) = .ok (ts, d) := by
        cases receiver with
        | none =>
          obtain ⟨ts, d₁, f, ha, -⟩ := elaborate_function_ok_iff.mp h
          exact ⟨ts, d₁, ha⟩
        | some receiver =>
          obtain ⟨ts, d₁, owner, d₂, f, ha, -⟩ := elaborate_method_ok_iff.mp h
          exact ⟨ts, d₁, ha⟩
      obtain ⟨ts, d, ha⟩ := ha
      obtain ⟨t, d₁, ts', d₂, he, -⟩ := elaborateAll_cons_ok_iff.mp ha
      exact ⟨_, he⟩

/-- Where the part that comes first fails, the whole expression does. -/
theorem infer_error_of_firstPart? {e part : Expr NodeId} {f : Failure}
    (hp : e.firstPart? = some part) (h : e.elaborate scopes chain = .ok p)
    (hf : part.infer scopes chain r = .error f r') : e.infer scopes chain r = .error f r' := by
  cases e with
  | literal tag value => cases hp
  | group tag inner =>
    cases hp
    have hk := (elaborate_group_ok_iff.mp h).1
    simp only [infer, Rules.require, if_pos hk]
    exact (run_bind_of_ok rfl).trans (run_bind_of_error hf)
  | binary tag operator left right =>
    cases hp
    simp only [infer]
    exact run_bind_of_error hf
  | access tag receiver name =>
    cases hp
    simp only [infer]
    exact run_bind_of_error hf
  | call tag receiver name arguments =>
    cases arguments with
    | nil =>
      cases hp
      simp only [infer, inferAll]
      exact (run_bind_of_ok rfl).trans (run_bind_of_error hf)
    | cons a arguments =>
      cases hp
      have ha : inferAll scopes chain (part :: arguments) r = .error f r' := by
        simp only [inferAll]
        exact run_bind_of_error hf
      cases receiver with
      | none =>
        simp only [infer]
        exact run_bind_of_error ha
      | some receiver =>
        simp only [infer]
        exact run_bind_of_error ha

/-- An expression without parts about which something has been written passes its rule and then
breaks off at the first thing to write. -/
theorem infer_error_of_written {leaf : Expr NodeId} (hleaf : leaf.firstPart? = none)
    (h : leaf.elaborate scopes chain = .ok p) (hw : r.isWritten leaf.tag leaf.firstSlot = true) :
    leaf.infer scopes chain r = .error (.fault (.resolvedTwice leaf.firstSlot leaf.kind)) r := by
  cases leaf with
  | literal tag value =>
    obtain ⟨ht, -⟩ := elaborate_literal_ok_iff.mp h
    simp only [infer, ht]
    exact @recordType_of_written r (literal tag value) _ hw
  | group tag inner => cases hleaf
  | binary tag operator left right => cases hleaf
  | access tag receiver name =>
    cases hleaf
    obtain ⟨v, hv, -⟩ := elaborate_variable_ok_iff.mp h
    have hb := @recordBinding_of_written r (.expr (access tag none name)) (.variable v) hw
    simp only [infer, Chain.lookupVariable_ok_iff.mpr hv]
    exact (run_bind_of_ok rfl).trans (run_bind_of_error hb)
  | call tag receiver name arguments =>
    cases arguments with
    | cons a arguments => cases hleaf
    | nil =>
      cases hleaf
      obtain ⟨ts, d, f, ha, hf, hargs, -⟩ := elaborate_function_ok_iff.mp h
      obtain ⟨rfl, -⟩ := elaborateAll_nil_ok_iff.mp ha
      have hnone : f.parameters = [] := List.forall₂_nil_right_iff.mp hargs
      have hb := @recordBinding_of_written r (.expr (call tag none name [])) (.function f) hw
      have hr := Rules.requireArguments_ok_iff (u := ()) (congrArg List.length hnone) |>.mpr hargs
      simp only [infer, inferAll, Chain.lookupFunction_ok_iff.mpr hf]
      refine (run_bind_of_ok rfl).trans ((run_bind_of_ok rfl).trans ?_)
      rw [hr]
      exact (run_bind_of_ok rfl).trans (run_bind_of_error hb)

/-- The second visit breaks off at the expression where it starts. -/
theorem infer_error_of_startsAt {e leaf : Expr NodeId} (hs : e.StartsAt leaf)
    (h : e.elaborate scopes chain = .ok p) (hw : r.isWritten leaf.tag leaf.firstSlot = true) :
    e.infer scopes chain r = .error (.fault (.resolvedTwice leaf.firstSlot leaf.kind)) r := by
  obtain ⟨hpath, hleaf⟩ := hs
  induction hpath using Relation.ReflTransGen.head_induction_on generalizing p with
  | refl => exact infer_error_of_written hleaf h hw
  | head hp _ ih =>
    obtain ⟨q, hq⟩ := elaborate_firstPart? hp h
    exact infer_error_of_firstPart? hp h (ih hq)

/-- What has been written about an expression includes what is written first. -/
theorem StartsAt.isWritten {e leaf : Expr NodeId} (hs : e.StartsAt leaf) (h : r.Covers e.nodes) :
    r.isWritten leaf.tag leaf.firstSlot = true := by
  have hm := hs.mem_nodes
  cases leaf with
  | literal tag value => exact h.type?_isSome_iff.mpr ⟨_, hm, rfl, rfl⟩
  | group tag inner => cases hs.2
  | binary tag operator left right => cases hs.2
  | access tag receiver name => exact h.binding?_isSome_iff.mpr ⟨_, hm, rfl, rfl⟩
  | call tag receiver name arguments => exact h.binding?_isSome_iff.mpr ⟨_, hm, rfl, rfl⟩

end Expr

namespace Symbols

/-! ### Both operands of an operator -/

variable {s : Symbols} {parent : Option ScopeId} {e : Expr NodeId}

/-- An operand that breaks a rule does so before its second visit. -/
theorem analyze_shared_of_error (root : NodeId) (operator : Text) {err : ProgramError}
    (hn : (ids e.nodes).Nodup)
    (h : e.elaborate (s.top parent).scopes (s.topChain parent) = .error err) :
    (s.analyze parent (.expr e)).result = .error (.error err) ∧
      s.analyze parent (.expr (.binary root operator e e)) = s.analyze parent (.expr e) := by
  have hfollows := @Expr.infer_follows (s.top parent).scopes (s.topChain parent) e _
    (Resolutions.ready_empty hn)
  rw [h] at hfollows
  obtain ⟨r, hr⟩ := hfollows
  have hshared : (Expr.binary root operator e e).infer (s.top parent).scopes (s.topChain parent)
      .empty = .error (.error err) r := by
    simp only [Expr.infer]
    exact run_bind_of_error hr
  rw [analyze_expr_eq, analyze_expr_eq, hshared, hr]
  exact ⟨rfl, rfl⟩

/-- An operand that passes is found out about twice, at the expression where it starts. -/
theorem analyze_shared_of_ok (root : NodeId) (operator : Text) {leaf : Expr NodeId}
    {p : Ty × Resolutions} (hn : (ids e.nodes).Nodup) (hs : e.StartsAt leaf)
    (h : e.elaborate (s.top parent).scopes (s.topChain parent) = .ok p) :
    (s.analyze parent (.expr e)).result = .ok p.2 ∧
      (s.analyze parent (.expr (.binary root operator e e))).result =
        .error (.fault (.resolvedTwice leaf.firstSlot leaf.kind)) := by
  have hfollows := @Expr.infer_follows (s.top parent).scopes (s.topChain parent) e _
    (Resolutions.ready_empty hn)
  rw [h] at hfollows
  obtain ⟨t, r, hfirst, -, rfl⟩ := hfollows
  rw [Resolutions.append_empty] at hfirst
  have hsecond := Expr.infer_error_of_startsAt hs h (hs.isWritten (Expr.covers_of_elaborate h))
  have hshared : (Expr.binary root operator e e).infer (s.top parent).scopes (s.topChain parent)
      .empty = .error (.fault (.resolvedTwice leaf.firstSlot leaf.kind)) p.2 := by
    simp only [Expr.infer]
    exact (run_bind_of_ok hfirst).trans (run_bind_of_error hsecond)
  rw [analyze_expr_eq, analyze_expr_eq, hshared, hfirst]
  exact ⟨rfl, rfl⟩

/-- An operator whose operands are one and the same node is never accepted. If the node by itself
breaks a rule, then the analysis ends as that of the node does. If it passes by itself, then the
expression where it starts is found out about twice: the type of a literal, or the binding of an
access or of a call. -/
theorem shared_operand_is_detected {α : Type} (s : Symbols) (parent : Option ScopeId)
    (operator : Text) (operand : Expr α) (n root : NodeId) :
    let e := operand.label n
    let alone := s.analyze parent (.expr e)
    let shared := s.analyze parent (.expr (.binary root operator e e))
    (∀ r, shared.result ≠ .ok r) ∧
    ((∃ err, alone.result = .error (.error err) ∧ shared = alone) ∨
      (∃ r, alone.result = .ok r) ∧
        ∃ leaf fault, e.StartsAt leaf ∧ shared.result = .error (.fault fault) ∧
          (leaf.kind = .literal ∧ fault.message? = some "type of Literal resolved twice" ∨
            leaf.kind = .access ∧ fault.message? = some "binding of AccessExpr resolved twice" ∨
            leaf.kind = .call ∧ fault.message? = some "binding of CallExpr resolved twice")) := by
  intro e alone shared
  have hn : (ids e.nodes).Nodup := Node.nodup_ids_label n (.expr operand)
  cases he : e.elaborate (s.top parent).scopes (s.topChain parent) with
  | error err =>
    obtain ⟨halone, hshared⟩ := analyze_shared_of_error root operator hn he
    refine ⟨fun r hr ↦ ?_, .inl ⟨err, halone, hshared⟩⟩
    cases halone.symm.trans ((congrArg Analysis.result hshared).symm.trans hr)
  | ok p =>
    obtain ⟨leaf, hleaf⟩ := e.exists_startsAt
    obtain ⟨halone, hshared⟩ := analyze_shared_of_ok root operator hn hleaf he
    refine ⟨fun r hr ↦ ?_, .inr ⟨⟨p.2, halone⟩, leaf, _, hleaf, hshared, ?_⟩⟩
    · cases hshared.symm.trans hr
    · cases leaf with
      | literal tag value => exact .inl ⟨rfl, rfl⟩
      | group tag inner => cases hleaf.2
      | binary tag operator left right => cases hleaf.2
      | access tag receiver name => exact .inr (.inl ⟨rfl, rfl⟩)
      | call tag receiver name arguments => exact .inr (.inr ⟨rfl, rfl⟩)

end Symbols

end TreeCheck
