import TreeCheck.Proofs.Readability
import TreeCheck.Proofs.Sharing

/-!
# The table after any calls

Types and bindings are written and asked for in any order, about any nodes. What a call answers can
be read off the calls made before it: the first thing written in a slot of a node stays there, a
later one is refused and changes nothing, and whoever reads the slot gets what was written. A node
is known by its identity, so nodes that look the same have nothing to do with each other.

A reading of a slot in which nothing has been written shows the node. If the node cannot be written
out, then that is what the reading fails with.
-/

namespace TreeCheck

namespace Resolutions

/-! ### Both slots -/

/-- What is found out about a node. -/
inductive Finding where
  | type (t : Ty)
  | binding (b : Binding)
deriving DecidableEq, Repr

/-- The slot in which a finding is written. -/
def Finding.slot : Finding → Slot
  | type _ => .type
  | binding _ => .binding

/-- Write a finding about a node. -/
def set (r : Resolutions) (node : Node NodeId) : Finding → Except Fault Resolutions
  | .type t => r.setType node t
  | .binding b => r.setBinding node b

/-- What has been written in a slot of a node. -/
def finding? (r : Resolutions) (id : NodeId) : Slot → Option Finding
  | .type => (r.type? id).map .type
  | .binding => (r.binding? id).map .binding

/-- The ways to read a slot. -/
inductive Reading where
  | ofType | ofBinding | ofVariable | ofFunction
deriving DecidableEq, Repr

namespace Reading

/-- The slot that is read. -/
def slot : Reading → Slot
  | ofType => .type
  | ofBinding => .binding
  | ofVariable => .binding
  | ofFunction => .binding

/-- Whether a finding is of the sort that is asked for. -/
def accepts : Reading → Finding → Bool
  | ofType, .type _ => true
  | ofBinding, .binding _ => true
  | ofVariable, .binding (.variable _) => true
  | ofFunction, .binding (.function _) => true
  | _, _ => false

/-- The fault of a reading that comes upon a binding of the other sort. -/
def refusal (way : Reading) (kind : Kind) : Fault :=
  if way = ofFunction then .boundToVariable kind else .boundToFunction kind

private theorem slot_of_accepts {way : Reading} {x : Finding} (h : way.accepts x = true) :
    x.slot = way.slot := by
  unfold accepts at h
  split at h
  · rfl
  · rfl
  · rfl
  · rfl
  · cases h

private theorem sort_refusal (way : Reading) (kind : Kind) :
    (way.refusal kind).sort = .otherBinding := by
  unfold refusal
  split <;> rfl

end Reading

/-- Read a slot of a node. -/
def read (r : Resolutions) (node : Node NodeId) : Reading → Except Fault Finding
  | .ofType => .type <$> r.typeOf node
  | .ofBinding => .binding <$> r.bindingOf node
  | .ofVariable => (fun v ↦ .binding (.variable v)) <$> r.variableOf node
  | .ofFunction => (fun f ↦ .binding (.function f)) <$> r.functionOf node

section

variable {r : Resolutions} {node : Node NodeId} {x y : Finding}

private theorem isWritten_eq (r : Resolutions) (id : NodeId) (slot : Slot) :
    r.isWritten id slot = (r.finding? id slot).isSome := by
  cases slot <;> simp [isWritten, finding?]

/-- A slot in which something has been written is not written again. -/
theorem set_of_some (h : r.finding? node.tag x.slot = some y) :
    r.set node x = .error (.resolvedTwice x.slot node.kind) := by
  have hw : r.isWritten node.tag x.slot = true := by
    rw [isWritten_eq, h]
    rfl
  cases x with
  | type t => exact if_pos hw
  | binding b => exact if_pos hw

private theorem lookup_entry {α : Type} (entries : List (NodeId × α)) (a id : NodeId) (value : α) :
    ((a, value) :: entries).lookup id = if a = id then some value else entries.lookup id := by
  by_cases h : a = id
  · rw [if_pos h, h, List.lookup_cons_self]
  · rw [if_neg h, List.lookup_cons, beq_false_of_ne (Ne.symm h)]

/-- An empty slot is written, and no other one. -/
theorem set_of_none (h : r.finding? node.tag x.slot = none) :
    ∃ r', r.set node x = .ok r' ∧ r'.size = r.size + 1 ∧ ∀ id slot, r'.finding? id slot =
      if node.tag = id ∧ x.slot = slot then some x else r.finding? id slot := by
  have hw : ¬ r.isWritten node.tag x.slot = true := by
    rw [isWritten_eq, h]
    exact Bool.false_ne_true
  cases x with
  | type t =>
    refine ⟨_, if_neg hw, Nat.add_right_comm _ 1 _, fun id slot ↦ ?_⟩
    cases slot with
    | type => simp [finding?, type?, lookup_entry, Finding.slot, apply_ite (Option.map _)]
    | binding => simp [finding?, binding?, Finding.slot]
  | binding b =>
    refine ⟨_, if_neg hw, rfl, fun id slot ↦ ?_⟩
    cases slot with
    | type => simp [finding?, type?, Finding.slot]
    | binding => simp [finding?, binding?, lookup_entry, Finding.slot, apply_ite (Option.map _)]

/-- A reading gives what has been written if it is of the right sort. -/
theorem read_eq (r : Resolutions) (node : Node NodeId) (way : Reading) :
    r.read node way =
      match r.finding? node.tag way.slot with
      | none => .error (.unresolved way.slot node.plain)
      | some x => if way.accepts x then .ok x else .error (way.refusal node.kind) := by
  cases way with
  | ofType =>
    simp only [read, typeOf, finding?, Reading.slot]
    cases r.type? node.tag <;> rfl
  | ofBinding =>
    simp only [read, bindingOf, finding?, Reading.slot]
    cases r.binding? node.tag <;> rfl
  | ofVariable =>
    simp only [read, variableOf, bindingOf, finding?, Reading.slot]
    rcases r.binding? node.tag with _ | v | f <;> rfl
  | ofFunction =>
    simp only [read, functionOf, bindingOf, finding?, Reading.slot]
    rcases r.binding? node.tag with _ | v | f <;> rfl

/-- A node that has not been written about is shown if none of its integers is too long. -/
theorem sort_unresolved (slot : Slot) (t : Node Unit) :
    (Fault.unresolved slot t).sort =
      if ∀ part ∈ t.nodes, part.IsShort 4300 then .unresolved else .unwritable := by
  have h : t.isWritable = true ↔ ∀ part ∈ t.nodes, part.IsShort 4300 := t.isWritable_iff
  rw [Fault.sort, Fault.message?, Node.display?]
  by_cases hw : t.isWritable = true
  · rw [if_pos hw, if_pos (h.mp hw)]
    rfl
  · rw [if_neg hw, if_neg (mt h.mpr hw)]
    rfl

end

/-! ### Calls -/

/-- What is asked about a node: to read a slot, or whether something has been written there. -/
inductive Query where
  | read (way : Reading)
  | has (slot : Slot)
deriving DecidableEq, Repr

/-- The slot that is asked about. -/
def Query.slot : Query → Slot
  | read way => way.slot
  | has slot => slot

/-- A call: write a finding about a node, ask about a node, or ask for the size of the table. -/
inductive Call where
  | set (node : Node NodeId) (x : Finding)
  | ask (node : Node NodeId) (q : Query)
  | count
deriving Repr

/-- The answer to a call. -/
inductive Answer where
  | written
  | found (x : Finding)
  | has (b : Bool)
  | count (n : Nat)
  | failed (f : Fault)
deriving Repr

/-- Whether something has been written. -/
def Answer.isWritten : Answer → Bool
  | written => true
  | found _ => false
  | has _ => false
  | count _ => false
  | failed _ => false

/-- A call has failed with a fault of this sort. -/
def Answer.Fails (a : Answer) (sort : FaultSort) : Prop := ∃ f, a = .failed f ∧ f.sort = sort

/-- Answer a question about a node. -/
def answer (r : Resolutions) (node : Node NodeId) : Query → Answer
  | .read way =>
    match r.read node way with
    | .ok x => .found x
    | .error f => .failed f
  | .has slot => .has (r.isWritten node.tag slot)

/-- Answer a call. -/
def perform (r : Resolutions) : Call → Resolutions × Answer
  | .set node x =>
    match r.set node x with
    | .ok r' => (r', .written)
    | .error f => (r, .failed f)
  | .ask node q => (r, r.answer node q)
  | .count => (r, .count r.size)

/-- The table after some calls. -/
def performAll (r : Resolutions) (calls : List Call) : Resolutions :=
  calls.foldl (fun r c ↦ (r.perform c).1) r

/-- The answers to some calls. -/
def answers (r : Resolutions) : List Call → List Answer
  | [] => []
  | c :: rest => (r.perform c).2 :: (r.perform c).1.answers rest

/-- The table after some calls that start with an empty one. -/
def after (calls : List Call) : Resolutions := empty.performAll calls

/-- The finding of a call, if it is to be written in this slot of this node. -/
def Call.finding? (id : NodeId) (slot : Slot) : Call → Option Finding
  | set node x => if node.tag = id ∧ x.slot = slot then some x else none
  | ask _ _ => none
  | count => none

variable {r r' : Resolutions} {node : Node NodeId} {id : NodeId} {slot : Slot} {x y : Finding}

private theorem Call.finding?_eq_some_iff {c : Call} :
    c.finding? id slot = some x ↔ x.slot = slot ∧ ∃ node, node.tag = id ∧ c = .set node x := by
  cases c with
  | ask node q => simp [finding?]
  | count => simp [finding?]
  | set node y =>
    simp only [finding?, Option.ite_none_right_eq_some, Option.some.injEq, set.injEq]
    constructor
    · rintro ⟨⟨hid, hslot⟩, rfl⟩
      exact ⟨hslot, node, hid, rfl, rfl⟩
    · rintro ⟨hslot, _, hid, rfl, rfl⟩
      exact ⟨⟨hid, hslot⟩, rfl⟩

private theorem perform_set_of_some (h : r.finding? node.tag x.slot = some y) :
    r.perform (.set node x) = (r, .failed (.resolvedTwice x.slot node.kind)) := by
  rw [perform, set_of_some h]

private theorem perform_set_written_iff :
    (r.perform (.set node x)).2 = .written ↔ r.finding? node.tag x.slot = none := by
  cases h : r.finding? node.tag x.slot with
  | none =>
    obtain ⟨r', hset, -⟩ := set_of_none h
    simp [perform, hset]
  | some y => simp [perform_set_of_some h]

private theorem perform_set_failed_iff :
    (∃ f, f.sort = .resolvedTwice ∧ r.perform (.set node x) = (r, .failed f)) ↔
      r.finding? node.tag x.slot ≠ none := by
  cases h : r.finding? node.tag x.slot with
  | none =>
    obtain ⟨r', hset, -⟩ := set_of_none h
    simp [perform, hset]
  | some y =>
    rw [perform_set_of_some h]
    exact iff_of_true ⟨_, rfl, rfl⟩ (Option.some_ne_none y)

/-- A call leaves what has been written, and only writes in an empty slot. -/
theorem finding?_perform (r : Resolutions) (c : Call) (id : NodeId) (slot : Slot) :
    (r.perform c).1.finding? id slot = (r.finding? id slot).or (c.finding? id slot) := by
  cases c with
  | ask node q => exact Option.or_none.symm
  | count => exact Option.or_none.symm
  | set node x =>
    cases h : r.finding? node.tag x.slot with
    | none =>
      obtain ⟨r', hset, -, hr'⟩ := set_of_none h
      rw [perform, hset, Call.finding?]
      dsimp only
      rw [hr']
      -- The new entry is looked up in the slot of the call itself, which was empty.
      split
      · next heq => rw [← heq.1, ← heq.2, h, Option.none_or]
      · exact Option.or_none.symm
    | some y =>
      rw [perform_set_of_some h, Call.finding?]
      split
      · next heq => rw [← heq.1, ← heq.2, h, Option.some_or]
      · exact Option.or_none.symm

private theorem isWritten_answer (r : Resolutions) (node : Node NodeId) (q : Query) :
    (r.answer node q).isWritten = false := by
  unfold answer
  split
  · split <;> rfl
  · rfl

private theorem size_perform (r : Resolutions) (c : Call) :
    (r.perform c).1.size = r.size + if (r.perform c).2.isWritten then 1 else 0 := by
  cases c with
  | ask node q => simp [perform, isWritten_answer]
  | count => rfl
  | set node x =>
    cases h : r.finding? node.tag x.slot with
    | none =>
      obtain ⟨r', hset, hsize, -⟩ := set_of_none h
      simp [perform, hset, hsize, Answer.isWritten]
    | some y => simp [perform_set_of_some h, Answer.isWritten]

/-- The first finding stays in its slot. -/
theorem finding?_performAll (r : Resolutions) (calls : List Call) (id : NodeId) (slot : Slot) :
    (r.performAll calls).finding? id slot =
      (r.finding? id slot).or (calls.findSome? (Call.finding? id slot)) := by
  -- From any table, since the rest of the calls starts from the one that the first call leaves.
  induction calls generalizing r with
  | nil => exact Option.or_none.symm
  | cons c rest ih =>
    have h := ih (r.perform c).1
    rw [finding?_perform, Option.or_assoc] at h
    rw [List.findSome?_cons]
    refine h.trans ?_
    cases Call.finding? id slot c <;> rfl

private theorem size_performAll (r : Resolutions) (calls : List Call) :
    (r.performAll calls).size = r.size + (r.answers calls).countP Answer.isWritten := by
  induction calls generalizing r with
  | nil => rfl
  | cons c rest ih =>
    have h := ih (r.perform c).1
    rw [size_perform, Nat.add_assoc, Nat.add_comm (ite _ _ _)] at h
    rw [answers, List.countP_cons]
    exact h

private theorem getElem?_answers (r : Resolutions) (calls : List Call) (i : Nat) :
    (r.answers calls)[i]? =
      calls[i]?.map fun c ↦ ((r.performAll (calls.take i)).perform c).2 := by
  induction calls generalizing r i with
  | nil => rfl
  | cons c rest ih =>
    cases i with
    | zero => rfl
    | succ i => exact ih (r.perform c).1 i

private theorem finding?_after (calls : List Call) (id : NodeId) (slot : Slot) :
    (after calls).finding? id slot = calls.findSome? (Call.finding? id slot) := by
  rw [after, finding?_performAll]
  cases slot <;> rfl

/-- What is answered about a slot of a node depends on what has been written there. -/
theorem answer_congr {q : Query}
    (h : r.finding? node.tag q.slot = r'.finding? node.tag q.slot) :
    r.answer node q = r'.answer node q := by
  cases q with
  | read way =>
    rw [Query.slot] at h
    rw [answer, answer, read_eq, read_eq, h]
  | has slot =>
    rw [Query.slot] at h
    rw [answer, answer, isWritten_eq, isWritten_eq, h]

/-- A reading comes upon an empty slot, or upon a finding that it accepts or refuses. -/
theorem answer_read_cases (r : Resolutions) (node : Node NodeId) (way : Reading) :
    (r.finding? node.tag way.slot = none ∧
      r.answer node (.read way) = .failed (.unresolved way.slot node.plain)) ∨
    (∃ x, r.finding? node.tag way.slot = some x ∧ way.accepts x = true ∧
      r.answer node (.read way) = .found x) ∨
    ∃ x, r.finding? node.tag way.slot = some x ∧ way.accepts x = false ∧
      r.answer node (.read way) = .failed (way.refusal node.kind) := by
  simp only [answer, read_eq]
  cases r.finding? node.tag way.slot with
  | none => exact .inl ⟨rfl, rfl⟩
  | some x =>
    cases h : way.accepts x with
    | true => exact .inr (.inl ⟨x, rfl, h, by simp [h]⟩)
    | false => exact .inr (.inr ⟨x, rfl, h, by simp [h]⟩)

section

variable {way : Reading}

private theorem answer_read_found_iff :
    r.answer node (.read way) = .found x ↔
      way.accepts x = true ∧ r.finding? node.tag way.slot = some x := by
  rcases r.answer_read_cases node way with ⟨h, ha⟩ | ⟨y, h, hy, ha⟩ | ⟨y, h, hy, ha⟩
  · simp [h, ha]
  · simp only [h, ha, Answer.found.injEq, Option.some.injEq]
    constructor
    · rintro rfl
      exact ⟨hy, rfl⟩
    · exact And.right
  · simp only [h, ha, reduceCtorEq, Option.some.injEq, false_iff, not_and]
    rintro hx rfl
    exact Bool.noConfusion (hx.symm.trans hy)

private theorem answer_read_otherBinding_iff :
    (r.answer node (.read way)).Fails .otherBinding ↔
      ∃ x, way.accepts x = false ∧ r.finding? node.tag way.slot = some x := by
  rcases r.answer_read_cases node way with ⟨h, ha⟩ | ⟨y, h, hy, ha⟩ | ⟨y, h, hy, ha⟩
  · have hsort : (Fault.unresolved way.slot node.plain).sort ≠ .otherBinding := by
      rw [sort_unresolved]
      split <;> simp
    simp [h, ha, Answer.Fails, hsort]
  · simp [h, ha, Answer.Fails, hy]
  · simp [h, ha, Answer.Fails, hy, Reading.sort_refusal]

/-- Every other failure of a reading is one of an empty slot. -/
theorem answer_read_fails_iff {sort : FaultSort} (hsort : sort ≠ .otherBinding) :
    (r.answer node (.read way)).Fails sort ↔ r.finding? node.tag way.slot = none ∧
      (Fault.unresolved way.slot node.plain).sort = sort := by
  rcases r.answer_read_cases node way with ⟨h, ha⟩ | ⟨y, h, hy, ha⟩ | ⟨y, h, hy, ha⟩
  · simp [h, ha, Answer.Fails]
  · simp [h, ha, Answer.Fails]
  · simp [h, ha, Answer.Fails, Reading.sort_refusal, hsort.symm]

end

/-! ### What the calls tell -/

namespace History

/-- The call with this number writes a finding about a node: it is to do so, and it succeeds. -/
def Writes (calls : List Call) (i : Nat) (id : NodeId) (x : Finding) : Prop :=
  ∃ node, node.tag = id ∧ calls[i]? = some (.set node x) ∧
    (empty.answers calls)[i]? = some .written

/-- A slot of a node is taken if a call has written a finding there. -/
def Taken (calls : List Call) (id : NodeId) (slot : Slot) : Prop :=
  ∃ x, x.slot = slot ∧ ∃ i, Writes calls i id x

variable {calls : List Call} {i j : Nat}

/-- A call writes a finding if it is the first one that is to write in its slot, so successes can be
told from the calls alone. -/
theorem writes_iff :
    Writes calls i id x ↔ (∃ node, node.tag = id ∧ calls[i]? = some (.set node x)) ∧
      (calls.take i).findSome? (Call.finding? id x.slot) = none := by
  have hanswer {node : Node NodeId} (hi : calls[i]? = some (.set node x)) :
      (empty.answers calls)[i]? = some .written ↔
        (calls.take i).findSome? (Call.finding? node.tag x.slot) = none := by
    rw [getElem?_answers, hi, Option.map_some, Option.some.injEq, perform_set_written_iff,
      ← finding?_after, after]
  constructor
  · rintro ⟨node, rfl, hi, hwritten⟩
    exact ⟨⟨node, rfl, hi⟩, (hanswer hi).mp hwritten⟩
  · rintro ⟨⟨node, rfl, hi⟩, hfirst⟩
    exact ⟨node, rfl, hi, (hanswer hi).mpr hfirst⟩

/-- What is in a slot has been written by a call. -/
theorem finding?_after_iff :
    (after calls).finding? id slot = some x ↔ x.slot = slot ∧ ∃ i, Writes calls i id x := by
  rw [finding?_after, List.findSome?_eq_some_iff]
  constructor
  · rintro ⟨before, c, later, rfl, hc, hfirst⟩
    obtain ⟨rfl, hset⟩ := Call.finding?_eq_some_iff.mp hc
    refine ⟨rfl, before.length, writes_iff.mpr ⟨?_, ?_⟩⟩
    · simpa using hset
    · rw [List.take_left, List.findSome?_eq_none_iff]
      exact hfirst
  · rintro ⟨rfl, i, hi⟩
    obtain ⟨⟨node, hid, hi⟩, hfirst⟩ := writes_iff.mp hi
    obtain ⟨hlt, hget⟩ := List.getElem?_eq_some_iff.mp hi
    refine ⟨calls.take i, .set node x, calls.drop (i + 1), ?_, ?_, ?_⟩
    · rw [← hget, List.getElem_cons_drop, List.take_append_drop]
    · exact Call.finding?_eq_some_iff.mpr ⟨rfl, node, hid, rfl⟩
    · exact List.findSome?_eq_none_iff.mp hfirst

private theorem not_taken_iff : ¬ Taken calls id slot ↔ (after calls).finding? id slot = none := by
  rw [Option.eq_none_iff_forall_ne_some, Taken, not_exists]
  exact forall_congr' fun x ↦ not_congr finding?_after_iff.symm

private theorem taken_iff : Taken calls id slot ↔ (after calls).finding? id slot ≠ none := by
  rw [ne_eq, ← not_taken_iff, not_not]

private theorem Writes.not_lt (hi : Writes calls i id x) (hj : Writes calls j id y)
    (h : x.slot = y.slot) : ¬ i < j := by
  intro hlt
  obtain ⟨⟨node, hid, hi⟩, -⟩ := writes_iff.mp hi
  obtain ⟨-, hfirst⟩ := writes_iff.mp hj
  have hmem : .set node x ∈ calls.take j :=
    List.mem_of_getElem? ((List.getElem?_take_of_lt hlt).trans hi)
  have hnone := List.findSome?_eq_none_iff.mp hfirst _ hmem
  rw [Call.finding?_eq_some_iff.mpr ⟨h, node, hid, rfl⟩] at hnone
  cases hnone

/-- Only one call writes in a slot of a node. -/
theorem Writes.unique (hi : Writes calls i id x) (hj : Writes calls j id y)
    (h : x.slot = y.slot) : i = j ∧ x = y := by
  obtain rfl : i = j :=
    Nat.le_antisymm (Nat.not_lt.mp (hj.not_lt hi h.symm)) (Nat.not_lt.mp (hi.not_lt hj h))
  obtain ⟨_, -, hx, -⟩ := hi
  obtain ⟨_, -, hy, -⟩ := hj
  cases hx.symm.trans hy
  exact ⟨rfl, rfl⟩

private theorem findSome?_filter_isSome {α β : Type} (f : α → Option β) (l : List α) :
    (l.filter fun a ↦ (f a).isSome).findSome? f = l.findSome? f := by
  induction l with
  | nil => rfl
  | cons a l ih => cases h : f a <;> simp [h, ih]

/-- The table is a pair of maps that are written once, by the identity of the node. Whatever calls
have been made, a writing succeeds just if the slot of the node is not taken, and otherwise it fails
and changes nothing. A reading gives what the only successful writing there has written; it is
refused just if this is a binding of the other sort. If the slot is not taken then the reading says
so, unless an integer of the node has more than 4300 digits: then it fails because the node cannot
be written out. The size is the number of successful writings. A question about a slot of a node is
answered as if the writings there were the only calls: what is written in the other slot, or about
another node, be it one that looks the same, does not matter. -/
theorem slots_are_written_once (calls : List Call) :
    (∀ node x,
      (((after calls).perform (.set node x)).2 = .written ↔ ¬ Taken calls node.tag x.slot) ∧
      ((∃ f, f.sort = .resolvedTwice ∧
          (after calls).perform (.set node x) = (after calls, .failed f)) ↔
        Taken calls node.tag x.slot)) ∧
    (∀ node way,
      let a := (after calls).answer node (.read way)
      (∀ x, a = .found x ↔ way.accepts x = true ∧ ∃ i, Writes calls i node.tag x) ∧
      (a.Fails .otherBinding ↔
        ∃ x, way.accepts x = false ∧ x.slot = way.slot ∧ ∃ i, Writes calls i node.tag x) ∧
      (a.Fails .unresolved ↔
        ¬ Taken calls node.tag way.slot ∧ ∀ part ∈ node.plain.nodes, part.IsShort 4300) ∧
      (a.Fails .unwritable ↔
        ¬ Taken calls node.tag way.slot ∧ ¬ ∀ part ∈ node.plain.nodes, part.IsShort 4300)) ∧
    (∀ node slot,
      ((after calls).answer node (.has slot) = .has true ↔ Taken calls node.tag slot) ∧
      ((after calls).answer node (.has slot) = .has false ↔ ¬ Taken calls node.tag slot)) ∧
    ((after calls).perform .count).2 =
      .count ((empty.answers calls).countP Answer.isWritten) ∧
    (∀ node q, (after calls).answer node q =
      (after (calls.filter fun c ↦ (c.finding? node.tag q.slot).isSome)).answer node q) ∧
    ∀ i j id x y, Writes calls i id x → Writes calls j id y → x.slot = y.slot → i = j ∧ x = y := by
  refine ⟨fun node x ↦ ⟨?_, ?_⟩, fun node way ↦ ⟨fun x ↦ ?_, ?_, ?_, ?_⟩,
    fun node slot ↦ ⟨?_, ?_⟩, ?_, fun node q ↦ ?_, fun i j id x y hi hj h ↦ hi.unique hj h⟩
  · rw [perform_set_written_iff, not_taken_iff]
  · rw [perform_set_failed_iff, taken_iff]
  · rw [answer_read_found_iff, finding?_after_iff]
    constructor
    · rintro ⟨hx, -, hw⟩
      exact ⟨hx, hw⟩
    · rintro ⟨hx, hw⟩
      exact ⟨hx, Reading.slot_of_accepts hx, hw⟩
  · simp only [answer_read_otherBinding_iff, finding?_after_iff]
  · rw [answer_read_fails_iff (by decide), sort_unresolved, not_taken_iff]
    simp
  · rw [answer_read_fails_iff (by decide), sort_unresolved, not_taken_iff]
    simp
  · rw [taken_iff, answer, isWritten_eq, Answer.has.injEq, Option.isSome_iff_ne_none]
  · rw [not_taken_iff, answer, isWritten_eq, Answer.has.injEq, Option.isSome_eq_false_iff,
      Option.isNone_iff_eq_none]
  · rw [perform, after, size_performAll]
    exact congrArg Answer.count (Nat.zero_add _)
  · apply answer_congr
    rw [finding?_after, finding?_after, findSome?_filter_isSome]

/-- The literal zero. -/
def zeroNode (id : NodeId) : Node NodeId := .expr (.literal id (.integer 0))

/-- The type of a zero is written twice, and its binding is asked for. -/
def zeroCalls : List Call :=
  [.set (zeroNode 0) (.type .integer), .ask (zeroNode 0) (.read .ofVariable),
    .set (zeroNode 0) (.type .decimal)]

/-- The first type stays. Another zero, which looks the same, is not affected. -/
theorem zeroCalls_written_once :
    (zeroNode 0).plain = (zeroNode 1).plain ∧
      (after zeroCalls).answer (zeroNode 0) (.read .ofType) = .found (.type .integer) ∧
      ((after zeroCalls).answer (zeroNode 1) (.read .ofType)).Fails .unresolved ∧
      ((after zeroCalls).perform (.set (zeroNode 1) (.type .decimal))).2 = .written ∧
      ((after zeroCalls).perform .count).2 = .count 1 := by
  have hfree : ¬ Taken zeroCalls 1 .type := not_taken_iff.mpr (by decide)
  obtain ⟨hset, hread, -, hcount, -⟩ := slots_are_written_once zeroCalls
  refine ⟨rfl, ?_, ?_, (hset _ _).1.mpr hfree, hcount⟩
  · exact ((hread _ _).1 _).mpr ⟨rfl, 0, zeroNode 0, rfl, rfl, rfl⟩
  · exact (hread _ _).2.2.1.mpr ⟨hfree, by decide⟩

/-- An integer literal of 4301 digits. -/
def longNode : Node NodeId := .expr (.literal 0 (.integer (.ofNat (Nat.pow 10 4300))))

/-- Nothing has been written about a node, and a reading does not say so: it fails because the node
cannot be written out. -/
theorem longNode_not_shown :
    ¬ Taken [] longNode.tag .type ∧
      ¬ ((after []).answer longNode (.read .ofType)).Fails .unresolved ∧
      ((after []).answer longNode (.read .ofType)).Fails .unwritable := by
  have hlong : ¬ Text.isWritable (.ofNat (Nat.pow 10 4300)) = true := by
    unfold Text.isWritable Text.maxDigits
    generalize 4300 = n
    rw [decide_eq_true_iff]
    exact Nat.lt_irrefl (Nat.pow 10 n)
  have hshort : ¬ ∀ part ∈ longNode.plain.nodes, part.IsShort 4300 :=
    mt longNode.plain.isWritable_iff.mpr hlong
  have hfree : ¬ Taken [] longNode.tag .type := not_taken_iff.mpr rfl
  have hfails := @answer_read_fails_iff (after []) longNode .ofType
  simp only [sort_unresolved, if_neg hshort] at hfails
  refine ⟨hfree, fun h ↦ ?_, ?_⟩
  · cases ((hfails (by decide)).mp h).2
  · exact (hfails (by decide)).mpr ⟨not_taken_iff.mp hfree, rfl⟩

end History

end Resolutions

end TreeCheck
