import Mathlib.Logic.Relation
import TreeCheck.Proofs.Preservation

/-!
# The moments of a run

Checking a tree comes to its parts one after the other, some of them in blocks that are gone when
the run ends. A moment says where checking is, what there is then and what is checked next. One
moment leads to another if checking the first comes to the second, whether or not the run succeeds
later. What a step from one to the next keeps holds at every moment of a run.
-/

namespace TreeCheck

/-- What is checked next: a tree, or the statements of a body that are left. -/
inductive Work where
  | tree (node : Node NodeId)
  | rest (ss : List (Stmt NodeId))

/-- Check what is next. -/
def Work.check (env : Env) : Work → CheckM Unit
  | tree node => node.check env
  | rest ss => Stmt.checkAll env ss

/-- Where checking is, what there is then and what is checked next. -/
structure Moment where
  env : Env
  state : State
  work : Work

/-- The same table with a block of its own. -/
def State.opened (s : State) (block : Block) : State := { s with block }

namespace Moment

/-- What there is when the work of a moment ends, with success or not. -/
def left (p : Moment) : State :=
  match p.work.check p.env p.state with
  | .ok _ s => s
  | .error _ s => s

/-- What a moment leaves when its work succeeds. -/
theorem left_of_ok {p : Moment} {u : Unit} {s : State}
    (h : p.work.check p.env p.state = .ok u s) : p.left = s := by
  rw [left, h]

/-- What a moment leaves when its work fails. -/
theorem left_of_error {p : Moment} {f : Failure} {s : State}
    (h : p.work.check p.env p.state = .error f s) : p.left = s := by
  rw [left, h]

/-- Checking at the first moment comes to the second. -/
inductive Enters : Moment → Moment → Prop
  /-- The first statement of a body. -/
  | head {env : Env} {st : State} {s : Stmt NodeId} {ss : List (Stmt NodeId)} :
    Enters ⟨env, st, .rest (s :: ss)⟩ ⟨env, st, .tree (.stmt s)⟩
  /-- The statements after one that has been checked. -/
  | tail {env : Env} {st st₁ : State} {s : Stmt NodeId} {ss : List (Stmt NodeId)}
    (hs : s.check env st = .ok () st₁) :
    Enters ⟨env, st, .rest (s :: ss)⟩ ⟨env, st₁, .rest ss⟩
  | thenBody {env : Env} {st st₁ : State} {tag : NodeId} {condition : Expr NodeId}
    {thenBody elseBody : List (Stmt NodeId)} (hne : thenBody ≠ [])
    (hc : env.requireBoolean .ifElse condition st = .ok () st₁) :
    Enters ⟨env, st, .tree (.stmt (.ifElse tag condition thenBody elseBody))⟩
      ⟨env.inside st₁.block, st₁.opened .empty, .rest thenBody⟩
  | elseBody {env : Env} {st st₁ st₂ : State} {tag : NodeId} {condition : Expr NodeId}
    {thenBody elseBody : List (Stmt NodeId)} (hne : thenBody ≠ [])
    (hc : env.requireBoolean .ifElse condition st = .ok () st₁)
    (ht : env.nested (fun inner ↦ Stmt.checkAll inner thenBody) st₁ = .ok () st₂) :
    Enters ⟨env, st, .tree (.stmt (.ifElse tag condition thenBody elseBody))⟩
      ⟨env.inside st₂.block, st₂.opened .empty, .rest elseBody⟩
  /-- The initialization of a for loop, in the block around the loop. -/
  | first {env : Env} {st : State} {tag : NodeId} {first : Stmt NodeId} {condition : Expr NodeId}
    {increment : Option (Stmt NodeId)} {body : List (Stmt NodeId)} (hne : body ≠ []) :
    Enters ⟨env, st, .tree (.stmt (.forLoop tag (some first) condition increment body))⟩
      ⟨env, st, .tree (.stmt first)⟩
  /-- The increment of a for loop, in the block around the loop. -/
  | step {env : Env} {st st₁ st₂ : State} {tag : NodeId} {initialization : Option (Stmt NodeId)}
    {condition : Expr NodeId} {step : Stmt NodeId} {body : List (Stmt NodeId)}
    {control : Option Ty} (hne : body ≠ [])
    (hi : Stmt.checkFirst env initialization st = .ok control st₁)
    (hc : env.requireBoolean .forLoop condition st₁ = .ok () st₂) :
    Enters ⟨env, st, .tree (.stmt (.forLoop tag initialization condition (some step) body))⟩
      ⟨env, st₂, .tree (.stmt step)⟩
  | forBody {env : Env} {st st₁ st₂ st₃ : State} {tag : NodeId}
    {initialization increment : Option (Stmt NodeId)} {condition : Expr NodeId}
    {body : List (Stmt NodeId)} {control : Option Ty} (hne : body ≠ [])
    (hi : Stmt.checkFirst env initialization st = .ok control st₁)
    (hc : env.requireBoolean .forLoop condition st₁ = .ok () st₂)
    (hs : Stmt.checkStep env control increment st₂ = .ok () st₃) :
    Enters ⟨env, st, .tree (.stmt (.forLoop tag initialization condition increment body))⟩
      ⟨env.inside st₃.block, st₃.opened .empty, .rest body⟩
  | whileBody {env : Env} {st st₁ : State} {tag : NodeId} {condition : Expr NodeId}
    {body : List (Stmt NodeId)} (hc : env.requireBoolean .whileLoop condition st = .ok () st₁) :
    Enters ⟨env, st, .tree (.stmt (.whileLoop tag condition body))⟩
      ⟨env.inside st₁.block, st₁.opened .empty, .rest body⟩
  /-- The body of a method, in the block of its parameters. -/
  | methodBody {env : Env} {st st₁ st₂ : State} {m : Method NodeId} {f : Function}
    {parameters : Block} (hf : m.signature env.catalog = .ok f)
    (hd : define (fun b ↦ b.defineFunction f) st = .ok () st₁)
    (hb : bindNode (.method m) (.function f) st₁ = .ok () st₂)
    (hp : Block.empty.defineParameters m.tag 0 (m.parameters.zip f.parameters) = .ok parameters) :
    Enters ⟨env, st, .tree (.method m)⟩
      ⟨env.inMethod st₂.block f, st₂.opened parameters, .rest m.body⟩
  /-- A field of a source, after the fields before it. -/
  | field {env : Env} {st st₁ : State} {source : Source NodeId} {before after : List (Field NodeId)}
    {d : Field NodeId} (hd : source.fields = before ++ d :: after)
    (hb : before.forM (Field.check env) st = .ok () st₁) :
    Enters ⟨env, st, .tree (.source source)⟩ ⟨env, st₁, .tree (.field d)⟩
  /-- A method of a source, after all fields and the methods before it. -/
  | method {env : Env} {st st₁ st₂ : State} {source : Source NodeId}
    {before after : List (Method NodeId)} {m : Method NodeId}
    (hd : source.fields.forM (Field.check env) st = .ok () st₁)
    (hm : source.methods = before ++ m :: after)
    (hb : before.forM (Method.check env) st₁ = .ok () st₂) :
    Enters ⟨env, st, .tree (.source source)⟩ ⟨env, st₂, .tree (.method m)⟩

/-- Checking at the first moment comes to the second after any number of steps. -/
def Reaches : Moment → Moment → Prop := Relation.ReflTransGen Enters

/-- The blocks that are visible at a moment. -/
def visible (p : Moment) : Chain := p.state.block :: p.env.outer

/-- What there is at a moment only mentions types of the catalog. -/
structure Known (c : Catalog) (p : Moment) : Prop where
  catalog : p.env.catalog = c
  env : p.env.Known
  state : p.state.Known c

end Moment

private theorem Work.check_keeps {env : Env} (h : env.Known) (work : Work) :
    CheckM.KeepsKnown env.catalog (fun _ ↦ True) (work.check env) := by
  cases work with
  | tree node => exact node.check_keeps h
  | rest ss => exact Stmt.checkAll_keeps h ss

namespace Moment.Known

variable {c : Catalog} {p q : Moment}

/-- All that is visible at a moment has known types. -/
theorem visible (h : p.Known c) : ∀ b ∈ p.visible, b.Known c := by
  have hvisible := h.env.visible (h.catalog ▸ h.state.block)
  rwa [h.catalog] at hvisible

/-- What the work of a moment leaves is known. -/
theorem left (h : p.Known c) : p.left.Known c := by
  obtain ⟨rfl, henv, hstate⟩ := h
  have hkeeps := p.work.check_keeps henv
  cases hr : p.work.check p.env p.state with
  | ok u s =>
    rw [left_of_ok hr]
    exact (hkeeps.ok hstate hr).1
  | error f s =>
    rw [left_of_error hr]
    exact (hkeeps.error hstate hr).1

/-- A step from one moment to the next keeps a closed world. -/
theorem enters (h : p.Known c) (hq : p.Enters q) : q.Known c := by
  obtain ⟨rfl, henv, hstate⟩ := h
  cases hq with
  | head => exact ⟨rfl, henv, hstate⟩
  | tail hs => exact ⟨rfl, henv, ((Stmt.check_keeps henv _).ok hstate hs).1⟩
  | thenBody _ hc =>
    have h₁ := ((Env.requireBoolean_keeps henv _ _).ok hstate hc).1
    exact ⟨rfl, henv.inside h₁.block, .empty, h₁.resolutions⟩
  | elseBody _ hc ht =>
    have h₁ := ((Env.requireBoolean_keeps henv _ _).ok hstate hc).1
    have h₂ := ((Stmt.nested_checkAll_keeps henv _).ok h₁ ht).1
    exact ⟨rfl, henv.inside h₂.block, .empty, h₂.resolutions⟩
  | first => exact ⟨rfl, henv, hstate⟩
  | step _ hi hc =>
    have h₁ := ((Stmt.checkFirst_keeps henv _).ok hstate hi).1
    exact ⟨rfl, henv, ((Env.requireBoolean_keeps henv _ _).ok h₁ hc).1⟩
  | forBody _ hi hc hs =>
    obtain ⟨h₁, hcontrol⟩ := (Stmt.checkFirst_keeps henv _).ok hstate hi
    have h₂ := ((Env.requireBoolean_keeps henv _ _).ok h₁ hc).1
    have h₃ := ((Stmt.checkStep_keeps henv hcontrol _).ok h₂ hs).1
    exact ⟨rfl, henv.inside h₃.block, .empty, h₃.resolutions⟩
  | whileBody hc =>
    have h₁ := ((Env.requireBoolean_keeps henv _ _).ok hstate hc).1
    exact ⟨rfl, henv.inside h₁.block, .empty, h₁.resolutions⟩
  | @methodBody env st st₁ st₂ m f parameters hf hd hb hp =>
    have hknown : Respects env.catalog (Function.Known env.catalog) (m.signature env.catalog) :=
      m.signature_respects henv.catalog
    rw [hf] at hknown
    have hdefine := define_keeps fun b hb ↦ Block.defineFunction_respects hb hknown
    have h₁ := (hdefine.ok hstate hd).1
    have h₂ := ((bindNode_keeps hknown.binding).ok h₁ hb).1
    have hparameters : Respects env.catalog (Block.Known env.catalog)
        (Block.empty.defineParameters m.tag 0 (m.parameters.zip f.parameters)) :=
      Block.defineParameters_respects .empty
        fun p hp ↦ hknown.parameters p.2 (List.of_mem_zip hp).2
    rw [hp] at hparameters
    exact ⟨rfl, henv.inMethod h₂.block hknown.returns, hparameters, h₂.resolutions⟩
  | field _ hb =>
    exact ⟨rfl, henv, ((Keeps.forM fun d _ ↦ d.check_keeps henv).ok hstate hb).1⟩
  | method hd _ hb =>
    have h₁ := ((Keeps.forM fun d _ ↦ Field.check_keeps henv d).ok hstate hd).1
    exact ⟨rfl, henv, ((Keeps.forM fun m _ ↦ Method.check_keeps henv m).ok h₁ hb).1⟩

/-- A closed world stays closed at every moment of a run. -/
theorem reaches (h : p.Known c) (hq : p.Reaches q) : q.Known c := by
  induction hq with
  | refl => exact h
  | tail _ hstep ih => exact ih.enters hstep

end Moment.Known

end TreeCheck
