import MarkupLowering.Lowering.Basic

/-!
# MarkupLowering.Proofs.Lowering.Semantics

What **node trees mean**, and what the instructions that they are lowered to do. Both sides act on
the same `World`, which hands out new objects and keeps the order of events, and both see values
as opaque.

* Trees are evaluated directly (`ValueNode.eval`, `ImperativeNode.exec`, `ManipulationNode.apply`)
  in a `Scene`, which maps compiler locals to their values. There is no stack.
* Instructions run on a stack machine with slots (`Machine.step`, `Machine.run`). Operands are
  taken as they were asked for, before they become tokens, so a call finds the signature of its
  method. Boxing concerns the representation of a value only and does nothing here.
-/

namespace MarkupLowering

/-! ### Values and events -/

/-- A value, of which only the origin is known. -/
inductive Value
  /-- A value from before. -/
  | outside (id : Nat)
  | text (s : String)
  /-- The object, or the result of a call, with this number. -/
  | object (serial : Nat)
  deriving DecidableEq, Inhabited

/-- What can be observed of an execution. -/
inductive Event
  | created (c : ConstructorRef) (arguments : List Value) (object : Value)
  /-- A call; the object that the method was called on is the first argument. -/
  | called (m : MethodRef) (arguments : List Value)
  | converted (v : Value) (target : TypeRef)

/-- The outside of an execution. -/
structure World where
  /-- The number of the next new value. -/
  serial : Nat
  /-- The events so far, in order. -/
  events : List Event

namespace World

def record (w : World) (e : Event) : World := { w with events := w.events ++ [e] }

/-- A value that was not there before. -/
def fresh (w : World) : Value × World := (.object w.serial, { w with serial := w.serial + 1 })

/-- Creates an object. -/
def create (w : World) (c : ConstructorRef) (arguments : List Value) : Value × World :=
  (w.fresh.1, w.fresh.2.record (.created c arguments w.fresh.1))

end World

/-! ### The stack machine -/

/-- The number of values that a call takes from the stack. -/
def MethodRef.arity (m : MethodRef) : Nat := m.params.length + if m.isStatic then 0 else 1

/-- A call, and the values that it leaves on the stack: none if the method returns nothing. -/
def World.call (void : TypeRef) (w : World) (m : MethodRef) (arguments : List Value) :
    List Value × World :=
  let w := w.record (.called m arguments)
  if m.returns == void then ([], w) else ([w.fresh.1], w.fresh.2)

/-- The state of the stack machine. -/
structure Machine where
  /-- The top comes first. -/
  stack : List Value
  slots : UInt16 → Value
  world : World

namespace Machine

/-- Takes `n` values from the stack, the deepest first, and pushes what `f` makes of them. -/
def invoke (μ : Machine) (n : Nat) (f : World → List Value → List Value × World) :
    Option Machine :=
  if n ≤ μ.stack.length then
    let (results, world) := f μ.world (μ.stack.take n).reverse
    some { μ with stack := results ++ μ.stack.drop n, world }
  else none

/-- Executes one instruction. The machine is stuck when the stack has too few values, and at
instructions that lowering does not use. -/
def step (void : TypeRef) (i : Opcode × Operand) (μ : Machine) : Option Machine :=
  match i, μ.stack with
  | (.dup, .none), v :: stack => some { μ with stack := v :: v :: stack }
  | (.pop, .none), _ :: stack => some { μ with stack }
  | (.ldstr, .string text), stack => some { μ with stack := .text text :: stack }
  | (.ldloc, .slot s), stack => some { μ with stack := μ.slots s.index :: stack }
  | (.stloc, .slot s), v :: stack =>
    some { μ with stack, slots := fun i => if i = s.index then v else μ.slots i }
  | (.newobj, .constructor c), _ =>
    μ.invoke c.params.length fun w vs => ([(w.create c vs).1], (w.create c vs).2)
  | (.call, .method m), _ => μ.invoke m.arity fun w vs => w.call void m vs
  | (.callvirt, .method m), _ => μ.invoke m.arity fun w vs => w.call void m vs
  | (.box, .type _), _ :: _ => some μ
  | (.unboxAny, .type t), v :: _ => some { μ with world := μ.world.record (.converted v t) }
  | (.castclass, .type t), v :: _ => some { μ with world := μ.world.record (.converted v t) }
  | _, _ => none

theorem step_newobj (void : TypeRef) (c : ConstructorRef) (μ : Machine) :
    μ.step void (.newobj, .constructor c) =
      μ.invoke c.params.length fun w vs => ([(w.create c vs).1], (w.create c vs).2) := rfl

/-- Calls take the values that the method's signature says, however they are dispatched. -/
theorem step_call (void : TypeRef) (m : MethodRef) (μ : Machine) :
    μ.step void (Emission.callOpcode m, .method m) =
      μ.invoke m.arity fun w vs => w.call void m vs := by
  unfold Emission.callOpcode
  split <;> rfl

/-- Executes instructions in order. -/
def run (void : TypeRef) : List (Opcode × Operand) → Machine → Option Machine
  | [], μ => some μ
  | i :: is, μ => (μ.step void i).bind (run void is)

theorem run_append (void : TypeRef) (is js : List (Opcode × Operand)) (μ : Machine) :
    run void (is ++ js) μ = (run void is μ).bind (run void js) := by
  induction is generalizing μ with
  | nil => rfl
  | cons i is ih =>
    rw [List.cons_append, run, run, Option.bind_assoc]
    exact congrArg _ (funext ih)

/-- Taking values that are on top of others. -/
theorem invoke_append {top : List Value} {n : Nat} (hn : n ≤ top.length) (rest : List Value)
    (slots : UInt16 → Value) (w : World) (f : World → List Value → List Value × World) :
    invoke ⟨top ++ rest, slots, w⟩ n f =
      some ⟨(f w (top.take n).reverse).1 ++ top.drop n ++ rest, slots,
        (f w (top.take n).reverse).2⟩ := by
  have hlength : n ≤ (top ++ rest).length := by
    rw [List.length_append]
    omega
  rw [invoke, if_pos hlength, List.take_append_of_le_length hn, List.drop_append_of_le_length hn,
    List.append_assoc]

end Machine

/-! ### The meaning of trees -/

/-- What a tree can refer to. -/
structure Scene where
  /-- The values of the compiler locals that were stored, by their numbers. -/
  locals : Nat → Option Value
  /-- The context object of the method. -/
  context : Option Value
  world : World

/-- A direct evaluation, which fails where a tree has no meaning. -/
abbrev Eval := StateT Scene Option

namespace Eval

/-- Records an event. -/
def record (e : Event) : Eval Unit := fun σ => some ((), { σ with world := σ.world.record e })

/-- Creates an object. -/
def create (c : ConstructorRef) (arguments : List Value) : Eval Value := fun σ =>
  some ((σ.world.create c arguments).1, { σ with world := (σ.world.create c arguments).2 })

/-- The value of a compiler local. -/
def load (l : CompilerLocal) : Eval Value := fun σ =>
  (σ.locals l.id).map fun v => (v, σ)

/-- Stores a value in a compiler local. -/
def store (l : CompilerLocal) (v : Value) : Eval Unit := fun σ =>
  some ((), { σ with locals := fun id => if id = l.id then some v else σ.locals id })

/-- The context object. -/
def context : Eval Value := fun σ => σ.context.map fun v => (v, σ)

end Eval

open Eval

variable (env : Environment)

/-- Calls the initialization hook on a value, if its type has one. -/
def Eval.beginInit (type : TypeRef) (v : Value) : Eval Unit :=
  match env.beginInitFor type with
  | none => pure ()
  | some hook => record (.called hook [v])

mutual

/-- The value of a value node. -/
def ValueNode.eval : ValueNode Empty → Eval Value
  | .string _ text _ => pure (.text text)
  | .localRef l _ => load l
  | .localInit l value _ => do
    let v ← value.eval
    store l v
    pure v
  | .beginInit value => do
    let v ← value.eval
    beginInit env value.valueType v
    pure v
  | .contextLocal _ _ => context
  | .cast value target _ => do
    let v ← value.eval
    record (.converted v target)
    pure v
  | .parentStack value _ => value.eval
  | .newObject c arguments _ => do
    let vs ← evalAll arguments
    create c vs

/-- The values of some nodes, evaluated in order. -/
def evalAll : List (ValueNode Empty) → Eval (List Value)
  | [] => pure []
  | n :: ns => do
    let v ← n.eval
    let vs ← evalAll ns
    pure (v :: vs)

/-- The effect of a statement. -/
def ImperativeNode.exec : ImperativeNode Empty → Eval Unit
  | .valueManipulation value manipulation _ => do
    let v ← value.eval
    manipulation.apply v
  | .block children _ => execAll children

/-- The effect of statements in order. -/
def execAll : List (ImperativeNode Empty) → Eval Unit
  | [] => pure ()
  | n :: ns => do
    n.exec
    execAll ns

/-- The effect of a manipulation on a value. -/
def ManipulationNode.apply : ManipulationNode Empty → Value → Eval Unit
  | .imperative body _, _ => body.exec
  | .assign property value _, target =>
    match property.setter with
    | none => failure
    | some setter => do
      let v ← value.eval
      record (.called setter [target, v])
  | .group children _, target => applyAll children target

/-- The effect of manipulations of one value, in order. -/
def applyAll : List (ManipulationNode Empty) → Value → Eval Unit
  | [], _ => pure ()
  | n :: ns, target => do
    n.apply target
    applyAll ns target

end

end MarkupLowering
