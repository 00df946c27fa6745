import MarkupLowering.Proofs.Emitter.Code
import MarkupLowering.Proofs.Lowering.Semantics
import MarkupLowering.Proofs.Lowering.Slots

/-!
# MarkupLowering.Proofs.Lowering.Simulation

**Lowering preserves meaning**: the instructions that a tree is lowered to do on the stack machine
what the tree means.

`Simulates` is the relation between a piece of code and what it does with the values on top of the
stack. It speaks of the values that the code may see; what lies below is arbitrary and comes last,
so the code can neither read nor change it. Pieces in sequence compose (`Simulates.bind`), and one
case per node assembles the pieces of its code.

The slots of a context tell what the tree's locals are (`Context.scene`), so no separate relation
between machine and scene is carried along; that the slots are apart (`Fits`) is what makes a
store to a local a store to that local only.
-/

namespace MarkupLowering

open Emission LowerM Eval

/-! ### The relation -/

/-- What a tree sees of a machine. -/
def Context.scene (c : Context Empty) (slots : UInt16 → Value) (w : World) : Scene where
  locals id := (c.slots.lookup id).map fun s => slots s.index
  context := c.contextLocal.map fun s => slots s.index
  world := w

/-- The instructions appended between two states turn the `n` values on top of the stack into `m`
values as `act` does, for every content of the slots and whatever lies below. -/
def Does (void : TypeRef) (s s' : LowerState Empty) (n m : Nat)
    (act : List Value → Eval (List Value)) : Prop :=
  ∃ rs, Request.script rs s.emission = .ok () s'.emission ∧
    ∀ top slots w, top.length = n →
      ∃ out slots' w', out.length = m ∧
        act top (s.context.scene slots w) = some (out, s'.context.scene slots' w') ∧
        ∀ rest, Machine.run void (emitted rs) ⟨top ++ rest, slots, w⟩ =
          some ⟨out ++ rest, slots', w'⟩

namespace Does

variable {void : TypeRef} {s s₁ s₂ : LowerState Empty} {n m k : Nat}
variable {act act' : List Value → Eval (List Value)}

theorem trans (h : Does void s s₁ n m act) (h' : Does void s₁ s₂ m k act') :
    Does void s s₂ n k (fun top => act top >>= act') := by
  obtain ⟨rs, hrs, hrun⟩ := h
  obtain ⟨rs', hrs', hrun'⟩ := h'
  refine ⟨rs ++ rs', Request.script_append hrs hrs', fun top slots w hn => ?_⟩
  obtain ⟨mid, slots₁, w₁, hm, hact, hmid⟩ := hrun top slots w hn
  obtain ⟨out, slots', w', hk, hact', hout⟩ := hrun' mid slots₁ w₁ hm
  refine ⟨out, slots', w', hk, ?_, fun rest => ?_⟩
  · change (act top _ >>= fun p => act' p.1 p.2) = _
    rw [hact]
    exact hact'
  · rw [emitted_append, Machine.run_append, hmid rest]
    exact hout rest

theorem congr (h : Does void s s₁ n m act) (heq : ∀ top, top.length = n → act top = act' top) :
    Does void s s₁ n m act' := by
  obtain ⟨rs, hrs, hrun⟩ := h
  refine ⟨rs, hrs, fun top slots w hn => ?_⟩
  rw [← heq top hn]
  exact hrun top slots w hn

/-- Requests that append nothing do nothing. -/
theorem quiet (rs : List Request) (hrs : Request.script rs s.emission = .ok () s₁.emission)
    (hnone : emitted rs = []) (hslots : s₁.context.slots = s.context.slots)
    (hlocal : s₁.context.contextLocal = s.context.contextLocal) : Does void s s₁ n n pure := by
  refine ⟨rs, hrs, fun top slots w hn => ⟨top, slots, w, hn, ?_, fun rest => ?_⟩⟩
  · rw [Context.scene, Context.scene, hslots, hlocal]
    rfl
  · rw [hnone]
    rfl

/-- Doing nothing before and after. -/
theorem between {s' : LowerState Empty} (h : Does void s₁ s₂ n m act)
    (hbefore : Does void s s₁ n n pure) (hafter : Does void s₂ s' m m pure) :
    Does void s s' n m act := by
  refine (hbefore.trans (h.trans hafter)).congr fun top _ => ?_
  rw [pure_bind, bind_pure]

/-- One instruction, after requests that append none. -/
theorem step {rs : List Request} {op : Opcode} {x : Operand}
    (hrs : Request.script rs s.emission = .ok () s₁.emission) (hone : emitted rs = [(op, x)])
    (h : ∀ top slots w, top.length = n →
      ∃ out slots' w', out.length = m ∧
        act top (s.context.scene slots w) = some (out, s₁.context.scene slots' w') ∧
        ∀ rest, Machine.step void (op, x) ⟨top ++ rest, slots, w⟩ =
          some ⟨out ++ rest, slots', w'⟩) : Does void s s₁ n m act := by
  refine ⟨rs, hrs, fun top slots w hn => ?_⟩
  obtain ⟨out, slots', w', hm, hact, hstep⟩ := h top slots w hn
  refine ⟨out, slots', w', hm, hact, fun rest => ?_⟩
  rw [hone, Machine.run, hstep rest]
  rfl

end Does

variable {α β : Type}

/-- When the code succeeds, what it appends does as `act` does. -/
def Simulates (void : TypeRef) (code : LowerM Empty α) (n m : Nat)
    (act : List Value → Eval (List Value)) : Prop :=
  ∀ s a s', s.Fits → code s = .ok a s' → s'.Fits ∧ Does void s s' n m act

theorem LowerM.emitting_inv {step : EmitM α} {s s' : LowerState Empty} {a : α}
    (h : emitting step s = .ok a s') :
    ∃ emission, step s.emission = .ok a emission ∧ s' = { s with emission } := by
  unfold LowerM.emitting at h
  split at h
  · rename_i emission hstep
    cases h
    exact ⟨emission, hstep, rfl⟩
  · cases h

theorem LowerM.andThen_inv {step : LowerM Empty α} {f : LowerState Empty → LowerState Empty}
    {s s' : LowerState Empty} {a : α} (h : andThen step f s = .ok a s') :
    ∃ s₁, step s = .ok a s₁ ∧ s' = f s₁ := by
  unfold LowerM.andThen at h
  split at h
  · rename_i s₁ hstep
    cases h
    exact ⟨s₁, hstep, rfl⟩
  · cases h

theorem Emission.script_endCapture (s : Emission) (id : Option Nat) :
    ∃ rs, Request.script rs s = .ok () (s.endCapture id) ∧ emitted rs = [] := by
  cases id with
  | none => exact ⟨[], rfl, rfl⟩
  | some id => exact ⟨[.endCapture id], rfl, rfl⟩

namespace Simulates

variable {void : TypeRef} {n m k : Nat} {act act' : List Value → Eval (List Value)}

theorem pure (a : α) : Simulates void (Pure.pure a) n n Pure.pure := by
  intro s b s' hfits h
  obtain ⟨-, rfl⟩ := pure_inv h
  exact ⟨hfits, .quiet [] rfl rfl rfl rfl⟩

theorem bind {code : LowerM Empty α} {next : α → LowerM Empty β}
    (h : Simulates void code n m act) (hnext : ∀ a, Simulates void (next a) m k act') :
    Simulates void (code >>= next) n k (fun top => act top >>= act') := by
  intro s b s' hfits hcode
  obtain ⟨a, s₁, hcode, hnextCode⟩ := bind_inv hcode
  obtain ⟨hfits₁, hdoes⟩ := h s a s₁ hfits hcode
  obtain ⟨hfits', hdoes'⟩ := hnext a s₁ b s' hfits₁ hnextCode
  exact ⟨hfits', hdoes.trans hdoes'⟩

theorem congr {code : LowerM Empty α} (h : Simulates void code n m act)
    (heq : ∀ top, top.length = n → act top = act' top) : Simulates void code n m act' := by
  intro s a s' hfits hcode
  obtain ⟨hfits', hdoes⟩ := h s a s' hfits hcode
  exact ⟨hfits', hdoes.congr heq⟩

/-- Code that only fails simulates anything. -/
theorem breach (node : Node Empty) (b : Breach) :
    Simulates void (breach node b : LowerM Empty α) n m act := by
  intro s a s' _ h
  cases h

/-- Code followed by what does nothing. -/
theorem andIdle {code : LowerM Empty α} {next : α → LowerM Empty β}
    (h : Simulates void code n m act) (hnext : ∀ a, Simulates void (next a) m m Pure.pure) :
    Simulates void (code >>= next) n m act :=
  congr (bind h hnext) fun top _ => bind_pure (act top)

/-! ### Dispatch -/

/-- Debug captures append nothing. -/
theorem captured (line : Position) {code : LowerM Empty α} (h : Simulates void code n m act) :
    Simulates void (captured line code) n m act := by
  intro s a s' hfits hcode
  unfold LowerM.captured at hcode
  split at hcode
  · exact h s a s' hfits hcode
  · split at hcode
    · exact h s a s' hfits hcode
    · rename_i file _ _
      obtain ⟨s₁, hstep, rfl⟩ := andThen_inv hcode
      have hbegin := Emitter.sameCode_beginCapture s.emission.emitter
        (s.emission.module.document file).1 line
      have hin : LowerState.Fits { s with emission := (s.emission.beginCapture file line).2 } :=
        hfits.same rfl rfl hbegin.locals
      obtain ⟨hfits₁, hdoes⟩ := h _ a s₁ hin hstep
      obtain ⟨rs, hrs, hnone⟩ := Emission.script_endCapture s₁.emission
        (s.emission.beginCapture file line).1
      refine ⟨hfits₁.same rfl rfl (Emission.endCapture_locals _ _), hdoes.between ?_ ?_⟩
      · exact .quiet [.beginCapture file line] rfl rfl rfl rfl
      · exact .quiet rs hrs hnone rfl rfl

/-- Dispatch appends nothing of its own. -/
theorem dispatch {node : Node Empty} {code : LowerM Empty α} (h : Simulates void code n m act) :
    Simulates void (dispatch node code) n m act := by
  intro s a s' hfits hcode
  obtain ⟨s₁, hstep, rfl⟩ := andThen_inv hcode
  have hin : LowerState.Fits { s with context := s.context.enter node } := hfits.same rfl rfl rfl
  obtain ⟨hfits₁, hdoes⟩ := captured node.line h _ a s₁ hin hstep
  refine ⟨hfits₁.same rfl rfl rfl, hdoes.between ?_ ?_⟩
  · exact .quiet [] rfl rfl rfl rfl
  · exact .quiet [] rfl rfl rfl rfl

end Simulates

/-! ### Acting on the stack -/

namespace Eval

/-- Pushes a value. -/
def push (v : Eval Value) (top : List Value) : Eval (List Value) := do
  let v ← v
  pure (v :: top)

/-- Takes `n` values, the deepest first, and pushes what `f` makes of them. -/
def takes (n : Nat) (f : List Value → Eval (List Value)) (top : List Value) :
    Eval (List Value) := do
  let out ← f (top.take n).reverse
  pure (out ++ top.drop n)

/-- Takes one value and pushes what `f` makes of it. -/
def onTop (f : Value → Eval (List Value)) : List Value → Eval (List Value)
  | v :: top => do
    let out ← f v
    pure (out ++ top)
  | [] => failure

/-- Leaves the stack alone. -/
def aside (e : Eval Unit) (top : List Value) : Eval (List Value) := do
  e
  pure top

theorem push_eq {v : Eval Value} {x : Value} {σ σ' : Scene} (h : v σ = some (x, σ'))
    (top : List Value) : push v top σ = some (x :: top, σ') := by
  change (v σ >>= fun p => some (p.1 :: top, p.2)) = _
  rw [h]
  rfl

@[simp] theorem onTop_cons (f : Value → Eval (List Value)) (v : Value) (top : List Value) :
    onTop f (v :: top) = (f v >>= fun out => pure (out ++ top)) := rfl

end Eval

/-- The method takes `n` values from the stack and returns none. -/
structure MethodRef.Procedure (void : TypeRef) (r : MethodRef) (n : Nat) : Prop where
  arity : r.arity = n
  returns : (r.returns == void) = true

namespace Simulates

variable {void : TypeRef}

/-! ### Single instructions -/

/-- An instruction that does not concern slots. -/
theorem emit {op : Opcode} {x : Operand} {n m : Nat} {act : List Value → Eval (List Value)}
    (h : ∀ top slots w, top.length = n →
      ∃ out w', out.length = m ∧
        (∀ locals context, act top ⟨locals, context, w⟩ = some (out, ⟨locals, context, w'⟩)) ∧
        ∀ rest, Machine.step void (op, x) ⟨top ++ rest, slots, w⟩ = some ⟨out ++ rest, slots, w'⟩) :
    Simulates void (emitting (Emission.emit op x)) n m act := by
  intro s a s' hfits hcode
  have hkeeps := (KeepsSlots.emit op x).ok hfits hcode
  obtain ⟨emission, hemit, rfl⟩ := emitting_inv hcode
  refine ⟨hkeeps, .step (Request.script_single (r := .emit op x) hemit) rfl ?_⟩
  intro top slots w hn
  obtain ⟨out, w', hm, hact, hstep⟩ := h top slots w hn
  exact ⟨out, slots, w', hm, hact _ _, hstep⟩

theorem ldstr (text : String) (k : Nat) :
    Simulates void (emitting (Emission.ldstr text)) k (k + 1) (push (Pure.pure (.text text))) := by
  refine emit fun top slots w hk => ⟨.text text :: top, w, ?_, fun _ _ => rfl, fun _ => rfl⟩
  rw [List.length_cons, hk]

theorem dup (k : Nat) :
    Simulates void (emitting Emission.dup) (k + 1) (k + 2) (onTop fun v => Pure.pure [v, v]) := by
  refine emit fun top slots w hk => ?_
  obtain ⟨v, top, rfl⟩ := List.exists_cons_of_length_eq_add_one hk
  exact ⟨v :: v :: top, w, by simpa using hk, fun _ _ => rfl, fun _ => rfl⟩

theorem pop (k : Nat) :
    Simulates void (emitting Emission.pop) (k + 1) k (onTop fun _ => Pure.pure []) := by
  refine emit fun top slots w hk => ?_
  obtain ⟨v, top, rfl⟩ := List.exists_cons_of_length_eq_add_one hk
  exact ⟨top, w, by simpa using hk, fun _ _ => rfl, fun _ => rfl⟩

theorem box (t : TypeRef) (k : Nat) :
    Simulates void (emitting (Emission.box t)) (k + 1) (k + 1) Pure.pure := by
  refine emit fun top slots w hk => ?_
  obtain ⟨v, top, rfl⟩ := List.exists_cons_of_length_eq_add_one hk
  exact ⟨v :: top, w, hk, fun _ _ => rfl, fun _ => rfl⟩

theorem convert (target : TypeRef) (k : Nat) :
    Simulates void (convert target) (k + 1) (k + 1) (onTop fun v => do
      record (.converted v target)
      Pure.pure [v]) := by
  unfold MarkupLowering.convert
  split <;>
  · refine emit fun top slots w hk => ?_
    obtain ⟨v, top, rfl⟩ := List.exists_cons_of_length_eq_add_one hk
    exact ⟨v :: top, w.record (.converted v target), hk, fun _ _ => rfl, fun _ => rfl⟩

theorem newobj (c : ConstructorRef) (k : Nat) :
    Simulates void (emitting (Emission.newobj c)) (c.params.length + k) (k + 1)
      (takes c.params.length fun vs => do
        let object ← create c vs
        Pure.pure [object]) := by
  refine emit fun top slots w hk => ?_
  have hle : c.params.length ≤ top.length := by omega
  generalize hvs : (top.take c.params.length).reverse = vs
  refine ⟨(w.create c vs).1 :: top.drop c.params.length, (w.create c vs).2, by simp [hk],
    fun _ _ => by rw [takes, hvs]; rfl, fun rest => ?_⟩
  rw [Machine.step_newobj, Machine.invoke_append hle, hvs]
  rfl

/-- A call of a procedure. -/
theorem call {r : MethodRef} {n : Nat} (hr : r.Procedure void n) (k : Nat) :
    Simulates void (emitting (Emission.call r)) (n + k) k
      (takes n fun vs => do
        record (.called r vs)
        Pure.pure []) := by
  refine emit fun top slots w hk => ?_
  refine ⟨top.drop n, w.record (.called r (top.take n).reverse), by simp [hk], fun _ _ => rfl,
    fun rest => ?_⟩
  rw [Machine.step_call, hr.arity, Machine.invoke_append (by omega), World.call, if_pos hr.returns]
  rfl

end Simulates

/-! ### Locals -/

/-- Storing to the slot of a local changes that local and nothing else, since slots are apart. -/
theorem LowerState.Fits.scene_store {s : LowerState Empty} {c : Context Empty} (h : s.Fits)
    {l : CompilerLocal} {slot : Slot} (hslot : s.context.slots.lookup l.id = some slot)
    (hother : ∀ id, id ≠ l.id → s.context.slots.lookup id = c.slots.lookup id)
    (hcontext : s.context.contextLocal = c.contextLocal) (slots : UInt16 → Value) (w : World)
    (v : Value) :
    s.context.scene (fun i => if i = slot.index then v else slots i) w =
      { c.scene slots w with
        locals := fun id => if id = l.id then some v else (c.scene slots w).locals id } := by
  unfold Context.scene
  congr 1
  · funext id
    dsimp only
    by_cases hid : id = l.id
    · rw [if_pos hid, hid, hslot, Option.map_some, if_pos rfl]
    · -- another local has another slot, so the store does not reach it
      rw [if_neg hid, ← hother id hid]
      cases hfound : s.context.slots.lookup id with
      | none => rfl
      | some found =>
        have hne : found.index ≠ slot.index :=
          fun heq => hid (h.apart id l.id found slot hfound hslot heq)
        rw [Option.map_some, Option.map_some, if_neg hne]
  · dsimp only
    rw [← hcontext]
    cases hlocal : s.context.contextLocal with
    | none => rfl
    | some found =>
      have hne : found.index ≠ slot.index :=
        fun heq => h.contextApart found l.id slot hlocal hslot heq.symm
      rw [Option.map_some, Option.map_some, if_neg hne]

/-- The slot of a compiler local is known, or it is defined. -/
theorem LowerM.slotFor_inv {l : CompilerLocal} {s s' : LowerState Empty} {slot : Slot}
    (h : slotFor l s = .ok slot s') :
    s'.context.slots.lookup l.id = some slot ∧
    (∀ id, id ≠ l.id → s'.context.slots.lookup id = s.context.slots.lookup id) ∧
    s'.context.contextLocal = s.context.contextLocal ∧
    ∃ rs, Request.script rs s.emission = .ok () s'.emission ∧ emitted rs = [] := by
  unfold slotFor at h
  rw [get_bind] at h
  cases hl : s.context.slot? l with
  | some found =>
    rw [hl] at h
    obtain ⟨rfl, rfl⟩ := pure_inv h
    exact ⟨hl, fun _ _ => rfl, rfl, [], rfl, rfl⟩
  | none =>
    rw [hl] at h
    obtain ⟨slot', s₁, hdefine, h⟩ := bind_inv h
    obtain ⟨emission, hlocal, rfl⟩ := emitting_inv hdefine
    rw [modify_bind] at h
    obtain ⟨rfl, rfl⟩ := pure_inv h
    refine ⟨List.lookup_cons_self, fun id hid => ?_, rfl, [.defineLocal l.type], ?_, rfl⟩
    · rw [List.lookup_cons, beq_eq_false_iff_ne.mpr hid]
    · refine Request.script_single (r := .defineLocal l.type) ?_
      simp only [Request.perform, Bind.bind, EStateM.bind, hlocal]
      rfl

namespace Simulates

variable {void : TypeRef}

theorem storeLocal (l : CompilerLocal) (k : Nat) :
    Simulates void (storeLocal l) (k + 1) k (onTop fun v => do
      store l v
      Pure.pure []) := by
  intro s a s' hfits hcode
  have hkeeps := (KeepsSlots.storeLocal l).ok hfits hcode
  obtain ⟨slot, s₁, hslot, hstore⟩ := bind_inv hcode
  obtain ⟨hfound, hother, hcontext, rs, hrs, hnone⟩ := slotFor_inv hslot
  obtain ⟨emission, hemit, rfl⟩ := emitting_inv hstore
  have hscript := Request.script_append hrs
    (Request.script_single (r := .emit .stloc (.slot slot)) hemit)
  refine ⟨hkeeps, .step hscript (by rw [emitted_append, hnone]; rfl) ?_⟩
  intro top slots w hk
  obtain ⟨v, top, rfl⟩ := List.exists_cons_of_length_eq_add_one hk
  refine ⟨top, fun i => if i = slot.index then v else slots i, w, by simpa using hk, ?_,
    fun rest => rfl⟩
  have hscene := hkeeps.scene_store hfound hother hcontext slots w v
  exact congrArg (fun σ => some (top, σ)) hscene.symm

theorem loadLocal (l : CompilerLocal) (line : Position) (k : Nat) :
    Simulates void (loadLocal l line) k (k + 1) (push (load l)) := by
  intro s a s' hfits hcode
  have hkeeps := (KeepsSlots.loadLocal l line).ok hfits hcode
  unfold LowerM.loadLocal at hcode
  rw [get_bind] at hcode
  cases hl : s.context.slot? l with
  | none =>
    rw [hl] at hcode
    cases hcode
  | some slot =>
    rw [hl] at hcode
    obtain ⟨emission, hemit, rfl⟩ := emitting_inv hcode
    refine ⟨hkeeps, .step (Request.script_single (r := .emit .ldloc (.slot slot)) hemit) rfl ?_⟩
    intro top slots w hk
    refine ⟨slots slot.index :: top, slots, w, by simpa using hk, ?_, fun rest => rfl⟩
    have hvalue : (s.context.scene slots w).locals l.id = some (slots slot.index) :=
      congrArg (Option.map fun found : Slot => slots found.index) hl
    exact push_eq (by rw [load, hvalue]; rfl) top

theorem loadContext (line : Position) (k : Nat) :
    Simulates void (loadContext line) k (k + 1) (push context) := by
  intro s a s' hfits hcode
  have hkeeps := (KeepsSlots.loadContext line).ok hfits hcode
  unfold MarkupLowering.loadContext at hcode
  rw [get_bind] at hcode
  cases hl : s.context.contextLocal with
  | none =>
    rw [hl] at hcode
    cases hcode
  | some slot =>
    rw [hl] at hcode
    obtain ⟨emission, hemit, rfl⟩ := emitting_inv hcode
    refine ⟨hkeeps, .step (Request.script_single (r := .emit .ldloc (.slot slot)) hemit) rfl ?_⟩
    intro top slots w hk
    refine ⟨slots slot.index :: top, slots, w, by simpa using hk, ?_, fun rest => rfl⟩
    have hvalue : (s.context.scene slots w).context = some (slots slot.index) :=
      congrArg (Option.map fun found : Slot => slots found.index) hl
    exact push_eq (by rw [context, hvalue]; rfl) top

theorem verifyParents (name : String) (line : Position) (k : Nat) :
    Simulates void (verifyParents name line) k k Pure.pure := by
  intro s a s' hfits hcode
  have hkeeps := (KeepsSlots.verifyParents name line).ok hfits hcode
  unfold LowerM.verifyParents at hcode
  rw [get_bind] at hcode
  dsimp only at hcode
  split at hcode
  · obtain ⟨-, rfl⟩ := pure_inv hcode
    exact ⟨hkeeps, .quiet [] rfl rfl rfl rfl⟩
  · split at hcode
    · cases hcode
    · cases hcode
      exact ⟨hkeeps, .quiet [] rfl rfl rfl rfl⟩

/-! ### Contracts -/

/-- Whatever a value node reports, the check does at most box the value. -/
theorem checkValue (h : Hierarchy) (node : Node Empty) (expected : TypeRef) (effect : StackEffect)
    (k : Nat) : Simulates void (checkValue h node expected effect) (k + 1) (k + 1) Pure.pure := by
  unfold LowerM.checkValue
  split
  · exact breach node _
  · split
    · exact breach node _
    · split
      · exact breach node _
      · split
        · exact (box _ k).andIdle fun _ => pure _
        · exact pure _

theorem checkImperative (node : Node Empty) (effect : StackEffect) (k : Nat) :
    Simulates void (checkImperative node effect) k k Pure.pure := by
  unfold LowerM.checkImperative
  split
  · exact breach node _
  · split
    · exact breach node _
    · exact pure _

theorem checkManipulation (node : Node Empty) (effect : StackEffect) (k : Nat) :
    Simulates void (checkManipulation node effect) k k Pure.pure := by
  unfold LowerM.checkManipulation
  split
  · exact breach node _
  · split
    · exact breach node _
    · exact pure _

variable {env : Environment} {k : Nat} {act : List Value → Eval (List Value)}

theorem deliver {node : ValueNode Empty} {expected : TypeRef} {code : LowerM Empty StackEffect}
    (h : Simulates void code k (k + 1) act) :
    Simulates void (deliver env node expected code) k (k + 1) act :=
  (dispatch h).andIdle fun effect => checkValue _ _ _ effect k

theorem execute {node : ImperativeNode Empty} {code : LowerM Empty StackEffect}
    (h : Simulates void code k k act) : Simulates void (execute node code) k k act :=
  (dispatch h).andIdle fun effect => checkImperative _ effect k

theorem manipulate {node : ManipulationNode Empty} {code : LowerM Empty StackEffect}
    (h : Simulates void code (k + 1) k act) : Simulates void (manipulate node code) (k + 1) k act :=
  (dispatch h).andIdle fun effect => checkManipulation _ effect k

end Simulates

/-! ### Trees whose calls are procedures -/

mutual

/-- The setters that a value node calls. -/
def ValueNode.setters : ValueNode Empty → List MethodRef
  | .string .. | .localRef .. | .contextLocal .. => []
  | .localInit _ value _ | .beginInit value | .cast value _ _ | .parentStack value _ =>
    value.setters
  | .newObject _ arguments _ => valuesSetters arguments

/-- The setters that value nodes call. -/
def valuesSetters : List (ValueNode Empty) → List MethodRef
  | [] => []
  | n :: ns => n.setters ++ valuesSetters ns

/-- The setters that a statement calls. -/
def ImperativeNode.setters : ImperativeNode Empty → List MethodRef
  | .valueManipulation value manipulation _ => value.setters ++ manipulation.setters
  | .block children _ => statementsSetters children

/-- The setters that statements call. -/
def statementsSetters : List (ImperativeNode Empty) → List MethodRef
  | [] => []
  | n :: ns => n.setters ++ statementsSetters ns

/-- The setters that a manipulation calls. -/
def ManipulationNode.setters : ManipulationNode Empty → List MethodRef
  | .imperative body _ => body.setters
  | .assign property value _ => property.setter.toList ++ value.setters
  | .group children _ => groupSetters children

/-- The setters that the children of a group call. -/
def groupSetters : List (ManipulationNode Empty) → List MethodRef
  | [] => []
  | n :: ns => n.setters ++ groupSetters ns

end

/-- Setters take an object and a value and return nothing. -/
def Setters (void : TypeRef) (setters : List MethodRef) : Prop :=
  ∀ setter ∈ setters, setter.Procedure void 2

theorem Setters.append {void : TypeRef} {ss ts : List MethodRef} :
    Setters void (ss ++ ts) ↔ Setters void ss ∧ Setters void ts := by
  unfold Setters
  simp only [List.mem_append, or_imp, forall_and]

/-- The hook takes an object and returns nothing. -/
def Environment.HookFits (env : Environment) : Prop :=
  ∀ hook, env.config.hook = some hook → hook.beginInit.Procedure env.config.core.void 1

theorem Environment.beginInitFor_inv {env : Environment} {type : TypeRef} {r : MethodRef}
    (h : env.beginInitFor type = some r) :
    ∃ hook, env.config.hook = some hook ∧ r = hook.beginInit := by
  unfold beginInitFor at h
  split at h
  · cases h
  · rename_i hook hhook
    obtain ⟨-, hr⟩ := Option.ite_none_right_eq_some.mp h
    exact ⟨hook, hhook, (Option.some.inj hr).symm⟩

theorem Simulates.callHook {env : Environment} (h : env.HookFits) (type : TypeRef) (k : Nat) :
    Simulates env.config.core.void (callHook env type) (k + 1) (k + 1) (onTop fun v => do
      beginInit env type v
      Pure.pure [v]) := by
  unfold MarkupLowering.callHook
  cases hr : env.beginInitFor type with
  | none =>
    refine (pure ()).congr fun top hk => ?_
    obtain ⟨v, top, rfl⟩ := List.exists_cons_of_length_eq_add_one hk
    simp [beginInit, hr]
  | some r =>
    obtain ⟨hook, hhook, rfl⟩ := env.beginInitFor_inv hr
    have hcall := call (h hook hhook) (k + 1)
    rw [Nat.add_comm 1 (k + 1)] at hcall
    refine ((dup k).bind fun _ => hcall).congr fun top hk => ?_
    obtain ⟨v, top, rfl⟩ := List.exists_cons_of_length_eq_add_one hk
    simp [beginInit, hr, takes]

/-! ### Nodes -/

section Nodes

variable {env : Environment}

/-- There are as many values as nodes. -/
theorem evalAll_length {values : List (ValueNode Empty)} {vs : List Value} {σ σ' : Scene}
    (h : evalAll env values σ = some (vs, σ')) : vs.length = values.length := by
  induction values generalizing vs σ with
  | nil =>
    unfold evalAll at h
    cases h
    rfl
  | cons n ns ih =>
    unfold evalAll at h
    obtain ⟨⟨v, σ₁⟩, -, h⟩ := Option.bind_eq_some_iff.mp h
    obtain ⟨⟨ws, σ₂⟩, hws, h⟩ := Option.bind_eq_some_iff.mp h
    cases h
    rw [List.length_cons, List.length_cons, ih hws]

/-- What follows the evaluation of some nodes only sees as many values. -/
theorem evalAll_bind_congr {values : List (ValueNode Empty)} {f g : List Value → Eval (List Value)}
    (h : ∀ vs, vs.length = values.length → f vs = g vs) :
    (evalAll env values >>= f) = (evalAll env values >>= g) := by
  funext σ
  change (evalAll env values σ >>= fun p => f p.1 p.2) =
    (evalAll env values σ >>= fun p => g p.1 p.2)
  cases hvs : evalAll env values σ with
  | none => rfl
  | some p => exact congrFun (h p.1 (evalAll_length hvs)) p.2

mutual

/-- The code of a value node pushes its value. -/
theorem simulates_value (hhook : env.HookFits) : ∀ n : ValueNode Empty,
    Setters env.config.core.void n.setters →
    ∀ k, Simulates env.config.core.void (n.code env) k (k + 1) (push (n.eval env))
  | .string type text line, _, k => by
    unfold ValueNode.code ValueNode.eval
    exact .andIdle (.ldstr text k) fun _ => .pure _
  | .localRef l line, _, k => by
    unfold ValueNode.code ValueNode.eval
    exact .andIdle (.loadLocal l line k) fun _ => .pure _
  | .localInit l value line, hs, k => by
    have hvalue := simulates_value hhook value (by rwa [ValueNode.setters] at hs) k
    unfold ValueNode.code ValueNode.eval
    refine .congr (.bind hvalue.deliver fun effect => .bind (.dup k) fun _ =>
      .andIdle (.storeLocal l (k + 1)) fun _ => .pure effect) fun top _ => ?_
    simp [push]
  | .beginInit value, hs, k => by
    have hvalue := simulates_value hhook value (by rwa [ValueNode.setters] at hs) k
    unfold ValueNode.code ValueNode.eval
    refine .congr (.bind hvalue.deliver fun effect =>
      .andIdle (.callHook hhook value.valueType k) fun _ => .pure effect) fun top _ => ?_
    simp [push]
  | .contextLocal type line, _, k => by
    unfold ValueNode.code ValueNode.eval
    exact .andIdle (.loadContext line k) fun _ => .pure _
  | .cast value target line, hs, k => by
    have hvalue := simulates_value hhook value (by rwa [ValueNode.setters] at hs) k
    unfold ValueNode.code ValueNode.eval
    refine .congr (.bind hvalue.deliver fun _ =>
      .andIdle (.convert target k) fun _ => .pure _) fun top _ => ?_
    simp [push]
  | .parentStack value line, hs, k => by
    have hvalue := simulates_value hhook value (by rwa [ValueNode.setters] at hs) k
    unfold ValueNode.code ValueNode.eval
    refine .congr (.bind (.verifyParents _ line k) fun _ => hvalue.deliver) fun top _ => ?_
    simp
  | .newObject c arguments line, hs, k => by
    have hvalues := simulates_arguments hhook arguments c.params (by rwa [ValueNode.setters] at hs)
    unfold ValueNode.code ValueNode.eval
    split
    · rename_i hcount
      -- the constructor takes the values that the arguments pushed, and no others
      have hnew : Simulates env.config.core.void _ _ _ _ := Simulates.newobj c k
      rw [hcount] at hnew
      refine .congr (.bind (hvalues hcount k) fun _ => .andIdle hnew fun _ => .pure _)
        fun top _ => ?_
      simp only [push, bind_assoc, pure_bind]
      refine evalAll_bind_congr fun vs hvs => ?_
      simp [takes, ← hvs]
    · exact .breach _ _

/-- The code of arguments evaluates them in order and leaves their values, the last one on top. -/
theorem simulates_arguments (hhook : env.HookFits) :
    ∀ (values : List (ValueNode Empty)) (params : List TypeRef),
    Setters env.config.core.void (valuesSetters values) → params.length = values.length →
    ∀ k, Simulates env.config.core.void (argumentsCode env values params) k (values.length + k)
      fun top => do
        let vs ← evalAll env values
        pure (vs.reverse ++ top)
  | [], params, _, _, k => by
    unfold argumentsCode evalAll
    rw [List.length_nil, Nat.zero_add]
    refine .congr (.pure ()) fun top _ => ?_
    simp
  | value :: values, [], _, hcount, k => by cases hcount
  | value :: values, param :: params, hs, hcount, k => by
    rw [valuesSetters, Setters.append] at hs
    have hvalue := simulates_value hhook value hs.1 k
    have hvalues := simulates_arguments hhook values params hs.2 (by simpa using hcount) (k + 1)
    have hlength : values.length + (k + 1) = (value :: values).length + k := by
      rw [List.length_cons]
      omega
    rw [hlength] at hvalues
    unfold argumentsCode evalAll
    refine .congr (.bind hvalue.deliver fun _ => hvalues) fun top _ => ?_
    simp [push]

/-- The code of a statement leaves the stack alone. -/
theorem simulates_imperative (hhook : env.HookFits) : ∀ n : ImperativeNode Empty,
    Setters env.config.core.void n.setters →
    ∀ k, Simulates env.config.core.void (n.code env) k k (aside (n.exec env))
  | .valueManipulation value manipulation line, hs, k => by
    rw [ImperativeNode.setters, Setters.append] at hs
    have hvalue := simulates_value hhook value hs.1 k
    have hmanipulation := simulates_manipulation hhook manipulation hs.2 k
    unfold ImperativeNode.code ImperativeNode.exec
    refine .congr (.bind hvalue.deliver fun _ =>
      .andIdle hmanipulation.manipulate fun _ => .pure _) fun top _ => ?_
    simp [push, aside]
  | .block children line, hs, k => by
    have hchildren := simulates_statements hhook children (by rwa [ImperativeNode.setters] at hs) k
    unfold ImperativeNode.code ImperativeNode.exec
    exact .andIdle hchildren fun _ => .pure _

/-- The code of statements executes them in order and leaves the stack alone. -/
theorem simulates_statements (hhook : env.HookFits) : ∀ children : List (ImperativeNode Empty),
    Setters env.config.core.void (statementsSetters children) →
    ∀ k, Simulates env.config.core.void (statementsCode env children) k k
      (aside (execAll env children))
  | [], _, k => by
    unfold statementsCode execAll
    refine .congr (.pure ()) fun top _ => ?_
    simp [aside]
  | child :: children, hs, k => by
    rw [statementsSetters, Setters.append] at hs
    have hchild := simulates_imperative hhook child hs.1 k
    have hchildren := simulates_statements hhook children hs.2 k
    unfold statementsCode execAll
    refine .congr (.bind hchild.execute fun _ => hchildren) fun top _ => ?_
    simp [aside]

/-- The code of a manipulation takes the value on the stack. -/
theorem simulates_manipulation (hhook : env.HookFits) : ∀ n : ManipulationNode Empty,
    Setters env.config.core.void n.setters →
    ∀ k, Simulates env.config.core.void (n.code env) (k + 1) k (onTop fun v => do
      n.apply env v
      pure [])
  | .imperative body line, hs, k => by
    have hbody := simulates_imperative hhook body (by rwa [ManipulationNode.setters] at hs) k
    unfold ManipulationNode.code
    refine .congr (.bind (.pop k) fun _ =>
      .andIdle hbody.execute fun _ => .pure _) fun top hk => ?_
    obtain ⟨v, top, rfl⟩ := List.exists_cons_of_length_eq_add_one hk
    simp [aside, ManipulationNode.apply]
  | .assign property value line, hs, k => by
    rw [ManipulationNode.setters, Setters.append] at hs
    have hvalue := simulates_value hhook value hs.2 (k + 1)
    unfold ManipulationNode.code
    split
    · exact .breach _ _
    · rename_i setter hsetter
      -- the object lies below the value, so the call finds both in order
      have hmem : setter ∈ property.setter.toList := by simp [hsetter]
      have hcall := Simulates.call (hs.1 setter hmem) k
      rw [Nat.add_comm 2 k] at hcall
      refine .congr (.bind hvalue.deliver fun _ => .andIdle hcall fun _ => .pure _) fun top hk => ?_
      obtain ⟨v, top, rfl⟩ := List.exists_cons_of_length_eq_add_one hk
      simp [push, takes, ManipulationNode.apply, hsetter]
  | .group children line, hs, k => by
    have hchildren := simulates_group hhook children (by rwa [ManipulationNode.setters] at hs) k
    unfold ManipulationNode.code
    refine .congr (.andIdle hchildren fun _ => .pure _) fun top hk => ?_
    obtain ⟨v, top, rfl⟩ := List.exists_cons_of_length_eq_add_one hk
    simp [ManipulationNode.apply]

/-- The code of a group applies its children to one value. The induction is on the children; each
but the last one works on a copy, so that the value is still there for the next. -/
theorem simulates_group (hhook : env.HookFits) : ∀ children : List (ManipulationNode Empty),
    Setters env.config.core.void (groupSetters children) →
    ∀ k, Simulates env.config.core.void (groupCode env children) (k + 1) k (onTop fun v => do
      applyAll env children v
      pure [])
  | [], _, k => by
    unfold groupCode
    refine .congr (.pop k) fun top hk => ?_
    obtain ⟨v, top, rfl⟩ := List.exists_cons_of_length_eq_add_one hk
    simp [applyAll]
  | [child], hs, k => by
    rw [groupSetters, Setters.append] at hs
    have hchild := simulates_manipulation hhook child hs.1 k
    unfold groupCode
    refine .congr (.andIdle hchild.manipulate fun _ => .pure _) fun top hk => ?_
    obtain ⟨v, top, rfl⟩ := List.exists_cons_of_length_eq_add_one hk
    simp [applyAll]
  | child :: next :: children, hs, k => by
    rw [groupSetters, Setters.append] at hs
    have hchild := simulates_manipulation hhook child hs.1 (k + 1)
    have hchildren := simulates_group hhook (next :: children) hs.2 k
    -- the child takes the copy, and leaves the value itself to the others
    unfold groupCode
    refine .congr (.bind (.dup k) fun _ => .bind hchild.manipulate fun _ => hchildren)
      fun top hk => ?_
    obtain ⟨v, top, rfl⟩ := List.exists_cons_of_length_eq_add_one hk
    simp [applyAll]

end

end Nodes

/-! ### The main statement -/

namespace Node

/-- The values that a node finds on the stack and takes. -/
def takes : Node Empty → Nat
  | .value _ | .imperative _ => 0
  | .manipulation _ => 1

/-- The values that a node leaves on the stack. -/
def leaves : Node Empty → Nat
  | .value _ => 1
  | .imperative _ | .manipulation _ => 0

/-- What a node does with the values that it takes. -/
def meaning (env : Environment) : Node Empty → List Value → Eval (List Value)
  | .value n, _ => do
    let v ← n.eval env
    pure [v]
  | .imperative n, _ => do
    n.exec env
    pure []
  | .manipulation n, [v] => do
    n.apply env v
    pure []
  | .manipulation _, _ => failure

/-- The setters that a node calls. -/
def setters : Node Empty → List MethodRef
  | .value n => n.setters
  | .imperative n => n.setters
  | .manipulation n => n.setters

end Node

theorem simulates_lower {env : Environment} (hhook : env.HookFits) (n : Node Empty)
    (hsetters : Setters env.config.core.void n.setters) (expected : Option TypeRef) :
    Simulates env.config.core.void (n.lower env expected) n.takes n.leaves (n.meaning env) := by
  cases n with
  | value n =>
    refine .congr (simulates_value hhook n hsetters 0).deliver fun top hn => ?_
    obtain rfl := List.eq_nil_of_length_eq_zero hn
    rfl
  | imperative n =>
    refine .congr (simulates_imperative hhook n hsetters 0).execute fun top hn => ?_
    obtain rfl := List.eq_nil_of_length_eq_zero hn
    rfl
  | manipulation n =>
    refine .congr (simulates_manipulation hhook n hsetters 0).manipulate fun top hn => ?_
    obtain ⟨v, rfl⟩ := List.length_eq_one_iff.mp hn
    simp [Node.meaning]

/-- Lowering preserves meaning. Whatever the context was used for before, if a tree is lowered
then all that happened to emitter and module is what some requests ask for, and the instructions
among these, which are the ones appended, do what the tree means: on a stack with the values that
the node takes, and anything below them, they run without getting stuck, replace these values by
the results, leave what is below as it was, and cause the same events in the same order.

The machine takes operands as they were asked for: a call pops what the method that was asked for
takes. Which token stands for it in the body, and whether the row behind the token says the same, is
a matter of importing (`memberRow_describes_iff`). -/
theorem lower_preserves_meaning {env : Environment} {n : Node Empty} {expected : Option TypeRef}
    {s s' : LowerState Empty} {effect : StackEffect} (hhook : env.HookFits)
    (hsetters : Setters env.config.core.void n.setters) (hused : Used s)
    (hlower : n.lower env expected s = .ok effect s') :
    ∃ rs, Request.script rs s.emission = .ok () s'.emission ∧
      s.emission.emitter.Appends (emitted rs) s'.emission.emitter ∧
      ∀ ambient slots w, ambient.length = n.takes →
        ∃ results slots' w', results.length = n.leaves ∧
          n.meaning env ambient (s.context.scene slots w) =
            some (results, s'.context.scene slots' w') ∧
          ∀ rest, Machine.run env.config.core.void (emitted rs) ⟨ambient ++ rest, slots, w⟩ =
            some ⟨results ++ rest, slots', w'⟩ := by
  have hfits := hused.fits
  obtain ⟨-, rs, hrs, hrun⟩ := simulates_lower hhook n hsetters expected s effect s' hfits hlower
  obtain ⟨happends, -⟩ := Request.appends_of_script hfits.limit hrs
  exact ⟨rs, hrs, happends, hrun⟩

/-! ### Assigning a text -/

/-- A setter with one parameter. -/
def textSetter : MethodRef := { (default : MethodRef) with params := [default] }

/-- Assigns a text to a property of the value on the stack. -/
def assignText : Node Empty :=
  .manipulation (.assign { (default : PropertyRef) with setter := some textSetter }
    (.string default "text" default) default)

/-- A configuration without hook. -/
def plainEnvironment : Environment := ⟨.empty, { core := default }⟩

/-- A new context on the emitter of `oneMethod`. -/
def newState : LowerState Empty := ⟨⟨oneMethod, onlyEmitter⟩, {}⟩

theorem used_newState : Used newState :=
  .start emitter_oneMethod .start rfl fun _ h => by cases h

theorem setters_assignText : Setters plainEnvironment.config.core.void assignText.setters := by
  intro setter h
  obtain rfl := List.mem_singleton.mp h
  exact ⟨rfl, rfl⟩

theorem lower_preserves_meaning_assignText :
    ∃ effect s' rs, assignText.lower plainEnvironment none newState = .ok effect s' ∧
      Request.script rs newState.emission = .ok () s'.emission ∧
      ∀ v slots w, ∃ slots', ∀ rest,
        Machine.run plainEnvironment.config.core.void (emitted rs) ⟨v :: rest, slots, w⟩ =
          some ⟨rest, slots', w.record (.called textSetter [v, .text "text"])⟩ := by
  obtain ⟨effect, s', hlower⟩ : ∃ effect s',
      assignText.lower plainEnvironment none newState = .ok effect s' := ⟨_, _, rfl⟩
  obtain ⟨rs, hrs, -, hrun⟩ := lower_preserves_meaning (fun _ h => by cases h) setters_assignText
    used_newState hlower
  refine ⟨effect, s', rs, hlower, hrs, fun v slots w => ?_⟩
  obtain ⟨results, slots', w', -, hmeaning, hrun⟩ := hrun [v] slots w rfl
  have hvalue : assignText.meaning plainEnvironment [v] (newState.context.scene slots w) =
      some ([], newState.context.scene slots
        (w.record (.called textSetter [v, .text "text"]))) := rfl
  obtain ⟨hresults, hscene⟩ := Prod.mk.inj (Option.some.inj (hmeaning.symm.trans hvalue))
  have hworld : w' = w.record (.called textSetter [v, .text "text"]) :=
    congrArg Scene.world hscene
  refine ⟨slots', fun rest => ?_⟩
  rw [hresults, hworld] at hrun
  exact hrun rest

end MarkupLowering
