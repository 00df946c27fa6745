import MarkupLowering.Lowering.Snippet
import MarkupLowering.Proofs.Emitter.Captures
import MarkupLowering.Proofs.Lowering.Traversal

/-!
# MarkupLowering.Proofs.Lowering.Dispatches

**Dispatch takes back what it puts in place**, however a tree fails.

Lowering walks a tree in preorder (`Node.occurrences`). Wherever it stops, the chain of enclosing
nodes and the open captures are those from before, and what was dispatched is the part of the walk
up to there, each node with the nodes from before around its ancestors in the tree. For the
captures this is a frame of the traversal (`Frame.captures`), and `Visits` says all of it of any
step; `lower_releases` is the main statement.
-/

namespace MarkupLowering

open Emission LowerM

variable {ξ : Type}

/-! ### Captures that are open -/

/-- The numbers of open captures are used up. -/
def Emitter.Numbered (e : Emitter) : Prop := ∀ c ∈ e.openCaptures, c.id < e.nextCapture

theorem Emitter.Numbered.of_same {e e' : Emitter} (h : e.Numbered)
    (hopen : e'.openCaptures = e.openCaptures) (hnext : e.nextCapture ≤ e'.nextCapture) :
    e'.Numbered := by
  intro c hc
  rw [hopen] at hc
  exact Nat.lt_of_lt_of_le (h c hc) hnext

/-- What is asked of an emitter uses numbers up. -/
theorem Emitter.Numbered.perform {r : Request} {s s' : Emission} (h : s.emitter.Numbered)
    (hr : r.perform s = .ok () s') : s'.emitter.Numbered := by
  cases r with
  | beginCapture file position =>
    cases hr
    rcases s.beginCapture_cases file position with ⟨-, -, he⟩ | ⟨-, -, he⟩ <;> rw [he]
    · exact h
    · intro c hc
      rcases List.mem_append.mp hc with hc | hc
      · exact Nat.lt_succ_of_lt (h c hc)
      · obtain rfl := List.mem_singleton.mp hc
        exact Nat.lt_succ_self _
  | endCapture id =>
    cases hr
    intro c hc
    have hsub : c ∈ s.emitter.openCaptures.eraseP (·.id == id) := by
      rw [← Emitter.openCaptures_endCapture]
      exact hc
    have hlt := h c (List.mem_of_mem_eraseP hsub)
    rw [← (s.emitter.endCapture_keeps id).2.2] at hlt
    exact hlt
  | emit | defineLocal | defineLabel | markLabel =>
    have hsame := Request.sameDebug (by simp) (by simp) hr
    exact h.of_same hsame.openCaptures (Nat.le_of_eq hsame.nextCapture.symm)

theorem Run.numbered {M : Module → Prop} {m : Module} {owner : BodyOwner} {e₀ e : Emitter}
    {log : List Request} (h₀ : m.emitter owner = .ok e₀) (h : Run M e₀ log e) : e.Numbered := by
  refine Run.induct (P := fun _ e => e.Numbered) ?_ ?_ h
  · intro c hc
    rw [(Module.untouched_emitter h₀).openCaptures] at hc
    cases hc
  · exact fun ih _ hr => ih.perform hr

/-- A step that leaves the open captures as they were, however it ends. -/
def Releases {α : Type} (step : EmitM α) : Prop :=
  ∀ s : Emission, s.emitter.Numbered →
    (Result.state (step s)).emitter.openCaptures = s.emitter.openCaptures ∧
      s.emitter.nextCapture ≤ (Result.state (step s)).emitter.nextCapture

theorem Releases.bind {α β : Type} {step : EmitM α} {next : α → EmitM β} (h : Releases step)
    (hnext : ∀ a, Releases (next a)) : Releases (step >>= next) := by
  intro s hs
  have hfirst := h s hs
  simp only [Bind.bind, EStateM.bind]
  cases hstep : step s with
  | error err s₁ =>
    rw [hstep] at hfirst
    exact hfirst
  | ok a s₁ =>
    rw [hstep] at hfirst
    have hsecond := hnext a s₁ (hs.of_same hfirst.1 hfirst.2)
    exact ⟨hsecond.1.trans hfirst.1, Nat.le_trans hfirst.2 hsecond.2⟩

theorem releases_emit (op : Opcode) (x : Operand) : Releases (Emission.emit op x) := by
  intro s _
  cases hstep : Emission.emit op x s with
  | ok u s' =>
    have hsame := Request.sameDebug (r := .emit op x) (by simp) (by simp) hstep
    exact ⟨hsame.openCaptures, Nat.le_of_eq hsame.nextCapture.symm⟩
  | error err s' =>
    rw [Result.state_error, atomic_emit op x s err s' hstep]
    exact ⟨rfl, Nat.le_refl _⟩

/-- Leaves of a further kind release their captures. Of the built-in nodes none is such a leaf. -/
def LeavesRelease (ξ : Type) [ExtensionCode ξ] : Prop := ∀ x : ξ, Releases (ExtensionCode.code x)

theorem releases_emitAll (ops : List Opcode) : Releases (emitAll ops) := by
  induction ops with
  | nil => exact fun _ _ => ⟨rfl, Nat.le_refl _⟩
  | cons op ops ih => exact (releases_emit op .none).bind fun _ => ih

theorem leavesRelease_snippet : LeavesRelease Snippet :=
  fun x => (releases_emitAll x.opcodes).bind fun _ _ _ => ⟨rfl, Nat.le_refl _⟩

/-! ### Steps that walk a part of a tree -/

/-- A capture that is ended again leaves the captures that were open. It has a number that no other
open one has. -/
theorem Emission.openCaptures_captured {s s' : Emission} {file : SourceFile} {line : Position}
    (hs : s.emitter.Numbered)
    (h : s'.emitter.openCaptures = (s.beginCapture file line).2.emitter.openCaptures ∧
      (s.beginCapture file line).2.emitter.nextCapture ≤ s'.emitter.nextCapture) :
    (s'.endCapture (s.beginCapture file line).1).emitter.openCaptures = s.emitter.openCaptures ∧
      s.emitter.nextCapture ≤
        (s'.endCapture (s.beginCapture file line).1).emitter.nextCapture := by
  obtain ⟨hcaptures, hnumbers⟩ := h
  rcases s.beginCapture_cases file line with ⟨-, hid, he⟩ | ⟨-, hid, he⟩ <;>
    rw [he] at hcaptures hnumbers <;> rw [hid]
  · exact ⟨hcaptures, hnumbers⟩
  · constructor <;> dsimp only [Emission.endCapture]
    · rw [Emitter.openCaptures_endCapture, hcaptures, List.eraseP_append_right]
      · simp
      · intro c hc
        have hlt := hs c hc
        simp only [beq_iff_eq]
        omega
    · rw [(s'.emitter.endCapture_keeps _).2.2]
      exact Nat.le_of_succ_le hnumbers

/-- The open captures are as before. -/
def Emission.Frame.captures : Emission.Frame where
  Admits s := s.emitter.Numbered
  Keeps s s' := s'.emitter.openCaptures = s.emitter.openCaptures ∧
    s.emitter.nextCapture ≤ s'.emitter.nextCapture
  refl _ := ⟨rfl, Nat.le_refl _⟩
  trans h h' := ⟨h'.1.trans h.1, Nat.le_trans h.2 h'.2⟩
  admits hs h := hs.of_same h.1 h.2
  emit op x s hs := releases_emit op x s hs
  defineLocal type s _ := by
    unfold Emission.defineLocal
    dsimp only
    split <;> exact ⟨rfl, Nat.le_refl _⟩
  beginCapture file line s hs := hs.perform (r := .beginCapture file line) (s := s) rfl
  endCapture _ _ _ _ hs h := Emission.openCaptures_captured hs h

/-- Some nodes were dispatched, and chain and captures are as before. -/
structure LowerState.Passes (walk : List (Occurrence ξ)) (s s' : LowerState ξ) : Prop where
  ancestors : s'.context.ancestors = s.context.ancestors
  captures : s'.emission.emitter.openCaptures = s.emission.emitter.openCaptures
  numbers : s.emission.emitter.nextCapture ≤ s'.emission.emitter.nextCapture
  trace : s'.context.trace =
    (walk.map (·.dispatched s.context.ancestors)).reverse ++ s.context.trace

theorem LowerState.Passes.of_frame {walk : List (Occurrence ξ)} {s s' : LowerState ξ}
    (h : Frame.captures.Passes walk s s') : s.Passes walk s' :=
  ⟨h.ancestors, h.emission.1, h.emission.2, h.trace⟩

/-- The step dispatches the nodes of a walk, or fails on the way. -/
def Visits {α : Type} (walk : List (Occurrence ξ)) (step : LowerM ξ α) : Prop :=
  ∀ s : LowerState ξ, s.emission.emitter.Numbered →
    match step s with
    | .ok _ s' => s.Passes walk s'
    | .error _ s' => ∃ seen, seen <+: walk ∧ s.Passes seen s'

/-- Lowering a tree walks through it. -/
theorem visits_lower [ExtensionCode ξ] (env : Environment) (hleaf : LeavesRelease ξ) (n : Node ξ)
    (expected : Option TypeRef) : Visits n.occurrences (n.lower env expected) := by
  intro s hs
  have hvisits := Frame.visits_lower (F := .captures) env hleaf n expected s hs
  cases hstep : n.lower env expected s with
  | ok effect s' =>
    rw [hstep] at hvisits
    exact .of_frame hvisits
  | error err s' =>
    rw [hstep] at hvisits
    obtain ⟨seen, hseen, hpasses⟩ := hvisits
    exact ⟨seen, hseen, .of_frame hpasses⟩

/-! ### The main statement -/

/-- Whether lowering a tree succeeds or fails, and wherever it fails, the enclosing nodes and the
open captures are as they were. The nodes dispatched are those of the tree in preorder, up to the
failure; each had around it the nodes from before and its own ancestors in the tree. -/
theorem lower_releases [ExtensionCode ξ] (hleaf : LeavesRelease ξ) {m : Module}
    {owner : BodyOwner} {e₀ : Emitter} {log : List Request} (hnew : m.emitter owner = .ok e₀)
    {s : LowerState ξ} (hrun : Run (fun _ => True) e₀ log s.emission.emitter) (env : Environment)
    (n : Node ξ) (expected : Option TypeRef) :
    (Result.state (n.lower env expected s)).context.ancestors = s.context.ancestors ∧
    (Result.state (n.lower env expected s)).emission.emitter.openCaptures =
      s.emission.emitter.openCaptures ∧
    ∃ seen, seen <+: n.occurrences ∧
      (∀ effect s', n.lower env expected s = .ok effect s' → seen = n.occurrences) ∧
      (Result.state (n.lower env expected s)).context.trace =
        (seen.map (·.dispatched s.context.ancestors)).reverse ++ s.context.trace := by
  have hvisits := visits_lower env hleaf n expected s (hrun.numbered hnew)
  cases hstep : n.lower env expected s with
  | ok effect s' =>
    rw [hstep] at hvisits
    refine ⟨hvisits.ancestors, hvisits.captures, n.occurrences, List.prefix_rfl, ?_, hvisits.trace⟩
    exact fun _ _ _ => rfl
  | error err s' =>
    rw [hstep] at hvisits
    obtain ⟨seen, hseen, hpasses⟩ := hvisits
    refine ⟨hpasses.ancestors, hpasses.captures, seen, hseen, ?_, hpasses.trace⟩
    intro effect s' h
    cases h

/-- A statement that emits an instruction and then fails, within two blocks. -/
def failingBlock : Node Snippet :=
  .imperative <| .block
    [.block [.extension { (default : Snippet) with opcodes := [.nop, .br], line := ⟨3, 1⟩ }] ⟨2, 1⟩]
    ⟨1, 1⟩

/-- The emission after a capture was begun, and an instruction. -/
def openEmission : Emission :=
  Result.state ((do
    Request.perform (.beginCapture ⟨"page", .empty⟩ ⟨1, 1⟩)
    Request.perform (.emit .nop .none)) ⟨oneMethod, onlyEmitter⟩)

/-- A state in a file, with a node around what is lowered and an open capture. -/
def openState : LowerState Snippet :=
  ⟨openEmission, { file := some ⟨"page", .empty⟩, ancestors := [.imperative (.block [] ⟨1, 1⟩)] }⟩

theorem lower_releases_failingBlock :
    ∃ err s', failingBlock.lower ⟨.empty, { core := default }⟩ none openState = .error err s' ∧
      s'.context.trace.map (·.parents.length) = [3, 2, 1] ∧
      s'.context.ancestors = openState.context.ancestors ∧
      s'.emission.emitter.openCaptures = openState.emission.emitter.openCaptures := by
  have hrun : Run (fun _ => True) onlyEmitter
      [.beginCapture ⟨"page", .empty⟩ ⟨1, 1⟩, .emit .nop .none] openState.emission.emitter :=
    .granted (m := openEmission.module) (.granted (m := oneMethod) .start trivial rfl) trivial rfl
  have hfails : ∃ err s',
      failingBlock.lower ⟨.empty, { core := default }⟩ none openState = .error err s' ∧
      s'.context.trace.map (·.parents.length) = [3, 2, 1] := ⟨_, _, rfl, rfl⟩
  obtain ⟨err, s', hfails, htrace⟩ := hfails
  have hreleases := lower_releases leavesRelease_snippet emitter_oneMethod hrun
    ⟨.empty, { core := default }⟩ failingBlock none
  rw [hfails] at hreleases
  exact ⟨err, s', hfails, htrace, hreleases.1, hreleases.2.1⟩

end MarkupLowering
