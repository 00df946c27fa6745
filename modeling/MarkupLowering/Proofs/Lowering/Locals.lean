import MarkupLowering.Proofs.Lowering.Accesses

/-!
# MarkupLowering.Proofs.Lowering.Locals

**The slots of compiler locals** over the life of a context.

Lowering does the accesses of a tree in order, all of them unless it fails. The log of what was done
so far determines everything that the context knows about compiler locals:

* `Accounts` is the invariant: locals that were stored have a slot of their own, of the type that
  the first store declared, and the body has a store to it.
* `Advances` is what happens on the way from one state to another. It is transitive, so that one
  lemma about a single act (`Act.Done.advances`) gives one about lowering a tree.
* `Emissions` are the histories of a context: trees that were lowered, or failed to be, with
  anything else asked of the emitter in between.
-/

namespace MarkupLowering

open Emission LowerM

/-! ### The invariant -/

/-- A local was stored. -/
def Stored (log : List Access) (l : CompilerLocal) : Prop := ∃ l', .store l' ∈ log ∧ l'.id = l.id

/-- Gives a slot to a local that has none and is stored. -/
def allot (locals : List CompilerLocal) : Access → List CompilerLocal
  | .store l => if locals.any (·.id == l.id) then locals else locals ++ [l]
  | _ => locals

/-- The locals that were stored, in the order of their first stores. -/
def allotted (log : List Access) : List CompilerLocal := log.foldl allot []

theorem allotted_append (log done : List Access) :
    allotted (log ++ done) = done.foldl allot (allotted log) := List.foldl_append

theorem stored_append (log done : List Access) (l : CompilerLocal) :
    Stored (log ++ done) l ↔ Stored log l ∨ Stored done l := by
  simp only [Stored, List.mem_append, or_and_right, exists_or]

/-- Exactly the locals that were stored are allotted. -/
theorem any_allotted (log : List Access) (l : CompilerLocal) :
    (allotted log).any (·.id == l.id) = true ↔ Stored log l := by
  suffices h : ∀ locals : List CompilerLocal, (log.foldl allot locals).any (·.id == l.id) = true ↔
      locals.any (·.id == l.id) = true ∨ Stored log l by
    rw [allotted, h]
    simp
  induction log with
  | nil => simp [Stored]
  | cons a log ih =>
    intro locals
    have hstored := stored_append [a] log l
    rw [List.foldl_cons, ih, ← List.singleton_append, hstored, ← or_assoc]
    refine or_congr_left ?_
    cases a with
    | load | context => simp [Stored, allot]
    | store l' =>
      have hself : Stored [.store l'] l ↔ l'.id = l.id := by simp [Stored]
      rw [hself, allot]
      split
      · rename_i hany
        refine ⟨Or.inl, fun h => h.elim id fun hid => ?_⟩
        rwa [← hid]
      · simp [List.any_append]

/-- The context knows of compiler locals what the accesses so far determine. -/
structure Accounts (log : List Access) (s : LowerState Empty) : Prop where
  /-- The locals with a slot are those that were stored, and the first store gives the type. -/
  slots : ∀ l, (s.context.slot? l).map Slot.type =
    ((allotted log).find? (·.id == l.id)).map CompilerLocal.type
  backed : s.Backed
  apart : ∀ l l' slot slot', s.context.slot? l = some slot → s.context.slot? l' = some slot' →
    slot.index = slot'.index → l.id = l'.id
  written : ∀ l slot, s.context.slot? l = some slot →
    (.stloc, slot.index) ∈ s.emission.emitter.slotUses
  limit : s.emission.emitter.locals.size ≤ maxLocals
  /-- What is loaded was stored before. -/
  ordered : ∀ k l line, log[k]? = some (.load l line) → Stored (log.take k) l

/-- Accesses were done, and nothing else to compiler locals. -/
structure Advances (log done : List Access) (s s' : LowerState Empty) : Prop where
  accounts : Accounts (log ++ done) s'
  stable : ∀ l slot, s.context.slot? l = some slot → s'.context.slot? l = some slot
  contextLocal : s'.context.contextLocal = s.context.contextLocal
  /-- The emitter has a slot more for every local that was stored for the first time. -/
  locals : ∃ new, allotted (log ++ done) = allotted log ++ new ∧
    s'.emission.emitter.locals.toList = s.emission.emitter.locals.toList ++ new.map (·.type)
  /-- Every access appended its instruction. -/
  code : ∃ new, s'.emission.emitter.slotUses = s.emission.emitter.slotUses ++ new ∧
    done.map (·.instruction s'.context) = new.map some
  /-- The body has a store to the slot before every load. -/
  guarded : ∀ k l line, done[k]? = some (.load l line) →
    ∃ slot, s'.context.slot? l = some slot ∧ (.stloc, slot.index) ∈
      s'.emission.emitter.slotUses.take (s.emission.emitter.slotUses.length + k)

theorem Access.instruction_stable {c c' : Context Empty}
    (hslots : ∀ l slot, c.slot? l = some slot → c'.slot? l = some slot)
    (hlocal : c'.contextLocal = c.contextLocal) {a : Access} {use : Opcode × UInt16}
    (h : a.instruction c = some use) : a.instruction c' = some use := by
  cases a with
  | context line =>
    rw [Access.instruction, hlocal]
    exact h
  | load l | store l =>
    obtain ⟨slot, hslot, rfl⟩ := Option.map_eq_some_iff.mp h
    rw [Access.instruction, hslots l slot hslot]
    rfl

/-- Accesses that appended instructions have one each. -/
theorem Access.instruction_of_map {c : Context Empty} {as : List Access}
    {uses : List (Opcode × UInt16)} (h : as.map (·.instruction c) = uses.map some) {a : Access}
    (ha : a ∈ as) : ∃ use, a.instruction c = some use := by
  have hmem : a.instruction c ∈ uses.map some := by
    rw [← h]
    exact List.mem_map_of_mem ha
  obtain ⟨use, -, huse⟩ := List.mem_map.mp hmem
  exact ⟨use, huse.symm⟩

theorem Access.map_instruction_stable {c c' : Context Empty}
    (hslots : ∀ l slot, c.slot? l = some slot → c'.slot? l = some slot)
    (hlocal : c'.contextLocal = c.contextLocal) {as : List Access}
    {uses : List (Opcode × UInt16)} (h : as.map (·.instruction c) = uses.map some) :
    as.map (·.instruction c') = uses.map some := by
  rw [← h, List.map_inj_left]
  intro a ha
  obtain ⟨use, huse⟩ := instruction_of_map h ha
  rw [huse]
  exact instruction_stable hslots hlocal huse

namespace Advances

variable {log done done' : List Access} {s s₁ s₂ : LowerState Empty}

/-- Slots and instructions of the first part are those of the whole, as slots never change hands. A
load in the second part finds its store among the instructions of either. -/
theorem trans (h : Advances log done s s₁) (h' : Advances (log ++ done) done' s₁ s₂) :
    Advances log (done ++ done') s s₂ where
  accounts := by
    rw [← List.append_assoc]
    exact h'.accounts
  stable l slot hl := h'.stable l slot (h.stable l slot hl)
  contextLocal := h'.contextLocal.trans h.contextLocal
  locals := by
    obtain ⟨new, hnew, hlocals⟩ := h.locals
    obtain ⟨new', hnew', hlocals'⟩ := h'.locals
    refine ⟨new ++ new', ?_, ?_⟩
    · rw [← List.append_assoc, hnew', hnew, List.append_assoc]
    · rw [hlocals', hlocals, List.map_append, List.append_assoc]
  code := by
    obtain ⟨new, hnew, hdone⟩ := h.code
    obtain ⟨new', hnew', hdone'⟩ := h'.code
    refine ⟨new ++ new', by rw [hnew', hnew, List.append_assoc], ?_⟩
    rw [List.map_append, List.map_append, hdone',
      Access.map_instruction_stable h'.stable h'.contextLocal hdone]
  guarded k l line hk := by
    obtain ⟨new, hnew, hdone⟩ := h.code
    obtain ⟨new', hnew', -⟩ := h'.code
    have hlength : done.length = new.length := by
      have hlength := congrArg List.length hdone
      simpa using hlength
    rw [List.getElem?_append] at hk
    split at hk
    · rename_i hlt
      obtain ⟨slot, hslot, hmem⟩ := h.guarded k l line hk
      refine ⟨slot, h'.stable l slot hslot, ?_⟩
      rw [hnew', List.take_append_of_le_length]
      · exact hmem
      · rw [hnew, List.length_append]
        omega
    · obtain ⟨slot, hslot, hmem⟩ := h'.guarded _ l line hk
      refine ⟨slot, hslot, ?_⟩
      rw [hnew, List.length_append, ← hlength, Nat.add_assoc,
        Nat.add_sub_cancel' (by omega)] at hmem
      exact hmem

end Advances

/-! ### Single steps -/

theorem getElem?_singleton_inv {α : Type} {a b : α} {k : Nat} (h : [a][k]? = some b) :
    k = 0 ∧ a = b := by
  rw [List.getElem?_singleton] at h
  split at h
  · exact ⟨‹_›, Option.some.inj h⟩
  · cases h

namespace Accounts

variable {log : List Access} {s s' : LowerState Empty}

/-- A local has a slot when it was stored. -/
theorem isSome_slot (h : Accounts log s) (l : CompilerLocal) :
    (s.context.slot? l).isSome = true ↔ Stored log l := by
  have hslots := congrArg Option.isSome (h.slots l)
  rw [Option.isSome_map, Option.isSome_map] at hslots
  rw [hslots, ← any_allotted, List.find?_isSome, List.any_eq_true]

theorem ordered_append (h : Accounts log s) {a : Access}
    (ha : ∀ l line, a = .load l line → Stored log l) (k : Nat) (l : CompilerLocal) (line : Position)
    (hk : (log ++ [a])[k]? = some (.load l line)) : Stored ((log ++ [a]).take k) l := by
  rw [List.getElem?_append] at hk
  split at hk
  · rename_i hlt
    rw [List.take_append_of_le_length (Nat.le_of_lt hlt)]
    exact h.ordered k l line hk
  · rename_i hge
    obtain ⟨hk, rfl⟩ := getElem?_singleton_inv hk
    obtain rfl : k = log.length := by omega
    rw [List.take_left]
    exact ha l line rfl

/-- No local gets a slot. -/
theorem keep {log' : List Access} (h : Accounts log s) (hkeeps : KeepsLocals s s')
    (huses : s.emission.emitter.slotUses ⊆ s'.emission.emitter.slotUses)
    (hallotted : allotted log' = allotted log)
    (hordered : ∀ k l line, log'[k]? = some (.load l line) → Stored (log'.take k) l) :
    Accounts log' s' := by
  have hslot := hkeeps.slot?
  refine ⟨fun l => by rw [hslot, hallotted, h.slots], fun l slot hl => ?_,
    fun l l' slot slot' hl hl' => ?_, fun l slot hl => ?_, by rw [hkeeps.locals]; exact h.limit,
    hordered⟩
  · rw [hslot] at hl
    rw [hkeeps.locals, h.backed l slot hl]
  · rw [hslot] at hl hl'
    exact h.apart l l' slot slot' hl hl'
  · rw [hslot] at hl
    exact huses (h.written l slot hl)

/-- Nothing is done to locals. -/
theorem idle (h : Accounts log s) (hkeeps : KeepsLocals s s')
    (hlocal : s'.context.contextLocal = s.context.contextLocal)
    (huses : s'.emission.emitter.slotUses = s.emission.emitter.slotUses) :
    Advances log [] s s' := by
  refine ⟨?_, fun l slot hl => by rw [hkeeps.slot?, hl], hlocal, ⟨[], ?_, ?_⟩, ⟨[], ?_, rfl⟩,
    nofun⟩
  · rw [List.append_nil]
    exact h.keep hkeeps (by rw [huses]; exact List.Subset.refl _) rfl h.ordered
  · rw [List.append_nil, List.append_nil]
  · rw [hkeeps.locals]
    exact (List.append_nil _).symm
  · rw [huses, List.append_nil]

/-- An access to a slot that is there. -/
theorem access (h : Accounts log s) (hkeeps : KeepsLocals s s')
    (hlocal : s'.context.contextLocal = s.context.contextLocal) {a : Access}
    {use : Opcode × UInt16} (ha : a.instruction s.context = some use)
    (huses : s'.emission.emitter.slotUses = s.emission.emitter.slotUses ++ [use]) :
    Advances log [a] s s' := by
  have hstable : ∀ l slot, s.context.slot? l = some slot → s'.context.slot? l = some slot :=
    fun l slot hl => by rw [hkeeps.slot?, hl]
  have hload : ∀ l line, a = .load l line → ∃ slot, s.context.slot? l = some slot := by
    rintro l line rfl
    obtain ⟨slot, hslot, -⟩ := Option.map_eq_some_iff.mp ha
    exact ⟨slot, hslot⟩
  have hallotted : allotted (log ++ [a]) = allotted log := by
    rw [allotted_append, List.foldl_cons, List.foldl_nil]
    cases a with
    | load | context => rfl
    | store l =>
      obtain ⟨slot, hslot, -⟩ := Option.map_eq_some_iff.mp ha
      rw [allot, if_pos]
      rw [any_allotted, ← h.isSome_slot, hslot]
      rfl
  refine ⟨?_, hstable, hlocal, ⟨[], ?_, ?_⟩, ⟨[use], huses, ?_⟩, fun k l line hk => ?_⟩
  · refine h.keep hkeeps ?_ hallotted (h.ordered_append fun l line hl => ?_)
    · rw [huses]
      exact List.subset_append_left _ _
    · obtain ⟨slot, hslot⟩ := hload l line hl
      rw [← h.isSome_slot, hslot]
      rfl
  · rw [hallotted, List.append_nil]
  · rw [hkeeps.locals]
    exact (List.append_nil _).symm
  · rw [List.map_singleton, Access.instruction_stable hstable hlocal ha]
    rfl
  · obtain ⟨rfl, rfl⟩ := getElem?_singleton_inv hk
    obtain ⟨slot, hslot⟩ := hload l line rfl
    refine ⟨slot, hstable l slot hslot, ?_⟩
    rw [huses, Nat.add_zero, List.take_left]
    exact h.written l slot hslot

theorem index_lt (h : Accounts log s) {l : CompilerLocal} {slot : Slot}
    (hl : s.context.slot? l = some slot) : slot.index.toNat < s.emission.emitter.locals.size :=
  (Array.getElem?_eq_some_iff.mp (h.backed l slot hl)).1

theorem allotted_store (h : Accounts log s) {l : CompilerLocal}
    (hunknown : s.context.slot? l = none) : allotted (log ++ [.store l]) = allotted log ++ [l] := by
  rw [allotted_append, List.foldl_cons, List.foldl_nil, allot, if_neg]
  rw [any_allotted, ← h.isSome_slot, hunknown]
  exact nofun

/-- A local gets a slot. -/
theorem allots (h : Accounts log s) {l : CompilerLocal} (hallots : Allots l s s')
    (huses : s'.emission.emitter.slotUses = s.emission.emitter.slotUses ++
      [(.stloc, s.emission.emitter.locals.size.toUInt16)]) :
    Accounts (log ++ [.store l]) s' := by
  have hindex := toNat_toUInt16_of_lt hallots.room
  -- a new slot has a number that no other has
  have hapart : ∀ l' slot, l'.id ≠ l.id → s'.context.slot? l' = some slot →
      slot.index ≠ s.emission.emitter.locals.size.toUInt16 := by
    intro l' slot hid hl' heq
    rw [hallots.slot?_other hid] at hl'
    have hlt := h.index_lt hl'
    rw [heq, hindex] at hlt
    exact Nat.lt_irrefl _ hlt
  refine ⟨fun l' => ?_, fun l' slot hl' => ?_, fun l₁ l₂ slot₁ slot₂ h₁ h₂ heq => ?_,
    fun l' slot hl' => ?_, ?_, h.ordered_append nofun⟩
  · rw [h.allotted_store hallots.unknown, List.find?_append]
    by_cases hid : l'.id = l.id
    · have hnone := h.slots l
      rw [hallots.unknown, eq_comm, Option.map_none, Option.map_eq_none_iff] at hnone
      rw [hallots.slot?_self hid, hid, hnone]
      simp
    · rw [hallots.slot?_other hid, h.slots, List.find?_cons_of_neg (by simpa using Ne.symm hid),
        List.find?_nil, Option.or_none]
  · rw [hallots.locals]
    by_cases hid : l'.id = l.id
    · obtain rfl := Option.some.inj ((hallots.slot?_self hid).symm.trans hl')
      rw [hindex, Array.getElem?_push_size]
    · rw [hallots.slot?_other hid] at hl'
      rw [Array.getElem?_push, if_neg (Nat.ne_of_lt (h.index_lt hl')), h.backed l' slot hl']
  · by_cases hid₁ : l₁.id = l.id <;> by_cases hid₂ : l₂.id = l.id
    · rw [hid₁, hid₂]
    · obtain rfl := Option.some.inj ((hallots.slot?_self hid₁).symm.trans h₁)
      exact absurd heq.symm (hapart l₂ slot₂ hid₂ h₂)
    · obtain rfl := Option.some.inj ((hallots.slot?_self hid₂).symm.trans h₂)
      exact absurd heq (hapart l₁ slot₁ hid₁ h₁)
    · rw [hallots.slot?_other hid₁] at h₁
      rw [hallots.slot?_other hid₂] at h₂
      exact h.apart l₁ l₂ slot₁ slot₂ h₁ h₂ heq
  · rw [huses]
    by_cases hid : l'.id = l.id
    · obtain rfl := Option.some.inj ((hallots.slot?_self hid).symm.trans hl')
      exact List.mem_append_right _ List.mem_cons_self
    · rw [hallots.slot?_other hid] at hl'
      exact List.mem_append_left _ (h.written l' slot hl')
  · rw [hallots.locals, Array.size_push]
    exact hallots.room

/-- The first store to a local. -/
theorem define (h : Accounts log s) {l : CompilerLocal} (hallots : Allots l s s')
    (hlocal : s'.context.contextLocal = s.context.contextLocal)
    (huses : s'.emission.emitter.slotUses = s.emission.emitter.slotUses ++
      [(.stloc, s.emission.emitter.locals.size.toUInt16)]) :
    Advances log [.store l] s s' := by
  refine ⟨h.allots hallots huses, fun l' slot => hallots.slot?_mono, hlocal,
    ⟨[l], h.allotted_store hallots.unknown, ?_⟩, ⟨_, huses, ?_⟩, fun k l' line hk => ?_⟩
  · rw [hallots.locals, Array.toList_push]
    rfl
  · rw [List.map_singleton, Access.instruction, hallots.slot?_self rfl]
    rfl
  · obtain ⟨-, hload⟩ := getElem?_singleton_inv hk
    cases hload

end Accounts

theorem Act.Done.contextLocal {a : Act} {s s' : LowerState Empty} (h : a.Done s s') :
    s'.context.contextLocal = s.context.contextLocal := by
  rw [h.context]

/-- What an act does to locals. -/
theorem Act.Done.advances {a : Act} {log : List Access} {s s' : LowerState Empty}
    (h : a.Done s s') (haccounts : Accounts log s) : Advances log a.access?.toList s s' := by
  have huses := h.slotUses
  have hlocal := h.contextLocal
  cases h.alters with
  | load hl hkeeps =>
    have hinstruction := congrArg (Option.map fun slot => (Opcode.ldloc, slot.index)) hl
    refine haccounts.access hkeeps hlocal hinstruction ?_
    rw [huses, Act.access?, Option.bind_some, Access.instruction, hkeeps.slot?, hl]
    rfl
  | store hl hkeeps =>
    have hinstruction := congrArg (Option.map fun slot => (Opcode.stloc, slot.index)) hl
    refine haccounts.access hkeeps hlocal hinstruction ?_
    rw [huses, Act.access?, Option.bind_some, Access.instruction, hkeeps.slot?, hl]
    rfl
  | allot hallots =>
    refine haccounts.define hallots hlocal ?_
    rw [huses, Act.access?, Option.bind_some, Access.instruction, hallots.slot?_self rfl]
    rfl
  | context hl hkeeps =>
    have hinstruction := congrArg (Option.map fun slot => (Opcode.ldloc, slot.index)) hl
    refine haccounts.access hkeeps hlocal hinstruction ?_
    rw [huses, Act.access?, Option.bind_some, Access.instruction, hlocal, hl]
    rfl
  | other hslot hkeeps =>
    have hnone : a.access? = none := by cases a <;> first | rfl | cases hslot
    rw [hnone] at huses ⊢
    exact haccounts.idle hkeeps hlocal (huses.trans (List.append_nil _))

/-! ### Whole trees -/

/-- What happens between steps does nothing to locals. -/
theorem Accounts.silent {log : List Access} {s s' : LowerState Empty} (h : Accounts log s)
    (hsilent : Silent s s') : Advances log [] s s' := by
  refine h.idle ⟨?_, hsilent.code.locals⟩ ?_ hsilent.code.slotUses <;> rw [hsilent.context]

theorem Accounts.enter {log : List Access} {s : LowerState Empty} (h : Accounts log s)
    (n : Node Empty) : Advances log [] s { s with context := s.context.enter n } :=
  h.idle ⟨rfl, rfl⟩ rfl rfl

/-- Steps that were carried out did their accesses. -/
theorem Carries.advances {steps : List Step} {log : List Access} {s s' : LowerState Empty}
    (h : Carries s steps s') (haccounts : Accounts log s) :
    Advances log (steps.filterMap Step.access?) s s' := by
  induction h generalizing log with
  | nil s => exact haccounts.idle ⟨rfl, rfl⟩ rfl rfl
  | enter n _ ih => exact (haccounts.enter n).trans (ih (haccounts.enter n).accounts)
  | @act s s₁ s' steps a ha _ ih =>
    have hact := (Act.perform_inv ha).advances haccounts
    rw [filterMap_cons_toList]
    exact hact.trans (ih hact.accounts)
  | silent hsilent _ ih =>
    exact (haccounts.silent hsilent).trans (ih (haccounts.silent hsilent).accounts)

/-- The references that were dispatched, in order. -/
def Context.refs (c : Context Empty) : List (CompilerLocal × Position) :=
  c.trace.reverse.filterMap (·.node.ref?)

theorem Context.refs_enter (c : Context Empty) (n : Node Empty) :
    (c.enter n).refs = c.refs ++ n.ref?.toList := by
  rw [Context.refs, Context.trace_enter, List.reverse_cons, List.filterMap_append,
    filterMap_cons_toList, List.filterMap_nil, List.append_nil]
  rfl

theorem Carries.refs {steps : List Step} {s s' : LowerState Empty} (h : Carries s steps s') :
    s'.context.refs = s.context.refs ++ steps.filterMap Step.ref? := by
  induction h with
  | nil s => exact (List.append_nil _).symm
  | enter n _ ih =>
    rw [ih, filterMap_cons_toList, Context.refs_enter, List.append_assoc]
    rfl
  | act ha _ ih =>
    rw [ih, List.filterMap_cons_none rfl, Context.refs, (Act.perform_inv ha).context]
    rfl
  | silent hsilent _ ih =>
    rw [ih, Context.refs, hsilent.context]
    rfl

/-- Where steps stop, those before were done, and the failing one changed nothing. -/
theorem Stops.advances {steps : List Step} {log : List Access} {s s' : LowerState Empty}
    {e : EmitError} (h : Stops s steps e s') (haccounts : Accounts log s) :
    ∃ done next rest, steps = done ++ next :: rest ∧ next.Blocked s' e ∧
      Advances log (done.filterMap Step.access?) s s' ∧
      s'.context.refs = s.context.refs ++ done.filterMap Step.ref? := by
  obtain ⟨done, rest, next, s₁, s₂, hsplit, hcarries, hfails, hsilent⟩ := h
  have hadvances := hcarries.advances haccounts
  obtain ⟨rfl, hblocked⟩ : s₂ = s₁ ∧ next.Blocked s' e := by
    cases hfails with
    | @act a _ _ _ ha =>
      obtain rfl := a.atomic_perform _ _ _ ha
      have hhindered := Act.perform_error hadvances.accounts.backed ha
      exact ⟨rfl, .act (hhindered.andSilent hsilent)⟩
    | refuse n b => exact ⟨rfl, .refuse n b⟩
  have hlast := hcarries.andSilent hsilent
  exact ⟨done, next, rest, hsplit, hblocked, hlast.advances haccounts, hlast.refs⟩

/-! ### Histories of a context -/

/-- The accesses that lowering a tree did: as many as there are new uses of slots. -/
def Node.performed (n : Node Empty) (s s' : LowerState Empty) : List Access :=
  n.accesses.take (s'.emission.emitter.slotUses.length - s.emission.emitter.slotUses.length)

/-- The states that a context and its emitter get into by lowering trees, with all that was done
to locals. -/
inductive Emissions : List Access → LowerState Empty → Prop
  /-- A new context, on an emitter that was asked for anything before. -/
  | start {m : Module} {owner : BodyOwner} {e₀ : Emitter} {requests : List Request}
      {s : LowerState Empty} : m.emitter owner = .ok e₀ →
      Run (fun _ => True) e₀ requests s.emission.emitter → s.context.slots = [] → Emissions [] s
  /-- The module was changed by others. -/
  | elsewhere {log : List Access} {s : LowerState Empty} (m : Module) : Emissions log s →
      Emissions log { s with emission.module := m }
  /-- The emitter was asked for something, such as another local. -/
  | request {log : List Access} {s : LowerState Empty} (r : Request) : Emissions log s →
      Emissions log { s with emission := Result.state (r.perform s.emission) }
  /-- A tree was lowered, or failed to be. -/
  | lower {log : List Access} {s : LowerState Empty} (env : Environment) (n : Node Empty)
      (expected : Option TypeRef) : Emissions log s →
      Emissions (log ++ n.performed s (Result.state (n.lower env expected s)))
        (Result.state (n.lower env expected s))

theorem Advances.performed_eq {log done : List Access} {s s' : LowerState Empty}
    (h : Advances log done s s') {n : Node Empty} (hpart : done <+: n.accesses) :
    n.performed s s' = done := by
  obtain ⟨new, hnew, hdone⟩ := h.code
  have hlength : done.length = new.length := by simpa using congrArg List.length hdone
  rw [Node.performed, hnew, List.length_append, Nat.add_sub_cancel_left, ← hlength]
  exact (List.prefix_iff_eq_take.mp hpart).symm

theorem Accounts.start {s : LowerState Empty} (hslots : s.context.slots = [])
    (hlimit : s.emission.emitter.locals.size ≤ maxLocals) : Accounts [] s := by
  have hnone : ∀ l, s.context.slot? l = none := fun l => by
    rw [Context.slot?, hslots]
    rfl
  refine ⟨fun l => by rw [hnone]; rfl, fun l slot hl => ?_, fun l _ slot _ hl => ?_,
    fun l slot hl => ?_, hlimit, fun k l line hk => by simp at hk⟩
  all_goals cases (hnone l).symm.trans hl

theorem Request.getElem?_locals {r : Request} {s s' : Emission} (h : r.perform s = .ok () s')
    {k : Nat} {type : TypeRef} (hk : s.emitter.locals[k]? = some type) :
    s'.emitter.locals[k]? = some type := by
  cases r with
  | emit op x =>
    obtain ⟨p, -, -, hs⟩ := Emission.emit_inv h
    rw [hs]
    exact hk
  | defineLocal type' =>
    rw [(defineLocal_inv h).2, Array.getElem?_push, if_neg, hk]
    exact Nat.ne_of_lt (Array.getElem?_eq_some_iff.mp hk).1
  | defineLabel =>
    rw [defineLabel_inv h]
    exact hk
  | markLabel l =>
    rw [(markLabel_inv h).2]
    exact hk
  | beginCapture file position => rw [(beginCapture_inv h).locals, hk]
  | endCapture id => rw [(endCapture_inv h).locals, hk]

/-- What others ask of the emitter adds slots and instructions, and changes none. -/
theorem Accounts.request {log : List Access} {s : LowerState Empty} (h : Accounts log s)
    (r : Request) : Accounts log { s with emission := Result.state (r.perform s.emission) } := by
  cases hr : r.perform s.emission with
  | error e emission =>
    rw [Result.state_error, Request.atomic_perform r _ _ _ hr]
    exact h
  | ok u emission =>
    refine ⟨h.slots, fun l slot hl => Request.getElem?_locals hr (h.backed l slot hl), h.apart,
      fun l slot hl => ?_, (Request.addsSlots hr).limit h.limit, h.ordered⟩
    exact (Request.slotUses_prefix hr).subset (h.written l slot hl)

section Lower

variable {env : Environment} {n : Node Empty} {expected : Option TypeRef}
variable {log : List Access} {s s' : LowerState Empty}

theorem filterMap_load (steps : List Step) :
    (steps.filterMap Step.access?).filterMap Access.load? = steps.filterMap Step.load? :=
  List.filterMap_filterMap

/-- A tree that is lowered does all its accesses. -/
theorem Accounts.lower_ok (h : Accounts log s) {effect : StackEffect}
    (hlower : n.lower env expected s = .ok effect s') :
    Advances log n.accesses s s' ∧
      s'.context.refs = s.context.refs ++ n.accesses.filterMap Access.load? := by
  have htakes := n.takes_lower env expected s
  rw [hlower] at htakes
  have hplan := n.covers_plan env expected
  have hadvances := Carries.advances htakes h
  have hrefs := Carries.refs htakes
  rw [hplan.paired.refs, ← filterMap_load, hplan.order] at hrefs
  rw [hplan.order] at hadvances
  exact ⟨hadvances, hrefs⟩

/-- The error that a reference to a local fails with before the local is stored. -/
def EmitError.isUninitialized : EmitError → Bool
  | .uninitializedLocal _ => true
  | _ => false

/-- Why lowering failed after some accesses, with others to come: at a load of a local that was not
stored, or with all references loaded and for another reason. -/
inductive Interrupted (log done rest : List Access) (s s' : LowerState Empty) : EmitError → Prop
  | unstored {l : CompilerLocal} {line : Position} : rest.head? = some (.load l line) →
      ¬ Stored (log ++ done) l →
      s'.context.refs = s.context.refs ++ done.filterMap Access.load? ++ [(l, line)] →
      Interrupted log done rest s s' (.uninitializedLocal line)
  | other {e : EmitError} : e.isUninitialized = false →
      s'.context.refs = s.context.refs ++ done.filterMap Access.load? →
      Interrupted log done rest s s' e

/-- A tree that fails did the accesses up to there. -/
theorem Accounts.lower_error (h : Accounts log s) {e : EmitError}
    (hlower : n.lower env expected s = .error e s') :
    ∃ done rest, n.accesses = done ++ rest ∧ Advances log done s s' ∧
      Interrupted log done rest s s' e := by
  have htakes := n.takes_lower env expected s
  rw [hlower] at htakes
  have hplan := n.covers_plan env expected
  obtain ⟨done, next, rest, hsplit, hblocked, hadvances, hrefs⟩ := Stops.advances htakes h
  refine ⟨done.filterMap Step.access?, (next :: rest).filterMap Step.access?, ?_, hadvances, ?_⟩
  · rw [← hplan.order, hsplit, List.filterMap_append]
  · rcases hplan.paired.refs_of_split hsplit with ⟨hnext, hdone⟩ | ⟨l, line, rfl, hdone⟩
    · rw [hdone, ← filterMap_load] at hrefs
      refine .other ?_ hrefs
      cases hblocked with
      | refuse => rfl
      | act hhindered =>
        cases hhindered with
        | load => cases hnext
        | context _ hslot =>
          rw [Emitter.slotOf_error hslot]
          rfl
        | _ => rfl
    · rw [hdone, ← filterMap_load, ← List.append_assoc] at hrefs
      cases hblocked with
      | act hhindered =>
        cases hhindered with
        | load hl =>
          refine .unstored rfl ?_ hrefs
          rw [← hadvances.accounts.isSome_slot, hl]
          exact nofun

end Lower

/-- The log of a history accounts for the context. -/
theorem Emissions.accounts {log : List Access} {s : LowerState Empty} (h : Emissions log s) :
    Accounts log s := by
  induction h with
  | start hnew hrun hslots =>
    obtain ⟨hfresh, -, -⟩ := Module.emitter_inv hnew
    exact .start hslots (hrun.limit hfresh)
  | elsewhere m _ ih => exact { ih with backed := ih.backed }
  | request r _ ih => exact ih.request r
  | @lower log s env n expected _ ih =>
    cases hlower : n.lower env expected s with
    | ok effect s' =>
      obtain ⟨hadvances, -⟩ := ih.lower_ok hlower
      rw [Result.state, hadvances.performed_eq List.prefix_rfl]
      exact hadvances.accounts
    | error e s' =>
      obtain ⟨done, rest, hsplit, hadvances, -⟩ := ih.lower_error hlower
      have hpart : done <+: n.accesses := ⟨rest, hsplit.symm⟩
      rw [Result.state, hadvances.performed_eq hpart]
      exact hadvances.accounts

/-! ### The main statement -/

/-- Compiler locals are stored before they are loaded, and each has one slot. Whatever was lowered
with a context before, and whatever else its emitter was asked for, the accesses so far account for
the context. A tree that is lowered then does all its accesses, one instruction each, which are as
many loads as there are references and as many stores as there are initializations in the tree. A
tree that fails did those up to there: every reference that was dispatched was loaded after a
store, except for one to a local that was not stored yet, and this one alone fails for that. -/
theorem lower_accounts_for_locals {log : List Access} {s : LowerState Empty} (h : Emissions log s)
    (env : Environment) (n : Node Empty) (expected : Option TypeRef) :
    Accounts log s ∧
    (∀ effect s', n.lower env expected s = .ok effect s' →
      n.performed s s' = n.accesses ∧ Advances log n.accesses s s' ∧
      s'.context.refs = s.context.refs ++ n.accesses.filterMap Access.load?) ∧
    (∀ e s', n.lower env expected s = .error e s' →
      ∃ done rest, n.accesses = done ++ rest ∧ n.performed s s' = done ∧ Advances log done s s' ∧
        Interrupted log done rest s s' e) ∧
    n.accesses.filterMap Access.load? = n.occurrences.filterMap (·.node.ref?) ∧
    (n.accesses.filterMap Access.store?).Perm (n.occurrences.filterMap (·.node.init?)) := by
  have haccounts := h.accounts
  have hplan := n.covers_plan env expected
  refine ⟨haccounts, fun effect s' hlower => ?_, fun e s' hlower => ?_, hplan.loads, hplan.stores⟩
  · obtain ⟨hadvances, hrefs⟩ := haccounts.lower_ok hlower
    exact ⟨hadvances.performed_eq List.prefix_rfl, hadvances, hrefs⟩
  · obtain ⟨done, rest, hsplit, hadvances, hinterrupted⟩ := haccounts.lower_error hlower
    have hpart : done <+: n.accesses := ⟨rest, hsplit.symm⟩
    exact ⟨done, rest, hsplit, hadvances.performed_eq hpart, hadvances, hinterrupted⟩

/-- Two compiler locals. -/
def header : CompilerLocal := ⟨0, default, some "header"⟩
def footer : CompilerLocal := ⟨1, default, some "footer"⟩

/-- Pushes a value and drops it. -/
def dropped (value : ValueNode Empty) : ImperativeNode Empty :=
  .valueManipulation value (.group [] default) default

/-- Stores the header and loads it, and loads the footer, which was not stored. -/
def loadsTooEarly : Node Empty :=
  .imperative <| .block
    [dropped (.localInit header (.string default "text" default) default),
      dropped (.localRef header ⟨2, 1⟩), dropped (.localRef footer ⟨3, 1⟩)] default

/-- A new context, on an emitter that was asked for a local before. -/
def stateWithLocal : LowerState Empty :=
  { newState with
      emission := Result.state ((Request.defineLocal default).perform newState.emission) }

theorem emissions_stateWithLocal : Emissions [] stateWithLocal :=
  .request (.defineLocal default) (.start emitter_oneMethod .start rfl)

/-- The state in which it fails. -/
def failedState : LowerState Empty :=
  Result.state (loadsTooEarly.lower plainEnvironment none stateWithLocal)

theorem lower_accounts_for_locals_loadsTooEarly :
    loadsTooEarly.lower plainEnvironment none stateWithLocal =
        .error (.uninitializedLocal ⟨3, 1⟩) failedState ∧
      Advances [] [.store header, .load header ⟨2, 1⟩] stateWithLocal failedState ∧
      failedState.context.refs = [(header, ⟨2, 1⟩), (footer, ⟨3, 1⟩)] ∧
      ¬ Stored [.store header, .load header ⟨2, 1⟩] footer := by
  have hlower := Result.eq_error (r := loadsTooEarly.lower plainEnvironment none stateWithLocal)
    (e := .uninitializedLocal ⟨3, 1⟩) (by decide +kernel)
  have huses : failedState.emission.emitter.slotUses.length = 2 := by decide +kernel
  have hperformed : loadsTooEarly.performed stateWithLocal failedState =
      [.store header, .load header ⟨2, 1⟩] := by
    rw [Node.performed, huses]
    rfl
  obtain ⟨-, -, herror, -, -⟩ := lower_accounts_for_locals emissions_stateWithLocal plainEnvironment
    loadsTooEarly none
  obtain ⟨done, rest, hsplit, hdone, hadvances, hinterrupted⟩ := herror _ _ hlower
  obtain rfl := hdone.symm.trans hperformed
  cases hinterrupted with
  | other hother => cases hother
  | unstored hnext hunstored hrefs =>
    have hall : loadsTooEarly.accesses =
        [.store header, .load header ⟨2, 1⟩] ++ [.load footer ⟨3, 1⟩] := rfl
    obtain rfl := List.append_cancel_left (hsplit.symm.trans hall)
    cases hnext
    exact ⟨hlower, hadvances, hrefs, hunstored⟩

end MarkupLowering
