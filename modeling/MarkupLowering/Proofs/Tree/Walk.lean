import MarkupLowering.Proofs.Emitter.Requests
import MarkupLowering.Proofs.Lowering.Traversal
import MarkupLowering.Tree.Visitor

/-!
# MarkupLowering.Proofs.Tree.Walk

**A visitor sees the tree that is lowered.** Walking and lowering are written separately for every
kind of node, and both go through the nodes of the tree in preorder.

* `Node.calls` is what a walk asks of a visitor that puts no other nodes in place: for every node
  its hook, the push, what is asked for its children, and the pop.
* `Visitor.walk_eq` says that the walk asks for just that, whatever the visitor does with its state,
  and returns the tree as it was.
* `Call.Covers` says what a visitor sees that keeps account of the pushed nodes: the occurrences of
  the tree, on hooks as on pushes. `Visitor.recorder` is such a visitor.
* `walk_sees_dispatched` is the main statement and joins this with what lowering dispatches.
-/

namespace MarkupLowering

variable {σ ξ : Type}

/-! ### What a walk asks for -/

/-- What a walk asks of a visitor. -/
inductive Call (ξ : Type)
  | hook (n : Node ξ)
  | push (n : Node ξ)
  | pop

/-- What is asked for a node, around what is asked for its children. -/
def bracket (n : Node ξ) (inner : List (Call ξ)) : List (Call ξ) :=
  .hook n :: .push n :: (inner ++ [.pop])

mutual

/-- What is asked for the children of a value node. -/
def ValueNode.innerCalls : ValueNode ξ → List (Call ξ)
  | .string .. | .localRef .. | .contextLocal .. | .extension _ => []
  | .localInit _ value _ | .beginInit value | .cast value _ _ | .parentStack value _ =>
    bracket (.value value) value.innerCalls
  | .newObject _ arguments _ => argumentsCalls arguments

/-- What is asked for some value nodes. -/
def argumentsCalls : List (ValueNode ξ) → List (Call ξ)
  | [] => []
  | value :: values => bracket (.value value) value.innerCalls ++ argumentsCalls values

/-- What is asked for the children of an imperative node. -/
def ImperativeNode.innerCalls : ImperativeNode ξ → List (Call ξ)
  | .valueManipulation value manipulation _ =>
    bracket (.value value) value.innerCalls ++
      bracket (.manipulation manipulation) manipulation.innerCalls
  | .block children _ => statementsCalls children
  | .extension _ => []

/-- What is asked for some imperative nodes. -/
def statementsCalls : List (ImperativeNode ξ) → List (Call ξ)
  | [] => []
  | child :: children => bracket (.imperative child) child.innerCalls ++ statementsCalls children

/-- What is asked for the children of a manipulation node. -/
def ManipulationNode.innerCalls : ManipulationNode ξ → List (Call ξ)
  | .imperative body _ => bracket (.imperative body) body.innerCalls
  | .assign _ value _ => bracket (.value value) value.innerCalls
  | .group children _ => groupCalls children
  | .extension _ => []

/-- What is asked for some manipulation nodes. -/
def groupCalls : List (ManipulationNode ξ) → List (Call ξ)
  | [] => []
  | child :: children => bracket (.manipulation child) child.innerCalls ++ groupCalls children

end

/-- What is asked for the children of a node. -/
def Node.innerCalls : Node ξ → List (Call ξ)
  | .value n => n.innerCalls
  | .imperative n => n.innerCalls
  | .manipulation n => n.innerCalls

/-- What is asked for a tree. -/
def Node.calls (n : Node ξ) : List (Call ξ) := bracket n n.innerCalls

/-! ### Visitors that put nothing in place -/

namespace Visitor

/-- Every hook returns the node that it sees. -/
structure SubstitutesNothing (v : Visitor σ ξ) : Prop where
  value : ∀ n s, (v.onValue n s).1 = n
  imperative : ∀ n s, (v.onImperative n s).1 = n
  manipulation : ∀ n s, (v.onManipulation n s).1 = n

/-- What a visitor makes of a call, apart from the node that a hook returns. -/
def perform (v : Visitor σ ξ) : Call ξ → σ → σ
  | .hook (.value n), s => (v.onValue n s).2
  | .hook (.imperative n), s => (v.onImperative n s).2
  | .hook (.manipulation n), s => (v.onManipulation n s).2
  | .push n, s => v.push n s
  | .pop, s => v.pop s

/-- What a visitor makes of calls in order. -/
def performAll (v : Visitor σ ξ) (calls : List (Call ξ)) (s : σ) : σ :=
  calls.foldl (fun s c => v.perform c s) s

theorem performAll_cons (v : Visitor σ ξ) (c : Call ξ) (calls : List (Call ξ)) (s : σ) :
    v.performAll (c :: calls) s = v.performAll calls (v.perform c s) := rfl

theorem performAll_append (v : Visitor σ ξ) (calls calls' : List (Call ξ)) (s : σ) :
    v.performAll (calls ++ calls') s = v.performAll calls' (v.performAll calls s) :=
  List.foldl_append

/-- From every state, the step makes these calls and returns `a`. -/
def Makes {α : Type} (v : Visitor σ ξ) (calls : List (Call ξ)) (step : WalkM σ α) (a : α) : Prop :=
  ∀ s, step s = some (a, v.performAll calls s)

namespace Makes

variable {α β : Type} {v : Visitor σ ξ} {calls calls' : List (Call ξ)} {a : α} {b : β}

protected theorem pure (a : α) : v.Makes [] (Pure.pure a) a := fun _ => rfl

theorem bind {step : WalkM σ α} {next : α → WalkM σ β} (h : v.Makes calls step a)
    (hnext : v.Makes calls' (next a) b) : v.Makes (calls ++ calls') (step >>= next) b := by
  intro s
  simp only [Bind.bind, StateT.bind, h s, Option.bind_some, performAll_append]
  exact hnext _

/-- What is returned is built into something else. -/
theorem andPure {step : WalkM σ α} (h : v.Makes calls step a) (f : α → β) :
    v.Makes calls (do let a ← step; Pure.pure (f a)) (f a) := by
  have hboth : v.Makes (calls ++ []) (do let a ← step; Pure.pure (f a)) (f a) :=
    h.bind (.pure (f a))
  rwa [List.append_nil] at hboth

theorem around {n : Node ξ} {children : WalkM σ α} (h : v.Makes calls children a) :
    v.Makes (.push n :: (calls ++ [.pop])) (v.around n children) a := by
  have hpush : v.Makes [.push n] (modify (v.push n)) ⟨⟩ := fun _ => rfl
  have hpop : v.Makes [.pop] (modify v.pop) ⟨⟩ := fun _ => rfl
  exact hpush.bind (h.bind (hpop.andPure fun _ => a))

/-- The calls for one node, whose hook returns it. -/
theorem node {role : α → Node ξ} {step : StateM σ α} {children : α → WalkM σ α}
    (hstep : ∀ s, step s = (a, v.perform (.hook (role a)) s))
    (h : v.Makes calls (children a) a) :
    v.Makes (bracket (role a) calls)
      (do let a ← hook step; v.around (role a) (children a)) a := by
  have hhook : v.Makes [.hook (role a)] (hook step) a := fun s => congrArg some (hstep s)
  exact hhook.bind h.around

theorem value (hv : v.SubstitutesNothing) {n : ValueNode ξ}
    {children : ValueNode ξ → WalkM σ (ValueNode ξ)} (h : v.Makes calls (children n) n) :
    v.Makes (bracket (.value n) calls)
      (do let n ← hook (v.onValue n); v.around (.value n) (children n)) n :=
  node (fun s => Prod.ext (hv.value n s) rfl) h

theorem imperative (hv : v.SubstitutesNothing) {n : ImperativeNode ξ}
    {children : ImperativeNode ξ → WalkM σ (ImperativeNode ξ)} (h : v.Makes calls (children n) n) :
    v.Makes (bracket (.imperative n) calls)
      (do let n ← hook (v.onImperative n); v.around (.imperative n) (children n)) n :=
  node (fun s => Prod.ext (hv.imperative n s) rfl) h

theorem manipulation (hv : v.SubstitutesNothing) {n : ManipulationNode ξ}
    {children : ManipulationNode ξ → WalkM σ (ManipulationNode ξ)}
    (h : v.Makes calls (children n) n) :
    v.Makes (bracket (.manipulation n) calls)
      (do let n ← hook (v.onManipulation n); v.around (.manipulation n) (children n)) n :=
  node (fun s => Prod.ext (hv.manipulation n s) rfl) h

end Makes

section Walk

variable {v : Visitor σ ξ}

/-- A limit that has room for a node has room for its children below it. -/
theorem exists_limit {height limit : Nat} (h : height + 1 ≤ limit) :
    ∃ below, limit = below + 1 ∧ height ≤ below := ⟨limit - 1, by omega, by omega⟩

mutual

/-- Walking a value node asks for its calls and returns it. -/
theorem makes_value (hv : v.SubstitutesNothing) : ∀ (n : ValueNode ξ) {limit : Nat},
    n.height ≤ limit → v.Makes (bracket (.value n) n.innerCalls) (v.walkValue limit n) n
  | .string .., _, h | .localRef .., _, h | .contextLocal .., _, h | .extension _, _, h => by
    obtain ⟨limit, rfl, -⟩ := exists_limit h
    unfold walkValue ValueNode.innerCalls
    exact .value hv (.pure _)
  | .localInit l value line, _, h => by
    obtain ⟨limit, rfl, hvalue⟩ := exists_limit h
    unfold walkValue ValueNode.innerCalls
    exact .value hv ((makes_value hv value hvalue).andPure (ValueNode.localInit l · line))
  | .beginInit value, _, h => by
    obtain ⟨limit, rfl, hvalue⟩ := exists_limit h
    unfold walkValue ValueNode.innerCalls
    exact .value hv ((makes_value hv value hvalue).andPure ValueNode.beginInit)
  | .cast value target line, _, h => by
    obtain ⟨limit, rfl, hvalue⟩ := exists_limit h
    unfold walkValue ValueNode.innerCalls
    exact .value hv ((makes_value hv value hvalue).andPure (ValueNode.cast · target line))
  | .parentStack value line, _, h => by
    obtain ⟨limit, rfl, hvalue⟩ := exists_limit h
    unfold walkValue ValueNode.innerCalls
    exact .value hv ((makes_value hv value hvalue).andPure (ValueNode.parentStack · line))
  | .newObject c arguments line, _, h => by
    obtain ⟨limit, rfl, harguments⟩ := exists_limit h
    unfold walkValue ValueNode.innerCalls
    exact .value hv
      ((makes_arguments hv arguments harguments).andPure (ValueNode.newObject c · line))

/-- A walk through arguments makes their calls in order. The limit is enough for each. -/
theorem makes_arguments (hv : v.SubstitutesNothing) : ∀ (values : List (ValueNode ξ)) {limit : Nat},
    valuesHeight values ≤ limit →
      v.Makes (argumentsCalls values) (each (v.walkValue limit) values) values
  | [], _, _ => .pure []
  | value :: values, limit, h => by
    obtain ⟨hvalue, hvalues⟩ := Nat.max_le.mp h
    unfold argumentsCalls each
    exact (makes_value hv value hvalue).bind
      ((makes_arguments hv values hvalues).andPure (value :: ·))

/-- Walking an imperative node asks for its calls and returns it. -/
theorem makes_imperative (hv : v.SubstitutesNothing) : ∀ (n : ImperativeNode ξ) {limit : Nat},
    n.height ≤ limit → v.Makes (bracket (.imperative n) n.innerCalls) (v.walkImperative limit n) n
  | .valueManipulation value manipulation line, _, h => by
    obtain ⟨limit, rfl, hboth⟩ := exists_limit h
    obtain ⟨hvalue, hmanipulation⟩ := Nat.max_le.mp hboth
    unfold walkImperative ImperativeNode.innerCalls
    exact .imperative hv ((makes_value hv value hvalue).bind
      ((makes_manipulation hv manipulation hmanipulation).andPure
        (ImperativeNode.valueManipulation value · line)))
  | .block children line, _, h => by
    obtain ⟨limit, rfl, hchildren⟩ := exists_limit h
    unfold walkImperative ImperativeNode.innerCalls
    exact .imperative hv
      ((makes_statements hv children hchildren).andPure (ImperativeNode.block · line))
  | .extension _, _, h => by
    obtain ⟨limit, rfl, -⟩ := exists_limit h
    unfold walkImperative ImperativeNode.innerCalls
    exact .imperative hv (.pure _)

/-- A walk through statements makes their calls in order. -/
theorem makes_statements (hv : v.SubstitutesNothing) : ∀ (children : List (ImperativeNode ξ))
    {limit : Nat}, imperativesHeight children ≤ limit →
      v.Makes (statementsCalls children) (each (v.walkImperative limit) children) children
  | [], _, _ => .pure []
  | child :: children, limit, h => by
    obtain ⟨hchild, hchildren⟩ := Nat.max_le.mp h
    unfold statementsCalls each
    exact (makes_imperative hv child hchild).bind
      ((makes_statements hv children hchildren).andPure (child :: ·))

/-- Walking a manipulation node asks for its calls and returns it. -/
theorem makes_manipulation (hv : v.SubstitutesNothing) : ∀ (n : ManipulationNode ξ) {limit : Nat},
    n.height ≤ limit →
      v.Makes (bracket (.manipulation n) n.innerCalls) (v.walkManipulation limit n) n
  | .imperative body line, _, h => by
    obtain ⟨limit, rfl, hbody⟩ := exists_limit h
    unfold walkManipulation ManipulationNode.innerCalls
    exact .manipulation hv
      ((makes_imperative hv body hbody).andPure (ManipulationNode.imperative · line))
  | .assign property value line, _, h => by
    obtain ⟨limit, rfl, hvalue⟩ := exists_limit h
    unfold walkManipulation ManipulationNode.innerCalls
    exact .manipulation hv
      ((makes_value hv value hvalue).andPure (ManipulationNode.assign property · line))
  | .group children line, _, h => by
    obtain ⟨limit, rfl, hchildren⟩ := exists_limit h
    unfold walkManipulation ManipulationNode.innerCalls
    exact .manipulation hv
      ((makes_group hv children hchildren).andPure (ManipulationNode.group · line))
  | .extension _, _, h => by
    obtain ⟨limit, rfl, -⟩ := exists_limit h
    unfold walkManipulation ManipulationNode.innerCalls
    exact .manipulation hv (.pure _)

/-- A walk through the children of a group makes their calls in order. -/
theorem makes_group (hv : v.SubstitutesNothing) : ∀ (children : List (ManipulationNode ξ))
    {limit : Nat}, manipulationsHeight children ≤ limit →
      v.Makes (groupCalls children) (each (v.walkManipulation limit) children) children
  | [], _, _ => .pure []
  | child :: children, limit, h => by
    obtain ⟨hchild, hchildren⟩ := Nat.max_le.mp h
    unfold groupCalls each
    exact (makes_manipulation hv child hchild).bind
      ((makes_group hv children hchildren).andPure (child :: ·))

end

/-- Walking a tree makes its calls, from any state and with any room for growth, and gives the tree
back. -/
theorem walk_eq (hv : v.SubstitutesNothing) (n : Node ξ) (s : σ) :
    v.walk n s = some (n, v.performAll n.calls s) := by
  cases n with
  | value n =>
    have hmakes := makes_value hv n (Nat.le_add_right n.height v.growth)
    exact congrArg (Option.map _) (hmakes s)
  | imperative n =>
    have hmakes := makes_imperative hv n (Nat.le_add_right n.height v.growth)
    exact congrArg (Option.map _) (hmakes s)
  | manipulation n =>
    have hmakes := makes_manipulation hv n (Nat.le_add_right n.height v.growth)
    exact congrArg (Option.map _) (hmakes s)

end Walk

end Visitor

/-! ### What a visitor sees -/

namespace Call

/-- The pushed nodes after a call, the innermost first. -/
def chain : List (Node ξ) → Call ξ → List (Node ξ)
  | before, .hook _ => before
  | before, .push n => n :: before
  | before, .pop => before.tail

/-- The node that a hook is called for. -/
def hooked? : Call ξ → Option (Node ξ)
  | .hook n => some n
  | _ => none

/-- The node that is pushed. -/
def pushed? : Call ξ → Option (Node ξ)
  | .push n => some n
  | _ => none

/-- The nodes that some of the calls are made for, each with the nodes that were pushed around
it. -/
def seen (which : Call ξ → Option (Node ξ)) : List (Node ξ) → List (Call ξ) → List (Dispatch ξ)
  | _, [] => []
  | before, c :: cs => ((which c).map (⟨·, before⟩)).toList ++ seen which (c.chain before) cs

/-- Pushes and pops come in pairs, and each push comes right after the hook for the same node. -/
inductive Paired : List (Call ξ) → Prop
  | nil : Paired []
  | node {n : Node ξ} {inner rest : List (Call ξ)} : Paired inner → Paired rest →
      Paired (bracket n inner ++ rest)

theorem seen_append (which : Call ξ → Option (Node ξ)) (before : List (Node ξ))
    (cs cs' : List (Call ξ)) :
    seen which before (cs ++ cs') =
      seen which before cs ++ seen which (cs.foldl chain before) cs' := by
  induction cs generalizing before with
  | nil => rfl
  | cons c cs ih => simp [seen, ih]

namespace Paired

variable {n : Node ξ} {inner cs cs' : List (Call ξ)}

theorem append (h : Paired cs) (h' : Paired cs') : Paired (cs ++ cs') := by
  induction h with
  | nil => exact h'
  | node hinner _ _ ih =>
    rw [List.append_assoc]
    exact .node hinner ih

theorem bracket (h : Paired inner) : Paired (bracket n inner) := by
  have hnode := Paired.node (n := n) h .nil
  rwa [List.append_nil] at hnode

/-- All that was pushed was popped. -/
theorem chain (h : Paired cs) (before : List (Node ξ)) : cs.foldl Call.chain before = before := by
  induction h generalizing before with
  | nil => rfl
  | node _ _ ihinner ihrest =>
    rw [List.foldl_append, ihrest]
    simp [MarkupLowering.bracket, Call.chain, ihinner]

end Paired

end Call

/-- The calls go through the nodes of a walk in order, once with hooks and once with pushes, with
the ancestors of each node pushed around it. -/
structure Call.Covers (calls : List (Call ξ)) (walk : List (Occurrence ξ)) : Prop where
  paired : Call.Paired calls
  hooks : ∀ before, Call.seen Call.hooked? before calls = walk.map (·.dispatched before)
  pushes : ∀ before, Call.seen Call.pushed? before calls = walk.map (·.dispatched before)

/-- The root has around it what was there before, and is itself around the other nodes. -/
theorem map_dispatched_rooted (n : Node ξ) (walk : List (Occurrence ξ)) (before : List (Node ξ)) :
    (rooted n walk).map (·.dispatched before) =
      ⟨n, before⟩ :: walk.map (·.dispatched (n :: before)) := by
  simp [rooted, Occurrence.dispatched, Occurrence.under]

namespace Call.Covers

variable {calls calls' : List (Call ξ)} {walk walk' : List (Occurrence ξ)}

theorem nil : Covers ([] : List (Call ξ)) [] := ⟨.nil, fun _ => rfl, fun _ => rfl⟩

theorem append (h : Covers calls walk) (h' : Covers calls' walk') :
    Covers (calls ++ calls') (walk ++ walk') where
  paired := h.paired.append h'.paired
  hooks before := by
    rw [Call.seen_append, h.paired.chain, h.hooks, h'.hooks, List.map_append]
  pushes before := by
    rw [Call.seen_append, h.paired.chain, h.pushes, h'.pushes, List.map_append]

/-- A node is hooked and pushed before the calls for its children, and popped after them. So it
comes first, and is the outermost one around what they see. -/
theorem bracket (n : Node ξ) (h : Covers calls walk) :
    Covers (bracket n calls) (rooted n walk) where
  paired := h.paired.bracket
  hooks before := by
    rw [map_dispatched_rooted, ← h.hooks]
    simp [MarkupLowering.bracket, Call.seen, Call.seen_append, Call.hooked?, Call.chain]
  pushes before := by
    rw [map_dispatched_rooted, ← h.pushes]
    simp [MarkupLowering.bracket, Call.seen, Call.seen_append, Call.pushed?, Call.chain]

end Call.Covers

mutual

/-- What is asked for the children of a value node goes through the nodes below it. -/
theorem calls_cover_value : ∀ n : ValueNode ξ, Call.Covers n.innerCalls n.descendants
  | .string .. | .localRef .. | .contextLocal .. | .extension _ => .nil
  | .localInit _ value _ | .beginInit value | .cast value _ _ | .parentStack value _ => by
    unfold ValueNode.innerCalls ValueNode.descendants
    exact (calls_cover_value value).bracket _
  | .newObject _ arguments _ => by
    unfold ValueNode.innerCalls ValueNode.descendants
    exact calls_cover_arguments arguments

/-- Each argument is pushed and popped around its calls, and the next one follows. -/
theorem calls_cover_arguments : ∀ values : List (ValueNode ξ),
    Call.Covers (argumentsCalls values) (argumentsWalk values)
  | [] => .nil
  | value :: values => by
    unfold argumentsCalls argumentsWalk
    exact ((calls_cover_value value).bracket _).append (calls_cover_arguments values)

/-- What is asked for the children of an imperative node goes through the nodes below it. -/
theorem calls_cover_imperative : ∀ n : ImperativeNode ξ, Call.Covers n.innerCalls n.descendants
  | .valueManipulation value manipulation _ => by
    unfold ImperativeNode.innerCalls ImperativeNode.descendants
    exact ((calls_cover_value value).bracket _).append
      ((calls_cover_manipulation manipulation).bracket _)
  | .block children _ => by
    unfold ImperativeNode.innerCalls ImperativeNode.descendants
    exact calls_cover_statements children
  | .extension _ => .nil

/-- So is each statement. -/
theorem calls_cover_statements : ∀ children : List (ImperativeNode ξ),
    Call.Covers (statementsCalls children) (statementsWalk children)
  | [] => .nil
  | child :: children => by
    unfold statementsCalls statementsWalk
    exact ((calls_cover_imperative child).bracket _).append (calls_cover_statements children)

/-- What is asked for the children of a manipulation node goes through the nodes below it. -/
theorem calls_cover_manipulation : ∀ n : ManipulationNode ξ, Call.Covers n.innerCalls n.descendants
  | .imperative body _ => by
    unfold ManipulationNode.innerCalls ManipulationNode.descendants
    exact (calls_cover_imperative body).bracket _
  | .assign _ value _ => by
    unfold ManipulationNode.innerCalls ManipulationNode.descendants
    exact (calls_cover_value value).bracket _
  | .group children _ => by
    unfold ManipulationNode.innerCalls ManipulationNode.descendants
    exact calls_cover_group children
  | .extension _ => .nil

/-- So is each child of a group. -/
theorem calls_cover_group : ∀ children : List (ManipulationNode ξ),
    Call.Covers (groupCalls children) (groupWalk children)
  | [] => .nil
  | child :: children => by
    unfold groupCalls groupWalk
    exact ((calls_cover_manipulation child).bracket _).append (calls_cover_group children)

end

/-- What is asked for a tree goes through its nodes. -/
theorem Node.calls_cover (n : Node ξ) : Call.Covers n.calls n.occurrences := by
  unfold Node.calls Node.occurrences
  cases n with
  | value n => exact (calls_cover_value n).bracket _
  | imperative n => exact (calls_cover_imperative n).bracket _
  | manipulation n => exact (calls_cover_manipulation n).bracket _

/-- Keeps account of the pushed nodes, and of what the hooks see, the latest first. -/
def Visitor.recorder : Visitor (List (Node ξ) × List (Dispatch ξ)) ξ where
  onValue n s := (n, (s.1, ⟨.value n, s.1⟩ :: s.2))
  onImperative n s := (n, (s.1, ⟨.imperative n, s.1⟩ :: s.2))
  onManipulation n s := (n, (s.1, ⟨.manipulation n, s.1⟩ :: s.2))
  push n s := (n :: s.1, s.2)
  pop s := (s.1.tail, s.2)

theorem Visitor.substitutesNothing_recorder :
    (recorder : Visitor (List (Node ξ) × List (Dispatch ξ)) ξ).SubstitutesNothing :=
  ⟨fun _ _ => rfl, fun _ _ => rfl, fun _ _ => rfl⟩

theorem Visitor.perform_recorder (c : Call ξ) (before : List (Node ξ)) (log : List (Dispatch ξ)) :
    recorder.perform c (before, log) =
      (c.chain before, ((c.hooked?).map (⟨·, before⟩)).toList ++ log) := by
  cases c with
  | hook n => cases n <;> rfl
  | push n | pop => rfl

theorem Visitor.performAll_recorder (calls : List (Call ξ)) (before : List (Node ξ))
    (log : List (Dispatch ξ)) :
    recorder.performAll calls (before, log) =
      (calls.foldl Call.chain before, (Call.seen Call.hooked? before calls).reverse ++ log) := by
  induction calls generalizing before log with
  | nil => rfl
  | cons c calls ih =>
    have hone (o : Option (Dispatch ξ)) : o.toList.reverse = o.toList := by cases o <;> rfl
    rw [performAll_cons, perform_recorder, ih, List.foldl_cons, Call.seen, List.reverse_append,
      hone, List.append_assoc]

/-- A walk with the recorder ends with the nodes that were pushed before it, and with the
occurrences of the tree in its log. -/
theorem Visitor.walk_recorder (n : Node ξ) (before : List (Node ξ)) (log : List (Dispatch ξ)) :
    recorder.walk n (before, log) =
      some (n, (before, (n.occurrences.map (·.dispatched before)).reverse ++ log)) := by
  rw [walk_eq substitutesNothing_recorder, performAll_recorder, n.calls_cover.paired.chain,
    n.calls_cover.hooks]

/-! ### The main statement -/

/-- Walking and lowering go through the same tree. A visitor that puts nothing in place is asked
for the hook and the push of every node once, in preorder and with every push popped again, and
the tree stays as it was. If the tree is lowered, what was dispatched is what the hooks saw, with
the pushed nodes as ancestors; if lowering fails, it is the first part of that. -/
theorem walk_sees_dispatched [ExtensionCode ξ] {v : Visitor σ ξ} (hv : v.SubstitutesNothing)
    (n : Node ξ) (s : σ) (env : Environment) (expected : Option TypeRef) (state : LowerState ξ) :
    v.walk n s = some (n, v.performAll n.calls s) ∧
    Call.Covers n.calls n.occurrences ∧
    match n.lower env expected state with
    | .ok _ state' => state'.context.trace =
        (Call.seen Call.hooked? state.context.ancestors n.calls).reverse ++ state.context.trace
    | .error _ state' => ∃ seen, seen <+: Call.seen Call.hooked? state.context.ancestors n.calls ∧
        state'.context.trace = seen.reverse ++ state.context.trace := by
  refine ⟨Visitor.walk_eq hv n s, n.calls_cover, ?_⟩
  have htrace := n.trace_lower env expected state
  rw [n.calls_cover.hooks]
  cases hstep : n.lower env expected state with
  | ok effect state' =>
    rw [hstep] at htrace
    exact htrace
  | error err state' =>
    rw [hstep] at htrace
    obtain ⟨seen, hseen, htrace⟩ := htrace
    exact ⟨_, hseen.map _, htrace⟩

/-- Two statements that a value is dropped for. -/
def dropTwice : Node Empty :=
  .manipulation <| .group
    [.imperative (.block [.block [] ⟨3, 1⟩] ⟨2, 1⟩) ⟨2, 1⟩, .imperative (.block [] ⟨4, 1⟩) ⟨4, 1⟩]
    ⟨1, 1⟩

/-- The recorder sees the six nodes as they are dispatched. -/
theorem walk_sees_dispatched_dropTwice :
    (Visitor.recorder : Visitor _ Empty).SubstitutesNothing ∧
    ∃ effect s', dropTwice.lower ⟨.empty, { core := default }⟩ none
        ⟨⟨oneMethod, onlyEmitter⟩, {}⟩ = .ok effect s' ∧
      s'.context.trace.map (·.parents.length) = [2, 1, 3, 2, 1, 0] ∧
      Visitor.recorder.walk dropTwice ([], []) = some (dropTwice, ([], s'.context.trace)) := by
  have hlowers : ∃ effect s', dropTwice.lower ⟨.empty, { core := default }⟩ none
        ⟨⟨oneMethod, onlyEmitter⟩, {}⟩ = .ok effect s' ∧
      s'.context.trace.map (·.parents.length) = [2, 1, 3, 2, 1, 0] := ⟨_, _, rfl, rfl⟩
  obtain ⟨effect, s', hlowers, hlengths⟩ := hlowers
  obtain ⟨hwalk, hcovers, htrace⟩ := walk_sees_dispatched Visitor.substitutesNothing_recorder
    dropTwice ([], []) ⟨.empty, { core := default }⟩ none ⟨⟨oneMethod, onlyEmitter⟩, {}⟩
  rw [hlowers] at htrace
  refine ⟨Visitor.substitutesNothing_recorder, effect, s', hlowers, hlengths, ?_⟩
  rw [hwalk, Visitor.performAll_recorder, hcovers.paired.chain, htrace]

end MarkupLowering
