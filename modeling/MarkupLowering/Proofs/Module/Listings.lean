import MarkupLowering.Proofs.Emitter.WellFormed
import MarkupLowering.Proofs.Module.Closure
import Std.Data.String.ToInt

/-!
# MarkupLowering.Proofs.Module.Listings

**Listings can be read back.** A line of a listing has the offset of its instruction, the opcode and
the operand. Only the opcode tells what kind of operand follows, and neither offsets nor numbers
have a fixed width.

* `Instruction.read?` reads a line and `readListing?` a listing. They are specification only, and
  say nothing about texts that are no listings.
* `Instruction.read?_render`: the line of an instruction is read back as the instruction, if the
  operand is of the kind that the opcode declares and is no floating-point number.
* The bodies that emitters install have such operands (`Session.Recorded`), so `listing_lossless`
  has no condition on operands other than that.
-/

namespace MarkupLowering

/-! ### Digits -/

namespace Text.Hex

theorem digitValue_digitChar {d : Nat} (h : d < 16) : digitValue d.digitChar = d := by
  have hall : ∀ d < 16, digitValue (Nat.digitChar d) = d := by decide
  exact hall d h

theorem value_append (ds : List Char) (c : Char) :
    value (ds ++ [c]) = value ds * 16 + digitValue c := by
  simp [value]

/-- Leading zeros do not count. -/
theorem value_zeros (n : Nat) (ds : List Char) : value (List.replicate n '0' ++ ds) = value ds := by
  induction n with
  | zero => rfl
  | succ n ih => simpa [value, List.replicate_succ, digitValue] using ih

/-- The digits of a number denote it. -/
theorem value_toDigits (n : Nat) : value (Nat.toDigits 16 n) = n := by
  induction n using Nat.strongRecOn with
  | ind n ih =>
    rw [Nat.toDigits_eq_if (by decide)]
    split
    · rename_i hlt
      simp [value, digitValue_digitChar hlt]
    · rw [value_append, ih (n / 16) (by omega), digitValue_digitChar (Nat.mod_lt _ (by decide))]
      omega

theorem value_digits (width n : Nat) : value (digits width n) = n := by
  rw [digits, fill, value_zeros, value_toDigits]

/-- A character that is no digit is not among the digits of a number. -/
theorem not_mem_digits {c : Char} (h : ∀ d, Nat.digitChar d ≠ c) (width n : Nat) :
    c ∉ digits width n := by
  have hdigits : ∀ n, c ∉ Nat.toDigits 16 n := by
    intro n
    induction n using Nat.strongRecOn with
    | ind n ih =>
      rw [Nat.toDigits_eq_if (by decide)]
      split
      · simpa using (h n).symm
      · simpa using ⟨ih (n / 16) (by omega), (h (n % 16)).symm⟩
  rw [digits, fill, List.mem_append, List.mem_replicate]
  rintro (⟨-, hc⟩ | hmem)
  · exact h 0 hc.symm
  · exact hdigits n hmem

end Text.Hex

/-! ### Reading -/

/-- The token with a table and a row. -/
def Token.ofTable? (table : String) (row : Nat) : Option Token :=
  [typeDef row, typeRef row, typeSpec row, fieldDef row, methodDef row, memberRef row,
    string row].find? (·.table == table)

/-- Reads a token. -/
def Token.read? (text : List Char) : Option Token := do
  let row ← (String.ofList ((text.dropWhile (· != '#')).drop 1)).toNat?
  ofTable? (String.ofList (text.takeWhile (· != '#'))) row

/-- Reads the operand of an opcode that expects a given type of operand. -/
def OperandType.read? (t : OperandType) (text : List Char) : Option Argument :=
  match t with
  | .none => some .none
  | .shortInt | .int => (String.ofList text).toInt?.map fun value => .int (.ofInt value)
  | .long => (String.ofList text).toInt?.map fun value => .long (.ofInt value)
  | .float | .double => Option.none
  | .string | .field | .method | .type => (Token.read? text).map .token
  | .shortSlot | .slot => do
    let index ← (String.ofList (← ['V', '_'].isPrefixOf? text)).toNat?
    return .slot index.toUInt16
  | .shortArgument | .argument =>
    if text = "this".toList then some .this
    else do
      let index ← (String.ofList (← ['A', '_'].isPrefixOf? text)).toNat?
      return .param index.toUInt16
  | .shortBranch | .branch => do
    let index ← (String.ofList (← ['I', 'L', '#'].isPrefixOf? text)).toNat?
    return .target index

/-- Reads the line of an instruction, without the line end. -/
def Instruction.read? (line : List Char) : Option Instruction := do
  let text ← ['I', 'L', '_'].isPrefixOf? line
  let code ← [':', ' '].isPrefixOf? (text.dropWhile (· != ':'))
  let opcode ← Opcode.ofMnemonic? (String.ofList (code.takeWhile (· != ' ')))
  let argument ← opcode.operandType.read? ((code.dropWhile (· != ' ')).drop 1)
  return ⟨Text.Hex.value (text.takeWhile (· != ':')), opcode, argument⟩

/-- Reads a listing, line by line. -/
def readListing? (text : String) : Option (List Instruction) :=
  (text.toList.splitOn '\n').dropLast.mapM Instruction.read?

/-! ### Operands -/

section Separators

variable {sep : Char} {l : List Char} (h : sep ∉ l) (r : List Char)

include h

theorem takeWhile_ne : (l ++ sep :: r).takeWhile (· != sep) = l := by
  rw [List.takeWhile_append_of_pos]
  · simp
  · intro c hc
    simpa using fun heq : c = sep => h (heq ▸ hc)

theorem dropWhile_ne : (l ++ sep :: r).dropWhile (· != sep) = sep :: r := by
  rw [List.dropWhile_append_of_pos]
  · simp
  · intro c hc
    simpa using fun heq : c = sep => h (heq ▸ hc)

end Separators

theorem Token.ofTable?_table (t : Token) : ofTable? t.table t.row = some t := by
  cases t <;> rfl

/-- Reading a token back, from its table and its row. -/
theorem Token.read?_render (t : Token) : read? t.render.toList = some t := by
  have hsep : '#' ∉ t.table.toList := by cases t <;> simp [table]
  have htext : t.render.toList = t.table.toList ++ '#' :: t.row.repr.toList := by simp [render]
  rw [read?, htext, takeWhile_ne hsep, dropWhile_ne hsep, List.drop_one, List.tail_cons,
    String.ofList_toList, String.ofList_toList, Nat.toNat?_repr]
  exact t.ofTable?_table

theorem toNat?_toDigits (n : Nat) : (String.ofList (Nat.toDigits 10 n)).toNat? = some n := by
  rw [← Nat.repr_eq_ofList_toDigits, Nat.toNat?_repr]

/-- Reading an operand back whose kind the opcode declares. -/
theorem OperandType.read?_render {t : OperandType} {a : Argument} (h : t.admits a = true)
    (ht : t ≠ .float ∧ t ≠ .double) : t.read? a.render.toList = some a := by
  cases a with
  | none | this => cases t <;> first | rfl | cases h
  | float bits => cases t <;> first | exact absurd rfl ht.1 | cases h
  | double bits => cases t <;> first | exact absurd rfl ht.2 | cases h
  | int value | long value => cases t <;> first | cases h; done | simp [read?, Argument.render]
  | token token =>
    have hread := token.read?_render
    cases t <;> first | cases h | simp [read?, Argument.render, hread]
  | slot index =>
    have hread := toNat?_toDigits index.toNat
    cases t <;> first | cases h; done |
      simp [read?, Argument.render, List.isPrefixOf?, hread]
  | param index =>
    have hread := toNat?_toDigits index.toNat
    cases t <;> first | cases h; done |
      simp [read?, Argument.render, List.isPrefixOf?, hread]
  | target index =>
    have hread := toNat?_toDigits index
    cases t <;> first | cases h; done |
      simp [read?, Argument.render, List.isPrefixOf?, hread]

/-! ### Lines -/

theorem Opcode.ofMnemonic?_mnemonic (op : Opcode) : ofMnemonic? op.mnemonic = some op := by
  cases op <;> rfl

/-- Mnemonics have no blanks and no line ends. -/
theorem Opcode.not_mem_mnemonic (op : Opcode) :
    ' ' ∉ op.mnemonic.toList ∧ '\n' ∉ op.mnemonic.toList := by
  cases op <;> decide

/-- Only two opcodes have floating-point operands. -/
theorem Opcode.operandType_of_ne (op : Opcode) (h : op ≠ .ldcR4 ∧ op ≠ .ldcR8) :
    op.operandType ≠ .float ∧ op.operandType ≠ .double := by
  cases op <;> simp [operandType] at h ⊢

namespace Instruction

/-- The operand in a line, with a blank before it. -/
def operandText (a : Argument) : List Char :=
  match a with
  | .none => []
  | a => ' ' :: a.render.toList

theorem toList_render (i : Instruction) :
    i.render.toList = ['I', 'L', '_'] ++ (Text.Hex.digits 4 i.offset ++
      ':' :: ([' '] ++ (i.opcode.mnemonic.toList ++ operandText i.argument))) := by
  obtain ⟨offset, op, a⟩ := i
  cases a <;> simp [render, operandText]

/-- What is behind the blank after the mnemonic is the operand. -/
theorem split_operandText {l : List Char} (hl : ' ' ∉ l) (a : Argument) :
    (l ++ operandText a).takeWhile (· != ' ') = l ∧
      ((l ++ operandText a).dropWhile (· != ' ')).drop 1 = a.render.toList := by
  unfold operandText
  split
  · have hall : ∀ c ∈ l, (c != ' ') = true := by
      intro c hc
      simpa using fun heq : c = ' ' => hl (heq ▸ hc)
    rw [List.takeWhile_append_of_pos hall, List.dropWhile_append_of_pos hall]
    simp [Argument.render]
  · rw [takeWhile_ne hl, dropWhile_ne hl]
    exact ⟨rfl, rfl⟩

/-- The line of an instruction is read back as the instruction. -/
theorem read?_render {i : Instruction} (h : i.opcode.operandType.admits i.argument = true)
    (hop : i.opcode ≠ .ldcR4 ∧ i.opcode ≠ .ldcR8) : read? i.render.toList = some i := by
  have hcolon : ':' ∉ Text.Hex.digits 4 i.offset :=
    Text.Hex.not_mem_digits (fun d => Nat.digitChar_ne _ rfl) 4 i.offset
  obtain ⟨hmnemonic, hoperand⟩ := split_operandText i.opcode.not_mem_mnemonic.1 i.argument
  rw [read?, toList_render]
  simp only [List.cons_append, List.nil_append, List.isPrefixOf?, BEq.rfl, if_true,
    Option.bind_eq_bind, Option.bind_some, takeWhile_ne hcolon, dropWhile_ne hcolon, hmnemonic,
    hoperand, String.ofList_toList, Opcode.ofMnemonic?_mnemonic,
    OperandType.read?_render h (i.opcode.operandType_of_ne hop), Text.Hex.value_digits]
  rfl

end Instruction

/-! ### Line ends -/

theorem not_mem_toDigits (n : Nat) : '\n' ∉ Nat.toDigits 10 n := fun h =>
  absurd (Nat.isDigit_of_mem_toDigits (by decide) (by decide) h) (by decide)

theorem not_mem_repr (n : Int) : '\n' ∉ n.repr.toList := by
  rw [Int.repr_eq_if]
  split
  · simpa using not_mem_toDigits n.toNat
  · simpa using not_mem_toDigits (-n).toNat

/-- An operand has no line end in it. -/
theorem OperandType.not_mem_render {t : OperandType} {a : Argument} (h : t.admits a = true)
    (ht : t ≠ .float ∧ t ≠ .double) : '\n' ∉ a.render.toList := by
  cases a with
  | none | this => decide
  | float bits => cases t <;> first | exact absurd rfl ht.1 | cases h
  | double bits => cases t <;> first | exact absurd rfl ht.2 | cases h
  | int value | long value => exact not_mem_repr value.toInt
  | token token =>
    cases token <;> simp [Argument.render, Token.render, Token.table, not_mem_toDigits]
  | slot index | param index | target index => simp [Argument.render, not_mem_toDigits]

/-- A line has no line end in it. -/
theorem Instruction.not_mem_render {i : Instruction}
    (h : i.opcode.operandType.admits i.argument = true)
    (hop : i.opcode ≠ .ldcR4 ∧ i.opcode ≠ .ldcR8) : '\n' ∉ i.render.toList := by
  have hdigits : '\n' ∉ Text.Hex.digits 4 i.offset :=
    Text.Hex.not_mem_digits (fun d => Nat.digitChar_ne _ rfl) 4 i.offset
  have hargument : '\n' ∉ operandText i.argument := by
    have hrender := OperandType.not_mem_render h (i.opcode.operandType_of_ne hop)
    unfold operandText
    split
    · exact List.not_mem_nil
    · simpa using hrender
  rw [toList_render]
  simp [hdigits, i.opcode.not_mem_mnemonic.2, hargument]

/-! ### Listings -/

/-- A body without floating-point constants, whose operands are of the kinds that the opcodes
declare. -/
def Body.Legible (b : Body) : Prop :=
  ∀ i ∈ b.instructions, i.opcode.operandType.admits i.argument = true ∧
    i.opcode ≠ .ldcR4 ∧ i.opcode ≠ .ldcR8

theorem Body.toList_listing (b : Body) :
    b.listing.toList = b.instructions.toList.flatMap fun i => i.render.toList ++ ['\n'] := by
  have hfold : ∀ (is : List Instruction) (text : String),
      (is.foldl (fun text i => text ++ i.render ++ "\n") text).toList =
        text.toList ++ is.flatMap fun i => i.render.toList ++ ['\n'] := by
    intro is text
    induction is generalizing text with
    | nil => simp
    | cons i is ih => simp [ih]
  rw [listing, ← Array.foldl_toList, hfold]
  rfl

/-- Lines are told apart by their ends. -/
theorem splitOn_lines {is : List Instruction} (h : ∀ i ∈ is, '\n' ∉ i.render.toList) :
    (is.flatMap fun i => i.render.toList ++ ['\n']).splitOn '\n' =
      is.map (·.render.toList) ++ [[]] := by
  induction is with
  | nil => rfl
  | cons i is ih =>
    rw [List.flatMap_cons, List.append_assoc, List.singleton_append,
      List.splitOn_append_cons_self_of_not_mem (h i List.mem_cons_self),
      ih fun j hj => h j (List.mem_cons_of_mem _ hj)]
    rfl

/-- A listing is read back as the instructions. -/
theorem Body.Legible.readListing? {b : Body} (h : b.Legible) :
    readListing? b.listing = some b.instructions.toList := by
  have hlines : ∀ i ∈ b.instructions.toList, '\n' ∉ i.render.toList := fun i hi =>
    Instruction.not_mem_render (h i (by simpa using hi)).1 (h i (by simpa using hi)).2
  have hread : ∀ is : List Instruction, (∀ i ∈ is, Instruction.read? i.render.toList = some i) →
      (is.map (·.render.toList)).mapM Instruction.read? = some is := by
    intro is his
    induction is with
    | nil => rfl
    | cons i is ih =>
      rw [List.map_cons, List.mapM_cons, his i List.mem_cons_self,
        ih fun j hj => his j (List.mem_cons_of_mem _ hj)]
      rfl
  rw [MarkupLowering.readListing?, b.toList_listing, splitOn_lines hlines, List.dropLast_concat]
  exact hread _ fun i hi => Instruction.read?_render (h i (by simpa using hi)).1
    (h i (by simpa using hi)).2

/-! ### Installed bodies -/

theorem ImportTables.Reached.importAll {t : ImportTables} (h : t.Reached) (unit : Nat)
    (log : List Import) : (importAll unit log t).Reached := by
  induction log generalizing t with
  | nil => exact h
  | cons i log ih => exact ih (h.step unit i)

/-- Bodies in the making have histories, and installed bodies were finished after some. -/
structure Session.Recorded (s : Session) : Prop where
  reached : s.module.imports.Reached
  pending : ∀ k e, s.emitters k = some e → ∃ e₀ log, e₀.Fresh ∧
    Run (fun m => m.imports.Reached) e₀ log e
  installed : ∀ row body, s.module.bodyAt row = some body → ∃ log, body.Records log

theorem Session.Recorded.changes {s s' : Session} {a : Action} (hs : s.Recorded)
    (h : s.Changes a s') : s'.Recorded := by
  obtain ⟨imports, htook, -⟩ := h.refers
  refine ⟨?_, fun k e he => ?_, fun row body hbody => ?_⟩
  · rw [htook.imports]
    exact hs.reached.importAll _ _
  · rcases h.emitter_inv he with hold | ⟨owner, hopen⟩ | ⟨r, e₁, t, -, he₁, hr, rfl, -⟩
    · exact hs.pending k e hold
    · exact ⟨e, [], (Module.emitter_inv hopen).1, .start⟩
    · obtain ⟨e₀, log, hfresh, hrun⟩ := hs.pending k e₁ he₁
      exact ⟨e₀, log ++ [r], hfresh, .granted hrun hs.reached hr⟩
  · rcases h.bodyAt_inv hbody with hold | ⟨k, e, he, hfinished⟩
    · exact hs.installed row body hold
    · obtain ⟨e₀, log, hfresh, hrun⟩ := hs.pending k e he
      exact ⟨log, .of_finishedBody (.of_run hfresh hrun) (.of_run hfresh hrun)
        (.of_run hfresh hrun) hfinished⟩

theorem History.recorded {h : Hierarchy} {id : Nat} {name : String} {core : CoreTypes}
    {log : List Turn} {s : Session} (hs : History (.start h id name core) log s) : s.Recorded := by
  refine hs.keeps (fun _ _ _ hs _ hchange => hs.changes hchange) ⟨.empty, nofun, ?_⟩
  intro row body hbody
  cases hbody

/-- Installed bodies are legible, but for floating-point constants. -/
theorem History.legible {h : Hierarchy} {id : Nat} {name : String} {core : CoreTypes}
    {log : List Turn} {s : Session} (hs : History (.start h id name core) log s) {row : Nat}
    {b : Body} (hb : s.module.bodyAt row = some b)
    (hconstants : ∀ i ∈ b.instructions, i.opcode ≠ .ldcR4 ∧ i.opcode ≠ .ldcR8) : b.Legible := by
  obtain ⟨log, hrecords⟩ := hs.recorded.installed row b hb
  intro i hi
  obtain ⟨k, hk⟩ := Array.mem_iff_getElem?.mp hi
  exact ⟨(hrecords.instruction k i hk).admits, hconstants i hi⟩

/-! ### The main statement -/

/-- A listing loses nothing. A line is read back as the instruction that it is the line of, whatever
the offset and the operand, if the operand is of the kind that the opcode declares and is no
floating-point number. Of bodies that emitters installed, in one module or in two, the listing is
read back as the instructions if there are no floating-point constants, so bodies with one listing
have the same instructions. -/
theorem listing_lossless {h h' : Hierarchy} {id id' : Nat} {name name' : String}
    {core core' : CoreTypes} {log log' : List Turn} {s s' : Session}
    (hs : History (.start h id name core) log s) (hs' : History (.start h' id' name' core') log' s')
    {row row' : Nat} {b b' : Body} (hb : s.module.bodyAt row = some b)
    (hb' : s'.module.bodyAt row' = some b')
    (hconstants : ∀ i ∈ b.instructions, i.opcode ≠ .ldcR4 ∧ i.opcode ≠ .ldcR8)
    (hconstants' : ∀ i ∈ b'.instructions, i.opcode ≠ .ldcR4 ∧ i.opcode ≠ .ldcR8) :
    (∀ i : Instruction, i.opcode.operandType.admits i.argument = true →
      i.opcode ≠ .ldcR4 ∧ i.opcode ≠ .ldcR8 → Instruction.read? i.render.toList = some i) ∧
    (∀ i ∈ b.instructions, Instruction.read? i.render.toList = some i) ∧
    readListing? b.listing = some b.instructions.toList ∧
    (b.listing = b'.listing → b.instructions = b'.instructions) := by
  have hread := (hs.legible hb hconstants).readListing?
  have hread' := (hs'.legible hb' hconstants').readListing?
  refine ⟨fun i => Instruction.read?_render, fun i hi => ?_, hread, fun hlisting => ?_⟩
  · obtain ⟨hadmits, hop⟩ := hs.legible hb hconstants i hi
    exact Instruction.read?_render hadmits hop
  · rw [hlisting, hread'] at hread
    exact Array.toList_inj.mp (Option.some.inj hread).symm

/-- The bodies of two sessions, one of which reads a field and the other of which returns. They have
different listings, since they differ. -/
theorem listing_lossless_fieldRead :
    ∃ b b', fieldRead.module.bodyAt 0 = some b ∧ rivals.module.bodyAt 0 = some b' ∧
      readListing? b.listing = some [⟨0, .ldfld, .token (.fieldDef 0)⟩] ∧
      b.listing ≠ b'.listing := by
  have hs := ((((history_oneType.turn (.build (.field firstBuilder default "f" true false))
    (permits_firstBuilder rfl)).turn (.build (.method firstBuilder firstMethod))
    (permits_firstBuilder rfl)).turn (.openEmitter 0 (.method firstMethodRef)) trivial).turn
    (.request 0 (.emit .ldfld (.field firstFieldRef))) rfl).turn (.finish 0) rfl
  have hs' := ((((history_oneType.turn (.build (.method firstBuilder firstMethod))
    (permits_firstBuilder rfl)).turn (.openEmitter 0 (.method firstMethodRef)) trivial).turn
    (.openEmitter 1 (.method firstMethodRef)) trivial).turn (.request 0 (.emit .ret .none))
    rfl).turn (.finish 0) rfl
  obtain ⟨b, hb⟩ : ∃ b, fieldRead.module.bodyAt 0 = some b := ⟨_, rfl⟩
  obtain ⟨b', hb'⟩ : ∃ b', rivals.module.bodyAt 0 = some b' := ⟨_, rfl⟩
  have hcode : b.instructions = #[⟨0, .ldfld, .token (.fieldDef 0)⟩] := by
    cases hb
    rfl
  have hcode' : b'.instructions = #[⟨0, .ret, .none⟩] := by
    cases hb'
    rfl
  obtain ⟨-, -, hread, hequal⟩ := listing_lossless hs hs' hb hb' (by rw [hcode]; decide)
    (by rw [hcode']; decide)
  rw [hcode] at hread
  refine ⟨b, b', hb, hb', hread, fun hlisting => ?_⟩
  rw [hcode, hcode'] at hequal
  exact absurd (hequal hlisting) (by decide)

end MarkupLowering
