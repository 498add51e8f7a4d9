import MutationTester.Proofs.Json.Keeping
import MutationTester.Proofs.Json.Reading
import MutationTester.Storage.FileTree
import MutationTester.Storage.Loading

/-!
# Modules survive their format

What is written of an instruction can be kept, gives the name of its kind back and the fields of that
kind, so the instruction is read again (`Instruction.ofJson?_toJson`), and with it functions and
modules.
-/

set_option autoImplicit false

namespace MutationTester

open Json (Value Fields maxDepth)

/-! ## Instructions -/

theorem BinaryOp.lookup_mnemonic (op : BinaryOp) :
    (Value.text op.mnemonic).asKeptChoice? choices = some op := by
  cases op <;> rfl

theorem Comparison.lookup_mnemonic (c : Comparison) :
    c.toJson.asKeptChoice? choices = some c := by
  cases c <;> rfl

namespace Instruction

theorem asUInt32?_registerToJson (r : Register) : (registerToJson r).asUInt32? = some r :=
  Value.asUInt32?_nat r

theorem asOption?_registerToJson (r : Option Register) :
    (Value.optional registerToJson r).asOption? Value.asUInt32? = some r := by
  have hnull : ∀ r, registerToJson r ≠ .null := by
    intro r hr
    cases hr
  exact Value.asOption?_optional hnull fun r _ => asUInt32?_registerToJson r

theorem asList?_registerToJson (rs : List Register) :
    (Value.list registerToJson rs).asList? Value.asUInt32? = some rs :=
  Value.asList?_list fun r _ => asUInt32?_registerToJson r

/-- The name of the kind is taken from what is written of an instruction, and its fields are left. -/
theorem splitKind?_toJson (i : Instruction) :
    splitKind? i.toJson = some (i.kindName, .record i.fieldsToJson) := by
  cases i <;> rfl

/-- The fields of an instruction are read as those of its kind. -/
theorem ofFields?_fieldsToJson (i : Instruction) :
    ofFields? i.kindName (.record i.fieldsToJson) = some i := by
  cases i with
  | const dst value =>
    simp only [kindName, ofFields?, Option.bind_eq_bind, Option.bind_eq_some_iff]
    exact ⟨_, Fields.ofValue?_record (by decide) rfl,
      _, (Fields.required?_of_lookup rfl _).trans (asUInt32?_registerToJson dst),
      _, (Fields.required?_of_lookup rfl _).trans (Value.asInt64?_int value), rfl⟩
  | binary kind dst lhs rhs =>
    simp only [kindName, ofFields?, Option.bind_eq_bind, Option.bind_eq_some_iff]
    exact ⟨_, Fields.ofValue?_record (by decide) rfl,
      _, (Fields.required?_of_lookup rfl _).trans kind.lookup_mnemonic,
      _, (Fields.required?_of_lookup rfl _).trans (asUInt32?_registerToJson dst),
      _, (Fields.required?_of_lookup rfl _).trans (asUInt32?_registerToJson lhs),
      _, (Fields.required?_of_lookup rfl _).trans (asUInt32?_registerToJson rhs), rfl⟩
  | compare pred dst lhs rhs =>
    simp only [kindName, ofFields?, Option.bind_eq_bind, Option.bind_eq_some_iff]
    exact ⟨_, Fields.ofValue?_record (by decide) rfl,
      _, (Fields.required?_of_lookup rfl _).trans pred.lookup_mnemonic,
      _, (Fields.required?_of_lookup rfl _).trans (asUInt32?_registerToJson dst),
      _, (Fields.required?_of_lookup rfl _).trans (asUInt32?_registerToJson lhs),
      _, (Fields.required?_of_lookup rfl _).trans (asUInt32?_registerToJson rhs), rfl⟩
  | call dst callee args =>
    simp only [kindName, ofFields?, Option.bind_eq_bind, Option.bind_eq_some_iff]
    exact ⟨_, Fields.ofValue?_record (by decide) rfl,
      _, (Fields.withDefault?_of_lookup rfl _ _).trans (asOption?_registerToJson dst),
      _, (Fields.required?_of_lookup rfl _).trans (Value.asString?_text callee),
      _, (Fields.withDefault?_of_lookup rfl _ _).trans (asList?_registerToJson args), rfl⟩
  | jump target =>
    simp only [kindName, ofFields?, Option.bind_eq_bind, Option.bind_eq_some_iff]
    exact ⟨_, Fields.ofValue?_record (by decide) rfl,
      _, (Fields.required?_of_lookup rfl _).trans (Value.asUInt64?_nat target), rfl⟩
  | branch cond thenTo elseTo =>
    simp only [kindName, ofFields?, Option.bind_eq_bind, Option.bind_eq_some_iff]
    exact ⟨_, Fields.ofValue?_record (by decide) rfl,
      _, (Fields.required?_of_lookup rfl _).trans (asUInt32?_registerToJson cond),
      _, (Fields.required?_of_lookup rfl _).trans (Value.asUInt64?_nat thenTo),
      _, (Fields.required?_of_lookup rfl _).trans (Value.asUInt64?_nat elseTo), rfl⟩
  | ret value =>
    simp only [kindName, ofFields?, Option.bind_eq_bind, Option.bind_eq_some_iff]
    exact ⟨_, Fields.ofValue?_record (by decide) rfl,
      _, (Fields.withDefault?_of_lookup rfl _ _).trans (asOption?_registerToJson value), rfl⟩
  | assert cond =>
    simp only [kindName, ofFields?, Option.bind_eq_bind, Option.bind_eq_some_iff]
    exact ⟨_, Fields.ofValue?_record (by decide) rfl,
      _, (Fields.required?_of_lookup rfl _).trans (asUInt32?_registerToJson cond), rfl⟩
  | print value =>
    simp only [kindName, ofFields?, Option.bind_eq_bind, Option.bind_eq_some_iff]
    exact ⟨_, Fields.ofValue?_record (by decide) rfl,
      _, (Fields.required?_of_lookup rfl _).trans (asUInt32?_registerToJson value), rfl⟩
  | load dst addr =>
    simp only [kindName, ofFields?, Option.bind_eq_bind, Option.bind_eq_some_iff]
    exact ⟨_, Fields.ofValue?_record (by decide) rfl,
      _, (Fields.required?_of_lookup rfl _).trans (asUInt32?_registerToJson dst),
      _, (Fields.required?_of_lookup rfl _).trans (asUInt32?_registerToJson addr), rfl⟩
  | store addr value =>
    simp only [kindName, ofFields?, Option.bind_eq_bind, Option.bind_eq_some_iff]
    exact ⟨_, Fields.ofValue?_record (by decide) rfl,
      _, (Fields.required?_of_lookup rfl _).trans (asUInt32?_registerToJson addr),
      _, (Fields.required?_of_lookup rfl _).trans (asUInt32?_registerToJson value), rfl⟩
  | abort => rfl
  | nop => rfl

/-- What is written of an instruction can be kept: its numbers are words, and only the arguments of
a call nest in it. -/
theorem isEvaluable_toJson (i : Instruction) (room : Nat) :
    i.toJson.isEvaluable (room + 2) = true := by
  have hkind : (Value.text i.kindName).isEvaluable (room + 1) = true := Value.isEvaluable_text _
  have hregister (room : Nat) (r : Register) : (registerToJson r).isEvaluable room = true :=
    Value.isEvaluable_nat (Nat.lt_trans r.toNat_lt (by decide))
  have htarget (t : UInt64) : (Value.nat t.toNat).isEvaluable (room + 1) = true :=
    Value.isEvaluable_nat t.toNat_lt
  have hoption (r : Option Register) :
      (Value.optional registerToJson r).isEvaluable (room + 1) = true :=
    Value.isEvaluable_optional fun r _ => hregister _ r
  have hfields : ∀ field ∈ i.fieldsToJson, field.2.isEvaluable (room + 1) = true := by
    cases i with
    | const dst value =>
      have hvalue : (Value.int value.toInt).isEvaluable (room + 1) = true := by
        have hle := value.le_toInt
        have hlt := value.toInt_lt
        exact Value.isEvaluable_int (show value.toInt.natAbs < 2 ^ 64 by omega)
      simp [fieldsToJson, hregister, hvalue]
    | call dst callee args =>
      have hargs : (Value.list registerToJson args).isEvaluable (room + 1) = true :=
        Value.isEvaluable_list fun r _ => hregister _ r
      simp [fieldsToJson, hoption, hargs, Value.isEvaluable_text]
    | _ =>
      simp [fieldsToJson, Comparison.toJson, hregister, htarget, hoption, Value.isEvaluable_text]
  exact Value.isEvaluable_record (List.forall_mem_cons.mpr ⟨hkind, hfields⟩)

/-- An instruction is read as it was written, as long as there is room for two levels of nesting. -/
theorem ofJson?_toJson (i : Instruction) {depth : Nat} (h : depth + 2 ≤ maxDepth) :
    ofJson? depth i.toJson = some i := by
  obtain ⟨room, hroom⟩ : ∃ room, maxDepth - depth = room + 2 := ⟨maxDepth - depth - 2, by omega⟩
  unfold ofJson?
  rw [hroom, if_pos (i.isEvaluable_toJson room), splitKind?_toJson]
  exact i.ofFields?_fieldsToJson

end Instruction

/-! ## Functions and modules -/

theorem Func.ofJson?_toJson (f : Func) : ofJson? f.toJson = some f := by
  have hbody : (Value.list Instruction.toJson f.body).asList? (Instruction.ofJson? 4) =
      some f.body := Value.asList?_list fun i _ => i.ofJson?_toJson (by decide)
  unfold ofJson?
  simp only [Option.bind_eq_bind, Option.bind_eq_some_iff]
  exact ⟨_, Fields.ofValue?_record (by decide) rfl,
    _, (Fields.required?_of_lookup rfl _).trans (Value.asString?_text f.name),
    _, (Fields.withDefault?_of_lookup rfl _ _).trans (Value.asUInt32?_nat f.params),
    _, (Fields.required?_of_lookup rfl _).trans hbody, rfl⟩

namespace Module

theorem ofJson?_toJson (m : Module) : ofJson? m.toJson = some m := by
  have hfunctions : (Value.list Func.toJson m.functions).asList? Func.ofJson? =
      some m.functions := Value.asList?_list fun f _ => f.ofJson?_toJson
  unfold ofJson?
  simp only [Option.bind_eq_bind, Option.bind_eq_some_iff]
  exact ⟨_, Fields.ofValue?_record (by decide) rfl,
    _, (Fields.withDefault?_of_lookup rfl _ _).trans (Value.asString?_text m.name),
    _, (Fields.required?_of_lookup rfl _).trans hfunctions, rfl⟩

theorem parse?_toText (m : Module) : parse? m.toJson.toText = some m := by
  unfold parse?
  rw [Json.parse?_toText]
  exact m.ofJson?_toJson

end Module

/-! ## Files -/

theorem textOfBytes_toUTF8 (s : String) : textOfBytes s.toUTF8 = .ok s := by
  unfold textOfBytes
  rw [fromUTF8?_toUTF8]

/-- The text of a file that a program is loaded from, given its bytes or why there are none. -/
def loadedText (p : Path) (answer : Except FileError ByteArray) : Except Failure String :=
  match answer.bind textOfBytes with
  | .ok text => .ok text
  | .error e => .error (.moduleLoad p (.file e))

section Loading

variable {M : Type → Type} [Monad M] [LawfulMonad M] (fs : FileSystem M) (p : Path)

theorem FileSystem.run_loadText : (fs.loadText p).run = loadedText p <$> fs.read p := by
  unfold loadText readText loadedText
  simp only [bind_pure_comp, liftM_map, bind_map_left, ExceptT.run_bind, ExceptT.run_liftM]
  rw [← bind_pure_comp]
  apply bind_congr
  intro answer
  cases answer.bind textOfBytes with
  | error e => exact ExceptT.run_throw
  | ok text => rfl

/-- What becomes of a file that should hold a module, given its bytes or why there are none. -/
def Module.ofAnswer (answer : Except FileError ByteArray) : Except Failure Module :=
  (loadedText p answer).bind (ofText p)

/-- Loading a module reads its file once and does nothing else with the file system. -/
theorem Module.run_loadModule : (fs.loadModule p).run = ofAnswer p <$> fs.read p := by
  unfold FileSystem.loadModule ofAnswer
  rw [ExceptT.run_bind, fs.run_loadText, ← bind_pure_comp, ← bind_pure_comp, bind_assoc]
  apply bind_congr
  intro answer
  rw [pure_bind]
  cases loadedText p answer with
  | error e => rfl
  | ok text => rfl

theorem Module.ofAnswer_toText (m : Module) :
    ofAnswer p (.ok m.toJson.toText.toUTF8) = .ok (m.named p) := by
  unfold ofAnswer loadedText ofText
  rw [Except.bind, textOfBytes_toUTF8]
  dsimp only [Except.bind]
  rw [parse?_toText]

end Loading

namespace Module

/-- The module format loses nothing. Every module is read again from its text, and from a file that
holds the text, where one without a name is called after the file. Loading does nothing but read the
file. A module that any text holds is also held by the text that is written of it. -/
theorem format_lossless {M : Type → Type} [Monad M] [LawfulMonad M] (fs : FileSystem M)
    (p : Path) :
    (∀ m : Module, parse? m.toJson.toText = some m) ∧
      ((fs.loadModule p).run = ofAnswer p <$> fs.read p ∧
        ∀ m : Module, ofAnswer p (.ok m.toJson.toText.toUTF8) =
          .ok { m with name := if m.name = "" then (p.fileName?.map Path.stem).getD "" else m.name }) ∧
      ∀ (text : String) (m : Module), parse? text = some m → parse? m.toJson.toText = some m := by
  refine ⟨parse?_toText, ⟨run_loadModule fs p, ?_⟩, fun _ m _ => m.parse?_toText⟩
  intro m
  rw [ofAnswer_toText]
  unfold named
  split <;> rfl

/-- A module without a name, with a name that has to be escaped and with numbers of full range. -/
def nameless : Module :=
  ⟨"", [⟨"tab\t\"é\x00", 4294967295, [.const 0 (-9223372036854775808), .jump 18446744073709551615,
    .call none "" [1, 2], .compare .ge 3 4 5, .ret none]⟩]⟩

/-- The file tree in which that module is kept. -/
def namelessTree : FileTree where
  files := [(["lib.json"], nameless.toJson.toText.toUTF8)]

/-- It is loaded with the name of its file. A text that leaves out the name holds a module that
survives as well. -/
theorem nameless_survives :
    parse? nameless.toJson.toText = some nameless ∧
      (FileTree.fileSystem.loadModule "lib.json").run namelessTree =
        (.ok { nameless with name := "lib" }, namelessTree) ∧
      parse? "\x7b\"functions\": []\x7d" = some ⟨"", []⟩ ∧
      parse? (Module.mk "" []).toJson.toText = some ⟨"", []⟩ := by
  obtain ⟨hparse, ⟨hload, hanswer⟩, hback⟩ := format_lossless FileTree.fileSystem "lib.json"
  have hread : FileTree.fileSystem.read "lib.json" namelessTree =
      (.ok nameless.toJson.toText.toUTF8, namelessTree) := by
    rfl
  have htext : parse? "\x7b\"functions\": []\x7d" = some ⟨"", []⟩ := by decide +kernel
  refine ⟨hparse nameless, ?_, htext, hback _ _ htext⟩
  rw [hload]
  show (ofAnswer "lib.json" (FileTree.fileSystem.read "lib.json" namelessTree).1,
    (FileTree.fileSystem.read "lib.json" namelessTree).2) = _
  rw [hread, hanswer nameless]
  rfl

end Module

end MutationTester
