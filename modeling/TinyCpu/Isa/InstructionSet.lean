import TinyCpu.Isa.Form

/-!
# Instruction sets

An instruction set is a table of forms in which no two are ambiguous, so what a line means does not
depend on the order of the table.

* `InstructionSet.ofForms`   checks a table; the first ambiguous pair is the error;
* `InstructionSet.standard`  the instructions of the CPU.
-/

namespace TinyCpu

inductive TableError
  /-- two forms that compete for one text -/
  | ambiguous (first second : Form)
  deriving DecidableEq, Repr

def TableError.message : TableError → String
  | ambiguous f g =>
    s!"instruction forms '{String.ofList f.text}' and '{String.ofList g.text}' can match the same text"

/-- a table without ambiguous pairs -/
structure InstructionSet where
  forms : List Form
  unambiguous : forms.Pairwise fun f g => f.ambiguousWith g = false

namespace InstructionSet

/-- the first form that is ambiguous with a later one, and the first such later one -/
def firstClash? : List Form → Option (Form × Form)
  | [] => none
  | f :: fs =>
    match fs.find? f.ambiguousWith with
    | some g => some (f, g)
    | none => firstClash? fs

theorem firstClash?_eq_none_iff (fs : List Form) :
    firstClash? fs = none ↔ fs.Pairwise fun f g => f.ambiguousWith g = false := by
  induction fs with
  | nil => simp [firstClash?]
  | cons f fs ih =>
    rw [firstClash?, List.pairwise_cons, ← ih]
    split
    · next g hg =>
      simp only [reduceCtorEq, false_iff, not_and]
      intro h
      have hm := List.mem_of_find?_eq_some hg
      have ha := List.find?_some hg
      simp [h g hm] at ha
    · next hn =>
      have hall : ∀ g ∈ fs, f.ambiguousWith g = false := by
        simpa using List.find?_eq_none.mp hn
      exact ⟨fun h => ⟨hall, h⟩, fun h => h.2⟩

def ofForms (forms : List Form) : Except TableError InstructionSet :=
  match h : firstClash? forms with
  | some (f, g) => .error (.ambiguous f g)
  | none => .ok ⟨forms, (firstClash?_eq_none_iff forms).mp h⟩

/-! ## The CPU's instructions -/

/-- a row without an operand byte -/
def implied (mnemonic : String) (slots : List Slot) (opcode : UInt8) : Form :=
  ⟨mnemonic.toList, slots, opcode, .implied⟩

/-- a row with an operand byte -/
def byte (mnemonic : String) (slots : List Slot) (opcode : UInt8) : Form :=
  ⟨mnemonic.toList, slots, opcode, .byte⟩

def table : List Form :=
  [implied "NOP" [] 0x01,
    implied "INPUT" [] 0x02,
    implied "OUTPUT" [] 0x03,
    byte "JMP" [.value] 0x04,
    byte "MOV" [.register .a, .value] 0x06,
    implied "INC" [.register .a] 0x08,
    implied "MOV" [.register .b, .register .a] 0x09,
    implied "ADD" [.register .a, .register .b] 0x0A,
    implied "HALT" [] 0x0C,
    byte "MOV" [.register .sp, .value] 0x0D,
    implied "PUSH" [.register .a] 0x0F,
    implied "POP" [.register .a] 0x13,
    byte "MOV" [.register .a, .memory] 0x16,
    byte "JZ" [.value] 0x1A,
    byte "MOV" [.memory, .register .a] 0x20,
    implied "INC" [.register .b] 0x24,
    implied "DEC" [.register .a] 0x25,
    implied "DEC" [.register .b] 0x26,
    implied "ADD" [.register .b, .register .a] 0x27,
    implied "SUB" [.register .a, .register .b] 0x29,
    implied "SUB" [.register .b, .register .a] 0x2B,
    implied "SWAP" [.register .a, .register .b] 0x2D,
    byte "MOV" [.register .b, .value] 0x30]

def standard : InstructionSet := ⟨table, by decide +kernel⟩

end InstructionSet
end TinyCpu
