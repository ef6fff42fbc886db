import TinyCpu.Isa.InstructionSet

/-!
# Machine code

The bytes of a sequence of instructions can be read in one way only.

* `Instruction`          a form of the CPU's table with its operand bytes;
* `Instruction.decode`   reads an opcode, finds its form and takes the operand bytes of the form;
* `Instruction.decode_flatMap_bytes`   the sequence that the bytes came from is read back.
-/

namespace TinyCpu
open InstructionSet

/-- a form of the CPU's table and as many operand bytes as it has -/
structure Instruction where
  form : Form
  operands : List UInt8
  form_mem : form ∈ table
  length_operands : operands.length = form.operandBytes.toNat

namespace Instruction

@[ext] theorem ext_form {i j : Instruction} (hform : i.form = j.form)
    (hoperands : i.operands = j.operands) : i = j := by
  cases i; cases j; simp_all

def bytes (i : Instruction) : List UInt8 := i.form.opcode :: i.operands

theorem length_bytes_le (i : Instruction) : i.bytes.length ≤ 2 := by
  have h : i.form.operandBytes.toNat ≤ 1 := by
    unfold Form.operandBytes
    cases i.form.encoding <;> decide
  rw [bytes, List.length_cons, i.length_operands]
  omega

theorem length_flatMap_bytes_le (is : List Instruction) :
    (is.flatMap bytes).length ≤ 2 * is.length := by
  induction is with
  | nil => exact Nat.zero_le _
  | cons i is ih =>
    have hi := i.length_bytes_le
    rw [List.flatMap_cons, List.length_append, List.length_cons]
    omega

def formOf? (opcode : UInt8) : Option Form := table.find? fun f => f.opcode == opcode

/-- no two forms of the table have one opcode -/
theorem formOf?_opcode (f : Form) (h : f ∈ table) : formOf? f.opcode = some f := by
  have hall : (table.all fun f => formOf? f.opcode == some f) = true := by decide
  exact eq_of_beq (List.all_eq_true.mp hall f h)

/-- the instructions that the bytes are read as, one after the other: an opcode, and as many bytes
as its form takes -/
def decode (bs : List UInt8) : Option (List Instruction) :=
  match bs with
  | [] => some []
  | opcode :: rest =>
    match hform : formOf? opcode with
    | none => none
    | some f =>
      if hlen : f.operandBytes.toNat ≤ rest.length then
        (decode (rest.drop f.operandBytes.toNat)).map fun is =>
          ⟨f, rest.take f.operandBytes.toNat, List.mem_of_find?_eq_some hform,
            List.length_take_of_le hlen⟩ :: is
      else none
termination_by bs.length
decreasing_by
  rw [List.length_drop, List.length_cons]
  omega

theorem decode_bytes_append (i : Instruction) (rest : List UInt8) :
    decode (i.bytes ++ rest) = (decode rest).map (i :: ·) := by
  have hform := formOf?_opcode i.form i.form_mem
  have hlen : i.form.operandBytes.toNat ≤ (i.operands ++ rest).length := by
    rw [List.length_append, i.length_operands]
    omega
  have hdrop : (i.operands ++ rest).drop i.form.operandBytes.toNat = rest := by
    rw [← i.length_operands, List.drop_left]
  have htake : (i.operands ++ rest).take i.form.operandBytes.toNat = i.operands := by
    rw [← i.length_operands, List.take_left]
  show decode (i.form.opcode :: (i.operands ++ rest)) = _
  rw [decode]
  split
  · next hnone => exact absurd (hform.symm.trans hnone) (by simp)
  · next f hsome =>
    obtain rfl : f = i.form := Option.some.inj (hsome.symm.trans hform)
    rw [dif_pos hlen, hdrop]
    congr 1
    funext is
    congr 1
    exact ext_form rfl htake

/-- **The bytes of instructions are read back as the instructions.** -/
theorem decode_flatMap_bytes (is : List Instruction) : decode (is.flatMap bytes) = some is := by
  induction is with
  | nil => rw [List.flatMap_nil, decode]
  | cons i is ih => rw [List.flatMap_cons, decode_bytes_append, ih, Option.map_some]

end Instruction
end TinyCpu
