import TinyCpu.Proofs.Isa.Specificity
import TinyCpu.Proofs.Text.Case

/-!
# Instructions in either case

The reading of an instruction goes through lower case: the form that a line means does not depend
on the case of its letters, and its operand is the same up to case.

* `Operand.lower`, `Match.lower`   what is read of a text, in lower case;
* `Operand.ofText_lower`           the reading of an operand;
* `InstructionSet.resolve?_lower`  the reading of a line.
-/

namespace TinyCpu
open Text

/-! ## Operands -/

theorem sameLetters_lower (s t : Text) : sameLetters s (lower t) = sameLetters s t := by
  unfold sameLetters
  rw [lower_lower]

theorem Register.ofKeyword?_lower (t : Text) :
    Register.ofKeyword? (lower t) = Register.ofKeyword? t := by
  unfold Register.ofKeyword?
  simp only [sameLetters_lower]

namespace Operand

theorem isTokenChar_toLower (c : Char) : isTokenChar c.toLower = isTokenChar c :=
  ignoresCase isTokenChar (by decide) c

protected def lower : Operand → Operand
  | register r t => register r (lower t)
  | value t => value (lower t)
  | memory t => memory (lower t)
  | invalid => invalid

theorem isToken_lower (t : Text) : isToken (lower t) = isToken t := by
  show (!(dropLead '#' (lower t)).isEmpty && (dropLead '#' (lower t)).all isTokenChar)
    = (!(dropLead '#' t).isEmpty && (dropLead '#' t).all isTokenChar)
  rw [dropLead_lower '#' (caseless_of_capitals _ (by decide)), isEmpty_lower,
    all_lower _ isTokenChar_toLower]

theorem ofText_lower (t : Text) : ofText (lower t) = (ofText t).lower := by
  unfold ofText
  rw [Register.ofKeyword?_lower, isToken_lower,
    inside?_lower '[' ']' (caseless_of_capitals _ (by decide)) (caseless_of_capitals _ (by decide))]
  cases Register.ofKeyword? t with
  | some r => rfl
  | none =>
    cases inside? '[' ']' t with
    | some inner =>
      show (if isToken (trim (lower inner)) = true then memory (trim (lower inner)) else invalid)
        = Operand.lower (if isToken (trim inner) = true then memory (trim inner) else invalid)
      rw [trim_lower, isToken_lower]
      split <;> rfl
    | none =>
      show (if isToken t = true then value (lower t) else invalid)
        = Operand.lower (if isToken t = true then value t else invalid)
      split <;> rfl

theorem fits_lower (o : Operand) (s : Slot) : o.lower.fits s = o.fits s := by
  cases o <;> cases s <;> rfl

theorem text?_lower (o : Operand) : o.lower.text? = o.text?.map lower := by
  cases o <;> rfl

end Operand

/-! ## Lines -/

theorem splitMnemonic_lower (t : Text) :
    splitMnemonic (lower t) = (lower (splitMnemonic t).1, lower (splitMnemonic t).2) := by
  unfold splitMnemonic
  rw [trim_lower, cut_lower isBlank isBlank_toLower]
  cases cut isBlank (trim t) with
  | none => rfl
  | some q =>
    show (lower q.1, trim (lower q.2)) = _
    rw [trim_lower]

theorem splitInstruction_lower (t : Text) :
    splitInstruction (lower t) = (lower (splitInstruction t).1, (splitInstruction t).2.map lower) := by
  unfold splitInstruction
  rw [splitMnemonic_lower]
  show (_, if (lower (splitMnemonic t).2).isEmpty = true then []
    else fields ',' (lower (splitMnemonic t).2)) = _
  rw [isEmpty_lower, fields_lower ',' (caseless_of_capitals _ (by decide))]
  by_cases he : (splitMnemonic t).2.isEmpty = true
  · simp only [if_pos he, List.map_nil]
  · simp only [if_neg he]

theorem Operand.ofLine_lower (t : Text) : ofLine (lower t) = (ofLine t).map Operand.lower := by
  unfold ofLine
  rw [splitInstruction_lower, List.map_map, List.map_map]
  exact List.map_congr_left fun s _ => ofText_lower s

namespace Form

theorem fits_lower (f : Form) (mnemonic : Text) (operands : List Operand) :
    f.fits (lower mnemonic) (operands.map Operand.lower) = f.fits mnemonic operands := by
  unfold fits
  rw [sameLetters_lower, List.length_map, List.zip_map_right, List.all_map]
  congr 2
  funext p
  exact p.2.fits_lower p.1

theorem valueText?_lower (f : Form) (operands : List Operand) :
    f.valueText? (operands.map Operand.lower) = (f.valueText? operands).map lower := by
  unfold valueText?
  rw [List.zip_map_right, List.find?_map]
  show Option.bind (Option.map _ ((f.slots.zip operands).find? fun p => !p.1.isRegister)) _ = _
  cases (f.slots.zip operands).find? fun p => !p.1.isRegister with
  | none => rfl
  | some p => exact p.2.text?_lower

end Form

protected def Match.lower (m : Match) : Match := ⟨m.form, m.operand.map lower⟩

theorem InstructionSet.resolve?_lower (set : InstructionSet) (t : Text) :
    set.resolve? (lower t) = (set.resolve? t).map Match.lower := by
  have hsame : set.candidates (splitInstruction (lower t)).1 (Operand.ofLine (lower t))
      = set.candidates (splitInstruction t).1 (Operand.ofLine t) := by
    unfold candidates
    rw [splitInstruction_lower, Operand.ofLine_lower]
    simp only [Form.fits_lower]
  rw [resolve?_eq, resolve?_eq, hsame, Operand.ofLine_lower, Option.map_map]
  congr 1
  funext f
  show Match.mk f (f.valueText? ((Operand.ofLine t).map Operand.lower)) = _
  rw [Form.valueText?_lower]
  rfl

end TinyCpu
