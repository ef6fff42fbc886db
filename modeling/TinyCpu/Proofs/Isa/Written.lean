import TinyCpu.Isa.Resolve
import TinyCpu.Proofs.Text.Lines

/-!
# Instructions as written

A line is split at its first blank and then at its commas.

* `splitInstruction_cases`    a line is a mnemonic alone, or a mnemonic, a blank and operands;
* `written`                   the line with a mnemonic and operands;
* `splitInstruction_written`  a line is read as it was written.
-/

namespace TinyCpu
open Text

/-- an operand that stands between commas as it is -/
structure Operand.Plain (t : Text) : Prop where
  ne_nil : t ≠ []
  trimmed : Trimmed t
  comma : ',' ∉ t

theorem intercalate_trimmed (sep : Text) (operands : List Text) (hne : operands ≠ [])
    (h : ∀ t ∈ operands, Operand.Plain t) :
    sep.intercalate operands ≠ [] ∧ Trimmed (sep.intercalate operands) :=
  trimmed_intercalate sep operands hne fun t ht => ⟨(h t ht).ne_nil, (h t ht).trimmed⟩

def operandList (operands : List Text) : Text := [','].intercalate operands

theorem trimmed_mnemonic_append (mnemonic list : Text) (hne : mnemonic ≠ [])
    (hblank : ∀ c ∈ mnemonic, isBlank c = false) (hlne : list ≠ []) (hltrim : Trimmed list) :
    Trimmed (mnemonic ++ ' ' :: list) := by
  have h := (trimmed_of_forall mnemonic hblank).append hltrim hne hlne [' ']
  rw [List.append_assoc] at h
  exact h

theorem splitInstruction_trim (t : Text) : splitInstruction (trim t) = splitInstruction t := by
  unfold splitInstruction splitMnemonic
  rw [trim_of_trimmed _ (trimmed_trim t)]

/-- a mnemonic without blanks, a blank and some text are read as the mnemonic and the fields of the
text, if there is no blank at the ends -/
theorem splitInstruction_cut (mnemonic : Text) (c : Char) (list : Text)
    (hblank : ∀ c ∈ mnemonic, isBlank c = false) (hc : isBlank c = true)
    (htrim : Trimmed (mnemonic ++ c :: list)) :
    splitInstruction (mnemonic ++ c :: list) = (mnemonic, fields ',' list) := by
  have hsplit : splitMnemonic (mnemonic ++ c :: list) = (mnemonic, trim list) := by
    unfold splitMnemonic
    rw [trim_of_trimmed _ htrim, cut_append isBlank mnemonic c list hblank hc]
  have hne : trim list ≠ [] := by
    intro hnil
    obtain ⟨left, right, hl, hr, heq⟩ := exists_blanks_trim list
    rw [hnil, List.append_nil] at heq
    have hblanks : ∀ x ∈ c :: list, isBlank x = true := by
      intro x hx
      rcases List.mem_cons.mp hx with rfl | hx'
      · exact hc
      · rw [heq] at hx'
        exact (List.mem_append.mp hx').elim (hl x) (hr x)
    have hlast := List.getLast?_eq_some_getLast (List.cons_ne_nil c list)
    have hnot := htrim.2 _ (by rw [List.getLast?_append, hlast]; rfl)
    rw [hblanks _ (List.getLast_mem _)] at hnot
    exact absurd hnot (by simp)
  unfold splitInstruction
  rw [hsplit]
  show (mnemonic, if (trim list).isEmpty = true then [] else fields ',' (trim list)) = _
  rw [if_neg (by simpa using hne), fields_trim ',' (by decide)]

/-- a readable mnemonic, a blank and a trimmed text are read as the mnemonic and the fields of the
text -/
theorem splitInstruction_append (mnemonic list : Text) (hne : mnemonic ≠ [])
    (hblank : ∀ c ∈ mnemonic, isBlank c = false) (hlne : list ≠ []) (hltrim : Trimmed list) :
    splitInstruction (mnemonic ++ ' ' :: list) = (mnemonic, fields ',' list) :=
  splitInstruction_cut mnemonic ' ' list hblank (by decide)
    (trimmed_mnemonic_append mnemonic list hne hblank hlne hltrim)

theorem splitInstruction_mnemonic (mnemonic : Text) (hblank : ∀ c ∈ mnemonic, isBlank c = false) :
    splitInstruction mnemonic = (mnemonic, []) := by
  have hsplit : splitMnemonic mnemonic = (mnemonic, []) := by
    unfold splitMnemonic
    rw [trim_of_trimmed mnemonic (trimmed_of_forall mnemonic hblank),
      (cut_eq_none_iff isBlank mnemonic).mpr hblank]
  unfold splitInstruction
  rw [hsplit]
  rfl

/-- a line is a mnemonic alone, or a mnemonic, a blank and operands -/
theorem splitInstruction_cases (t : Text) :
    splitInstruction t = (trim t, []) ∨ ∃ mnemonic c list, isBlank c = true ∧
      trim t = mnemonic ++ c :: list ∧ splitInstruction t = (mnemonic, fields ',' list) := by
  rw [← splitInstruction_trim t]
  cases hcut : cut isBlank (trim t) with
  | none =>
    exact .inl (splitInstruction_mnemonic (trim t) ((cut_eq_none_iff isBlank (trim t)).mp hcut))
  | some q =>
    obtain ⟨hblank, c, hc, heq⟩ := (cut_eq_some_iff isBlank (trim t) q.1 q.2).mp hcut
    refine .inr ⟨q.1, c, q.2, hc, heq, ?_⟩
    have htrim := trimmed_trim t
    rw [heq] at htrim ⊢
    exact splitInstruction_cut q.1 c q.2 hblank hc htrim

def written (mnemonic : Text) (operands : List Text) : Text :=
  match operands with
  | [] => mnemonic
  | _ => mnemonic ++ ' ' :: operandList operands

theorem splitInstruction_written (mnemonic : Text) (operands : List Text) (hne : mnemonic ≠ [])
    (hblank : ∀ c ∈ mnemonic, isBlank c = false) (hops : ∀ t ∈ operands, Operand.Plain t) :
    splitInstruction (written mnemonic operands) = (mnemonic, operands) := by
  cases operands with
  | nil => exact splitInstruction_mnemonic mnemonic hblank
  | cons t ts =>
    obtain ⟨hlne, hltrim⟩ := intercalate_trimmed [','] (t :: ts) (by simp) hops
    have hfields : fields ',' ([','].intercalate (t :: ts)) = t :: ts :=
      fields_intercalate ',' (t :: ts) (by simp) (fun u hu => (hops u hu).comma)
        fun u hu => (hops u hu).trimmed
    show splitInstruction (mnemonic ++ ' ' :: [','].intercalate (t :: ts)) = _
    rw [splitInstruction_append mnemonic _ hne hblank hlne hltrim, hfields]

end TinyCpu
