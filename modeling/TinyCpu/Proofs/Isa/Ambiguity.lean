import TinyCpu.Proofs.Isa.Specificity
import TinyCpu.Proofs.Isa.Written

/-!
# Ambiguous tables

The check of an instruction table looks at slots only.  Here it is shown to be exact: two forms are
ambiguous if and only if some line fits both and neither is the more specific one.

* `Slot.shared`      an operand that fills two overlapping slots;
* `Form.shared`      a line that fits two forms with overlapping slots;
* `Form.Clash`       some line fits both forms and neither is the more specific one;
* `InstructionSet.ofForms_exact`   a table is refused exactly if it has a clash, and the first one
                     is reported.
-/

namespace TinyCpu
open Text

/-! ## A line for two forms -/

/-- an operand that fills both slots, if they overlap -/
def Slot.shared : Slot → Slot → Text
  | register r, _ => r.keyword
  | _, register r => r.keyword
  | memory, _ => "[0]".toList
  | _, _ => "0".toList

theorem Slot.shared_fits (s t : Slot) (h : s.overlaps t = true) :
    (Operand.ofText (s.shared t)).fits s = true ∧ (Operand.ofText (s.shared t)).fits t = true := by
  revert h
  rcases s with ⟨_ | _ | _⟩ | _ | _ <;> rcases t with ⟨_ | _ | _⟩ | _ | _ <;> decide

theorem Slot.shared_plain (s t : Slot) : Operand.Plain (s.shared t) := by
  have hplain : ∀ u ∈ ["A".toList, "B".toList, "SP".toList, "[0]".toList, "0".toList],
      Operand.Plain u := by
    intro u hu
    have hall : u ≠ [] ∧ (u.all fun c => !isBlank c) = true ∧ ',' ∉ u := by
      revert u
      decide
    refine ⟨hall.1, trimmed_of_forall u fun c hc => ?_, hall.2.2⟩
    simpa using List.all_eq_true.mp hall.2.1 c hc
  apply hplain
  rcases s with ⟨_ | _ | _⟩ | _ | _ <;> rcases t with ⟨_ | _ | _⟩ | _ | _ <;> decide

namespace Form

/-- a line that fits both forms, if their slots overlap -/
def shared (f g : Form) : Text := written f.mnemonic (List.zipWith Slot.shared f.slots g.slots)

theorem forall₂_fits_shared {ss ts : List Slot}
    (h : List.Forall₂ (fun s t => s.overlaps t = true) ss ts) :
    List.Forall₂ (fun slot operand => (Operand.ofText operand).fits slot = true) ss
        (List.zipWith Slot.shared ss ts) ∧
      List.Forall₂ (fun slot operand => (Operand.ofText operand).fits slot = true) ts
        (List.zipWith Slot.shared ss ts) := by
  induction h with
  | nil => exact ⟨.nil, .nil⟩
  | cons hst _ ih =>
    obtain ⟨hs, ht⟩ := Slot.shared_fits _ _ hst
    exact ⟨.cons hs ih.1, .cons ht ih.2⟩

/-- a mnemonic that can be read back: not empty and without blanks -/
def Readable (f : Form) : Prop := f.mnemonic ≠ [] ∧ ∀ c ∈ f.mnemonic, isBlank c = false

instance (f : Form) : Decidable f.Readable :=
  decidable_of_iff (f.mnemonic ≠ [] ∧ (f.mnemonic.all fun c => !isBlank c) = true)
    (by simp [Readable])

theorem matches_shared (f g : Form) (hf : f.Readable) (h : f.sharesText g = true) :
    f.Matches (f.shared g) ∧ g.Matches (f.shared g) := by
  obtain ⟨hmn, hslots⟩ := (sharesText_iff f g).mp h
  have hplain : ∀ t ∈ List.zipWith Slot.shared f.slots g.slots, Operand.Plain t := by
    intro t ht
    obtain ⟨i, hi, rfl⟩ := List.mem_iff_getElem.mp ht
    rw [List.getElem_zipWith]
    exact Slot.shared_plain _ _
  have hsplit := splitInstruction_written f.mnemonic _ hf.1 hf.2 hplain
  obtain ⟨hfits, hgits⟩ := forall₂_fits_shared hslots
  unfold Matches shared
  rw [hsplit]
  exact ⟨⟨rfl, hfits⟩, hmn.symm, hgits⟩

/-- some line fits both forms, and neither is the more specific one -/
def Clash (f g : Form) : Prop :=
  (∃ t, f.Matches t ∧ g.Matches t) ∧ (f.slots = g.slots ∨ ¬ f.Dominates g ∧ ¬ g.Dominates f)

theorem ambiguousWith_iff_clash (f g : Form) (hf : f.Readable) :
    f.ambiguousWith g = true ↔ f.Clash g := by
  rw [ambiguousWith_iff]
  unfold Clash
  refine and_congr_left fun _ => ?_
  constructor
  · exact fun h => ⟨f.shared g, matches_shared f g hf h⟩
  · rintro ⟨t, hft, hgt⟩
    exact sharesText_of_matches f g t hft hgt

end Form

/-! ## The first clash -/

namespace InstructionSet

theorem readable_of_mem_table (f : Form) (h : f ∈ table) : f.Readable := by
  have hall : (table.all fun f => decide f.Readable) = true := by decide
  exact of_decide_eq_true (List.all_eq_true.mp hall f h)

/-- the forms at positions `i < j` of a table stand in the relation -/
def PairAt (r : Form → Form → Prop) (forms : List Form) (i j : Nat) : Prop :=
  i < j ∧ ∃ f g, forms[i]? = some f ∧ forms[j]? = some g ∧ r f g

theorem pairAt_cons_succ (r : Form → Form → Prop) (f : Form) (fs : List Form) (i j : Nat) :
    PairAt r (f :: fs) (i + 1) (j + 1) ↔ PairAt r fs i j := by
  unfold PairAt
  rw [List.getElem?_cons_succ, List.getElem?_cons_succ, Nat.add_lt_add_iff_right]

theorem pairAt_cons_zero (r : Form → Form → Prop) (f : Form) (fs : List Form) (j : Nat) :
    PairAt r (f :: fs) 0 (j + 1) ↔ ∃ g, fs[j]? = some g ∧ r f g := by
  unfold PairAt
  rw [List.getElem?_cons_zero, List.getElem?_cons_succ]
  constructor
  · rintro ⟨-, f', g, hf, hg, h⟩
    rw [← Option.some.inj hf] at h
    exact ⟨g, hg, h⟩
  · rintro ⟨g, hg, h⟩
    exact ⟨Nat.succ_pos j, f, g, rfl, hg, h⟩

theorem pairAt_congr (r r' : Form → Form → Prop) (forms : List Form)
    (h : ∀ f ∈ forms, ∀ g, r f g ↔ r' f g) (i j : Nat) :
    PairAt r forms i j ↔ PairAt r' forms i j := by
  unfold PairAt
  refine and_congr_right fun _ => exists_congr fun f => exists_congr fun g =>
    and_congr_right fun hf => and_congr_right fun _ => ?_
  exact h f (List.mem_iff_getElem?.mpr ⟨i, hf⟩) g

/-- the pair that is found is the first one, by its first position and then by its second -/
theorem firstClash?_first (fs : List Form) (f g : Form) (h : firstClash? fs = some (f, g)) :
    ∃ i j : Nat, i < j ∧ fs[i]? = some f ∧ fs[j]? = some g ∧ f.ambiguousWith g = true ∧
      ∀ i' j', PairAt (fun f g => f.ambiguousWith g = true) fs i' j' →
        i < i' ∨ i = i' ∧ j ≤ j' := by
  induction fs with
  | nil => simp [firstClash?] at h
  | cons e fs ih =>
    unfold firstClash? at h
    cases hfind : fs.find? e.ambiguousWith with
    | some k =>
      simp only [hfind, Option.some.injEq, Prod.mk.injEq] at h
      obtain ⟨rfl, rfl⟩ := h
      obtain ⟨hamb, j, hj, rfl, hbefore⟩ := List.find?_eq_some_iff_getElem.mp hfind
      refine ⟨0, j + 1, Nat.succ_pos j, rfl, List.getElem?_eq_getElem hj, hamb, ?_⟩
      intro i' j' hat
      cases i' with
      | succ i' => exact .inl (Nat.succ_pos i')
      | zero =>
        cases j' with
        | zero => exact absurd hat.1 (Nat.lt_irrefl 0)
        | succ j' =>
          refine .inr ⟨rfl, ?_⟩
          obtain ⟨g, hg, hamb'⟩ := (pairAt_cons_zero _ e fs j').mp hat
          by_contra hlt
          have hno := hbefore j' (by omega)
          obtain ⟨_, hget⟩ := List.getElem?_eq_some_iff.mp hg
          rw [hget, hamb'] at hno
          exact absurd hno (by simp)
    | none =>
      simp only [hfind] at h
      obtain ⟨i, j, hij, hf, hg, hamb, hfirst⟩ := ih h
      refine ⟨i + 1, j + 1, by omega, hf, hg, hamb, ?_⟩
      intro i' j' hat
      cases j' with
      | zero => exact absurd hat.1 (Nat.not_lt_zero i')
      | succ j' =>
        cases i' with
        | zero =>
          obtain ⟨k, hk, hamb'⟩ := (pairAt_cons_zero _ e fs j').mp hat
          exact absurd hamb' (List.find?_eq_none.mp hfind k (List.mem_iff_getElem?.mpr ⟨j', hk⟩))
        | succ i' =>
          have := hfirst i' j' ((pairAt_cons_succ _ e fs i' j').mp hat)
          omega

theorem ofForms_eq_error_iff (forms : List Form) (e : TableError) :
    ofForms forms = .error e ↔ ∃ f g, firstClash? forms = some (f, g) ∧ e = .ambiguous f g := by
  unfold ofForms
  split
  · next f g hclash =>
    rw [hclash]
    constructor
    · intro h
      exact ⟨f, g, rfl, (Except.error.inj h).symm⟩
    · rintro ⟨f', g', h, rfl⟩
      obtain ⟨rfl, rfl⟩ := Prod.mk.inj (Option.some.inj h)
      rfl
  · next hclash =>
    constructor
    · intro h
      exact absurd h (by simp)
    · rintro ⟨f', g', h, -⟩
      exact absurd (hclash.symm.trans h) (by simp)

/-- the error of a refused table names its first clash -/
theorem first_of_ofForms_error (forms : List Form) (hforms : ∀ f ∈ forms, f.Readable)
    (e : TableError) (he : ofForms forms = .error e) :
    ∃ (i j : Nat) (f g : Form), PairAt Form.Clash forms i j ∧
      forms[i]? = some f ∧ forms[j]? = some g ∧
      (∀ i' j', PairAt Form.Clash forms i' j' → i < i' ∨ i = i' ∧ j ≤ j') ∧
      e = .ambiguous f g := by
  have hat := pairAt_congr _ _ forms fun f hf g => Form.ambiguousWith_iff_clash f g (hforms f hf)
  obtain ⟨f, g, hclash, rfl⟩ := (ofForms_eq_error_iff forms e).mp he
  obtain ⟨i, j, hij, hf, hg, hamb, hmin⟩ := firstClash?_first forms f g hclash
  exact ⟨i, j, f, g, (hat i j).mp ⟨hij, f, g, hf, hg, hamb⟩, hf, hg,
    fun i' j' h => hmin i' j' ((hat i' j').mpr h), rfl⟩

theorem ofForms_error_of_clash (forms : List Form) (hforms : ∀ f ∈ forms, f.Readable) (i j : Nat)
    (h : PairAt Form.Clash forms i j) : ∃ e, ofForms forms = .error e := by
  cases hok : ofForms forms with
  | error e => exact ⟨e, rfl⟩
  | ok set =>
    obtain rfl := (ofForms_eq_ok_iff forms set).mp hok
    obtain ⟨hij, f, g, hf, hg, hclash⟩ := h
    obtain ⟨hi, rfl⟩ := List.getElem?_eq_some_iff.mp hf
    obtain ⟨hj, rfl⟩ := List.getElem?_eq_some_iff.mp hg
    have hamb := (Form.ambiguousWith_iff_clash _ _ (hforms _ (List.getElem_mem hi))).mpr hclash
    rw [List.pairwise_iff_getElem.mp set.unambiguous i j hi hj hij] at hamb
    exact absurd hamb (by simp)

/-- **The check of a table is exact.**  A table of mnemonics that are not empty and hold no blank
is refused if and only if two of its forms clash, and the error names the first such pair, by the
position of its first form and then by that of its second, as messages show forms. -/
theorem ofForms_exact (forms : List Form) (hforms : ∀ f ∈ forms, f.Readable) :
    ((∃ e, ofForms forms = .error e) ↔ ∃ i j, PairAt Form.Clash forms i j) ∧
    ∀ e, ofForms forms = .error e → ∃ (i j : Nat) (f g : Form), PairAt Form.Clash forms i j ∧
      forms[i]? = some f ∧ forms[j]? = some g ∧
      (∀ i' j', PairAt Form.Clash forms i' j' → i < i' ∨ i = i' ∧ j ≤ j') ∧ e = .ambiguous f g ∧
      e.message = s!"instruction forms '{String.ofList f.text}' and '{String.ofList g.text}' can match the same text" := by
  refine ⟨⟨?_, ?_⟩, ?_⟩
  · rintro ⟨e, he⟩
    obtain ⟨i, j, -, -, h, -⟩ := first_of_ofForms_error forms hforms e he
    exact ⟨i, j, h⟩
  · rintro ⟨i, j, h⟩
    exact ofForms_error_of_clash forms hforms i j h
  · intro e he
    obtain ⟨i, j, f, g, h, hf, hg, hmin, rfl⟩ := first_of_ofForms_error forms hforms e he
    exact ⟨i, j, f, g, h, hf, hg, hmin, rfl, rfl⟩

/-- a table with two forms that `MOV A, B` fits -/
def crossed : List Form :=
  [implied "NOP" [] 0x01, byte "MOV" [.register .a, .value] 0x06,
    byte "mov" [.value, .register .b] 0x07]

theorem ofForms_exact_crossed :
    (∀ f ∈ crossed, f.Readable) ∧
      (∃ e, ofForms crossed = .error e) ∧ ∃ i j, PairAt Form.Clash crossed i j := by
  have hforms : ∀ f ∈ crossed, f.Readable := by decide
  have herror : ∃ e, ofForms crossed = .error e :=
    ⟨_, (ofForms_eq_error_iff crossed _).mpr ⟨_, _, rfl, rfl⟩⟩
  exact ⟨hforms, herror, (ofForms_exact crossed hforms).1.mp herror⟩

end InstructionSet
end TinyCpu
