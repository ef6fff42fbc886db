import Mathlib.Data.List.Forall2
import Mathlib.Data.List.Nodup
import Mathlib.Data.List.Pairwise
import Mathlib.Data.List.Perm.Basic
import TinyCpu.Isa.Resolve

/-!
# The most specific form

What it means that a line fits a form and that one form is more specific than another, and why the
order of an instruction table does not matter.

* `Form.Matches`     the line has the form's mnemonic and its operands fit the form's slots;
* `Form.Dominates`   slot by slot the same, or a register where the other form takes a value;
* `InstructionSet.specific_of_matches`   of two forms of a set that fit one line, one dominates the
                     other and has more registers;
* `InstructionSet.resolve?_perm`   so the order of the table does not matter.
-/

namespace TinyCpu
open Text

/-! ## Slots -/

theorem all_zip_iff {α β : Type} (p : α × β → Bool) (as : List α) (bs : List β)
    (hlen : as.length = bs.length) :
    (as.zip bs).all p = true ↔ List.Forall₂ (fun a b => p (a, b) = true) as bs := by
  rw [List.forall₂_iff_zip, List.all_eq_true]
  constructor
  · exact fun h => ⟨hlen, fun hab => h _ hab⟩
  · exact fun h x hx => h.2 hx

namespace Slot

/-- the same slot, or a register where the other takes a value -/
def Refines (s t : Slot) : Prop := s = t ∨ (∃ r, s = .register r) ∧ t = .value

theorem refines_iff (s t : Slot) : s.refines t = true ↔ s.Refines t := by
  unfold refines Refines
  cases s <;> cases t <;> simp [isRegister]

theorem overlaps_of_fits (o : Operand) (s t : Slot) (hs : o.fits s = true)
    (ht : o.fits t = true) : s.overlaps t = true := by
  cases o <;> cases s <;> cases t <;> simp_all [Operand.fits, overlaps]

theorem isSome_text?_of_fits (o : Operand) (s : Slot) (h : o.fits s = true)
    (hs : s.isRegister = false) : o.text?.isSome = true := by
  cases s <;> cases o <;> simp_all [Operand.fits, Operand.text?, isRegister]

theorem overlaps_self (s : Slot) : s.overlaps s = true := by
  cases s <;> simp [overlaps]

theorem overlaps_comm (s t : Slot) (h : s.overlaps t = true) : t.overlaps s = true := by
  cases s <;> cases t <;> simp_all [overlaps]

/-- refined slots have no fewer registers, and more of them if any slot differs -/
theorem countP_le_of_refines {ss ts : List Slot} (h : List.Forall₂ Refines ss ts) :
    ts.countP isRegister ≤ ss.countP isRegister ∧
      (ss ≠ ts → ts.countP isRegister < ss.countP isRegister) := by
  induction h with
  | nil => exact ⟨Nat.le_refl _, fun h => absurd rfl h⟩
  | @cons s t ss ts hst _ ih =>
    obtain ⟨hle, hlt⟩ := ih
    rcases hst with rfl | ⟨⟨r, rfl⟩, rfl⟩
    · rw [List.countP_cons, List.countP_cons]
      refine ⟨by omega, fun hne => ?_⟩
      have := hlt fun h => hne (by rw [h])
      omega
    · have hs : (register r :: ss).countP isRegister = ss.countP isRegister + 1 :=
        List.countP_cons_of_pos rfl
      have ht : (value :: ts).countP isRegister = ts.countP isRegister :=
        List.countP_cons_of_neg (by simp [isRegister])
      rw [hs, ht]
      exact ⟨by omega, fun _ => by omega⟩

end Slot

/-! ## Two forms -/

def Operand.ofLine (t : Text) : List Operand := (splitInstruction t).2.map ofText

namespace Form

/-- the line has the form's mnemonic, in any case, and its operands fit the form's slots, one
operand for each slot -/
def Matches (f : Form) (t : Text) : Prop :=
  lower f.mnemonic = lower (splitInstruction t).1 ∧
    List.Forall₂ (fun slot operand => (Operand.ofText operand).fits slot = true)
      f.slots (splitInstruction t).2

/-- every slot is the other's slot or a register where the other takes a value -/
def Dominates (f g : Form) : Prop := List.Forall₂ Slot.Refines f.slots g.slots

theorem matches_iff (f : Form) (t : Text) :
    f.fits (splitInstruction t).1 (Operand.ofLine t) = true ↔ f.Matches t := by
  unfold fits Matches Operand.ofLine
  rw [Bool.and_eq_true, Bool.and_eq_true, sameLetters_iff, beq_iff_eq, and_assoc]
  refine and_congr_right fun _ => ?_
  have hmap := List.forall₂_map_right_iff (R := fun (s : Slot) (o : Operand) => o.fits s = true)
    (f := Operand.ofText) (l := f.slots) (u := (splitInstruction t).2)
  rw [← hmap]
  constructor
  · rintro ⟨hlen, hall⟩
    exact (all_zip_iff _ _ _ hlen).mp hall
  · exact fun h => ⟨h.length_eq, (all_zip_iff _ _ _ h.length_eq).mpr h⟩

theorem sharesText_iff (f g : Form) :
    f.sharesText g = true ↔ lower f.mnemonic = lower g.mnemonic ∧
      List.Forall₂ (fun s t => s.overlaps t = true) f.slots g.slots := by
  unfold sharesText
  rw [Bool.and_eq_true, Bool.and_eq_true, sameLetters_iff, beq_iff_eq, and_assoc]
  refine and_congr_right fun _ => ?_
  constructor
  · rintro ⟨hlen, hall⟩
    exact (all_zip_iff _ _ _ hlen).mp hall
  · exact fun h => ⟨h.length_eq, (all_zip_iff _ _ _ h.length_eq).mpr h⟩

theorem dominates_iff (f g : Form) (hlen : f.slots.length = g.slots.length) :
    f.dominates g = true ↔ f.Dominates g := by
  unfold dominates Dominates
  rw [all_zip_iff _ _ _ hlen]
  simp only [Slot.refines_iff]

theorem ambiguousWith_iff (f g : Form) :
    f.ambiguousWith g = true ↔ f.sharesText g = true ∧
      (f.slots = g.slots ∨ ¬ f.Dominates g ∧ ¬ g.Dominates f) := by
  unfold ambiguousWith
  rw [Bool.and_eq_true]
  refine and_congr_right fun hs => ?_
  have hlen := ((sharesText_iff f g).mp hs).2.length_eq
  rw [Bool.or_eq_true, beq_iff_eq, Bool.not_eq_true', Bool.or_eq_false_iff,
    ← dominates_iff f g hlen, ← dominates_iff g f hlen.symm, Bool.not_eq_true, Bool.not_eq_true]

theorem sharesText_comm (f g : Form) (h : f.sharesText g = true) : g.sharesText f = true := by
  rw [sharesText_iff] at h ⊢
  exact ⟨h.1.symm, h.2.flip.imp fun t s hst => Slot.overlaps_comm s t hst⟩

theorem ambiguousWith_comm (f g : Form) (h : f.ambiguousWith g = true) :
    g.ambiguousWith f = true := by
  rw [ambiguousWith_iff] at h ⊢
  exact ⟨sharesText_comm f g h.1, h.2.imp Eq.symm And.symm⟩

theorem unambiguous_comm (f g : Form) (h : f.ambiguousWith g = false) :
    g.ambiguousWith f = false := by
  rw [← Bool.not_eq_true] at h ⊢
  exact fun hgf => h (ambiguousWith_comm g f hgf)

instance : Std.Symm fun f g : Form => f.ambiguousWith g = false := ⟨unambiguous_comm⟩

theorem ambiguousWith_self (f : Form) : f.ambiguousWith f = true := by
  rw [ambiguousWith_iff, sharesText_iff]
  exact ⟨⟨rfl, List.forall₂_same.mpr fun s _ => s.overlaps_self⟩, .inl rfl⟩

theorem forall₂_overlaps_of_fits {ss ts : List Slot} {operands : List Text}
    (hs : List.Forall₂ (fun slot operand => (Operand.ofText operand).fits slot = true) ss operands)
    (ht : List.Forall₂ (fun slot operand => (Operand.ofText operand).fits slot = true) ts operands) :
    List.Forall₂ (fun s t => s.overlaps t = true) ss ts := by
  induction hs generalizing ts with
  | nil =>
    cases ht with
    | nil => exact .nil
  | cons hs _ ih =>
    cases ht with
    | cons ht hrest => exact .cons (Slot.overlaps_of_fits _ _ _ hs ht) (ih hrest)

theorem sharesText_of_matches (f g : Form) (t : Text) (hf : f.Matches t) (hg : g.Matches t) :
    f.sharesText g = true := by
  rw [sharesText_iff]
  exact ⟨hf.1.trans hg.1.symm, forall₂_overlaps_of_fits hf.2 hg.2⟩

theorem Dominates.registers_lt {f g : Form} (h : f.Dominates g) (hne : f.slots ≠ g.slots) :
    g.registers < f.registers := (Slot.countP_le_of_refines h).2 hne

/-! ## The last of the greatest -/

theorem mostSpecific?_eq_none (fs : List Form) (h : mostSpecific? fs = none) : fs = [] := by
  cases fs with
  | nil => rfl
  | cons f fs =>
    unfold mostSpecific? at h
    cases hm : mostSpecific? fs with
    | none => simp [hm] at h
    | some g =>
      simp only [hm] at h
      split at h <;> simp at h

theorem mostSpecific?_mem (fs : List Form) (f : Form) (h : mostSpecific? fs = some f) : f ∈ fs := by
  induction fs with
  | nil => simp [mostSpecific?] at h
  | cons e fs ih =>
    unfold mostSpecific? at h
    cases hm : mostSpecific? fs with
    | none =>
      simp only [hm] at h
      exact Option.some.inj h ▸ List.mem_cons_self
    | some g =>
      simp only [hm] at h
      split at h
      · exact List.mem_cons_of_mem _ (ih (hm.trans h))
      · exact Option.some.inj h ▸ List.mem_cons_self

theorem mostSpecific?_max (fs : List Form) (f : Form) (h : mostSpecific? fs = some f) :
    ∀ g ∈ fs, g.registers ≤ f.registers := by
  induction fs generalizing f with
  | nil => exact fun _ hg => absurd hg (by simp)
  | cons e fs ih =>
    intro g hg
    unfold mostSpecific? at h
    cases hm : mostSpecific? fs with
    | none =>
      simp only [hm] at h
      rw [mostSpecific?_eq_none fs hm, List.mem_singleton] at hg
      exact Nat.le_of_eq (congrArg registers (hg.trans (Option.some.inj h)))
    | some k =>
      simp only [hm] at h
      have hk := ih k hm
      rcases List.mem_cons.mp hg with rfl | hg'
      · split at h
        · next hle => exact Option.some.inj h ▸ hle
        · exact Option.some.inj h ▸ Nat.le_refl _
      · split at h
        · exact Option.some.inj h ▸ hk g hg'
        · next hnle =>
          have hgk := hk g hg'
          rw [← Option.some.inj h]
          omega

theorem mostSpecific?_of_forall_lt (fs : List Form) (f : Form) (hf : f ∈ fs)
    (hlt : ∀ g ∈ fs, g ≠ f → g.registers < f.registers) : mostSpecific? fs = some f := by
  cases hm : mostSpecific? fs with
  | none => exact absurd hf (by simp [mostSpecific?_eq_none fs hm])
  | some g =>
    have hle := mostSpecific?_max fs g hm f hf
    by_cases hg : g = f
    · rw [hg]
    · have hgf := hlt g (mostSpecific?_mem fs g hm) hg
      omega

end Form

/-! ## Tables -/

namespace InstructionSet

theorem nodup (set : InstructionSet) : set.forms.Nodup :=
  set.unambiguous.imp fun {f g} h heq => by
    rw [heq, Form.ambiguousWith_self] at h
    exact absurd h (by simp)

/-- of two forms of a set that fit one line, one is the more specific -/
theorem specific_of_matches (set : InstructionSet) (f g : Form) (t : Text) (hf : f ∈ set.forms)
    (hg : g ∈ set.forms) (hne : f ≠ g) (hft : f.Matches t) (hgt : g.Matches t) :
    f.Dominates g ∧ g.registers < f.registers ∨ g.Dominates f ∧ f.registers < g.registers := by
  have hamb : f.ambiguousWith g = false := set.unambiguous.forall hf hg hne
  have hnot : ¬ (f.slots = g.slots ∨ ¬ f.Dominates g ∧ ¬ g.Dominates f) := by
    intro h
    have htrue := (Form.ambiguousWith_iff f g).mpr ⟨Form.sharesText_of_matches f g t hft hgt, h⟩
    rw [hamb] at htrue
    exact absurd htrue (by simp)
  have hslots : f.slots ≠ g.slots := fun h => hnot (.inl h)
  by_cases hfg : f.Dominates g
  · exact .inl ⟨hfg, hfg.registers_lt hslots⟩
  · by_cases hgf : g.Dominates f
    · exact .inr ⟨hgf, hgf.registers_lt hslots.symm⟩
    · exact absurd (.inr ⟨hfg, hgf⟩) hnot

theorem ofForms_eq_ok_iff (forms : List Form) (set : InstructionSet) :
    ofForms forms = .ok set ↔ set.forms = forms := by
  unfold ofForms
  split
  · next f g hclash =>
    constructor
    · intro h
      exact absurd h (by simp)
    · rintro rfl
      rw [(firstClash?_eq_none_iff set.forms).mpr set.unambiguous] at hclash
      exact absurd hclash (by simp)
  · constructor
    · intro h
      rw [← Except.ok.inj h]
    · rintro rfl
      rfl

theorem resolve?_eq (set : InstructionSet) (t : Text) :
    set.resolve? t =
      (Form.mostSpecific? (set.candidates (splitInstruction t).1 (Operand.ofLine t))).map
        fun f => ⟨f, f.valueText? (Operand.ofLine t)⟩ := rfl

theorem operand_of_resolve? (set : InstructionSet) (t : Text) (m : Match)
    (h : set.resolve? t = some m) : m.operand = m.form.valueText? (Operand.ofLine t) := by
  rw [resolve?_eq] at h
  obtain ⟨f, -, rfl⟩ := Option.map_eq_some_iff.mp h
  rfl

/-- the form that a line means fits the line and is more specific than every other that does -/
theorem resolve?_specific (set : InstructionSet) (t : Text) (m : Match)
    (h : set.resolve? t = some m) :
    m.form ∈ set.forms ∧ m.form.Matches t ∧ ∀ g ∈ set.forms, g ≠ m.form → g.Matches t →
      m.form.Dominates g ∧ g.registers < m.form.registers := by
  obtain ⟨f, hf, rfl⟩ := Option.map_eq_some_iff.mp h
  obtain ⟨hmem, hfits⟩ := List.mem_filter.mp (Form.mostSpecific?_mem _ f hf)
  have hmatch := (Form.matches_iff f t).mp hfits
  refine ⟨hmem, hmatch, fun g hg hne hgt => ?_⟩
  -- the result has the most registers, so it is not the other one that is more specific
  have hle := Form.mostSpecific?_max _ f hf g
    (List.mem_filter.mpr ⟨hg, (Form.matches_iff g t).mpr hgt⟩)
  rcases set.specific_of_matches f g t hmem hg hne.symm hmatch hgt with h | ⟨_, hlt⟩
  · exact h
  · omega

/-- a form that dominates every form that fits the line is the one that the line means -/
theorem resolve?_of_dominates (set : InstructionSet) (f : Form) (t : Text) (hmem : f ∈ set.forms)
    (hmatch : f.Matches t) (hdom : ∀ g, g.Matches t → f.Dominates g) :
    set.resolve? t = some ⟨f, f.valueText? (Operand.ofLine t)⟩ := by
  have hmost : Form.mostSpecific? (set.candidates (splitInstruction t).1 (Operand.ofLine t))
      = some f := by
    apply Form.mostSpecific?_of_forall_lt
    · exact List.mem_filter.mpr ⟨hmem, (Form.matches_iff f t).mpr hmatch⟩
    · intro g hg hne
      obtain ⟨hgmem, hfits⟩ := List.mem_filter.mp hg
      have hgt := (Form.matches_iff g t).mp hfits
      rcases set.specific_of_matches f g t hmem hgmem hne.symm hmatch hgt with h | ⟨hgf, hlt⟩
      · exact h.2
      · have hle := (Slot.countP_le_of_refines (hdom g hgt)).1
        exact absurd hlt (Nat.not_lt.mpr hle)
  rw [resolve?_eq, hmost]
  rfl

theorem resolve?_eq_none_iff (set : InstructionSet) (t : Text) :
    set.resolve? t = none ↔ ∀ g ∈ set.forms, ¬ g.Matches t := by
  rw [resolve?_eq, Option.map_eq_none_iff]
  constructor
  · intro h g hg hgt
    have hnil := Form.mostSpecific?_eq_none _ h
    exact List.filter_eq_nil_iff.mp hnil g hg ((Form.matches_iff g t).mpr hgt)
  · intro h
    have hnil : set.candidates (splitInstruction t).1 (Operand.ofLine t) = [] :=
      List.filter_eq_nil_iff.mpr fun g hg hfits => h g hg ((Form.matches_iff g t).mp hfits)
    rw [hnil]
    rfl

theorem resolve?_perm (set set' : InstructionSet) (hperm : set'.forms.Perm set.forms) (t : Text) :
    set'.resolve? t = set.resolve? t := by
  have hp : (set'.candidates (splitInstruction t).1 (Operand.ofLine t)).Perm
      (set.candidates (splitInstruction t).1 (Operand.ofLine t)) := hperm.filter _
  rw [resolve?_eq, resolve?_eq]
  congr 1
  cases hm : Form.mostSpecific? (set.candidates (splitInstruction t).1 (Operand.ofLine t)) with
  | none =>
    rw [Form.mostSpecific?_eq_none _ hm] at hp
    rw [hp.eq_nil]
    rfl
  | some f =>
    -- the other table has the same candidates, and `f` has more registers than the rest of them
    have hres : set.resolve? t = some ⟨f, f.valueText? (Operand.ofLine t)⟩ := by
      rw [resolve?_eq, hm]
      rfl
    obtain ⟨-, -, hother⟩ := set.resolve?_specific t _ hres
    refine Form.mostSpecific?_of_forall_lt _ f ?_ fun g hg hne => ?_
    · exact hp.mem_iff.mpr (Form.mostSpecific?_mem _ f hm)
    · obtain ⟨hg', hfits⟩ := List.mem_filter.mp hg
      exact (hother g (hperm.mem_iff.mp hg') hne ((Form.matches_iff g t).mp hfits)).2

/-- **The order of a table does not matter, and a line means the most specific form.**  Every
permutation of an accepted table is accepted and reads every line as the table does.  A line that
fits some form has a meaning, and the form that it means dominates every other form of the table
that fits it, and has more registers than it. -/
theorem resolve?_order_free (forms : List Form) (set : InstructionSet)
    (h : ofForms forms = .ok set) :
    (∀ forms', forms'.Perm forms → ∃ set', ofForms forms' = .ok set' ∧
      ∀ t, set'.resolve? t = set.resolve? t) ∧
    (∀ t, set.resolve? t = none ↔ ∀ g ∈ forms, ¬ g.Matches t) ∧
    ∀ t m, set.resolve? t = some m → ∃ i : Nat, forms[i]? = some m.form ∧ m.form.Matches t ∧
      ∀ (j : Nat) (g : Form), j ≠ i → forms[j]? = some g → g.Matches t →
        m.form.Dominates g ∧ g.registers < m.form.registers := by
  obtain rfl := (ofForms_eq_ok_iff forms set).mp h
  refine ⟨?_, set.resolve?_eq_none_iff, ?_⟩
  · intro forms' hperm
    have hpair : forms'.Pairwise fun f g => f.ambiguousWith g = false :=
      hperm.symm.pairwise set.unambiguous fun {f g} => Form.unambiguous_comm f g
    refine ⟨⟨forms', hpair⟩, (ofForms_eq_ok_iff forms' _).mpr rfl, fun t => ?_⟩
    exact resolve?_perm set ⟨forms', hpair⟩ hperm t
  · intro t m hm
    obtain ⟨hmem, hmatch, hother⟩ := set.resolve?_specific t m hm
    obtain ⟨i, hi⟩ := List.mem_iff_getElem?.mp hmem
    refine ⟨i, hi, hmatch, fun j g hji hj hgt => ?_⟩
    have hne : g ≠ m.form := by
      rintro rfl
      obtain ⟨hlt, _⟩ := List.getElem?_eq_some_iff.mp hj
      exact hji ((List.getElem?_inj hlt set.nodup).mp (hj.trans hi.symm))
    exact hother g (List.mem_iff_getElem?.mpr ⟨j, hj⟩) hne hgt

/-- `mov b, a` moves a register also in the reversed table, though it fits `MOV B, value` too -/
theorem resolve?_order_free_move :
    ofForms table = .ok standard ∧
      (∃ set', ofForms table.reverse = .ok set' ∧
        ∀ t, set'.resolve? t = standard.resolve? t) ∧
      ∃ i : Nat, table[i]? = some (implied "MOV" [.register .b, .register .a] 0x09) ∧
        ∀ (j : Nat) (g : Form), j ≠ i → table[j]? = some g → g.Matches "mov b, a".toList →
          g.registers < 2 := by
  have hok : ofForms table = .ok standard := (ofForms_eq_ok_iff table standard).mpr rfl
  obtain ⟨hperm, -, hspec⟩ := resolve?_order_free table standard hok
  obtain ⟨i, hi, -, hother⟩ := hspec "mov b, a".toList
    ⟨implied "MOV" [.register .b, .register .a] 0x09, none⟩ (by decide +kernel)
  exact ⟨hok, hperm table.reverse table.reverse_perm, i, hi,
    fun j g hji hj hg => (hother j g hji hj hg).2⟩

end InstructionSet
end TinyCpu
