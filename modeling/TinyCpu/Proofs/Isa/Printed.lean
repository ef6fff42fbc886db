import TinyCpu.Proofs.Isa.Ambiguity

/-!
# Forms as lines

A form is shown with the word `value` where an operand goes.  `Form.rendered` puts a token in the
place of each, and `Form.filled` the same one everywhere.  The line that comes out means the form it
was made from: the operands tell registers, values and memory addresses apart.

* `Form.rendered`, `Form.filled`   the shown form with tokens in the place of `value`;
* `Form.filled_of_text`           it is the shown form with this word replaced;
* `Operand.ofText_filled`         the reading of a filled slot;
* `InstructionSet.resolve?_filled`   a filled form means this form, with the token as its operand.
-/

namespace TinyCpu
open Text

/-! ## Tokens -/

/-- the characters with a meaning of their own in a line -/
def marks : Text := ",;:[]".toList

namespace Operand

theorem toNat_lt_of_isTokenChar (c : Char) (h : isTokenChar c = true) : c.toNat < 128 := by
  unfold isTokenChar isNameChar Char.isAlphanum Char.isAlpha Char.isUpper Char.isLower
    Char.isDigit at h
  simp only [Bool.or_eq_true, Bool.and_eq_true, decide_eq_true_eq, beq_iff_eq, ge_iff_le,
    UInt32.le_iff_toNat_le] at h
  rcases h with (((((h | h) | h) | rfl) | rfl) | rfl)
  · exact Nat.lt_of_le_of_lt h.2 (by decide)
  · exact Nat.lt_of_le_of_lt h.2 (by decide)
  · exact Nat.lt_of_le_of_lt h.2 (by decide)
  all_goals decide

theorem plain_of_isTokenChar (c : Char) (h : c = '#' ∨ isTokenChar c = true) :
    isBlank c = false ∧ c ∉ marks := by
  rcases h with rfl | h
  · decide
  · have hascii : ∀ n < 128, isTokenChar (Char.ofNat n) = true →
        isBlank (Char.ofNat n) = false ∧ Char.ofNat n ∉ marks := by decide +kernel
    have hc := hascii c.toNat (toNat_lt_of_isTokenChar c h)
    rw [Char.ofNat_toNat] at hc
    exact hc h

/-- a token that is no register keyword -/
structure ValueToken (t : Text) : Prop where
  token : isToken t = true
  keyword : Register.ofKeyword? t = none

theorem ne_nil_of_isToken (t : Text) (h : isToken t = true) : t ≠ [] := by
  rintro rfl
  exact absurd h (by decide)

theorem mem_of_isToken (t : Text) (h : isToken t = true) :
    ∀ c ∈ t, c = '#' ∨ isTokenChar c = true := by
  have hall : (dropLead '#' t).all isTokenChar = true := (Bool.and_eq_true _ _ ▸ h).2
  cases t with
  | nil => exact fun c hc => absurd hc List.not_mem_nil
  | cons d t =>
    intro c hc
    rw [dropLead] at hall
    split at hall
    · next hd =>
      rcases List.mem_cons.mp hc with rfl | hc'
      · exact .inl hd
      · exact .inr (List.all_eq_true.mp hall c hc')
    · exact .inr (List.all_eq_true.mp hall c hc)

theorem plain_of_isToken (t : Text) (h : isToken t = true) :
    ∀ c ∈ t, isBlank c = false ∧ c ∉ marks :=
  fun c hc => plain_of_isTokenChar c (mem_of_isToken t h c hc)

theorem trimmed_of_isToken (t : Text) (h : isToken t = true) : Trimmed t :=
  trimmed_of_forall t fun c hc => (plain_of_isToken t h c hc).1

/-! ## Filled slots -/

theorem ofText_keyword (r : Register) : ofText r.keyword = .register r r.keyword := by
  cases r <;> decide

theorem ofText_token (t : Text) (h : ValueToken t) : ofText t = .value t := by
  have hinside : inside? '[' ']' t = none := by
    cases t with
    | nil => rfl
    | cons c t =>
      have hc : c ∉ marks := (plain_of_isToken _ h.token c List.mem_cons_self).2
      have hne : c ≠ '[' := by
        rintro rfl
        exact hc (by decide)
      exact if_neg fun hand => hne hand.1
  unfold ofText
  rw [h.keyword, hinside]
  show (if isToken t = true then value t else invalid) = value t
  rw [if_pos h.token]

theorem ofText_bracketed (left t right : Text) (hl : Blanks left) (h : isToken t = true)
    (hr : Blanks right) : ofText ('[' :: (left ++ t ++ right) ++ [']']) = .memory t := by
  have hkeyword : Register.ofKeyword? ('[' :: (left ++ t ++ right) ++ [']']) = none := by
    unfold Register.ofKeyword?
    rw [List.find?_eq_none]
    intro r _
    cases r <;> simp [sameLetters, lower, Register.keyword]
  have hinside := (inside?_eq_some_iff '[' ']' _ (left ++ t ++ right)).mpr rfl
  unfold ofText
  rw [hkeyword, hinside]
  show (if isToken (trim (left ++ t ++ right)) = true then memory (trim (left ++ t ++ right))
    else invalid) = memory t
  rw [trim_between left t right hl (trimmed_of_isToken t h) hr, if_pos h]

end Operand

namespace Slot

/-- the slot as it is shown, with `t` in the place of `value` -/
def filled (t : Text) : Slot → Text
  | register r => r.keyword
  | value => t
  | memory => '[' :: t ++ [']']

def operand (t : Text) : Slot → Operand
  | register r => .register r r.keyword
  | value => .value t
  | memory => .memory t

theorem fits_operand (t : Text) (s : Slot) : (s.operand t).fits s = true := by
  cases s <;> simp [operand, Operand.fits]

/-- the operand of a slot fits this slot, and a register also a value slot, but no other one -/
theorem refines_of_fits_operand (t : Text) (s s' : Slot) (h : (s.operand t).fits s' = true) :
    s.Refines s' := by
  cases s <;> cases s' <;> simp_all [operand, Operand.fits, Refines]

theorem text?_operand (t : Text) (s : Slot) (h : s.isRegister = false) :
    (s.operand t).text? = some t := by
  cases s <;> simp_all [operand, Operand.text?, isRegister]

end Slot

theorem Operand.ofText_filled (t : Text) (h : ValueToken t) (s : Slot) :
    ofText (s.filled t) = s.operand t := by
  cases s with
  | register r => exact ofText_keyword r
  | value => exact ofText_token t h
  | memory =>
    have hbracketed := ofText_bracketed [] t [] blanks_nil h.token blanks_nil
    rwa [List.nil_append, List.append_nil] at hbracketed

theorem Slot.mem_filled (t : Text) (s : Slot) (c : Char) (h : c ∈ s.filled t) :
    c ∈ t ∨ c ∈ "ABSP[]".toList := by
  cases s with
  | register r =>
    right
    cases r <;> revert c <;> simp [filled, Register.keyword]
  | value => exact .inl h
  | memory =>
    simp only [filled, List.cons_append, List.mem_cons, List.mem_append, List.not_mem_nil,
      or_false] at h
    rcases h with rfl | h | rfl
    · exact .inr (by decide)
    · exact .inl h
    · exact .inr (by decide)

theorem Slot.plain_filled (t : Text) (h : Operand.isToken t = true) (s : Slot) :
    Operand.Plain (s.filled t) := by
  have hchar : ∀ c ∈ s.filled t, isBlank c = false ∧ c ≠ ',' := by
    intro c hc
    rcases s.mem_filled t c hc with hct | hcs
    · obtain ⟨hblank, hmark⟩ := Operand.plain_of_isToken t h c hct
      refine ⟨hblank, ?_⟩
      rintro rfl
      exact hmark (by decide)
    · have hall : ("ABSP[]".toList.all fun c => !isBlank c && c != ',') = true := by decide
      simpa using List.all_eq_true.mp hall c hcs
  refine ⟨?_, trimmed_of_forall _ fun c hc => (hchar c hc).1, fun hc => (hchar _ hc).2 rfl⟩
  cases s with
  | register r => cases r <;> exact List.cons_ne_nil _ _
  | value => exact Operand.ne_nil_of_isToken t h
  | memory => exact List.cons_ne_nil _ _

theorem Slot.plain_zipWith_filled (ss : List Slot) (ts : List Text)
    (h : ∀ t ∈ ts, Operand.isToken t = true) :
    ∀ u ∈ List.zipWith (fun s t => s.filled t) ss ts, Operand.Plain u := by
  intro u hu
  obtain ⟨i, hi, rfl⟩ := List.mem_iff_getElem.mp hu
  rw [List.getElem_zipWith]
  exact Slot.plain_filled _ (h _ (List.getElem_mem _)) _

theorem Slot.zipWith_filled_replicate (t : Text) (ss : List Slot) :
    List.zipWith (fun s t => s.filled t) ss (List.replicate ss.length t)
      = ss.map (Slot.filled t) := by
  induction ss with
  | nil => rfl
  | cons s ss ih =>
    rw [List.length_cons, List.replicate_succ, List.zipWith_cons_cons, ih, List.map_cons]

theorem Slot.plain_map_filled (t : Text) (h : Operand.isToken t = true) (ss : List Slot) :
    ∀ u ∈ ss.map (Slot.filled t), Operand.Plain u := by
  rw [← Slot.zipWith_filled_replicate t ss]
  refine Slot.plain_zipWith_filled ss _ fun u hu => ?_
  rwa [List.eq_of_mem_replicate hu]

theorem Slot.filled_of_isRegister (s : Slot) (h : s.isRegister = true) (t : Text) :
    s.filled t = s.filled [] := by
  cases s with
  | register r => rfl
  | value => exact absurd h (by decide)
  | memory => exact absurd h (by decide)

theorem Slot.exists_filled_eq (s : Slot) (h : s.isRegister = false) :
    ∃ before after : Text, ∀ t, s.filled t = before ++ t ++ after := by
  cases s with
  | register r => exact absurd h (by simp [isRegister])
  | value => exact ⟨[], [], fun t => (List.append_nil t).symm⟩
  | memory => exact ⟨['['], [']'], fun t => rfl⟩

/-- if one slot is no register, the token stands between two texts that do not depend on it -/
theorem Slot.exists_intercalate_filled_eq (sep : Text) (ss : List Slot)
    (h : ss.countP (fun s => !s.isRegister) = 1) :
    ∃ before after : Text, ∀ t,
      sep.intercalate (ss.map (Slot.filled t)) = before ++ t ++ after := by
  induction ss with
  | nil => exact absurd h (by simp)
  | cons s ss ih =>
    rw [List.countP_cons] at h
    cases hs : s.isRegister with
    | true =>
      rw [hs] at h
      obtain ⟨before, after, heq⟩ := ih h
      cases ss with
      | nil => exact absurd h (by simp)
      | cons s' ss =>
        refine ⟨s.filled [] ++ sep ++ before, after, fun t => ?_⟩
        rw [List.map_cons, List.map_cons, List.intercalate_cons_cons, ← List.map_cons, heq t,
          s.filled_of_isRegister hs t]
        simp only [List.append_assoc]
    | false =>
      rw [hs] at h
      obtain ⟨before, after, heq⟩ := s.exists_filled_eq hs
      have hrest : ∀ t, ss.map (Slot.filled t) = ss.map (Slot.filled []) := by
        have hregisters := List.countP_eq_zero.mp (Nat.succ.inj h)
        intro t
        refine List.map_congr_left fun s' hs' => s'.filled_of_isRegister ?_ t
        simpa using hregisters s' hs'
      cases ss with
      | nil =>
        refine ⟨before, after, fun t => ?_⟩
        rw [List.map_singleton, List.intercalate_singleton, heq t]
      | cons s' ss =>
        refine ⟨before, after ++ sep ++ sep.intercalate ((s' :: ss).map (Slot.filled [])),
          fun t => ?_⟩
        rw [List.map_cons, hrest t, List.map_cons, List.intercalate_cons_cons, heq t]
        simp only [List.append_assoc]

/-! ## Rendered forms -/

namespace Form

/-- the form as it is shown, with a text for each slot in the place of `value` -/
def rendered (f : Form) (ts : List Text) : Text :=
  match f.slots with
  | [] => f.mnemonic
  | slots => f.mnemonic ++ ' ' ::
      ", ".toList.intercalate (List.zipWith (fun s t => s.filled t) slots ts)

section
variable (f : Form) (hf : f.Readable) (ts : List Text) (hlen : ts.length = f.slots.length)
  (h : ∀ t ∈ ts, Operand.isToken t = true)
include hf

theorem rendered_ne_nil : f.rendered ts ≠ [] := by
  unfold rendered
  cases f.slots with
  | nil => exact hf.1
  | cons s ss => exact List.append_ne_nil_of_left_ne_nil hf.1 _

include hlen h

theorem trimmed_rendered : Trimmed (f.rendered ts) := by
  unfold rendered
  cases hslots : f.slots with
  | nil => exact trimmed_of_forall f.mnemonic hf.2
  | cons s ss =>
    obtain ⟨hne, htrim⟩ := intercalate_trimmed [',', ' '] _
      (by rw [← List.length_pos_iff, List.length_zipWith, hlen, hslots]; simp)
      (Slot.plain_zipWith_filled (s :: ss) ts h)
    exact trimmed_mnemonic_append f.mnemonic _ hf.1 hf.2 hne htrim

theorem splitInstruction_rendered :
    splitInstruction (f.rendered ts)
      = (f.mnemonic, List.zipWith (fun s t => s.filled t) f.slots ts) := by
  unfold rendered
  cases hslots : f.slots with
  | nil => exact splitInstruction_mnemonic f.mnemonic hf.2
  | cons s ss =>
    obtain ⟨t, ts, rfl⟩ := List.exists_cons_of_length_pos
      (show 0 < ts.length by rw [hlen, hslots]; exact Nat.succ_pos _)
    have hplain := Slot.plain_zipWith_filled (s :: ss) (t :: ts) h
    obtain ⟨hne, htrim⟩ := intercalate_trimmed [',', ' '] _ (by simp) hplain
    show splitInstruction (f.mnemonic ++ ' ' :: [',', ' '].intercalate
      (List.zipWith (fun s t => s.filled t) (s :: ss) (t :: ts))) = _
    rw [splitInstruction_append f.mnemonic _ hf.1 hf.2 hne htrim, List.zipWith_cons_cons,
      fields_intercalate_blank _ _ (fun u hu => (hplain u hu).comma)
        fun u hu => (hplain u hu).trimmed]

end

/-- the form as it is shown, with `t` in the place of `value` -/
def filled (f : Form) (t : Text) : Text := f.rendered (List.replicate f.slots.length t)

theorem filled_of_slots (f : Form) (t : Text) (h : f.slots ≠ []) :
    f.filled t = f.mnemonic ++ ' ' :: ", ".toList.intercalate (f.slots.map (Slot.filled t)) := by
  rw [← Slot.zipWith_filled_replicate]
  unfold filled rendered
  split
  · next hslots => exact absurd hslots h
  · rfl

theorem filled_of_no_slots (f : Form) (t : Text) (h : f.slots = []) : f.filled t = f.mnemonic := by
  unfold filled rendered
  rw [h]

theorem filled_value (f : Form) : f.filled "value".toList = f.text := by
  have hslot : Slot.filled "value".toList = Slot.text := by
    funext s
    cases s <;> rfl
  unfold text
  split
  · next hslots => exact f.filled_of_no_slots _ hslots
  · next hslots => rw [f.filled_of_slots _ hslots, hslot]

theorem filled_ne_nil (f : Form) (hf : f.Readable) (t : Text) : f.filled t ≠ [] :=
  f.rendered_ne_nil hf _

theorem trimmed_filled (f : Form) (hf : f.Readable) (t : Text) (h : Operand.isToken t = true) :
    Trimmed (f.filled t) := by
  refine f.trimmed_rendered hf _ List.length_replicate fun u hu => ?_
  rwa [List.eq_of_mem_replicate hu]

theorem splitInstruction_filled (f : Form) (hf : f.Readable) (t : Text)
    (h : Operand.isToken t = true) :
    splitInstruction (f.filled t) = (f.mnemonic, f.slots.map (Slot.filled t)) := by
  rw [← Slot.zipWith_filled_replicate]
  refine f.splitInstruction_rendered hf _ List.length_replicate fun u hu => ?_
  rwa [List.eq_of_mem_replicate hu]

theorem exists_filled_eq (f : Form) (h : f.slots.countP (fun s => !s.isRegister) = 1) :
    ∃ before after : Text, ∀ t, f.filled t = before ++ t ++ after := by
  obtain ⟨head, tail, heq⟩ := Slot.exists_intercalate_filled_eq ", ".toList f.slots h
  have hslots : f.slots ≠ [] := by
    intro hnil
    rw [hnil] at h
    exact absurd h (by simp)
  refine ⟨f.mnemonic ++ ' ' :: head, tail, fun t => ?_⟩
  rw [f.filled_of_slots t hslots, heq t]
  simp

/-- if the shown form has the word `value` in one place, filling it is replacing this word -/
theorem filled_of_text (f : Form) (hslots : f.slots.countP (fun s => !s.isRegister) = 1)
    (hcount : f.text.count 'v' = 1) {before after : Text}
    (htext : f.text = before ++ "value".toList ++ after) (t : Text) :
    f.filled t = before ++ t ++ after := by
  obtain ⟨head, tail, heq⟩ := f.exists_filled_eq hslots
  have hcut : ∀ a b : Text, f.text = a ++ "value".toList ++ b →
      cut (· == 'v') f.text = some (a, "alue".toList ++ b) := by
    intro a b hab
    have hnot : ∀ c ∈ a, (c == 'v') = false := by
      have hcount' := hcount
      rw [hab, List.count_append, List.count_append] at hcount'
      have hword : "value".toList.count 'v' = 1 := by decide
      have hzero : a.count 'v' = 0 := by omega
      intro c hc
      rw [beq_eq_false_iff_ne]
      rintro rfl
      exact List.count_eq_zero.mp hzero hc
    have hshape : f.text = a ++ 'v' :: ("alue".toList ++ b) := by
      rw [hab, List.append_assoc]
      rfl
    rw [hshape]
    exact cut_append (· == 'v') a 'v' _ hnot (by decide)
  have hhead := hcut head tail (f.filled_value ▸ heq "value".toList)
  have hsame := Option.some.inj (hhead.symm.trans (hcut before after htext))
  obtain ⟨hbefore, hafter⟩ := Prod.mk.inj hsame
  rw [heq t, hbefore, List.append_cancel_left hafter]

theorem ofLine_filled (f : Form) (hf : f.Readable) (t : Text) (h : Operand.ValueToken t) :
    Operand.ofLine (f.filled t) = f.slots.map (Slot.operand t) := by
  unfold Operand.ofLine
  rw [splitInstruction_filled f hf t h.token, List.map_map]
  exact List.map_congr_left fun s _ => Operand.ofText_filled t h s

theorem matches_filled_iff (f g : Form) (hf : f.Readable) (t : Text) (h : Operand.ValueToken t) :
    g.Matches (f.filled t) ↔ lower g.mnemonic = lower f.mnemonic ∧
      List.Forall₂ (fun s s' => (s'.operand t).fits s = true) g.slots f.slots := by
  unfold Matches
  rw [splitInstruction_filled f hf t h.token, List.forall₂_map_right_iff]
  simp only [Operand.ofText_filled t h]

theorem matches_filled (f : Form) (hf : f.Readable) (t : Text) (h : Operand.ValueToken t) :
    f.Matches (f.filled t) :=
  (matches_filled_iff f f hf t h).mpr ⟨rfl, List.forall₂_same.mpr fun s _ => s.fits_operand t⟩

theorem dominates_of_matches_filled (f g : Form) (hf : f.Readable) (t : Text)
    (h : Operand.ValueToken t) (hg : g.Matches (f.filled t)) : f.Dominates g :=
  ((matches_filled_iff f g hf t h).mp hg).2.flip.imp fun s s' => Slot.refines_of_fits_operand t s s'

theorem find?_zip_operand (t : Text) (ss : List Slot) :
    ((ss.zip (ss.map (Slot.operand t))).find? fun p => !p.1.isRegister).bind (fun p => p.2.text?)
      = if ss.all Slot.isRegister then none else some t := by
  induction ss with
  | nil => rfl
  | cons s ss ih =>
    rw [List.map_cons, List.zip_cons_cons, List.find?_cons, List.all_cons]
    cases hs : s.isRegister with
    | true => simpa using ih
    | false => simpa using s.text?_operand t hs

/-- the operand of a filled form is the token, unless all slots are registers -/
theorem valueText?_filled (f : Form) (hf : f.Readable) (t : Text) (h : Operand.ValueToken t) :
    f.valueText? (Operand.ofLine (f.filled t))
      = if f.slots.all Slot.isRegister then none else some t := by
  unfold valueText?
  rw [f.ofLine_filled hf t h]
  exact find?_zip_operand t f.slots

theorem mem_filled (f : Form) (t : Text) (c : Char) (h : c ∈ f.filled t) :
    c ∈ f.mnemonic ∨ c ∈ t ∨ c ∈ " ,ABSP[]".toList := by
  by_cases hslots : f.slots = []
  · rw [f.filled_of_no_slots t hslots] at h
    exact .inl h
  · rw [f.filled_of_slots t hslots] at h
    rcases List.mem_append.mp h with hm | hrest
    · exact .inl hm
    rcases List.mem_cons.mp hrest with rfl | hlist
    · exact .inr (.inr (by decide))
    rcases mem_intercalate c _ _ hlist with hsep | ⟨u, hu, hcu⟩
    · have hall : ∀ c ∈ ", ".toList, c ∈ " ,ABSP[]".toList := by simp
      exact .inr (.inr (hall c hsep))
    · obtain ⟨s', _, rfl⟩ := List.mem_map.mp hu
      have hall : ∀ c ∈ "ABSP[]".toList, c ∈ " ,ABSP[]".toList := by simp
      rcases s'.mem_filled t c hcu with ht | hs
      · exact .inr (.inl ht)
      · exact .inr (.inr (hall c hs))

end Form

/-- **A filled form means itself.**  A form of a set, filled with a token that is no register
keyword, resolves to this form. -/
theorem InstructionSet.resolve?_filled (set : InstructionSet) (f : Form) (hmem : f ∈ set.forms)
    (hf : f.Readable) (t : Text) (h : Operand.ValueToken t) :
    set.resolve? (f.filled t)
      = some ⟨f, if f.slots.all Slot.isRegister then none else some t⟩ := by
  rw [set.resolve?_of_dominates f (f.filled t) hmem (f.matches_filled hf t h)
    fun g hg => f.dominates_of_matches_filled g hf t h hg, f.valueText?_filled hf t h]

end TinyCpu
