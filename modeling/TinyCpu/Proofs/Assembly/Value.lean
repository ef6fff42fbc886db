import TinyCpu.Assembly.Statement
import TinyCpu.Proofs.Text.Cut
import TinyCpu.Proofs.Text.Literal

/-!
# What operands stand for

The byte of an operand, and what is wrong with an operand that has none, said by its text and by
the exact value of its literal.

* `operandBody_eq_iff`  what stands around the body of an operand;
* `IsLabel`             the bodies that are looked up as labels;
* `operandByte_of_literal`, `operandByte_of_malformed`, `operandByte_of_label`   the three kinds
                        of bodies that are not empty;
* `operandByte_exact`   which operands have a byte, and which byte it is;
* `Blame`               what is wrong with an operand;
* `operandByte_blames`  the fault of an operand is the one to blame, except that a literal of more
                        than 64 bits passes for a malformed one.
-/

namespace TinyCpu
open Text

theorem operandByte_eq (symbols : Symbols) (t : Text) :
    operandByte symbols t =
      if (operandBody t).isEmpty then .error (.malformedNumber (operandBody t))
      else if startsHex (operandBody t) then
        numberByte (operandBody t) ((hex? (operandBody t)).map Int.ofNat)
      else if startsDecimal (operandBody t) then
        numberByte (operandBody t) (decimal? (operandBody t))
      else labelByte (operandBody t) (symbols.address? (operandBody t)) := rfl

/-! ## Bodies -/

theorem operandBody_of_trimmed (body : Text) (hbody : Trimmed body)
    (hmark : body.head? ≠ some '#') : operandBody body = body := by
  unfold operandBody
  rw [trim_of_trimmed body hbody, dropLead_of_head? '#' body hmark, trim_of_trimmed body hbody]

theorem operandBody_between (left t right : Text) (hl : Blanks left) (hr : Blanks right) :
    operandBody (left ++ t ++ right) = operandBody t := by
  unfold operandBody
  rw [trim_append_blanks _ right hr, trim_blanks_append left t hl]

theorem operandBody_marked (left rest : Text) (hl : Blanks left) :
    operandBody (left ++ '#' :: rest) = trim rest := by
  unfold operandBody
  rw [trim_blanks_append left _ hl, trim_cons '#' rest (by decide), dropLead, if_pos rfl,
    trim_trimEnd]

/-- what is cut off an operand: the blanks around it, or around it and a `#` in front of it -/
theorem operandBody_eq_iff (t body : Text) :
    operandBody t = body ↔ Trimmed body ∧
      ((∃ left right, Blanks left ∧ Blanks right ∧ body.head? ≠ some '#' ∧
          t = left ++ body ++ right) ∨
        ∃ left mid right, Blanks left ∧ Blanks mid ∧ Blanks right ∧
          t = left ++ '#' :: (mid ++ body ++ right)) := by
  constructor
  · rintro rfl
    refine ⟨trimmed_trim _, ?_⟩
    obtain ⟨left, right, hl, hr, heq⟩ := exists_blanks_trim t
    by_cases hmark : (trim t).head? = some '#'
    · obtain ⟨rest, hrest⟩ : ∃ rest, trim t = '#' :: rest := List.head?_eq_some_iff.mp hmark
      obtain ⟨mid, tail, hmid, htail, hbody⟩ := exists_blanks_trim rest
      have htext : t = left ++ '#' :: (rest ++ right) := by
        rw [hrest, List.append_assoc] at heq
        exact heq
      have hcut : operandBody t = trim rest := by
        rw [htext, operandBody_marked left _ hl, trim_append_blanks rest right hr]
      refine .inr ⟨left, mid, tail ++ right, hl, hmid, ?_, ?_⟩
      · exact fun c hc => (List.mem_append.mp hc).elim (htail c) (hr c)
      · rw [hcut, ← List.append_assoc, ← hbody]
        exact htext
    · have hcut : operandBody t = trim t :=
        calc operandBody t = operandBody (left ++ trim t ++ right) := congrArg operandBody heq
          _ = operandBody (trim t) := operandBody_between left _ right hl hr
          _ = trim t := operandBody_of_trimmed _ (trimmed_trim t) hmark
      rw [hcut]
      exact .inl ⟨left, right, hl, hr, hmark, heq⟩
  · rintro ⟨hbody, ⟨left, right, hl, hr, hmark, rfl⟩ | ⟨left, mid, right, hl, hm, hr, rfl⟩⟩
    · rw [operandBody_between left body right hl hr, operandBody_of_trimmed body hbody hmark]
    · rw [operandBody_marked left _ hl, trim_between mid body right hm hbody hr]

/-! ## Numbers and addresses -/

theorem ofInt_eq_iff (v : Int) (b : UInt8) : UInt8.ofInt v = b ↔ (b.toNat : Int) = v % 256 := by
  have hbyte : (UInt8.ofInt v).toNat = (v % 256).toNat := by
    unfold UInt8.ofInt
    rw [UInt8.toNat_ofNat']
    show (v % 256).toNat % 256 = (v % 256).toNat
    omega
  rw [← UInt8.toNat_inj, hbyte]
  omega

theorem numberByte_eq_ok_iff (body : Text) (v? : Option Int) (b : UInt8) :
    numberByte body v? = .ok b ↔
      ∃ v, v? = some v ∧ -128 ≤ v ∧ v ≤ 255 ∧ (b.toNat : Int) = v % 256 := by
  cases v? with
  | none => simp [numberByte]
  | some v =>
    by_cases hv : -128 ≤ v ∧ v ≤ 255
    · simp [numberByte, hv, ofInt_eq_iff]
    · simp [numberByte, hv, ← and_assoc]

theorem numberByte_eq_error_iff (body : Text) (v? : Option Int) (e : LineFault) :
    numberByte body v? = .error e ↔ (v? = none ∧ e = .malformedNumber body) ∨
      ∃ v, v? = some v ∧ ¬ (-128 ≤ v ∧ v ≤ 255) ∧ e = .outOfRange body := by
  cases v? with
  | none => simp [numberByte, eq_comm]
  | some v =>
    by_cases hv : -128 ≤ v ∧ v ≤ 255
    · simp [numberByte, hv]
    · simp only [numberByte, Option.some.injEq, exists_eq_left', hv]
      simp [eq_comm]

theorem labelByte_eq_ok_iff (body : Text) (a? : Option UInt32) (b : UInt8) :
    labelByte body a? = .ok b ↔ ∃ a, a? = some a ∧ a.toNat ≤ 255 ∧ b.toNat = a.toNat := by
  cases a? with
  | none => simp [labelByte]
  | some a =>
    have hle : a ≤ 0xFF ↔ a.toNat ≤ 255 := UInt32.le_iff_toNat_le
    by_cases ha : a.toNat ≤ 255
    · have hbyte : a.toUInt8.toNat = a.toNat := by
        rw [UInt32.toNat_toUInt8]
        exact Nat.mod_eq_of_lt (by omega)
      simp [labelByte, hle, ha, ← UInt8.toNat_inj, hbyte, eq_comm]
    · simp [labelByte, hle, ha]

theorem labelByte_eq_error_iff (body : Text) (a? : Option UInt32) (e : LineFault) :
    labelByte body a? = .error e ↔ (a? = none ∧ e = .undefinedLabel body) ∨
      ∃ a, a? = some a ∧ 255 < a.toNat ∧ e = .outOfRange body := by
  cases a? with
  | none => simp [labelByte, eq_comm]
  | some a =>
    have hle : a ≤ 0xFF ↔ a.toNat ≤ 255 := UInt32.le_iff_toNat_le
    by_cases ha : a.toNat ≤ 255
    · simp [labelByte, hle, ha]
    · simp [labelByte, hle, ha, Nat.not_le.mp ha, eq_comm]

/-! ## Kinds of bodies -/

structure IsLabel (body : Text) : Prop where
  ne_nil : body ≠ []
  start : ¬ LiteralStart body

def Narrow (v : Int) : Prop := -2 ^ 63 ≤ v ∧ v < 2 ^ 63

instance (v : Int) : Decidable (Narrow v) :=
  inferInstanceAs (Decidable (-2 ^ 63 ≤ v ∧ v < 2 ^ 63))

section
variable (symbols : Symbols) (t : Text)

theorem operandByte_of_nil (h : operandBody t = []) :
    operandByte symbols t = .error (.malformedNumber (operandBody t)) := by
  rw [operandByte_eq]
  exact if_pos (by rw [h]; rfl)

theorem operandByte_of_hexStart (h : HexStart (operandBody t)) :
    operandByte symbols t = numberByte (operandBody t) ((hex? (operandBody t)).map Int.ofNat) := by
  have hne : (operandBody t).isEmpty = false := by simpa using LiteralStart.ne_nil (.inl h)
  rw [operandByte_eq, hne, (startsHex_iff _).mpr h]
  rfl

theorem operandByte_of_decimalStart (hnot : ¬ HexStart (operandBody t))
    (h : DecimalStart (operandBody t)) :
    operandByte symbols t = numberByte (operandBody t) (decimal? (operandBody t)) := by
  have hne : (operandBody t).isEmpty = false := by simpa using LiteralStart.ne_nil (.inr h)
  have hhex : startsHex (operandBody t) = false := by
    rw [← Bool.not_eq_true, startsHex_iff]
    exact hnot
  rw [operandByte_eq, hne, hhex, (startsDecimal_iff _).mpr h]
  rfl

theorem operandByte_of_label (h : IsLabel (operandBody t)) :
    operandByte symbols t =
      labelByte (operandBody t) (symbols.get? (lower (operandBody t))) := by
  have hne : (operandBody t).isEmpty = false := by simpa using h.ne_nil
  have hhex : startsHex (operandBody t) = false := by
    rw [← Bool.not_eq_true, startsHex_iff]
    exact fun hstart => h.start (.inl hstart)
  have hdecimal : startsDecimal (operandBody t) = false := by
    rw [← Bool.not_eq_true, startsDecimal_iff]
    exact fun hstart => h.start (.inr hstart)
  rw [operandByte_eq, hne, hhex, hdecimal]
  rfl

/-- a literal counts by its value, as long as 64 bits hold it -/
theorem operandByte_of_literal (v : Int) (h : Literal (operandBody t) v) :
    operandByte symbols t = numberByte (operandBody t) (if Narrow v then some v else none) := by
  cases h with
  | @hex n h =>
    have hread : (hex? (operandBody t)).map Int.ofNat
        = if Narrow n then some (n : Int) else none := by
      by_cases hv : Narrow n
      · have hlt : n < 2 ^ 63 := by
          have := hv.2
          omega
        rw [if_pos hv, (hex?_eq_some_iff _ n).mpr ⟨h, hlt⟩]
        rfl
      · rw [if_neg hv, Option.map_eq_none_iff, Option.eq_none_iff_forall_ne_some]
        intro m hm
        obtain ⟨hm, hlt⟩ := (hex?_eq_some_iff _ m).mp hm
        rw [hm.unique h] at hlt
        exact hv ⟨by omega, by omega⟩
    rw [operandByte_of_hexStart symbols t h.hexStart, hread]
  | decimal h =>
    have hread : decimal? (operandBody t) = if Narrow v then some v else none := by
      by_cases hv : Narrow v
      · rw [if_pos hv]
        exact (decimal?_eq_some_iff _ v).mpr ⟨h, hv⟩
      · rw [if_neg hv, Option.eq_none_iff_forall_ne_some]
        intro w hw
        obtain ⟨hw, hnarrow⟩ := (decimal?_eq_some_iff _ w).mp hw
        rw [hw.unique h] at hnarrow
        exact hv hnarrow
    rw [operandByte_of_decimalStart symbols t h.not_hexStart h.decimalStart, hread]

theorem operandByte_of_malformed (hstart : LiteralStart (operandBody t))
    (h : ¬ ∃ v, Literal (operandBody t) v) :
    operandByte symbols t = .error (.malformedNumber (operandBody t)) := by
  by_cases hhex : HexStart (operandBody t)
  · have hnone : hex? (operandBody t) = none := by
      rw [Option.eq_none_iff_forall_ne_some]
      exact fun n hn => h ⟨n, .hex ((hex?_eq_some_iff _ n).mp hn).1⟩
    rw [operandByte_of_hexStart symbols t hhex, hnone]
    rfl
  · have hnone : decimal? (operandBody t) = none := by
      rw [Option.eq_none_iff_forall_ne_some]
      exact fun v hv => h ⟨v, .decimal ((decimal?_eq_some_iff _ v).mp hv).1⟩
    rw [operandByte_of_decimalStart symbols t hhex (hstart.resolve_left hhex), hnone]
    rfl

end

theorem operandBody_cases (body : Text) :
    body = [] ∨ (∃ v, Literal body v) ∨
      (LiteralStart body ∧ ¬ ∃ v, Literal body v) ∨ IsLabel body := by
  by_cases hnil : body = []
  · exact .inl hnil
  by_cases hliteral : ∃ v, Literal body v
  · exact .inr (.inl hliteral)
  by_cases hstart : LiteralStart body
  · exact .inr (.inr (.inl ⟨hstart, hliteral⟩))
  · exact .inr (.inr (.inr ⟨hnil, hstart⟩))

/-! ## Bytes -/

/-- **Which operands have a byte, and which byte it is.**  The body of an operand is what is left of
it without blanks at its ends, one `#` and blanks again (`operandBody_eq_iff`).  A hexadecimal
literal stands for its value up to 255, and a decimal literal for its value from -128 to 255, modulo
256.  What does not start like a literal stands for the address that the table has for it in lower
case, up to 255.  Literals may be of any length, and there is nothing else. -/
theorem operandByte_exact (symbols : Symbols) (t : Text) (b : UInt8) :
    operandByte symbols t = .ok b ↔
      (∃ v : Nat, HexLiteral (operandBody t) v ∧ v ≤ 255 ∧ b.toNat = v) ∨
      (∃ v : Int, DecimalLiteral (operandBody t) v ∧ -128 ≤ v ∧ v ≤ 255 ∧
        (b.toNat : Int) = v % 256) ∨
      (IsLabel (operandBody t) ∧ ∃ a, symbols.get? (lower (operandBody t)) = some a ∧
        a.toNat ≤ 255 ∧ b.toNat = a.toNat) := by
  constructor
  · intro h
    rcases operandBody_cases (operandBody t) with hnil | ⟨v, hv⟩ | ⟨hstart, hnot⟩ | hlabel
    · rw [operandByte_of_nil symbols t hnil] at h
      exact absurd h (by simp)
    · rw [operandByte_of_literal symbols t v hv, numberByte_eq_ok_iff] at h
      obtain ⟨w, hw, hlo, hhi, hb⟩ := h
      split at hw
      · obtain rfl := Option.some.inj hw
        cases hv with
        | hex hv => exact .inl ⟨_, hv, by omega, by omega⟩
        | decimal hv => exact .inr (.inl ⟨_, hv, hlo, hhi, hb⟩)
      · exact absurd hw (by simp)
    · rw [operandByte_of_malformed symbols t hstart hnot] at h
      exact absurd h (by simp)
    · rw [operandByte_of_label symbols t hlabel, labelByte_eq_ok_iff] at h
      exact .inr (.inr ⟨hlabel, h⟩)
  · have hnarrow : ∀ v : Int, -128 ≤ v → v ≤ 255 → Narrow v := by
      intro v hlo hhi
      exact ⟨by omega, by omega⟩
    rintro (⟨v, hv, hle, hb⟩ | ⟨v, hv, hlo, hhi, hb⟩ | ⟨hlabel, h⟩)
    · rw [operandByte_of_literal symbols t v (.hex hv), if_pos (hnarrow v (by omega) (by omega)),
        numberByte_eq_ok_iff]
      exact ⟨v, rfl, by omega, by omega, by omega⟩
    · rw [operandByte_of_literal symbols t v (.decimal hv), if_pos (hnarrow v hlo hhi),
        numberByte_eq_ok_iff]
      exact ⟨v, rfl, hlo, hhi, hb⟩
    · rw [operandByte_of_label symbols t hlabel, labelByte_eq_ok_iff]
      exact h

/-! ## Faults -/

/-- what is wrong with an operand, by its body -/
inductive Blame (symbols : Symbols) (body : Text) : LineFault → Prop
  | value (v : Int) (h : Literal body v) (hv : v < -128 ∨ 255 < v) :
      Blame symbols body (.outOfRange body)
  | empty (h : body = []) : Blame symbols body (.malformedNumber body)
  | malformed (hstart : LiteralStart body) (h : ¬ ∃ v, Literal body v) :
      Blame symbols body (.malformedNumber body)
  | undefined (hlabel : IsLabel body) (h : symbols.get? (lower body) = none) :
      Blame symbols body (.undefinedLabel body)
  | address (hlabel : IsLabel body) (a : UInt32) (h : symbols.get? (lower body) = some a)
      (ha : 255 < a.toNat) : Blame symbols body (.outOfRange body)

/-- a literal whose value 64 signed bits do not hold -/
def IsWide (body : Text) : Prop := ∃ v, Literal body v ∧ (v < -2 ^ 63 ∨ 2 ^ 63 ≤ v)

theorem not_narrow_iff (v : Int) : ¬ Narrow v ↔ v < -2 ^ 63 ∨ 2 ^ 63 ≤ v := by
  unfold Narrow
  omega

theorem isWide_iff {body : Text} {v : Int} (h : Literal body v) : IsWide body ↔ ¬ Narrow v := by
  rw [not_narrow_iff]
  constructor
  · rintro ⟨w, hw, hrange⟩
    rwa [hw.unique h] at hrange
  · exact fun hrange => ⟨v, h, hrange⟩

theorem operandByte_of_wide (symbols : Symbols) (t : Text) (h : IsWide (operandBody t)) :
    operandByte symbols t = .error (.malformedNumber (operandBody t)) := by
  obtain ⟨v, hv, hrange⟩ := h
  rw [operandByte_of_literal symbols t v hv, if_neg ((not_narrow_iff v).mpr hrange)]
  rfl

theorem operandByte_of_narrow (symbols : Symbols) (t : Text) (v : Int)
    (hv : Literal (operandBody t) v) (h : ¬ IsWide (operandBody t)) :
    operandByte symbols t = numberByte (operandBody t) (some v) := by
  rw [operandByte_of_literal symbols t v hv, if_pos]
  by_contra hn
  exact h ((isWide_iff hv).mpr hn)

theorem blame_of_error (symbols : Symbols) (t : Text) (e : LineFault)
    (hwide : ¬ IsWide (operandBody t)) (h : operandByte symbols t = .error e) :
    Blame symbols (operandBody t) e := by
  rcases operandBody_cases (operandBody t) with hnil | ⟨v, hv⟩ | ⟨hstart, hnot⟩ | hlabel
  · rw [operandByte_of_nil symbols t hnil] at h
    obtain rfl := Except.error.inj h
    exact .empty hnil
  · rw [operandByte_of_narrow symbols t v hv hwide, numberByte_eq_error_iff] at h
    rcases h with ⟨habs, -⟩ | ⟨w, hw, hrange, rfl⟩
    · exact absurd habs (by simp)
    · obtain rfl := Option.some.inj hw
      exact .value v hv (by omega)
  · rw [operandByte_of_malformed symbols t hstart hnot] at h
    obtain rfl := Except.error.inj h
    exact .malformed hstart hnot
  · rw [operandByte_of_label symbols t hlabel, labelByte_eq_error_iff] at h
    rcases h with ⟨ha, rfl⟩ | ⟨a, ha, hlt, rfl⟩
    · exact .undefined hlabel ha
    · exact .address hlabel a ha hlt

theorem error_of_blame (symbols : Symbols) (t : Text) (e : LineFault)
    (hwide : ¬ IsWide (operandBody t)) (h : Blame symbols (operandBody t) e) :
    operandByte symbols t = .error e := by
  cases h with
  | value v hv hrange =>
    rw [operandByte_of_narrow symbols t v hv hwide, numberByte_eq_error_iff]
    exact .inr ⟨v, rfl, by omega, rfl⟩
  | empty h => exact operandByte_of_nil symbols t h
  | malformed hstart h => exact operandByte_of_malformed symbols t hstart h
  | undefined hlabel h =>
    rw [operandByte_of_label symbols t hlabel, h]
    rfl
  | address hlabel a h ha =>
    rw [operandByte_of_label symbols t hlabel, labelByte_eq_error_iff]
    exact .inr ⟨a, h, ha, rfl⟩

/-- **The fault of an operand says what is wrong with it, unless it is a literal of more than 64
bits.**  Every other operand without a byte has exactly the fault to blame: a literal outside of
-128 to 255 and a label with an address above 255 are out of range, what is empty or starts like a
literal and is none is malformed, and any other text is an undefined label.  A literal that 64
signed bits do not hold is out of range as well, but passes for malformed. -/
theorem operandByte_blames (symbols : Symbols) (t : Text) (e : LineFault) :
    operandByte symbols t = .error e ↔
      (IsWide (operandBody t) ∧ e = .malformedNumber (operandBody t)) ∨
      (¬ IsWide (operandBody t) ∧ Blame symbols (operandBody t) e) := by
  by_cases hwide : IsWide (operandBody t)
  · rw [operandByte_of_wide symbols t hwide]
    constructor
    · exact fun h => .inl ⟨hwide, (Except.error.inj h).symm⟩
    · rintro (⟨-, rfl⟩ | ⟨hnot, -⟩)
      · rfl
      · exact absurd hwide hnot
  · constructor
    · exact fun h => .inr ⟨hwide, blame_of_error symbols t e hwide h⟩
    · rintro (⟨h, -⟩ | ⟨-, h⟩)
      · exact absurd h hwide
      · exact error_of_blame symbols t e hwide h

/-- the least decimal literal that 64 signed bits do not hold -/
def wideLiteral : Text := "9223372036854775808".toList

/-- it is far out of range, and is not reported so -/
theorem operandByte_misjudges_wide :
    Blame ∅ (operandBody wideLiteral) (.outOfRange (operandBody wideLiteral)) ∧
      operandByte ∅ wideLiteral ≠ .error (.outOfRange (operandBody wideLiteral)) := by
  have hbody : operandBody wideLiteral = wideLiteral := by decide +kernel
  have hliteral : DecimalLiteral wideLiteral (numeralValue 10 wideLiteral : Nat) :=
    .unsigned _ (by decide)
  have hvalue : numeralValue 10 wideLiteral = 2 ^ 63 := by decide +kernel
  rw [hvalue] at hliteral
  rw [hbody]
  refine ⟨.value _ (.decimal hliteral) (by omega), ?_⟩
  decide +kernel

end TinyCpu
