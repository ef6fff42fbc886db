import Mathlib.Algebra.Ring.Int.Defs
import Mathlib.Data.List.Basic
import Mathlib.Tactic.Ring
import TinyCpu.Proofs.Text.Case

/-!
# Literals and their exact values

A reader of literals works digit by digit and stops at 64 bits.  Here the number that a literal
stands for is said by places, for literals of every length, and the readers are compared with it.

* `numeralValue`     every digit counts with the power of the base that belongs to its place;
* `HexLiteral`, `DecimalLiteral`, `Literal`   the literals, each with its value;
* `natural?_eq_some_iff`   digits are read as their exact value, however many there are;
* `natural?_fixed`   a numeral of a given width is read back if the number fits it;
* `hex?_eq_some_iff`, `decimal?_eq_some_iff`   a literal is read as its exact value if this is a
                     number of 64 signed bits, and nothing else is read at all.
-/

namespace TinyCpu.Text

/-! ## Digits -/

/-- the digits of a base, letters small -/
def digitsOf (base : Nat) : List Char := hexDigits.take base

/-- the value of a digit, in either case -/
def digitValue (c : Char) : Nat := hexDigits.idxOf c.toLower

theorem mem_hexDigits_of_digit? (c : Char) (d : Nat) (h : digit? c = some d) :
    c.toLower ∈ hexDigits := by
  have hcodes := fun lo n hall => holds_of_codes (fun c => decide (c.toLower ∈ hexDigits)) lo n hall c
  unfold digit? at h
  simp only [Char.le_def, UInt32.le_iff_toNat_le] at h
  split at h
  · next hc =>
    have hhi : c.toNat ≤ 57 := hc.2
    exact of_decide_eq_true (hcodes 48 10 (by decide) hc.1 (by omega))
  split at h
  · next hc =>
    have hhi : c.toNat ≤ 102 := hc.2
    exact of_decide_eq_true (hcodes 97 6 (by decide) hc.1 (by omega))
  split at h
  · next hc =>
    have hhi : c.toNat ≤ 70 := hc.2
    exact of_decide_eq_true (hcodes 65 6 (by decide) hc.1 (by omega))
  · exact absurd h (by simp)

theorem digit?_eq_some_iff (c : Char) (d : Nat) :
    digit? c = some d ↔ c.toLower ∈ hexDigits ∧ digitValue c = d := by
  have hvalue : c.toLower ∈ hexDigits → digit? c = some (digitValue c) := by
    intro hc
    have hall : (hexDigits.all fun x => decide (digit? x = some (hexDigits.idxOf x))) = true := by
      decide
    rw [← digit?_toLower]
    exact of_decide_eq_true (List.all_eq_true.mp hall _ hc)
  constructor
  · intro h
    have hc := mem_hexDigits_of_digit? c d h
    exact ⟨hc, Option.some.inj ((hvalue hc).symm.trans h)⟩
  · rintro ⟨hc, rfl⟩
    exact hvalue hc

theorem mem_digitsOf_iff (base : Nat) (c : Char) :
    c.toLower ∈ digitsOf base ↔ c.toLower ∈ hexDigits ∧ digitValue c < base := by
  constructor
  · intro h
    have hc := List.mem_of_mem_take h
    exact ⟨hc, (List.mem_take_iff_idxOf_lt hc).mp h⟩
  · rintro ⟨hc, hlt⟩
    exact (List.mem_take_iff_idxOf_lt hc).mpr hlt

theorem pushDigit?_eq_some_iff (base n : Nat) (c : Char) (m : Nat) :
    pushDigit? base n c = some m ↔ c.toLower ∈ digitsOf base ∧ m = n * base + digitValue c := by
  unfold pushDigit?
  rw [Option.bind_eq_some_iff, mem_digitsOf_iff]
  constructor
  · rintro ⟨d, hd, hm⟩
    obtain ⟨hc, rfl⟩ := (digit?_eq_some_iff c d).mp hd
    split at hm
    · next hlt => exact ⟨⟨hc, hlt⟩, (Option.some.inj hm).symm⟩
    · exact absurd hm (by simp)
  · rintro ⟨⟨hc, hlt⟩, rfl⟩
    exact ⟨digitValue c, (digit?_eq_some_iff c _).mpr ⟨hc, rfl⟩, if_pos hlt⟩

/-! ## Numerals -/

/-- digits of a base, at least one and in either case -/
structure IsNumeral (base : Nat) (t : Text) : Prop where
  ne_nil : t ≠ []
  digits : ∀ c ∈ t, c.toLower ∈ digitsOf base

instance (base : Nat) (t : Text) : Decidable (IsNumeral base t) :=
  decidable_of_iff (t ≠ [] ∧ (t.all fun c => decide (c.toLower ∈ digitsOf base)) = true)
    ⟨fun h => ⟨h.1, by simpa using h.2⟩, fun h => ⟨h.ne_nil, by simpa using h.digits⟩⟩

/-- the value of digits by their places -/
def numeralValue (base : Nat) : Text → Nat
  | [] => 0
  | c :: t => digitValue c * base ^ t.length + numeralValue base t

/-- digits read after a number push it up by as many places as they are -/
theorem foldlM_pushDigit?_eq_some_iff (base n : Nat) (t : Text) (v : Nat) :
    t.foldlM (pushDigit? base) n = some v ↔
      (∀ c ∈ t, c.toLower ∈ digitsOf base) ∧ v = n * base ^ t.length + numeralValue base t := by
  induction t generalizing n with
  | nil =>
    show some n = some v ↔ _
    simp [numeralValue, eq_comm]
  | cons c t ih =>
    have hplaces : (n * base + digitValue c) * base ^ t.length + numeralValue base t
        = n * base ^ (t.length + 1) + (digitValue c * base ^ t.length + numeralValue base t) := by
      ring
    rw [List.foldlM_cons]
    show (pushDigit? base n c).bind _ = some v ↔ _
    rw [Option.bind_eq_some_iff, List.forall_mem_cons, List.length_cons, numeralValue, ← hplaces]
    constructor
    · rintro ⟨m, hm, hrest⟩
      obtain ⟨hc, rfl⟩ := (pushDigit?_eq_some_iff base n c m).mp hm
      obtain ⟨ht, hv⟩ := (ih _).mp hrest
      exact ⟨⟨hc, ht⟩, hv⟩
    · rintro ⟨⟨hc, ht⟩, hv⟩
      exact ⟨_, (pushDigit?_eq_some_iff base n c _).mpr ⟨hc, rfl⟩, (ih _).mpr ⟨ht, hv⟩⟩

/-- digits are read as their value, whatever their number -/
theorem natural?_eq_some_iff (base : Nat) (t : Text) (v : Nat) :
    natural? base t = some v ↔ IsNumeral base t ∧ v = numeralValue base t := by
  cases t with
  | nil =>
    constructor
    · intro h
      exact absurd h (by simp [natural?])
    · intro h
      exact absurd rfl h.1.ne_nil
  | cons c t =>
    show (c :: t).foldlM (pushDigit? base) 0 = some v ↔ _
    rw [foldlM_pushDigit?_eq_some_iff, Nat.zero_mul, Nat.zero_add]
    constructor
    · exact fun h => ⟨⟨List.cons_ne_nil c t, h.1⟩, h.2⟩
    · exact fun h => ⟨h.1.digits, h.2⟩

/-! ## Numerals of a given width -/

/-- the digits of a numeral of width `w` have the value of the number up to its first `w` places -/
theorem foldlM_pushDigit?_fixed (base w n : Nat) (h0 : 0 < base) (h16 : base ≤ 16) :
    (fixed base w n).foldlM (pushDigit? base) 0 = some (n % base ^ w) := by
  induction w generalizing n with
  | zero =>
    show some 0 = _
    rw [Nat.pow_zero, Nat.mod_one]
  | succ w ih =>
    have hplaces : n / base % base ^ w * base + n % base = n % base ^ (w + 1) := by
      rw [Nat.pow_succ', Nat.mod_mul, Nat.mul_comm, Nat.add_comm]
    rw [fixed, List.foldlM_append, ih (n / base)]
    show (pushDigit? base (n / base % base ^ w) (Nat.digitChar (n % base))).bind some = _
    rw [pushDigit?_digitChar base _ _ h16 (Nat.mod_lt n h0), Option.bind_some, hplaces]

/-- a numeral is read back if it is wide enough -/
theorem natural?_fixed (base w n : Nat) (h0 : 0 < base) (h16 : base ≤ 16) (hw : 0 < w)
    (hn : n < base ^ w) : natural? base (fixed base w n) = some n := by
  have hne : fixed base w n ≠ [] := by
    rw [← List.length_pos_iff, length_fixed]
    exact hw
  rw [natural?_of_ne_nil base _ hne, foldlM_pushDigit?_fixed base w n h0 h16, Nat.mod_eq_of_lt hn]

/-- a wide numeral is a numeral of the upper places and one of the lower places -/
theorem fixed_add (base v w n : Nat) :
    fixed base (v + w) n = fixed base v (n / base ^ w) ++ fixed base w n := by
  induction w generalizing n with
  | zero => rw [Nat.pow_zero, Nat.div_one, Nat.add_zero, fixed, List.append_nil]
  | succ w ih =>
    rw [← Nat.add_assoc, fixed, fixed, ih (n / base), List.append_assoc, Nat.div_div_eq_div_mul,
      Nat.pow_succ']

/-! ## Hexadecimal literals -/

inductive HexLiteral : Text → Nat → Prop
  | mk (x : Char) (digits : Text) (hx : x = 'x' ∨ x = 'X') (h : IsNumeral 16 digits) :
      HexLiteral ('0' :: x :: digits) (numeralValue 16 digits)

/-- the text starts with `0x` or `0X` -/
def HexStart (t : Text) : Prop := ∃ x rest, (x = 'x' ∨ x = 'X') ∧ t = '0' :: x :: rest

theorem startsHex_iff (t : Text) : startsHex t = true ↔ HexStart t := by
  match t with
  | [] => simp [startsHex, HexStart]
  | [c] => simp [startsHex_singleton, HexStart]
  | c :: x :: t =>
    rw [startsHex_cons_cons, Bool.and_eq_true, Bool.or_eq_true, beq_iff_eq, beq_iff_eq, beq_iff_eq]
    constructor
    · rintro ⟨rfl, hx⟩
      exact ⟨x, t, hx, rfl⟩
    · rintro ⟨y, rest, hy, heq⟩
      obtain ⟨rfl, htail⟩ := List.cons.inj heq
      obtain ⟨rfl, -⟩ := List.cons.inj htail
      exact ⟨rfl, hy⟩

theorem HexLiteral.hexStart {t : Text} {v : Nat} (h : HexLiteral t v) : HexStart t := by
  cases h with
  | mk x digits hx _ => exact ⟨x, digits, hx, rfl⟩

theorem HexLiteral.unique {t : Text} {v w : Nat} (hv : HexLiteral t v) (hw : HexLiteral t w) :
    v = w := by
  cases hv
  cases hw
  rfl

theorem literalLimit_eq : literalLimit = 2 ^ 63 := by norm_num [literalLimit]

/-- a hexadecimal literal is read as its value if 64 signed bits hold it -/
theorem hex?_eq_some_iff (t : Text) (v : Nat) :
    hex? t = some v ↔ HexLiteral t v ∧ v < 2 ^ 63 := by
  unfold hex?
  rw [← literalLimit_eq]
  constructor
  · intro h
    split at h
    · next hs =>
      obtain ⟨x, digits, hx, rfl⟩ := (startsHex_iff t).mp hs
      obtain ⟨hvalue, hlt⟩ := Option.filter_eq_some_iff.mp h
      obtain ⟨hdigits, rfl⟩ := (natural?_eq_some_iff 16 digits v).mp hvalue
      exact ⟨.mk x digits hx hdigits, of_decide_eq_true hlt⟩
    · exact absurd h (by simp)
  · rintro ⟨⟨x, digits, hx, hdigits⟩, hlt⟩
    rw [if_pos ((startsHex_iff _).mpr ⟨x, digits, hx, rfl⟩)]
    exact Option.filter_eq_some_iff.mpr
      ⟨(natural?_eq_some_iff 16 digits _).mpr ⟨hdigits, rfl⟩, decide_eq_true hlt⟩

/-! ## Decimal literals -/

inductive DecimalLiteral : Text → Int → Prop
  | unsigned (digits : Text) (h : IsNumeral 10 digits) :
      DecimalLiteral digits (numeralValue 10 digits)
  | plus (digits : Text) (h : IsNumeral 10 digits) :
      DecimalLiteral ('+' :: digits) (numeralValue 10 digits)
  | minus (digits : Text) (h : IsNumeral 10 digits) :
      DecimalLiteral ('-' :: digits) (-numeralValue 10 digits)

/-- the text starts with a digit, or with a sign and a digit -/
def DecimalStart (t : Text) : Prop :=
  ∃ sign c rest, sign ∈ [[], ['+'], ['-']] ∧ c ∈ digitsOf 10 ∧ t = sign ++ c :: rest

theorem mem_digitsOf_ten_iff (c : Char) : c ∈ digitsOf 10 ↔ c.isDigit = true := by
  constructor
  · intro h
    have hall : ((digitsOf 10).all Char.isDigit) = true := by decide
    exact List.all_eq_true.mp hall c h
  · intro h
    unfold Char.isDigit at h
    rw [Bool.and_eq_true, decide_eq_true_eq, decide_eq_true_eq] at h
    have hlo : 48 ≤ c.toNat := UInt32.le_iff_toNat_le.mp h.1
    have hhi : c.toNat ≤ 57 := UInt32.le_iff_toNat_le.mp h.2
    exact of_decide_eq_true
      (holds_of_codes (fun c => decide (c ∈ digitsOf 10)) 48 10 (by decide) c hlo (by omega))

theorem toLower_mem_digitsOf_ten_iff (c : Char) :
    c.toLower ∈ digitsOf 10 ↔ c.isDigit = true := by
  rw [mem_digitsOf_ten_iff, ignoresCase Char.isDigit (by decide)]

theorem IsNumeral.isDigit {t : Text} (h : IsNumeral 10 t) : ∀ c ∈ t, c.isDigit = true :=
  fun c hc => (toLower_mem_digitsOf_ten_iff c).mp (h.digits c hc)

theorem IsNumeral.afterSign_eq {t : Text} (h : IsNumeral 10 t) : afterSign t = t := by
  obtain ⟨c, t, rfl⟩ := List.exists_cons_of_ne_nil h.ne_nil
  exact afterSign_of_digit c t (h.isDigit c List.mem_cons_self)

theorem IsNumeral.head?_ne {t : Text} (h : IsNumeral 10 t) : t.head? ≠ some '-' := by
  intro hhead
  have hdigit := h.isDigit '-' (List.mem_of_mem_head? hhead)
  exact absurd hdigit (by decide)

theorem decimalLiteral_iff (t : Text) (v : Int) :
    DecimalLiteral t v ↔ IsNumeral 10 (afterSign t) ∧
      v = if t.head? = some '-' then -(numeralValue 10 (afterSign t) : Int)
        else numeralValue 10 (afterSign t) := by
  constructor
  · intro h
    cases h with
    | unsigned _ h =>
      rw [h.afterSign_eq, if_neg h.head?_ne]
      exact ⟨h, rfl⟩
    | plus digits h => exact ⟨h, rfl⟩
    | minus digits h => exact ⟨h, rfl⟩
  · rintro ⟨h, rfl⟩
    cases t with
    | nil => exact absurd rfl h.ne_nil
    | cons c t =>
      by_cases hminus : c = '-'
      · subst hminus
        exact .minus t h
      by_cases hplus : c = '+'
      · subst hplus
        exact .plus t h
      have hsign : afterSign (c :: t) = c :: t := if_neg (by simp [hminus, hplus])
      rw [hsign] at h ⊢
      rw [if_neg h.head?_ne]
      exact .unsigned _ h

/-- a decimal literal is read as its value if 64 signed bits hold it -/
theorem decimal?_eq_some_iff (t : Text) (v : Int) :
    decimal? t = some v ↔ DecimalLiteral t v ∧ -2 ^ 63 ≤ v ∧ v < 2 ^ 63 := by
  have hlimit : literalLimit = 9223372036854775808 := rfl
  unfold decimal?
  rw [Option.bind_eq_some_iff, decimalLiteral_iff]
  constructor
  · rintro ⟨n, hn, hv⟩
    obtain ⟨hdigits, rfl⟩ := (natural?_eq_some_iff 10 _ n).mp hn
    split at hv
    · next hs =>
      rw [if_pos hs]
      split at hv
      · obtain rfl := Option.some.inj hv
        exact ⟨⟨hdigits, rfl⟩, by omega⟩
      · exact absurd hv (by simp)
    · next hs =>
      rw [if_neg hs]
      split at hv
      · obtain rfl := Option.some.inj hv
        exact ⟨⟨hdigits, rfl⟩, by omega⟩
      · exact absurd hv (by simp)
  · rintro ⟨⟨hdigits, rfl⟩, hlo, hhi⟩
    refine ⟨_, (natural?_eq_some_iff 10 _ _).mpr ⟨hdigits, rfl⟩, ?_⟩
    split
    · next hs =>
      rw [if_pos hs] at hlo
      exact if_pos (by omega)
    · next hs =>
      rw [if_neg hs] at hhi
      exact if_pos (by omega)

theorem startsDecimal_iff (t : Text) : startsDecimal t = true ↔ DecimalStart t := by
  constructor
  · intro h
    have hstart : ∃ c rest, afterSign t = c :: rest ∧ c ∈ digitsOf 10 := by
      unfold startsDecimal at h
      cases ht : afterSign t with
      | nil => exact absurd h (by simp [ht])
      | cons c rest =>
        rw [ht] at h
        exact ⟨c, rest, rfl, (mem_digitsOf_ten_iff c).mpr h⟩
    obtain ⟨c, rest, heq, hc⟩ := hstart
    cases t with
    | nil => exact absurd heq (by simp [afterSign])
    | cons d t =>
      rw [afterSign] at heq
      split at heq
      · next hd =>
        subst heq
        rcases hd with rfl | rfl
        · exact ⟨['-'], c, rest, by simp, hc, rfl⟩
        · exact ⟨['+'], c, rest, by simp, hc, rfl⟩
      · exact ⟨[], c, rest, by simp, hc, heq⟩
  · rintro ⟨sign, c, rest, hsign, hc, rfl⟩
    have hdigit := (mem_digitsOf_ten_iff c).mp hc
    have hafter : afterSign (sign ++ c :: rest) = c :: rest := by
      simp only [List.mem_cons, List.not_mem_nil, or_false] at hsign
      rcases hsign with rfl | rfl | rfl
      · exact afterSign_of_digit c rest hdigit
      · rfl
      · rfl
    unfold startsDecimal
    rw [hafter]
    exact hdigit

theorem DecimalLiteral.decimalStart {t : Text} {v : Int} (h : DecimalLiteral t v) :
    DecimalStart t := by
  have hdigits := ((decimalLiteral_iff t v).mp h).1
  obtain ⟨c, rest, heq⟩ := List.exists_cons_of_ne_nil hdigits.ne_nil
  rw [← startsDecimal_iff]
  unfold startsDecimal
  rw [heq] at hdigits ⊢
  exact hdigits.isDigit c List.mem_cons_self

theorem DecimalLiteral.not_hexStart {t : Text} {v : Int} (h : DecimalLiteral t v) :
    ¬ HexStart t := by
  rintro ⟨x, rest, hx, rfl⟩
  have hdigits := ((decimalLiteral_iff _ v).mp h).1
  have hdigit := hdigits.isDigit x (by simp [afterSign])
  rcases hx with rfl | rfl <;> exact absurd hdigit (by decide)

theorem DecimalLiteral.unique {t : Text} {v w : Int} (hv : DecimalLiteral t v)
    (hw : DecimalLiteral t w) : v = w :=
  ((decimalLiteral_iff t v).mp hv).2.trans ((decimalLiteral_iff t w).mp hw).2.symm

/-! ## Literals of both kinds -/

inductive Literal : Text → Int → Prop
  | hex {t : Text} {n : Nat} (h : HexLiteral t n) : Literal t n
  | decimal {t : Text} {v : Int} (h : DecimalLiteral t v) : Literal t v

def LiteralStart (t : Text) : Prop := HexStart t ∨ DecimalStart t

theorem Literal.unique {t : Text} {v w : Int} (hv : Literal t v) (hw : Literal t w) : v = w := by
  cases hv with
  | hex hv =>
    cases hw with
    | hex hw => rw [hv.unique hw]
    | decimal hw => exact absurd hv.hexStart hw.not_hexStart
  | decimal hv =>
    cases hw with
    | hex hw => exact absurd hw.hexStart hv.not_hexStart
    | decimal hw => exact hv.unique hw

theorem LiteralStart.ne_nil {t : Text} (h : LiteralStart t) : t ≠ [] := by
  rcases h with ⟨x, rest, -, rfl⟩ | ⟨sign, c, rest, -, -, rfl⟩
  · exact List.cons_ne_nil _ _
  · exact List.append_ne_nil_of_right_ne_nil sign (List.cons_ne_nil c rest)

end TinyCpu.Text
