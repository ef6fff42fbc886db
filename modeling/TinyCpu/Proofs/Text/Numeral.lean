import Mathlib.Tactic.IntervalCases
import TinyCpu.Text.Numeral

/-!
# Numerals read back

* `natural?_toDigits`   a written number is read back as itself;
* `decimal?_decimal`    so is a decimal literal;
* `LowerHex`            lower-case hexadecimal digits without leading zeros, as `hex` writes them.
-/

namespace TinyCpu.Text

theorem digit?_digitChar (d : Nat) (h : d < 16) : digit? (Nat.digitChar d) = some d := by
  interval_cases d <;> decide

theorem pushDigit?_digitChar (base n d : Nat) (hbase : base ≤ 16) (hd : d < base) :
    pushDigit? base n (Nat.digitChar d) = some (n * base + d) := by
  unfold pushDigit?
  rw [digit?_digitChar d (by omega), Option.bind_some, if_pos hd]

theorem foldlM_pushDigit?_toDigits (base n : Nat) (h1 : 1 < base) (h16 : base ≤ 16) :
    (Nat.toDigits base n).foldlM (pushDigit? base) 0 = some n := by
  induction n using Nat.strongRecOn with
  | _ n ih =>
    rw [Nat.toDigits_eq_if h1]
    split
    · next hlt =>
      rw [List.foldlM_cons, pushDigit?_digitChar base 0 n h16 hlt, Nat.zero_mul, Nat.zero_add]
      rfl
    · next hge =>
      have hdiv : n / base < n := Nat.div_lt_self (by omega) h1
      have hmod : n % base < base := Nat.mod_lt n (by omega)
      rw [List.foldlM_append, ih (n / base) hdiv]
      show [(n % base).digitChar].foldlM (pushDigit? base) (n / base) = some n
      rw [List.foldlM_cons, pushDigit?_digitChar base _ _ h16 hmod, Nat.div_add_mod']
      rfl

theorem natural?_of_ne_nil (base : Nat) (t : Text) (h : t ≠ []) :
    natural? base t = t.foldlM (pushDigit? base) 0 := by
  obtain ⟨c, t, rfl⟩ := List.exists_cons_of_ne_nil h
  rfl

theorem natural?_toDigits (base n : Nat) (h1 : 1 < base) (h16 : base ≤ 16) :
    natural? base (Nat.toDigits base n) = some n := by
  rw [natural?_of_ne_nil base _ Nat.toDigits_ne_nil, foldlM_pushDigit?_toDigits base n h1 h16]

theorem natural?_hex (n : Nat) : natural? 16 (hex n) = some n :=
  natural?_toDigits 16 n (by decide) (by decide)

/-- zeros in front do not change the value -/
theorem natural?_replicate_zero (base k : Nat) (hbase : 0 < base) (t : Text) (ht : t ≠ []) :
    natural? base (List.replicate k '0' ++ t) = natural? base t := by
  have hzero : pushDigit? base 0 '0' = some 0 := by
    have hdigit : digit? '0' = some 0 := by decide
    unfold pushDigit?
    rw [hdigit, Option.bind_some, if_pos hbase, Nat.zero_mul]
  rw [natural?_of_ne_nil base _ (by simp [ht]), natural?_of_ne_nil base t ht]
  induction k with
  | zero => rfl
  | succ k ih =>
    rw [List.replicate_succ, List.cons_append, List.foldlM_cons, hzero]
    exact ih

/-! ## Literals -/

theorem startsHex_cons_cons (c x : Char) (t : Text) :
    startsHex (c :: x :: t) = (c == '0' && (x == 'x' || x == 'X')) := by
  by_cases hc : c = '0'
  · rw [hc]
    rfl
  · rw [beq_eq_false_iff_ne.mpr hc, Bool.false_and]
    unfold startsHex
    split
    · next h => exact absurd (List.cons.inj h).1 hc
    · rfl

theorem startsHex_singleton (c : Char) : startsHex [c] = false := by
  unfold startsHex
  split
  · next h => exact absurd (List.cons.inj h).2 (by simp)
  · rfl

theorem startsHex_of_digits (t : Text) (h : ∀ c ∈ t, c.isDigit = true) : startsHex t = false := by
  match t with
  | [] => rfl
  | [c] => exact startsHex_singleton c
  | c :: x :: t =>
    have hx : x.isDigit = true := h x (by simp)
    have hsmall : x ≠ 'x' := by
      rintro rfl
      exact absurd hx (by decide)
    have hcapital : x ≠ 'X' := by
      rintro rfl
      exact absurd hx (by decide)
    rw [startsHex_cons_cons, beq_eq_false_iff_ne.mpr hsmall, beq_eq_false_iff_ne.mpr hcapital,
      Bool.or_false, Bool.and_false]

theorem isDigit_of_mem_decimal (n : Nat) : ∀ c ∈ decimal n, c.isDigit = true :=
  fun _ hc => Nat.isDigit_of_mem_toDigits (by decide) (by decide) hc

theorem afterSign_of_digit (c : Char) (t : Text) (h : c.isDigit = true) :
    afterSign (c :: t) = c :: t := by
  apply if_neg
  rintro (rfl | rfl) <;> exact absurd h (by decide)

theorem startsDecimal_of_digit (c : Char) (t : Text) (h : c.isDigit = true) :
    startsDecimal (c :: t) = true := by
  unfold startsDecimal
  rw [afterSign_of_digit c t h]
  exact h

theorem decimal?_decimal (n : Nat) (h : n < literalLimit) :
    decimal? (decimal n) = some (n : Int) := by
  have hvalue : natural? 10 (decimal n) = some n := natural?_toDigits 10 n (by decide) (by decide)
  have hdigits := isDigit_of_mem_decimal n
  obtain ⟨c, t, hct⟩ := List.exists_cons_of_ne_nil
    (show decimal n ≠ [] from Nat.toDigits_ne_nil)
  rw [hct] at hvalue hdigits ⊢
  have hc : c.isDigit = true := hdigits c List.mem_cons_self
  have hsign : (c :: t).head? ≠ some '-' := by
    intro heq
    rw [Option.some.inj heq] at hc
    exact absurd hc (by decide)
  unfold decimal?
  rw [afterSign_of_digit c t hc, hvalue, Option.bind_some, if_neg hsign, if_pos h]

/-! ## The shortest hexadecimal numeral -/

def hexDigits : Text := "0123456789abcdef".toList

/-- lower-case hexadecimal digits without leading zeros; zero has one digit -/
structure LowerHex (t : Text) : Prop where
  ne_nil : t ≠ []
  digits : ∀ c ∈ t, c ∈ hexDigits
  short : t.head? = some '0' → t = ['0']

theorem digitChar_mem_hexDigits (d : Nat) (h : d < 16) : Nat.digitChar d ∈ hexDigits := by
  interval_cases d <;> decide

theorem digitChar_ne_zero (d : Nat) (h0 : 0 < d) (h : d < 16) : Nat.digitChar d ≠ '0' := by
  interval_cases d <;> decide

theorem hex_eq (n : Nat) :
    hex n = (if n < 16 then [] else hex (n / 16)) ++ [Nat.digitChar (n % 16)] := by
  unfold hex
  rw [Nat.toDigits_eq_if (by decide)]
  split
  · next h => rw [Nat.mod_eq_of_lt h, List.nil_append]
  · rfl

theorem mem_hexDigits_of_mem_hex (n : Nat) : ∀ c ∈ hex n, c ∈ hexDigits := by
  induction n using Nat.strongRecOn with
  | _ n ih =>
    intro c hc
    rw [hex_eq, List.mem_append, List.mem_singleton] at hc
    rcases hc with hc | rfl
    · split at hc
      · exact absurd hc (by simp)
      · exact ih (n / 16) (by omega) c hc
    · exact digitChar_mem_hexDigits _ (Nat.mod_lt n (by decide))

theorem head?_hex_ne_zero (n : Nat) (h : 0 < n) : (hex n).head? ≠ some '0' := by
  induction n using Nat.strongRecOn with
  | _ n ih =>
    rw [hex_eq]
    split
    · next hlt =>
      rw [Nat.mod_eq_of_lt hlt]
      intro heq
      exact digitChar_ne_zero n h hlt (Option.some.inj heq)
    · next hge =>
      have hrec := ih (n / 16) (by omega) (by omega)
      obtain ⟨c, t, hdigits⟩ := List.exists_cons_of_ne_nil
        (show hex (n / 16) ≠ [] from Nat.toDigits_ne_nil)
      rw [hdigits] at hrec ⊢
      exact hrec

theorem lowerHex_hex (n : Nat) : LowerHex (hex n) where
  ne_nil := Nat.toDigits_ne_nil
  digits := mem_hexDigits_of_mem_hex n
  short := by
    intro h
    rcases Nat.eq_zero_or_pos n with rfl | hpos
    · rfl
    · exact absurd h (head?_hex_ne_zero n hpos)

end TinyCpu.Text
