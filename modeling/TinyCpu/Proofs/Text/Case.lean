import TinyCpu.Proofs.Text.Cut
import TinyCpu.Proofs.Text.Numeral

/-!
# Text in either case

Lower case goes through every cut of a text: whether the letters are made small before or after it
makes no difference.

* `ignoresCase`     what treats the 26 capital letters as the small ones ignores case;
* `trim_lower`, `cut_lower`, `fields_lower`, `lines_lower`   the cuts;
* `hex?_lower`, `decimal?_lower`   numerals have the same value in either case.
-/

namespace TinyCpu.Text

/-! ## Characters -/

/-- what holds for the characters with `n` codes from `lo` on, holds for a character between them -/
theorem holds_of_codes (p : Char → Bool) (lo n : Nat)
    (h : ((List.range' lo n).all fun k => p (Char.ofNat k)) = true) (c : Char)
    (hlo : lo ≤ c.toNat) (hhi : c.toNat < lo + n) : p c = true := by
  have hc := List.all_eq_true.mp h c.toNat (List.mem_range'_1.mpr ⟨hlo, hhi⟩)
  rwa [Char.ofNat_toNat] at hc

def capitals : List Char := "ABCDEFGHIJKLMNOPQRSTUVWXYZ".toList

theorem mem_capitals (c : Char) (h : c.isUpper = true) : c ∈ capitals := by
  unfold Char.isUpper at h
  rw [decide_eq_true_eq] at h
  have hlo : 65 ≤ c.toNat := UInt32.le_iff_toNat_le.mp h.1
  have hhi : c.toNat ≤ 90 := UInt32.le_iff_toNat_le.mp h.2
  exact of_decide_eq_true
    (holds_of_codes (fun c => decide (c ∈ capitals)) 65 26 (by decide) c hlo (by omega))

/-- what treats the capital letters as the small ones ignores case: nothing else changes in lower
case -/
theorem ignoresCase {α : Type} [DecidableEq α] (f : Char → α)
    (h : (capitals.all fun c => decide (f c.toLower = f c)) = true) (c : Char) :
    f c.toLower = f c := by
  by_cases hc : c.isUpper = true
  · exact of_decide_eq_true (List.all_eq_true.mp h c (mem_capitals c hc))
  · unfold Char.isUpper at hc
    rw [decide_eq_true_eq] at hc
    have hlower : c.toLower = c := dif_neg hc
    rw [hlower]

theorem isBlank_toLower (c : Char) : isBlank c.toLower = isBlank c :=
  ignoresCase isBlank (by decide) c

theorem isNameChar_toLower (c : Char) : isNameChar c.toLower = isNameChar c :=
  ignoresCase isNameChar (by decide) c

theorem digit?_toLower (c : Char) : digit? c.toLower = digit? c :=
  ignoresCase digit? (by decide) c

/-- a character that is no letter -/
def Caseless (d : Char) : Prop := ∀ c : Char, (c.toLower == d) = (c == d)

theorem caseless_of_capitals (d : Char)
    (h : (capitals.all fun c => decide ((c.toLower == d) = (c == d))) = true) : Caseless d :=
  ignoresCase (· == d) h

theorem Caseless.toLower_eq_iff {d : Char} (h : Caseless d) (c : Char) : c.toLower = d ↔ c = d := by
  rw [← beq_iff_eq, h c, beq_iff_eq]

theorem Caseless.toLower_eq {d : Char} (h : Caseless d) : d.toLower = d :=
  (h.toLower_eq_iff d).mpr rfl

/-! ## Cuts -/

theorem lower_cons (c : Char) (t : Text) : lower (c :: t) = c.toLower :: lower t := rfl

@[simp] theorem isEmpty_lower (t : Text) : (lower t).isEmpty = t.isEmpty := by
  cases t <;> rfl

@[simp] theorem lower_lower (t : Text) : lower (lower t) = lower t := by
  unfold lower
  rw [List.map_map]
  exact List.map_congr_left fun c _ => ignoresCase Char.toLower (by decide) c

theorem upper_lower (t : Text) : upper (lower t) = upper t := by
  unfold lower upper
  rw [List.map_map]
  exact List.map_congr_left fun c _ => ignoresCase Char.toUpper (by decide) c

section
variable (p : Char → Bool) (hp : ∀ c, p c.toLower = p c)
include hp

theorem takeWhile_lower (t : Text) : (lower t).takeWhile p = lower (t.takeWhile p) := by
  unfold lower
  rw [List.takeWhile_map, show p ∘ Char.toLower = p from funext hp]

theorem dropWhile_lower (t : Text) : (lower t).dropWhile p = lower (t.dropWhile p) := by
  unfold lower
  rw [List.dropWhile_map, show p ∘ Char.toLower = p from funext hp]

theorem all_lower (t : Text) : (lower t).all p = t.all p := by
  unfold lower
  rw [List.all_map, show p ∘ Char.toLower = p from funext hp]

theorem cut_lower (t : Text) :
    cut p (lower t) = (cut p t).map fun q => (lower q.1, lower q.2) := by
  have hnot : ∀ c : Char, (!p c.toLower) = !p c := fun c => congrArg Bool.not (hp c)
  unfold cut
  rw [takeWhile_lower _ hnot, dropWhile_lower _ hnot]
  cases t.dropWhile (fun c => !p c) <;> rfl

end

theorem trim_lower (t : Text) : trim (lower t) = lower (trim t) := by
  have hstart : ∀ s : Text, trimStart (lower s) = lower (trimStart s) :=
    dropWhile_lower isBlank isBlank_toLower
  have hrev : ∀ s : Text, (lower s).reverse = lower s.reverse := fun s => List.map_reverse.symm
  show (trimStart (trimStart (lower t)).reverse).reverse = lower (trimStart (trimStart t).reverse).reverse
  rw [hstart, hrev, hstart, hrev]

theorem dropLead_lower (d : Char) (hd : Caseless d) (t : Text) :
    dropLead d (lower t) = lower (dropLead d t) := by
  cases t with
  | nil => rfl
  | cons c t =>
    show (if c.toLower = d then lower t else lower (c :: t)) = lower (if c = d then t else c :: t)
    by_cases hc : c = d
    · rw [if_pos hc, if_pos ((hd.toLower_eq_iff c).mpr hc)]
    · rw [if_neg hc, if_neg (fun h => hc ((hd.toLower_eq_iff c).mp h))]

theorem getLast?_lower (d : Char) (hd : Caseless d) (t : Text) :
    (lower t).getLast? = some d ↔ t.getLast? = some d := by
  unfold lower
  rw [List.getLast?_map, Option.map_eq_some_iff]
  constructor
  · rintro ⟨c, hc, hcd⟩
    rw [hc, (hd.toLower_eq_iff c).mp hcd]
  · intro h
    exact ⟨d, h, hd.toLower_eq⟩

theorem dropLast_lower (t : Text) : (lower t).dropLast = lower t.dropLast :=
  List.map_dropLast.symm

theorem inside?_lower (l r : Char) (hl : Caseless l) (hr : Caseless r) (t : Text) :
    inside? l r (lower t) = (inside? l r t).map lower := by
  cases t with
  | nil => rfl
  | cons c t =>
    have hiff : (c.toLower = l ∧ (lower t).getLast? = some r) ↔ (c = l ∧ t.getLast? = some r) :=
      and_congr (hl.toLower_eq_iff c) (getLast?_lower r hr t)
    show (if c.toLower = l ∧ (lower t).getLast? = some r then some (lower t).dropLast else none) = _
    rw [inside?, dropLast_lower]
    by_cases h : c = l ∧ t.getLast? = some r
    · rw [if_pos h, if_pos (hiff.mpr h)]
      rfl
    · rw [if_neg h, if_neg (fun h' => h (hiff.mp h'))]
      rfl

/-! ## Pieces and lines -/

theorem splitOn_lower (d : Char) (hd : Caseless d) (t : Text) :
    (lower t).splitOn d = (t.splitOn d).map lower := by
  induction t with
  | nil => rfl
  | cons c t ih =>
    rw [lower_cons, List.splitOn_cons_eq_if_modifyHead, List.splitOn_cons_eq_if_modifyHead, hd c, ih]
    split
    · rfl
    · cases t.splitOn d <;> rfl

theorem fields_lower (d : Char) (hd : Caseless d) (t : Text) :
    fields d (lower t) = (fields d t).map lower := by
  unfold fields
  rw [splitOn_lower d hd, List.map_map, List.map_map]
  exact List.map_congr_left fun s _ => trim_lower s

theorem dropReturn_lower (t : Text) : dropReturn (lower t) = lower (dropReturn t) := by
  have hiff := getLast?_lower '\r' (caseless_of_capitals _ (by decide)) t
  unfold dropReturn
  by_cases h : t.getLast? = some '\r'
  · rw [if_pos h, if_pos (hiff.mpr h), dropLast_lower]
  · rw [if_neg h, if_neg (fun h' => h (hiff.mp h'))]

theorem lines_lower (t : Text) : lines (lower t) = (lines t).map lower := by
  unfold lines
  rw [splitOn_lower '\n' (caseless_of_capitals _ (by decide)), List.map_append, ← List.map_dropLast,
    List.map_map, List.map_map, List.getLast?_map]
  congr 1
  · exact List.map_congr_left fun s _ => dropReturn_lower s
  · cases (t.splitOn '\n').getLast? with
    | none => rfl
    | some s => cases s <;> rfl

/-! ## Numerals -/

theorem pushDigit?_toLower (base n : Nat) (c : Char) :
    pushDigit? base n c.toLower = pushDigit? base n c := by
  unfold pushDigit?
  rw [digit?_toLower]

theorem foldlM_pushDigit?_lower (base n : Nat) (t : Text) :
    (lower t).foldlM (pushDigit? base) n = t.foldlM (pushDigit? base) n := by
  induction t generalizing n with
  | nil => rfl
  | cons c t ih =>
    rw [lower_cons, List.foldlM_cons, List.foldlM_cons, pushDigit?_toLower]
    congr 1
    exact funext ih

theorem natural?_lower (base : Nat) (t : Text) : natural? base (lower t) = natural? base t := by
  cases t with
  | nil => rfl
  | cons c t => exact foldlM_pushDigit?_lower base 0 (c :: t)

theorem startsHex_lower (t : Text) : startsHex (lower t) = startsHex t := by
  match t with
  | [] => rfl
  | [c] => exact (startsHex_singleton c.toLower).trans (startsHex_singleton c).symm
  | c :: x :: t =>
    have hx := ignoresCase (fun x => x == 'x' || x == 'X') (by decide) x
    rw [lower_cons, lower_cons, startsHex_cons_cons, startsHex_cons_cons,
      caseless_of_capitals '0' (by decide) c]
    exact congrArg _ hx

theorem hex?_lower (t : Text) : hex? (lower t) = hex? t := by
  unfold hex?
  rw [startsHex_lower, show (lower t).drop 2 = lower (t.drop 2) from List.map_drop.symm,
    natural?_lower]

theorem afterSign_lower (t : Text) : afterSign (lower t) = lower (afterSign t) := by
  cases t with
  | nil => rfl
  | cons c t =>
    have hiff : (c.toLower = '-' ∨ c.toLower = '+') ↔ (c = '-' ∨ c = '+') :=
      or_congr ((caseless_of_capitals '-' (by decide)).toLower_eq_iff c)
        ((caseless_of_capitals '+' (by decide)).toLower_eq_iff c)
    show (if c.toLower = '-' ∨ c.toLower = '+' then lower t else lower (c :: t)) = _
    rw [afterSign]
    by_cases h : c = '-' ∨ c = '+'
    · rw [if_pos h, if_pos (hiff.mpr h)]
    · rw [if_neg h, if_neg (fun h' => h (hiff.mp h'))]

theorem startsDecimal_lower (t : Text) : startsDecimal (lower t) = startsDecimal t := by
  unfold startsDecimal
  rw [afterSign_lower]
  cases afterSign t with
  | nil => rfl
  | cons c t => exact ignoresCase Char.isDigit (by decide) c

theorem decimal?_lower (t : Text) : decimal? (lower t) = decimal? t := by
  have hhead : (lower t).head? = some '-' ↔ t.head? = some '-' := by
    cases t with
    | nil => rfl
    | cons c t =>
      rw [lower_cons, List.head?_cons, List.head?_cons, Option.some_inj, Option.some_inj]
      exact (caseless_of_capitals '-' (by decide)).toLower_eq_iff c
  unfold decimal?
  rw [afterSign_lower, natural?_lower]
  simp only [hhead]

/-! ## Names -/

theorem isName_lower (t : Text) : isName (lower t) = isName t := by
  cases t with
  | nil => rfl
  | cons c t =>
    have hc := ignoresCase (fun c => c.isAlpha || c == '_') (by decide) c
    show ((c.toLower.isAlpha || c.toLower == '_') && (lower t).all isNameChar) = _
    rw [all_lower isNameChar isNameChar_toLower, hc]
    rfl

end TinyCpu.Text
