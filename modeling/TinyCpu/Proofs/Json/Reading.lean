import TinyCpu.Proofs.Json.Spelling
import TinyCpu.Proofs.Outcome

/-!
# Values read from their spellings

A reader reads a value if it gives the same result on every spelling of it, with blanks in front
and with any text behind, which is left.

* `stringRest_spelled`   a string, with all its escapes;
* `Reads`                a reader reads a value;
* `reads_string`, `reads_boolean`, `reads_null`, `Reads.nullable`, `reads_list`   the readers of
                         one shape;
* `forall_of_list`       what holds of all that a reader gives holds of all elements of a list.
-/

namespace TinyCpu.Json
open Text

/-! ## Blanks and literals -/

theorem skipSpace_spaces (left : Text) (h : Spaces left) (c : Char) (hc : isSpace c = false)
    (t : Text) : skipSpace (left ++ c :: t) = c :: t := by
  unfold skipSpace
  rw [List.dropWhile_append_of_pos h, List.dropWhile_cons_of_neg (by simp [hc])]

theorem literal_append (letters t : Text) : literal letters (letters ++ t) = .ok t := by
  induction letters with
  | nil => rfl
  | cons l ls ih =>
    rw [List.cons_append, literal, if_pos rfl]
    exact ih

/-! ## Strings -/

theorem escaped?_of_mem (e c : Char) (h : (e, c) ∈ shortEscapes) :
    e ≠ 'u' ∧ escaped? e = some c := by
  have hall : (shortEscapes.all fun p => p.1 != 'u' && escaped? p.1 == some p.2) = true := by
    decide
  simpa using List.all_eq_true.mp hall (e, c) h

theorem CodeUnit.exists_digits {ds : Text} {n : Nat} (h : CodeUnit ds n) :
    ∃ a b c d, ds = [a, b, c, d] ∧ natural? 16 [a, b, c, d] = some n := by
  obtain ⟨a, b, c, d, rfl⟩ := List.length_eq_four.mp h.length
  exact ⟨a, b, c, d, rfl, (natural?_eq_some_iff 16 _ n).mpr ⟨h.digits, h.value.symm⟩⟩

theorem not_surrogate (c : Char) :
    isLowSurrogate c.toNat = false ∧ isHighSurrogate c.toNat = false := by
  have hvalid : c.toNat < 0xD800 ∨ 0xDFFF < c.toNat ∧ c.toNat < 0x110000 := c.valid
  unfold isLowSurrogate isHighSurrogate
  simp only [Bool.and_eq_false_iff, decide_eq_false_iff_not]
  omega

/-- the halves of a pair, by its two places -/
theorem surrogates (c : Char) :
    isLowSurrogate (0xD800 + (c.toNat - 0x10000) / 0x400) = false ∧
      isHighSurrogate (0xD800 + (c.toNat - 0x10000) / 0x400) = true ∧
      isLowSurrogate (0xDC00 + (c.toNat - 0x10000) % 0x400) = true := by
  have hvalid : c.toNat < 0xD800 ∨ 0xDFFF < c.toNat ∧ c.toNat < 0x110000 := c.valid
  unfold isLowSurrogate isHighSurrogate
  simp only [Bool.and_eq_false_iff, decide_eq_false_iff_not, Bool.and_eq_true, decide_eq_true_eq]
  omega

theorem pairChar_eq (c : Char) (h : 0x10000 ≤ c.toNat) :
    pairChar (0xD800 + (c.toNat - 0x10000) / 0x400) (0xDC00 + (c.toNat - 0x10000) % 0x400) = c := by
  have hsum : (0xD800 + (c.toNat - 0x10000) / 0x400 - 0xD800) * 0x400 +
      (0xDC00 + (c.toNat - 0x10000) % 0x400 - 0xDC00) + 0x10000 = c.toNat := by omega
  unfold pairChar
  rw [hsum, Char.ofNat_toNat]

theorem stringRest_char (c : Char) (u t : Text) (h : CharSpells c u) :
    stringRest true (u ++ t) = prepend c (stringRest true t) := by
  cases h with
  | plain _ hquote hback hge =>
    rw [List.singleton_append, stringRest.eq_def]
    simp only [if_neg hquote, if_neg hback, if_neg (Nat.not_lt.mpr hge)]
  | short e _ he =>
    obtain ⟨hne, hc⟩ := escaped?_of_mem e c he
    show stringRest true ('\\' :: e :: t) = _
    rw [stringRest.eq_def]
    simp only [Char.reduceEq, if_false, if_true, if_neg hne, hc]
  | unit _ ds hds =>
    obtain ⟨a, b, d, e, rfl, hread⟩ := hds.exists_digits
    obtain ⟨hlow, hhigh⟩ := not_surrogate c
    show stringRest true ('\\' :: 'u' :: a :: b :: d :: e :: t) = _
    rw [stringRest, if_neg (by decide), if_pos rfl]
    simp only [if_true, hread, hlow, hhigh, Bool.and_false, Char.ofNat_toNat]
    rfl
  | pair _ high low hge hhigh hlow =>
    obtain ⟨a, b, d, e, rfl, hread⟩ := hhigh.exists_digits
    obtain ⟨a', b', d', e', rfl, hread'⟩ := hlow.exists_digits
    obtain ⟨hnot, hfirst, hsecond⟩ := surrogates c
    show stringRest true
      ('\\' :: 'u' :: a :: b :: d :: e :: '\\' :: 'u' :: a' :: b' :: d' :: e' :: t) = _
    rw [stringRest, if_neg (by decide), if_pos rfl]
    simp only [if_true, hread, hread', hnot, hfirst, hsecond, Bool.and_false, Bool.and_true,
      pairChar_eq c hge]
    rfl

/-- a string is read from each of its spellings -/
theorem stringRest_spelled (s t rest : Text) (h : RestSpells s t) :
    stringRest true (t ++ rest) = .ok (s, rest) := by
  induction h with
  | close =>
    rw [List.singleton_append, stringRest.eq_def]
    rfl
  | char hc _ ih =>
    rw [List.append_assoc, stringRest_char _ _ _ hc, ih]
    rfl

/-! ## Values -/

/-- a value starts with no blank and no closing bracket, and with an `n` only if it is `null` -/
theorem Spells.exists_cons {v : Value} {t : Text} (h : Spells v t) :
    ∃ c u, t = c :: u ∧ isSpace c = false ∧ c ≠ ']' ∧ (v = .null ∨ c ≠ 'n') := by
  cases h with
  | null => exact ⟨_, _, rfl, by decide, by decide, .inl rfl⟩
  | boolean b => cases b <;> exact ⟨_, _, rfl, by decide, by decide, .inr (by decide)⟩
  | string => exact ⟨_, _, rfl, by decide, by decide, .inr (by decide)⟩
  | list => exact ⟨_, _, rfl, by decide, by decide, .inr (by decide)⟩
  | object => exact ⟨_, _, rfl, by decide, by decide, .inr (by decide)⟩

/-- the reader gives `a` on every spelling of the value, and leaves what follows -/
def Reads {α : Type} (r : Reader α) (a : α) (v : Value) : Prop :=
  ∀ left t rest : Text, Spaces left → Spells v t → r (left ++ (t ++ rest)) = .ok (a, rest)

theorem Reads.apply {α : Type} {r : Reader α} {a : α} {v : Value} (h : Reads r a v) {t : Text}
    (ht : Spells v t) (rest : Text) : r (t ++ rest) = .ok (a, rest) :=
  h [] t rest spaces_nil ht

theorem Reads.map {α β : Type} {q : Reader α} {a : α} {v : Value} (h : Reads q a v) (g : α → β) :
    Reads (fun t => q t >>= fun p => pure (g p.1, p.2)) (g a) v := by
  intro left t rest hl ht
  show (q (left ++ (t ++ rest)) >>= _) = _
  rw [h left t rest hl ht]
  rfl

theorem reads_string (s : Text) : Reads string s (.string s) := by
  intro left t rest hl ht
  cases ht with
  | string hs =>
    unfold string
    rw [List.cons_append, skipSpace_spaces left hl '"' (by decide)]
    exact stringRest_spelled s _ rest hs

theorem reads_boolean (b : Bool) : Reads boolean b (.boolean b) := by
  intro left t rest hl ht
  cases ht with
  | boolean =>
    unfold boolean
    cases b with
    | true =>
      have hskip : skipSpace (left ++ ((if true then "true" else "false").toList ++ rest)) =
          't' :: ("rue".toList ++ rest) := skipSpace_spaces left hl 't' (by decide) _
      rw [hskip]
      show (literal _ _).map _ = _
      rw [literal_append]
      rfl
    | false =>
      have hskip : skipSpace (left ++ ((if false then "true" else "false").toList ++ rest)) =
          'f' :: ("alse".toList ++ rest) := skipSpace_spaces left hl 'f' (by decide) _
      rw [hskip]
      show (literal _ _).map _ = _
      rw [literal_append]
      rfl

theorem reads_null {α : Type} (r : Reader α) : Reads (nullable r) none .null := by
  intro left t rest hl ht
  cases ht with
  | null =>
    unfold nullable
    have hskip : skipSpace (left ++ ("null".toList ++ rest)) =
        'n' :: ("ull".toList ++ rest) := skipSpace_spaces left hl 'n' (by decide) _
    rw [hskip]
    show (literal _ _).map _ = _
    rw [literal_append]
    rfl

theorem Reads.nullable {α : Type} {r : Reader α} {a : α} {v : Value} (h : Reads r a v)
    (hv : v ≠ .null) : Reads (nullable r) (some a) v := by
  intro left t rest hl ht
  obtain ⟨c, u, rfl, hspace, -, hn⟩ := ht.exists_cons
  have hread := h.apply ht rest
  rw [List.cons_append] at hread ⊢
  unfold Json.nullable
  rw [skipSpace_spaces left hl c hspace]
  split
  · next heq =>
    obtain ⟨hc, -⟩ := List.cons.inj heq
    exact absurd hc (hn.resolve_left hv)
  · rw [hread]
    rfl

/-! ## Items -/

/-- every item but the first has its comma, and the last one is closed -/
theorem Items.length_le {α : Type} {close : Char} {spells : α → Text → Prop} {first : Bool}
    {as : List α} {t : Text} (h : Items close spells first as t) :
    as.length + (if first then 0 else 1) ≤ t.length := by
  induction h with
  | @close first blank _ =>
    rw [List.length_append, List.length_nil, List.length_singleton]
    split <;> omega
  | @item first sep t rest a as hsep _ _ ih =>
    rw [if_neg (by decide)] at ih
    cases hsep with
    | first _ =>
      simp only [List.length_cons, List.length_append, if_true]
      omega
    | comma _ _ =>
      simp only [List.length_cons, List.length_append, Bool.false_eq_true, if_false]
      omega

theorem nextElement_item {first : Bool} {sep : Text} (hsep : Separator first sep) (c : Char)
    (hspace : isSpace c = false) (hc : c ≠ ']') (t : Text) :
    nextElement first (sep ++ c :: t) = .ok (some (c :: t)) := by
  unfold nextElement
  cases hsep with
  | first h =>
    rw [skipSpace_spaces sep h c hspace]
    simp only [if_neg hc, if_true]
  | comma hl hr =>
    rw [List.append_assoc, List.cons_append, skipSpace_spaces _ hl ',' (by decide)]
    simp only [Char.reduceEq, if_false, if_true, Bool.false_eq_true,
      skipSpace_spaces _ hr c hspace]
    split
    · next heq => exact absurd heq (List.cons_ne_nil c t)
    · next heq => exact absurd (List.cons.inj heq).1 hc
    · rfl

theorem nextElement_close (first : Bool) (blank t : Text) (h : Spaces blank) :
    nextElement first (blank ++ ']' :: t) = .ok none := by
  unfold nextElement
  rw [skipSpace_spaces blank h ']' (by decide)]
  rfl

theorem nextKey_item {first : Bool} {sep : Text} (hsep : Separator first sep) (t : Text) :
    nextKey first (sep ++ '"' :: t) = .ok (some t) := by
  unfold nextKey
  cases hsep with
  | first h =>
    rw [skipSpace_spaces sep h '"' (by decide)]
    rfl
  | comma hl hr =>
    rw [List.append_assoc, List.cons_append, skipSpace_spaces _ hl ',' (by decide)]
    simp only [Char.reduceEq, if_false, if_true, Bool.false_eq_true,
      skipSpace_spaces _ hr '"' (by decide)]

theorem nextKey_close (first : Bool) (blank t : Text) (h : Spaces blank) :
    nextKey first (blank ++ '\x7d' :: t) = .ok none := by
  unfold nextKey
  rw [skipSpace_spaces blank h '\x7d' (by decide)]
  rfl

theorem afterColon_spaces (left t : Text) (h : Spaces left) :
    afterColon (left ++ ':' :: t) = .ok t := by
  unfold afterColon
  rw [skipSpace_spaces left h ':' (by decide)]
  rfl

theorem listRest_items {α : Type} (r : Reader α) {first : Bool} {vs : List Value} {t : Text}
    (h : Items ']' Spells first vs t) (as : List α) (has : List.Forall₂ (Reads r) as vs)
    (fuel : Nat) (hfuel : vs.length ≤ fuel) (rest : Text) :
    listRest r (fuel + 1) first (t ++ rest) = .ok (as, rest) := by
  induction h generalizing as fuel with
  | @close first blank hblank =>
    obtain rfl := List.forall₂_nil_right_iff.mp has
    rw [List.append_assoc, List.singleton_append, listRest, nextElement_close first blank _ hblank]
    show Except.ok ([], (skipSpace (blank ++ ']' :: rest)).drop 1) = _
    rw [skipSpace_spaces blank hblank ']' (by decide)]
    rfl
  | @item first sep t after v vs hsep hv _ ih =>
    obtain ⟨a, as, ha, has', rfl⟩ := List.forall₂_cons_right_iff.mp has
    obtain ⟨fuel, rfl⟩ := Nat.exists_eq_succ_of_ne_zero (Nat.ne_zero_of_lt hfuel)
    have hnext : nextElement first (sep ++ (t ++ (after ++ rest))) =
        .ok (some (t ++ (after ++ rest))) := by
      obtain ⟨c, u, rfl, hspace, hc, -⟩ := hv.exists_cons
      exact nextElement_item hsep c hspace hc _
    rw [List.append_assoc, List.append_assoc, listRest, hnext]
    show (r (t ++ (after ++ rest)) >>= _) = _
    rw [ha.apply hv]
    show (listRest r (fuel + 1) false (after ++ rest) >>= _) = _
    rw [ih as has' fuel (Nat.le_of_succ_le_succ hfuel)]
    rfl

theorem reads_list {α : Type} (r : Reader α) (as : List α) (vs : List Value)
    (h : List.Forall₂ (Reads r) as vs) : Reads (list r) as (.list vs) := by
  intro left t rest hl ht
  cases ht with
  | @list _ t hitems =>
    have hlength := hitems.length_le
    unfold list
    rw [List.cons_append, skipSpace_spaces left hl '[' (by decide)]
    refine listRest_items r hitems as h _ ?_ rest
    rw [List.length_append]
    simp only [if_true] at hlength
    omega

/-! ## What readers give -/

/-- what holds of every value that is read holds of all elements of a list -/
theorem forall_of_listRest {α : Type} (r : Reader α) (p : α → Prop)
    (hr : ∀ t a t', r t = .ok (a, t') → p a) (fuel : Nat) (first : Bool) (t : Text) (as : List α)
    (t' : Text) (h : listRest r fuel first t = .ok (as, t')) : ∀ a ∈ as, p a := by
  induction fuel generalizing first t as t' with
  | zero => exact absurd h (by simp [listRest])
  | succ fuel ih =>
    rw [listRest] at h
    obtain ⟨next, -, h⟩ := (bind_eq_ok_iff _ _ _).mp h
    cases next with
    | none =>
      obtain ⟨rfl, -⟩ := Prod.mk.inj (Except.ok.inj h)
      exact fun a ha => absurd ha List.not_mem_nil
    | some t =>
      obtain ⟨⟨a, u⟩, ha, h⟩ := (bind_eq_ok_iff _ _ _).mp h
      obtain ⟨⟨as, u'⟩, has, h⟩ := (bind_eq_ok_iff _ _ _).mp h
      obtain ⟨rfl, -⟩ := Prod.mk.inj (Except.ok.inj h)
      exact List.forall_mem_cons.mpr ⟨hr _ _ _ ha, ih false u as u' has⟩

theorem forall_of_list {α : Type} (r : Reader α) (p : α → Prop)
    (hr : ∀ t a t', r t = .ok (a, t') → p a) (t : Text) (as : List α) (t' : Text)
    (h : list r t = .ok (as, t')) : ∀ a ∈ as, p a := by
  unfold list at h
  split at h
  · exact forall_of_listRest r p hr _ _ _ as t' h
  · exact absurd h (by simp)

end TinyCpu.Json
