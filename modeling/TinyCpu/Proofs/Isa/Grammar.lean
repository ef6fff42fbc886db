import TinyCpu.Proofs.Isa.Case
import TinyCpu.Proofs.Isa.Printed

/-!
# The grammar of instructions

The lines of a form, said without a reader: the mnemonic in any case, and, if the form has slots, a
blank and one operand for each slot, with commas between them and blanks around them.

* `Token`              an optional `#`, then letters, digits, underscores and signs;
* `Slot.Derives`       the operands that a slot takes, and the token that stands in it;
* `Form.Derives`       the lines of a form, and their tokens from left to right;
* `Form.derives_iff`   the reader finds the shape of a form in the lines of this form only;
* `Form.derives_rendered`   a form derives what it is rendered as;
* `InstructionSet.resolve?_grammar`   a line has a meaning if and only if some form derives it.
-/

namespace TinyCpu
open Text

/-! ## Tokens and keywords -/

def tokenChars : Text :=
  "ABCDEFGHIJKLMNOPQRSTUVWXYZabcdefghijklmnopqrstuvwxyz0123456789_+-".toList

/-- a token, `#?[A-Za-z0-9_+-]+` -/
inductive Token : Text → Prop
  | plain {t : Text} (hne : t ≠ []) (h : ∀ c ∈ t, c ∈ tokenChars) : Token t
  | marked {t : Text} (hne : t ≠ []) (h : ∀ c ∈ t, c ∈ tokenChars) : Token ('#' :: t)

theorem mem_tokenChars_iff (c : Char) : c ∈ tokenChars ↔ Operand.isTokenChar c = true := by
  constructor
  · have hall : tokenChars.all Operand.isTokenChar = true := by decide +kernel
    exact fun h => List.all_eq_true.mp hall c h
  · intro h
    have hlisted := holds_of_codes (fun c => !Operand.isTokenChar c || tokenChars.contains c) 0 128
      (by decide +kernel) c (Nat.zero_le _) (Operand.toNat_lt_of_isTokenChar c h)
    simpa [h] using hlisted

theorem isToken_iff (t : Text) : Operand.isToken t = true ↔ Token t := by
  have hbody : ∀ u : Text, (!u.isEmpty && u.all Operand.isTokenChar) = true ↔
      u ≠ [] ∧ ∀ c ∈ u, c ∈ tokenChars := by
    intro u
    simp only [mem_tokenChars_iff]
    simp
  show (!(dropLead '#' t).isEmpty && (dropLead '#' t).all Operand.isTokenChar) = true ↔ _
  rw [hbody]
  cases t with
  | nil =>
    constructor
    · exact fun h => absurd rfl h.1
    · rintro ⟨hne, -⟩
      exact absurd rfl hne
  | cons d t =>
    by_cases hd : d = '#'
    · subst hd
      constructor
      · exact fun h => .marked h.1 h.2
      · intro h
        cases h with
        | plain _ h => exact absurd (h '#' List.mem_cons_self) (by decide)
        | marked hne h => exact ⟨hne, h⟩
    · have hlead : dropLead '#' (d :: t) = d :: t := if_neg hd
      rw [hlead]
      constructor
      · exact fun h => .plain h.1 h.2
      · intro h
        cases h with
        | plain hne h => exact ⟨hne, h⟩
        | marked => exact absurd rfl hd

instance (t : Text) : Decidable (Token t) := decidable_of_iff _ (isToken_iff t)

/-- the text names a register, in any case -/
def IsKeyword (t : Text) : Prop := ∃ r : Register, lower t = lower r.keyword

theorem Register.ofKeyword?_eq_some_iff (t : Text) (r : Register) :
    Register.ofKeyword? t = some r ↔ lower t = lower r.keyword := by
  constructor
  · intro h
    have hsame := List.find?_some h
    exact ((sameLetters_iff _ _).mp hsame).symm
  · intro h
    rw [← Register.ofKeyword?_lower, h, Register.ofKeyword?_lower]
    cases r <;> decide

theorem isSome_ofKeyword?_iff (t : Text) :
    (Register.ofKeyword? t).isSome = true ↔ IsKeyword t := by
  rw [Option.isSome_iff_exists]
  simp only [Register.ofKeyword?_eq_some_iff]
  rfl

instance (t : Text) : Decidable (IsKeyword t) := decidable_of_iff _ (isSome_ofKeyword?_iff t)

theorem isToken_of_keyword (t : Text) (r : Register) (h : lower t = lower r.keyword) :
    Operand.isToken t = true := by
  rw [← Operand.isToken_lower, h, Operand.isToken_lower]
  cases r <;> decide

/-! ## Operands -/

/-- the operands that a slot takes, each with the token that stands in it, if the slot is no
register -/
inductive Slot.Derives : Slot → Text → List Text → Prop
  | register {r : Register} {t : Text} (h : lower t = lower r.keyword) :
      Derives (.register r) t []
  | value {t : Text} (h : Token t) : Derives .value t [t]
  | memory {left t right : Text} (hl : Blanks left) (h : Token t) (hr : Blanks right) :
      Derives .memory ('[' :: (left ++ t ++ right) ++ [']']) [t]

namespace Operand

theorem ofText_of_keyword (t : Text) (r : Register) (h : lower t = lower r.keyword) :
    ofText t = .register r t := by
  unfold ofText
  rw [(Register.ofKeyword?_eq_some_iff t r).mpr h]

theorem ofText_of_isToken (t : Text) (h : isToken t = true) :
    (∃ r, ofText t = .register r t) ∨ ofText t = .value t := by
  cases hk : Register.ofKeyword? t with
  | some r => exact .inl ⟨r, ofText_of_keyword t r ((Register.ofKeyword?_eq_some_iff t r).mp hk)⟩
  | none => exact .inr (ofText_token t ⟨h, hk⟩)

/-- what a text is if it is read as an operand -/
theorem ofText_cases (t : Text) :
    (∃ r, lower t = lower r.keyword ∧ ofText t = .register r t) ∨
    (Token t ∧ ofText t = .value t) ∨
    (∃ left u right, Blanks left ∧ Blanks right ∧ Token u ∧
      t = '[' :: (left ++ u ++ right) ++ [']'] ∧ ofText t = .memory u) ∨
    ofText t = .invalid := by
  cases hk : Register.ofKeyword? t with
  | some r =>
    have hr := (Register.ofKeyword?_eq_some_iff t r).mp hk
    exact .inl ⟨r, hr, ofText_of_keyword t r hr⟩
  | none =>
    cases hi : inside? '[' ']' t with
    | some inner =>
      have hread : ofText t = if isToken (trim inner) = true then .memory (trim inner)
          else .invalid := by
        unfold ofText
        rw [hk, hi]
      by_cases htoken : isToken (trim inner) = true
      · obtain ⟨left, right, hl, hr, heq⟩ := exists_blanks_trim inner
        have hinner := (isToken_iff (trim inner)).mp htoken
        refine .inr (.inr (.inl ⟨left, trim inner, right, hl, hr, hinner, ?_, ?_⟩))
        · rw [← heq]
          exact (inside?_eq_some_iff '[' ']' t inner).mp hi
        · rw [hread, if_pos htoken]
      · rw [if_neg htoken] at hread
        exact .inr (.inr (.inr hread))
    | none =>
      have hread : ofText t = if isToken t = true then .value t else .invalid := by
        unfold ofText
        rw [hk, hi]
      by_cases htoken : isToken t = true
      · rw [if_pos htoken] at hread
        exact .inr (.inl ⟨(isToken_iff t).mp htoken, hread⟩)
      · rw [if_neg htoken] at hread
        exact .inr (.inr (.inr hread))

end Operand

namespace Slot

def tokens (s : Slot) (o : Operand) : List Text := if s.isRegister then [] else o.text?.toList

theorem derives_iff (s : Slot) (t : Text) (ts : List Text) :
    s.Derives t ts ↔ (Operand.ofText t).fits s = true ∧ ts = s.tokens (Operand.ofText t) := by
  constructor
  · intro h
    cases h with
    | register h =>
      rw [Operand.ofText_of_keyword t _ h]
      simp [Operand.fits, tokens, isRegister]
    | value h =>
      rcases Operand.ofText_of_isToken t ((isToken_iff t).mpr h) with ⟨r, hr⟩ | hv
      · rw [hr]
        exact ⟨rfl, rfl⟩
      · rw [hv]
        exact ⟨rfl, rfl⟩
    | @memory left u right hl h hr =>
      rw [Operand.ofText_bracketed left u right hl ((isToken_iff u).mpr h) hr]
      exact ⟨rfl, rfl⟩
  · rintro ⟨hfits, rfl⟩
    rcases Operand.ofText_cases t with ⟨r, hr, heq⟩ | ⟨htoken, heq⟩ |
      ⟨left, u, right, hl, hr, htoken, rfl, heq⟩ | heq <;> rw [heq] at hfits ⊢
    · -- a keyword names its register, and it is a label where a value is due
      cases s with
      | register want =>
        obtain rfl : want = r := by simpa [Operand.fits] using hfits
        exact .register hr
      | value => exact .value ((isToken_iff t).mp (isToken_of_keyword t r hr))
      | memory => exact absurd hfits (by simp [Operand.fits])
    · cases s with
      | value => exact .value htoken
      | register _ => exact absurd hfits (by simp [Operand.fits])
      | memory => exact absurd hfits (by simp [Operand.fits])
    · cases s with
      | memory => exact .memory hl htoken hr
      | register _ => exact absurd hfits (by simp [Operand.fits])
      | value => exact absurd hfits (by simp [Operand.fits])
    · cases s <;> exact absurd hfits (by simp [Operand.fits])

theorem plain_token (t : Text) (h : Operand.isToken t = true) : Operand.Plain t where
  ne_nil := Operand.ne_nil_of_isToken t h
  trimmed := Operand.trimmed_of_isToken t h
  comma := fun hc => (Operand.plain_of_isToken t h ',' hc).2 (by decide)

theorem Derives.plain {s : Slot} {t : Text} {ts : List Text} (h : s.Derives t ts) :
    Operand.Plain t := by
  cases h with
  | @register r _ h => exact plain_token t (isToken_of_keyword t r h)
  | value h => exact plain_token t ((isToken_iff t).mpr h)
  | @memory left u right hl h hr =>
    refine ⟨List.cons_ne_nil _ _, ⟨?_, ?_⟩, ?_⟩
    · intro c hc
      obtain rfl := Option.some.inj hc
      decide
    · intro c hc
      rw [List.getLast?_concat] at hc
      obtain rfl := Option.some.inj hc
      decide
    · have hblank : ∀ b : Text, Blanks b → ',' ∉ b := by
        intro b hb hc
        exact absurd (hb ',' hc) (by decide)
      have hcomma := (plain_token u ((isToken_iff u).mpr h)).comma
      simp [hblank left hl, hblank right hr, hcomma]

/-- operands for the slots, with commas between them and blanks around them, and their tokens from
left to right -/
inductive DeriveAll : List Slot → Text → List Text → Prop
  | last {s : Slot} {left t right : Text} {ts : List Text} (hl : Blanks left)
      (h : s.Derives t ts) (hr : Blanks right) : DeriveAll [s] (left ++ t ++ right) ts
  | cons {s : Slot} {ss : List Slot} {left t right rest : Text} {ts us : List Text}
      (hl : Blanks left) (h : s.Derives t ts) (hr : Blanks right) (hrest : DeriveAll ss rest us) :
      DeriveAll (s :: ss) (left ++ t ++ right ++ ',' :: rest) (ts ++ us)

def tokensOf (ss : List Slot) (operands : List Text) : List Text :=
  (List.zipWith (fun s t => s.tokens (Operand.ofText t)) ss operands).flatten

theorem tokensOf_cons (s : Slot) (ss : List Slot) (t : Text) (operands : List Text) :
    tokensOf (s :: ss) (t :: operands) = s.tokens (Operand.ofText t) ++ tokensOf ss operands := rfl

theorem fields_of_derives {s : Slot} {left t right : Text} {ts : List Text} (hl : Blanks left)
    (h : s.Derives t ts) (hr : Blanks right) : fields ',' (left ++ t ++ right) = [t] := by
  have hplain := h.plain
  rw [fields_append_blanks ',' (by decide) _ right hr,
    fields_blanks_append ',' (by decide) left t hl, fields_of_not_mem ',' t hplain.comma,
    trim_of_trimmed t hplain.trimmed]

/-- slots derive the texts with fields that fit them -/
theorem deriveAll_iff (ss : List Slot) (list : Text) (ts : List Text) :
    DeriveAll ss list ts ↔
      List.Forall₂ (fun slot operand => (Operand.ofText operand).fits slot = true) ss
        (fields ',' list) ∧ ts = tokensOf ss (fields ',' list) := by
  constructor
  · intro h
    induction h with
    | last hl h hr =>
      obtain ⟨hfits, rfl⟩ := (derives_iff _ _ _).mp h
      rw [fields_of_derives hl h hr]
      exact ⟨.cons hfits .nil, (List.append_nil _).symm⟩
    | cons hl h hr _ ih =>
      obtain ⟨hfits, rfl⟩ := (derives_iff _ _ _).mp h
      obtain ⟨hall, rfl⟩ := ih
      rw [fields_append_cons, fields_of_derives hl h hr]
      exact ⟨.cons hfits hall, rfl⟩
  · rintro ⟨hall, rfl⟩
    induction ss generalizing list with
    | nil =>
      have hnil : fields ',' list = [] := List.forall₂_nil_left_iff.mp hall
      exact absurd (List.map_eq_nil_iff.mp hnil) (List.splitOn_ne_nil ',' list)
    | cons s ss ih =>
      by_cases hcomma : ',' ∈ list
      · obtain ⟨first, rest, rfl, hfirst⟩ := List.eq_append_cons_of_mem hcomma
        rw [fields_append_cons, fields_of_not_mem ',' first hfirst] at hall ⊢
        obtain ⟨hfits, hrest⟩ := List.forall₂_cons.mp hall
        obtain ⟨left, right, hl, hr, heq⟩ := exists_blanks_trim first
        have hderives := (derives_iff s (trim first) _).mpr ⟨hfits, rfl⟩
        have hcons := DeriveAll.cons hl hderives hr (ih rest hrest)
        rwa [← heq] at hcons
      · rw [fields_of_not_mem ',' list hcomma] at hall ⊢
        obtain ⟨hfits, hrest⟩ := List.forall₂_cons.mp hall
        obtain rfl := List.forall₂_nil_right_iff.mp hrest
        obtain ⟨left, right, hl, hr, heq⟩ := exists_blanks_trim list
        have hderives := (derives_iff s (trim list) _).mpr ⟨hfits, rfl⟩
        have hlast := DeriveAll.last hl hderives hr
        rw [← heq] at hlast
        rwa [tokensOf_cons, show tokensOf [] [] = [] from rfl, List.append_nil]

end Slot

/-! ## Lines -/

namespace Form

/-- the lines of a form without blanks at their ends, and their tokens from left to right -/
inductive Derives (f : Form) : Text → List Text → Prop
  | bare {m : Text} (hm : lower m = lower f.mnemonic) (hslots : f.slots = []) : Derives f m []
  | operands {m : Text} {c : Char} {list : Text} {ts : List Text}
      (hm : lower m = lower f.mnemonic) (hc : isBlank c = true)
      (h : Slot.DeriveAll f.slots list ts) : Derives f (m ++ c :: list) ts

theorem isBlank_of_lower_eq (f : Form) (hf : f.Readable) (m : Text)
    (hm : lower m = lower f.mnemonic) : ∀ c ∈ m, isBlank c = false := by
  have hall : m.all (fun c => !isBlank c) = true := by
    rw [← all_lower _ (fun c => by rw [isBlank_toLower]) m, hm,
      all_lower _ fun c => by rw [isBlank_toLower]]
    exact List.all_eq_true.mpr fun c hc => by rw [hf.2 c hc]; rfl
  intro c hc
  simpa using List.all_eq_true.mp hall c hc

theorem derives_iff (f : Form) (hf : f.Readable) (t : Text) (ts : List Text) :
    f.Derives (trim t) ts ↔ f.Matches t ∧ ts = Slot.tokensOf f.slots (splitInstruction t).2 := by
  unfold Matches
  constructor
  · intro h
    have htrim := trimmed_trim t
    rw [← splitInstruction_trim t]
    generalize trim t = line at h htrim
    cases h with
    | bare hm hslots =>
      rw [splitInstruction_mnemonic line (f.isBlank_of_lower_eq hf line hm), hslots]
      exact ⟨⟨hm.symm, .nil⟩, rfl⟩
    | @operands m c list _ hm hc h =>
      rw [splitInstruction_cut m c list (f.isBlank_of_lower_eq hf m hm) hc htrim]
      obtain ⟨hall, hts⟩ := (Slot.deriveAll_iff _ _ _).mp h
      exact ⟨⟨hm.symm, hall⟩, hts⟩
  · rintro ⟨⟨hm, hall⟩, rfl⟩
    rcases splitInstruction_cases t with hsplit | ⟨m, c, list, hc, heq, hsplit⟩
    · rw [hsplit] at hm hall ⊢
      have hslots : f.slots = [] := List.forall₂_nil_right_iff.mp hall
      rw [hslots]
      exact .bare hm.symm hslots
    · rw [hsplit] at hm hall ⊢
      rw [heq]
      exact .operands hm.symm hc ((Slot.deriveAll_iff _ _ _).mpr ⟨hall, rfl⟩)

/-- the operand of a form is the first token of the line -/
theorem find?_zip_fits {ss : List Slot} {operands : List Text}
    (h : List.Forall₂ (fun slot operand => (Operand.ofText operand).fits slot = true) ss operands) :
    ((ss.zip (operands.map Operand.ofText)).find? fun p => !p.1.isRegister).bind
      (fun p => p.2.text?) = (Slot.tokensOf ss operands).head? := by
  induction h with
  | nil => rfl
  | @cons s t ss ts hfits _ ih =>
    rw [List.map_cons, List.zip_cons_cons, List.find?_cons, Slot.tokensOf_cons, Slot.tokens]
    cases hs : s.isRegister with
    | true => simpa using ih
    | false =>
      obtain ⟨u, hu⟩ := Option.isSome_iff_exists.mp (Slot.isSome_text?_of_fits _ s hfits hs)
      simp [hu]

theorem valueText?_of_matches (f : Form) (t : Text) (h : f.Matches t) :
    f.valueText? (Operand.ofLine t) = (Slot.tokensOf f.slots (splitInstruction t).2).head? :=
  find?_zip_fits h.2

end Form

/-! ## The form that a line means -/

namespace Slot

/-- an operand that fits a slot, and is no keyword in the place of a value, fits only slots that
this slot refines -/
theorem refines_of_fits (s s' : Slot) (t : Text) (h : (Operand.ofText t).fits s = true)
    (hkey : ∀ u ∈ s.tokens (Operand.ofText t), ¬ IsKeyword u)
    (h' : (Operand.ofText t).fits s' = true) : s.Refines s' := by
  rcases Operand.ofText_cases t with ⟨r, hr, heq⟩ | ⟨-, heq⟩ |
    ⟨left, u, right, -, -, -, -, heq⟩ | heq <;> rw [heq] at h hkey h'
  · -- a keyword is a token of the line unless the slot is a register
    cases s with
    | register _ => cases s' <;> simp_all [Operand.fits, Refines]
    | value => exact absurd ⟨r, hr⟩ (hkey t (by simp [tokens, isRegister, Operand.text?]))
    | memory => exact absurd h (by simp [Operand.fits])
  all_goals cases s <;> cases s' <;> simp_all [Operand.fits, Refines]

theorem forall₂_refines_of_fits {ss ss' : List Slot} {operands : List Text}
    (h : List.Forall₂ (fun slot operand => (Operand.ofText operand).fits slot = true) ss operands)
    (hkey : ∀ u ∈ tokensOf ss operands, ¬ IsKeyword u)
    (h' : List.Forall₂ (fun slot operand => (Operand.ofText operand).fits slot = true) ss'
      operands) : List.Forall₂ Refines ss ss' := by
  induction h generalizing ss' with
  | nil =>
    cases h' with
    | nil => exact .nil
  | cons hfits _ ih =>
    rw [tokensOf_cons] at hkey
    cases h' with
    | cons hfits' hrest =>
      refine .cons (refines_of_fits _ _ _ hfits (fun u hu => ?_) hfits') (ih (fun u hu => ?_) hrest)
      · exact hkey u (List.mem_append_left _ hu)
      · exact hkey u (List.mem_append_right _ hu)

end Slot

theorem InstructionSet.resolve?_of_derives (set : InstructionSet) (f : Form) (hmem : f ∈ set.forms)
    (hf : f.Readable) (t : Text) (ts : List Text) (h : f.Derives (trim t) ts)
    (hkey : ∀ u ∈ ts, ¬ IsKeyword u) : set.resolve? t = some ⟨f, ts.head?⟩ := by
  obtain ⟨hmatch, rfl⟩ := (f.derives_iff hf t ts).mp h
  rw [set.resolve?_of_dominates f t hmem hmatch
    fun g hg => Slot.forall₂_refines_of_fits hmatch.2 hkey hg.2, f.valueText?_of_matches t hmatch]

/-! ## Rendered forms -/

namespace Slot

/-- the texts that stand in slots other than registers -/
def given (ss : List Slot) (ts : List Text) : List Text :=
  ((ss.zip ts).filter fun p => !p.1.isRegister).map Prod.snd

theorem given_cons (s : Slot) (ss : List Slot) (t : Text) (ts : List Text) :
    given (s :: ss) (t :: ts) = (if s.isRegister then [] else [t]) ++ given ss ts := by
  unfold given
  rw [List.zip_cons_cons, List.filter_cons]
  cases s.isRegister <;> rfl

theorem mem_of_mem_given (ss : List Slot) (ts : List Text) (t : Text) (h : t ∈ given ss ts) :
    t ∈ ts := by
  obtain ⟨p, hp, rfl⟩ := List.mem_map.mp h
  exact (List.of_mem_zip (List.mem_filter.mp hp).1).2

theorem derives_filled (s : Slot) (t : Text) (h : Token t) :
    s.Derives (s.filled t) (if s.isRegister then [] else [t]) := by
  cases s with
  | register r => exact .register rfl
  | value => exact .value h
  | memory =>
    have hmemory := @Derives.memory [] t [] blanks_nil h blanks_nil
    rwa [List.nil_append, List.append_nil] at hmemory

theorem deriveAll_blank (c : Char) (hc : isBlank c = true) {ss : List Slot} {list : Text}
    {ts : List Text} (h : DeriveAll ss list ts) : DeriveAll ss (c :: list) ts := by
  rw [deriveAll_iff] at h ⊢
  have hfields : fields ',' (c :: list) = fields ',' list :=
    fields_blanks_append ',' (by decide) [c] list (by simpa [Blanks] using hc)
  rwa [hfields]

theorem deriveAll_filled (ss : List Slot) (ts : List Text) (hne : ss ≠ [])
    (hlen : ts.length = ss.length) (h : ∀ t ∈ ts, Token t) :
    DeriveAll ss ([',', ' '].intercalate (List.zipWith (fun s t => s.filled t) ss ts))
      (given ss ts) := by
  induction ss generalizing ts with
  | nil => exact absurd rfl hne
  | cons s ss ih =>
    cases ts with
    | nil => exact absurd hlen (by simp)
    | cons t ts =>
      have hfirst := s.derives_filled t (h t List.mem_cons_self)
      rw [given_cons]
      cases ss with
      | nil =>
        obtain rfl : ts = [] := List.length_eq_zero_iff.mp (Nat.succ.inj hlen)
        have hlast := @DeriveAll.last s [] _ [] _ blanks_nil hfirst blanks_nil
        rw [List.nil_append, List.append_nil] at hlast
        rw [List.zipWith_cons_cons, List.zipWith_nil_left, List.intercalate_singleton,
          show given [] [] = [] from rfl, List.append_nil]
        exact hlast
      | cons s' ss =>
        have hrest := ih ts (by simp) (Nat.succ.inj hlen)
          fun u hu => h u (List.mem_cons_of_mem t hu)
        have hcons := @DeriveAll.cons s _ [] _ [] _ _ _ blanks_nil hfirst blanks_nil
          (deriveAll_blank ' ' (by decide) hrest)
        cases ts with
        | nil => exact absurd hlen (by simp)
        | cons t' ts =>
          rw [List.nil_append, List.append_nil] at hcons
          rw [List.zipWith_cons_cons, List.zipWith_cons_cons, List.intercalate_cons_cons,
            List.append_assoc]
          exact hcons

end Slot

namespace Form

theorem derives_rendered (f : Form) (ts : List Text) (hlen : ts.length = f.slots.length)
    (h : ∀ t ∈ ts, Token t) : f.Derives (f.rendered ts) (Slot.given f.slots ts) := by
  unfold rendered
  cases hslots : f.slots with
  | nil => exact .bare rfl hslots
  | cons s ss =>
    have hall := Slot.deriveAll_filled f.slots ts (by simp [hslots]) hlen h
    have hline := @Derives.operands f f.mnemonic ' ' _ _ rfl (by decide) hall
    rw [hslots] at hline
    exact hline

end Form

/-! ## The grammar of a table -/

namespace InstructionSet

/-- **A table reads exactly its grammar.**  A line has a meaning if and only if some form of the
table derives it, without the blanks at its ends.  The form that it means derives it, and the
operand is the first token of the line.  If no token is a register keyword, a line means every form
that derives it; in particular a rendered form means itself. -/
theorem resolve?_grammar (forms : List Form) (set : InstructionSet) (h : ofForms forms = .ok set)
    (hforms : ∀ f ∈ forms, f.Readable) :
    (∀ t, (set.resolve? t).isSome = true ↔ ∃ f ∈ forms, ∃ ts, f.Derives (trim t) ts) ∧
    (∀ t m, set.resolve? t = some m → m.form ∈ forms ∧ (∃ ts, m.form.Derives (trim t) ts) ∧
      ∀ ts, m.form.Derives (trim t) ts → m.operand = ts.head?) ∧
    (∀ t, ∀ f ∈ forms, ∀ ts, f.Derives (trim t) ts → (∀ u ∈ ts, ¬ IsKeyword u) →
      set.resolve? t = some ⟨f, ts.head?⟩) ∧
    ∀ f ∈ forms, ∀ ts, ts.length = f.slots.length → (∀ u ∈ ts, Token u ∧ ¬ IsKeyword u) →
      set.resolve? (f.rendered ts) = some ⟨f, (Slot.given f.slots ts).head?⟩ := by
  obtain rfl := (ofForms_eq_ok_iff forms set).mp h
  refine ⟨fun t => ?_, fun t m hm => ?_, fun t f hf ts hder hkey => ?_, fun f hf ts hlen hts => ?_⟩
  · have hsome : (set.resolve? t).isSome = true ↔ ∃ f ∈ set.forms, f.Matches t := by
      rw [← not_iff_not, Option.not_isSome_iff_eq_none, resolve?_eq_none_iff]
      simp
    rw [hsome]
    constructor
    · rintro ⟨f, hf, hmatch⟩
      exact ⟨f, hf, _, (f.derives_iff (hforms f hf) t _).mpr ⟨hmatch, rfl⟩⟩
    · rintro ⟨f, hf, ts, hder⟩
      exact ⟨f, hf, ((f.derives_iff (hforms f hf) t ts).mp hder).1⟩
  · obtain ⟨hmem, hmatch, -⟩ := set.resolve?_specific t m hm
    have hiff := m.form.derives_iff (hforms _ hmem) t
    refine ⟨hmem, ⟨_, (hiff _).mpr ⟨hmatch, rfl⟩⟩, fun ts hder => ?_⟩
    rw [((hiff ts).mp hder).2, set.operand_of_resolve? t m hm, m.form.valueText?_of_matches t hmatch]
  · exact set.resolve?_of_derives f hf (hforms f hf) t ts hder hkey
  · have htokens : ∀ u ∈ ts, Token u := fun u hu => (hts u hu).1
    apply set.resolve?_of_derives f hf (hforms f hf)
    · rw [trim_of_trimmed _ (f.trimmed_rendered (hforms f hf) ts hlen fun u hu =>
        (isToken_iff u).mpr (htokens u hu))]
      exact f.derives_rendered ts hlen htokens
    · exact fun u hu => (hts u (Slot.mem_of_mem_given f.slots ts u hu)).2

/-- a store, with the mnemonic and the register in lower case and blanks in every place -/
theorem resolve?_grammar_store :
    ofForms table = .ok standard ∧ (∀ f ∈ table, f.Readable) ∧
      standard.resolve? "\tmov  [ #x1 ] ,a ".toList
        = some ⟨byte "MOV" [.memory, .register .a] 0x20, some "#x1".toList⟩ := by
  have hok : ofForms table = .ok standard := (ofForms_eq_ok_iff table standard).mpr rfl
  obtain ⟨-, -, hline, -⟩ := resolve?_grammar table standard hok readable_of_mem_table
  refine ⟨hok, readable_of_mem_table, ?_⟩
  apply hline _ _ (by decide) ["#x1".toList]
  · have hmemory : Slot.Derives .memory "[ #x1 ]".toList ["#x1".toList] :=
      @Slot.Derives.memory " ".toList "#x1".toList " ".toList (by decide) (by decide) (by decide)
    have hregister : Slot.Derives (.register .a) "a".toList [] := .register (by decide)
    have hlast := @Slot.DeriveAll.last _ [] _ [] _ blanks_nil hregister blanks_nil
    have hall := @Slot.DeriveAll.cons _ _ " ".toList _ " ".toList _ _ _ (by decide) hmemory
      (by decide) hlast
    exact @Form.Derives.operands (byte "MOV" [.memory, .register .a] 0x20) "mov".toList ' ' _ _
      (by decide) (by decide) hall
  · simp only [List.mem_singleton, forall_eq]
    decide

end InstructionSet
end TinyCpu
