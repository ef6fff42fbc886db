import TinyCpu.Proofs.Assembly.Correct
import TinyCpu.Proofs.Isa.Case
import TinyCpu.Proofs.Isa.Decode
import TinyCpu.Proofs.Isa.Printed

/-!
# Instructions printed, assembled and decoded

An instruction is printed as its form is shown, with its operand byte in the place of the word
`value`.

* `ByteText`              the numerals of a byte, decimal and hexadecimal;
* `Instruction.Printed`   the lines that an instruction is printed as;
* `Program.Codes`         the instructions of a program without data;
* `assemble_decodes`      printed instructions are assembled to their bytes and decoded again, and
                          the image of a program without data tells its instructions.
-/

namespace TinyCpu
open Text

/-! ## Bytes as operands -/

/-- the numerals of a byte: decimal, or hexadecimal in either case and with zeros in front -/
inductive ByteText (b : UInt8) : Text → Prop
  | decimal : ByteText b (Text.decimal b.toNat)
  | hex (zeros : Nat) (digits : Text) (h : lower digits = Text.hex b.toNat) :
      ByteText b ('0' :: 'x' :: (List.replicate zeros '0' ++ digits))

theorem isTokenChar_of_isDigit (c : Char) (h : c.isDigit = true) :
    Operand.isTokenChar c = true := by
  unfold Operand.isTokenChar isNameChar Char.isAlphanum
  rw [h]
  simp

theorem head?_ne_of_digit (c : Char) (t : Text) (hc : c.isDigit = true) :
    (c :: t).head? ≠ some '#' := by
  intro hhead
  obtain rfl := Option.some.inj hhead
  exact absurd hc (by decide)

theorem valueToken_of_digit (c : Char) (t : Text) (hc : c.isDigit = true)
    (ht : ∀ x ∈ t, Operand.isTokenChar x = true) : Operand.ValueToken (c :: t) where
  token := by
    unfold Operand.isToken
    rw [dropLead_of_head? '#' _ (head?_ne_of_digit c t hc)]
    show (c :: t).all Operand.isTokenChar = true
    rw [List.all_eq_true]
    intro x hx
    rcases List.mem_cons.mp hx with rfl | hx'
    · exact isTokenChar_of_isDigit x hc
    · exact ht x hx'
  keyword := by
    have hlower : c.toLower.isDigit = true := by rw [ignoresCase Char.isDigit (by decide), hc]
    unfold Register.ofKeyword?
    rw [List.find?_eq_none]
    intro r _ hsame
    have hhead := congrArg List.head? ((sameLetters_iff _ _).mp hsame)
    have hr : ∀ d, (lower r.keyword).head? = some d → d.isDigit = false := by
      cases r <;> simp [lower, Register.keyword]
    rw [hr _ hhead] at hlower
    exact absurd hlower (by decide)

theorem operandBody_of_digit (c : Char) (t : Text) (hc : c.isDigit = true)
    (ht : Operand.isToken (c :: t) = true) : operandBody (c :: t) = c :: t :=
  operandBody_of_trimmed _ (Operand.trimmed_of_isToken _ ht) (head?_ne_of_digit c t hc)

theorem numberByte_toNat (body : Text) (b : UInt8) :
    numberByte body (some (b.toNat : Int)) = .ok b := by
  have hlt := b.toNat_lt
  rw [numberByte_eq_ok_iff]
  exact ⟨b.toNat, rfl, by omega, by omega, by omega⟩

namespace ByteText

theorem exists_cons {b : UInt8} {t : Text} (h : ByteText b t) :
    ∃ c u, t = c :: u ∧ c.isDigit = true ∧ ∀ x ∈ u, Operand.isTokenChar x = true := by
  cases h with
  | decimal =>
    have hdigits := isDigit_of_mem_decimal b.toNat
    obtain ⟨c, u, hcu⟩ := List.exists_cons_of_ne_nil
      (show Text.decimal b.toNat ≠ [] from Nat.toDigits_ne_nil)
    rw [hcu] at hdigits ⊢
    exact ⟨c, u, rfl, hdigits c List.mem_cons_self,
      fun x hx => isTokenChar_of_isDigit x (hdigits x (List.mem_cons_of_mem c hx))⟩
  | hex zeros digits hdigits =>
    refine ⟨'0', _, rfl, by decide, fun x hx => ?_⟩
    rw [List.mem_cons, List.mem_append] at hx
    rcases hx with rfl | hx | hx
    · decide
    · rw [(List.mem_replicate.mp hx).2]
      decide
    · have hlower : x.toLower ∈ Text.hex b.toNat := hdigits ▸ List.mem_map_of_mem hx
      have hall : (hexDigits.all Operand.isTokenChar) = true := by decide
      rw [← Operand.isTokenChar_toLower]
      exact List.all_eq_true.mp hall _ (mem_hexDigits_of_mem_hex _ _ hlower)

theorem valueToken {b : UInt8} {t : Text} (h : ByteText b t) : Operand.ValueToken t := by
  obtain ⟨c, u, rfl, hc, hu⟩ := h.exists_cons
  exact valueToken_of_digit c u hc hu

theorem natural?_eq {b : UInt8} (zeros : Nat) {digits : Text}
    (h : lower digits = Text.hex b.toNat) :
    natural? 16 (List.replicate zeros '0' ++ digits) = some b.toNat := by
  have hne : digits ≠ [] := by
    rintro rfl
    exact (lowerHex_hex b.toNat).ne_nil h.symm
  rw [natural?_replicate_zero 16 zeros (by decide) digits hne, ← natural?_lower, h, natural?_hex]

/-- whatever the labels are, a numeral of a byte stands for the byte -/
theorem operandByte_eq {b : UInt8} {t : Text} (h : ByteText b t) (symbols : Symbols) :
    operandByte symbols t = .ok b := by
  have htoken := h.valueToken.token
  obtain ⟨c, u, hcu, hc, -⟩ := h.exists_cons
  have hbody : operandBody t = t := by
    subst hcu
    exact operandBody_of_digit c u hc htoken
  have hlimit : b.toNat < literalLimit := Nat.lt_trans b.toNat_lt (by decide)
  rw [TinyCpu.operandByte_eq, hbody]
  cases h with
  | decimal =>
    rw [startsHex_of_digits _ (isDigit_of_mem_decimal _), decimal?_decimal _ hlimit, hcu,
      startsDecimal_of_digit c u hc]
    exact numberByte_toNat _ b
  | hex zeros digits hdigits =>
    have hhex : hex? ('0' :: 'x' :: (List.replicate zeros '0' ++ digits)) = some b.toNat := by
      show (natural? 16 (List.replicate zeros '0' ++ digits)).filter (· < literalLimit) = _
      rw [natural?_eq zeros hdigits, Option.filter_some, if_pos (decide_eq_true hlimit)]
    rw [hhex]
    exact numberByte_toNat _ b

end ByteText

/-! ## Printed instructions -/

namespace InstructionSet

theorem isUpper_of_mem_table (f : Form) (h : f ∈ table) : ∀ c ∈ f.mnemonic, c.isUpper = true := by
  have hall : (table.all fun f => f.mnemonic.all Char.isUpper) = true := by decide
  exact List.all_eq_true.mp (List.all_eq_true.mp hall f h)

/-- a form with an operand byte has one slot for it, and shows one word `value` -/
theorem value_of_mem_table (f : Form) (h : f ∈ table) (hbyte : f.encoding = .byte) :
    f.slots.countP (fun s => !s.isRegister) = 1 ∧ f.text.count 'v' = 1 := by
  have hall : (table.all fun f => f.encoding != .byte ||
      (f.slots.countP (fun s => !s.isRegister) == 1 && f.text.count 'v' == 1)) = true := by decide
  have hf := List.all_eq_true.mp hall f h
  rw [hbyte] at hf
  simpa using hf

end InstructionSet

open InstructionSet

namespace Instruction

/-- the lines that an instruction is printed as: its form as it is shown, with a numeral of the
operand byte in the place of the word `value` -/
inductive Printed (i : Instruction) : Text → Prop
  | plain (h : i.operands = []) : Printed i i.form.text
  | replaced (b : UInt8) (numeral before after : Text) (h : i.operands = [b])
      (hb : ByteText b numeral) (htext : i.form.text = before ++ "value".toList ++ after) :
      Printed i (before ++ numeral ++ after)

theorem operands_cases (i : Instruction) :
    (i.form.encoding = .implied ∧ i.operands = []) ∨
      ∃ b, i.form.encoding = .byte ∧ i.operands = [b] := by
  have hlen := i.length_operands
  unfold Form.operandBytes at hlen
  cases he : i.form.encoding with
  | implied =>
    rw [he] at hlen
    exact .inl ⟨rfl, List.length_eq_zero_iff.mp hlen⟩
  | byte =>
    rw [he] at hlen
    obtain ⟨b, hb⟩ := List.length_eq_one_iff.mp hlen
    exact .inr ⟨b, rfl, hb⟩

theorem encoding_of_nil (i : Instruction) (h : i.operands = []) : i.form.encoding = .implied := by
  rcases i.operands_cases with ⟨he, -⟩ | ⟨b, -, hb⟩
  · exact he
  · exact absurd (h.symm.trans hb) (by simp)

theorem encoding_of_singleton (i : Instruction) (b : UInt8) (h : i.operands = [b]) :
    i.form.encoding = .byte := by
  rcases i.operands_cases with ⟨-, hb⟩ | ⟨_, he, -⟩
  · exact absurd (h.symm.trans hb) (by simp)
  · exact he

theorem exists_printed (i : Instruction) : ∃ line, i.Printed line := by
  rcases i.operands_cases with ⟨-, h⟩ | ⟨b, hbyte, h⟩
  · exact ⟨_, .plain h⟩
  · have hslots := (value_of_mem_table i.form i.form_mem hbyte).1
    obtain ⟨before, after, heq⟩ := i.form.exists_filled_eq hslots
    exact ⟨_, .replaced b _ before after h .decimal (i.form.filled_value ▸ heq _)⟩

/-- what an instruction with the token `t` as its operand is read as -/
def readWith (i : Instruction) (t : Text) : Statement :=
  .instruction ⟨i.form, if i.form.slots.all Slot.isRegister then none else some t⟩

/-- a printed instruction is its form filled with a token, and read so it has its bytes -/
theorem Printed.exists_filled {i : Instruction} {line : Text} (h : i.Printed line) :
    ∃ t, Operand.ValueToken t ∧ line = i.form.filled t ∧
      ∀ symbols, (i.readWith t).Encodes symbols i.bytes := by
  cases h with
  | plain h =>
    refine ⟨"value".toList, ⟨by decide, by decide⟩, i.form.filled_value.symm, fun symbols => ?_⟩
    unfold bytes
    rw [h]
    exact .implied _ (i.encoding_of_nil h)
  | replaced b t before after h hb htext =>
    have hbyte := i.encoding_of_singleton b h
    obtain ⟨hslots, hcount⟩ := value_of_mem_table i.form i.form_mem hbyte
    have hall : i.form.slots.all Slot.isRegister = false := by
      obtain ⟨s, hs, hs'⟩ := List.countP_pos_iff.mp (hslots ▸ Nat.one_pos)
      exact List.all_eq_false.mpr ⟨s, hs, by simpa using hs'⟩
    refine ⟨t, hb.valueToken, (i.form.filled_of_text hslots hcount htext t).symm, fun symbols => ?_⟩
    unfold bytes readWith
    rw [h, hall]
    exact .byte _ t b hbyte rfl (hb.operandByte_eq symbols)

theorem Printed.bare {i : Instruction} {line : Text} (h : i.Printed line) : Line.Bare line := by
  obtain ⟨t, ht, rfl, -⟩ := h.exists_filled
  have hf := readable_of_mem_table i.form i.form_mem
  have hnot : ∀ c : Char, (isBlank c = true ∨ c ∈ marks) → c.isUpper = false →
      c ∉ " ,ABSP[]".toList → c ∉ i.form.filled t := by
    intro c hc hupper hshown hmem
    rcases i.form.mem_filled t c hmem with hm | htoken | hs
    · exact absurd (isUpper_of_mem_table i.form i.form_mem c hm) (by simp [hupper])
    · obtain ⟨hblank, hmark⟩ := Operand.plain_of_isToken t ht.token c htoken
      exact hc.elim (fun hb => absurd hb (by simp [hblank])) hmark
    · exact hshown hs
  exact ⟨i.form.filled_ne_nil hf t, i.form.trimmed_filled hf t ht.token,
    hnot '\n' (by decide) (by decide) (by decide), hnot ';' (by decide) (by decide) (by decide),
    hnot ':' (by decide) (by decide) (by decide)⟩

/-- a printed instruction is read as one, and so it has its bytes -/
theorem Printed.means {i : Instruction} {line : Text} (h : i.Printed line) :
    ∃ s, Statement.Means .standard line s ∧ ∀ symbols, s.Encodes symbols i.bytes := by
  obtain ⟨t, ht, rfl, henc⟩ := h.exists_filled
  have hf := readable_of_mem_table i.form i.form_mem
  exact ⟨_, .instruction _ _ (i.form.filled_ne_nil hf t)
    (standard.resolve?_filled i.form i.form_mem hf t ht), henc⟩

theorem exists_program {is : List Instruction} {texts : List Text}
    (h : List.Forall₂ Printed is texts) (number : Nat) :
    ∃ p : Program, p.Reads .standard
        ((texts.zipIdx number).map fun q => ⟨q.2, q.1, none, q.1⟩) ∧
      p.labels = [] ∧ ∀ symbols, p.Encodes symbols (is.map bytes) := by
  induction h generalizing number with
  | nil => exact ⟨[], Program.reads_nil _, rfl, fun _ => .nil⟩
  | @cons i line is texts hline _ ih =>
    obtain ⟨p, hp, hlabels, henc⟩ := ih (number + 1)
    obtain ⟨s, hs, hbytes⟩ := hline.means
    refine ⟨(⟨number, line, none, line⟩, s) :: p, hp.cons hs, ?_, fun symbols => ?_⟩
    · rw [Program.labels_cons, hlabels]
      rfl
    · exact .cons (hbytes symbols) (henc symbols)

theorem lines_of_printed {is : List Instruction} {texts : List Text}
    (h : List.Forall₂ Printed is texts) (source : Text)
    (hsource : source = texts.flatMap (· ++ ['\n']) ∨ source = ['\n'].intercalate texts) :
    lines source = texts ∧ ∀ t ∈ texts, Line.Bare t := by
  have hbare : ∀ t ∈ texts, Line.Bare t :=
    forall_mem_right_of_forall₂ h fun i t hline => hline.bare
  have hreturn : ∀ t ∈ texts, t.getLast? ≠ some '\r' := by
    intro t ht hlast
    exact absurd ((hbare t ht).trimmed.2 '\r' hlast) (by decide)
  refine ⟨?_, hbare⟩
  rcases hsource with rfl | rfl
  · exact lines_terminated texts (fun t ht => (hbare t ht).newline) hreturn
  · exact lines_intercalate texts (fun t ht => (hbare t ht).ne_nil)
      (fun t ht => (hbare t ht).newline) hreturn

end Instruction

/-! ## Images of machine code -/

namespace Image

theorem denseFrom_mapIdx (start : Nat) (bs : List UInt8) (h : start + bs.length ≤ 2 ^ 32) :
    denseFrom start (bs.mapIdx fun i b => (UInt32.ofNat (start + i), b)) = bs := by
  induction bs generalizing start with
  | nil => rfl
  | cons b bs ih =>
    rw [List.length_cons] at h
    have hnat : (UInt32.ofNat (start + 0)).toNat = start :=
      UInt32.toNat_ofNat_of_lt' (by show start < 2 ^ 32; omega)
    have hshift : (bs.mapIdx fun i b => (UInt32.ofNat (start + (i + 1)), b)) =
        bs.mapIdx fun i b => (UInt32.ofNat (start + 1 + i), b) := by
      congr 1
      funext i b
      rw [Nat.add_assoc, Nat.add_comm 1 i]
    rw [List.mapIdx_cons, denseFrom, hnat, Nat.sub_self, hshift, ih (start + 1) (by omega)]
    rfl

/-- bytes stored from address zero on are the dense copy -/
theorem dense_ofBytes (bs : List UInt8) (h : bs.length ≤ 2 ^ 32) : (ofBytes bs).dense = bs := by
  have hdense := denseFrom_mapIdx 0 bs (by omega)
  unfold dense
  rw [entries_ofBytes bs h]
  simpa only [Nat.zero_add] using hdense

end Image

namespace Program

def DataFree (p : Program) : Prop := ∀ q ∈ p, ∀ items, q.2 ≠ .data items

/-- the instructions of a program without data, in the order of the lines: the form of every line
with the bytes that its operand stands for -/
inductive Codes (symbols : Symbols) : Program → List Instruction → Prop
  | nil : Codes symbols [] []
  | blank (line : Line) {p : Program} {is : List Instruction} (h : Codes symbols p is) :
      Codes symbols ((line, .blank) :: p) is
  | instruction (line : Line) (m : Match) (i : Instruction) {p : Program} {is : List Instruction}
      (hform : i.form = m.form) (hoperands : m.operandBytes symbols = .ok i.operands)
      (h : Codes symbols p is) : Codes symbols ((line, .instruction m) :: p) (i :: is)

theorem Codes.unique {symbols : Symbols} {p : Program} {is js : List Instruction}
    (h : p.Codes symbols is) (h' : p.Codes symbols js) : is = js := by
  induction h generalizing js with
  | nil =>
    cases h'
    rfl
  | blank line _ ih =>
    cases h' with
    | blank _ h' => exact ih h'
  | instruction line m i hform hoperands _ ih =>
    cases h' with
    | instruction _ _ j hform' hoperands' h' =>
      have hij : i = j := Instruction.ext_form (hform.trans hform'.symm)
        (Except.ok.inj (hoperands.symm.trans hoperands'))
      rw [hij, ih h']

end Program

theorem Statement.Means.form_mem {set : InstructionSet} {body : Text} {m : Match}
    (h : Statement.Means set body (.instruction m)) : m.form ∈ set.forms := by
  cases h with
  | instruction _ _ _ hm => exact (set.resolve?_specific body m hm).1

theorem Match.exists_instruction (m : Match) (symbols : Symbols) (bs : List UInt8)
    (hmem : m.form ∈ table) (h : (Statement.instruction m).Encodes symbols bs) :
    ∃ i : Instruction, i.form = m.form ∧ m.operandBytes symbols = .ok i.operands ∧
      i.bytes = bs := by
  have hlen := h.length_eq
  obtain ⟨operands, hoperands, rfl⟩ := (map_eq_ok_iff _ _ _).mp h.bytes_eq
  refine ⟨⟨m.form, operands, hmem, ?_⟩, rfl, hoperands, rfl⟩
  have hwidth : (Statement.instruction m).width = m.form.operandBytes.toNat + 1 := by
    cases he : m.form.encoding <;> simp [Statement.width, Form.operandBytes, he]
  rw [List.length_cons, hwidth] at hlen
  exact Nat.succ.inj hlen

/-- a program without data has instructions, and their bytes are its bytes -/
theorem Program.Encodes.exists_codes {symbols : Symbols} {p : Program} {bss : List (List UInt8)}
    (h : p.Encodes symbols bss) (hdata : p.DataFree)
    (hbodies : ∀ q ∈ p, Statement.Means .standard q.1.body q.2) :
    ∃ is, p.Codes symbols is ∧ is.flatMap Instruction.bytes = bss.flatten := by
  induction h with
  | nil => exact ⟨[], .nil, rfl⟩
  | @cons q bs p bss hq _ ih =>
    obtain ⟨hbody, hbodies'⟩ := List.forall_mem_cons.mp hbodies
    obtain ⟨hfree, hdata'⟩ := List.forall_mem_cons.mp hdata
    obtain ⟨is, hcodes, hbytes⟩ := ih hdata' hbodies'
    obtain ⟨line, s⟩ := q
    cases s with
    | blank =>
      cases hq
      exact ⟨is, .blank line hcodes, hbytes⟩
    | instruction m =>
      obtain ⟨i, hform, hoperands, rfl⟩ := m.exists_instruction symbols bs hbody.form_mem hq
      refine ⟨i :: is, .instruction line m i hform hoperands hcodes, ?_⟩
      rw [List.flatMap_cons, List.flatten_cons, hbytes]
    | data items => exact absurd rfl (hfree items)

/-- the image of an assembled program without data is decoded to its instructions -/
theorem exists_decode_of_assemble (source : Text) (asm : Assembly) (p : Program)
    (h : assemble .standard source = .ok asm) (hp : p.Reads .standard (sourceLines source))
    (hdata : p.DataFree) (hsize : p.size ≤ 2 ^ 32) :
    ∃ is, p.Codes asm.symbols is ∧ Instruction.decode asm.image.dense = some is := by
  obtain ⟨p', bss, hp', -, henc, rfl⟩ := (assemble_eq_ok_iff _ source asm).mp h
  obtain rfl := hp'.unique hp
  obtain ⟨is, hcodes, hbytes⟩ := henc.exists_codes hdata hp.bodies
  refine ⟨is, hcodes, ?_⟩
  show Instruction.decode (Image.ofBytes bss.flatten).dense = some is
  rw [Image.dense_ofBytes _ (henc.length_flatten ▸ hsize), ← hbytes,
    Instruction.decode_flatMap_bytes]

theorem assemble_printed (is : List Instruction) (texts : List Text) (source : Text)
    (hlen : is.length < 2 ^ 30) (h : List.Forall₂ Instruction.Printed is texts)
    (hsource : source = texts.flatMap (· ++ ['\n']) ∨ source = ['\n'].intercalate texts) :
    ∃ asm, assemble .standard source = .ok asm ∧
      asm.image.dense = is.flatMap Instruction.bytes := by
  obtain ⟨hlines, hbare⟩ := Instruction.lines_of_printed h source hsource
  obtain ⟨p, hp, hlabels, henc⟩ := Instruction.exists_program h 1
  have hread := sourceLines_of_bare source (by rw [hlines]; exact hbare)
  rw [hlines] at hread
  rw [← hread] at hp
  refine ⟨_, (assemble_eq_ok_iff _ source _).mpr
    ⟨p, is.map Instruction.bytes, hp, by rw [hlabels]; exact .nil, henc _, rfl⟩, ?_⟩
  have hbytes := Instruction.length_flatMap_bytes_le is
  show (Image.ofBytes (is.flatMap Instruction.bytes)).dense = _
  exact Image.dense_ofBytes _ (by omega)

/-- **Machine code can be read back.**  Less than `2 ^ 30` instructions, printed one on a line with
their operand bytes as numerals, are assembled to their bytes, which are decoded to the same
instructions.  Programs without data that fit the address space and have the same dense image have
the same instructions. -/
theorem assemble_decodes :
    (∀ is : List Instruction, is.length < 2 ^ 30 →
      (∃ texts, List.Forall₂ Instruction.Printed is texts) ∧
      ∀ texts source, List.Forall₂ Instruction.Printed is texts →
        source = texts.flatMap (· ++ ['\n']) ∨ source = ['\n'].intercalate texts →
        ∃ asm, assemble .standard source = .ok asm ∧
          asm.image.dense = is.flatMap Instruction.bytes ∧
          Instruction.decode asm.image.dense = some is) ∧
    ∀ (source source' : Text) (asm asm' : Assembly) (p p' : Program),
      assemble .standard source = .ok asm → p.Reads .standard (sourceLines source) →
      p.DataFree → p.size ≤ 2 ^ 32 →
      assemble .standard source' = .ok asm' → p'.Reads .standard (sourceLines source') →
      p'.DataFree → p'.size ≤ 2 ^ 32 →
      asm.image.dense = asm'.image.dense →
      ∃ is, (∀ js, p.Codes asm.symbols js ↔ js = is) ∧
        ∀ js, p'.Codes asm'.symbols js ↔ js = is := by
  refine ⟨fun is hlen => ⟨?_, fun texts source h hsource => ?_⟩, ?_⟩
  · choose line hline using Instruction.exists_printed
    exact ⟨is.map line, List.forall₂_map_right_iff.mpr (List.forall₂_same.mpr fun i _ => hline i)⟩
  · obtain ⟨asm, hasm, hdense⟩ := assemble_printed is texts source hlen h hsource
    exact ⟨asm, hasm, hdense, by rw [hdense, Instruction.decode_flatMap_bytes]⟩
  · intro source source' asm asm' p p' h hp hdata hsize h' hp' hdata' hsize' himage
    obtain ⟨is, hcodes, hdecode⟩ := exists_decode_of_assemble source asm p h hp hdata hsize
    obtain ⟨is', hcodes', hdecode'⟩ :=
      exists_decode_of_assemble source' asm' p' h' hp' hdata' hsize'
    rw [himage, hdecode'] at hdecode
    obtain rfl : is' = is := Option.some.inj hdecode
    exact ⟨is', fun js => ⟨fun hj => hj.unique hcodes, fun hj => hj ▸ hcodes⟩,
      fun js => ⟨fun hj => hj.unique hcodes', fun hj => hj ▸ hcodes'⟩⟩

/-- a load and a store in both numerals, and a jump to a label that is a jump to its address -/
theorem assemble_decodes_store :
    (∃ is : List Instruction, is.length < 2 ^ 30 ∧
      List.Forall₂ Instruction.Printed is ["MOV A, 0x01F".toList, "MOV [7], A".toList] ∧
      ∃ asm, assemble .standard "MOV A, 0x01F\nMOV [7], A".toList = .ok asm ∧
        asm.image.dense = is.flatMap Instruction.bytes ∧
        Instruction.decode asm.image.dense = some is) ∧
    ∃ (p p' : Program) (asm asm' : Assembly) (is : List Instruction),
      assemble .standard "a: jmp a".toList = .ok asm ∧
      p.Reads .standard (sourceLines "a: jmp a".toList) ∧
      assemble .standard "JMP 0".toList = .ok asm' ∧
      p'.Reads .standard (sourceLines "JMP 0".toList) ∧
      asm.image.dense = asm'.image.dense ∧ p.Codes asm.symbols is ∧ p'.Codes asm'.symbols is := by
  constructor
  · let load : Instruction :=
      ⟨byte "MOV" [.register .a, .value] 0x06, [0x1F], by decide, by decide⟩
    let store : Instruction :=
      ⟨byte "MOV" [.memory, .register .a] 0x20, [7], by decide, by decide⟩
    have hprinted : List.Forall₂ Instruction.Printed [load, store]
        ["MOV A, 0x01F".toList, "MOV [7], A".toList] :=
      .cons (.replaced 0x1F _ "MOV A, ".toList [] rfl (.hex 1 "1F".toList (by decide)) (by decide))
        (.cons (.replaced 7 _ "MOV [".toList "], A".toList rfl .decimal (by decide)) .nil)
    have hlen : [load, store].length < 2 ^ 30 := by decide
    exact ⟨_, hlen, hprinted, (assemble_decodes.1 _ hlen).2 _ _ hprinted (.inr (by decide))⟩
  · let jump : Form := byte "JMP" [.value] 0x04
    let p : Program := [(⟨1, "a: jmp a".toList, some "a".toList, "jmp a".toList⟩,
      .instruction ⟨jump, some "a".toList⟩)]
    let p' : Program := [(⟨1, "JMP 0".toList, none, "JMP 0".toList⟩,
      .instruction ⟨jump, some "0".toList⟩)]
    have hasm : assemble .standard "a: jmp a".toList =
        .ok ⟨.ofList [("a".toList, 0)], .ofBytes [4, 0]⟩ := by decide +kernel
    have hasm' : assemble .standard "JMP 0".toList = .ok ⟨.ofList [], .ofBytes [4, 0]⟩ := by
      decide +kernel
    have hp : p.Reads .standard (sourceLines "a: jmp a".toList) :=
      ⟨by decide, fun q hq => by
        obtain rfl := List.mem_singleton.mp hq
        exact (Statement.read_eq_ok_iff _ _ _).mp (by decide +kernel)⟩
    have hp' : p'.Reads .standard (sourceLines "JMP 0".toList) :=
      ⟨by decide, fun q hq => by
        obtain rfl := List.mem_singleton.mp hq
        exact (Statement.read_eq_ok_iff _ _ _).mp (by decide +kernel)⟩
    have hfree : ∀ q ∈ p ++ p', ∀ items, q.2 ≠ .data items := by simp [p, p']
    obtain ⟨is, h, h'⟩ := assemble_decodes.2 _ _ _ _ p p'
      hasm hp (fun q hq => hfree q (List.mem_append_left _ hq)) (by decide)
      hasm' hp' (fun q hq => hfree q (List.mem_append_right _ hq)) (by decide) rfl
    exact ⟨p, p', _, _, is, hasm, hp, hasm', hp', rfl, (h is).mpr rfl, (h' is).mpr rfl⟩

end TinyCpu
