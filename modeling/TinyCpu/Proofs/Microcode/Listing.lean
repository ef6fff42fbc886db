import TinyCpu.Proofs.Microcode.Outputs
import TinyCpu.Proofs.Text.Case
import TinyCpu.Proofs.Text.Lines
import TinyCpu.Proofs.Text.Literal

/-!
# What the listing shows

The listing is a table of the words of the control store, and every row shows its word twice, in
hexadecimal and in binary.  What a row shows is said by reading it: the columns are what stands
between the bars, and their digits have the values of the entry.

* `BinaryColumn`     groups of four binary digits, and their value without the blanks between them;
* `RowShows`         the columns of a row, and the description behind them;
* `rowShows_row`     a row shows its entry if the word has 24 bits;
* `listing_shows`    the listing of an assembled store.
-/

namespace TinyCpu
open Text

namespace Text

/-! ## Numerals -/

theorem mem_hexDigits_of_mem_fixed (base w n : Nat) (h0 : 0 < base) (h16 : base ≤ 16) :
    ∀ c ∈ fixed base w n, c ∈ hexDigits := by
  induction w generalizing n with
  | zero => exact fun c hc => absurd hc List.not_mem_nil
  | succ w ih =>
    intro c hc
    rw [fixed, List.mem_append, List.mem_singleton] at hc
    rcases hc with hc | rfl
    · exact ih (n / base) c hc
    · exact digitChar_mem_hexDigits _ ((Nat.mod_lt n h0).trans_le h16)

theorem isBlank_of_mem_hexDigits (c : Char) (h : c ∈ hexDigits) : isBlank c = false := by
  have hdigits : (hexDigits.all fun c => !isBlank c) = true := by decide
  simpa using List.all_eq_true.mp hdigits c h

theorem length_upper (t : Text) : (upper t).length = t.length := List.length_map _

theorem lower_upper_hexDigits (t : Text) (h : ∀ c ∈ t, c ∈ hexDigits) : lower (upper t) = t := by
  have hdigits : (hexDigits.all fun c => c.toUpper.toLower == c) = true := by decide
  unfold lower upper
  rw [List.map_map]
  calc t.map (Char.toLower ∘ Char.toUpper) = t.map id :=
        List.map_congr_left fun c hc => by simpa using List.all_eq_true.mp hdigits c (h c hc)
    _ = t := List.map_id t

theorem mem_hexDigits_of_mem_paddedHex (w n : Nat) : ∀ c ∈ paddedHex w n, c ∈ hexDigits := by
  intro c hc
  rcases List.mem_append.mp hc with hzero | hdigit
  · rw [List.eq_of_mem_replicate hzero]
    decide
  · exact mem_hexDigits_of_mem_hex n c hdigit

/-- a number that fits the width has a numeral of just this width -/
theorem length_paddedHex (w n : Nat) (hw : 0 < w) (hn : n < 16 ^ w) :
    (paddedHex w n).length = w := by
  have hle : (hex n).length ≤ w := (Nat.length_toDigits_le_iff (by decide) hw).mpr hn
  unfold paddedHex
  rw [List.length_leftpad, Nat.max_eq_left hle]

theorem hexLiteral_paddedHex (w n : Nat) : HexLiteral ('0' :: 'x' :: upper (paddedHex w n)) n := by
  have hread : natural? 16 (upper (paddedHex w n)) = some n := by
    rw [← natural?_lower, lower_upper_hexDigits _ (mem_hexDigits_of_mem_paddedHex w n)]
    exact (natural?_replicate_zero 16 _ (by decide) (hex n) Nat.toDigits_ne_nil).trans
      (natural?_hex n)
  obtain ⟨hdigits, hvalue⟩ := (natural?_eq_some_iff 16 _ n).mp hread
  conv_rhs => rw [hvalue]
  exact .mk 'x' _ (.inl rfl) hdigits

theorem HexLiteral.toLower_mem {t : Text} {v : Nat} (h : HexLiteral t v) :
    ∀ c ∈ t, c.toLower ∈ 'x' :: hexDigits := by
  cases h with
  | mk x digits hx hdigits =>
    intro c hc
    rcases List.mem_cons.mp hc with rfl | hc
    · decide
    rcases List.mem_cons.mp hc with rfl | hc
    · rcases hx with rfl | rfl <;> decide
    · exact List.mem_cons_of_mem _ (List.mem_of_mem_take (hdigits.digits c hc))

theorem HexLiteral.trimmed {t : Text} {v : Nat} (h : HexLiteral t v) : Trimmed t := by
  refine trimmed_of_forall t fun c hc => ?_
  rw [← isBlank_toLower]
  rcases List.mem_cons.mp (h.toLower_mem c hc) with hx | hdigit
  · rw [hx]
    decide
  · exact isBlank_of_mem_hexDigits _ hdigit

theorem HexLiteral.bar_not_mem {t : Text} {v : Nat} (h : HexLiteral t v) : '|' ∉ t :=
  fun hbar => absurd (h.toLower_mem '|' hbar) (by decide)

end Text

namespace Rom

/-! ## Rows -/

/-- groups of four binary digits, with the digits of a word -/
structure BinaryColumn (t : Text) (word : Nat) : Prop where
  groups : (t.splitOn ' ').length = 6
  four : ∀ group ∈ t.splitOn ' ', group.length = 4
  digits : IsNumeral 2 (t.filter (· != ' '))
  value : numeralValue 2 (t.filter (· != ' ')) = word

/-- the first part of a row: three columns with bars behind them -/
structure Columns (a word : Nat) (lead address hex binary : Text) : Prop where
  length_lead : lead.length = 57
  fields_lead : fields '|' lead = [address, hex, binary, []]
  address : HexLiteral address a
  length_hex : hex.length = 2 + 6
  hex : HexLiteral hex word
  binary : BinaryColumn binary word

/-- a row shows the address and the word of an entry in its columns, and then the description -/
def RowShows (a : Nat) (e : RomEntry) (row : Text) : Prop :=
  ∃ lead address hex binary, row = lead ++ e.description ++ ['\n'] ∧
    Columns a e.word lead address hex binary

/-! ## The binary column -/

/-- the groups of a word, from the highest bits on -/
def groups (word : Nat) : List Text :=
  (List.range 6).map fun i => fixed 2 4 (word >>> (4 * (5 - i)))

theorem mem_hexDigits_of_mem_groups (word : Nat) (g : Text) (hg : g ∈ groups word) :
    ∀ c ∈ g, c ∈ Text.hexDigits := by
  obtain ⟨i, -, rfl⟩ := List.mem_map.mp hg
  exact mem_hexDigits_of_mem_fixed 2 4 _ (by decide) (by decide)

theorem length_of_mem_groups (word : Nat) (g : Text) (hg : g ∈ groups word) : g.length = 4 := by
  obtain ⟨i, -, rfl⟩ := List.mem_map.mp hg
  exact length_fixed 2 4 _

theorem splitOn_nibbles (word : Nat) : (nibbles word).splitOn ' ' = groups word := by
  refine List.splitOn_intercalate ' ' (fun g hg hblank => ?_) (by simp)
  exact absurd (mem_hexDigits_of_mem_groups word g hg ' ' hblank) (by decide)

/-- the groups are the digits of one numeral of 24 places -/
theorem flatten_groups (word : Nat) : (groups word).flatten = fixed 2 24 word := by
  have hgroups : groups word = [fixed 2 4 (word / 2 ^ 20), fixed 2 4 (word / 2 ^ 16),
      fixed 2 4 (word / 2 ^ 12), fixed 2 4 (word / 2 ^ 8), fixed 2 4 (word / 2 ^ 4),
      fixed 2 4 (word / 2 ^ 0)] := by
    simp only [groups, Nat.shiftRight_eq_div_pow]
    rfl
  -- the group of the lowest four places is split off five times
  rw [hgroups, fixed_add 2 20 4, fixed_add 2 16 4, fixed_add 2 12 4, fixed_add 2 8 4,
    fixed_add 2 4 4]
  simp only [Nat.div_div_eq_div_mul, ← Nat.pow_add, Nat.pow_zero, Nat.div_one,
    List.flatten_cons, List.flatten_nil, List.append_nil, List.append_assoc]

theorem binaryColumn_nibbles (word : Nat) (h : word < 2 ^ 24) :
    BinaryColumn (nibbles word) word := by
  have hread := natural?_fixed 2 24 word (by decide) (by decide) (by decide) h
  rw [← flatten_groups, ← splitOn_nibbles, flatten_splitOn, natural?_eq_some_iff] at hread
  constructor
  · rw [splitOn_nibbles]
    rfl
  · rw [splitOn_nibbles]
    exact length_of_mem_groups word
  · exact hread.1
  · exact hread.2.symm

theorem trimmed_nibbles (word : Nat) : Trimmed (nibbles word) := by
  refine (trimmed_intercalate [' '] (groups word) (by simp [groups]) fun g hg => ⟨?_, ?_⟩).2
  · rw [← List.length_pos_iff, length_of_mem_groups word g hg]
    decide
  · exact trimmed_of_forall g fun c hc => isBlank_of_mem_hexDigits c
      (mem_hexDigits_of_mem_groups word g hg c hc)

theorem length_nibbles (word : Nat) : (nibbles word).length = 29 := by
  simp [nibbles, List.range_succ, List.intercalate_cons_cons]

/-! ## All columns -/

/-- what stands between two bars, without the blanks around it -/
theorem fields_between (left t right : Text) (hl : Blanks left) (hr : Blanks right)
    (ht : Trimmed t) (hbar : '|' ∉ t) : fields '|' (left ++ t ++ right) = [t] := by
  have hblanks : ∀ b : Text, Blanks b → '|' ∉ b := fun b hb hmem =>
    absurd (hb '|' hmem) (by decide)
  rw [fields_of_not_mem, trim_between left t right hl ht hr]
  simp only [List.mem_append, not_or]
  exact ⟨⟨hblanks left hl, hbar⟩, hblanks right hr⟩

def lead (address hex binary : Text) : Text :=
  [] ++ address ++ "    ".toList ++ '|' :: ([' '] ++ hex ++ "  ".toList ++
    '|' :: ([' '] ++ binary ++ "    ".toList ++ ['|', ' ']))

theorem row_eq (a : Nat) (e : RomEntry) :
    row a e = lead ('0' :: 'x' :: upper (paddedHex 2 a)) ('0' :: 'x' :: upper (paddedHex 6 e.word))
      (nibbles e.word) ++ e.description ++ ['\n'] := by
  have hpad : (nibbles e.word).rightpad 32 ' ' = nibbles e.word ++ "   ".toList := by
    unfold List.rightpad
    rw [length_nibbles]
    rfl
  show "0x".toList ++ upper (paddedHex 2 a) ++ "    | 0x".toList ++ upper (paddedHex 6 e.word) ++
    "  | ".toList ++ (nibbles e.word).rightpad 32 ' ' ++ " | ".toList ++ e.description ++
    ['\n'] = _
  rw [hpad]
  simp [lead]

theorem length_lead (address hex binary : Text) :
    (lead address hex binary).length = address.length + hex.length + binary.length + 16 := by
  have hblanks : "    ".toList.length = 4 ∧ "  ".toList.length = 2 := by decide
  unfold lead
  simp only [List.length_append, List.length_cons, List.length_nil, hblanks.1, hblanks.2]
  omega

theorem fields_lead (address hex binary : Text) (haddress : Trimmed address ∧ '|' ∉ address)
    (hhex : Trimmed hex ∧ '|' ∉ hex) (hbinary : Trimmed binary ∧ '|' ∉ binary) :
    fields '|' (lead address hex binary) = [address, hex, binary, []] := by
  unfold lead
  rw [fields_append_cons, fields_append_cons, fields_append_cons,
    fields_between [] address _ (by decide) (by decide) haddress.1 haddress.2,
    fields_between [' '] hex _ (by decide) (by decide) hhex.1 hhex.2,
    fields_between [' '] binary _ (by decide) (by decide) hbinary.1 hbinary.2]
  rfl

theorem bar_not_mem_nibbles (word : Nat) : '|' ∉ nibbles word := by
  intro hbar
  rcases mem_intercalate '|' [' '] (groups word) hbar with hblank | ⟨g, hg, hbar⟩
  · exact absurd hblank (by decide)
  · exact absurd (mem_hexDigits_of_mem_groups word g hg '|' hbar) (by decide)

/-- a row shows its entry, if its word has 24 bits at most -/
theorem rowShows_row (a : Fin romWords) (e : RomEntry) (h : e.word < 2 ^ 24) :
    RowShows a e (row a e) := by
  have haddress := hexLiteral_paddedHex 2 a
  have hhex := hexLiteral_paddedHex 6 e.word
  have hwidth : (paddedHex 2 a).length = 2 :=
    length_paddedHex 2 a (by decide) (a.isLt.trans (by decide))
  have hwidth' : (paddedHex 6 e.word).length = 6 :=
    length_paddedHex 6 e.word (by decide) (h.trans_eq (by decide))
  refine ⟨_, _, _, _, row_eq a e, ?_, ?_, haddress, ?_, hhex, binaryColumn_nibbles e.word h⟩
  · rw [length_lead, List.length_cons, List.length_cons, List.length_cons, List.length_cons,
      length_upper, length_upper, hwidth, hwidth', length_nibbles]
  · exact fields_lead _ _ _ ⟨haddress.trimmed, haddress.bar_not_mem⟩
      ⟨hhex.trimmed, hhex.bar_not_mem⟩ ⟨trimmed_nibbles e.word, bar_not_mem_nibbles e.word⟩
  · rw [List.length_cons, List.length_cons, length_upper, hwidth']

/-! ## The listing -/

theorem heading_eq : heading =
    "Address | Hex Value | Binary Value                     | Description\n".toList ++
      "--------|-----------|----------------------------------|-------------\n".toList :=
  String.toList_append

theorem terminated_heading : Terminated '\n' heading := by
  have hlast : List.getLast?
      "--------|-----------|----------------------------------|-------------\n".toList =
        some '\n' := by decide
  rw [heading_eq]
  refine .inr ?_
  rw [List.getLast?_append, hlast]
  rfl

theorem length_lines_heading : (lines heading).length = 2 := by
  rw [length_lines_of_terminated heading terminated_heading, heading_eq, List.count_append]
  decide

theorem word_lt_of_mem (records : List Record) (rom : Rom) (h : assemble records = .ok rom)
    (p : Fin romWords × RomEntry) (hp : p ∈ rom.entries.entries) : p.2.word < 2 ^ 24 := by
  obtain ⟨placed, hholds⟩ := exists_holds records rom h
  exact hholds.word_lt p.1 p.2.word
    ((rom.word?_eq_some_iff p.1 p.2.word).mpr ⟨p.1.isLt, p.2, hp, rfl⟩)

/-- **The listing shows every word.**  It is a heading of two lines and one row for every entry, by
ascending addresses, and every row shows its entry. -/
theorem listing_shows (records : List Record) (rom : Rom) (h : assemble records = .ok rom) :
    Terminated '\n' heading ∧ (lines heading).length = 2 ∧
      (rom.entries.entries.Pairwise fun p q => p.1 < q.1) ∧
      ∃ rows : List Text, rom.listing = heading ++ rows.flatten ∧
        List.Forall₂ (fun p row => RowShows p.1 p.2 row) rom.entries.entries rows := by
  refine ⟨terminated_heading, length_lines_heading, ?_,
    rom.entries.entries.map fun p => row p.1 p.2, ?_, ?_⟩
  · exact rom.entries.sorted.imp fun {p q} hlt =>
      show p.1.val < q.1.val from Std.compare_eq_lt.mp hlt
  · show heading ++ rom.entries.entries.flatMap (fun p => row p.1 p.2) = _
    rw [List.flatMap_def]
  · rw [List.forall₂_map_right_iff, List.forall₂_same]
    exact fun p hp => rowShows_row p.1 p.2 (word_lt_of_mem records rom h p hp)

/-- two words, the later one first among the records, and a description with a bar and a newline -/
theorem listing_shows_two :
    let late : Record :=
      { address := "0x3F".toList, jumpZero := true, description := some "zero? | é\n".toList }
    ∃ rom, assemble [late, { address := "0x00".toList }] = .ok rom ∧
      ∃ early last, rom.listing = heading ++ (early ++ last) ∧
        RowShows 0 ⟨0, "N/A".toList⟩ early ∧ RowShows 63 ⟨0x20000, "zero? | é\n".toList⟩ last := by
  intro late
  have hentries : (assemble [late, { address := "0x00".toList }]).toOption.map
      (fun rom => rom.entries.entries) =
        some [(0, ⟨0, "N/A".toList⟩), (63, ⟨0x20000, "zero? | é\n".toList⟩)] := by decide +kernel
  cases hrom : assemble [late, { address := "0x00".toList }] with
  | error e =>
    rw [hrom] at hentries
    exact absurd hentries.symm (Option.some_ne_none _)
  | ok rom =>
    rw [hrom] at hentries
    obtain ⟨-, -, -, rows, hlisting, hrows⟩ := listing_shows _ rom hrom
    rw [show rom.entries.entries = _ from Option.some.inj hentries] at hrows
    obtain ⟨early, rows, hearly, hrest, rfl⟩ := List.forall₂_cons_left_iff.mp hrows
    obtain ⟨last, rows, hlast, hnil, rfl⟩ := List.forall₂_cons_left_iff.mp hrest
    obtain rfl := List.forall₂_nil_left_iff.mp hnil
    rw [List.flatten_cons, List.flatten_cons, List.flatten_nil, List.append_nil] at hlisting
    exact ⟨rom, rfl, early, last, hlisting, hearly, hlast⟩

end Rom
end TinyCpu
