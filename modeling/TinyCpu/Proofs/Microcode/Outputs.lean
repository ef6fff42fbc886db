import Mathlib.Tactic.IntervalCases
import TinyCpu.Proofs.Image.MemoryText
import TinyCpu.Proofs.Microcode.Rom

/-!
# The outputs of the control store

The store is written out three times: as all of its words in bytes, as an image of the bytes that
have a word, and as text.  All three hold the same words.

* `Rom.entries_image`      the bytes of the image, three for each word;
* `Rom.get?_image`, `Rom.getElem?_binary`   the byte at an address, in terms of the words;
* `Rom.Height`             one past the highest address with a word;
* `Rom.outputs_agree`      the outputs of an assembled store.

No bit is lost, since a word of an assembled store takes three bytes at most (`Rom.Holds.word_lt`).
-/

namespace TinyCpu
open Text

/-! ## Pieces of one length -/

section
variable {α β : Type} (f : α → List β) (c : Nat) (l : List α) (h : ∀ a ∈ l, (f a).length = c)
include h

theorem length_flatMap_of_length : (l.flatMap f).length = c * l.length := by
  induction l with
  | nil => rfl
  | cons a l ih =>
    obtain ⟨ha, hl⟩ := List.forall_mem_cons.mp h
    rw [List.flatMap_cons, List.length_append, ha, ih hl, List.length_cons, Nat.mul_succ,
      Nat.add_comm]

theorem getElem?_flatMap_of_length (q i : Nat) (hi : i < c) :
    (l.flatMap f)[c * q + i]? = l[q]?.bind fun a => (f a)[i]? := by
  induction l generalizing q with
  | nil => rfl
  | cons a l ih =>
    obtain ⟨ha, hl⟩ := List.forall_mem_cons.mp h
    rw [List.flatMap_cons]
    cases q with
    | zero =>
      rw [Nat.mul_zero, Nat.zero_add, List.getElem?_append_left (by omega)]
      rfl
    | succ q =>
      have hindex : c * (q + 1) + i - (f a).length = c * q + i := by
        rw [ha, Nat.mul_succ]
        omega
      have hle : (f a).length ≤ c * (q + 1) + i := by
        rw [ha, Nat.mul_succ]
        omega
      rw [List.getElem?_append_right hle, hindex, ih hl q]
      rfl

end

namespace Rom

/-! ## Words -/

/-- byte `i` of a word of three bytes, the most significant one first -/
def wordByte (word i : Nat) : UInt8 := UInt8.ofNat (word >>> (8 * (2 - i)))

theorem wordBytes_eq (w : Nat) : wordBytes w = [wordByte w 0, wordByte w 1, wordByte w 2] := rfl

theorem getElem?_wordBytes (w i : Nat) (hi : i < 3) : (wordBytes w)[i]? = some (wordByte w i) := by
  interval_cases i <;> rfl

theorem wordByte_zero (i : Nat) : wordByte 0 i = 0 := by
  unfold wordByte
  rw [Nat.zero_shiftRight]
  rfl

/-- the three bytes hold all bits of a word below `2 ^ 24` -/
theorem toNat_wordByte (w : Nat) (h : w < 2 ^ 24) :
    (wordByte w 0).toNat * 65536 + (wordByte w 1).toNat * 256 + (wordByte w 2).toNat = w := by
  unfold wordByte
  simp only [UInt8.toNat_ofNat', Nat.shiftRight_eq_div_pow]
  omega

theorem word?_eq_some_iff (rom : Rom) (n w : Nat) :
    rom.word? n = some w ↔
      ∃ (h : n < romWords) (e : RomEntry), (⟨n, h⟩, e) ∈ rom.entries.entries ∧ e.word = w := by
  unfold word?
  split
  · next h =>
    rw [Option.map_eq_some_iff]
    simp only [SortedMap.get?_eq_some_iff]
    exact ⟨fun he => ⟨h, he⟩, fun ⟨_, he⟩ => he⟩
  · next h => exact ⟨fun hw => absurd hw (by simp), fun ⟨hn, _⟩ => absurd hn h⟩

theorem lt_of_word? (rom : Rom) (n w : Nat) (h : rom.word? n = some w) : n < 64 := by
  obtain ⟨hn, -⟩ := (rom.word?_eq_some_iff n w).mp h
  exact hn

theorem Holds.word_lt {rom : Rom} {records : List Record} {placed : List Placement}
    (h : rom.Holds records placed) (n w : Nat) (hw : rom.word? n = some w) : w < 2 ^ 24 := by
  obtain ⟨hn, e, he, rfl⟩ := (rom.word?_eq_some_iff n w).mp hw
  obtain ⟨q, hq, heq⟩ := List.mem_map.mp (h.entries.mem_iff.mp he)
  obtain ⟨-, rfl⟩ := Prod.mk.inj heq
  exact forall_mem_right_of_forall₂ h.places (fun r q hr => hr.describes.lt) q hq

theorem getD_word?_lt (rom : Rom) (hlt : ∀ n w, rom.word? n = some w → w < 2 ^ 24) (n : Nat) :
    (rom.word? n).getD 0 < 2 ^ 24 := by
  cases hw : rom.word? n with
  | none => exact Nat.two_pow_pos 24
  | some w => exact hlt n w hw

/-! ## The image -/

/-- the bytes of the word at an address, each with its own address -/
def entryBytes (a w : Nat) : List (UInt32 × UInt8) :=
  (List.range 3).map fun i => (UInt32.ofNat (3 * a + i), wordByte w i)

theorem toNat_ofNat_index (i : Nat) (hi : i < 192) : (UInt32.ofNat i).toNat = i := by
  apply UInt32.toNat_ofNat_of_lt'
  show i < 2 ^ 32
  omega

theorem toNat_address (a : Fin romWords) (i : Nat) (hi : i < 3) :
    (UInt32.ofNat (3 * a.val + i)).toNat = 3 * a.val + i := by
  have ha : a.val < 64 := a.isLt
  exact toNat_ofNat_index _ (by omega)

theorem ascending_entryBytes (es : List (Fin romWords × RomEntry))
    (h : es.Pairwise fun x y => compare x.1 y.1 = .lt) :
    Image.Ascending (es.flatMap fun e => entryBytes e.1 e.2.word) := by
  rw [Image.Ascending, List.pairwise_flatMap]
  constructor
  · intro e _
    refine List.pairwise_map.mpr (List.pairwise_lt_range.imp_of_mem fun {i j} hi hj hij => ?_)
    rw [Std.compare_eq_lt, UInt32.lt_iff_toNat_lt, toNat_address _ _ (List.mem_range.mp hi),
      toNat_address _ _ (List.mem_range.mp hj)]
    omega
  · refine h.imp fun {x y} hxy p hp q hq => ?_
    obtain ⟨i, hi, rfl⟩ := List.mem_map.mp hp
    obtain ⟨j, hj, rfl⟩ := List.mem_map.mp hq
    have hlt : x.1.val < y.1.val := Std.compare_eq_lt.mp hxy
    have hi' := List.mem_range.mp hi
    rw [Std.compare_eq_lt, UInt32.lt_iff_toNat_lt, toNat_address _ _ hi',
      toNat_address _ _ (List.mem_range.mp hj)]
    omega

/-- the image holds three bytes for each word, and nothing else -/
theorem entries_image (rom : Rom) :
    rom.image.entries = rom.entries.entries.flatMap fun e => entryBytes e.1 e.2.word :=
  SortedMap.entries_ofList _ (ascending_entryBytes _ rom.entries.sorted)

theorem size_image (rom : Rom) : rom.image.size = 3 * rom.entries.size := by
  unfold SortedMap.size
  rw [entries_image]
  exact length_flatMap_of_length _ 3 _ fun _ _ => rfl

theorem mem_image_iff (rom : Rom) (k : UInt32) (b : UInt8) :
    (k, b) ∈ rom.image.entries ↔
      ∃ w, rom.word? (k.toNat / 3) = some w ∧ b = wordByte w (k.toNat % 3) := by
  rw [entries_image, List.mem_flatMap]
  constructor
  · rintro ⟨⟨a, e⟩, he, hmem⟩
    obtain ⟨i, hi, heq⟩ := List.mem_map.mp hmem
    have hi' := List.mem_range.mp hi
    obtain ⟨rfl, rfl⟩ := Prod.mk.inj heq
    have hdiv : (3 * a.val + i) / 3 = a.val := by omega
    have hmod : (3 * a.val + i) % 3 = i := by omega
    rw [toNat_address a i hi', hdiv, hmod]
    exact ⟨e.word, (rom.word?_eq_some_iff _ _).mpr ⟨a.isLt, e, he, rfl⟩, rfl⟩
  · rintro ⟨w, hw, rfl⟩
    obtain ⟨hn, e, he, rfl⟩ := (rom.word?_eq_some_iff _ _).mp hw
    have hmod : k.toNat % 3 ∈ List.range 3 := List.mem_range.mpr (Nat.mod_lt _ (by decide))
    refine ⟨_, he, List.mem_map.mpr ⟨k.toNat % 3, hmod, ?_⟩⟩
    show (UInt32.ofNat (3 * (k.toNat / 3) + k.toNat % 3), _) = _
    rw [Nat.div_add_mod, UInt32.ofNat_toNat]

theorem get?_image (rom : Rom) (k : UInt32) :
    rom.image.get? k = (rom.word? (k.toNat / 3)).map fun w => wordByte w (k.toNat % 3) := by
  apply Option.ext
  intro b
  rw [SortedMap.get?_eq_some_iff, mem_image_iff, Option.map_eq_some_iff]
  exact exists_congr fun w => and_congr_right fun _ => eq_comm

theorem toNat_lt_of_mem_image (rom : Rom) : ∀ e ∈ rom.image.entries, e.1.toNat < 192 := by
  intro e he
  obtain ⟨w, hw, -⟩ := (rom.mem_image_iff e.1 e.2).mp he
  have hlt := rom.lt_of_word? _ _ hw
  omega

/-! ## All words as bytes -/

theorem length_binary (rom : Rom) : rom.binary.length = 192 :=
  length_flatMap_of_length _ 3 _ fun _ _ => rfl

theorem getElem?_binary (rom : Rom) (n i : Nat) (hn : n < 64) (hi : i < 3) :
    rom.binary[3 * n + i]? = some (wordByte ((rom.word? n).getD 0) i) := by
  unfold binary
  rw [getElem?_flatMap_of_length _ 3 _ (fun _ _ => rfl) n i hi, List.getElem?_range hn,
    Option.bind_some, getElem?_wordBytes _ i hi]

/-- the byte at an address is that of the image, or zero -/
theorem getElem?_binary_eq_image (rom : Rom) (i : Nat) (hi : i < 192) :
    rom.binary[i]? = some ((rom.image.get? (UInt32.ofNat i)).getD 0) := by
  have hbyte := rom.getElem?_binary (i / 3) (i % 3) (by omega) (Nat.mod_lt _ (by decide))
  rw [Nat.div_add_mod] at hbyte
  rw [hbyte, get?_image, toNat_ofNat_index i hi]
  cases rom.word? (i / 3) with
  | none => exact congrArg some (wordByte_zero _)
  | some w => rfl

theorem binary_eq_foldl_set (rom : Rom) :
    rom.binary = rom.image.entries.foldl (fun bytes e => bytes.set e.1.toNat e.2)
      (List.replicate 192 0) := by
  have hset := rom.image.eq_foldl_set rom.binary (by rw [length_binary]; decide)
    fun i hi => rom.getElem?_binary_eq_image i (by rwa [length_binary] at hi)
  rwa [length_binary] at hset

/-! ## The end of the store -/

/-- one past the highest address with a word, zero for a store without words -/
structure Height (rom : Rom) (h : Nat) : Prop where
  below : ∀ n w, rom.word? n = some w → n < h
  top : 0 < h → ∃ w, rom.word? (h - 1) = some w

theorem Height.le {rom : Rom} {h : Nat} (hh : rom.Height h) : h ≤ 64 := by
  rcases Nat.eq_zero_or_pos h with rfl | hpos
  · exact Nat.zero_le _
  · obtain ⟨w, hw⟩ := hh.top hpos
    have hlt := rom.lt_of_word? _ _ hw
    omega

theorem exists_height (rom : Rom) : ∃ h, rom.Height h ∧ rom.image.dense.length = 3 * h := by
  cases hlast : rom.entries.lastKey? with
  | none =>
    have hempty := SortedMap.lastKey?_eq_none hlast
    refine ⟨0, ⟨fun n w hw => ?_, fun h => absurd h (Nat.lt_irrefl 0)⟩, ?_⟩
    · obtain ⟨_, e, he, -⟩ := (rom.word?_eq_some_iff n w).mp hw
      rw [hempty] at he
      exact absurd he List.not_mem_nil
    · unfold Image.dense
      rw [entries_image, hempty]
      rfl
  | some a =>
    obtain ⟨e, hend, hmem, hmax⟩ := SortedMap.lastKey?_eq_some hlast
    refine ⟨a.val + 1, ⟨fun n w hw => ?_, fun _ => ?_⟩, ?_⟩
    · obtain ⟨hn, e', he', -⟩ := (rom.word?_eq_some_iff n w).mp hw
      rcases hmax _ he' with heq | hlt
      · have hna : n = a.val := congrArg (fun e => e.1.val) heq
        omega
      · exact Nat.lt_succ_of_lt (Std.compare_eq_lt.mp hlt)
    · exact ⟨e.word, (rom.word?_eq_some_iff _ _).mpr ⟨a.isLt, e, hmem, rfl⟩⟩
    · obtain ⟨es, hes⟩ := List.getLast?_eq_some_iff.mp hend
      have hlastKey : rom.image.lastKey? = some (UInt32.ofNat (3 * a.val + 2)) := by
        unfold SortedMap.lastKey?
        rw [entries_image, hes, List.flatMap_append, List.getLast?_append]
        rfl
      rw [Image.length_dense, hlastKey, Option.map_some, toNat_address a 2 (by decide)]
      show 3 * a.val + 2 + 1 = 3 * (a.val + 1)
      omega

/-- the dense image and zeros after it are all words of the store -/
theorem dense_append_zeros (rom : Rom) (h : Nat) (hh : rom.Height h)
    (hlen : rom.image.dense.length = 3 * h) :
    rom.image.dense ++ List.replicate (192 - 3 * h) 0 = rom.binary := by
  have hle := hh.le
  apply List.ext_getElem?
  intro i
  by_cases hi : i < 192
  · have hkey := toNat_ofNat_index i hi
    rw [rom.getElem?_binary_eq_image i hi]
    by_cases hdense : i < 3 * h
    · have hbyte := rom.image.getElem?_dense (UInt32.ofNat i) (by rw [hkey, hlen]; exact hdense)
      rw [hkey] at hbyte
      rw [List.getElem?_append_left (by rw [hlen]; exact hdense), hbyte]
    · have hnone : rom.word? (i / 3) = none := by
        rw [Option.eq_none_iff_forall_ne_some]
        intro w hw
        have hbelow := hh.below _ _ hw
        omega
      rw [List.getElem?_append_right (by rw [hlen]; omega),
        List.getElem?_replicate_of_lt (by rw [hlen]; omega), get?_image, hkey, hnone]
      rfl
  · rw [List.getElem?_eq_none (by rw [List.length_append, List.length_replicate, hlen]; omega),
      List.getElem?_eq_none (by rw [length_binary]; omega)]

/-! ## Text -/

/-- the words of the store up to an address, zero where there is none -/
def wordsBelow (rom : Rom) (h : Nat) : List Nat :=
  (List.range h).map fun n => (rom.word? n).getD 0

theorem length_wordsBelow (rom : Rom) (h : Nat) : (rom.wordsBelow h).length = h := by
  rw [wordsBelow, List.length_map, List.length_range]

theorem dense_eq_flatMap (rom : Rom) (h : Nat) (hh : rom.Height h)
    (hlen : rom.image.dense.length = 3 * h) :
    rom.image.dense = (rom.wordsBelow h).flatMap wordBytes := by
  have hle := hh.le
  have hall := rom.dense_append_zeros h hh hlen
  have hsplit : rom.binary = (rom.wordsBelow h).flatMap wordBytes ++
      ((List.range (64 - h)).map (h + ·)).flatMap fun n => wordBytes ((rom.word? n).getD 0) := by
    have hrange : List.range 64 = List.range h ++ (List.range (64 - h)).map (h + ·) := by
      rw [← List.range_add, Nat.add_sub_cancel' hle]
    unfold binary wordsBelow
    rw [hrange, List.flatMap_append, List.flatMap_map, List.flatMap_map]
  rw [hsplit] at hall
  refine List.append_inj_left hall ?_
  rw [hlen, length_flatMap_of_length _ 3 _ fun _ _ => rfl, length_wordsBelow]

theorem word_three (b₀ b₁ b₂ : UInt8) (bytes : List UInt8) :
    MemoryText.word 3 (b₀ :: b₁ :: b₂ :: bytes) =
      b₀.toNat * 65536 + b₁.toNat * 256 + b₂.toNat := by
  simp only [MemoryText.word, List.headD_cons, List.tail_cons]
  omega

theorem words_flatMap_wordBytes (ws : List Nat) (h : ∀ w ∈ ws, w < 2 ^ 24) :
    MemoryText.words 3 ws.length (ws.flatMap wordBytes) = ws := by
  induction ws with
  | nil => rfl
  | cons w ws ih =>
    obtain ⟨hw, hws⟩ := List.forall_mem_cons.mp h
    have hword : MemoryText.word 3 (wordBytes w ++ ws.flatMap wordBytes) = w := by
      rw [wordBytes_eq, List.cons_append, List.cons_append, List.cons_append, word_three,
        toNat_wordByte w hw]
    have hdrop : (wordBytes w ++ ws.flatMap wordBytes).drop 3 = ws.flatMap wordBytes := rfl
    rw [List.flatMap_cons, List.length_cons, MemoryText.words, hword, hdrop, ih hws]

theorem touched_dense (rom : Rom) (h : Nat) (hh : rom.Height h)
    (hlen : rom.image.dense.length = 3 * h) (hlt : ∀ n w, rom.word? n = some w → w < 2 ^ 24) :
    MemoryText.touched 3 rom.image.dense = rom.wordsBelow h := by
  have hwords : ∀ w ∈ rom.wordsBelow h, w < 2 ^ 24 := by
    intro w hw
    obtain ⟨n, -, rfl⟩ := List.mem_map.mp hw
    exact rom.getD_word?_lt hlt n
  have hcount : MemoryText.wordCount 3 (3 * h) = (rom.wordsBelow h).length := by
    rw [length_wordsBelow]
    unfold MemoryText.wordCount
    omega
  unfold MemoryText.touched
  rw [hlen, hcount, rom.dense_eq_flatMap h hh hlen, words_flatMap_wordBytes _ hwords]

theorem memoryText_eq (rom : Rom) (h : Nat) (hh : rom.Height h)
    (hlen : rom.image.dense.length = 3 * h) (hlt : ∀ n w, rom.word? n = some w → w < 2 ^ 24) :
    rom.memoryText = .ok (MemoryText.header ++ '\n' ::
      [' '].intercalate ((MemoryText.shown (rom.wordsBelow h)).map hex) ++ ['\n']) := by
  have hrender := MemoryText.render_eq_of_dvd 3 (by decide) (by decide) rom.image ⟨h, hlen⟩
  rw [rom.touched_dense h hh hlen hlt, MemoryText.payload_eq] at hrender
  exact hrender

/-- **All outputs of a control store hold its words.**  The words of an assembled store are below
`2 ^ 24`.  Its bytes are 192, and three of them read as a number are the word of their place, or
zero; they are the bytes of the image, each written at its address, and no address is out of range.
The image has three bytes for each word and ends with the highest one, and zeros make it all bytes
of the store.  The text has one numeral for each word up to the highest one, and a lone zero if
there is none. -/
theorem outputs_agree (records : List Record) (rom : Rom) (hrom : assemble records = .ok rom) :
    (∀ n w, rom.word? n = some w → n < 64 ∧ w < 2 ^ 24) ∧
    rom.binary.length = 192 ∧
    (∀ n < 64, ∃ b₀ b₁ b₂, rom.binary[3 * n]? = some b₀ ∧ rom.binary[3 * n + 1]? = some b₁ ∧
      rom.binary[3 * n + 2]? = some b₂ ∧
      b₀.toNat * 65536 + b₁.toNat * 256 + b₂.toNat = (rom.word? n).getD 0) ∧
    (∀ e ∈ rom.image.entries, e.1.toNat < 192) ∧
    rom.binary = rom.image.entries.foldl (fun bytes e => bytes.set e.1.toNat e.2)
      (List.replicate 192 0) ∧
    rom.image.size = 3 * rom.entries.size ∧
    ∃ h, rom.Height h ∧ rom.image.endAddress.toNat = 3 * h ∧
      rom.image.dense ++ List.replicate (192 - 3 * h) 0 = rom.binary ∧
      ∃ text tokens, rom.memoryText = .ok text ∧ rom.artifacts = .ok ⟨rom.binary, text⟩ ∧
        text = MemoryText.header ++ '\n' :: [' '].intercalate tokens ++ ['\n'] ∧
        (h = 0 → tokens = [['0']]) ∧
        (0 < h → tokens.length = h ∧ ∀ n < h, ∃ t, tokens[n]? = some t ∧
          MemoryText.Numeral t ((rom.word? n).getD 0)) := by
  obtain ⟨placed, hplaced⟩ := exists_holds records rom hrom
  obtain ⟨h, hh, hlen⟩ := rom.exists_height
  have hlt := hplaced.word_lt
  have hbound := rom.toNat_lt_of_mem_image
  have htext := rom.memoryText_eq h hh hlen hlt
  refine ⟨fun n w hw => ⟨rom.lt_of_word? n w hw, hlt n w hw⟩, rom.length_binary, fun n hn => ?_,
    hbound, rom.binary_eq_foldl_set, rom.size_image, h, hh, ?_,
    rom.dense_append_zeros h hh hlen, _, _, htext, ?_, rfl, ?_, ?_⟩
  · exact ⟨_, _, _, rom.getElem?_binary n 0 hn (by decide), rom.getElem?_binary n 1 hn (by decide),
      rom.getElem?_binary n 2 hn (by decide), toNat_wordByte _ (rom.getD_word?_lt hlt n)⟩
  · rw [← hlen]
    apply Image.toNat_endAddress
    have hle := hh.le
    show rom.image.dense.length < 4294967296
    omega
  · unfold artifacts
    rw [htext]
    rfl
  · rintro rfl
    rfl
  · intro hpos
    have hlength := rom.length_wordsBelow h
    obtain ⟨k, rfl⟩ := Nat.exists_eq_add_of_lt hpos
    rw [MemoryText.shown_of_length hlength, List.length_map]
    refine ⟨hlength, fun n hn => ⟨_, ?_, MemoryText.numeral_hex _⟩⟩
    rw [List.getElem?_map, wordsBelow, List.getElem?_map, List.getElem?_range hn]
    rfl

/-- words at addresses 4 and 2 and nowhere else; the one at 2 has no zero byte -/
def gapped : List Record :=
  [{ address := "0x04".toList, jumpZero := true },
    { address := "0x02".toList, bus := some "PC".toList,
      writeTo := some ["MAR".toList, "A".toList], operation := some "APLUS1".toList,
      action := .write, next := .explicit "0x05".toList }]

theorem outputs_agree_gapped :
    ∃ rom, assemble gapped = .ok rom ∧
      rom.memoryText = .ok (MemoryText.header ++ "\n0 0 152721 0 20000\n".toList) ∧
      rom.binary.length = 192 ∧
      (∃ b₀ b₁ b₂, rom.binary[6]? = some b₀ ∧ rom.binary[7]? = some b₁ ∧
        rom.binary[8]? = some b₂ ∧ b₀.toNat * 65536 + b₁.toNat * 256 + b₂.toNat = 0x152721) ∧
      rom.Height 5 ∧ rom.image.dense ++ List.replicate 177 0 = rom.binary ∧
      ∃ text tokens, rom.memoryText = .ok text ∧ rom.artifacts = .ok ⟨rom.binary, text⟩ ∧
        text = MemoryText.header ++ '\n' :: [' '].intercalate tokens ++ ['\n'] ∧
        tokens.length = 5 ∧ (∃ t, tokens[2]? = some t ∧ MemoryText.Numeral t 0x152721) ∧
        ∃ t, tokens[3]? = some t ∧ MemoryText.Numeral t 0 := by
  have hvalues : (assemble gapped).toOption.map (fun rom => (rom.word? 2, rom.word? 3,
      rom.image.endAddress, rom.memoryText)) = some (some 0x152721, none, 15,
        .ok (MemoryText.header ++ "\n0 0 152721 0 20000\n".toList)) := by decide +kernel
  cases hrom : assemble gapped with
  | error e =>
    rw [hrom] at hvalues
    exact absurd hvalues.symm (Option.some_ne_none _)
  | ok rom =>
    rw [hrom] at hvalues
    simp only [Except.toOption, Option.map_some, Option.some.injEq, Prod.mk.injEq] at hvalues
    obtain ⟨hword, hgap, hend, htext⟩ := hvalues
    obtain ⟨-, hlength, hbytes, -, -, -, h, hh, hend', hdense, text, tokens, hrender, hartifacts,
      hline, -, htokens⟩ := outputs_agree _ rom hrom
    obtain rfl : h = 5 := by
      rw [hend] at hend'
      have hfifteen : (15 : UInt32).toNat = 15 := rfl
      omega
    have hread := hbytes 2 (by decide)
    obtain ⟨hcount, hnumerals⟩ := htokens (by decide)
    have hfirst := hnumerals 2 (by decide)
    have hzero := hnumerals 3 (by decide)
    rw [hword] at hread hfirst
    rw [hgap] at hzero
    exact ⟨rom, rfl, htext, hlength, hread, hh, hdense, text, tokens, hrender, hartifacts, hline,
      hcount, hfirst, hzero⟩

end Rom
end TinyCpu
