import Mathlib.Data.List.Forall2
import Mathlib.Tactic.Ring
import TinyCpu.Image
import TinyCpu.Proofs.Image.Dense
import TinyCpu.Proofs.Text.Cut
import TinyCpu.Proofs.Text.Numeral

/-!
# Memory texts and dense images

The text of an image is written from look-ups in the image, word by word.  Here its words are those
of the dense image, and the text is read back without the functions that write it.

* `bigEndian`                 the bytes of a number, the most significant one first;
* `flatMap_bigEndian_words`   the words of a list of bytes hold these bytes, then zeros;
* `toNat_value_gather`, `last_scan`   what one word and the whole scan find in an image;
* `render_eq`                 the text has the words that the dense image touches;
* `decode?`                   the bytes that a text describes;
* `render_describes_dense`    the text and the dense image describe the same memory.
-/

namespace TinyCpu.MemoryText
open Text

/-! ## Words and their bytes -/

/-- the first `b` bytes as a number, the most significant one first; a missing byte is zero -/
def word : (b : Nat) → List UInt8 → Nat
  | 0, _ => 0
  | b + 1, bytes => (bytes.headD 0).toNat * 256 ^ b + word b bytes.tail

def words (b : Nat) : (count : Nat) → List UInt8 → List Nat
  | 0, _ => []
  | n + 1, bytes => word b bytes :: words b n (bytes.drop b)

/-- number of words of `b` bytes that `n` bytes touch -/
def wordCount (b n : Nat) : Nat := (n + b - 1) / b

/-- the `b` bytes of a number, the most significant one first -/
def bigEndian : (b : Nat) → Nat → List UInt8
  | 0, _ => []
  | b + 1, v => UInt8.ofNat (v / 256 ^ b) :: bigEndian b (v % 256 ^ b)

theorem word_lt (b : Nat) (bytes : List UInt8) : word b bytes < 256 ^ b := by
  induction b generalizing bytes with
  | zero => exact Nat.one_pos
  | succ b ih =>
    have hhead : (bytes.headD 0).toNat + 1 ≤ 256 := (bytes.headD 0).toNat_lt
    rw [word]
    calc (bytes.headD 0).toNat * 256 ^ b + word b bytes.tail
        < (bytes.headD 0).toNat * 256 ^ b + 256 ^ b := Nat.add_lt_add_left (ih bytes.tail) _
      _ = ((bytes.headD 0).toNat + 1) * 256 ^ b := by ring
      _ ≤ 256 * 256 ^ b := Nat.mul_le_mul_right _ hhead
      _ = 256 ^ (b + 1) := by ring

theorem word_succ (b : Nat) (bytes : List UInt8) :
    word (b + 1) bytes = word b bytes * 256 + ((bytes[b]?).getD 0).toNat := by
  induction b generalizing bytes with
  | zero => cases bytes <;> simp [word]
  | succ b ih =>
    have hlast : bytes.tail[b]? = bytes[b + 1]? := List.getElem?_tail
    rw [word, ih, hlast, word]
    ring

/-- a word holds its bytes; those that are missing are zero -/
theorem bigEndian_word (b : Nat) (bytes : List UInt8) :
    bigEndian b (word b bytes) = bytes.take b ++ List.replicate (b - bytes.length) 0 := by
  induction b generalizing bytes with
  | zero => simp [bigEndian]
  | succ b ih =>
    have hlow : word b bytes.tail < 256 ^ b := word_lt b bytes.tail
    have hpos : 0 < 256 ^ b := Nat.zero_lt_of_lt hlow
    have hdiv : word (b + 1) bytes / 256 ^ b = (bytes.headD 0).toNat := by
      rw [word, Nat.add_comm, Nat.add_mul_div_right _ _ hpos, Nat.div_eq_of_lt hlow,
        Nat.zero_add]
    have hmod : word (b + 1) bytes % 256 ^ b = word b bytes.tail := by
      rw [word, Nat.add_comm, Nat.add_mul_mod_self_right, Nat.mod_eq_of_lt hlow]
    rw [bigEndian, hdiv, hmod, UInt8.ofNat_toNat, ih]
    cases bytes with
    | nil => simp [List.replicate_succ]
    | cons x bytes => simp

theorem flatMap_bigEndian_words (b n : Nat) (bytes : List UInt8) (h : bytes.length ≤ b * n) :
    (words b n bytes).flatMap (bigEndian b)
      = bytes ++ List.replicate (b * n - bytes.length) 0 := by
  induction n generalizing bytes with
  | zero =>
    have hnil : bytes = [] := List.length_eq_zero_iff.mp (Nat.le_zero.mp h)
    rw [hnil]
    rfl
  | succ n ih =>
    have hmul : b * (n + 1) = b * n + b := Nat.mul_succ b n
    have hdrop : (bytes.drop b).length ≤ b * n := by
      rw [List.length_drop]
      omega
    rw [words, List.flatMap_cons, bigEndian_word, ih _ hdrop, List.length_drop]
    rcases Nat.le_total b bytes.length with hle | hle
    · have hrest : b * n - (bytes.length - b) = b * (n + 1) - bytes.length := by omega
      rw [Nat.sub_eq_zero_of_le hle, List.replicate_zero, List.append_nil, ← List.append_assoc,
        List.take_append_drop, hrest]
    · have hrest : b - bytes.length + (b * n - (bytes.length - b))
          = b * (n + 1) - bytes.length := by omega
      rw [List.take_of_length_le hle, List.drop_eq_nil_of_le hle, List.nil_append,
        List.append_assoc, List.replicate_append_replicate, hrest]

theorem length_words (b n : Nat) (bytes : List UInt8) : (words b n bytes).length = n := by
  induction n generalizing bytes with
  | zero => rfl
  | succ n ih => rw [words, List.length_cons, ih]

theorem words_eq_map (b n : Nat) (bytes : List UInt8) :
    words b n bytes = (List.range n).map fun i => word b (bytes.drop (i * b)) := by
  induction n generalizing bytes with
  | zero => rfl
  | succ n ih =>
    have hdrop : ∀ i, (bytes.drop b).drop (i * b) = bytes.drop ((i + 1) * b) := by
      intro i
      rw [List.drop_drop, Nat.succ_mul, Nat.add_comm]
    rw [words, ih, List.range_succ_eq_map, List.map_cons, List.map_map, Nat.zero_mul,
      List.drop_zero]
    simp only [hdrop, Function.comp_def, Nat.succ_eq_add_one]

theorem lt_of_mem_words (b n : Nat) (bytes : List UInt8) :
    ∀ w ∈ words b n bytes, w < 256 ^ b := by
  induction n generalizing bytes with
  | zero => exact fun w hw => absurd hw List.not_mem_nil
  | succ n ih =>
    intro w hw
    rcases List.mem_cons.mp hw with rfl | hw'
    · exact word_lt b bytes
    · exact ih _ w hw'

theorem wordCount_zero (b : Nat) (hb : 0 < b) : wordCount b 0 = 0 :=
  Nat.div_eq_of_lt (by omega)

theorem wordCount_succ (b n : Nat) (hb : 0 < b) : wordCount b (n + 1) = n / b + 1 := by
  have hsum : n + 1 + b - 1 = n + b := by omega
  unfold wordCount
  rw [hsum, Nat.add_div_right n hb]

/-- the words that `n` bytes touch have room for them, and the last one is touched -/
theorem wordCount_bounds (b n : Nat) (hb : 0 < b) :
    n ≤ b * wordCount b n ∧ b * wordCount b n < n + b := by
  have hdiv := Nat.div_add_mod (n + b - 1) b
  have hmod := Nat.mod_lt (n + b - 1) hb
  unfold wordCount
  omega

def touched (b : Nat) (bytes : List UInt8) : List Nat :=
  words b (wordCount b bytes.length) bytes

theorem touched_nil (b : Nat) (hb : 0 < b) : touched b [] = [] := by
  unfold touched
  rw [List.length_nil, wordCount_zero b hb]
  rfl

theorem length_touched (b n : Nat) (hb : 0 < b) (bytes : List UInt8) (h : bytes.length = n + 1) :
    (touched b bytes).length = n / b + 1 := by
  unfold touched
  rw [length_words, h, wordCount_succ b n hb]

/-- the words that the bytes touch hold the bytes, and in the last word zeros after them -/
theorem flatMap_bigEndian_touched (b : Nat) (hb : 0 < b) (bytes : List UInt8) :
    ∃ k < b, (touched b bytes).flatMap (bigEndian b) = bytes ++ List.replicate k 0 := by
  obtain ⟨hroom, hlast⟩ := wordCount_bounds b bytes.length hb
  refine ⟨b * wordCount b bytes.length - bytes.length, by omega, ?_⟩
  exact flatMap_bigEndian_words b _ bytes hroom

theorem mul_wordCount_of_dvd {b n : Nat} (hb : 0 < b) (h : b ∣ n) : b * wordCount b n = n := by
  obtain ⟨k, rfl⟩ := h
  obtain ⟨hroom, hlast⟩ := wordCount_bounds b (b * k) hb
  rw [← Nat.mul_succ] at hlast
  have hle : k ≤ wordCount b (b * k) := Nat.le_of_mul_le_mul_left hroom hb
  have hlt : wordCount b (b * k) < k + 1 := Nat.lt_of_mul_lt_mul_left hlast
  rw [Nat.le_antisymm (Nat.le_of_lt_succ hlt) hle]

/-- bytes that fill their last word are all that the words hold -/
theorem flatMap_bigEndian_touched_of_dvd (b : Nat) (hb : 0 < b) (bytes : List UInt8)
    (h : b ∣ bytes.length) : (touched b bytes).flatMap (bigEndian b) = bytes := by
  have hcount := mul_wordCount_of_dvd hb h
  unfold touched
  rw [flatMap_bigEndian_words b _ bytes (Nat.le_of_eq hcount.symm), hcount, Nat.sub_self,
    List.replicate_zero, List.append_nil]

/-! ## The words of an image -/

theorem toNat_value_push (w : Gathered) (byte : Option UInt8) (h : w.value.toNat < 2 ^ 56) :
    (w.push byte).value.toNat = w.value.toNat * 256 + (byte.getD 0).toNat := by
  have hbyte : (byte.getD 0).toNat < 2 ^ 8 := (byte.getD 0).toNat_lt
  have hshift : (w.value <<< 8).toNat = w.value.toNat <<< 8 := by
    have hroom : w.value.toNat <<< 8 < 2 ^ 64 := by
      rw [Nat.shiftLeft_eq]
      omega
    exact (UInt64.toNat_shiftLeft _ _).trans (Nat.mod_eq_of_lt hroom)
  show (w.value <<< 8 ||| (byte.getD 0).toUInt64).toNat = _
  rw [UInt64.toNat_or, hshift, UInt8.toNat_toUInt64, ← Nat.shiftLeft_add_eq_or_of_lt hbyte,
    Nat.shiftLeft_eq]

/-- the first `k` bytes of a word that starts at `start`, read from the image -/
def gatherFrom (m : Image) (start k : Nat) : Gathered :=
  (List.range k).foldl (fun w j => w.push (m.get? (UInt32.ofNat (start + j)))) {}

theorem gatherFrom_succ (m : Image) (start k : Nat) :
    gatherFrom m start (k + 1)
      = (gatherFrom m start k).push (m.get? (UInt32.ofNat (start + k))) := by
  unfold gatherFrom
  rw [List.range_succ, List.foldl_append]
  rfl

theorem toNat_value_gatherFrom (m : Image) (start k : Nat) (hk : k ≤ 8)
    (hfit : start + k ≤ 2 ^ 32) :
    (gatherFrom m start k).value.toNat = word k (m.dense.drop start) := by
  induction k with
  | zero => rfl
  | succ k ih =>
    have hvalue := ih (by omega) (by omega)
    have hlt : word k (m.dense.drop start) < 2 ^ 56 :=
      calc word k (m.dense.drop start) < 256 ^ k := word_lt k _
        _ ≤ 256 ^ 7 := Nat.pow_le_pow_right (by decide) (by omega)
        _ = 2 ^ 56 := by decide
    have hkey : (UInt32.ofNat (start + k)).toNat = start + k :=
      UInt32.toNat_ofNat_of_lt (by show start + k < 4294967296; omega)
    have hbyte := m.getD_getElem?_dense (UInt32.ofNat (start + k))
    rw [hkey] at hbyte
    rw [gatherFrom_succ, toNat_value_push _ _ (by rw [hvalue]; exact hlt), hvalue, ← hbyte,
      word_succ, List.getElem?_drop]

/-- a word of an image is that of its dense form -/
theorem toNat_value_gather (m : Image) (b i : Nat) (hb8 : b ≤ 8) (hfit : i * b + b ≤ 2 ^ 32) :
    (gather m b i).value.toNat = word b (m.dense.drop (i * b)) :=
  toNat_value_gatherFrom m (i * b) b hb8 hfit

theorem assigned_gatherFrom_iff (m : Image) (start k : Nat) :
    (gatherFrom m start k).assigned = true ↔
      ∃ j < k, (m.get? (UInt32.ofNat (start + j))).isSome = true := by
  induction k with
  | zero => simp [gatherFrom]
  | succ k ih =>
    rw [gatherFrom_succ, Gathered.push, Bool.or_eq_true, ih]
    simp only [Nat.lt_succ_iff_lt_or_eq, or_and_right, exists_or, exists_eq_left]

/-- the word that holds the byte at an address is assigned -/
theorem assigned_gather (m : Image) (b : Nat) (hb : 0 < b) (a : UInt32) {c : UInt8}
    (h : m.get? a = some c) : (gather m b (a.toNat / b)).assigned = true := by
  have hplace : a.toNat / b * b + a.toNat % b = a.toNat := Nat.div_add_mod' a.toNat b
  refine (assigned_gatherFrom_iff m (a.toNat / b * b) b).mpr
    ⟨a.toNat % b, Nat.mod_lt _ hb, ?_⟩
  rw [hplace, UInt32.ofNat_toNat, h]
  rfl

def scanTo (m : Image) (b n : Nat) : Scan :=
  (List.range n).foldl (fun s i => s.push i (gather m b i)) {}

theorem scanTo_succ (m : Image) (b n : Nat) :
    scanTo m b (n + 1) = (scanTo m b n).push n (gather m b n) := by
  unfold scanTo
  rw [List.range_succ, List.foldl_append]
  rfl

theorem scan_eq_scanTo (m : Image) (b : Nat) : scan m b = scanTo m b (wordsUpTo m b) := rfl

theorem words_scanTo (m : Image) (b n : Nat) :
    (scanTo m b n).words.toList = (List.range n).map fun i => (gather m b i).value := by
  induction n with
  | zero => rfl
  | succ n ih =>
    rw [scanTo_succ, List.range_succ, List.map_append, ← ih]
    exact Array.toList_push

theorem wordsUpTo_of_lastKey? {m : Image} {a : UInt32} (h : m.lastKey? = some a) (b : Nat) :
    wordsUpTo m b = a.toNat / b + 1 := by
  unfold wordsUpTo
  rw [h]

theorem wordsUpTo_eq (m : Image) (b : Nat) (hb : 0 < b) :
    wordsUpTo m b = wordCount b m.dense.length := by
  rw [Image.length_dense]
  unfold wordsUpTo
  cases m.lastKey? with
  | none => exact (wordCount_zero b hb).symm
  | some a => exact (wordCount_succ b a.toNat hb).symm

/-- the last word with a stored byte is the one with the greatest address -/
theorem last_scan (m : Image) (b : Nat) (hb : 0 < b) (a : UInt32) (h : m.lastKey? = some a) :
    (scan m b).last = some (a.toNat / b) := by
  obtain ⟨c, -, hmem, -⟩ := SortedMap.lastKey?_eq_some h
  have hget : m.get? a = some c := (SortedMap.get?_eq_some_iff m a c).mpr hmem
  rw [scan_eq_scanTo, wordsUpTo_of_lastKey? h, scanTo_succ, Scan.push,
    assigned_gather m b hb a hget]
  rfl

/-- the words of a scan are those that the dense image touches, as long as no word goes past the
last address of all -/
theorem words_scan (m : Image) (b : Nat) (hb : 0 < b) (hb8 : b ≤ 8)
    (hfit : b * wordCount b m.dense.length ≤ 2 ^ 32) :
    (scan m b).words.toList.map UInt64.toNat = touched b m.dense := by
  unfold touched
  rw [scan_eq_scanTo, wordsUpTo_eq m b hb, words_scanTo, words_eq_map, List.map_map]
  refine List.map_congr_left fun i hi => toNat_value_gather m b i hb8 ?_
  have hlt : i + 1 ≤ wordCount b m.dense.length := List.mem_range.mp hi
  calc i * b + b = b * (i + 1) := by ring
    _ ≤ b * wordCount b m.dense.length := Nat.mul_le_mul_left b hlt
    _ ≤ 2 ^ 32 := hfit

/-! ## The text and its words -/

/-- the words in hexadecimal, with a blank between them; no words are written as a zero -/
def payload : List Nat → Text
  | [] => hex 0
  | ws => [' '].intercalate (ws.map hex)

/-- a lower-case hexadecimal numeral of a word -/
def Numeral (t : Text) (w : Nat) : Prop := LowerHex t ∧ natural? 16 t = some w

theorem numeral_hex (w : Nat) : Numeral (hex w) w := ⟨lowerHex_hex w, natural?_hex w⟩

theorem forall₂_numeral_hex (ws : List Nat) : List.Forall₂ Numeral (ws.map hex) ws :=
  List.forall₂_map_left_iff.mpr (List.forall₂_same.mpr fun w _ => numeral_hex w)

/-- the words of the payload line: at least one -/
def shown : List Nat → List Nat
  | [] => [0]
  | ws => ws

theorem shown_of_length {ws : List Nat} {n : Nat} (h : ws.length = n + 1) : shown ws = ws := by
  cases ws with
  | nil => exact absurd h (Nat.zero_ne_add_one n)
  | cons w ws => rfl

theorem shown_ne_nil (ws : List Nat) : shown ws ≠ [] := by
  cases ws <;> exact List.cons_ne_nil _ _

theorem payload_eq (ws : List Nat) : payload ws = [' '].intercalate ((shown ws).map hex) := by
  cases ws with
  | nil => exact List.intercalate_singleton.symm
  | cons w ws => rfl

/-- the line of an image has all words that its dense form touches: nothing is cut off, since the
last of them holds the byte with the greatest address -/
theorem body_eq (m : Image) (b : Nat) (hb : 0 < b) (hb8 : b ≤ 8)
    (hfit : b * wordCount b m.dense.length ≤ 2 ^ 32) :
    body m b = payload (touched b m.dense) := by
  have hwords := words_scan m b hb hb8 hfit
  have hlength := Image.length_dense m
  rw [body, if_neg (Nat.ne_of_gt hb)]
  cases hlast : m.lastKey? with
  | none =>
    rw [hlast] at hlength
    have hscan : (scan m b).last = none := by
      unfold scan wordsUpTo
      rw [hlast]
      rfl
    simp only [hscan]
    rw [List.length_eq_zero_iff.mp hlength, touched_nil b hb]
    rfl
  | some a =>
    rw [hlast] at hlength
    have htouched : (touched b m.dense).length = a.toNat / b + 1 :=
      length_touched b a.toNat hb _ hlength
    have htake : (scan m b).words.toList.take (a.toNat / b + 1) = (scan m b).words.toList := by
      apply List.take_of_length_le
      rw [← htouched, ← hwords, List.length_map]
    simp only [last_scan m b hb a hlast]
    rw [htake, payload_eq, shown_of_length htouched, ← hwords, List.map_map]
    rfl

theorem bytesPerWord_mul (b : Nat) (hb8 : b ≤ 8) : bytesPerWord (8 * b) = .ok b := by
  unfold bytesPerWord
  rw [if_pos ⟨Nat.mul_mod_right 8 b, by omega⟩, Nat.mul_div_cancel_left b (by decide)]

theorem render_mul (b : Nat) (hb8 : b ≤ 8) (m : Image) :
    render (8 * b) m = .ok (header ++ '\n' :: body m b ++ ['\n']) := by
  unfold render
  rw [bytesPerWord_mul b hb8]
  rfl

theorem render_eq (b : Nat) (hb : 0 < b) (hb8 : b ≤ 8) (m : Image)
    (hfit : b * wordCount b m.dense.length ≤ 2 ^ 32) :
    render (8 * b) m = .ok (header ++ '\n' :: payload (touched b m.dense) ++ ['\n']) := by
  rw [render_mul b hb8, body_eq m b hb hb8 hfit]

theorem render_eq_of_dvd (b : Nat) (hb : 0 < b) (hb8 : b ≤ 8) (m : Image)
    (hdvd : b ∣ m.dense.length) :
    render (8 * b) m = .ok (header ++ '\n' :: payload (touched b m.dense) ++ ['\n']) := by
  apply render_eq b hb hb8
  rw [mul_wordCount_of_dvd hb hdvd]
  exact m.length_dense_le

/-! ## Reading a text -/

/-- the bytes that a text of words of `b` bytes describes -/
def decode? (b : Nat) (t : Text) : Option (List UInt8) :=
  match lines t with
  | [head, line] =>
    if head = header then
      ((line.splitOn ' ').mapM (natural? 16)).map fun ws => ws.flatMap (bigEndian b)
    else none
  | _ => none

theorem mapM_natural?_hex (ws : List Nat) : (ws.map hex).mapM (natural? 16) = some ws := by
  induction ws with
  | nil => rfl
  | cons w ws ih =>
    rw [List.map_cons, List.mapM_cons, natural?_hex, ih]
    rfl

theorem not_mem_hex (c : Char) (hc : c ∉ hexDigits) (w : Nat) : c ∉ hex w :=
  fun h => hc ((lowerHex_hex w).digits c h)

theorem not_mem_payload (c : Char) (hblank : c ≠ ' ') (hc : c ∉ hexDigits) (ws : List Nat) :
    c ∉ payload ws := by
  intro h
  rw [payload_eq] at h
  rcases mem_intercalate c _ _ h with hsep | ⟨t, ht, hct⟩
  · exact hblank (List.mem_singleton.mp hsep)
  · obtain ⟨w, -, rfl⟩ := List.mem_map.mp ht
    exact not_mem_hex c hc w hct

theorem decode?_payload (b : Nat) (ws : List Nat) :
    decode? b (header ++ '\n' :: payload ws ++ ['\n'])
      = some ((shown ws).flatMap (bigEndian b)) := by
  have htext : header ++ '\n' :: payload ws ++ ['\n']
      = [header, payload ws].flatMap (· ++ ['\n']) := by
    simp
  have hnewline : ∀ t ∈ [header, payload ws], '\n' ∉ t := by
    rintro t (- | ⟨-, - | ⟨-, ⟨⟩⟩⟩)
    · decide
    · exact not_mem_payload '\n' (by decide) (by decide) ws
  have hreturn : ∀ t ∈ [header, payload ws], t.getLast? ≠ some '\r' := by
    rintro t (- | ⟨-, - | ⟨-, ⟨⟩⟩⟩)
    · decide
    · intro hlast
      exact not_mem_payload '\r' (by decide) (by decide) ws (List.mem_of_getLast? hlast)
  have htokens : (payload ws).splitOn ' ' = (shown ws).map hex := by
    rw [payload_eq, List.splitOn_intercalate ' ' _ (by simp [shown_ne_nil])]
    intro t ht
    obtain ⟨w, -, rfl⟩ := List.mem_map.mp ht
    exact not_mem_hex ' ' (by decide) w
  unfold decode?
  rw [htext, lines_terminated _ hnewline hreturn]
  show (if header = header then
      (((payload ws).splitOn ' ').mapM (natural? 16)).map fun ws => ws.flatMap (bigEndian b)
    else none) = _
  rw [if_pos rfl, htokens, mapM_natural?_hex]
  rfl

/-- cut to the number of bytes, the words of the payload line give the bytes back -/
theorem take_shown_touched (b : Nat) (hb : 0 < b) (bytes : List UInt8) :
    ((shown (touched b bytes)).flatMap (bigEndian b)).take bytes.length = bytes := by
  cases hlen : bytes.length with
  | zero =>
    rw [List.take_zero]
    exact (List.length_eq_zero_iff.mp hlen).symm
  | succ n =>
    have hwords : (touched b bytes).length = n / b + 1 := length_touched b n hb bytes hlen
    obtain ⟨k, -, hk⟩ := flatMap_bigEndian_touched b hb bytes
    rw [shown_of_length hwords, hk, ← hlen, List.take_left]

theorem decode?_render {b : Nat} {m : Image} {text : Text} (hb : 0 < b) (hb8 : b ≤ 8)
    (hdvd : b ∣ m.dense.length) (hne : m.dense ≠ []) (h : render (8 * b) m = .ok text) :
    decode? b text = some m.dense := by
  obtain ⟨n, hn⟩ := Nat.exists_eq_succ_of_ne_zero (List.length_pos_iff.mpr hne).ne'
  rw [render_eq_of_dvd b hb hb8 m hdvd] at h
  rw [← Except.ok.inj h, decode?_payload, shown_of_length (length_touched b n hb _ hn),
    flatMap_bigEndian_touched_of_dvd b hb _ hdvd]

/-! ## The text and the dense image -/

/-- **The text and the dense image describe the same memory.**  The dense image ends with the
greatest stored address and holds the byte stored last at each one, or zero.  The text is the header
and a line of numerals, as many as there are words up to that address; their bytes are the dense
image and less than a word of zeros, so reading the text and cutting it to the image's end gives the
dense image back.  An image without bytes has the one numeral `0`. -/
theorem render_describes_dense (ps : List (UInt32 × UInt8))
    (hps : ∀ p ∈ ps, p.1.toNat < 2 ^ 32 - 8) :
    (Image.dense (SortedMap.ofList ps)).length
        = ((ps.map fun p => p.1.toNat).max?.map (· + 1)).getD 0 ∧
    (∀ i < (Image.dense (SortedMap.ofList ps)).length,
      (Image.dense (SortedMap.ofList ps))[i]? = some ((Image.stored? ps i).getD 0)) ∧
    ∀ b, 1 ≤ b → b ≤ 8 → ∃ text tokens ws,
      render (8 * b) (SortedMap.ofList ps) = .ok text ∧
      text = header ++ '\n' :: [' '].intercalate tokens ++ ['\n'] ∧
      List.Forall₂ Numeral tokens ws ∧
      (ps = [] → tokens = [['0']]) ∧
      (∀ a, (ps.map fun p => p.1.toNat).max? = some a →
        tokens.length = a / b + 1 ∧ (∀ w ∈ ws, w < 256 ^ b) ∧
        ∃ k < b, ws.flatMap (bigEndian b)
          = Image.dense (SortedMap.ofList ps) ++ List.replicate k 0) ∧
      (decode? b text).map (·.take (Image.endAddress (SortedMap.ofList ps)).toNat)
        = some (Image.dense (SortedMap.ofList ps)) := by
  have hlength := Image.length_dense_ofList ps
  have hmost : (Image.dense (SortedMap.ofList ps)).length ≤ 2 ^ 32 - 8 := by
    rw [hlength]
    cases hmax : (ps.map fun p => p.1.toNat).max? with
    | none => exact Nat.zero_le _
    | some a =>
      obtain ⟨p, hp, rfl⟩ := List.mem_map.mp (List.max?_mem hmax)
      exact hps p hp
  have hend : (Image.endAddress (SortedMap.ofList ps)).toNat
      = (Image.dense (SortedMap.ofList ps)).length := by
    apply Image.toNat_endAddress
    show (Image.dense (SortedMap.ofList ps)).length < 4294967296
    omega
  refine ⟨hlength, Image.getElem?_dense_ofList ps, ?_⟩
  intro b hb hb8
  have hfit : b * wordCount b (Image.dense (SortedMap.ofList ps)).length ≤ 2 ^ 32 := by
    have hlast := (wordCount_bounds b (Image.dense (SortedMap.ofList ps)).length hb).2
    omega
  have htext := render_eq b hb hb8 (SortedMap.ofList ps) hfit
  refine ⟨_, (shown (touched b (Image.dense (SortedMap.ofList ps)))).map hex, _, htext,
    by rw [payload_eq], forall₂_numeral_hex _, ?_, ?_, ?_⟩
  · rintro rfl
    show (shown (touched b [])).map hex = [['0']]
    rw [touched_nil b hb]
    rfl
  · -- a stored byte makes a first word, so the payload is not the lone zero
    intro a ha
    rw [ha] at hlength
    have hwords := length_touched b a hb _ hlength
    rw [shown_of_length hwords, List.length_map]
    exact ⟨hwords, lt_of_mem_words b _ _, flatMap_bigEndian_touched b hb _⟩
  · rw [decode?_payload, Option.map_some, hend, take_shown_touched b hb]

/-- a byte stored twice, a stored zero, a gap over a whole word and a last word that is not full -/
def sparse : List (UInt32 × UInt8) := [(5, 0x12), (0, 1), (5, 0), (7, 0xab)]

theorem render_describes_dense_sparse :
    (∀ p ∈ sparse, p.1.toNat < 2 ^ 32 - 8) ∧
    Image.dense (SortedMap.ofList sparse) = [1, 0, 0, 0, 0, 0, 0, 0xab] ∧
    render 24 (SortedMap.ofList sparse) = .ok "v2.0 raw\n10000 0 ab00\n".toList ∧
    ∃ text tokens ws, render 24 (SortedMap.ofList sparse) = .ok text ∧
      text = header ++ '\n' :: [' '].intercalate tokens ++ ['\n'] ∧
      List.Forall₂ Numeral tokens ws ∧ tokens.length = 3 ∧
      (decode? 3 text).map (·.take 8) = some [1, 0, 0, 0, 0, 0, 0, 0xab] := by
  have hps : ∀ p ∈ sparse, p.1.toNat < 2 ^ 32 - 8 := by simp [sparse]
  have hdense : Image.dense (SortedMap.ofList sparse) = [1, 0, 0, 0, 0, 0, 0, 0xab] := by decide
  obtain ⟨-, -, hwidths⟩ := render_describes_dense sparse hps
  obtain ⟨text, tokens, ws, hrender, htext, hwords, -, hcount, hdecode⟩ :=
    hwidths 3 (by decide) (by decide)
  rw [hdense] at hdecode
  exact ⟨hps, hdense, by decide +kernel, text, tokens, ws, hrender, htext, hwords,
    (hcount 7 (by decide)).1, hdecode⟩

end TinyCpu.MemoryText
