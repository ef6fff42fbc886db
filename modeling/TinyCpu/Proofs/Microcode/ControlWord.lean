import Mathlib.Data.Nat.Bitwise
import Mathlib.Tactic.IntervalCases
import Mathlib.Tactic.Ring
import TinyCpu.Microcode.ControlWord

/-!
# The fields of a control word

A control word is put together by joining shifted bits.  Here it is taken apart again.

* `field`                a range of bits of a word, as a number;
* `Record.word_eq`       the fields of a word stand side by side: none reaches into another;
* `Record.Describes`     the word that a record asks for, field by field;
* `Record.dueWarnings`   the names of a record that no field has a code for;
* `encode_exact`         a record is encoded as it describes, or refused.
-/

namespace TinyCpu
open Text

/-! ## Tables of names -/

section
variable {α : Type} (name : α → Text) (code : α → Nat) (table : List α)

/-- the member of a table with this name, in any case -/
def named? (t : Text) : Option α := table.find? fun x => sameLetters (name x) t

/-- the text is none of the names of a table, in any case -/
def Unnamed (t : Text) : Prop := ∀ x ∈ table, lower (name x) ≠ lower t

instance (t : Text) : Decidable (Unnamed name table t) :=
  inferInstanceAs (Decidable (∀ x ∈ table, lower (name x) ≠ lower t))

/-- no two names of a table differ in case only -/
def Distinct : Prop := ∀ x ∈ table, ∀ y ∈ table, lower (name x) = lower (name y) → x = y

theorem named?_eq_none_iff (t : Text) : named? name table t = none ↔ Unnamed name table t := by
  unfold named?
  rw [List.find?_eq_none]
  simp only [sameLetters_iff]
  rfl

variable {name table}

theorem mem_of_named? {t : Text} {x : α} (h : named? name table t = some x) :
    x ∈ table ∧ lower (name x) = lower t := by
  have hx : sameLetters (name x) t = true :=
    List.find?_some (p := fun x => sameLetters (name x) t) h
  exact ⟨List.mem_of_find?_eq_some h, (sameLetters_iff _ _).mp hx⟩

theorem named?_eq_some_iff (hd : Distinct name table) (t : Text) (x : α) :
    named? name table t = some x ↔ x ∈ table ∧ lower (name x) = lower t := by
  constructor
  · exact mem_of_named?
  · rintro ⟨hmem, hname⟩
    cases hfind : named? name table t with
    | none => exact absurd hname ((named?_eq_none_iff name table t).mp hfind x hmem)
    | some y =>
      obtain ⟨hy, hname'⟩ := mem_of_named? hfind
      rw [hd y hy x hmem (hname'.trans hname.symm)]

variable (name table)

/-- the code of the member with this name, in any case; a missing or unknown name has code zero -/
inductive CodeOf : Option Text → Nat → Prop
  | absent : CodeOf none 0
  | unknown (t : Text) (h : Unnamed name table t) : CodeOf (some t) 0
  | known (t : Text) (x : α) (hx : x ∈ table) (h : lower (name x) = lower t) :
      CodeOf (some t) (code x)

variable {name code table}

theorem CodeOf.unique (hd : Distinct name table) {t : Option Text} {m n : Nat}
    (hm : CodeOf name code table t m) (hn : CodeOf name code table t n) : m = n := by
  cases hm with
  | absent => cases hn; rfl
  | unknown t h =>
    cases hn with
    | unknown => rfl
    | known _ x hx hname => exact absurd hname (h x hx)
  | known t x hx hname =>
    cases hn with
    | unknown _ h => exact absurd hname (h x hx)
    | known _ y hy hname' => rw [hd x hx y hy (hname.trans hname'.symm)]

theorem CodeOf.lt {t : Option Text} {n bound : Nat} (h : CodeOf name code table t n)
    (hcode : ∀ x ∈ table, code x < bound) (hpos : 0 < bound) : n < bound := by
  cases h with
  | absent => exact hpos
  | unknown t h => exact hpos
  | known t x hx h => exact hcode x hx

variable (name code table)

theorem namedField_code (unknown : Text → FieldWarning) (t : Option Text) :
    CodeOf name code table t (namedField (named? name table) code unknown t).1 := by
  cases t with
  | none => exact .absent
  | some t =>
    cases h : named? name table t with
    | none =>
      simp only [namedField, h]
      exact .unknown t ((named?_eq_none_iff name table t).mp h)
    | some x =>
      simp only [namedField, h]
      obtain ⟨hx, hname⟩ := mem_of_named? h
      exact .known t x hx hname

theorem namedField_warnings (unknown : Text → FieldWarning) (t : Option Text) :
    (namedField (named? name table) code unknown t).2 =
      (t.toList.filter fun t => Unnamed name table t).map unknown := by
  cases t with
  | none => rfl
  | some t =>
    have hiff := named?_eq_none_iff name table t
    cases h : named? name table t with
    | none =>
      rw [h] at hiff
      simp [namedField, h, hiff.mp rfl]
    | some x =>
      have hnot : ¬ Unnamed name table t := fun hu => by simp [h] at hiff; exact hiff hu
      simp [namedField, h, hnot]

end

theorem ControlLine.distinct : Distinct ControlLine.name ControlLine.writeEnables := by
  unfold Distinct
  decide

theorem BusSource.distinct : Distinct BusSource.name BusSource.all := by
  unfold Distinct
  decide

theorem AluFunction.distinct : Distinct AluFunction.name AluFunction.all := by
  unfold Distinct
  decide

/-! ## Ranges of bits -/

/-- the bits of a word from position `lo` on, `width` of them, as a number -/
def field (word lo width : Nat) : Nat := word / 2 ^ lo % 2 ^ width

theorem testBit_eq_field (word i : Nat) : word.testBit i = decide (field word i 1 = 1) := by
  rw [Nat.testBit_eq_decide_div_mod_eq]
  rfl

theorem or_shiftLeft_eq (w x lo : Nat) (h : w < 2 ^ lo) : w ||| x <<< lo = w + 2 ^ lo * x := by
  rw [Nat.lor_comm, ← Nat.shiftLeft_add_eq_or_of_lt h, Nat.shiftLeft_eq]
  ring

theorem testBit_add_high (w x lo i : Nat) (hi : i < lo) :
    (w + 2 ^ lo * x).testBit i = w.testBit i := by
  have hmod : (w + 2 ^ lo * x) % 2 ^ lo = w % 2 ^ lo := Nat.add_mul_mod_self_left w (2 ^ lo) x
  have h := Nat.testBit_mod_two_pow (w + 2 ^ lo * x) lo i
  rw [hmod, Nat.testBit_mod_two_pow, decide_eq_true hi, Bool.true_and, Bool.true_and] at h
  exact h.symm

/-- a word is its nine lowest lines and the fields above them -/
theorem eq_of_fields {w v : Nat} (hw : w < 2 ^ 24) (hv : v < 2 ^ 24)
    (hlow : ∀ i < 9, w.testBit i = v.testBit i) (hbus : field w 9 3 = field v 9 3)
    (halu : field w 12 4 = field v 12 4) (hjump : w.testBit 16 = v.testBit 16)
    (hzero : w.testBit 17 = v.testBit 17) (hnext : field w 18 6 = field v 18 6) : w = v := by
  have hmod : w % 2 ^ 9 = v % 2 ^ 9 := by
    apply Nat.eq_of_testBit_eq
    intro i
    rw [Nat.testBit_mod_two_pow, Nat.testBit_mod_two_pow]
    by_cases hi : i < 9
    · rw [hlow i hi]
    · rw [decide_eq_false hi, Bool.false_and, Bool.false_and]
  rw [testBit_eq_field, testBit_eq_field, decide_eq_decide] at hjump hzero
  -- the remainder and the five quotients are the digits of the word in a mixed base
  unfold field at *
  omega

/-! ## Lines -/

theorem ControlLine.testBit_mask (l : ControlLine) (i : Nat) :
    l.mask.testBit i = decide (l.position = i) := by
  unfold mask
  rw [Nat.one_shiftLeft, Nat.testBit_two_pow]

theorem testBit_foldl_destinations (names : List Text) (word i : Nat) :
    (names.foldl (fun word t => if isMbr t then word
        else word ||| ((ControlLine.writeEnable? t).map ControlLine.mask).getD 0) word).testBit i =
      (word.testBit i || names.any fun t => !isMbr t &&
        (((ControlLine.writeEnable? t).map ControlLine.mask).getD 0).testBit i) := by
  induction names generalizing word with
  | nil => simp
  | cons t names ih =>
    rw [List.foldl_cons, ih, List.any_cons]
    cases isMbr t with
    | true => simp
    | false =>
      rw [if_neg (by simp), Nat.testBit_or, Bool.or_assoc]
      simp

/-- a bit is set by the names of its line, if that line is not the memory buffer register's -/
theorem testBit_destinationBits (names : List Text) (i : Nat) :
    (destinationBits names).testBit i = true ↔ ∃ l ∈ ControlLine.writeEnables, l ≠ .mbr ∧
      l.position = i ∧ ∃ t ∈ names, lower l.name = lower t := by
  unfold destinationBits
  rw [testBit_foldl_destinations, Nat.zero_testBit, Bool.false_or, List.any_eq_true]
  constructor
  · rintro ⟨t, ht, hbit⟩
    rw [Bool.and_eq_true, Bool.not_eq_true'] at hbit
    obtain ⟨hmbr, hbit⟩ := hbit
    cases hl : ControlLine.writeEnable? t with
    | none => simp [hl] at hbit
    | some l =>
      rw [hl, Option.map_some, Option.getD_some, ControlLine.testBit_mask,
        decide_eq_true_eq] at hbit
      obtain ⟨hmem, hname⟩ := mem_of_named? hl
      refine ⟨l, hmem, ?_, hbit, t, ht, hname⟩
      rintro rfl
      rw [isMbr, (sameLetters_iff _ _).mpr hname] at hmbr
      exact absurd hmbr (by simp)
  · rintro ⟨l, hmem, hne, hpos, t, ht, hname⟩
    have hl : ControlLine.writeEnable? t = some l :=
      (named?_eq_some_iff ControlLine.distinct t l).mpr ⟨hmem, hname⟩
    have hmbr : isMbr t = false := by
      rw [isMbr, Bool.eq_false_iff, Ne, sameLetters_iff]
      intro h
      exact hne (ControlLine.distinct l hmem .mbr (by decide) (hname.trans h.symm))
    refine ⟨t, ht, ?_⟩
    rw [hmbr, hl, Option.map_some, Option.getD_some, ControlLine.testBit_mask, hpos]
    simp

theorem testBit_destinationBits_position (names : List Text) (l : ControlLine)
    (hl : l ∈ ControlLine.writeEnables) (hne : l ≠ .mbr) :
    (destinationBits names).testBit l.position = true ↔ ∃ t ∈ names, lower l.name = lower t := by
  rw [testBit_destinationBits]
  constructor
  · rintro ⟨l', hl', -, hpos, h⟩
    have hinj : ∀ l ∈ ControlLine.writeEnables, ∀ l' ∈ ControlLine.writeEnables,
        l'.position = l.position → l' = l := by decide
    rw [hinj l hl l' hl' hpos] at h
    exact h
  · intro h
    exact ⟨l, hl, hne, rfl, h⟩

theorem testBit_destinationBits_eq_false (names : List Text) (i : Nat)
    (h : ∀ l ∈ ControlLine.writeEnables, l ≠ .mbr → l.position ≠ i) :
    (destinationBits names).testBit i = false := by
  rw [Bool.eq_false_iff, Ne, testBit_destinationBits]
  rintro ⟨l, hl, hne, hpos, -⟩
  exact h l hl hne hpos

theorem destinationBits_lt (names : List Text) : destinationBits names < 2 ^ 9 := by
  apply Nat.lt_pow_two_of_testBit
  intro i hi
  apply testBit_destinationBits_eq_false
  intro l hl _
  have hlt : ∀ l ∈ ControlLine.writeEnables, l.position < 9 := by decide
  have := hlt l hl
  omega

theorem destinationWarnings_eq (names : List Text) :
    destinationWarnings names =
      (names.filter fun t => Unnamed ControlLine.name ControlLine.writeEnables t).map
        .unknownRegister := by
  unfold destinationWarnings
  congr 1
  apply List.filter_congr
  intro t _
  rw [Bool.eq_iff_iff, Option.isNone_iff_eq_none, decide_eq_true_eq]
  exact named?_eq_none_iff ControlLine.name ControlLine.writeEnables t

/-! ## The fields side by side -/

/-- the memory lines of a record, once it is known which names and actions go together -/
theorem memoryBits?_spec (written : Bool) (action : MemoryAction) (m : Nat)
    (h : memoryBits? written action = some m) :
    m < 2 ^ 9 ∧ (m.testBit 1 = true ↔ written = true ∨ action = .read) ∧
      (m.testBit 8 = true ↔ written = true ∨ action = .write) ∧
      ∀ l ∈ ControlLine.writeEnables, l ≠ .mbr → m.testBit l.position = false := by
  cases written <;> cases action <;> simp only [memoryBits?, Option.some.injEq, reduceCtorEq] at h
  all_goals
    subst h
    decide

theorem memoryBits?_eq_none_iff (written : Bool) (action : MemoryAction) :
    memoryBits? written action = none ↔ written = true ∧ (action = .read ∨ action = .write) := by
  cases written <;> cases action <;> simp [memoryBits?]

def NextAddress.isExplicit : NextAddress → Bool
  | fromMemory => false
  | explicit _ => true

theorem NextAddress.isExplicit_iff (n : NextAddress) :
    n.isExplicit = true ↔ ∃ t, n = .explicit t := by
  cases n <;> simp [isExplicit]

theorem jumpBit_eq (n : NextAddress) : jumpBit n = n.isExplicit.toNat <<< 16 := by
  cases n <;> rfl

theorem busField_code (t : Option Text) :
    CodeOf BusSource.name BusSource.code BusSource.all t (busField t).1 :=
  namedField_code BusSource.name BusSource.code BusSource.all .unknownBusSource t

theorem aluField_code (t : Option Text) :
    CodeOf AluFunction.name AluFunction.code AluFunction.all t (aluField t).1 :=
  namedField_code AluFunction.name AluFunction.code AluFunction.all .unknownOperation t

theorem busField_lt (t : Option Text) : (busField t).1 < 2 ^ 3 :=
  (busField_code t).lt (by decide) (by decide)

theorem aluField_lt (t : Option Text) : (aluField t).1 < 2 ^ 4 :=
  (aluField_code t).lt (by decide) (by decide)

theorem nextField_eq (n : NextAddress) :
    (nextField n).1 = match n with
      | .fromMemory => 0
      | .explicit t => (microAddress? t).getD 0 % 64 := by
  cases n with
  | fromMemory => rfl
  | explicit t => cases h : microAddress? t <;> simp [nextField, h]

theorem nextField_lt (n : NextAddress) : (nextField n).1 < 2 ^ 6 := by
  rw [nextField_eq]
  cases n with
  | fromMemory => decide
  | explicit t => exact Nat.mod_lt _ (by decide)

namespace Record

theorem jumpZero_eq (r : Record) :
    (if r.jumpZero then ControlLine.jumpZero.mask else 0) = r.jumpZero.toNat <<< 17 := by
  cases r.jumpZero <;> rfl

theorem low_lt (r : Record) (m : Nat) (hm : m < 2 ^ 9) :
    destinationBits r.destinations ||| m < 2 ^ 9 :=
  Nat.or_lt_two_pow (destinationBits_lt _) hm

theorem word_eq (r : Record) (m : Nat) (hm : m < 2 ^ 9) :
    r.word m = (destinationBits r.destinations ||| m) + 2 ^ 9 * ((busField r.bus).1 +
      2 ^ 3 * ((aluField r.operation).1 + 2 ^ 4 * (r.next.isExplicit.toNat +
        2 * (r.jumpZero.toNat + 2 * (nextField r.next).1)))) := by
  have hlow := r.low_lt m hm
  have hbus := busField_lt r.bus
  have halu := aluField_lt r.operation
  have hjump := Bool.toNat_le r.next.isExplicit
  have hzero := Bool.toNat_le r.jumpZero
  unfold word
  -- every field is joined to a word that ends below it, so joining is adding
  rw [jumpBit_eq, jumpZero_eq, or_shiftLeft_eq _ _ 9 hlow, or_shiftLeft_eq _ _ 12 (by omega),
    or_shiftLeft_eq _ _ 16 (by omega), or_shiftLeft_eq _ _ 17 (by omega),
    or_shiftLeft_eq _ _ 18 (by omega)]
  ring

/-! ## What a record describes -/

/-- some entry of the register list is this name, in any case -/
def Writes (r : Record) (name : String) : Prop :=
  ∃ t ∈ r.destinations, lower name.toList = lower t

/-- the memory buffer register is written by name while the memory is used -/
def Unsupported (r : Record) : Prop :=
  r.Writes "MBR" ∧ (r.action = .read ∨ r.action = .write)

/-- the word that a record asks for -/
structure Describes (r : Record) (word : Nat) : Prop where
  lt : word < 2 ^ 24
  register : ∀ e ∈ [(0, "MAR"), (2, "PC"), (3, "SP"), (4, "B"), (5, "A"), (6, "BUF"), (7, "OUT")],
    word.testBit e.1 = true ↔ r.Writes e.2
  buffer : word.testBit 1 = true ↔ r.Writes "MBR" ∨ r.action = .read
  memWrite : word.testBit 8 = true ↔ r.Writes "MBR" ∨ r.action = .write
  bus : CodeOf BusSource.name BusSource.code BusSource.all r.bus (field word 9 3)
  alu : CodeOf AluFunction.name AluFunction.code AluFunction.all r.operation (field word 12 4)
  jump : word.testBit 16 = true ↔ ∃ t, r.next = .explicit t
  jumpZero : word.testBit 17 = r.jumpZero
  next : field word 18 6 = match r.next with
    | .fromMemory => 0
    | .explicit t => (microAddress? t).getD 0 % 64

/-- a record describes one word only -/
theorem Describes.unique {r : Record} {w v : Nat} (hw : r.Describes w) (hv : r.Describes v) :
    w = v := by
  have hreg : ∀ e ∈ [(0, "MAR"), (2, "PC"), (3, "SP"), (4, "B"), (5, "A"), (6, "BUF"), (7, "OUT")],
      w.testBit e.1 = v.testBit e.1 := by
    intro e he
    rw [Bool.eq_iff_iff, hw.register e he, hv.register e he]
  have hlow : ∀ i < 9, w.testBit i = v.testBit i := by
    intro i hi
    by_cases h1 : i = 1
    · rw [h1, Bool.eq_iff_iff, hw.buffer, hv.buffer]
    by_cases h8 : i = 8
    · rw [h8, Bool.eq_iff_iff, hw.memWrite, hv.memWrite]
    simp only [List.forall_mem_cons] at hreg
    interval_cases i <;> simp_all
  apply eq_of_fields hw.lt hv.lt hlow
  · exact hw.bus.unique BusSource.distinct hv.bus
  · exact hw.alu.unique AluFunction.distinct hv.alu
  · rw [Bool.eq_iff_iff, hw.jump, hv.jump]
  · rw [hw.jumpZero, hv.jumpZero]
  · rw [hw.next, hv.next]

theorem any_isMbr_iff (r : Record) : r.destinations.any isMbr = true ↔ r.Writes "MBR" := by
  rw [List.any_eq_true]
  unfold Writes
  simp only [isMbr, sameLetters_iff]
  rfl

theorem testBit_word_low (r : Record) (m : Nat) (hm : m < 2 ^ 9) (i : Nat) (hi : i < 9) :
    (r.word m).testBit i = ((destinationBits r.destinations).testBit i || m.testBit i) := by
  rw [r.word_eq m hm, testBit_add_high _ _ 9 i hi, Nat.testBit_or]

theorem word_fields (r : Record) (m : Nat) (hm : m < 2 ^ 9) :
    r.word m < 2 ^ 24 ∧ field (r.word m) 9 3 = (busField r.bus).1 ∧
      field (r.word m) 12 4 = (aluField r.operation).1 ∧
      field (r.word m) 16 1 = r.next.isExplicit.toNat ∧
      field (r.word m) 17 1 = r.jumpZero.toNat ∧
      field (r.word m) 18 6 = (nextField r.next).1 := by
  have hlow := r.low_lt m hm
  have hbus := busField_lt r.bus
  have halu := aluField_lt r.operation
  have hjump := Bool.toNat_le r.next.isExplicit
  have hzero := Bool.toNat_le r.jumpZero
  have hnext := nextField_lt r.next
  rw [r.word_eq m hm]
  unfold field
  omega

/-- the joined bits are the word that the record describes -/
theorem describes_word (r : Record) (m : Nat)
    (hm : memoryBits? (r.destinations.any isMbr) r.action = some m) : r.Describes (r.word m) := by
  obtain ⟨hmlt, hread, hwrite, hline⟩ := memoryBits?_spec _ _ _ hm
  obtain ⟨hlt, hbus, halu, hjump, hzero, hnext⟩ := r.word_fields m hmlt
  have hregister : ∀ l ∈ ControlLine.writeEnables, l ≠ .mbr → ((r.word m).testBit l.position = true
      ↔ ∃ t ∈ r.destinations, lower l.name = lower t) := by
    intro l hl hne
    have hpos : ∀ l ∈ ControlLine.writeEnables, l.position < 9 := by decide
    rw [r.testBit_word_low m hmlt _ (hpos l hl), hline l hl hne, Bool.or_false,
      testBit_destinationBits_position _ l hl hne]
  constructor
  case lt => exact hlt
  case register =>
    simp only [List.forall_mem_cons, List.not_mem_nil, false_implies, implies_true, and_true]
    exact ⟨hregister .mar (by decide) (by decide), hregister .pc (by decide) (by decide),
      hregister .sp (by decide) (by decide), hregister .b (by decide) (by decide),
      hregister .a (by decide) (by decide), hregister .buf (by decide) (by decide),
      hregister .out (by decide) (by decide)⟩
  case buffer =>
    rw [r.testBit_word_low m hmlt 1 (by decide),
      testBit_destinationBits_eq_false _ 1 (by decide), Bool.false_or, hread, any_isMbr_iff]
  case memWrite =>
    rw [r.testBit_word_low m hmlt 8 (by decide),
      testBit_destinationBits_eq_false _ 8 (by decide), Bool.false_or, hwrite, any_isMbr_iff]
  case bus =>
    rw [hbus]
    exact busField_code r.bus
  case alu =>
    rw [halu]
    exact aluField_code r.operation
  case jump =>
    rw [testBit_eq_field, hjump, ← NextAddress.isExplicit_iff]
    cases r.next.isExplicit <;> decide
  case jumpZero =>
    rw [testBit_eq_field, hzero]
    cases r.jumpZero <;> decide
  case next =>
    rw [hnext, nextField_eq]

/-- the warnings that a record deserves: one for every register name, bus source and operation
that no table has, in the order of the fields, and one for a next address that is no address of
the control store -/
def dueWarnings (r : Record) : List FieldWarning :=
  (r.destinations.filter fun t => Unnamed ControlLine.name ControlLine.writeEnables t).map
      .unknownRegister ++
    (r.bus.toList.filter fun t => Unnamed BusSource.name BusSource.all t).map .unknownBusSource ++
    (r.operation.toList.filter fun t => Unnamed AluFunction.name AluFunction.all t).map
      .unknownOperation ++
    match r.next with
    | .fromMemory => []
    | .explicit t =>
      match microAddress? t with
      | none => [.malformedNext t]
      | some v => if 63 < v then [.nextOutOfRange t] else []

theorem warnings_eq (r : Record) : r.warnings = r.dueWarnings := by
  have hbus : (busField r.bus).2 = _ :=
    namedField_warnings BusSource.name BusSource.code BusSource.all .unknownBusSource r.bus
  have halu : (aluField r.operation).2 = _ :=
    namedField_warnings AluFunction.name AluFunction.code AluFunction.all .unknownOperation
      r.operation
  unfold warnings dueWarnings
  rw [destinationWarnings_eq, hbus, halu]
  congr 1
  cases r.next with
  | fromMemory => rfl
  | explicit t =>
    cases h : microAddress? t with
    | none => simp [nextField, h]
    | some v =>
      by_cases hv : v < 64
      · have hnot : ¬ 63 < v := by omega
        simp [nextField, h, hv, hnot]
      · have hlt : 63 < v := by omega
        simp [nextField, h, hv, hlt]

end Record

theorem Record.memoryBits?_eq_none_iff_unsupported (r : Record) :
    memoryBits? (r.destinations.any isMbr) r.action = none ↔ r.Unsupported := by
  rw [memoryBits?_eq_none_iff, r.any_isMbr_iff]
  rfl

theorem encode_of_unsupported (r : Record) (h : r.Unsupported) :
    encode r = .error (.unsupportedCombination r.address true r.action) := by
  have hnone := r.memoryBits?_eq_none_iff_unsupported.mpr h
  have hwritten := r.any_isMbr_iff.mpr h.1
  rw [hwritten] at hnone
  simp only [encode, hwritten, hnone]

theorem encode_of_supported (r : Record) (h : ¬ r.Unsupported) :
    ∃ c, encode r = .ok c ∧ r.Describes c.word ∧ c.warnings = r.dueWarnings := by
  cases hm : memoryBits? (r.destinations.any isMbr) r.action with
  | none => exact absurd (r.memoryBits?_eq_none_iff_unsupported.mp hm) h
  | some m =>
    refine ⟨⟨r.word m, r.warnings⟩, ?_, r.describes_word m hm, r.warnings_eq⟩
    simp only [encode, hm]

theorem describes_of_encode {r : Record} {c : Encoded} (h : encode r = .ok c) :
    ¬ r.Unsupported ∧ r.Describes c.word ∧ c.warnings = r.warnings := by
  have hsupported : ¬ r.Unsupported := fun hun =>
    absurd (h.symm.trans (encode_of_unsupported r hun)) (by simp)
  obtain ⟨c', hc', hdescribes, hwarnings⟩ := encode_of_supported r hsupported
  obtain rfl := Except.ok.inj (hc'.symm.trans h)
  exact ⟨hsupported, hdescribes, hwarnings.trans r.warnings_eq.symm⟩

/-- **A record is encoded as it describes, or refused.**  The one reason to refuse it is the memory
buffer register written by name while the memory reads or writes.  Every other record has exactly
the word that it describes and exactly the warnings that it deserves. -/
theorem encode_exact (r : Record) :
    (∀ e, encode r = .error e ↔
      r.Unsupported ∧ e = .unsupportedCombination r.address true r.action) ∧
    ∀ c, encode r = .ok c ↔
      ¬ r.Unsupported ∧ r.Describes c.word ∧ c.warnings = r.dueWarnings := by
  by_cases hun : r.Unsupported
  · have hencode := encode_of_unsupported r hun
    rw [hencode]
    refine ⟨fun e => ⟨fun h => ⟨hun, (Except.error.inj h).symm⟩, ?_⟩, fun c => ⟨?_, ?_⟩⟩
    · rintro ⟨-, rfl⟩
      rfl
    · intro h
      exact absurd h (by simp)
    · rintro ⟨hsup, -⟩
      exact absurd hun hsup
  · obtain ⟨c, hencode, hword, hwarnings⟩ := encode_of_supported r hun
    rw [hencode]
    refine ⟨fun e => ⟨?_, ?_⟩, fun c' => ⟨?_, ?_⟩⟩
    · intro h
      exact absurd h (by simp)
    · rintro ⟨hun', -⟩
      exact absurd hun' hun
    · intro h
      obtain rfl := Except.ok.inj h
      exact ⟨hun, hword, hwarnings⟩
    · rintro ⟨-, hword', hwarnings'⟩
      obtain ⟨word, warnings⟩ := c'
      obtain rfl : c.word = word := hword.unique hword'
      obtain rfl : warnings = c.warnings := hwarnings'.trans hwarnings.symm
      rfl

end TinyCpu
