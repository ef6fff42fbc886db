import TinyCpu.Proofs.Microcode.Address
import TinyCpu.Proofs.Text.Numeral

/-!
# The format of control words

Which numbers are control words, and which records have one control word.

* `IsControlWord`       no free code in a field, and a next address only with the jump line;
* `Record.ofWord`       a record for a word, made of the names of its fields;
* `encode_ofWord`       a word of the format is the word of this record, without warnings;
* `Record.Synonymous`   two records that differ in synonyms only;
* `encode_format`       the words of records are those of the format, and two records without
                        warnings have one word if they are synonymous, and not otherwise.
-/

namespace TinyCpu
open Text

/-- a number that follows the format of control words -/
structure IsControlWord (word : Nat) : Prop where
  lt : word < 2 ^ 24
  bus : field word 9 3 ≠ 7
  alu : field word 12 4 ≤ 8
  next : word.testBit 16 = false → field word 18 6 = 0

theorem field_lt (word lo width : Nat) : field word lo width < 2 ^ width :=
  Nat.mod_lt _ (Nat.two_pow_pos width)

theorem IsControlWord.bus_lt {w : Nat} (h : IsControlWord w) : field w 9 3 < 7 :=
  Nat.lt_of_le_of_ne (Nat.le_of_lt_succ (field_lt w 9 3)) h.bus

theorem IsControlWord.alu_lt {w : Nat} (h : IsControlWord w) : field w 12 4 < 9 :=
  Nat.lt_succ_of_le h.alu

theorem BusSource.map_code : BusSource.all.map BusSource.code = List.range 7 := by decide

theorem AluFunction.map_code : AluFunction.all.map AluFunction.code = List.range 9 := by decide

theorem Record.Describes.isControlWord {r : Record} {w : Nat} (h : r.Describes w) :
    IsControlWord w where
  lt := h.lt
  bus := Nat.ne_of_lt (h.bus.lt (by decide) (by decide))
  alu := Nat.le_of_lt_succ (h.alu.lt (by decide) (by decide))
  next := by
    intro hjump
    have hnext := h.next
    cases hr : r.next with
    | fromMemory => rwa [hr] at hnext
    | explicit t => exact absurd (h.jump.mpr ⟨t, hr⟩) (by simp [hjump])

theorem microAddress?_hex (n : Nat) (h : n < 2 ^ 63) :
    microAddress? ('0' :: 'x' :: hex n) = some n := by
  have hall : ('x' :: hexDigits).all (fun c => !isBlank c) = true := by decide
  have hblank : ∀ c ∈ '0' :: 'x' :: hex n, isBlank c = false := by
    intro c hc
    have hmem : c ∈ 'x' :: hexDigits := by
      obtain rfl | rfl | hc := by simpa only [List.mem_cons] using hc
      · decide
      · exact List.mem_cons_self
      · exact List.mem_cons_of_mem _ (mem_hexDigits_of_mem_hex n c hc)
    simpa using List.all_eq_true.mp hall c hmem
  unfold microAddress?
  rw [trim_of_trimmed _ (trimmed_of_forall _ hblank)]
  show (natural? 16 (hex n)).filter (· < literalLimit) = some n
  rw [natural?_hex, literalLimit_eq, Option.filter_some, if_pos (decide_eq_true h)]

/-! ## Names without warnings -/

/-- every text is a name of the table, in any case -/
def AllNamed {α : Type} (name : α → Text) (table : List α) (ts : List Text) : Prop :=
  ∀ t ∈ ts, ∃ x ∈ table, lower (name x) = lower t

theorem map_unnamed_eq_nil_iff {α : Type} (name : α → Text) (table : List α)
    (warn : Text → FieldWarning) (ts : List Text) :
    (ts.filter fun t => Unnamed name table t).map warn = [] ↔ AllNamed name table ts := by
  rw [List.map_eq_nil_iff, List.filter_eq_nil_iff]
  apply forall₂_congr
  intro t _
  rw [decide_eq_true_iff]
  unfold Unnamed
  push Not
  rfl

theorem nextField_warnings_eq_nil_iff (n : NextAddress) :
    (nextField n).2 = [] ↔
      ∀ t, n = .explicit t → ∃ v, microAddress? t = some v ∧ v ≤ 63 := by
  cases n with
  | fromMemory => simp [nextField]
  | explicit t =>
    cases hv : microAddress? t with
    | none => simp [nextField, hv]
    | some v => simp [nextField, hv, Nat.lt_succ_iff]

namespace Record

/-- every name of the record is in its table, and its next address is that of a word -/
structure Known (r : Record) : Prop where
  destinations : AllNamed ControlLine.name ControlLine.writeEnables r.destinations
  bus : AllNamed BusSource.name BusSource.all r.bus.toList
  operation : AllNamed AluFunction.name AluFunction.all r.operation.toList
  next : ∀ t, r.next = .explicit t → ∃ v, microAddress? t = some v ∧ v ≤ 63

theorem warnings_eq_nil_iff (r : Record) : r.warnings = [] ↔ r.Known := by
  have hbus : (busField r.bus).2 = _ :=
    namedField_warnings BusSource.name BusSource.code BusSource.all .unknownBusSource r.bus
  have halu : (aluField r.operation).2 = _ :=
    namedField_warnings AluFunction.name AluFunction.code AluFunction.all .unknownOperation
      r.operation
  unfold warnings
  rw [List.append_eq_nil_iff, List.append_eq_nil_iff, List.append_eq_nil_iff,
    destinationWarnings_eq, hbus, halu, map_unnamed_eq_nil_iff, map_unnamed_eq_nil_iff,
    map_unnamed_eq_nil_iff, nextField_warnings_eq_nil_iff]
  exact ⟨fun h => ⟨h.1.1.1, h.1.1.2, h.1.2, h.2⟩,
    fun h => ⟨⟨⟨h.destinations, h.bus⟩, h.operation⟩, h.next⟩⟩

end Record

/-! ## Codes of names -/

section
variable {α : Type} {name : α → Text} {code : α → Nat} {table : List α}

theorem allNamed_getElem? (i : Nat) : AllNamed name table (table[i]?.map name).toList := by
  intro t ht
  obtain ⟨x, hx, rfl⟩ := Option.map_eq_some_iff.mp (Option.mem_toList.mp ht)
  exact ⟨x, List.mem_of_getElem? hx, rfl⟩

theorem codeOf_getElem? {n : Nat} (hcode : table.map code = List.range n) (i : Nat) (hi : i < n) :
    CodeOf name code table (table[i]?.map name) i := by
  have hlt : i < table.length := by
    rw [← List.length_map (f := code), hcode, List.length_range]
    exact hi
  have hi' : code table[i] = i := by
    rw [← List.getElem_map code, List.getElem_of_eq hcode, List.getElem_range]
    simpa using hlt
  have hknown : CodeOf name code table (some (name table[i])) (code table[i]) :=
    .known _ _ (List.getElem_mem hlt) rfl
  rw [List.getElem?_eq_getElem hlt]
  rwa [hi'] at hknown

section
variable {x₀ : α} (hx₀ : x₀ ∈ table) (hzero : code x₀ = 0)
include hx₀ hzero

/-- a name without a warning is that of a member, a missing name being that of code zero -/
theorem CodeOf.exists_member {t : Option Text} {m : Nat} (ht : AllNamed name table t.toList)
    (h : CodeOf name code table t m) :
    ∃ x ∈ table, lower (name x) = lower (t.getD (name x₀)) ∧ code x = m := by
  cases h with
  | absent => exact ⟨x₀, hx₀, rfl, hzero⟩
  | unknown u hu =>
    obtain ⟨x, hx, hname⟩ := ht u (List.mem_singleton.mpr rfl)
    exact absurd hname (hu x hx)
  | known u x hx hname => exact ⟨x, hx, hname, rfl⟩

/-- names without a warning have one code if and only if they are equal up to case -/
theorem CodeOf.eq_iff (hd : Distinct name table)
    (hinj : ∀ x ∈ table, ∀ y ∈ table, code x = code y → x = y) {t t' : Option Text} {m m' : Nat}
    (ht : AllNamed name table t.toList) (ht' : AllNamed name table t'.toList)
    (h : CodeOf name code table t m) (h' : CodeOf name code table t' m') :
    m = m' ↔ lower (t.getD (name x₀)) = lower (t'.getD (name x₀)) := by
  obtain ⟨x, hx, hname, rfl⟩ := h.exists_member hx₀ hzero ht
  obtain ⟨x', hx', hname', rfl⟩ := h'.exists_member hx₀ hzero ht'
  rw [← hname, ← hname']
  refine ⟨fun hc => ?_, fun hn => ?_⟩
  · rw [hinj x hx x' hx' hc]
  · rw [hd x hx x' hx' hn]

end
end

/-! ## Lines and what they come from -/

/-- the line is set by its name in the records of a word: the memory buffer register is named only
if the memory writes as well -/
def ControlLine.namedIn (word : Nat) (l : ControlLine) : Bool :=
  word.testBit l.position && (l != .mbr || word.testBit ControlLine.memWrite.position)

theorem ControlLine.namedIn_of_ne {l : ControlLine} (h : l ≠ .mbr) (w : Nat) :
    l.namedIn w = w.testBit l.position := by
  unfold namedIn
  rw [bne_iff_ne.mpr h, Bool.true_or, Bool.and_true]

theorem ControlLine.namedIn_mbr (w : Nat) :
    ControlLine.mbr.namedIn w = (w.testBit 1 && w.testBit 8) := rfl

/-- what the memory does, by the lines of the memory buffer register and of the memory -/
def MemoryAction.ofLines : (buffer memWrite : Bool) → MemoryAction
  | true, false => .read
  | false, true => .write
  | _, _ => .idle

namespace Record

theorem Describes.writes_mbr_iff {r : Record} {w : Nat} (h : r.Describes w) :
    r.Writes "MBR" ↔ w.testBit 1 = true ∧ w.testBit 8 = true := by
  rw [h.buffer, h.memWrite]
  refine ⟨fun hw => ⟨.inl hw, .inl hw⟩, fun hw => ?_⟩
  obtain ⟨hw | hread, hw' | hwrite⟩ := hw
  · exact hw
  · exact hw
  · exact hw'
  · exact absurd (hread.symm.trans hwrite) (by decide)

/-- the registers of a description are the lines other than the memory buffer register's -/
theorem register_iff_lines (r : Record) (w : Nat) :
    (∀ e ∈ [(0, "MAR"), (2, "PC"), (3, "SP"), (4, "B"), (5, "A"), (6, "BUF"), (7, "OUT")],
      w.testBit e.1 = true ↔ r.Writes e.2) ↔
    ∀ l ∈ ControlLine.writeEnables, l ≠ .mbr →
      (w.testBit l.position = true ↔ ∃ t ∈ r.destinations, lower l.name = lower t) := by
  simp only [ControlLine.writeEnables, List.forall_mem_cons, ne_eq, not_true, reduceCtorEq,
    not_false_eq_true, true_implies, false_implies, true_and, List.not_mem_nil, implies_true,
    and_true]
  exact Iff.rfl

theorem Describes.writes_iff {r : Record} {w : Nat} (h : r.Describes w) (l : ControlLine)
    (hl : l ∈ ControlLine.writeEnables) :
    (∃ t ∈ r.destinations, lower l.name = lower t) ↔ l.namedIn w = true := by
  by_cases hmbr : l = .mbr
  · subst hmbr
    rw [ControlLine.namedIn_mbr, Bool.and_eq_true]
    exact h.writes_mbr_iff
  · rw [ControlLine.namedIn_of_ne hmbr]
    exact ((r.register_iff_lines w).mp h.register l hl hmbr).symm

/-- the names in a record without warnings are those of the lines that its word has by name -/
theorem Describes.mem_destinations_iff {r : Record} {w : Nat} (h : r.Describes w) (hk : r.Known)
    (name : Text) :
    name ∈ r.destinations.map lower ↔
      ∃ l ∈ ControlLine.writeEnables, lower l.name = name ∧ l.namedIn w = true := by
  rw [List.mem_map]
  refine ⟨fun hname => ?_, fun hline => ?_⟩
  · obtain ⟨t, ht, rfl⟩ := hname
    obtain ⟨l, hl, hlt⟩ := hk.destinations t ht
    exact ⟨l, hl, hlt, (h.writes_iff l hl).mp ⟨t, ht, hlt⟩⟩
  · obtain ⟨l, hl, rfl, hin⟩ := hline
    obtain ⟨t, ht, hlt⟩ := (h.writes_iff l hl).mpr hin
    exact ⟨t, ht, hlt.symm⟩

/-- the lines tell the memory action, once the record is not refused -/
theorem Describes.action_eq {r : Record} {w : Nat} (h : r.Describes w) (hs : ¬ r.Unsupported) :
    r.action = MemoryAction.ofLines (w.testBit 1) (w.testBit 8) := by
  by_cases hw : r.Writes "MBR"
  · obtain ⟨h1, h8⟩ := h.writes_mbr_iff.mp hw
    rw [h1, h8]
    cases ha : r.action with
    | idle => rfl
    | read => exact absurd ⟨hw, .inl ha⟩ hs
    | write => exact absurd ⟨hw, .inr ha⟩ hs
  · have h1 : w.testBit 1 = decide (r.action = .read) := by
      rw [Bool.eq_iff_iff, h.buffer, decide_eq_true_eq, or_iff_right hw]
    have h8 : w.testBit 8 = decide (r.action = .write) := by
      rw [Bool.eq_iff_iff, h.memWrite, decide_eq_true_eq, or_iff_right hw]
    rw [h1, h8]
    cases r.action <;> rfl

/-! ## A record for a word -/

/-- a record for a word, made of the names of its fields -/
def ofWord (word : Nat) : Record where
  address := "0x00".toList
  bus := BusSource.all[field word 9 3]?.map BusSource.name
  writeTo := some ((ControlLine.writeEnables.filter (·.namedIn word)).map ControlLine.name)
  operation := AluFunction.all[field word 12 4]?.map AluFunction.name
  action := .ofLines (word.testBit 1) (word.testBit 8)
  next := if word.testBit 16 then .explicit ('0' :: 'x' :: hex (field word 18 6)) else .fromMemory
  jumpZero := word.testBit 17

theorem next_ofWord (w : Nat) :
    (ofWord w).next = if w.testBit 16 then .explicit ('0' :: 'x' :: hex (field w 18 6))
      else .fromMemory := rfl

theorem writes_ofWord_iff (w : Nat) (l : ControlLine) (hl : l ∈ ControlLine.writeEnables) :
    (∃ t ∈ (ofWord w).destinations, lower l.name = lower t) ↔ l.namedIn w = true := by
  refine ⟨fun h => ?_, fun hin => ?_⟩
  · obtain ⟨t, ht, hname⟩ := h
    obtain ⟨l', hl', rfl⟩ := List.mem_map.mp ht
    obtain ⟨hmem, hin⟩ := List.mem_filter.mp hl'
    rwa [ControlLine.distinct l hl l' hmem hname]
  · exact ⟨l.name, List.mem_map_of_mem (List.mem_filter.mpr ⟨hl, hin⟩), rfl⟩

theorem writes_mbr_ofWord_iff (w : Nat) :
    (ofWord w).Writes "MBR" ↔ w.testBit 1 = true ∧ w.testBit 8 = true := by
  have h := writes_ofWord_iff w .mbr (by decide)
  rwa [ControlLine.namedIn_mbr, Bool.and_eq_true] at h

theorem not_unsupported_ofWord (w : Nat) : ¬ (ofWord w).Unsupported := by
  intro h
  obtain ⟨h1, h8⟩ := (writes_mbr_ofWord_iff w).mp h.1
  have haction : (ofWord w).action = .idle := by
    show MemoryAction.ofLines (w.testBit 1) (w.testBit 8) = .idle
    rw [h1, h8]
    rfl
  have huse := h.2
  rw [haction] at huse
  exact absurd huse (by decide)

theorem known_ofWord (w : Nat) : (ofWord w).Known where
  destinations := by
    intro t ht
    obtain ⟨l, hl, rfl⟩ := List.mem_map.mp ht
    exact ⟨l, (List.mem_filter.mp hl).1, rfl⟩
  bus := allNamed_getElem? _
  operation := allNamed_getElem? _
  next := by
    intro t ht
    have hlt := field_lt w 18 6
    rw [next_ofWord] at ht
    split at ht
    · rw [← NextAddress.explicit.inj ht]
      exact ⟨_, microAddress?_hex _ (by omega), by omega⟩
    · exact absurd ht (by simp)

theorem describes_ofWord (w : Nat) (h : IsControlWord w) : (ofWord w).Describes w where
  lt := h.lt
  register := by
    rw [register_iff_lines]
    intro l hl hne
    rw [writes_ofWord_iff w l hl, ControlLine.namedIn_of_ne hne]
  buffer := by
    rw [writes_mbr_ofWord_iff]
    show _ ↔ _ ∨ MemoryAction.ofLines (w.testBit 1) (w.testBit 8) = .read
    cases w.testBit 1 <;> cases w.testBit 8 <;> decide
  memWrite := by
    rw [writes_mbr_ofWord_iff]
    show _ ↔ _ ∨ MemoryAction.ofLines (w.testBit 1) (w.testBit 8) = .write
    cases w.testBit 1 <;> cases w.testBit 8 <;> decide
  bus := codeOf_getElem? BusSource.map_code _ h.bus_lt
  alu := codeOf_getElem? AluFunction.map_code _ h.alu_lt
  jump := by
    rw [next_ofWord]
    cases w.testBit 16 <;> simp
  jumpZero := rfl
  next := by
    have hlt := field_lt w 18 6
    rw [← nextField_eq, next_ofWord]
    cases hj : w.testBit 16 with
    | false => exact h.next hj
    | true =>
      rw [if_pos rfl, nextField_eq]
      show field w 18 6 = (microAddress? ('0' :: 'x' :: hex (field w 18 6))).getD 0 % 64
      rw [microAddress?_hex _ (by omega)]
      exact (Nat.mod_eq_of_lt hlt).symm

end Record

/-- every word of the format is the word of a record without warnings -/
theorem encode_ofWord (w : Nat) (h : IsControlWord w) : encode (.ofWord w) = .ok ⟨w, []⟩ := by
  have hdescribes := Record.describes_ofWord w h
  obtain ⟨c, hc, hword, hwarnings⟩ := encode_of_supported _ (Record.not_unsupported_ofWord w)
  rw [hc, ← hword.unique hdescribes]
  rw [← Record.warnings_eq, (Record.warnings_eq_nil_iff _).mpr (Record.known_ofWord w)]
    at hwarnings
  rw [← hwarnings]

/-! ## Synonyms -/

/-- both next addresses come from memory, or both are literals of one value -/
inductive NextAddress.SameTarget : NextAddress → NextAddress → Prop
  | fromMemory : SameTarget .fromMemory .fromMemory
  | explicit (t t' : Text) (v : Nat) (h : HexLiteral (trim t) v) (h' : HexLiteral (trim t') v) :
      SameTarget (.explicit t) (.explicit t')

namespace Record

/-- the records differ at most in case, order and repetition of names, in names left out that
stand for `A`, and in how a next address is written; their titles and addresses may differ -/
structure Synonymous (r r' : Record) : Prop where
  destinations : ∀ name, name ∈ r.destinations.map lower ↔ name ∈ r'.destinations.map lower
  action : r.action = r'.action
  bus : lower (r.bus.getD "A".toList) = lower (r'.bus.getD "A".toList)
  operation : lower (r.operation.getD "A".toList) = lower (r'.operation.getD "A".toList)
  jumpZero : r.jumpZero = r'.jumpZero
  next : r.next.SameTarget r'.next

theorem writes_iff_mem (r : Record) (name : String) :
    r.Writes name ↔ lower name.toList ∈ r.destinations.map lower := by
  unfold Writes
  rw [List.mem_map]
  simp only [eq_comm]

theorem Describes.explicit {r : Record} {w : Nat} (h : r.Describes w) (hk : r.Known) {t : Text}
    (ht : r.next = .explicit t) : HexLiteral (trim t) (field w 18 6) := by
  obtain ⟨v, hv, hle⟩ := hk.next t ht
  have hnext : field w 18 6 = (microAddress? t).getD 0 % 64 := by
    have hnext := h.next
    rw [ht] at hnext
    exact hnext
  rw [hnext, hv, Option.getD_some, Nat.mod_eq_of_lt (Nat.lt_succ_of_le hle)]
  exact ((microAddress?_eq_some_iff t v).mp hv).1

section
variable {r r' : Record} {w w' : Nat} (h : r.Describes w) (h' : r'.Describes w')
  (hk : r.Known) (hk' : r'.Known)
include h h' hk hk'

theorem Describes.bus_eq_iff :
    field w 9 3 = field w' 9 3 ↔
      lower (r.bus.getD "A".toList) = lower (r'.bus.getD "A".toList) := by
  have ha : BusSource.a ∈ BusSource.all := by decide
  exact CodeOf.eq_iff ha rfl BusSource.distinct (by decide) hk.bus hk'.bus h.bus h'.bus

theorem Describes.alu_eq_iff :
    field w 12 4 = field w' 12 4 ↔
      lower (r.operation.getD "A".toList) = lower (r'.operation.getD "A".toList) := by
  have ha : AluFunction.a ∈ AluFunction.all := by decide
  exact CodeOf.eq_iff ha rfl AluFunction.distinct (by decide) hk.operation hk'.operation h.alu
    h'.alu

theorem Describes.synonymous (hs : ¬ r.Unsupported) (hs' : ¬ r'.Unsupported) (hw : w = w') :
    r.Synonymous r' := by
  subst hw
  refine ⟨fun name => ?_, ?_, ?_, ?_, ?_, ?_⟩
  · rw [h.mem_destinations_iff hk, h'.mem_destinations_iff hk']
  · rw [h.action_eq hs, h'.action_eq hs']
  · exact (h.bus_eq_iff h' hk hk').mp rfl
  · exact (h.alu_eq_iff h' hk hk').mp rfl
  · rw [← h.jumpZero, ← h'.jumpZero]
  · have hjump := h.jump.symm.trans h'.jump
    cases hr : r.next with
    | fromMemory =>
      cases hr' : r'.next with
      | fromMemory => exact .fromMemory
      | explicit t' => simp [hr, hr'] at hjump
    | explicit t =>
      cases hr' : r'.next with
      | fromMemory => simp [hr, hr'] at hjump
      | explicit t' => exact .explicit t t' _ (h.explicit hk hr) (h'.explicit hk' hr')

theorem Describes.next_of_sameTarget (hsame : r.next.SameTarget r'.next) :
    ((∃ t, r.next = .explicit t) ↔ ∃ t, r'.next = .explicit t) ∧
      field w 18 6 = field w' 18 6 := by
  have hnext := h.next
  have hnext' := h'.next
  generalize hn : r.next = n at hsame hnext
  generalize hn' : r'.next = n' at hsame hnext'
  cases hsame with
  | fromMemory => exact ⟨Iff.rfl, hnext.trans hnext'.symm⟩
  | explicit t t' v hv hv' =>
    refine ⟨by simp, ?_⟩
    rw [(h.explicit hk hn).unique hv, (h'.explicit hk' hn').unique hv']

theorem Describes.eq_of_synonymous (hsyn : r.Synonymous r') : w = w' := by
  have hwrites : ∀ name, r.Writes name ↔ r'.Writes name := by
    intro name
    rw [writes_iff_mem, writes_iff_mem, hsyn.destinations]
  obtain ⟨hnext, htarget⟩ := h.next_of_sameTarget h' hk hk' hsyn.next
  have hdescribes : r'.Describes w := by
    constructor
    case lt => exact h.lt
    case register => exact fun e he => (h.register e he).trans (hwrites e.2)
    case buffer => rw [h.buffer, hwrites, hsyn.action]
    case memWrite => rw [h.memWrite, hwrites, hsyn.action]
    case bus => exact (h.bus_eq_iff h' hk hk').mpr hsyn.bus ▸ h'.bus
    case alu => exact (h.alu_eq_iff h' hk hk').mpr hsyn.operation ▸ h'.alu
    case jump => exact h.jump.trans hnext
    case jumpZero => rw [h.jumpZero, hsyn.jumpZero]
    case next => exact htarget.trans h'.next
  exact hdescribes.unique h'

end
end Record

/-- **The format of control words is exact and loses nothing but synonyms.**  The words of records
are the numbers of the format: each successful encoding gives one, and each of them is the word of
a record without warnings.  Two records without warnings have one word if and only if they are
synonymous. -/
theorem encode_format :
    (∀ r c, encode r = .ok c → IsControlWord c.word) ∧
    (∀ w, IsControlWord w → ∃ r, encode r = .ok ⟨w, []⟩) ∧
    ∀ r r' w w', encode r = .ok ⟨w, []⟩ → encode r' = .ok ⟨w', []⟩ →
      (w = w' ↔ r.Synonymous r') := by
  refine ⟨fun r c hc => (describes_of_encode hc).2.1.isControlWord,
    fun w hw => ⟨_, encode_ofWord w hw⟩, fun r r' w w' hr hr' => ?_⟩
  obtain ⟨hs, h, hwarnings⟩ := describes_of_encode hr
  obtain ⟨hs', h', hwarnings'⟩ := describes_of_encode hr'
  have hk := r.warnings_eq_nil_iff.mp hwarnings.symm
  have hk' := r'.warnings_eq_nil_iff.mp hwarnings'.symm
  exact ⟨h.synonymous h' hk hk' hs hs', h.eq_of_synonymous h' hk hk'⟩

/-- a memory read from the stack pointer, with a jump -/
def Record.stackRead : Record where
  address := "0x00".toList
  bus := some "SP".toList
  writeTo := some ["BUF".toList, "mar".toList]
  operation := some "A".toList
  action := .read
  next := .explicit "0x1f".toList

/-- the same word by other names, without the operation, with zeros in the next address -/
def Record.stackReadRespelled : Record where
  address := "0x01".toList
  bus := some "sp".toList
  writeTo := some ["MAR".toList, "Buf".toList, "MAR".toList]
  action := .read
  next := .explicit " 0X001F ".toList

theorem encode_format_stackRead :
    encode .stackRead = .ok ⟨0x7D0443, []⟩ ∧ encode .stackReadRespelled = .ok ⟨0x7D0443, []⟩ ∧
      Record.stackRead.Synonymous .stackReadRespelled := by
  have h : encode .stackRead = .ok ⟨0x7D0443, []⟩ := by decide +kernel
  have h' : encode .stackReadRespelled = .ok ⟨0x7D0443, []⟩ := by decide +kernel
  exact ⟨h, h', (encode_format.2.2 _ _ _ _ h h').mp rfl⟩

end TinyCpu
