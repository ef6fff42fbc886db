import TinyCpu.Proofs.Microcode.Rom
import TinyCpu.Proofs.Text.Literal

/-!
# Micro-addresses by their value

The address of a record and an explicit next address are hexadecimal literals of any length.

* `CountsAs`, `CountsAsNone`   what becomes of a text with a value and of one without, in both
                      places;
* `encode_explicit`   the jump line, the field and the warnings of an explicit next address;
* `microAddress_judged`   a literal counts by its value if 64 signed bits hold it, and every other
                      text counts as no address.
-/

namespace TinyCpu
open Text

theorem microAddress?_eq_some_iff (t : Text) (v : Nat) :
    microAddress? t = some v ↔ HexLiteral (trim t) v ∧ v < 2 ^ 63 :=
  hex?_eq_some_iff (trim t) v

/-! ## Explicit next addresses -/

def FieldWarning.isNext : FieldWarning → Bool
  | nextOutOfRange _ => true
  | malformedNext _ => true
  | _ => false

theorem filter_isNext_map {α : Type} (warn : α → FieldWarning)
    (h : ∀ x, (warn x).isNext = false) (xs : List α) :
    (xs.map warn).filter FieldWarning.isNext = [] := by
  rw [List.filter_eq_nil_iff]
  intro w hw
  obtain ⟨x, -, rfl⟩ := List.mem_map.mp hw
  rw [h x]
  exact Bool.false_ne_true

theorem Record.filter_isNext_dueWarnings (r : Record) (t : Text) (h : r.next = .explicit t) :
    r.dueWarnings.filter FieldWarning.isNext =
      match microAddress? t with
      | none => [.malformedNext t]
      | some v => if 63 < v then [.nextOutOfRange t] else [] := by
  unfold dueWarnings
  rw [h, List.filter_append, List.filter_append, List.filter_append,
    filter_isNext_map _ (fun _ => rfl), filter_isNext_map _ (fun _ => rfl),
    filter_isNext_map _ (fun _ => rfl)]
  show (match microAddress? t with
    | none => [FieldWarning.malformedNext t]
    | some v => if 63 < v then [FieldWarning.nextOutOfRange t] else []).filter
      FieldWarning.isNext = _
  cases microAddress? t with
  | none => rfl
  | some v =>
    show (if 63 < v then [FieldWarning.nextOutOfRange t] else []).filter FieldWarning.isNext
      = if 63 < v then [FieldWarning.nextOutOfRange t] else []
    split <;> rfl

/-- the explicit next address `t` of a record sets the jump line, and gives this field and these
warnings -/
def Jumps (t : Text) (target : Nat) (warnings : List FieldWarning) : Prop :=
  ∀ r : Record, r.next = .explicit t → ¬ r.Unsupported →
    ∃ c, encode r = .ok c ∧ c.word.testBit 16 = true ∧ field c.word 18 6 = target ∧
      c.warnings.filter FieldWarning.isNext = warnings

theorem encode_explicit (t : Text) :
    Jumps t ((microAddress? t).getD 0 % 64)
      (match microAddress? t with
        | none => [.malformedNext t]
        | some v => if 63 < v then [.nextOutOfRange t] else []) := by
  intro r hnext hsupported
  obtain ⟨c, hc, hdescribes, hwarnings⟩ := encode_of_supported r hsupported
  have htarget := hdescribes.next
  rw [hnext] at htarget
  refine ⟨c, hc, hdescribes.jump.mpr ⟨t, hnext⟩, htarget, ?_⟩
  rw [hwarnings, r.filter_isNext_dueWarnings t hnext]

/-! ## Texts as addresses -/

/-- the text counts as the number `v`: as the address of a record up to 63, and modulo 64 as a next
address, with a warning above 63 -/
structure CountsAs (t : Text) (v : Nat) : Prop where
  accepted : v ≤ 63 → ∀ r : Record, r.address = t → ∃ a, r.romAddress = .ok a ∧ a.val = v
  refused : 63 < v → ∀ r : Record, r.address = t →
    r.romAddress = .error (.addressOutOfRange t r.title)
  next : Jumps t (v % 64) (if 63 < v then [.nextOutOfRange t] else [])

/-- the text counts as no address: no record can have it, and as a next address it is zero, with
one warning -/
structure CountsAsNone (t : Text) : Prop where
  refused : ∀ r : Record, r.address = t → r.romAddress = .error (.malformedAddress t r.title)
  next : Jumps t 0 [.malformedNext t]

theorem countsAs_of_microAddress? (t : Text) (v : Nat) (h : microAddress? t = some v) :
    CountsAs t v := by
  constructor
  case accepted =>
    rintro hv r rfl
    have hlt : v < romWords := Nat.lt_succ_of_le hv
    exact ⟨⟨v, hlt⟩, (r.romAddress_eq_ok_iff _).mpr h, rfl⟩
  case refused =>
    rintro hv r rfl
    exact (r.romAddress_eq_error_iff _).mpr (.inr ⟨v, h, hv, rfl⟩)
  case next =>
    have hjumps := encode_explicit t
    rw [h] at hjumps
    exact hjumps

theorem countsAsNone_of_microAddress? (t : Text) (h : microAddress? t = none) :
    CountsAsNone t := by
  constructor
  case refused =>
    rintro r rfl
    exact (r.romAddress_eq_error_iff _).mpr (.inl ⟨h, rfl⟩)
  case next =>
    have hjumps := encode_explicit t
    rw [h] at hjumps
    exact hjumps

theorem NextAddress.ofText_eq_explicit_iff (t : Text) :
    ofText t = .explicit t ↔ lower (trim t) ≠ "mbr".toList := by
  have hsentinel : lower sentinel = "mbr".toList := by decide
  unfold ofText
  rw [← hsentinel, Ne, ← sameLetters_iff]
  split
  · next h => simp [h]
  · next h => simp [h]

/-- **A micro-address of up to 64 signed bits counts by its value.**  A text that is a hexadecimal
literal between blanks counts as the value of the literal, however many digits it has, as long as
64 signed bits hold this value; above that, and if the text is no such literal, it counts as no
address.  A text is an explicit next address unless it is the sentinel. -/
theorem microAddress_judged (t : Text) :
    (∀ v, HexLiteral (trim t) v → if v < 2 ^ 63 then CountsAs t v else CountsAsNone t) ∧
    ((¬ ∃ v, HexLiteral (trim t) v) → CountsAsNone t) ∧
    (NextAddress.ofText t = .explicit t ↔ lower (trim t) ≠ "mbr".toList) := by
  have hiff := microAddress?_eq_some_iff t
  refine ⟨fun v hv => ?_, fun hnot => ?_, NextAddress.ofText_eq_explicit_iff t⟩
  · split
    · next hlt => exact countsAs_of_microAddress? t v ((hiff v).mpr ⟨hv, hlt⟩)
    · next hlt =>
      apply countsAsNone_of_microAddress?
      rw [Option.eq_none_iff_forall_ne_some]
      intro w hw
      obtain ⟨hw, hwlt⟩ := (hiff w).mp hw
      exact hlt (hw.unique hv ▸ hwlt)
  · apply countsAsNone_of_microAddress?
    rw [Option.eq_none_iff_forall_ne_some]
    exact fun w hw => hnot ⟨w, ((hiff w).mp hw).1⟩

def wideAddress : Text := "0x8000000000000001".toList

/-- its value is far above 63, but it does not count by this value -/
theorem microAddress_misjudges_wide :
    HexLiteral (trim wideAddress) (2 ^ 63 + 1) ∧ ¬ CountsAs wideAddress (2 ^ 63 + 1) := by
  have htrim : trim wideAddress = '0' :: 'x' :: "8000000000000001".toList := by decide +kernel
  have hliteral := HexLiteral.mk 'x' "8000000000000001".toList (.inl rfl) (by decide)
  have hvalue : numeralValue 16 "8000000000000001".toList = 2 ^ 63 + 1 := by decide +kernel
  rw [hvalue] at hliteral
  refine ⟨htrim ▸ hliteral, fun hcounts => ?_⟩
  have hnone : microAddress? wideAddress = none := by decide +kernel
  have hrange := hcounts.refused (by omega) { address := wideAddress } rfl
  have hmalformed := (countsAsNone_of_microAddress? wideAddress hnone).refused
    { address := wideAddress } rfl
  exact absurd (hrange.symm.trans hmalformed) (by simp)

end TinyCpu
