import TinyCpu.Assembly.Statement
import TinyCpu.Proofs.Assembly.Value
import TinyCpu.Proofs.Outcome
import TinyCpu.Proofs.Text.Cut

/-!
# What statements mean

`Statement.read`, `size` and `bytes` against their rules.

* `Statement.Means`     what a body says, as a relation;
* `Statement.width`     the exact number of bytes;
* `Statement.Encodes`   the bytes of a statement, as a relation;
* `Statement.Resolves`  every operand of the statement has a byte.

A body of `n` characters takes at most `2 * n` bytes (`Means.width_le`), and whatever the addresses
of the labels are, the bytes are as many as the size says (`Encodes.length_eq`).
-/

namespace TinyCpu
open Text

/-- the operand of a match stands in a slot that is no register -/
theorem InstructionSet.resolve?_slot (set : InstructionSet) (t operand : Text) (m : Match)
    (h : set.resolve? t = some m) (ho : m.operand = some operand) :
    ∃ slot ∈ m.form.slots, slot.isRegister = false := by
  obtain ⟨f, _, rfl⟩ := Option.map_eq_some_iff.mp h
  obtain ⟨p, hp, _⟩ := Option.bind_eq_some_iff.mp ho
  have hslot := List.find?_some hp
  have hmem := (List.of_mem_zip (List.mem_of_find?_eq_some hp)).1
  exact ⟨p.1, hmem, by simpa using hslot⟩

theorem length_splitMnemonic_le (t : Text) (h : (splitMnemonic t).2 ≠ []) :
    (splitMnemonic t).2.length + 1 ≤ t.length := by
  have htrim := (trim_sublist t).length_le
  unfold splitMnemonic at h ⊢
  split at h
  · next mnemonic rest hcut =>
    obtain ⟨_, c, _, heq⟩ := (cut_eq_some_iff _ _ _ _).mp hcut
    have hlen := congrArg List.length heq
    have hrest := (trim_sublist rest).length_le
    rw [List.length_append, List.length_cons] at hlen
    show (trim rest).length + 1 ≤ t.length
    omega
  · exact absurd rfl h

namespace Statement

/-! ## Bodies -/

/-- what a body says: nothing, the instruction it resolves to, or the data directive with a list of
items none of which is empty -/
inductive Means (set : InstructionSet) : Text → Statement → Prop
  | blank : Means set [] .blank
  | instruction (body : Text) (m : Match) (hne : body ≠ []) (hm : set.resolve? body = some m) :
      Means set body (.instruction m)
  | data (body mnemonic list : Text) (hm : set.resolve? body = none)
      (hsplit : splitMnemonic body = (mnemonic, list)) (hdir : lower mnemonic = lower directive)
      (hlist : list ≠ []) (hitems : ∀ item ∈ fields ',' list, item ≠ []) :
      Means set body (.data (fields ',' list))

theorem readData_eq_ok_iff (list : Text) (s : Statement) :
    readData list = .ok s ↔
      list ≠ [] ∧ (∀ item ∈ fields ',' list, item ≠ []) ∧ s = .data (fields ',' list) := by
  unfold readData
  by_cases hl : list = []
  · simp [hl]
  · rw [if_neg (by simpa using hl)]
    by_cases hi : ∀ item ∈ fields ',' list, item ≠ []
    · have hany : (fields ',' list).any List.isEmpty = false := by
        rw [List.any_eq_false]
        intro item hitem
        simpa using hi item hitem
      rw [hany]
      constructor
      · intro h
        exact ⟨hl, hi, (Except.ok.inj h).symm⟩
      · rintro ⟨-, -, rfl⟩
        rfl
    · have hany : (fields ',' list).any List.isEmpty = true := by
        rw [List.any_eq_true]
        simpa using hi
      rw [if_pos hany]
      constructor
      · intro h
        exact absurd h (by simp)
      · exact fun h => absurd h.2.1 hi

theorem means_of_read (set : InstructionSet) (body : Text) (s : Statement)
    (h : read set body = .ok s) : Means set body s := by
  unfold read at h
  by_cases hb : body = []
  · subst hb
    rw [← Except.ok.inj h]
    exact .blank
  · rw [if_neg (by simpa using hb)] at h
    cases hr : set.resolve? body with
    | some m =>
      rw [hr] at h
      rw [← Except.ok.inj h]
      exact .instruction body m hb hr
    | none =>
      rw [hr] at h
      by_cases hd : sameLetters (splitMnemonic body).1 directive = true
      · obtain ⟨hlist, hitems, rfl⟩ := (readData_eq_ok_iff _ s).mp ((if_pos hd).symm.trans h)
        exact .data body _ _ hr rfl ((sameLetters_iff _ _).mp hd) hlist hitems
      · exact absurd ((if_neg hd).symm.trans h) (by simp)

theorem Means.read_eq {set : InstructionSet} {body : Text} {s : Statement}
    (h : Means set body s) : read set body = .ok s := by
  unfold read
  cases h with
  | blank => rfl
  | instruction _ m hne hm => rw [if_neg (by simpa using hne), hm]
  | data _ mnemonic list hm hsplit hdir hlist hitems =>
    have hne : body ≠ [] := by
      rintro rfl
      exact hlist (congrArg Prod.snd hsplit).symm
    rw [if_neg (by simpa using hne), hm, hsplit]
    show (if sameLetters mnemonic directive = true then readData list else _) = _
    rw [if_pos ((sameLetters_iff _ _).mpr hdir)]
    exact (readData_eq_ok_iff list _).mpr ⟨hlist, hitems, rfl⟩

theorem read_eq_ok_iff (set : InstructionSet) (body : Text) (s : Statement) :
    read set body = .ok s ↔ Means set body s := ⟨means_of_read set body s, Means.read_eq⟩

theorem Means.unique {set : InstructionSet} {body : Text} {s s' : Statement}
    (h : Means set body s) (h' : Means set body s') : s = s' :=
  Except.ok.inj (h.read_eq.symm.trans h'.read_eq)

/-! ## Sizes -/

/-- number of bytes, without a bound -/
def width : Statement → Nat
  | blank => 0
  | instruction m => match m.form.encoding with
    | .implied => 1
    | .byte => 2
  | data items => items.length

theorem size_eq (s : Statement) : s.size = UInt32.ofNat s.width := by
  cases s with
  | blank => rfl
  | instruction m =>
    cases he : m.form.encoding <;> simp [size, width, Form.size, Form.operandBytes, he]
  | data items => rfl

/-- a list of operands has one item more than commas, and the blank behind the mnemonic makes up
for it -/
theorem length_items_le {body mnemonic list : Text} (hsplit : splitMnemonic body = (mnemonic, list))
    (hlist : list ≠ []) : (fields ',' list).length ≤ body.length := by
  have hlen : list.length + 1 ≤ body.length := by
    have h := length_splitMnemonic_le body
    rw [hsplit] at h
    exact h hlist
  have hitems := length_fields_le ',' list
  omega

theorem Means.width_le {set : InstructionSet} {body : Text} {s : Statement}
    (h : Means set body s) : s.width ≤ 2 * body.length := by
  cases h with
  | blank => exact Nat.zero_le _
  | instruction _ m hne _ =>
    have hpos : 0 < body.length := List.length_pos_iff.mpr hne
    have hw : width (.instruction m) ≤ 2 := by
      cases he : m.form.encoding <;> simp [width, he]
    omega
  | data _ mnemonic list _ hsplit _ hlist _ =>
    have hitems := length_items_le hsplit hlist
    show (fields ',' list).length ≤ 2 * body.length
    omega

/-! ## Bytes -/

/-- the bytes of a statement: the opcode and then the operand byte of a form that has one, or the
bytes of the items -/
inductive Encodes (symbols : Symbols) : Statement → List UInt8 → Prop
  | blank : Encodes symbols .blank []
  | implied (m : Match) (hm : m.form.encoding = .implied) :
      Encodes symbols (.instruction m) [m.form.opcode]
  | byte (m : Match) (operand : Text) (b : UInt8) (hm : m.form.encoding = .byte)
      (ho : m.operand = some operand) (hb : operandByte symbols operand = .ok b) :
      Encodes symbols (.instruction m) [m.form.opcode, b]
  | data (items : List Text) (bs : List UInt8)
      (h : List.Forall₂ (fun item b => operandByte symbols item = .ok b) items bs) :
      Encodes symbols (.data items) bs

theorem encodes_of_operandBytes (symbols : Symbols) (m : Match) (bs : List UInt8)
    (h : m.operandBytes symbols = .ok bs) :
    Encodes symbols (.instruction m) (m.form.opcode :: bs) := by
  unfold Match.operandBytes at h
  cases he : m.form.encoding with
  | implied =>
    rw [he] at h
    rw [← Except.ok.inj h]
    exact .implied m he
  | byte =>
    rw [he] at h
    cases ho : m.operand with
    | none =>
      rw [ho] at h
      exact absurd h (by simp)
    | some operand =>
      rw [ho] at h
      obtain ⟨b, hb, rfl⟩ := (map_eq_ok_iff _ _ _).mp h
      exact .byte m operand b he ho hb

theorem encodes_of_bytes (symbols : Symbols) (s : Statement) (bs : List UInt8)
    (h : s.bytes symbols = .ok bs) : Encodes symbols s bs := by
  cases s with
  | blank =>
    rw [← Except.ok.inj h]
    exact .blank
  | instruction m =>
    obtain ⟨cs, hcs, rfl⟩ := (map_eq_ok_iff _ _ _).mp h
    exact encodes_of_operandBytes symbols m cs hcs
  | data items => exact .data items bs ((mapM_eq_ok_iff _ _ _).mp h)

theorem Encodes.bytes_eq {symbols : Symbols} {s : Statement} {bs : List UInt8}
    (h : Encodes symbols s bs) : s.bytes symbols = .ok bs := by
  cases h with
  | blank => rfl
  | implied m hm =>
    show (m.operandBytes symbols).map (fun bs => m.form.opcode :: bs) = _
    unfold Match.operandBytes
    rw [hm]
    rfl
  | byte m operand b hm ho hb =>
    show (m.operandBytes symbols).map (fun bs => m.form.opcode :: bs) = _
    unfold Match.operandBytes
    rw [hm, ho]
    show ((operandByte symbols operand).map fun b => [b]).map _ = _
    rw [hb]
    rfl
  | data items _ h => exact (mapM_eq_ok_iff _ _ _).mpr h

theorem bytes_eq_ok_iff (symbols : Symbols) (s : Statement) (bs : List UInt8) :
    s.bytes symbols = .ok bs ↔ Encodes symbols s bs :=
  ⟨encodes_of_bytes symbols s bs, Encodes.bytes_eq⟩

/-- whatever the addresses of the labels are, there are as many bytes as the size says -/
theorem Encodes.length_eq {symbols : Symbols} {s : Statement} {bs : List UInt8}
    (h : Encodes symbols s bs) : bs.length = s.width := by
  cases h with
  | blank => rfl
  | implied m hm => simp [width, hm]
  | byte m operand b hm _ _ => simp [width, hm]
  | data items _ h => exact h.length_eq.symm

/-- every operand of the statement has a byte; a form with an operand byte has a slot for it -/
def Resolves (symbols : Symbols) : Statement → Prop
  | blank => True
  | instruction m => m.form.encoding = .byte →
      (∃ slot ∈ m.form.slots, slot.isRegister = false) ∧
        ∃ operand b, m.operand = some operand ∧ operandByte symbols operand = .ok b
  | data items => ∀ item ∈ items, ∃ b, operandByte symbols item = .ok b

theorem Means.encodes_iff {set : InstructionSet} {body : Text} {s : Statement}
    (h : Means set body s) (symbols : Symbols) :
    (∃ bs, Encodes symbols s bs) ↔ s.Resolves symbols := by
  cases h with
  | blank => exact ⟨fun _ => trivial, fun _ => ⟨[], .blank⟩⟩
  | instruction _ m _ hm =>
    constructor
    · rintro ⟨bs, h⟩ hbyte
      cases h with
      | implied _ hi => exact absurd (hi.symm.trans hbyte) (by simp)
      | byte _ operand b _ ho hb =>
        exact ⟨set.resolve?_slot body operand m hm ho, operand, b, ho, hb⟩
    · intro h
      cases he : m.form.encoding with
      | implied => exact ⟨_, .implied m he⟩
      | byte =>
        obtain ⟨-, operand, b, ho, hb⟩ := h he
        exact ⟨_, .byte m operand b he ho hb⟩
  | data _ mnemonic list =>
    show _ ↔ ∀ item ∈ fields ',' list, ∃ b, operandByte symbols item = .ok b
    rw [← exists_mapM_eq_ok_iff]
    constructor
    · rintro ⟨bs, h⟩
      cases h with
      | data _ _ h => exact ⟨bs, (mapM_eq_ok_iff _ _ _).mpr h⟩
    · rintro ⟨bs, h⟩
      exact ⟨bs, .data _ bs ((mapM_eq_ok_iff _ _ _).mp h)⟩

end Statement
end TinyCpu
