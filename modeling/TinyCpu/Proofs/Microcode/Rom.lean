import Mathlib.Data.Fintype.Card
import TinyCpu.Microcode.Rom
import TinyCpu.Proofs.Microcode.ControlWord
import TinyCpu.Proofs.Outcome
import TinyCpu.Proofs.SortedMap

/-!
# Records put into the control store

The store is filled record by record, and the first record at fault stops it.

* `Record.Places`     what a record brings to the store;
* `Rom.Holds`         the store holds what the records bring, and nothing else;
* `FaultAfter`        why a record cannot follow the records before it;
* `Rom.assemble_exact`   which records make a store, what it holds, and which record is to blame.

One step keeps `Holds` (`Rom.Holds.add`) and fails on a fault only (`Rom.Holds.add_eq_error_iff`);
the rest is about runs.
-/

namespace TinyCpu
open Text

/-! ## One record -/

/-- an entry of the store with its address, and the warnings about it -/
structure Placement where
  address : Fin romWords
  entry : RomEntry
  warnings : List FieldWarning

/-- what a record brings to the store: its word, at its address, with its description -/
structure Record.Places (r : Record) (q : Placement) : Prop where
  address : microAddress? r.address = some q.address.val
  encoded : encode r = .ok ⟨q.entry.word, q.warnings⟩
  description : q.entry.description = r.description.getD "N/A".toList

/-- why a record cannot follow the records before it.  The address is judged first, then whether
it is taken, and the fields last. -/
inductive FaultAfter (before : List Record) (r : Record) : RomError → Prop
  | malformed (h : microAddress? r.address = none) :
      FaultAfter before r (.malformedAddress r.address (r.description.getD "N/A".toList))
  | outOfRange (v : Nat) (h : microAddress? r.address = some v) (hv : 63 < v) :
      FaultAfter before r (.addressOutOfRange r.address (r.description.getD "N/A".toList))
  | duplicate (v : Nat) (h : microAddress? r.address = some v) (hv : v ≤ 63)
      (taken : ∃ r' ∈ before, microAddress? r'.address = some v) :
      FaultAfter before r (.duplicateAddress r.address (r.description.getD "N/A".toList))
  | unsupported (v : Nat) (h : microAddress? r.address = some v) (hv : v ≤ 63)
      (free : ¬ ∃ r' ∈ before, microAddress? r'.address = some v) (hr : r.Unsupported) :
      FaultAfter before r (.unsupportedCombination r.address true r.action)

namespace Record

theorem Places.supported {r : Record} {q : Placement} (h : r.Places q) : ¬ r.Unsupported :=
  (describes_of_encode h.encoded).1

theorem Places.describes {r : Record} {q : Placement} (h : r.Places q) :
    r.Describes q.entry.word :=
  (describes_of_encode h.encoded).2.1

theorem romAddress_eq_ok_iff (r : Record) (a : Fin romWords) :
    r.romAddress = .ok a ↔ microAddress? r.address = some a.val := by
  unfold romAddress
  cases hv : microAddress? r.address with
  | none => simp
  | some v =>
    by_cases hlt : v < romWords
    · simp [hlt, Fin.ext_iff]
    · have hne : v ≠ a.val := fun h => hlt (h ▸ a.isLt)
      simp [hlt, hne]

theorem romAddress_eq_error_iff (r : Record) (e : RomError) :
    r.romAddress = .error e ↔
      (microAddress? r.address = none ∧ e = .malformedAddress r.address r.title) ∨
      ∃ v, microAddress? r.address = some v ∧ 63 < v ∧
        e = .addressOutOfRange r.address r.title := by
  unfold romAddress
  cases hv : microAddress? r.address with
  | none => simp [eq_comm]
  | some v =>
    by_cases hlt : v < romWords
    · have hle : v ≤ 63 := Nat.le_of_lt_succ hlt
      simp [hlt, hle]
    · have hgt : 63 < v := Nat.not_lt.mp hlt
      simp [hlt, hgt, eq_comm]

end Record

theorem encode_eq_error_iff (r : Record) (e : RomError) :
    encode r = .error e ↔
      r.Unsupported ∧ e = .unsupportedCombination r.address true r.action := by
  by_cases hr : r.Unsupported
  · rw [encode_of_unsupported r hr]
    simp [hr, eq_comm]
  · obtain ⟨c, hc, -⟩ := encode_of_supported r hr
    rw [hc]
    simp [hr]

namespace Rom

theorem add_eq_ok_iff (rom : Rom) (r : Record) (rom' : Rom) :
    rom.add r = .ok rom' ↔ ∃ a c, microAddress? r.address = some a.val ∧
      rom.entries.contains a = false ∧ encode r = .ok c ∧ rom' = rom.store a r c := by
  unfold add
  rw [bind_eq_ok_iff]
  simp only [r.romAddress_eq_ok_iff]
  refine exists_congr fun a => ?_
  cases rom.entries.contains a with
  | true => simp
  | false =>
    have hmap : (encode r).map (rom.store a r) = .ok rom' ↔
        ∃ c, encode r = .ok c ∧ rom' = rom.store a r c :=
      (map_eq_ok_iff _ _ _).trans (exists_congr fun c => and_congr_right fun _ => eq_comm)
    simpa using fun _ => hmap

theorem add_eq_error_iff (rom : Rom) (r : Record) (e : RomError) :
    rom.add r = .error e ↔ r.romAddress = .error e ∨
      ∃ a : Fin romWords, microAddress? r.address = some a.val ∧
        ((rom.entries.contains a = true ∧ e = .duplicateAddress r.address r.title) ∨
          (rom.entries.contains a = false ∧ encode r = .error e)) := by
  unfold add
  rw [bind_eq_error_iff]
  simp only [r.romAddress_eq_ok_iff]
  refine or_congr_right (exists_congr fun a => and_congr_right fun _ => ?_)
  cases rom.entries.contains a with
  | true => simp [eq_comm]
  | false => simp [map_eq_error_iff]

/-! ## One step -/

/-- the store holds what the records bring, one entry for each of them, and all their warnings in
the order of the records -/
structure Holds (rom : Rom) (records : List Record) (placed : List Placement) : Prop where
  places : List.Forall₂ Record.Places records placed
  entries : rom.entries.entries.Perm (placed.map fun q => (q.address, q.entry))
  warnings : rom.warnings = placed.flatMap fun q => q.warnings.map fun w => (q.address, w)

namespace Holds
variable {rom : Rom} {records : List Record} {placed : List Placement}

theorem empty : Holds {} [] [] := ⟨.nil, .rfl, rfl⟩

theorem addresses_eq (h : rom.Holds records placed) :
    records.map (fun r => microAddress? r.address) = placed.map fun q => some q.address.val := by
  have hplaces := h.places
  clear h
  induction hplaces with
  | nil => rfl
  | cons hr _ ih => rw [List.map_cons, List.map_cons, hr.address, ih]

theorem perm_keys (h : rom.Holds records placed) :
    (rom.entries.entries.map Prod.fst).Perm (placed.map Placement.address) := by
  have hmap := h.entries.map Prod.fst
  rwa [List.map_map] at hmap

theorem contains_iff (h : rom.Holds records placed) (a : Fin romWords) :
    rom.entries.contains a = true ↔ ∃ r ∈ records, microAddress? r.address = some a.val := by
  have hrecords : (∃ r ∈ records, microAddress? r.address = some a.val) ↔
      some a.val ∈ records.map fun r => microAddress? r.address := List.mem_map.symm
  rw [hrecords, h.addresses_eq, rom.entries.contains_iff, h.perm_keys.mem_iff]
  simp only [List.mem_map, Option.some.injEq, Fin.val_inj]

theorem contains_eq_false_iff (h : rom.Holds records placed) (a : Fin romWords) :
    rom.entries.contains a = false ↔ ¬ ∃ r ∈ records, microAddress? r.address = some a.val := by
  rw [← h.contains_iff a, Bool.not_eq_true]

/-- **A step that succeeds** puts one more record into the store. -/
theorem add (h : rom.Holds records placed) (r : Record) (rom' : Rom) (hadd : rom.add r = .ok rom') :
    ∃ q, rom'.Holds (records ++ [r]) (placed ++ [q]) := by
  obtain ⟨a, c, ha, hfree, hc, rfl⟩ := (add_eq_ok_iff rom r rom').mp hadd
  refine ⟨⟨a, ⟨c.word, r.title⟩, c.warnings⟩, ?_, ?_, ?_⟩
  · exact List.rel_append h.places (.cons ⟨ha, hc, rfl⟩ .nil)
  · rw [List.map_append]
    exact (rom.entries.perm_entries_insert a _ hfree).trans
      ((h.entries.cons _).trans (List.perm_append_singleton _ _).symm)
  · show rom.warnings ++ _ = _
    rw [h.warnings, List.flatMap_append, List.flatMap_singleton]

/-- **A step that fails** names the fault of the record. -/
theorem add_eq_error_iff (h : rom.Holds records placed) (r : Record) (e : RomError) :
    rom.add r = .error e ↔ FaultAfter records r e := by
  rw [Rom.add_eq_error_iff, r.romAddress_eq_error_iff]
  simp only [h.contains_iff, h.contains_eq_false_iff, encode_eq_error_iff]
  constructor
  · rintro ((⟨hv, rfl⟩ | ⟨v, hv, hgt, rfl⟩) | ⟨a, ha, ⟨htaken, rfl⟩ | ⟨hfree, hun, rfl⟩⟩)
    · exact .malformed hv
    · exact .outOfRange v hv hgt
    · exact .duplicate a ha (Nat.le_of_lt_succ a.isLt) htaken
    · exact .unsupported a ha (Nat.le_of_lt_succ a.isLt) hfree hun
  · intro hfault
    cases hfault with
    | malformed hv => exact .inl (.inl ⟨hv, rfl⟩)
    | outOfRange v hv hgt => exact .inl (.inr ⟨v, hv, hgt, rfl⟩)
    | duplicate v hv hle htaken =>
      exact .inr ⟨⟨v, Nat.lt_succ_of_le hle⟩, hv, .inl ⟨htaken, rfl⟩⟩
    | unsupported v hv hle hfree hun =>
      exact .inr ⟨⟨v, Nat.lt_succ_of_le hle⟩, hv, .inr ⟨hfree, hun, rfl⟩⟩

end Holds

/-! ## Runs -/

theorem assemble_append (before after : List Record) :
    assemble (before ++ after) = (assemble before).bind fun rom => after.foldlM add rom :=
  foldlM_append_eq add {} before after

/-- an assembled store holds what its records bring -/
theorem exists_holds (records : List Record) (rom : Rom) (h : assemble records = .ok rom) :
    ∃ placed, rom.Holds records placed := by
  -- from the end: the last step starts in the store of the records before it
  induction records using List.reverseRecOn generalizing rom with
  | nil =>
    rw [← Except.ok.inj h]
    exact ⟨[], .empty⟩
  | append_singleton records r ih =>
    rw [assemble_append, bind_eq_ok_iff] at h
    obtain ⟨rom₀, h₀, hstep⟩ := h
    rw [foldlM_cons_eq, bind_eq_ok_iff] at hstep
    obtain ⟨rom₁, hadd, hend⟩ := hstep
    obtain rfl : rom₁ = rom := Except.ok.inj hend
    obtain ⟨placed, hplaced⟩ := ih rom₀ h₀
    obtain ⟨q, hq⟩ := hplaced.add r rom₁ hadd
    exact ⟨placed ++ [q], hq⟩

/-- a run fails on the first record with a fault -/
theorem assemble_eq_error_iff (records : List Record) (e : RomError) :
    assemble records = .error e ↔ ∃ before r after, records = before ++ r :: after ∧
      (∃ rom, assemble before = .ok rom) ∧ FaultAfter before r e := by
  unfold assemble
  rw [foldlM_eq_error_iff]
  constructor
  · rintro ⟨before, r, after, rom, rfl, hrom, hadd⟩
    obtain ⟨placed, hplaced⟩ := exists_holds before rom hrom
    exact ⟨before, r, after, rfl, ⟨rom, hrom⟩, (hplaced.add_eq_error_iff r e).mp hadd⟩
  · rintro ⟨before, r, after, rfl, ⟨rom, hrom⟩, hfault⟩
    obtain ⟨placed, hplaced⟩ := exists_holds before rom hrom
    exact ⟨before, r, after, rom, rfl, hrom, (hplaced.add_eq_error_iff r e).mpr hfault⟩

/-- no record has a fault after the records before it -/
def FaultFree (records : List Record) : Prop :=
  ∀ before r after e, records = before ++ r :: after → ¬ FaultAfter before r e

theorem exists_assemble_iff_faultFree (records : List Record) :
    (∃ rom, assemble records = .ok rom) ↔ FaultFree records := by
  constructor
  · rintro ⟨rom, h⟩ before r after e rfl hfault
    have hbefore := h
    rw [assemble_append, bind_eq_ok_iff] at hbefore
    obtain ⟨rom₀, h₀, -⟩ := hbefore
    have herror := (assemble_eq_error_iff _ e).mpr ⟨before, r, after, rfl, ⟨rom₀, h₀⟩, hfault⟩
    exact absurd (h.symm.trans herror) (by simp)
  · intro hfree
    cases h : assemble records with
    | ok rom => exact ⟨rom, rfl⟩
    | error e =>
      obtain ⟨before, r, after, heq, -, hfault⟩ := (assemble_eq_error_iff records e).mp h
      exact absurd hfault (hfree before r after e heq)

/-- the records of a store: every address is that of a word, no address is used twice, and no
record asks for too much -/
structure WellFormed (records : List Record) : Prop where
  address : ∀ r ∈ records, ∃ v, microAddress? r.address = some v ∧ v ≤ 63
  distinct : (records.map fun r => microAddress? r.address).Nodup
  supported : ∀ r ∈ records, ¬ r.Unsupported

theorem Holds.wellFormed {rom : Rom} {records : List Record} {placed : List Placement}
    (h : rom.Holds records placed) : WellFormed records := by
  refine ⟨forall_mem_left_of_forall₂ h.places fun r q hq =>
    ⟨q.address, hq.address, Nat.le_of_lt_succ q.address.isLt⟩, ?_,
    forall_mem_left_of_forall₂ h.places fun r q hq => hq.supported⟩
  have hkeys := h.perm_keys.nodup_iff.mp rom.entries.nodup_keys
  have hinj : Function.Injective fun a : Fin romWords => some a.val :=
    (Option.some_injective _).comp Fin.val_injective
  have hmap := hkeys.map hinj
  rw [List.map_map] at hmap
  rw [h.addresses_eq]
  exact hmap

theorem WellFormed.faultFree {records : List Record} (h : WellFormed records) :
    FaultFree records := by
  rintro before r after e rfl hfault
  have hr : r ∈ before ++ r :: after := by simp
  obtain ⟨v, hv, hle⟩ := h.address r hr
  cases hfault with
  | malformed hnone => exact absurd (hv.symm.trans hnone) (by simp)
  | outOfRange w hw hgt =>
    obtain rfl := Option.some.inj (hv.symm.trans hw)
    omega
  | duplicate w hw _ htaken =>
    obtain ⟨r', hr', hw'⟩ := htaken
    have hdistinct := h.distinct
    rw [List.map_append, List.map_cons] at hdistinct
    exact List.disjoint_of_nodup_append hdistinct (List.mem_map.mpr ⟨r', hr', hw'⟩) (by simp [hw])
  | unsupported _ _ _ _ hun => exact h.supported r hr hun

theorem Holds.size_eq {rom : Rom} {records : List Record} {placed : List Placement}
    (h : rom.Holds records placed) : rom.entries.size = records.length := by
  have hlen := h.entries.length_eq
  rw [List.length_map, ← h.places.length_eq] at hlen
  exact hlen

theorem size_le (rom : Rom) : rom.entries.size ≤ 64 := by
  have hcard := rom.entries.nodup_keys.length_le_card
  rw [List.length_map, Fintype.card_fin] at hcard
  exact hcard

/-- **The control store is exact.**  Records make a store if and only if they are well-formed.  It
then holds one entry for each record, and all their warnings in order.  Otherwise the error is that
of the first record with a fault, given the records before it, whatever comes after. -/
theorem assemble_exact (records : List Record) :
    ((∃ rom, assemble records = .ok rom) ↔ WellFormed records) ∧
    (∀ rom, assemble records = .ok rom → (∃ placed, rom.Holds records placed) ∧
      rom.entries.size = records.length ∧ rom.entries.size ≤ 64) ∧
    ∀ e, assemble records = .error e ↔ ∃ before r after, records = before ++ r :: after ∧
      FaultFree before ∧ FaultAfter before r e ∧
      ∀ after', assemble (before ++ r :: after') = .error e := by
  refine ⟨⟨?_, ?_⟩, ?_, fun e => ⟨?_, ?_⟩⟩
  · rintro ⟨rom, h⟩
    obtain ⟨placed, hplaced⟩ := exists_holds records rom h
    exact hplaced.wellFormed
  · exact fun h => (exists_assemble_iff_faultFree records).mpr h.faultFree
  · intro rom h
    obtain ⟨placed, hplaced⟩ := exists_holds records rom h
    exact ⟨⟨placed, hplaced⟩, hplaced.size_eq, rom.size_le⟩
  · intro h
    obtain ⟨before, r, after, heq, hok, hfault⟩ := (assemble_eq_error_iff records e).mp h
    refine ⟨before, r, after, heq, (exists_assemble_iff_faultFree before).mp hok, hfault, ?_⟩
    exact fun after' => (assemble_eq_error_iff _ e).mpr ⟨before, r, after', rfl, hok, hfault⟩
  · rintro ⟨before, r, after, rfl, -, -, hall⟩
    exact hall after

/-- three texts of one address: two records fit into the store, the third one clashes -/
theorem assemble_exact_clash :
    WellFormed [{ address := "0x04".toList }, { address := "0x3F".toList }] ∧
    ∃ before r after,
      [{ address := "0x04".toList }, { address := " 0X4 ".toList }, { address := "4".toList }] =
        before ++ r :: after ∧
      FaultFree before ∧ FaultAfter before r (.duplicateAddress " 0X4 ".toList "N/A".toList) := by
  constructor
  · have hok : (assemble [{ address := "0x04".toList }, { address := "0x3F".toList }]).isOk := by
      decide +kernel
    cases h : assemble [{ address := "0x04".toList }, { address := "0x3F".toList }] with
    | error e =>
      rw [h] at hok
      exact absurd hok Bool.false_ne_true
    | ok rom => exact (assemble_exact _).1.mp ⟨rom, h⟩
  · have herror : assemble [{ address := "0x04".toList }, { address := " 0X4 ".toList },
        { address := "4".toList }] =
        .error (.duplicateAddress " 0X4 ".toList "N/A".toList) := by decide +kernel
    obtain ⟨before, r, after, heq, hfree, hfault, -⟩ := ((assemble_exact _).2.2 _).mp herror
    exact ⟨before, r, after, heq, hfree, hfault⟩

end Rom
end TinyCpu
