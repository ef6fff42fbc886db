import TinyCpu.Proofs.Microcode.Rom

/-!
# Records in another order

* `Rom.Holds.perm_placed`   what the records bring does not depend on their order;
* `Rom.warningsAt`          the warnings about one word, in their order;
* `Rom.assemble_perm`       neither does the store, except for the order in which the records have
                            their warnings.
-/

namespace TinyCpu
open Text

theorem Record.Places.unique {r : Record} {q q' : Placement} (h : r.Places q) (h' : r.Places q') :
    q = q' := by
  obtain ⟨a, ⟨word, description⟩, warnings⟩ := q
  obtain ⟨a', ⟨word', description'⟩, warnings'⟩ := q'
  obtain rfl : a = a' := Fin.ext (Option.some.inj (h.address.symm.trans h'.address))
  obtain rfl : description = description' := h.description.trans h'.description.symm
  obtain ⟨rfl, rfl⟩ : word = word' ∧ warnings = warnings' :=
    Encoded.mk.inj (Except.ok.inj (h.encoded.symm.trans h'.encoded))
  rfl

namespace Rom

theorem exists_assemble_iff_wellFormed (records : List Record) :
    (∃ rom, assemble records = .ok rom) ↔ WellFormed records := by
  refine ⟨fun hok => ?_, fun h => (exists_assemble_iff_faultFree records).mpr h.faultFree⟩
  obtain ⟨rom, hrom⟩ := hok
  obtain ⟨placed, hplaced⟩ := exists_holds records rom hrom
  exact hplaced.wellFormed

theorem WellFormed.perm {records records' : List Record} (h : records.Perm records')
    (hw : WellFormed records) : WellFormed records' where
  address := fun r hr => hw.address r (h.mem_iff.mpr hr)
  distinct := (h.map _).nodup_iff.mp hw.distinct
  supported := fun r hr => hw.supported r (h.mem_iff.mpr hr)

/-! ## Entries -/

section
variable {rom rom' : Rom} {records records' : List Record} {placed placed' : List Placement}

theorem Holds.perm_placed (hp : rom.Holds records placed) (hp' : rom'.Holds records' placed')
    (h : records.Perm records') : placed.Perm placed' := by
  obtain ⟨placed'', hplaces, hperm⟩ := List.perm_comp_forall₂ h hp'.places
  have hunique : Relator.RightUnique Record.Places := fun _ _ _ hq hq' => hq.unique hq'
  rwa [List.right_unique_forall₂' hunique hp.places hplaces]

theorem Holds.exists_placement (hp : rom.Holds records placed) (r : Record) (hr : r ∈ records) :
    ∃ q ∈ placed, r.Places q := by
  have hplaces := hp.places
  clear hp
  induction hplaces with
  | nil => exact absurd hr List.not_mem_nil
  | @cons r' q' records placed hplaces' _ ih =>
    obtain rfl | hr := List.mem_cons.mp hr
    · exact ⟨q', List.mem_cons_self, hplaces'⟩
    · obtain ⟨q, hq, hplaces⟩ := ih hr
      exact ⟨q, List.mem_cons_of_mem q' hq, hplaces⟩

theorem Holds.entries_eq (hp : rom.Holds records placed) (hp' : rom'.Holds records' placed')
    (h : placed.Perm placed') : rom.entries = rom'.entries := by
  apply SortedMap.ext_get?
  intro a
  apply Option.ext
  intro e
  have hperm : rom.entries.entries.Perm rom'.entries.entries :=
    hp.entries.trans ((h.map _).trans hp'.entries.symm)
  rw [SortedMap.get?_eq_some_iff, SortedMap.get?_eq_some_iff, hperm.mem_iff]

end

/-! ## Warnings -/

/-- the warnings about the word at an address, in their order -/
def warningsAt (rom : Rom) (a : Fin romWords) : List FieldWarning :=
  (rom.warnings.filter fun w => w.1 = a).map Prod.snd

theorem filter_flatMap_warnings (placed : List Placement) (a : Fin romWords) :
    ((placed.flatMap fun q => q.warnings.map fun w => (q.address, w)).filter
        fun w => w.1 = a).map Prod.snd =
      (placed.filter fun q => q.address = a).flatMap Placement.warnings := by
  induction placed with
  | nil => rfl
  | cons q placed ih =>
    rw [List.flatMap_cons, List.filter_append, List.map_append, ih]
    by_cases ha : q.address = a
    · simp [ha, List.filter_map, Function.comp_def]
    · simp [ha, List.filter_map, Function.comp_def]

/-- no two placements share an address, so a word has the warnings of its own record -/
theorem Holds.warningsAt_eq {rom : Rom} {records : List Record} {placed : List Placement}
    (h : rom.Holds records placed) (q : Placement) (hq : q ∈ placed) :
    rom.warningsAt q.address = q.warnings := by
  have hnodup : (placed.map Placement.address).Nodup :=
    h.perm_keys.nodup_iff.mp rom.entries.nodup_keys
  have hfilter : (placed.filter fun q' => q'.address = q.address) = [q] := by
    obtain ⟨before, after, rfl⟩ := List.append_of_mem hq
    rw [List.map_append, List.map_cons, List.nodup_middle, List.nodup_cons, ← List.map_append]
      at hnodup
    have hnone : (before ++ after).filter (fun q' => q'.address = q.address) = [] := by
      rw [List.filter_eq_nil_iff]
      intro q' hq' heq
      exact hnodup.1 (of_decide_eq_true heq ▸ List.mem_map_of_mem hq')
    rw [List.filter_append, List.append_eq_nil_iff] at hnone
    have hself : decide (q.address = q.address) = true := decide_eq_true rfl
    rw [List.filter_append, hnone.1, List.filter_cons, if_pos hself, hnone.2]
    rfl
  unfold warningsAt
  rw [h.warnings, filter_flatMap_warnings, hfilter, List.flatMap_singleton]

/-- **The store does not depend on the order of its records.**  Records make a store in one order
if and only if they do in every other.  Both stores then have the same entries, hence the same
words, bytes, memory text and listing.  Their warnings differ in order at most, and never in the
order of the warnings about one record. -/
theorem assemble_perm (records records' : List Record) (h : records.Perm records') :
    ((∃ rom, assemble records = .ok rom) ↔ ∃ rom', assemble records' = .ok rom') ∧
    ∀ rom rom', assemble records = .ok rom → assemble records' = .ok rom' →
      rom.entries = rom'.entries ∧ (∀ a, rom.word? a = rom'.word? a) ∧
      rom.binary = rom'.binary ∧ rom.memoryText = rom'.memoryText ∧ rom.listing = rom'.listing ∧
      rom.warnings.Perm rom'.warnings ∧
      ∀ r ∈ records, ∃ a c, microAddress? r.address = some a.val ∧ encode r = .ok c ∧
        rom.warningsAt a = c.warnings ∧ rom'.warningsAt a = c.warnings := by
  rw [exists_assemble_iff_wellFormed, exists_assemble_iff_wellFormed]
  refine ⟨⟨.perm h, .perm h.symm⟩, fun rom rom' hrom hrom' => ?_⟩
  obtain ⟨placed, hplaced⟩ := exists_holds records rom hrom
  obtain ⟨placed', hplaced'⟩ := exists_holds records' rom' hrom'
  have hperm := hplaced.perm_placed hplaced' h
  have hwarnings : rom.warnings.Perm rom'.warnings := by
    rw [hplaced.warnings, hplaced'.warnings]
    exact hperm.flatMap_right _
  have hone : ∀ r ∈ records, ∃ a c, microAddress? r.address = some a.val ∧ encode r = .ok c ∧
      rom.warningsAt a = c.warnings ∧ rom'.warningsAt a = c.warnings := by
    intro r hr
    obtain ⟨q, hq, hplaces⟩ := hplaced.exists_placement r hr
    exact ⟨q.address, _, hplaces.address, hplaces.encoded, hplaced.warningsAt_eq q hq,
      hplaced'.warningsAt_eq q (hperm.mem_iff.mp hq)⟩
  have hentries := hplaced.entries_eq hplaced' hperm
  obtain ⟨entries, warnings⟩ := rom
  obtain ⟨entries', warnings'⟩ := rom'
  obtain rfl : entries = entries' := hentries
  exact ⟨rfl, fun _ => rfl, rfl, rfl, rfl, hwarnings, hone⟩

/-- two records in both orders: their warnings change places, and the words do not -/
theorem assemble_perm_swap :
    let early : Record := { address := "0x00".toList, writeTo := some ["X".toList, "Y".toList] }
    let late : Record := { address := "0x01".toList, bus := some "Z".toList }
    ∃ rom rom', assemble [early, late] = .ok rom ∧ assemble [late, early] = .ok rom' ∧
      rom.entries = rom'.entries ∧ rom.warnings ≠ rom'.warnings ∧
      rom.warnings.Perm rom'.warnings := by
  intro early late
  have hok : ∀ (x : Except RomError Rom) (ws : List (Fin romWords × FieldWarning)),
      x.toOption.map Rom.warnings = some ws → ∃ rom, x = .ok rom ∧ rom.warnings = ws := by
    intro x ws h
    cases x with
    | error e => exact absurd h (by simp [Except.toOption])
    | ok rom => exact ⟨rom, rfl, Option.some.inj h⟩
  obtain ⟨rom, hrom, hwarnings⟩ := hok (assemble [early, late])
    [(0, .unknownRegister "X".toList), (0, .unknownRegister "Y".toList),
      (1, .unknownBusSource "Z".toList)] (by decide +kernel)
  obtain ⟨rom', hrom', hwarnings'⟩ := hok (assemble [late, early])
    [(1, .unknownBusSource "Z".toList), (0, .unknownRegister "X".toList),
      (0, .unknownRegister "Y".toList)] (by decide +kernel)
  obtain ⟨hentries, -, -, -, -, hperm, -⟩ :=
    (assemble_perm [early, late] [late, early] (.swap late early [])).2 rom rom' hrom hrom'
  refine ⟨rom, rom', hrom, hrom', hentries, ?_, hperm⟩
  rw [hwarnings, hwarnings']
  decide

end Rom
end TinyCpu
