import Mathlib.Data.List.Perm.Basic
import TinyCpu.Microcode.Json
import TinyCpu.Microcode.Rom
import TinyCpu.Proofs.Json.Reading

/-!
# Records written and read back

A record is written as an object with all its fields, `null` for those that are left out.  While
such an object is read, in whatever order its fields stand, the draft holds just the fields of the
record that have been seen, and in the end all of them.

* `Record.object`, `Record.array`   records as JSON values;
* `Record.draft`                    the fields that have been seen;
* `Draft.objectRest_field`          one field is read, and `Record.objectRest_items` all of them;
* `NextAddress.Settled`             addresses that their text gives back, as all do that were read;
* `Record.listOfJson_array`         records that were read are read again from what is written.
-/

namespace TinyCpu
open Text Json

/-! ## Records as values -/

/-- a text, or `null` if there is none -/
def textValue : Option Text → Value
  | none => .null
  | some t => .string t

/-- the names of a list, or `null` if there is no list -/
def namesValue : Option (List Text) → Value
  | none => .null
  | some names => .list (names.map .string)

namespace Record

def value (r : Record) : RecordField → Value
  | .description => textValue r.description
  | .address => .string r.address
  | .bus => textValue r.bus
  | .writeTo => namesValue r.writeTo
  | .operation => textValue r.operation
  | .action => .string r.action.name
  | .next => .string r.next.text
  | .jumpZero => .boolean r.jumpZero

def field (r : Record) (f : RecordField) : Text × Value := (f.name, r.value f)

/-- the record as an object with all its fields -/
def object (r : Record) : Value := .object (RecordField.all.map r.field)

/-- the fields of the record that are marked as read -/
def draft (r : Record) (seen : List RecordField) : Draft where
  description := if seen.contains .description then some r.description else none
  address := if seen.contains .address then some r.address else none
  bus := if seen.contains .bus then some r.bus else none
  writeTo := if seen.contains .writeTo then some r.writeTo else none
  operation := if seen.contains .operation then some r.operation else none
  action := if seen.contains .action then some r.action else none
  next := if seen.contains .next then some r.next else none
  jumpZero := if seen.contains .jumpZero then some r.jumpZero else none

def array (records : List Record) : Value := .list (records.map object)

end Record

/-- the next address is read back from its text -/
def NextAddress.Settled (n : NextAddress) : Prop := ofText n.text = n

theorem NextAddress.settled_ofText (t : Text) : (ofText t).Settled := by
  unfold Settled ofText
  by_cases h : sameLetters (trim t) sentinel = true
  · rw [if_pos h]
    decide
  · rw [if_neg h]
    exact if_neg h

/-! ## Fields -/

theorem reads_textValue (t : Option Text) : Reads (nullable string) t (textValue t) := by
  cases t with
  | none => exact reads_null string
  | some t => exact (reads_string t).nullable (by simp)

theorem reads_namesValue (names : Option (List Text)) :
    Reads (nullable (list string)) names (namesValue names) := by
  cases names with
  | none => exact reads_null (list string)
  | some names =>
    refine (reads_list string names _ ?_).nullable (by simp)
    rw [List.forall₂_map_right_iff, List.forall₂_same]
    exact fun t _ => reads_string t

theorem MemoryAction.ofName?_name (a : MemoryAction) : ofName? a.name = some a := by
  cases a <;> decide

theorem RecordField.ofName?_name (f : RecordField) : ofName? f.name = some f := by
  cases f <;> decide

theorem reads_memoryAction (a : MemoryAction) : Reads Draft.memoryAction a (.string a.name) := by
  intro left t rest hl ht
  unfold Draft.memoryAction
  rw [reads_string a.name left t rest hl ht]
  simp only [bind, Except.bind, a.ofName?_name]
  rfl

theorem RecordField.mem_all (f : RecordField) : f ∈ all := by
  cases f <;> decide

namespace Record
variable {r : Record} {seen : List RecordField}

theorem has_draft (r : Record) (seen : List RecordField) (f : RecordField) :
    (r.draft seen).has f = seen.contains f := by
  have hgiven : ∀ {α : Type} (b : Bool) (x : α), (if b then some x else none).isSome = b := by
    intro α b x
    cases b <;> rfl
  cases f <;> exact hgiven _ _

theorem reads_read (hr : r.next.Settled) (seen : List RecordField) (f : RecordField) :
    Reads ((r.draft seen).read f) (r.draft (f :: seen)) (r.value f) := by
  cases f with
  | description =>
    exact (reads_textValue r.description).map fun v => { r.draft seen with description := some v }
  | address => exact (reads_string r.address).map fun v => { r.draft seen with address := some v }
  | bus => exact (reads_textValue r.bus).map fun v => { r.draft seen with bus := some v }
  | writeTo =>
    exact (reads_namesValue r.writeTo).map fun v => { r.draft seen with writeTo := some v }
  | operation =>
    exact (reads_textValue r.operation).map fun v => { r.draft seen with operation := some v }
  | action =>
    exact (reads_memoryAction r.action).map fun v => { r.draft seen with action := some v }
  | next =>
    have h := (reads_string r.next.text).map fun v =>
      ({ r.draft seen with next := some (.ofText v) } : Draft)
    rw [show NextAddress.ofText r.next.text = r.next from hr] at h
    exact h
  | jumpZero =>
    exact (reads_boolean r.jumpZero).map fun v => { r.draft seen with jumpZero := some v }

theorem complete_draft (r : Record) (hall : ∀ f, f ∈ seen) :
    (r.draft seen).address = some r.address ∧ (r.draft seen).complete r.address = r := by
  have hcontains : ∀ f, seen.contains f = true := fun f => List.contains_iff_mem.mpr (hall f)
  unfold draft
  simp only [hcontains, if_true]
  exact ⟨trivial, rfl⟩

end Record

/-! ## Objects -/

namespace Draft

theorem objectRest_field (d d' : Draft) (f : RecordField) (fuel : Nat) {first : Bool}
    {sep key left t t' : Text} (hsep : Separator first sep) (hkey : RestSpells f.name key)
    (hl : Spaces left) (hnew : d.has f = false) (hread : d.read f t = .ok (d', t')) :
    objectRest (fuel + 1) first d (sep ++ '"' :: (key ++ (left ++ ':' :: t))) =
      objectRest fuel false d' t' := by
  have hname := stringRest_spelled f.name key (left ++ ':' :: t) hkey
  have hcolon := afterColon_spaces left t hl
  rw [objectRest, nextKey_item hsep]
  simp only [bind, Except.bind, hname, f.ofName?_name, hnew, Bool.false_eq_true, if_false, hcolon,
    hread]

theorem objectRest_close (d : Draft) (address : Text) (h : d.address = some address) (fuel : Nat)
    (first : Bool) (blank rest : Text) (hblank : Spaces blank) :
    objectRest (fuel + 1) first d (blank ++ '\x7d' :: rest) = .ok (d.complete address, rest) := by
  have hskip := skipSpace_spaces blank hblank '\x7d' (by decide) rest
  rw [objectRest, nextKey_close first blank rest hblank]
  simp only [bind, Except.bind, h, hskip]
  rfl

end Draft

namespace Record
variable {r : Record} {seen : List RecordField}

/-- the rest of an object is read field by field, in whatever order the fields stand -/
theorem objectRest_items (hr : r.next.Settled) {first : Bool} {order : List RecordField} {t : Text}
    (h : Items '\x7d' (FieldSpells Spells) first (order.map r.field) t)
    (hnodup : order.Nodup) (hnew : ∀ f ∈ order, f ∉ seen) (hall : ∀ f, f ∈ seen ∨ f ∈ order)
    (fuel : Nat) (hfuel : order.length ≤ fuel) (rest : Text) :
    Draft.objectRest (fuel + 1) first (r.draft seen) (t ++ rest) = .ok (r, rest) := by
  induction order generalizing first t seen fuel with
  | nil =>
    obtain ⟨haddress, hcomplete⟩ :=
      r.complete_draft fun f => (hall f).resolve_right List.not_mem_nil
    cases h with
    | @close _ blank hblank =>
      rw [List.append_assoc, List.singleton_append,
        Draft.objectRest_close _ r.address haddress fuel first blank rest hblank, hcomplete]
  | cons f order ih =>
    obtain ⟨fuel, rfl⟩ := Nat.exists_eq_succ_of_ne_zero (Nat.ne_zero_of_lt hfuel)
    obtain ⟨hf, hnodup⟩ := List.nodup_cons.mp hnodup
    obtain ⟨hnewf, hnew⟩ := List.forall_mem_cons.mp hnew
    cases h with
    | @item _ sep _ after _ _ hsep hfield hitems =>
      cases hfield with
      | @mk _ key left right t _ hkey hl hright hv =>
        have hhas : (r.draft seen).has f = false := by
          rw [has_draft]
          simpa using hnewf
        have hread := reads_read hr seen f right t (after ++ rest) hright hv
        have htext : sep ++ ('"' :: (key ++ (left ++ ':' :: (right ++ t))) ++ after) ++ rest =
            sep ++ '"' :: (key ++ (left ++ ':' :: (right ++ (t ++ (after ++ rest))))) := by simp
        rw [htext, Draft.objectRest_field _ _ f (fuel + 1) hsep hkey hl hhas hread]
        refine ih hitems hnodup ?_ ?_ fuel (Nat.le_of_succ_le_succ hfuel)
        · intro g hg hmem
          rcases List.mem_cons.mp hmem with rfl | hmem
          · exact hf hg
          · exact hnew g hg hmem
        · intro g
          rcases hall g with hmem | hmem
          · exact .inl (List.mem_cons_of_mem f hmem)
          · rcases List.mem_cons.mp hmem with rfl | hmem
            · exact .inl List.mem_cons_self
            · exact .inr hmem

/-- a record is read from every spelling of its object -/
theorem reads_ofJson (hr : r.next.Settled) : Reads ofJson r r.object := by
  intro left t rest hl ht
  cases ht with
  | @object _ fields t horder hitems =>
    obtain ⟨order, rfl, hperm⟩ := (congrFun₂ (List.eq_map_comp_perm r.field) _ _).mpr horder
    have hlength := hitems.length_le
    unfold ofJson
    rw [List.cons_append, skipSpace_spaces left hl '\x7b' (by decide)]
    show Draft.objectRest _ true (r.draft []) _ = _
    refine objectRest_items hr hitems ?_ ?_ ?_ _ ?_ rest
    · exact hperm.nodup_iff.mpr (by decide)
    · exact fun f _ => List.not_mem_nil
    · exact fun f => .inr (hperm.mem_iff.mpr (f.mem_all))
    · rw [List.length_map] at hlength
      rw [List.length_append]
      simp only [if_true] at hlength
      omega

end Record

/-! ## Next addresses that have been read -/

namespace Draft

/-- the next address, if it has been read, is read back from its text -/
def Settled (d : Draft) : Prop := ∀ n, d.next = some n → n.Settled

theorem settled_of_read {d d' : Draft} (hd : d.Settled) (f : RecordField) (t t' : Text)
    (h : d.read f t = .ok (d', t')) : d'.Settled := by
  cases f with
  | next =>
    obtain ⟨⟨v, u⟩, -, h⟩ := (bind_eq_ok_iff _ _ _).mp h
    obtain ⟨rfl, -⟩ := Prod.mk.inj (Except.ok.inj h)
    rintro n hn
    rw [← Option.some.inj hn]
    exact NextAddress.settled_ofText v
  | _ =>
    obtain ⟨⟨v, u⟩, -, h⟩ := (bind_eq_ok_iff _ _ _).mp h
    obtain ⟨rfl, -⟩ := Prod.mk.inj (Except.ok.inj h)
    exact hd

theorem settled_complete {d : Draft} (hd : d.Settled) (address : Text) :
    (d.complete address).next.Settled := by
  show (d.next.getD .fromMemory).Settled
  cases hn : d.next with
  | none => exact NextAddress.settled_ofText NextAddress.sentinel
  | some n => exact hd n hn

theorem settled_of_objectRest (fuel : Nat) (first : Bool) (d : Draft) (hd : d.Settled) (t : Text)
    (r : Record) (t' : Text) (h : objectRest fuel first d t = .ok (r, t')) : r.next.Settled := by
  induction fuel generalizing first d t with
  | zero => exact absurd h (by simp [objectRest])
  | succ fuel ih =>
    rw [objectRest] at h
    obtain ⟨next, -, h⟩ := (bind_eq_ok_iff _ _ _).mp h
    cases next with
    | none =>
      cases ha : d.address with
      | none =>
        rw [ha] at h
        exact nomatch h
      | some a =>
        rw [ha] at h
        obtain ⟨rfl, -⟩ := Prod.mk.inj (Except.ok.inj h)
        exact settled_complete hd a
    | some t =>
      obtain ⟨⟨name, u⟩, -, h⟩ := (bind_eq_ok_iff _ _ _).mp h
      cases hf : RecordField.ofName? name with
      | none =>
        simp only [hf] at h
        obtain ⟨u, -, h⟩ := (bind_eq_ok_iff _ _ _).mp h
        obtain ⟨u, -, h⟩ := (bind_eq_ok_iff _ _ _).mp h
        exact ih false d hd u h
      | some f =>
        simp only [hf] at h
        split at h
        · exact nomatch h
        · obtain ⟨u, -, h⟩ := (bind_eq_ok_iff _ _ _).mp h
          obtain ⟨⟨d', u'⟩, hread, h⟩ := (bind_eq_ok_iff _ _ _).mp h
          exact ih false d' (settled_of_read hd f u u' hread) u' h

theorem settled_of_listRest (first : Bool) (d : Draft) (hd : d.Settled) (fields : List RecordField)
    (t : Text) (d' : Draft) (t' : Text) (h : listRest first d fields t = .ok (d', t')) :
    d'.Settled := by
  induction fields generalizing first d t with
  | nil =>
    obtain ⟨rfl, -⟩ := Prod.mk.inj (Except.ok.inj h)
    exact hd
  | cons f fields ih =>
    rw [listRest] at h
    obtain ⟨next, -, h⟩ := (bind_eq_ok_iff _ _ _).mp h
    cases next with
    | none =>
      simp only at h
      split at h
      · exact nomatch h
      · exact ih first d hd t h
    | some u =>
      obtain ⟨⟨d₁, u₁⟩, hread, h⟩ := (bind_eq_ok_iff _ _ _).mp h
      exact ih false d₁ (settled_of_read hd f u u₁ hread) u₁ h

end Draft

namespace Record

theorem settled_of_ofJson (t : Text) (r : Record) (t' : Text) (h : ofJson t = .ok (r, t')) :
    r.next.Settled := by
  have hempty : ({} : Draft).Settled := fun n hn => absurd hn (by simp)
  unfold ofJson at h
  split at h
  · next rest _ =>
    obtain ⟨⟨d, u⟩, hrest, h⟩ := (bind_eq_ok_iff _ _ _).mp h
    have hd := Draft.settled_of_listRest true {} hempty RecordField.all rest d u hrest
    cases ha : d.address with
    | none =>
      simp only [ha] at h
      exact nomatch h
    | some a =>
      simp only [ha] at h
      obtain ⟨u', -, h⟩ := (bind_eq_ok_iff _ _ _).mp h
      obtain ⟨rfl, -⟩ := Prod.mk.inj (Except.ok.inj h)
      exact Draft.settled_complete hd a
  · split at h
    · exact Draft.settled_of_objectRest _ true {} hempty _ r t' h
    · exact absurd h (by simp)
  · exact absurd h (by simp)

theorem settled_of_listOfJson (t : Text) (records : List Record)
    (h : listOfJson t = .ok records) : ∀ r ∈ records, r.next.Settled := by
  obtain ⟨⟨rs, u⟩, hlist, h⟩ := (bind_eq_ok_iff _ _ _).mp h
  simp only at h
  split at h
  · obtain rfl := Except.ok.inj h
    exact forall_of_list ofJson _ settled_of_ofJson t rs u hlist
  · exact nomatch h

/-! ## Round trip -/

theorem listOfJson_document (records : List Record) (hr : ∀ r ∈ records, r.next.Settled)
    (t : Text) (h : Document (array records) t) : listOfJson t = .ok records := by
  obtain ⟨left, u, right, hl, hu, hright, rfl⟩ := h
  have hreads : List.Forall₂ (Reads ofJson) records (records.map object) := by
    rw [List.forall₂_map_right_iff, List.forall₂_same]
    exact fun r hmem => reads_ofJson (hr r hmem)
  have hempty : (skipSpace right).isEmpty = true := by
    unfold skipSpace
    rw [List.dropWhile_eq_nil_iff.mpr hright]
    rfl
  unfold listOfJson
  rw [reads_list ofJson records _ hreads left u right hl hu]
  exact if_pos hempty

/-- **Records survive being written and read.**  Records that have been read are written as a list
of objects with all fields, and every text of this list, however it is spelled and in whatever order
the fields stand, is read as the same records; so it gives the same store. -/
theorem listOfJson_array (t : Text) (records : List Record) (h : listOfJson t = .ok records) :
    (∀ r ∈ records, NextAddress.ofText r.next.text = r.next) ∧
      listOfJson (array records).write = .ok records ∧
      ∀ t', Document (array records) t' → listOfJson t' = .ok records ∧
        (listOfJson t').map Rom.assemble = (listOfJson t).map Rom.assemble := by
  have hsettled := settled_of_listOfJson t records h
  have hread := listOfJson_document records hsettled
  refine ⟨hsettled, hread _ (document_write _), fun t' ht' => ⟨hread t' ht', ?_⟩⟩
  rw [hread t' ht', h]

/-- an object and a list: an empty list of registers and none, `MBR` with a blank and an address -/
theorem listOfJson_array_two :
    let text := ("[\x7b\"next\": \" MBR\", \"address\": \"0x00\", \"writeTo\": []\x7d," ++
      "[\"\\u00e9\", \"0x1\", null, null, \"A\", \"READ\", \" 0x02\"]]").toList
    let records : List Record := [{ address := "0x00".toList, writeTo := some [] },
      { description := some "é".toList, address := "0x1".toList, operation := some "A".toList,
        action := .read, next := .explicit " 0x02".toList }]
    listOfJson text = .ok records ∧ listOfJson (array records).write = .ok records := by
  intro text records
  have hread : listOfJson text = .ok records := by decide +kernel
  exact ⟨hread, (listOfJson_array text records hread).2.1⟩

end Record
end TinyCpu
