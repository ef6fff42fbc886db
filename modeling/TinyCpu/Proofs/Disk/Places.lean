import TinyCpu.Proofs.Outcome
import TinyCpu.Disk.Basic

/-!
# What paths name

The file operations seen from the locations on a disk.

* `Disk.stat?`       what stands at the end of a path;
* `Disk.location?`   the location that a path names;
* `Disk.room?`       the location where a path lets a file be written;
* `Disk.SameDirectories`   two disks on which every path names the same location.

Each operation either has room for its files and changes the entries there, or fails and changes
nothing.  No operation makes or removes a directory, so paths keep their locations.
-/

namespace TinyCpu
open Text

def Place.location (x : Place) : Location := x.directory ++ x.name.toList

namespace Disk

/-- the end of a path, if all directories on the way to it exist -/
def place? (d : Disk) (p : Text) : Option Place := (d.locate p).toOption

def location? (d : Disk) (p : Text) : Option Location := (d.place? p).map Place.location

/-- what stands at a place; behind a slash only a directory counts -/
def standing? (d : Disk) (x : Place) : Option Entry :=
  match x.name with
  | none => some .directory
  | some name => (d.entry? (x.directory ++ [name])).filter fun e => !x.slash || e == .directory

def stat? (d : Disk) (p : Text) : Option Entry := (d.place? p).bind d.standing?

/-- the location where a path lets a file be written -/
def room? (d : Disk) (p : Text) : Option Location :=
  match d.place? p with
  | some ⟨l, some name, false⟩ =>
    if d.entry? (l ++ [name]) = some .directory then none else some (l ++ [name])
  | _ => none

theorem place?_eq_some_iff (d : Disk) (p : Text) (x : Place) :
    d.place? p = some x ↔ d.locate p = .ok x := by
  unfold place?
  cases d.locate p <;> simp [Except.toOption]

theorem room?_eq_some_iff (d : Disk) (p : Text) (l : Location) :
    d.room? p = some l ↔ ∃ dir name, d.locate p = .ok ⟨dir, some name, false⟩ ∧
      l = dir ++ [name] ∧ d.entry? l ≠ some .directory := by
  unfold room?
  constructor
  · intro h
    split at h
    · next dir name hplace =>
      split at h
      · exact absurd h (by simp)
      · next hdir =>
        obtain rfl := Option.some.inj h
        exact ⟨dir, name, (place?_eq_some_iff d p _).mp hplace, rfl, hdir⟩
    · exact absurd h (by simp)
  · rintro ⟨dir, name, hplace, rfl, hdir⟩
    rw [(place?_eq_some_iff d p _).mpr hplace]
    simp only [if_neg hdir]

theorem location?_of_room? {d : Disk} {p : Text} {l : Location} (h : d.room? p = some l) :
    d.location? p = some l := by
  obtain ⟨dir, name, hplace, rfl, -⟩ := (room?_eq_some_iff d p l).mp h
  unfold location?
  rw [(place?_eq_some_iff d p _).mpr hplace]
  rfl

theorem stat?_of_room? {d : Disk} {p : Text} {l : Location} (h : d.room? p = some l) :
    d.stat? p = d.entry? l := by
  obtain ⟨dir, name, hplace, rfl, -⟩ := (room?_eq_some_iff d p l).mp h
  unfold stat?
  rw [(place?_eq_some_iff d p _).mpr hplace]
  show (d.entry? (dir ++ [name])).filter (fun _ => true) = d.entry? (dir ++ [name])
  cases d.entry? (dir ++ [name]) <;> rfl

/-- a file stands only where there is room for one -/
theorem exists_room?_of_stat? {d : Disk} {p : Text} {c : List UInt8}
    (h : d.stat? p = some (.file c)) : ∃ l, d.room? p = some l ∧ d.entry? l = some (.file c) := by
  unfold stat? at h
  obtain ⟨⟨dir, name, slash⟩, hplace, hstand⟩ := Option.bind_eq_some_iff.mp h
  cases name with
  | none => simp [standing?] at hstand
  | some name =>
    obtain ⟨hentry, hslash⟩ := Option.filter_eq_some_iff.mp hstand
    obtain rfl : slash = false := by simpa using hslash
    refine ⟨dir ++ [name], ?_, hentry⟩
    refine (room?_eq_some_iff d p _).mpr ⟨dir, name, (place?_eq_some_iff d p _).mp hplace, rfl, ?_⟩
    rw [hentry]
    simp

theorem read_eq_ok_iff (d : Disk) (p : Text) (c : List UInt8) :
    d.read p = .ok c ↔ d.stat? p = some (.file c) := by
  unfold read
  rw [bind_eq_ok_iff]
  constructor
  · rintro ⟨⟨dir, name, slash⟩, hplace, hread⟩
    cases name with
    | none => exact absurd hread (by simp)
    | some name =>
      have hroom : slash = false → d.entry? (dir ++ [name]) = some (.file c) →
          d.stat? p = some (.file c) := by
        rintro rfl hentry
        have h : d.room? p = some (dir ++ [name]) :=
          (room?_eq_some_iff d p _).mpr ⟨dir, name, hplace, rfl, by rw [hentry]; simp⟩
        rw [stat?_of_room? h, hentry]
      cases hentry : d.entry? (dir ++ [name]) with
      | none => simp [hentry] at hread
      | some e => cases e <;> cases slash <;> simp_all
  · intro h
    obtain ⟨l, hroom, hentry⟩ := exists_room?_of_stat? h
    obtain ⟨dir, name, hplace, rfl, -⟩ := (room?_eq_some_iff d p l).mp hroom
    exact ⟨_, hplace, by simp [hentry]⟩

theorem not_directory_of_room? {d : Disk} {p : Text} {l : Location} (h : d.room? p = some l) :
    d.entry? l ≠ some .directory := by
  obtain ⟨dir, name, -, -, hdir⟩ := (room?_eq_some_iff d p l).mp h
  exact hdir

/-! ## Disks with the same directories -/

/-- two disks with the same working directory and directories at the same locations -/
structure SameDirectories (d d' : Disk) : Prop where
  current : d'.current = d.current
  directory : ∀ l, d'.entry? l = some .directory ↔ d.entry? l = some .directory

namespace SameDirectories
variable {d d' d'' : Disk}

theorem refl (d : Disk) : d.SameDirectories d := ⟨rfl, fun _ => Iff.rfl⟩

theorem trans (h : d.SameDirectories d') (h' : d'.SameDirectories d'') : d.SameDirectories d'' :=
  ⟨h'.current.trans h.current, fun l => (h'.directory l).trans (h.directory l)⟩

theorem enter_eq_ok_iff (h : d.SameDirectories d') (l : Location) (name : Text) (l' : Location) :
    d'.enter l name = .ok l' ↔ d.enter l name = .ok l' := by
  have hdir := h.directory (l ++ [name])
  unfold enter
  split
  · rfl
  split
  · rfl
  split
  · rfl
  -- the two errors may differ: a file may stand on one disk where nothing stands on the other
  generalize d'.entry? (l ++ [name]) = e' at *
  generalize d.entry? (l ++ [name]) = e at *
  rcases e with _ | _ | _ <;> rcases e' with _ | _ | _ <;> simp_all

theorem foldlM_enter_eq_ok_iff (h : d.SameDirectories d') (names : List Text) (l l' : Location) :
    names.foldlM d'.enter l = .ok l' ↔ names.foldlM d.enter l = .ok l' := by
  induction names generalizing l with
  | nil => rfl
  | cons name names ih =>
    rw [foldlM_cons_eq, foldlM_cons_eq, bind_eq_ok_iff, bind_eq_ok_iff]
    simp only [h.enter_eq_ok_iff, ih]

theorem locate_eq_ok_iff (h : d.SameDirectories d') (p : Text) (x : Place) :
    d'.locate p = .ok x ↔ d.locate p = .ok x := by
  unfold locate
  rw [h.current]
  split
  · rfl
  split
  · rfl
  split
  · rfl
  rw [bind_eq_ok_iff, bind_eq_ok_iff]
  simp only [h.foldlM_enter_eq_ok_iff]

theorem place?_eq (h : d.SameDirectories d') (p : Text) : d'.place? p = d.place? p := by
  apply Option.ext
  intro x
  rw [place?_eq_some_iff, place?_eq_some_iff, h.locate_eq_ok_iff]

theorem room?_eq (h : d.SameDirectories d') (p : Text) : d'.room? p = d.room? p := by
  apply Option.ext
  intro l
  rw [room?_eq_some_iff, room?_eq_some_iff]
  simp only [h.locate_eq_ok_iff, ne_eq, h.directory]

/-- what stands at the end of a path is told by the entry at its location -/
theorem stat?_eq (h : d.SameDirectories d') (p : Text)
    (hentry : ∀ l, d.location? p = some l → d'.entry? l = d.entry? l) : d'.stat? p = d.stat? p := by
  unfold stat?
  rw [h.place?_eq]
  cases hplace : d.place? p with
  | none => rfl
  | some x =>
    obtain ⟨dir, name, slash⟩ := x
    cases name with
    | none => rfl
    | some name =>
      have hloc : d.location? p = some (dir ++ [name]) := by
        unfold location?
        rw [hplace]
        rfl
      simp only [Option.bind_some, standing?, hentry _ hloc]

end SameDirectories

/-! ## Changes at one location -/

/-- the second disk is the first one with this entry at a location -/
structure Update (d : Disk) (l : Location) (e : Option Entry) (d' : Disk) : Prop where
  current : d'.current = d.current
  after : ∀ l', d'.entry? l' = if l' = l then e else d.entry? l'

theorem Update.sameDirectories {d d' : Disk} {p : Text} {l : Location} {e : Option Entry}
    (h : d.Update l e d') (hroom : d.room? p = some l) (he : e ≠ some .directory) :
    d.SameDirectories d' := by
  refine ⟨h.current, fun l' => ?_⟩
  rw [h.after l']
  by_cases hl : l' = l
  · rw [if_pos hl, hl]
    exact iff_of_false he (not_directory_of_room? hroom)
  · rw [if_neg hl]

theorem update_put (d : Disk) (l : Location) (c : List UInt8) (hl : l ≠ []) :
    d.Update l (some (.file c)) (d.put l c) := by
  refine ⟨rfl, fun l' => ?_⟩
  unfold Disk.entry? put
  by_cases h : l' = l
  · subst h
    rw [if_neg (by simpa using hl), if_pos rfl, SortedMap.get?_insert,
      if_pos Std.ReflCmp.compare_self]
  · have hne : compare l' l ≠ .eq := fun he => h (Std.LawfulEqCmp.eq_of_compare he)
    rw [if_neg h, SortedMap.get?_insert, if_neg hne]

theorem update_erase (d : Disk) (l : Location) (hl : l ≠ []) :
    d.Update l none { d with entries := d.entries.erase l } := by
  refine ⟨rfl, fun l' => ?_⟩
  unfold Disk.entry?
  by_cases h : l' = l
  · subst h
    rw [if_neg (by simpa using hl), if_pos rfl, SortedMap.get?_erase,
      if_pos Std.ReflCmp.compare_self]
  · have hne : compare l' l ≠ .eq := fun he => h (Std.LawfulEqCmp.eq_of_compare he)
    rw [if_neg h, SortedMap.get?_erase, if_neg hne]

/-! ## The operations -/

theorem write_of_room {d : Disk} {p : Text} {l : Location} (h : d.room? p = some l)
    (c : List UInt8) : ∃ d', d.write p c = .ok d' ∧ d.Update l (some (.file c)) d' := by
  obtain ⟨dir, name, hplace, rfl, hdir⟩ := (room?_eq_some_iff d p l).mp h
  refine ⟨d.put (dir ++ [name]) c, ?_, update_put d _ c (by simp)⟩
  unfold write
  rw [hplace]
  simp [Except.bind, hdir]

theorem write_of_no_room {d : Disk} {p : Text} (h : d.room? p = none) (c : List UInt8) :
    ∃ e, d.write p c = .error e := by
  cases hw : d.write p c with
  | error e => exact ⟨e, rfl⟩
  | ok d' =>
    obtain ⟨⟨dir, name, slash⟩, hplace, hok⟩ := (bind_eq_ok_iff _ _ _).mp hw
    cases name with
    | none => exact absurd hok (by simp)
    | some name =>
      by_cases hbad : slash = true ∨ d.entry? (dir ++ [name]) = some .directory
      · simp [hbad] at hok
      · obtain ⟨hslash, hdir⟩ := not_or.mp hbad
        obtain rfl : slash = false := by simpa using hslash
        have hroom := (room?_eq_some_iff d p _).mpr ⟨dir, name, hplace, rfl, hdir⟩
        exact absurd (h.symm.trans hroom) (by simp)

theorem rename_of_room {d : Disk} {s t : Text} {l l' : Location} {c : List UInt8}
    (hs : d.room? s = some l) (hc : d.entry? l = some (.file c)) (ht : d.room? t = some l') :
    ∃ d₁ d', d.rename s t = .ok d' ∧ d.Update l none d₁ ∧ d₁.Update l' (some (.file c)) d' := by
  obtain ⟨dir, name, hplace, rfl, -⟩ := (room?_eq_some_iff d s l).mp hs
  obtain ⟨dir', name', hplace', rfl, hdir'⟩ := (room?_eq_some_iff d t l').mp ht
  refine ⟨_, _, ?_, update_erase d _ (by simp), update_put _ _ c (by simp)⟩
  unfold rename
  rw [hplace, hplace']
  simp [Except.bind, hc, hdir']

theorem rename_of_no_room {d : Disk} {t : Text} (h : d.room? t = none) (s : Text) :
    ∃ e, d.rename s t = .error e := by
  cases hr : d.rename s t with
  | error e => exact ⟨e, rfl⟩
  | ok d' =>
    obtain ⟨⟨dir, name, slash⟩, hplace, hrest⟩ := (bind_eq_ok_iff _ _ _).mp hr
    obtain ⟨⟨dir', name', slash'⟩, hplace', hok⟩ := (bind_eq_ok_iff _ _ _).mp hrest
    cases name with
    | none => exact absurd hok (by simp)
    | some name =>
      cases name' with
      | none => exact absurd hok (by simp)
      | some name' =>
        simp only at hok
        split at hok
        · exact absurd hok (by simp)
        · exact absurd hok (by simp)
        · split at hok
          · exact absurd hok (by simp)
          · next hslash =>
            split at hok
            · exact absurd hok (by simp)
            · next hdir =>
              obtain rfl : slash' = false := by simpa using (not_or.mp hslash).2
              have hroom := (room?_eq_some_iff d t _).mpr ⟨dir', name', hplace', rfl, hdir⟩
              exact absurd (h.symm.trans hroom) (by simp)

theorem remove_of_room {d : Disk} {p : Text} {l : Location} (h : d.room? p = some l) :
    d.Update l none (d.remove p) := by
  obtain ⟨dir, name, hplace, rfl, hdir⟩ := (room?_eq_some_iff d p l).mp h
  unfold remove
  rw [hplace]
  cases hentry : d.entry? (dir ++ [name]) with
  | some e =>
    cases e with
    | file c =>
      simp only [hentry]
      exact update_erase d _ (by simp)
    | directory => exact absurd hentry hdir
  | none =>
    simp only [hentry]
    refine ⟨rfl, fun l' => ?_⟩
    by_cases hl : l' = dir ++ [name]
    · rw [if_pos hl, hl, hentry]
    · rw [if_neg hl]

theorem remove_of_no_room {d : Disk} {p : Text} (h : d.room? p = none) : d.remove p = d := by
  unfold remove
  split
  · next dir name hplace =>
    split
    · next c hentry =>
      have hroom := (room?_eq_some_iff d p _).mpr ⟨dir, name, hplace, rfl, by rw [hentry]; simp⟩
      exact absurd (h.symm.trans hroom) (by simp)
    · rfl
  · rfl

theorem entry?_remove (d : Disk) (p : Text) (l : Location) :
    Disk.entry? (d.remove p) l = if d.room? p = some l then none else d.entry? l := by
  cases h : d.room? p with
  | none => rw [remove_of_no_room h, if_neg (by simp)]
  | some l' =>
    rw [(remove_of_room h).after l]
    simp only [Option.some.injEq, eq_comm]

theorem sameDirectories_remove (d : Disk) (p : Text) : d.SameDirectories (d.remove p) := by
  cases h : d.room? p with
  | none =>
    rw [remove_of_no_room h]
    exact .refl d
  | some l => exact (remove_of_room h).sameDirectories h (by simp)

end Disk
end TinyCpu
