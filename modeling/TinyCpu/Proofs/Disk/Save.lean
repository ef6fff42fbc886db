import TinyCpu.Proofs.Disk.Places
import TinyCpu.Disk.Files

/-!
# The two-file save

What a save leaves on a disk, for each step at which it can fail.

* `Artifacts.saveOn`       the run of a save on a disk;
* `Artifacts.save_cases`   the three outcomes, told by which paths have room for a file;
* `Artifacts.save_transaction`         what a save leaves behind, done or undone;
* `Artifacts.save_failure_keeps_iff`   when a failed save keeps the files of an earlier one.

The paths of a save must not meet: a staged file would otherwise be taken for another one.
-/

namespace TinyCpu
open Text

/-! ## Runs on a disk -/

theorem run_bind {ε σ α β : Type} (x : ExceptT ε (StateM σ) α) (f : α → ExceptT ε (StateM σ) β)
    (s : σ) : (x >>= f).run.run s = match x.run.run s with
      | (.ok a, s') => (f a).run.run s'
      | (.error e, s') => (.error e, s') := by
  simp only [bind, ExceptT.bind, ExceptT.run, ExceptT.mk, StateT.run, StateT.bind]
  cases x s with
  | mk result s' => cases result <;> rfl

theorem run_about (path : Text) (change : Disk → Except OsError Disk) (d : Disk) :
    (about path (Disk.attempt change)).run.run d = match change d with
      | .ok d' => (.ok (), d')
      | .error e => (.error ⟨path, e⟩, d) := by
  show (Except.mapError (WriteError.mk path) (Disk.attempt change d).1,
    (Disk.attempt change d).2) = _
  unfold Disk.attempt
  cases change d <;> rfl

namespace Artifacts
variable (a : Artifacts) (p q : Text) (d : Disk)

def stageOn : Except WriteError Unit × Disk :=
  (a.stage p q : ExceptT WriteError (StateM Disk) Unit).run.run d

def saveOn : Except WriteError Unit × Disk :=
  (a.save p q : StateM Disk (Except WriteError Unit)).run d

theorem stageOn_eq : a.stageOn p q d =
    match d.write (Path.staging p) a.binary with
    | .error e => (.error ⟨Path.staging p, e⟩, d)
    | .ok d₁ =>
      match d₁.write (Path.staging q) (toUtf8 a.memoryText) with
      | .error e => (.error ⟨Path.staging q, e⟩, d₁)
      | .ok d₂ =>
        match d₂.rename (Path.staging p) p with
        | .error e => (.error ⟨p, e⟩, d₂)
        | .ok d₃ => (.ok (), d₃) := by
  unfold stageOn stage
  simp only [run_bind, Files.write, Files.rename, run_about]
  cases d.write (Path.staging p) a.binary with
  | error e => rfl
  | ok d₁ =>
    simp only
    cases d₁.write (Path.staging q) (toUtf8 a.memoryText) with
    | error e => rfl
    | ok d₂ =>
      simp only
      cases d₂.rename (Path.staging p) p <;> rfl

theorem saveOn_eq : a.saveOn p q d =
    match a.stageOn p q d with
    | (.error e, d₀) =>
      (.error e, (d₀.remove (Path.staging p)).remove (Path.staging q))
    | (.ok (), d₃) =>
      match d₃.rename (Path.staging q) q with
      | .error e => (.error ⟨q, e⟩, (d₃.remove p).remove (Path.staging q))
      | .ok d₄ => (.ok (), d₄) := by
  unfold saveOn stageOn save
  rw [StateT.run_bind]
  cases (a.stage p q : ExceptT WriteError (StateM Disk) Unit).run.run d with
  | mk result d₃ =>
    rcases result with e | ⟨⟩
    · rfl
    · show StateT.run (_ >>= _) d₃ = _
      have hrename : (about q (Files.rename (Path.staging q) q) :
          ExceptT WriteError (StateM Disk) Unit).run.run d₃ = _ :=
        run_about q (fun d => d.rename (Path.staging q) q) d₃
      rw [StateT.run_bind, hrename]
      dsimp only
      cases d₃.rename (Path.staging q) q <;> rfl

/-! ## Staging -/

section
variable {a p q d} {l₁ l₂ l₃ l₄ : Location}

theorem writes_of_room (h₁ : d.room? (Path.staging p) = some l₁)
    (h₂ : d.room? (Path.staging q) = some l₂) :
    ∃ d₁ d₂, d.write (Path.staging p) a.binary = .ok d₁ ∧
      d₁.write (Path.staging q) (toUtf8 a.memoryText) = .ok d₂ ∧ d.SameDirectories d₂ ∧
      ∀ l, d₂.entry? l = if l = l₂ then some (.file (toUtf8 a.memoryText))
        else if l = l₁ then some (.file a.binary) else d.entry? l := by
  obtain ⟨d₁, hw₁, hu₁⟩ := Disk.write_of_room h₁ a.binary
  have hs₁ := hu₁.sameDirectories h₁ (by simp)
  have h₂' : d₁.room? (Path.staging q) = some l₂ := by rw [hs₁.room?_eq, h₂]
  obtain ⟨d₂, hw₂, hu₂⟩ := Disk.write_of_room h₂' (toUtf8 a.memoryText)
  have hs₂ := hu₂.sameDirectories h₂' (by simp)
  refine ⟨d₁, d₂, hw₁, hw₂, hs₁.trans hs₂, fun l => ?_⟩
  rw [hu₂.after, hu₁.after]

theorem stage_of_room (h₁ : d.room? (Path.staging p) = some l₁)
    (h₂ : d.room? (Path.staging q) = some l₂) (h₃ : d.room? p = some l₃) (h₁₂ : l₁ ≠ l₂) :
    ∃ d₃, a.stageOn p q d = (.ok (), d₃) ∧
      d.SameDirectories d₃ ∧
      ∀ l, d₃.entry? l = if l = l₃ then some (.file a.binary) else if l = l₁ then none
        else if l = l₂ then some (.file (toUtf8 a.memoryText)) else d.entry? l := by
  obtain ⟨d₁, d₂, hw₁, hw₂, hs₂, he₂⟩ := writes_of_room (a := a) h₁ h₂
  have hbinary : d₂.entry? l₁ = some (.file a.binary) := by rw [he₂, if_neg h₁₂, if_pos rfl]
  obtain ⟨d₂', d₃, hr, hu, hu'⟩ := Disk.rename_of_room (by rw [hs₂.room?_eq, h₁]) hbinary
    (by rw [hs₂.room?_eq, h₃])
  have hs₂' := hs₂.trans (hu.sameDirectories (by rw [hs₂.room?_eq, h₁]) (by simp))
  have hs₃ := hs₂'.trans (hu'.sameDirectories (by rw [hs₂'.room?_eq, h₃]) (by simp))
  refine ⟨d₃, ?_, hs₃, fun l => ?_⟩
  · simp only [stageOn_eq, hw₁, hw₂, hr]
  · -- the staged binary has left its location, whatever was staged there before
    rw [hu'.after, hu.after, he₂]
    by_cases h : l = l₁
    · rw [if_pos h, if_pos h]
    · simp only [if_neg h]

theorem stage_of_no_room
    (h : d.room? (Path.staging p) = none ∨ d.room? (Path.staging q) = none ∨ d.room? p = none) :
    ∃ e d₀, a.stageOn p q d = (.error e, d₀) ∧
      d.SameDirectories d₀ ∧
      ∀ l, d.room? (Path.staging p) ≠ some l → d.room? (Path.staging q) ≠ some l →
        d₀.entry? l = d.entry? l := by
  rw [stageOn_eq]
  cases h₁ : d.room? (Path.staging p) with
  | none =>
    obtain ⟨e, hw⟩ := Disk.write_of_no_room h₁ a.binary
    exact ⟨⟨Path.staging p, e⟩, d, by simp only [hw], .refl d, fun _ _ _ => rfl⟩
  | some l₁ =>
    cases h₂ : d.room? (Path.staging q) with
    | none =>
      obtain ⟨d₁, hw₁, hu₁⟩ := Disk.write_of_room h₁ a.binary
      have hs₁ := hu₁.sameDirectories h₁ (by simp)
      obtain ⟨e, hw₂⟩ := Disk.write_of_no_room (by rw [hs₁.room?_eq, h₂]) (toUtf8 a.memoryText)
      refine ⟨⟨Path.staging q, e⟩, d₁, by simp only [hw₁, hw₂], hs₁, fun l hl _ => ?_⟩
      rw [hu₁.after, if_neg fun he => hl (by rw [he])]
    | some l₂ =>
      have h₃ : d.room? p = none := by simpa [h₁, h₂] using h
      obtain ⟨d₁, d₂, hw₁, hw₂, hs₂, he₂⟩ := writes_of_room (a := a) h₁ h₂
      obtain ⟨e, hr⟩ := Disk.rename_of_no_room (by rw [hs₂.room?_eq, h₃]) (Path.staging p)
      refine ⟨⟨p, e⟩, d₂, by simp only [hw₁, hw₂, hr], hs₂, fun l hl hl' => ?_⟩
      rw [he₂, if_neg fun he => hl' (by rw [he]), if_neg fun he => hl (by rw [he])]

/-! ## The outcomes of a save -/

theorem save_of_room (h₁ : d.room? (Path.staging p) = some l₁)
    (h₂ : d.room? (Path.staging q) = some l₂) (h₃ : d.room? p = some l₃) (h₄ : d.room? q = some l₄)
    (h₁₂ : l₁ ≠ l₂) (h₂₃ : l₂ ≠ l₃) :
    ∃ d', a.saveOn p q d = (.ok (), d') ∧
      d.SameDirectories d' ∧
      ∀ l, d'.entry? l = if l = l₄ then some (.file (toUtf8 a.memoryText))
        else if l = l₂ then none else if l = l₃ then some (.file a.binary)
        else if l = l₁ then none else d.entry? l := by
  obtain ⟨d₃, hstage, hs₃, he₃⟩ := stage_of_room (a := a) h₁ h₂ h₃ h₁₂
  have htext : d₃.entry? l₂ = some (.file (toUtf8 a.memoryText)) := by
    rw [he₃, if_neg h₂₃, if_neg h₁₂.symm, if_pos rfl]
  obtain ⟨d₃', d', hr, hu, hu'⟩ := Disk.rename_of_room (by rw [hs₃.room?_eq, h₂]) htext
    (by rw [hs₃.room?_eq, h₄])
  have hs₃' := hs₃.trans (hu.sameDirectories (by rw [hs₃.room?_eq, h₂]) (by simp))
  have hs := hs₃'.trans (hu'.sameDirectories (by rw [hs₃'.room?_eq, h₄]) (by simp))
  refine ⟨d', ?_, hs, fun l => ?_⟩
  · simp only [saveOn_eq, hstage, hr]
  · rw [hu'.after, hu.after, he₃]
    by_cases h : l = l₂
    · rw [if_pos h, if_pos h]
    · simp only [if_neg h]

/-- only the text has no room: the binary that took its place is removed with the staged text -/
theorem save_of_no_room_last (h₁ : d.room? (Path.staging p) = some l₁)
    (h₂ : d.room? (Path.staging q) = some l₂) (h₃ : d.room? p = some l₃) (h₄ : d.room? q = none)
    (h₁₂ : l₁ ≠ l₂) :
    ∃ e d', a.saveOn p q d = (.error e, d') ∧
      d.SameDirectories d' ∧
      ∀ l, d'.entry? l = if l = l₁ ∨ l = l₂ ∨ l = l₃ then none else d.entry? l := by
  obtain ⟨d₃, hstage, hs₃, he₃⟩ := stage_of_room (a := a) h₁ h₂ h₃ h₁₂
  obtain ⟨e, hr⟩ := Disk.rename_of_no_room (by rw [hs₃.room?_eq, h₄]) (Path.staging q)
  have hs' := hs₃.trans (d₃.sameDirectories_remove p)
  have hs := hs'.trans ((d₃.remove p).sameDirectories_remove (Path.staging q))
  refine ⟨⟨q, e⟩, (d₃.remove p).remove (Path.staging q), by simp only [saveOn_eq, hstage, hr], hs,
    fun l => ?_⟩
  rw [Disk.entry?_remove, Disk.entry?_remove, hs'.room?_eq, hs₃.room?_eq, h₂, h₃, he₃]
  by_cases e₂ : l = l₂
  · simp [e₂]
  by_cases e₃ : l = l₃
  · simp [e₃]
  by_cases e₁ : l = l₁
  · simp [e₁, e₁ ▸ e₃]
  · simp [e₁, e₂, e₃, Ne.symm e₂, Ne.symm e₃]

/-- the binary or a staged file has no room: the staged files are removed -/
theorem save_of_no_room
    (h : d.room? (Path.staging p) = none ∨ d.room? (Path.staging q) = none ∨ d.room? p = none) :
    ∃ e d', a.saveOn p q d = (.error e, d') ∧
      d.SameDirectories d' ∧
      ∀ l, d'.entry? l =
        if d.room? (Path.staging p) = some l ∨ d.room? (Path.staging q) = some l then none
        else d.entry? l := by
  obtain ⟨e, d₀, hstage, hs₀, he₀⟩ := stage_of_no_room (a := a) h
  have hs' := hs₀.trans (d₀.sameDirectories_remove (Path.staging p))
  have hs := hs'.trans ((d₀.remove (Path.staging p)).sameDirectories_remove (Path.staging q))
  refine ⟨e, (d₀.remove (Path.staging p)).remove (Path.staging q),
    by simp only [saveOn_eq, hstage], hs, fun l => ?_⟩
  rw [Disk.entry?_remove, Disk.entry?_remove, hs'.room?_eq, hs₀.room?_eq]
  by_cases e₂ : d.room? (Path.staging q) = some l
  · simp [e₂]
  by_cases e₁ : d.room? (Path.staging p) = some l
  · simp [e₁]
  · rw [if_neg e₂, if_neg e₁, if_neg (not_or.mpr ⟨e₁, e₂⟩)]
    exact he₀ l e₁ e₂

end

end Artifacts

/-! ## Paths that do not meet -/

namespace Disk

/-- the paths name different locations, as far as they name any -/
def Apart (d : Disk) (paths : List Text) : Prop :=
  paths.Pairwise fun x y => d.location? x = none ∨ d.location? x ≠ d.location? y

instance (d : Disk) (paths : List Text) : Decidable (d.Apart paths) :=
  inferInstanceAs (Decidable (paths.Pairwise _))

theorem ne_of_room {d : Disk} {x y : Text} {l l' : Location}
    (h : d.location? x = none ∨ d.location? x ≠ d.location? y) (hx : d.location? x = some l)
    (hy : d.room? y = some l') : l ≠ l' := by
  rintro rfl
  rw [hx, location?_of_room? hy] at h
  simp at h

theorem ne_of_rooms {d : Disk} {x y : Text} {l l' : Location}
    (h : d.location? x = none ∨ d.location? x ≠ d.location? y) (hx : d.room? x = some l)
    (hy : d.room? y = some l') : l ≠ l' := ne_of_room h (location?_of_room? hx) hy

/-- nothing has changed but at the locations of these paths -/
structure SameBut (d : Disk) (paths : List Text) (d' : Disk) : Prop where
  current : d'.current = d.current
  same : ∀ l, (∀ x ∈ paths, d.location? x ≠ some l) → d'.entry? l = d.entry? l
  stat? : ∀ y, (∀ x ∈ paths, d.location? y = none ∨ d.location? y ≠ d.location? x) →
    d'.stat? y = d.stat? y

theorem SameDirectories.sameBut {d d' : Disk} {paths : List Text} (h : d.SameDirectories d')
    (hentry : ∀ l, (∀ x ∈ paths, d.location? x ≠ some l) → d'.entry? l = d.entry? l) :
    d.SameBut paths d' := by
  refine ⟨h.current, hentry, fun y hy => h.stat?_eq y fun l hl => hentry l fun x hx hxl => ?_⟩
  rcases hy x hx with hnone | hne
  · rw [hl] at hnone
    exact absurd hnone (by simp)
  · exact hne (hl.trans hxl.symm)

end Disk

namespace Artifacts

def savePaths (p q : Text) : List Text := [p, q, Path.staging p, Path.staging q]

/-- both files are in their places, and nothing else has changed -/
structure Saved (a : Artifacts) (p q : Text) (d d' : Disk) : Prop where
  binary : d'.stat? p = some (.file a.binary)
  text : d'.stat? q = some (.file (toUtf8 a.memoryText))
  noStagedBinary : d'.stat? (Path.staging p) = none
  noStagedText : d'.stat? (Path.staging q) = none
  same : d.SameBut (savePaths p q) d'

/-- the text is as it was, no staged file is left, and at most the binary has changed -/
structure Undone (p q : Text) (d d' : Disk) : Prop where
  text : d'.stat? q = d.stat? q
  noStagedBinary : ∀ c, d'.stat? (Path.staging p) ≠ some (.file c)
  noStagedText : ∀ c, d'.stat? (Path.staging q) ≠ some (.file c)
  same : d.SameBut (savePaths p q) d'

section
variable {a : Artifacts} {p q : Text} {d : Disk}

theorem stat?_eq_none {d' : Disk} {x : Text} {l : Location} (hs : d.SameDirectories d')
    (hroom : d.room? x = some l) (hentry : d'.entry? l = none) : d'.stat? x = none := by
  rw [Disk.stat?_of_room? (by rw [hs.room?_eq, hroom]), hentry]

theorem saved_of_room (h : d.Apart (savePaths p q))
    (hroom : ∀ x ∈ savePaths p q, (d.room? x).isSome) :
    ∃ d', a.saveOn p q d = (.ok (), d') ∧
      a.Saved p q d d' := by
  simp only [Disk.Apart, savePaths, List.pairwise_cons, List.forall_mem_cons] at h
  obtain ⟨⟨hpq, hps, hpt, -⟩, ⟨hqs, hqt, -⟩, ⟨hst, -⟩, -⟩ := h
  simp only [savePaths, List.forall_mem_cons, Option.isSome_iff_exists] at hroom
  obtain ⟨⟨l₃, h₃⟩, ⟨l₄, h₄⟩, ⟨l₁, h₁⟩, ⟨l₂, h₂⟩, -⟩ := hroom
  have n₁₂ : l₁ ≠ l₂ := Disk.ne_of_rooms hst h₁ h₂
  have n₃₁ : l₃ ≠ l₁ := Disk.ne_of_rooms hps h₃ h₁
  have n₃₂ : l₃ ≠ l₂ := Disk.ne_of_rooms hpt h₃ h₂
  have n₃₄ : l₃ ≠ l₄ := Disk.ne_of_rooms hpq h₃ h₄
  have n₄₁ : l₄ ≠ l₁ := Disk.ne_of_rooms hqs h₄ h₁
  have n₄₂ : l₄ ≠ l₂ := Disk.ne_of_rooms hqt h₄ h₂
  obtain ⟨d', hrun, hs, he⟩ := save_of_room (a := a) h₁ h₂ h₃ h₄ n₁₂ n₃₂.symm
  refine ⟨d', hrun, ?_, ?_, ?_, ?_, ?_⟩
  · rw [Disk.stat?_of_room? (by rw [hs.room?_eq, h₃]), he, if_neg n₃₄, if_neg n₃₂, if_pos rfl]
  · rw [Disk.stat?_of_room? (by rw [hs.room?_eq, h₄]), he, if_pos rfl]
  · apply stat?_eq_none hs h₁
    rw [he, if_neg n₄₁.symm, if_neg n₁₂, if_neg n₃₁.symm, if_pos rfl]
  · apply stat?_eq_none hs h₂
    rw [he, if_neg n₄₂.symm, if_pos rfl]
  · apply hs.sameBut
    intro l hl
    simp only [savePaths, List.forall_mem_cons, Disk.location?_of_room? h₁,
      Disk.location?_of_room? h₂, Disk.location?_of_room? h₃, Disk.location?_of_room? h₄, ne_eq,
      Option.some.injEq] at hl
    obtain ⟨n₃, n₄, n₁, n₂, -⟩ := hl
    rw [he, if_neg (Ne.symm n₄), if_neg (Ne.symm n₂), if_neg (Ne.symm n₃), if_neg (Ne.symm n₁)]

/-- a path that had room, if any, at an empty location names no file -/
theorem stat?_ne_file {d' : Disk} {x : Text} (hs : d.SameDirectories d')
    (hentry : ∀ l, d.room? x = some l → d'.entry? l = none) (c : List UInt8) :
    d'.stat? x ≠ some (.file c) := by
  intro hfile
  obtain ⟨l, hroom, hl⟩ := Disk.exists_room?_of_stat? hfile
  rw [hs.room?_eq] at hroom
  rw [hentry l hroom] at hl
  exact absurd hl (by simp)

theorem undone_of_entries {d' : Disk} (hs : d.SameDirectories d')
    (htext : ∀ l, d.location? q = some l → d'.entry? l = d.entry? l)
    (h₁ : ∀ l, d.room? (Path.staging p) = some l → d'.entry? l = none)
    (h₂ : ∀ l, d.room? (Path.staging q) = some l → d'.entry? l = none)
    (hother : ∀ l, d.room? (Path.staging p) ≠ some l → d.room? (Path.staging q) ≠ some l →
      d.room? p ≠ some l → d'.entry? l = d.entry? l) : Undone p q d d' := by
  refine ⟨hs.stat?_eq q htext, stat?_ne_file hs h₁, stat?_ne_file hs h₂, hs.sameBut ?_⟩
  intro l hl
  simp only [savePaths, List.forall_mem_cons] at hl
  obtain ⟨n₃, -, n₁, n₂, -⟩ := hl
  exact hother l (fun h => n₁ (Disk.location?_of_room? h)) (fun h => n₂ (Disk.location?_of_room? h))
    fun h => n₃ (Disk.location?_of_room? h)

/-- a failure before the binary takes its place leaves both files as they were -/
theorem undone_of_no_room (h : d.Apart (savePaths p q))
    (hroom : d.room? (Path.staging p) = none ∨ d.room? (Path.staging q) = none ∨
      d.room? p = none) :
    ∃ e d', a.saveOn p q d = (.error e, d') ∧
      Undone p q d d' ∧ d'.stat? p = d.stat? p := by
  simp only [Disk.Apart, savePaths, List.pairwise_cons, List.forall_mem_cons] at h
  obtain ⟨⟨-, hps, hpt, -⟩, ⟨hqs, hqt, -⟩, -⟩ := h
  obtain ⟨e, d', hrun, hs, he⟩ := save_of_no_room (a := a) hroom
  have hkeep : ∀ l, d.room? (Path.staging p) ≠ some l → d.room? (Path.staging q) ≠ some l →
      d'.entry? l = d.entry? l := by
    intro l hl hl'
    rw [he, if_neg (not_or.mpr ⟨hl, hl'⟩)]
  refine ⟨e, d', hrun, undone_of_entries hs ?_ ?_ ?_ fun l h₁ h₂ _ => hkeep l h₁ h₂,
    hs.stat?_eq p ?_⟩
  · intro l hl
    exact hkeep l (fun h₁ => Disk.ne_of_room hqs hl h₁ rfl) fun h₂ => Disk.ne_of_room hqt hl h₂ rfl
  · intro l hl
    rw [he, if_pos (.inl hl)]
  · intro l hl
    rw [he, if_pos (.inr hl)]
  · intro l hl
    exact hkeep l (fun h₁ => Disk.ne_of_room hps hl h₁ rfl) fun h₂ => Disk.ne_of_room hpt hl h₂ rfl

/-- a failure after the binary has taken its place removes it, whatever stood there before -/
theorem undone_of_no_room_last (h : d.Apart (savePaths p q))
    (hroom : ∀ x ∈ [p, Path.staging p, Path.staging q], (d.room? x).isSome)
    (hlast : d.room? q = none) :
    ∃ e d', a.saveOn p q d = (.error e, d') ∧
      Undone p q d d' ∧ d'.stat? p = none := by
  simp only [Disk.Apart, savePaths, List.pairwise_cons, List.forall_mem_cons] at h
  obtain ⟨⟨hpq, -⟩, ⟨hqs, hqt, -⟩, ⟨hst, -⟩, -⟩ := h
  simp only [List.forall_mem_cons, Option.isSome_iff_exists] at hroom
  obtain ⟨⟨l₃, h₃⟩, ⟨l₁, h₁⟩, ⟨l₂, h₂⟩, -⟩ := hroom
  obtain ⟨e, d', hrun, hs, he⟩ :=
    save_of_no_room_last (a := a) h₁ h₂ h₃ hlast (Disk.ne_of_rooms hst h₁ h₂)
  have hkeep : ∀ l, l ≠ l₁ → l ≠ l₂ → l ≠ l₃ → d'.entry? l = d.entry? l := by
    intro l n₁ n₂ n₃
    rw [he, if_neg (by simp [n₁, n₂, n₃])]
  refine ⟨e, d', hrun, undone_of_entries hs ?_ ?_ ?_ ?_, stat?_eq_none hs h₃ ?_⟩
  · -- the text has no room, but a directory there has a location
    intro l hl
    refine hkeep l (Disk.ne_of_room hqs hl h₁) (Disk.ne_of_room hqt hl h₂) ?_
    rintro rfl
    rw [Disk.location?_of_room? h₃, hl] at hpq
    simp at hpq
  · intro l hl
    obtain rfl := Option.some.inj (h₁.symm.trans hl)
    rw [he, if_pos (.inl rfl)]
  · intro l hl
    obtain rfl := Option.some.inj (h₂.symm.trans hl)
    rw [he, if_pos (.inr (.inl rfl))]
  · intro l n₁ n₂ n₃
    rw [h₁] at n₁
    rw [h₂] at n₂
    rw [h₃] at n₃
    exact hkeep l (fun h => n₁ (by rw [h])) (fun h => n₂ (by rw [h])) fun h => n₃ (by rw [h])
  · rw [he, if_pos (.inr (.inr rfl))]

/-- what a save can do: succeed if all files have room, fail early, or fail at its last step -/
theorem save_cases (a : Artifacts) (h : d.Apart (savePaths p q)) :
    ((∀ x ∈ savePaths p q, (d.room? x).isSome) ∧
      ∃ d', a.saveOn p q d = (.ok (), d') ∧ a.Saved p q d d') ∨
    (¬ (∀ x ∈ [p, Path.staging p, Path.staging q], (d.room? x).isSome) ∧
      ∃ e d', a.saveOn p q d = (.error e, d') ∧ Undone p q d d' ∧ d'.stat? p = d.stat? p) ∨
    ((∀ x ∈ [p, Path.staging p, Path.staging q], (d.room? x).isSome) ∧ d.room? q = none ∧
      ∃ e d', a.saveOn p q d = (.error e, d') ∧ Undone p q d d' ∧ d'.stat? p = none) := by
  by_cases hroom : ∀ x ∈ [p, Path.staging p, Path.staging q], (d.room? x).isSome
  · cases hq : d.room? q with
    | none => exact .inr (.inr ⟨hroom, rfl, undone_of_no_room_last h hroom hq⟩)
    | some l =>
      have hall : ∀ x ∈ savePaths p q, (d.room? x).isSome := by
        simp only [savePaths, List.forall_mem_cons] at hroom ⊢
        exact ⟨hroom.1, by rw [hq]; rfl, hroom.2⟩
      exact .inl ⟨hall, saved_of_room h hall⟩
  · refine .inr (.inl ⟨hroom, undone_of_no_room h ?_⟩)
    by_contra hne
    simp only [not_or, ← Option.isSome_iff_ne_none] at hne
    apply hroom
    simp only [List.forall_mem_cons]
    exact ⟨hne.2.2, hne.1, hne.2.1, by simp⟩

theorem undone_of_failure (a : Artifacts) (h : d.Apart (savePaths p q))
    (hroom : ¬ ∀ x ∈ savePaths p q, (d.room? x).isSome) :
    ∃ e d', a.saveOn p q d = (.error e, d') ∧ Undone p q d d' ∧
      (d'.stat? p = d.stat? p ∨ d'.stat? p = none) := by
  rcases save_cases a h with ⟨hall, -⟩ | ⟨-, e, d', hrun, hundone, hkeep⟩ |
    ⟨-, -, e, d', hrun, hundone, hgone⟩
  · exact absurd hall hroom
  · exact ⟨e, d', hrun, hundone, .inl hkeep⟩
  · exact ⟨e, d', hrun, hundone, .inr hgone⟩

end

/-! ## The save as a transaction -/

/-- **A save is a transaction on two files.**  It succeeds exactly if all four paths have room for a
file.  Then both files are in their places, no staged file is left and nothing else has changed.
If it fails, the text is as it was, the binary is as it was or gone, no staged file is left and
nothing else has changed. -/
theorem save_transaction (a : Artifacts) (p q : Text) (d : Disk) (h : d.Apart (savePaths p q)) :
    ((∃ d', a.saveOn p q d = (.ok (), d')) ↔ ∀ x ∈ savePaths p q, (d.room? x).isSome) ∧
    (∀ d', a.saveOn p q d = (.ok (), d') → a.Saved p q d d') ∧
    ∀ e d', a.saveOn p q d = (.error e, d') →
      Undone p q d d' ∧ (d'.stat? p = d.stat? p ∨ d'.stat? p = none) := by
  by_cases hall : ∀ x ∈ savePaths p q, (d.room? x).isSome
  · obtain ⟨d', hrun, hsaved⟩ := saved_of_room (a := a) h hall
    rw [hrun]
    refine ⟨⟨fun _ => hall, fun _ => ⟨d', rfl⟩⟩, ?_, ?_⟩
    · intro d'' heq
      obtain rfl : d' = d'' := congrArg Prod.snd heq
      exact hsaved
    · intro e d'' heq
      exact absurd (congrArg Prod.fst heq) (by simp)
  · obtain ⟨e, d', hrun, hundone, hbinary⟩ := undone_of_failure a h hall
    rw [hrun]
    refine ⟨⟨?_, fun hroom => absurd hroom hall⟩, ?_, ?_⟩
    · rintro ⟨d'', heq⟩
      exact absurd (congrArg Prod.fst heq) (by simp)
    · intro d'' heq
      exact absurd (congrArg Prod.fst heq) (by simp)
    · intro e' d'' heq
      obtain rfl : d' = d'' := congrArg Prod.snd heq
      exact ⟨hundone, hbinary⟩

/-- the outputs of an earlier run, and a staged file that was left behind -/
def stale : Disk :=
  ((Disk.put {} ["a.bin".toList] [1]).put ["a.bin.part".toList] [7, 7]).put ["a.img".toList] [3]

theorem save_transaction_stale :
    stale.Apart (savePaths "a.bin".toList "a.img".toList) ∧
      ∃ d', saveOn ⟨[2], "2".toList⟩ "a.bin".toList "a.img".toList stale = (.ok (), d') ∧
        Saved ⟨[2], "2".toList⟩ "a.bin".toList "a.img".toList stale d' := by
  have hapart : stale.Apart (savePaths "a.bin".toList "a.img".toList) := by decide
  obtain ⟨hok, hsaved, -⟩ :=
    save_transaction ⟨[2], "2".toList⟩ "a.bin".toList "a.img".toList stale hapart
  obtain ⟨d', hrun⟩ := hok.mpr (by decide)
  exact ⟨hapart, d', hrun, hsaved d' hrun⟩

/-- the text is the only file without room, and the binary takes the place of another file -/
def Overwrites (p q : Text) (d : Disk) : Prop :=
  (∃ c, d.stat? p = some (.file c)) ∧
    (∀ x ∈ [p, Path.staging p, Path.staging q], (d.room? x).isSome) ∧ d.room? q = none

/-- **A failed save keeps the earlier files unless it has already replaced the binary.**  What stood
at the two paths is lost exactly if the binary's path held a file and the text is the only file
without room: then the new binary is removed, and the earlier one with it. -/
theorem save_failure_keeps_iff (a : Artifacts) (p q : Text) (d : Disk)
    (h : d.Apart (savePaths p q)) (e : WriteError) (d' : Disk)
    (hrun : a.saveOn p q d = (.error e, d')) :
    (d'.stat? p = d.stat? p ∧ d'.stat? q = d.stat? q) ↔ ¬ Overwrites p q d := by
  rcases save_cases a h with ⟨-, d₀, hrun₀, -⟩ | ⟨hnot, e₀, d₀, hrun₀, hundone, hkeep⟩ |
    ⟨hroom, hq, e₀, d₀, hrun₀, hundone, hgone⟩
  · exact absurd (congrArg Prod.fst (hrun.symm.trans hrun₀)) (by simp)
  · obtain rfl : d₀ = d' := congrArg Prod.snd (hrun₀.symm.trans hrun)
    exact ⟨fun _ hover => hnot hover.2.1, fun _ => ⟨hkeep, hundone.text⟩⟩
  · obtain rfl : d₀ = d' := congrArg Prod.snd (hrun₀.symm.trans hrun)
    rw [hgone, hundone.text]
    constructor
    · rintro ⟨hbefore, -⟩ ⟨⟨c, hfile⟩, -⟩
      rw [← hbefore] at hfile
      exact absurd hfile (by simp)
    · -- the binary has room, so a file or nothing stood there: a file is excluded by `hnot`
      intro hnot
      refine ⟨?_, rfl⟩
      obtain ⟨l, hl⟩ := Option.isSome_iff_exists.mp (hroom p List.mem_cons_self)
      have hstat := Disk.stat?_of_room? hl
      cases hentry : d.entry? l with
      | none => rw [hstat, hentry]
      | some entry =>
        cases entry with
        | directory => exact absurd hentry (Disk.not_directory_of_room? hl)
        | file c => exact absurd ⟨⟨c, hstat.trans hentry⟩, hroom, hq⟩ hnot

/-- a binary of an earlier run, and a directory where the text has to go -/
def blocked : Disk := (Disk.put {} ["a.bin".toList] [1]).makeDirectories ["a.img".toList]

theorem save_failure_keeps_iff_blocked :
    blocked.Apart (savePaths "a.bin".toList "no/a.img".toList) ∧
      saveOn ⟨[2], "2".toList⟩ "a.bin".toList "no/a.img".toList blocked =
        (.error ⟨"no/a.img.part".toList, .notFound⟩, blocked) ∧
      ¬ Overwrites "a.bin".toList "no/a.img".toList blocked := by
  have hapart : blocked.Apart (savePaths "a.bin".toList "no/a.img".toList) := by decide
  have hrun : saveOn ⟨[2], "2".toList⟩ "a.bin".toList "no/a.img".toList blocked =
      (.error ⟨"no/a.img.part".toList, .notFound⟩, blocked) := rfl
  exact ⟨hapart, hrun, (save_failure_keeps_iff _ _ _ _ hapart _ _ hrun).mp ⟨rfl, rfl⟩⟩

/-- the save is refused at its last step, and the earlier binary is gone -/
theorem save_failure_loses_binary :
    blocked.Apart (savePaths "a.bin".toList "a.img".toList) ∧
      blocked.stat? "a.bin".toList = some (.file [1]) ∧
      ∃ d', saveOn ⟨[2], "2".toList⟩ "a.bin".toList "a.img".toList blocked =
          (.error ⟨"a.img".toList, .isDirectory⟩, d') ∧
        d'.stat? "a.bin".toList = none :=
  ⟨by decide, by decide, _, rfl, by decide⟩

end Artifacts
end TinyCpu
