import TinyCpu.Proofs.Disk.Save
import TinyCpu.Proofs.Text.Lines

/-!
# Paths next to each other

The outputs of a command stand next to its input, so what they meet on a disk is told by names.

* `Path.IsName`                    a component that a file can have as its name;
* `Path.stem`                      a name without its extension;
* `Path.withExtension_append`      the path with another extension, by directory and name;
* `Disk.exists_name_of_room?`      a path to a file ends with a name;
* `Disk.apart_names`               different names in one directory are different locations;
* `OutputPaths.apart_savePaths`    the paths of a save next to an input do not meet;
* `Artifacts.saveOn_forInput`      what such a save does;
* `Artifacts.Saved.stat?_input`, `Artifacts.stat?_input_of_error`   what it leaves of the input.

A name such as `..e` is special: without its extension it is the directory above, and so are both
outputs.
-/

namespace TinyCpu
open Text

namespace Path

/-- a component of a path that stands for an entry of its directory -/
structure IsName (name : Text) : Prop where
  ne_nil : name ≠ []
  slash : '/' ∉ name
  ne_here : name ≠ here
  ne_above : name ≠ above

def stem (name : Text) : Text := (splitExtension name).1

/-! ## Directories and names -/

theorem splitOn_append_name (before name : Text) (hbefore : Terminated '/' before)
    (hname : '/' ∉ name) :
    (before ++ name).splitOn '/' = (before.splitOn '/').dropLast ++ [name] := by
  have hone : name.splitOn '/' = [name] := by
    have hnone : ∀ t ∈ [name], '/' ∉ t := List.forall_mem_singleton.mpr hname
    have hsplit := List.splitOn_intercalate '/' hnone (by simp)
    rwa [List.intercalate_singleton] at hsplit
  rw [splitOn_append '/' before name hbefore, hone]

theorem splitName?_append (before name : Text) (hbefore : Terminated '/' before)
    (hname : IsName name) : splitName? (before ++ name) = some (before, name) := by
  unfold splitName?
  rw [splitOn_append_name before name hbefore hname.slash, List.reverse_concat,
    List.dropWhile_cons_of_neg (by simp [hname.ne_nil, hname.ne_here])]
  simp only [if_neg hname.ne_above, List.reverse_reverse]
  rw [flatMap_dropLast_splitOn '/' before hbefore]

theorem splitName?_append_above (before : Text) (hbefore : Terminated '/' before) :
    splitName? (before ++ above) = none := by
  unfold splitName?
  rw [splitOn_append_name before above hbefore (by decide), List.reverse_concat,
    List.dropWhile_cons_of_neg (by decide)]
  rfl

/-! ## Extensions -/

theorem splitExtension_append (s e : Text) (he : '.' ∉ e) :
    splitExtension (s ++ '.' :: e) = if s = [] then ('.' :: e, none) else (s, some e) := by
  have hrev : (s ++ '.' :: e).reverse = e.reverse ++ '.' :: s.reverse := by simp
  have hdot : ∀ c ∈ e.reverse, (c != '.') = true := by
    intro c hc
    rw [bne_iff_ne]
    rintro rfl
    exact he (List.mem_reverse.mp hc)
  unfold splitExtension
  rw [hrev, List.dropWhile_append_of_pos hdot, List.takeWhile_append_of_pos hdot,
    List.dropWhile_cons_of_neg (by decide), List.takeWhile_cons_of_neg (by decide)]
  cases s <;> simp

/-- a name has no extension, or it is a stem, a dot and an extension without a dot -/
theorem splitExtension_cases (name : Text) :
    splitExtension name = (name, none) ∨
      ∃ s e, s ≠ [] ∧ '.' ∉ e ∧ name = s ++ '.' :: e ∧ splitExtension name = (s, some e) := by
  by_cases hdot : '.' ∈ name
  · obtain ⟨e, s, hrev, he⟩ := List.eq_append_cons_of_mem (List.mem_reverse.mpr hdot)
    have hname : name = s.reverse ++ '.' :: e.reverse := by
      rw [← List.reverse_reverse name, hrev]
      simp
    have he' : '.' ∉ e.reverse := fun h => he (List.mem_reverse.mp h)
    have hsplit := splitExtension_append s.reverse e.reverse he'
    rw [← hname] at hsplit
    by_cases hs : s.reverse = []
    · rw [if_pos hs] at hsplit
      rw [hs] at hname
      exact .inl (by rw [hsplit, hname]; rfl)
    · rw [if_neg hs] at hsplit
      exact .inr ⟨_, _, hs, he', hname, hsplit⟩
  · have hall : name.reverse.dropWhile (· != '.') = [] := by
      rw [List.dropWhile_eq_nil_iff]
      intro c hc
      rw [bne_iff_ne]
      rintro rfl
      exact hdot (List.mem_reverse.mp hc)
    unfold splitExtension
    rw [hall]
    exact .inl rfl

theorem stem_append (s e : Text) (hs : s ≠ []) (he : '.' ∉ e) : stem (s ++ '.' :: e) = s := by
  unfold stem
  rw [splitExtension_append s e he, if_neg hs]

theorem dropBytes_append (e t : Text) : dropBytes (byteLength e) (e ++ t) = t := by
  induction e with
  | nil =>
    cases t with
    | nil => rfl
    | cons c t => exact if_neg fun h => absurd h.1 (Nat.lt_irrefl 0)
  | cons c e ih =>
    have hsize : byteLength (c :: e) = c.utf8Size + byteLength e := by
      unfold byteLength toUtf8
      rw [List.flatMap_cons, List.length_append, String.length_utf8EncodeChar]
    have hpos : 0 < c.utf8Size := c.utf8Size_pos
    rw [hsize, List.cons_append, dropBytes, if_pos (by omega), Nat.add_sub_cancel_left, ih]

theorem byteLength_reverse (t : Text) : byteLength t.reverse = byteLength t := by
  induction t with
  | nil => rfl
  | cons c t ih =>
    unfold byteLength toUtf8 at ih ⊢
    rw [List.reverse_cons, List.flatMap_append, List.length_append, ih, List.flatMap_cons,
      List.length_append, Nat.add_comm]
    simp

theorem cutExtension_append (before s e : Text) (hbefore : Terminated '/' before) (hs : s ≠ [])
    (he : '.' ∉ e) (hname : IsName (s ++ '.' :: e)) :
    cutExtension (before ++ (s ++ '.' :: e)) = before ++ (s ++ ['.']) := by
  have hrev : (before ++ (s ++ '.' :: e)).reverse = e.reverse ++ (before ++ (s ++ ['.'])).reverse := by
    simp
  unfold cutExtension
  rw [splitName?_append before _ hbefore hname, Option.bind_some, splitExtension_append s e he,
    if_neg hs]
  show (dropBytes (byteLength e) (before ++ (s ++ '.' :: e)).reverse).reverse = _
  rw [hrev, ← byteLength_reverse e, dropBytes_append, List.reverse_reverse]

theorem withExtension_of_cut {p before name : Text} (x : Text)
    (hcut : cutExtension p = before ++ name) (hbefore : Terminated '/' before)
    (hname : IsName name) : withExtension x p = before ++ (stem name ++ '.' :: x) := by
  unfold withExtension
  simp only [hcut, splitName?_append before name hbefore hname, List.append_assoc]
  rfl

/-- **A path with another extension.**  The new extension follows the stem of the name, unless that
is a lone dot: the name is then cut down to the directory above. -/
theorem withExtension_append (x before name : Text) (hbefore : Terminated '/' before)
    (hname : IsName name) :
    withExtension x (before ++ name) =
      before ++ if stem name = here then above else stem name ++ '.' :: x := by
  rcases splitExtension_cases name with hnone | ⟨s, e, hs, he, rfl, -⟩
  · have hstem : stem name = name := congrArg Prod.fst hnone
    have hcut : cutExtension (before ++ name) = before ++ name := by
      unfold cutExtension
      rw [splitName?_append before name hbefore hname, Option.bind_some, hnone]
    rw [withExtension_of_cut x hcut hbefore hname, hstem, if_neg hname.ne_here]
  · have hcut := cutExtension_append before s e hbefore hs he hname
    rw [stem_append s e hs he]
    by_cases hhere : s = here
    · rw [if_pos hhere]
      subst hhere
      have habove : cutExtension (before ++ (here ++ '.' :: e)) = before ++ above := hcut
      unfold withExtension
      simp only [habove, splitName?_append_above before hbefore]
    · have hdot : IsName (s ++ ['.']) := by
        refine ⟨by simp, fun h => hname.slash ?_, ?_, ?_⟩
        · rcases List.mem_append.mp h with h | h
          · exact List.mem_append_left _ h
          · exact absurd h (by decide)
        · intro h
          exact hs (List.append_left_eq_self.mp (h : s ++ ['.'] = ['.']))
        · intro h
          exact hhere (List.append_inj_left' (h : s ++ ['.'] = here ++ ['.']) rfl)
      rw [if_neg hhere, withExtension_of_cut x hcut hbefore hdot, stem_append s [] hs (by simp)]

/-- a name is not its stem with an extension that has a dot itself -/
theorem ne_stem_append (name u : Text) (hu : '.' ∈ u) : name ≠ stem name ++ '.' :: u := by
  intro h
  rcases splitExtension_cases name with hnone | ⟨s, e, hs, he, rfl, -⟩
  · have hstem : stem name = name := congrArg Prod.fst hnone
    rw [hstem] at h
    exact absurd (List.append_right_eq_self.mp h.symm) (by simp)
  · rw [stem_append s e hs he] at h
    exact he ((List.cons.inj (List.append_cancel_left h)).2 ▸ hu)

theorem isName_append (name x : Text) (hname : IsName name) (hx : '/' ∉ x) (hne : x ≠ []) :
    IsName (stem name ++ '.' :: x) := by
  obtain ⟨hstem, hslash⟩ : stem name ≠ [] ∧ '/' ∉ stem name := by
    rcases splitExtension_cases name with hnone | ⟨s, e, hs, he, rfl, -⟩
    · rw [show stem name = name from congrArg Prod.fst hnone]
      exact ⟨hname.ne_nil, hname.slash⟩
    · rw [stem_append s e hs he]
      exact ⟨hs, fun h => hname.slash (List.mem_append_left _ h)⟩
  have hlong : 2 < (stem name ++ '.' :: x).length := by
    have hs := List.length_pos_iff.mpr hstem
    have hx := List.length_pos_iff.mpr hne
    rw [List.length_append, List.length_cons]
    omega
  refine ⟨by simp, ?_, ?_, ?_⟩
  · intro h
    rcases List.mem_append.mp h with h | h
    · exact hslash h
    · exact hx ((List.mem_cons.mp h).resolve_left (by decide))
  · intro h
    rw [h] at hlong
    exact absurd hlong (by decide)
  · intro h
    rw [h] at hlong
    exact absurd hlong (by decide)

end Path

/-! ## Names on a disk -/

namespace Disk

def components (p : Text) : List Text := (p.splitOn '/').filter fun c => !c.isEmpty

def origin (d : Disk) (p : Text) : Location := if p.head? = some '/' then [] else d.current

/-- the directory that a path which ends with a slash leads to -/
def walk (d : Disk) (before : Text) : Except OsError Location :=
  (components before).foldlM d.enter (d.origin before)

variable {d : Disk} {before x : Text}

/-- where a path ends: the directory on the way to it exists, and the last component is a name in
it or a dot or two -/
theorem of_locate_eq_ok {p : Text} {place : Place} (h : d.locate p = .ok place) :
    p ≠ [] ∧ ∃ dir, (components p).dropLast.foldlM d.enter (d.origin p) = .ok dir ∧
      place = match (components p).getLast? with
        | none => ⟨dir, none, true⟩
        | some name => if name = Path.here ∨ name = Path.above then ⟨dir, none, true⟩
          else ⟨dir, some name, p.getLast? = some '/'⟩ := by
  unfold locate at h
  split at h
  · exact absurd h (by simp)
  split at h
  · exact absurd h (by simp)
  next hempty =>
  split at h
  · exact absurd h (by simp)
  obtain ⟨dir, hdir, h⟩ := (bind_eq_ok_iff _ _ _).mp h
  refine ⟨by simpa using hempty, dir, hdir, ?_⟩
  unfold components
  cases hlast : ((p.splitOn '/').filter fun c => !c.isEmpty).getLast? with
  | none =>
    rw [hlast] at h
    exact (Except.ok.inj h).symm
  | some name =>
    rw [hlast] at h
    by_cases hdots : name = Path.here ∨ name = Path.above
    · exact (Except.ok.inj ((if_pos hdots).symm.trans h)).symm.trans (if_pos hdots).symm
    · have h' := (if_neg hdots).symm.trans h
      split at h'
      · exact absurd h' (by simp)
      · exact (Except.ok.inj h').symm.trans (if_neg hdots).symm

theorem components_append (hbefore : Terminated '/' before) (hx : '/' ∉ x) (hne : x ≠ []) :
    components (before ++ x) = components before ++ [x] := by
  have hsplit : components before = (before.splitOn '/').dropLast.filter fun c => !c.isEmpty := by
    unfold components
    nth_rewrite 1 [splitOn_of_terminated '/' before hbefore]
    rw [List.filter_append]
    exact List.append_nil _
  rw [hsplit]
  unfold components
  rw [Path.splitOn_append_name before x hbefore hx, List.filter_append]
  congr 1
  exact List.filter_cons_of_pos (by simp [hne])

theorem origin_append (hx : '/' ∉ x) (hne : x ≠ []) : d.origin (before ++ x) = d.origin before := by
  unfold origin
  cases before with
  | nil =>
    obtain ⟨c, x, rfl⟩ := List.exists_cons_of_ne_nil hne
    have hc : c ≠ '/' := fun hc => hx (hc ▸ List.mem_cons_self)
    simp [hc]
  | cons c before => rfl

theorem locate_append {place : Place} (hbefore : Terminated '/' before) (hx : '/' ∉ x)
    (hne : x ≠ []) (h : d.locate (before ++ x) = .ok place) :
    ∃ dir, d.walk before = .ok dir ∧
      place = if x = Path.here ∨ x = Path.above then ⟨dir, none, true⟩ else ⟨dir, some x, false⟩ := by
  have hlast : (before ++ x).getLast? ≠ some '/' := by
    rw [List.getLast?_append_of_ne_nil _ hne]
    exact fun hlast => hx (List.mem_of_getLast? hlast)
  obtain ⟨-, dir, hdir, hplace⟩ := of_locate_eq_ok h
  rw [components_append hbefore hx hne, List.dropLast_concat, origin_append hx hne] at hdir
  rw [components_append hbefore hx hne, List.getLast?_concat, decide_eq_false hlast] at hplace
  exact ⟨dir, hdir, hplace⟩

theorem location?_append {l : Location} (hbefore : Terminated '/' before) (hx : Path.IsName x)
    (h : d.location? (before ++ x) = some l) : ∃ dir, d.walk before = .ok dir ∧ l = dir ++ [x] := by
  obtain ⟨place, hplace, rfl⟩ := Option.map_eq_some_iff.mp h
  obtain ⟨dir, hdir, rfl⟩ :=
    locate_append hbefore hx.slash hx.ne_nil ((place?_eq_some_iff d _ _).mp hplace)
  rw [if_neg (not_or.mpr ⟨hx.ne_here, hx.ne_above⟩)]
  exact ⟨dir, hdir, rfl⟩

theorem apart_names {y : Text} (hbefore : Terminated '/' before) (hx : Path.IsName x)
    (hy : Path.IsName y) (hne : x ≠ y) :
    d.location? (before ++ x) = none ∨ d.location? (before ++ x) ≠ d.location? (before ++ y) := by
  cases hl : d.location? (before ++ x) with
  | none => exact .inl rfl
  | some l =>
    right
    intro heq
    obtain ⟨dir, hdir, rfl⟩ := location?_append hbefore hx hl
    obtain ⟨dir', hdir', hl'⟩ := location?_append hbefore hy heq.symm
    obtain rfl := Except.ok.inj (hdir.symm.trans hdir')
    exact hne (List.cons.inj (List.append_cancel_left hl')).1

theorem room?_append_above (hbefore : Terminated '/' before) :
    d.room? (before ++ Path.above) = none := by
  rw [Option.eq_none_iff_forall_ne_some]
  intro l hl
  obtain ⟨dir, name, hplace, -, -⟩ := (room?_eq_some_iff d _ l).mp hl
  obtain ⟨dir', -, heq⟩ := locate_append hbefore (by decide) (by decide) hplace
  rw [if_pos (.inr rfl)] at heq
  exact absurd (congrArg Place.name heq) (by simp)

theorem not_terminated_of_locate {p : Text} {dir : Location} {name : Text}
    (h : d.locate p = .ok ⟨dir, some name, false⟩) : ¬ Terminated '/' p := by
  obtain ⟨hne, dir', -, hplace⟩ := of_locate_eq_ok h
  rintro (hnil | hslash)
  · exact hne hnil
  · split at hplace
    · exact absurd (congrArg Place.name hplace) (by simp)
    · split at hplace
      · exact absurd (congrArg Place.name hplace) (by simp)
      · exact absurd (congrArg Place.slash hplace) (by simp [hslash])

theorem exists_name_of_room? {p : Text} {l : Location} (h : d.room? p = some l) :
    ∃ before name, p = before ++ name ∧ Terminated '/' before ∧ Path.IsName name := by
  obtain ⟨dir, name, hplace, -, -⟩ := (room?_eq_some_iff d p l).mp h
  obtain ⟨before, x, rfl, hbefore, hx⟩ := exists_terminated_append '/' p
  have hne : x ≠ [] := by
    rintro rfl
    rw [List.append_nil] at hplace
    exact not_terminated_of_locate hplace hbefore
  obtain ⟨dir', -, heq⟩ := locate_append hbefore hx hne hplace
  have hdots : ¬ (x = Path.here ∨ x = Path.above) := by
    intro hdots
    rw [if_pos hdots] at heq
    exact absurd (congrArg Place.name heq) (by simp)
  obtain ⟨hhere, habove⟩ := not_or.mp hdots
  exact ⟨before, x, rfl, hbefore, hne, hx, hhere, habove⟩

end Disk

/-! ## The outputs next to an input -/

namespace OutputPaths
variable {before name : Text}

theorem forInput_append (hbefore : Terminated '/' before) (hname : Path.IsName name)
    (hstem : Path.stem name ≠ Path.here) :
    forInput (before ++ name) = ⟨before ++ (Path.stem name ++ '.' :: "bin".toList),
      before ++ (Path.stem name ++ '.' :: "logisimimg".toList)⟩ := by
  unfold forInput
  rw [Path.withExtension_append _ before name hbefore hname, if_neg hstem,
    Path.withExtension_append _ before name hbefore hname, if_neg hstem]

theorem forInput_append_here (hbefore : Terminated '/' before) (hname : Path.IsName name)
    (hstem : Path.stem name = Path.here) :
    forInput (before ++ name) = ⟨before ++ Path.above, before ++ Path.above⟩ := by
  unfold forInput
  rw [Path.withExtension_append _ before name hbefore hname, if_pos hstem,
    Path.withExtension_append _ before name hbefore hname, if_pos hstem]

/-- what follows the stem and its dot in the paths that a save uses -/
def endings : List Text :=
  ["bin".toList, "logisimimg".toList, "bin.part".toList, "logisimimg.part".toList]

def savePaths (input : Text) : List Text :=
  Artifacts.savePaths (forInput input).binary (forInput input).memoryText

theorem savePaths_append (hbefore : Terminated '/' before) (hname : Path.IsName name)
    (hstem : Path.stem name ≠ Path.here) :
    savePaths (before ++ name) =
      endings.map fun x => before ++ (Path.stem name ++ '.' :: x) := by
  unfold savePaths
  rw [forInput_append hbefore hname hstem]
  simp [Artifacts.savePaths, Path.staging, endings]

theorem isName_ending (hname : Path.IsName name) {x : Text} (hx : x ∈ endings) :
    Path.IsName (Path.stem name ++ '.' :: x) := by
  have hall : (endings.all fun x => !x.contains '/' && !x.isEmpty) = true := by decide
  have hboth := List.all_eq_true.mp hall x hx
  simp only [Bool.and_eq_true, Bool.not_eq_true', List.isEmpty_eq_false_iff,
    List.contains_eq_mem, decide_eq_false_iff_not] at hboth
  exact Path.isName_append name x hname hboth.1 hboth.2

theorem apart_savePaths (d : Disk) (hbefore : Terminated '/' before) (hname : Path.IsName name)
    (hstem : Path.stem name ≠ Path.here) : d.Apart (savePaths (before ++ name)) := by
  have hdistinct : endings.Pairwise (· ≠ ·) := by decide
  unfold Disk.Apart
  rw [savePaths_append hbefore hname hstem, List.pairwise_map]
  refine hdistinct.imp_of_mem fun {x y} hx hy hne => ?_
  apply Disk.apart_names hbefore (isName_ending hname hx) (isName_ending hname hy)
  exact fun h => hne (List.cons.inj (List.append_cancel_left h)).2

theorem apart_input (d : Disk) (hbefore : Terminated '/' before) (hname : Path.IsName name)
    (hstem : Path.stem name ≠ Path.here) (hinput : before ++ name ∉ savePaths (before ++ name)) :
    ∀ y ∈ savePaths (before ++ name),
      d.location? (before ++ name) = none ∨ d.location? (before ++ name) ≠ d.location? y := by
  intro y hy
  have hne : before ++ name ≠ y := fun h => hinput (h ▸ hy)
  rw [savePaths_append hbefore hname hstem] at hy
  obtain ⟨x, hx, rfl⟩ := List.mem_map.mp hy
  exact Disk.apart_names hbefore hname (isName_ending hname hx) fun h => hne (by rw [← h])

/-- an input can be an output of its own, but no staged file -/
theorem eq_of_mem_savePaths (hbefore : Terminated '/' before) (hname : Path.IsName name)
    (hstem : Path.stem name ≠ Path.here) (hinput : before ++ name ∈ savePaths (before ++ name)) :
    before ++ name = (forInput (before ++ name)).binary ∨
      before ++ name = (forInput (before ++ name)).memoryText := by
  rw [savePaths_append hbefore hname hstem] at hinput
  obtain ⟨x, hx, heq⟩ := List.mem_map.mp hinput
  have hdot : '.' ∉ x := fun hdot =>
    Path.ne_stem_append name x hdot (List.append_cancel_left heq).symm
  rw [forInput_append hbefore hname hstem]
  simp only [endings, List.mem_cons, List.not_mem_nil, or_false] at hx
  rcases hx with rfl | rfl | rfl | rfl
  · exact .inl heq.symm
  · exact .inr heq.symm
  · exact absurd hdot (by decide)
  · exact absurd hdot (by decide)

theorem stem_ne_here {d : Disk} (hbefore : Terminated '/' before) (hname : Path.IsName name)
    (hroom : (d.room? (forInput (before ++ name)).binary).isSome) :
    Path.stem name ≠ Path.here := by
  intro hstem
  rw [forInput_append_here hbefore hname hstem, Disk.room?_append_above hbefore] at hroom
  exact absurd hroom (by simp)

end OutputPaths

namespace Artifacts
variable {d : Disk} {input : Text} {contents : List UInt8}

/-- a save next to an input succeeds exactly if all its paths have room -/
theorem saveOn_forInput (a : Artifacts) (hfile : d.stat? input = some (.file contents)) :
    ((∀ x ∈ OutputPaths.savePaths input, (d.room? x).isSome) ∧
      ∃ d', a.saveOn (OutputPaths.forInput input).binary (OutputPaths.forInput input).memoryText d =
          (.ok (), d') ∧
        a.Saved (OutputPaths.forInput input).binary (OutputPaths.forInput input).memoryText d d') ∨
    (¬ (∀ x ∈ OutputPaths.savePaths input, (d.room? x).isSome) ∧
      ∃ e d', a.saveOn (OutputPaths.forInput input).binary
          (OutputPaths.forInput input).memoryText d = (.error e, d')) := by
  obtain ⟨l, hroom, -⟩ := Disk.exists_room?_of_stat? hfile
  obtain ⟨before, name, rfl, hbefore, hname⟩ := Disk.exists_name_of_room? hroom
  by_cases hall : ∀ x ∈ OutputPaths.savePaths (before ++ name), (d.room? x).isSome
  · have hstem := OutputPaths.stem_ne_here hbefore hname (hall _ List.mem_cons_self)
    exact .inl ⟨hall, saved_of_room (OutputPaths.apart_savePaths d hbefore hname hstem) hall⟩
  · refine .inr ⟨hall, ?_⟩
    by_cases hstem : Path.stem name = Path.here
    · -- both outputs are the directory above
      rw [OutputPaths.forInput_append_here hbefore hname hstem]
      obtain ⟨e, d', hrun, -⟩ := save_of_no_room (a := a) (p := before ++ Path.above)
        (q := before ++ Path.above) (.inr (.inr (Disk.room?_append_above (d := d) hbefore)))
      exact ⟨e, d', hrun⟩
    · have hapart := OutputPaths.apart_savePaths d hbefore hname hstem
      obtain ⟨e, d', hrun, -⟩ := undone_of_failure a hapart hall
      exact ⟨e, d', hrun⟩

/-- a successful save leaves the input alone, but where it is an output of its own -/
theorem Saved.stat?_input {a : Artifacts} {d' : Disk}
    (h : a.Saved (OutputPaths.forInput input).binary (OutputPaths.forInput input).memoryText d d')
    (hfile : d.stat? input = some (.file contents))
    (hroom : ∀ x ∈ OutputPaths.savePaths input, (d.room? x).isSome)
    (hbinary : input ≠ (OutputPaths.forInput input).binary)
    (htext : input ≠ (OutputPaths.forInput input).memoryText) : d'.stat? input = d.stat? input := by
  obtain ⟨l, hl, -⟩ := Disk.exists_room?_of_stat? hfile
  obtain ⟨before, name, rfl, hbefore, hname⟩ := Disk.exists_name_of_room? hl
  have hstem := OutputPaths.stem_ne_here hbefore hname (hroom _ List.mem_cons_self)
  refine h.same.stat? _ (OutputPaths.apart_input d hbefore hname hstem fun hin => ?_)
  rcases OutputPaths.eq_of_mem_savePaths hbefore hname hstem hin with heq | heq
  · exact hbinary heq
  · exact htext heq

theorem Undone.stat?_input {before name : Text} {d' : Disk} (hbefore : Terminated '/' before)
    (hname : Path.IsName name) (hstem : Path.stem name ≠ Path.here)
    (h : Undone (OutputPaths.forInput (before ++ name)).binary
      (OutputPaths.forInput (before ++ name)).memoryText d d')
    (hbinary : before ++ name = (OutputPaths.forInput (before ++ name)).binary →
      d'.stat? (OutputPaths.forInput (before ++ name)).binary =
        d.stat? (OutputPaths.forInput (before ++ name)).binary) :
    d'.stat? (before ++ name) = d.stat? (before ++ name) := by
  by_cases hin : before ++ name ∈ OutputPaths.savePaths (before ++ name)
  · rcases OutputPaths.eq_of_mem_savePaths hbefore hname hstem hin with heq | heq
    · have hkept := hbinary heq
      rwa [← heq] at hkept
    · have hkept := h.text
      rwa [← heq] at hkept
  · exact h.same.stat? _ (OutputPaths.apart_input d hbefore hname hstem hin)

/-- where both outputs are the directory above, only the staged file is removed -/
theorem stat?_input_of_above {a : Artifacts} {before name : Text} (hbefore : Terminated '/' before)
    (hname : Path.IsName name) (hstem : Path.stem name = Path.here) :
    ((a.saveOn (before ++ Path.above) (before ++ Path.above) d).2).stat? (before ++ name) =
      d.stat? (before ++ name) := by
  have hstaged : Path.staging (before ++ Path.above) =
      before ++ (Path.stem name ++ '.' :: ".part".toList) := by
    rw [hstem]
    exact List.append_assoc _ _ _
  obtain ⟨e, d', hrun, hsame, hentry⟩ := save_of_no_room (a := a) (p := before ++ Path.above)
    (q := before ++ Path.above) (.inr (.inr (Disk.room?_append_above (d := d) hbefore)))
  rw [hrun]
  apply hsame.stat?_eq
  intro l hl
  rw [hentry, if_neg]
  rw [or_self, hstaged]
  intro hroom
  refine Disk.ne_of_room (Disk.apart_names hbefore hname ?_ ?_) hl hroom rfl
  · exact Path.isName_append name _ hname (by decide) (by decide)
  · exact Path.ne_stem_append name _ (by decide)

/-- a failed save leaves the input alone, also as an output of its own, unless it has already
replaced it -/
theorem stat?_input_of_error (a : Artifacts) (hfile : d.stat? input = some (.file contents))
    {e : WriteError} {d' : Disk}
    (hrun : a.saveOn (OutputPaths.forInput input).binary
      (OutputPaths.forInput input).memoryText d = (.error e, d'))
    (hkeep : input = (OutputPaths.forInput input).binary →
      ¬ Overwrites (OutputPaths.forInput input).binary (OutputPaths.forInput input).memoryText d) :
    d'.stat? input = d.stat? input := by
  obtain ⟨l, hroom, -⟩ := Disk.exists_room?_of_stat? hfile
  obtain ⟨before, name, rfl, hbefore, hname⟩ := Disk.exists_name_of_room? hroom
  by_cases hstem : Path.stem name = Path.here
  · have habove := stat?_input_of_above (a := a) (d := d) hbefore hname hstem
    rw [OutputPaths.forInput_append_here hbefore hname hstem] at hrun
    rwa [hrun] at habove
  · rcases save_cases a (OutputPaths.apart_savePaths d hbefore hname hstem) with
      ⟨-, d₀, hrun₀, -⟩ | ⟨-, e₀, d₀, hrun₀, hundone, hbinary⟩ |
        ⟨hrooms, hlast, e₀, d₀, hrun₀, hundone, -⟩
    · exact absurd (congrArg Prod.fst (hrun₀.symm.trans hrun)) (by simp)
    · obtain rfl : d₀ = d' := congrArg Prod.snd (hrun₀.symm.trans hrun)
      exact hundone.stat?_input hbefore hname hstem fun _ => hbinary
    · obtain rfl : d₀ = d' := congrArg Prod.snd (hrun₀.symm.trans hrun)
      refine hundone.stat?_input hbefore hname hstem fun heq => ?_
      rw [heq] at hfile
      exact absurd ⟨⟨contents, hfile⟩, hrooms, hlast⟩ (hkeep heq)

/-- an input that the save has already replaced is removed with the new binary -/
theorem stat?_input_of_overwrites (a : Artifacts)
    (hbinary : input = (OutputPaths.forInput input).binary)
    (hover : Overwrites (OutputPaths.forInput input).binary
      (OutputPaths.forInput input).memoryText d) :
    ∃ e d', a.saveOn (OutputPaths.forInput input).binary
      (OutputPaths.forInput input).memoryText d = (.error e, d') ∧ d'.stat? input = none := by
  obtain ⟨⟨contents, hfile⟩, hrooms, hlast⟩ := hover
  rw [← hbinary] at hfile
  obtain ⟨l, hroom, -⟩ := Disk.exists_room?_of_stat? hfile
  obtain ⟨before, name, rfl, hbefore, hname⟩ := Disk.exists_name_of_room? hroom
  have hstem := OutputPaths.stem_ne_here hbefore hname (hrooms _ List.mem_cons_self)
  obtain ⟨e, d', hrun, -, hgone⟩ := undone_of_no_room_last (a := a)
    (OutputPaths.apart_savePaths d hbefore hname hstem) hrooms hlast
  rw [← hbinary] at hgone
  exact ⟨e, d', hrun, hgone⟩

end Artifacts
end TinyCpu
