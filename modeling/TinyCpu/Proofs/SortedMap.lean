import Mathlib.Data.List.Induction
import Mathlib.Data.List.Nodup
import TinyCpu.SortedMap

/-!
# Sorted maps, entry by entry

* `get?_eq_some_iff`       look-ups are the entries;
* `perm_entries_insert`    a new key adds one entry;
* `entries_insert_of_lt`   a key past all others goes to the end;
* `get?_foldl_insert`      look-ups after many insertions with different new keys;
* `get?_ofList`            the last pair with a key gives its value;
* `lastKey?_eq_some`       the last key is the greatest one.
-/

namespace TinyCpu.SortedMap
variable {κ α : Type} [Ord κ]

theorem find_eq_some_iff [Std.LawfulEqOrd κ] (k : κ) (a : α) (es : List (κ × α))
    (h : es.Pairwise fun x y => compare x.1 y.1 = .lt) :
    find k es = some a ↔ (k, a) ∈ es := by
  induction es with
  | nil => simp [find]
  | cons e es ih =>
    obtain ⟨hhead, htail⟩ := List.pairwise_cons.mp h
    rw [find, List.mem_cons]
    by_cases hk : compare k e.1 = .eq
    · have hke : k = e.1 := Std.LawfulEqCmp.eq_of_compare hk
      rw [if_pos hk]
      constructor
      · intro ha
        exact .inl (Prod.ext hke (Option.some.inj ha).symm)
      · rintro (rfl | hmem)
        · rfl
        · have hlt : compare e.1 k = .lt := hhead _ hmem
          have hself : compare k k = .eq := Std.ReflCmp.compare_self
          rw [← hke, hself] at hlt
          exact absurd hlt (by decide)
    · rw [if_neg hk, ih htail]
      constructor
      · exact .inr
      · rintro (rfl | hmem)
        · exact absurd Std.ReflCmp.compare_self hk
        · exact hmem

theorem get?_eq_some_iff [Std.LawfulEqOrd κ] (m : SortedMap κ α) (k : κ) (a : α) :
    m.get? k = some a ↔ (k, a) ∈ m.entries := find_eq_some_iff k a m.entries m.sorted

theorem contains_iff [Std.LawfulEqOrd κ] (m : SortedMap κ α) (k : κ) :
    m.contains k = true ↔ k ∈ m.entries.map Prod.fst := by
  unfold contains
  rw [Option.isSome_iff_exists]
  simp only [get?_eq_some_iff, List.mem_map, Prod.exists, exists_and_right, exists_eq_right]

theorem nodup_keys [Std.ReflOrd κ] (m : SortedMap κ α) : (m.entries.map Prod.fst).Nodup := by
  refine List.pairwise_map.mpr (m.sorted.imp fun {x y} hlt heq => ?_)
  have hself : compare y.1 y.1 = .eq := Std.ReflCmp.compare_self
  rw [heq, hself] at hlt
  exact absurd hlt (by decide)

theorem perm_put (k : κ) (a : α) (es : List (κ × α)) (h : ∀ e ∈ es, compare k e.1 ≠ .eq) :
    (put k a es).Perm ((k, a) :: es) := by
  induction es with
  | nil => exact .rfl
  | cons e es ih =>
    obtain ⟨hne, hrest⟩ := List.forall_mem_cons.mp h
    rw [put]
    split
    · exact .rfl
    · next heq => exact absurd heq hne
    · exact ((ih hrest).cons e).trans (.swap _ _ _)

theorem put_of_lt [Std.OrientedOrd κ] (k : κ) (a : α) (es : List (κ × α))
    (h : ∀ e ∈ es, compare e.1 k = .lt) : put k a es = es ++ [(k, a)] := by
  induction es with
  | nil => rfl
  | cons e es ih =>
    have hgt : compare k e.1 = .gt := Std.OrientedCmp.gt_of_lt (h e List.mem_cons_self)
    rw [put, hgt]
    show e :: put k a es = e :: (es ++ [(k, a)])
    rw [ih fun x hx => h x (List.mem_cons_of_mem _ hx)]

section
variable [Std.TransOrd κ] [Std.LawfulEqOrd κ]

theorem get?_insert_self (m : SortedMap κ α) (k : κ) (a : α) : (m.insert k a).get? k = some a := by
  rw [get?_insert, if_pos Std.ReflCmp.compare_self]

theorem get?_insert_of_ne (m : SortedMap κ α) (k k' : κ) (a : α) (h : k' ≠ k) :
    (m.insert k a).get? k' = m.get? k' := by
  rw [get?_insert, if_neg fun he => h (Std.LawfulEqCmp.eq_of_compare he)]

theorem entries_insert_of_lt (m : SortedMap κ α) (k : κ) (a : α)
    (h : ∀ e ∈ m.entries, compare e.1 k = .lt) :
    (m.insert k a).entries = m.entries ++ [(k, a)] := put_of_lt k a m.entries h

theorem perm_entries_insert (m : SortedMap κ α) (k : κ) (a : α) (h : m.contains k = false) :
    (m.insert k a).entries.Perm ((k, a) :: m.entries) := by
  refine perm_put k a m.entries fun e he heq => ?_
  obtain rfl : k = e.1 := Std.LawfulEqCmp.eq_of_compare heq
  have hmem : e.1 ∈ m.entries.map Prod.fst := List.mem_map_of_mem he
  rw [← contains_iff, h] at hmem
  exact absurd hmem (by decide)

/-- insertions with different new keys keep what was there and add what they bring -/
theorem get?_foldl_insert (ps : List (κ × α)) (m : SortedMap κ α) (hnd : (ps.map Prod.fst).Nodup)
    (hnew : ∀ k ∈ ps.map Prod.fst, m.get? k = none) (k : κ) (a : α) :
    (ps.foldl (fun m p => m.insert p.1 p.2) m).get? k = some a ↔
      m.get? k = some a ∨ (k, a) ∈ ps := by
  induction ps generalizing m with
  | nil => simp
  | cons p ps ih =>
    rw [List.map_cons] at hnd hnew
    obtain ⟨hp, hnd'⟩ := List.nodup_cons.mp hnd
    have hnew' : ∀ k ∈ ps.map Prod.fst, (m.insert p.1 p.2).get? k = none := by
      intro k' hk'
      have hne : k' ≠ p.1 := fun h => hp (h ▸ hk')
      rw [get?_insert_of_ne _ _ _ _ hne]
      exact hnew k' (List.mem_cons_of_mem _ hk')
    rw [List.foldl_cons, ih (m.insert p.1 p.2) hnd' hnew', List.mem_cons]
    by_cases hk : k = p.1
    · rw [hk, get?_insert_self, hnew p.1 List.mem_cons_self]
      constructor
      · rintro (ha | hmem)
        · exact .inr (.inl (Prod.ext rfl (Option.some.inj ha).symm))
        · exact .inr (.inr hmem)
      · rintro (ha | hp' | hmem)
        · exact absurd ha (by simp)
        · exact .inl (congrArg some (congrArg Prod.snd hp').symm)
        · exact .inr hmem
    · rw [get?_insert_of_ne _ _ _ _ hk]
      constructor
      · rintro (ha | hmem)
        · exact .inl ha
        · exact .inr (.inr hmem)
      · rintro (ha | hp' | hmem)
        · exact .inl ha
        · exact absurd (congrArg Prod.fst hp') hk
        · exact .inr hmem

theorem ofList_concat (ps : List (κ × α)) (p : κ × α) :
    ofList (ps ++ [p]) = (ofList ps).insert p.1 p.2 := by
  unfold ofList
  rw [List.foldl_append]
  rfl

theorem entries_ofList (ps : List (κ × α)) (h : ps.Pairwise fun x y => compare x.1 y.1 = .lt) :
    (ofList ps).entries = ps := by
  induction ps using List.reverseRecOn with
  | nil => rfl
  | append_singleton ps p ih =>
    obtain ⟨hps, -, hlast⟩ := List.pairwise_append.mp h
    have hentries := ih hps
    rw [ofList_concat, entries_insert_of_lt, hentries]
    intro e he
    rw [hentries] at he
    exact hlast e he p List.mem_cons_self

/-- the last pair with a key gives its value -/
theorem get?_ofList (ps : List (κ × α)) (k : κ) :
    (ofList ps).get? k = (ps.reverse.find? fun p => compare k p.1 == .eq).map Prod.snd := by
  induction ps using List.reverseRecOn with
  | nil => rfl
  | append_singleton ps p ih =>
    rw [ofList_concat, get?_insert, List.reverse_append, List.reverse_singleton,
      List.singleton_append, List.find?_cons, ih]
    cases compare k p.1 <;> rfl

theorem exists_mem_ofList_iff (ps : List (κ × α)) (k : κ) :
    (∃ a, (k, a) ∈ (ofList ps).entries) ↔ k ∈ ps.map Prod.fst := by
  have hget : (∃ a, (k, a) ∈ (ofList ps).entries) ↔ ((ofList ps).get? k).isSome = true := by
    simp only [Option.isSome_iff_exists, get?_eq_some_iff]
  rw [hget, get?_ofList, Option.isSome_map, List.find?_isSome]
  simp only [List.mem_reverse, beq_iff_eq, Std.LawfulEqCmp.compare_eq_iff_eq, List.mem_map,
    @eq_comm κ k]

end

/-- the last key is the greatest one -/
theorem lastKey?_eq_some {m : SortedMap κ α} {k : κ} (h : m.lastKey? = some k) :
    ∃ a, m.entries.getLast? = some (k, a) ∧ (k, a) ∈ m.entries ∧
      ∀ e ∈ m.entries, e = (k, a) ∨ compare e.1 k = .lt := by
  obtain ⟨⟨k', a⟩, hlast, rfl⟩ := Option.map_eq_some_iff.mp h
  refine ⟨a, hlast, List.mem_of_getLast? hlast, fun e he => ?_⟩
  obtain ⟨es, hes⟩ := List.getLast?_eq_some_iff.mp hlast
  have hsorted := m.sorted
  rw [hes] at he hsorted
  rcases List.mem_append.mp he with he' | he'
  · exact .inr ((List.pairwise_append.mp hsorted).2.2 e he' _ List.mem_cons_self)
  · exact .inl (List.mem_singleton.mp he')

theorem lastKey?_eq_none {m : SortedMap κ α} (h : m.lastKey? = none) : m.entries = [] := by
  unfold lastKey? at h
  rwa [Option.map_eq_none_iff, List.getLast?_eq_none_iff] at h

end TinyCpu.SortedMap
