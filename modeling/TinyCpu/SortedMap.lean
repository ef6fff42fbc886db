/-!
# Sorted maps

A finite map kept as its entries in strictly ascending key order.  The order is part of the type,
so two maps with the same look-ups are equal and the entries come out in key order.

* `get?`, `insert`, `erase`   look-up and change at one key;
* `get?_insert`, `get?_erase`   what a change does to every look-up;
* `ext_get?`                  a map is its look-ups.
-/

namespace TinyCpu

/-- a finite map, as its entries in strictly ascending key order -/
structure SortedMap (κ α : Type) [Ord κ] where
  entries : List (κ × α)
  sorted : entries.Pairwise fun a b => compare a.1 b.1 = .lt

namespace SortedMap
variable {κ α : Type} [Ord κ]

/-! ## Entry lists -/

def find (k : κ) : List (κ × α) → Option α
  | [] => none
  | e :: es => if compare k e.1 = .eq then some e.2 else find k es

/-- a list of entries with the value at a key put in its place -/
def put (k : κ) (a : α) : List (κ × α) → List (κ × α)
  | [] => [(k, a)]
  | e :: es =>
    match compare k e.1 with
    | .lt => (k, a) :: e :: es
    | .eq => (k, a) :: es
    | .gt => e :: put k a es

theorem mem_put {k : κ} {a : α} {x : κ × α} {es : List (κ × α)} (h : x ∈ put k a es) :
    x = (k, a) ∨ x ∈ es := by
  induction es with
  | nil => simpa [put] using h
  | cons e es ih =>
    simp only [put] at h
    split at h
    · simpa using h
    · rcases List.mem_cons.mp h with rfl | h'
      · exact .inl rfl
      · exact .inr (List.mem_cons_of_mem _ h')
    · rcases List.mem_cons.mp h with rfl | h'
      · exact .inr List.mem_cons_self
      · rcases ih h' with rfl | h''
        · exact .inl rfl
        · exact .inr (List.mem_cons_of_mem _ h'')

theorem sorted_put [Std.TransOrd κ] [Std.LawfulEqOrd κ] (k : κ) (a : α) {es : List (κ × α)}
    (h : es.Pairwise fun a b => compare a.1 b.1 = .lt) :
    (put k a es).Pairwise fun a b => compare a.1 b.1 = .lt := by
  induction es with
  | nil => simp [put]
  | cons e es ih =>
    obtain ⟨hhead, htail⟩ := List.pairwise_cons.mp h
    simp only [put]
    split
    · next hlt =>
      refine List.pairwise_cons.mpr ⟨fun x hx => ?_, h⟩
      rcases List.mem_cons.mp hx with rfl | hx'
      · exact hlt
      · exact Std.TransCmp.lt_trans hlt (hhead x hx')
    · next heq =>
      have hk : k = e.1 := Std.LawfulEqCmp.eq_of_compare heq
      exact List.pairwise_cons.mpr ⟨fun x hx => by simpa [hk] using hhead x hx, htail⟩
    · next hgt =>
      refine List.pairwise_cons.mpr ⟨fun x hx => ?_, ih htail⟩
      rcases mem_put hx with rfl | hx'
      · exact Std.OrientedCmp.lt_of_gt hgt
      · exact hhead x hx'

/-! ## Maps -/

def empty : SortedMap κ α := ⟨[], .nil⟩

instance : EmptyCollection (SortedMap κ α) := ⟨empty⟩

instance : Inhabited (SortedMap κ α) := ⟨empty⟩

def get? (m : SortedMap κ α) (k : κ) : Option α := find k m.entries

def contains (m : SortedMap κ α) (k : κ) : Bool := (m.get? k).isSome

def size (m : SortedMap κ α) : Nat := m.entries.length

def isEmpty (m : SortedMap κ α) : Bool := m.entries.isEmpty

def lastKey? (m : SortedMap κ α) : Option κ := m.entries.getLast?.map Prod.fst

def insert [Std.TransOrd κ] [Std.LawfulEqOrd κ] (m : SortedMap κ α) (k : κ) (a : α) :
    SortedMap κ α :=
  ⟨put k a m.entries, sorted_put k a m.sorted⟩

def erase (m : SortedMap κ α) (k : κ) : SortedMap κ α :=
  ⟨m.entries.filter fun e => compare k e.1 != .eq, m.sorted.filter _⟩

/-- the map of a list of pairs; a later pair replaces an earlier one with its key -/
def ofList [Std.TransOrd κ] [Std.LawfulEqOrd κ] (ps : List (κ × α)) : SortedMap κ α :=
  ps.foldl (fun m p => m.insert p.1 p.2) empty

@[ext] theorem ext_entries {m n : SortedMap κ α} (h : m.entries = n.entries) : m = n := by
  cases m; cases n; simp_all

instance [DecidableEq κ] [DecidableEq α] : DecidableEq (SortedMap κ α) := fun m n =>
  decidable_of_iff (m.entries = n.entries) ⟨ext_entries, congrArg entries⟩

/-! ## Look-ups -/

@[simp] theorem get?_empty (k : κ) : (empty : SortedMap κ α).get? k = none := rfl

theorem find_eq_none {k : κ} {es : List (κ × α)} (h : ∀ e ∈ es, compare k e.1 ≠ .eq) :
    find k es = none := by
  induction es with
  | nil => rfl
  | cons e es ih =>
    rw [find, if_neg (h e List.mem_cons_self)]
    exact ih fun x hx => h x (List.mem_cons_of_mem _ hx)

theorem find_put [Std.TransOrd κ] [Std.LawfulEqOrd κ] (k k' : κ) (a : α) (es : List (κ × α)) :
    find k' (put k a es) = if compare k' k = .eq then some a else find k' es := by
  induction es with
  | nil => rfl
  | cons e es ih =>
    simp only [put]
    split
    · rfl
    · next heq =>
      obtain rfl : k = e.1 := Std.LawfulEqCmp.eq_of_compare heq
      by_cases h : compare k' e.1 = .eq <;> simp [find, h]
    · next hgt =>
      by_cases h : compare k' e.1 = .eq
      · obtain rfl : k' = e.1 := Std.LawfulEqCmp.eq_of_compare h
        simp [find, Std.OrientedCmp.lt_of_gt hgt]
      · simp [find, h, ih]

/-- an insertion sets the value at its key and nothing else -/
theorem get?_insert [Std.TransOrd κ] [Std.LawfulEqOrd κ] (m : SortedMap κ α) (k k' : κ) (a : α) :
    (m.insert k a).get? k' = if compare k' k = .eq then some a else m.get? k' :=
  find_put k k' a m.entries

/-- an erasure removes its key and nothing else -/
theorem get?_erase [Std.LawfulEqOrd κ] (m : SortedMap κ α) (k k' : κ) :
    (m.erase k).get? k' = if compare k' k = .eq then none else m.get? k' := by
  have key : ∀ es : List (κ × α), find k' (es.filter fun e => compare k e.1 != .eq) =
      if compare k' k = .eq then none else find k' es := by
    intro es
    induction es with
    | nil => simp [find]
    | cons e es ih =>
      by_cases hk : compare k e.1 = .eq
      · obtain rfl : k = e.1 := Std.LawfulEqCmp.eq_of_compare hk
        rw [List.filter_cons_of_neg (by simp), ih]
        by_cases h : compare k' e.1 = .eq <;> simp [find, h]
      · rw [List.filter_cons_of_pos (by simpa using hk), find, ih]
        by_cases h : compare k' e.1 = .eq
        · obtain rfl : k' = e.1 := Std.LawfulEqCmp.eq_of_compare h
          have hne : compare e.1 k ≠ .eq := fun he => hk (by
            obtain rfl : e.1 = k := Std.LawfulEqCmp.eq_of_compare he
            simp)
          simp [find, hne]
        · simp [find, h]
  exact key m.entries

theorem eq_of_find_eq [Std.TransOrd κ] [Std.LawfulEqOrd κ] :
    ∀ {es fs : List (κ × α)}, es.Pairwise (fun a b => compare a.1 b.1 = .lt) →
      fs.Pairwise (fun a b => compare a.1 b.1 = .lt) → (∀ k, find k es = find k fs) → es = fs
  | [], [], _, _, _ => rfl
  | [], f :: fs, _, _, h => by simpa [find] using h f.1
  | e :: es, [], _, _, h => by simpa [find] using h e.1
  | e :: es, f :: fs, hes, hfs, h => by
    obtain ⟨he, hes⟩ := List.pairwise_cons.mp hes
    obtain ⟨hf, hfs⟩ := List.pairwise_cons.mp hfs
    have absent {k : κ} {xs : List (κ × α)} (hk : ∀ x ∈ xs, compare k x.1 = .lt) :
        find k xs = none := find_eq_none fun x hx => by simp [hk x hx]
    have hke : compare e.1 f.1 = .eq := by
      cases hc : compare e.1 f.1 with
      | eq => rfl
      | lt =>
        have := h e.1
        rw [find, if_pos Std.ReflCmp.compare_self, absent] at this
        · simp at this
        · intro x hx
          rcases List.mem_cons.mp hx with rfl | hx'
          · exact hc
          · exact Std.TransCmp.lt_trans hc (hf x hx')
      | gt =>
        have hc' : compare f.1 e.1 = .lt := Std.OrientedCmp.lt_of_gt hc
        have := h f.1
        rw [find.eq_2 _ f fs, if_pos Std.ReflCmp.compare_self, absent] at this
        · simp at this
        · intro x hx
          rcases List.mem_cons.mp hx with rfl | hx'
          · exact hc'
          · exact Std.TransCmp.lt_trans hc' (he x hx')
    have hkey : e.1 = f.1 := Std.LawfulEqCmp.eq_of_compare hke
    have hval : e.2 = f.2 := by
      have := h e.1
      rw [find, find, if_pos Std.ReflCmp.compare_self, if_pos hke] at this
      exact Option.some.inj this
    have htail : es = fs := eq_of_find_eq hes hfs fun k => by
      by_cases hk : compare k e.1 = .eq
      · obtain rfl : k = e.1 := Std.LawfulEqCmp.eq_of_compare hk
        rw [absent he, absent fun x hx => hkey ▸ hf x hx]
      · have := h k
        rwa [find, find, if_neg hk, if_neg (hkey ▸ hk)] at this
    rw [htail, Prod.ext hkey hval]

/-- a map is its look-ups -/
theorem ext_get? [Std.TransOrd κ] [Std.LawfulEqOrd κ] {m n : SortedMap κ α}
    (h : ∀ k, m.get? k = n.get? k) : m = n :=
  ext_entries (eq_of_find_eq m.sorted n.sorted h)

end SortedMap
end TinyCpu
