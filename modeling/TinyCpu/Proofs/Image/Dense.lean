import TinyCpu.Image
import TinyCpu.Proofs.SortedMap

/-!
# Dense images

* `dense_eq_foldl_set`       the dense image is zeros, with every stored byte put at its address;
* `length_dense_ofList`      the dense image ends with the greatest stored address;
* `getElem?_dense_ofList`    at each address it holds the byte stored last, or zero.
-/

namespace TinyCpu.Image

abbrev Ascending (es : List (UInt32 × UInt8)) : Prop :=
  es.Pairwise fun x y => compare x.1 y.1 = .lt

theorem toNat_lt_of_compare {a b : UInt32} (h : compare a b = .lt) : a.toNat < b.toNat :=
  UInt32.lt_iff_toNat_lt.mp (Std.compare_eq_lt.mp h)

theorem Ascending.head_lt {a : UInt32} {b : UInt8} {es : List (UInt32 × UInt8)}
    (h : Ascending ((a, b) :: es)) : ∀ e ∈ es, a.toNat + 1 ≤ e.1.toNat :=
  fun e he => toNat_lt_of_compare ((List.pairwise_cons.mp h).1 e he)

theorem length_denseFrom (start : Nat) (es : List (UInt32 × UInt8)) (hes : Ascending es)
    (hstart : ∀ e ∈ es, start ≤ e.1.toNat) :
    (denseFrom start es).length = (es.getLast?.map fun e => e.1.toNat + 1 - start).getD 0 := by
  induction es generalizing start with
  | nil => rfl
  | cons e es ih =>
    obtain ⟨a, b⟩ := e
    have ha : start ≤ a.toNat := hstart (a, b) List.mem_cons_self
    rw [denseFrom, List.length_append, List.length_replicate, List.length_cons,
      ih (a.toNat + 1) (List.pairwise_cons.mp hes).2 hes.head_lt, List.getLast?_cons]
    cases hlast : es.getLast? with
    | none =>
      show a.toNat - start + (0 + 1) = a.toNat + 1 - start
      omega
    | some e =>
      have he : a.toNat + 1 ≤ e.1.toNat := hes.head_lt e (List.mem_of_getLast? hlast)
      show a.toNat - start + (e.1.toNat + 1 - (a.toNat + 1) + 1) = e.1.toNat + 1 - start
      omega

/-- the byte of an address, `start` places further to the front -/
theorem getD_denseFrom (start : Nat) (es : List (UInt32 × UInt8)) (hes : Ascending es)
    (hstart : ∀ e ∈ es, start ≤ e.1.toNat) (k : UInt32) (hk : start ≤ k.toNat) :
    ((denseFrom start es)[k.toNat - start]?).getD 0 = (SortedMap.find k es).getD 0 := by
  induction es generalizing start with
  | nil => rfl
  | cons e es ih =>
    obtain ⟨a, b⟩ := e
    have ha : start ≤ a.toNat := hstart (a, b) List.mem_cons_self
    rw [denseFrom, SortedMap.find]
    rcases Nat.lt_trichotomy k.toNat a.toNat with hlt | heq | hgt
    · -- in the gap before the head: no entry has this address
      have hnone : SortedMap.find k ((a, b) :: es) = none := by
        rw [Option.eq_none_iff_forall_ne_some]
        intro c hc
        rcases List.mem_cons.mp ((SortedMap.find_eq_some_iff k c _ hes).mp hc) with hmem | hmem
        · have hka : k = a := congrArg Prod.fst hmem
          rw [hka] at hlt
          omega
        · have hak : a.toNat + 1 ≤ k.toNat := hes.head_lt _ hmem
          omega
      rw [SortedMap.find] at hnone
      rw [hnone, List.getElem?_append_left (by rw [List.length_replicate]; omega),
        List.getElem?_replicate_of_lt (by omega)]
      rfl
    · have hka : k = a := UInt32.toNat_inj.mp heq
      rw [hka, if_pos Std.ReflCmp.compare_self,
        List.getElem?_append_right (Nat.le_of_eq List.length_replicate), List.length_replicate,
        Nat.sub_self]
      rfl
    · -- behind the head: what is left starts one past its address
      have hne : ¬ compare k a = .eq := by
        intro h
        have hka : k = a := Std.LawfulEqCmp.eq_of_compare h
        rw [hka] at hgt
        omega
      have hindex : k.toNat - start - (a.toNat - start) = k.toNat - (a.toNat + 1) + 1 := by omega
      rw [if_neg hne, List.getElem?_append_right (by rw [List.length_replicate]; omega),
        List.length_replicate, hindex, List.getElem?_cons_succ]
      exact ih (a.toNat + 1) (List.pairwise_cons.mp hes).2 hes.head_lt hgt

/-! ## The whole image -/

theorem length_dense (m : Image) :
    m.dense.length = (m.lastKey?.map fun a => a.toNat + 1).getD 0 := by
  unfold dense SortedMap.lastKey?
  rw [length_denseFrom 0 m.entries m.sorted (fun _ _ => Nat.zero_le _), Option.map_map]
  rfl

theorem length_dense_le (m : Image) : m.dense.length ≤ UInt32.size := by
  rw [length_dense]
  cases m.lastKey? with
  | none => exact Nat.zero_le _
  | some a => exact a.toNat_lt

/-- the dense image is the look-ups in the image, with zero for those that find nothing -/
theorem getD_getElem?_dense (m : Image) (k : UInt32) :
    (m.dense[k.toNat]?).getD 0 = (m.get? k).getD 0 :=
  getD_denseFrom 0 m.entries m.sorted (fun _ _ => Nat.zero_le _) k (Nat.zero_le _)

theorem getElem?_dense (m : Image) (k : UInt32) (h : k.toNat < m.dense.length) :
    m.dense[k.toNat]? = some ((m.get? k).getD 0) := by
  rw [← getD_getElem?_dense, List.getElem?_eq_getElem h]
  rfl

/-- the end of the image is the length of its dense form, unless its last byte is at the last
address of all -/
theorem toNat_endAddress (m : Image) (h : m.dense.length < UInt32.size) :
    m.endAddress.toNat = m.dense.length := by
  rw [length_dense] at h ⊢
  unfold endAddress
  cases hlast : m.lastKey? with
  | none => rfl
  | some a =>
    rw [hlast] at h
    show (a + 1).toNat = a.toNat + 1
    rw [UInt32.toNat_add]
    exact Nat.mod_eq_of_lt h

theorem toNat_lt_length_dense (m : Image) (k : UInt32) (h : m.contains k = true) :
    k.toNat < m.dense.length := by
  obtain ⟨e, he, rfl⟩ := List.mem_map.mp ((SortedMap.contains_iff m k).mp h)
  rw [length_dense]
  cases hlast : m.lastKey? with
  | none =>
    rw [SortedMap.lastKey?_eq_none hlast] at he
    exact absurd he List.not_mem_nil
  | some a =>
    obtain ⟨c, -, -, hmax⟩ := SortedMap.lastKey?_eq_some hlast
    show e.1.toNat < a.toNat + 1
    rcases hmax e he with heq | hlt
    · rw [heq]
      exact Nat.lt_succ_self a.toNat
    · have hka := toNat_lt_of_compare hlt
      omega

/-! ## Bytes written one by one -/

theorem length_foldl_set (es : List (UInt32 × UInt8)) (bytes : List UInt8) :
    (es.foldl (fun bytes e => bytes.set e.1.toNat e.2) bytes).length = bytes.length := by
  induction es generalizing bytes with
  | nil => rfl
  | cons e es ih => exact (ih _).trans List.length_set

/-- bytes written one after the other, each at its address, into room that is large enough -/
theorem getElem?_foldl_set (es : List (UInt32 × UInt8)) (hes : Ascending es)
    (bytes : List UInt8) (k : UInt32) (hk : k.toNat < bytes.length) :
    (es.foldl (fun bytes e => bytes.set e.1.toNat e.2) bytes)[k.toNat]? =
      some ((SortedMap.find k es).getD bytes[k.toNat]) := by
  induction es generalizing bytes with
  | nil => exact List.getElem?_eq_getElem hk
  | cons e es ih =>
    obtain ⟨hhead, htail⟩ := List.pairwise_cons.mp hes
    have hk' : k.toNat < (bytes.set e.1.toNat e.2).length := by rwa [List.length_set]
    rw [List.foldl_cons, ih htail _ hk', SortedMap.find]
    by_cases heq : compare k e.1 = .eq
    · -- written here, and not again: the addresses after it are greater
      obtain rfl : k = e.1 := Std.LawfulEqCmp.eq_of_compare heq
      have hnone : SortedMap.find e.1 es = none :=
        SortedMap.find_eq_none fun x hx => by simp [hhead x hx]
      rw [hnone, if_pos heq, Option.getD_none, Option.getD_some, List.getElem_set_self]
    · have hne : e.1.toNat ≠ k.toNat := by
        intro h
        rw [UInt32.toNat_inj.mp h] at heq
        exact heq Std.ReflCmp.compare_self
      rw [if_neg heq, List.getElem_set_ne hne]

/-- bytes that are the look-ups in an image are made of zeros by writing every byte of the image at
its address -/
theorem eq_foldl_set (m : Image) (bytes : List UInt8) (hlen : bytes.length ≤ UInt32.size)
    (h : ∀ i < bytes.length, bytes[i]? = some ((m.get? (UInt32.ofNat i)).getD 0)) :
    bytes = m.entries.foldl (fun bytes e => bytes.set e.1.toNat e.2)
      (List.replicate bytes.length 0) := by
  apply List.ext_getElem?
  intro i
  by_cases hi : i < bytes.length
  · have hkey : (UInt32.ofNat i).toNat = i :=
      UInt32.toNat_ofNat_of_lt (Nat.lt_of_lt_of_le hi hlen)
    have hset := getElem?_foldl_set m.entries m.sorted (List.replicate bytes.length 0)
      (UInt32.ofNat i) (by rw [hkey, List.length_replicate]; exact hi)
    rw [List.getElem_replicate, hkey] at hset
    exact (h i hi).trans hset.symm
  · rw [List.getElem?_eq_none (Nat.le_of_not_lt hi), List.getElem?_eq_none]
    rw [length_foldl_set, List.length_replicate]
    exact Nat.le_of_not_lt hi

theorem dense_eq_foldl_set (m : Image) :
    m.dense = m.entries.foldl (fun bytes e => bytes.set e.1.toNat e.2)
      (List.replicate m.dense.length 0) := by
  refine m.eq_foldl_set m.dense m.length_dense_le fun i hi => ?_
  have hkey : (UInt32.ofNat i).toNat = i :=
    UInt32.toNat_ofNat_of_lt (Nat.lt_of_lt_of_le hi m.length_dense_le)
  have hbyte := m.getElem?_dense (UInt32.ofNat i) (by rw [hkey]; exact hi)
  rwa [hkey] at hbyte

/-! ## Images of stores, one after the other -/

theorem max?_addresses (ps : List (UInt32 × UInt8)) :
    (ps.map fun p => p.1.toNat).max? = (SortedMap.ofList ps).lastKey?.map UInt32.toNat := by
  cases hlast : (SortedMap.ofList ps).lastKey? with
  | none =>
    cases ps with
    | nil => rfl
    | cons p ps =>
      obtain ⟨a, ha⟩ := (SortedMap.exists_mem_ofList_iff (p :: ps) p.1).mpr List.mem_cons_self
      rw [SortedMap.lastKey?_eq_none hlast] at ha
      exact absurd ha List.not_mem_nil
  | some k =>
    obtain ⟨a, -, hk, hmax⟩ := SortedMap.lastKey?_eq_some hlast
    rw [Option.map_some, List.max?_eq_some_iff]
    constructor
    · obtain ⟨p, hp, hpk⟩ := List.mem_map.mp ((SortedMap.exists_mem_ofList_iff ps k).mp ⟨a, hk⟩)
      exact List.mem_map.mpr ⟨p, hp, by rw [hpk]⟩
    · intro n hn
      obtain ⟨p, hp, rfl⟩ := List.mem_map.mp hn
      obtain ⟨c, hc⟩ := (SortedMap.exists_mem_ofList_iff ps p.1).mpr (List.mem_map_of_mem hp)
      rcases hmax _ hc with heq | hlt
      · exact Nat.le_of_eq (congrArg (UInt32.toNat ∘ Prod.fst) heq)
      · exact Nat.le_of_lt (toNat_lt_of_compare hlt)

theorem length_dense_ofList (ps : List (UInt32 × UInt8)) :
    (dense (SortedMap.ofList ps)).length
      = ((ps.map fun p => p.1.toNat).max?.map (· + 1)).getD 0 := by
  rw [length_dense, max?_addresses, Option.map_map]
  rfl

/-- the byte stored last at an address -/
def stored? (ps : List (UInt32 × UInt8)) (i : Nat) : Option UInt8 :=
  (ps.reverse.find? fun p => p.1.toNat == i).map Prod.snd

theorem getElem?_dense_ofList (ps : List (UInt32 × UInt8)) (i : Nat)
    (h : i < (dense (SortedMap.ofList ps)).length) :
    (dense (SortedMap.ofList ps))[i]? = some ((stored? ps i).getD 0) := by
  have hkey : (UInt32.ofNat i).toNat = i :=
    UInt32.toNat_ofNat_of_lt (Nat.lt_of_lt_of_le h (length_dense_le _))
  have htest : (fun p : UInt32 × UInt8 => compare (UInt32.ofNat i) p.1 == .eq)
      = fun p => p.1.toNat == i := by
    funext p
    rw [Bool.eq_iff_iff, beq_iff_eq, beq_iff_eq, Std.LawfulEqCmp.compare_eq_iff_eq,
      ← UInt32.toNat_inj, hkey, eq_comm]
  have hbyte := getElem?_dense (SortedMap.ofList ps) (UInt32.ofNat i) (by rw [hkey]; exact h)
  rwa [hkey, SortedMap.get?_ofList, htest] at hbyte

end TinyCpu.Image
