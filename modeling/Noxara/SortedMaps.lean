import Mathlib

/-! Maps whose entries are kept in the order of their keys. -/
namespace Noxara

/-- `sorted` makes every key have one entry. -/
structure SortedMap (κ υ : Type) [LT κ] where
  entries : List (κ × υ)
  sorted : entries.Pairwise fun a b => a.1 < b.1

namespace SortedMap
variable {κ υ : Type} [LinearOrder κ]

def empty : SortedMap κ υ := ⟨[], .nil⟩

def keys (m : SortedMap κ υ) : List κ := m.entries.map Prod.fst

def get (m : SortedMap κ υ) (k : κ) : Option υ := (m.entries.find? fun e => e.1 = k).map Prod.snd

/-- Put an entry in its place, instead of the one with its key. -/
def place (k : κ) (v : υ) : List (κ × υ) → List (κ × υ)
  | [] => [(k, v)]
  | e :: es => if k < e.1 then (k, v) :: e :: es else if k = e.1 then (k, v) :: es else e :: place k v es

theorem mem_place {k : κ} {v : υ} {e : κ × υ} {es : List (κ × υ)} (h : e ∈ place k v es) :
    e = (k, v) ∨ e ∈ es := by
  induction es with
  | nil => exact .inl (List.mem_singleton.mp h)
  | cons x xs ih =>
    simp only [place] at h
    split_ifs at h
    · simpa using h
    · rcases List.mem_cons.mp h with h | h
      · exact .inl h
      · exact .inr (List.mem_cons_of_mem _ h)
    · rcases List.mem_cons.mp h with h | h
      · exact .inr (h ▸ List.mem_cons_self)
      · exact (ih h).imp_right (List.mem_cons_of_mem _)

theorem sorted_place (k : κ) (v : υ) {es : List (κ × υ)} (h : es.Pairwise fun a b => a.1 < b.1) :
    (place k v es).Pairwise fun a b => a.1 < b.1 := by
  induction h with
  | nil => exact List.pairwise_singleton _ _
  | @cons x xs hx hxs ih =>
    simp only [place]
    split_ifs with hlt heq
    · refine .cons ?_ (.cons hx hxs)
      intro e he
      rcases List.mem_cons.mp he with rfl | he
      · exact hlt
      · exact lt_trans hlt (hx e he)
    · refine .cons ?_ hxs
      intro e he
      rw [heq]
      exact hx e he
    · refine .cons ?_ ih
      intro e he
      rcases mem_place he with rfl | he
      · exact lt_of_le_of_ne (not_lt.mp hlt) (Ne.symm heq)
      · exact hx e he

def insert (m : SortedMap κ υ) (k : κ) (v : υ) : SortedMap κ υ :=
    ⟨place k v m.entries, sorted_place k v m.sorted⟩

theorem ext {m n : SortedMap κ υ} (h : m.entries = n.entries) : m = n := by
  obtain ⟨es, hs⟩ := m
  obtain ⟨fs, ht⟩ := n
  subst h
  rfl

@[simp] theorem get_insert_self (m : SortedMap κ υ) (k : κ) (v : υ) : (m.insert k v).get k = some v := by
  obtain ⟨es, hs⟩ := m
  induction es with
  | nil => simp [get, insert, place]
  | cons e es ih =>
    simp only [get, insert, place] at ih ⊢
    split_ifs with hlt heq
    · simp
    · simp
    · rw [List.find?_cons_of_neg (by simpa using Ne.symm heq)]
      exact ih hs.of_cons

theorem get_insert_ne (m : SortedMap κ υ) {j k : κ} (v : υ) (h : j ≠ k) : (m.insert k v).get j = m.get j := by
  obtain ⟨es, hs⟩ := m
  induction es with
  | nil => simp [get, insert, place, h.symm]
  | cons e es ih =>
    simp only [get, insert, place] at ih ⊢
    split_ifs with hlt heq
    · rw [List.find?_cons_of_neg (by simpa using h.symm)]
    · rw [List.find?_cons_of_neg (by simpa using h.symm), List.find?_cons_of_neg (by simpa [← heq] using h.symm)]
    · by_cases he : e.1 = j
      · simp [he]
      · rw [List.find?_cons_of_neg (by simpa using he), List.find?_cons_of_neg (by simpa using he)]
        exact ih hs.of_cons

theorem mem_keys_insert {m : SortedMap κ υ} {j k : κ} {v : υ} (h : j ∈ (m.insert k v).keys) :
    j = k ∨ j ∈ m.keys := by
  obtain ⟨e, he, rfl⟩ := List.mem_map.mp h
  rcases mem_place he with rfl | he
  · exact .inl rfl
  · exact .inr (List.mem_map_of_mem he)

end SortedMap

end Noxara
