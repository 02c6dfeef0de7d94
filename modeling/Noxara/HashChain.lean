import Mathlib.Data.List.Induction
import Mathlib.Data.List.Sort

/-! Records in a chain: each names the digest of the one before it. The chain is kept by appending
to the record that is the latest in the order in which it is checked. -/
namespace Noxara.HashChain

variable {ρ η : Type} {prev digest : ρ → η}

/-- Each record names its predecessor's digest, the first one `start`. -/
def Linked (prev digest : ρ → η) : η → List ρ → Prop
  | _, [] => True
  | start, r :: rs => prev r = start ∧ Linked prev digest (digest r) rs

/-- What the next record has to name. -/
def lastDigest (digest : ρ → η) (start : η) (rs : List ρ) : η := (rs.getLast?.map digest).getD start

@[simp] theorem lastDigest_nil (start : η) : lastDigest digest start [] = start := rfl

theorem lastDigest_cons (start : η) (r : ρ) (rs : List ρ) :
    lastDigest digest start (r :: rs) = lastDigest digest (digest r) rs := by
  cases rs with
  | nil => rfl
  | cons s ss => simp [lastDigest, List.getLast?_cons]

theorem linked_append {start : η} {rs : List ρ} {r : ρ} :
    Linked prev digest start (rs ++ [r]) ↔
      Linked prev digest start rs ∧ prev r = lastDigest digest start rs := by
  induction rs generalizing start with
  | nil => simp [Linked]
  | cons s ss ih => simp [Linked, ih, lastDigest_cons, and_assoc]

theorem lastDigest_append (start : η) (rs ss : List ρ) :
    lastDigest digest start (rs ++ ss) = lastDigest digest (lastDigest digest start rs) ss := by
  induction rs generalizing start with
  | nil => rfl
  | cons r rs ih => simp only [List.cons_append, lastDigest_cons, ih]

theorem linked_append_append {start : η} {rs ss : List ρ} :
    Linked prev digest start (rs ++ ss) ↔
      Linked prev digest start rs ∧ Linked prev digest (lastDigest digest start rs) ss := by
  induction rs generalizing start with
  | nil => simp [Linked]
  | cons r rs ih => simp [Linked, ih, lastDigest_cons, and_assoc]

theorem linked_map {f : ρ → ρ} (hprev : ∀ r, prev (f r) = prev r) (hdigest : ∀ r, digest (f r) = digest r)
    {start : η} {rs : List ρ} : Linked prev digest start (rs.map f) ↔ Linked prev digest start rs := by
  induction rs generalizing start with
  | nil => simp [Linked]
  | cons r rs ih => simp [Linked, hprev, hdigest, ih]

/-- Every record beside the digest of the one before it. -/
def lag (digest : ρ → η) (start : η) (rs : List ρ) : List (ρ × η) := rs.zip (start :: rs.map digest)

theorem lag_cons (start : η) (r : ρ) (rs : List ρ) :
    lag digest start (r :: rs) = (r, start) :: lag digest (digest r) rs := rfl

theorem fst_mem_of_mem_lag {start : η} {rs : List ρ} {x : ρ × η} (h : x ∈ lag digest start rs) :
    x.1 ∈ rs := (List.of_mem_zip h).1

theorem exists_mem_lag (digest : ρ → η) (start : η) {rs : List ρ} {r : ρ} (h : r ∈ rs) :
    ∃ x ∈ lag digest start rs, x.1 = r := by
  induction rs generalizing start with
  | nil => cases h
  | cons s ss ih =>
    rw [lag_cons]
    rcases List.mem_cons.mp h with rfl | h
    · exact ⟨_, List.mem_cons_self, rfl⟩
    · obtain ⟨x, hx, hr⟩ := ih (digest s) h
      exact ⟨x, List.mem_cons_of_mem _ hx, hr⟩

/-- Checking each record against its predecessor checks the chain. -/
theorem linked_iff_lag {start : η} {rs : List ρ} :
    Linked prev digest start rs ↔ ∀ x ∈ lag digest start rs, prev x.1 = x.2 := by
  induction rs generalizing start with
  | nil => simp [Linked, lag]
  | cons r rs ih => simp [Linked, lag_cons, ih]

section Order
variable {κ : Type} [LinearOrder κ] {key : ρ → κ} {rs : List ρ} {r : ρ}

/-- The records in the order of their keys. -/
def ascending (key : ρ → κ) (rs : List ρ) : List ρ := rs.insertionSort fun a b => key a ≤ key b

/-- The first record in descending order. -/
def latest (key : ρ → κ) (rs : List ρ) : Option ρ :=
  (rs.insertionSort fun a b => key b ≤ key a).head?

theorem mem_ascending : r ∈ ascending key rs ↔ r ∈ rs :=
  (List.perm_insertionSort (fun a b : ρ => key a ≤ key b) rs).mem_iff

theorem pairwise_ascending (key : ρ → κ) (rs : List ρ) : (ascending key rs).Pairwise fun a b => key a ≤ key b :=
  List.pairwise_insertionSort (fun a b : ρ => key a ≤ key b) rs

/-- Records that keep their keys keep their places. -/
theorem ascending_map {f : ρ → ρ} (hf : ∀ r, key (f r) = key r) (rs : List ρ) :
    ascending key (rs.map f) = (ascending key rs).map f := by
  refine (List.map_insertionSort (r := fun a b : ρ => key a ≤ key b) (s := fun a b : ρ => key a ≤ key b)
    f rs fun a _ b _ => ?_).symm
  rw [hf, hf]

/-- Leaving records out leaves the others in their order, where no two have one key. -/
theorem ascending_filter (p : ρ → Bool) (hkey : ∀ r ∈ rs, ∀ s ∈ rs, key r = key s → r = s) :
    ascending key (rs.filter p) = (ascending key rs).filter p := by
  have hperm : (ascending key (rs.filter p)).Perm ((ascending key rs).filter p) :=
    (List.perm_insertionSort (fun a b : ρ => key a ≤ key b) _).trans
      ((List.perm_insertionSort (fun a b : ρ => key a ≤ key b) rs).symm.filter p)
  refine @List.Perm.eq_of_pairwise _ (fun a b => key a ≤ key b) _ _ (fun a b ha hb hab hba => ?_)
    (pairwise_ascending key _) ((pairwise_ascending key rs).filter p) hperm
  have ha' := (List.mem_filter.mp (mem_ascending.mp ha)).1
  have hb' := mem_ascending.mp (List.mem_filter.mp hb).1
  exact hkey a ha' b hb' (le_antisymm hab hba)

theorem ascending_of_pairwise (h : rs.Pairwise fun a b => key a < key b) : ascending key rs = rs :=
  List.Pairwise.insertionSort_eq (h.imp le_of_lt)

theorem latest_append (h : ∀ s ∈ rs, key s < key r) : latest key (rs ++ [r]) = some r := by
  have hperm := List.perm_insertionSort (fun a b : ρ => key b ≤ key a) (rs ++ [r])
  have hsorted := List.pairwise_insertionSort (fun a b : ρ => key b ≤ key a) (rs ++ [r])
  have hmem : r ∈ (rs ++ [r]).insertionSort fun a b => key b ≤ key a := by simp
  unfold latest
  cases hl : (rs ++ [r]).insertionSort fun a b => key b ≤ key a with
  | nil =>
    rw [hl] at hmem
    cases hmem
  | cons s ss =>
    rw [hl] at hperm hsorted hmem
    have hs : s ∈ rs ++ [r] := hperm.mem_iff.mp List.mem_cons_self
    rcases List.mem_append.mp hs with hs | hs
    · -- an earlier record does not come before the last in descending order
      have hlt := h s hs
      rcases List.mem_cons.mp hmem with rfl | hr
      · exact absurd hlt (lt_irrefl _)
      · have hle := (List.pairwise_cons.mp hsorted).1 r hr
        exact absurd hlt (not_lt.mpr hle)
    · simpa using hs

theorem latest_of_pairwise (h : rs.Pairwise fun a b => key a < key b) : latest key rs = rs.getLast? := by
  induction rs using List.reverseRecOn with
  | nil => rfl
  | append_singleton rs r _ =>
    rw [List.pairwise_append] at h
    rw [latest_append fun s hs => h.2.2 s hs r (List.mem_singleton.mpr rfl)]
    simp

end Order

end Noxara.HashChain
